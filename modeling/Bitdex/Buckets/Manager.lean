import Bitdex.Query

/-!
# `Buckets.Manager` — precomputed bitmaps of recent slots

A time bucket holds the slots whose timestamp lies between `now - duration` and `now` (`time_buckets.rs`). Queries
read the bitmaps only (`TimeBucketManager`); the flush thread also keeps the time and the cutoff of the last refresh.
Every operation of the manager is a map of an operation on one bucket (`getBucket_mapBuckets`). Seconds are unbounded
here.
-/

namespace Bitdex

open List

/-! ## One bucket -/

/-- A bucket as the flush thread keeps it. -/
structure RangeBucket extends TimeBucket where
  refreshIntervalSecs : Nat
  lastRefreshed : Nat
  /-- The snapped cutoff of the last refresh. -/
  lastCutoff : Nat

namespace RangeBucket

variable (b : RangeBucket)

/-- A new bucket is empty and has never been refreshed. -/
def new (durationSecs refreshIntervalSecs : Nat) : RangeBucket := ⟨⟨durationSecs, ∅⟩, refreshIntervalSecs, 0, 0⟩

/-- The refresh interval has passed. -/
def needsRefresh (now : Nat) : Bool := decide (now - b.lastRefreshed ≥ b.refreshIntervalSecs)

/-- The timestamp lies in the window that ends now. -/
def covers (timestamp now : Nat) : Bool := decide (timestamp ≥ now - b.durationSecs ∧ timestamp ≤ now)

/-- A slot enters. -/
def insertSlot (slot : UInt32) : RangeBucket := { b with bitmap := insert slot b.bitmap }

/-- A slot leaves. -/
def removeSlot (slot : UInt32) : RangeBucket := { b with bitmap := b.bitmap.erase slot }

/-- Add a slot if its timestamp is in the window. A slot that is out of it stays as it was. -/
def insertCovered (slot : UInt32) (timestamp now : Nat) : RangeBucket :=
  if b.covers timestamp now then b.insertSlot slot else b

/-- Remove what has aged out and move the cutoff. -/
def subtractExpired (expired : Bitmap) (newCutoff now : Nat) : RangeBucket :=
  { b with bitmap := b.bitmap \ expired, lastCutoff := newCutoff, lastRefreshed := now }

variable {b} {x : UInt32} {slots : List UInt32} {ts : UInt32 → Nat} {now : Nat}

@[simp] theorem durationSecs_removeSlot (slot : UInt32) : (b.removeSlot slot).durationSecs = b.durationSecs := rfl

@[simp] theorem durationSecs_insertCovered (slot : UInt32) (t : Nat) :
    (b.insertCovered slot t now).durationSecs = b.durationSecs := by
  unfold insertCovered
  split <;> rfl

theorem mem_removeSlot {slot : UInt32} : x ∈ (b.removeSlot slot).bitmap ↔ x ≠ slot ∧ x ∈ b.bitmap := Finset.mem_erase

theorem mem_insertCovered {slot : UInt32} {t : Nat} :
    x ∈ (b.insertCovered slot t now).bitmap ↔ (x = slot ∧ b.covers t now = true) ∨ x ∈ b.bitmap := by
  unfold insertCovered
  split
  · next h => simp [insertSlot, h]
  · next h => simp [h]

/-! ## Loops over slots -/

/-- Some slots leave. -/
def removeSlots (b : RangeBucket) (slots : List UInt32) : RangeBucket := slots.foldl removeSlot b

/-- Add the slots whose timestamps are in the window. -/
def insertSlots (b : RangeBucket) (slots : List UInt32) (ts : UInt32 → Nat) (now : Nat) : RangeBucket :=
  slots.foldl (fun b slot => b.insertCovered slot (ts slot) now) b

/-- Judge slots anew: remove each and add it if its timestamp is in the window. -/
def replaceSlots (b : RangeBucket) (slots : List UInt32) (ts : UInt32 → Nat) (now : Nat) : RangeBucket :=
  slots.foldl (fun b slot => (b.removeSlot slot).insertCovered slot (ts slot) now) b

@[simp] theorem durationSecs_removeSlots : (b.removeSlots slots).durationSecs = b.durationSecs :=
  foldl_view (·.durationSecs) (by intros; rfl) b

@[simp] theorem durationSecs_insertSlots : (b.insertSlots slots ts now).durationSecs = b.durationSecs :=
  foldl_view (·.durationSecs) (by simp) b

@[simp] theorem durationSecs_replaceSlots : (b.replaceSlots slots ts now).durationSecs = b.durationSecs :=
  foldl_view (·.durationSecs) (by simp) b

/-- The window depends on the duration only. -/
theorem covers_congr {b' : RangeBucket} (h : b'.durationSecs = b.durationSecs) (t now : Nat) :
    b'.covers t now = b.covers t now := by
  unfold covers
  rw [h]

@[simp] theorem covers_removeSlots (t : Nat) : (b.removeSlots slots).covers t now = b.covers t now :=
  covers_congr durationSecs_removeSlots t now

@[simp] theorem covers_insertSlots (t : Nat) : (b.insertSlots slots ts now).covers t now = b.covers t now :=
  covers_congr durationSecs_insertSlots t now

theorem mem_removeSlots : x ∈ (b.removeSlots slots).bitmap ↔ x ∈ b.bitmap ∧ x ∉ slots := by
  rw [← forall_mem_ne]
  exact foldl_and_iff (fun b : RangeBucket => x ∈ b.bitmap) (by intros; exact mem_removeSlot.trans and_comm)

theorem mem_insertSlots :
    x ∈ (b.insertSlots slots ts now).bitmap ↔ x ∈ b.bitmap ∨ (x ∈ slots ∧ b.covers (ts x) now = true) := by
  unfold insertSlots
  induction slots generalizing b with
  | nil => simp
  | cons slot slots ih =>
    rw [foldl_cons, ih, mem_insertCovered, covers_congr (durationSecs_insertCovered slot (ts slot)), mem_cons]
    constructor
    · rintro ((⟨rfl, hcovers⟩ | hx) | ⟨hx, hcovers⟩)
      · exact .inr ⟨.inl rfl, hcovers⟩
      · exact .inl hx
      · exact .inr ⟨.inr hx, hcovers⟩
    · rintro (hx | ⟨rfl | hx, hcovers⟩)
      · exact .inl (.inr hx)
      · exact .inl (.inl ⟨rfl, hcovers⟩)
      · exact .inr ⟨hx, hcovers⟩

theorem mem_replaceSlots : x ∈ (b.replaceSlots slots ts now).bitmap ↔
      (x ∈ slots ∧ b.covers (ts x) now = true) ∨ (x ∉ slots ∧ x ∈ b.bitmap) := by
  unfold replaceSlots
  induction slots generalizing b with
  | nil => simp
  | cons slot slots ih =>
    have hduration : ((b.removeSlot slot).insertCovered slot (ts slot) now).durationSecs =
        b.durationSecs := by rw [durationSecs_insertCovered, durationSecs_removeSlot]
    rw [foldl_cons, ih, covers_congr hduration, mem_insertCovered,
      covers_congr (durationSecs_removeSlot slot), mem_removeSlot]
    by_cases hx : x = slot
    · subst hx
      by_cases hin : x ∈ slots <;> simp [hin]
    · simp [hx]

end RangeBucket

/-! ## The manager -/

/-- All buckets of one timestamp. Queries name the filter field; the values come from the sort field. -/
structure BucketManager where
  fieldName : String
  sortFieldName : String
  buckets : List (String × RangeBucket)

namespace BucketManager

variable (m : BucketManager)

/-- The bucket of a name. -/
def getBucket (name : String) : Option RangeBucket := m.buckets.lookup name

/-- An operation on every bucket. -/
def mapBuckets (f : RangeBucket → RangeBucket) : BucketManager :=
  { m with buckets := m.buckets.map fun e => (e.1, f e.2) }

/-- An operation on one bucket. -/
def modifyBucket (name : String) (f : RangeBucket → RangeBucket) : BucketManager :=
  { m with buckets := m.buckets.map fun e => (e.1, if e.1 = name then f e.2 else e.2) }

variable {m} {name name' : String}

theorem lookup_map_snd {β γ : Type} (f : String → β → γ) (entries : List (String × β)) :
    (entries.map fun e => (e.1, f e.1 e.2)).lookup name = (entries.lookup name).map (f name) := by
  induction entries with
  | nil => rfl
  | cons e entries ih =>
    rw [map_cons, lookup_cons, lookup_cons, ih]
    cases h : name == e.1 with
    | true => rw [eq_of_beq h]; rfl
    | false => rfl

theorem getBucket_mapBuckets {f : RangeBucket → RangeBucket} :
    (m.mapBuckets f).getBucket name = (m.getBucket name).map f :=
  lookup_map_snd (fun _ => f) m.buckets

end BucketManager

end Bitdex
