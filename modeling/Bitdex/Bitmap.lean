import Mathlib.Data.Finset.Basic
import Mathlib.Data.Finset.Sort
import Mathlib.Data.UInt
import Bitdex.Library.Run

/-!
# `Bitmap` — roaring bitmaps and their versioned form

The index stores every set of documents as a roaring bitmap, a finite set of `u32` slots, and wraps each stored bitmap
in a `VersionedBitmap` (`versioned_bitmap.rs`): a compacted `base` plus a `diff` of pending `sets` and `clears`. Every
read agrees with `fused`. Reference counts, generations and byte counts carry no bits and are left out.
-/

namespace Bitdex

open Finset

/-- `u32` slots, ordered by their numeric value. -/
instance slotOrder : LinearOrder UInt32 where
  le_refl a := UInt32.le_refl a
  le_trans _ _ _ h₁ h₂ := UInt32.le_trans h₁ h₂
  le_antisymm _ _ h₁ h₂ := UInt32.le_antisymm h₁ h₂
  le_total a b := UInt32.le_total a b
  lt_iff_le_not_ge a b := by
    rw [UInt32.lt_iff_toNat_lt, UInt32.le_iff_toNat_le, UInt32.le_iff_toNat_le]
    omega
  toDecidableLE := inferInstance

/-- A roaring bitmap: a finite set of slots. -/
abbrev Bitmap := Finset UInt32

/-- What holds of the slots of a bitmap is decided on these slots, not on all of `u32`. -/
instance (priority := 2000) decidableBallBitmap (s : Bitmap) (P : UInt32 → Prop) [DecidablePred P] :
    Decidable (∀ x ∈ s, P x) :=
  decidableDforallFinset

instance (priority := 2000) decidableBallList {α : Type} (l : List α) (P : α → Prop) [DecidablePred P] :
    Decidable (∀ x ∈ l, P x) :=
  List.decidableBAll P l

/-! ## Pending changes -/

/-- Pending changes to a bitmap. A bit is in `sets` or in `clears`, never in both. -/
structure BitmapDiff where
  sets : Bitmap
  clears : Bitmap
  disjoint : Disjoint sets clears

namespace BitmapDiff

/-- No pending changes. -/
def new : BitmapDiff := ⟨∅, ∅, disjoint_empty_left ∅⟩

/-- Nothing is pending. -/
def isEmpty (d : BitmapDiff) : Bool := decide (d.sets = ∅) && decide (d.clears = ∅)

/-- Mark a bit for insertion; it leaves `clears`. -/
def insert (d : BitmapDiff) (bit : UInt32) : BitmapDiff where
  sets := Insert.insert bit d.sets
  clears := d.clears.erase bit
  disjoint := by
    rw [disjoint_insert_left]
    exact ⟨notMem_erase bit d.clears, d.disjoint.mono_right (erase_subset bit d.clears)⟩

/-- Mark a bit for removal; it leaves `sets`. -/
def remove (d : BitmapDiff) (bit : UInt32) : BitmapDiff where
  sets := d.sets.erase bit
  clears := Insert.insert bit d.clears
  disjoint := by
    rw [disjoint_insert_right]
    exact ⟨notMem_erase bit d.sets, d.disjoint.mono_left (erase_subset bit d.sets)⟩

@[simp] theorem isEmpty_iff (d : BitmapDiff) : d.isEmpty = true ↔ d.sets = ∅ ∧ d.clears = ∅ := by
  simp [isEmpty]

end BitmapDiff

/-! ## Versioned bitmaps -/

/-- A bitmap with a diff layer. `isLoaded` is false while `base` is a placeholder for data on disk. -/
structure VersionedBitmap where
  base : Bitmap
  diff : BitmapDiff
  isLoaded : Bool

namespace VersionedBitmap

variable (vb : VersionedBitmap)

/-- A loaded bitmap without changes. -/
def new (base : Bitmap) : VersionedBitmap := ⟨base, .new, true⟩

/-- A loaded empty bitmap. -/
def newEmpty : VersionedBitmap := new ∅

/-- A placeholder for data on disk. -/
def newUnloaded : VersionedBitmap := ⟨∅, .new, false⟩

/-- Set a bit in the diff. -/
def insert (bit : UInt32) : VersionedBitmap := { vb with diff := vb.diff.insert bit }

/-- Clear a bit in the diff. -/
def remove (bit : UInt32) : VersionedBitmap := { vb with diff := vb.diff.remove bit }

/-- The loop of `insert_bulk`. -/
def insertBulk (bits : List UInt32) : VersionedBitmap := bits.foldl insert vb

/-- The loop `for &slot in slots { vb.remove(slot) }` of the bulk removals. -/
def removeBulk (bits : List UInt32) : VersionedBitmap := bits.foldl remove vb

/-- The diff decides, then the base. -/
def contains (bit : UInt32) : Bool :=
  if bit ∈ vb.diff.sets then true
  else decide (bit ∈ vb.base) && !decide (bit ∈ vb.diff.clears)

/-- The fully fused bitmap; also the value of `fused_cow` and `fused_arc`. -/
def fused : Bitmap :=
  if vb.diff.isEmpty then vb.base
  else (vb.base ∪ vb.diff.sets) \ vb.diff.clears

/-- The size of the fused bitmap. -/
def fusedLen : Nat := if vb.diff.isEmpty then vb.base.card else vb.fused.card

def baseLen : Nat := vb.base.card

/-- Changes are pending. -/
def isDirty : Bool := !vb.diff.isEmpty

/-- The candidates, read through the diff. -/
def applyDiff (candidates : Bitmap) : Bitmap := ((candidates ∩ vb.base) ∪ (candidates ∩ vb.diff.sets)) \ vb.diff.clears

/-- Compact the diff into the base; a no-op on a clean or an unloaded bitmap. -/
def merge : VersionedBitmap :=
  if vb.diff.isEmpty || !vb.isLoaded then vb
  else { vb with base := (vb.base ∪ vb.diff.sets) \ vb.diff.clears, diff := .new }

/-- Point membership without materialising the fused bitmap. -/
def fusedContains (slot : UInt32) : Bool :=
  if vb.diff.isEmpty then decide (slot ∈ vb.base)
  else if slot ∈ vb.diff.sets then true
  else if slot ∈ vb.diff.clears then false
  else decide (slot ∈ vb.base)

/-! ### Every read is a read of the fused set -/

theorem mem_fused {vb : VersionedBitmap} {x : UInt32} :
    x ∈ vb.fused ↔ x ∈ vb.diff.sets ∨ (x ∈ vb.base ∧ x ∉ vb.diff.clears) := by
  unfold fused
  split
  · next h =>
    obtain ⟨hs, hc⟩ := (BitmapDiff.isEmpty_iff _).mp h
    simp [hs, hc]
  · have hd : x ∈ vb.diff.sets → x ∉ vb.diff.clears :=
      fun hs hc => disjoint_left.mp vb.diff.disjoint hs hc
    simp only [mem_sdiff, mem_union]
    tauto

@[simp] theorem contains_iff {x : UInt32} : vb.contains x = true ↔ x ∈ vb.fused := by
  rw [mem_fused]
  unfold contains
  split
  · next h => simp [h]
  · next h => simp [h]

@[simp] theorem fusedContains_iff {x : UInt32} : vb.fusedContains x = true ↔ x ∈ vb.fused := by
  rw [mem_fused]
  unfold fusedContains
  split
  · next h =>
    obtain ⟨hs, hc⟩ := (BitmapDiff.isEmpty_iff _).mp h
    simp [hs, hc]
  · split
    · next hs => simp [hs]
    · next hs =>
      split
      · next hc => simp [hs, hc]
      · next hc => simp [hs, hc]

@[simp] theorem fusedLen_eq : vb.fusedLen = vb.fused.card := by
  unfold fusedLen
  split
  · next h => simp [fused, h]
  · rfl

/-- Fusing the diff against a candidate set first is intersecting with the fused set. -/
theorem applyDiff_eq (candidates : Bitmap) : vb.applyDiff candidates = candidates ∩ vb.fused := by
  ext x
  have hd : x ∈ vb.diff.sets → x ∉ vb.diff.clears := fun hs hc => disjoint_left.mp vb.diff.disjoint hs hc
  simp only [applyDiff, mem_sdiff, mem_union, mem_inter, mem_fused]
  tauto

/-! ### What the writes do to the fused set -/

@[simp] theorem fused_new (base : Bitmap) : (new base).fused = base := by
  ext x
  simp [mem_fused, new, BitmapDiff.new]

@[simp] theorem fused_newUnloaded : newUnloaded.fused = ∅ := by
  ext x
  simp [mem_fused, newUnloaded, BitmapDiff.new]

@[simp] theorem fused_insert (bit : UInt32) : (vb.insert bit).fused = Insert.insert bit vb.fused := by
  ext x
  by_cases hx : x = bit
  · simp [mem_fused, insert, BitmapDiff.insert, hx]
  · simp [mem_fused, insert, BitmapDiff.insert, hx]

@[simp] theorem fused_remove (bit : UInt32) : (vb.remove bit).fused = vb.fused.erase bit := by
  ext x
  by_cases hx : x = bit
  · simp [mem_fused, remove, BitmapDiff.remove, hx]
  · simp [mem_fused, remove, BitmapDiff.remove, hx]

theorem mem_fused_insertBulk {bits : List UInt32} {vb : VersionedBitmap} {x : UInt32} :
    x ∈ (vb.insertBulk bits).fused ↔ x ∈ bits ∨ x ∈ vb.fused := by
  induction bits generalizing vb with
  | nil => simp [insertBulk]
  | cons b bits ih =>
    have hstep : vb.insertBulk (b :: bits) = (vb.insert b).insertBulk bits := rfl
    rw [hstep, ih, fused_insert, mem_insert, List.mem_cons]
    tauto

theorem mem_fused_removeBulk {bits : List UInt32} {vb : VersionedBitmap} {x : UInt32} :
    x ∈ (vb.removeBulk bits).fused ↔ x ∉ bits ∧ x ∈ vb.fused := by
  induction bits generalizing vb with
  | nil => simp [removeBulk]
  | cons b bits ih =>
    have hstep : vb.removeBulk (b :: bits) = (vb.remove b).removeBulk bits := rfl
    rw [hstep, ih, fused_remove, mem_erase, List.mem_cons]
    tauto

/-- Compaction never changes what a read sees. -/
@[simp] theorem fused_merge : vb.merge.fused = vb.fused := by
  unfold merge
  split
  · rfl
  · ext x
    have hd : x ∈ vb.diff.sets → x ∉ vb.diff.clears := fun hs hc => disjoint_left.mp vb.diff.disjoint hs hc
    simp only [mem_fused, BitmapDiff.new, notMem_empty, mem_sdiff, mem_union]
    tauto

/-- After compaction a loaded bitmap's base is its fused set. -/
theorem base_merge (h : vb.isLoaded = true) : vb.merge.base = vb.fused := by
  unfold merge fused
  by_cases hd : vb.diff.isEmpty = true
  · simp [hd]
  · simp [hd, h]

end VersionedBitmap

end Bitdex
