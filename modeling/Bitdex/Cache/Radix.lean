import Bitdex.Cache.Entry

/-!
# `Cache.Radix` — an offset into the radix index

`offset_to_bucket` (`radix_sort.rs`) finds the bucket that an offset falls into from cumulative counts. The counts are
cached `u32` sums: a change of a bucket marks them dirty, and the next lookup adds them up again. `located_iff`: every
offset gets its place as long as the buckets hold less than 2^32 slots.
-/

namespace Bitdex

open List UInt32

namespace RadixSortIndex

/-- The buckets in the order of a direction. -/
def order : SortDirection → List (Fin 256)
  | .desc => (finRange 256).reverse
  | .asc => finRange 256

/-- Remove a slot from the bucket of its value. -/
def remove (r : RadixSortIndex) (slot : UInt32) (sortValue : Nat) : RadixSortIndex :=
  ⟨Function.update r.buckets (bucketOf sortValue) ((r.buckets (bucketOf sortValue)).erase slot)⟩

/-- The number of slots in some buckets. -/
def slotsIn (r : RadixSortIndex) (is : List (Fin 256)) : Nat := (is.map fun i => (r.buckets i).card).sum

/-- The bucket and the position in it where an offset into some buckets is. -/
def Located (r : RadixSortIndex) (is : List (Fin 256)) (offset : Nat) : Option (Fin 256 × Nat) → Prop
  | none => r.slotsIn is ≤ offset
  | some (b, within) => offset < r.slotsIn is ∧ within < (r.buckets b).card ∧
      ∃ before after, is = before ++ b :: after ∧ offset = r.slotsIn before + within

end RadixSortIndex

/-! ## Cached counts -/

/-- Running `u32` totals. -/
def cumulate : Nat → List Nat → List Nat
  | _, [] => []
  | running, n :: ns =>
    let running := (running + n % 2 ^ 32) % 2 ^ 32
    running :: cumulate running ns

/-- The loop of `offset_to_bucket`, with the total of the bucket before. -/
def findBucket (offset : Nat) : Nat → List (Fin 256 × Nat) → Option (Fin 256 × Nat)
  | _, [] => none
  | prev, (i, cum) :: rest => if cum > offset then some (i, offset - prev) else findBucket offset cum rest

/-- A radix index with its counts, each listed in the order of its direction. -/
structure CountedRadix where
  index : RadixSortIndex
  cumulative : SortDirection → List Nat
  countsDirty : Bool

namespace CountedRadix

open RadixSortIndex

/-- Add the counts up again. -/
def rebuildCounts (c : CountedRadix) : CountedRadix where
  index := c.index
  cumulative direction := cumulate 0 ((order direction).map fun i => (c.index.buckets i).card)
  countsDirty := false

/-- An index of some entries, with counts. -/
def fromEntries (entries : List (UInt32 × Nat)) : CountedRadix :=
  rebuildCounts ⟨.fromEntries entries, fun _ => replicate 256 0, true⟩

/-- A blind remove that finds nothing leaves the counts as they are. -/
def removeBlind (c : CountedRadix) (slot : UInt32) : CountedRadix :=
  { c with index := c.index.removeBlind slot
           countsDirty := c.countsDirty || (finRange 256).any fun i => slot ∈ c.index.buckets i }

/-- The bucket that an offset falls into. -/
def offsetToBucket (c : CountedRadix) (offset : Nat) (direction : SortDirection) :
    CountedRadix × Option (Fin 256 × Nat) :=
  let c := if c.countsDirty then c.rebuildCounts else c
  (c, findBucket offset 0 ((order direction).zip (c.cumulative direction)))

/-- What can happen to an index. -/
inductive Event where
  | insert (slot : UInt32) (sortValue : Nat)
  | remove (slot : UInt32) (sortValue : Nat)
  | removeBlind (slot : UInt32)
  | offsetToBucket (offset : Nat) (direction : SortDirection)

def step (c : CountedRadix) : Event → CountedRadix
  | .insert slot v => { c with index := c.index.insert slot v, countsDirty := true }
  | .remove slot v => { c with index := c.index.remove slot v, countsDirty := true }
  | .removeBlind slot => c.removeBlind slot
  | .offsetToBucket offset direction => (c.offsetToBucket offset direction).1

/-- Counts that are not marked dirty are those of the buckets. -/
def Fresh (c : CountedRadix) : Prop := c.countsDirty = false → c.cumulative = c.rebuildCounts.cumulative

theorem Fresh.removeBlind {c : CountedRadix} (h : c.Fresh) (slot : UInt32) : (c.removeBlind slot).Fresh := by
  intro hd
  obtain ⟨hclean, hno⟩ := Bool.or_eq_false_iff.mp hd
  -- no bucket holds the slot, so the buckets are as before
  have hfind : (finRange 256).find? (fun i => decide (slot ∈ c.index.buckets i)) = none := by
    simpa using hno
  have hindex : c.index.removeBlind slot = c.index := by rw [RadixSortIndex.removeBlind, hfind]
  simpa [CountedRadix.removeBlind, rebuildCounts, hindex] using h hclean

theorem Fresh.step {c : CountedRadix} (h : c.Fresh) (ev : Event) : (c.step ev).Fresh := by
  cases ev with
  | insert slot v | remove slot v => exact nofun
  | removeBlind slot => exact h.removeBlind slot
  | offsetToBucket offset direction =>
    show (if c.countsDirty then c.rebuildCounts else c).Fresh
    split
    · exact fun _ => rfl
    · exact h

theorem fresh_run (entries : List (UInt32 × Nat)) (evs : List Event) :
    (evs.foldl step (fromEntries entries)).Fresh := by
  have hkeep : ∀ c : CountedRadix, c.Fresh → (evs.foldl step c).Fresh := by
    induction evs with
    | nil => exact fun c h => h
    | cons ev evs ih => exact fun c h => ih _ (h.step ev)
  exact hkeep _ fun _ => rfl

/-- A lookup reads the counts of the buckets as they are. -/
theorem Fresh.offsetToBucket_eq {c : CountedRadix} (h : c.Fresh) (offset : Nat) (direction : SortDirection) :
    (c.offsetToBucket offset direction).2 =
      findBucket offset 0 ((order direction).zip (c.rebuildCounts.cumulative direction)) := by
  unfold offsetToBucket
  cases hd : c.countsDirty with
  | true => rfl
  | false => simp [h hd]

end CountedRadix

/-! ## Where an offset is found -/

theorem lt_of_mem_cumulate {running n : Nat} {ns : List Nat} (h : n ∈ cumulate running ns) : n < 2 ^ 32 := by
  induction ns generalizing running with
  | nil => cases h
  | cons m ns ih =>
    rcases mem_cons.mp h with rfl | h
    · exact Nat.mod_lt _ (by decide)
    · exact ih h

theorem findBucket_eq_none {offset prev : Nat} {l : List (Fin 256 × Nat)} (h : ∀ p ∈ l, p.2 ≤ offset) :
    findBucket offset prev l = none := by
  induction l generalizing prev with
  | nil => rfl
  | cons p l ih =>
    rw [findBucket, if_neg (Nat.not_lt.mpr (h p mem_cons_self)), ih fun q hq => h q (mem_cons_of_mem p hq)]

namespace RadixSortIndex

variable (r : RadixSortIndex)

theorem slotsIn_cons (i : Fin 256) (is : List (Fin 256)) : r.slotsIn (i :: is) = (r.buckets i).card + r.slotsIn is := by
  simp [slotsIn]

/-- The loop, from a bucket on, when the sums fit 32 bits. -/
theorem located_findBucket {offset running : Nat} {is : List (Fin 256)} (hle : running ≤ offset)
    (hfit : running + r.slotsIn is < 2 ^ 32) : r.Located is (offset - running)
      (findBucket offset running (is.zip (cumulate running (is.map fun i => (r.buckets i).card)))) := by
  induction is generalizing running with
  | nil => exact Nat.zero_le _
  | cons i is ih =>
    rw [slotsIn_cons] at hfit
    have hn : (running + (r.buckets i).card % 2 ^ 32) % 2 ^ 32 = running + (r.buckets i).card := by
      rw [Nat.mod_eq_of_lt (by omega), Nat.mod_eq_of_lt (by omega)]
    rw [map_cons, cumulate, hn, zip_cons_cons, findBucket]
    split
    · next hlt =>
      rw [Located, slotsIn_cons]
      exact ⟨by omega, by omega, [], is, rfl, (Nat.zero_add _).symm⟩
    · next hlt =>
      have hrest := @ih (running + (r.buckets i).card) (Nat.le_of_not_lt hlt) (by omega)
      revert hrest
      cases findBucket offset _ _ with
      | none =>
        rw [Located, Located, slotsIn_cons]
        exact fun h => by omega
      | some p =>
        rw [Located, Located, slotsIn_cons]
        rintro ⟨hlt', hw, before, after, rfl, hoff⟩
        exact ⟨by omega, hw, i :: before, after, rfl, by rw [slotsIn_cons]; omega⟩

/-- From 2^32 slots on, there is one that is not found. -/
theorem not_located_of_overflow {is : List (Fin 256)} (h : 2 ^ 32 ≤ r.slotsIn is) : ¬ r.Located is (2 ^ 32 - 1)
      (findBucket (2 ^ 32 - 1) 0 (is.zip (cumulate 0 (is.map fun i => (r.buckets i).card)))) := by
  rw [findBucket_eq_none, Located]
  · omega
  · exact fun p hp => Nat.le_sub_one_of_lt (lt_of_mem_cumulate (of_mem_zip hp).2)

end RadixSortIndex

namespace CountedRadix

open RadixSortIndex

/-- **An offset into the radix index.** After any operations, every offset is found in the bucket and position where
it is, in both directions, if and only if the buckets hold less than 2^32 slots together. -/
theorem located_iff (entries : List (UInt32 × Nat)) (evs : List Event) :
    let c := evs.foldl step (fromEntries entries)
    (∀ direction offset, c.index.Located (order direction) offset (c.offsetToBucket offset direction).2) ↔
      c.index.slotsIn (order .asc) < 2 ^ 32 := by
  intro c
  have hfresh : c.Fresh := fresh_run entries evs
  constructor
  · intro h
    by_contra hlt
    have hno := h .asc (2 ^ 32 - 1)
    rw [hfresh.offsetToBucket_eq] at hno
    exact not_located_of_overflow c.index (Nat.le_of_not_lt hlt) hno
  · intro hlt direction offset
    rw [hfresh.offsetToBucket_eq]
    refine located_findBucket c.index (Nat.zero_le offset) ?_
    rw [Nat.zero_add]
    cases direction with
    | asc => exact hlt
    | desc => rwa [slotsIn, order, map_reverse, sum_reverse_nat]

/-- The first slots, all with value 0. -/
def firstSlots (n : Nat) : List (UInt32 × Nat) := (range n).map fun i => (ofNat i, 0)

theorem le_slotsIn_firstSlots {n : Nat} (h : n ≤ 2 ^ 32) :
    n ≤ (fromEntries (firstSlots n)).index.slotsIn (order .asc) := by
  have hzero : (0 : Fin 256) = bucketOf 0 := by decide
  have hall : (Finset.range n).image ofNat ⊆ (fromEntries (firstSlots n)).index.buckets 0 := by
    intro x hx
    obtain ⟨i, hi, rfl⟩ := Finset.mem_image.mp hx
    exact mem_buckets_fromEntries.mpr
      ⟨_, mem_map.mpr ⟨i, mem_range.mpr (Finset.mem_range.mp hi), rfl⟩, hzero, rfl⟩
  have hinj : Set.InjOn ofNat (Finset.range n) := by
    intro a ha b hb hab
    rw [Finset.coe_range] at ha hb
    have hnat := congrArg toNat hab
    rwa [toNat_ofNat_of_lt' (ha.trans_le h), toNat_ofNat_of_lt' (hb.trans_le h)] at hnat
  have hcard := Finset.card_le_card hall
  rw [Finset.card_image_of_injOn hinj, Finset.card_range] at hcard
  exact hcard.trans (Nat.le_add_right _ _)

/-- The last slot of a full bucket is not found: the count wraps around to 0. -/
theorem full_bucket_not_located :
    let c := [].foldl step (fromEntries (firstSlots (2 ^ 32)))
    ¬ c.index.Located (order .asc) (2 ^ 32 - 1) (c.offsetToBucket (2 ^ 32 - 1) .asc).2 := by
  intro c
  have hfresh : c.Fresh := fresh_run (firstSlots (2 ^ 32)) []
  rw [hfresh.offsetToBucket_eq]
  exact not_located_of_overflow c.index (le_slotsIn_firstSlots le_rfl)

end CountedRadix

end Bitdex
