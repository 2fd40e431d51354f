import Bitdex.Sort.TopN
import Bitdex.Cache.Meta

/-!
# `Cache.Entry` — one cached page set

A cache entry (`unified_cache.rs`) keeps the first slots of a filter result in sort order: a bitmap, the sort value of
the last of them (`min_tracked_value`, the *floor*), and whether more slots exist. Pages are served from packed sorted
keys at the initial capacity and from a radix index (`radix_sort.rs`) after an expansion. Time stamps, byte counts and
persistence flags are left out.
-/

namespace Bitdex

open List

/-! ## Packed keys -/

/-- `(value << 32) | slot` in 64 bits: the high half of a longer value is lost. -/
def packKey (value : Nat) (slot : UInt32) : Nat := value % 2 ^ 32 * 2 ^ 32 + slot.toNat

/-- `(key >> 32)` and `(key & 0xFFFF_FFFF)`. -/
def unpackKey (key : Nat) : Position := (key / 2 ^ 32, UInt32.ofNat (key % 2 ^ 32))

/-- The packed keys of some slots, in traversal order. -/
def buildSortedKeys (slots : List UInt32) (direction : SortDirection) (valueFn : UInt32 → Nat) :
    List Nat :=
  let keys := slots.map fun slot => packKey (valueFn slot) slot
  match direction with
  | .desc => keys.insertionSort (· ≥ ·)
  | .asc => keys.insertionSort (· ≤ ·)

theorem unpackKey_packKey {value : Nat} (hvalue : value < 2 ^ 32) (slot : UInt32) :
    unpackKey (packKey value slot) = (value, slot) := by
  have hslot : slot.toNat < 2 ^ 32 := slot.toNat_lt
  have hdiv : (value * 2 ^ 32 + slot.toNat) / 2 ^ 32 = value := by omega
  have hmod : (value * 2 ^ 32 + slot.toNat) % 2 ^ 32 = slot.toNat := by omega
  rw [unpackKey, packKey, Nat.mod_eq_of_lt hvalue, hdiv, hmod, UInt32.ofNat_toNat]

/-! ## The radix index -/

/-- Slots in 256 buckets by the top eight bits of their value; a missing bucket is an empty one. -/
structure RadixSortIndex where
  buckets : Fin 256 → Bitmap

namespace RadixSortIndex

/-- `(value >> 24) as usize` of a `u32`. -/
def bucketOf (value : Nat) : Fin 256 := Fin.ofNat 256 (value / 2 ^ 24)

/-- No slot is filed. -/
def empty : RadixSortIndex := ⟨fun _ => ∅⟩

/-- File a slot under its value. -/
def insert (r : RadixSortIndex) (slot : UInt32) (sortValue : Nat) : RadixSortIndex :=
  ⟨Function.update r.buckets (bucketOf sortValue) (Insert.insert slot (r.buckets (bucketOf sortValue)))⟩

/-- Remove the slot from the first bucket that holds it. -/
def removeBlind (r : RadixSortIndex) (slot : UInt32) : RadixSortIndex :=
  match (finRange 256).find? fun i => decide (slot ∈ r.buckets i) with
  | some i => ⟨Function.update r.buckets i ((r.buckets i).erase slot)⟩
  | none => r

/-- File some slots. -/
def fromEntries (entries : List (UInt32 × Nat)) : RadixSortIndex := entries.foldl (fun r e => r.insert e.1 e.2) empty

/-- File all slots of a bitmap. -/
def fromBitmap (bitmap : Bitmap) (valueFn : UInt32 → Nat) : RadixSortIndex :=
  fromEntries (bitmap.iter.map fun slot => (slot, valueFn slot))

/-- The non-empty buckets in sort order. -/
def iterBuckets (r : RadixSortIndex) (direction : SortDirection) : List (Fin 256 × Bitmap) :=
  let prefixes := match direction with
    | .desc => (finRange 256).reverse
    | .asc => finRange 256
  (prefixes.filter fun i => decide (r.buckets i ≠ ∅)).map fun i => (i, r.buckets i)

theorem mem_buckets_insert {r : RadixSortIndex} {slot x : UInt32} {v : Nat} {i : Fin 256} :
    x ∈ (r.insert slot v).buckets i ↔ (i = bucketOf v ∧ x = slot) ∨ x ∈ r.buckets i := by
  unfold insert
  by_cases hi : i = bucketOf v
  · subst hi
    simp
  · simp [hi]

theorem mem_buckets_foldl_insert {entries : List (UInt32 × Nat)} {r : RadixSortIndex} {x : UInt32} {i : Fin 256} :
    x ∈ (entries.foldl (fun r e => r.insert e.1 e.2) r).buckets i ↔
      x ∈ r.buckets i ∨ ∃ e ∈ entries, i = bucketOf e.2 ∧ x = e.1 :=
  foldl_or_iff (x ∈ buckets · i) (by intros; exact mem_buckets_insert.trans or_comm)

theorem mem_buckets_fromEntries {entries : List (UInt32 × Nat)} {x : UInt32} {i : Fin 256} :
    x ∈ (fromEntries entries).buckets i ↔ ∃ e ∈ entries, i = bucketOf e.2 ∧ x = e.1 := by
  rw [fromEntries, mem_buckets_foldl_insert]
  simp [empty]

/-- **The radix index of a bitmap** holds each slot in the bucket of its value. -/
theorem mem_buckets_fromBitmap {bitmap : Bitmap} {valueFn : UInt32 → Nat} {x : UInt32} {i : Fin 256} :
    x ∈ (fromBitmap bitmap valueFn).buckets i ↔ x ∈ bitmap ∧ i = bucketOf (valueFn x) := by
  rw [fromBitmap, mem_buckets_fromEntries]
  constructor
  · rintro ⟨e, he, hi, rfl⟩
    obtain ⟨s, hs, rfl⟩ := mem_map.mp he
    exact ⟨by simpa [Bitmap.iter] using hs, hi⟩
  · rintro ⟨hx, hi⟩
    exact ⟨(x, valueFn x), mem_map.mpr ⟨x, by simpa [Bitmap.iter] using hx, rfl⟩, hi, rfl⟩

end RadixSortIndex

/-- The entry's capacities, the smallest result that is cached, and the budget of one flush. -/
structure UnifiedCacheConfig where
  initialCapacity : Nat := 4000
  maxCapacity : Nat := 64000
  minFilterSize : Nat := 0
  maxMaintenanceWork : Nat := 0
  maxMaintenanceMs : Nat := 10
  compoundEvalAtomLimit : Nat := 50
deriving DecidableEq, Repr

/-- The first slots of a result, with bounds. -/
structure UnifiedEntry where
  bitmap : Bitmap
  minTrackedValue : Nat
  capacity : Nat
  maxCapacity : Nat
  hasMore : Bool
  totalMatched : Nat
  needsRebuild : Bool
  metaId : CacheEntryId
  sortedKeys : Option (List Nat)
  radix : Option RadixSortIndex
  direction : SortDirection
  originalFilterClauses : List FilterClause

/-- Whether a value is strictly inside a bound. -/
def sortQualifiesRaw (value minTrackedValue : Nat) (direction : SortDirection) : Bool :=
  match direction with
  | .desc => decide (value > minTrackedValue)
  | .asc => decide (value < minTrackedValue)

namespace UnifiedEntry

/-- A new entry from the first slots of a sort traversal, in sort order. The floor of an empty entry
is 0. -/
def newWithClauses (sortedSlots : List UInt32) (capacity maxCapacity : Nat) (hasMore : Bool)
    (totalMatched : Nat) (metaId : CacheEntryId) (direction : SortDirection)
    (originalFilterClauses : List FilterClause) (valueFn : UInt32 → Nat) : UnifiedEntry :=
  let taken := sortedSlots.take capacity
  { bitmap := taken.toFinset
    minTrackedValue := (taken.getLast?.map valueFn).getD 0
    capacity := capacity
    maxCapacity := maxCapacity
    hasMore := hasMore
    totalMatched := totalMatched
    needsRebuild := false
    metaId := metaId
    sortedKeys := if taken = [] then none else some (buildSortedKeys taken direction valueFn)
    radix := none
    direction := direction
    originalFilterClauses := originalFilterClauses }

variable (e : UnifiedEntry)

/-- Add slots with their sort values; more than twice the capacity flags the entry. -/
def addSlotsBulk (adds : List (UInt32 × Nat)) : UnifiedEntry :=
  if adds = [] then e
  else
    let bitmap := e.bitmap ∪ (adds.map Prod.fst).toFinset
    { e with
      bitmap := bitmap
      sortedKeys := none
      radix := e.radix.map fun r => adds.foldl (fun r a => r.insert a.1 a.2) r
      needsRebuild := e.needsRebuild || decide (bitmap.card > e.capacity * 2) }

/-- Remove the slots that are members; nothing changes if none is. -/
def removeSlotsBulk (removes : List (UInt32 × Nat)) : UnifiedEntry :=
  let present := (removes.map Prod.fst).filter fun slot => decide (slot ∈ e.bitmap)
  if present = [] then e
  else
    { e with
      bitmap := e.bitmap \ present.toFinset
      sortedKeys := none
      radix := e.radix.map fun r => present.foldl RadixSortIndex.removeBlind r }

/-- The body of `remove_slots_from_all_batch`: deleted slots leave every entry. -/
def removeSlots (slots : List UInt32) : UnifiedEntry :=
  { e with
    bitmap := e.bitmap \ slots.toFinset
    sortedKeys := none
    radix := e.radix.map fun r => slots.foldl RadixSortIndex.removeBlind r }

/-- Append slots of a deeper traversal. The floor becomes the value of the last, the capacity jumps to the maximum,
and fewer slots than the room mean no more exist. -/
def expand (newSlots : List UInt32) (valueFn : UInt32 → Nat) : UnifiedEntry :=
  let bitmap := e.bitmap ∪ newSlots.toFinset
  { e with
    bitmap := bitmap
    minTrackedValue := (newSlots.getLast?.map valueFn).getD e.minTrackedValue
    capacity := e.maxCapacity
    sortedKeys := none
    radix := some (RadixSortIndex.fromBitmap bitmap valueFn)
    hasMore := e.hasMore && !decide (newSlots.length < e.maxCapacity - e.capacity) }

/-- Flag the entry: from now on it is a miss. -/
def markForRebuild : UnifiedEntry := { e with needsRebuild := true }

/-- Take the candidates that are not in the entry's own bucket out of the entry. -/
def applyBucketDiff (candidates ownBucketLive : Bitmap) : UnifiedEntry :=
  let toRemove := (e.bitmap ∩ candidates) \ ownBucketLive
  if toRemove = ∅ then e
  else
    { e with
      bitmap := e.bitmap \ toRemove
      sortedKeys := none
      radix := e.radix.map fun r => (Bitmap.iter toRemove).foldl RadixSortIndex.removeBlind r }

variable {e} {x : UInt32}

theorem mem_addSlotsBulk {adds : List (UInt32 × Nat)} :
    x ∈ (e.addSlotsBulk adds).bitmap ↔ x ∈ e.bitmap ∨ x ∈ adds.map Prod.fst := by
  unfold addSlotsBulk
  split
  · next h => simp [h]
  · simp

theorem mem_removeSlotsBulk {removes : List (UInt32 × Nat)} :
    x ∈ (e.removeSlotsBulk removes).bitmap ↔ x ∈ e.bitmap ∧ x ∉ removes.map Prod.fst := by
  unfold removeSlotsBulk
  dsimp only
  split
  · next h =>
    rw [filter_eq_nil_iff] at h
    refine ⟨fun hx => ⟨hx, fun hmem => ?_⟩, And.left⟩
    exact absurd (decide_eq_true hx) (h x hmem)
  · simp only [Finset.mem_sdiff, mem_toFinset, mem_filter, decide_eq_true_eq, not_and]
    exact ⟨fun ⟨hx, hn⟩ => ⟨hx, fun hmem => hn hmem hx⟩, fun ⟨hx, hn⟩ => ⟨hx, fun hmem => absurd hmem hn⟩⟩

end UnifiedEntry

end Bitdex
