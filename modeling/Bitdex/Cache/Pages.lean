import Bitdex.Cache.Serve

/-!
# `Cache.Pages` — when the page functions agree

`simple_sort_and_paginate` and `sort_and_paginate` read different parts of a cursor: the first its low 32 bits, the
second as many as the field has layers. The pages of a cache entry are cut from keys or buckets; the keys are read
once more for the cursor of the next page.
-/

namespace Bitdex

open Enumeration List Option Finset

namespace QueryExecutor

variable {ex : QueryExecutor} {sort : SortClause} {sf : SortField} {cursor : Option CursorPosition}

/-! ## Two ways to sort a bitmap -/

/-- The layers see the low 32 bits of the cursor whole, or what they see leaves all candidates (descending) or none
(ascending). -/
def CutsAgree (sf : SortField) (candidates : Bitmap) (descending : Bool)
    (cursor : Option CursorPosition) : Prop :=
  ∀ c, cursor = some c → c.sortValue % 2 ^ 32 < 2 ^ sf.numBits ∨
    ∀ x ∈ candidates,
      afterCursor descending sf.reconstructValue (some (cutTo sf.numBits c.position)) x ↔ descending = true

/-- All slots come after a cursor past every value (descending), or none (ascending). -/
theorem afterCursor_past (descending : Bool) {p : Position} (hbits : sf.numBits ≤ 32)
    (hp : 2 ^ sf.numBits ≤ p.1) (x : UInt32) :
    afterCursor descending sf.reconstructValue (some p) x ↔ descending = true := by
  have hx := SortField.reconstructValue_lt_numBits hbits x
  cases descending <;>
    simp only [afterCursor, posLt, if_true, if_false, Bool.false_eq_true, iff_true, iff_false] <;> omega

/-- The page after the low 32 bits of a cursor is the one after those that the layers see. -/
theorem take_ranked_cut_iff (hbits : sf.numBits ≤ 32) (candidates : Bitmap) (limit : Nat)
    (descending : Bool) (cursor : Option CursorPosition) :
    (ranked descending sf.reconstructValue (candidates.filter (afterCursor descending sf.reconstructValue
        ((cursor.map (·.position)).map (cutTo 32))))).take limit =
      (ranked descending sf.reconstructValue (candidates.filter (afterCursor descending sf.reconstructValue
        ((cursor.map (·.position)).map (cutTo sf.numBits))))).take limit ↔
      limit = 0 ∨ CutsAgree sf candidates descending cursor := by
  cases cursor with
  | none => simp [CutsAgree]
  | some c =>
    rw [map_some, map_some, map_some]
    by_cases hlow : c.sortValue % 2 ^ 32 < 2 ^ sf.numBits
    · have hcut : cutTo 32 c.position = cutTo sf.numBits c.position := by
        show (c.sortValue % 2 ^ 32, c.slotId) = (c.sortValue % 2 ^ sf.numBits, c.slotId)
        rw [← Nat.mod_mod_of_dvd c.sortValue (Nat.pow_dvd_pow 2 hbits), Nat.mod_eq_of_lt hlow]
      simp only [hcut, true_iff]
      exact .inr fun c' hc' => .inl (some.inj hc' ▸ hlow)
    · have hagree : CutsAgree sf candidates descending (some c) ↔ ∀ x ∈ candidates,
          afterCursor descending sf.reconstructValue (some (cutTo sf.numBits c.position)) x ↔ descending = true :=
        ⟨fun h => (h c rfl).resolve_left hlow, fun h c' hc' => .inr (some.inj hc' ▸ h)⟩
      have hpast := afterCursor_past descending hbits (p := cutTo 32 c.position) (not_lt.mp hlow)
      have hup := upClosed_afterCursor descending sf.reconstructValue (some (cutTo sf.numBits c.position))
      rw [hagree]
      cases descending with
      | true =>
        rw [filter_true_of_mem fun x _ => (hpast x).mpr rfl]
        simp only [iff_true]
        exact take_enumerate_filter_eq_iff hup
      | false =>
        rw [filter_false_of_mem fun x _ h => Bool.noConfusion ((hpast x).mp h)]
        simp [Bool.false_eq_true, iff_false, ranked, enumerate_empty, take_nil,
          nil_eq, take_eq_nil_iff, enumerate_eq_nil_iff, filter_eq_empty_iff]

/-- **The two ways to sort a bitmap** give the same page and next cursor, or the same error, exactly if the page is
empty or the two cuts of the cursor agree. -/
theorem simpleSortAndPaginate_eq_iff
    (hbits : ∀ sf, ex.sorts.getField sort.field = some sf → sf.numBits ≤ 32) (candidates : Bitmap) (limit : Nat) :
    ex.simpleSortAndPaginate candidates sort limit cursor = ex.sortAndPaginate candidates sort limit cursor ↔
      ∀ sf, ex.sorts.getField sort.field = some sf →
        limit = 0 ∨ CutsAgree sf candidates sort.direction.descending cursor := by
  cases hsf : ex.sorts.getField sort.field with
  | none => simp [simpleSortAndPaginate, sortAndPaginate, hsf]
  | some sf =>
    have hiff := take_ranked_cut_iff (hbits sf hsf) candidates limit sort.direction.descending cursor
    rw [simpleSortAndPaginate_cut hsf, sortAndPaginate, hsf, elim_some, sf.topN_cut (hbits sf hsf)]
    constructor
    · intro h sf' hsf'
      rw [← some.inj hsf']
      exact hiff.mp (congrArg Prod.fst (Except.ok.inj h))
    · intro h
      rw [hiff.mpr (h sf rfl)]

/-- Three slots and a sort field of two layers. -/
def twoLayers : QueryExecutor :=
  ⟨⟨3, .new {0, 1, 2}, []⟩, ⟨∅⟩, ⟨(∅ : HashMap String SortField).insert "v" sampleSortField⟩, 100, .empty⟩

theorem simpleSortAndPaginate_eq_twoLayers : twoLayers.simpleSortAndPaginate {0, 1, 2} ⟨"v", .asc⟩ 5 (some ⟨1, 1⟩) =
      twoLayers.sortAndPaginate {0, 1, 2} ⟨"v", .asc⟩ 5 (some ⟨1, 1⟩) := by
  refine (simpleSortAndPaginate_eq_iff ?_ _ _).mpr fun sf hsf => .inr ?_
  · intro sf hsf
    cases hsf
    decide
  · cases hsf
    rintro c ⟨⟩
    exact .inl (by decide)

/-- The value 4 of the cursor has a third bit, which two layers do not see. -/
theorem simpleSortAndPaginate_ne_twoLayers :
    twoLayers.simpleSortAndPaginate {0, 1, 2} ⟨"v", .desc⟩ 5 (some ⟨4, 0⟩) = .ok ([2, 0, 1], some ⟨1, 1⟩) ∧
      twoLayers.sortAndPaginate {0, 1, 2} ⟨"v", .desc⟩ 5 (some ⟨4, 0⟩) = .ok ([], none) := by
  decide +kernel

/-! ## The pages of an entry -/

/-- Where `execute_from_sorted_keys` panics: `start_idx + limit` leaves a `usize` (if it wraps, the slice ends in
front of its start), or `sorted_keys[end_idx - 1]`, read if keys are left over, has `end_idx = 0`. -/
def executeFromSortedKeysPanics (ex : QueryExecutor) (sortedKeys : List Nat) (direction : SortDirection)
    (limit : Nat) (cursor : Option CursorPosition) : Bool :=
  let startIdx := startIndex sortedKeys direction cursor
  let limit := min limit ex.maxPageSize
  let endIdx := min (startIdx + limit) sortedKeys.length
  decide (2 ^ 64 ≤ startIdx + limit) || decide (endIdx < sortedKeys.length) && decide (endIdx = 0)

/-- `Vec::with_capacity(limit)` of `execute_from_radix` panics where the 8-byte ids would not fit into an `isize`. -/
def executeFromRadixPanics (ex : QueryExecutor) (sort : SortClause) (limit : Nat) : Bool :=
  (ex.sorts.getField sort.field).isSome && decide (2 ^ 63 ≤ 8 * min limit ex.maxPageSize)

/-- The slots of a bitmap up to a cursor. -/
def slotsUpTo (descending : Bool) (value : UInt32 → Nat) (bitmap : Bitmap) (cursor : Option CursorPosition) : Bitmap :=
  bitmap.filter fun x => ¬ afterCursor descending value (cursor.map (·.position)) x

theorem startIndex_le_length (keys : List Nat) (direction : SortDirection) (cursor : Option CursorPosition) :
    startIndex keys direction cursor ≤ keys.length := by
  cases cursor with
  | none => exact Nat.zero_le _
  | some c => exact (takeWhile_sublist _).length_le

/-- Reading the keys panics if the page's end leaves the machine word, or if no slot is wanted or behind the cursor.
-/
theorem executeFromSortedKeysPanics_iff {value : UInt32 → Nat} (hvalue : ∀ slot, value slot < 2 ^ 32)
    (direction : SortDirection) (hcursor : ∀ c, cursor = some c → c.sortValue < 2 ^ 32) (bitmap : Bitmap)
    (limit : Nat) : ex.executeFromSortedKeysPanics (packedKeys direction value bitmap) direction limit cursor = true ↔
      2 ^ 64 ≤ (slotsUpTo direction.descending value bitmap cursor).card + min limit ex.maxPageSize ∨
      min limit ex.maxPageSize = 0 ∧ bitmap ≠ ∅ ∧
        ∀ x ∈ bitmap, afterCursor direction.descending value (cursor.map (·.position)) x := by
  have hlen := length_packedKeys_sub_startIndex direction hvalue hcursor bitmap
  have hkeys : (packedKeys direction value bitmap).length = bitmap.card := by
    rw [packedKeys, length_map, ranked, length_enumerate]
  have hstart : startIndex (packedKeys direction value bitmap) direction cursor ≤ bitmap.card := by
    rw [← hkeys]
    exact startIndex_le_length _ _ _
  have hsplit := card_filter_add_card_filter_not (s := bitmap)
    (afterCursor direction.descending value (cursor.map (·.position)))
  rw [slotsAfter, ranked, length_enumerate] at hlen
  simp only [executeFromSortedKeysPanics, slotsUpTo, Bool.or_eq_true, Bool.and_eq_true, decide_eq_true_iff]
  rw [← card_filter_eq_iff, ← card_pos.trans nonempty_iff_ne_empty]
  omega

/-- **The pages of an entry.** From its keys they are those of its bitmap exactly if the page's end is a machine word
not in front of the first key; from the radix index exactly if there is room for the page. -/
theorem entryPages_eq_iff (hsf : ex.sorts.getField sort.field = some sf) (hbits : sf.numBits ≤ 32)
    (hcursor : CursorPosition.Fits sf cursor) {slots : List UInt32} (hnodup : slots.Nodup)
    {radix : RadixSortIndex} (hradix : ∀ i x, x ∈ radix.buckets i ↔
      x ∈ slots.toFinset ∧ i = RadixSortIndex.bucketOf (sf.reconstructValue x)) (limit total : Nat) :
    let keys := buildSortedKeys slots sort.direction sf.reconstructValue
    let page := (ex.sortAndPaginate slots.toFinset sort (min limit ex.maxPageSize) cursor).map Prod.fst
    (ex.executeFromSortedKeysPanics keys sort.direction limit cursor = false ∧
        .ok (ex.executeFromSortedKeys keys sort.direction limit cursor total).ids = page ↔
      (slotsUpTo sort.direction.descending sf.reconstructValue slots.toFinset cursor).card +
          min limit ex.maxPageSize < 2 ^ 64 ∧
        ¬ (min limit ex.maxPageSize = 0 ∧ slots.toFinset ≠ ∅ ∧ ∀ x ∈ slots.toFinset,
          afterCursor sort.direction.descending sf.reconstructValue (cursor.map (·.position)) x)) ∧
    (ex.executeFromRadixPanics sort limit = false ∧
        (ex.executeFromRadix radix sort limit cursor total).map (·.ids) = page ↔
      min limit ex.maxPageSize < 2 ^ 60) := by
  intro keys page
  have hvalue := SortField.reconstructValue_lt hbits
  have hlt : ∀ c, cursor = some c → c.sortValue < 2 ^ 32 := fun _ hc => hcursor.lt hbits hc
  have hkeys : keys = packedKeys sort.direction sf.reconstructValue slots.toFinset := buildSortedKeys_eq hvalue hnodup
  have hpage : page = .ok ((slotsAfter sort.direction.descending sf.reconstructValue slots.toFinset
      cursor).take (min limit ex.maxPageSize)) := by
    show (ex.sortAndPaginate slots.toFinset sort (min limit ex.maxPageSize) cursor).map Prod.fst = _
    rw [sortAndPaginate, hsf, elim_some, SortField.topN_eq_slotsAfter hbits hcursor]
    rfl
  have hindex : radix = .fromBitmap slots.toFinset sf.reconstructValue := by
    obtain ⟨buckets⟩ := radix
    refine congrArg RadixSortIndex.mk (funext fun i => Finset.ext fun x => ?_)
    rw [hradix i x]
    exact RadixSortIndex.mem_buckets_fromBitmap.symm
  constructor
  · rw [hkeys, hpage, ids_executeFromSortedKeys _ hvalue ex hlt, ← not_le, ← not_or,
      ← executeFromSortedKeysPanics_iff hvalue sort.direction hlt, Bool.not_eq_true]
    exact and_iff_left rfl
  · rw [hindex, executeFromRadix_eq hbits hsf hcursor, hpage, executeFromRadixPanics, hsf, isSome_some,
      Bool.true_and, decide_eq_false_iff_not]
    refine (and_iff_left rfl).trans ?_
    omega

theorem entryPages_eq_twoLayers :
    let keys := buildSortedKeys [0, 1, 2] .asc sampleSortField.reconstructValue
    let page := (twoLayers.sortAndPaginate [0, 1, 2].toFinset ⟨"v", .asc⟩ 2 none).map Prod.fst
    (twoLayers.executeFromSortedKeysPanics keys .asc 2 none = false ∧
        .ok (twoLayers.executeFromSortedKeys keys .asc 2 none 3).ids = page) ∧
      twoLayers.executeFromRadixPanics ⟨"v", .asc⟩ 2 = false ∧
      (twoLayers.executeFromRadix (.fromBitmap [0, 1, 2].toFinset sampleSortField.reconstructValue) ⟨"v", .asc⟩ 2
        none 3).map (·.ids) = page := by
  have hsf : twoLayers.sorts.getField "v" = some sampleSortField := rfl
  have hfits : CursorPosition.Fits sampleSortField none := by
    intro c hc
    cases hc
  have hpages := @entryPages_eq_iff twoLayers ⟨"v", .asc⟩ _ none hsf (by decide) hfits [0, 1, 2] (by decide) _
    (fun _ _ => RadixSortIndex.mem_buckets_fromBitmap) 2 3
  refine ⟨hpages.1.mpr ⟨by decide +kernel, ?_⟩, hpages.2.mpr (by decide)⟩
  rintro ⟨hzero, -⟩
  exact absurd hzero (by decide)

/-- A page of no slots from the start of three keys; with the largest page size, `2 ^ 60` slots from the radix index
and `2 ^ 64 - 1` slots behind a cursor from the keys. -/
theorem entryPages_ne_twoLayers :
    twoLayers.executeFromSortedKeysPanics (buildSortedKeys [0, 1, 2] .asc (twoLayers.sortValue "v")) .asc 0
      none = true ∧
    let ex := { twoLayers with maxPageSize := 2 ^ 64 - 1 }
    ex.executeFromRadixPanics ⟨"v", .asc⟩ (2 ^ 60) = true ∧
      ex.executeFromSortedKeysPanics (buildSortedKeys [0, 1, 2] .asc (twoLayers.sortValue "v")) .asc (2 ^ 64 - 1)
        (some ⟨1, 1⟩) = true := by
  decide +kernel

end QueryExecutor

end Bitdex
