import Mathlib.Data.List.TakeWhile
import Bitdex.Library.Window
import Bitdex.Executor.Compute
import Bitdex.Cache.Entry

/-!
# `Cache.Serve` — one page of a sorted result

The executor (`executor.rs`) cuts a page from four sources: a bitmap sorted in memory, a bitmap sorted through the bit
layers, the packed keys of a cache entry and the radix index of an expanded entry. All give the first slots after the
cursor. Packed keys return the position of the page's last slot only if slots are left over; the others return it
always.
-/

namespace Bitdex

open Enumeration RadixSortIndex List QueryExecutor SortField

/-- A page and where the next one starts. -/
structure QueryResult where
  ids : List UInt32
  totalMatched : Nat
  cursor : Option CursorPosition
deriving DecidableEq

/-- The cursor as the pair that `top_n` takes. -/
def CursorPosition.position (c : CursorPosition) : Position := (c.sortValue, c.slotId)

/-- The direction is descending. -/
def SortDirection.descending : SortDirection → Bool
  | .desc => true
  | .asc => false

/-- The cursor that points to the last slot of a page. -/
def cursorAtLast (value : UInt32 → Nat) (ids : List UInt32) : Option CursorPosition :=
  ids.getLast?.map fun slot => ⟨value slot, slot⟩

/-- One key comes no later than another in traversal order. -/
def keyLe (direction : SortDirection) (a b : Nat) : Bool :=
  match direction with
  | .desc => decide (a ≥ b)
  | .asc => decide (a ≤ b)

namespace QueryExecutor

variable (ex : QueryExecutor)

/-! ## The page functions -/

/-- `value_fn`: the stored sort value, 0 if there is no such sort field. -/
def sortValue (field : String) (slot : UInt32) : Nat := (ex.sorts.reconstructValue field slot).getD 0

/-- Newest first, for queries without a sort: the cursor's value is the slot. -/
def slotOrderPaginate (candidates : Bitmap) (limit : Nat) (cursor : Option CursorPosition) :
    List UInt32 × Option CursorPosition :=
  let narrowed := cursor.elim candidates fun c => candidates.filter (· < c.slotId)
  let ids := (Bitmap.iter narrowed).reverse.take limit
  (ids, cursorAtLast UInt32.toNat ids)

/-- Sort through the bit layers. -/
def sortAndPaginate (candidates : Bitmap) (sort : SortClause) (limit : Nat)
    (cursor : Option CursorPosition) : Except BitdexError (List UInt32 × Option CursorPosition) :=
  (ex.sorts.getField sort.field).elim (.error (.fieldNotFound sort.field)) fun sf =>
    let ids := sf.topN candidates limit sort.direction.descending (cursor.map (·.position))
    .ok (ids, cursorAtLast sf.reconstructValue ids)

/-- Sort in memory; the cursor's value is cut to 32 bits. -/
def simpleSortAndPaginate (candidates : Bitmap) (sort : SortClause) (limit : Nat)
    (cursor : Option CursorPosition) : Except BitdexError (List UInt32 × Option CursorPosition) :=
  (ex.sorts.getField sort.field).elim (.error (.fieldNotFound sort.field)) fun sf =>
    let descending := sort.direction.descending
    let entries := (Bitmap.iter candidates).insertionSort (rankLe descending sf.reconstructValue)
    let cut := cursor.map fun c => (c.sortValue % 2 ^ 32, c.slotId)
    let retained := entries.filter fun slot =>
      decide (afterCursor descending sf.reconstructValue cut slot)
    let ids := retained.take limit
    .ok (ids, cursorAtLast sf.reconstructValue ids)

/-- A page of a bitmap. -/
def executeFromBitmapInner (filterBitmap : Bitmap) (sort : Option SortClause) (limit : Nat)
    (cursor : Option CursorPosition) (useSimpleSort : Bool) : Except BitdexError QueryResult := do
  let totalMatched := filterBitmap.card
  let useSimpleSort := useSimpleSort || decide (totalMatched < 1000)
  let (ids, nextCursor) ← sort.elim (.ok (slotOrderPaginate filterBitmap limit cursor)) fun clause =>
    if useSimpleSort then ex.simpleSortAndPaginate filterBitmap clause limit cursor
    else ex.sortAndPaginate filterBitmap clause limit cursor
  return ⟨ids, totalMatched, nextCursor⟩

/-- A page within the page limit. -/
def executeFromBitmap (filterBitmap : Bitmap) (sort : Option SortClause) (limit : Nat)
    (cursor : Option CursorPosition) (useSimpleSort : Bool) : Except BitdexError QueryResult :=
  ex.executeFromBitmapInner filterBitmap sort (min limit ex.maxPageSize) cursor useSimpleSort

/-- Without the page limit: seeds and expansions of cache entries. -/
def executeFromBitmapUnclamped (filterBitmap : Bitmap) (sort : Option SortClause) (limit : Nat)
    (cursor : Option CursorPosition) (useSimpleSort : Bool) : Except BitdexError QueryResult :=
  ex.executeFromBitmapInner filterBitmap sort limit cursor useSimpleSort

/-- Where a page after the cursor starts in keys sorted in traversal order: `partition_point`. -/
def startIndex (sortedKeys : List Nat) (direction : SortDirection)
    (cursor : Option CursorPosition) : Nat :=
  cursor.elim 0 fun c =>
    (sortedKeys.takeWhile fun key => keyLe direction key (packKey c.sortValue c.slotId)).length

/-- A page of packed keys. No cursor comes with a page that reaches the last key. `executeFromSortedKeysPanics` says
where the source panics instead. -/
def executeFromSortedKeys (sortedKeys : List Nat) (direction : SortDirection) (limit : Nat)
    (cursor : Option CursorPosition) (totalMatched : Nat) : QueryResult :=
  let limit := min limit ex.maxPageSize
  let startIdx := startIndex sortedKeys direction cursor
  let endIdx := min (startIdx + limit) sortedKeys.length
  let page := (sortedKeys.drop startIdx).take (endIdx - startIdx)
  { ids := page.map fun key => (unpackKey key).2
    totalMatched := totalMatched
    cursor :=
      if endIdx < sortedKeys.length then
        sortedKeys[endIdx - 1]?.map fun key => ⟨(unpackKey key).1, (unpackKey key).2⟩
      else none }

/-- Whether a bucket lies entirely before the cursor's bucket. -/
def beforeCursorBucket (direction : SortDirection) (cursorBucket : Option (Fin 256))
    (bucket : Fin 256) : Bool :=
  cursorBucket.elim false fun cb =>
    match direction with
    | .desc => decide (bucket > cb)
    | .asc => decide (bucket < cb)

/-- The loop over the buckets with the number of slots still wanted. -/
def radixLoop (sf : SortField) (direction : SortDirection) (cursor : Option CursorPosition) :
    List (Fin 256 × Bitmap) → Nat → List UInt32
  | [], _ => []
  | (bucket, bitmap) :: rest, remaining =>
    let cursorBucket := cursor.map fun c => bucketOf c.sortValue
    if remaining = 0 then []
    else if beforeCursorBucket direction cursorBucket bucket then
      radixLoop sf direction cursor rest remaining
    else
      -- only the cursor's own bucket is cut by the cursor
      let bucketCursor := if cursorBucket = some bucket then cursor.map (·.position) else none
      let slots := sf.topN bitmap remaining direction.descending bucketCursor
      slots ++ radixLoop sf direction cursor rest (remaining - slots.length)

/-- A page of the radix index, for which `executeFromRadixPanics` says where there is no room. -/
def executeFromRadix (radix : RadixSortIndex) (sort : SortClause) (limit : Nat)
    (cursor : Option CursorPosition) (totalMatched : Nat) : Except BitdexError QueryResult :=
  (ex.sorts.getField sort.field).elim (.error (.fieldNotFound sort.field)) fun sf =>
    let ids := radixLoop sf sort.direction cursor (radix.iterBuckets sort.direction)
      (min limit ex.maxPageSize)
    .ok ⟨ids, totalMatched, cursorAtLast sf.reconstructValue ids⟩

end QueryExecutor

/-! ## The slots after a cursor -/

/-- The slots of a bitmap after a cursor, in rank order. -/
def slotsAfter (descending : Bool) (value : UInt32 → Nat) (bitmap : Bitmap)
    (cursor : Option CursorPosition) : List UInt32 :=
  ranked descending value
    (bitmap.filter (afterCursor descending value (cursor.map (·.position))))

@[simp] theorem mem_ranked {descending : Bool} {value : UInt32 → Nat} {bitmap : Bitmap} {x : UInt32} :
    x ∈ ranked descending value bitmap ↔ x ∈ bitmap :=
  mem_enumerate

theorem posLt_of_posLt_of_posLe {descending : Bool} {p q r : Position} (h₁ : posLt descending p q)
    (h₂ : posLe descending q r) : posLt descending p r := by
  rw [posLt_iff_not_posLe] at h₁ ⊢
  exact fun hrp => h₁ (posLe_trans h₂ hrp)

/-- A cursor is a cut point of the rank order. -/
theorem upClosed_afterCursor (descending : Bool) (value : UInt32 → Nat) (cursor : Option Position) :
    UpClosed (rankLe descending value) (afterCursor descending value cursor) := by
  intro a b hle ha
  cases cursor with
  | none => trivial
  | some c => exact posLt_of_posLt_of_posLe ha hle

theorem slotsAfter_none (descending : Bool) (value : UInt32 → Nat) (bitmap : Bitmap) :
    slotsAfter descending value bitmap none = ranked descending value bitmap := by
  unfold slotsAfter
  rw [Finset.filter_true_of_mem]
  intro x _
  trivial

section Bitmaps

variable {ex : QueryExecutor} {sort : SortClause} {sf : SortField}

theorem QueryExecutor.sortValue_eq (hsf : ex.sorts.getField sort.field = some sf) :
    ex.sortValue sort.field = sf.reconstructValue := by
  funext slot
  simp [sortValue, SortIndex.reconstructValue, hsf]

theorem SortField.reconstructValue_lt_numBits (hbits : sf.numBits ≤ 32) (slot : UInt32) :
    sf.reconstructValue slot < 2 ^ sf.numBits := by
  rw [sf.reconstructValue_eq hbits]
  refine lt_of_lt_of_eq (msbValue_lt _) ?_
  rw [slotBits, length_map, sf.length_msbLayers]

theorem SortField.reconstructValue_lt (hbits : sf.numBits ≤ 32) (slot : UInt32) : sf.reconstructValue slot < 2 ^ 32 :=
  (reconstructValue_lt_numBits hbits slot).trans_le (Nat.pow_le_pow_right (by decide) hbits)

/-- A cursor value that the field can represent. -/
def CursorPosition.Fits (sf : SortField) (cursor : Option CursorPosition) : Prop :=
  ∀ c, cursor = some c → c.sortValue < 2 ^ sf.numBits

theorem CursorPosition.Fits.lt {cursor : Option CursorPosition} (h : Fits sf cursor)
    (hbits : sf.numBits ≤ 32) {c : CursorPosition} (hc : cursor = some c) : c.sortValue < 2 ^ 32 :=
  lt_of_lt_of_le (h c hc) (Nat.pow_le_pow_right (by decide) hbits)

/-- Sorting in memory cuts the slots after the low 32 bits of the cursor. -/
theorem QueryExecutor.simpleSortAndPaginate_cut (hsf : ex.sorts.getField sort.field = some sf)
    (bitmap : Bitmap) (limit : Nat) (cursor : Option CursorPosition) :
    ex.simpleSortAndPaginate bitmap sort limit cursor =
      .ok (let ids := (ranked sort.direction.descending sf.reconstructValue (bitmap.filter
             (afterCursor sort.direction.descending sf.reconstructValue
               ((cursor.map (·.position)).map (cutTo 32))))).take limit
           (ids, cursorAtLast sf.reconstructValue ids)) := by
  have hsorted : (Bitmap.iter bitmap).insertionSort
      (rankLe sort.direction.descending sf.reconstructValue) =
      ranked sort.direction.descending sf.reconstructValue bitmap := by
    refine eq_enumerate (pairwise_insertionSort _ _) ?_ fun x => ?_
    · exact (perm_insertionSort _ _).nodup_iff.mpr (nodup_enumerate bitmap)
    · rw [mem_insertionSort, Bitmap.mem_iter]
  have hcut : (cursor.map fun c => (c.sortValue % 2 ^ 32, c.slotId)) = (cursor.map (·.position)).map (cutTo 32) := by
    rw [Option.map_map]
    rfl
  simp only [simpleSortAndPaginate, hsf, Option.elim_some, hcut, hsorted, ranked, enumerate_filter]

variable (hsf : ex.sorts.getField sort.field = some sf) (hbits : sf.numBits ≤ 32)
  {cursor : Option CursorPosition} (hcursor : CursorPosition.Fits sf cursor)

include hbits hcursor

theorem SortField.topN_eq_slotsAfter (candidates : Bitmap) (limit : Nat) (descending : Bool) :
    sf.topN candidates limit descending (cursor.map (·.position)) =
      (slotsAfter descending sf.reconstructValue candidates cursor).take limit := by
  refine sf.topN_eq hbits candidates limit descending _ ?_
  intro c hc
  obtain ⟨c', hc', rfl⟩ := Option.map_eq_some_iff.mp hc
  exact hcursor c' hc'

include hsf

/-- Both ways to sort a bitmap give the first slots after the cursor and point to the last of them. -/
theorem QueryExecutor.executeFromBitmapInner_eq (bitmap : Bitmap) (limit : Nat) (simple : Bool) :
    ex.executeFromBitmapInner bitmap (some sort) limit cursor simple =
      .ok (let ids := (slotsAfter sort.direction.descending sf.reconstructValue bitmap cursor).take limit
           ⟨ids, bitmap.card, cursorAtLast sf.reconstructValue ids⟩) := by
  have hsimple : ex.simpleSortAndPaginate bitmap sort limit cursor =
      .ok (let ids := (slotsAfter sort.direction.descending sf.reconstructValue bitmap cursor).take limit
           (ids, cursorAtLast sf.reconstructValue ids)) := by
    rw [simpleSortAndPaginate_cut hsf, map_cutTo]
    · rfl
    · intro c hc
      obtain ⟨c', hc', rfl⟩ := Option.map_eq_some_iff.mp hc
      exact hcursor.lt hbits hc'
  have htopN : ex.sortAndPaginate bitmap sort limit cursor =
      .ok (let ids := (slotsAfter sort.direction.descending sf.reconstructValue bitmap cursor).take limit
           (ids, cursorAtLast sf.reconstructValue ids)) := by
    unfold sortAndPaginate
    rw [hsf, Option.elim_some, topN_eq_slotsAfter hbits hcursor]
  unfold executeFromBitmapInner
  simp only [Option.elim_some, hsimple, htopN, ite_self]
  rfl

end Bitmaps

/-! ## Packed keys -/

/-- Keys are ordered as the positions they pack. -/
theorem keyLe_packKey_iff {direction : SortDirection} {v w : Nat} (hv : v < 2 ^ 32) (hw : w < 2 ^ 32) (s t : UInt32) :
    keyLe direction (packKey v s) (packKey w t) = true ↔ posLe direction.descending (v, s) (w, t) := by
  have hs : s.toNat < 2 ^ 32 := s.toNat_lt
  have ht : t.toNat < 2 ^ 32 := t.toNat_lt
  have hpv : packKey v s = v * 2 ^ 32 + s.toNat := by rw [packKey, Nat.mod_eq_of_lt hv]
  have hpw : packKey w t = w * 2 ^ 32 + t.toNat := by rw [packKey, Nat.mod_eq_of_lt hw]
  cases direction <;>
    simp only [keyLe, posLe, SortDirection.descending, decide_eq_true_iff, if_true, if_false,
      Bool.false_eq_true, UInt32.le_iff_toNat_le] <;>
    omega

section PackedKeys

variable {direction : SortDirection} {value : UInt32 → Nat} (hvalue : ∀ slot, value slot < 2 ^ 32)

/-- The packed keys of a bitmap in traversal order. -/
def packedKeys (direction : SortDirection) (value : UInt32 → Nat) (bitmap : Bitmap) : List Nat :=
  (ranked direction.descending value bitmap).map fun slot => packKey (value slot) slot

theorem mem_packedKeys {bitmap : Bitmap} {key : Nat} :
    key ∈ packedKeys direction value bitmap ↔ ∃ slot ∈ bitmap, key = packKey (value slot) slot := by
  simp [packedKeys, mem_map, mem_ranked, eq_comm]

include hvalue

/-- The keys of an entry are those of its slots in rank order. -/
theorem buildSortedKeys_eq {slots : List UInt32} (hnodup : slots.Nodup) :
    buildSortedKeys slots direction value = packedKeys direction value slots.toFinset := by
  have hperm : (ranked direction.descending value slots.toFinset).Perm slots := by
    refine (perm_ext_iff_of_nodup (nodup_enumerate _) hnodup).mpr fun x => ?_
    rw [mem_enumerate, mem_toFinset]
  have hkeys := hperm.symm.map fun slot => packKey (value slot) slot
  have hsorted : (packedKeys direction value slots.toFinset).Pairwise
      fun a b => keyLe direction a b = true := by
    refine pairwise_map.mpr ((pairwise_enumerate _).imp fun hle => ?_)
    exact (keyLe_packKey_iff (hvalue _) (hvalue _) _ _).mpr hle
  cases direction with
  | desc | asc =>
    refine List.Perm.eq_of_pairwise' (pairwise_insertionSort _ _)
      (hsorted.imp fun h => of_decide_eq_true h) ?_
    exact (perm_insertionSort _ _).trans hkeys

/-- The keys after the cursor start where the slots after it do. -/
theorem drop_startIndex (direction : SortDirection) {cursor : Option CursorPosition}
    (hcursor : ∀ c, cursor = some c → c.sortValue < 2 ^ 32) (bitmap : Bitmap) :
    (packedKeys direction value bitmap).drop (startIndex (packedKeys direction value bitmap) direction cursor) =
      (slotsAfter direction.descending value bitmap cursor).map fun slot => packKey (value slot) slot := by
  cases cursor with
  | none => rw [startIndex, Option.elim_none, drop_zero, slotsAfter_none, packedKeys]
  | some c =>
    have hc := hcursor c rfl
    have hreached : ∀ slot, keyLe direction (packKey (value slot) slot)
        (packKey c.sortValue c.slotId) = true ↔
        ¬ afterCursor direction.descending value (some c.position) slot := by
      intro slot
      rw [keyLe_packKey_iff (hvalue slot) hc, afterCursor, posLt_iff_not_posLe, not_not]
      rfl
    have hsplit : packedKeys direction value bitmap = packedKeys direction value (bitmap.filter fun slot =>
          ¬ afterCursor direction.descending value (some c.position) slot) ++
        packedKeys direction value (bitmap.filter
          (afterCursor direction.descending value (some c.position))) := by
      simp only [packedKeys, ranked]
      rw [enumerate_split (upClosed_afterCursor direction.descending value (some c.position)) bitmap, map_append]
    -- everything before the cut is passed over, nothing after it is
    have hwhile : (packedKeys direction value bitmap).takeWhile
        (fun key => keyLe direction key (packKey c.sortValue c.slotId)) =
        packedKeys direction value (bitmap.filter fun slot =>
          ¬ afterCursor direction.descending value (some c.position) slot) := by
      rw [hsplit, takeWhile_append_of_pos, takeWhile_eq_nil_iff.mpr, append_nil]
      · intro hpos hkey
        obtain ⟨slot, hslot, heq⟩ := mem_packedKeys.mp (get_mem _ ⟨0, hpos⟩)
        rw [heq, hreached] at hkey
        exact hkey (Finset.mem_filter.mp hslot).2
      · intro key hkey
        obtain ⟨slot, hslot, rfl⟩ := mem_packedKeys.mp hkey
        exact (hreached slot).mpr (Finset.mem_filter.mp hslot).2
    rw [startIndex, Option.elim_some, hwhile, hsplit, drop_left]
    rfl

variable (direction) (ex : QueryExecutor) {cursor : Option CursorPosition}
  (hcursor : ∀ c, cursor = some c → c.sortValue < 2 ^ 32) (bitmap : Bitmap)

include hcursor

/-- As many keys are left from the start of the page on as slots come after the cursor. -/
theorem length_packedKeys_sub_startIndex : (packedKeys direction value bitmap).length -
        startIndex (packedKeys direction value bitmap) direction cursor =
      (slotsAfter direction.descending value bitmap cursor).length := by
  rw [← length_drop, drop_startIndex hvalue direction hcursor, length_map]

theorem ids_executeFromSortedKeys (limit total : Nat) :
    (ex.executeFromSortedKeys (packedKeys direction value bitmap) direction limit cursor total).ids =
      (slotsAfter direction.descending value bitmap cursor).take (min limit ex.maxPageSize) := by
  have hlen := length_packedKeys_sub_startIndex direction hvalue hcursor bitmap
  have hid : ((fun key => (unpackKey key).2) ∘ fun slot => packKey (value slot) slot) = id := by
    funext slot
    rw [Function.comp_apply, unpackKey_packKey (hvalue slot), id]
  simp only [executeFromSortedKeys]
  rw [drop_startIndex hvalue direction hcursor, ← map_take, map_map, hid, map_id, take_eq_take_iff]
  omega

/-- **Packed keys** give the first slots after the cursor, and a cursor only if slots are left over. -/
theorem executeFromSortedKeys_eq (hpage : 0 < ex.maxPageSize) {limit : Nat} (hlimit : 0 < limit) (total : Nat) :
    ex.executeFromSortedKeys (packedKeys direction value bitmap) direction limit cursor total =
      (let after := slotsAfter direction.descending value bitmap cursor
       let ids := after.take (min limit ex.maxPageSize)
       ⟨ids, total, if min limit ex.maxPageSize < after.length then cursorAtLast value ids else none⟩) := by
  have hids := ids_executeFromSortedKeys direction hvalue ex hcursor bitmap limit total
  have hdrop := drop_startIndex hvalue direction hcursor bitmap
  have hlen := length_packedKeys_sub_startIndex direction hvalue hcursor bitmap
  unfold executeFromSortedKeys at hids ⊢
  set keys := packedKeys direction value bitmap
  set start := startIndex keys direction cursor
  set after := slotsAfter direction.descending value bitmap cursor
  have hL : 0 < min limit ex.maxPageSize := Nat.lt_min.mpr ⟨hlimit, hpage⟩
  set L := min limit ex.maxPageSize
  have hcur : (if min (start + L) keys.length < keys.length then
      keys[min (start + L) keys.length - 1]?.map
        fun key => (⟨(unpackKey key).1, (unpackKey key).2⟩ : CursorPosition) else none) =
      if L < after.length then cursorAtLast value (after.take L) else none := by
    by_cases hmore : L < after.length
    · have hend : min (start + L) keys.length - 1 = start + (L - 1) := by omega
      rw [if_pos hmore, if_pos (by omega), hend, ← getElem?_drop, hdrop, getElem?_map,
        cursorAtLast, getLast?_take, if_neg (by omega), getElem?_eq_getElem (by omega),
        Option.map_some, Option.map_some, unpackKey_packKey (hvalue _)]
      rfl
    · rw [if_neg hmore, if_neg (by omega)]
  simp only [QueryResult.mk.injEq]
  exact ⟨hids, trivial, hcur⟩

end PackedKeys

section Radix

open QueryExecutor (beforeCursorBucket radixLoop)

variable {direction : SortDirection}

/-- A position in an earlier bucket comes first. -/
theorem posLt_of_bucket {p q : Position} (hp : p.1 < 2 ^ 32) (hq : q.1 < 2 ^ 32)
    (h : beforeCursorBucket direction (some (bucketOf q.1)) (bucketOf p.1) = true) : posLt direction.descending p q := by
  have hbp : (bucketOf p.1).val = p.1 / 2 ^ 24 := Nat.mod_eq_of_lt (Nat.div_lt_of_lt_mul hp)
  have hbq : (bucketOf q.1).val = q.1 / 2 ^ 24 := Nat.mod_eq_of_lt (Nat.div_lt_of_lt_mul hq)
  cases direction <;>
    simp only [beforeCursorBucket, Option.elim_some, decide_eq_true_iff, gt_iff_lt, Fin.lt_def,
      hbp, hbq, posLt, SortDirection.descending, if_true, if_false, Bool.false_eq_true] at h ⊢ <;>
    omega

/-- The buckets of an index come in traversal order. -/
theorem pairwise_iterBuckets (r : RadixSortIndex) (direction : SortDirection) :
    (r.iterBuckets direction).Pairwise fun a b => beforeCursorBucket direction (some b.1) a.1 = true := by
  have hasc : (finRange 256).Pairwise (· < ·) := pairwise_lt_finRange 256
  unfold iterBuckets
  rw [pairwise_map]
  refine List.Pairwise.filter _ ?_
  cases direction with
  | desc => exact pairwise_reverse.mpr (hasc.imp fun h => decide_eq_true h)
  | asc => exact hasc.imp fun h => decide_eq_true h

theorem mem_iterBuckets {r : RadixSortIndex} {part : Fin 256 × Bitmap} :
    part ∈ r.iterBuckets direction ↔ part.2 = r.buckets part.1 ∧ r.buckets part.1 ≠ ∅ := by
  unfold iterBuckets
  rw [mem_map]
  constructor
  · rintro ⟨i, hi, rfl⟩
    exact ⟨rfl, of_decide_eq_true (mem_filter.mp hi).2⟩
  · rintro ⟨hbm, hne⟩
    refine ⟨part.1, mem_filter.mpr ⟨?_, decide_eq_true hne⟩, Prod.ext rfl hbm.symm⟩
    cases direction <;> simp

variable {sf : SortField} {cursor : Option CursorPosition} (hbits : sf.numBits ≤ 32)

include hbits

/-- The radix index of a bitmap, bucket after bucket, lists the bitmap in rank order. -/
theorem flatMap_iterBuckets (direction : SortDirection) (bitmap : Bitmap) :
    ((fromBitmap bitmap sf.reconstructValue).iterBuckets direction).flatMap
        (fun part => ranked direction.descending sf.reconstructValue part.2) =
      ranked direction.descending sf.reconstructValue bitmap := by
  have hvalue := reconstructValue_lt hbits
  set r := fromBitmap bitmap sf.reconstructValue with hr
  have hmem : ∀ {part : Fin 256 × Bitmap}, part ∈ r.iterBuckets direction → ∀ {x}, x ∈ part.2 →
      part.1 = bucketOf (sf.reconstructValue x) := by
    intro part hpart x hx
    rw [(mem_iterBuckets.mp hpart).1, mem_buckets_fromBitmap] at hx
    exact hx.2
  have hparts : ((r.iterBuckets direction).map Prod.snd).Pairwise
      (Before (rankLe direction.descending sf.reconstructValue)) := by
    rw [pairwise_map]
    refine (pairwise_iterBuckets r direction).imp_of_mem fun ha hb hab x hx y hy => ?_
    rw [hmem ha hx, hmem hb hy] at hab
    have hlt := posLt_of_bucket (p := (sf.reconstructValue x, x)) (q := (sf.reconstructValue y, y))
      (hvalue x) (hvalue y) hab
    rw [posLt_iff_not_posLe] at hlt
    refine ⟨(posLe_total _ _ _).resolve_right hlt, ?_⟩
    rintro rfl
    exact hlt ((posLe_total _ _ _).elim id id)
  have hunion : ∀ x, x ∈ bitmap ↔ ∃ t ∈ (r.iterBuckets direction).map Prod.snd, x ∈ t := by
    intro x
    constructor
    · intro hx
      have hxb : x ∈ r.buckets (bucketOf (sf.reconstructValue x)) := by
        rw [mem_buckets_fromBitmap]
        exact ⟨hx, rfl⟩
      have hpart : (bucketOf (sf.reconstructValue x), r.buckets _) ∈
          r.iterBuckets direction := mem_iterBuckets.mpr ⟨rfl, Finset.ne_empty_of_mem hxb⟩
      exact ⟨_, mem_map_of_mem hpart, hxb⟩
    · rintro ⟨t, ht, hx⟩
      obtain ⟨part, hpart, rfl⟩ := mem_map.mp ht
      rw [(mem_iterBuckets.mp hpart).1, mem_buckets_fromBitmap] at hx
      exact hx.1
  rw [ranked, enumerate_flatten hparts hunion, map_map]
  rfl

/-- What a bucket contributes, given how it lies to the cursor's bucket. -/
theorem slotsAfter_bucket (direction : SortDirection)
    (hcursor : CursorPosition.Fits sf cursor) {bucket : Fin 256} {bitmap : Bitmap}
    (hbucket : ∀ x ∈ bitmap, bucketOf (sf.reconstructValue x) = bucket) :
    slotsAfter direction.descending sf.reconstructValue bitmap cursor =
      if beforeCursorBucket direction (cursor.map fun c => bucketOf c.sortValue) bucket
      then []
      else slotsAfter direction.descending sf.reconstructValue bitmap
        (if cursor.map (fun c => bucketOf c.sortValue) = some bucket then cursor
         else none) := by
  have hvalue := reconstructValue_lt hbits
  cases hc : cursor with
  | none => simp [beforeCursorBucket]
  | some c =>
    have hcv := hcursor.lt hbits hc
    rw [Option.map_some]
    split
    · next hbefore =>
      -- every slot of the bucket comes before the cursor
      refine eq_nil_iff_forall_not_mem.mpr fun x hx => ?_
      obtain ⟨hxb, hafter⟩ := Finset.mem_filter.mp (mem_ranked.mp hx)
      rw [← hbucket x hxb] at hbefore
      have hlt := posLt_of_bucket (p := (sf.reconstructValue x, x)) (q := c.position) (hvalue x) hcv
        hbefore
      rw [posLt_iff_not_posLe] at hlt
      exact hlt ((posLe_total _ _ _).resolve_right (posLt_iff_not_posLe.mp hafter))
    · next hbefore =>
      split
      · rfl
      · next hne =>
        -- the bucket lies past the cursor's, so all of it counts
        rw [slotsAfter_none, slotsAfter, Finset.filter_true_of_mem]
        intro x hxb
        refine posLt_of_bucket hcv (hvalue x) ?_
        rw [Option.some.injEq] at hne
        simp only [hbucket x hxb, CursorPosition.position]
        cases direction <;>
          simp only [beforeCursorBucket, Option.elim_some, decide_eq_true_iff, gt_iff_lt, not_lt] at hbefore ⊢ <;>
          omega

/-- The loop over the buckets cuts the slots after the cursor at the number wanted. -/
theorem radixLoop_eq (hcursor : CursorPosition.Fits sf cursor) (parts : List (Fin 256 × Bitmap))
    (hparts : ∀ part ∈ parts, ∀ x ∈ part.2, bucketOf (sf.reconstructValue x) = part.1) (remaining : Nat) :
    radixLoop sf direction cursor parts remaining = (parts.flatMap fun part =>
        slotsAfter direction.descending sf.reconstructValue part.2 cursor).take remaining := by
  induction parts generalizing remaining with
  | nil => simp [radixLoop]
  | cons part parts ih =>
    obtain ⟨bucket, bitmap⟩ := part
    have hrest := ih fun p hp => hparts p (mem_cons_of_mem _ hp)
    have hbucket : ∀ x ∈ bitmap, bucketOf (sf.reconstructValue x) = bucket := hparts (bucket, bitmap) mem_cons_self
    have hpart := slotsAfter_bucket hbits direction hcursor hbucket
    rw [radixLoop]
    by_cases hzero : remaining = 0
    · simp [hzero]
    · simp only [hzero, if_false, flatMap_cons]
      by_cases hbefore : beforeCursorBucket direction
          (cursor.map fun c => bucketOf c.sortValue) bucket = true
      · rw [if_pos hbefore] at hpart ⊢
        rw [hpart, nil_append, hrest]
      · rw [if_neg hbefore] at hpart ⊢
        have hfits : CursorPosition.Fits sf
            (if cursor.map (fun c => bucketOf c.sortValue) = some bucket then cursor
             else none) := by
          split
          · exact hcursor
          · intro c hc
            cases hc
        have hmap : (if cursor.map (fun c => bucketOf c.sortValue) = some bucket
            then cursor.map (·.position) else none) =
            (if cursor.map (fun c => bucketOf c.sortValue) = some bucket then cursor
             else none).map (·.position) := by
          split <;> rfl
        rw [hmap, topN_eq_slotsAfter hbits hfits, ← hpart, hrest, take_append, length_take]
        congr 2
        omega

/-- **The radix index** gives the first slots after the cursor and points to the last of them. -/
theorem QueryExecutor.executeFromRadix_eq {ex : QueryExecutor} {sort : SortClause}
    (hsf : ex.sorts.getField sort.field = some sf) (hcursor : CursorPosition.Fits sf cursor) (bitmap : Bitmap)
    (limit total : Nat) : ex.executeFromRadix (.fromBitmap bitmap sf.reconstructValue) sort limit cursor total =
      .ok (let ids := (slotsAfter sort.direction.descending sf.reconstructValue bitmap cursor).take
             (min limit ex.maxPageSize)
           ⟨ids, total, cursorAtLast sf.reconstructValue ids⟩) := by
  set r := fromBitmap bitmap sf.reconstructValue with hr
  have hparts : ∀ part ∈ r.iterBuckets sort.direction, ∀ x ∈ part.2, bucketOf (sf.reconstructValue x) = part.1 := by
    intro part hpart x hx
    rw [(mem_iterBuckets.mp hpart).1, mem_buckets_fromBitmap] at hx
    exact hx.2.symm
  have hflat : (r.iterBuckets sort.direction).flatMap (fun part =>
      slotsAfter sort.direction.descending sf.reconstructValue part.2 cursor) =
      slotsAfter sort.direction.descending sf.reconstructValue bitmap cursor := by
    simp only [slotsAfter, ranked, enumerate_filter]
    rw [← filter_flatMap]
    exact congrArg _ (flatMap_iterBuckets hbits sort.direction bitmap)
  unfold executeFromRadix
  rw [hsf, Option.elim_some, radixLoop_eq hbits hcursor _ hparts, hflat]

end Radix

end Bitdex
