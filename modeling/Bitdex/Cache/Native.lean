import Bitdex.Executor.ClauseOrder

/-!
# `Cache.Native` — the per-slot evaluator of cache maintenance

`slot_matches_filter_native` (`unified_cache.rs`) walks the clause tree of an entry and tests one slot against the
stored bits. It is meant to say of every alive slot what the executor's bitmap says.

Both evaluators combine the tests of their leaves by negation, conjunction and disjunction. `leafStored` says what a
leaf asks of a slot as the native evaluator means it. The executor has three ways of reading a clause (`Reading`), and
`readsOtherwise` marks the leaves at which it answers otherwise:

* an `id` clause, which names the slot number;
* a string that has another key, if the slot is stored under one of the two only;
* a null slot under a negated clause;
* a range: a sort value here, the stored keys or a time bucket there;
* a bucket that moved on since it was captured;
* the empty conjunction.
-/

namespace Bitdex

open FilterClause List

section Native

variable [Host] (filters : FilterIndex) (sorts : SortIndex) (tables : Tables)

/-- The string-map step of `resolve_filter_value`: the exact text wins, lowercase backstops. -/
def nativeStringMapKey (field s : String) : Option Int64 := do
  let maps ← tables.stringMaps
  let fieldMap ← maps.lookup field
  match fieldMap.lookup s with
  | some v => some v
  | none =>
    let lower := Host.toLowercase s
    if lower ≠ s then fieldMap.lookup lower else none

/-- Of the tables, the evaluator is given string maps, dictionaries and buckets, but not the case-sensitivity set. -/
def resolveFilterValue (field : String) : Value → Option UInt64
  | .bool b => some (if b then 1 else 0)
  | .integer v => some v.toUInt64
  | .float _ => none
  | .string s =>
    match nativeStringMapKey tables field s with
    | some v => some v.toUInt64
    | none => tables.dictionaryKey field s

omit [Host] in
/-- `get_field(field).and_then(|f| f.get_versioned(key)).map(|vb| vb.contains(slot)).unwrap_or(false)`. -/
def storedUnder (field : String) (key : UInt64) (slot : UInt32) : Bool :=
  match filters.getField field with
  | some ff =>
    match ff.getVersioned key with
    | some vb => vb.contains slot
    | none => false
  | none => false

/-- The slot is stored under the value; a value that does not resolve is a miss. -/
def nativeContains (field : String) (value : Value) (slot : UInt32) : Bool :=
  match resolveFilterValue tables field value with
  | some key => storedUnder filters field key slot
  | none => false

/-- A range arm: the slot's *sort* value against the resolved threshold. -/
def nativeCompare (field : String) (value : Value) (slot : UInt32) (compare : Nat → Nat → Bool) :
    Bool :=
  match resolveFilterValue tables field value with
  | some threshold =>
    match sorts.getField field with
    | some sf => compare (sf.reconstructValue slot) threshold.toNat
    | none => false
  | none => false

omit [Host] in
/-- A bucket arm: the live bucket of that name, except for prefilters. -/
def nativeBucket (field bucketName : String) (bitmap : Bitmap) (slot : UInt32) : Bool :=
  if field ≠ "__prefilter" then
    match tables.timeBuckets with
    | some mgr =>
      match mgr.getBucket bucketName with
      | some b => decide (slot ∈ b.bitmap)
      | none => false
    | none => decide (slot ∈ bitmap)
  else decide (slot ∈ bitmap)

mutual

/-- Test a slot against a clause. -/
def slotMatchesClauseNative (slot : UInt32) : FilterClause → Bool
  | .eq field value => nativeContains filters tables field value slot
  | .notEq field value => !nativeContains filters tables field value slot
  | .isIn field values => values.any (nativeContains filters tables field · slot)
  | .notIn field values => values.all (!nativeContains filters tables field · slot)
  | .gt field value => nativeCompare sorts tables field value slot fun v t => decide (v > t)
  | .gte field value => nativeCompare sorts tables field value slot fun v t => decide (v ≥ t)
  | .lt field value => nativeCompare sorts tables field value slot fun v t => decide (v < t)
  | .lte field value => nativeCompare sorts tables field value slot fun v t => decide (v ≤ t)
  | .not inner => !slotMatchesClauseNative slot inner
  | .and parts => nativeAll slot parts
  | .or parts => nativeAny slot parts
  | .isNull field => storedUnder filters field nullBitmapKey slot
  | .isNotNull field => !storedUnder filters field nullBitmapKey slot
  | .bucketBitmap field bucketName bitmap => nativeBucket tables field bucketName bitmap slot

/-- The children of an `And`, all of them. -/
def nativeAll (slot : UInt32) : List FilterClause → Bool
  | [] => true
  | c :: cs => slotMatchesClauseNative slot c && nativeAll slot cs

/-- The children of an `Or`, any of them. -/
def nativeAny (slot : UInt32) : List FilterClause → Bool
  | [] => false
  | c :: cs => slotMatchesClauseNative slot c || nativeAny slot cs

end

/-- The conjunction of the top-level clauses of an entry. -/
def slotMatchesFilterNative (slot : UInt32) (clauses : List FilterClause) : Bool :=
  clauses.all (slotMatchesClauseNative filters sorts tables slot)

theorem nativeAll_eq (slot : UInt32) (cs : List FilterClause) :
    nativeAll filters sorts tables slot cs = cs.all (slotMatchesClauseNative filters sorts tables slot) := by
  induction cs with
  | nil => rfl
  | cons c cs ih => rw [nativeAll, ih, all_cons]

theorem nativeAny_eq (slot : UInt32) (cs : List FilterClause) :
    nativeAny filters sorts tables slot cs = cs.any (slotMatchesClauseNative filters sorts tables slot) := by
  induction cs with
  | nil => rfl
  | cons c cs ih => rw [nativeAny, ih, any_cons]

end Native

/-! ## Readings of a clause

A clause is evaluated on its own bitmap, applied to an accumulator in place, or narrowed to a
candidate set. Which of these reads a sub-clause depends on the connective above it. -/

/-- The executor's ways of reading a clause. -/
inductive Reading where
  | alone
  | inPlace
  | candidates
deriving DecidableEq

namespace Reading

/-- How the clause under a `Not` is read. -/
def underNot : Reading → Reading
  | alone => alone
  | inPlace => candidates
  | candidates => alone

/-- How the children of an `And` or an `Or` are read. -/
def underList : Reading → Reading
  | alone => alone
  | inPlace => alone
  | candidates => candidates

end Reading

/-- Neither a negation, nor a disjunction, nor a conjunction of something. -/
def FilterClause.isLeaf : FilterClause → Bool
  | .not _ | .or _ => false
  | .and cs => cs.isEmpty
  | _ => true

section Truth

variable (leaf : Reading → FilterClause → Bool)

mutual

/-- The truth of a clause, given the truth of its leaves in the reading each is met in. -/
def truth : Reading → FilterClause → Bool
  | r, .not inner => !truth r.underNot inner
  | r, .and cs => if cs.isEmpty then leaf r (.and cs) else truthAll r.underList cs
  | r, .or cs => truthAny r.underList cs
  | r, c => leaf r c

def truthAll : Reading → List FilterClause → Bool
  | _, [] => true
  | r, c :: cs => truth r c && truthAll r cs

def truthAny : Reading → List FilterClause → Bool
  | _, [] => false
  | r, c :: cs => truth r c || truthAny r cs

end

/-- The truth of a clause list: the first clause is evaluated, the others are applied in place. -/
def truthOfList : List FilterClause → Bool
  | [] => true
  | c :: rest => truth leaf .alone c && rest.all (truth leaf .inPlace)

theorem truthAll_eq (r : Reading) (cs : List FilterClause) : truthAll leaf r cs = cs.all (truth leaf r) := by
  induction cs with
  | nil => rfl
  | cons c cs ih => rw [truthAll, ih, all_cons]

theorem truthAny_eq (r : Reading) (cs : List FilterClause) : truthAny leaf r cs = cs.any (truth leaf r) := by
  induction cs with
  | nil => rfl
  | cons c cs ih => rw [truthAny, ih, any_cons]

theorem truth_of_isLeaf {c : FilterClause} (hc : c.isLeaf = true) (r : Reading) : truth leaf r c = leaf r c := by
  cases c with
  | not _ | or _ => cases hc
  | and cs => rw [truth, if_pos (by simpa [isLeaf] using hc)]
  | eq _ _ | notEq _ _ | isIn _ _ | notIn _ _ | gt _ _ | lt _ _ | gte _ _ | lte _ _ | isNull _
  | isNotNull _ | bucketBitmap _ _ _ => rfl

end Truth

/-- **A compositional evaluator is the truth of its own leaf tests.** -/
theorem eq_truth_of_compositional (eval : Reading → FilterClause → Bool)
    (hnot : ∀ r c, eval r (.not c) = !eval r.underNot c)
    (hand : ∀ r cs, cs ≠ [] → eval r (.and cs) = cs.all (eval r.underList))
    (hor : ∀ r cs, eval r (.or cs) = cs.any (eval r.underList)) {leaf : Reading → FilterClause → Bool}
    (hleaf : ∀ r c, c.isLeaf = true → eval r c = leaf r c) (r : Reading) (c : FilterClause) :
    eval r c = truth leaf r c := by
  induction c using tree_induction generalizing r with
  | not c ih => rw [hnot, ih, truth]
  | and cs ih =>
    by_cases hcs : cs = []
    · rw [truth_of_isLeaf leaf (by simp [isLeaf, hcs]), hleaf]
      simp [isLeaf, hcs]
    · rw [hand r cs hcs, truth, if_neg (by simpa using hcs), truthAll_eq]
      rw [Bool.eq_iff_iff, all_eq_true, all_eq_true]
      exact forall₂_congr fun c hc => by rw [ih c hc]
  | or cs ih =>
    rw [hor, truth, truthAny_eq]
    rw [Bool.eq_iff_iff, any_eq_true, any_eq_true]
    exact exists_congr fun c => and_congr_right fun hc => by rw [ih c hc]
  | eq _ _ | notEq _ _ | isIn _ _ | notIn _ _ | gt _ _ | lt _ _ | gte _ _ | lte _ _ | isNull _
  | isNotNull _ | bucketBitmap _ _ _ =>
    exact hleaf _ _ rfl

/-! ## What is stored, and how a leaf is read -/

namespace Tables

variable [Host] (t : Tables)

/-- What the string map of the field has under the first of the texts that it knows. -/
def textKey (field : String) (texts : List String) : Option UInt64 :=
  (t.stringMaps.bind (·.lookup field)).bind fun fieldMap => (texts.findSome? fieldMap.lookup).map Int64.toUInt64

/-- The bitmap key of a value. A string is looked up in the map under the texts, and then in the dictionary. -/
def keyUnder (field : String) (texts : String → List String) : Value → Option UInt64
  | .bool b => some (if b then 1 else 0)
  | .integer v => some v.toUInt64
  | .float _ => none
  | .string s => (t.textKey field (texts s)).or (t.dictionaryKey field s)

omit [Host] in
/-- The bitmap a bucket clause stands for now: that of the live bucket of the name, except for prefilters. -/
def bucketNow (field bucketName : String) (captured : Bitmap) : Bitmap :=
  if field = "__prefilter" then captured
  else t.timeBuckets.elim captured fun mgr => ((mgr.getBucket bucketName).map (·.bitmap)).getD ∅

end Tables

namespace QueryExecutor

section

variable [Host] (ex : QueryExecutor)

/-- The native evaluator tries the text as it is and then in lowercase. -/
def nativeKey (field : String) (value : Value) : Option UInt64 :=
  ex.tables.keyUnder field (fun s => [s, Host.toLowercase s]) value

/-- The executor tries one text, as it is in a case-sensitive field and in lowercase elsewhere. -/
def executorKey (field : String) (value : Value) : Option UInt64 :=
  ex.tables.keyUnder field
    (fun s => [if ex.tables.isCaseSensitive field then s else Host.toLowercase s]) value

omit [Host] in
/-- The slot is stored under the key. -/
def storedAt (field : String) (slot : UInt32) (key : UInt64) : Bool := decide (slot ∈ ex.filters.bits field key)

/-- The slot is stored under the native key of the value. -/
def found (slot : UInt32) (field : String) (value : Value) : Bool :=
  (ex.nativeKey field value).any (ex.storedAt field slot)

/-- The slot has a sort value that compares with the native key of the value. -/
def sortCompares (compare : Nat → Nat → Bool) (slot : UInt32) (field : String) (value : Value) : Bool :=
  (ex.nativeKey field value).any fun threshold =>
    (ex.sorts.reconstructValue field slot).any fun v => compare v threshold.toNat

/-- **What a leaf asks** of the stored bits, sort value and buckets of a slot, as the native evaluator means it. -/
def leafStored (slot : UInt32) : FilterClause → Bool
  | .eq field value => ex.found slot field value
  | .notEq field value => !ex.found slot field value
  | .isIn field values => values.any (ex.found slot field)
  | .notIn field values => !values.any (ex.found slot field)
  | .gt field value => ex.sortCompares (fun v t => decide (v > t)) slot field value
  | .gte field value => ex.sortCompares (fun v t => decide (v ≥ t)) slot field value
  | .lt field value => ex.sortCompares (fun v t => decide (v < t)) slot field value
  | .lte field value => ex.sortCompares (fun v t => decide (v ≤ t)) slot field value
  | .isNull field => ex.storedAt field slot nullBitmapKey
  | .isNotNull field => !ex.storedAt field slot nullBitmapKey
  | .bucketBitmap field bucketName bitmap => decide (slot ∈ ex.tables.bucketNow field bucketName bitmap)
  | .and _ => true
  | .not _ | .or _ => false

omit [Host] in
/-- In this reading the executor takes the field for the slot number and not for a filter field. -/
def readsId (field : String) (r : Reading) : Bool :=
  decide (field = "id") && !(decide (r = .candidates) && (ex.filters.getField field).isSome)

/-- The value is the slot number, to 32 bits. -/
def namesSlot (slot : UInt32) : Value → Bool
  | .integer v => decide (slot = slotOfInteger v)
  | _ => false

/-- The slot number is the value, or the slot is stored under the executor's key of it. -/
def executorFinds (r : Reading) (slot : UInt32) (field : String) (value : Value) : Bool :=
  if ex.readsId field r then namesSlot slot value else (ex.executorKey field value).any (ex.storedAt field slot)

/-- The value is read as a slot number or has another key, and that makes a difference to what is stored. -/
def valueDiffers (r : Reading) (slot : UInt32) (field : String) (value : Value) : Bool :=
  (ex.readsId field r || decide (ex.nativeKey field value ≠ ex.executorKey field value)) &&
    (ex.found slot field value != ex.executorFinds r slot field value)

/-- The values that differ make a difference for the list. -/
def anyDiffers (r : Reading) (slot : UInt32) (field : String) (values : List Value) : Bool :=
  values.any (ex.found slot field) !=
    values.any fun value => ex.found slot field value ^^ ex.valueDiffers r slot field value

omit [Host] in
/-- A negated clause excludes its field's null slots, except where applied in place to a stored bitmap (`NotEq`) or
field (`NotIn`). -/
def nullExcluded (r : Reading) (field : String) (stored : Bool) (slot : UInt32) : Bool :=
  !(decide (r = .inPlace) && decide (field ≠ "id") && stored) && ex.storedAt field slot nullBitmapKey

/-- The field has a bitmap under the executor's key of the value. -/
def hasBitmap (field : String) (value : Value) : Bool :=
  (ex.filters.getField field).any fun ff => (ex.executorKey field value).any fun key => (ff.getVersioned key).isSome

/-- **The leaves that the executor reads otherwise**, for an alive slot. -/
def readsOtherwise (slot : UInt32) (r : Reading) : FilterClause → Bool
  | .eq field value => ex.valueDiffers r slot field value
  | .isIn field values => ex.anyDiffers r slot field values
  | .notEq field value =>
    if ex.nullExcluded r field (ex.hasBitmap field value) slot then !ex.found slot field value
    else ex.valueDiffers .alone slot field value
  | .notIn field values =>
    if ex.nullExcluded r field (ex.filters.getField field).isSome slot then !values.any (ex.found slot field)
    else ex.anyDiffers .alone slot field values
  | .gt field value =>
    -- the sort value against the time bucket or the stored keys
    ex.sortCompares (fun v t => decide (v > t)) slot field value !=
      ex.afterHolds field value (fun k t => decide (k > t)) slot
  | .gte field value =>
    ex.sortCompares (fun v t => decide (v ≥ t)) slot field value !=
      ex.afterHolds field value (fun k t => decide (k ≥ t)) slot
  | .lt field value =>
    ex.sortCompares (fun v t => decide (v < t)) slot field value !=
      ex.beforeHolds field value (fun k t => decide (k < t)) slot
  | .lte field value =>
    ex.sortCompares (fun v t => decide (v ≤ t)) slot field value !=
      ex.beforeHolds field value (fun k t => decide (k ≤ t)) slot
  | .bucketBitmap field bucketName bitmap =>
    decide (slot ∈ ex.tables.bucketNow field bucketName bitmap) != decide (slot ∈ bitmap)
  | .and _ =>
    -- the empty conjunction is true natively and among candidates, and empty as a bitmap
    decide (r ≠ .candidates)
  | .isNull _ | .isNotNull _ => false
  | .not _ | .or _ => false

/-! ## The native side -/

omit [Host] in
theorem storedUnder_eq (field : String) (key : UInt64) (slot : UInt32) :
    storedUnder ex.filters field key slot = ex.storedAt field slot key := by
  rw [Bool.eq_iff_iff, storedAt, decide_eq_true_iff]
  unfold storedUnder FilterIndex.bits FilterField.bits
  cases ex.filters.getField field with
  | none => simp
  | some ff =>
    dsimp only
    cases ff.getVersioned key <;> simp

/-- The exact text, then the lowercase one where it is another. -/
theorem nativeStringMapKey_eq (t : Tables) (field s : String) :
    (nativeStringMapKey t field s).map Int64.toUInt64 = t.textKey field [s, Host.toLowercase s] := by
  unfold nativeStringMapKey Tables.textKey
  cases t.stringMaps with
  | none => rfl
  | some maps =>
    cases hm : maps.lookup field with
    | none => simp [hm]
    | some fieldMap =>
      cases hs : fieldMap.lookup s with
      | some v => simp [hm, hs]
      | none =>
        by_cases hlower : Host.toLowercase s = s
        · simp [hm, hs, hlower]
        · cases fieldMap.lookup (Host.toLowercase s) <;> simp_all

theorem resolveFilterValue_eq (field : String) (value : Value) :
    resolveFilterValue ex.tables field value = ex.nativeKey field value := by
  cases value with
  | bool _ | integer _ | float _ => rfl
  | string s =>
    rw [resolveFilterValue, nativeKey, Tables.keyUnder, ← nativeStringMapKey_eq]
    cases nativeStringMapKey ex.tables field s <;> rfl

theorem nativeContains_eq (field : String) (value : Value) (slot : UInt32) :
    nativeContains ex.filters ex.tables field value slot = ex.found slot field value := by
  rw [nativeContains, resolveFilterValue_eq, found]
  cases ex.nativeKey field value with
  | none => rfl
  | some key => exact ex.storedUnder_eq field key slot

theorem nativeCompare_eq (compare : Nat → Nat → Bool) (field : String) (value : Value) (slot : UInt32) :
    nativeCompare ex.sorts ex.tables field value slot compare = ex.sortCompares compare slot field value := by
  rw [nativeCompare, resolveFilterValue_eq, sortCompares, SortIndex.reconstructValue]
  cases ex.nativeKey field value with
  | none => rfl
  | some threshold =>
    cases ex.sorts.getField field <;> rfl

omit [Host] in
theorem nativeBucket_eq (field bucketName : String) (bitmap : Bitmap) (slot : UInt32) :
    nativeBucket ex.tables field bucketName bitmap slot =
      decide (slot ∈ ex.tables.bucketNow field bucketName bitmap) := by
  unfold nativeBucket Tables.bucketNow
  by_cases hfield : field = "__prefilter"
  · simp [hfield]
  · cases ex.tables.timeBuckets with
    | none => simp [hfield]
    | some mgr =>
      simp only [ne_eq, hfield, not_false_eq_true, if_true, if_false, Option.elim_some]
      cases mgr.getBucket bucketName <;> simp

/-- The test the executor applies to a slot in a reading. -/
def readHolds (slot : UInt32) : Reading → FilterClause → Bool
  | .alone, c => ex.holds c slot
  | .inPlace, c => ex.byRefHolds c slot
  | .candidates, c => ex.candidateHolds c slot

/-! ## The executor's side, leaf by leaf -/

omit [Host] in
theorem nullIn_eq (field : String) (slot : UInt32) : ex.nullIn field slot = ex.storedAt field slot nullBitmapKey := by
  unfold nullIn storedAt FilterIndex.bits
  cases ex.filters.getField field <;> simp

theorem resolveValueKey_eq (field : String) (value : Value) :
    ex.resolveValueKey field value = ex.executorKey field value := by
  cases value with
  | bool _ | integer _ | float _ => rfl
  | string s =>
    have htext : ex.tables.stringMapKey field s =
        ex.tables.textKey field [if ex.tables.isCaseSensitive field then s else Host.toLowercase s] := by
      unfold Tables.stringMapKey Tables.textKey
      cases ex.tables.stringMaps with
      | none => rfl
      | some maps =>
        cases hm : maps.lookup field with
        | none => simp [hm]
        | some fieldMap =>
          simp only [hm, Option.bind_eq_bind, Option.bind_some, findSome?_cons, findSome?_nil]
          cases fieldMap.lookup (if ex.tables.isCaseSensitive field then s else Host.toLowercase s) <;> rfl
    rw [executorKey, Tables.keyUnder, ← htext, resolveValueKey, Tables.resolveValueKey]
    cases ex.tables.stringMapKey field s <;> rfl

theorem storedHolds_eq {field : String} {ff : FilterField} (hff : ex.filters.getField field = some ff) (value : Value)
    (slot : UInt32) : ex.storedHolds ff field value slot = (ex.executorKey field value).any (ex.storedAt field slot) := by
  unfold storedHolds
  rw [resolveValueKey_eq]
  cases ex.executorKey field value with
  | none => rfl
  | some key => simp [storedAt, FilterIndex.bits_of_getField hff]

theorem isSome_storedBitmap (field : String) (value : Value) :
    (ex.storedBitmap field value).isSome = ex.hasBitmap field value := by
  rw [storedBitmap, hasBitmap, resolveValueKey_eq]
  cases ex.filters.getField field with
  | none => rfl
  | some ff => cases ex.executorKey field value <;> rfl

/-- The values that differ are those that the two sides find differently. -/
theorem executorFinds_eq (r : Reading) (slot : UInt32) (field : String) (value : Value) :
    ex.executorFinds r slot field value = (ex.found slot field value ^^ ex.valueDiffers r slot field value) := by
  unfold valueDiffers
  by_cases hsame : ex.readsId field r = false ∧ ex.nativeKey field value = ex.executorKey field value
  · obtain ⟨hread, hkey⟩ := hsame
    simp [executorFinds, found, hread, hkey]
  · have hmark : (ex.readsId field r || decide (ex.nativeKey field value ≠ ex.executorKey field value)) = true := by
      cases hread : ex.readsId field r with
      | true => rfl
      | false => simpa using fun hkey => hsame ⟨hread, hkey⟩
    rw [hmark, Bool.true_and]
    cases ex.found slot field value <;> cases ex.executorFinds r slot field value <;> rfl

theorem any_executorFinds (r : Reading) (slot : UInt32) (field : String) (values : List Value) :
    values.any (ex.executorFinds r slot field) =
      (values.any (ex.found slot field) ^^ ex.anyDiffers r slot field values) := by
  have hflip : ∀ a b : Bool, (a ^^ (a != b)) = b := by decide
  rw [anyDiffers, hflip]
  simp only [← executorFinds_eq]

variable {ex} {slot : UInt32}

section Alive

variable (halive : slot ∈ ex.aliveBitmap) (r : Reading) (field : String) (value : Value) (values : List Value)

include halive

theorem eqHolds_eq : ex.eqHolds field value slot = ex.executorFinds .alone slot field value := by
  unfold eqHolds executorFinds readsId
  by_cases hid : field = "id"
  · simp only [hid, halive]
    cases value <;> simp [namesSlot]
  · simp only [hid, if_false, decide_false, Bool.false_and, Bool.false_eq_true]
    cases hff : ex.filters.getField field with
    | none => cases ex.executorKey field value <;> simp [storedAt, FilterIndex.bits, hff]
    | some ff => exact ex.storedHolds_eq hff value slot

/-- Among candidates a stored field is looked up, whatever its name. -/
theorem candidates_eq : (match ex.filters.getField field with
      | some ff => ex.storedHolds ff field value slot
      | none => ex.eqHolds field value slot) = ex.executorFinds .candidates slot field value := by
  cases hff : ex.filters.getField field with
  | none => simp [eqHolds_eq halive, executorFinds, readsId, hff]
  | some ff =>
    have hread : ex.readsId field .candidates = false := by simp [readsId, hff]
    simp [executorFinds, hread, ex.storedHolds_eq hff]

theorem readHolds_eq : ex.readHolds slot r (.eq field value) = ex.executorFinds r slot field value := by
  cases r with
  | alone | inPlace => exact eqHolds_eq halive field value
  | candidates =>
    rw [← candidates_eq halive, readHolds]
    rfl

theorem readHolds_isIn : ex.readHolds slot r (.isIn field values) = values.any (ex.executorFinds r slot field) := by
  have hany : values.any (ex.eqHolds field · slot) = values.any (ex.executorFinds .alone slot field) := by
    simp [eqHolds_eq halive]
  cases r with
  | alone | inPlace => exact hany
  | candidates =>
    simp only [readHolds, candidateHolds]
    have hcandidates : ∀ value, ex.executorFinds .candidates slot field value = _ :=
      fun value => (candidates_eq halive field value).symm
    simp only [funext hcandidates]
    cases ex.filters.getField field <;> rfl

theorem readHolds_notEq : ex.readHolds slot r (.notEq field value) = !(ex.executorFinds .alone slot field value ||
        ex.nullExcluded r field (ex.hasBitmap field value) slot) := by
  have hholds : ex.holds (.notEq field value) slot = !(ex.executorFinds .alone slot field value ||
        ex.storedAt field slot nullBitmapKey) := by
    simp [holds, halive, eqHolds_eq halive, nullIn_eq]
  cases r with
  | alone => simp [readHolds, hholds, nullExcluded]
  | candidates => simp [readHolds, candidateHolds, hholds, nullExcluded]
  | inPlace =>
    by_cases hid : field = "id"
    · simp [readHolds, byRefHolds, hid, hid ▸ hholds, nullExcluded]
    · have hbitmap := ex.isSome_storedBitmap field value
      cases hvb : ex.storedBitmap field value with
      | none =>
        rw [hvb] at hbitmap
        simp [readHolds, byRefHolds, hid, hvb, hholds, nullExcluded, ← hbitmap]
      | some vb =>
        -- the stored bitmap is subtracted and nothing else is looked at
        rw [hvb] at hbitmap
        obtain ⟨ff, hff, hstored⟩ := ex.storedBitmap_some hvb
        have heq : ex.executorFinds .alone slot field value = decide (slot ∈ vb.fused) := by
          rw [← eqHolds_eq halive, ← ex.storedHolds_eq_eqHolds hid hff, hstored]
        simp [readHolds, byRefHolds, hid, hvb, heq, nullExcluded, ← hbitmap]

theorem readHolds_notIn :
    ex.readHolds slot r (.notIn field values) = !(values.any (ex.executorFinds .alone slot field) ||
        ex.nullExcluded r field (ex.filters.getField field).isSome slot) := by
  have hholds : ex.holds (.notIn field values) slot = !(values.any (ex.executorFinds .alone slot field) ||
        ex.storedAt field slot nullBitmapKey) := by
    simp [holds, halive, eqHolds_eq halive, nullIn_eq, decide_true, Bool.true_and, Bool.not_or]
  cases r with
  | alone => simp [readHolds, hholds, nullExcluded]
  | candidates => simp [readHolds, candidateHolds, hholds, nullExcluded]
  | inPlace =>
    by_cases hid : field = "id"
    · simp [readHolds, byRefHolds, hid, hid ▸ hholds, nullExcluded]
    · cases hff : ex.filters.getField field with
      | none => simp [readHolds, byRefHolds, hid, hff, hholds, nullExcluded]
      | some ff =>
        have heq : ∀ v, ex.storedHolds ff field v slot = ex.executorFinds .alone slot field v :=
          fun v => by rw [← eqHolds_eq halive, ex.storedHolds_eq_eqHolds hid hff]
        simp [readHolds, byRefHolds, hid, hff, heq, nullExcluded]

/-- **At a leaf the executor's test is what is stored, flipped where `readsOtherwise` says so.** -/
theorem readHolds_leaf {c : FilterClause} (hc : c.isLeaf = true) :
    ex.readHolds slot r c = (ex.leafStored slot c ^^ ex.readsOtherwise slot r c) := by
  have hflip : ∀ a b : Bool, (a ^^ (a != b)) = b := by decide
  -- a negated clause, with the null slots excluded or not
  have hnegated : ∀ a d n : Bool, (!a ^^ if n = true then !a else d) = !(a ^^ d || n) := by decide
  cases c with
  | eq field value => rw [readHolds_eq halive, leafStored, readsOtherwise, executorFinds_eq]
  | isIn field values => rw [readHolds_isIn halive, leafStored, readsOtherwise, any_executorFinds]
  | notEq field value => rw [readHolds_notEq halive, leafStored, readsOtherwise, hnegated, executorFinds_eq]
  | notIn field values => rw [readHolds_notIn halive, leafStored, readsOtherwise, hnegated, any_executorFinds]
  | and cs =>
    obtain rfl : cs = [] := by simpa [isLeaf] using hc
    cases r <;> rfl
  | not _ | or _ => cases hc
  | isNull field =>
    cases r <;> simp [readHolds, byRefHolds, candidateHolds, holds, leafStored, readsOtherwise, nullIn_eq]
  | isNotNull field =>
    cases r <;> simp [readHolds, byRefHolds, candidateHolds, holds, leafStored, readsOtherwise, nullIn_eq, halive]
  | gt _ _ | gte _ _ | lt _ _ | lte _ _ | bucketBitmap _ _ _ =>
    rw [leafStored, readsOtherwise]
    cases r <;> simp [readHolds, byRefHolds, candidateHolds, holds]

/-! ## Agreement -/

/-- The executor's tests, in every reading, compose from its leaf tests. -/
theorem readHolds_eq_truth (c : FilterClause) :
    ex.readHolds slot r c = truth (fun r c => ex.leafStored slot c ^^ ex.readsOtherwise slot r c) r c := by
  refine eq_truth_of_compositional (ex.readHolds slot) ?_ ?_ ?_
    (fun r c => readHolds_leaf halive r) r c
  · intro r c
    cases r <;> simp [readHolds, byRefHolds, candidateHolds, holds, Reading.underNot, halive]
  · intro r cs hcs
    rw [Bool.eq_iff_iff, all_eq_true]
    cases r <;> simp [readHolds, byRefHolds, candidateHolds, holds_and_iff, candidateHoldsAll_iff,
      Reading.underList, hcs]
  · intro r cs
    rw [Bool.eq_iff_iff]
    cases r <;> simp [readHolds, byRefHolds, candidateHolds, holds_or_iff, candidateHoldsAny_iff, Reading.underList]

end Alive

/-- The native evaluator composes from what its leaves ask, whatever the reading. -/
theorem slotMatchesClauseNative_eq_truth (r : Reading) (c : FilterClause) :
    slotMatchesClauseNative ex.filters ex.sorts ex.tables slot c = truth (fun _ c => ex.leafStored slot c) r c := by
  refine eq_truth_of_compositional
    (fun _ c => slotMatchesClauseNative ex.filters ex.sorts ex.tables slot c) ?_ ?_ ?_ ?_ r c
  · intro _ c
    rw [slotMatchesClauseNative]
  · intro _ cs _
    rw [slotMatchesClauseNative, nativeAll_eq]
  · intro _ cs
    rw [slotMatchesClauseNative, nativeAny_eq]
  · intro _ c hc
    cases c with
    | not _ | or _ => cases hc
    | and cs =>
      obtain rfl : cs = [] := by simpa [isLeaf] using hc
      rfl
    | notIn field values =>
      simp only [slotMatchesClauseNative, leafStored, nativeContains_eq, not_any_eq_all_not]
    | eq _ _ | notEq _ _ | isIn _ _ => simp only [slotMatchesClauseNative, leafStored, nativeContains_eq]
    | gt _ _ | lt _ _ | gte _ _ | lte _ _ => simp only [slotMatchesClauseNative, leafStored, nativeCompare_eq]
    | isNull _ | isNotNull _ => simp only [slotMatchesClauseNative, leafStored, storedUnder_eq]
    | bucketBitmap _ _ _ => simp only [slotMatchesClauseNative, leafStored, nativeBucket_eq]

theorem slotMatchesFilterNative_eq_truth (clauses : List FilterClause) :
    slotMatchesFilterNative ex.filters ex.sorts ex.tables slot clauses =
      truthOfList (fun _ c => ex.leafStored slot c) clauses := by
  cases clauses with
  | nil => rfl
  | cons c rest =>
    rw [slotMatchesFilterNative, all_cons, slotMatchesClauseNative_eq_truth .alone]
    congr 2
    funext d
    exact slotMatchesClauseNative_eq_truth .inPlace d

/-- The executor's bitmap holds the alive slots of which the list is true, with the leaves read in its own ways. -/
theorem mem_computeFilters_iff_truth {clauses : List FilterClause} {b : Bitmap}
    (hb : ex.computeFilters clauses = .ok b) (halive : slot ∈ ex.aliveBitmap) :
    slot ∈ b ↔ truthOfList (fun r c => ex.leafStored slot c ^^ ex.readsOtherwise slot r c) clauses = true := by
  cases clauses with
  | nil =>
    cases hb
    exact iff_of_true halive rfl
  | cons c rest =>
    rw [ex.mem_computeFilters hb, truthOfList, Bool.and_eq_true, all_eq_true, ← readHolds_eq_truth halive]
    refine and_congr_right fun _ => forall₂_congr fun d _ => ?_
    rw [← readHolds_eq_truth halive, readHolds]

/-- **Native and executor.** For every clause list the executor accepts and every alive slot, the native evaluator
says what the executor's bitmap says exactly when the truth of the list does not change as the leaves marked by
`readsOtherwise` are flipped together. -/
theorem slotMatchesFilterNative_iff_mem (ex : QueryExecutor) (clauses : List FilterClause)
    (b : Bitmap) (hb : ex.computeFilters clauses = .ok b) (slot : UInt32) (halive : slot ∈ ex.aliveBitmap) :
    (slotMatchesFilterNative ex.filters ex.sorts ex.tables slot clauses = true ↔ slot ∈ b) ↔
      truthOfList (fun _ c => ex.leafStored slot c) clauses =
        truthOfList (fun r c => ex.leafStored slot c ^^ ex.readsOtherwise slot r c) clauses := by
  rw [slotMatchesFilterNative_eq_truth, mem_computeFilters_iff_truth hb halive, ← Bool.eq_iff_iff]

end

/-! ## A null slot, a range and an empty conjunction -/

section

attribute [local instance] Host.ascii

/-- Slot 0 is null in `b`: `b != 5` and the empty conjunction return it natively only, and `a >= 1` is answered from a
sort field that does not exist. -/
theorem slotMatchesFilterNative_differs : (nullSample.computeFilters [.notEq "b" (.integer 5)] = .ok ∅ ∧
      slotMatchesFilterNative nullSample.filters nullSample.sorts nullSample.tables 0
        [.notEq "b" (.integer 5)] = true) ∧ (nullSample.computeFilters [.and []] = .ok ∅ ∧
      slotMatchesFilterNative nullSample.filters nullSample.sorts nullSample.tables 0 [.and []] = true) ∧
    (nullSample.computeFilters [.gte "a" (.integer 1)] = .ok {0} ∧
      slotMatchesFilterNative nullSample.filters nullSample.sorts nullSample.tables 0
        [.gte "a" (.integer 1)] = false) ∧ 0 ∈ nullSample.aliveBitmap := by
  refine ⟨⟨?_, ?_⟩, ⟨?_, ?_⟩, ⟨?_, ?_⟩, ?_⟩ <;> decide +kernel

/-- On `a = 1 AND NOT (b IN [5])` no leaf differs at slot 0. -/
theorem slotMatchesFilterNative_iff_mem_sample :
    nullSample.computeFilters [.eq "a" (.integer 1), .not (.isIn "b" [.integer 5])] = .ok {0} ∧
    0 ∈ nullSample.aliveBitmap ∧ (slotMatchesFilterNative nullSample.filters nullSample.sorts nullSample.tables 0
      [.eq "a" (.integer 1), .not (.isIn "b" [.integer 5])] = true ↔ 0 ∈ ({0} : Bitmap)) := by
  have hb : nullSample.computeFilters [.eq "a" (.integer 1), .not (.isIn "b" [.integer 5])] =
      .ok {0} := by decide +kernel
  have halive : 0 ∈ nullSample.aliveBitmap := by decide +kernel
  refine ⟨hb, halive, ?_⟩
  exact (slotMatchesFilterNative_iff_mem nullSample _ {0} hb 0 halive).mpr (by decide +kernel)

end

end QueryExecutor

end Bitdex
