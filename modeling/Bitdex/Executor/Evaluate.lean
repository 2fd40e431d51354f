import Bitdex.Planner

/-!
# `Executor.Evaluate` — one clause to one bitmap

`QueryExecutor::evaluate_clause` (`executor.rs`) turns a filter clause into a bitmap, or fails. The
functions below follow its arms one by one; `And` evaluates its children in the planner's order and
`Or` keeps the source's inlined fast path for `Eq` and `In` children.
-/

namespace Bitdex

/-- A query executor over one snapshot of the index. -/
structure QueryExecutor where
  slots : SlotAllocator
  filters : FilterIndex
  sorts : SortIndex
  maxPageSize : Nat
  tables : Tables

namespace QueryExecutor

variable [Host] (ex : QueryExecutor)

/-- The alive slots. -/
abbrev aliveBitmap : Bitmap := ex.slots.aliveBitmap

/-- The key of a value. -/
def resolveValueKey (field : String) (val : Value) : Option UInt64 := ex.tables.resolveValueKey field val

/-! ## The arms that do not recurse -/

/-- `*v as u32` of an `i64`. -/
def slotOfInteger (v : Int64) : UInt32 := v.toUInt64.toUInt32

/-- The bitmap of `id = N`, intersected with alive. -/
def idBitmapSingle : Value → Except BitdexError Bitmap
  | .integer v =>
    let slot := slotOfInteger v
    .ok (if slot ∈ ex.aliveBitmap then {slot} else ∅)
  | _ => .error (.invalidValue "id" "id must be an integer")

/-- One step of the loop over `id IN [..]`; a value that is not an integer is skipped. -/
def insertId (bm : Bitmap) : Value → Bitmap
  | .integer id =>
    let slot := slotOfInteger id
    if slot ∈ ex.aliveBitmap then insert slot bm else bm
  | _ => bm

/-- The bitmap of `id IN [..]`, intersected with alive. -/
def idBitmapMulti (values : List Value) : Bitmap := values.foldl ex.insertId ∅

/-- The slots with a value. -/
def evaluateEq (field : String) (value : Value) : Except BitdexError Bitmap :=
  if field = "id" then ex.idBitmapSingle value
  else
    match ex.filters.getField field with
    | some ff =>
      match ex.resolveValueKey field value with
      | some key => .ok (((ff.getVersioned key).map VersionedBitmap.fused).getD ∅)
      | none => .ok ∅
    | none => .error (.fieldNotFound field)

/-- `result |= vb` for every value that resolves to a stored bitmap. -/
def orValues (ff : FilterField) (field : String) (values : List Value) (result : Bitmap) : Bitmap :=
  values.foldl (fun acc v =>
    match ex.resolveValueKey field v with
    | some key =>
      match ff.getVersioned key with
      | some vb => acc ∪ vb.fused
      | none => acc
    | none => acc) result

/-- The slots with one of some values. -/
def evaluateIn (field : String) (values : List Value) : Except BitdexError Bitmap :=
  if field = "id" then .ok (ex.idBitmapMulti values)
  else
    match ex.filters.getField field with
    | some ff => .ok (ex.orValues ff field values ∅)
    | none => .error (.fieldNotFound field)

/-- Null values are not "not equal": they are unknown. -/
def subtractNull (field : String) (result : Bitmap) : Bitmap :=
  match ex.filters.getField field with
  | some ff =>
    match ff.getVersioned nullBitmapKey with
    | some nullVb => result \ nullVb.fused
    | none => result
  | none => result

/-- The union of the bitmaps whose key compares with the target; the null key is no value. -/
def scanUnion (ff : FilterField) (target : UInt64) (predicate : UInt64 → UInt64 → Bool) : Bitmap :=
  ff.bitmaps.entries.foldl (fun result e =>
    if e.1 = nullBitmapKey then result
    else if predicate e.1 target then
      result ∪ (if e.2.isDirty then e.2.fused else e.2.base)
    else result) ∅

/-- Over its cap a field refuses range scans before any bitmap work. -/
def overCap (ff : FilterField) : Option Nat :=
  match ff.config.maxRangeScanValues with
  | some cap => if ff.loadedValueCount > cap then some cap else none
  | none => none

/-- The slots with a key in a range. -/
def rangeScan (field : String) (value : Value) (predicate : UInt64 → UInt64 → Bool) :
    Except BitdexError Bitmap :=
  match ex.filters.getField field with
  | none => .error (.fieldNotFound field)
  | some ff =>
    match overCap ff with
    | some cap => .error (.queryTooExpensive field ff.loadedValueCount cap)
    | none =>
      match valueToBitmapKey value with
      | some target => .ok (scanUnion ff target predicate)
      | none => .error (.invalidValue field "cannot convert to bitmap key for range filter")

/-- The unit-normalised threshold of a range clause on the bucketed field, with its manager. -/
def bucketThreshold (field : String) (value : Value) : Option (TimeBucketManager × Nat) :=
  match ex.tables.timeBuckets with
  | some tb =>
    if field = tb.fieldName then
      (valueToBitmapKey value).map fun threshold => (tb, tsSecsU64 threshold.toNat)
    else none
  | none => none

/-- The bucket that `now - threshold` snaps to. -/
def snapBucket (tb : TimeBucketManager) (threshold : Nat) : Option TimeBucket :=
  match tb.snapDuration (ex.tables.nowUnix - threshold) with
  | some name => tb.getBucket name
  | none => none

/-- `Gt`/`Gte`: a snapped bucket answers for the clause, else the bitmaps are scanned. -/
def evaluateAfter (field : String) (value : Value) (predicate : UInt64 → UInt64 → Bool) :
    Except BitdexError Bitmap :=
  match ex.bucketThreshold field value with
  | some (tb, threshold) =>
    match ex.snapBucket tb threshold with
    | some bucket => .ok bucket.bitmap
    | none => ex.rangeScan field value predicate
  | none => ex.rangeScan field value predicate

/-- `Lt`/`Lte`: a future threshold matches every alive slot, a snapped bucket is subtracted from alive. -/
def evaluateBefore (field : String) (value : Value) (predicate : UInt64 → UInt64 → Bool) :
    Except BitdexError Bitmap :=
  match ex.bucketThreshold field value with
  | some (tb, threshold) =>
    if threshold ≥ ex.tables.nowUnix then .ok ex.aliveBitmap
    else
      match ex.snapBucket tb threshold with
      | some bucket => .ok (ex.aliveBitmap \ bucket.bitmap)
      | none => ex.rangeScan field value predicate
  | none => ex.rangeScan field value predicate

/-- The null bitmap of a field. -/
def nullBitmap (field : String) : Except BitdexError Bitmap :=
  match ex.filters.getField field with
  | some ff => .ok (((ff.getVersioned nullBitmapKey).map VersionedBitmap.fused).getD ∅)
  | none => .error (.fieldNotFound field)

/-! ## The recursive evaluator -/

/-- The `And` loop over the children's results: the first starts the accumulator, no child gives the empty bitmap. -/
def andLoop (result : Option Bitmap) : List (Except BitdexError Bitmap) → Except BitdexError Bitmap
  | [] => .ok (result.getD ∅)
  | r :: rest => do
      let bitmap ← r
      andLoop (some (match result with
        | some existing => existing ∩ bitmap
        | none => bitmap)) rest

mutual

/-- The slots that match a clause, or an error. -/
def evaluateClause : FilterClause → Except BitdexError Bitmap
  | .eq field value => ex.evaluateEq field value
  | .notEq field value => do
      let eqBitmap ← ex.evaluateEq field value
      return ex.subtractNull field (ex.aliveBitmap \ eqBitmap)
  | .isIn field values => ex.evaluateIn field values
  | .notIn field values => do
      let inBitmap ← ex.evaluateIn field values
      return ex.subtractNull field (ex.aliveBitmap \ inBitmap)
  | .not inner => do
      let innerBitmap ← evaluateClause inner
      return ex.aliveBitmap \ innerBitmap
  | .and clauses =>
    -- children paired with their estimates, evaluated in the order of `optimize_and_clause`
    let pairs := (estimateEach ex.filters ex.slots.aliveCount none clauses).zip
      (evaluateEach clauses)
    andLoop none ((pairs.insertionSort fun a b => a.1 ≤ b.1).map Prod.snd)
  | .or clauses => evaluateOr clauses ∅
  | .gt field value => ex.evaluateAfter field value fun k t => decide (k > t)
  | .gte field value => ex.evaluateAfter field value fun k t => decide (k ≥ t)
  | .lt field value => ex.evaluateBefore field value fun k t => decide (k < t)
  | .lte field value => ex.evaluateBefore field value fun k t => decide (k ≤ t)
  | .bucketBitmap _ _ bitmap => .ok bitmap
  | .isNull field => ex.nullBitmap field
  | .isNotNull field => do
      let nulls ← ex.nullBitmap field
      return ex.aliveBitmap \ nulls

/-- Each clause by itself. -/
def evaluateEach : List FilterClause → List (Except BitdexError Bitmap)
  | [] => []
  | c :: cs => evaluateClause c :: evaluateEach cs

/-- The `Or` loop: `Eq` and `In` children on an existing filter field are read in place. -/
def evaluateOr : List FilterClause → Bitmap → Except BitdexError Bitmap
  | [], result => .ok result
  | c :: cs, result =>
    match c with
    | .eq field value =>
      if field ≠ "id" then
        match ex.filters.getField field with
        | some ff => evaluateOr cs (ex.orValues ff field [value] result)
        | none => do
            let bitmap ← ex.evaluateEq field value
            evaluateOr cs (result ∪ bitmap)
      else do
        let bitmap ← ex.evaluateEq field value
        evaluateOr cs (result ∪ bitmap)
    | .isIn field values =>
      if field ≠ "id" then
        match ex.filters.getField field with
        | some ff => evaluateOr cs (ex.orValues ff field values result)
        | none => do
            let bitmap ← ex.evaluateIn field values
            evaluateOr cs (result ∪ bitmap)
      else do
        let bitmap ← ex.evaluateIn field values
        evaluateOr cs (result ∪ bitmap)
    | c => do
        let bitmap ← evaluateClause c
        evaluateOr cs (result ∪ bitmap)

end

end QueryExecutor

end Bitdex
