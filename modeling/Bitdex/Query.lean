import Bitdex.Index

/-!
# `Query` — filter clauses, time buckets and value resolution

The query language (`query.rs`) and the three tables a value is looked up in: string maps, live
dictionaries (`dictionary.rs`) and time buckets (`time_buckets.rs`).
-/

namespace Bitdex

/-- Functions of the standard library that the modelled code calls. Nothing is assumed about them
unless a theorem says so.

* `toLowercase` — `str::to_lowercase` (Unicode);
* `displayF64` — the text of an `f64`, given by its bits;
* `snapThreshold` — `(bd as f64 * 0.10).round() as u64`, the snap tolerance of a bucket duration. -/
class Host where
  toLowercase : String → String
  displayF64 : UInt64 → String
  snapThreshold : Nat → Nat

/-- A host for concrete runs: ASCII lowercasing, bit texts for floats and exact tenths. -/
@[reducible] def Host.ascii : Host where
  toLowercase s := s.map Char.toLower
  displayF64 bits := toString bits.toNat
  snapThreshold bd := (bd + 5) / 10

/-- A dynamically typed value; an `f64` is given by its bits. -/
inductive Value where
  | integer (v : Int64)
  | float (bits : UInt64)
  | bool (b : Bool)
  | string (s : String)
deriving DecidableEq

/-- A predicate on indexed data. Only range snapping makes a `bucketBitmap`, with the bitmap of its bucket. -/
inductive FilterClause where
  | eq (field : String) (value : Value)
  | notEq (field : String) (value : Value)
  | isIn (field : String) (values : List Value)
  | notIn (field : String) (values : List Value)
  | gt (field : String) (value : Value)
  | lt (field : String) (value : Value)
  | gte (field : String) (value : Value)
  | lte (field : String) (value : Value)
  | not (inner : FilterClause)
  | and (clauses : List FilterClause)
  | or (clauses : List FilterClause)
  | isNull (field : String)
  | isNotNull (field : String)
  | bucketBitmap (field bucketName : String) (bitmap : Bitmap)

/-- Ascending or descending. -/
inductive SortDirection where
  | asc
  | desc
deriving DecidableEq, Repr

/-- What a query sorts by. -/
structure SortClause where
  field : String
  direction : SortDirection
deriving DecidableEq, Repr

/-- The last seen sort value (a `u64`) and slot of a page. -/
structure CursorPosition where
  sortValue : Nat
  slotId : UInt32
deriving DecidableEq

/-- The errors of a query. -/
inductive BitdexError where
  | fieldNotFound (field : String)
  | invalidValue (field reason : String)
  | queryTooExpensive (field : String) (fieldLoadedValues cap : Nat)
deriving DecidableEq, Repr

/-! ## Bitmap keys -/

/-- `*v as u64` for an integer, 0 or 1 for a boolean. -/
def valueToBitmapKey : Value → Option UInt64
  | .bool b => some (if b then 1 else 0)
  | .integer v => some v.toUInt64
  | .float _ => none
  | .string _ => none

/-- Timestamps above `10^11` are milliseconds. -/
def tsSecsU64 (ts : Nat) : Nat := if ts > 100000000000 then ts / 1000 else ts

/-! ## Time buckets -/

/-- A bucket as queries see it. -/
structure TimeBucket where
  durationSecs : Nat
  bitmap : Bitmap

/-- The buckets of one timestamp field, in the order of `sorted_names` (shortest first); names are distinct keys of
the source's hash map. -/
structure TimeBucketManager where
  fieldName : String
  buckets : List (String × TimeBucket)

namespace TimeBucketManager

/-- The bucket of a name. -/
def getBucket (tb : TimeBucketManager) (name : String) : Option TimeBucket := tb.buckets.lookup name

/-- The loop of `snap_duration` with its running best name and delta (`u64::MAX` at first). -/
def snapLoop [Host] (duration : Nat) (best : Option String) (bestDelta : Nat) :
    List (String × TimeBucket) → Option String
  | [] => best
  | (name, bucket) :: rest =>
    let bd := bucket.durationSecs
    let delta := if duration > bd then duration - bd else bd - duration
    if delta ≤ Host.snapThreshold bd ∧ delta < bestDelta then
      snapLoop duration (some name) delta rest
    else
      snapLoop duration best bestDelta rest

/-- The bucket closest to a duration, among those within tolerance of it. -/
def snapDuration [Host] (tb : TimeBucketManager) (duration : Nat) : Option String :=
  snapLoop duration none (2 ^ 64 - 1) tb.buckets

/-- The smallest bucket that covers a duration, or the largest one. -/
def snapNearest (tb : TimeBucketManager) (duration : Nat) : String :=
  ((tb.buckets.find? fun b => decide (b.2.durationSecs ≥ duration)).or tb.buckets.getLast?).elim
    "_none" Prod.fst

end TimeBucketManager

/-! ## String resolution -/

/-- A live dictionary; its keys are stored lowercase. -/
structure FieldDictionary where
  map : HashMap String Int64

/-- The key of a string, in any casing. -/
def FieldDictionary.get [Host] (d : FieldDictionary) (value : String) : Option Int64 :=
  d.map.lookup (Host.toLowercase value)

/-- What a query executor consults besides the index itself. -/
structure Tables where
  stringMaps : Option (HashMap String (HashMap String Int64))
  caseSensitiveFields : Option (List String)
  dictionaries : Option (HashMap String FieldDictionary)
  timeBuckets : Option TimeBucketManager
  nowUnix : Nat

namespace Tables

/-- No string maps, dictionaries or buckets attached. -/
def empty : Tables := ⟨none, none, none, none, 0⟩

/-- The field tells upper from lower case. -/
def isCaseSensitive (t : Tables) (field : String) : Bool :=
  match t.caseSensitiveFields with
  | some cs => decide (field ∈ cs)
  | none => false

/-- The string-map step of the lookup. -/
def stringMapKey [Host] (t : Tables) (field s : String) : Option UInt64 := do
  let maps ← t.stringMaps
  let fieldMap ← maps.lookup field
  let v ← fieldMap.lookup (if t.isCaseSensitive field then s else Host.toLowercase s)
  return v.toUInt64

/-- The dictionary step of the lookup. -/
def dictionaryKey [Host] (t : Tables) (field s : String) : Option UInt64 := do
  let dicts ← t.dictionaries
  let dict ← dicts.lookup field
  let v ← dict.get s
  return v.toUInt64

/-- Integers and booleans convert directly; a string goes through the field's string map, then its dictionary. -/
def resolveValueKey [Host] (t : Tables) (field : String) (val : Value) : Option UInt64 :=
  match valueToBitmapKey val with
  | some key => some key
  | none =>
    match val with
    | .string s =>
      match t.stringMapKey field s with
      | some key => some key
      | none => t.dictionaryKey field s
    | _ => none

/-! ## Snapping range clauses -/

/-- `ts_to_secs`: timestamps above `10^11` are milliseconds. -/
def tsToSecs (ts : Int64) : Int64 := if ts > 100000000000 then ts / 1000 else ts

/-- The bucket clause that stands for `field > ts` on a field with time buckets: the bucket within tolerance, else the
nearest, else an empty one. -/
def snapToBucket [Host] (t : Tables) (field : String) (ts : Int64) : Option FilterClause :=
  t.timeBuckets.bind fun tb =>
    if tb.fieldName = field then
      let duration := t.nowUnix - (tsToSecs ts).toUInt64.toNat
      let named := fun name => (tb.getBucket name).map fun b => FilterClause.bucketBitmap field name b.bitmap
      some (((tb.snapDuration duration).bind named).getD
        ((named (tb.snapNearest duration)).getD (.bucketBitmap field "_none" ∅)))
    else none

mutual

/-- Snap the lower bounds on the bucketed field, inside `And` and `Or` but not inside `Not`. -/
def snapClause [Host] (t : Tables) : FilterClause → FilterClause
  | .gt field (.integer ts) => (t.snapToBucket field ts).getD (.gt field (.integer ts))
  | .gte field (.integer ts) => (t.snapToBucket field ts).getD (.gte field (.integer ts))
  | .and inner => .and (snapEach t inner)
  | .or inner => .or (snapEach t inner)
  | clause => clause

/-- Snapping of each clause. -/
def snapEach [Host] (t : Tables) : List FilterClause → List FilterClause
  | [] => []
  | c :: cs => snapClause t c :: snapEach t cs

end

/-- Snap the range clauses of a query. -/
def snapRangeClauses [Host] (t : Tables) (clauses : List FilterClause) : List FilterClause := snapEach t clauses

end Tables

end Bitdex
