import Bitdex.Write.Batch

/-!
# `Write.Mutation` — from documents to mutation ops

`put` does not touch bitmaps. It compares the new document with the stored one and emits the ops that
turn the bits of the old document into those of the new one (`diff_document` in `mutation.rs`); `delete`
emits the ops that clear the bits of the stored document.

Field names are interned in the source (`FieldRegistry`); interning does not change them.
-/

namespace Bitdex

/-! ## Documents -/

/-- What a document has for a field. -/
inductive FieldValue where
  | single (v : Value)
  | multi (vs : List Value)
deriving DecidableEq

/-- A document is only ever read by field name. -/
abbrev Document := String → Option FieldValue

/-- `f64` equality on bit patterns: NaN equals nothing, the two zeros are equal. -/
def eqF64 (a b : UInt64) : Bool :=
  let isNan (x : UInt64) : Bool := decide (0x7ff0000000000000 < x &&& 0x7fffffffffffffff)
  !isNan a && !isNan b &&
    (a == b || (a &&& 0x7fffffffffffffff == 0 && b &&& 0x7fffffffffffffff == 0))

/-- Equality of values. -/
def valuesEqual : Value → Value → Bool
  | .integer a, .integer b => a == b
  | .bool a, .bool b => a == b
  | .float a, .float b => eqF64 a b
  | .string a, .string b => a == b
  | _, _ => false

/-- Equal, or both absent. -/
def fieldValuesEqual : Option FieldValue → Option FieldValue → Bool
  | none, none => true
  | some (.single a), some (.single b) => valuesEqual a b
  | some (.multi a), some (.multi b) =>
    a.length == b.length && (a.zip b).all fun p => valuesEqual p.1 p.2
  | _, _ => false

/-! ## Configuration -/

/-- How sources are combined. -/
inductive ComputedOp where
  | greatest
  | least
deriving DecidableEq

/-- A sort field computed from sources. -/
structure ComputedField where
  op : ComputedOp
  sourceFields : List String
deriving DecidableEq

/-- The configuration of a sort field. -/
structure SortFieldConfig where
  name : String
  bits : Nat
  computed : Option ComputedField
deriving DecidableEq

/-- A schema mapping; `existsBoolean` stands for `FieldValueType::ExistsBoolean`. -/
structure FieldMapping where
  source : String
  target : String
  existsBoolean : Bool
deriving DecidableEq

/-- The field that defers a document. -/
structure DeferredAliveConfig where
  sourceField : String
  msToSeconds : Bool
deriving DecidableEq

/-- What the diff reads of the configuration, with what `Config::validate` has checked. -/
structure Config where
  filterFields : List String
  sortFields : List SortFieldConfig
  dataSchema : List FieldMapping
  deferredAlive : Option DeferredAliveConfig
  filter_nodup : filterFields.Nodup
  sort_nodup : (sortFields.map (·.name)).Nodup

/-! ## Stored documents

A document is stored without the values that equal their schema default; reading it back fills in the
default of every field it has no value for. -/

/-- What the document store returns for a document that was written to it. -/
def Document.readBack (doc defaults : Document) : Document := fun name =>
  match doc name, defaults name with
  | some v, some dflt => if fieldValuesEqual (some v) (some dflt) then some dflt else some v
  | some v, none => some v
  | none, dflt => dflt

/-! ## Ops of one field -/

/-- The key of a filter value. `-1` would be the null key and is rejected. -/
def filterKey : Value → Option UInt64
  | .bool b => some (if b then 1 else 0)
  | .integer v => if v.toUInt64 = nullBitmapKey then none else some v.toUInt64
  | .float _ => none
  | .string _ => none

/-- The keys of a field value, in order. -/
def FieldValue.keys : FieldValue → List UInt64
  | .single v => (filterKey v).toList
  | .multi vs => vs.filterMap filterKey

/-- Remove a value's bits. -/
def collectFilterRemoveOps (field : String) (slot : UInt32) (v : FieldValue) : List MutationOp :=
  v.keys.map fun key => .filterRemove field key [slot]

/-- Insert a value's bits. -/
def collectFilterInsertOps (field : String) (slot : UInt32) (v : FieldValue) : List MutationOp :=
  v.keys.map fun key => .filterInsert field key [slot]

/-- `(*v).max(0) as u32`. -/
def valueToSortU32 : Value → Option UInt32
  | .integer v => some (if v < 0 then 0 else v.toUInt64.toUInt32)
  | _ => none

/-- A field as a sort value. -/
def fieldToSortU32 (doc : Document) (name : String) : Option UInt32 :=
  match doc name with
  | some (.single v) => valueToSortU32 v
  | _ => none

/-- `(v >> bit) & 1 == 1`; a shift of a `u32` takes its amount modulo 32. -/
def sortBit (v : UInt32) (bit : Nat) : Bool := v.toNat.testBit (bit % 32)

/-- Clear the bits a value has. -/
def clearSetBitsOps (field : String) (numBits : Nat) (slot : UInt32) (v : UInt32) : List MutationOp :=
  ((List.range numBits).filter (sortBit v)).map fun bit => .sortClear field bit [slot]

/-- Set or clear every bit. -/
def overwriteBitsOps (field : String) (numBits : Nat) (slot : UInt32) (v : UInt32) : List MutationOp :=
  (List.range numBits).map fun bit =>
    if sortBit v bit then .sortSet field bit [slot] else .sortClear field bit [slot]

/-- From one sort value to another. -/
def emitSortDiffOps (field : String) (numBits : Nat) (slot : UInt32) :
    Option UInt32 → Option UInt32 → List MutationOp
  | some old, some new =>
    ((List.range numBits).filter (sortBit (old ^^^ new))).map fun bit =>
      if sortBit new bit then .sortSet field bit [slot] else .sortClear field bit [slot]
  | some _, none => (List.range numBits).map fun bit => .sortClear field bit [slot]
  | none, some new =>
    ((List.range numBits).filter (sortBit new)).map fun bit => .sortSet field bit [slot]
  | none, none => []

/-- Combine the sources. -/
def applyComputedOp : ComputedOp → List UInt32 → UInt32
  | .greatest, values => values.max?.getD 0
  | .least, values => values.min?.getD 0

/-- The computed value of some inputs, if there are any. -/
def computedValue (op : ComputedOp) (values : List UInt32) : Option UInt32 :=
  if values = [] then none else some (applyComputedOp op values)

/-- Old and new value of a computed sort field. A source the new document lacks keeps its old value; a field with no
source present and changed is left alone. -/
def resolveComputedSort (computed : ComputedField) (old new : Document) :
    Option UInt32 × Option UInt32 :=
  let anyChanged := computed.sourceFields.any fun f =>
    (new f).isSome && !fieldValuesEqual (old f) (new f)
  if anyChanged then
    (computedValue computed.op (computed.sourceFields.filterMap (fieldToSortU32 old)),
      computedValue computed.op (computed.sourceFields.filterMap fun f =>
        (fieldToSortU32 new f).or (fieldToSortU32 old f)))
  else (none, none)

/-- The value a fresh insert writes to a sort field. -/
def SortFieldConfig.freshValue (sc : SortFieldConfig) (doc : Document) : Option UInt32 :=
  match sc.computed with
  | some computed => computedValue computed.op (computed.sourceFields.filterMap (fieldToSortU32 doc))
  | none => fieldToSortU32 doc sc.name

/-! ## Ops of a document -/

/-- Clear the bits of a stored document: its filter keys and the set bits of its sort values. -/
def clearOldOps (cfg : Config) (slot : UInt32) (old : Document) : List MutationOp :=
  (cfg.filterFields.flatMap fun name => (old name).elim [] (collectFilterRemoveOps name slot)) ++
  cfg.sortFields.flatMap fun sc =>
    (fieldToSortU32 old sc.name).elim [] (clearSetBitsOps sc.name sc.bits slot)

theorem mem_elim_nil {α β : Type} {o : Option α} {f : α → List β} {b : β} :
    b ∈ o.elim [] f ↔ ∃ a, o = some a ∧ b ∈ f a := by
  cases o <;> simp

namespace Config

variable (cfg : Config)

/-- The targets of the `exists_boolean` mappings. They are derived, never copied from a document. -/
def shadowTargets : List String := (cfg.dataSchema.filter (·.existsBoolean)).map (·.target)

/-- Every shadow with its derived value: whether a sibling of the same source, or the source, is in the document. -/
def deriveExistsBooleanShadows (doc : Document) : List (String × Bool) :=
  (cfg.dataSchema.filter (·.existsBoolean)).map fun fm =>
    let siblings := cfg.dataSchema.filter fun sibling =>
      decide (sibling.source = fm.source) && decide (sibling.target ≠ fm.target)
    (fm.target, siblings.any (fun sibling => (doc sibling.target).isSome) || (doc fm.source).isSome)

/-- The activation time of a document that is to become visible later. -/
def deferredUntil (doc : Document) (now : UInt64) : Option UInt64 :=
  match cfg.deferredAlive with
  | none => none
  | some da =>
    match doc da.sourceField with
    | some (.single (.integer ts)) =>
      let activateAt := if da.msToSeconds then ts.toUInt64 / 1000 else ts.toUInt64
      if activateAt > now then some activateAt else none
    | _ => none

/-- The diff of a live slot: ops for the changed fields only. -/
def upsertOps (slot : UInt32) (old new : Document) : List MutationOp :=
  (cfg.filterFields.flatMap fun name =>
    if name ∈ cfg.shadowTargets then []
    else if fieldValuesEqual (old name) (new name) then []
    else
      (old name).elim [] (collectFilterRemoveOps name slot) ++
        (new name).elim [] (collectFilterInsertOps name slot)) ++
  cfg.sortFields.flatMap fun sc =>
    match sc.computed with
    | some computed =>
      let (oldSort, newSort) := resolveComputedSort computed old new
      if oldSort = newSort then [] else emitSortDiffOps sc.name sc.bits slot oldSort newSort
    | none =>
      if fieldValuesEqual (old sc.name) (new sc.name) then []
      else
        let oldSort := fieldToSortU32 old sc.name
        let newSort := fieldToSortU32 new sc.name
        if oldSort = newSort then [] else emitSortDiffOps sc.name sc.bits slot oldSort newSort

/-- The diff of a partial update: only fields that the new document has, shadow targets included, and computed sort
fields with a source in it. -/
def partialOps (slot : UInt32) (old new : Document) : List MutationOp :=
  (cfg.filterFields.flatMap fun name =>
    match new name with
    | none => []
    | some v =>
      if fieldValuesEqual (old name) (some v) then []
      else (old name).elim [] (collectFilterRemoveOps name slot) ++ collectFilterInsertOps name slot v) ++
  cfg.sortFields.flatMap fun sc =>
    match sc.computed with
    | some computed =>
      if computed.sourceFields.any fun f => (new f).isSome then
        let (oldSort, newSort) := resolveComputedSort computed old new
        if oldSort = newSort then [] else emitSortDiffOps sc.name sc.bits slot oldSort newSort
      else []
    | none =>
      match new sc.name with
      | none => []
      | some v =>
        if fieldValuesEqual (old sc.name) (some v) then []
        else
          let oldSort := fieldToSortU32 old sc.name
          let newSort := fieldToSortU32 new sc.name
          if oldSort = newSort then [] else emitSortDiffOps sc.name sc.bits slot oldSort newSort

/-- A fresh insert: clear what a stored document may have left, then write everything. -/
def freshOps (slot : UInt32) (old : Option Document) (new : Document) : List MutationOp :=
  old.elim [] (clearOldOps cfg slot) ++
  (cfg.filterFields.flatMap fun name =>
    if name ∈ cfg.shadowTargets then [] else (new name).elim [] (collectFilterInsertOps name slot)) ++
  cfg.sortFields.flatMap fun sc => (sc.freshValue new).elim [] (overwriteBitsOps sc.name sc.bits slot)

/-- Every shadow is removed from the opposite key and inserted under its own. -/
def shadowOps (slot : UInt32) (doc : Document) : List MutationOp :=
  (cfg.deriveExistsBooleanShadows doc).flatMap fun s =>
    let (setKey, clearKey) := if s.2 then ((1, 0) : UInt64 × UInt64) else (0, 1)
    [.filterRemove s.1 clearKey [slot], .filterInsert s.1 setKey [slot]]

end Config

/-- The ops of a `put`. A deferred document only clears what the old one left and is scheduled. -/
def diffDocument (slot : UInt32) (oldDoc : Option Document) (newDoc : Document) (cfg : Config)
    (isUpsert : Bool) (now : UInt64) : List MutationOp :=
  match cfg.deferredUntil newDoc now with
  | some activateAt =>
    (oldDoc.elim [] fun old => clearOldOps cfg slot old ++ [.aliveRemove [slot]]) ++
      [.deferredAlive slot activateAt]
  | none =>
    (if isUpsert then cfg.upsertOps slot (oldDoc.getD fun _ => none) newDoc
      else cfg.freshOps slot oldDoc newDoc) ++
    cfg.shadowOps slot newDoc ++ [.aliveInsert [slot]]

/-- The ops of a partial update of a live slot. It derives no shadows and leaves the alive bit alone. -/
def diffDocumentPartial (slot : UInt32) (oldDoc : Option Document) (newDoc : Document) (cfg : Config)
    (now : UInt64) : List MutationOp :=
  let old := oldDoc.getD fun _ => none
  match cfg.deferredUntil newDoc now with
  | some activateAt => clearOldOps cfg slot old ++ [.aliveRemove [slot], .deferredAlive slot activateAt]
  | none => cfg.partialOps slot old newDoc

/-- The ops of a `delete`, from the stored document. -/
def deleteOps (slot : UInt32) (stored : Option Document) (cfg : Config) : List MutationOp :=
  stored.elim [] (clearOldOps cfg slot) ++ [.aliveRemove [slot]]

end Bitdex
