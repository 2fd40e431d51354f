import Bitdex.Library.LastWrite
import Bitdex.Schema
import Bitdex.Sync.Ops

/-!
# `Docs.Store` — the document store

Documents are stored by shard (`shard_store_doc.rs`): a snapshot and a log of ops. A document is a list of pairs of a
field index and a packed value; names and indices are tied by a field dictionary that only grows.

A value that equals its field's schema default is not stored. Reading fills in the defaults in force at that time, not
those in force at the write; `get_lastWrite_iff` says when a read returns what was written last. The log is the list
of its ops here (its bytes are in `Store.Shard`), and the disk does not fail.
-/

namespace Bitdex

open LastWrite AList Value List
open Option (bind_some map_some some.inj)

namespace PackedValue

mutual

/-- `==`: NaN equals nothing, the two zeros are equal. -/
def eq : PackedValue → PackedValue → Bool
  | .i v, .i w => v == w
  | .f v, .f w => eqF64 v w
  | .b v, .b w => v == w
  | .s v, .s w => v == w
  | .mi v, .mi w => v == w
  | .mm v, .mm w => eqAll v w
  | .null, .null => true
  | _, _ => false

def eqAll : List PackedValue → List PackedValue → Bool
  | [], [] => true
  | v :: vs, w :: ws => eq v w && eqAll vs ws
  | _, _ => false

end

/-- The values that fit into a list of values. -/
def value? : PackedValue → Option Value
  | .i v => some (.integer v)
  | .f v => some (.float v)
  | .b v => some (.bool v)
  | .s v => some (.string v)
  | _ => none

end PackedValue

/-- Null never stands in a document that was put; a list nested in a list is skipped. -/
def packedToFieldValue : PackedValue → FieldValue
  | .i v => .single (.integer v)
  | .f v => .single (.float v)
  | .b v => .single (.bool v)
  | .s v => .single (.string v)
  | .mi vs => .multi (vs.map .integer)
  | .mm vs => .multi (vs.filterMap PackedValue.value?)
  | .null => .multi []

namespace Value

/-- A value as it is stored. -/
def packed : Value → PackedValue
  | .integer v => .i v
  | .float v => .f v
  | .bool v => .b v
  | .string v => .s v

/-- An integer. -/
def asInteger : Value → Option Int64
  | .integer v => some v
  | _ => none

theorem value?_packed (v : Value) : v.packed.value? = some v := by
  cases v <;> rfl

end Value

/-- A field's value as it is stored. -/
def fieldValueToPacked : FieldValue → PackedValue
  | .single v => v.packed
  | .multi vs =>
    if vs.all (·.asInteger.isSome) then .mi (vs.filterMap asInteger) else .mm (vs.map packed)

theorem map_integer_filterMap_asInteger {vs : List Value} (h : vs.all (·.asInteger.isSome) = true) :
    (vs.filterMap asInteger).map integer = vs := by
  induction vs with
  | nil => rfl
  | cons v vs ih =>
    rw [all_cons, Bool.and_eq_true] at h
    cases v with
    | integer n => exact congrArg (integer n :: ·) (ih h.2)
    | float _ | bool _ | string _ => cases h.1

/-- **Packing loses nothing.** -/
theorem packedToFieldValue_fieldValueToPacked (v : FieldValue) : packedToFieldValue (fieldValueToPacked v) = v := by
  cases v with
  | single v => cases v <;> rfl
  | multi vs =>
    rw [fieldValueToPacked]
    split
    · next hints => exact congrArg FieldValue.multi (map_integer_filterMap_asInteger hints)
    · show FieldValue.multi ((vs.map packed).filterMap PackedValue.value?) = _
      rw [filterMap_map]
      have hvalue : PackedValue.value? ∘ packed = some := funext value?_packed
      rw [hvalue, filterMap_some]

/-! ## Documents of a shard -/

/-- The values of a document by field index, in the order in which they were added. -/
abbrev DocFields := List (UInt16 × PackedValue)

namespace DocFields

/-- The value that a read finds: the last one of the field. -/
def value (fields : DocFields) (field : UInt16) : Option PackedValue :=
  last (fun p => if p.1 = field then some p.2 else none) fields

/-- Drop a field. -/
def clear (field : UInt16) (fields : DocFields) : DocFields := fields.filter (·.1 ≠ field)

/-- Change the first value of a field, or add one at the end. -/
def upsert (field : UInt16) (change : PackedValue → PackedValue) (new : PackedValue) : DocFields → DocFields
  | [] => [(field, new)]
  | (g, v) :: rest => if g = field then (g, change v) :: rest else (g, v) :: upsert field change new rest

/-- Change the first value of a field, if it has one. -/
def modifyFirst (field : UInt16) (change : PackedValue → PackedValue) : DocFields → DocFields
  | [] => []
  | (g, v) :: rest => if g = field then (g, change v) :: rest else (g, v) :: modifyFirst field change rest

/-- `DocOp::Set`: null clears the field. -/
def set (field : UInt16) (value : PackedValue) (fields : DocFields) : DocFields :=
  match value with
  | .null => fields.clear field
  | value => fields.upsert field (fun _ => value) value

/-- `DocOp::Append`. A scalar is wrapped in a list. -/
def append (field : UInt16) (value : PackedValue) (fields : DocFields) : DocFields :=
  fields.upsert field
    (fun old => match old, value with
      | .mi vs, .i n => .mi (if n ∈ vs then vs else vs ++ [n])
      | .mi vs, _ => .mi vs
      | .mm vs, value => .mm (if vs.any (·.eq value) then vs else vs ++ [value])
      | old, value => .mm [old, value])
    (match value with
      | .i n => .mi [n]
      | value => .mm [value])

/-- `DocOp::Remove`. Nothing can be removed from a scalar. -/
def remove (field : UInt16) (value : PackedValue) (fields : DocFields) : DocFields :=
  fields.modifyFirst field fun old => match old, value with
    | .mi vs, .i n => .mi (vs.filter (· ≠ n))
    | .mm vs, value => .mm (vs.filter fun v => !v.eq value)
    | old, _ => old

/-- Add the integers that are not there yet. -/
def union (existing incoming : List Int64) : List Int64 :=
  incoming.foldl (fun vs v => if v ∈ vs then vs else vs ++ [v]) existing

/-- One field of a `DocOp::Merge`: two lists of integers are united, any other value is replaced. -/
def mergeField (fields : DocFields) (p : UInt16 × PackedValue) : DocFields :=
  match p.2 with
  | .null => fields.clear p.1
  | value => fields.upsert p.1
      (fun old => match old, value with
        | .mi existing, .mi incoming => .mi (union existing incoming)
        | _, value => value)
      value

end DocFields

/-- The documents of a shard, by slot. -/
abbrev DocSnapshot := HashMap UInt32 DocFields

/-- The ops of a document log. -/
inductive DocOp where
  | set (slot : UInt32) (field : UInt16) (value : PackedValue)
  | append (slot : UInt32) (field : UInt16) (value : PackedValue)
  | remove (slot : UInt32) (field : UInt16) (value : PackedValue)
  | delete (slot : UInt32)
  | create (slot : UInt32) (fields : DocFields)
  | merge (slot : UInt32) (fields : DocFields)

namespace DocOp

def slot : DocOp → UInt32
  | set slot _ _ => slot
  | append slot _ _ => slot
  | remove slot _ _ => slot
  | delete slot => slot
  | create slot _ => slot
  | merge slot _ => slot

/-- What an op makes of the document of its slot. -/
def applyTo (op : DocOp) (doc : Option DocFields) : Option DocFields :=
  match op with
  | set _ field value => some ((doc.getD []).set field value)
  | append _ field value => some ((doc.getD []).append field value)
  | remove _ field value => doc.map (·.remove field value)
  | delete _ => none
  | create _ fields => some fields
  | merge _ fields => some (fields.foldl DocFields.mergeField (doc.getD []))

/-- `DocOpCodec::apply`. -/
def apply (snapshot : DocSnapshot) (op : DocOp) : DocSnapshot :=
  match op.applyTo (snapshot.lookup op.slot) with
  | some fields => snapshot.insert op.slot fields
  | none => snapshot.erase op.slot

theorem lookup_apply (snapshot : DocSnapshot) (op : DocOp) (x : UInt32) :
    (apply snapshot op).lookup x = if op.slot = x then op.applyTo (snapshot.lookup x) else snapshot.lookup x := by
  rw [apply]
  by_cases hx : op.slot = x
  · subst hx
    rw [if_pos rfl]
    cases op.applyTo (snapshot.lookup op.slot) with
    | none => exact lookup_erase _ _
    | some fields => exact lookup_insert _
  · rw [if_neg hx]
    cases op.applyTo (snapshot.lookup op.slot) with
    | none => exact lookup_erase_ne (Ne.symm hx)
    | some fields => exact lookup_insert_ne (Ne.symm hx)

/-- **Replay, seen from one slot**: only the ops of the slot count. -/
theorem lookup_foldl_apply (ops : List DocOp) (snapshot : DocSnapshot) (x : UInt32) :
    (ops.foldl apply snapshot).lookup x =
      (ops.filter (·.slot = x)).foldl (fun doc op => op.applyTo doc) (snapshot.lookup x) := by
  induction ops generalizing snapshot with
  | nil => rfl
  | cons op ops ih =>
    rw [foldl_cons, ih, lookup_apply]
    by_cases hx : op.slot = x
    · rw [if_pos hx, filter_cons_of_pos (by simpa using hx), foldl_cons]
    · rw [if_neg hx, filter_cons_of_neg (by simpa using hx)]

end DocOp

/-! ## Files -/

/-- A shard file: its snapshot and the ops that were appended since. -/
structure DocShard where
  snapshot : DocSnapshot
  ops : List DocOp

/-- `slot_id >> SHARD_SHIFT`. -/
def slotToShard (slot : UInt32) : UInt32 := slot >>> 9

/-- The shard files, by shard key. -/
abbrev DocFiles := UInt32 → Option DocShard

namespace DocFiles

/-- `ShardStore::read`. -/
def read (files : DocFiles) (key : UInt32) : Option DocSnapshot :=
  (files key).map fun shard => shard.ops.foldl DocOp.apply shard.snapshot

/-- A file with ops behind it; a missing file is created. -/
def appended (ops : List DocOp) (file : Option DocShard) : Option DocShard :=
  match ops, file with
  | [], file => file
  | ops, some shard => some { shard with ops := shard.ops ++ ops }
  | ops, none => some ⟨∅, ops⟩

/-- `ShardStore::append_ops`. -/
def appendOps (files : DocFiles) (key : UInt32) (ops : List DocOp) : DocFiles :=
  Function.update files key (appended ops (files key))

/-- `ShardStore::write_snapshot`. -/
def writeSnapshot (files : DocFiles) (key : UInt32) (snapshot : DocSnapshot) : DocFiles :=
  Function.update files key (some ⟨snapshot, []⟩)

/-- The document of a slot. -/
def doc (files : DocFiles) (slot : UInt32) : Option DocFields := (files.read (slotToShard slot)).bind (·.lookup slot)

/-- `by_shard`: the ops of every shard, in order. -/
def groupByShard (ops : List DocOp) : HashMap UInt32 (List DocOp) :=
  ops.foldl (fun groups op => groups.insert (slotToShard op.slot)
    ((groups.lookup (slotToShard op.slot)).getD [] ++ [op])) ∅

/-- Append a batch of ops, shard by shard. -/
def appendBatch (files : DocFiles) (ops : List DocOp) : DocFiles :=
  (groupByShard ops).entries.foldl (fun files e => files.appendOps e.1 e.2) files

theorem getD_lookup_groupByShard (ops : List DocOp) (key : UInt32) :
    ((groupByShard ops).lookup key).getD [] = ops.filter fun op => slotToShard op.slot = key :=
  getD_lookup_groupBy (fun op : DocOp => slotToShard op.slot) ops key

theorem appendBatch_apply (files : DocFiles) (ops : List DocOp) (key : UInt32) :
    files.appendBatch ops key = appended (ops.filter fun op => slotToShard op.slot = key) (files key) := by
  have hview : files.appendBatch ops key =
      ((groupByShard ops).lookup key).elim (files key) fun ops => appended ops (files key) := by
    refine view_foldl (fun (files : DocFiles) key => files key) (fun _ ops file => appended ops file) ?_
    intro files key ops key'
    exact Function.update_apply files key _ key'
  rw [hview, ← getD_lookup_groupByShard]
  cases (groupByShard ops).lookup key with
  | none | some ops => rfl

/-- The ops of a slot, applied to its document. -/
def replayed (ops : List DocOp) (slot : UInt32) (doc : Option DocFields) : Option DocFields :=
  (ops.filter (·.slot = slot)).foldl (fun doc op => op.applyTo doc) doc

theorem replayed_concat (ops : List DocOp) (op : DocOp) (x : UInt32) (doc : Option DocFields) :
    replayed (ops ++ [op]) x doc = if op.slot = x then op.applyTo (replayed ops x doc) else replayed ops x doc := by
  rw [replayed, filter_append, foldl_append, filter_singleton]
  by_cases hx : op.slot = x
  · rw [if_pos hx, decide_eq_true hx]
    rfl
  · rw [if_neg hx, decide_eq_false hx]
    rfl

/-- What a reader finds in a file that ops were appended to. -/
theorem lookup_appended (ops : List DocOp) (file : Option DocShard) (x : UInt32) :
    ((appended ops file).map fun shard => shard.ops.foldl DocOp.apply shard.snapshot).bind (·.lookup x) =
      replayed ops x ((file.map fun shard => shard.ops.foldl DocOp.apply shard.snapshot).bind (·.lookup x)) := by
  cases ops with
  | nil => rfl
  | cons op ops =>
    cases file with
    | none => exact DocOp.lookup_foldl_apply (op :: ops) ∅ x
    | some shard =>
      show (List.foldl DocOp.apply shard.snapshot (shard.ops ++ op :: ops)).lookup x = _
      rw [foldl_append]
      exact DocOp.lookup_foldl_apply (op :: ops) _ x

/-- **A batch, seen from one slot.** -/
theorem doc_appendBatch (files : DocFiles) (ops : List DocOp) (x : UInt32) :
    (files.appendBatch ops).doc x = replayed ops x (files.doc x) := by
  rw [doc, read, appendBatch_apply, lookup_appended, replayed, filter_filter]
  -- the ops of the slot all go to its shard
  have hfilter : ops.filter (fun op => decide (op.slot = x) && decide (slotToShard op.slot = slotToShard x)) =
      ops.filter (·.slot = x) := by
    refine filter_congr fun op _ => ?_
    by_cases hx : op.slot = x
    · simp [hx]
    · simp [hx]
  rw [hfilter]
  rfl

end DocFiles

/-! ## The field dictionary -/

/-- The names of the fields by index. `field_to_idx` is its inverse. -/
structure FieldDict where
  names : List String
  nodup : names.Nodup
  length_le : names.length ≤ 65535

namespace FieldDict

variable (dict : FieldDict)

/-- No field is known. -/
def empty : FieldDict := ⟨[], nodup_nil, by decide⟩

/-- `idx_to_field.get(idx)`. -/
def nameAt (i : UInt16) : Option String := dict.names[i.toNat]?

/-- `field_to_idx.get(name)`. -/
def fieldIndex (name : String) : Option UInt16 :=
  if name ∈ dict.names then some (UInt16.ofNat (dict.names.idxOf name)) else none

variable {dict} {name : String} {i : UInt16}

/-- **The two maps are inverse to each other.** -/
theorem fieldIndex_eq_some_iff : dict.fieldIndex name = some i ↔ dict.nameAt i = some name := by
  rw [fieldIndex, nameAt, List.getElem?_eq_some_iff]
  constructor
  · intro h
    split at h
    · next hmem =>
      have hlt := idxOf_lt_length_iff.mpr hmem
      have hnat : i.toNat = dict.names.idxOf name := by
        rw [← some.inj h]
        exact Nat.mod_eq_of_lt (by have := dict.length_le; omega)
      refine ⟨by omega, ?_⟩
      simp only [hnat, getElem_idxOf]
    · cases h
  · rintro ⟨hlt, rfl⟩
    rw [if_pos (getElem_mem hlt), List.Nodup.idxOf_getElem dict.nodup _ hlt, UInt16.ofNat_toNat]

theorem fieldIndex_injective {name' : String} (h : dict.fieldIndex name = some i)
    (h' : dict.fieldIndex name' = some i) : name = name' := by
  rw [fieldIndex_eq_some_iff] at h h'
  exact some.inj (h.symm.trans h')

/-- Two indices do not share a name. -/
theorem nameAt_ne {name' : String} {i' : UInt16} (h : dict.nameAt i = some name) (h' : dict.nameAt i' = some name')
    (hne : i' ≠ i) : name' ≠ name := by
  rintro rfl
  rw [← fieldIndex_eq_some_iff] at h h'
  exact hne (some.inj (h'.symm.trans h))

/-- `ensure_field_idx`; an index has 16 bits. -/
def ensureFieldIdx (dict : FieldDict) (name : String) : Except String FieldDict :=
  if hmem : name ∈ dict.names then .ok dict
  else if hfull : 65535 ≤ dict.names.length then
    .error ("field dictionary overflow: cannot add '" ++ name ++ "' (already " ++ toString dict.names.length ++
      " fields)")
  else .ok ⟨dict.names ++ [name], nodup_append.mpr ⟨dict.nodup, nodup_singleton name, by
      rintro a ha b hb rfl
      exact hmem (mem_singleton.mp hb ▸ ha)⟩, by
      rw [length_append, length_singleton]
      omega⟩

/-- The fields of some documents in turn; the dictionary keeps what was added before an overflow. -/
def ensureAll (dict : FieldDict) : List String → FieldDict × Option String
  | [] => (dict, none)
  | name :: names =>
    match dict.ensureFieldIdx name with
    | .ok dict => dict.ensureAll names
    | .error e => (dict, some e)

theorem prefix_ensureFieldIdx {dict' : FieldDict} (h : dict.ensureFieldIdx name = .ok dict') :
    dict.names <+: dict'.names ∧ name ∈ dict'.names := by
  rw [ensureFieldIdx] at h
  split at h
  · next hmem =>
    cases h
    exact ⟨prefix_rfl, hmem⟩
  · split at h
    · cases h
    · cases h
      exact ⟨prefix_append _ _, by simp⟩

/-- **The dictionary only grows**, and without an overflow it has every name. -/
theorem prefix_ensureAll (dict : FieldDict) (names : List String) : dict.names <+: (dict.ensureAll names).1.names ∧
      ((dict.ensureAll names).2 = none → ∀ name ∈ names, name ∈ (dict.ensureAll names).1.names) := by
  induction names generalizing dict with
  | nil => exact ⟨prefix_rfl, fun _ name hname => absurd hname not_mem_nil⟩
  | cons name names ih =>
    rw [ensureAll]
    cases h : dict.ensureFieldIdx name with
    | error e => exact ⟨prefix_rfl, fun hnone => by cases hnone⟩
    | ok dict' =>
      obtain ⟨hgrows, hmem⟩ := prefix_ensureFieldIdx h
      obtain ⟨hgrows', hall⟩ := ih dict'
      refine ⟨hgrows.trans hgrows', fun hnone name' hname' => ?_⟩
      rcases mem_cons.mp hname' with rfl | hrest
      · exact hgrows'.subset hmem
      · exact hall hnone name' hrest

/-- An index stays what it is while the dictionary grows. -/
theorem fieldIndex_of_grows {dict' : FieldDict} (hgrows : dict.names <+: dict'.names)
    (h : dict.fieldIndex name = some i) : dict'.fieldIndex name = some i := by
  rw [fieldIndex_eq_some_iff, nameAt] at h ⊢
  obtain ⟨more, hmore⟩ := hgrows
  obtain ⟨hlt, -⟩ := List.getElem?_eq_some_iff.mp h
  rw [← hmore, List.getElem?_append_left hlt]
  exact h

theorem exists_fieldIndex (h : name ∈ dict.names) : ∃ i, dict.fieldIndex name = some i := by
  rw [fieldIndex, if_pos h]
  exact ⟨_, rfl⟩

end FieldDict

/-! ## The store -/

/-- A document as it is read. -/
structure StoredDoc where
  fields : HashMap String FieldValue
  schemaVersion : UInt8 := 0

/-- The document store. -/
structure DocStoreV3 where
  files : DocFiles
  dict : FieldDict
  fieldDefaults : HashMap UInt16 PackedValue
  schemaVersion : UInt8

/-- A default of the schema; null, objects and mixed lists are no defaults. -/
def jsonToPackedDefault : Json → Option PackedValue
  | .null => none
  | .bool b => some (.b b)
  | .number n =>
    match n.asI64 with
    | some v => some (.i v)
    | none => some (.f n.asF64)
  | .string s => some (.s s)
  | .array items =>
    if items.all fun v => v.asI64.isSome || v.asU64.isSome then
      some (.mi (items.filterMap Json.asWrappedI64))
    else none
  | .object _ => none

namespace DocStoreV3

variable (s : DocStoreV3)

/-- The default in force for a field. -/
def default (name : String) : Option PackedValue := (s.dict.fieldIndex name).bind s.fieldDefaults.lookup

/-- Whether a value is left out because it equals the default. -/
def elided (field : UInt16) (value : PackedValue) : Bool := (s.fieldDefaults.lookup field).any (value.eq ·)

/-- Pack the fields, without defaults. -/
def storedDocToFields (doc : StoredDoc) : DocFields :=
  doc.fields.entries.filterMap fun e =>
    (s.dict.fieldIndex e.1).bind fun i =>
      let value := fieldValueToPacked e.2
      if s.elided i value then none else some (i, value)

/-- One stored value; later ones of the same field replace it. -/
def insertNamed (m : HashMap String FieldValue) (p : UInt16 × PackedValue) : HashMap String FieldValue :=
  match s.dict.nameAt p.1 with
  | some name => m.insert name (packedToFieldValue p.2)
  | none => m

/-- One default, for a field that has no value. -/
def fillDefault (m : HashMap String FieldValue) (i : UInt16) (value : PackedValue) : HashMap String FieldValue :=
  match s.dict.nameAt i with
  | some name => if (m.lookup name).isSome then m else m.insert name (packedToFieldValue value)
  | none => m

/-- The stored values by name, then the defaults of the fields that have none. -/
def fieldsToStoredDoc (fields : DocFields) : StoredDoc :=
  { fields := s.fieldDefaults.entries.foldl (fun m e => s.fillDefault m e.1 e.2) (fields.foldl s.insertNamed ∅)
    schemaVersion := s.schemaVersion }

/-- Read a document. -/
def get (id : UInt32) : Option StoredDoc := (s.files.doc id).map s.fieldsToStoredDoc

/-- Defaults are kept for the fields that the dictionary has. -/
def setFieldDefaults (schema : DataSchema) : DocStoreV3 :=
  { s with
    schemaVersion := schema.schemaVersion
    fieldDefaults := schema.fields.foldl (fun m mapping =>
      match s.dict.fieldIndex mapping.target, mapping.defaultValue.bind jsonToPackedDefault with
      | some i, some value => m.insert i value
      | _, _ => m) ∅ }

/-- Write the documents of a batch, each as a `Create`. -/
def createAll (docs : List (UInt32 × StoredDoc)) : DocStoreV3 :=
  { s with files := s.files.appendBatch (docs.map fun d => .create d.1 (s.storedDocToFields d.2)) }

/-- The field names of a batch, in the order in which they are looked at. -/
def fieldNames (docs : List (UInt32 × StoredDoc)) : List String := docs.flatMap fun d => d.2.fields.keys

/-- New names enter the dictionary first; if it overflows nothing is written. -/
def putBatch (docs : List (UInt32 × StoredDoc)) : DocStoreV3 × Except String Unit :=
  match s.dict.ensureAll (fieldNames docs) with
  | (dict, some e) => ({ s with dict := dict }, .error e)
  | (dict, none) => ({ s with dict := dict }.createAll docs, .ok ())

/-- Write a document. -/
def put (id : UInt32) (doc : StoredDoc) : DocStoreV3 × Except String Unit := s.putBatch [(id, doc)]

/-- The fast path: `false` if a name is not in the dictionary, and then nothing is written. -/
def putBatchKnownFields (docs : List (UInt32 × StoredDoc)) : DocStoreV3 × Bool :=
  if (fieldNames docs).all (· ∈ s.dict.names) then (s.createAll docs, true) else (s, false)

/-! ### What a read finds -/

variable {s} {name : String} {i : UInt16}

theorem lookup_foldl_insertNamed (hi : s.dict.fieldIndex name = some i) (fields : DocFields) :
    (fields.foldl s.insertNamed ∅).lookup name = (fields.value i).map packedToFieldValue := by
  have hname := FieldDict.fieldIndex_eq_some_iff.mp hi
  induction fields using reverseRecOn with
  | nil => rfl
  | append_singleton fields p ih =>
    rw [foldl_append, foldl_cons, DocFields.value, last_concat, ← DocFields.value, insertNamed]
    by_cases hp : p.1 = i
    · rw [if_pos hp, hp, hname]
      exact lookup_insert _
    · rw [if_neg hp, Option.none_or, ← ih]
      cases hpname : s.dict.nameAt p.1 with
      | none => rfl
      | some name' => exact lookup_insert_ne (FieldDict.nameAt_ne hname hpname hp).symm

/-- Defaults are filled in field by field. -/
theorem lookup_fillDefault (m : HashMap String FieldValue) (i : UInt16) (value : PackedValue) (i' : UInt16) :
    (s.dict.nameAt i').bind (s.fillDefault m i value).lookup =
      if i' = i then (s.dict.nameAt i).bind fun name => (m.lookup name).or (some (packedToFieldValue value))
      else (s.dict.nameAt i').bind m.lookup := by
  by_cases hi : i' = i
  · rw [if_pos hi, hi, fillDefault]
    cases hname : s.dict.nameAt i with
    | none => rfl
    | some name =>
      show (if (m.lookup name).isSome then m else m.insert name (packedToFieldValue value)).lookup name = _
      cases hfound : m.lookup name with
      | some v | none => simp [hfound]
  · rw [if_neg hi, fillDefault]
    cases hname : s.dict.nameAt i with
    | none => rfl
    | some name =>
      cases hname' : s.dict.nameAt i' with
      | none => rfl
      | some name' =>
        show (if (m.lookup name).isSome then m else m.insert name (packedToFieldValue value)).lookup name' =
          m.lookup name'
        split
        · rfl
        · exact lookup_insert_ne (FieldDict.nameAt_ne hname hname' hi)

/-- **Reading**: the stored value of a field, or else its default. -/
theorem lookup_fieldsToStoredDoc (hi : s.dict.fieldIndex name = some i) (fields : DocFields) :
    (s.fieldsToStoredDoc fields).fields.lookup name =
      ((fields.value i).or (s.fieldDefaults.lookup i)).map packedToFieldValue := by
  have hname := FieldDict.fieldIndex_eq_some_iff.mp hi
  have hfill : (s.dict.nameAt i).bind (s.fieldsToStoredDoc fields).fields.lookup =
      (s.fieldDefaults.lookup i).elim ((s.dict.nameAt i).bind (fields.foldl s.insertNamed ∅).lookup) fun value =>
        (s.dict.nameAt i).bind fun name =>
          ((s.dict.nameAt i).bind (fields.foldl s.insertNamed ∅).lookup).or (some (packedToFieldValue value)) := by
    refine view_foldl (fun (m : HashMap String FieldValue) i => (s.dict.nameAt i).bind m.lookup)
      (fun i value found => (s.dict.nameAt i).bind fun _ => found.or (some (packedToFieldValue value))) ?_
    intro m i value i'
    rw [lookup_fillDefault]
    split
    · cases s.dict.nameAt i with
      | none | some name => rfl
    · rfl
  rw [hname, bind_some, bind_some, lookup_foldl_insertNamed hi] at hfill
  rw [hfill]
  cases s.fieldDefaults.lookup i with
  | none | some value => cases fields.value i <;> rfl

/-- Of the entries of a map only the one under the key writes. -/
theorem last_entries {β γ : Type} (m : HashMap String β) (key : String) (write : β → Option γ) :
    last (fun e : Sigma fun _ : String => β => if e.1 = key then write e.2 else none) m.entries =
      (m.lookup key).bind write := by
  cases hlast : last (fun e : Sigma fun _ : String => β => if e.1 = key then write e.2 else none) m.entries with
  | some w =>
    obtain ⟨e, he, hw⟩ := mem_of_last_eq_some hlast
    obtain ⟨rfl, hvalue⟩ := Option.ite_none_right_eq_some.mp hw
    rw [mem_lookup_iff.mpr he, bind_some, hvalue]
  | none =>
    cases hv : m.lookup key with
    | none => rfl
    | some v =>
      have hnone := last_eq_none_iff.mp hlast ⟨key, v⟩ (mem_lookup_iff.mp hv)
      rw [if_pos rfl] at hnone
      exact hnone.symm

/-- **Writing**: a field of a document is stored unless its value equals the default. -/
theorem value_storedDocToFields (hi : s.dict.fieldIndex name = some i) (doc : StoredDoc) :
    (s.storedDocToFields doc).value i = (doc.fields.lookup name).bind fun v =>
      if s.elided i (fieldValueToPacked v) then none else some (fieldValueToPacked v) := by
  rw [← last_entries, DocFields.value, last, storedDocToFields, filterMap_filterMap]
  refine congrArg getLast? (filterMap_congr fun e _ => ?_)
  by_cases hname : e.1 = name
  · rw [hname, hi]
    cases helided : s.elided i (fieldValueToPacked e.2) with
    | true | false => simp [helided]
  · rw [if_neg hname]
    cases hj : s.dict.fieldIndex e.1 with
    | none => rfl
    | some j =>
      have hne : j ≠ i := by
        rintro rfl
        exact hname (FieldDict.fieldIndex_injective hj hi)
      show (if s.elided j (fieldValueToPacked e.2) then none else some (j, fieldValueToPacked e.2)).bind _ = _
      split
      · rfl
      · exact if_neg hne

end DocStoreV3

/-! ## Histories -/

/-- The calls of the store. -/
inductive DocCall where
  | put (id : UInt32) (doc : StoredDoc)
  | putBatch (docs : List (UInt32 × StoredDoc))
  | putBatchKnownFields (docs : List (UInt32 × StoredDoc))
  | setFieldDefaults (schema : DataSchema)

/-- The last document of a slot in a batch. -/
def lastDoc (x : UInt32) (docs : List (UInt32 × StoredDoc)) : Option StoredDoc :=
  last (fun d => if d.1 = x then some d.2 else none) docs

namespace DocStoreV3

/-- One call. -/
def step (s : DocStoreV3) : DocCall → DocStoreV3
  | .put id doc => (s.put id doc).1
  | .putBatch docs => (s.putBatch docs).1
  | .putBatchKnownFields docs => (s.putBatchKnownFields docs).1
  | .setFieldDefaults schema => s.setFieldDefaults schema

/-- The document that a call writes to a slot; a call that fails writes none. -/
def written (s : DocStoreV3) (x : UInt32) : DocCall → Option StoredDoc
  | .put id doc => if (s.put id doc).2.isOk then lastDoc x [(id, doc)] else none
  | .putBatch docs => if (s.putBatch docs).2.isOk then lastDoc x docs else none
  | .putBatchKnownFields docs => if (s.putBatchKnownFields docs).2 then lastDoc x docs else none
  | .setFieldDefaults _ => none

def run (s : DocStoreV3) (calls : List DocCall) : DocStoreV3 := calls.foldl step s

/-- The document that was written last to a slot, and the store as that write left it. -/
def lastWrite (x : UInt32) : DocStoreV3 → List DocCall → Option (StoredDoc × DocStoreV3)
  | _, [] => none
  | s, call :: calls => (lastWrite x (s.step call) calls).or ((s.written x call).map (·, s.step call))

/-- The documents of a batch, seen from one slot. -/
theorem doc_createAll (s : DocStoreV3) (docs : List (UInt32 × StoredDoc)) (x : UInt32) :
    (s.createAll docs).files.doc x = ((lastDoc x docs).map s.storedDocToFields).or (s.files.doc x) := by
  show (s.files.appendBatch _).doc x = _
  rw [DocFiles.doc_appendBatch]
  induction docs using reverseRecOn with
  | nil => rfl
  | append_singleton docs d ih =>
    have hlast : lastDoc x (docs ++ [d]) = (if d.1 = x then some d.2 else none).or (lastDoc x docs) := last_concat
    rw [map_append, map_singleton, DocFiles.replayed_concat, ih, hlast]
    show (if d.1 = x then some (s.storedDocToFields d.2) else _) = _
    split
    · rfl
    · rfl

/-- Every field of the document is in the dictionary. -/
def Knows (s : DocStoreV3) (doc : StoredDoc) : Prop := ∀ name ∈ doc.fields.keys, name ∈ s.dict.names

theorem knows_of_lastDoc {s : DocStoreV3} {docs : List (UInt32 × StoredDoc)} {x : UInt32} {doc : StoredDoc}
    (hall : ∀ name ∈ fieldNames docs, name ∈ s.dict.names) (h : lastDoc x docs = some doc) : s.Knows doc := by
  intro name hname
  obtain ⟨d, hd, hdoc⟩ := mem_of_last_eq_some h
  split at hdoc
  · obtain rfl := some.inj hdoc
    exact hall name (mem_flatMap.mpr ⟨d, hd, hname⟩)
  · cases hdoc

/-- **One call.** The dictionary grows. A document that is written is stored as the store then packs it, all its names
known; otherwise the stored one stays. -/
structure StepSpec (s s' : DocStoreV3) (x : UInt32) (doc : Option StoredDoc) : Prop where
  grows : s.dict.names <+: s'.dict.names
  stored : s'.files.doc x = (doc.map s'.storedDocToFields).or (s.files.doc x)
  knows : ∀ d, doc = some d → s'.Knows d

theorem stepSpec_putBatch (s : DocStoreV3) (docs : List (UInt32 × StoredDoc)) (x : UInt32) :
    StepSpec s (s.putBatch docs).1 x (if (s.putBatch docs).2.isOk then lastDoc x docs else none) := by
  obtain ⟨hgrows, hknown⟩ := s.dict.prefix_ensureAll (fieldNames docs)
  rw [putBatch]
  cases hensure : s.dict.ensureAll (fieldNames docs) with
  | mk dict result =>
    rw [hensure] at hgrows hknown
    cases result with
    | some e => exact ⟨hgrows, rfl, fun d hd => by cases hd⟩
    | none =>
      refine ⟨hgrows, doc_createAll { s with dict := dict } docs x, fun d hd => ?_⟩
      exact knows_of_lastDoc (hknown rfl) hd

theorem stepSpec (s : DocStoreV3) (x : UInt32) (call : DocCall) : StepSpec s (s.step call) x (s.written x call) := by
  cases call with
  | put id doc => exact stepSpec_putBatch s [(id, doc)] x
  | putBatch docs => exact stepSpec_putBatch s docs x
  | putBatchKnownFields docs =>
    rw [step, written, putBatchKnownFields]
    by_cases hall : (fieldNames docs).all (· ∈ s.dict.names) = true
    · rw [if_pos hall]
      refine ⟨prefix_rfl, doc_createAll s docs x, fun d hd => knows_of_lastDoc ?_ hd⟩
      intro name hname
      show name ∈ s.dict.names
      simpa using all_eq_true.mp hall name hname
    · rw [if_neg hall]
      exact ⟨prefix_rfl, rfl, fun d hd => by cases hd⟩
  | setFieldDefaults schema => exact ⟨prefix_rfl, rfl, fun d hd => by cases hd⟩

/-- **A history.** What was written last is still stored as the store packed it then. -/
theorem stored_of_lastWrite {s s₁ : DocStoreV3} {calls : List DocCall} {x : UInt32} {doc : StoredDoc}
    (h : lastWrite x s calls = some (doc, s₁)) :
    (s.run calls).files.doc x = some (s₁.storedDocToFields doc) ∧ s₁.Knows doc ∧
      s₁.dict.names <+: (s.run calls).dict.names := by
  have hgrows : ∀ (calls : List DocCall) (s : DocStoreV3), s.dict.names <+: (s.run calls).dict.names := by
    intro calls
    induction calls with
    | nil => exact fun s => prefix_rfl
    | cons call calls ih => exact fun s => (stepSpec s x call).grows.trans (ih (s.step call))
  have hkept : ∀ (calls : List DocCall) (s : DocStoreV3), lastWrite x s calls = none →
      (s.run calls).files.doc x = s.files.doc x := by
    intro calls
    induction calls with
    | nil => exact fun s _ => rfl
    | cons call calls ih =>
      intro s hnone
      rw [lastWrite, Option.or_eq_none_iff, Option.map_eq_none_iff] at hnone
      have hstored := (stepSpec s x call).stored
      rw [hnone.2, Option.map_none] at hstored
      exact (ih (s.step call) hnone.1).trans hstored
  induction calls generalizing s with
  | nil => cases h
  | cons call calls ih =>
    rw [lastWrite] at h
    cases hlater : lastWrite x (s.step call) calls with
    | some later =>
      rw [hlater] at h
      exact ih (hlater.trans h)
    | none =>
      -- this call wrote last
      rw [hlater] at h
      obtain ⟨d, hwritten, heq⟩ := Option.map_eq_some_iff.mp h
      obtain ⟨rfl, rfl⟩ := Prod.mk.inj heq
      have hspec := stepSpec s x call
      have hstored := hspec.stored
      rw [hwritten, map_some] at hstored
      exact ⟨(hkept calls (s.step call) hlater).trans hstored, hspec.knows d hwritten, hgrows calls (s.step call)⟩

/-- **What is written is read back exactly when** every field left out, because its value equalled the default in
force then, has that very value as its default now. -/
theorem get_lastWrite_iff {s s₁ : DocStoreV3} {calls : List DocCall} {x : UInt32} {doc : StoredDoc}
    (h : lastWrite x s calls = some (doc, s₁)) :
    (∀ name v, doc.fields.lookup name = some v → ((s.run calls).get x).bind (·.fields.lookup name) = some v) ↔
      ∀ name v dflt, doc.fields.lookup name = some v → s₁.default name = some dflt →
        (fieldValueToPacked v).eq dflt = true → ((s.run calls).default name).map packedToFieldValue = some v := by
  obtain ⟨hstored, hknows, hgrows⟩ := stored_of_lastWrite h
  -- one field of the document
  have hfield : ∀ name v, doc.fields.lookup name = some v →
      (((s.run calls).get x).bind (·.fields.lookup name) = some v ↔
        ∀ dflt, s₁.default name = some dflt → (fieldValueToPacked v).eq dflt = true →
          ((s.run calls).default name).map packedToFieldValue = some v) := by
    intro name v hv
    have hmem : name ∈ doc.fields.keys := lookup_isSome.mp (by rw [hv]; rfl)
    obtain ⟨i, hi⟩ := FieldDict.exists_fieldIndex (hknows name hmem)
    have hi' := FieldDict.fieldIndex_of_grows hgrows hi
    rw [get, hstored, map_some, bind_some, lookup_fieldsToStoredDoc hi', value_storedDocToFields hi, hv,
      default, hi, bind_some, default, hi', bind_some, elided]
    cases hdflt : s₁.fieldDefaults.lookup i with
    | none => simp [packedToFieldValue_fieldValueToPacked]
    | some dflt =>
      cases heq : (fieldValueToPacked v).eq dflt with
      | true => simp [heq]
      | false => simp [heq, packedToFieldValue_fieldValueToPacked]
  exact ⟨fun hall name v dflt hv hd heq => (hfield name v hv).mp (hall name v hv) dflt hd heq,
    fun hall name v hv => (hfield name v hv).mpr fun dflt hd heq => hall name v dflt hv hd heq⟩

/-! ### One field with a default -/

section Samples

def emptyStore : DocStoreV3 := ⟨fun _ => none, .empty, ∅, 1⟩

def countDoc (n : Int64) : StoredDoc := { fields := (∅ : HashMap String FieldValue).insert "n" (.single (.integer n)) }

/-- A schema whose field `n` has the default, if one is given. -/
def countSchema (dflt : Option Json) : DataSchema :=
  ⟨1, [⟨"n", dflt⟩]⟩

def jsonInt (n : UInt64) : Json := .number (.posInt n)

/-- What a read finds under `n`. -/
def readCount (s : DocStoreV3) (x : UInt32) : Option FieldValue := (s.get x).bind (·.fields.lookup "n")

/-- The value 0 is written while it is the default. With another default it reads as that one, and without a default
the field is gone. -/
theorem changed_default_rewrites :
    readCount (emptyStore.run [.put 1 (countDoc 7), .setFieldDefaults (countSchema (some (jsonInt 0))),
        .put 0 (countDoc 0)]) 0 = some (.single (.integer 0)) ∧
      readCount (emptyStore.run [.put 1 (countDoc 7), .setFieldDefaults (countSchema (some (jsonInt 0))),
        .put 0 (countDoc 0), .setFieldDefaults (countSchema (some (jsonInt 5)))]) 0 = some (.single (.integer 5)) ∧
      readCount (emptyStore.run [.put 1 (countDoc 7), .setFieldDefaults (countSchema (some (jsonInt 0))),
        .put 0 (countDoc 0), .setFieldDefaults (countSchema none)]) 0 = none := by
  decide +kernel

/-- A value that is not the default is kept through every change of the default. -/
theorem get_lastWrite_kept :
    readCount (emptyStore.run [.put 1 (countDoc 7), .setFieldDefaults (countSchema (some (jsonInt 0))),
      .putBatchKnownFields [(0, countDoc 9), (0, countDoc 3)],
      .setFieldDefaults (countSchema (some (jsonInt 5)))]) 0 = some (.single (.integer 3)) := by
  have hlast : lastWrite 0 emptyStore [.put 1 (countDoc 7), .setFieldDefaults (countSchema (some (jsonInt 0))),
      .putBatchKnownFields [(0, countDoc 9), (0, countDoc 3)], .setFieldDefaults (countSchema (some (jsonInt 5)))] =
        some (countDoc 3, _) := rfl
  refine (get_lastWrite_iff hlast).mpr ?_ "n" (.single (.integer 3)) (by decide)
  intro name v dflt hv hd heq
  have hname : name = "n" := by
    by_contra hne
    rw [show (countDoc 3).fields.lookup name = none from lookup_insert_ne hne] at hv
    cases hv
  subst hname
  obtain rfl : v = .single (.integer 3) := (some.inj hv).symm
  -- the default then was 0
  obtain rfl : PackedValue.i 0 = dflt := some.inj hd
  exact absurd heq (by decide)

end Samples

end DocStoreV3

end Bitdex
