import Bitdex.Write.Mutation
import Bitdex.Store.Wal

/-!
# `Sync.Ops` — batches of entity ops

The sync pipeline delivers ops per entity: set, remove and add a field's value, delete the entity, or fan out to the
entities that a query finds. A batch is deduplicated before it is sent and again before it is applied
(`apply_ops_batch` in `ops_processor.rs`).

Every op takes effect before the next one is looked at, so a sort value set to what it is already, which the source
skips, makes no difference. A fan-out has no effect on the entity it is addressed to (`applyOp`). The memo of slots
found deleted is left out.
-/

namespace Bitdex

open Target Function

/-! ## Ops and their deduplication -/

/-- What can be done to an entity. -/
inductive Op (J : Type) where
  | set (field : String) (value : J)
  | remove (field : String) (value : J)
  | add (field : String) (value : J)
  | delete
  | alive
  | queryOpSet (query : Option String) (ops : List (Op J))

/-- How a JSON value is printed and parsed; text that is no JSON becomes a JSON string. -/
structure JsonText (J : Type) where
  render : J → String
  parse : String → Option J
  ofString : String → J
  parse_render : ∀ v, parse (render v) = some v

section Dedup

variable {J : Type}

def Op.isDelete : Op J → Bool
  | .delete => true
  | _ => false

def Op.isSetOf (f : String) : Op J → Bool
  | .set field _ => field = f
  | _ => false

mutual

/-- How deep fan-outs are nested in an op. -/
def Op.nesting : Op J → Nat
  | .queryOpSet _ ops => nestingAll ops + 1
  | _ => 0

/-- How deep fan-outs are nested. -/
def nestingAll : List (Op J) → Nat
  | [] => 0
  | op :: ops => max op.nesting (nestingAll ops)

end

/-- The maps and orders that `dedup_entity_ops` collects. The maps are only read by key. -/
structure Collected (J : Type) where
  lastSet : String → Option J
  lastRemove : String → Option J
  lastScalarIsSet : String → Bool
  scalarFieldOrder : List String
  multiValueNet : String × String → Int
  multiValueOrder : List (String × String)
  queryOps : Option String → List (Op J)
  queryOrder : List (Option String)

def Collected.empty : Collected J where
  lastSet _ := none
  lastRemove _ := none
  lastScalarIsSet _ := false
  scalarFieldOrder := []
  multiValueNet _ := 0
  multiValueOrder := []
  queryOps _ := []
  queryOrder := []

/-- Record a key at the back, moving it there if it is already present. -/
def touchMultiValueKey (order : List (String × String)) (key : String × String) : List (String × String) :=
  order.erase key ++ [key]

variable (text : JsonText J)

/-- The loop body over the ops of an entity. A field is scalar if the entity's ops set it. -/
def Collected.step (setFields : String → Bool) (c : Collected J) : Op J → Collected J
  | .set field value =>
    { c with
      lastSet := update c.lastSet field (some value)
      scalarFieldOrder :=
        if (c.lastSet field).isNone && (c.lastRemove field).isNone then c.scalarFieldOrder ++ [field]
        else c.scalarFieldOrder
      lastScalarIsSet := update c.lastScalarIsSet field true }
  | .remove field value =>
    if setFields field then
      { c with
        lastRemove := update c.lastRemove field (some value)
        scalarFieldOrder :=
          if (c.lastRemove field).isNone && (c.lastSet field).isNone then c.scalarFieldOrder ++ [field]
          else c.scalarFieldOrder
        lastScalarIsSet := update c.lastScalarIsSet field false }
    else
      let key := (field, text.render value)
      { c with
        multiValueOrder := touchMultiValueKey c.multiValueOrder key
        multiValueNet := update c.multiValueNet key (c.multiValueNet key - 1) }
  | .add field value =>
    let key := (field, text.render value)
    { c with
      multiValueOrder := touchMultiValueKey c.multiValueOrder key
      multiValueNet := update c.multiValueNet key (c.multiValueNet key + 1) }
  | .queryOpSet query ops =>
    { c with
      queryOrder := if query ∈ c.queryOrder then c.queryOrder else c.queryOrder ++ [query]
      queryOps := update c.queryOps query (c.queryOps query ++ ops) }
  | .delete => c
  | .alive => c

/-- The op that the net count of a multi-value key leaves. -/
def Collected.emit (c : Collected J) (key : String × String) : Option (Op J) :=
  let value := (text.parse key.2).getD (text.ofString key.2)
  if c.multiValueNet key = 0 then none
  else if c.multiValueNet key > 0 then some (.add key.1 value)
  else some (.remove key.1 value)

/-- Removes of scalar fields, then their sets, then what is left of multi-value keys. -/
def Collected.rebuild (c : Collected J) : List (Op J) :=
  c.scalarFieldOrder.filterMap (fun f => (c.lastRemove f).map (.remove f)) ++
    (c.scalarFieldOrder.filterMap (fun f => if c.lastScalarIsSet f then (c.lastSet f).map (.set f) else none) ++
      c.multiValueOrder.filterMap (c.emit text))

/-- Collect the ops of an entity. -/
def collect (ops : List (Op J)) : Collected J := ops.foldl (Collected.step text fun f => ops.any (·.isSetOf f)) .empty

/-- `dedup_entity_ops` for fan-outs nested less deep than the first argument. -/
def dedupNested : Nat → List (Op J) → List (Op J)
  | 0, _ => []
  | depth + 1, ops =>
    if ops.any (·.isDelete) then [.delete]
    else
      let c := collect text ops
      c.rebuild text ++ c.queryOrder.filterMap fun query =>
        match dedupNested depth (c.queryOps query) with
        | [] => none
        | nested => some (.queryOpSet query nested)

/-- The ops of an entity that survive. -/
def dedupEntityOps (ops : List (Op J)) : List (Op J) := dedupNested text (nestingAll ops + 1) ops

/-- The entities of a batch in the order of their first arrival. -/
def entityOrder (batch : List (EntityOps (List (Op J)))) : List Int64 :=
  batch.foldl (fun order e => if e.entityId ∈ order then order else order ++ [e.entityId]) []

def entriesOf (id : Int64) (batch : List (EntityOps (List (Op J)))) : List (EntityOps (List (Op J))) :=
  batch.filter fun e => e.entityId = id

/-- All ops of an entity, deduplicated, in one entry; an entity without ops has none. -/
def mergedEntry (batch : List (EntityOps (List (Op J)))) (id : Int64) : Option (EntityOps (List (Op J))) :=
  let entries := entriesOf id batch
  match dedupEntityOps text (entries.flatMap (·.ops)) with
  | [] => none
  | ops => some ⟨id, ops, entries.any (·.createsSlot)⟩

/-- A batch with one entry per entity. -/
def dedupOps (batch : List (EntityOps (List (Op J)))) : List (EntityOps (List (Op J))) :=
  (entityOrder batch).filterMap (mergedEntry text batch)

end Dedup

/-! ## Documents -/

/-- A stored value. -/
inductive PackedValue where
  | i (v : Int64)
  | f (bits : UInt64)
  | b (v : Bool)
  | s (v : String)
  | mi (vs : List Int64)
  | mm (vs : List PackedValue)
  | null

namespace PackedValue

/-- `packed_value_eq` with an integer. -/
def isInt (n : Int64) : PackedValue → Bool
  | .i v => v = n
  | _ => false

/-- `DocOp::Set`: null clears the field. -/
def assign : PackedValue → Option PackedValue
  | .null => none
  | v => some v

/-- `DocOp::Append` of an integer. A scalar is wrapped in a list. -/
def append (n : Int64) : Option PackedValue → Option PackedValue
  | none => some (.mi [n])
  | some (.mi vs) => some (.mi (if n ∈ vs then vs else vs ++ [n]))
  | some (.mm vs) => some (.mm (if vs.any (isInt n) then vs else vs ++ [.i n]))
  | some v => some (.mm [v, .i n])

/-- `DocOp::Remove` of an integer. Nothing can be removed from a scalar. -/
def remove (n : Int64) : Option PackedValue → Option PackedValue
  | some (.mi vs) => some (.mi (vs.filter (· ≠ n)))
  | some (.mm vs) => some (.mm (vs.filter fun v => !isInt n v))
  | v => v

end PackedValue

/-! ## Applying ops in order -/

/-- What the processor knows of the fields, and how it reads a JSON value: as null, as a filter key (a remove looks a
string up, a set or an add also enters it), as a sort value, a stored value, an integer. `spelled` is the bits that a
delete clears for a stored document. -/
structure FieldMeta (J : Type) where
  isFilter : String → Bool
  nullable : String → Bool
  sortBits : String → Option Nat
  shadows : String → List String
  idField : String
  isNull : J → Bool
  setKey : String → J → Option UInt64
  removeKey : String → J → Option UInt64
  sortValue : J → Option UInt32
  packed : J → Option PackedValue
  asI64 : J → Option Int64
  spelled : (String → Option PackedValue) → Target → Bool

/-- An entity: whether its slot is alive, whether a document is stored for it, the document and the bits. -/
@[ext]
structure Entity where
  alive : Bool
  stored : Bool
  doc : String → Option PackedValue
  bits : Target → Bool

section Apply

variable {J : Type} (fm : FieldMeta J)

namespace FieldMeta

/-- `process_set_op`: the writes to bits, in order. -/
def setWrites (field : String) (value : J) : List (Target × Bool) :=
  (if fm.isFilter field then
      if fm.isNull value && fm.nullable field then [(.filter field nullBitmapKey, true)]
      else
        (if fm.nullable field then [(.filter field nullBitmapKey, false)] else []) ++
          ((fm.setKey field value).map fun key => (filter field key, true)).toList
    else []) ++
  ((match fm.sortBits field, fm.sortValue value with
    | some numBits, some v => (List.range numBits).map fun bit => (sort field bit, sortBit v bit)
    | _, _ => []) ++
  (fm.shadows field).flatMap fun target =>
    if fm.isNull value then [(.filter target 1, false), (.filter target 0, true)]
    else [(.filter target 0, false), (.filter target 1, true)])

/-- `process_remove_op`. -/
def removeWrites (field : String) (value : J) : List (Target × Bool) :=
  (if fm.isFilter field then
      if fm.isNull value && fm.nullable field then [(.filter field nullBitmapKey, false)]
      else ((fm.removeKey field value).map fun key => (filter field key, false)).toList
    else []) ++
  ((match fm.sortBits field, fm.sortValue value with
    | some numBits, some v =>
      ((List.range numBits).filter (sortBit v)).map fun bit => (sort field bit, false)
    | _, _ => []) ++
  (fm.shadows field).flatMap fun target => [(.filter target 1, false), (.filter target 0, true)])

/-- `process_add_op`. -/
def addWrites (field : String) (value : J) : List (Target × Bool) :=
  if fm.isNull value && fm.nullable field then []
  else
    (if fm.isFilter field then ((fm.setKey field value).map fun key => (filter field key, true)).toList
      else []) ++
    (match fm.sortBits field, fm.sortValue value with
      | some numBits, some v =>
        ((List.range numBits).filter (sortBit v)).map fun bit => (sort field bit, true)
      | _, _ => [])

/-- The bits an op writes. -/
def writes : Op J → List (Target × Bool)
  | .set field value => fm.setWrites field value
  | .remove field value => fm.removeWrites field value
  | .add field value => fm.addWrites field value
  | _ => []

end FieldMeta

namespace Entity

def writeBits (s : Entity) (ws : List (Target × Bool)) : Entity :=
  { s with bits := ws.foldl (fun bits w => update bits w.1 w.2) s.bits }

/-- `DocWriter::write_set`; a value that cannot be stored is not written. -/
def writeSet (s : Entity) (field : String) : Option PackedValue → Entity
  | none => s
  | some v => { s with stored := true, doc := update s.doc field v.assign }

/-- `DocWriter::write_add`; only integers are written. -/
def writeAdd (s : Entity) (field : String) : Option Int64 → Entity
  | none => s
  | some n => { s with stored := true, doc := update s.doc field (PackedValue.append n (s.doc field)) }

/-- `DocWriter::write_remove`; only integers are written. -/
def writeRemove (s : Entity) (field : String) : Option Int64 → Entity
  | none => s
  | some n => { s with doc := update s.doc field (PackedValue.remove n (s.doc field)) }

/-- `write_shadow_target_docs`. -/
def writeShadows (s : Entity) (fm : FieldMeta J) (field : String) (isNullOrRemove : Bool) : Entity :=
  (fm.shadows field).foldl (fun s target => s.writeSet target (some (.b !isNullOrRemove))) s

/-- One op of the loop over an entity's ops. -/
def applyOp (s : Entity) (fm : FieldMeta J) (op : Op J) : Entity :=
  match op with
  | .set field value =>
    ((s.writeBits (fm.writes op)).writeSet field (fm.packed value)).writeShadows fm field (fm.isNull value)
  | .remove field value =>
    ((s.writeBits (fm.writes op)).writeRemove field (fm.asI64 value)).writeShadows fm field true
  | .add field value => (s.writeBits (fm.writes op)).writeAdd field (fm.asI64 value)
  | _ => s

/-- `ConcurrentEngine::delete`: the bits the stored document spells out are cleared; the document stays. -/
def delete (s : Entity) (fm : FieldMeta J) : Entity :=
  { s with alive := false, bits := fun t => s.bits t && !(s.stored && fm.spelled s.doc t) }

end Entity

def Op.isQueryOpSet : Op J → Bool
  | .queryOpSet _ _ => true
  | _ => false

end Apply

/-! ## Schedules -/

/-- What the processor reads besides the fields: the field whose future times defer an entity, with whether it holds
milliseconds; the clock; and what `recompute_computed_sorts_for_slot` writes, worked out from the entity before an
entry and the entry's ops. -/
structure OpsEnv (J : Type) extends FieldMeta J where
  deferredAlive : Option (String × Bool)
  now : UInt64
  recompute : Entity → List (Op J) → List (Target × Bool) × List (String × PackedValue)

/-- An entity with the time its slot is scheduled for, and whether it lies beyond the high-water mark. -/
structure EntitySlot extends Entity where
  scheduled : Option UInt64
  beyond : Bool

namespace OpsEnv

variable {J : Type} (env : OpsEnv J)

/-- The name of the deferred field, or the empty text. -/
def daField : String := (env.deferredAlive.map Prod.fst).getD ""

/-- A time of the deferred field in seconds. -/
def deferredSecs (msToSecs : Bool) (value : J) : Option Int64 :=
  (env.asI64 value).map fun ts => if msToSecs then ts / 1000 else ts

/-- `get_deferred_timestamp`: the first time that the deferred field is set to. -/
def deferredTimestamp (ops : List (Op J)) : Option UInt64 :=
  env.deferredAlive.bind fun (daField, msToSecs) =>
    ops.findSome? fun
      | .set field value => if field = daField then (env.deferredSecs msToSecs value).map Int64.toUInt64 else none
      | _ => none

/-- `get_future_schedule`: the time of the last op that sets or removes the deferred field, if in the future. -/
def futureSchedule (ops : List (Op J)) : Option UInt64 :=
  env.deferredAlive.bind fun (daField, msToSecs) =>
    ops.foldl (fun found op =>
      match op with
      | .set field value | .remove field value =>
        if field = daField then
          (env.deferredSecs msToSecs value).bind fun secs =>
            if 0 < secs ∧ env.now < secs.toUInt64 then some secs.toUInt64 else none
        else found
      | _ => found) none

/-- The ops touch the deferred field. -/
def modifiesSchedule (ops : List (Op J)) : Bool :=
  ops.any fun
    | .set field _ | .remove field _ => field = env.daField
    | _ => false

/-- The new time of a slot that is scheduled. Ops that take its time away activate it at once, as a draft. -/
def reschedule (ops : List (Op J)) : Option UInt64 :=
  (env.deferredTimestamp ops).or
    ((env.futureSchedule ops).or (if env.modifiesSchedule ops then some env.now else none))

end OpsEnv

/-! ## Applying entries -/

/-- What the loop of `apply_ops_batch` does with an entry. -/
inductive Treatment where
  | deleted
  /-- The slot is not alive and has a document: the entry is stale. -/
  | skipped
  /-- Only the document is written; the slot is scheduled if there is a time. -/
  | deferred (created : Bool) (activateAt : Option UInt64)
  /-- Bits and document are written. -/
  | applied (created : Bool)

namespace OpsEnv

variable {J : Type} (env : OpsEnv J)

/-- An entry that is not held back. One that creates its slot is deferred if its time is in the future. -/
def accept (created : Bool) (ops : List (Op J)) : Treatment :=
  if created then
    match env.futureSchedule ops with
    | some activateAt => .deferred true (some activateAt)
    | none => .applied true
  else .applied false

/-- How an entry is treated, from the entity as the entries before it left it. -/
def treatment (s : EntitySlot) (e : EntityOps (List (Op J))) : Treatment :=
  if e.ops.any (·.isDelete) then .deleted
  else if e.createsSlot || e.ops.any (·.isQueryOpSet) || s.alive then env.accept e.createsSlot e.ops
  else if s.scheduled.isSome then .deferred false (env.reschedule e.ops)
  else if s.beyond then env.accept true e.ops
  else
    match env.futureSchedule e.ops with
    -- the schedule of the slot was lost
    | some activateAt => .deferred false (some activateAt)
    -- no document: the slot was never inserted
    | none => if s.stored then .skipped else env.accept true e.ops

/-- The document of a created slot gets the slot as its id. -/
def writeId (s : Entity) (e : EntityOps (List (Op J))) (created : Bool) : Entity :=
  if created && env.idField ≠ "" && !e.ops.any (·.isSetOf env.idField) then
    s.writeSet env.idField (some (.i e.entityId))
  else s

/-- One op of a deferred entry. A remove of the deferred field carries the stored schedule; an entry that creates its
slot removes nothing else. -/
def deferOp (created future : Bool) (s : Entity) : Op J → Entity
  | .set field value => s.writeSet field (env.packed value)
  | .add field value => s.writeAdd field (env.asI64 value)
  | .remove field value =>
    if future && field = env.daField then s.writeSet field (env.packed value)
    else if created then s
    else s.writeRemove field (env.asI64 value)
  | _ => s

/-- The computed sort fields of an entity, recomputed. -/
def recomputed (s : Entity) (writes : List (Target × Bool) × List (String × PackedValue)) : Entity :=
  writes.2.foldl (fun s w => s.writeSet w.1 (some w.2)) (s.writeBits writes.1)

/-- One entry of the loop of `apply_ops_batch`. Alive and scheduled slots lie below the high-water mark. -/
def applyEntry (s : EntitySlot) (e : EntityOps (List (Op J))) : EntitySlot :=
  match env.treatment s e with
  | .deleted =>
    { s with
      toEntity := s.delete env.toFieldMeta
      scheduled := if env.deferredAlive.isSome then none else s.scheduled }
  | .skipped => s
  | .deferred created activateAt =>
    { toEntity := e.ops.foldl (env.deferOp created (env.futureSchedule e.ops).isSome) (env.writeId s.toEntity e created)
      scheduled := activateAt.or s.scheduled
      beyond := s.beyond && activateAt.isNone }
  | .applied created =>
    let written := e.ops.foldl (fun s op => s.applyOp env.toFieldMeta op) (env.writeId s.toEntity e created)
    let s' := recomputed written (env.recompute s.toEntity e.ops)
    { toEntity := { s' with alive := s.alive || created }
      scheduled := s.scheduled
      beyond := s.beyond && !created }

end OpsEnv

/-- Entities whose id is no slot are skipped. -/
def inRange (id : Int64) : Bool := 0 ≤ id && id ≤ 0xffffffff

/-- The entries of a batch in order, each on what the ones before it left. -/
def applyBatch {J : Type} (env : OpsEnv J) (st : Int64 → EntitySlot) (batch : List (EntityOps (List (Op J)))) :
    Int64 → EntitySlot :=
  batch.foldl (fun st e =>
    if inRange e.entityId then update st e.entityId (env.applyEntry (st e.entityId) e) else st) st

end Bitdex
