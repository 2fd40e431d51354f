import Bitdex.Index.Load
import Bitdex.Library.Postings
import Bitdex.Library.Settle
import Bitdex.Sort.TopN

/-!
# `Write.Batch` — grouping mutations and applying them

The flush thread drains mutation ops from a channel into a `WriteBatch` (`write_coalescer.rs`), groups them by the
bitmap they touch and applies the groups kind by kind: filter removes before filter inserts, sort clears before sort
sets, alive inserts before alive removes. Deferred activations alone keep their order of arrival. So each bit settles
on the kind that is applied last (`bit_applyOps`), and the deferred map follows the stream of ops however it is cut
(`deferredAt_applyOps`).
-/

namespace Bitdex

open Bitmap SlotAllocator List Postings VersionedBitmap Option

/-! ## Ops and batches -/

/-- One mutation of the bitmaps. -/
inductive MutationOp where
  | filterInsert (field : String) (value : UInt64) (slots : List UInt32)
  | filterRemove (field : String) (value : UInt64) (slots : List UInt32)
  | sortSet (field : String) (bitLayer : Nat) (slots : List UInt32)
  | sortClear (field : String) (bitLayer : Nat) (slots : List UInt32)
  | aliveInsert (slots : List UInt32)
  | aliveRemove (slots : List UInt32)
  | deferredAlive (slot : UInt32) (activateAt : UInt64)
  | deferredCancel (slot : UInt32)
deriving DecidableEq

/-- A field and a bitmap key. -/
structure FilterGroupKey where
  field : String
  value : UInt64
deriving DecidableEq

/-- A field and a layer. -/
structure SortGroupKey where
  field : String
  bitLayer : Nat
deriving DecidableEq

/-- Ops grouped by the bitmap they touch. The source's slot vectors are only iterated, so a group is a set.
`deferredMuts` keeps arrival order: `some` schedules, `none` cancels. -/
structure WriteBatch where
  filterInserts : Postings FilterGroupKey UInt32
  filterRemoves : Postings FilterGroupKey UInt32
  sortSets : Postings SortGroupKey UInt32
  sortClears : Postings SortGroupKey UInt32
  aliveInserts : Finset UInt32
  aliveRemoves : Finset UInt32
  deferredMuts : List (UInt32 × Option UInt64)

namespace WriteBatch

/-- A batch without ops. -/
def empty : WriteBatch := ⟨∅, ∅, ∅, ∅, ∅, ∅, []⟩

/-- File one op under its group. -/
def push (b : WriteBatch) : MutationOp → WriteBatch
  | .filterInsert field value slots =>
    { b with filterInserts := b.filterInserts.add ⟨field, value⟩ slots.toFinset }
  | .filterRemove field value slots =>
    { b with filterRemoves := b.filterRemoves.add ⟨field, value⟩ slots.toFinset }
  | .sortSet field bitLayer slots =>
    { b with sortSets := b.sortSets.add ⟨field, bitLayer⟩ slots.toFinset }
  | .sortClear field bitLayer slots =>
    { b with sortClears := b.sortClears.add ⟨field, bitLayer⟩ slots.toFinset }
  | .aliveInsert slots => { b with aliveInserts := b.aliveInserts ∪ slots.toFinset }
  | .aliveRemove slots => { b with aliveRemoves := b.aliveRemoves ∪ slots.toFinset }
  | .deferredAlive slot activateAt =>
    { b with deferredMuts := b.deferredMuts ++ [(slot, some activateAt)] }
  | .deferredCancel slot => { b with deferredMuts := b.deferredMuts ++ [(slot, none)] }

/-- Group the ops of one drain. -/
def groupAndSort (ops : List MutationOp) : WriteBatch := ops.foldl push empty

end WriteBatch

/-! ## The bits an op writes -/

/-- A bit every slot has: its membership in a filter bitmap, a bit of a sort value, or being alive. -/
inductive Target where
  | filter (field : String) (value : UInt64)
  | sort (field : String) (bitLayer : Nat)
  | alive
deriving DecidableEq

/-- The value that wins when one batch both sets and clears the bit: the one applied last. -/
def Target.preferred : Target → Bool
  | .filter _ _ => true
  | .sort _ _ => true
  | .alive => false

/-- What an op writes to a bit of a slot, if it touches it. -/
def MutationOp.write (t : Target) (slot : UInt32) : MutationOp → Option Bool
  | .filterInsert field value slots =>
    if t = .filter field value ∧ slot ∈ slots then some true else none
  | .filterRemove field value slots =>
    if t = .filter field value ∧ slot ∈ slots then some false else none
  | .sortSet field bitLayer slots =>
    if t = .sort field bitLayer ∧ slot ∈ slots then some true else none
  | .sortClear field bitLayer slots =>
    if t = .sort field bitLayer ∧ slot ∈ slots then some false else none
  | .aliveInsert slots => if t = .alive ∧ slot ∈ slots then some true else none
  | .aliveRemove slots => if t = .alive ∧ slot ∈ slots then some false else none
  | .deferredAlive _ _ => none
  | .deferredCancel _ => none

/-- The writes to a bit, in the order of the ops. -/
def bitWrites (t : Target) (slot : UInt32) (ops : List MutationOp) : List Bool := ops.filterMap (·.write t slot)

/-- The deferred mutation an op carries. -/
def MutationOp.deferredMut : MutationOp → Option (UInt32 × Option UInt64)
  | .deferredAlive slot activateAt => some (slot, some activateAt)
  | .deferredCancel slot => some (slot, none)
  | _ => none

namespace WriteBatch

/-- The slots for which the batch writes `v` to the target. -/
def group (b : WriteBatch) : Target → Bool → Finset UInt32
  | .filter field value, true => b.filterInserts.ids ⟨field, value⟩
  | .filter field value, false => b.filterRemoves.ids ⟨field, value⟩
  | .sort field bitLayer, true => b.sortSets.ids ⟨field, bitLayer⟩
  | .sort field bitLayer, false => b.sortClears.ids ⟨field, bitLayer⟩
  | .alive, true => b.aliveInserts
  | .alive, false => b.aliveRemoves

theorem mem_group_push {b : WriteBatch} {op : MutationOp} {t : Target} {v : Bool} {x : UInt32} :
    x ∈ (b.push op).group t v ↔ x ∈ b.group t v ∨ op.write t x = some v := by
  cases op <;> cases t <;> cases v <;>
    simp [push, group, MutationOp.write, mem_ids_add, eq_comm, and_assoc]

/-- **Grouping keeps the writes** to every bit and forgets their order. -/
theorem mem_group_groupAndSort {ops : List MutationOp} {t : Target} {v : Bool} {x : UInt32} :
    x ∈ (groupAndSort ops).group t v ↔ v ∈ bitWrites t x ops := by
  have hempty : x ∉ empty.group t v := by cases t <;> cases v <;> simp [empty, group]
  refine (foldl_or_iff (x ∈ group · t v) (by intros; exact mem_group_push)).trans ?_
  simp [hempty, bitWrites]

theorem deferredMuts_groupAndSort (ops : List MutationOp) :
    (groupAndSort ops).deferredMuts = ops.filterMap (·.deferredMut) := by
  have hpush : ∀ b : WriteBatch, (ops.foldl push b).deferredMuts = b.deferredMuts ++ ops.filterMap (·.deferredMut) := by
    induction ops with
    | nil => simp
    | cons op ops ih =>
      intro b
      rw [foldl_cons, ih]
      cases op <;> simp [push, MutationOp.deferredMut]
  rw [groupAndSort, hpush]
  rfl

end WriteBatch

/-! ## Groups applied to the parts of an index -/

namespace FilterIndex

def removeGroups (fi : FilterIndex) (groups : Postings FilterGroupKey UInt32) : FilterIndex :=
  groups.applyTo (fun fi g slots => fi.update g.field (·.removeBulk g.value (iter slots))) fi

def insertGroups (fi : FilterIndex) (groups : Postings FilterGroupKey UInt32) : FilterIndex :=
  groups.applyTo (fun fi g slots => fi.update g.field (·.insertBulk g.value (iter slots))) fi

/-- The filter part of `apply`: removes before inserts. -/
def applyGroups (fi : FilterIndex) (inserts removes : Postings FilterGroupKey UInt32) : FilterIndex :=
  (fi.removeGroups removes).insertGroups inserts

variable {fi : FilterIndex} {groups inserts removes : Postings FilterGroupKey UInt32} {n : String} {k : UInt64}
  {x : UInt32}

theorem isSome_getField_updates (change : FilterGroupKey → Bitmap → FilterField → FilterField) :
    ((groups.applyTo (fun fi g slots => fi.update g.field (change g slots)) fi).getField n).isSome =
      (fi.getField n).isSome :=
  foldl_view (fun fi : FilterIndex => (fi.getField n).isSome) (fun _ _ _ => isSome_getField_update _ _ _ _) fi

theorem mem_bits_removeGroups : x ∈ (fi.removeGroups groups).bits n k ↔ x ∈ fi.bits n k ∧ x ∉ groups.ids ⟨n, k⟩ := by
  refine mem_view_applyTo_remove (m := groups) (s := fi) (k := ⟨n, k⟩)
    (fun (fi : FilterIndex) (g : FilterGroupKey) => fi.bits g.field g.value) ?_
  rintro fi ⟨f, v⟩ slots ⟨f', v'⟩ x
  simp only [mem_bits_update_removeBulk, mem_iter, FilterGroupKey.mk.injEq, and_assoc]

theorem mem_bits_insertGroups : x ∈ (fi.insertGroups groups).bits n k ↔
      x ∈ fi.bits n k ∨ ((fi.getField n).isSome = true ∧ x ∈ groups.ids ⟨n, k⟩) := by
  refine mem_view_applyTo_add (m := groups) (s := fi) (k := ⟨n, k⟩)
    (fun (fi : FilterIndex) (g : FilterGroupKey) => (fi.getField g.field).isSome = true)
    (fun (fi : FilterIndex) (g : FilterGroupKey) => fi.bits g.field g.value) ?_ ?_
  · intro fi g slots g'
    rw [isSome_getField_update]
  · rintro fi ⟨f, v⟩ slots ⟨f', v'⟩ x
    simp only [mem_bits_update_insertBulk, mem_iter, FilterGroupKey.mk.injEq, and_assoc]

/-- **Filter bits.** An insert of the batch wins over a remove, and a bit neither touches stays. -/
theorem mem_bits_applyGroups (hfield : (fi.getField n).isSome = true) : x ∈ (fi.applyGroups inserts removes).bits n k ↔
      x ∈ inserts.ids ⟨n, k⟩ ∨ (x ∈ fi.bits n k ∧ x ∉ removes.ids ⟨n, k⟩) := by
  rw [applyGroups, mem_bits_insertGroups, mem_bits_removeGroups, removeGroups, isSome_getField_updates]
  simp only [hfield, true_and]
  exact or_comm

theorem isSome_getField_applyGroups :
    ((fi.applyGroups inserts removes).getField n).isSome = (fi.getField n).isSome := by
  rw [applyGroups, insertGroups, isSome_getField_updates, removeGroups, isSome_getField_updates]

/-- A bit that no group is on stays, also in a field that does not exist. -/
theorem mem_bits_applyGroups_of_notMem (hins : x ∉ inserts.ids ⟨n, k⟩) (hrem : x ∉ removes.ids ⟨n, k⟩) :
    x ∈ (fi.applyGroups inserts removes).bits n k ↔ x ∈ fi.bits n k := by
  rw [applyGroups, mem_bits_insertGroups, mem_bits_removeGroups]
  simp [hins, hrem]

end FilterIndex

namespace SortIndex

def clearGroups (si : SortIndex) (groups : Postings SortGroupKey UInt32) : SortIndex :=
  groups.applyTo (fun si g slots => si.update g.field (·.clearLayerBulk g.bitLayer (iter slots))) si

def setGroups (si : SortIndex) (groups : Postings SortGroupKey UInt32) : SortIndex :=
  groups.applyTo (fun si g slots => si.update g.field (·.setLayerBulk g.bitLayer (iter slots))) si

/-- The sort part of `apply`: clears before sets. -/
def applyGroups (si : SortIndex) (sets clears : Postings SortGroupKey UInt32) : SortIndex :=
  (si.clearGroups clears).setGroups sets

variable {si : SortIndex} {groups sets clears : Postings SortGroupKey UInt32} {n : String} {b : Nat} {x : UInt32}

theorem numBits_clearGroups : (si.clearGroups groups).numBits n = si.numBits n :=
  foldl_view (fun si : SortIndex => si.numBits n)
    (fun e _ _ => numBits_update fun sf => sf.numBits_clearLayerBulk e.1.bitLayer _) si

theorem numBits_setGroups : (si.setGroups groups).numBits n = si.numBits n :=
  foldl_view (fun si : SortIndex => si.numBits n)
    (fun e _ _ => numBits_update fun sf => sf.numBits_setLayerBulk e.1.bitLayer _) si

theorem mem_layer_clearGroups : x ∈ (si.clearGroups groups).layer n b ↔ x ∈ si.layer n b ∧ x ∉ groups.ids ⟨n, b⟩ := by
  refine mem_view_applyTo_remove (m := groups) (s := si) (k := ⟨n, b⟩)
    (fun (si : SortIndex) (g : SortGroupKey) => si.layer g.field g.bitLayer) ?_
  rintro si ⟨f, v⟩ slots ⟨f', v'⟩ x
  simp only [mem_layer_update_clear, mem_iter, SortGroupKey.mk.injEq, and_assoc]

theorem mem_layer_setGroups :
    x ∈ (si.setGroups groups).layer n b ↔ x ∈ si.layer n b ∨ (b < si.numBits n ∧ x ∈ groups.ids ⟨n, b⟩) := by
  refine mem_view_applyTo_add (m := groups) (s := si) (k := ⟨n, b⟩)
    (fun (si : SortIndex) (g : SortGroupKey) => g.bitLayer < si.numBits g.field)
    (fun (si : SortIndex) (g : SortGroupKey) => si.layer g.field g.bitLayer) ?_ ?_
  · intro si g slots g'
    rw [numBits_update fun sf => sf.numBits_setLayerBulk g.bitLayer _]
  · rintro si ⟨f, v⟩ slots ⟨f', v'⟩ x
    simp only [mem_layer_update_set, mem_iter, SortGroupKey.mk.injEq, and_assoc]

theorem numBits_applyGroups : (si.applyGroups sets clears).numBits n = si.numBits n := by
  rw [applyGroups, numBits_setGroups, numBits_clearGroups]

/-- **Sort bits.** A set of the batch wins over a clear, and a bit neither touches stays. -/
theorem mem_layer_applyGroups (hb : b < si.numBits n) :
    x ∈ (si.applyGroups sets clears).layer n b ↔ x ∈ sets.ids ⟨n, b⟩ ∨ (x ∈ si.layer n b ∧ x ∉ clears.ids ⟨n, b⟩) := by
  rw [applyGroups, mem_layer_setGroups, numBits_clearGroups, mem_layer_clearGroups]
  simp only [hb, true_and]
  exact or_comm

theorem isSome_getField_applyGroups : ((si.applyGroups sets clears).getField n).isSome = (si.getField n).isSome := by
  have hupdate : ∀ (si' : SortIndex) (name : String) (f : SortField → SortField),
      ((si'.update name f).getField n).isSome = (si'.getField n).isSome := by
    intro si' name f
    rw [getField_update]
    split
    · next h => rw [isSome_map, h]
    · rfl
  refine (foldl_view (fun si : SortIndex => (si.getField n).isSome) (fun _ _ _ => hupdate _ _ _) _).trans ?_
  exact foldl_view (fun si : SortIndex => (si.getField n).isSome) (fun _ _ _ => hupdate _ _ _) si

/-- **Sort values.** A slot that no group of a field touches keeps its value there. -/
theorem reconstructValue_applyGroups (h : ∀ b, x ∉ sets.ids ⟨n, b⟩ ∧ x ∉ clears.ids ⟨n, b⟩) :
    (si.applyGroups sets clears).reconstructValue n x = si.reconstructValue n x := by
  have hsome : ((si.applyGroups sets clears).getField n).isSome = (si.getField n).isSome := isSome_getField_applyGroups
  have hnum : (si.applyGroups sets clears).numBits n = si.numBits n := numBits_applyGroups
  have hlayer : ∀ b, (x ∈ (si.applyGroups sets clears).layer n b ↔ x ∈ si.layer n b) := by
    intro b
    rw [applyGroups, mem_layer_setGroups, mem_layer_clearGroups]
    simp [(h b).1, (h b).2]
  unfold numBits at hnum
  unfold layer at hlayer
  unfold reconstructValue
  cases hold : si.getField n with
  | none =>
    rw [hold, isSome_none, isSome_eq_false_iff, isNone_iff_eq_none] at hsome
    rw [hsome]
  | some sf =>
    rw [hold, isSome_some, isSome_iff_exists] at hsome
    obtain ⟨sf', hnew⟩ := hsome
    simp only [hold, hnew, map_some, getD_some] at hnum hlayer ⊢
    exact congrArg some (SortField.reconstructValue_congr hnum hlayer)

end SortIndex

namespace SlotAllocator

/-- One deferred mutation: schedule or cancel. -/
def applyDeferred (sa : SlotAllocator) (m : UInt32 × Option UInt64) : SlotAllocator :=
  match m.2 with
  | some activateAt => sa.scheduleAlive m.1 activateAt
  | none => sa.cancelDeferred m.1

/-- The alive part of `apply`: inserts, removes, deferred mutations in order, then the merge. -/
def applyAlive (sa : SlotAllocator) (b : WriteBatch) : SlotAllocator :=
  let inserted := if b.aliveInserts = ∅ then sa else sa.aliveInsertBulk (iter b.aliveInserts)
  let removed := (iter b.aliveRemoves).foldl aliveRemoveOne inserted
  (b.deferredMuts.foldl applyDeferred removed).mergeAlive

variable {sa : SlotAllocator} {x : UInt32}

theorem alive_foldl_aliveRemoveOne (slots : List UInt32) :
    (slots.foldl aliveRemoveOne sa).alive = sa.alive.removeBulk slots := by
  induction slots generalizing sa with
  | nil => rfl
  | cons slot slots ih => exact ih

theorem alive_foldl_applyDeferred (muts : List (UInt32 × Option UInt64)) :
    (muts.foldl applyDeferred sa).alive = sa.alive := by
  refine foldl_view alive (fun m _ sa => ?_) sa
  obtain ⟨slot, _ | activateAt⟩ := m <;> rfl

/-- **The alive bit.** A remove of the batch wins over an insert. -/
theorem mem_alive_applyAlive {b : WriteBatch} :
    x ∈ (sa.applyAlive b).alive.fused ↔ x ∉ b.aliveRemoves ∧ (x ∈ b.aliveInserts ∨ x ∈ sa.alive.fused) := by
  unfold applyAlive
  simp only [mergeAlive, fused_merge, alive_foldl_applyDeferred,
    alive_foldl_aliveRemoveOne, mem_fused_removeBulk, mem_iter]
  split
  · next h => simp [h]
  · simp [aliveInsertBulk, mem_fused_insertBulk]

/-- **The alive bitmap is merged** at the end of every batch. -/
theorem merged_applyAlive (b : WriteBatch) (hloaded : sa.alive.isLoaded = true) :
    (sa.applyAlive b).alive.isLoaded = true ∧ (sa.applyAlive b).alive.base = (sa.applyAlive b).alive.fused := by
  obtain ⟨vb, hvb, hmerge⟩ : ∃ vb : VersionedBitmap, vb.isLoaded = true ∧ (sa.applyAlive b).alive = vb.merge := by
    refine ⟨_, ?_, rfl⟩
    rw [alive_foldl_applyDeferred, alive_foldl_aliveRemoveOne, isLoaded_removeBulk]
    split
    · exact hloaded
    · exact (isLoaded_insertBulk _).trans hloaded
  rw [hmerge, isLoaded_merge, vb.base_merge hvb, vb.fused_merge]
  exact ⟨hvb, rfl⟩

/-- The activation times of a slot after one deferred mutation. -/
def reschedule (x : UInt32) (times : List UInt64) (m : UInt32 × Option UInt64) : List UInt64 :=
  if x = m.1 then m.2.toList else times

theorem deferredAt_foldl_applyDeferred (muts : List (UInt32 × Option UInt64)) :
    (muts.foldl applyDeferred sa).deferredAt x = muts.foldl (reschedule x) (sa.deferredAt x) := by
  induction muts generalizing sa with
  | nil => rfl
  | cons m muts ih =>
    rw [foldl_cons, foldl_cons, ih]
    congr 1
    obtain ⟨slot, _ | activateAt⟩ := m
    · simp [applyDeferred, reschedule, deferredAt_cancelDeferred]
    · simp [applyDeferred, reschedule, deferredAt_scheduleAlive]

/-- **The deferred map** follows the deferred mutations in their order of arrival. -/
theorem deferredAt_applyAlive {b : WriteBatch} :
    (sa.applyAlive b).deferredAt x = b.deferredMuts.foldl (reschedule x) (sa.deferredAt x) := by
  have hremove : ∀ (slots : List UInt32) (sa : SlotAllocator),
      (slots.foldl aliveRemoveOne sa).deferredAt x = sa.deferredAt x := by
    intro slots
    induction slots with
    | nil => exact fun _ => rfl
    | cons slot slots ih => exact fun sa => ih _
  show (b.deferredMuts.foldl applyDeferred _).deferredAt x = _
  rw [deferredAt_foldl_applyDeferred, hremove]
  congr 1
  split <;> rfl

end SlotAllocator

/-! ## Applying a batch -/

/-- The bitmap state a batch is applied to. -/
structure IndexState where
  slots : SlotAllocator
  filters : FilterIndex
  sorts : SortIndex

namespace IndexState

/-- `WriteBatch::apply`. -/
def applyBatch (st : IndexState) (b : WriteBatch) : IndexState where
  slots := st.slots.applyAlive b
  filters := st.filters.applyGroups b.filterInserts b.filterRemoves
  sorts := st.sorts.applyGroups b.sortSets b.sortClears

/-- One flush: group the drained ops and apply them. -/
def applyOps (st : IndexState) (ops : List MutationOp) : IndexState := st.applyBatch (WriteBatch.groupAndSort ops)

/-- The bits the index has room for; ops on other fields or layers are ignored. -/
def Has (st : IndexState) : Target → Prop
  | .filter field _ => (st.filters.getField field).isSome = true
  | .sort field bitLayer => bitLayer < st.sorts.numBits field
  | .alive => True

instance (st : IndexState) : DecidablePred st.Has
  | .filter field _ => inferInstanceAs (Decidable ((st.filters.getField field).isSome = true))
  | .sort field bitLayer => inferInstanceAs (Decidable (bitLayer < st.sorts.numBits field))
  | .alive => inferInstanceAs (Decidable True)

/-- The slots that have a bit. -/
def holders (st : IndexState) : Target → Bitmap
  | .filter field value => st.filters.bits field value
  | .sort field bitLayer => st.sorts.layer field bitLayer
  | .alive => st.slots.alive.fused

/-- The slot is in a bitmap. -/
def bit (st : IndexState) (t : Target) (slot : UInt32) : Bool := decide (slot ∈ st.holders t)

variable {st : IndexState} {t : Target} {x : UInt32} {batches : List (List MutationOp)}

theorem has_applyBatch {b : WriteBatch} : (st.applyBatch b).Has t ↔ st.Has t := by
  cases t with
  | filter field value =>
    show ((st.filters.applyGroups _ _).getField field).isSome = true ↔ _
    rw [FilterIndex.isSome_getField_applyGroups]
    rfl
  | sort field bitLayer =>
    show bitLayer < (st.sorts.applyGroups _ _).numBits field ↔ _
    rw [SortIndex.numBits_applyGroups]
    rfl
  | alive => exact Iff.rfl

theorem mem_holders_applyBatch {b : WriteBatch} (hhas : st.Has t) :
    x ∈ (st.applyBatch b).holders t ↔ if x ∈ b.group t t.preferred then t.preferred = true
      else if x ∈ b.group t (!t.preferred) then t.preferred = false
      else x ∈ st.holders t := by
  cases t with
  | filter field value =>
    refine (FilterIndex.mem_bits_applyGroups hhas).trans ?_
    simp only [Target.preferred, WriteBatch.group, holders, Bool.not_true]
    split_ifs <;> simp [*]
  | sort field bitLayer =>
    refine (SortIndex.mem_layer_applyGroups hhas).trans ?_
    simp only [Target.preferred, WriteBatch.group, holders, Bool.not_true]
    split_ifs <;> simp [*]
  | alive =>
    refine mem_alive_applyAlive.trans ?_
    simp only [Target.preferred, WriteBatch.group, holders, Bool.not_false]
    split_ifs <;> simp [*]

/-- **One flush settles every bit**: on the preferred value if some op writes it, otherwise on the other if any does.
-/
theorem bit_applyOps {ops : List MutationOp} (hhas : st.Has t) :
    (st.applyOps ops).bit t x = (Settle.settle t.preferred (bitWrites t x ops)).getD (st.bit t x) := by
  have hmem := mem_holders_applyBatch (x := x) (b := WriteBatch.groupAndSort ops) hhas
  simp only [WriteBatch.mem_group_groupAndSort] at hmem
  unfold bit
  rw [Settle.settle_eq_ite]
  split_ifs at hmem ⊢ with hpref hother
  · simp [applyOps, hmem]
  · simp [applyOps, hmem]
  · simp [applyOps, hmem]

theorem has_applyOps {ops : List MutationOp} : (st.applyOps ops).Has t ↔ st.Has t := has_applyBatch

theorem deferredAt_applyOps {ops : List MutationOp} : (st.applyOps ops).slots.deferredAt x =
      (ops.filterMap (·.deferredMut)).foldl (reschedule x) (st.slots.deferredAt x) := by
  rw [← WriteBatch.deferredMuts_groupAndSort]
  exact deferredAt_applyAlive

/-! ### Runs of batches -/

/-- Flush after flush. -/
def applyAll (st : IndexState) (batches : List (List MutationOp)) : IndexState := batches.foldl applyOps st

theorem has_applyAll : (st.applyAll batches).Has t ↔ st.Has t := by
  unfold applyAll
  induction batches generalizing st with
  | nil => rfl
  | cons ops batches ih => rw [foldl_cons, ih, has_applyOps]

/-- **A run of flushes** takes every bit through the batches of its writes. -/
theorem bit_applyAll (hhas : st.Has t) :
    (st.applyAll batches).bit t x = Settle.run t.preferred (st.bit t x) (batches.map (bitWrites t x)) := by
  unfold applyAll Settle.run
  induction batches generalizing st with
  | nil => rfl
  | cons ops batches ih =>
    rw [foldl_cons, ih (has_applyOps.mpr hhas), bit_applyOps hhas]
    rfl

/-- A bit the index has no room for is never set. -/
theorem bit_eq_false (hhas : ¬st.Has t) : st.bit t x = false := by
  cases t with
  | filter field value =>
    have hnone : st.filters.getField field = none := by simpa [Has] using hhas
    simp [bit, holders, FilterIndex.bits, hnone]
  | sort field bitLayer =>
    exact decide_eq_false fun hx => hhas (SortIndex.lt_numBits_of_mem_layer hx)
  | alive => exact absurd trivial hhas

/-- **The deferred map sees the stream**, however it is cut. -/
theorem deferredAt_applyAll : (st.applyAll batches).slots.deferredAt x =
      (batches.flatten.filterMap (·.deferredMut)).foldl (reschedule x) (st.slots.deferredAt x) := by
  unfold applyAll
  induction batches generalizing st with
  | nil => rfl
  | cons ops batches ih =>
    rw [foldl_cons, ih, deferredAt_applyOps, flatten_cons, filterMap_append, foldl_append]

end IndexState

end Bitdex
