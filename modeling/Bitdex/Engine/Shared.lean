import Bitdex.Index.Load
import Bitdex.Write.Refresh

/-!
# `Engine.Shared` — snapshots that share their filter fields

Cloning an `InnerEngine` copies its slots and its sort fields on write, but the filter fields are behind `Arc`s with a
lock inside (`filter.rs`): a write to a filter field through one clone is at once seen by every clone that has the
same `Arc`. The flush thread writes through its staging copy, group by group, and publishes clones of it. The steps of
a batch leave what `IndexState.applyBatch` leaves (`bit_applySteps_steps`).
-/

namespace Bitdex

open MutationOp IndexState List FilterIndex Bitmap

/-! ## Filter fields behind `Arc`s -/

/-- The filter fields. An `Arc` is known by the field that it was made for and a serial number. -/
structure FieldHeap where
  cell : String → Nat → FilterField
  /-- The next serial number. -/
  next : Nat

/-- What a clone holds of its own, and the `Arc`s of its filter fields. -/
structure InnerEngine where
  slots : SlotAllocator
  filters : HashMap String Nat
  sorts : SortIndex

namespace InnerEngine

variable (h : FieldHeap) (e e' : InnerEngine)

/-- The index that a reader of the clone sees. -/
def view : IndexState where
  slots := e.slots
  filters := ⟨e.filters.filterMap fun field arc => some (h.cell field arc)⟩
  sorts := e.sorts

/-- Two clones have the same `Arc` for a field. -/
def Shares (field : String) : Prop := e'.filters.lookup field = e.filters.lookup field

instance (field : String) : Decidable (e.Shares e' field) := inferInstanceAs (Decidable (_ = _))

/-- Change a field in place, for all who have its `Arc`. -/
def updateField (field : String) (f : FilterField → FilterField) : FieldHeap :=
  match e.filters.lookup field with
  | some arc => { h with cell := fun n a => if n = field ∧ a = arc then f (h.cell n a) else h.cell n a }
  | none => h

variable {h e e'} {field n : String} {f : FilterField → FilterField}

theorem getField_view (n : String) : (e.view h).filters.getField n = (e.filters.lookup n).map (h.cell n) := by
  show (AList.filterMap _ _).lookup n = _
  rw [AList.lookup_filterMap]
  cases e.filters.lookup n <;> rfl

/-- A clone with the same `Arc` sees the change. -/
theorem getField_view_updateField (hs : e.Shares e' field) :
    (e'.view (e.updateField h field f)).filters.getField n = ((e'.view h).filters.update field f).getField n := by
  rw [getField_update, getField_view, getField_view, getField_view, updateField]
  by_cases hn : n = field
  · rw [if_pos hn, hn, hs]
    cases e.filters.lookup field with
    | none => rfl
    | some arc => simp
  · rw [if_neg hn]
    cases e.filters.lookup field with
    | none => rfl
    | some arc => simp [hn]

/-- A clone with another `Arc` does not. -/
theorem getField_view_updateField_of_not_shares (hs : ¬e.Shares e' field) :
    (e'.view (e.updateField h field f)).filters.getField n = (e'.view h).filters.getField n := by
  rw [getField_view, getField_view, updateField]
  cases harc : e.filters.lookup field with
  | none => rfl
  | some arc =>
    cases hn : e'.filters.lookup n with
    | none => rfl
    | some arc' =>
      have hne : ¬(n = field ∧ arc' = arc) := by
        rintro ⟨rfl, rfl⟩
        exact hs (hn.trans harc.symm)
      simp [hne]

end InnerEngine

/-! ## What an index shows -/

/-- The bits of an index are those of its fields. -/
theorem IndexState.bit_congr {st st' : IndexState} (hslots : st'.slots.alive.fused = st.slots.alive.fused)
    (hfilters : ∀ n, st'.filters.getField n = st.filters.getField n) (hsorts : st'.sorts = st.sorts) (t : Target)
    (x : UInt32) : st'.bit t x = st.bit t x := by
  unfold bit
  congr 1
  cases t with
  | filter f k => simp [holders, bits, hfilters]
  | sort f b => simp [holders, hsorts]
  | alive => simp [holders, hslots]

/-- Membership after a write that sets, as the value written or the bit before. -/
theorem decide_set {s s' : Bitmap} {w : Prop} [Decidable w] {x : UInt32} (h : x ∈ s' ↔ x ∈ s ∨ w) :
    decide (x ∈ s') = (if w then some true else none).getD (decide (x ∈ s)) := by
  by_cases hw : w <;> simp [h, hw]

/-- Membership after a write that clears. -/
theorem decide_clear {s s' : Bitmap} {w : Prop} [Decidable w] {x : UInt32} (h : x ∈ s' ↔ x ∈ s ∧ ¬w) :
    decide (x ∈ s') = (if w then some false else none).getD (decide (x ∈ s)) := by
  by_cases hw : w <;> simp [h, hw]

/-! ## One step of the flush thread -/

namespace InnerEngine

variable (h : FieldHeap) (e : InnerEngine)

/-- One step of the flush thread: a group of a batch, applied through its staging copy. -/
def applyOp : MutationOp → FieldHeap × InnerEngine
  | .filterInsert field value slots => (e.updateField h field (·.insertBulk value slots), e)
  | .filterRemove field value slots => (e.updateField h field (·.removeBulk value slots), e)
  | .sortSet field bitLayer slots =>
    (h, { e with sorts := e.sorts.update field (·.setLayerBulk bitLayer slots) })
  | .sortClear field bitLayer slots =>
    (h, { e with sorts := e.sorts.update field (·.clearLayerBulk bitLayer slots) })
  | .aliveInsert slots => (h, { e with slots := e.slots.aliveInsertBulk slots })
  | .aliveRemove slots => (h, { e with slots := slots.foldl SlotAllocator.aliveRemoveOne e.slots })
  | .deferredAlive slot activateAt => (h, { e with slots := e.slots.scheduleAlive slot activateAt })
  | .deferredCancel slot => (h, { e with slots := e.slots.cancelDeferred slot })

/-- The field through whose `Arc` an op writes. -/
def opField : MutationOp → Option String
  | .filterInsert field _ _ | .filterRemove field _ _ => some field
  | _ => none

variable {h e} {e' : InnerEngine} {op : MutationOp} {t : Target} {x : UInt32}

theorem has_applyOp : (((e.applyOp h op).2).view (e.applyOp h op).1).Has t ↔ (e.view h).Has t := by
  cases op with
  | filterInsert field value slots | filterRemove field value slots =>
    cases t with
    | filter f k =>
      show ((e.view (e.updateField h field _)).filters.getField f).isSome = true ↔ _
      rw [getField_view_updateField rfl, isSome_getField_update]
      rfl
    | sort f b | alive => exact Iff.rfl
  | sortSet field bitLayer slots =>
    cases t with
    | sort f b =>
      show b < (e.sorts.update field _).numBits f ↔ _
      rw [SortIndex.numBits_update fun sf => sf.numBits_setLayerBulk bitLayer slots]
      rfl
    | filter f k | alive => exact Iff.rfl
  | sortClear field bitLayer slots =>
    cases t with
    | sort f b =>
      show b < (e.sorts.update field _).numBits f ↔ _
      rw [SortIndex.numBits_update fun sf => sf.numBits_clearLayerBulk bitLayer slots]
      rfl
    | filter f k | alive => exact Iff.rfl
  | aliveInsert | aliveRemove | deferredAlive | deferredCancel => cases t <;> exact Iff.rfl

/-- An op on a field that a clone does not share leaves every field of the clone. -/
theorem getField_view_applyOp (hs : ∀ field, opField op = some field → ¬e.Shares e' field) (n : String) :
    (e'.view (e.applyOp h op).1).filters.getField n = (e'.view h).filters.getField n := by
  cases op with
  | filterInsert field value slots | filterRemove field value slots =>
    exact getField_view_updateField_of_not_shares (hs field rfl)
  | _ => rfl

/-- A clone that does not share the field written sees nothing of the op. -/
theorem bit_applyOp_of_not_shares (hs : ∀ field, opField op = some field → ¬e.Shares e' field) :
    (e'.view (e.applyOp h op).1).bit t x = (e'.view h).bit t x := by
  refine bit_congr ?_ (getField_view_applyOp hs) ?_ t x <;> rfl

/-- A clone that shares the field written sees the op. -/
theorem bit_applyOp_of_shares {field : String} (hfield : opField op = some field) (hs : e.Shares e' field)
    (hhas : (e'.view h).Has t) :
    (e'.view (e.applyOp h op).1).bit t x = (op.write t x).getD ((e'.view h).bit t x) := by
  have hview : ∀ f, (e'.view (e.updateField h field f)).bit t x =
      (⟨e'.slots, (e'.view h).filters.update field f, e'.sorts⟩ : IndexState).bit t x := by
    intro f
    refine bit_congr ?_ ?_ ?_ t x
    · rfl
    · intro n
      exact getField_view_updateField hs
    · rfl
  cases op with
  | filterInsert f value slots =>
    cases hfield
    refine (hview _).trans ?_
    cases t with
    | filter n k =>
      have hsome : ((e'.view h).filters.getField n).isSome = true := hhas
      refine decide_set (mem_bits_update_insertBulk.trans ?_)
      simp [hsome, holders, and_assoc, eq_comm]
    | sort | alive => rfl
  | filterRemove f value slots =>
    cases hfield
    refine (hview _).trans ?_
    cases t with
    | filter n k =>
      refine decide_clear (mem_bits_update_removeBulk.trans ?_)
      simp [holders, and_assoc, eq_comm]
    | sort | alive => rfl
  | _ => cases hfield

/-- A bit the op does not write, or writes in a field the clone written through lacks, stays in every clone. -/
theorem bit_applyOp_frame (hw : op.write t x = none ∨ ¬(e.view h).Has t) :
    (e'.view (e.applyOp h op).1).bit t x = (e'.view h).bit t x := by
  cases hfield : opField op with
  | none =>
    refine bit_applyOp_of_not_shares fun field hf => ?_
    rw [hfield] at hf
    cases hf
  | some field =>
    by_cases hs : e.Shares e' field
    · by_cases hhas : (e'.view h).Has t
      · rw [bit_applyOp_of_shares hfield hs hhas]
        rcases hw with hw | hw
        · rw [hw]
          rfl
        · -- the op writes this field only, which both clones have
          have hnone : op.write t x = none := by
            cases op with
            | filterInsert f value slots | filterRemove f value slots =>
              cases hfield
              refine if_neg ?_
              rintro ⟨rfl, -⟩
              refine hw ?_
              show ((e.view h).filters.getField field).isSome = true
              rw [getField_view, ← hs, ← getField_view]
              exact hhas
            | _ => cases hfield
          rw [hnone]
          rfl
      · have hhas' : ¬(e'.view (e.applyOp h op).1).Has t := by
          cases op with
          | filterInsert f value slots | filterRemove f value slots =>
            cases hfield
            cases t with
            | filter n k =>
              show ¬((e'.view (e.updateField h field _)).filters.getField n).isSome = true
              rw [getField_view_updateField hs, isSome_getField_update]
              exact hhas
            | sort | alive => exact hhas
          | _ => cases hfield
        rw [bit_eq_false hhas', bit_eq_false hhas]
    · refine bit_applyOp_of_not_shares fun field' hf => ?_
      rw [hfield] at hf
      cases hf
      exact hs

/-- **The clone written through** has the written value afterwards, and every other bit as before. -/
theorem bit_applyOp (hhas : (e.view h).Has t) :
    (((e.applyOp h op).2).view (e.applyOp h op).1).bit t x = (op.write t x).getD ((e.view h).bit t x) := by
  cases op with
  | filterInsert field value slots | filterRemove field value slots =>
    exact bit_applyOp_of_shares rfl rfl hhas
  | sortSet field bitLayer slots =>
    cases t with
    | sort n b =>
      have hb : b < e.sorts.numBits n := hhas
      refine decide_set (SortIndex.mem_layer_update_set.trans ?_)
      simp [hb, view, holders, and_assoc, eq_comm]
    | filter | alive => rfl
  | sortClear field bitLayer slots =>
    cases t with
    | sort n b =>
      refine decide_clear (SortIndex.mem_layer_update_clear.trans ?_)
      simp [view, holders, and_assoc, eq_comm]
    | filter | alive => rfl
  | aliveInsert slots =>
    cases t with
    | alive =>
      refine decide_set (VersionedBitmap.mem_fused_insertBulk.trans ?_)
      simp [view, holders, or_comm]
    | filter | sort => rfl
  | aliveRemove slots =>
    cases t with
    | alive =>
      refine decide_clear ?_
      simp only [applyOp, view, holders, SlotAllocator.alive_foldl_aliveRemoveOne,
        VersionedBitmap.mem_fused_removeBulk, true_and]
      exact and_comm
    | filter | sort => rfl
  | deferredAlive | deferredCancel => rfl

/-! ## The steps of a batch -/

/-- Step after step. -/
def applySteps (he : FieldHeap × InnerEngine) (ops : List MutationOp) : FieldHeap × InnerEngine :=
  ops.foldl (fun he op => he.2.applyOp he.1 op) he

theorem has_applySteps {he : FieldHeap × InnerEngine} {ops : List MutationOp} :
    ((applySteps he ops).2.view (applySteps he ops).1).Has t ↔ (he.2.view he.1).Has t := by
  induction ops generalizing he with
  | nil => exact Iff.rfl
  | cons op ops ih => exact ih.trans has_applyOp

/-- Steps leave the last value written. -/
theorem bit_applySteps {he : FieldHeap × InnerEngine} {ops : List MutationOp} (hhas : (he.2.view he.1).Has t) :
    ((applySteps he ops).2.view (applySteps he ops).1).bit t x =
      (bitWrites t x ops).getLast?.getD ((he.2.view he.1).bit t x) := by
  induction ops generalizing he with
  | nil => rfl
  | cons op ops ih =>
    have hrest : applySteps he (op :: ops) = applySteps (he.2.applyOp he.1 op) ops := rfl
    rw [hrest, ih (has_applyOp.mpr hhas), bit_applyOp hhas, bitWrites, bitWrites, filterMap_cons]
    cases op.write t x with
    | none => rfl
    | some v =>
      cases hlast : (ops.filterMap (·.write t x)).getLast? with
      | none =>
        rw [getLast?_eq_none_iff] at hlast
        simp [hlast]
      | some w => simp [getLast?_cons, hlast]

end InnerEngine

namespace WriteBatch

variable (b : WriteBatch)

/-- The steps of `apply`: filter removes and inserts, sort clears and sets, alive inserts and removes, and the
deferred mutations in their order. -/
def steps : List MutationOp :=
  (b.filterRemoves.entries.map fun g => .filterRemove g.1.field g.1.value (iter g.2)) ++
  (b.filterInserts.entries.map fun g => .filterInsert g.1.field g.1.value (iter g.2)) ++
  (b.sortClears.entries.map fun g => .sortClear g.1.field g.1.bitLayer (iter g.2)) ++
  (b.sortSets.entries.map fun g => .sortSet g.1.field g.1.bitLayer (iter g.2)) ++
  [.aliveInsert (iter b.aliveInserts), .aliveRemove (iter b.aliveRemoves)] ++
  b.deferredMuts.map fun m => m.2.elim (.deferredCancel m.1) (.deferredAlive m.1)

variable {b} {t : Target} {x : UInt32} {v : Bool}

theorem write_deferred (m : UInt32 × Option UInt64) :
    (m.2.elim (deferredCancel m.1) (deferredAlive m.1)).write t x = none := by
  obtain ⟨slot, _ | activateAt⟩ := m <;> rfl

/-- The steps write what the groups of the batch hold. -/
theorem mem_bitWrites_steps : v ∈ bitWrites t x b.steps ↔ x ∈ b.group t v := by
  simp only [bitWrites, steps, mem_filterMap, mem_append, mem_map, mem_cons,
    not_mem_nil, or_false, or_and_right, exists_or, exists_exists_and_eq_and, exists_eq_left, write_deferred,
    reduceCtorEq, and_false, exists_const]
  cases t with
  | filter f k | sort f k =>
    cases v <;> simp [write, group, Postings.mem_ids_iff_entries]
    all_goals
      constructor
      · rintro ⟨⟨f', k'⟩, s, hmem, rfl, rfl, hx⟩
        exact ⟨s, hmem, hx⟩
      · rintro ⟨s, hmem, hx⟩
        exact ⟨_, s, hmem, rfl, rfl, hx⟩
  | alive => cases v <;> simp [write, group]

/-- The kind that a batch prefers comes last, so the last write is what the batch settles on. -/
theorem getLast?_bitWrites_steps :
    (bitWrites t x b.steps).getLast? = Settle.settle t.preferred (bitWrites t x b.steps) := by
  refine (Settle.Settling.settle_eq ?_).symm
  have hnil : ∀ {α : Type} (l : List α) (g : α → MutationOp), (∀ a, (g a).write t x = none) →
      bitWrites t x (l.map g) = [] := by
    intro α l g hg
    rw [bitWrites, filterMap_map, filterMap_eq_nil_iff]
    intro a _
    exact hg a
  have hclears : ∀ {α β : Type} {l : List α} {l' : List β} {g : α → MutationOp} {g' : β → MutationOp},
      (∀ a, (g a).write t x ≠ some true) → (∀ a, (g' a).write t x ≠ some false) →
      Settle.Settling true (bitWrites t x (l.map g) ++ bitWrites t x (l'.map g')) := by
    intro α β l l' g g' hg hg'
    simp only [bitWrites, filterMap_map]
    apply Settle.Settling.append_left
    · refine Settle.Settling.of_forall (b := true) fun w hw => ?_
      obtain ⟨a, -, ha⟩ := mem_filterMap.mp hw
      exact Bool.eq_true_of_not_eq_false fun hfalse => hg' a (hfalse ▸ ha)
    · rintro w hw rfl
      obtain ⟨a, -, ha⟩ := mem_filterMap.mp hw
      exact hg a ha
  have halive : t ≠ .alive → bitWrites t x
      [.aliveInsert (iter b.aliveInserts), .aliveRemove (iter b.aliveRemoves)] = [] := by
    intro ht
    simp [bitWrites, write, ht]
  simp only [steps, bitWrites_append]
  rw [hnil b.deferredMuts _ fun m => write_deferred m, append_nil]
  -- the kinds that write no bit of this target drop out; of the other two the preferred one is last
  cases t with
  | filter f k =>
    rw [hnil b.sortClears.entries _ fun _ => by simp [write], hnil b.sortSets.entries _ fun _ => by simp [write],
      halive (by simp), append_nil, append_nil, append_nil]
    exact hclears (by simp [write]) (by simp [write])
  | sort f l =>
    rw [hnil b.filterRemoves.entries _ fun _ => by simp [write],
      hnil b.filterInserts.entries _ fun _ => by simp [write], halive (by simp), append_nil]
    exact hclears (by simp [write]) (by simp [write])
  | alive =>
    rw [hnil b.filterRemoves.entries _ fun _ => by simp [write],
      hnil b.filterInserts.entries _ fun _ => by simp [write], hnil b.sortClears.entries _ fun _ => by simp [write],
      hnil b.sortSets.entries _ fun _ => by simp [write]]
    show Settle.Settling false (bitWrites .alive x _)
    simp only [bitWrites, filterMap_cons, filterMap_nil, write, true_and, mem_iter]
    by_cases hi : x ∈ b.aliveInserts <;> by_cases hr : x ∈ b.aliveRemoves <;>
      simp [hi, hr, Settle.Settling]

end WriteBatch

/-- **The steps of a batch** leave every bit as `apply` does. -/
theorem InnerEngine.bit_applySteps_steps {h : FieldHeap} {e : InnerEngine} {b : WriteBatch} {t : Target} {x : UInt32} :
    ((applySteps (h, e) b.steps).2.view (applySteps (h, e) b.steps).1).bit t x = ((e.view h).applyBatch b).bit t x := by
  by_cases hhas : (e.view h).Has t
  · have hmem := mem_holders_applyBatch (x := x) (b := b) hhas
    rw [bit_applySteps hhas, WriteBatch.getLast?_bitWrites_steps, Settle.settle_eq_ite]
    simp only [WriteBatch.mem_bitWrites_steps]
    unfold bit
    split_ifs at hmem ⊢ with hpref hother
    · simp [hmem]
    · simp [hmem]
    · simp [hmem]
  · rw [bit_eq_false fun hh => hhas (has_applySteps.mp hh), bit_eq_false fun hh => hhas (has_applyBatch.mp hh)]

end Bitdex
