import Mathlib.Data.List.Induction

/-!
# `Library.Settle` — batched writes to one bit

A bit is written by a stream of set and clear operations that is cut into batches. Inside a batch the order is lost:
one of the two values is preferred and wins if the batch writes it at all. So a run is decided by its last batch that
writes the bit (`run_eq`).

A stream that never leaves the preferred value once it has written it can be cut anywhere: each batch settles on its
last write (`Settling.settle_eq`), and flushing a first part changes nothing for the rest (`Settling.flush`).
-/

namespace Settle

/-- What one batch leaves in the bit: the preferred value if written, otherwise the other if anything is. -/
def settle (preferred : Bool) (writes : List Bool) : Option Bool :=
  if preferred ∈ writes then some preferred
  else if writes = [] then none else some (!preferred)

/-- The bit after some batches. -/
def run (preferred bit : Bool) (batches : List (List Bool)) : Bool :=
  batches.foldl (fun b writes => (settle preferred writes).getD b) bit

/-- What the last batch that writes the bit leaves in it. -/
def outcome (preferred : Bool) (batches : List (List Bool)) : Option Bool :=
  (batches.filterMap (settle preferred)).getLast?

variable {preferred bit : Bool} {writes us vs : List Bool}

@[simp] theorem settle_eq_none_iff : settle preferred writes = none ↔ writes = [] := by
  unfold settle
  split
  · next h =>
    refine iff_of_false (by simp) ?_
    rintro rfl
    cases h
  · split
    · next h => exact iff_of_true rfl h
    · next h => exact iff_of_false (by simp) h

theorem settle_eq_ite (writes : List Bool) : settle preferred writes = if preferred ∈ writes then some preferred
      else if (!preferred) ∈ writes then some (!preferred) else none := by
  unfold settle
  split
  · rfl
  · next h =>
    cases writes with
    | nil => rfl
    | cons w ws =>
      have hw : w = !preferred := by
        cases preferred <;> cases w <;> simp_all
      simp [hw]

/-- A bit that prefers being set ends set if some write sets it, or if none clears it and it was set. -/
theorem getD_settle_true_iff :
    (settle true writes).getD bit = true ↔ true ∈ writes ∨ (false ∉ writes ∧ bit = true) := by
  rw [settle_eq_ite]
  by_cases ht : true ∈ writes <;> by_cases hf : false ∈ writes <;> simp [ht, hf]

/-- A bit that prefers being clear ends clear if some write clears it, or if none sets it and it was clear. -/
theorem getD_settle_false_iff :
    (settle false writes).getD bit = false ↔ false ∈ writes ∨ (true ∉ writes ∧ bit = false) := by
  rw [settle_eq_ite]
  by_cases ht : true ∈ writes <;> by_cases hf : false ∈ writes <;> simp [ht, hf]

/-- Only which values are written counts. -/
theorem settle_congr (h : ∀ v, v ∈ us ↔ v ∈ vs) : settle preferred us = settle preferred vs := by
  rw [settle_eq_ite, settle_eq_ite]
  simp [h]

/-- A batch ends on the last of some writes if that is the preferred value, or nothing writes that. -/
theorem getD_settle_append_eq_last_iff {v : Bool} (h : vs.getLast? = some v) :
    (settle preferred (us ++ vs)).getD bit = v ↔ v = preferred ∨ (preferred ∉ us ∧ preferred ∉ vs) := by
  have hv : v ∈ us ++ vs := List.mem_append_right us (List.mem_of_getLast? h)
  rw [settle_eq_ite, ← not_or, ← List.mem_append]
  by_cases hpref : preferred ∈ us ++ vs
  · simp [hpref, eq_comm]
  · have hne : v = !preferred := by
      cases preferred <;> cases v <;> simp_all
    rw [if_neg hpref, if_pos (hne ▸ hv)]
    exact iff_of_true hne.symm (.inr hpref)

/-- A single write settles on its value. -/
@[simp] theorem settle_singleton (b : Bool) : settle preferred [b] = some b := by
  cases preferred <;> cases b <;> rfl

/-- **The last batch that writes decides.** -/
theorem run_eq (batches : List (List Bool)) : run preferred bit batches = (outcome preferred batches).getD bit := by
  induction batches using List.reverseRecOn with
  | nil => rfl
  | append_singleton batches writes ih =>
    have hrun : run preferred bit (batches ++ [writes]) =
        (settle preferred writes).getD (run preferred bit batches) := by
      simp [run, List.foldl_append]
    rw [hrun, ih]
    unfold outcome
    cases h : settle preferred writes with
    | none | some b => simp [List.filterMap_append, h]

theorem outcome_eq_none_iff (preferred : Bool) {batches : List (List Bool)} :
    outcome preferred batches = none ↔ batches.flatten = [] := by
  unfold outcome
  simp

/-- **Two cuts of one stream** leave the same bit exactly when their outcomes agree. -/
theorem run_eq_run_iff {cut cut' : List (List Bool)} (h : cut.flatten = cut'.flatten) :
    run preferred bit cut = run preferred bit cut' ↔ outcome preferred cut = outcome preferred cut' := by
  rw [run_eq, run_eq]
  constructor
  · intro hbit
    cases hcut : outcome preferred cut with
    | none =>
      rw [outcome_eq_none_iff, h, ← outcome_eq_none_iff preferred] at hcut
      exact hcut.symm
    | some b =>
      cases hcut' : outcome preferred cut' with
      | none =>
        rw [outcome_eq_none_iff, ← h, ← outcome_eq_none_iff preferred, hcut] at hcut'
        cases hcut'
      | some b' =>
        rw [hcut, hcut'] at hbit
        exact congrArg some hbit
  · intro hout
    rw [hout]

/-! ## Streams that can be cut anywhere -/

/-- After the preferred value nothing else is written. -/
def Settling (preferred : Bool) (writes : List Bool) : Prop := writes.Pairwise fun a b => a = preferred → b = preferred

theorem Settling.nil : Settling preferred [] := List.Pairwise.nil

theorem Settling.singleton (b : Bool) : Settling preferred [b] := List.pairwise_singleton _ b

theorem Settling.of_length_le_one (h : writes.length ≤ 1) : Settling preferred writes := by
  match writes, h with
  | [], _ => exact .nil
  | [b], _ => exact .singleton b

/-- Writes of the other value may come before a settling stream. -/
theorem Settling.append_left (hvs : Settling preferred vs)
    (hus : ∀ b ∈ us, b ≠ preferred) : Settling preferred (us ++ vs) := by
  refine List.pairwise_append.mpr ⟨?_, hvs, fun a ha _ _ h => absurd h (hus a ha)⟩
  exact List.pairwise_of_forall_mem_list fun a ha _ _ h => absurd h (hus a ha)

/-- A stream that writes one value only is settling. -/
theorem Settling.of_forall {vs : List Bool} {b : Bool} (h : ∀ v ∈ vs, v = b) : Settling preferred vs :=
  List.pairwise_of_forall_mem_list fun _ hu _ hv hpref => (h _ hv).trans ((h _ hu).symm.trans hpref)

/-- A settling batch settles on its last write. -/
theorem Settling.settle_eq (h : Settling preferred writes) : settle preferred writes = writes.getLast? := by
  induction writes using List.reverseRecOn with
  | nil => simp
  | append_singleton writes w _ =>
    rw [settle_eq_ite]
    by_cases hw : w = preferred
    · simp [hw]
    · have hbefore : preferred ∉ writes := fun hmem =>
        hw ((List.pairwise_append.mp h).2.2 preferred hmem w List.mem_cons_self rfl)
      have hnot : w = !preferred := by
        cases preferred <;> cases w <;> simp_all
      simp [hbefore, hnot]

/-- **Flushing a first part** leaves the last write of the whole stream pending. -/
theorem Settling.flush (h : Settling preferred (us ++ vs)) :
    vs.getLast?.getD ((settle preferred us).getD bit) = (us ++ vs).getLast?.getD bit := by
  cases vs using List.reverseRecOn with
  | nil =>
    rw [List.append_nil] at h ⊢
    rw [h.settle_eq]
    rfl
  | append_singleton vs v _ => simp [← List.append_assoc]

theorem Settling.of_append_right (h : Settling preferred (us ++ vs)) : Settling preferred vs :=
  (List.pairwise_append.mp h).2.1

end Settle
