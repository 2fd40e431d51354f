import Mathlib.Data.List.Dedup
import Mathlib.Data.List.Induction

/-!
# `Library.LastWrite` — which of several writes to a cell lasts

Writers run in the order of a list. Each writes a value to a cell or leaves it alone, so the cell ends with the
last value written (`last`).
-/

namespace LastWrite

variable {α β : Type*} {write : α → Option β} {l l' : List α} {a b : α} {v : β}

/-- The value that a list of writers leaves in a cell, if one of them writes it. -/
def last (write : α → Option β) (l : List α) : Option β := (l.filterMap write).getLast?

theorem last_append : last write (l ++ l') = (last write l').or (last write l) := by
  rw [last, List.filterMap_append, List.getLast?_append]
  rfl

theorem last_concat : last write (l ++ [a]) = (write a).or (last write l) := by
  cases h : write a <;> simp [last, h]

theorem last_cons : last write (a :: l) = (last write l).or (write a) := by
  rw [← List.singleton_append, last_append]
  cases h : write a <;> simp [last, h]

theorem last_eq_none_iff : last write l = none ↔ ∀ a ∈ l, write a = none := by
  rw [last, List.getLast?_eq_none_iff, List.filterMap_eq_nil_iff]

theorem mem_of_last_eq_some (h : last write l = some v) : ∃ a ∈ l, write a = some v :=
  List.mem_filterMap.mp (List.mem_of_getLast? h)

/-- Writers that agree leave the value they agree on. -/
theorem last_eq_some_of_agree (ha : a ∈ l) (hwrite : write a = some v)
    (hagree : ∀ b ∈ l, ∀ w, write b = some w → w = v) : last write l = some v := by
  cases h : last write l with
  | none => rw [last_eq_none_iff.mp h a ha] at hwrite; cases hwrite
  | some w =>
    obtain ⟨b, hb, hw⟩ := mem_of_last_eq_some h
    rw [hagree b hb w hw]

/-! ## Steps in any order -/

variable {f : β → α → β} {P : α → Prop}

/-- Steps that can trade places and are absorbed when they are repeated. -/
structure Absorbed (f : β → α → β) (P : α → Prop) : Prop where
  comm : ∀ a b, P a → P b → ∀ s, f (f s a) b = f (f s b) a
  idem : ∀ a, P a → ∀ s, f (f s a) a = f s a

theorem Absorbed.foldl_dedup [DecidableEq α] (h : Absorbed f P) (hl : ∀ a ∈ l, P a) (s : β) :
    l.dedup.foldl f s = l.foldl f s := by
  induction l generalizing s with
  | nil => rfl
  | cons a l ih =>
    obtain ⟨hP, hl⟩ := List.forall_mem_cons.mp hl
    by_cases ha : a ∈ l
    · -- the other `a` is moved to the front
      have hfront := fun s => (List.perm_cons_erase ha).foldl_eq' (fun b hb c hc => h.comm b c (hl b hb) (hl c hc)) s
      rw [List.dedup_cons_of_mem ha, ih hl, List.foldl_cons, hfront, hfront, List.foldl_cons, List.foldl_cons,
        h.idem a hP]
    · rw [List.dedup_cons_of_notMem ha]
      exact ih hl (f s a)

/-- **The same steps in any order and with any repetition** lead to the same state. -/
theorem Absorbed.foldl_eq (h : Absorbed f P) (hl : ∀ a ∈ l, P a) (hmem : ∀ a, a ∈ l ↔ a ∈ l') (s : β) :
    l.foldl f s = l'.foldl f s := by
  classical
  have hperm : l.dedup.Perm l'.dedup := by
    rw [List.perm_ext_iff_of_nodup l.nodup_dedup l'.nodup_dedup]
    simpa using hmem
  rw [← h.foldl_dedup hl, ← h.foldl_dedup fun a ha => hl a ((hmem a).mpr ha)]
  refine hperm.foldl_eq' (fun a ha b hb => ?_) s
  exact h.comm a b (hl a (List.mem_dedup.mp ha)) (hl b (List.mem_dedup.mp hb))

/-! ## Last occurrences -/

variable [DecidableEq α]

theorem dedup_concat [BEq α] [LawfulBEq α] (l : List α) (a : α) : (l ++ [a]).dedup = l.dedup.erase a ++ [a] := by
  induction l with
  | nil => simp
  | cons x l ih =>
    rw [List.cons_append]
    by_cases hxl : x ∈ l
    · rw [List.dedup_cons_of_mem (List.mem_append_left _ hxl), List.dedup_cons_of_mem hxl, ih]
    · rw [List.dedup_cons_of_notMem hxl]
      by_cases hxa : x = a
      · subst hxa
        have hx : x ∉ l.dedup := by rwa [List.mem_dedup]
        rw [List.dedup_cons_of_mem (by simp), ih, List.erase_of_not_mem hx, List.erase_cons_head]
      · rw [List.dedup_cons_of_notMem (by simp [hxl, hxa]), ih, List.erase_cons_tail (by simpa using hxa)]
        rfl

end LastWrite
