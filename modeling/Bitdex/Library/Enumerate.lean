import Mathlib.Data.Finset.Card
import Mathlib.Data.List.Sort

/-!
# `Library.Enumerate` — finite sets listed in a total order

A finite set and a decidable total order determine one list: the set's elements in that order. It is the vocabulary
for ranked retrieval: a page is a `take` of it, the remainder after a position is a `filter` of it, and a set of best
elements is an initial segment of it.
-/

namespace Enumeration

variable {α : Type*} (le : α → α → Prop) [DecidableRel le] [IsTrans α le] [Std.Antisymm le]
  [Std.Total le]

/-- Two sorted arrangements of the same elements are one list. -/
theorem insertionSort_eq_of_perm {l₁ l₂ : List α} (h : l₁.Perm l₂) : l₁.insertionSort le = l₂.insertionSort le := by
  have hperm : (l₁.insertionSort le).Perm (l₂.insertionSort le) :=
    ((List.perm_insertionSort le l₁).trans h).trans (List.perm_insertionSort le l₂).symm
  exact hperm.eq_of_pairwise' (List.pairwise_insertionSort le l₁) (List.pairwise_insertionSort le l₂)

/-- The elements of `s` in the order `le`. -/
def enumerate (s : Finset α) : List α :=
  Quot.liftOn s.val (fun l => l.insertionSort le) fun _ _ h => insertionSort_eq_of_perm le h

theorem coe_enumerate (s : Finset α) : (enumerate le s : Multiset α) = s.val := by
  obtain ⟨m, hm⟩ := s
  induction m using Quot.inductionOn with
  | h l => exact Multiset.coe_eq_coe.mpr (List.perm_insertionSort le l)

variable {le}

@[simp] theorem mem_enumerate {s : Finset α} {x : α} : x ∈ enumerate le s ↔ x ∈ s := by
  rw [← Multiset.mem_coe, coe_enumerate]
  exact Iff.rfl

theorem nodup_enumerate (s : Finset α) : (enumerate le s).Nodup := by
  rw [← Multiset.coe_nodup, coe_enumerate]
  exact s.nodup

@[simp] theorem length_enumerate (s : Finset α) : (enumerate le s).length = s.card := by
  rw [← Multiset.coe_card, coe_enumerate]
  rfl

theorem pairwise_enumerate (s : Finset α) : (enumerate le s).Pairwise le := by
  obtain ⟨m, hm⟩ := s
  induction m using Quot.inductionOn with
  | h l => exact List.pairwise_insertionSort le l

/-- **Uniqueness.** A list in order, without duplicates, with the elements of `s` is the enumeration
of `s`. -/
theorem eq_enumerate {l : List α} {s : Finset α} (hsorted : l.Pairwise le) (hnodup : l.Nodup)
    (hmem : ∀ x, x ∈ l ↔ x ∈ s) : l = enumerate le s := by
  have hperm : l.Perm (enumerate le s) :=
    (List.perm_ext_iff_of_nodup hnodup (nodup_enumerate s)).mpr fun x => by
      rw [hmem, mem_enumerate]
  exact hperm.eq_of_pairwise' hsorted (pairwise_enumerate s)

theorem enumerate_filter (p : α → Prop) [DecidablePred p] (s : Finset α) :
    enumerate le (s.filter p) = (enumerate le s).filter p := by
  refine (eq_enumerate ((pairwise_enumerate s).filter _) ((nodup_enumerate s).filter _) ?_).symm
  intro x
  simp

@[simp] theorem enumerate_empty : enumerate le (∅ : Finset α) = [] :=
  List.eq_nil_iff_forall_not_mem.mpr fun x hx => by simp at hx

@[simp] theorem enumerate_eq_nil_iff {s : Finset α} : enumerate le s = [] ↔ s = ∅ := by
  rw [← List.length_eq_zero_iff, length_enumerate, Finset.card_eq_zero]

/-- Only the order among the members matters. -/
theorem enumerate_congr {le' : α → α → Prop} [DecidableRel le'] [IsTrans α le'] [Std.Antisymm le']
    [Std.Total le'] {s : Finset α} (h : ∀ a ∈ s, ∀ b ∈ s, le a b ↔ le' a b) : enumerate le s = enumerate le' s := by
  apply eq_enumerate
  · refine (pairwise_enumerate s).imp_of_mem fun ha hb hab => ?_
    exact (h _ (mem_enumerate.mp ha) _ (mem_enumerate.mp hb)).mp hab
  · exact nodup_enumerate s
  · intro x
    exact mem_enumerate

/-! ## Sets that come before others -/

variable (le) in
/-- Every element of `s` comes strictly before every element of `t`. -/
def Before (s t : Finset α) : Prop := ∀ a ∈ s, ∀ b ∈ t, le a b ∧ a ≠ b

section DecEq

variable [DecidableEq α] {s t : Finset α} {k : ℕ}

/-- The enumeration of a union of two separated sets is the one followed by the other. -/
theorem enumerate_union_of_before (h : Before le s t) : enumerate le (s ∪ t) = enumerate le s ++ enumerate le t := by
  symm
  apply eq_enumerate
  · rw [List.pairwise_append]
    refine ⟨pairwise_enumerate s, pairwise_enumerate t, ?_⟩
    intro a ha b hb
    exact (h a (mem_enumerate.mp ha) b (mem_enumerate.mp hb)).1
  · rw [List.nodup_append]
    refine ⟨nodup_enumerate s, nodup_enumerate t, ?_⟩
    intro a ha b hb
    exact (h a (mem_enumerate.mp ha) b (mem_enumerate.mp hb)).2
  · intro x
    simp

theorem enumerate_of_before_sdiff (hts : t ⊆ s) (h : Before le t (s \ t)) :
    enumerate le s = enumerate le t ++ enumerate le (s \ t) := by
  rw [← enumerate_union_of_before h, Finset.union_sdiff_of_subset hts]

/-- The first `k` elements of `s` lie in a leading part that has at least `k`. -/
theorem take_enumerate_of_before (hts : t ⊆ s) (h : Before le t (s \ t)) (hk : k ≤ t.card) :
    (enumerate le s).take k = (enumerate le t).take k := by
  rw [enumerate_of_before_sdiff hts h, List.take_append_of_le_length]
  rwa [length_enumerate]

/-- Past a leading part with at most `k` elements, `k` minus its size remain to be taken. -/
theorem take_enumerate_of_before_card_le (hts : t ⊆ s) (h : Before le t (s \ t)) (hk : t.card ≤ k) :
    (enumerate le s).take k = enumerate le t ++ (enumerate le (s \ t)).take (k - t.card) := by
  rw [enumerate_of_before_sdiff hts h, List.take_append, List.take_of_length_le, length_enumerate]
  rwa [length_enumerate]

/-! ## Initial segments -/

variable (le) in
/-- `t` consists of first elements of `s`. -/
structure Initial (t s : Finset α) : Prop where
  subset : t ⊆ s
  before : Before le t (s \ t)

/-- A set of first elements is a prefix of the enumeration. -/
theorem Initial.enumerate_isInit (h : Initial le t s) : enumerate le t <+: enumerate le s :=
  ⟨enumerate le (s \ t), (enumerate_of_before_sdiff h.subset h.before).symm⟩

theorem Initial.enumerate_eq_take (h : Initial le t s) : enumerate le t = (enumerate le s).take t.card := by
  have htake := List.prefix_iff_eq_take.mp h.enumerate_isInit
  rwa [length_enumerate] at htake

omit [DecidableRel le] [IsTrans α le] in
/-- Being initial says that whatever comes no later than a member is a member. -/
theorem initial_iff : Initial le t s ↔ t ⊆ s ∧ ∀ a ∈ t, ∀ b ∈ s, le b a → b ∈ t := by
  constructor
  · intro h
    refine ⟨h.subset, fun a ha b hb hle => ?_⟩
    by_contra hbt
    have hab := h.before a ha b (Finset.mem_sdiff.mpr ⟨hb, hbt⟩)
    exact hab.2 (antisymm_of le hab.1 hle)
  · rintro ⟨hsub, hdown⟩
    refine ⟨hsub, fun a ha b hb => ?_⟩
    obtain ⟨hbs, hbt⟩ := Finset.mem_sdiff.mp hb
    have hnle : ¬ le b a := fun hle => hbt (hdown a ha b hbs hle)
    refine ⟨(total_of le a b).resolve_right hnle, ?_⟩
    rintro rfl
    exact hbt ha

/-- Listing the first `n` elements again gives them back in the same order. -/
theorem enumerate_toFinset_take (s : Finset α) (n : ℕ) :
    enumerate le ((enumerate le s).take n).toFinset = (enumerate le s).take n := by
  symm
  apply eq_enumerate
  · exact (pairwise_enumerate s).sublist (List.take_sublist n _)
  · exact (nodup_enumerate s).sublist (List.take_sublist n _)
  · intro x
    rw [List.mem_toFinset]

/-- The first `n` elements, as a set, are initial. -/
theorem initial_take (s : Finset α) (n : ℕ) : Initial le ((enumerate le s).take n).toFinset s := by
  rw [initial_iff]
  constructor
  · intro x hx
    exact mem_enumerate.mp (List.mem_of_mem_take (List.mem_toFinset.mp hx))
  · intro a ha b hb hle
    have hsplit : enumerate le s = (enumerate le s).take n ++ (enumerate le s).drop n :=
      (List.take_append_drop n _).symm
    rw [List.mem_toFinset] at ha ⊢
    have hb' : b ∈ (enumerate le s).take n ++ (enumerate le s).drop n := by
      rw [← hsplit]
      exact mem_enumerate.mpr hb
    rcases List.mem_append.mp hb' with hbt | hbd
    · exact hbt
    · -- `a` precedes everything dropped, so `b` would be `a` itself
      have hpw : (enumerate le s).Pairwise le := pairwise_enumerate s
      rw [hsplit, List.pairwise_append] at hpw
      have hab : a = b := antisymm_of le (hpw.2.2 a ha b hbd) hle
      exact hab ▸ ha

/-- A set whose enumeration starts that of another is an initial segment of it. -/
theorem initial_of_enumerate (h : enumerate le t <+: enumerate le s) : Initial le t s := by
  have ht : t = ((enumerate le s).take (enumerate le t).length).toFinset := by
    rw [← List.prefix_iff_eq_take.mp h]
    ext x
    rw [List.mem_toFinset, mem_enumerate]
  rw [ht]
  exact initial_take s _

/-- **Rank.** An element is among the first `n` if no more than `n` come no later than it. -/
theorem mem_take_enumerate_iff {n : ℕ} {x : α} :
    x ∈ (enumerate le s).take n ↔ x ∈ s ∧ (s.filter fun y => le y x).card ≤ n := by
  constructor
  · intro hx
    refine ⟨mem_enumerate.mp (List.mem_of_mem_take hx), ?_⟩
    have hinit : Initial le ((enumerate le s).take n).toFinset s := initial_take s n
    have hsub : (s.filter fun y => le y x) ⊆ ((enumerate le s).take n).toFinset := by
      intro y hy
      obtain ⟨hys, hyx⟩ := Finset.mem_filter.mp hy
      exact (initial_iff.mp hinit).2 x (List.mem_toFinset.mpr hx) y hys hyx
    calc (s.filter fun y => le y x).card
        ≤ ((enumerate le s).take n).toFinset.card := Finset.card_le_card hsub
      _ ≤ ((enumerate le s).take n).length := List.toFinset_card_le _
      _ ≤ n := List.length_take_le _ _
  · rintro ⟨hx, hcard⟩
    have hinit : Initial le (s.filter fun y => le y x) s := by
      rw [initial_iff]
      refine ⟨Finset.filter_subset _ _, fun a ha b hb hba => ?_⟩
      exact Finset.mem_filter.mpr ⟨hb, trans_of le hba (Finset.mem_filter.mp ha).2⟩
    have hself : x ∈ enumerate le (s.filter fun y => le y x) :=
      mem_enumerate.mpr (Finset.mem_filter.mpr ⟨hx, (total_of le x x).elim id id⟩)
    rw [hinit.enumerate_eq_take] at hself
    exact (List.take_subset_take_left _ hcard) hself

end DecEq

end Enumeration
