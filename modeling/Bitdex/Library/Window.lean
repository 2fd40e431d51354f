import Mathlib.Data.List.Nodup
import Bitdex.Library.Enumerate

/-!
# `Library.Window` — initial segments, cut points and windows

A cut point of an order is an up-closed predicate: what comes after an element past the cut is past it too. The first
`n` elements past a cut are a *window*. A window that leaves no gap extends an initial segment
(`Initial.union_window`), completes it when it is short (`window_complete`), and ends it when it reaches far enough
(`getLast?_union_window`).
-/

namespace Enumeration

variable {α : Type*} {le : α → α → Prop}

/-- What comes after an element past the cut is past the cut. -/
def UpClosed (le : α → α → Prop) (p : α → Prop) : Prop := ∀ ⦃a b⦄, le a b → p a → p b

variable [DecidableRel le] [IsTrans α le] [Std.Antisymm le] [Std.Total le]

/-- **The last element** is the one no member comes after. -/
theorem getLast?_enumerate_iff {s : Finset α} {m : α} :
    (enumerate le s).getLast? = some m ↔ m ∈ s ∧ ∀ x ∈ s, le x m := by
  have hle : ∀ {init : List α} {l : α}, enumerate le s = init ++ [l] → ∀ x ∈ s, le x l := by
    intro init l hinit x hx
    have hsorted : (enumerate le s).Pairwise le := pairwise_enumerate s
    have hx' : x ∈ enumerate le s := mem_enumerate.mpr hx
    rw [hinit] at hsorted hx'
    rcases List.mem_append.mp hx' with hin | hin
    · exact (List.pairwise_append.mp hsorted).2.2 x hin l (List.mem_singleton.mpr rfl)
    · rw [List.mem_singleton.mp hin]
      exact (total_of le l l).elim id id
  constructor
  · intro h
    obtain ⟨init, hinit⟩ := List.getLast?_eq_some_iff.mp h
    exact ⟨mem_enumerate.mp (List.mem_of_getLast? h), hle hinit⟩
  · rintro ⟨hm, hmax⟩
    have hne : enumerate le s ≠ [] := List.ne_nil_of_mem (mem_enumerate.mpr hm)
    obtain ⟨init, l, hinit⟩ : ∃ init l, enumerate le s = init ++ [l] := ⟨_, _, (List.dropLast_append_getLast hne).symm⟩
    have hl : l ∈ enumerate le s := by
      rw [hinit]
      simp
    rw [hinit, List.getLast?_concat, antisymm_of le (hmax l (mem_enumerate.mp hl)) (hle hinit m hm)]

variable [DecidableEq α] {p : α → Prop} [DecidablePred p] {t s : Finset α} {n : ℕ}

omit [DecidableRel le] [IsTrans α le] [Std.Antisymm le] [DecidableEq α] in
/-- What is not past a cut comes before what is. -/
theorem before_filter (hp : UpClosed le p) (s : Finset α) : Before le (s.filter fun x => ¬ p x) (s.filter p) := by
  intro a ha b hb
  have hna := (Finset.mem_filter.mp ha).2
  have hpb := (Finset.mem_filter.mp hb).2
  refine ⟨(total_of le a b).resolve_right fun hba => hna (hp hba hpb), ?_⟩
  rintro rfl
  exact hna hpb

/-- The enumeration is what is before the cut followed by what is past it. -/
theorem enumerate_split (hp : UpClosed le p) (s : Finset α) :
    enumerate le s = enumerate le (s.filter fun x => ¬ p x) ++ enumerate le (s.filter p) := by
  rw [← enumerate_union_of_before (before_filter hp s), Finset.union_comm, Finset.filter_union_filter_not_eq]

/-- A cut leaves the first elements as they are if it cuts off nothing, or if none are taken. -/
theorem take_enumerate_filter_eq_iff (hp : UpClosed le p) :
    (enumerate le s).take n = (enumerate le (s.filter p)).take n ↔ n = 0 ∨ ∀ x ∈ s, p x := by
  constructor
  · intro h
    refine n.eq_zero_or_pos.imp_right fun hn x hx => ?_
    by_contra hnp
    have hx' : x ∈ enumerate le (s.filter fun x => ¬ p x) := mem_enumerate.mpr (Finset.mem_filter.mpr ⟨hx, hnp⟩)
    rw [enumerate_split hp s] at h
    -- the first element of what is cut off is taken, and so has to be past the cut
    cases hout : enumerate le (s.filter fun x => ¬ p x) with
    | nil => simp [hout] at hx'
    | cons y l =>
      have hy : y ∈ (enumerate le (s.filter p)).take n := by
        rw [← h, hout, List.cons_append, List.take_cons hn]
        exact List.mem_cons_self
      have hyout : y ∈ enumerate le (s.filter fun x => ¬ p x) := by
        rw [hout]
        exact List.mem_cons_self
      apply (Finset.mem_filter.mp (mem_enumerate.mp hyout)).2
      exact (Finset.mem_filter.mp (mem_enumerate.mp (List.mem_of_mem_take hy))).2
  · rintro (rfl | hall)
    · simp
    · rw [Finset.filter_true_of_mem hall]

/-- What comes after the last of the first `n` elements is the rest of the enumeration. -/
theorem enumerate_filter_eq_drop {m : α} (hm : ((enumerate le s).take n).getLast? = some m) :
    enumerate le (s.filter fun x => ¬ le x m) = (enumerate le s).drop n := by
  have hlast : ∀ x ∈ (enumerate le s).take n, le x m := by
    intro x hx
    rw [← enumerate_toFinset_take] at hm
    exact (getLast?_enumerate_iff.mp hm).2 x (List.mem_toFinset.mpr hx)
  have hrest : ∀ x ∈ (enumerate le s).drop n, ¬ le x m := by
    intro x hx hle
    have hmt := List.mem_of_getLast? hm
    have hsorted : (enumerate le s).Pairwise le := pairwise_enumerate s
    have hnodup : (enumerate le s).Nodup := nodup_enumerate s
    rw [← List.take_append_drop n (enumerate le s)] at hsorted hnodup
    have hmx := (List.pairwise_append.mp hsorted).2.2 m hmt x hx
    rw [antisymm_of le hmx hle] at hmt
    exact (List.nodup_append.mp hnodup).2.2 x hmt x hx rfl
  rw [enumerate_filter, ← List.take_append_drop n (enumerate le s), List.filter_append,
    List.filter_eq_nil_iff.mpr (by simpa using hlast), List.filter_eq_self.mpr (by simpa using hrest),
    List.nil_append, List.take_append_drop]

omit [DecidableEq α] in
/-- The enumeration of a union of parts, each before the next ones, lists the parts in turn. -/
theorem enumerate_flatten {parts : List (Finset α)} (h : parts.Pairwise (Before le))
    (hs : ∀ x, x ∈ s ↔ ∃ t ∈ parts, x ∈ t) : enumerate le s = (parts.map (enumerate le)).flatten := by
  -- what holds between the elements of a part and from each part to the next ones
  have hpairs : ∀ R : α → α → Prop, (∀ t, (enumerate le t).Pairwise R) → (∀ a b, le a b ∧ a ≠ b → R a b) →
      (parts.map (enumerate le)).flatten.Pairwise R := by
    intro R hpart hbetween
    rw [List.pairwise_flatten]
    constructor
    · intro l hl
      obtain ⟨t, -, rfl⟩ := List.mem_map.mp hl
      exact hpart t
    · refine List.pairwise_map.mpr (h.imp fun hbefore a ha b hb => ?_)
      exact hbetween a b (hbefore a (mem_enumerate.mp ha) b (mem_enumerate.mp hb))
  symm
  apply eq_enumerate
  · exact hpairs le pairwise_enumerate fun _ _ hab => hab.1
  · exact hpairs (· ≠ ·) nodup_enumerate fun _ _ hab => hab.2
  · intro x
    rw [hs, List.mem_flatten]
    constructor
    · rintro ⟨l, hl, hx⟩
      obtain ⟨t, ht, rfl⟩ := List.mem_map.mp hl
      exact ⟨t, ht, mem_enumerate.mp hx⟩
    · rintro ⟨t, ht, hx⟩
      exact ⟨enumerate le t, List.mem_map_of_mem ht, mem_enumerate.mpr hx⟩

/-! ## Initial segments -/

omit [DecidableRel le] [IsTrans α le] in
theorem Initial.filter (h : Initial le t s) (p : α → Prop) [DecidablePred p] :
    Initial le (t.filter p) (s.filter p) := by
  obtain ⟨hsub, hdown⟩ := initial_iff.mp h
  refine initial_iff.mpr ⟨Finset.filter_subset_filter p hsub, ?_⟩
  intro a ha b hb hle
  rw [Finset.mem_filter] at ha hb ⊢
  exact ⟨hdown a ha.1 b hb.1 hle, hb.2⟩

/-- Of two initial segments the smaller one is part of the larger. -/
theorem Initial.subset_of_card_le {u : Finset α} (ht : Initial le t s) (hu : Initial le u s)
    (hcard : t.card ≤ u.card) : t ⊆ u := by
  intro x hx
  have hxt : x ∈ enumerate le t := mem_enumerate.mpr hx
  have hxu : x ∈ enumerate le u := by
    rw [ht.enumerate_eq_take] at hxt
    rw [hu.enumerate_eq_take]
    exact List.take_subset_take_left _ hcard hxt
  exact mem_enumerate.mp hxu

section Window

/-- The first `n` elements of `s` past the cut. -/
def window (le : α → α → Prop) [DecidableRel le] [IsTrans α le] [Std.Antisymm le] [Std.Total le]
    (p : α → Prop) [DecidablePred p] (s : Finset α) (n : ℕ) : List α :=
  (enumerate le (s.filter p)).take n

/-- **A window without a gap.** If everything before the cut is in an initial segment, the window extends it to one.
-/
theorem Initial.union_window (h : Initial le t s) (hgap : ∀ x ∈ s, ¬ p x → x ∈ t) :
    Initial le (t ∪ (window le p s n).toFinset) s := by
  obtain ⟨hsub, hdown⟩ := initial_iff.mp h
  have hwindow : Initial le (window le p s n).toFinset (s.filter p) := initial_take (s.filter p) n
  obtain ⟨hwsub, hwdown⟩ := initial_iff.mp hwindow
  refine initial_iff.mpr ⟨?_, ?_⟩
  · exact Finset.union_subset hsub (hwsub.trans (Finset.filter_subset p s))
  · intro a ha b hb hle
    rw [Finset.mem_union] at ha ⊢
    rcases ha with hat | haw
    · exact .inl (hdown a hat b hb hle)
    · by_cases hpb : p b
      · exact .inr (hwdown a haw b (Finset.mem_filter.mpr ⟨hb, hpb⟩) hle)
      · exact .inl (hgap b hb hpb)

/-- A window shorter than asked for leaves nothing out. -/
theorem window_complete (hsub : t ⊆ s) (hgap : ∀ x ∈ s, ¬ p x → x ∈ t)
    (hshort : (window le p s n).length < n) : t ∪ (window le p s n).toFinset = s := by
  have hall : window le p s n = enumerate le (s.filter p) := by
    refine List.take_of_length_le ?_
    rw [window, List.length_take] at hshort
    omega
  rw [hall]
  ext x
  rw [Finset.mem_union, List.mem_toFinset, mem_enumerate, Finset.mem_filter]
  constructor
  · rintro (hx | hx)
    · exact hsub hx
    · exact hx.1
  · intro hx
    by_cases hpx : p x
    · exact .inr ⟨hx, hpx⟩
    · exact .inl (hgap x hx hpx)

/-- What a segment has past the cut lies in the window, if it is not longer than the window may be. -/
theorem Initial.filter_subset_window (h : Initial le t s) (hreach : (t.filter p).card ≤ n) :
    t.filter p ⊆ (window le p s n).toFinset := by
  refine (h.filter p).subset_of_card_le (initial_take (s.filter p) n) ?_
  have hcard : (window le p s n).toFinset.card = min n (s.filter p).card := by
    rw [List.toFinset_card_of_nodup, window, List.length_take, length_enumerate]
    exact (nodup_enumerate _).sublist (List.take_sublist n _)
  exact hcard ▸ Nat.le_min.mpr
    ⟨hreach, Finset.card_le_card (Finset.filter_subset_filter p h.subset)⟩

/-- **The end of an extended segment.** If the segment has no more elements past the cut than the window may have, the
window's last is the last of both. -/
theorem getLast?_union_window (hp : UpClosed le p) (h : Initial le t s)
    (hreach : (t.filter p).card ≤ n) {m : α} (hm : (window le p s n).getLast? = some m) :
    (enumerate le (t ∪ (window le p s n).toFinset)).getLast? = some m := by
  have hinit : Initial le (window le p s n).toFinset (s.filter p) := initial_take (s.filter p) n
  have hmw : m ∈ (window le p s n).toFinset := List.mem_toFinset.mpr (List.mem_of_getLast? hm)
  have hlast : ∀ x ∈ (window le p s n).toFinset, le x m := by
    rw [window, ← enumerate_toFinset_take] at hm
    exact (getLast?_enumerate_iff.mp hm).2
  refine getLast?_enumerate_iff.mpr ⟨Finset.mem_union_right t hmw, fun x hx => ?_⟩
  rcases Finset.mem_union.mp hx with hxt | hxw
  · by_cases hpx : p x
    · exact hlast x (h.filter_subset_window hreach (Finset.mem_filter.mpr ⟨hxt, hpx⟩))
    · have hpm : p m := (Finset.mem_filter.mp (hinit.subset hmw)).2
      exact (total_of le x m).resolve_right fun hmx => hpx (hp hmx hpm)
  · exact hlast x hxw

/-- The first elements of a set added to an initial segment: the longer of the two remains. -/
theorem Initial.enumerate_union_take (h : Initial le t s) :
    enumerate le (t ∪ ((enumerate le s).take n).toFinset) = (enumerate le s).take (max t.card n) := by
  have hunion : t ∪ ((enumerate le s).take n).toFinset = ((enumerate le s).take (max t.card n)).toFinset := by
    ext x
    have hmem : x ∈ t ↔ x ∈ (enumerate le s).take t.card := by
      rw [← h.enumerate_eq_take, mem_enumerate]
    rw [Finset.mem_union, List.mem_toFinset, List.mem_toFinset, hmem]
    rcases Nat.le_total t.card n with hle | hle
    · rw [Nat.max_eq_right hle]
      exact or_iff_right_of_imp fun hx => List.take_subset_take_left _ hle hx
    · rw [Nat.max_eq_left hle]
      exact or_iff_left_of_imp fun hx => List.take_subset_take_left _ hle hx
  rw [hunion, enumerate_toFinset_take]

end Window

end Enumeration

/-! ## Cuts of a list -/

namespace List

variable {α : Type*} {xs : List α} {m k l : ℕ}

/-- What the first `m` elements have from position `k` on is the cut of `l` there, if they reach the end of the cut or
list, or nothing is at `k`. -/
theorem drop_take_eq_cut_iff (hm : m ≤ k + l) (hl : 0 < l) :
    (xs.take m).drop k = (xs.drop k).take l ↔ min (k + l) xs.length ≤ m ∨ xs.length ≤ k := by
  rw [List.drop_take, List.take_eq_take_iff, List.length_drop]
  omega

/-- The first `m` elements are the cut of `l` elements at position `k` only if that is the beginning. -/
theorem take_eq_cut_iff (hnodup : xs.Nodup) (hm : 0 < m) (hml : m ≤ k + l) :
    xs.take m = (xs.drop k).take l ↔ xs = [] ∨ (k = 0 ∧ min l xs.length ≤ m) := by
  cases xs with
  | nil => simp
  | cons x rest =>
    rcases Nat.eq_zero_or_pos k with rfl | hk
    · rw [List.drop_zero, List.take_eq_take_iff]
      simp only [reduceCtorEq, true_and, false_or]
      omega
    · -- the first element is not in the rest
      obtain ⟨m, rfl⟩ := Nat.exists_eq_succ_of_ne_zero hm.ne'
      obtain ⟨k, rfl⟩ := Nat.exists_eq_succ_of_ne_zero hk.ne'
      simp only [reduceCtorEq, Nat.succ_ne_zero, false_and, or_self, iff_false]
      intro heq
      have hx : x ∈ (rest.drop k).take l := by
        have hhead : x ∈ (x :: rest).take (m + 1) := by simp
        rw [heq] at hhead
        exact hhead
      exact (List.nodup_cons.mp hnodup).1 (List.mem_of_mem_drop (List.mem_of_mem_take hx))

end List
