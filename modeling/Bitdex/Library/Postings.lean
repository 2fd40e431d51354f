import Bitdex.Library.Assoc
import Bitdex.Library.Run
import Mathlib.Data.Finset.Basic

/-!
# `Library.Postings` — finite maps from keys to sets of ids

An inverted index keeps, for every key, the set of ids filed under it. A key without a set has no ids, and a set that
becomes empty is dropped, so the only question is whether an id is filed under a key (`Postings.mem_ids_addAll`,
`Postings.mem_ids_discardAll`).

`Filed` relates an index to the records it was built from: an id is filed under the keys of its own record and nowhere
else.
-/

/-- A map from keys to sets of ids. -/
abbrev Postings (κ ι : Type) := AList (fun _ : κ => Finset ι)

namespace Postings

variable {κ ι : Type} [DecidableEq κ] [DecidableEq ι]

/-- The ids filed under a key. -/
def ids (m : Postings κ ι) (k : κ) : Finset ι := (m.lookup k).getD ∅

/-- File ids under a key. -/
def add (m : Postings κ ι) (k : κ) (s : Finset ι) : Postings κ ι := m.insert k (m.ids k ∪ s)

/-- Take an id away from a key; a set left empty is dropped. -/
def discard (m : Postings κ ι) (k : κ) (i : ι) : Postings κ ι :=
  match m.lookup k with
  | none => m
  | some s => if s.erase i = ∅ then m.erase k else m.insert k (s.erase i)

/-- Add ids under some keys. -/
def addAll (m : Postings κ ι) (l : List (κ × Finset ι)) : Postings κ ι := l.foldl (fun m p => m.add p.1 p.2) m

/-- Take an id from some keys. -/
def discardAll (m : Postings κ ι) (ks : List κ) (i : ι) : Postings κ ι := ks.foldl (fun m k => m.discard k i) m

omit [DecidableEq ι] in
@[simp] theorem ids_empty (k : κ) : ids (∅ : Postings κ ι) k = ∅ := by
  rw [ids, AList.lookup_empty, Option.getD_none]

variable {m : Postings κ ι} {k k' : κ} {x : ι} {s : Finset ι} {l : List (κ × Finset ι)}

omit [DecidableEq ι] in
theorem ids_of_notMem (h : k ∉ m) : m.ids k = ∅ := by
  rw [ids, AList.lookup_eq_none.mpr h, Option.getD_none]

omit [DecidableEq ι] in
theorem mem_ids_iff_entries : x ∈ m.ids k ↔ ∃ e ∈ m.entries, e.1 = k ∧ x ∈ e.2 := by
  unfold ids
  constructor
  · intro hx
    cases hm : m.lookup k with
    | none =>
      rw [hm] at hx
      cases hx
    | some s =>
      rw [hm] at hx
      exact ⟨⟨k, s⟩, AList.mem_lookup_iff.mp hm, rfl, hx⟩
  · rintro ⟨⟨k', s⟩, he, rfl, hx⟩
    rw [AList.mem_lookup_iff.mpr he]
    exact hx

theorem mem_ids_add : x ∈ (m.add k s).ids k' ↔ x ∈ m.ids k' ∨ (k = k' ∧ x ∈ s) := by
  by_cases hk : k' = k
  · subst hk
    simp [ids, add, AList.lookup_insert]
  · have hlookup : (m.add k s).lookup k' = m.lookup k' := AList.lookup_insert_ne hk
    simp [ids, hlookup, Ne.symm hk]

theorem mem_ids_discard {i : ι} : x ∈ (m.discard k i).ids k' ↔ x ∈ m.ids k' ∧ ¬(k = k' ∧ x = i) := by
  unfold discard
  cases hm : m.lookup k with
  | none =>
    by_cases hk : k = k'
    · subst hk
      simp [ids, hm]
    · simp [hk]
  | some s =>
    by_cases hk : k' = k
    · subst hk
      by_cases hs : s.erase i = ∅
      · have hx : ¬ (x ∈ s ∧ ¬ x = i) := by
          rintro ⟨hxs, hxi⟩
          have : x ∈ s.erase i := Finset.mem_erase.mpr ⟨hxi, hxs⟩
          rw [hs] at this
          exact Finset.notMem_empty x this
        simp [ids, hs, hm, AList.lookup_erase, hx]
      · simp [ids, hs, hm, AList.lookup_insert, and_comm]
    · by_cases hs : s.erase i = ∅
      · simp [ids, hs, AList.lookup_erase_ne hk, Ne.symm hk]
      · simp [ids, hs, AList.lookup_insert_ne hk, Ne.symm hk]

/-- **Filing.** An id is under a key if it was or if some pair of the list put it there. -/
theorem mem_ids_addAll : x ∈ (m.addAll l).ids k ↔ x ∈ m.ids k ∨ ∃ p ∈ l, p.1 = k ∧ x ∈ p.2 :=
  foldl_or_iff (x ∈ ids · k) (by intros; exact mem_ids_add)

/-- The groups of two maps, filed anew under a part of their keys. -/
theorem mem_ids_regroup {κ' : Type} [DecidableEq κ'] {m m' : Postings κ ι} (part : κ → κ') {k : κ'} :
    x ∈ (addAll ∅ ((m.entries ++ m'.entries).map fun g => (part g.1, g.2))).ids k ↔
      ∃ g, part g = k ∧ (x ∈ m.ids g ∨ x ∈ m'.ids g) := by
  rw [mem_ids_addAll]
  simp only [ids_empty, Finset.notMem_empty, false_or, List.mem_map, List.mem_append, mem_ids_iff_entries]
  constructor
  · rintro ⟨p, ⟨g, hg | hg, rfl⟩, rfl, hx⟩
    · exact ⟨g.1, rfl, .inl ⟨g, hg, rfl, hx⟩⟩
    · exact ⟨g.1, rfl, .inr ⟨g, hg, rfl, hx⟩⟩
  · rintro ⟨_, rfl, ⟨g, hg, rfl, hx⟩ | ⟨g, hg, rfl, hx⟩⟩
    · exact ⟨_, ⟨g, .inl hg, rfl⟩, rfl, hx⟩
    · exact ⟨_, ⟨g, .inr hg, rfl⟩, rfl, hx⟩

/-- **Removal.** An id stays under a key unless it was taken away from that key. -/
theorem mem_ids_discardAll {ks : List κ} {i : ι} : x ∈ (m.discardAll ks i).ids k ↔ x ∈ m.ids k ∧ ¬(k ∈ ks ∧ x = i) := by
  refine (foldl_and_iff (x ∈ ids · k) (by intros; exact mem_ids_discard)).trans (and_congr_right fun _ => ?_)
  constructor
  · rintro h ⟨hk, rfl⟩
    exact h k hk ⟨rfl, rfl⟩
  · rintro h k' hk ⟨rfl, rfl⟩
    exact h ⟨hk, rfl⟩

omit [DecidableEq κ] in
/-- A union over a list, collected in a loop. -/
theorem mem_foldl_union {l : List κ} {f : κ → Finset ι} :
    x ∈ l.foldl (fun s k => s ∪ f k) s ↔ x ∈ s ∨ ∃ k ∈ l, x ∈ f k :=
  foldl_or_iff (x ∈ ·) (by simp)

/-- Filing creates exactly the keys it names. -/
theorem mem_addAll : k ∈ m.addAll l ↔ k ∈ m ∨ ∃ p ∈ l, p.1 = k := by
  refine foldl_or_iff (k ∈ ·) fun m p => ?_
  rw [add, AList.mem_insert, or_comm, eq_comm]

/-! ## Opposite entries -/

/-- Take away the ids that another index has under the same key; a shared key left empty is dropped. -/
def cancel (m other : Postings κ ι) : Postings κ ι :=
  m.filterMap fun k s =>
    if k ∈ other then (if s \ other.ids k = ∅ then none else some (s \ other.ids k)) else some s

theorem mem_ids_cancel {other : Postings κ ι} : x ∈ (m.cancel other).ids k ↔ x ∈ m.ids k ∧ x ∉ other.ids k := by
  rw [ids, cancel, AList.lookup_filterMap]
  cases hm : m.lookup k with
  | none => simp [ids, hm]
  | some s =>
    have hids : m.ids k = s := by rw [ids, hm, Option.getD_some]
    rw [hids, Option.bind_some, ← Finset.mem_sdiff]
    by_cases hk : k ∈ other
    · rw [if_pos hk]
      by_cases hs : s \ other.ids k = ∅
      · rw [if_pos hs, hs, Option.getD_none]
      · rw [if_neg hs, Option.getD_some]
    · rw [if_neg hk, ids_of_notMem hk, Finset.sdiff_empty, Option.getD_some]

/-- A key is left if it was not shared, or if an id of it was not. -/
theorem mem_cancel {other : Postings κ ι} :
    k ∈ m.cancel other ↔ k ∈ m ∧ (k ∉ other ∨ ∃ x ∈ m.ids k, x ∉ other.ids k) := by
  rw [← AList.lookup_isSome, cancel, AList.lookup_filterMap]
  have hmem : k ∈ m ↔ (m.lookup k).isSome := AList.lookup_isSome.symm
  rw [hmem]
  cases hm : m.lookup k with
  | none => simp
  | some s =>
    have hids : m.ids k = s := by rw [ids, hm, Option.getD_some]
    have hrest : s \ other.ids k = ∅ ↔ ¬ ∃ x ∈ s, x ∉ other.ids k := by
      rw [Finset.sdiff_eq_empty_iff_subset, Finset.subset_iff]
      push Not
      rfl
    rw [hids, Option.bind_some, Option.isSome_some, and_iff_right rfl]
    by_cases hk : k ∈ other
    · rw [if_pos hk, or_iff_right (not_not.mpr hk)]
      by_cases hs : s \ other.ids k = ∅
      · rw [if_pos hs]
        exact iff_of_false Bool.noConfusion (hrest.mp hs)
      · rw [if_neg hs]
        exact iff_of_true rfl (not_not.mp (mt hrest.mpr hs))
    · rw [if_neg hk]
      exact iff_of_true rfl (.inl hk)

omit [DecidableEq ι] in
theorem mem_of_mem_ids (h : x ∈ m.ids k) : k ∈ m := by
  by_contra hk
  rw [ids_of_notMem hk] at h
  cases h

/-! ## Applying an index group by group

A store is changed once per key of an index. If one change adds the key's ids to the store's own set for
that key, or takes them away, then all the changes together do the same with the whole index. -/

section Apply

variable {σ : Type} (step : σ → κ → Finset ι → σ)

/-- One change per key. -/
def applyTo (m : Postings κ ι) (s : σ) : σ := m.entries.foldl (fun s e => step s e.1 e.2) s

variable {step} (has : σ → κ → Prop) (view : σ → κ → Finset ι) {s : σ}

omit [DecidableEq ι] in
theorem mem_view_applyTo_add (hhas : ∀ s k v k', has (step s k v) k' ↔ has s k')
    (hstep : ∀ s k v k' x, x ∈ view (step s k v) k' ↔ x ∈ view s k' ∨ (has s k' ∧ k = k' ∧ x ∈ v)) :
    x ∈ view (m.applyTo step s) k ↔ x ∈ view s k ∨ (has s k ∧ x ∈ m.ids k) := by
  rw [mem_ids_iff_entries]
  unfold applyTo
  induction m.entries generalizing s with
  | nil => simp
  | cons e es ih =>
    rw [List.foldl_cons, ih, hstep, hhas, or_assoc, ← and_or_left]
    simp

omit [DecidableEq ι] in
theorem mem_view_applyTo_remove (hstep : ∀ s k v k' x, x ∈ view (step s k v) k' ↔ x ∈ view s k' ∧ ¬(k = k' ∧ x ∈ v)) :
    x ∈ view (m.applyTo step s) k ↔ x ∈ view s k ∧ x ∉ m.ids k := by
  rw [mem_ids_iff_entries, applyTo, foldl_and_iff (x ∈ view · k) fun s e => hstep s e.1 e.2 k x]
  grind

omit [DecidableEq ι] in
/-- If one change acts on the store's part for its own key alone, then of all the changes together that
part sees the one made for its key. -/
theorem view_applyTo {β : Type} (view : σ → κ → β) (upd : κ → Finset ι → β → β)
    (hstep : ∀ s k v k', view (step s k v) k' = if k' = k then upd k v (view s k) else view s k') :
    view (m.applyTo step s) k = (m.lookup k).elim (view s k) fun v => upd k v (view s k) :=
  AList.view_foldl view upd hstep

/-- The same for a list with repeated keys: where a change made twice is the change made once, the part sees it at
most once. -/
theorem foldl_visit {β : Type} {f : σ → κ → σ} {p : σ → β} {u : β → β} (hidem : ∀ v, u (u v) = u v)
    (hown : ∀ s, p (f s k) = u (p s)) (hother : ∀ s k', k' ≠ k → p (f s k') = p s) (keys : List κ) (s : σ) :
    p (keys.foldl f s) = if k ∈ keys then u (p s) else p s := by
  induction keys generalizing s with
  | nil => rfl
  | cons k' keys ih =>
    rw [List.foldl_cons, ih]
    by_cases hk : k' = k
    · subst hk
      simp [hown, hidem]
    · simp [hother s k' hk, Ne.symm hk]

end Apply

/-! ## Records behind an index -/

/-- Every id is filed exactly under the keys of its record. -/
def Filed {ρ : Type} (keys : ρ → List κ) (m : Postings κ ι) (records : AList (fun _ : ι => ρ)) : Prop :=
  ∀ i k, i ∈ m.ids k ↔ ∃ r, records.lookup i = some r ∧ k ∈ keys r

variable {ρ : Type} {keys : ρ → List κ} {records : AList (fun _ : ι => ρ)}

theorem filed_empty : Filed keys (∅ : Postings κ ι) (∅ : AList (fun _ : ι => ρ)) := by
  intro i k
  simp

/-- Entering a record under an id that has none. -/
theorem Filed.insert (h : Filed keys m records) {i : ι} (hi : i ∉ records) (r : ρ) :
    Filed keys (m.addAll ((keys r).map fun k => (k, {i}))) (records.insert i r) := by
  intro j k
  rw [mem_ids_addAll, h j k]
  by_cases hj : j = i
  · subst hj
    have hnone : records.lookup j = none := AList.lookup_eq_none.mpr hi
    simp [hnone, AList.lookup_insert]
  · simp [hj]

/-- Withdrawing a record. -/
theorem Filed.erase (h : Filed keys m records) {i : ι} {r : ρ} (hr : records.lookup i = some r) :
    Filed keys (m.discardAll (keys r) i) (records.erase i) := by
  intro j k
  rw [mem_ids_discardAll, h j k]
  by_cases hj : j = i
  · subst hj
    simp [hr, AList.lookup_erase]
  · simp [hj]

end Postings
