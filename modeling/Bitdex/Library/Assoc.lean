import Mathlib.Data.List.AList
import Mathlib.Data.List.Induction

/-!
# `Library.Assoc` — passes over an association list

`AList.filterMap` changes or drops every value of a map in one pass. What a reader finds under a key afterwards
depends on the value under that key alone (`AList.lookup_filterMap`). `AList.rename` takes the entries whose keys have
a name in another key type. `AList.groupBy` files the elements of a list by key.
-/

namespace AList

variable {κ β γ : Type}

theorem notMem_of_entries_eq_nil {m : AList fun _ : κ => β} (h : m.entries = []) (k : κ) : k ∉ m := by
  intro hk
  have hkeys : k ∈ m.keys := hk
  rw [AList.keys, h] at hkeys
  cases hkeys

/-- What a pass leaves of one entry. -/
def keepEntry (f : κ → β → Option γ) (e : Sigma fun _ : κ => β) : Option (Sigma fun _ : κ => γ) :=
  (f e.1 e.2).map fun c => ⟨e.1, c⟩

theorem keys_keepEntry_sublist (f : κ → β → Option γ) (l : List (Sigma fun _ : κ => β)) :
    (l.filterMap (keepEntry f)).keys.Sublist l.keys := by
  induction l with
  | nil => exact List.Sublist.refl _
  | cons e l ih =>
    cases h : f e.1 e.2 with
    | none => simpa [keepEntry, h] using ih.cons e.1
    | some c => simpa [keepEntry, h] using ih.cons_cons e.1

/-- Change or drop every value of a map. -/
def filterMap (m : AList fun _ : κ => β) (f : κ → β → Option γ) : AList fun _ : κ => γ :=
  ⟨m.entries.filterMap (keepEntry f), List.Nodup.sublist (keys_keepEntry_sublist f _) m.nodupKeys⟩

variable [DecidableEq κ]

/-- What is asked of every value in a map is asked of its entries. -/
instance decidableForallLookup (m : AList fun _ : κ => β) (P : κ → β → Prop) [∀ k v, Decidable (P k v)] :
    Decidable (∀ k v, m.lookup k = some v → P k v) :=
  decidable_of_iff (∀ e ∈ m.entries, P e.1 e.2)
    ⟨fun h k v hv => h ⟨k, v⟩ (mem_lookup_iff.mp hv), fun h e he => h e.1 e.2 (mem_lookup_iff.mpr he)⟩

theorem dlookup_keepEntry (f : κ → β → Option γ) (k : κ) {l : List (Sigma fun _ : κ => β)} (h : l.NodupKeys) :
    List.dlookup k (l.filterMap (keepEntry f)) = (List.dlookup k l).bind (f k) := by
  induction l with
  | nil => rfl
  | cons e l ih =>
    obtain ⟨k', v⟩ := e
    obtain ⟨hnot, hrest⟩ := List.nodupKeys_cons.mp h
    have ih := ih hrest
    by_cases hk : k' = k
    · subst hk
      cases hf : f k' v with
      | none =>
        -- the key is not in the rest, so dropping its entry leaves nothing under it
        have hnone : List.dlookup k' l = none := List.dlookup_eq_none.mpr hnot
        simp [keepEntry, hf, ih, hnone]
      | some c => simp [keepEntry, hf]
    · have hskip : List.dlookup k (⟨k', v⟩ :: l) = List.dlookup k l :=
        List.dlookup_cons_ne l _ (Ne.symm hk)
      rw [hskip, ← ih, List.filterMap_cons]
      cases hf : f k' v with
      | none => simp [keepEntry, hf]
      | some c =>
        simp only [keepEntry, hf, Option.map_some]
        exact List.dlookup_cons_ne _ _ (Ne.symm hk)

theorem lookup_filterMap (m : AList fun _ : κ => β) (f : κ → β → Option γ) (k : κ) :
    (m.filterMap f).lookup k = (m.lookup k).bind (f k) :=
  dlookup_keepEntry f k m.nodupKeys

/-! ## One entry changed -/

section Lookup

variable {m : AList fun _ : κ => β} {k k' : κ} {v w : β}

theorem lookup_insert_eq_ite : (m.insert k v).lookup k' = if k' = k then some v else m.lookup k' := by
  split
  · next h => rw [h, AList.lookup_insert]
  · next h => exact AList.lookup_insert_ne h

theorem lookup_insert_eq_some :
    (m.insert k v).lookup k' = some w ↔ (k' = k ∧ v = w) ∨ (k' ≠ k ∧ m.lookup k' = some w) := by
  rw [lookup_insert_eq_ite]
  split
  · next h => simp [h]
  · next h => simp [h]

theorem lookup_erase_eq_ite : (m.erase k).lookup k' = if k' = k then none else m.lookup k' := by
  split
  · next h => rw [h, AList.lookup_erase]
  · next h => exact AList.lookup_erase_ne h

theorem lookup_erase_eq_some : (m.erase k).lookup k' = some w ↔ k' ≠ k ∧ m.lookup k' = some w := by
  rw [lookup_erase_eq_ite, Option.ite_none_left_eq_some]

end Lookup

/-! ## One change per entry -/

/-- A store is changed once per entry. If a change acts on the store's part for its own key alone, that part sees only
the change made for its key. -/
theorem view_foldl {σ : Type} {step : σ → κ → β → σ} {m : AList fun _ : κ => β} {s : σ} {k : κ}
    (view : σ → κ → γ) (upd : κ → β → γ → γ)
    (hstep : ∀ s k v k', view (step s k v) k' = if k' = k then upd k v (view s k) else view s k') :
    view (m.entries.foldl (fun s e => step s e.1 e.2) s) k =
      (m.lookup k).elim (view s k) fun v => upd k v (view s k) := by
  suffices h : ∀ l : List (Sigma fun _ : κ => β), l.NodupKeys → ∀ s, view (l.foldl (fun s e => step s e.1 e.2) s) k =
        (List.dlookup k l).elim (view s k) fun v => upd k v (view s k) from h m.entries m.nodupKeys s
  intro l hl
  induction l with
  | nil =>
    intro s
    rfl
  | cons e l ih =>
    intro s
    obtain ⟨k₁, v⟩ := e
    obtain ⟨hnot, hrest⟩ := List.nodupKeys_cons.mp hl
    rw [List.foldl_cons, ih hrest, hstep]
    by_cases hk : k = k₁
    · subst hk
      -- the key is not named again
      rw [List.dlookup_eq_none.mpr hnot, List.dlookup_cons_eq, if_pos rfl]
      rfl
    · rw [if_neg hk, List.dlookup_cons_ne l ⟨k₁, v⟩ hk]

section Groups

variable {α : Type} (key : α → κ) (l : List α)

/-- The elements of a list by key, in order. -/
def groupBy : AList fun _ : κ => List α :=
  l.foldl (fun groups a => groups.insert (key a) ((groups.lookup (key a)).getD [] ++ [a])) ∅

theorem getD_lookup_groupBy (k : κ) : ((groupBy key l).lookup k).getD [] = l.filter fun a => key a = k := by
  induction l using List.reverseRecOn with
  | nil => rfl
  | append_singleton l a ih =>
    rw [groupBy, List.foldl_append, List.foldl_cons, List.foldl_nil, ← groupBy, List.filter_append]
    by_cases hk : key a = k
    · rw [hk, AList.lookup_insert, Option.getD_some, ih, List.filter_cons_of_pos (by simpa using hk), List.filter_nil]
    · rw [AList.lookup_insert_ne (Ne.symm hk), ih, List.filter_cons_of_neg (by simpa using hk), List.filter_nil,
        List.append_nil]

variable {key l} {e : Sigma fun _ : κ => List α} {a : α}

theorem mem_groupBy (he : e ∈ (groupBy key l).entries) : a ∈ e.2 ↔ a ∈ l ∧ key a = e.1 := by
  have hgroup := getD_lookup_groupBy key l e.1
  rw [AList.mem_lookup_iff.mpr he, Option.getD_some] at hgroup
  rw [hgroup, List.mem_filter, decide_eq_true_iff]

/-- Every element is in a group. -/
theorem mem_flatMap_groupBy : a ∈ (groupBy key l).entries.flatMap (·.2) ↔ a ∈ l := by
  rw [List.mem_flatMap]
  constructor
  · rintro ⟨e, he, ha⟩
    exact ((mem_groupBy he).mp ha).1
  · intro ha
    have hmem : a ∈ ((groupBy key l).lookup (key a)).getD [] := by simp [getD_lookup_groupBy, ha]
    cases hgroup : (groupBy key l).lookup (key a) with
    | none => simp [hgroup] at hmem
    | some group => exact ⟨⟨key a, group⟩, AList.mem_lookup_iff.mp hgroup, by simpa [hgroup] using hmem⟩

end Groups

/-! ## New names for keys -/

section Rename

variable {κ' : Type}

/-- One entry under its key's new name. -/
def renameEntry (g : κ → Option κ') (e : Sigma fun _ : κ => β) : Option (Sigma fun _ : κ' => β) :=
  (g e.1).map fun k' => ⟨k', e.2⟩

omit [DecidableEq κ] in
theorem keys_renameEntry (g : κ → Option κ') (l : List (Sigma fun _ : κ => β)) :
    (l.filterMap (renameEntry g)).keys = l.keys.filterMap g := by
  induction l with
  | nil => rfl
  | cons e l ih =>
    cases h : g e.1 with
    | none | some k' => simpa [List.filterMap_cons, renameEntry, h] using ih

/-- The entries whose keys have a new name, under it. -/
def rename (m : AList fun _ : κ => β) (g : κ → Option κ')
    (hg : ∀ k₁ k₂ k', g k₁ = some k' → g k₂ = some k' → k₁ = k₂) : AList fun _ : κ' => β :=
  ⟨m.entries.filterMap (renameEntry g), by
    unfold List.NodupKeys
    rw [keys_renameEntry]
    exact m.nodupKeys.filterMap fun k₁ k₂ k' h₁ h₂ => hg k₁ k₂ k' h₁ h₂⟩

variable [DecidableEq κ']

theorem dlookup_renameEntry {g : κ → Option κ'} {k : κ} {k' : κ'} (hk : ∀ k₁, g k₁ = some k' ↔ k₁ = k)
    (l : List (Sigma fun _ : κ => β)) : List.dlookup k' (l.filterMap (renameEntry g)) = List.dlookup k l := by
  induction l with
  | nil => rfl
  | cons e l ih =>
    obtain ⟨k₁, v⟩ := e
    rw [List.filterMap_cons]
    by_cases h : k₁ = k
    · subst h
      simp [renameEntry, (hk k₁).mpr rfl]
    · rw [List.dlookup_cons_ne l ⟨k₁, v⟩ (Ne.symm h), ← ih]
      cases hg : g k₁ with
      | none => simp [renameEntry, hg]
      | some k₂ =>
        have hne : k' ≠ k₂ := fun heq => h ((hk k₁).mp (heq ▸ hg))
        simp only [renameEntry, hg, Option.map_some]
        exact List.dlookup_cons_ne _ _ hne

theorem lookup_rename {m : AList fun _ : κ => β} {g : κ → Option κ'}
    {hg : ∀ k₁ k₂ k', g k₁ = some k' → g k₂ = some k' → k₁ = k₂} {k : κ} {k' : κ'}
    (hk : ∀ k₁, g k₁ = some k' ↔ k₁ = k) : (m.rename g hg).lookup k' = m.lookup k :=
  dlookup_renameEntry hk m.entries

end Rename

end AList
