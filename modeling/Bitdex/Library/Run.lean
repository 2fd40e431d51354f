import Mathlib.Logic.Basic

/-!
# `Library.Run` — runs whose steps meet a condition

A system takes labelled steps. `Reaches` is the runs from a start state all of whose steps meet a
condition on the state before the step and on its label; the labels are kept as the run's history.
`Reaches.invariant` is the induction rule: what holds at the start and is kept by every step that meets
the condition holds in every state reached.
-/

variable {σ ε : Type}

/-- A run from `s₀`: the labels of its steps, in order, and the state it ends in. -/
inductive Reaches (step : σ → ε → σ → Prop) (meets : σ → ε → Prop) (s₀ : σ) : List ε → σ → Prop where
  | start : Reaches step meets s₀ [] s₀
  | next {es : List ε} {s s' : σ} {ev : ε} :
      Reaches step meets s₀ es s → meets s ev → step s ev s' → Reaches step meets s₀ (es ++ [ev]) s'

/-- **Invariants.** A relation between history and state that every step keeps. -/
theorem Reaches.invariant {step : σ → ε → σ → Prop} {meets : σ → ε → Prop} {s₀ : σ}
    (P : List ε → σ → Prop) (hstart : P [] s₀)
    (hstep : ∀ es s ev s', P es s → meets s ev → step s ev s' → P (es ++ [ev]) s')
    {es : List ε} {s : σ} (h : Reaches step meets s₀ es s) : P es s := by
  induction h with
  | start => exact hstart
  | next _ hmeets hs ih => exact hstep _ _ _ _ ih hmeets hs

/-- A run meets every weaker condition. -/
theorem Reaches.mono {step : σ → ε → σ → Prop} {meets meets' : σ → ε → Prop} {s₀ : σ}
    (hmeets : ∀ s ev, meets s ev → meets' s ev) {es : List ε} {s : σ} (h : Reaches step meets s₀ es s) :
    Reaches step meets' s₀ es s := by
  induction h with
  | start => exact .start
  | next _ hm hs ih => exact ih.next (hmeets _ _ hm) hs

/-- What every step of a loop leaves alone is as before. -/
theorem foldl_view {γ : Type} {step : σ → ε → σ} (view : σ → γ) {es : List ε}
    (h : ∀ ev ∈ es, ∀ s, view (step s ev) = view s) (s : σ) : view (es.foldl step s) = view s := by
  induction es generalizing s with
  | nil => rfl
  | cons ev es ih =>
    rw [List.foldl_cons, ih fun ev' hmem => h ev' (List.mem_cons_of_mem ev hmem), h ev List.mem_cons_self]

/-- Where steps can only make a fact true, it holds after a loop if it did before or a step made it so. -/
theorem foldl_or_iff {step : σ → ε → σ} (P : σ → Prop) {Q : ε → Prop} (h : ∀ s ev, P (step s ev) ↔ P s ∨ Q ev)
    {es : List ε} {s : σ} : P (es.foldl step s) ↔ P s ∨ ∃ ev ∈ es, Q ev := by
  induction es generalizing s with
  | nil => simp
  | cons ev es ih => simp [ih, h, or_assoc]

/-- Where every step can only make it false, it still holds if no step did. -/
theorem foldl_and_iff {step : σ → ε → σ} (P : σ → Prop) {Q : ε → Prop} (h : ∀ s ev, P (step s ev) ↔ P s ∧ Q ev)
    {es : List ε} {s : σ} : P (es.foldl step s) ↔ P s ∧ ∀ ev ∈ es, Q ev := by
  induction es generalizing s with
  | nil => simp
  | cons ev es ih => simp [ih, h, and_assoc]

/-! ## Computed runs

Where a function computes the steps, a run is known by its labels. `Computed` says that they make a run of
which every step meets the condition, wherever it ends. A condition that is decidable is found to hold by
evaluating the run (`Computed.of_along`). -/

section Computed

variable (f : σ → ε → Option σ) (meets : σ → ε → Prop) (s₀ : σ)

/-- Every step that the labels take from a state meets the condition. -/
def MeetsAlong (f : σ → ε → Option σ) (meets : σ → ε → Prop) : σ → List ε → Prop
  | _, [] => True
  | s, ev :: es => meets s ev ∧ ∀ s' ∈ f s ev, MeetsAlong f meets s' es

instance decidableMeetsAlong [∀ s ev, Decidable (meets s ev)] (s : σ) (es : List ε) :
    Decidable (MeetsAlong f meets s es) :=
  match es with
  | [] => inferInstanceAs (Decidable True)
  | ev :: es =>
    have : ∀ s', Decidable (MeetsAlong f meets s' es) := fun s' => decidableMeetsAlong s' es
    inferInstanceAs (Decidable (meets s ev ∧ ∀ s' ∈ f s ev, MeetsAlong f meets s' es))

/-- The labels make a run whose steps meet the condition. -/
def Computed (es : List ε) : Prop :=
  ∀ s, es.foldlM f s₀ = some s → Reaches (fun s ev s' => f s ev = some s') meets s₀ es s

variable {f meets s₀} {es es' : List ε}

theorem MeetsAlong.of_forall {s : σ} (h : ∀ ev ∈ es, ∀ s, meets s ev) : MeetsAlong f meets s es := by
  induction es generalizing s with
  | nil => trivial
  | cons ev es ih =>
    exact ⟨h ev List.mem_cons_self s, fun _ _ => ih fun ev' h' => h ev' (List.mem_cons_of_mem ev h')⟩

/-- A run goes on with steps that meet the condition where they are taken. -/
theorem Reaches.along {s s' : σ} (h : Reaches (fun s ev s' => f s ev = some s') meets s₀ es s)
    (hfold : es'.foldlM f s = some s') (hmeets : MeetsAlong f meets s es') :
    Reaches (fun s ev s' => f s ev = some s') meets s₀ (es ++ es') s' := by
  induction es' generalizing es s with
  | nil =>
    rw [List.append_nil, ← Option.some.inj hfold]
    exact h
  | cons ev es' ih =>
    rw [List.foldlM_cons, Option.bind_eq_bind, Option.bind_eq_some_iff] at hfold
    obtain ⟨s₁, hs₁, hrest⟩ := hfold
    rw [List.append_cons]
    exact ih (h.next hmeets.1 hs₁) hrest (hmeets.2 s₁ hs₁)

/-- A run goes on with steps that meet the condition in every state. -/
theorem Reaches.extend {s s' : σ} (h : Reaches (fun s ev s' => f s ev = some s') meets s₀ es s)
    (hfold : es'.foldlM f s = some s') (hmeets : ∀ ev ∈ es', ∀ s, meets s ev) :
    Reaches (fun s ev s' => f s ev = some s') meets s₀ (es ++ es') s' :=
  h.along hfold (.of_forall hmeets)

theorem Computed.of_along (h : MeetsAlong f meets s₀ es) : Computed f meets s₀ es :=
  fun _ hs => Reaches.start.along hs h

theorem Computed.of_true : Computed f (fun _ _ => True) s₀ es := .of_along (.of_forall fun _ _ _ => trivial)

/-- Without a condition the runs are the computed ones. -/
theorem reaches_true_iff {s : σ} :
    Reaches (fun s ev s' => f s ev = some s') (fun _ _ => True) s₀ es s ↔ es.foldlM f s₀ = some s := by
  refine ⟨fun h => ?_, Computed.of_true s⟩
  induction h with
  | start => rfl
  | next _ _ hstep ih =>
    rw [List.foldlM_append, ih]
    simpa using hstep

instance decidableForallEqSome {β : Type} (o : Option β) (P : β → Prop) [DecidablePred P] :
    Decidable (∀ b, o = some b → P b) :=
  inferInstanceAs (Decidable (∀ b ∈ o, P b))

instance decidableExistsEqSome {β : Type} (o : Option β) (P : β → Prop) [DecidablePred P] :
    Decidable (∃ b, o = some b ∧ P b) :=
  inferInstanceAs (Decidable (∃ b ∈ o, P b))

/-- What is decidable of the state that a computed run ends in is found by evaluating the run. -/
theorem Computed.exists_end {P : σ → Prop} (h : Computed f meets s₀ es) (hend : ∃ s, es.foldlM f s₀ = some s ∧ P s) :
    ∃ s, Reaches (fun s ev s' => f s ev = some s') meets s₀ es s ∧ P s := by
  obtain ⟨s, hs, hP⟩ := hend
  exact ⟨s, h s hs, hP⟩

end Computed
