import Bitdex.Executor.Semantics

/-!
# `Executor.Compute` — the accumulator loop over top-level clauses

`compute_filters` intersects its clauses one after the other. The first clause is evaluated in full; every later one
is first offered to `try_and_by_ref`, which narrows the accumulator in place, and only if that declines is the
clause's own bitmap built. `Not` narrows through `evaluate_clause_with_candidates`, a third evaluator that never
leaves the accumulator.
-/

namespace Bitdex

open List

namespace QueryExecutor

variable [Host] (ex : QueryExecutor)

/-- The union of `candidates & vb` over the values that resolve to a stored bitmap. -/
def unionWithin (ff : FilterField) (field : String) (values : List Value) (candidates : Bitmap) :
    Bitmap :=
  values.foldl (fun acc v =>
    match ex.resolveValueKey field v with
    | some key =>
      match ff.getVersioned key with
      | some vb => acc ∪ (candidates ∩ vb.fused)
      | none => acc
    | none => acc) ∅

mutual

/-- Evaluate a clause narrowed to a candidate set. -/
def evaluateClauseWithCandidates :
    FilterClause → Bitmap → Except BitdexError Bitmap
  | .eq field value, candidates =>
    match ex.filters.getField field with
    | some ff => .ok (ex.unionWithin ff field [value] candidates)
    | none => do
        let full ← ex.evaluateClause (.eq field value)
        return candidates ∩ full
  | .isIn field values, candidates =>
    match ex.filters.getField field with
    | some ff => .ok (ex.unionWithin ff field values candidates)
    | none => do
        let full ← ex.evaluateClause (.isIn field values)
        return candidates ∩ full
  | .and inner, candidates => narrowAll inner candidates
  | .or inner, candidates => narrowAny inner candidates ∅
  | c, candidates => do
      let full ← ex.evaluateClause c
      return candidates ∩ full

/-- The `And` loop: narrow by one child after the other until nothing is left. -/
def narrowAll : List FilterClause → Bitmap → Except BitdexError Bitmap
  | [], result => .ok result
  | c :: cs, result => do
      let result ← evaluateClauseWithCandidates c result
      if result = ∅ then return result else narrowAll cs result

/-- The `Or` loop: every child is narrowed to the same candidates. -/
def narrowAny : List FilterClause → Bitmap → Bitmap → Except BitdexError Bitmap
  | [], _, result => .ok result
  | c :: cs, candidates, result => do
      let hits ← evaluateClauseWithCandidates c candidates
      narrowAny cs candidates (result ∪ hits)

end

/-- The bitmap stored for one value of a field, if there is one. -/
def storedBitmap (field : String) (value : Value) : Option VersionedBitmap :=
  match ex.filters.getField field with
  | some ff =>
    match ex.resolveValueKey field value with
    | some key => ff.getVersioned key
    | none => none
  | none => none

/-- `acc -= vb` for every value that resolves to a stored bitmap. -/
def subtractValues (ff : FilterField) (field : String) (values : List Value) (acc : Bitmap) :
    Bitmap :=
  values.foldl (fun acc v =>
    match ex.resolveValueKey field v with
    | some key =>
      match ff.getVersioned key with
      | some vb => acc \ vb.fused
      | none => acc
    | none => acc) acc

/-- Narrow the accumulator by a clause in place; `none` if the clause has no such path. -/
def tryAndByRef (acc : Bitmap) : FilterClause → Option (Except BitdexError Bitmap)
  | .eq field value =>
    if field = "id" then none
    else (ex.storedBitmap field value).map fun vb => .ok (acc ∩ vb.fused)
  | .isIn field values =>
    if field = "id" then none
    else (ex.filters.getField field).map fun ff => .ok (ex.unionWithin ff field values acc)
  | .bucketBitmap _ _ bitmap => some (.ok (acc ∩ bitmap))
  | .not inner =>
    some (do
      let innerHits ← ex.evaluateClauseWithCandidates inner acc
      return acc \ innerHits)
  | .notEq field value =>
    if field = "id" then none
    else (ex.storedBitmap field value).map fun vb => .ok (acc \ vb.fused)
  | .notIn field values =>
    if field = "id" then none
    else (ex.filters.getField field).map fun ff => .ok (ex.subtractValues ff field values acc)
  | _ => none

/-- One later clause against the accumulator: by reference if possible, else by its own bitmap. -/
def narrow (acc : Bitmap) (c : FilterClause) : Except BitdexError Bitmap :=
  match ex.tryAndByRef acc c with
  | some applied => applied
  | none => do
      let bitmap ← ex.evaluateClause c
      return acc ∩ bitmap

/-- The loop once an accumulator exists. An empty one skips or ends it: the remaining clauses are not evaluated. -/
def computeLoop (acc : Bitmap) : List FilterClause → Except BitdexError Bitmap
  | [] => .ok acc
  | c :: rest =>
    if acc = ∅ then .ok acc
    else do
      let acc ← ex.narrow acc c
      computeLoop acc rest

/-- The combined bitmap of top-level clauses; every alive slot when there is none. -/
def computeFilters : List FilterClause → Except BitdexError Bitmap
  | [] => .ok ex.aliveBitmap
  | c :: rest => do
      let bitmap ← ex.evaluateClause c
      ex.computeLoop bitmap rest

/-! ## What each path asks of a slot -/

mutual

/-- The test of the candidate-restricted evaluator. An empty conjunction is true here, and `id` is a filter field if
one of that name exists. -/
def candidateHolds : FilterClause → UInt32 → Bool
  | .eq field value, slot =>
    match ex.filters.getField field with
    | some ff => ex.storedHolds ff field value slot
    | none => ex.holds (.eq field value) slot
  | .isIn field values, slot =>
    match ex.filters.getField field with
    | some ff => values.any (ex.storedHolds ff field · slot)
    | none => ex.holds (.isIn field values) slot
  | .and inner, slot => candidateHoldsAll inner slot
  | .or inner, slot => candidateHoldsAny inner slot
  | c, slot => ex.holds c slot

def candidateHoldsAll : List FilterClause → UInt32 → Bool
  | [], _ => true
  | c :: cs, slot => candidateHolds c slot && candidateHoldsAll cs slot

def candidateHoldsAny : List FilterClause → UInt32 → Bool
  | [], _ => false
  | c :: cs, slot => candidateHolds c slot || candidateHoldsAny cs slot

end

/-- The test a later clause applies to a slot of the accumulator. `NotEq` and `NotIn` on a stored field ignore null
and alive bitmaps. -/
def byRefHolds : FilterClause → UInt32 → Bool
  | .notEq field value, slot =>
    if field = "id" then ex.holds (.notEq field value) slot
    else
      match ex.storedBitmap field value with
      | some vb => !decide (slot ∈ vb.fused)
      | none => ex.holds (.notEq field value) slot
  | .notIn field values, slot =>
    if field = "id" then ex.holds (.notIn field values) slot
    else
      match ex.filters.getField field with
      | some ff => !values.any (ex.storedHolds ff field · slot)
      | none => ex.holds (.notIn field values) slot
  | .not inner, slot => !ex.candidateHolds inner slot
  | c, slot => ex.holds c slot

variable {c : FilterClause} {cs : List FilterClause} {ff : FilterField} {field : String} {values : List Value}
  {candidates acc b : Bitmap} {x : UInt32}

theorem candidateHoldsAll_iff : ex.candidateHoldsAll cs x = true ↔ ∀ c ∈ cs, ex.candidateHolds c x = true := by
  induction cs with
  | nil => simp [candidateHoldsAll]
  | cons c cs ih => simp [candidateHoldsAll, ih]

theorem candidateHoldsAny_iff : ex.candidateHoldsAny cs x = true ↔ ∃ c ∈ cs, ex.candidateHolds c x = true := by
  induction cs with
  | nil => simp [candidateHoldsAny]
  | cons c cs ih => simp [candidateHoldsAny, ih]

/-- Away from `id`, being stored under a value is what the value's clause says. -/
theorem storedHolds_eq_eqHolds (hid : field ≠ "id") (hff : ex.filters.getField field = some ff) (value : Value)
    (slot : UInt32) : ex.storedHolds ff field value slot = ex.eqHolds field value slot := by
  simp [eqHolds, hid, hff]

/-! ## The loops over values -/

theorem mem_unionWithin : x ∈ ex.unionWithin ff field values candidates ↔
      x ∈ candidates ∧ values.any (ex.storedHolds ff field · x) = true := by
  refine (foldl_or_iff (x ∈ ·) (Q := fun v => x ∈ candidates ∧ ex.storedHolds ff field v x = true)
    fun acc v => ?_).trans (by simp [← exists_and_left, and_left_comm])
  cases hkey : ex.resolveValueKey field v with
  | none => simp [storedHolds, hkey]
  | some key =>
    cases hvb : ff.getVersioned key with
    | none | some vb => simp [storedHolds, hkey, FilterField.bits, hvb]

theorem mem_subtractValues :
    x ∈ ex.subtractValues ff field values acc ↔ x ∈ acc ∧ values.any (ex.storedHolds ff field · x) = false := by
  simp only [any_eq_false, Bool.not_eq_true]
  refine foldl_and_iff (x ∈ ·) fun acc v => ?_
  cases hkey : ex.resolveValueKey field v with
  | none => simp [storedHolds, hkey]
  | some key =>
    cases hvb : ff.getVersioned key with
    | none | some vb => simp [storedHolds, hkey, FilterField.bits, hvb]

theorem storedBitmap_some {value : Value} {vb : VersionedBitmap} (h : ex.storedBitmap field value = some vb) :
    ∃ ff, ex.filters.getField field = some ff ∧ ∀ x, ex.storedHolds ff field value x = decide (x ∈ vb.fused) := by
  unfold storedBitmap at h
  cases hff : ex.filters.getField field with
  | none => simp [hff] at h
  | some ff =>
    refine ⟨ff, rfl, fun x => ?_⟩
    cases hkey : ex.resolveValueKey field value with
    | none => simp [hff, hkey] at h
    | some key =>
      simp only [hff, hkey] at h
      simp [storedHolds, hkey, FilterField.bits, h]

/-! ## The candidate-restricted evaluator, whenever it succeeds -/

/-- Intersecting with the clause's own bitmap keeps the slots of which it holds. -/
theorem mem_within (h : (do let full ← ex.evaluateClause c; return candidates ∩ full) = .ok b) :
    x ∈ b ↔ x ∈ candidates ∧ ex.holds c x = true := by
  obtain ⟨full, hfull, hb⟩ := bind_eq_ok_iff.mp h
  cases hb
  rw [Finset.mem_inter, ex.mem_evaluateClause hfull]

/-- The `And` loop over children that each narrow by their own test. -/
theorem mem_narrowAll (ih : ∀ c ∈ cs, ∀ candidates b, ex.evaluateClauseWithCandidates c candidates = .ok b →
      (x ∈ b ↔ x ∈ candidates ∧ ex.candidateHolds c x = true)) (h : ex.narrowAll cs candidates = .ok b) :
    x ∈ b ↔ x ∈ candidates ∧ ∀ c ∈ cs, ex.candidateHolds c x = true := by
  induction cs generalizing candidates with
  | nil =>
    cases h
    simp
  | cons c cs ihcs =>
    rw [narrowAll, bind_eq_ok_iff] at h
    obtain ⟨b₁, hb₁, hrest⟩ := h
    have hmem₁ := ih c mem_cons_self candidates b₁ hb₁
    by_cases hempty : b₁ = ∅
    · -- the loop breaks: nothing is left, so `x` already failed
      rw [if_pos hempty] at hrest
      cases hrest
      have hx : ¬ (x ∈ candidates ∧ ex.candidateHolds c x = true) := by
        rw [← hmem₁, hempty]
        exact Finset.notMem_empty x
      rw [hmem₁]
      refine iff_of_false hx ?_
      rintro ⟨hxc, hall⟩
      exact hx ⟨hxc, hall c mem_cons_self⟩
    · rw [if_neg hempty] at hrest
      rw [ihcs (fun d hd => ih d (mem_cons_of_mem c hd)) hrest, hmem₁]
      simp [and_assoc]

theorem mem_narrowAny {result : Bitmap} (ih : ∀ c ∈ cs, ∀ b, ex.evaluateClauseWithCandidates c candidates = .ok b →
      (x ∈ b ↔ x ∈ candidates ∧ ex.candidateHolds c x = true)) (h : ex.narrowAny cs candidates result = .ok b) :
    x ∈ b ↔ x ∈ result ∨ (x ∈ candidates ∧ ∃ c ∈ cs, ex.candidateHolds c x = true) := by
  induction cs generalizing result with
  | nil =>
    cases h
    simp
  | cons c cs ihcs =>
    rw [narrowAny, bind_eq_ok_iff] at h
    obtain ⟨hits, hhits, hrest⟩ := h
    rw [ihcs (fun d hd => ih d (mem_cons_of_mem c hd)) hrest, Finset.mem_union, ih c mem_cons_self hits hhits]
    simp only [mem_cons, exists_eq_or_imp]
    tauto

/-- **The candidate-restricted evaluator** keeps the candidates that pass its test. -/
theorem mem_evaluateClauseWithCandidates (h : ex.evaluateClauseWithCandidates c candidates = .ok b) :
    x ∈ b ↔ x ∈ candidates ∧ ex.candidateHolds c x = true := by
  induction c using FilterClause.tree_induction generalizing candidates b with
  | eq f v | isIn f v =>
    rw [evaluateClauseWithCandidates] at h
    cases hff : ex.filters.getField f with
    | none =>
      simp only [hff] at h
      simp only [candidateHolds, hff]
      exact ex.mem_within h
    | some ff =>
      simp only [hff, Except.ok.injEq] at h
      rw [← h, mem_unionWithin]
      simp [candidateHolds, hff]
  | and cs ih =>
    rw [ex.mem_narrowAll (fun c hc _ _ hb => ih c hc hb) h, candidateHolds, candidateHoldsAll_iff]
  | or cs ih =>
    rw [ex.mem_narrowAny (fun c hc _ hb => ih c hc hb) h, candidateHolds, candidateHoldsAny_iff]
    simp
  | notEq _ _ | notIn _ _ | gt _ _ | lt _ _ | gte _ _ | lte _ _ | not _ _ | isNull _ | isNotNull _
  | bucketBitmap _ _ _ =>
    simp only [candidateHolds]
    exact ex.mem_within h

/-! ## The loop, whenever it succeeds -/

/-- A clause that is not applied by reference is tested as it stands. -/
theorem byRefHolds_of_none (htry : ex.tryAndByRef acc c = none) : ex.byRefHolds c x = ex.holds c x := by
  cases c with
  | notEq f v | notIn f vs =>
    by_cases hid : f = "id"
    · simp [byRefHolds, hid]
    · simp only [tryAndByRef, if_neg hid, Option.map_eq_none_iff] at htry
      simp [byRefHolds, hid, htry]
  | not inner => cases htry
  | _ => rfl

/-- **One later clause** narrows the accumulator by its by-reference test. -/
theorem mem_narrow (h : ex.narrow acc c = .ok b) : x ∈ b ↔ x ∈ acc ∧ ex.byRefHolds c x = true := by
  unfold narrow at h
  cases htry : ex.tryAndByRef acc c with
  | none =>
    rw [htry] at h
    rw [ex.byRefHolds_of_none htry]
    exact ex.mem_within h
  | some applied =>
    rw [htry] at h
    cases c with
    | eq f v =>
      obtain ⟨hid, htry⟩ := Option.ite_none_left_eq_some.mp htry
      obtain ⟨vb, hvb, rfl⟩ := Option.map_eq_some_iff.mp htry
      obtain ⟨ff, hff, hstored⟩ := ex.storedBitmap_some hvb
      cases h
      simp [byRefHolds, holds, ← ex.storedHolds_eq_eqHolds hid hff, hstored]
    | isIn f vs =>
      obtain ⟨hid, htry⟩ := Option.ite_none_left_eq_some.mp htry
      obtain ⟨ff, hff, rfl⟩ := Option.map_eq_some_iff.mp htry
      cases h
      rw [mem_unionWithin]
      simp [byRefHolds, holds, ex.storedHolds_eq_eqHolds hid hff]
    | notEq f v =>
      obtain ⟨hid, htry⟩ := Option.ite_none_left_eq_some.mp htry
      obtain ⟨vb, hvb, rfl⟩ := Option.map_eq_some_iff.mp htry
      cases h
      simp [byRefHolds, hid, hvb]
    | notIn f vs =>
      obtain ⟨hid, htry⟩ := Option.ite_none_left_eq_some.mp htry
      obtain ⟨ff, hff, rfl⟩ := Option.map_eq_some_iff.mp htry
      cases h
      rw [mem_subtractValues]
      simp [byRefHolds, hid, hff]
    | not inner =>
      cases htry
      obtain ⟨hits, hhits, hb⟩ := bind_eq_ok_iff.mp h
      cases hb
      rw [Finset.mem_sdiff, ex.mem_evaluateClauseWithCandidates hhits, byRefHolds]
      refine and_congr_right fun hx => ?_
      simp [hx]
    | bucketBitmap f n bm =>
      cases htry
      cases h
      simp [byRefHolds, holds]
    | gt _ _ | lt _ _ | gte _ _ | lte _ _ | and _ | or _ | isNull _ | isNotNull _ => cases htry

/-- The loop keeps the slots that pass every remaining by-reference test; the early exits change nothing, as an empty
accumulator stays empty. -/
theorem mem_computeLoop (h : ex.computeLoop acc cs = .ok b) : x ∈ b ↔ x ∈ acc ∧ ∀ c ∈ cs, ex.byRefHolds c x = true := by
  induction cs generalizing acc with
  | nil =>
    cases h
    simp
  | cons c cs ih =>
    rw [computeLoop] at h
    by_cases hempty : acc = ∅
    · rw [if_pos hempty] at h
      cases h
      simp [hempty]
    · rw [if_neg hempty, bind_eq_ok_iff] at h
      obtain ⟨b₁, hb₁, hrest⟩ := h
      rw [ih hrest, ex.mem_narrow hb₁]
      simp [and_assoc]

/-- **`compute_filters`.** The slots of the first clause that pass the by-reference test of every later one, evaluated
or not. -/
theorem mem_computeFilters (h : ex.computeFilters (c :: cs) = .ok b) :
    x ∈ b ↔ ex.holds c x = true ∧ ∀ d ∈ cs, ex.byRefHolds d x = true := by
  rw [computeFilters, bind_eq_ok_iff] at h
  obtain ⟨b₁, hb₁, hrest⟩ := h
  rw [ex.mem_computeLoop hrest, ex.mem_evaluateClause hb₁]

/-! ## Success -/

/-- The clause evaluates on its own. -/
def Evaluable (c : FilterClause) : Prop := ∃ b, ex.evaluateClause c = .ok b

omit [Host] in
theorem andLoop_ok_each {rs : List (Except BitdexError Bitmap)} {acc : Option Bitmap} (h : andLoop acc rs = .ok b) :
    ∀ r ∈ rs, ∃ b', r = .ok b' := by
  induction rs generalizing acc with
  | nil =>
    intro r hr
    cases hr
  | cons r₀ rs ih =>
    rw [andLoop, bind_eq_ok_iff] at h
    obtain ⟨b₀, hr₀, hrest⟩ := h
    intro r hr
    rcases mem_cons.mp hr with rfl | hmem
    · exact ⟨b₀, hr₀⟩
    · exact ih hrest r hmem

theorem evaluable_of_and (h : ex.Evaluable (.and cs)) : ∀ c ∈ cs, ex.Evaluable c := by
  obtain ⟨b, hb⟩ := h
  rw [evaluateClause_and] at hb
  intro c hc
  have hperm := optimizeAndClause_perm cs ex.filters ex.slots.aliveCount
  exact andLoop_ok_each hb _ (mem_map_of_mem (hperm.mem_iff.mpr hc))

theorem evaluable_of_or (h : ex.Evaluable (.or cs)) : ∀ c ∈ cs, ex.Evaluable c := by
  obtain ⟨b, hb⟩ := h
  rw [evaluateClause] at hb
  generalize (∅ : Bitmap) = result at hb
  induction cs generalizing result with
  | nil =>
    intro c hc
    cases hc
  | cons c₀ cs ih =>
    obtain ⟨b', hc₀, hrest⟩ := ex.evaluateOr_cons hb
    intro c hc
    rcases mem_cons.mp hc with rfl | hmem
    · exact ⟨b', hc₀⟩
    · exact ih _ hrest c hmem

theorem within_ok (h : ex.Evaluable c) (candidates : Bitmap) :
    ∃ b, (do let full ← ex.evaluateClause c; return candidates ∩ full) = .ok b := by
  obtain ⟨full, hfull⟩ := h
  exact ⟨candidates ∩ full, by rw [hfull]; rfl⟩

theorem narrowAll_ok (ih : ∀ c ∈ cs, ∀ candidates, ∃ b, ex.evaluateClauseWithCandidates c candidates = .ok b)
    (candidates : Bitmap) : ∃ b, ex.narrowAll cs candidates = .ok b := by
  induction cs generalizing candidates with
  | nil => exact ⟨candidates, rfl⟩
  | cons c cs ihcs =>
    obtain ⟨b₁, hb₁⟩ := ih c mem_cons_self candidates
    obtain ⟨b₂, hb₂⟩ := ihcs (fun d hd => ih d (mem_cons_of_mem c hd)) b₁
    by_cases hempty : b₁ = ∅
    · exact ⟨b₁, bind_eq_ok_iff.mpr ⟨b₁, hb₁, by rw [if_pos hempty]; rfl⟩⟩
    · exact ⟨b₂, bind_eq_ok_iff.mpr ⟨b₁, hb₁, by rw [if_neg hempty]; exact hb₂⟩⟩

theorem narrowAny_ok (ih : ∀ c ∈ cs, ∃ b, ex.evaluateClauseWithCandidates c candidates = .ok b) (result : Bitmap) :
    ∃ b, ex.narrowAny cs candidates result = .ok b := by
  induction cs generalizing result with
  | nil => exact ⟨result, rfl⟩
  | cons c cs ihcs =>
    obtain ⟨hits, hhits⟩ := ih c mem_cons_self
    obtain ⟨b, hb⟩ := ihcs (fun d hd => ih d (mem_cons_of_mem c hd)) (result ∪ hits)
    exact ⟨b, bind_eq_ok_iff.mpr ⟨hits, hhits, hb⟩⟩

/-- A clause that evaluates also evaluates against any candidates. -/
theorem evaluateClauseWithCandidates_ok (h : ex.Evaluable c) (candidates : Bitmap) :
    ∃ b, ex.evaluateClauseWithCandidates c candidates = .ok b := by
  induction c using FilterClause.tree_induction generalizing candidates with
  | eq f v | isIn f vs =>
    rw [evaluateClauseWithCandidates]
    split
    · exact ⟨_, rfl⟩
    · exact ex.within_ok h candidates
  | and cs ih =>
    exact ex.narrowAll_ok (fun c hc cand => ih c hc (ex.evaluable_of_and h c hc) cand) candidates
  | or cs ih =>
    exact ex.narrowAny_ok (fun c hc => ih c hc (ex.evaluable_of_or h c hc) candidates) ∅
  | notEq _ _ | notIn _ _ | gt _ _ | lt _ _ | gte _ _ | lte _ _ | not _ _ | isNull _ | isNotNull _
  | bucketBitmap _ _ _ =>
    exact ex.within_ok h candidates

theorem narrow_ok (h : ex.Evaluable c) (acc : Bitmap) : ∃ b, ex.narrow acc c = .ok b := by
  unfold narrow
  cases hby : ex.tryAndByRef acc c with
  | none => exact ex.within_ok h acc
  | some applied =>
    cases c with
    | not inner =>
      -- the only by-reference path that can fail
      simp only [tryAndByRef, Option.some.injEq] at hby
      obtain ⟨b, hb⟩ := h
      obtain ⟨b', hb', -⟩ := bind_eq_ok_iff.mp hb
      obtain ⟨hits, hhits⟩ := ex.evaluateClauseWithCandidates_ok ⟨b', hb'⟩ acc
      exact ⟨acc \ hits, by rw [← hby, hhits]; rfl⟩
    | bucketBitmap f n bm =>
      cases hby
      exact ⟨acc ∩ bm, rfl⟩
    | eq f v | notEq f v | isIn f vs | notIn f vs =>
      obtain ⟨-, hby⟩ := Option.ite_none_left_eq_some.mp hby
      obtain ⟨_, -, rfl⟩ := Option.map_eq_some_iff.mp hby
      exact ⟨_, rfl⟩
    | gt _ _ | lt _ _ | gte _ _ | lte _ _ | and _ | or _ | isNull _ | isNotNull _ => cases hby

theorem computeLoop_ok (h : ∀ c ∈ cs, ex.Evaluable c) (acc : Bitmap) : ∃ b, ex.computeLoop acc cs = .ok b := by
  induction cs generalizing acc with
  | nil => exact ⟨acc, rfl⟩
  | cons c cs ih =>
    rw [computeLoop]
    by_cases hempty : acc = ∅
    · exact ⟨acc, by rw [if_pos hempty]⟩
    · obtain ⟨b₁, hb₁⟩ := ex.narrow_ok (h c mem_cons_self) acc
      obtain ⟨b₂, hb₂⟩ := ih (fun d hd => h d (mem_cons_of_mem c hd)) b₁
      rw [if_neg hempty]
      exact ⟨b₂, bind_eq_ok_iff.mpr ⟨b₁, hb₁, hb₂⟩⟩

/-- The loop succeeds whenever every clause evaluates on its own. -/
theorem computeFilters_ok (h : ∀ d ∈ cs, ex.Evaluable d) : ∃ b, ex.computeFilters cs = .ok b := by
  cases cs with
  | nil => exact ⟨_, rfl⟩
  | cons c rest =>
    obtain ⟨b₁, hb₁⟩ := h c mem_cons_self
    obtain ⟨b₂, hb₂⟩ := ex.computeLoop_ok (fun d hd => h d (mem_cons_of_mem c hd)) b₁
    exact ⟨b₂, bind_eq_ok_iff.mpr ⟨b₁, hb₁, hb₂⟩⟩

end QueryExecutor

end Bitdex
