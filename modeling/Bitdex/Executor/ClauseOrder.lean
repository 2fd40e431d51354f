import Bitdex.Executor.Compute

/-!
# `Executor.ClauseOrder` — is the answer the intersection of the clauses?

Top-level clauses are meant as a conjunction, so the planner may reorder them. `intersectClauses` states that meaning.
The accumulator loop applies other tests to later clauses than `evaluate_clause` does, so it computes the
intersection, in every order, exactly when no slot of any first clause is told apart by those tests
(`computeFilters_perm_iff`). A slot that is null in a negated field is told apart.
-/

namespace Bitdex

open List

namespace QueryExecutor

section

variable [Host] (ex : QueryExecutor)

/-- Every clause on its own, intersected; all alive slots when there is no clause. -/
def intersectClauses : List FilterClause → Except BitdexError Bitmap
  | [] => .ok ex.aliveBitmap
  | c :: rest => do
      let first ← ex.evaluateClause c
      rest.foldlM (fun acc d => do
        let bitmap ← ex.evaluateClause d
        return acc ∩ bitmap) first

/-- Every stored filter bitmap is a subset of the alive bitmap. -/
def FiltersWithinAlive : Prop :=
  ∀ field ∈ ex.filters.fields.entries, ∀ value ∈ field.2.bitmaps.entries,
    value.2.fused ⊆ ex.aliveBitmap

instance : Decidable ex.FiltersWithinAlive :=
  inferInstanceAs (Decidable (∀ field ∈ ex.filters.fields.entries,
    ∀ value ∈ field.2.bitmaps.entries, value.2.fused ⊆ ex.aliveBitmap))

theorem intersectClauses_cons_ok {c : FilterClause} {rest : List FilterClause} (h : ∀ d ∈ c :: rest, ex.Evaluable d) :
    ∃ b, ex.intersectClauses (c :: rest) = .ok b ∧ ∀ x, x ∈ b ↔ ∀ d ∈ c :: rest, ex.holds d x = true := by
  have key : ∀ (l : List FilterClause) (acc : Bitmap), (∀ d ∈ l, ex.Evaluable d) → ∃ b, l.foldlM (fun acc d => do
          let bitmap ← ex.evaluateClause d
          return acc ∩ bitmap) acc = .ok b ∧
        ∀ x, x ∈ b ↔ x ∈ acc ∧ ∀ d ∈ l, ex.holds d x = true := by
    intro l
    induction l with
    | nil => exact fun acc _ => ⟨acc, rfl, by simp⟩
    | cons d l ih =>
      intro acc hl
      obtain ⟨b₁, hb₁⟩ := ex.within_ok (hl d mem_cons_self) acc
      obtain ⟨b₂, hb₂, hmem₂⟩ := ih b₁ fun e he => hl e (mem_cons_of_mem d he)
      refine ⟨b₂, ?_, fun x => ?_⟩
      · rw [foldlM_cons, hb₁]
        exact hb₂
      · rw [hmem₂, ex.mem_within hb₁]
        simp [and_assoc]
  obtain ⟨b₁, hb₁⟩ := h c mem_cons_self
  obtain ⟨b₂, hb₂, hmem₂⟩ := key rest b₁ fun d hd => h d (mem_cons_of_mem c hd)
  refine ⟨b₂, ?_, fun x => ?_⟩
  · rw [intersectClauses, hb₁]
    exact hb₂
  · rw [hmem₂, ex.mem_evaluateClause hb₁]
    simp

/-- What the intersection has, whenever it is one. -/
theorem mem_intersectClauses {clauses : List FilterClause} {b : Bitmap} {x : UInt32}
    (h : ex.intersectClauses clauses = .ok b) :
    x ∈ b ↔ (clauses = [] → x ∈ ex.aliveBitmap) ∧ ∀ c ∈ clauses, ex.holds c x = true := by
  have hloop : ∀ (l : List FilterClause) (acc : Bitmap), l.foldlM (fun acc d => do
      let bitmap ← ex.evaluateClause d
      return acc ∩ bitmap) acc = .ok b → (x ∈ b ↔ x ∈ acc ∧ ∀ d ∈ l, ex.holds d x = true) := by
    intro l
    induction l with
    | nil =>
      intro acc hacc
      cases hacc
      simp
    | cons d l ih =>
      intro acc hacc
      rw [foldlM_cons, bind_eq_ok_iff] at hacc
      obtain ⟨b₁, hb₁, hrest⟩ := hacc
      rw [ih b₁ hrest, ex.mem_within hb₁, forall_mem_cons, and_assoc]
  cases clauses with
  | nil =>
    cases h
    simp
  | cons c rest =>
    rw [intersectClauses, bind_eq_ok_iff] at h
    obtain ⟨first, hfirst, hrest⟩ := h
    rw [hloop rest first hrest, ex.mem_evaluateClause hfirst, forall_mem_cons]
    simp

/-- On one order, the loop returns the intersection exactly when by-reference tests and clauses agree on the first
clause's slots. -/
theorem computeFilters_eq_intersect_iff {c : FilterClause} {rest clauses : List FilterClause}
    (hperm : (c :: rest).Perm clauses) (h : ∀ d ∈ clauses, ex.Evaluable d) :
    ex.computeFilters (c :: rest) = ex.intersectClauses clauses ↔ ∀ slot, ex.holds c slot = true →
        ((∀ d ∈ rest, ex.byRefHolds d slot = true) ↔ ∀ d ∈ rest, ex.holds d slot = true) := by
  have hok : ∀ d ∈ c :: rest, ex.Evaluable d := fun d hd => h d (hperm.mem_iff.mp hd)
  obtain ⟨b, hb⟩ := ex.computeFilters_ok hok
  have hmem : ∀ x, x ∈ b ↔ ex.holds c x = true ∧ ∀ d ∈ rest, ex.byRefHolds d x = true :=
    fun x => ex.mem_computeFilters hb
  obtain ⟨c₀, rest₀, rfl⟩ : ∃ c₀ rest₀, clauses = c₀ :: rest₀ := by
    cases clauses with
    | nil => exact absurd hperm.length_eq (by simp)
    | cons c₀ rest₀ => exact ⟨c₀, rest₀, rfl⟩
  obtain ⟨b', hb', hmem'⟩ := ex.intersectClauses_cons_ok h
  have hmem'' : ∀ x, x ∈ b' ↔ ex.holds c x = true ∧ ∀ d ∈ rest, ex.holds d x = true := by
    intro x
    rw [hmem']
    simp [← hperm.mem_iff]
  rw [hb, hb', Except.ok.injEq]
  constructor
  · rintro rfl slot hc
    have h₁ := hmem slot
    rw [hmem'' slot] at h₁
    simpa [hc] using h₁.symm
  · intro hagree
    ext x
    rw [hmem, hmem'']
    exact and_congr_right fun hc => hagree x hc

/-- **Order independence.** For clauses that each evaluate, `compute_filters` returns the intersection of the clauses
in every order exactly when, for every choice of the first, no slot of it is told apart by the by-reference tests of
the others and by the clauses themselves. -/
theorem computeFilters_perm_iff (clauses : List FilterClause) (h : ∀ d ∈ clauses, ex.Evaluable d) :
    (∀ l, l.Perm clauses → ex.computeFilters l = ex.intersectClauses clauses) ↔
      ∀ c rest, (c :: rest).Perm clauses → ∀ slot, ex.holds c slot = true →
        ((∀ d ∈ rest, ex.byRefHolds d slot = true) ↔ ∀ d ∈ rest, ex.holds d slot = true) := by
  constructor
  · intro hall c rest hperm
    exact (ex.computeFilters_eq_intersect_iff hperm h).mp (hall (c :: rest) hperm)
  · intro hagree l hperm
    cases l with
    | nil =>
      obtain rfl := hperm.nil_eq
      rfl
    | cons c rest => exact (ex.computeFilters_eq_intersect_iff hperm h).mpr (hagree c rest hperm)

end

/-! ## A null slot tells the paths apart -/

section

attribute [local instance] Host.ascii

/-- Two alive slots. Slot 0 has `a = 1` and is null in `b`; slot 1 has `b = 5`. -/
def nullSample : QueryExecutor where
  slots := ⟨2, .new {0, 1}, []⟩
  filters := ⟨((∅ : HashMap String FilterField).insert "a"
      ⟨(∅ : HashMap UInt64 VersionedBitmap).insert 1 (.new {0}), {}⟩).insert "b"
      ⟨((∅ : HashMap UInt64 VersionedBitmap).insert 5 (.new {1})).insert nullBitmapKey (.new {0}), {}⟩⟩
  sorts := ⟨∅⟩
  maxPageSize := 100
  tables := .empty

/-- `a = 1 AND b != 5` returns the null slot in one order and nothing in the other; the intersection
of the two clauses is empty. -/
theorem computeFilters_order_matters : nullSample.FiltersWithinAlive ∧
    nullSample.computeFilters [.eq "a" (.integer 1), .notEq "b" (.integer 5)] = .ok {0} ∧
    nullSample.computeFilters [.notEq "b" (.integer 5), .eq "a" (.integer 1)] = .ok ∅ ∧
    nullSample.intersectClauses [.eq "a" (.integer 1), .notEq "b" (.integer 5)] = .ok ∅ := by
  refine ⟨?_, ?_, ?_, ?_⟩ <;> decide +kernel

/-- Without a negated clause the two tests are the same, so every order gives the intersection. -/
theorem computeFilters_perm_iff_positive :
    (∀ d ∈ [FilterClause.eq "a" (.integer 1), .isIn "b" [.integer 5]], nullSample.Evaluable d) ∧
    ∀ l, l.Perm [.eq "a" (.integer 1), .isIn "b" [.integer 5]] → nullSample.computeFilters l =
        nullSample.intersectClauses [.eq "a" (.integer 1), .isIn "b" [.integer 5]] := by
  have hok : ∀ d ∈ [FilterClause.eq "a" (.integer 1), .isIn "b" [.integer 5]], nullSample.Evaluable d := by
    intro d hd
    rcases mem_cons.mp hd with rfl | hd
    · exact ⟨{0}, by decide +kernel⟩
    · rcases mem_singleton.mp hd with rfl
      exact ⟨{1}, by decide +kernel⟩
  refine ⟨hok, (nullSample.computeFilters_perm_iff _ hok).mpr fun c rest hperm slot _ => ?_⟩
  refine forall₂_congr fun d hd => ?_
  have hmem := hperm.mem_iff.mp (mem_cons_of_mem c hd)
  rcases mem_cons.mp hmem with rfl | hmem
  · rfl
  · rcases mem_singleton.mp hmem with rfl
    rfl

end

end QueryExecutor

end Bitdex
