import Mathlib.Data.List.Sort
import Bitdex.Query

/-!
# `Planner` — cardinality estimates and clause ordering

The planner (`planner.rs`) sorts clauses by an estimate of how many documents each matches. The sort
is stable, which `List.insertionSort` is too. Only the order of the clauses leaves this module, so
the one fact the executor needs is that planning permutes them.
-/

namespace Bitdex

/-- Induction over clause trees: the sub-clauses of a conjunction or a disjunction are its list's
members. -/
@[elab_as_elim]
theorem FilterClause.tree_induction {P : FilterClause → Prop} (eq : ∀ f v, P (.eq f v)) (notEq : ∀ f v, P (.notEq f v))
    (isIn : ∀ f vs, P (.isIn f vs)) (notIn : ∀ f vs, P (.notIn f vs))
    (gt : ∀ f v, P (.gt f v)) (lt : ∀ f v, P (.lt f v)) (gte : ∀ f v, P (.gte f v)) (lte : ∀ f v, P (.lte f v))
    (not : ∀ c, P c → P (.not c)) (and : ∀ cs, (∀ c ∈ cs, P c) → P (.and cs))
    (or : ∀ cs, (∀ c ∈ cs, P c) → P (.or cs)) (isNull : ∀ f, P (.isNull f)) (isNotNull : ∀ f, P (.isNotNull f))
    (bucketBitmap : ∀ f n b, P (.bucketBitmap f n b)) (c : FilterClause) : P c := by
  refine @FilterClause.rec P (fun cs => ∀ c ∈ cs, P c)
    eq notEq isIn notIn gt lt gte lte not and or isNull isNotNull bucketBitmap ?_ ?_ c
  · intro c hc
    cases hc
  · intro head tail hhead htail c hc
    rcases List.mem_cons.mp hc with rfl | hmem
    · exact hhead
    · exact htail c hmem

/-- The planner's own lookup: it always lowercases, and without a context it resolves no string. -/
def plannerResolveValueKey [Host] (ctx : Option Tables) (field : String) (val : Value) :
    Option UInt64 :=
  match ctx with
  | some t => Tables.resolveValueKey { t with caseSensitiveFields := none } field val
  | none => valueToBitmapKey val

section Estimate

variable [Host] (filters : FilterIndex) (aliveCount : Nat) (ctx : Option Tables)

/-- The sum of the cardinalities of the values that resolve. -/
def totalCardinality (ff : FilterField) (field : String) (values : List Value) : Nat :=
  (values.map fun v =>
    match plannerResolveValueKey ctx field v with
    | some key => ff.cardinality key
    | none => 0).sum

/-- The `Eq` arm: an unknown field or an unconvertible value counts as the worst case. -/
def estimateEq (field : String) (value : Value) : Option Nat := do
  let ff ← filters.getField field
  let key ← plannerResolveValueKey ctx field value
  return ff.cardinality key

/-- The estimate of `IsNull`. -/
def estimateNull (field : String) : Nat :=
  match filters.getField field with
  | some ff => ff.cardinality nullBitmapKey
  | none => aliveCount / 10

mutual

/-- How many documents a clause may match. -/
def estimateCardinality : FilterClause → Nat
  | .eq field value => (estimateEq filters ctx field value).getD aliveCount
  | .notEq field value =>
    match estimateEq filters ctx field value with
    | some card => aliveCount - card
    | none => aliveCount
  | .isIn field values =>
    match filters.getField field with
    | some ff => min (totalCardinality ctx ff field values) aliveCount
    | none => aliveCount
  | .notIn field values =>
    match filters.getField field with
    | some ff => aliveCount - min (totalCardinality ctx ff field values) aliveCount
    | none => aliveCount
  | .not inner => aliveCount - estimateCardinality inner
  | .and clauses => ((estimateEach clauses).min?).getD 0
  | .or clauses => min (estimateEach clauses).sum aliveCount
  | .gt _ _ | .lt _ _ | .gte _ _ | .lte _ _ => aliveCount / 2
  | .bucketBitmap _ _ bitmap => bitmap.card
  | .isNull field => estimateNull filters aliveCount field
  | .isNotNull field => aliveCount - estimateNull filters aliveCount field

/-- The estimates of some clauses. -/
def estimateEach : List FilterClause → List Nat
  | [] => []
  | c :: cs => estimateCardinality c :: estimateEach cs

end

theorem estimateEach_eq_map (cs : List FilterClause) :
    estimateEach filters aliveCount ctx cs = cs.map (estimateCardinality filters aliveCount ctx) := by
  induction cs with
  | nil => rfl
  | cons c cs ih => rw [estimateEach, ih, List.map_cons]

/-- A stable sort of clauses by estimate. -/
def sortByEstimate (clauses : List FilterClause) : List FilterClause :=
  clauses.insertionSort fun a b =>
    estimateCardinality filters aliveCount ctx a ≤ estimateCardinality filters aliveCount ctx b

theorem sortByEstimate_perm (clauses : List FilterClause) :
    (sortByEstimate filters aliveCount ctx clauses).Perm clauses :=
  List.perm_insertionSort _ clauses

end Estimate

/-- The order in which an `And` node evaluates its children; no string context is passed. -/
def optimizeAndClause [Host] (clauses : List FilterClause) (filters : FilterIndex)
    (aliveCount : Nat) : List FilterClause :=
  sortByEstimate filters aliveCount none clauses

theorem optimizeAndClause_perm [Host] (clauses : List FilterClause) (filters : FilterIndex)
    (aliveCount : Nat) : (optimizeAndClause clauses filters aliveCount).Perm clauses :=
  sortByEstimate_perm filters aliveCount none clauses

/-- The clauses in evaluation order. -/
structure QueryPlan where
  orderedClauses : List FilterClause
  useSimpleSort : Bool
  estimatedResultSize : Nat

/-- Below this estimate the executor sorts in memory instead of walking bit layers. -/
def sortFirstThreshold : Nat := 1000

/-- Order the clauses by their estimates. -/
def planQuery [Host] (clauses : List FilterClause) (filters : FilterIndex) (slots : SlotAllocator)
    (ctx : Option Tables) : QueryPlan :=
  let aliveCount := slots.aliveCount
  if clauses.isEmpty then ⟨[], decide (aliveCount < sortFirstThreshold), aliveCount⟩
  else
    let ordered := sortByEstimate filters aliveCount ctx clauses
    let size := ((ordered.map (estimateCardinality filters aliveCount ctx)).head?).getD aliveCount
    ⟨ordered, decide (size < sortFirstThreshold), size⟩

/-- Planning only reorders the clauses. -/
theorem planQuery_perm [Host] (clauses : List FilterClause) (filters : FilterIndex)
    (slots : SlotAllocator) (ctx : Option Tables) :
    (planQuery clauses filters slots ctx).orderedClauses.Perm clauses := by
  unfold planQuery
  by_cases h : clauses.isEmpty
  · have hnil : clauses = [] := List.isEmpty_iff.mp h
    simp [hnil]
  · simp only [h]
    exact sortByEstimate_perm filters slots.aliveCount ctx clauses

end Bitdex
