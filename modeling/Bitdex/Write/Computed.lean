import Bitdex.Write.Mutation

/-!
# `Write.Computed` — the value of a computed sort field on four paths

A computed sort field is the greatest or the least of its sources. The document diff and the loader leave a
source without a number out. The recompute of the WAL and the row loop of the dump count it as zero, and the
row loop computes a value even if no source has a number.

`ComputedField.pathsAgree_iff_numbers` says for which sources the four agree.
-/

namespace Bitdex

open List

/-- What a write has for a source. -/
inductive SourceValue where
  | missing
  | null
  | integer (v : Int64)
deriving DecidableEq

/-- The sort value, if there is a number. -/
def SourceValue.toSortU32 : SourceValue → Option UInt32
  | .integer v => valueToSortU32 (.integer v)
  | _ => none

/-- The sort value of a `Set` op: `json_to_qvalue` reads null as the integer zero. -/
def SourceValue.setValue : SourceValue → Option UInt32
  | .null => valueToSortU32 (.integer 0)
  | v => v.toSortU32

/-- A document has no nulls: a source that is null is not in it. -/
def sourceDocument (a : String → SourceValue) : Document := fun f =>
  match a f with
  | .integer v => some (.single (.integer v))
  | _ => none

namespace ComputedField

variable (computed : ComputedField)

/-- The value that `apply_computed_sort_fields` inserts into a document. -/
def loadedValue (doc : Document) : Option UInt32 :=
  computedValue computed.op (computed.sourceFields.filterMap (fieldToSortU32 doc))

/-- The value that `recompute_computed_sorts_for_slot` writes if the batch sets a source. -/
def recompute (sortValues storedSortValues : String → Option UInt32) : Option UInt32 :=
  if computed.sourceFields.any fun f => (sortValues f).isSome then
    some (applyComputedOp computed.op
      (computed.sourceFields.map fun f => ((sortValues f).or (storedSortValues f)).getD 0))
  else none

/-- The value of the row loop. -/
def rowValue (rowSv : String → Option UInt32) : UInt32 :=
  applyComputedOp computed.op (computed.sourceFields.map fun f => (rowSv f).getD 0)

/-- The loader, the recompute for a slot without a stored document and the row loop compute the value of the
diff. -/
@[mk_iff]
structure PathsAgree (a : String → SourceValue) : Prop where
  loader : computed.loadedValue (sourceDocument a) =
    (resolveComputedSort computed (fun _ => none) (sourceDocument a)).2
  wal : computed.recompute (fun f => (a f).setValue) (fun _ => none) =
    (resolveComputedSort computed (fun _ => none) (sourceDocument a)).2
  dump : some (computed.rowValue fun f => (a f).toSortU32) =
    (resolveComputedSort computed (fun _ => none) (sourceDocument a)).2

end ComputedField

/-! ## Zeros for the sources without a number -/

theorem applyComputedOp_greatest_iff {values : List UInt32} {m : UInt32} (hne : values ≠ []) :
    applyComputedOp .greatest values = m ↔ m ∈ values ∧ ∀ v ∈ values, v ≤ m := by
  obtain ⟨x, hx⟩ := Option.ne_none_iff_exists'.mp (mt max?_eq_none_iff.mp hne)
  rw [← max?_eq_some_iff, applyComputedOp, hx, Option.getD_some, Option.some.injEq]

theorem applyComputedOp_least_iff {values : List UInt32} {m : UInt32} (hne : values ≠ []) :
    applyComputedOp .least values = m ↔ m ∈ values ∧ ∀ v ∈ values, m ≤ v := by
  obtain ⟨x, hx⟩ := Option.ne_none_iff_exists'.mp (mt min?_eq_none_iff.mp hne)
  rw [← min?_eq_some_iff, applyComputedOp, hx, Option.getD_some, Option.some.injEq]

section Zeros

variable {sources : List String} {u : String → Option UInt32}

theorem mem_zeros_iff {x : UInt32} : x ∈ sources.map (fun f => (u f).getD 0) ↔
    x ∈ sources.filterMap u ∨ x = 0 ∧ ∃ f ∈ sources, u f = none := by
  simp only [mem_map, mem_filterMap]
  constructor
  · rintro ⟨f, hf, rfl⟩
    cases hu : u f with
    | none => exact .inr ⟨rfl, f, hf, hu⟩
    | some y => exact .inl ⟨f, hf, hu⟩
  · rintro (⟨f, hf, hu⟩ | ⟨rfl, f, hf, hu⟩)
    · exact ⟨f, hf, by rw [hu]; rfl⟩
    · exact ⟨f, hf, by rw [hu]; rfl⟩

variable (hne : sources.filterMap u ≠ [])

include hne

theorem zeros_ne_nil : sources.map (fun f => (u f).getD 0) ≠ [] := by
  obtain ⟨x, hx⟩ := exists_mem_of_ne_nil _ hne
  exact ne_nil_of_mem (mem_zeros_iff.mpr (.inl hx))

theorem greatest_zeros : applyComputedOp .greatest (sources.map fun f => (u f).getD 0) =
    applyComputedOp .greatest (sources.filterMap u) := by
  obtain ⟨hmem, hle⟩ := (applyComputedOp_greatest_iff hne).mp rfl
  refine (applyComputedOp_greatest_iff (zeros_ne_nil hne)).mpr ⟨mem_zeros_iff.mpr (.inl hmem), fun v hv => ?_⟩
  rcases mem_zeros_iff.mp hv with hv | ⟨rfl, -⟩
  · exact hle v hv
  · exact UInt32.zero_le

/-- The zeros do not change the least value iff there are none or it is zero without them. -/
theorem least_zeros_iff : applyComputedOp .least (sources.map fun f => (u f).getD 0) =
    applyComputedOp .least (sources.filterMap u) ↔ (∀ f ∈ sources, u f ≠ none) ∨ 0 ∈ sources.filterMap u := by
  obtain ⟨hmem, hle⟩ := (applyComputedOp_least_iff hne).mp rfl
  rw [applyComputedOp_least_iff (zeros_ne_nil hne)]
  constructor
  · intro ⟨_, hall⟩
    refine or_iff_not_imp_left.mpr fun hnone => ?_
    push Not at hnone
    have hzero := hall 0 (mem_zeros_iff.mpr (.inr ⟨rfl, hnone⟩))
    rwa [UInt32.le_zero_iff.mp hzero] at hmem
  · intro h
    refine ⟨mem_zeros_iff.mpr (.inl hmem), fun v hv => ?_⟩
    rcases mem_zeros_iff.mp hv with hv | ⟨rfl, f, hf, hu⟩
    · exact hle v hv
    · exact hle 0 (h.resolve_left fun hall => hall f hf hu)

end Zeros

/-! ## The paths -/

namespace ComputedField

variable (computed : ComputedField) (a : String → SourceValue)

theorem fieldToSortU32_sourceDocument : fieldToSortU32 (sourceDocument a) = fun f => (a f).toSortU32 := by
  funext f
  unfold fieldToSortU32 sourceDocument
  cases a f <;> rfl

/-- The diff against an empty document leaves a source without a number out, as the loader does. -/
theorem resolveComputedSort_sourceDocument :
    (resolveComputedSort computed (fun _ => none) (sourceDocument a)).2 = computed.loadedValue (sourceDocument a) := by
  unfold resolveComputedSort
  dsimp only
  split
  · simp only [fieldToSortU32, Option.or_none]
    rfl
  · next hany =>
    have hnil : computed.sourceFields.filterMap (fieldToSortU32 (sourceDocument a)) = [] := by
      refine filterMap_eq_nil_iff.mpr fun f hf => ?_
      have hf := mt (fun h => any_eq_true.mpr ⟨f, hf, h⟩) hany
      revert hf
      unfold fieldToSortU32 sourceDocument
      cases a f <;> simp [fieldValuesEqual]
    rw [loadedValue, hnil]
    rfl

/-- A source with a number is set, and the recompute then reads null and a missing source as zero alike. -/
theorem recompute_eq (hne : computed.sourceFields.filterMap (fun f => (a f).toSortU32) ≠ []) :
    computed.recompute (fun f => (a f).setValue) (fun _ => none) =
      some (computed.rowValue fun f => (a f).toSortU32) := by
  obtain ⟨x, hx⟩ := exists_mem_of_ne_nil _ hne
  obtain ⟨f, hf, hu⟩ := mem_filterMap.mp hx
  have hset : (a f).setValue = some x := by
    revert hu
    cases a f <;> simp [SourceValue.setValue, SourceValue.toSortU32]
  have hzero : ∀ v : SourceValue, (v.setValue.or none).getD 0 = v.toSortU32.getD 0 := by
    intro v
    cases v <;> rfl
  unfold recompute
  rw [if_pos (any_eq_true.mpr ⟨f, hf, Option.isSome_iff_exists.mpr ⟨x, hset⟩⟩)]
  simp only [hzero]
  rfl

/-- The paths agree iff a source has a number and, for the least value, all have one or one is zero. -/
theorem pathsAgree_iff_numbers : computed.PathsAgree a ↔ (∃ f ∈ computed.sourceFields, (a f).toSortU32 ≠ none) ∧
      (computed.op = .greatest ∨ (∀ f ∈ computed.sourceFields, (a f).toSortU32 ≠ none) ∨
        ∃ f ∈ computed.sourceFields, (a f).toSortU32 = some 0) := by
  rw [pathsAgree_iff, resolveComputedSort_sourceDocument, loadedValue, fieldToSortU32_sourceDocument,
    computedValue, ← mem_filterMap]
  by_cases hne : computed.sourceFields.filterMap (fun f => (a f).toSortU32) = []
  · have hnone := filterMap_eq_nil_iff.mp hne
    simp only [hne, if_pos, reduceCtorEq, and_false, false_iff]
    exact fun h => h.1.elim fun f hf => hf.2 (hnone f hf.1)
  · have hsome : ∃ f ∈ computed.sourceFields, (a f).toSortU32 ≠ none := by
      by_contra hnone
      push Not at hnone
      exact hne (filterMap_eq_nil_iff.mpr hnone)
    rw [if_neg hne, recompute_eq computed a hne]
    simp only [true_and, and_self, Option.some.injEq, hsome, rowValue]
    cases computed.op with
    | greatest => simp [greatest_zeros hne, true_or]
    | least => simp [least_zeros_iff hne, reduceCtorEq, false_or]

theorem not_pathsAgree : ¬ (⟨.least, ["existedAt", "publishedAt"]⟩ : ComputedField).PathsAgree
    fun f => if f = "existedAt" then .integer 5 else .missing :=
  fun h => absurd h.wal (by decide)

end ComputedField

end Bitdex
