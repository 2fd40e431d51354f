import Bitdex.Library.LastWrite
import Bitdex.Sync.Ops

/-!
# `Sync.Dedup` — which ops of an entity survive deduplication

Deduplication keeps one remove and one set of a scalar field and the sign of the net count of a multi-value key.
`survivors` says without the loop which ops are left.
-/

namespace Bitdex

open LastWrite List Op Function
open Collected (step rebuild emit)

variable {J : Type}

/-! ## What the loop collects -/

/-- Every element once, in the order of the first occurrences. -/
def firstArrivals (fields : List String) : List String := fields.reverse.dedup.reverse

theorem mem_firstArrivals {fields : List String} {f : String} : f ∈ firstArrivals fields ↔ f ∈ fields := by
  simp [firstArrivals]

theorem firstArrivals_concat (fields : List String) (f : String) : firstArrivals (fields ++ [f]) =
      if f ∈ fields then firstArrivals fields else firstArrivals fields ++ [f] := by
  rw [firstArrivals, reverse_append, reverse_singleton, singleton_append]
  split
  · next h => rw [dedup_cons_of_mem (mem_reverse.mpr h), firstArrivals]
  · next h => rw [dedup_cons_of_notMem (mt mem_reverse.mp h), reverse_cons, firstArrivals]

namespace Op

/-- The value that the op sets the field to. -/
def setValue (f : String) : Op J → Option J
  | .set g v => if g = f then some v else none
  | _ => none

/-- The value that the op removes from the field. -/
def removeValue (f : String) : Op J → Option J
  | .remove g v => if g = f then some v else none
  | _ => none

/-- Whether the op sets the field or removes a value of it. -/
def setsField (f : String) : Op J → Option Bool
  | .set g _ => if g = f then some true else none
  | .remove g _ => if g = f then some false else none
  | _ => none

/-- The key that the op counts for. -/
def multiKey (text : JsonText J) (setFields : String → Bool) : Op J → Option (String × String)
  | .remove f v => if setFields f then none else some (f, text.render v)
  | .add f v => some (f, text.render v)
  | _ => none

/-- The scalar field that the op is about. -/
def scalarField (setFields : String → Bool) (op : Op J) : Option String :=
  match op with
  | .set f _ | .remove f _ => if setFields f then some f else none
  | _ => none

theorem scalarField_some {setFields : String → Bool} {op : Op J} {f : String}
    (h : op.scalarField setFields = some f) : setFields f = true := by
  cases op with
  | set g v | remove g v =>
    obtain ⟨hg, heq⟩ := Option.ite_none_right_eq_some.mp h
    exact Option.some.inj heq ▸ hg
  | _ => cases h

/-- What the op adds to the net count of a key. -/
def delta (text : JsonText J) (setFields : String → Bool) (key : String × String) (op : Op J) : Int :=
  if op.multiKey text setFields = some key then
    match op with
    | .add _ _ => 1
    | _ => -1
  else 0

end Op

section Collect

variable (text : JsonText J) (setFields : String → Bool) (l : List (Op J))

theorem lastSet_foldl (f : String) : (l.foldl (step text setFields) .empty).lastSet f = last (setValue f) l := by
  induction l using reverseRecOn with
  | nil => rfl
  | append_singleton l op ih =>
    rw [foldl_append, last_concat, ← ih]
    cases op with
    | set g v =>
      by_cases hg : g = f
      · simp [step, setValue, hg]
      · simp [step, setValue, hg, update_of_ne (Ne.symm hg)]
    | remove g v =>
      simp only [foldl_cons, foldl_nil, step, setValue, Option.none_or]
      split <;> rfl
    | _ => rfl

theorem lastRemove_foldl {f : String} (hf : setFields f = true) :
    (l.foldl (step text setFields) .empty).lastRemove f = last (removeValue f) l := by
  induction l using reverseRecOn with
  | nil => rfl
  | append_singleton l op ih =>
    rw [foldl_append, last_concat, ← ih]
    cases op with
    | remove g v =>
      by_cases hg : g = f
      · simp [step, removeValue, hg, hf]
      · simp only [foldl_cons, foldl_nil, step, removeValue, hg, if_false, Option.none_or]
        split
        · exact update_of_ne (Ne.symm hg) _ _
        · rfl
    | _ => rfl

theorem lastScalarIsSet_foldl {f : String} (hf : setFields f = true) :
    (l.foldl (step text setFields) .empty).lastScalarIsSet f = (last (setsField f) l).getD false := by
  induction l using reverseRecOn with
  | nil => rfl
  | append_singleton l op ih =>
    rw [foldl_append, last_concat]
    cases op with
    | set g v =>
      by_cases hg : g = f
      · simp [step, setsField, hg]
      · simp [step, setsField, hg, update_of_ne (Ne.symm hg), ih]
    | remove g v =>
      by_cases hg : g = f
      · simp [step, setsField, hg, hf]
      · simp only [foldl_cons, foldl_nil, step, setsField, hg, if_false, Option.none_or, ← ih]
        split
        · exact update_of_ne (Ne.symm hg) _ _
        · rfl
    | _ => exact ih

/-- The scalar fields stand in the order of their first ops. -/
theorem scalarFieldOrder_foldl (hset : ∀ f v, .set f v ∈ l → setFields f = true) :
    (l.foldl (step text setFields) .empty).scalarFieldOrder = firstArrivals (l.filterMap (scalarField setFields)) ∧
      ∀ f, f ∈ l.filterMap (scalarField setFields) ↔ (l.foldl (step text setFields) .empty).lastSet f ≠ none ∨
          (l.foldl (step text setFields) .empty).lastRemove f ≠ none := by
  induction l using reverseRecOn with
  | nil => exact ⟨rfl, by simp [Collected.empty]⟩
  | append_singleton l op ih =>
    obtain ⟨horder, hmem⟩ := ih fun f v hv => hset f v (mem_append_left _ hv)
    rw [foldl_append, filterMap_append]
    generalize l.foldl (step text setFields) .empty = c at horder hmem
    -- a field is entered by its first set or remove, whichever comes first
    have hstep : ∀ f, scalarField setFields op = some f → firstArrivals (l.filterMap (scalarField setFields) ++ [f]) =
        if (c.lastSet f).isNone && (c.lastRemove f).isNone then c.scalarFieldOrder ++ [f] else c.scalarFieldOrder := by
      intro f _
      rw [firstArrivals_concat, ← horder]
      cases hs : c.lastSet f <;> cases hr : c.lastRemove f <;> simp_all
    cases op with
    | set g v =>
      have hscalar : scalarField setFields (.set g v) = some g := by
        simp [scalarField, hset g v (by simp)]
      rw [filterMap_cons_some hscalar, filterMap_nil]
      refine ⟨(hstep g hscalar).symm, fun f => ?_⟩
      by_cases hg : f = g
      · simp [step, hg]
      · simp [step, hg, ← hmem]
    | remove g v =>
      cases hf : setFields g with
      | true =>
        have hscalar : scalarField setFields (.remove g v) = some g := by simp [scalarField, hf]
        rw [filterMap_cons_some hscalar, filterMap_nil]
        refine ⟨?_, fun f => ?_⟩
        · rw [hstep g hscalar, Bool.and_comm]
          simp [step, hf]
        · by_cases hg : f = g
          · simp [step, hg, hf]
          · simp [step, hg, hf, ← hmem]
      | false =>
        have hnone : scalarField setFields (.remove g v) = none := by simp [scalarField, hf]
        rw [filterMap_cons_none hnone, filterMap_nil, append_nil, foldl_cons, foldl_nil, step, hf]
        exact ⟨horder, hmem⟩
    | _ =>
      rw [filterMap_cons_none rfl, filterMap_nil, append_nil]
      exact ⟨horder, hmem⟩

theorem multiValueOrder_foldl :
    (l.foldl (step text setFields) .empty).multiValueOrder = (l.filterMap (multiKey text setFields)).dedup := by
  induction l using reverseRecOn with
  | nil => rfl
  | append_singleton l op ih =>
    rw [foldl_append, filterMap_append]
    cases op with
    | remove g v =>
      simp only [foldl_cons, foldl_nil, step, filterMap_cons, multiKey, filterMap_nil]
      split
      · simpa using ih
      · simp [touchMultiValueKey, dedup_concat, ih]
    | add g v =>
      simp [step, multiKey, touchMultiValueKey, dedup_concat, ih]
    | _ =>
      rw [filterMap_cons_none rfl, filterMap_nil, append_nil]
      exact ih

theorem multiValueNet_foldl (key : String × String) :
    (l.foldl (step text setFields) .empty).multiValueNet key = (l.map (delta text setFields key)).sum := by
  induction l using reverseRecOn with
  | nil => rfl
  | append_singleton l op ih =>
    rw [foldl_append, map_append, sum_append, ← ih]
    cases op with
    | remove g v =>
      simp only [foldl_cons, foldl_nil, step, map_cons, map_nil,
        sum_cons, sum_nil, delta, multiKey]
      split
      · simp
      · by_cases hkey : (g, text.render v) = key
        · simp [hkey, Int.sub_eq_add_neg]
        · simp [hkey, update_of_ne (Ne.symm hkey)]
    | add g v =>
      by_cases hkey : (g, text.render v) = key
      · simp [step, delta, multiKey, hkey]
      · simp [step, delta, multiKey, hkey, update_of_ne (Ne.symm hkey)]
    | _ => simp [step, delta, multiKey]

theorem queryOrder_foldl (h : ∀ op ∈ l, op.isQueryOpSet = false) :
    (l.foldl (step text setFields) .empty).queryOrder = [] := by
  refine foldl_view Collected.queryOrder (fun op hop s => ?_) .empty
  cases op with
  | queryOpSet q ops => cases h _ hop
  | remove g v =>
    simp only [step]
    split <;> rfl
  | _ => rfl

end Collect

/-! ## Which ops survive -/

section Survivors

variable (text : JsonText J) (l : List (Op J))

/-- Some op sets the field. -/
def isScalar (f : String) : Bool := l.any (·.isSetOf f)

/-- What is left of a scalar field's removes: the last one. -/
def survivingRemove (f : String) : Option (Op J) := (last (removeValue f) l).map (.remove f)

/-- What is left of a scalar field's sets: the last one, unless a remove comes after it. -/
def survivingSet (f : String) : Option (Op J) :=
  if last (setsField f) l = some true then (last (setValue f) l).map (.set f) else none

/-- What is left of a multi-value key: an add if added more often than removed, a remove if less often. -/
def survivingMulti (key : String × String) : Option (Op J) :=
  let value := (text.parse key.2).getD (text.ofString key.2)
  let net := (l.map (delta text (isScalar l) key)).sum
  if net = 0 then none else if net > 0 then some (.add key.1 value) else some (.remove key.1 value)

/-- **The ops that survive**: a delete alone; or of every scalar field the last remove, then the set if the field ends
set; then of every multi-value key the net op, in the order of the last arrivals. -/
def survivors : List (Op J) :=
  if l.any (·.isDelete) then [.delete]
  else
    let scalars := firstArrivals (l.filterMap (scalarField (isScalar l)))
    scalars.filterMap (survivingRemove l) ++ (scalars.filterMap (survivingSet l) ++
      (l.filterMap (multiKey text (isScalar l))).dedup.filterMap (survivingMulti text l))

variable {l}

theorem isScalar_of_mem {f : String} {v : J} (h : set f v ∈ l) : isScalar l f = true :=
  any_eq_true.mpr ⟨_, h, by simp [isSetOf]⟩

/-- **Deduplication leaves the survivors.** -/
theorem dedupEntityOps_eq_survivors (hquery : ∀ op ∈ l, op.isQueryOpSet = false) :
    dedupEntityOps text l = survivors text l := by
  have hset : ∀ f v, .set f v ∈ l → isScalar l f = true := fun f v hv => isScalar_of_mem hv
  have hcollect : collect text l = l.foldl (step text (isScalar l)) .empty := rfl
  rw [dedupEntityOps, dedupNested, survivors]
  split
  · rfl
  · have hscalar : ∀ f ∈ firstArrivals (l.filterMap (scalarField (isScalar l))), isScalar l f = true := by
      intro f hf
      obtain ⟨op, -, hop⟩ := mem_filterMap.mp (mem_firstArrivals.mp hf)
      exact scalarField_some hop
    simp only [hcollect, queryOrder_foldl text _ l hquery, filterMap_nil, append_nil, rebuild,
      (scalarFieldOrder_foldl text _ l hset).1, multiValueOrder_foldl]
    congr 1
    · refine filterMap_congr fun f hf => ?_
      rw [lastRemove_foldl text _ l (hscalar f hf), survivingRemove]
    congr 1
    · refine filterMap_congr fun f hf => ?_
      rw [lastScalarIsSet_foldl text _ l (hscalar f hf), lastSet_foldl, survivingSet]
      cases last (setsField f) l with
      | none => rfl
      | some isSet => cases isSet <;> rfl
    · refine filterMap_congr fun key _ => ?_
      rw [emit, multiValueNet_foldl, survivingMulti]

end Survivors

end Bitdex
