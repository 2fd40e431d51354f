import Bitdex.Cache.Meta
import Bitdex.Executor.Semantics

/-!
# `Executor.Locality` — what a clause reads of a slot

Whether a clause holds of a slot depends, of all that an index stores, only on whether the slot is alive and on its
bits in the fields of the clause's leaves (`holds_congr`). So a write that leaves those alone cannot change the
answer. `slotMatchesFilters_ok` is about the executor's own per-slot filter test.
-/

namespace Bitdex

open FilterIndex

/-- The two indexes store the same of one slot in one field. -/
def FilterIndex.AgreeAt (fi fi' : FilterIndex) (field : String) (slot : UInt32) : Prop :=
  ∀ key, slot ∈ fi.bits field key ↔ slot ∈ fi'.bits field key

namespace QueryExecutor

variable [Host] (ex : QueryExecutor)

/-- The slot is in the bitmap of every clause; the first clause that fails decides. -/
def slotMatchesFilters (slot : UInt32) : List FilterClause → Except BitdexError Bool
  | [] => .ok true
  | c :: cs => do
      let bitmap ← ex.evaluateClause c
      if slot ∈ bitmap then slotMatchesFilters slot cs else return false

/-- Whatever it returns is the conjunction of the clauses. -/
theorem slotMatchesFilters_ok {slot : UInt32} {clauses : List FilterClause} {v : Bool}
    (h : ex.slotMatchesFilters slot clauses = .ok v) : v = clauses.all (ex.holds · slot) := by
  induction clauses with
  | nil =>
    cases h
    rfl
  | cons c cs ih =>
    rw [slotMatchesFilters, bind_eq_ok_iff] at h
    obtain ⟨b, hb, hrest⟩ := h
    have hmem : slot ∈ b ↔ ex.holds c slot = true := ex.mem_evaluateClause hb
    by_cases hslot : slot ∈ b
    · rw [if_pos hslot] at hrest
      rw [List.all_cons, hmem.mp hslot, Bool.true_and]
      exact ih hrest
    · rw [if_neg hslot] at hrest
      cases hrest
      rw [List.all_cons, Bool.eq_false_iff.mpr fun h => hslot (hmem.mpr h), Bool.false_and]

/-! ## The leaf tests in terms of stored bits -/

theorem eqHolds_iff_bits {field : String} (hid : field ≠ "id") {value : Value} {slot : UInt32} :
    ex.eqHolds field value slot = true ↔
      ∃ key, ex.resolveValueKey field value = some key ∧ slot ∈ ex.filters.bits field key := by
  unfold eqHolds storedHolds
  rw [if_neg hid]
  cases hff : ex.filters.getField field with
  | none => simp [bits_of_getField_none hff]
  | some ff =>
    cases ex.resolveValueKey field value with
    | none => simp
    | some key => simp [bits_of_getField hff]

omit [Host] in
theorem nullIn_iff_bits {field : String} {slot : UInt32} :
    ex.nullIn field slot = true ↔ slot ∈ ex.filters.bits field nullBitmapKey := by
  unfold nullIn
  cases hff : ex.filters.getField field with
  | none => simp [bits_of_getField_none hff]
  | some ff => simp [bits_of_getField hff]

omit [Host] in
theorem scanHolds_iff_bits {field : String} {value : Value} {predicate : UInt64 → UInt64 → Bool} {slot : UInt32} :
    ex.scanHolds field value predicate slot = true ↔ ∃ target, valueToBitmapKey value = some target ∧
        ∃ key, key ≠ nullBitmapKey ∧ predicate key target = true ∧ slot ∈ ex.filters.bits field key := by
  unfold scanHolds
  cases hff : ex.filters.getField field with
  | none => simp [bits_of_getField_none hff]
  | some ff =>
    cases valueToBitmapKey value with
    | none => simp
    | some target =>
      simp only [List.any_eq_true, Bool.and_eq_true, decide_eq_true_eq, Option.some.injEq,
        exists_eq_left', bits_of_getField hff]
      constructor
      · rintro ⟨⟨key, vb⟩, he, ⟨hnull, hpred⟩, hslot⟩
        have hget : ff.getVersioned key = some vb := AList.mem_lookup_iff.mpr he
        exact ⟨key, hnull, hpred, by rwa [FilterField.bits_of_some hget]⟩
      · rintro ⟨key, hnull, hpred, hslot⟩
        cases hget : ff.getVersioned key with
        | none =>
          rw [FilterField.bits_of_none hget] at hslot
          cases hslot
        | some vb =>
          rw [FilterField.bits_of_some hget] at hslot
          exact ⟨⟨key, vb⟩, AList.mem_lookup_iff.mp hget, ⟨hnull, hpred⟩, hslot⟩

/-! ## Agreement carries over to every clause -/

/-- Two executors read the same tables and have a slot alive, both or neither. -/
structure SharesSlot (ex ex' : QueryExecutor) (slot : UInt32) : Prop where
  tables_eq : ex.tables = ex'.tables
  alive_iff : slot ∈ ex.aliveBitmap ↔ slot ∈ ex'.aliveBitmap

variable {ex} {ex' : QueryExecutor} {slot : UInt32}

section Leaf

variable {field : String} (hshares : SharesSlot ex ex' slot) (h : ex.filters.AgreeAt ex'.filters field slot)
  (value : Value) (predicate : UInt64 → UInt64 → Bool)
include hshares h

theorem eqHolds_congr : ex.eqHolds field value slot = ex'.eqHolds field value slot := by
  by_cases hid : field = "id"
  · simp only [eqHolds, hid, if_true, hshares.alive_iff]
  · rw [Bool.eq_iff_iff, eqHolds_iff_bits _ hid, eqHolds_iff_bits _ hid]
    refine exists_congr fun key => and_congr ?_ (h key)
    rw [resolveValueKey, hshares.tables_eq, resolveValueKey]

omit [Host] hshares in
theorem nullIn_congr : ex.nullIn field slot = ex'.nullIn field slot := by
  rw [Bool.eq_iff_iff, nullIn_iff_bits, nullIn_iff_bits]
  exact h nullBitmapKey

omit [Host] hshares in
theorem scanHolds_congr : ex.scanHolds field value predicate slot = ex'.scanHolds field value predicate slot := by
  rw [Bool.eq_iff_iff, scanHolds_iff_bits, scanHolds_iff_bits]
  refine exists_congr fun target => and_congr_right fun _ => exists_congr fun key => ?_
  exact and_congr_right fun _ => and_congr_right fun _ => h key

theorem afterHolds_congr : ex.afterHolds field value predicate slot = ex'.afterHolds field value predicate slot := by
  unfold afterHolds bucketThreshold snapBucket
  rw [scanHolds_congr h, hshares.tables_eq]

theorem beforeHolds_congr : ex.beforeHolds field value predicate slot = ex'.beforeHolds field value predicate slot := by
  unfold beforeHolds bucketThreshold snapBucket
  rw [scanHolds_congr h, hshares.tables_eq]
  simp only [hshares.alive_iff]

end Leaf

/-- **Locality.** Two executors that share a slot and store the same of it in a clause's leaf fields give the clause
the same truth there. -/
theorem holds_congr {c : FilterClause} (hshares : SharesSlot ex ex' slot)
    (h : ∀ f ∈ collectLeafFields c, ex.filters.AgreeAt ex'.filters f slot) : ex.holds c slot = ex'.holds c slot := by
  have halive : decide (slot ∈ ex.aliveBitmap) = decide (slot ∈ ex'.aliveBitmap) := decide_eq_decide.mpr hshares.alive_iff
  induction c using FilterClause.tree_induction with
  | eq f v => exact eqHolds_congr hshares (h f (by simp [collectLeafFields])) v
  | isIn f vs =>
    have hf := h f (by simp [collectLeafFields])
    simp only [holds, eqHolds_congr hshares hf]
  | notEq f v | notIn f vs =>
    have hf := h f (by simp [collectLeafFields])
    simp only [holds, eqHolds_congr hshares hf, nullIn_congr hf, halive]
  | gt f v | gte f v => exact afterHolds_congr hshares (h f (by simp [collectLeafFields])) v _
  | lt f v | lte f v => exact beforeHolds_congr hshares (h f (by simp [collectLeafFields])) v _
  | not c ih =>
    rw [holds, holds, ih h, halive]
  | and cs ih =>
    rw [Bool.eq_iff_iff, holds_and_iff, holds_and_iff]
    refine and_congr_right fun _ => forall₂_congr fun c hc => ?_
    rw [ih c hc fun f hf => h f (mem_leafFieldsOfEach.mpr ⟨c, hc, hf⟩)]
  | or cs ih =>
    rw [Bool.eq_iff_iff, holds_or_iff, holds_or_iff]
    refine exists_congr fun c => and_congr_right fun hc => ?_
    rw [ih c hc fun f hf => h f (mem_leafFieldsOfEach.mpr ⟨c, hc, hf⟩)]
  | isNull f => exact nullIn_congr (h f (by simp [collectLeafFields]))
  | isNotNull f =>
    rw [holds, holds, nullIn_congr (h f (by simp [collectLeafFields])), halive]
  | bucketBitmap f n b => rfl

end QueryExecutor

end Bitdex
