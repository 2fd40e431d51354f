import Bitdex.Executor.Evaluate

/-!
# `Executor.Semantics` — what a clause says about one slot

The bitmap evaluator builds sets; the meaning of a clause is a test of a single slot. `holds` states that meaning over
the stored bits, without accumulators, clause order or failures, and `mem_evaluateClause` connects the two. Everything
later said about the executor's answers goes through this one theorem.
-/

namespace Bitdex

open List FilterField VersionedBitmap Except

/-- Peeling a `?` off a computation that succeeded. -/
theorem bind_eq_ok_iff {ε α β : Type} {x : Except ε α} {f : α → Except ε β} {b : β} :
    (x >>= f) = .ok b ↔ ∃ a, x = .ok a ∧ f a = .ok b := by
  cases x with
  | error e | ok a => simp [bind, Except.bind]

theorem bind_ok {ε α β : Type} {x : Except ε α} {f : α → Except ε β} (hx : ∃ a, x = .ok a)
    (hf : ∀ a, ∃ b, f a = .ok b) : ∃ b, (x >>= f) = .ok b := by
  obtain ⟨a, ha⟩ := hx
  obtain ⟨b, hb⟩ := hf a
  exact ⟨b, bind_eq_ok_iff.mpr ⟨a, ha, hb⟩⟩

namespace QueryExecutor

variable [Host] (ex : QueryExecutor)

/-! ## The meaning of a clause at a slot -/

/-- The slot is stored under the value in this filter field, whatever the field is called. -/
def storedHolds (ff : FilterField) (field : String) (value : Value) (slot : UInt32) : Bool :=
  match ex.resolveValueKey field value with
  | some key => decide (slot ∈ ff.bits key)
  | none => false

/-- The slot is stored under the value, or carries the id. -/
def eqHolds (field : String) (value : Value) (slot : UInt32) : Bool :=
  if field = "id" then
    match value with
    | .integer v => decide (slot = slotOfInteger v) && decide (slot ∈ ex.aliveBitmap)
    | _ => false
  else
    match ex.filters.getField field with
    | some ff => ex.storedHolds ff field value slot
    | none => false

/-- The slot is stored under the null key of the field. -/
def nullIn (field : String) (slot : UInt32) : Bool :=
  match ex.filters.getField field with
  | some ff => decide (slot ∈ ff.bits nullBitmapKey)
  | none => false

/-- Some stored value of the slot, null excepted, compares with the target. -/
def scanHolds (field : String) (value : Value) (predicate : UInt64 → UInt64 → Bool)
    (slot : UInt32) : Bool :=
  match ex.filters.getField field, valueToBitmapKey value with
  | some ff, some target =>
    ff.bitmaps.entries.any fun e =>
      decide (e.1 ≠ nullBitmapKey) && predicate e.1 target && decide (slot ∈ e.2.fused)
  | _, _ => false

/-- The meaning of `Gt` and `Gte`. -/
def afterHolds (field : String) (value : Value) (predicate : UInt64 → UInt64 → Bool)
    (slot : UInt32) : Bool :=
  match ex.bucketThreshold field value with
  | some (tb, threshold) =>
    match ex.snapBucket tb threshold with
    | some bucket => decide (slot ∈ bucket.bitmap)
    | none => ex.scanHolds field value predicate slot
  | none => ex.scanHolds field value predicate slot

/-- The meaning of `Lt` and `Lte`. -/
def beforeHolds (field : String) (value : Value) (predicate : UInt64 → UInt64 → Bool)
    (slot : UInt32) : Bool :=
  match ex.bucketThreshold field value with
  | some (tb, threshold) =>
    if threshold ≥ ex.tables.nowUnix then decide (slot ∈ ex.aliveBitmap)
    else
      match ex.snapBucket tb threshold with
      | some bucket => decide (slot ∈ ex.aliveBitmap) && !decide (slot ∈ bucket.bitmap)
      | none => ex.scanHolds field value predicate slot
  | none => ex.scanHolds field value predicate slot

mutual

/-- The clause is true of the slot. A conjunction of nothing is false, as in the source. -/
def holds : FilterClause → UInt32 → Bool
  | .eq field value, slot => ex.eqHolds field value slot
  | .notEq field value, slot =>
    decide (slot ∈ ex.aliveBitmap) && !ex.eqHolds field value slot && !ex.nullIn field slot
  | .isIn field values, slot => values.any (ex.eqHolds field · slot)
  | .notIn field values, slot =>
    decide (slot ∈ ex.aliveBitmap) && !values.any (ex.eqHolds field · slot)
      && !ex.nullIn field slot
  | .not inner, slot => decide (slot ∈ ex.aliveBitmap) && !holds inner slot
  | .and clauses, slot => !clauses.isEmpty && holdsAll clauses slot
  | .or clauses, slot => holdsAny clauses slot
  | .gt field value, slot => ex.afterHolds field value (fun k t => decide (k > t)) slot
  | .gte field value, slot => ex.afterHolds field value (fun k t => decide (k ≥ t)) slot
  | .lt field value, slot => ex.beforeHolds field value (fun k t => decide (k < t)) slot
  | .lte field value, slot => ex.beforeHolds field value (fun k t => decide (k ≤ t)) slot
  | .bucketBitmap _ _ bitmap, slot => decide (slot ∈ bitmap)
  | .isNull field, slot => ex.nullIn field slot
  | .isNotNull field, slot => decide (slot ∈ ex.aliveBitmap) && !ex.nullIn field slot

def holdsAll : List FilterClause → UInt32 → Bool
  | [], _ => true
  | c :: cs, slot => holds c slot && holdsAll cs slot

def holdsAny : List FilterClause → UInt32 → Bool
  | [], _ => false
  | c :: cs, slot => holds c slot || holdsAny cs slot

end

theorem holdsAll_eq (cs : List FilterClause) (slot : UInt32) : ex.holdsAll cs slot = cs.all (ex.holds · slot) := by
  induction cs with
  | nil => rfl
  | cons c cs ih => rw [holdsAll, ih, all_cons]

theorem holdsAny_eq (cs : List FilterClause) (slot : UInt32) : ex.holdsAny cs slot = cs.any (ex.holds · slot) := by
  induction cs with
  | nil => rfl
  | cons c cs ih => rw [holdsAny, ih, any_cons]

theorem holds_and_iff {cs : List FilterClause} {slot : UInt32} :
    ex.holds (.and cs) slot = true ↔ cs ≠ [] ∧ ∀ c ∈ cs, ex.holds c slot = true := by
  rw [holds, holdsAll_eq]
  simp

theorem holds_or_iff {cs : List FilterClause} {slot : UInt32} :
    ex.holds (.or cs) slot = true ↔ ∃ c ∈ cs, ex.holds c slot = true := by
  rw [holds, holdsAny_eq]
  simp

/-! ## The evaluator's lists are maps -/

theorem evaluateEach_eq_map (cs : List FilterClause) : ex.evaluateEach cs = cs.map ex.evaluateClause := by
  induction cs with
  | nil => rfl
  | cons c cs ih => rw [evaluateEach, ih, map_cons]

/-- **`And` evaluates the planner's reordering of its children.** -/
theorem evaluateClause_and (cs : List FilterClause) : ex.evaluateClause (.and cs) =
      andLoop none ((optimizeAndClause cs ex.filters ex.slots.aliveCount).map ex.evaluateClause) := by
  rw [evaluateClause, evaluateEach_eq_map, estimateEach_eq_map, zip_map', optimizeAndClause]
  congr 1
  rw [← map_insertionSort (fun a b => estimateCardinality ex.filters ex.slots.aliveCount none a ≤
      estimateCardinality ex.filters ex.slots.aliveCount none b)]
  · rw [map_map]
    rfl
  · intro a _ b _
    exact Iff.rfl

/-! ## Membership, arm by arm -/

variable {field : String} {value : Value} {predicate : UInt64 → UInt64 → Bool} {b : Bitmap} {x : UInt32}

theorem eqHolds_id_integer {v : Int64} :
    ex.eqHolds "id" (.integer v) x = true ↔ x = slotOfInteger v ∧ slotOfInteger v ∈ ex.aliveBitmap := by
  simp only [eqHolds, if_true, Bool.and_eq_true, decide_eq_true_eq]
  refine and_congr_right ?_
  rintro rfl
  exact Iff.rfl

theorem mem_idBitmapSingle (h : ex.idBitmapSingle value = .ok b) : x ∈ b ↔ ex.eqHolds "id" value x = true := by
  cases value with
  | integer v =>
    simp only [idBitmapSingle, ok.injEq] at h
    subst h
    by_cases hv : slotOfInteger v ∈ ex.aliveBitmap <;> simp [hv, eqHolds_id_integer]
  | float f | bool c | string s => cases h

theorem mem_insertId {bm : Bitmap} : x ∈ ex.insertId bm value ↔ x ∈ bm ∨ ex.eqHolds "id" value x = true := by
  cases value with
  | integer id =>
    by_cases hid : slotOfInteger id ∈ ex.aliveBitmap <;> simp [insertId, hid, eqHolds_id_integer, or_comm]
  | float f | bool c | string s => simp [insertId, eqHolds]

theorem mem_idBitmapMulti {values : List Value} :
    x ∈ ex.idBitmapMulti values ↔ values.any (ex.eqHolds "id" · x) = true := by
  refine (foldl_or_iff (x ∈ ·) (by intros; exact ex.mem_insertId)).trans ?_
  simp

theorem mem_evaluateEq (h : ex.evaluateEq field value = .ok b) : x ∈ b ↔ ex.eqHolds field value x = true := by
  unfold evaluateEq at h
  split at h
  · next hid =>
    subst hid
    exact ex.mem_idBitmapSingle h
  · next hid =>
    split at h
    · next ff hff =>
      split at h
      · next key hkey =>
        rw [getD_bits] at h
        cases h
        simp [eqHolds, storedHolds, hid, hff, hkey]
      · next hkey =>
        cases h
        simp [eqHolds, storedHolds, hid, hff, hkey]
    · cases h

/-- A slot is in the union exactly when one of the values holds of it. -/
theorem mem_orValues {ff : FilterField} (hid : field ≠ "id") (hff : ex.filters.getField field = some ff)
    {values : List Value} {result : Bitmap} :
    x ∈ ex.orValues ff field values result ↔ x ∈ result ∨ values.any (ex.eqHolds field · x) = true := by
  rw [any_eq_true]
  refine foldl_or_iff (x ∈ ·) fun acc v => ?_
  cases hkey : ex.resolveValueKey field v with
  | none => simp [eqHolds, storedHolds, hid, hff, hkey]
  | some key =>
    cases hvb : ff.getVersioned key with
    | none | some vb => simp [eqHolds, storedHolds, hid, hff, hkey, bits, hvb]

theorem mem_evaluateIn {values : List Value} (h : ex.evaluateIn field values = .ok b) :
    x ∈ b ↔ values.any (ex.eqHolds field · x) = true := by
  unfold evaluateIn at h
  split at h
  · next hid =>
    cases h
    subst hid
    exact ex.mem_idBitmapMulti
  · next hid =>
    split at h
    · next ff hff =>
      cases h
      rw [ex.mem_orValues hid hff]
      simp
    · cases h

omit [Host] in
theorem mem_subtractNull : x ∈ ex.subtractNull field b ↔ x ∈ b ∧ ex.nullIn field x = false := by
  unfold subtractNull nullIn
  cases ex.filters.getField field with
  | none => simp
  | some ff =>
    cases hvb : ff.getVersioned nullBitmapKey with
    | none | some vb => simp [bits, hvb]

omit [Host] in
theorem mem_nullBitmap (h : ex.nullBitmap field = .ok b) : x ∈ b ↔ ex.nullIn field x = true := by
  unfold nullBitmap at h
  split at h
  · next ff hff =>
    rw [getD_bits] at h
    cases h
    simp [nullIn, hff]
  · cases h

omit [Host] in
/-- The scan reads every stored bitmap through its diff, dirty or not. -/
theorem mem_scanUnion {ff : FilterField} {target : UInt64} :
    x ∈ scanUnion ff target predicate ↔ ff.bitmaps.entries.any (fun e =>
        decide (e.1 ≠ nullBitmapKey) && predicate e.1 target && decide (x ∈ e.2.fused)) = true := by
  have hread : ∀ vb : VersionedBitmap, (if vb.isDirty then vb.fused else vb.base) = vb.fused := by
    intro vb
    by_cases hd : vb.diff.isEmpty = true
    · simp [isDirty, fused, hd]
    · simp [isDirty, hd]
  rw [any_eq_true]
  refine (foldl_or_iff (x ∈ ·) fun result e => ?_).trans (or_iff_right (Finset.notMem_empty x))
  rw [hread]
  by_cases hn : e.1 = nullBitmapKey
  · simp [hn]
  · by_cases hp : predicate e.1 target = true
    · simp [hn, hp]
    · simp [hn, hp]

omit [Host] in
theorem mem_rangeScan (h : ex.rangeScan field value predicate = .ok b) :
    x ∈ b ↔ ex.scanHolds field value predicate x = true := by
  unfold rangeScan at h
  split at h
  · cases h
  · next ff hff =>
    split at h
    · cases h
    · split at h
      · next target htarget =>
        cases h
        rw [mem_scanUnion, scanHolds, hff, htarget]
      · cases h

theorem mem_evaluateAfter (h : ex.evaluateAfter field value predicate = .ok b) :
    x ∈ b ↔ ex.afterHolds field value predicate x = true := by
  unfold evaluateAfter at h
  unfold afterHolds
  cases hth : ex.bucketThreshold field value with
  | none =>
    simp only [hth] at h
    exact ex.mem_rangeScan h
  | some p =>
    obtain ⟨tb, threshold⟩ := p
    simp only [hth] at h ⊢
    cases hb : ex.snapBucket tb threshold with
    | none =>
      simp only [hb] at h
      exact ex.mem_rangeScan h
    | some bucket =>
      simp only [hb, ok.injEq] at h
      simp [h]

theorem mem_evaluateBefore (h : ex.evaluateBefore field value predicate = .ok b) :
    x ∈ b ↔ ex.beforeHolds field value predicate x = true := by
  unfold evaluateBefore at h
  unfold beforeHolds
  cases hth : ex.bucketThreshold field value with
  | none =>
    simp only [hth] at h
    exact ex.mem_rangeScan h
  | some p =>
    obtain ⟨tb, threshold⟩ := p
    simp only [hth] at h ⊢
    by_cases hnow : threshold ≥ ex.tables.nowUnix
    · rw [if_pos hnow, ok.injEq] at h
      simp [hnow, ← h]
    · rw [if_neg hnow] at h ⊢
      cases hb : ex.snapBucket tb threshold with
      | none =>
        simp only [hb] at h
        exact ex.mem_rangeScan h
      | some bucket =>
        simp only [hb, ok.injEq] at h
        simp [← h]

/-! ## The recursive arms -/

section Children

variable {l : List FilterClause}
  (ih : ∀ c ∈ l, ∀ b', ex.evaluateClause c = .ok b' → (x ∈ b' ↔ ex.holds c x = true))

include ih

/-- The `And` loop keeps the slots of the accumulator of which every remaining child holds. -/
theorem mem_andLoop_some {acc : Bitmap} (h : andLoop (some acc) (l.map ex.evaluateClause) = .ok b) :
    x ∈ b ↔ x ∈ acc ∧ ∀ c ∈ l, ex.holds c x = true := by
  induction l generalizing acc with
  | nil =>
    simp only [map_nil, andLoop, Option.getD_some, ok.injEq] at h
    simp [h]
  | cons c l ihl =>
    rw [map_cons, andLoop, bind_eq_ok_iff] at h
    obtain ⟨b', hc, hrest⟩ := h
    have htail := ihl (fun d hd => ih d (mem_cons_of_mem c hd)) hrest
    rw [htail, Finset.mem_inter, ih c mem_cons_self b' hc]
    simp [and_assoc]

theorem mem_andLoop_none (h : andLoop none (l.map ex.evaluateClause) = .ok b) :
    x ∈ b ↔ l ≠ [] ∧ ∀ c ∈ l, ex.holds c x = true := by
  cases l with
  | nil =>
    simp only [map_nil, andLoop, Option.getD_none, ok.injEq] at h
    simp [← h]
  | cons c l =>
    rw [map_cons, andLoop, bind_eq_ok_iff] at h
    obtain ⟨b', hc, hrest⟩ := h
    rw [ex.mem_andLoop_some (fun d hd => ih d (mem_cons_of_mem c hd)) hrest, ih c mem_cons_self b' hc]
    simp

omit ih in
/-- An `Or` child read in place contributes what `evaluate_clause` returns for it, so a step of the loop is a union
with its bitmap. -/
theorem evaluateOr_cons {c : FilterClause} {cs : List FilterClause} {result : Bitmap}
    (h : ex.evaluateOr (c :: cs) result = .ok b) :
    ∃ b', ex.evaluateClause c = .ok b' ∧ ex.evaluateOr cs (result ∪ b') = .ok b := by
  -- the in-place union agrees with the union of the separately built bitmap
  have hunion : ∀ (ff : FilterField) (field : String) (values : List Value),
      field ≠ "id" → ex.filters.getField field = some ff →
      ex.orValues ff field values result = result ∪ ex.orValues ff field values ∅ := by
    intro ff field values hid hff
    ext x
    simp only [Finset.mem_union, ex.mem_orValues hid hff, Finset.notMem_empty, false_or]
  cases c with
  | eq field value =>
    by_cases hid : field = "id"
    · rw [evaluateOr, if_neg (not_not.mpr hid), bind_eq_ok_iff] at h
      exact h
    · rw [evaluateOr, if_pos hid] at h
      cases hff : ex.filters.getField field with
      | none =>
        rw [hff] at h
        exact bind_eq_ok_iff.mp h
      | some ff =>
        simp only [hff] at h
        refine ⟨ex.orValues ff field [value] ∅, ?_, ?_⟩
        · cases hkey : ex.resolveValueKey field value with
          | none => simp [evaluateClause, evaluateEq, hid, hff, orValues, hkey]
          | some key =>
            cases hvb : ff.getVersioned key with
            | none | some vb => simp [evaluateClause, evaluateEq, hid, hff, orValues, hkey, hvb]
        · rw [← hunion ff field [value] hid hff]
          exact h
  | isIn field values =>
    by_cases hid : field = "id"
    · rw [evaluateOr, if_neg (not_not.mpr hid), bind_eq_ok_iff] at h
      exact h
    · rw [evaluateOr, if_pos hid] at h
      cases hff : ex.filters.getField field with
      | none =>
        rw [hff] at h
        exact bind_eq_ok_iff.mp h
      | some ff =>
        simp only [hff] at h
        refine ⟨ex.orValues ff field values ∅, ?_, ?_⟩
        · simp [evaluateClause, evaluateIn, hid, hff]
        · rw [← hunion ff field values hid hff]
          exact h
  | notEq _ _ | notIn _ _ | gt _ _ | lt _ _ | gte _ _ | lte _ _ | not _ | and _ | or _ | isNull _
  | isNotNull _ | bucketBitmap _ _ _ =>
    rw [evaluateOr, bind_eq_ok_iff] at h
    · exact h
    all_goals simp

theorem mem_evaluateOr {result : Bitmap} (h : ex.evaluateOr l result = .ok b) :
    x ∈ b ↔ x ∈ result ∨ ∃ c ∈ l, ex.holds c x = true := by
  induction l generalizing result with
  | nil =>
    simp only [evaluateOr, ok.injEq] at h
    simp [h]
  | cons c l ihl =>
    obtain ⟨b', hc, hrest⟩ := ex.evaluateOr_cons h
    have htail := ihl (fun d hd => ih d (mem_cons_of_mem c hd)) hrest
    rw [htail, Finset.mem_union, ih c mem_cons_self b' hc]
    simp [or_assoc]

end Children

/-- **The bitmap evaluator computes the clause's meaning.** Whenever `evaluate_clause` succeeds, the bitmap is the set
of slots of which the clause holds. -/
theorem mem_evaluateClause {c : FilterClause} (h : ex.evaluateClause c = .ok b) : x ∈ b ↔ ex.holds c x = true := by
  induction c using FilterClause.tree_induction generalizing b with
  | eq f v => exact ex.mem_evaluateEq h
  | isIn f vs => exact ex.mem_evaluateIn h
  | notEq f v =>
    rw [evaluateClause, bind_eq_ok_iff] at h
    obtain ⟨b', heq, hb⟩ := h
    cases hb
    rw [ex.mem_subtractNull, Finset.mem_sdiff, ex.mem_evaluateEq heq]
    simp [holds]
  | notIn f vs =>
    rw [evaluateClause, bind_eq_ok_iff] at h
    obtain ⟨b', hin, hb⟩ := h
    cases hb
    rw [ex.mem_subtractNull, Finset.mem_sdiff, ex.mem_evaluateIn hin]
    simp [holds]
  | gt f v | gte f v => exact ex.mem_evaluateAfter h
  | lt f v | lte f v => exact ex.mem_evaluateBefore h
  | not c ih =>
    rw [evaluateClause, bind_eq_ok_iff] at h
    obtain ⟨b', hinner, hb⟩ := h
    cases hb
    rw [Finset.mem_sdiff, ih hinner]
    simp [holds]
  | and cs ih =>
    rw [evaluateClause_and] at h
    have hperm := optimizeAndClause_perm cs ex.filters ex.slots.aliveCount
    rw [ex.mem_andLoop_none (fun c hc b' hb' => ih c (hperm.mem_iff.mp hc) hb') h, holds_and_iff]
    simp only [ne_eq, hperm.mem_iff]
    rw [← length_eq_zero_iff, hperm.length_eq, length_eq_zero_iff]
  | or cs ih =>
    rw [ex.mem_evaluateOr (fun c hc b' hb' => ih c hc hb') h, holds_or_iff]
    simp
  | isNull f => exact ex.mem_nullBitmap h
  | isNotNull f =>
    rw [evaluateClause, bind_eq_ok_iff] at h
    obtain ⟨b', hnull, hb⟩ := h
    cases hb
    rw [Finset.mem_sdiff, ex.mem_nullBitmap hnull]
    simp [holds]
  | bucketBitmap f n bm =>
    cases h
    simp [holds]

end QueryExecutor

end Bitdex
