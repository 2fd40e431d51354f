import Mathlib.Algebra.Group.Prod
import Mathlib.Algebra.BigOperators.Group.List.Basic
import Bitdex.Buckets.Diffs

/-!
# `Buckets.Reconcile` — the periodic check of the time buckets

A worker compares the members of each bucket with the slots that a snapshot has in its window. Its findings are
minutes old when they arrive, so the flush thread judges every candidate again before it takes a slot out or adds one
(`reconcile_apply`).
-/

namespace Bitdex

open RangeBucket List

/-- What the worker found for one bucket. -/
structure BucketCandidates where
  name : String
  stale : Bitmap
  missing : Bitmap

/-- The buckets that were changed, each with the numbers of slots taken out and added. -/
abbrev ReconcileReport := List (String × Nat × Nat)

/-- What a report says of a bucket in all. -/
def ReconcileReport.total (report : ReconcileReport) (name : String) : Nat × Nat :=
  ((report.filter (·.1 = name)).map Prod.snd).sum

/-- What candidates are judged by. -/
structure BucketJudge where
  sortField : SortField
  alive : Bitmap
  nowSecs : Nat

namespace BucketJudge

variable (j : BucketJudge)

/-- The slot is alive and its value is in the window that ends now. -/
def belongs (b : RangeBucket) (slot : UInt32) : Bool :=
  decide (slot ∈ j.alive) && b.covers (j.sortField.reconstructValue slot) j.nowSecs

/-- The stale candidates that are still members and do not belong. -/
def still (b : RangeBucket) (c : BucketCandidates) : Bitmap :=
  c.stale.filter fun slot => slot ∈ b.bitmap ∧ j.belongs b slot = false

/-- The missing candidates that belong and are no members yet. -/
def add (b : RangeBucket) (c : BucketCandidates) : Bitmap :=
  c.missing.filter fun slot => j.belongs b slot = true ∧ slot ∉ b.bitmap

/-- Apply the candidates that still hold. -/
def settle (b : RangeBucket) (c : BucketCandidates) : RangeBucket := b.reconcile (j.still b c) (j.add b c) j.nowSecs

/-- The candidates of one bucket; a name without a bucket is ignored. -/
def reconcileOne (s : BucketManager × ReconcileReport) (c : BucketCandidates) : BucketManager × ReconcileReport :=
  match s.1.getBucket c.name with
  | none => s
  | some b =>
    if j.still b c = ∅ ∧ j.add b c = ∅ then s
    else (s.1.modifyBucket c.name (j.settle · c), s.2 ++ [(c.name, (j.still b c).card, (j.add b c).card)])

/-- Apply the findings of a worker. -/
def reconcileApply (m : BucketManager) (candidates : List BucketCandidates) : BucketManager × ReconcileReport :=
  candidates.foldl j.reconcileOne (m, [])

/-- What a pass makes of a bucket, and the numbers it reports. A slot that belongs is a member iff it was one or is a
missing candidate; any other iff it was one and is no stale candidate. -/
structure Reconciled (candidates : List BucketCandidates) (name : String) (counts : Nat × Nat)
    (b b' : RangeBucket) : Prop where
  duration : b'.durationSecs = b.durationSecs
  cutoff : b'.lastCutoff = b.lastCutoff
  mem : ∀ slot, slot ∈ b'.bitmap ↔
    if j.belongs b slot then slot ∈ b.bitmap ∨ ∃ c ∈ candidates, c.name = name ∧ slot ∈ c.missing
    else slot ∈ b.bitmap ∧ ¬∃ c ∈ candidates, c.name = name ∧ slot ∈ c.stale
  counts : counts = ((b.bitmap \ b'.bitmap).card, (b'.bitmap \ b.bitmap).card)

variable {j} {candidates : List BucketCandidates} {counts : Nat × Nat} {b b' : RangeBucket} {c : BucketCandidates}

theorem belongs_congr (h : b'.durationSecs = b.durationSecs) (slot : UInt32) :
    j.belongs b' slot = j.belongs b slot := by
  rw [belongs, covers_congr h, belongs]

theorem settle_spec : (j.settle b c).durationSecs = b.durationSecs ∧ (j.settle b c).lastCutoff = b.lastCutoff ∧
    (j.settle b c).bitmap = b.bitmap \ j.still b c ∪ j.add b c := by
  unfold settle reconcile
  by_cases h : j.still b c = ∅ <;> simp [h, subtractExpired]

/-- One more tuple for the bucket. -/
theorem Reconciled.step (h : j.Reconciled candidates c.name counts b b') :
    j.Reconciled (candidates ++ [c]) c.name (counts + ((j.still b' c).card, (j.add b' c).card)) b
      (j.settle b' c) := by
  obtain ⟨hduration, hcutoff, hbitmap⟩ := settle_spec (j := j) (b := b') (c := c)
  have hstill : ∀ slot, slot ∈ j.still b' c ↔ slot ∈ c.stale ∧ slot ∈ b'.bitmap ∧ j.belongs b slot = false := by
    intro slot
    rw [still, Finset.mem_filter, belongs_congr h.duration]
  have hadd : ∀ slot, slot ∈ j.add b' c ↔ slot ∈ c.missing ∧ j.belongs b slot = true ∧ slot ∉ b'.bitmap := by
    intro slot
    rw [add, Finset.mem_filter, belongs_congr h.duration]
  refine ⟨hduration.trans h.duration, hcutoff.trans h.cutoff, ?_, ?_⟩
  · intro slot
    simp only [hbitmap, Finset.mem_sdiff, Finset.mem_union, hstill, hadd, h.mem, mem_append, mem_singleton]
    grind
  · -- a slot that was taken out does not belong and is not added again, and the other way round
    have hpruned : b.bitmap \ (j.settle b' c).bitmap = b.bitmap \ b'.bitmap ∪ j.still b' c := by
      ext slot
      simp only [hbitmap, Finset.mem_sdiff, Finset.mem_union, hstill, hadd, h.mem]
      grind
    have hbackfilled : (j.settle b' c).bitmap \ b.bitmap = b'.bitmap \ b.bitmap ∪ j.add b' c := by
      ext slot
      simp only [hbitmap, Finset.mem_sdiff, Finset.mem_union, hstill, hadd, h.mem]
      grind
    rw [hpruned, hbackfilled, Finset.card_union_of_disjoint, Finset.card_union_of_disjoint, h.counts, Prod.mk_add_mk]
    · exact Finset.disjoint_left.mpr fun slot hold hnew => ((hadd slot).mp hnew).2.2 (Finset.mem_sdiff.mp hold).1
    · exact Finset.disjoint_left.mpr fun slot hold hnew => (Finset.mem_sdiff.mp hold).2 ((hstill slot).mp hnew).2.1

variable (j)

theorem reconcileOne_spec (s : BucketManager × ReconcileReport) (c : BucketCandidates) (name : String) :
    (j.reconcileOne s c).1.getBucket name =
        (s.1.getBucket name).map (fun b => if name = c.name then j.settle b c else b) ∧
      (j.reconcileOne s c).2.total name = s.2.total name +
        if name = c.name then (s.1.getBucket name).elim 0 fun b => ((j.still b c).card, (j.add b c).card) else 0 := by
  have hget : (s.1.modifyBucket c.name (j.settle · c)).getBucket name =
      (s.1.getBucket name).map fun b => if name = c.name then j.settle b c else b :=
    BucketManager.lookup_map_snd (fun n b => if n = c.name then j.settle b c else b) s.1.buckets
  unfold reconcileOne
  by_cases hname : name = c.name
  · subst hname
    cases hb : s.1.getBucket c.name with
    | none => simp [hb]
    | some b =>
      by_cases hempty : j.still b c = ∅ ∧ j.add b c = ∅
      · simp [hb, hempty, settle, reconcile]
      · simp only [hempty, if_false]
        exact ⟨by simpa [hb] using hget, by simp [ReconcileReport.total]⟩
  · simp only [hname, if_false, add_zero, Option.map_id_fun', id] at hget ⊢
    split
    · exact ⟨rfl, rfl⟩
    · split
      · exact ⟨rfl, rfl⟩
      · exact ⟨hget, by simp [ReconcileReport.total, Ne.symm hname]⟩

/-- **A pass** treats every bucket as its candidates deserve by now, whatever the candidates are. -/
theorem reconcileApply_exact (m : BucketManager) (candidates : List BucketCandidates) (name : String) :
    Option.Rel (j.Reconciled candidates name ((j.reconcileApply m candidates).2.total name)) (m.getBucket name)
      ((j.reconcileApply m candidates).1.getBucket name) := by
  unfold reconcileApply
  induction candidates using reverseRecOn with
  | nil =>
    rw [foldl_nil]
    cases m.getBucket name with
    | none => exact .none
    | some b => exact .some ⟨rfl, rfl, by simp, by simp [ReconcileReport.total]; rfl⟩
  | append_singleton candidates c ih =>
    rw [foldl_append, foldl_cons, foldl_nil]
    generalize candidates.foldl j.reconcileOne (m, []) = s at ih ⊢
    obtain ⟨hget, htotal⟩ := j.reconcileOne_spec s c name
    rw [hget, htotal]
    generalize m.getBucket name = before at ih ⊢
    generalize s.1.getBucket name = after at ih ⊢
    cases ih with
    | none => exact .none
    | some h =>
      by_cases hname : name = c.name
      · subst hname
        exact .some (by simpa using h.step)
      · -- the candidates of another bucket
        simp only [hname, if_false, add_zero, Option.map_some]
        exact .some ⟨h.duration, h.cutoff, by simp [h.mem, Ne.symm hname], h.counts⟩

end BucketJudge

end Bitdex
