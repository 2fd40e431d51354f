import Bitdex.Buckets.Manager
import Bitdex.Engine.Activation

/-!
# `Buckets.Live` — bucket membership after a flush cycle

After a batch is applied, outside loading mode, the flush thread adjusts the time buckets for the touched slots
(`build` in `concurrent_engine.rs`): removed slots leave, inserted slots enter the buckets whose window has their
timestamp, slots with a new timestamp are judged anew. Slots wait in a retry set while the sort field is not loaded.

The loops overlap: a slot inserted and removed is added again after it was taken out, an inserted slot does not leave
a bucket whose window it has left, and the last loop does not ask whether a slot is alive.
-/

namespace Bitdex

open Bitmap WriteBatch Finset

/-- How many slots may wait for the bucket sort field. -/
def pendingBucketRetryCap : Nat := 1000000

/-- The buckets and the slots that wait to be judged. -/
structure LiveBuckets where
  manager : BucketManager
  pendingRetries : Finset UInt32

namespace WriteBatch

variable (b : WriteBatch)

/-- The slots whose membership in a bucket may have changed. -/
def bucketChangedSlots (sortField : String) : Finset UInt32 :=
  b.aliveInserts ∪ b.aliveRemoves ∪ b.mutatedSortSlots.ids sortField

/-- The slots whose timestamp changed and that are neither inserted nor removed. -/
def sortValueChanged (sortField : String) : Finset UInt32 :=
  b.mutatedSortSlots.ids sortField \ (b.aliveInserts ∪ b.aliveRemoves)

end WriteBatch

namespace RangeBucket

variable (bucket : RangeBucket)

/-- One bucket after a batch, the sort field loaded: removed slots leave; slots that waited, were inserted or have a
new timestamp are judged. -/
def maintain (b : WriteBatch) (sortField : String) (retries : Finset UInt32) (ts : UInt32 → Nat)
    (now : Nat) : RangeBucket :=
  (((bucket.removeSlots (iter b.aliveRemoves)).insertSlots
    (iter (retries \ b.aliveRemoves)) ts now).insertSlots
    (iter b.aliveInserts) ts now).replaceSlots (iter (b.sortValueChanged sortField)) ts now

/-- One bucket after a batch while the sort field is not loaded: slots with a new timestamp leave. -/
def maintainUnloaded (b : WriteBatch) (sortField : String) : RangeBucket :=
  (bucket.removeSlots (iter b.aliveRemoves)).removeSlots (iter (b.sortValueChanged sortField))

end RangeBucket

namespace LiveBuckets

variable (l : LiveBuckets)

/-- The retry set while the sort field is not loaded, cut at the cap; the source visits the slots with a new timestamp
in hash order. -/
def enqueue (b : WriteBatch) (sortField : String) : Finset UInt32 :=
  let waiting := l.pendingRetries \ b.aliveRemoves
  let inserted := waiting ∪
    ((iter b.aliveInserts).take (pendingBucketRetryCap - waiting.card)).toFinset
  inserted ∪ ((iter (b.sortValueChanged sortField)).take
    (pendingBucketRetryCap - inserted.card)).toFinset

/-- The buckets after a batch has been applied to the sort fields. -/
def maintain (b : WriteBatch) (sorts : SortIndex) (now : Nat) : LiveBuckets :=
  let field := l.manager.sortFieldName
  if b.aliveInserts = ∅ ∧ b.aliveRemoves = ∅ ∧ b.sortValueChanged field = ∅ ∧ l.pendingRetries = ∅ then l
  else
    match (sorts.getField field).filter (·.isFullyLoaded) with
    | some sf =>
      ⟨l.manager.mapBuckets fun bucket =>
        bucket.maintain b field l.pendingRetries sf.reconstructValue now, ∅⟩
    | none =>
      ⟨l.manager.mapBuckets fun bucket => bucket.maintainUnloaded b field, l.enqueue b field⟩

end LiveBuckets

namespace RangeBucket

variable {bucket : RangeBucket} {b : WriteBatch} {sortField : String} {retries : Finset UInt32}
  {ts : UInt32 → Nat} {now : Nat} {slot : UInt32}

@[simp] theorem durationSecs_maintain :
    (bucket.maintain b sortField retries ts now).durationSecs = bucket.durationSecs := by
  simp [maintain]

/-- **Membership after a batch.** A slot with a new timestamp is in exactly if it is in the window; any other if it
was and was not removed, or is in the window and was inserted, or waited and was not removed. -/
theorem mem_maintain_iff : slot ∈ (bucket.maintain b sortField retries ts now).bitmap ↔
      if slot ∈ b.sortValueChanged sortField then bucket.covers (ts slot) now = true
      else (slot ∈ bucket.bitmap ∧ slot ∉ b.aliveRemoves) ∨ (bucket.covers (ts slot) now = true ∧
          (slot ∈ b.aliveInserts ∨ (slot ∈ retries ∧ slot ∉ b.aliveRemoves))) := by
  rw [maintain, mem_replaceSlots, mem_insertSlots, mem_insertSlots, mem_removeSlots]
  simp only [covers_insertSlots, covers_removeSlots, mem_iter, mem_sdiff]
  split
  · next hchanged => simp [hchanged]
  · next hchanged =>
    simp only [hchanged, false_and, false_or, not_false_eq_true, true_and]
    constructor
    · rintro ((hin | ⟨hretry, hwindow⟩) | ⟨hins, hwindow⟩)
      · exact .inl hin
      · exact .inr ⟨hwindow, .inr hretry⟩
      · exact .inr ⟨hwindow, .inl hins⟩
    · rintro (hin | ⟨hwindow, hins | hretry⟩)
      · exact .inl (.inl hin)
      · exact .inr ⟨hins, hwindow⟩
      · exact .inl (.inr ⟨hretry, hwindow⟩)

end RangeBucket

/-- **The condition** on a touched slot, given whether it was in the bucket and alive before the batch. One inserted
and removed is not in the window; one only inserted was in the bucket only if it is in the window; one neither is in
the window only if it was alive. -/
structure Settled (b : WriteBatch) (slot : UInt32) (inBucket wasAlive inWindow : Prop) : Prop where
  both : slot ∈ b.aliveInserts → slot ∈ b.aliveRemoves → ¬ inWindow
  inserted : slot ∈ b.aliveInserts → slot ∉ b.aliveRemoves → inBucket → inWindow
  changed : slot ∉ b.aliveInserts → slot ∉ b.aliveRemoves → inWindow → wasAlive

namespace RangeBucket

variable {bucket : RangeBucket} {b : WriteBatch} {sortField : String} {retries : Finset UInt32}
  {ts : UInt32 → Nat} {now : Nat} {slot : UInt32}

/-- The membership of a touched slot is what being alive and in the window ask for, exactly under the condition. The
slots that waited play no part: a touched slot is judged anyway. -/
theorem mem_maintain_iff_settled (hslot : slot ∈ b.bucketChangedSlots sortField) (wasAlive : Prop) :
    (slot ∈ (bucket.maintain b sortField retries ts now).bitmap ↔
        (slot ∉ b.aliveRemoves ∧ (slot ∈ b.aliveInserts ∨ wasAlive)) ∧ bucket.covers (ts slot) now = true) ↔
      Settled b slot (slot ∈ bucket.bitmap) wasAlive (bucket.covers (ts slot) now = true) := by
  have hchanged : slot ∈ b.sortValueChanged sortField ↔ slot ∉ b.aliveInserts ∧ slot ∉ b.aliveRemoves := by
    rw [sortValueChanged, mem_sdiff, mem_union, not_or]
    rw [bucketChangedSlots, mem_union, mem_union] at hslot
    exact and_iff_right_of_imp fun hnot => hslot.resolve_left fun h => h.elim hnot.1 hnot.2
  rw [mem_maintain_iff]
  by_cases hins : slot ∈ b.aliveInserts
  · rw [if_neg fun h => (hchanged.mp h).1 hins]
    by_cases hrem : slot ∈ b.aliveRemoves
    · -- the slot is dead, and in the bucket if it is in the window
      simp only [hins, hrem, not_true_eq_false, and_false, false_or, true_or, and_true, false_and, iff_false]
      exact ⟨fun h => ⟨fun _ _ => h, fun _ hnot => absurd hrem hnot, fun hnot => absurd hins hnot⟩,
        fun h => h.both hins hrem⟩
    · simp only [hins, hrem, not_false_eq_true, and_true, true_or, true_and]
      constructor
      · intro h
        exact ⟨fun _ hr => absurd hr hrem, fun _ _ hin => h.mp (.inl hin), fun hnot => absurd hins hnot⟩
      · intro h
        exact ⟨fun hor => hor.elim (h.inserted hins hrem) id, .inr⟩
  · by_cases hrem : slot ∈ b.aliveRemoves
    · -- the slot has left the index and the bucket
      rw [if_neg fun h => (hchanged.mp h).2 hrem]
      simp only [hins, hrem, not_true_eq_false, and_false, or_self, false_and, iff_self, true_iff]
      exact ⟨fun hi => absurd hi hins, fun hi => absurd hi hins, fun _ hnot => absurd hrem hnot⟩
    · rw [if_pos (hchanged.mpr ⟨hins, hrem⟩)]
      simp only [hins, hrem, not_false_eq_true, false_or, true_and]
      constructor
      · intro h
        exact ⟨fun hi => absurd hi hins, fun hi => absurd hi hins, fun _ _ hw => (h.mp hw).1⟩
      · intro h
        exact ⟨fun hw => ⟨h.changed hins hrem hw, hw⟩, And.right⟩

end RangeBucket

namespace LiveBuckets

variable {l : LiveBuckets} {b : WriteBatch} {sorts : SortIndex} {sf : SortField} {now : Nat}

/-- With the sort field loaded, a batch that touches a slot maintains every bucket. -/
theorem getBucket_maintain (hsf : sorts.getField l.manager.sortFieldName = some sf)
    (hloaded : sf.isFullyLoaded = true) {slot : UInt32}
    (hslot : slot ∈ b.bucketChangedSlots l.manager.sortFieldName) (name : String) :
    (l.maintain b sorts now).manager.getBucket name = (l.manager.getBucket name).map fun bucket =>
      bucket.maintain b l.manager.sortFieldName l.pendingRetries sf.reconstructValue now := by
  have hsome : ¬(b.aliveInserts = ∅ ∧ b.aliveRemoves = ∅ ∧
      b.sortValueChanged l.manager.sortFieldName = ∅ ∧ l.pendingRetries = ∅) := by
    rintro ⟨hins, hrem, hchanged, -⟩
    rw [sortValueChanged, hins, hrem, union_empty, sdiff_empty] at hchanged
    rw [bucketChangedSlots, hins, hrem, hchanged] at hslot
    simp at hslot
  unfold maintain
  rw [if_neg hsome, hsf, Option.filter_some, if_pos hloaded]
  exact BucketManager.getBucket_mapBuckets

end LiveBuckets

namespace FlushThread

variable (cfg : FlushConfig) (s : FlushThread) (clock : UInt64) (docs : UInt32 → Option Document)
  (promote : Bool)

/-- The batch of a cycle. -/
def cycleBatch : WriteBatch := .groupAndSort (s.cycleOps cfg clock docs)

/-- The buckets after a regular cycle: the batch is applied to the index, then the buckets follow. -/
def cycleBuckets (l : LiveBuckets) (now : Nat) : LiveBuckets :=
  l.maintain (s.cycleBatch cfg clock docs) (s.beginCycle cfg clock docs promote).staging.sorts now

variable {cfg s clock docs promote} {slot : UInt32}

/-- What a cycle makes of the alive bit: a remove wins over an insert. -/
theorem alive_beginCycle : slot ∈ (s.beginCycle cfg clock docs promote).staging.slots.alive.fused ↔
      slot ∉ (s.cycleBatch cfg clock docs).aliveRemoves ∧ (slot ∈ (s.cycleBatch cfg clock docs).aliveInserts ∨
          slot ∈ (s.prepared cfg clock docs promote).slots.alive.fused) := by
  rw [staging_beginCycle, IndexState.applyDrained, cycleBatch]
  split
  · next hops =>
    rw [hops]
    simp [groupAndSort, empty]
  · exact SlotAllocator.mem_alive_applyAlive

/-- **Live bucket membership.** After a regular cycle with the bucket sort field loaded, a touched slot is in
a bucket exactly if it is alive and its timestamp is in the window, if and only if the condition holds. -/
theorem maintain_membership_iff (l : LiveBuckets) (now : Nat) {sf : SortField}
    (hsf : (s.beginCycle cfg clock docs promote).staging.sorts.getField l.manager.sortFieldName = some sf)
    (hloaded : sf.isFullyLoaded = true) {name : String} {bucket : RangeBucket}
    (hbucket : l.manager.getBucket name = some bucket)
    (hslot : slot ∈ (s.cycleBatch cfg clock docs).bucketChangedSlots l.manager.sortFieldName) :
    ∃ bucket', (s.cycleBuckets cfg clock docs promote l now).manager.getBucket name = some bucket' ∧
      bucket'.durationSecs = bucket.durationSecs ∧
      ((slot ∈ bucket'.bitmap ↔ slot ∈ (s.beginCycle cfg clock docs promote).staging.slots.alive.fused ∧
            bucket.covers (sf.reconstructValue slot) now = true) ↔
        Settled (s.cycleBatch cfg clock docs) slot (slot ∈ bucket.bitmap)
          (slot ∈ (s.prepared cfg clock docs promote).slots.alive.fused)
          (bucket.covers (sf.reconstructValue slot) now = true)) := by
  have hafter : (s.cycleBuckets cfg clock docs promote l now).manager.getBucket name = _ :=
    LiveBuckets.getBucket_maintain hsf hloaded hslot name
  rw [hbucket, Option.map_some] at hafter
  refine ⟨_, hafter, RangeBucket.durationSecs_maintain, ?_⟩
  rw [alive_beginCycle]
  exact RangeBucket.mem_maintain_iff_settled hslot _

end FlushThread

/-! ### A bucket of two seconds at second 7 -/

section Samples

/-- Slot 1 is alive with the timestamp 6; the ops of one cycle are queued. -/
def recentSlot (queue : List MutationOp) : FlushThread :=
  { FlushThread.initial ⟨⟨3, .new {1}, []⟩, ⟨∅⟩, ⟨(∅ : HashMap String SortField).insert "v"
      ⟨[.new ∅, .new {1}, .new {1}]⟩⟩⟩ {} .empty with queue := queue }

/-- Slot 1 is in the bucket. -/
def recentBuckets : LiveBuckets := ⟨⟨"t", "v", [("2s", ⟨⟨2, {1}⟩, 1, 7, 5⟩)]⟩, ∅⟩

/-- The bucket after the cycle. -/
def recentAfter (queue : List MutationOp) : Option RangeBucket :=
  ((recentSlot queue).cycleBuckets inlineConfig 7 (fun _ => none) false recentBuckets 7).manager.getBucket
    "2s"

/-- The index after the cycle. -/
def recentIndex (queue : List MutationOp) : IndexState :=
  ((recentSlot queue).beginCycle inlineConfig 7 (fun _ => none) false).staging

/-- A slot that is put and deleted in one cycle is dead and in the bucket. One inserted again with the timestamp 2
stays in. One that is not alive enters when its timestamp is set to 6. -/
theorem buckets_keep_wrong_slots :
    (∃ bucket, recentAfter [.aliveInsert [1], .aliveRemove [1]] = some bucket ∧ 1 ∈ bucket.bitmap ∧
      1 ∉ (recentIndex [.aliveInsert [1], .aliveRemove [1]]).slots.alive.fused) ∧
    (∃ bucket, recentAfter [.aliveInsert [1], .sortClear "v" 2 [1]] = some bucket ∧ 1 ∈ bucket.bitmap ∧
      (recentIndex [.aliveInsert [1], .sortClear "v" 2 [1]]).sorts.reconstructValue "v" 1 = some 2 ∧
      bucket.covers 2 7 = false) ∧
    (∃ bucket, recentAfter [.sortSet "v" 1 [2], .sortSet "v" 2 [2]] = some bucket ∧ 2 ∈ bucket.bitmap ∧
      2 ∉ (recentIndex [.sortSet "v" 1 [2], .sortSet "v" 2 [2]]).slots.alive.fused) := by
  decide +kernel

/-- A timestamp that moves from 6 to 2 takes the slot out of the bucket. -/
theorem maintain_membership_aged : ∃ bucket, recentAfter [.sortClear "v" 2 [1]] = some bucket ∧
      (1 ∈ bucket.bitmap ↔ 1 ∈ (recentIndex [.sortClear "v" 2 [1]]).slots.alive.fused ∧
        (⟨⟨2, {1}⟩, 1, 7, 5⟩ : RangeBucket).covers 2 7 = true) := by
  obtain ⟨sf, hsf, hloaded, hvalue⟩ : ∃ sf, (recentIndex [.sortClear "v" 2 [1]]).sorts.getField "v" = some sf ∧
      sf.isFullyLoaded = true ∧ sf.reconstructValue 1 = 2 := by decide +kernel
  have hbucket : recentBuckets.manager.getBucket "2s" = some ⟨⟨2, {1}⟩, 1, 7, 5⟩ := rfl
  have hslot : 1 ∈ ((recentSlot [.sortClear "v" 2 [1]]).cycleBatch inlineConfig 7
      fun _ => none).bucketChangedSlots recentBuckets.manager.sortFieldName := by decide +kernel
  obtain ⟨bucket', hafter, -, hiff⟩ := FlushThread.maintain_membership_iff recentBuckets 7 hsf hloaded hbucket hslot
  rw [hvalue] at hiff
  refine ⟨bucket', hafter, hiff.mpr ⟨?_, ?_, ?_⟩⟩
  · intro hins
    exact absurd hins (by decide +kernel)
  · intro hins
    exact absurd hins (by decide +kernel)
  · intro _ _ hwindow
    exact absurd hwindow (by decide)

end Samples

end Bitdex
