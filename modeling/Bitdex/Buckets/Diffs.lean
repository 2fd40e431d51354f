import Bitdex.Buckets.Manager

/-!
# `Buckets.Diffs` — expiry diffs of a time bucket

A refresh takes out the members whose timestamps lie between the cutoff of the last refresh and the new one, and
records them as a diff (`bucket_diff_log.rs`). The last hundred diffs are kept in memory with their union, and
appended to a log on disk that is cut back to a hundred when it has more than a hundred and thirty.
-/

namespace Bitdex

open List

/-- Snap a timestamp down to a multiple of the interval. -/
def snapCutoff (ts interval : Nat) : Nat := if interval = 0 then ts else ts / interval * interval

/-- The slots that aged out in one refresh. -/
structure BucketDiff where
  cutoffBefore : Nat
  cutoffAfter : Nat
  expired : Bitmap

namespace BucketDiff

/-- How many diffs are kept. -/
def maxDiffs : Nat := 100

/-- How many diffs the log may have before it is compacted: `maxDiffs * 1.3`. -/
def compactionThreshold : Nat := 130

/-- The last `n` diffs. -/
def retain (n : Nat) (diffs : List BucketDiff) : List BucketDiff := diffs.drop (diffs.length - n)

/-- The union of some diffs. -/
def computeMerged (diffs : List BucketDiff) : Bitmap := diffs.foldl (fun merged d => merged ∪ d.expired) ∅

/-- What a boot reads from the log. -/
def readRetained (log : List BucketDiff) : List BucketDiff := retain maxDiffs log

/-- Cut a log that has grown too long. -/
def compactIfNeeded (log : List BucketDiff) : List BucketDiff :=
  if log.length ≤ compactionThreshold then log else retain maxDiffs log

variable {diffs : List BucketDiff} {d : BucketDiff} {slot : UInt32} {n m : Nat}

theorem mem_computeMerged : slot ∈ computeMerged diffs ↔ ∃ d ∈ diffs, slot ∈ d.expired := by
  refine (foldl_or_iff (slot ∈ ·) (by intros; exact Finset.mem_union)).trans ?_
  simp

/-- A diff that is added pushes out the oldest when the window is full. -/
theorem retain_append_one : retain (n + 1) (diffs ++ [d]) = retain n diffs ++ [d] := by
  have hlen : (diffs ++ [d]).length - (n + 1) = diffs.length - n := by
    rw [length_append, length_singleton, Nat.add_sub_add_right]
  rw [retain, hlen, drop_append_of_le_length (Nat.sub_le _ _), retain]

/-- Cutting twice is cutting to the smaller window. -/
theorem retain_retain (h : n ≤ m) : retain n (retain m diffs) = retain n diffs := by
  unfold retain
  rw [length_drop, drop_drop]
  congr 1
  omega

theorem getLast?_retain : (retain (n + 1) diffs).getLast? = diffs.getLast? := by
  cases diffs using reverseRecOn with
  | nil => simp [retain]
  | append_singleton diffs d => rw [retain_append_one, getLast?_concat, getLast?_concat]

end BucketDiff

/-- The diffs in memory with their union. -/
structure PendingBucketDiffs where
  diffs : List BucketDiff
  mergedExpired : Bitmap
  /-- The newest cutoff that the diffs cover. -/
  currentCutoff : Nat
  merged : mergedExpired = BucketDiff.computeMerged diffs

namespace PendingBucketDiffs

/-- The retained diffs of a log. -/
def fromDiffs (diffs : List BucketDiff) : PendingBucketDiffs :=
  ⟨diffs, BucketDiff.computeMerged diffs, (diffs.getLast?.map (·.cutoffAfter)).getD 0, rfl⟩

/-- No diff yet. -/
def new : PendingBucketDiffs := fromDiffs []

variable (p : PendingBucketDiffs)

/-- Add a diff and drop the oldest. -/
def push (diff : BucketDiff) : PendingBucketDiffs :=
  let diffs := BucketDiff.retain BucketDiff.maxDiffs (p.diffs ++ [diff])
  ⟨diffs, BucketDiff.computeMerged diffs, diff.cutoffAfter, rfl⟩

/-- The cutoff from which the diffs lead on. -/
def oldestCutoff : Nat := (p.diffs.head?.map (·.cutoffBefore)).getD 0

variable {p} {slot : UInt32}

theorem mem_mergedExpired : slot ∈ p.mergedExpired ↔ ∃ d ∈ p.diffs, slot ∈ d.expired := by
  rw [p.merged, BucketDiff.mem_computeMerged]

end PendingBucketDiffs

/-! ## Refreshing a bucket -/

namespace RangeBucket

variable (b : RangeBucket)

/-- The cutoff of a refresh now. -/
def cutoffAt (now : Nat) : Nat := snapCutoff (now - b.durationSecs) b.refreshIntervalSecs

/-- The members whose timestamps lie in `[old, new)`, compared as `u32`. -/
def expiredBetween (ts : UInt32 → Nat) (old new : Nat) : Bitmap :=
  b.bitmap.filter fun slot => old % 2 ^ 32 ≤ ts slot ∧ ts slot < new % 2 ^ 32

/-- What a refresh takes out; nothing is recorded if the cutoff does not move forward. -/
def refreshDiff (ts : UInt32 → Nat) (now : Nat) : Option BucketDiff :=
  if b.cutoffAt now ≤ b.lastCutoff then none
  else some ⟨b.lastCutoff, b.cutoffAt now, b.expiredBetween ts b.lastCutoff (b.cutoffAt now)⟩

/-- The bucket after a refresh. -/
def refresh (ts : UInt32 → Nat) (now : Nat) : RangeBucket :=
  b.subtractExpired (((b.refreshDiff ts now).map (·.expired)).getD ∅) (b.cutoffAt now) now

/-- Build the bucket anew from the timestamps of slots. -/
def rebuild (timestamps : List (UInt32 × Nat)) (now : Nat) : RangeBucket :=
  { b with
    bitmap := ((timestamps.filter fun e => b.covers e.2 now).map Prod.fst).toFinset
    lastRefreshed := now
    lastCutoff := b.cutoffAt now }

/-- Take out members that were found to be stale and add slots that were found to be missing. -/
def reconcile (stale missing : Bitmap) (now : Nat) : RangeBucket :=
  let pruned := if stale = ∅ then b else b.subtractExpired stale b.lastCutoff now
  { pruned with bitmap := pruned.bitmap ∪ missing }

variable {b} {ts : UInt32 → Nat} {old new : Nat} {slot : UInt32}

theorem mem_expiredBetween :
    slot ∈ b.expiredBetween ts old new ↔ slot ∈ b.bitmap ∧ old % 2 ^ 32 ≤ ts slot ∧ ts slot < new % 2 ^ 32 :=
  Finset.mem_filter

end RangeBucket

/-! ## What a read has to do -/

/-- Slots to take out, with the cutoff this leads to and the oldest it can start from; or the entry cannot be updated;
or there is nothing to do. -/
inductive BucketDiffState where
  | apply (candidates : Bitmap) (newCutoff oldestCutoff : Nat)
  | rebuild
  | noop

/-- The state for an entry by the names of its buckets. Several, or one not configured, cannot be brought up to date.
-/
def resolveBucketDiffStateFor (pendingBucketDiffs : String → Option PendingBucketDiffs) :
    List String → BucketDiffState
  | [] => .noop
  | [name] =>
    match pendingBucketDiffs name with
    | none => .rebuild
    | some diffs =>
      if diffs.currentCutoff = 0 then .noop
      else .apply diffs.mergedExpired diffs.currentCutoff diffs.oldestCutoff
  | _ :: _ :: _ => .rebuild

end Bitdex
