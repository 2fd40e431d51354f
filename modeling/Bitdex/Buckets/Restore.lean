import Bitdex.Buckets.Diffs

/-!
# `Buckets.Restore` — a time bucket across restarts

The merge thread writes a bucket's bitmap and the cutoff of its last refresh; every refresh appends its diff to the
bucket's log. A boot loads the bitmap, scans it for members that expired since the newest diff, and takes those and
all retained diffs out (`build` in `concurrent_engine.rs`).

An empty bitmap is never written; the retained diffs reach back before the last persist, so a slot that came back is
taken out; a gap longer than the bucket is not scanned, nor are members below its start.
-/

namespace Bitdex

open BucketDiff PendingBucketDiffs RangeBucket

/-- What a bucket has on disk. The cutoff is 0 while there is no cutoff file. -/
structure BucketFiles where
  bitmap : Option Bitmap
  cutoff : Nat
  log : List BucketDiff

/-! ## Booting one bucket -/

/-- What a boot finds between the retained diffs and now. -/
inductive BootGap where
  | closed
  | tooLong
  | scanned (diff : BucketDiff)

namespace RangeBucket

variable (b : RangeBucket)

/-- Load the bitmap, and the cutoff if one was written. -/
def loadPersisted (files : BucketFiles) (now : Nat) : RangeBucket :=
  match files.bitmap with
  | none => b
  | some bitmap =>
    { b with
      bitmap := bitmap
      lastRefreshed := now
      lastCutoff := if files.cutoff > 0 then files.cutoff else b.cutoffAt now }

/-- Where the retained diffs leave off. -/
def gapStart (pending : PendingBucketDiffs) : Nat :=
  if pending.currentCutoff > 0 then pending.currentCutoff else b.lastCutoff

/-- What a boot makes of the gap. -/
def bootGap (pending : PendingBucketDiffs) (ts : UInt32 → Nat) (now : Nat) : BootGap :=
  if b.cutoffAt now > b.gapStart pending ∧ b.gapStart pending > 0 then
    if b.cutoffAt now - b.gapStart pending > b.durationSecs then .tooLong
    else .scanned ⟨b.gapStart pending, b.cutoffAt now,
      b.expiredBetween ts (b.gapStart pending) (b.cutoffAt now)⟩
  else .closed

/-- Take all retained diffs out of the bucket if its cutoff is behind. -/
def applyPending (pending : PendingBucketDiffs) (now : Nat) : RangeBucket :=
  if pending.currentCutoff > 0 ∧ b.cutoffAt now > b.lastCutoff then
    b.subtractExpired pending.mergedExpired (b.cutoffAt now) now
  else b

variable {b} {pending : PendingBucketDiffs} {now : Nat} {slot : UInt32}

theorem mem_applyPending : slot ∈ (b.applyPending pending now).bitmap ↔
      slot ∈ b.bitmap ∧ ¬(pending.currentCutoff > 0 ∧ b.cutoffAt now > b.lastCutoff ∧
        ∃ d ∈ pending.diffs, slot ∈ d.expired) := by
  rw [← mem_mergedExpired, ← and_assoc]
  unfold applyPending
  split
  · next h => simp [subtractExpired, h]
  · next h => simp [h]

end RangeBucket

/-! ## The life of a bucket -/

/-- A bucket with its configuration, diffs and files, and the bitmap it had in memory at the last persist. -/
structure DurableBucket where
  durationSecs : Nat
  refreshIntervalSecs : Nat
  bucket : RangeBucket
  pending : PendingBucketDiffs
  files : BucketFiles
  lastPersisted : Bitmap

/-- What can happen to a bucket. Timestamps are those of the moment; a boot reads the clock once for the bitmaps and
once for the diffs. -/
inductive BucketEvent where
  | insertSlot (slot : UInt32) (timestamp now : Nat)
  | removeSlot (slot : UInt32)
  | reconcile (stale missing : Bitmap) (now : Nat)
  | rebuild (timestamps : List (UInt32 × Nat)) (now : Nat)
  | setRefreshInterval (secs : Nat)
  | forceRefreshDue
  | refresh (ts : UInt32 → Nat) (now : Nat)
  | persist
  | restart (loadedAt now : Nat) (ts : UInt32 → Nat)

namespace DurableBucket

/-- A bucket that was just configured. -/
def fresh (durationSecs refreshIntervalSecs : Nat) : DurableBucket :=
  ⟨durationSecs, refreshIntervalSecs, .new durationSecs refreshIntervalSecs, .new, ⟨none, 0, []⟩, ∅⟩

variable (s : DurableBucket)

/-- The refresh of a bucket that is due. -/
def refresh (ts : UInt32 → Nat) (now : Nat) : DurableBucket :=
  if s.bucket.needsRefresh now then
    match s.bucket.refreshDiff ts now with
    | none => { s with bucket := s.bucket.refresh ts now }
    | some diff =>
      { s with
        bucket := s.bucket.refresh ts now
        pending := (fromDiffs s.pending.diffs).push diff
        files := { s.files with log := compactIfNeeded (s.files.log ++ [diff]) } }
  else s

/-- The merge thread writes the bitmap if it is not empty, and the cutoff if it is not 0. -/
def persist : DurableBucket :=
  { s with
    files :=
      { s.files with
        bitmap := if s.bucket.bitmap = ∅ then s.files.bitmap else some s.bucket.bitmap
        cutoff := if s.bucket.lastCutoff > 0 then s.bucket.lastCutoff else s.files.cutoff }
    lastPersisted := s.bucket.bitmap }

/-- The bucket with its files loaded. -/
def loaded (loadedAt : Nat) : RangeBucket :=
  (new s.durationSecs s.refreshIntervalSecs).loadPersisted s.files loadedAt

/-- The bucket after a boot. -/
def restart (loadedAt now : Nat) (ts : UInt32 → Nat) : DurableBucket :=
  let bucket := s.loaded loadedAt
  let pending := fromDiffs (readRetained s.files.log)
  match bucket.bootGap pending ts now with
  | .tooLong => { s with bucket := bucket, pending := pending }
  | .closed => { s with bucket := bucket.applyPending pending now, pending := pending }
  | .scanned diff =>
    { s with
      bucket := bucket.applyPending (pending.push diff) now
      pending := pending.push diff
      files := { s.files with log := s.files.log ++ [diff] } }

/-- One event. -/
def step : BucketEvent → DurableBucket
  | .insertSlot slot timestamp now => { s with bucket := s.bucket.insertCovered slot timestamp now }
  | .removeSlot slot => { s with bucket := s.bucket.removeSlot slot }
  | .reconcile stale missing now => { s with bucket := s.bucket.reconcile stale missing now }
  | .rebuild timestamps now => { s with bucket := s.bucket.rebuild timestamps now }
  | .setRefreshInterval secs => { s with bucket := { s.bucket with refreshIntervalSecs := secs } }
  | .forceRefreshDue => { s with bucket := { s.bucket with lastRefreshed := 0 } }
  | .refresh ts now => s.refresh ts now
  | .persist => s.persist
  | .restart loadedAt now ts => s.restart loadedAt now ts

def run (events : List BucketEvent) : DurableBucket := events.foldl step s

/-! ## What the files have -/

/-- The bitmap on disk. -/
def fileBitmap : Bitmap := s.files.bitmap.getD ∅

/-- The file has the bitmap of the last persist, unless that was empty. -/
def Filed : Prop := s.lastPersisted = ∅ ∨ s.fileBitmap = s.lastPersisted

variable {s}

theorem filed_fresh {durationSecs refreshIntervalSecs : Nat} : (fresh durationSecs refreshIntervalSecs).Filed :=
  .inl rfl

/-- Only a persist changes the written bitmap or the bitmap of the last persist. -/
theorem files_step {ev : BucketEvent} (h : ev ≠ .persist) :
    (s.step ev).files.bitmap = s.files.bitmap ∧ (s.step ev).lastPersisted = s.lastPersisted := by
  cases ev with
  | persist => exact absurd rfl h
  | refresh ts now =>
    show (s.refresh ts now).files.bitmap = _ ∧ (s.refresh ts now).lastPersisted = _
    unfold refresh
    split
    · split <;> exact ⟨rfl, rfl⟩
    · exact ⟨rfl, rfl⟩
  | restart loadedAt now ts =>
    show (s.restart loadedAt now ts).files.bitmap = _ ∧ (s.restart loadedAt now ts).lastPersisted = _
    simp only [restart]
    split <;> exact ⟨rfl, rfl⟩
  | _ => exact ⟨rfl, rfl⟩

theorem filed_persist : s.persist.Filed := by
  by_cases h : s.bucket.bitmap = ∅
  · exact .inl h
  · refine .inr ?_
    show (if s.bucket.bitmap = ∅ then s.files.bitmap else some s.bucket.bitmap).getD ∅ = s.bucket.bitmap
    rw [if_neg h, Option.getD_some]

theorem Filed.step (h : s.Filed) (ev : BucketEvent) : (s.step ev).Filed := by
  by_cases hev : ev = .persist
  · subst hev
    exact filed_persist
  · obtain ⟨hbitmap, hlast⟩ := files_step (s := s) hev
    rw [Filed, fileBitmap, hbitmap, hlast]
    exact h

/-- What one event keeps holds after every history. -/
theorem Filed.run (h : s.Filed) (events : List BucketEvent) : (s.run events).Filed := by
  induction events generalizing s with
  | nil => exact h
  | cons ev events ih => exact ih (h.step ev)

section Boot

variable (s : DurableBucket) (loadedAt now : Nat) (ts : UInt32 → Nat) (slot : UInt32)

/-- The cutoff that a boot computes. -/
def bootCutoff : Nat := snapCutoff (now - s.durationSecs) s.refreshIntervalSecs

/-- The cutoff with which the newest diff of the log ends; 0 if the log is empty. -/
def logCutoff : Nat := (s.files.log.getLast?.map (·.cutoffAfter)).getD 0

/-- The cutoff of the loaded bitmap: the written one, or that of the loading time; 0 if there is no bitmap. -/
def fileCutoff : Nat :=
  if s.files.bitmap.isNone then 0
  else if s.files.cutoff > 0 then s.files.cutoff
  else snapCutoff (loadedAt - s.durationSecs) s.refreshIntervalSecs

/-- Where the scan of the gap starts. -/
def scanStart : Nat := if s.logCutoff > 0 then s.logCutoff else s.fileCutoff loadedAt

/-- A boot takes expired slots out: a cutoff is known, the bitmap's is behind, and the gap is not longer than the
bucket. -/
structure CatchesUp : Prop where
  known : 0 < s.scanStart loadedAt
  behind : s.fileCutoff loadedAt < s.bootCutoff now
  gap : s.bootCutoff now - s.scanStart loadedAt ≤ s.durationSecs

/-- The diffs of the log that are taken out. A scanned gap takes the place of the oldest. -/
def keptDiffs : List BucketDiff := retain (if s.scanStart loadedAt < s.bootCutoff now then 99 else 100) s.files.log

/-- The timestamp lies in the gap. -/
def InGap : Prop :=
  s.scanStart loadedAt < s.bootCutoff now ∧ s.scanStart loadedAt % 2 ^ 32 ≤ ts slot ∧
    ts slot < s.bootCutoff now % 2 ^ 32

/-- A boot takes the slot out of the loaded bitmap. -/
def TakenOut : Prop :=
  s.CatchesUp loadedAt now ∧
    ((∃ d ∈ s.keptDiffs loadedAt now, slot ∈ d.expired) ∨ s.InGap loadedAt now ts slot)

variable {s loadedAt now ts slot}

@[simp] theorem bitmap_loaded : (s.loaded loadedAt).bitmap = s.fileBitmap := by
  unfold loaded loadPersisted fileBitmap
  cases s.files.bitmap <;> rfl

@[simp] theorem cutoffAt_loaded : (s.loaded loadedAt).cutoffAt now = s.bootCutoff now := by
  unfold loaded loadPersisted
  cases s.files.bitmap <;> rfl

@[simp] theorem durationSecs_loaded : (s.loaded loadedAt).durationSecs = s.durationSecs := by
  unfold loaded loadPersisted
  cases s.files.bitmap <;> rfl

@[simp] theorem lastCutoff_loaded : (s.loaded loadedAt).lastCutoff = s.fileCutoff loadedAt := by
  unfold loaded loadPersisted fileCutoff
  cases s.files.bitmap <;> rfl

/-- The retained diffs end with the newest of the log. -/
theorem currentCutoff_readRetained : (fromDiffs (readRetained s.files.log)).currentCutoff = s.logCutoff := by
  show ((retain (99 + 1) s.files.log).getLast?.map (·.cutoffAfter)).getD 0 = _
  rw [getLast?_retain, logCutoff]

@[simp] theorem gapStart_loaded :
    (s.loaded loadedAt).gapStart (.fromDiffs (readRetained s.files.log)) = s.scanStart loadedAt := by
  rw [gapStart, currentCutoff_readRetained, lastCutoff_loaded, scanStart]

/-- A scanned gap makes the oldest of a hundred diffs give way. -/
theorem diffs_push_readRetained {diff : BucketDiff} :
    ((fromDiffs (readRetained s.files.log)).push diff).diffs = retain 99 s.files.log ++ [diff] := by
  have hmax : maxDiffs = 99 + 1 := rfl
  simp only [push, fromDiffs, readRetained, hmax]
  rw [retain_append_one, retain_retain (Nat.le_succ 99)]

/-- Looking for a gap: it is longer than the bucket, there is none or no cutoff is known, or it is scanned. -/
theorem bootGap_loaded (s : DurableBucket) (loadedAt now : Nat) (ts : UInt32 → Nat) :
    let gap := (s.loaded loadedAt).bootGap (.fromDiffs (readRetained s.files.log)) ts now
    (gap = .tooLong ∧ s.durationSecs < s.bootCutoff now - s.scanStart loadedAt) ∨
    (gap = .closed ∧ ¬(s.scanStart loadedAt < s.bootCutoff now ∧ 0 < s.scanStart loadedAt)) ∨
    (gap = .scanned ⟨s.scanStart loadedAt, s.bootCutoff now,
        (s.loaded loadedAt).expiredBetween ts (s.scanStart loadedAt) (s.bootCutoff now)⟩ ∧
      (s.scanStart loadedAt < s.bootCutoff now ∧ 0 < s.scanStart loadedAt) ∧
      s.bootCutoff now - s.scanStart loadedAt ≤ s.durationSecs) := by
  simp only [bootGap, gapStart_loaded, cutoffAt_loaded, durationSecs_loaded]
  by_cases hopen : s.bootCutoff now > s.scanStart loadedAt ∧ s.scanStart loadedAt > 0
  · rw [if_pos hopen]
    by_cases hlong : s.bootCutoff now - s.scanStart loadedAt > s.durationSecs
    · exact .inl ⟨if_pos hlong, hlong⟩
    · exact .inr (.inr ⟨if_neg hlong, hopen, Nat.not_lt.mp hlong⟩)
  · exact .inr (.inl ⟨if_neg hopen, hopen⟩)

/-- Without a gap the retained diffs are taken out: with no diff the gap would start at the cutoff of the bitmap. -/
theorem takenOut_iff_of_closed (hclosed : ¬(s.scanStart loadedAt < s.bootCutoff now ∧ 0 < s.scanStart loadedAt)) :
    s.TakenOut loadedAt now ts slot ↔ s.logCutoff > 0 ∧ s.bootCutoff now > s.fileCutoff loadedAt ∧
        ∃ d ∈ readRetained s.files.log, slot ∈ d.expired := by
  constructor
  · rintro ⟨⟨hknown, hbehind, -⟩, hout⟩
    have hle : ¬s.scanStart loadedAt < s.bootCutoff now := fun hlt => hclosed ⟨hlt, hknown⟩
    have hlog : s.logCutoff > 0 := by
      by_contra hnone
      have hstart : s.scanStart loadedAt = s.fileCutoff loadedAt := if_neg hnone
      exact hle (hstart ▸ hbehind)
    rcases hout with ⟨d, hd, hslot⟩ | hgap
    · rw [keptDiffs, if_neg hle] at hd
      exact ⟨hlog, hbehind, d, hd, hslot⟩
    · exact absurd hgap.1 hle
  · rintro ⟨hlog, hbehind, d, hd, hslot⟩
    have hstart : s.scanStart loadedAt = s.logCutoff := if_pos hlog
    have hknown : 0 < s.scanStart loadedAt := hstart ▸ hlog
    have hle : ¬s.scanStart loadedAt < s.bootCutoff now := fun hlt => hclosed ⟨hlt, hknown⟩
    refine ⟨⟨hknown, hbehind, by omega⟩, .inl ⟨d, ?_, hslot⟩⟩
    rw [keptDiffs, if_neg hle]
    exact hd

/-- With a scanned gap the last 99 diffs and the slots in the gap are taken out. -/
theorem takenOut_iff_of_scanned (hopen : s.scanStart loadedAt < s.bootCutoff now ∧ 0 < s.scanStart loadedAt)
    (hshort : s.bootCutoff now - s.scanStart loadedAt ≤ s.durationSecs) :
    s.TakenOut loadedAt now ts slot ↔ s.bootCutoff now > s.fileCutoff loadedAt ∧
        ((∃ d ∈ retain 99 s.files.log, slot ∈ d.expired) ∨ s.InGap loadedAt now ts slot) := by
  rw [TakenOut, keptDiffs, if_pos hopen.1]
  exact and_congr_left fun _ => ⟨CatchesUp.behind, fun hbehind => ⟨hopen.2, hbehind, hshort⟩⟩

/-- **A boot** keeps of the loaded bitmap what it does not take out. -/
theorem mem_restart :
    slot ∈ (s.restart loadedAt now ts).bucket.bitmap ↔ slot ∈ s.fileBitmap ∧ ¬s.TakenOut loadedAt now ts slot := by
  obtain ⟨hgap, hlong⟩ | ⟨hgap, hclosed⟩ | ⟨hgap, hopen, hshort⟩ := bootGap_loaded s loadedAt now ts
  · have hnot : ¬s.TakenOut loadedAt now ts slot := fun h => absurd h.1.gap (Nat.not_le.mpr hlong)
    simp only [restart, hgap, bitmap_loaded]
    exact (and_iff_left hnot).symm
  · simp only [restart, hgap]
    rw [mem_applyPending, bitmap_loaded, currentCutoff_readRetained, cutoffAt_loaded,
      lastCutoff_loaded, takenOut_iff_of_closed hclosed]
    exact Iff.rfl
  · simp only [restart, hgap]
    rw [mem_applyPending, bitmap_loaded, cutoffAt_loaded, lastCutoff_loaded,
      diffs_push_readRetained, takenOut_iff_of_scanned hopen hshort]
    refine and_congr_right fun hfile => not_congr ?_
    have hpos : s.bootCutoff now > 0 := hopen.2.trans hopen.1
    have hin : slot ∈ (s.loaded loadedAt).expiredBetween ts (s.scanStart loadedAt) (s.bootCutoff now) ↔
        s.InGap loadedAt now ts slot := by
      rw [mem_expiredBetween, bitmap_loaded]
      exact ⟨fun h => ⟨hopen.1, h.2⟩, fun h => ⟨hfile, h.2⟩⟩
    rw [← hin]
    simp only [List.mem_append, List.mem_singleton, or_and_right, exists_or, exists_eq_left]
    exact and_iff_right hpos

end Boot

/-- **The condition** on the files, the clock and the timestamps at boot. If the last persist found the bucket empty,
all of an older file is taken out. A slot of the last persist below the boot's cutoff is taken out, and one not below
it is in no diff that is. -/
structure Restorable (s : DurableBucket) (loadedAt now : Nat) (ts : UInt32 → Nat) : Prop where
  emptied : s.lastPersisted = ∅ → ∀ slot ∈ s.fileBitmap, s.TakenOut loadedAt now ts slot
  aged : ∀ slot ∈ s.lastPersisted, ts slot < s.bootCutoff now → s.TakenOut loadedAt now ts slot
  recent : ∀ slot ∈ s.lastPersisted, s.bootCutoff now ≤ ts slot → s.CatchesUp loadedAt now →
    ∀ d ∈ s.keptDiffs loadedAt now, slot ∉ d.expired

variable {loadedAt now : Nat} {ts : UInt32 → Nat}

/-- A timestamp that has reached the boot's cutoff is not in the gap. -/
theorem not_inGap {slot : UInt32} (h : s.bootCutoff now ≤ ts slot) : ¬s.InGap loadedAt now ts slot := by
  rintro ⟨-, -, hlt⟩
  exact absurd (h.trans_lt hlt) (Nat.not_lt.mpr (Nat.mod_le _ _))

/-- The condition is exact where the file has the bitmap of the last persist or that was empty. -/
theorem Filed.restart_exact_iff (hfiled : s.Filed) :
    (∀ slot, slot ∈ (s.restart loadedAt now ts).bucket.bitmap ↔ slot ∈ s.lastPersisted ∧ s.bootCutoff now ≤ ts slot) ↔
      s.Restorable loadedAt now ts := by
  simp only [mem_restart]
  rcases hfiled with hempty | hfile
  · -- nothing is to be restored
    constructor
    · intro h
      refine ⟨fun _ slot hslot => ?_, ?_, ?_⟩
      · by_contra hnot
        exact absurd ((h slot).mp ⟨hslot, hnot⟩).1 (by simp [hempty])
      · intro slot hslot
        exact absurd hslot (by simp [hempty])
      · intro slot hslot
        exact absurd hslot (by simp [hempty])
    · intro h slot
      constructor
      · rintro ⟨hslot, hnot⟩
        exact absurd (h.emptied hempty slot hslot) hnot
      · rintro ⟨hslot, -⟩
        exact absurd hslot (by simp [hempty])
  · rw [hfile]
    constructor
    · intro h
      refine ⟨fun hempty slot hslot => ?_, fun slot hslot hlt => ?_, fun slot hslot hle hup d hd hin => ?_⟩
      · rw [hfile, hempty] at hslot
        exact absurd hslot (Finset.notMem_empty _)
      · by_contra hnot
        exact absurd ((h slot).mp ⟨hslot, hnot⟩).2 (Nat.not_le.mpr hlt)
      · exact ((h slot).mpr ⟨hslot, hle⟩).2 ⟨hup, .inl ⟨d, hd, hin⟩⟩
    · intro h slot
      refine and_congr_right fun hslot => ⟨fun hnot => ?_, ?_⟩
      · exact Nat.not_lt.mp fun hlt => hnot (h.aged slot hslot hlt)
      · rintro hle ⟨hup, ⟨d, hd, hin⟩ | hgap⟩
        · exact h.recent slot hslot hle hup d hd hin
        · exact not_inGap hle hgap

/-- **Bucket restore.** After any history and any downtime, a restart restores exactly the slots that were in
memory at the last persist and whose timestamps are not below the boot's cutoff, if and only if the condition
holds. -/
theorem restart_restores_iff (durationSecs refreshIntervalSecs : Nat) (events : List BucketEvent)
    (loadedAt now : Nat) (ts : UInt32 → Nat) :
    (∀ slot, slot ∈ (((fresh durationSecs refreshIntervalSecs).run events).restart loadedAt now ts).bucket.bitmap ↔
        slot ∈ ((fresh durationSecs refreshIntervalSecs).run events).lastPersisted ∧
          ((fresh durationSecs refreshIntervalSecs).run events).bootCutoff now ≤ ts slot) ↔
      ((fresh durationSecs refreshIntervalSecs).run events).Restorable loadedAt now ts :=
  (filed_fresh.run events).restart_exact_iff

end DurableBucket

/-! ### A bucket of ten seconds -/

section Samples

/-- The bucket is refreshed every second. -/
def tenSeconds (events : List BucketEvent) : DurableBucket := (DurableBucket.fresh 10 1).run events

/-- A slot that expired and came back before the last persist is lost. -/
def cameBack : DurableBucket := tenSeconds [.insertSlot 1 5 6, .refresh (fun _ => 5) 16, .insertSlot 1 16 16, .persist]

/-- The bucket was empty at the last persist. -/
def emptiedBucket : DurableBucket := tenSeconds [.insertSlot 1 5 6, .persist, .removeSlot 1, .persist]

/-- The bucket was persisted at second 16 with a slot of second 15. -/
def longDown : DurableBucket := tenSeconds [.insertSlot 1 15 16, .refresh (fun _ => 15) 16, .persist]

/-- A recent slot that came back is not restored. One that had left is. After a downtime of 24 seconds a slot below
the cutoff is restored. -/
theorem restart_restores_wrong_slots : (1 ∈ cameBack.lastPersisted ∧ cameBack.bootCutoff 17 ≤ 16 ∧
      1 ∉ (cameBack.restart 17 17 fun _ => 16).bucket.bitmap) ∧
    (1 ∉ emptiedBucket.lastPersisted ∧ 1 ∈ (emptiedBucket.restart 7 7 fun _ => 5).bucket.bitmap) ∧
    (15 < longDown.bootCutoff 40 ∧ 1 ∈ (longDown.restart 40 40 fun _ => 15).bucket.bitmap) := by
  decide +kernel

end Samples

end Bitdex
