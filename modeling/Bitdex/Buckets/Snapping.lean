import Bitdex.Executor.Documents

/-!
# `Buckets.Snapping` — the window a bucket is served for

A lower bound on the bucketed field asks for the window from its time until now. Snapping turns the bound into a duration
and serves a bucket instead. The duration is computed in `u64` and saturates, so a bound before 1970 asks for a window of
length 0 (`alwaysCovers_iff`).
-/

namespace Bitdex

open List

namespace TimeBucketManager

/-- What `new` sets up: one bucket per name, in the order of the durations. -/
structure Built (tb : TimeBucketManager) : Prop where
  names : ∀ p ∈ tb.buckets, ∀ q ∈ tb.buckets, p.1 = q.1 → p.2 = q.2
  sorted : tb.buckets.Pairwise fun p q => p.2.durationSecs ≤ q.2.durationSecs

/-- The bucket covers a window up to the tolerance, or is the longest one. -/
def Covers [Host] (tb : TimeBucketManager) (b : TimeBucket) (window : Int) : Prop :=
  window ≤ b.durationSecs ∨ window - b.durationSecs ≤ Host.snapThreshold b.durationSecs ∨
    ∀ p ∈ tb.buckets, p.2.durationSecs ≤ b.durationSecs

variable {tb : TimeBucketManager} {b : TimeBucket} {name : String} {duration : Nat}

theorem getBucket_of_mem (hbuilt : tb.Built) (h : (name, b) ∈ tb.buckets) : tb.getBucket name = some b := by
  cases hlookup : tb.getBucket name with
  | none => exact absurd rfl (bne_iff_ne.mp (lookup_eq_none_iff.mp hlookup (name, b) h))
  | some b' =>
    obtain ⟨front, back, hsplit, -⟩ := lookup_eq_some_iff.mp hlookup
    have hmem : (name, b') ∈ tb.buckets := hsplit ▸ mem_append_right front mem_cons_self
    exact congrArg some (hbuilt.names _ hmem _ h rfl)

variable [Host]

theorem Covers.mono {window window' : Int} (h : tb.Covers b window') (hle : window ≤ window') : tb.Covers b window :=
  h.imp hle.trans <| Or.imp_left (Int.sub_le_sub_right hle _).trans

theorem snapLoop_some {best : Option String} {bestDelta : Nat} {buckets : List (String × TimeBucket)}
    (h : snapLoop duration best bestDelta buckets = some name) :
    best = some name ∨ ∃ b, (name, b) ∈ buckets ∧ duration - b.durationSecs ≤ Host.snapThreshold b.durationSecs := by
  induction buckets generalizing best bestDelta with
  | nil => exact .inl h
  | cons p rest ih =>
    rw [snapLoop] at h
    generalize hdelta : (if duration > p.2.durationSecs then _ else _) = delta at h
    have hle : duration - p.2.durationSecs ≤ delta := by split at hdelta <;> omega
    split at h
    · next hwithin =>
      rcases ih h with hname | ⟨b, hb, hwithin⟩
      · exact .inr ⟨p.2, Option.some.inj hname ▸ mem_cons_self, hle.trans hwithin.1⟩
      · exact .inr ⟨b, mem_cons_of_mem _ hb, hwithin⟩
    · exact (ih h).imp_right fun ⟨b, hb, hwithin⟩ => ⟨b, mem_cons_of_mem _ hb, hwithin⟩

theorem covers_snapDuration (hbuilt : tb.Built) (h : tb.snapDuration duration = some name)
    (hb : tb.getBucket name = some b) : tb.Covers b duration := by
  obtain hnone | ⟨b', hmem, hle⟩ := snapLoop_some h
  · cases hnone
  · cases hb.symm.trans (getBucket_of_mem hbuilt hmem)
    exact .inr (.inl (by omega))

/-- The nearest bucket exists and covers the duration. -/
theorem exists_snapNearest (hbuilt : tb.Built) (hne : tb.buckets ≠ []) (duration : Nat) :
    ∃ b, tb.getBucket (tb.snapNearest duration) = some b ∧ tb.Covers b duration := by
  rw [snapNearest]
  cases hfind : tb.buckets.find? fun p => decide (p.2.durationSecs ≥ duration) with
  | some p =>
    have hle := of_decide_eq_true (find?_some hfind :)
    exact ⟨p.2, getBucket_of_mem hbuilt (mem_of_find?_eq_some hfind), .inl (Int.ofNat_le.mpr hle)⟩
  | none =>
    obtain ⟨front, last, hlast⟩ := (eq_nil_or_concat' tb.buckets).resolve_left hne
    refine ⟨last.2, ?_, .inr (.inr fun p hp => ?_)⟩
    · rw [hlast, getLast?_append]
      exact getBucket_of_mem hbuilt (hlast ▸ mem_append_right _ mem_cons_self)
    · have hsorted := hbuilt.sorted
      rw [hlast, pairwise_append] at hsorted
      rw [hlast] at hp
      rcases mem_append.mp hp with hp | hp
      · exact hsorted.2.2 p hp last mem_cons_self
      · rw [mem_singleton.mp hp]

end TimeBucketManager

open TimeBucketManager Tables

/-! ## Durations -/

/-- The window that a lower bound asks for. -/
def requestedWindow (now : Nat) (ts : Int64) : Int :=
  now - if ts.toInt > 100000000000 then ts.toInt / 1000 else ts.toInt

theorem toInt_tsToSecs (ts : Int64) :
    (tsToSecs ts).toInt = if ts.toInt > 100000000000 then ts.toInt / 1000 else ts.toInt := by
  have hgt : ts > 100000000000 ↔ ts.toInt > 100000000000 := Int64.lt_iff_toInt_lt
  rw [tsToSecs, apply_ite Int64.toInt, Int64.toInt_div_of_ne_right _ _ (by decide)]
  simp only [hgt]
  split
  · next hts => exact Int.tdiv_eq_ediv_of_nonneg (by omega)
  · rfl

/-- From 1970 on, the durations of the query and of the executor are at least the requested window. -/
theorem requestedWindow_le {ts : Int64} (hts : 0 ≤ ts.toInt) (now : Nat) :
    requestedWindow now ts ≤ ↑(now - (tsToSecs ts).toUInt64.toNat) ∧
      requestedWindow now ts ≤ ↑(now - tsSecsU64 ts.toUInt64.toNat) := by
  have hsecs := emod_toInt (tsToSecs ts)
  have hmod := emod_toInt ts
  have hlt := Int64.toInt_lt ts
  rw [toInt_tsToSecs] at hsecs
  rw [requestedWindow, tsSecsU64]
  by_cases hms : ts.toInt > 100000000000
  · rw [if_pos hms] at hsecs ⊢
    rw [if_pos (by omega)]
    omega
  · rw [if_neg hms] at hsecs ⊢
    rw [if_neg (by omega)]
    omega

section Snapping

variable [Host]

/-- Whatever bucket stands for a lower bound, snapped or in the executor, covers the requested window. -/
def AlwaysCovers (ts : Int64) : Prop :=
  ∀ (ex : QueryExecutor) (tb : TimeBucketManager) (b : TimeBucket), ex.tables.timeBuckets = some tb → tb.Built →
    (∃ name, tb.getBucket name = some b ∧
      ex.tables.snapToBucket tb.fieldName ts = some (.bucketBitmap tb.fieldName name b.bitmap)) ∨
    ex.snapBucket tb (tsSecsU64 ts.toUInt64.toNat) = some b →
    tb.Covers b (requestedWindow ex.tables.nowUnix ts)

theorem exists_snapToBucket {t : Tables} {tb : TimeBucketManager} (htb : t.timeBuckets = some tb) (hbuilt : tb.Built)
    (hne : tb.buckets ≠ []) (ts : Int64) :
    ∃ name b, tb.getBucket name = some b ∧ tb.Covers b ↑(t.nowUnix - (tsToSecs ts).toUInt64.toNat) ∧
      t.snapToBucket tb.fieldName ts = some (.bucketBitmap tb.fieldName name b.bitmap) := by
  rw [snapToBucket, htb, Option.bind_some]
  generalize t.nowUnix - (tsToSecs ts).toUInt64.toNat = duration
  obtain ⟨nearest, hnearest, hcovers⟩ := exists_snapNearest hbuilt hne duration
  cases hname : tb.snapDuration duration with
  | none => exact ⟨_, nearest, hnearest, hcovers, by simp [hname, hnearest]⟩
  | some name =>
    cases hb : tb.getBucket name with
    | none => exact ⟨_, nearest, hnearest, hcovers, by simp [hname, hb, hnearest]⟩
    | some b => exact ⟨name, b, hb, covers_snapDuration hbuilt hname hb, by simp [hname, hb]⟩

/-- Two buckets at second 10. -/
def twoBuckets : TimeBucketManager := ⟨"at", [("1s", ⟨1, ∅⟩), ("2s", ⟨2, ∅⟩)]⟩

def twoBucketTables : Tables := { empty with timeBuckets := some twoBuckets, nowUnix := 10 }

/-- Before 1970 the duration is 0. -/
theorem twoBuckets_not_covers (htol : ∀ d, 0 < d → Host.snapThreshold d < d) {ts : Int64} (hts : ts.toInt < 0) :
    twoBucketTables.snapToBucket "at" ts = some (.bucketBitmap "at" "1s" ∅) ∧
      ¬ twoBuckets.Covers ⟨1, ∅⟩ (requestedWindow 10 ts) := by
  have hone := htol 1 Nat.one_pos
  have htwo := htol 2 Nat.two_pos
  constructor
  · have hsecs := emod_toInt (tsToSecs ts)
    have hle := Int64.le_toInt ts
    rw [toInt_tsToSecs] at hsecs
    have hduration : 10 - (tsToSecs ts).toUInt64.toNat = 0 := by omega
    have hnone : twoBuckets.snapDuration 0 = none := by
      simp [snapDuration, snapLoop, twoBuckets, Nat.lt_one_iff.mp hone, Nat.not_le.mpr htwo]
    simp [snapToBucket, twoBucketTables, hduration, hnone]
    exact ⟨rfl, rfl⟩
  · simp [TimeBucketManager.Covers, requestedWindow, twoBuckets]
    omega

/-- **The served window** covers the requested one exactly for times from 1970 on. -/
theorem alwaysCovers_iff (htol : ∀ d, 0 < d → Host.snapThreshold d < d) (ts : Int64) :
    AlwaysCovers ts ↔ 0 ≤ ts.toInt := by
  constructor
  · intro h
    by_contra hneg
    obtain ⟨hsnap, hnot⟩ := twoBuckets_not_covers htol (Int.not_le.mp hneg)
    exact hnot (h ⟨.new, ⟨∅⟩, ⟨∅⟩, 1, twoBucketTables⟩ _ _ rfl ⟨by simp [twoBuckets], by simp [twoBuckets]⟩
      (.inl ⟨"1s", rfl, hsnap⟩))
  · rintro hts ex tb b htb hbuilt (⟨name, hname, hsnap⟩ | hbucket)
    · have hne : tb.buckets ≠ [] := fun hnil => by simp [getBucket, hnil] at hname
      obtain ⟨name', b', hname', hcovers, hsnap'⟩ := exists_snapToBucket htb hbuilt hne ts
      obtain ⟨rfl, -⟩ : name = name' ∧ _ := by simpa using hsnap.symm.trans hsnap'
      obtain rfl := Option.some.inj (hname.symm.trans hname')
      exact hcovers.mono (requestedWindow_le hts _).1
    · rw [QueryExecutor.snapBucket] at hbucket
      split at hbucket
      · next hname => exact (covers_snapDuration hbuilt hname hbucket).mono (requestedWindow_le hts _).2
      · cases hbucket

end Snapping

section Samples

attribute [local instance] Host.ascii

theorem ascii_tolerance : ∀ d, 0 < d → Host.snapThreshold d < d := by
  intro d hd
  show (d + 5) / 10 < d
  omega

theorem alwaysCovers_five : AlwaysCovers 5 := (alwaysCovers_iff ascii_tolerance 5).mpr (by decide)

/-- The bound -1 asks for 11 seconds and gets the bucket of 1 second. -/
theorem not_covers_before_1970 : twoBucketTables.snapToBucket "at" (-1) = some (.bucketBitmap "at" "1s" ∅) ∧
      ¬ twoBuckets.Covers ⟨1, ∅⟩ (requestedWindow 10 (-1)) :=
  twoBuckets_not_covers ascii_tolerance (by decide)

end Samples

end Bitdex
