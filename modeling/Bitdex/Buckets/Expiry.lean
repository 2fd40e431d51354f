import Bitdex.Buckets.Entries

/-!
# `Buckets.Expiry` — expired slots on pages

A slot that a refresh expired is shown by an entry until a read applies the diff, and a cutoff that runs ahead of the
entry's slots makes reads skip the diff.

The argument is about cutoffs only. Slots *fresh* at a cutoff are expired by later refreshes at most. What an entry, a
shard file or a query has read is fresh at some cutoff, and stays so, since a refresh expires slots by a cutoff above
all earlier ones (`Ages`).
-/

namespace Bitdex

open List UnifiedEntry PendingBucketDiffs
open Option (ite_none_right_eq_some map_eq_some_iff some.inj some.injEq some_ne_none)

namespace BucketCache

section Fresh

variable {s s' : BucketCache} {bitmap bitmap' : Bitmap} {cutoff cutoff' : Nat}

/-- Slots that have expired, if at all, by a refresh above the cutoff. -/
structure Fresh (s : BucketCache) (bitmap : Bitmap) (cutoff : Nat) : Prop where
  le : cutoff ≤ s.bucket.lastCutoff
  lt : ∀ slot ∈ bitmap, ∀ c, s.expired slot = some c → cutoff < c

/-- The cutoff of the bucket does not go back, and slots expire above it. -/
structure Ages (s s' : BucketCache) : Prop where
  le : s.bucket.lastCutoff ≤ s'.bucket.lastCutoff
  lt : ∀ slot c, s'.expired slot = some c → s.expired slot = some c ∨ s.bucket.lastCutoff < c

theorem Ages.of_eq (hbucket : s'.bucket.lastCutoff = s.bucket.lastCutoff)
    (hexpired : s'.expired = s.expired) : Ages s s' :=
  ⟨hbucket.ge, fun _ _ h => .inl (hexpired ▸ h)⟩

theorem Fresh.ages (h : s.Fresh bitmap cutoff) (hages : Ages s s') : s'.Fresh bitmap cutoff := by
  refine ⟨h.le.trans hages.le, fun slot hslot c hc => ?_⟩
  rcases hages.lt slot c hc with hold | hnew
  · exact h.lt slot hslot c hold
  · exact h.le.trans_lt hnew

theorem Fresh.mono (h : s.Fresh bitmap cutoff) (hsub : bitmap' ⊆ bitmap) (hle : cutoff' ≤ cutoff) :
    s.Fresh bitmap' cutoff' :=
  ⟨hle.trans h.le, fun slot hslot c hc => hle.trans_lt (h.lt slot (hsub hslot) c hc)⟩

theorem Fresh.union (h : s.Fresh bitmap cutoff) (h' : s.Fresh bitmap' cutoff) : s.Fresh (bitmap ∪ bitmap') cutoff := by
  refine ⟨h.le, fun slot hslot c hc => ?_⟩
  rcases Finset.mem_union.mp hslot with hin | hin
  · exact h.lt slot hin c hc
  · exact h'.lt slot hin c hc

end Fresh

/-! ## The bucket and its diffs -/

/-- Diffs in order of time, each of a cutoff that moved forward. -/
structure Ordered (diffs : List BucketDiff) : Prop where
  forward : ∀ d ∈ diffs, d.cutoffBefore ≤ d.cutoffAfter
  pairwise : diffs.Pairwise fun d d' => d.cutoffAfter ≤ d'.cutoffBefore

/-- The cutoff that the diffs start from. -/
def oldest (diffs : List BucketDiff) : Nat := (diffs.head?.map (·.cutoffBefore)).getD 0

/-- The diffs have the slot with its cutoff, or all start after it. -/
def Accounts (diffs : List BucketDiff) (slot : UInt32) (c : Nat) : Prop :=
  c ≤ oldest diffs ∨ ∃ d ∈ diffs, slot ∈ d.expired ∧ c ≤ d.cutoffAfter

section Ordered

variable {diffs : List BucketDiff} {d : BucketDiff} {slot : UInt32} {c k : Nat}

theorem Ordered.concat (h : Ordered diffs) (hd : d.cutoffBefore ≤ d.cutoffAfter)
    (hlast : ∀ d' ∈ diffs, d'.cutoffAfter ≤ d.cutoffBefore) : Ordered (diffs ++ [d]) := by
  refine ⟨fun d' hd' => ?_, pairwise_append.mpr ⟨h.pairwise, pairwise_singleton _ _, ?_⟩⟩
  · rcases mem_append.mp hd' with hin | hin
    · exact h.forward d' hin
    · rwa [mem_singleton.mp hin]
  · intro d' hd' d'' hd''
    rw [mem_singleton.mp hd'']
    exact hlast d' hd'

theorem Ordered.drop (h : Ordered diffs) : Ordered (diffs.drop k) :=
  ⟨fun d hd => h.forward d (mem_of_mem_drop hd), h.pairwise.sublist (drop_sublist k diffs)⟩

theorem Accounts.concat (h : Accounts diffs slot c) : Accounts (diffs ++ [d]) slot c := by
  rcases h with hold | ⟨d', hd', hslot⟩
  · refine .inl (hold.trans ?_)
    cases diffs with
    | nil => exact Nat.zero_le _
    | cons _ _ => exact le_rfl
  · exact .inr ⟨d', mem_append_left _ hd', hslot⟩

/-- A slot of a diff that is dropped is older than the diffs that are left. -/
theorem Accounts.drop (h : Accounts diffs slot c) (hordered : Ordered diffs) (hk : k < diffs.length) :
    Accounts (diffs.drop k) slot c := by
  induction k generalizing diffs with
  | zero => exact h
  | succ k ih =>
    match diffs, hk with
    | [_], hk => exact absurd hk (by simp)
    | d :: d' :: rest, hk =>
      have hnext : d.cutoffAfter ≤ d'.cutoffBefore := rel_of_pairwise_cons hordered.pairwise mem_cons_self
      have hforward : d.cutoffBefore ≤ d.cutoffAfter := hordered.forward d mem_cons_self
      refine ih ?_ (hordered.drop (k := 1)) (Nat.lt_of_succ_lt_succ hk)
      rcases h with hold | ⟨d₀, hd₀, hslot, hle⟩
      · exact .inl (hold.trans (hforward.trans hnext))
      · rcases mem_cons.mp hd₀ with rfl | hd₀
        · exact .inl (hle.trans hnext)
        · exact .inr ⟨d₀, hd₀, hslot, hle⟩

end Ordered

/-- The diffs account for the expired slots: one that a diff does not have was expired before the oldest. -/
structure Tracked (s : BucketCache) : Prop where
  gone : ∀ slot c, s.expired slot = some c → slot ∉ s.bucket.bitmap
  pos : ∀ slot c, s.expired slot = some c → 0 < c
  le : ∀ slot c, s.expired slot = some c → c ≤ s.bucket.lastCutoff
  ordered : Ordered s.pending.diffs
  current : ∀ d ∈ s.pending.diffs, d.cutoffAfter ≤ s.pending.currentCutoff
  currentLe : s.pending.currentCutoff ≤ s.bucket.lastCutoff
  inFlight : ∀ d, s.inFlight = some d → s.pending.currentCutoff ≤ d.cutoffBefore ∧
    d.cutoffBefore ≤ d.cutoffAfter ∧ d.cutoffAfter ≤ s.bucket.lastCutoff
  covered : ∀ slot c, s.expired slot = some c →
    (∃ d, s.inFlight = some d ∧ slot ∈ d.expired ∧ c ≤ d.cutoffAfter) ∨ Accounts s.pending.diffs slot c

section Tracked

variable {s s' : BucketCache}

/-- The slots of a bucket are fresh at its cutoff. -/
theorem Tracked.fresh_bucket (h : s.Tracked) : s.Fresh s.bucket.bitmap s.bucket.lastCutoff :=
  ⟨le_rfl, fun slot hslot c hc => absurd hslot (h.gone slot c hc)⟩

/-- With no diff on its way, every expired slot is in a retained diff or older than all of them. -/
theorem Tracked.covered_of_idle (h : s.Tracked) (hidle : s.inFlight = none) {slot : UInt32} {c : Nat}
    (hc : s.expired slot = some c) :
    c ≤ s.pending.oldestCutoff ∨ (c ≤ s.pending.currentCutoff ∧ slot ∈ s.pending.mergedExpired) := by
  rcases h.covered slot c hc with ⟨d, hd, -⟩ | hold | ⟨d, hd, hslot, hle⟩
  · rw [hidle] at hd
    cases hd
  · exact .inl hold
  · exact .inr ⟨hle.trans (h.current d hd), mem_mergedExpired.mpr ⟨d, hd, hslot⟩⟩

/-- A refresh stores its diff, and the oldest gives way when the window is full. -/
theorem Tracked.pushDiff (h : s.Tracked) {diff : BucketDiff} (hdiff : s.inFlight = some diff) :
    { s with pending := (fromDiffs s.pending.diffs).push diff,
             inFlight := none : BucketCache }.Tracked := by
  obtain ⟨hcur, hforward, hle⟩ := h.inFlight diff hdiff
  have hlast : ∀ d ∈ s.pending.diffs, d.cutoffAfter ≤ diff.cutoffBefore := fun d hd =>
    (h.current d hd).trans hcur
  have hordered : Ordered (s.pending.diffs ++ [diff]) := h.ordered.concat hforward hlast
  have hkept : (s.pending.diffs ++ [diff]).length - BucketDiff.maxDiffs < (s.pending.diffs ++ [diff]).length :=
    Nat.sub_lt (by simp) (by simp [BucketDiff.maxDiffs])
  refine ⟨h.gone, h.pos, h.le, hordered.drop, fun d hd => ?_, hle,
    fun d hd => absurd hd.symm (some_ne_none d), fun slot c hc => ?_⟩
  · show d.cutoffAfter ≤ diff.cutoffAfter
    rcases mem_append.mp (mem_of_mem_drop hd) with hin | hin
    · exact (hlast d hin).trans hforward
    · rw [mem_singleton.mp hin]
  · -- the slots of the diff are now in the window
    refine .inr (Accounts.drop ?_ hordered hkept)
    rcases h.covered slot c hc with ⟨d, hd, hslot, hle⟩ | hrest
    · obtain rfl : diff = d := some.inj (hdiff.symm.trans hd)
      exact .inr ⟨diff, mem_append_right _ mem_cons_self, hslot, hle⟩
    · exact hrest.concat

/-- Slots enter and leave the bucket, and its cutoff may move forward. -/
theorem Tracked.reenter (h : s.Tracked) (bucket : RangeBucket) (slots : Bitmap)
    (hcutoff : s.bucket.lastCutoff ≤ bucket.lastCutoff)
    (hin : ∀ slot ∈ bucket.bitmap, slot ∈ s.bucket.bitmap ∨ slot ∈ slots) :
    { s with bucket := bucket, expired := s.reenter slots : BucketCache }.Tracked ∧
      Ages s { s with bucket := bucket, expired := s.reenter slots } := by
  -- what is still expired was expired before
  have hold : ∀ slot c, s.reenter slots slot = some c → slot ∉ slots ∧ s.expired slot = some c :=
    fun slot c hc => Option.ite_none_left_eq_some.mp hc
  refine ⟨⟨?_, ?_, ?_, h.ordered, h.current, h.currentLe.trans hcutoff, ?_, ?_⟩, hcutoff, ?_⟩
  · intro slot c hc hslot
    obtain ⟨hnot, hc⟩ := hold slot c hc
    rcases hin slot hslot with hbefore | hnew
    · exact h.gone slot c hc hbefore
    · exact hnot hnew
  · exact fun slot c hc => h.pos slot c (hold slot c hc).2
  · exact fun slot c hc => (h.le slot c (hold slot c hc).2).trans hcutoff
  · intro d hd
    obtain ⟨hcur, hforward, hle⟩ := h.inFlight d hd
    exact ⟨hcur, hforward, hle.trans hcutoff⟩
  · exact fun slot c hc => h.covered slot c (hold slot c hc).2
  · exact fun slot c hc => .inl (hold slot c hc).2

/-- A refresh that finds the cutoff in place. -/
theorem Tracked.refresh_none (h : s.Tracked) (bucket : RangeBucket) (hbitmap : bucket.bitmap ⊆ s.bucket.bitmap)
    (hcutoff : s.bucket.lastCutoff ≤ bucket.lastCutoff) :
    { s with bucket := bucket : BucketCache }.Tracked ∧ Ages s { s with bucket := bucket } := by
  have hnone : s.reenter ∅ = s.expired := funext fun slot => if_neg (Finset.notMem_empty slot)
  have hsame := h.reenter bucket ∅ hcutoff fun slot hslot => .inl (hbitmap hslot)
  rwa [hnone] at hsame

/-- A refresh expires the slots of its diff by a cutoff above that of the bucket. -/
theorem Tracked.refresh_some (h : s.Tracked) (hidle : s.inFlight = none) {ts : UInt32 → Nat} {now : Nat}
    {diff : BucketDiff} (hdiff : s.bucket.refreshDiff ts now = some diff) :
    { s with bucket := s.bucket.refresh ts now, inFlight := some diff,
             expired := s.expire diff : BucketCache }.Tracked ∧
      Ages s { s with bucket := s.bucket.refresh ts now, inFlight := some diff, expired := s.expire diff } := by
  have hbucket : s.bucket.refresh ts now = s.bucket.subtractExpired diff.expired (s.bucket.cutoffAt now) now := by
    rw [RangeBucket.refresh, hdiff]
    rfl
  obtain ⟨hlt, hdiff⟩ := Option.ite_none_left_eq_some.mp hdiff
  have hlt : s.bucket.lastCutoff < s.bucket.cutoffAt now := Nat.not_le.mp hlt
  have hbefore : diff.cutoffBefore = s.bucket.lastCutoff := by rw [← some.inj hdiff]
  have hafter : diff.cutoffAfter = s.bucket.cutoffAt now := by rw [← some.inj hdiff]
  -- an expired slot is one of the diff, or was expired before
  have hcases : ∀ slot c, s.expire diff slot = some c →
      (slot ∈ diff.expired ∧ c = s.bucket.cutoffAt now) ∨ (slot ∉ diff.expired ∧ s.expired slot = some c) := by
    intro slot c hc
    by_cases hslot : slot ∈ diff.expired
    · rw [expire, if_pos hslot] at hc
      exact .inl ⟨hslot, hafter ▸ (some.inj hc).symm⟩
    · rw [expire, if_neg hslot] at hc
      exact .inr ⟨hslot, hc⟩
  rw [hbucket]
  refine ⟨⟨?_, ?_, ?_, h.ordered, h.current, h.currentLe.trans hlt.le, ?_, ?_⟩, hlt.le, ?_⟩
  · intro slot c hc hslot
    obtain ⟨hin, hnot⟩ := Finset.mem_sdiff.mp hslot
    rcases hcases slot c hc with ⟨hslot, -⟩ | ⟨-, hold⟩
    · exact hnot hslot
    · exact h.gone slot c hold hin
  · intro slot c hc
    rcases hcases slot c hc with ⟨-, rfl⟩ | ⟨-, hold⟩
    · exact Nat.zero_lt_of_lt hlt
    · exact h.pos slot c hold
  · intro slot c hc
    rcases hcases slot c hc with ⟨-, rfl⟩ | ⟨-, hold⟩
    · exact le_rfl
    · exact (h.le slot c hold).trans hlt.le
  · intro d hd
    obtain rfl := some.inj hd
    show s.pending.currentCutoff ≤ diff.cutoffBefore ∧ diff.cutoffBefore ≤ diff.cutoffAfter ∧
      diff.cutoffAfter ≤ s.bucket.cutoffAt now
    rw [hbefore, hafter]
    exact ⟨h.currentLe, hlt.le, le_rfl⟩
  · intro slot c hc
    rcases hcases slot c hc with ⟨hslot, rfl⟩ | ⟨-, hold⟩
    · exact .inl ⟨diff, rfl, hslot, hafter.ge⟩
    · rcases h.covered slot c hold with ⟨d, hd, -⟩ | hrest
      · rw [hidle] at hd
        cases hd
      · exact .inr hrest
  · intro slot c hc
    rcases hcases slot c hc with ⟨-, rfl⟩ | ⟨-, hold⟩
    · exact .inr hlt
    · exact .inl hold

end Tracked

/-! ## What is held elsewhere -/

/-- What a query has read of the diffs, and that it covers what had expired when the query started. -/
def Covers (s : BucketCache) (query : BucketQuery) : BucketDiffState → Prop
  | .apply candidates newCutoff oldestCutoff =>
    newCutoff ≤ query.bucket.lastCutoff ∧
      (∀ slot c, s.expired slot = some c → c ≤ newCutoff → c ≤ oldestCutoff ∨ slot ∈ candidates) ∧
      ∀ slot c, query.before slot = some c → s.expired slot = some c → c ≤ newCutoff
  | .rebuild => True
  | .noop => ∀ slot c, query.before slot = some c → s.expired slot ≠ some c

/-- What a query has read. -/
structure Reads (s : BucketCache) (query : BucketQuery) : Prop where
  fresh : s.Fresh query.bucket.bitmap query.bucket.lastCutoff
  before : ∀ slot c, query.before slot = some c → c ≤ query.bucket.lastCutoff
  diffs : ∀ state, query.diffState = some state → s.Covers query state

/-- An entry shows only slots of its bitmap, fresh at its cutoff and at that of the bucket they were taken from. -/
structure Right (s : BucketCache) (e : BucketEntry) : Prop where
  listed : e.entry.Listed
  fresh : s.Fresh e.entry.bitmap (max e.bucketCutoff e.asOf)

/-- An entry in a shard file, with keys of its own slots only. -/
structure Filed (s : BucketCache) (f : StoredEntry) : Prop where
  keys : ∀ keys, f.sortedKeys = some keys → ∀ key ∈ keys, (unpackKey key).2 ∈ f.bitmap
  fresh : s.Fresh f.bitmap f.asOf

/-- All that is held is right. -/
structure Held (s : BucketCache) : Prop where
  entry : ∀ e, s.entry = some e → s.Right e
  shard : ∀ f, s.shard = some f → s.Filed f
  loading : ∀ f, s.loading = some f → s.Filed f
  queries : ∀ q query, s.queries q = some query → s.Reads query
  served : ∀ page ∈ s.served, ¬page.HasExpired

section Held

variable {s s' : BucketCache} {e : BucketEntry} {query : BucketQuery} {state : BucketDiffState}

theorem Right.ages (h : s.Right e) (hages : Ages s s') : s'.Right e := ⟨h.listed, h.fresh.ages hages⟩

theorem Filed.ages {f : StoredEntry} (h : s.Filed f) (hages : Ages s s') : s'.Filed f := ⟨h.keys, h.fresh.ages hages⟩

/-- Slots that expire later do so above everything a query has read. -/
theorem Covers.ages (h : s.Covers query state) (hq : s.Reads query) (hages : Ages s s') : s'.Covers query state := by
  have hlate : ∀ slot c, s'.expired slot = some c → c ≤ query.bucket.lastCutoff → s.expired slot = some c := by
    intro slot c hc hle
    rcases hages.lt slot c hc with hold | hnew
    · exact hold
    · exact absurd (hle.trans hq.fresh.le) (Nat.not_le.mpr hnew)
  cases state with
  | apply candidates newCutoff oldestCutoff =>
    obtain ⟨hle, hcovers, hbefore⟩ := h
    refine ⟨hle, fun slot c hc hnew => ?_, fun slot c hb hc => ?_⟩
    · exact hcovers slot c (hlate slot c hc (hnew.trans hle)) hnew
    · exact hbefore slot c hb (hlate slot c hc (hq.before slot c hb))
  | rebuild => trivial
  | noop => exact fun slot c hb hc => h slot c hb (hlate slot c hc (hq.before slot c hb))

theorem Reads.ages (h : s.Reads query) (hages : Ages s s') : s'.Reads query :=
  ⟨h.fresh.ages hages, h.before, fun state hstate => (h.diffs state hstate).ages h hages⟩

/-- Everything that is held after an event was held before it or is right by itself. -/
theorem Held.next (h : s.Held) (hages : Ages s s') (hentry : ∀ e, s'.entry = some e → s.entry = some e ∨ s.Right e)
    (hshard : ∀ f, s'.shard = some f → s.shard = some f ∨ s.Filed f)
    (hloading : ∀ f, s'.loading = some f → s.loading = some f ∨ s.Filed f)
    (hqueries : ∀ q query, s'.queries q = some query → s.queries q = some query ∨ s.Reads query)
    (hserved : ∀ page ∈ s'.served, page ∈ s.served ∨ ¬page.HasExpired) : s'.Held := by
  refine ⟨fun e he => ?_, fun f hf => ?_, fun f hf => ?_, fun q query hq => ?_, fun page hpage => ?_⟩
  · exact ((hentry e he).elim (h.entry e) id).ages hages
  · exact ((hshard f hf).elim (h.shard f) id).ages hages
  · exact ((hloading f hf).elim (h.loading f) id).ages hages
  · exact ((hqueries q query hq).elim (h.queries q query) id).ages hages
  · exact (hserved page hpage).elim (h.served page) id

/-- A new entry in place of the old one. -/
theorem Held.setEntry (h : s.Held) (he : s.Right e) : { s with entry := some e : BucketCache }.Held := by
  refine h.next (.of_eq rfl rfl) (fun e' he' => .inr ?_) (fun _ => .inl) (fun _ => .inl) (fun _ _ => .inl)
    fun _ => .inl
  obtain rfl := some.inj he'
  exact he

theorem Held.setQuery (h : s.Held) {q : Nat} (hq : s.Reads query) : (s.setQuery q query).Held := by
  refine h.next (.of_eq rfl rfl) (fun _ => .inl) (fun _ => .inl) (fun _ => .inl) (fun q' query' hq' => ?_)
    fun _ => .inl
  have hq' : Function.update s.queries q (some query) q' = some query' := hq'
  by_cases hsame : q' = q
  · rw [hsame, Function.update_self] at hq'
    obtain rfl := some.inj hq'
    exact .inr hq
  · rw [Function.update_of_ne hsame] at hq'
    exact .inl hq'

/-- A page of an entry that shows its bitmap only has slots of the bitmap. -/
theorem mem_bitmap_of_mem_ids {request : PageRequest} {e : UnifiedEntry} {id : UInt32} (he : e.Listed)
    (h : id ∈ request.ids e) : id ∈ e.bitmap := by
  unfold PageRequest.ids at h
  simp only at h
  split at h
  · next page hpage =>
    split at hpage
    · exact QueryExecutor.mem_of_mem_executeFromBitmap hpage h
    · exact he.shows_iff.mp (QueryExecutor.shows_of_mem_serveEntry hpage h)
  · cases h

/-- A page is served from an entry that has no slot expired before the read. -/
theorem Held.serve (h : s.Held) {request : PageRequest} (he : s.Right e)
    (hclean : ∀ slot ∈ e.entry.bitmap, ∀ c, query.before slot = some c → s.expired slot ≠ some c) :
    (s.serve query request e).Held := by
  refine h.next (.of_eq rfl rfl) (fun e' he' => .inr ?_) (fun _ => .inl) (fun _ => .inl) (fun _ _ => .inl)
    fun page hpage => (mem_append.mp hpage).imp_right fun hnew => ?_
  · obtain rfl := some.inj he'
    exact he
  · rw [mem_singleton.mp hnew]
    rintro ⟨slot, hslot, c, -, hbefore, hexpired⟩
    exact hclean slot (mem_bitmap_of_mem_ids he.listed hslot) c hbefore hexpired

/-- The entry can be updated: its one bucket is configured, and the retained diffs go back to its cutoff if they lead
beyond it. -/
def CanApply (e : BucketEntry) : BucketDiffState → Prop
  | .apply _ newCutoff oldestCutoff => e.bucketCutoff < newCutoff → oldestCutoff ≤ e.bucketCutoff
  | .rebuild => False
  | .noop => True

theorem Right.applyDiffState (h : s.Right e) (hq : s.Reads query) (hstate : query.diffState = some state)
    (hcan : CanApply e state) : s.Right (e.applyDiffState state query.bucket.bitmap) ∧
      ∀ slot ∈ (e.applyDiffState state query.bucket.bitmap).entry.bitmap,
        ∀ c, query.before slot = some c → s.expired slot ≠ some c := by
  have hcovers := hq.diffs state hstate
  cases state with
  | rebuild => exact hcan.elim
  | noop => exact ⟨h, fun slot _ => hcovers slot⟩
  | apply candidates newCutoff oldestCutoff =>
    obtain ⟨hle, hcovers, hbefore⟩ := hcovers
    have hcutoff : ∀ slot ∈ e.entry.bitmap, ∀ c, s.expired slot = some c → e.bucketCutoff < c :=
      fun slot hslot c hc => (le_max_left _ _).trans_lt (h.fresh.lt slot hslot c hc)
    by_cases hbehind : e.bucketCutoff < newCutoff
    · have hreach := hcan hbehind
      simp only [BucketEntry.applyDiffState, if_pos hbehind, if_pos hreach]
      -- a slot that is left and has expired is not a candidate, or is in the bucket the query loaded
      have hleft : ∀ slot ∈ (e.entry.applyBucketDiff candidates query.bucket.bitmap).bitmap,
          ∀ c, s.expired slot = some c → newCutoff < c := by
        intro slot hslot c hc
        obtain ⟨hin, hlive⟩ := mem_bitmap_applyBucketDiff.mp hslot
        by_contra hnot
        rcases hcovers slot c hc (Nat.not_lt.mp hnot) with hold | hcand
        · exact absurd (hold.trans hreach) (Nat.not_le.mpr (hcutoff slot hin c hc))
        · exact hnot (hle.trans_lt (hq.fresh.lt slot (hlive hcand) c hc))
      refine ⟨⟨h.listed.applyBucketDiff _ _, ?_, fun slot hslot c hc => ?_⟩, fun slot hslot c hb hc => ?_⟩
      · exact max_le (hle.trans hq.fresh.le) ((le_max_right _ _).trans h.fresh.le)
      · have hin := (mem_bitmap_applyBucketDiff.mp hslot).1
        exact max_lt (hleft slot hslot c hc) ((le_max_right _ _).trans_lt (h.fresh.lt slot hin c hc))
      · exact absurd (hbefore slot c hb hc) (Nat.not_le.mpr (hleft slot hslot c hc))
    · simp only [BucketEntry.applyDiffState, if_neg hbehind]
      refine ⟨h, fun slot hslot c hb hc => ?_⟩
      have hlt := hcutoff slot hslot c hc
      exact absurd (hbefore slot c hb hc) (by omega)

theorem Right.markForRebuild (h : s.Right e) : s.Right e.markForRebuild := ⟨h.listed.markForRebuild, h.fresh⟩

/-- A cutoff that does not run ahead of the entry's slots. -/
def CanSeed (e : BucketEntry) : BucketDiffState → Prop
  | .apply _ newCutoff _ => newCutoff ≤ max e.bucketCutoff e.asOf
  | .rebuild => True
  | .noop => True

theorem Right.seed (h : s.Right e) (hcan : CanSeed e state) : s.Right (e.seed state) := by
  cases state with
  | apply candidates newCutoff oldestCutoff =>
    have hcan : newCutoff ≤ max e.bucketCutoff e.asOf := hcan
    refine ⟨h.listed, h.fresh.mono subset_rfl ?_⟩
    show max (max e.bucketCutoff newCutoff) e.asOf ≤ max e.bucketCutoff e.asOf
    omega
  | rebuild => exact h.markForRebuild
  | noop => exact h

/-- The slots of an entry that a query forms are those of the bucket it loaded. -/
theorem Reads.right_form (h : s.Reads query) {info : FormInfo}
    (hin : ∀ slot ∈ info.sortedSlots, slot ∈ query.bucket.bitmap) :
    s.Right ⟨info.entry, 0, query.bucket.lastCutoff⟩ := by
  refine ⟨UnifiedEntry.Listed.newWithClauses, h.fresh.mono (fun slot hslot => ?_) (by simp)⟩
  exact hin slot (mem_of_mem_take (mem_toFinset.mp hslot))

theorem Right.expand (h : s.Right e) (hq : s.Reads query) {newSlots : List UInt32} (valueFn : UInt32 → Nat)
    (hin : ∀ slot ∈ newSlots, slot ∈ query.bucket.bitmap) (hle : e.bucketCutoff ≤ query.bucket.lastCutoff) :
    s.Right ⟨e.entry.expand newSlots valueFn, e.bucketCutoff, min e.asOf query.bucket.lastCutoff⟩ := by
  refine ⟨UnifiedEntry.Listed.expand, (h.fresh.mono subset_rfl ?_).union (hq.fresh.mono (fun slot hslot => ?_) ?_)⟩
  · show max e.bucketCutoff (min e.asOf query.bucket.lastCutoff) ≤ max e.bucketCutoff e.asOf
    omega
  · exact hin slot (mem_toFinset.mp hslot)
  · show max e.bucketCutoff (min e.asOf query.bucket.lastCutoff) ≤ query.bucket.lastCutoff
    omega

theorem Filed.right_restored {f : StoredEntry} (h : s.Filed f) (info : RestoreInfo) :
    s.Right ⟨f.restored info, 0, f.asOf⟩ := by
  have hbitmap : (f.restored info).bitmap = f.bitmap := by
    unfold StoredEntry.restored
    split <;> rfl
  refine ⟨?_, (h.fresh.mono hbitmap.subset (by simp))⟩
  show (f.restored info).Listed
  unfold StoredEntry.restored
  split
  · exact UnifiedEntry.Listed.fromRestoredWithClauses h.keys
  · exact (UnifiedEntry.Listed.fromRestoredWithClauses h.keys).markForRebuild

end Held

/-! ## Loading the diffs -/

section Resolve

variable {s : BucketCache} {query : BucketQuery}

theorem Tracked.oldest_le (h : s.Tracked) : s.pending.oldestCutoff ≤ s.pending.currentCutoff := by
  unfold oldestCutoff
  cases hdiffs : s.pending.diffs with
  | nil => exact Nat.zero_le _
  | cons d rest =>
    have hd : d ∈ s.pending.diffs := hdiffs ▸ mem_cons_self
    exact (h.ordered.forward d hd).trans (h.current d hd)

/-- Diffs that are loaded while no refresh is half done cover what has expired. -/
theorem Tracked.covers_resolve (h : s.Tracked) (hname : s.name ∈ s.keyNames) (hidle : s.inFlight = none)
    (hle : s.pending.currentCutoff ≤ query.bucket.lastCutoff) : s.Covers query s.resolve := by
  have hcurrent : ∀ slot c, s.expired slot = some c → c ≤ s.pending.currentCutoff := by
    intro slot c hc
    rcases h.covered_of_idle hidle hc with hold | ⟨hnew, -⟩
    · exact hold.trans h.oldest_le
    · exact hnew
  unfold resolve
  match hkey : s.keyNames with
  | [] =>
    rw [hkey] at hname
    cases hname
  | _ :: _ :: _ => trivial
  | [name] =>
    obtain rfl : s.name = name := mem_singleton.mp (hkey ▸ hname)
    simp only [resolveBucketDiffStateFor, if_true]
    split
    · next hzero =>
      intro slot c _ hc
      have hpos := h.pos slot c hc
      exact absurd (hcurrent slot c hc) (by omega)
    · refine ⟨hle, fun slot c hc _ => ?_, fun slot c _ hc => hcurrent slot c hc⟩
      exact (h.covered_of_idle hidle hc).imp_right And.right

/-- A cutoff that is resolved is that of the diffs. -/
theorem canSeed_resolve {e : BucketEntry} (hle : s.pending.currentCutoff ≤ max e.bucketCutoff e.asOf) :
    CanSeed e s.resolve := by
  unfold resolve resolveBucketDiffStateFor
  split
  · trivial
  · split
    · trivial
    · next hpending =>
      split
      · trivial
      · obtain rfl := some.inj (ite_none_right_eq_some.mp hpending).2
        exact hle
  · trivial

end Resolve

/-- **The condition** on an event and the state before it.
* The clock does not set the bucket's cutoff back.
* A query loads the diffs while no refresh is half done, and they do not lead beyond the bucket it loaded.
* A read finds an entry that the retained diffs can update.
* A cutoff that is seeded or restored does not run ahead of the entry's slots; neither does the bucket of a query that
  reads without a look at the diffs.
* An entry is expanded from a bucket that is not behind its cutoff.
* Added slots are in the bucket, under values that keep their place in the radix index. -/
def Meets (s : BucketCache) : BucketCacheEvent → Prop
  | .refresh _ now => s.bucket.lastCutoff ≤ s.bucket.cutoffAt now
  | .rebuildBucket _ now => s.bucket.lastCutoff ≤ s.bucket.cutoffAt now
  | .loadDiffs q => ∀ query, s.queries q = some query →
      s.inFlight = none ∧ s.pending.currentCutoff ≤ query.bucket.lastCutoff
  | .hit q _ => ∀ query state e, s.queries q = some query → query.diffState = some state →
      s.lookup = some e → CanApply e state
  | .reread q _ => ∀ query e, s.queries q = some query → s.lookup = some e →
      query.bucket.lastCutoff ≤ max e.bucketCutoff e.asOf
  | .seed q => ∀ query state e, s.queries q = some query → query.diffState = some state →
      s.entry = some e → CanSeed e state
  | .expand q _ _ => ∀ query e, s.queries q = some query → s.lookup = some e →
      e.bucketCutoff ≤ query.bucket.lastCutoff
  | .addSlots adds => (∀ a ∈ adds, a.1 ∈ s.bucket.bitmap) ∧
      ∀ e r, s.entry = some e → e.entry.radix = some r → r.Fits adds
  | .insertRestored _ => ∀ f, s.loading = some f → s.pending.currentCutoff ≤ f.asOf
  | _ => True

/-- What holds in every state of a run. -/
structure Inv (s : BucketCache) : Prop where
  filtered : s.name ∈ s.keyNames
  tracked : s.Tracked
  held : s.Held

section Steps

variable {s s' : BucketCache}

theorem entry_of_lookup {e : BucketEntry} (h : s.lookup = some e) : s.entry = some e :=
  (Option.filter_eq_some_iff.mp h).1

/-- An event of the bucket: what is held elsewhere survives it. -/
theorem Inv.bucket (h : s.Inv) (hafter : s'.Tracked ∧ Ages s s')
    (hrest : s' = { s with bucket := s'.bucket, pending := s'.pending, inFlight := s'.inFlight,
                           expired := s'.expired }) : s'.Inv := by
  rw [hrest] at hafter ⊢
  exact ⟨h.filtered, hafter.1,
    h.held.next hafter.2 (fun _ => .inl) (fun _ => .inl) (fun _ => .inl) (fun _ _ => .inl) fun _ => .inl⟩

/-- An event elsewhere. -/
theorem Inv.elsewhere (h : s.Inv) (hheld : s'.Held)
    (hrest : s' = { s with entry := s'.entry, shard := s'.shard, loading := s'.loading, queries := s'.queries,
                           served := s'.served }) : s'.Inv := by
  obtain ⟨hfiltered, ht, -⟩ := h
  rw [hrest] at hheld ⊢
  exact ⟨hfiltered, ⟨ht.gone, ht.pos, ht.le, ht.ordered, ht.current, ht.currentLe, ht.inFlight, ht.covered⟩, hheld⟩

/-- The entry is changed where it stands. -/
theorem Held.mapEntry (h : s.Held) {f : BucketEntry → BucketEntry}
    (hf : ∀ e, s.entry = some e → s.Right e → s.Right (f e)) :
    { s with entry := s.entry.map f : BucketCache }.Held := by
  cases hentry : s.entry with
  | none =>
    rw [Option.map_none, ← hentry]
    exact h
  | some e => exact h.setEntry (hf e hentry (h.entry e hentry))

theorem Inv.refresh (h : s.Inv) (hidle : s.inFlight = none) {ts : UInt32 → Nat} {now : Nat}
    (hclock : s.bucket.lastCutoff ≤ s.bucket.cutoffAt now) : (s.refresh ts now).Inv := by
  unfold BucketCache.refresh
  cases hdiff : s.bucket.refreshDiff ts now with
  | none => exact h.bucket (h.tracked.refresh_none (s.bucket.refresh ts now) Finset.sdiff_subset hclock) rfl
  | some diff => exact h.bucket (h.tracked.refresh_some hidle hdiff) rfl

/-- **One event** that meets the condition. -/
theorem Inv.step (h : s.Inv) {ev : BucketCacheEvent} (hmeets : s.Meets ev) (hstep : s.step ev = some s') : s'.Inv := by
  cases ev with
  | refresh ts now =>
    obtain ⟨hguard, rfl⟩ := Option.ite_some_none_eq_some.mp hstep
    have hidle := Option.isNone_iff_eq_none.mp (Bool.and_eq_true_iff.mp hguard).1
    exact h.refresh hidle hmeets
  | pushDiff =>
    obtain ⟨diff, hdiff, rfl⟩ := map_eq_some_iff.mp hstep
    exact h.bucket ⟨h.tracked.pushDiff hdiff, .of_eq rfl rfl⟩ rfl
  | maintainBucket inserted removed =>
    obtain rfl := some.inj hstep
    refine h.bucket (h.tracked.reenter { s.bucket with bitmap := (s.bucket.bitmap \ removed) ∪ inserted }
      inserted le_rfl fun slot hslot => ?_) rfl
    exact (Finset.mem_union.mp hslot).imp_left fun hin => (Finset.mem_sdiff.mp hin).1
  | rebuildBucket timestamps now =>
    obtain rfl := some.inj hstep
    exact h.bucket (h.tracked.reenter (s.bucket.rebuild timestamps now)
      (s.bucket.rebuild timestamps now).bitmap hmeets fun slot hslot => .inr hslot) rfl
  | setRefreshInterval secs =>
    obtain rfl := some.inj hstep
    exact h.bucket (h.tracked.refresh_none { s.bucket with refreshIntervalSecs := secs } subset_rfl le_rfl) rfl
  | start q =>
    obtain rfl := some.inj hstep
    have hreads : s.Reads ⟨s.bucket, none, s.expired⟩ :=
      ⟨h.tracked.fresh_bucket, h.tracked.le, fun state hstate => absurd hstate.symm (some_ne_none _)⟩
    exact h.elsewhere (h.held.setQuery hreads) rfl
  | loadDiffs q =>
    obtain ⟨query, hq, rfl⟩ := map_eq_some_iff.mp hstep
    obtain ⟨hidle, hle⟩ := hmeets query hq
    have hreads := h.held.queries q query hq
    refine h.elsewhere (h.held.setQuery ⟨hreads.fresh, hreads.before, fun state hstate => ?_⟩) rfl
    obtain rfl := some.inj hstate
    exact h.tracked.covers_resolve h.filtered hidle hle
  | hit q request =>
    simp only [BucketCache.step, Option.bind_eq_bind, Option.bind_eq_some_iff, Option.pure_def,
      some.injEq] at hstep
    obtain ⟨query, hq, state, hstate, e, he, rfl⟩ := hstep
    obtain ⟨hright, hclean⟩ := (h.held.entry e (entry_of_lookup he)).applyDiffState
      (h.held.queries q query hq) hstate (hmeets query state e hq hstate he)
    exact h.elsewhere (h.held.serve hright hclean) rfl
  | reread q request =>
    simp only [BucketCache.step, Option.bind_eq_bind, Option.bind_eq_some_iff, Option.pure_def,
      some.injEq] at hstep
    obtain ⟨query, hq, e, he, rfl⟩ := hstep
    have hright := h.held.entry e (entry_of_lookup he)
    refine h.elsewhere (h.held.serve hright fun slot hslot c hb hc => ?_) rfl
    -- what had expired when the query started is below the cutoff at which the entry is fresh
    have hle := ((h.held.queries q query hq).before slot c hb).trans (hmeets query e hq he)
    exact absurd (hright.fresh.lt slot hslot c hc) (Nat.not_lt.mpr hle)
  | form q info =>
    simp only [BucketCache.step, Option.bind_eq_bind, Option.bind_eq_some_iff,
      ite_none_right_eq_some, some.injEq, all_eq_true, decide_eq_true_eq] at hstep
    obtain ⟨query, hq, hin, rfl⟩ := hstep
    exact h.elsewhere (h.held.setEntry ((h.held.queries q query hq).right_form hin)) rfl
  | formTraced q info =>
    simp only [BucketCache.step, Option.bind_eq_bind, Option.bind_eq_some_iff,
      ite_none_right_eq_some, some.injEq, all_eq_true, decide_eq_true_eq] at hstep
    obtain ⟨query, hq, state, hstate, hin, rfl⟩ := hstep
    have hreads := h.held.queries q query hq
    have hcan : CanSeed ⟨info.entry, 0, query.bucket.lastCutoff⟩ state := by
      have hcovers := hreads.diffs state hstate
      cases state with
      | apply _ _ _ => exact hcovers.1.trans (le_max_right _ _)
      | rebuild | noop => trivial
    exact h.elsewhere (h.held.setEntry ((hreads.right_form hin).seed hcan)) rfl
  | seed q =>
    simp only [BucketCache.step, Option.bind_eq_bind, Option.bind_eq_some_iff, Option.pure_def,
      some.injEq] at hstep
    obtain ⟨query, hq, state, hstate, rfl⟩ := hstep
    exact h.elsewhere (h.held.mapEntry fun e he hright => hright.seed (hmeets query state e hq hstate he)) rfl
  | expand q newSlots valueFn =>
    simp only [BucketCache.step, Option.bind_eq_bind, Option.bind_eq_some_iff,
      ite_none_right_eq_some, some.injEq, all_eq_true, decide_eq_true_eq] at hstep
    obtain ⟨query, hq, e, he, hin, rfl⟩ := hstep
    have hright := (h.held.entry e (entry_of_lookup he)).expand (h.held.queries q query hq) valueFn hin
      (hmeets query e hq he)
    exact h.elsewhere (h.held.setEntry hright) rfl
  | addSlots adds =>
    obtain rfl := some.inj hstep
    obtain ⟨hin, hfits⟩ := hmeets
    refine h.elsewhere (h.held.mapEntry fun e he hright => ?_) rfl
    refine ⟨hright.listed.addSlotsBulk fun r hr => hfits e r he hr, hright.fresh.le, fun slot hslot c hc => ?_⟩
    rcases mem_addSlotsBulk.mp hslot with hold | hnew
    · exact hright.fresh.lt slot hold c hc
    · obtain ⟨a, ha, rfl⟩ := mem_map.mp hnew
      exact absurd (hin a ha) (h.tracked.gone a.1 c hc)
  | removeSlots removes =>
    obtain rfl := some.inj hstep
    refine h.elsewhere (h.held.mapEntry fun e he hright => ?_) rfl
    exact ⟨hright.listed.removeSlotsBulk removes,
      hright.fresh.mono (fun slot hslot => (mem_removeSlotsBulk.mp hslot).1) le_rfl⟩
  | flag =>
    obtain rfl := some.inj hstep
    exact h.elsewhere (h.held.mapEntry fun e he hright => hright.markForRebuild) rfl
  | evict =>
    obtain rfl := some.inj hstep
    exact h.elsewhere (h.held.next (.of_eq rfl rfl) (fun e he => absurd he.symm (some_ne_none e))
      (fun _ => .inl) (fun _ => .inl) (fun _ _ => .inl) fun _ => .inl) rfl
  | persistShard =>
    obtain ⟨e, he, rfl⟩ := map_eq_some_iff.mp hstep
    have hright := h.held.entry e he
    refine h.elsewhere (h.held.next (.of_eq rfl rfl) (fun _ => .inl) (fun f hf => .inr ?_) (fun _ => .inl)
      (fun _ _ => .inl) fun _ => .inl) rfl
    obtain rfl := some.inj hf
    exact ⟨hright.listed.keys, hright.fresh⟩
  | readShard =>
    obtain ⟨f, hf, rfl⟩ := map_eq_some_iff.mp hstep
    refine h.elsewhere (h.held.next (.of_eq rfl rfl) (fun _ => .inl) (fun _ => .inl) (fun f' hf' => .inr ?_)
      (fun _ _ => .inl) fun _ => .inl) rfl
    obtain rfl := some.inj hf'
    exact h.held.shard f hf
  | insertRestored info =>
    obtain ⟨f, hf, rfl⟩ := map_eq_some_iff.mp hstep
    have hcan : CanSeed ⟨f.restored info, 0, f.asOf⟩ s.resolve :=
      canSeed_resolve ((hmeets f hf).trans (le_max_right _ _))
    refine h.elsewhere (h.held.next (.of_eq rfl rfl) (fun e he => .inr ?_) (fun _ => .inl)
      (fun f hf => absurd hf.symm (some_ne_none f)) (fun _ _ => .inl) fun _ => .inl) rfl
    obtain rfl := some.inj he
    exact ((h.held.loading f hf).right_restored info).seed hcan

end Steps

/-! ## Every run -/

/-- What a process starts with: the bucket, its diffs and an earlier process's shard. The key is filtered on the
bucket, the diffs account for the slots expired before, and the shard's slots are fresh at its cutoff. -/
structure Boot where
  name : String
  keyNames : List String
  bucket : RangeBucket
  pending : PendingBucketDiffs
  shard : Option StoredEntry
  expired : UInt32 → Option Nat

namespace Boot

variable (b : Boot)

def state : BucketCache where
  name := b.name
  keyNames := b.keyNames
  bucket := b.bucket
  pending := b.pending
  inFlight := none
  entry := none
  shard := b.shard
  loading := none
  queries _ := none
  expired := b.expired
  served := []

/-- A boot the result is about. -/
structure Sound : Prop where
  filtered : b.name ∈ b.keyNames
  tracked : b.state.Tracked
  shard : ∀ f, b.shard = some f → b.state.Filed f

variable {b}

theorem Sound.inv (h : b.Sound) : b.state.Inv := by
  refine ⟨h.filtered, h.tracked, fun e he => absurd he.symm (some_ne_none e), h.shard,
    fun f hf => absurd hf.symm (some_ne_none f), fun q query hq => absurd hq.symm (some_ne_none _),
    fun page hpage => absurd hpage not_mem_nil⟩

end Boot

/-- **Expired slots on pages.** In every interleaving of refreshes, formation and seeding of entries, restores and
reads whose events meet the condition, no page served has a slot that a refresh up to the bucket's cutoff expired
before the read and that has not entered the bucket again. -/
theorem served_pages_unexpired {b : Boot} (hb : b.Sound) {events : List BucketCacheEvent} {s : BucketCache}
    (hrun : Reaches (fun s ev s' => s.step ev = some s') Meets b.state events s) :
    ∀ page ∈ s.served, ¬page.HasExpired := by
  have hinv : s.Inv := hrun.invariant (fun _ s => s.Inv) hb.inv fun _ _ _ _ h hmeets hstep => h.step hmeets hstep
  exact hinv.held.served

end BucketCache

/-! ### Two slots in a bucket of ten seconds -/

section Samples

open BucketCache

/-- Slot 1 is of second 5, slot 3 of second 9. -/
def agingExecutor : QueryExecutor where
  slots := ⟨4, .new {1, 3}, []⟩
  filters := ⟨∅⟩
  sorts := ⟨(∅ : HashMap String SortField).insert "at" ⟨[.new {1, 3}, .new ∅, .new {1}, .new {3}]⟩⟩
  maxPageSize := 100
  tables := .empty

def agingTs (slot : UInt32) : Nat := if slot = 1 then 5 else 9

/-- Both slots are in the bucket at cutoff 5, and slot 2 has just left it. -/
def agingBoot (shard : Option StoredEntry) : Boot where
  name := "10s"
  keyNames := ["10s"]
  bucket := ⟨⟨10, {1, 3}⟩, 1, 0, 5⟩
  pending := .fromDiffs [⟨4, 5, {2}⟩]
  shard := shard
  expired _ := none

def agingPage : PageRequest := ⟨agingExecutor, ⟨"at", .desc⟩, 10, none, false⟩

def agingForm : FormInfo := ⟨[3, 1], 4, 8, false, 2, 0, .desc, [], agingTs⟩

/-- The refresh at second 16 expires slot 1. -/
def agingRefresh : BucketCacheEvent := .refresh agingTs 16

/-- A query that finds an entry. -/
def agingRead (q : Nat) : List BucketCacheEvent := [.start q, .loadDiffs q, .hit q agingPage]

def agingRun (b : Boot) (events : List BucketCacheEvent) : Option BucketCache := events.foldlM step b.state

/-- The pages of a run, and for each what refresh had expired slot 1 before it and had still when it was
served. -/
def agingServed (b : Boot) (events : List BucketCacheEvent) :
    Option (List (List UInt32 × Option Nat × Option Nat × Nat)) :=
  (agingRun b events).map fun s => s.served.map fun p => (p.ids, p.before 1, p.expired 1, p.cutoff)

theorem hasExpired_of_agingServed {b : Boot} {events : List BucketCacheEvent}
    (h : agingServed b events = some [([3, 1], some 6, some 6, 6)]) :
    ∃ s, agingRun b events = some s ∧ ∃ page ∈ s.served, page.HasExpired := by
  obtain ⟨s, hs, hpages⟩ := map_eq_some_iff.mp h
  obtain ⟨page, hpage, hread⟩ := mem_map.mp (hpages ▸ mem_singleton_self _)
  simp only [Prod.mk.injEq] at hread
  obtain ⟨hids, hbefore, hexpired, hcutoff⟩ := hread
  refine ⟨s, hs, page, hpage, 1, ?_, 6, hcutoff.ge, hbefore, hexpired⟩
  rw [hids]
  decide

/-- The bucket is refreshed between a query's load of it and the entry formed, which gets the new cutoff. A shard from
before the refresh gets the new cutoff. A query reads before the refresh has stored its diff. The next read of each
shows slot 1. -/
theorem served_pages_show_expired :
    (∃ s, agingRun (agingBoot none) ([.start 0, agingRefresh, .pushDiff, .form 0 agingForm, .loadDiffs 0,
        .seed 0] ++ agingRead 1) = some s ∧ ∃ page ∈ s.served, page.HasExpired) ∧
    (∃ s, agingRun (agingBoot (some ⟨{1, 3}, none, 5⟩)) ([agingRefresh, .pushDiff, .readShard,
        .insertRestored ⟨0, 4, 8, .desc, agingTs, false, 2, [], true⟩] ++ agingRead 1) = some s ∧
      ∃ page ∈ s.served, page.HasExpired) ∧
    (∃ s, agingRun (agingBoot none) ([.start 0, .form 0 agingForm, .loadDiffs 0, .seed 0, agingRefresh] ++
        agingRead 1) = some s ∧ ∃ page ∈ s.served, page.HasExpired) :=
  ⟨hasExpired_of_agingServed (by decide +kernel), hasExpired_of_agingServed (by decide +kernel),
    hasExpired_of_agingServed (by decide +kernel)⟩

theorem agingBoot_sound : (agingBoot none).Sound := by
  have hdiff : ∀ d ∈ (agingBoot none).pending.diffs, d = ⟨4, 5, {2}⟩ := fun d hd => mem_singleton.mp hd
  refine ⟨mem_singleton_self _, ?_, fun f hf => absurd hf.symm (some_ne_none f)⟩
  refine ⟨fun _ _ hc => ?_, fun _ _ hc => ?_, fun _ _ hc => ?_, ⟨fun d hd => ?_, pairwise_singleton _ _⟩,
    fun d hd => ?_, le_rfl, fun d hd => absurd hd.symm (some_ne_none d), fun _ _ hc => ?_⟩
  · cases hc
  · cases hc
  · cases hc
  · rw [hdiff d hd]
    decide
  · rw [hdiff d hd]
    exact le_rfl
  · cases hc

instance canApplyDecidable (e : BucketEntry) (state : BucketDiffState) : Decidable (CanApply e state) := by
  unfold CanApply
  split <;> infer_instance

instance canSeedDecidable (e : BucketEntry) (state : BucketDiffState) : Decidable (CanSeed e state) := by
  unfold CanSeed
  split <;> infer_instance

instance decidableForallRead {α β : Type} (a : Option α) (b : α → Option β) (P : α → β → Prop)
    [∀ x y, Decidable (P x y)] : Decidable (∀ x y, a = some x → b x = some y → P x y) :=
  decidable_of_iff (∀ x ∈ a, ∀ y ∈ b x, P x y) ⟨fun h x y hx => h x hx y, fun h x hx y => h x y hx⟩

instance decidableForallState (query? : Option BucketQuery) (found : Option BucketEntry)
    (P : BucketEntry → BucketDiffState → Prop) [∀ e state, Decidable (P e state)] :
    Decidable (∀ query state e, query? = some query → query.diffState = some state → found = some e → P e state) :=
  decidable_of_iff (∀ query ∈ query?, ∀ state ∈ query.diffState, ∀ e ∈ found, P e state)
    ⟨fun h query state e hq hs => h query hq state hs e, fun h query hq state hs e => h query state e hq hs⟩

instance decidableAddsFit (r : RadixSortIndex) (adds : List (UInt32 × Nat)) : Decidable (r.Fits adds) := by
  unfold RadixSortIndex.Fits
  infer_instance

instance decidableMeets (s : BucketCache) (ev : BucketCacheEvent) : Decidable (s.Meets ev) := by
  unfold Meets
  split <;> infer_instance

/-- The entry is formed and gets its cutoff before the refresh. -/
def agingFormed : List BucketCacheEvent := [.start 0, .form 0 agingForm]

def agingSeeded : List BucketCacheEvent := agingFormed ++ [.loadDiffs 0] ++ [.seed 0]

def agingRefreshed : List BucketCacheEvent := agingSeeded ++ [agingRefresh] ++ [.pushDiff, .start 1]

/-- A read after the refresh takes slot 1 out of the entry and shows slot 3. -/
theorem served_pages_unexpired_aged :
    ∃ s, agingServed (agingBoot none) (agingRefreshed ++ [.loadDiffs 1] ++ [.hit 1 agingPage]) =
        some [([3], some 6, some 6, 6)] ∧
      agingRun (agingBoot none) (agingRefreshed ++ [.loadDiffs 1] ++ [.hit 1 agingPage]) = some s ∧
      ∀ page ∈ s.served, ¬page.HasExpired := by
  have hread : Computed step Meets (agingBoot none).state
      (agingRefreshed ++ [.loadDiffs 1] ++ [.hit 1 agingPage]) :=
    .of_along (by decide +kernel)
  have hserved : agingServed (agingBoot none) (agingRefreshed ++ [.loadDiffs 1] ++ [.hit 1 agingPage]) =
      some [([3], some 6, some 6, 6)] := by decide +kernel
  obtain ⟨s, hs, -⟩ := map_eq_some_iff.mp hserved
  exact ⟨s, hserved, hs, served_pages_unexpired agingBoot_sound (hread s hs)⟩

end Samples

end Bitdex
