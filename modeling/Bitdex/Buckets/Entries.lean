import Bitdex.Buckets.Shown
import Bitdex.Buckets.Diffs

/-!
# `Buckets.Entries` — cache entries that are filtered on a time bucket

An entry filtered on a bucket is not told when slots expire. It has the cutoff up to which it is known to be right,
and a read that finds a newer one first takes the slots of the retained diffs out (`execute_query` in
`concurrent_engine.rs`). An entry formed from the bucket a query loaded, or restored from a shard, is given the newest
cutoff.

A query loads the bucket, then the diffs, then looks the entry up; a refresh stores the bucket, then the diff. Each is
a step here.
-/

namespace Bitdex

/-! ## Entries and their cutoffs -/

/-- An entry with its cutoff. Beside it stands the cutoff of the bucket that its slots were taken from. -/
structure BucketEntry where
  entry : UnifiedEntry
  bucketCutoff : Nat
  asOf : Nat

namespace BucketEntry

variable (e : BucketEntry)

/-- Flag the entry. -/
def markForRebuild : BucketEntry := { e with entry := e.entry.markForRebuild }

/-- The read path. An entry that is older than the retained diffs is marked, and served all the same. -/
def applyDiffState (state : BucketDiffState) (ownBucketLive : Bitmap) : BucketEntry :=
  match state with
  | .apply candidates newCutoff oldestCutoff =>
    if e.bucketCutoff < newCutoff then
      if e.bucketCutoff ≥ oldestCutoff then
        { e with
          entry := e.entry.applyBucketDiff candidates ownBucketLive
          bucketCutoff := newCutoff }
      else e.markForRebuild
    else e
  | .rebuild => e.markForRebuild
  | .noop => e

/-- `seed_bucket_cutoff`: the cutoff of an entry never goes back. -/
def seed (state : BucketDiffState) : BucketEntry :=
  match state with
  | .apply _ newCutoff _ => { e with bucketCutoff := max e.bucketCutoff newCutoff }
  | .rebuild => e.markForRebuild
  | .noop => e

end BucketEntry

/-! ## Queries and pages -/

/-- A query in flight: the bucket and, once loaded, the diffs. Beside it: which slots had expired at its start. -/
structure BucketQuery where
  bucket : RangeBucket
  diffState : Option BucketDiffState
  before : UInt32 → Option Nat

/-- How a page is asked for. After an expansion some paths read the bitmap although there is a radix index. -/
structure PageRequest where
  executor : QueryExecutor
  sort : SortClause
  limit : Nat
  cursor : Option CursorPosition
  fromBitmap : Bool

/-- The slots of a page; a request that fails has none. -/
def PageRequest.ids (r : PageRequest) (e : UnifiedEntry) : List UInt32 :=
  let page :=
    if r.fromBitmap then
      r.executor.executeFromBitmap e.bitmap (some r.sort) r.limit r.cursor (decide (e.bitmap.card < 10000))
    else r.executor.serveEntry e r.sort r.limit r.cursor
  match page with
  | .ok page => page.ids
  | .error _ => []

/-- A page served, with what had expired when its query started and when it was served, and the bucket's cutoff then.
-/
structure ServedPage where
  ids : List UInt32
  before : UInt32 → Option Nat
  expired : UInt32 → Option Nat
  cutoff : Nat

/-- The page has a slot that a refresh up to the bucket's cutoff expired before the read, and still has. -/
def ServedPage.HasExpired (p : ServedPage) : Prop :=
  ∃ slot ∈ p.ids, ∃ cutoff ≤ p.cutoff, p.before slot = some cutoff ∧ p.expired slot = some cutoff

/-! ## The system -/

/-- What a shard file has of an entry. -/
structure StoredEntry where
  bitmap : Bitmap
  sortedKeys : Option (List Nat)
  asOf : Nat

/-- What a restore takes from elsewhere. Entries whose buckets no longer resolve are marked. -/
structure RestoreInfo where
  metaId : CacheEntryId
  initialCapacity : Nat
  maxCapacity : Nat
  direction : SortDirection
  valueFn : UInt32 → Nat
  hasMore : Bool
  totalMatched : Nat
  clauses : List FilterClause
  resolved : Bool

/-- The entry a shard is restored to. -/
def StoredEntry.restored (f : StoredEntry) (r : RestoreInfo) : UnifiedEntry :=
  if r.resolved then
    .fromRestoredWithClauses f.bitmap r.metaId r.initialCapacity r.maxCapacity r.direction f.sortedKeys
      r.valueFn r.hasMore r.totalMatched r.clauses
  else
    (UnifiedEntry.fromRestoredWithClauses f.bitmap r.metaId r.initialCapacity r.maxCapacity r.direction
      f.sortedKeys r.valueFn r.hasMore r.totalMatched []).markForRebuild

/-- What a query that misses forms an entry from. -/
structure FormInfo where
  sortedSlots : List UInt32
  capacity : Nat
  maxCapacity : Nat
  hasMore : Bool
  totalMatched : Nat
  metaId : CacheEntryId
  direction : SortDirection
  clauses : List FilterClause
  valueFn : UInt32 → Nat

/-- The entry a query forms. -/
def FormInfo.entry (f : FormInfo) : UnifiedEntry :=
  .newWithClauses f.sortedSlots f.capacity f.maxCapacity f.hasMore f.totalMatched f.metaId f.direction
    f.clauses f.valueFn

/-- One bucket and its diffs, the diff of a refresh that has stored the bucket only, and the entry of one key with the
names of its buckets. Beside these stand the cutoff at which each slot expired, until it is in the bucket again, and
the pages served. -/
structure BucketCache where
  name : String
  keyNames : List String
  bucket : RangeBucket
  pending : PendingBucketDiffs
  inFlight : Option BucketDiff
  entry : Option BucketEntry
  shard : Option StoredEntry
  loading : Option StoredEntry
  queries : Nat → Option BucketQuery
  expired : UInt32 → Option Nat
  served : List ServedPage

/-- What can happen to the bucket and the entry. -/
inductive BucketCacheEvent where
  /-- A refresh stores the bucket. -/
  | refresh (ts : UInt32 → Nat) (now : Nat)
  /-- It stores its diff. -/
  | pushDiff
  /-- Live maintenance and reconciliation. -/
  | maintainBucket (inserted removed : Bitmap)
  | rebuildBucket (timestamps : List (UInt32 × Nat)) (now : Nat)
  | setRefreshInterval (secs : Nat)
  /-- A query loads the bucket. -/
  | start (q : Nat)
  /-- It loads the diffs, before a lookup, before it stores an entry or before it gives one its cutoff. -/
  | loadDiffs (q : Nat)
  | hit (q : Nat) (request : PageRequest)
  /-- A page from the entry without a look at the diffs: after storing, seeding or expanding it. -/
  | reread (q : Nat) (request : PageRequest)
  | form (q : Nat) (info : FormInfo)
  /-- The traced path stores the entry with its cutoff. -/
  | formTraced (q : Nat) (info : FormInfo)
  | seed (q : Nat)
  | expand (q : Nat) (newSlots : List UInt32) (valueFn : UInt32 → Nat)
  | addSlots (adds : List (UInt32 × Nat))
  | removeSlots (removes : List (UInt32 × Nat))
  | flag
  | evict
  | persistShard
  | readShard
  | insertRestored (info : RestoreInfo)

namespace BucketCache

variable (s : BucketCache)

/-- `resolve_bucket_diff_state` for the key. -/
def resolve : BucketDiffState :=
  resolveBucketDiffStateFor (fun name => if name = s.name then some s.pending else none) s.keyNames

/-- A lookup: an entry that is marked is a miss. -/
def lookup : Option BucketEntry := s.entry.filter fun e => !e.entry.needsRebuild

/-- Slots that are in the bucket again are not expired. -/
def reenter (slots : Bitmap) (slot : UInt32) : Option Nat := if slot ∈ slots then none else s.expired slot

/-- The slots of a diff are expired by its refresh. -/
def expire (diff : BucketDiff) (slot : UInt32) : Option Nat :=
  if slot ∈ diff.expired then some diff.cutoffAfter else s.expired slot

def refresh (ts : UInt32 → Nat) (now : Nat) : BucketCache :=
  match s.bucket.refreshDiff ts now with
  | none => { s with bucket := s.bucket.refresh ts now }
  | some diff =>
    { s with bucket := s.bucket.refresh ts now, inFlight := some diff, expired := s.expire diff }

def setQuery (q : Nat) (query : BucketQuery) : BucketCache :=
  { s with queries := Function.update s.queries q (some query) }

/-- Serve a page of an entry. -/
def serve (query : BucketQuery) (request : PageRequest) (e : BucketEntry) : BucketCache :=
  { s with
    entry := some e
    served := s.served ++ [⟨request.ids e.entry, query.before, s.expired, s.bucket.lastCutoff⟩] }

/-- One event; `none` if it cannot happen. The slots that a query forms or expands an entry with are in the bucket it
loaded. -/
def step : BucketCacheEvent → Option BucketCache
  | .refresh ts now =>
    if s.inFlight.isNone && s.bucket.needsRefresh now then some (s.refresh ts now) else none
  | .pushDiff => s.inFlight.map fun diff =>
    { s with pending := (PendingBucketDiffs.fromDiffs s.pending.diffs).push diff, inFlight := none }
  | .maintainBucket inserted removed =>
    some { s with
      bucket := { s.bucket with bitmap := (s.bucket.bitmap \ removed) ∪ inserted }
      expired := s.reenter inserted }
  | .rebuildBucket timestamps now =>
    some { s with
      bucket := s.bucket.rebuild timestamps now
      expired := s.reenter (s.bucket.rebuild timestamps now).bitmap }
  | .setRefreshInterval secs => some { s with bucket := { s.bucket with refreshIntervalSecs := secs } }
  | .start q => some (s.setQuery q ⟨s.bucket, none, s.expired⟩)
  | .loadDiffs q => (s.queries q).map fun query => s.setQuery q { query with diffState := some s.resolve }
  | .hit q request => do
      let query ← s.queries q
      let state ← query.diffState
      let e ← s.lookup
      return s.serve query request (e.applyDiffState state query.bucket.bitmap)
  | .reread q request => do
      let query ← s.queries q
      let e ← s.lookup
      return s.serve query request e
  | .form q info => do
      let query ← s.queries q
      if info.sortedSlots.all (· ∈ query.bucket.bitmap) then
        some { s with entry := some ⟨info.entry, 0, query.bucket.lastCutoff⟩ }
      else none
  | .formTraced q info => do
      let query ← s.queries q
      let state ← query.diffState
      if info.sortedSlots.all (· ∈ query.bucket.bitmap) then
        some { s with entry := some (BucketEntry.seed ⟨info.entry, 0, query.bucket.lastCutoff⟩ state) }
      else none
  | .seed q => do
      let query ← s.queries q
      let state ← query.diffState
      return { s with entry := s.entry.map fun e => e.seed state }
  | .expand q newSlots valueFn => do
      let query ← s.queries q
      let e ← s.lookup
      if newSlots.all (· ∈ query.bucket.bitmap) then
        some { s with
          entry := some ⟨e.entry.expand newSlots valueFn, e.bucketCutoff, min e.asOf query.bucket.lastCutoff⟩ }
      else none
  | .addSlots adds =>
    some { s with entry := s.entry.map fun e => { e with entry := e.entry.addSlotsBulk adds } }
  | .removeSlots removes =>
    some { s with entry := s.entry.map fun e => { e with entry := e.entry.removeSlotsBulk removes } }
  | .flag => some { s with entry := s.entry.map BucketEntry.markForRebuild }
  | .evict => some { s with entry := none }
  | .persistShard => s.entry.map fun e =>
    { s with shard := some ⟨e.entry.bitmap, e.entry.sortedKeys, max e.bucketCutoff e.asOf⟩ }
  | .readShard => s.shard.map fun f => { s with loading := some f }
  | .insertRestored info => s.loading.map fun f =>
    { s with
      entry := some (BucketEntry.seed ⟨f.restored info, 0, f.asOf⟩ s.resolve)
      loading := none }

end BucketCache

end Bitdex
