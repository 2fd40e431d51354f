import Bitdex.Cache.Serve
import Bitdex.Cache.Store
import Bitdex.Buckets.Diffs

/-!
# `Engine.Query` — a query through the cache

`execute_query` (`concurrent_engine.rs`) looks a sorted query up in the cache before it computes any filter. A hit is
served from the entry, and a page that reaches its end expands it from the page's cursor; a cursor past the entry
takes the slow path, which expands from the client's cursor; a miss seeds a new entry and serves the page from that. A
background worker expands entries ahead of the cursor. An entry filtered on time buckets is first brought up to date
with the expiry diffs, or flagged.

The index is one snapshot (`post_validate` changes nothing); metrics, traces and the canary are left out. What a call
cannot compute from its arguments is in `Choices`. The cutoff of an entry is an argument of the call that reads it
(`Buckets.Entries` follows cutoffs), and an entry past its time to live counts as flagged.
-/

namespace Bitdex

/-- A query as the engine gets it. -/
structure BitdexQuery where
  filters : List FilterClause
  sort : Option SortClause
  limit : Nat
  cursor : Option CursorPosition
  offset : Option Nat
  skipCache : Bool

namespace BitdexQuery

/-- The offset counts only without a cursor. -/
def pageOffset (query : BitdexQuery) : Nat := if query.cursor.isNone then query.offset.getD 0 else 0

/-- The page is fetched from the start and cut at the offset afterwards. -/
def fetchLimit (query : BitdexQuery) : Nat := query.limit + query.pageOffset

end BitdexQuery

/-- What the environment decides in one call: the keys evicted, and whether this caller wins the rebuild of a flagged
entry. -/
structure Choices where
  evicted : List UnifiedKey
  startRebuild : Bool

/-! ## Expiry diffs -/

/-- `own_bucket_live_bitmap`: the union of the live buckets, if there is a manager that knows them all. -/
def Tables.ownBucketLive (t : Tables) (names : List String) : Option Bitmap :=
  t.timeBuckets.bind fun tb =>
    if names = [] then none
    else (names.mapM tb.getBucket).map fun buckets => buckets.foldl (fun union b => union ∪ b.bitmap) ∅

/-- The diffs of the configured buckets before the first of them is refreshed. -/
def Tables.freshDiffs (t : Tables) (name : String) : Option PendingBucketDiffs :=
  (t.timeBuckets.bind (·.getBucket name)).map fun _ => .new

/-- What the expiry diffs ask of the entry under a key. -/
def UnifiedKey.diffState (key : UnifiedKey) (diffs : String → Option PendingBucketDiffs) : BucketDiffState :=
  resolveBucketDiffStateFor diffs key.bucketNames

/-- The entry cannot be brought up to date. -/
def BucketDiffState.isRebuild : BucketDiffState → Bool
  | .rebuild => true
  | _ => false

/-- Before a refresh there is nothing to take out of an entry. -/
theorem diffState_freshDiffs (t : Tables) (key : UnifiedKey) :
    key.diffState t.freshDiffs = .noop ∨ key.diffState t.freshDiffs = .rebuild := by
  unfold UnifiedKey.diffState
  match key.bucketNames with
  | [] => exact .inl rfl
  | [name] =>
    simp only [resolveBucketDiffStateFor, Tables.freshDiffs]
    cases t.timeBuckets.bind (·.getBucket name) with
    | none => exact .inr rfl
    | some b => exact .inl rfl
  | _ :: _ :: _ => exact .inr rfl

namespace UnifiedEntry

variable (e : UnifiedEntry) (state : BucketDiffState) (bucketCutoff : Nat) (ownBucketLive : Option Bitmap)

/-- The entry as it is read: brought up to date from its cutoff, or flagged and served as it is. -/
def readAt : UnifiedEntry :=
  match state with
  | .apply candidates newCutoff oldestCutoff =>
    if bucketCutoff < newCutoff then
      if bucketCutoff ≥ oldestCutoff then
        ownBucketLive.elim e.markForRebuild fun ownLive => e.applyBucketDiff candidates ownLive
      else e.markForRebuild
    else e
  | .rebuild => e.markForRebuild
  | .noop => e

/-- Reading an entry changes its slots or its flag. -/
theorem readAt_cases : e.readAt state bucketCutoff ownBucketLive = e ∨
    e.readAt state bucketCutoff ownBucketLive = e.markForRebuild ∨
    ∃ candidates ownLive, e.readAt state bucketCutoff ownBucketLive = e.applyBucketDiff candidates ownLive := by
  cases state with
  | noop => exact .inl rfl
  | rebuild => exact .inr (.inl rfl)
  | apply candidates newCutoff oldestCutoff =>
    rw [readAt]
    split
    · split
      · cases ownBucketLive with
        | none => exact .inr (.inl rfl)
        | some ownLive => exact .inr (.inr ⟨candidates, ownLive, rfl⟩)
      · exact .inr (.inl rfl)
    · exact .inl rfl

theorem metaId_readAt : (e.readAt state bucketCutoff ownBucketLive).metaId = e.metaId := by
  obtain h | h | ⟨candidates, ownLive, h⟩ := e.readAt_cases state bucketCutoff ownBucketLive
  · rw [h]
  · rw [h]
    rfl
  · rw [h, applyBucketDiff]
    split <;> rfl

theorem originalFilterClauses_readAt :
    (e.readAt state bucketCutoff ownBucketLive).originalFilterClauses = e.originalFilterClauses := by
  obtain h | h | ⟨candidates, ownLive, h⟩ := e.readAt_cases state bucketCutoff ownBucketLive
  · rw [h]
  · rw [h]
    rfl
  · rw [h, applyBucketDiff]
    split <;> rfl

end UnifiedEntry

/-! ## The cache as a query sees it -/

namespace UnifiedCache

/-- An entry that is flagged for a rebuild is a miss. -/
def lookup (c : UnifiedCache) (key : UnifiedKey) : Option UnifiedEntry :=
  (c.entries.lookup key).filter fun e => !e.needsRebuild

/-- `should_rebuild_single_flight`: of several callers that miss a flagged entry one rebuilds it. -/
def shouldRebuildSingleFlight (c : UnifiedCache) (key : UnifiedKey) (startRebuild : Bool) : Bool :=
  match c.entries.lookup key with
  | some e => !e.needsRebuild || startRebuild
  | none => true

/-- Expand the entry under a key where it is. -/
def expandEntry (c : UnifiedCache) (key : UnifiedKey) (newSlots : List UInt32)
    (valueFn : UInt32 → Nat) : UnifiedCache :=
  c.modify key (fun e => e.expand newSlots valueFn) (fun _ => rfl) fun _ => rfl

/-- `lookup`, then expand what was found. -/
def expandFound (c : UnifiedCache) (key : UnifiedKey) (newSlots : List UInt32)
    (valueFn : UInt32 → Nat) : UnifiedCache :=
  (c.lookup key).elim c fun _ => c.expandEntry key newSlots valueFn

/-- What reading an entry leaves of it in the cache. -/
def readEntry (c : UnifiedCache) (key : UnifiedKey) (state : BucketDiffState) (bucketCutoff : Nat)
    (ownBucketLive : Option Bitmap) : UnifiedCache :=
  match state with
  | .noop => c
  | state => c.modify key (·.readAt state bucketCutoff ownBucketLive)
      (fun e => e.metaId_readAt state bucketCutoff ownBucketLive)
      fun e => e.originalFilterClauses_readAt state bucketCutoff ownBucketLive

/-- `seed_bucket_cutoff`, as far as it is seen: an entry that cannot be kept up to date is flagged at once. -/
def seedBucketCutoff (c : UnifiedCache) (key : UnifiedKey) (state : BucketDiffState) : UnifiedCache :=
  if state.isRebuild then c.modify key (·.markForRebuild) (fun _ => rfl) fun _ => rfl else c

variable {c : UnifiedCache} {key key' : UnifiedKey} {newSlots : List UInt32} {valueFn : UInt32 → Nat}
  {state : BucketDiffState} {bucketCutoff : Nat} {ownBucketLive : Option Bitmap}

@[simp] theorem config_readEntry : (c.readEntry key state bucketCutoff ownBucketLive).config = c.config := by
  unfold readEntry
  split
  · rfl
  · exact config_modify

@[simp] theorem config_seedBucketCutoff : (c.seedBucketCutoff key state).config = c.config := by
  unfold seedBucketCutoff
  split
  · exact config_modify
  · rfl

theorem entries_readEntry : (c.readEntry key state bucketCutoff ownBucketLive).entries.lookup key' =
    if key' = key then (c.entries.lookup key).map (·.readAt state bucketCutoff ownBucketLive)
    else c.entries.lookup key' := by
  unfold readEntry
  split
  · have hsame : ∀ o : Option UnifiedEntry, o.map (·.readAt .noop bucketCutoff ownBucketLive) = o := fun o => by
      cases o <;> rfl
    split
    · next hkey => rw [hkey, hsame]
    · rfl
  · exact lookup_modify

theorem entries_seedBucketCutoff : (c.seedBucketCutoff key state).entries.lookup key' =
    if key' = key ∧ state.isRebuild = true then (c.entries.lookup key).map (·.markForRebuild)
    else c.entries.lookup key' := by
  unfold seedBucketCutoff
  cases state.isRebuild with
  | false => simp
  | true => simpa using lookup_modify

theorem lookup_eq_some_iff {e : UnifiedEntry} :
    c.lookup key = some e ↔ c.entries.lookup key = some e ∧ e.needsRebuild = false := by
  simp [lookup, Option.filter_eq_some_iff]

/-- An entry that was read is found again unless reading flagged it. -/
theorem lookup_readEntry {found : UnifiedEntry} (h : c.lookup key = some found) :
    (c.readEntry key state bucketCutoff ownBucketLive).lookup key =
      if (found.readAt state bucketCutoff ownBucketLive).needsRebuild then none
      else some (found.readAt state bucketCutoff ownBucketLive) := by
  rw [lookup, entries_readEntry, if_pos rfl, (lookup_eq_some_iff.mp h).1, Option.map_some, Option.filter_some]
  cases (found.readAt state bucketCutoff ownBucketLive).needsRebuild <;> rfl

/-- A seed is found unless it was flagged at once. -/
theorem lookup_seeded {slots : List UInt32} {hasMore : Bool} {total : Nat} {original : List FilterClause}
    {evicted : List UnifiedKey} :
    ((c.formAndStoreWithClauses key slots hasMore total original valueFn evicted).seedBucketCutoff key state).lookup key =
      if state.isRebuild then none else some (c.formEntry key slots hasMore total original valueFn) := by
  rw [lookup, entries_seedBucketCutoff, lookup_formAndStore, if_pos rfl]
  cases state.isRebuild with
  | true =>
    rw [if_pos ⟨rfl, rfl⟩, if_pos rfl]
    rfl
  | false =>
    rw [if_neg fun h => Bool.false_ne_true h.2, if_neg Bool.false_ne_true]
    rfl

/-- Seeding a cutoff changes nothing of an entry but its flag. -/
theorem lookup_seedBucketCutoff_some {e : UnifiedEntry} (h : (c.seedBucketCutoff key state).entries.lookup key' = some e) :
    ∃ e₀, c.entries.lookup key' = some e₀ ∧ (e = e₀ ∨ e = e₀.markForRebuild) := by
  rw [entries_seedBucketCutoff] at h
  split at h
  · next hkey =>
    obtain ⟨e₀, he₀, rfl⟩ := Option.map_eq_some_iff.mp h
    exact ⟨e₀, hkey.1 ▸ he₀, .inr rfl⟩
  · exact ⟨e, h, .inl rfl⟩

@[simp] theorem config_expandEntry : (c.expandEntry key newSlots valueFn).config = c.config := config_modify

theorem entries_expandEntry : (c.expandEntry key newSlots valueFn).entries.lookup key' =
      if key' = key then (c.entries.lookup key).map (·.expand newSlots valueFn)
      else c.entries.lookup key' :=
  lookup_modify

/-- What a query finds after it has expanded what it found. -/
theorem lookup_expandFound :
    (c.expandFound key newSlots valueFn).lookup key = (c.lookup key).map (·.expand newSlots valueFn) := by
  unfold expandFound
  cases h : c.lookup key with
  | none => simpa using h
  | some e =>
    rw [Option.elim_some, Option.map_some, lookup_eq_some_iff, entries_expandEntry, if_pos rfl]
    obtain ⟨hlookup, hflag⟩ := lookup_eq_some_iff.mp h
    exact ⟨by rw [hlookup, Option.map_some], hflag⟩

end UnifiedCache

/-- Whether the cursor has left the entry: by its value, or at the floor by its slot. -/
def UnifiedEntry.pastBoundary (e : UnifiedEntry) (direction : SortDirection)
    (cursor : Option CursorPosition) : Bool :=
  cursor.elim false fun c =>
    let strictlyPast := match direction with
      | .desc => decide (c.sortValue < e.minTrackedValue)
      | .asc => decide (c.sortValue > e.minTrackedValue)
    if strictlyPast then true
    else if c.sortValue = e.minTrackedValue then decide (c.slotId ∉ e.bitmap)
    else false

namespace QueryExecutor

section Paths

variable [Host] (ex : QueryExecutor)

/-- The bitmap of a clause list, snapped and planned, and whether to sort it in memory. -/
def resolveFilters (filters : List FilterClause) : Except BitdexError (Bitmap × Bool) := do
  let effective := ex.tables.snapRangeClauses filters
  let plan := planQuery effective ex.filters ex.slots (some ex.tables)
  let bitmap ← ex.computeFilters plan.orderedClauses
  return (bitmap, plan.useSimpleSort)

/-- The key of a query whose range clauses have been snapped. -/
def keyOf (filters : List FilterClause) (sort : SortClause) : UnifiedKey :=
  ⟨canonicalize filters, sort.field, sort.direction⟩

/-! ## Serving an entry -/

/-- A page of an entry without packed keys. -/
def serveExpanded (e : UnifiedEntry) (sort : SortClause) (fetchLimit : Nat)
    (cursor : Option CursorPosition) (total : Nat) : Except BitdexError QueryResult :=
  e.radix.elim
    (ex.executeFromBitmap e.bitmap (some sort) fetchLimit cursor (decide (e.bitmap.card < 10000)))
    fun radix => ex.executeFromRadix radix sort fetchLimit cursor total

/-- A page of an entry: packed keys, then the radix index, then the bitmap. -/
def serveEntry (e : UnifiedEntry) (sort : SortClause) (fetchLimit : Nat)
    (cursor : Option CursorPosition) : Except BitdexError QueryResult :=
  e.sortedKeys.elim (ex.serveExpanded e sort fetchLimit cursor e.totalMatched) fun keys =>
    .ok (ex.executeFromSortedKeys keys sort.direction fetchLimit cursor e.totalMatched)

/-- Drop the first `offset` ids of a page. -/
def applyOffset (sort : Option SortClause) (offset : Nat) (result : QueryResult) : QueryResult :=
  if offset > 0 ∧ result.ids ≠ [] then
    if offset ≥ result.ids.length then { result with ids := [], cursor := none }
    else
      let ids := result.ids.drop offset
      { result with
        ids := ids
        cursor := (sort.bind fun s => ex.sorts.getField s.field).elim result.cursor fun sf =>
          cursorAtLast sf.reconstructValue ids }
  else result

/-- Traverse the filter result from a cursor and append what is found to the entry. -/
def expandFrom (c : UnifiedCache) (key : UnifiedKey) (sort : SortClause) (filterArc : Bitmap)
    (useSimpleSort : Bool) (expandLimit : Nat) (cursor : Option CursorPosition) :
    Except BitdexError UnifiedCache := do
  let expanded ← ex.executeFromBitmapUnclamped filterArc (some sort) expandLimit cursor useSimpleSort
  return if expanded.ids = [] then c
    else c.expandFound key expanded.ids (ex.sortValue sort.field)

/-- A page that used the entry up: it came without a cursor, or short. -/
def wallHit (query : BitdexQuery) (entry : UnifiedEntry) (result : QueryResult) : Bool :=
  entry.hasMore &&
    ((result.cursor.isNone && !result.ids.isEmpty) ||
      (decide (result.ids.length < query.fetchLimit) && query.cursor.isSome))

/-- The fast path. A page that used the entry up expands it and is served again, without the offset. -/
def serveHit (c : UnifiedCache) (query : BitdexQuery) (filters : List FilterClause) (sort : SortClause)
    (entry : UnifiedEntry) : Except BitdexError (QueryResult × UnifiedCache) := do
  let key := keyOf filters sort
  let result ← ex.serveEntry entry sort query.fetchLimit query.cursor
  if wallHit query entry result then
    let (filterArc, useSimpleSort) ← ex.resolveFilters filters
    let c' ← ex.expandFrom c key sort filterArc useSimpleSort
      (c.config.maxCapacity - entry.capacity) (result.cursor.or query.cursor)
    let result' ← (c'.lookup key).elim (.ok result) fun e =>
      ex.serveExpanded e sort query.fetchLimit query.cursor filterArc.card
    return ({ result' with totalMatched := filterArc.card }, c')
  else
    return (ex.applyOffset (some sort) query.pageOffset
      { result with totalMatched := entry.totalMatched }, c)

/-! ## The slow path -/

/-- The bitmap the slow path pages through on a hit, after the expansion that a far cursor asks for. -/
def boundedBitmap (c : UnifiedCache) (query : BitdexQuery) (key : UnifiedKey) (sort : SortClause)
    (entry : UnifiedEntry) (filterArc : Bitmap) (useSimpleSort : Bool) :
    Except BitdexError (Bitmap × Bool × UnifiedCache) := do
  if entry.pastBoundary sort.direction query.cursor && entry.hasMore then
    let c' ← ex.expandFrom c key sort filterArc useSimpleSort
      (c.config.maxCapacity - entry.capacity) query.cursor
    return (c'.lookup key).elim (filterArc, useSimpleSort, c') fun e =>
      (e.bitmap, decide (e.bitmap.card < 10000), c')
  else
    return (entry.bitmap, decide (entry.bitmap.card < 10000), c)

/-- A short page of a bounded bitmap expands once more, from the page's cursor and with the capacity read at the
start; without more slots the filter result serves it. -/
def serveBounded (c : UnifiedCache) (query : BitdexQuery) (key : UnifiedKey) (sort : SortClause)
    (entry : UnifiedEntry) (filterArc : Bitmap) (useSimpleSort : Bool) :
    Except BitdexError (QueryResult × UnifiedCache) := do
  let (effective, useSimple, c₁) ← ex.boundedBitmap c query key sort entry filterArc useSimpleSort
  let result ← ex.executeFromBitmap effective (some sort) query.fetchLimit query.cursor useSimple
  let direct := ex.executeFromBitmap filterArc (some sort) query.fetchLimit query.cursor false
  if result.ids.length < query.fetchLimit ∧ query.cursor.isSome = true ∧
      effective.card < filterArc.card then
    if entry.hasMore then
      let c₂ ← ex.expandFrom c₁ key sort filterArc useSimpleSort
        (c.config.maxCapacity - entry.capacity) (result.cursor.or query.cursor)
      let result' ← (c₂.lookup key).elim direct fun e =>
        ex.serveExpanded e sort query.fetchLimit query.cursor filterArc.card
      return (result', c₂)
    else
      let result' ← direct
      return (result', c₁)
  else
    return (result, c₁)

/-- A miss: seed an entry with the first slots of the filter result and serve the page from it. A seed flagged at once
is not found again: the page comes from the filter result. -/
def seedAndServe (diffs : String → Option PendingBucketDiffs) (c : UnifiedCache) (query : BitdexQuery)
    (filters : List FilterClause) (key : UnifiedKey) (sort : SortClause) (filterArc : Bitmap)
    (useSimpleSort : Bool) (choices : Choices) : Except BitdexError (QueryResult × UnifiedCache) := do
  let direct := ex.executeFromBitmap filterArc (some sort) query.fetchLimit query.cursor useSimpleSort
  let state := key.diffState diffs
  if !c.shouldRebuildSingleFlight key choices.startRebuild then
    let result ← direct
    return ({ result with totalMatched := filterArc.card }, c)
  else if filterArc.card = 0 then
    let c' := c.formAndStoreWithClauses key [] false 0 filters (fun _ => 0) choices.evicted
    return (⟨[], 0, none⟩, c'.seedBucketCutoff key state)
  else
    let seed ← ex.executeFromBitmapUnclamped filterArc (some sort) c.config.initialCapacity none
      useSimpleSort
    let hasMore := decide (filterArc.card > seed.ids.length)
    let c' := (c.formAndStoreWithClauses key seed.ids hasMore filterArc.card filters
      (ex.sortValue sort.field) choices.evicted).seedBucketCutoff key state
    let result ← (c'.lookup key).elim direct fun e =>
      e.sortedKeys.elim
        (ex.executeFromBitmap e.bitmap (some sort) query.fetchLimit query.cursor
          (decide (e.bitmap.card < 10000)))
        fun keys => .ok (ex.executeFromSortedKeys keys sort.direction query.fetchLimit query.cursor
          filterArc.card)
    return (ex.applyOffset (some sort) query.pageOffset
      { result with totalMatched := filterArc.card }, c')

/-- A query on the filter result itself. -/
def servePlain (c : UnifiedCache) (query : BitdexQuery) (filterArc : Bitmap) (useSimpleSort : Bool) :
    Except BitdexError (QueryResult × UnifiedCache) := do
  let result ← ex.executeFromBitmap filterArc query.sort query.fetchLimit query.cursor useSimpleSort
  return (ex.applyOffset query.sort query.pageOffset
    { result with totalMatched := filterArc.card }, c)

/-- The slow path, with the entry if the fast path found one. -/
def executeQuerySlowPath (diffs : String → Option PendingBucketDiffs) (c : UnifiedCache) (query : BitdexQuery)
    (filters : List FilterClause) (cached : Option UnifiedEntry) (choices : Choices) :
    Except BitdexError (QueryResult × UnifiedCache) := do
  let (filterArc, useSimpleSort) ← ex.resolveFilters filters
  match query.sort with
  | none => ex.servePlain c query filterArc useSimpleSort
  | some sort =>
    let key := keyOf filters sort
    if query.skipCache ∨ (cached.isNone ∧ filterArc.card < c.config.minFilterSize) then
      ex.servePlain c query filterArc useSimpleSort
    else
      match cached.or (c.lookup key) with
      | some entry => do
          let (result, c') ← ex.serveBounded c query key sort entry filterArc useSimpleSort
          return (ex.applyOffset query.sort query.pageOffset
            { result with totalMatched := filterArc.card }, c')
      | none => ex.seedAndServe diffs c query filters key sort filterArc useSimpleSort choices

/-- A query: its answer and the cache after it, by the expiry diffs and the cutoff of the entry that it finds. -/
def executeQueryAt (diffs : String → Option PendingBucketDiffs) (bucketCutoff : Nat) (c : UnifiedCache)
    (query : BitdexQuery) (choices : Choices) : Except BitdexError (QueryResult × UnifiedCache) :=
  let filters := ex.tables.snapRangeClauses query.filters
  match query.sort, query.skipCache with
  | some sort, false =>
    let key := keyOf filters sort
    let state := key.diffState diffs
    let ownBucketLive := ex.tables.ownBucketLive key.bucketNames
    match c.lookup key with
    | some found =>
      let entry := found.readAt state bucketCutoff ownBucketLive
      let c := c.readEntry key state bucketCutoff ownBucketLive
      if entry.pastBoundary sort.direction query.cursor then
        ex.executeQuerySlowPath diffs c query filters (some entry) choices
      else ex.serveHit c query filters sort entry
    | none => ex.executeQuerySlowPath diffs c query filters none choices
  | _, _ => ex.executeQuerySlowPath diffs c query filters none choices

/-- A query before the first refresh of a time bucket: no entry has a cutoff yet. -/
def executeQuery (c : UnifiedCache) (query : BitdexQuery) (choices : Choices) :
    Except BitdexError (QueryResult × UnifiedCache) :=
  ex.executeQueryAt ex.tables.freshDiffs 0 c query choices

/-! ## The prefetch worker -/

/-- The worker's expansion: from the floor's value and slot 0, by an executor without string maps, dictionaries and
time buckets. An entry without clauses has a key without clauses, so the source's canonical round trip is the empty
list again. -/
def prefetchSlots (key : UnifiedKey) (entry : UnifiedEntry) : Except BitdexError (List UInt32) := do
  let bare := { ex with tables := .empty }
  let (filterBitmap, useSimpleSort) ← bare.resolveFilters entry.originalFilterClauses
  let expanded ← bare.executeFromBitmapUnclamped filterBitmap
    (some ⟨key.sortField, key.direction⟩) (entry.maxCapacity - entry.capacity)
    (some ⟨entry.minTrackedValue, 0⟩) useSimpleSort
  return expanded.ids

/-- One request of the background worker: a failed traversal leaves the cache as it is. -/
def prefetch (c : UnifiedCache) (key : UnifiedKey) : UnifiedCache :=
  match c.entries.lookup key with
  | none => c
  | some entry =>
    if entry.hasMore = false ∨ entry.capacity ≥ entry.maxCapacity then c
    else
      match ex.prefetchSlots key entry with
      | .error _ => c
      | .ok slots =>
        if slots = [] then c else c.expandEntry key slots (ex.sortValue key.sortField)

end Paths

/-! ## What a call that succeeds has done -/

variable {ex : QueryExecutor} {c c' : UnifiedCache} {query : BitdexQuery} {filters : List FilterClause}
  {key : UnifiedKey} {sort : SortClause} {e : UnifiedEntry} {filterArc : Bitmap} {simple : Bool}
  {choices : Choices} {r : QueryResult} {diffs : String → Option PendingBucketDiffs} {bucketCutoff : Nat}

theorem serveHit_inv [Host] (h : ex.serveHit c query filters sort e = .ok (r, c')) :
    ∃ r₀, ex.serveEntry e sort query.fetchLimit query.cursor = .ok r₀ ∧ ((wallHit query e r₀ = false ∧ c' = c ∧
          r = ex.applyOffset (some sort) query.pageOffset { r₀ with totalMatched := e.totalMatched }) ∨
        (wallHit query e r₀ = true ∧ ∃ filterArc simple, ex.resolveFilters filters = .ok (filterArc, simple) ∧
          ex.expandFrom c (keyOf filters sort) sort filterArc simple
            (c.config.maxCapacity - e.capacity) (r₀.cursor.or query.cursor) = .ok c' ∧
          ∃ r₁, (c'.lookup (keyOf filters sort)).elim (.ok r₀) (fun e' =>
              ex.serveExpanded e' sort query.fetchLimit query.cursor filterArc.card) = .ok r₁ ∧
            r = { r₁ with totalMatched := filterArc.card })) := by
  unfold serveHit at h
  obtain ⟨r₀, hr₀, h⟩ := bind_eq_ok_iff.mp h
  refine ⟨r₀, hr₀, ?_⟩
  split at h
  · next hwall =>
    obtain ⟨⟨filterArc, simple⟩, hfilter, h⟩ := bind_eq_ok_iff.mp h
    obtain ⟨c₁, hc₁, h⟩ := bind_eq_ok_iff.mp h
    obtain ⟨r₁, hr₁, h⟩ := bind_eq_ok_iff.mp h
    cases h
    exact .inr ⟨hwall, filterArc, simple, hfilter, hc₁, r₁, hr₁, rfl⟩
  · next hwall =>
    cases h
    exact .inl ⟨Bool.eq_false_iff.mpr hwall, rfl, rfl⟩

/-- On an entry with more slots that the cursor has left, the slow path pages through the expanded
entry. -/
theorem boundedBitmap_inv (hpast : e.pastBoundary sort.direction query.cursor = true)
    (hmore : e.hasMore = true) {effective : Bitmap} {useSimple : Bool}
    (h : ex.boundedBitmap c query key sort e filterArc simple = .ok (effective, useSimple, c')) :
    ex.expandFrom c key sort filterArc simple (c.config.maxCapacity - e.capacity) query.cursor = .ok c' ∧
      ∀ e', c'.lookup key = some e' → effective = e'.bitmap := by
  unfold boundedBitmap at h
  rw [hpast, hmore, Bool.and_self] at h
  obtain ⟨c₁, hc₁, h⟩ := bind_eq_ok_iff.mp h
  have hout := Except.ok.inj h
  cases hl : c₁.lookup key with
  | none =>
    rw [hl] at hout
    cases hout
    refine ⟨hc₁, fun e' he' => ?_⟩
    rw [hl] at he'
    cases he'
  | some e₁ =>
    rw [hl] at hout
    cases hout
    refine ⟨hc₁, fun e' he' => ?_⟩
    rw [hl] at he'
    rw [Option.some.inj he']

theorem boundedBitmap_complete (hmore : e.hasMore = false) :
    ex.boundedBitmap c query key sort e filterArc simple = .ok (e.bitmap, decide (e.bitmap.card < 10000), c) := by
  unfold boundedBitmap
  rw [hmore, Bool.and_false]
  rfl

theorem serveBounded_inv (h : ex.serveBounded c query key sort e filterArc simple = .ok (r, c')) :
    ∃ effective useSimple c₁ r₀, ex.boundedBitmap c query key sort e filterArc simple = .ok (effective, useSimple, c₁) ∧
      ex.executeFromBitmap effective (some sort) query.fetchLimit query.cursor useSimple = .ok r₀ ∧
      ((r = r₀ ∧ c' = c₁) ∨ (e.hasMore = true ∧ ex.expandFrom c₁ key sort filterArc simple
            (c.config.maxCapacity - e.capacity) (r₀.cursor.or query.cursor) = .ok c' ∧ (c'.lookup key).elim
            (ex.executeFromBitmap filterArc (some sort) query.fetchLimit query.cursor false)
            (fun e' => ex.serveExpanded e' sort query.fetchLimit query.cursor filterArc.card) = .ok r) ∨
        (e.hasMore = false ∧ effective.card < filterArc.card ∧ c' = c₁)) := by
  unfold serveBounded at h
  obtain ⟨⟨effective, useSimple, c₁⟩, hbounded, h⟩ := bind_eq_ok_iff.mp h
  obtain ⟨r₀, hr₀, h⟩ := bind_eq_ok_iff.mp h
  refine ⟨effective, useSimple, c₁, r₀, hbounded, hr₀, ?_⟩
  split at h
  · next hshort =>
    split at h
    · next hmore =>
      obtain ⟨c₂, hc₂, h⟩ := bind_eq_ok_iff.mp h
      obtain ⟨r₁, hr₁, h⟩ := bind_eq_ok_iff.mp h
      cases h
      exact .inr (.inl ⟨hmore, hc₂, hr₁⟩)
    · next hmore =>
      obtain ⟨r₁, -, h⟩ := bind_eq_ok_iff.mp h
      cases h
      exact .inr (.inr ⟨Bool.eq_false_iff.mpr hmore, hshort.2.2, rfl⟩)
  · cases h
    exact .inl ⟨rfl, rfl⟩

theorem seedAndServe_inv
    (h : ex.seedAndServe diffs c query filters key sort filterArc simple choices = .ok (r, c')) :
    (c.shouldRebuildSingleFlight key choices.startRebuild = false ∧ c' = c ∧
        ∃ r₀, ex.executeFromBitmap filterArc (some sort) query.fetchLimit query.cursor simple =
          .ok r₀ ∧ r = { r₀ with totalMatched := filterArc.card }) ∨
      (c.shouldRebuildSingleFlight key choices.startRebuild = true ∧ filterArc.card = 0 ∧ r = ⟨[], 0, none⟩ ∧
        c' = (c.formAndStoreWithClauses key [] false 0 filters (fun _ => 0)
          choices.evicted).seedBucketCutoff key (key.diffState diffs)) ∨
      (c.shouldRebuildSingleFlight key choices.startRebuild = true ∧ filterArc.card ≠ 0 ∧
        ∃ seed, ex.executeFromBitmapUnclamped filterArc (some sort) c.config.initialCapacity none
          simple = .ok seed ∧
        c' = (c.formAndStoreWithClauses key seed.ids (decide (filterArc.card > seed.ids.length))
          filterArc.card filters (ex.sortValue sort.field) choices.evicted).seedBucketCutoff key
            (key.diffState diffs) ∧
        ∃ r₀, (if (key.diffState diffs).isRebuild then
              ex.executeFromBitmap filterArc (some sort) query.fetchLimit query.cursor simple
            else ex.serveEntry (c.formEntry key seed.ids (decide (filterArc.card > seed.ids.length))
              filterArc.card filters (ex.sortValue sort.field)) sort query.fetchLimit query.cursor) = .ok r₀ ∧
          r = ex.applyOffset (some sort) query.pageOffset
            { r₀ with totalMatched := filterArc.card }) := by
  unfold seedAndServe at h
  dsimp only at h
  split at h
  · next hlost =>
    rw [Bool.not_eq_true'] at hlost
    obtain ⟨r₀, hr₀, h⟩ := bind_eq_ok_iff.mp h
    cases h
    exact .inl ⟨hlost, rfl, r₀, hr₀, rfl⟩
  · next hwon =>
    rw [Bool.not_eq_true', Bool.not_eq_false] at hwon
    split at h
    · next hzero =>
      cases h
      exact .inr (.inl ⟨hwon, hzero, rfl, rfl⟩)
    · next hpos =>
      obtain ⟨seed, hseed, h⟩ := bind_eq_ok_iff.mp h
      obtain ⟨r₀, hr₀, h⟩ := bind_eq_ok_iff.mp h
      cases h
      refine .inr (.inr ⟨hwon, hpos, seed, hseed, rfl, r₀, ?_, rfl⟩)
      rw [UnifiedCache.lookup_seeded] at hr₀
      cases hstate : (key.diffState diffs).isRebuild with
      | true => simpa [hstate] using hr₀
      | false =>
        -- the entry just stored is found
        rw [hstate] at hr₀
        exact hr₀

theorem servePlain_inv (h : ex.servePlain c query filterArc simple = .ok (r, c')) :
    c' = c ∧ ∃ r₀, ex.executeFromBitmap filterArc query.sort query.fetchLimit query.cursor simple =
      .ok r₀ ∧ r = ex.applyOffset query.sort query.pageOffset { r₀ with totalMatched := filterArc.card } := by
  obtain ⟨r₀, hr₀, h⟩ := bind_eq_ok_iff.mp h
  cases h
  exact ⟨rfl, r₀, hr₀, rfl⟩

/-- **The paths of a cached query**: a hit, a hit that the cursor has left, a result too small to cache, or a miss. A
hit is served from the entry as read. -/
theorem executeQueryAt_inv [Host] (hsort : query.sort = some sort) (hskip : query.skipCache = false)
    (hfilters : filters = ex.tables.snapRangeClauses query.filters) (hkey : key = keyOf filters sort)
    (h : ex.executeQueryAt diffs bucketCutoff c query choices = .ok (r, c')) :
    (∃ found e c₁, c.lookup key = some found ∧
        e = found.readAt (key.diffState diffs) bucketCutoff (ex.tables.ownBucketLive key.bucketNames) ∧
        c₁ = c.readEntry key (key.diffState diffs) bucketCutoff (ex.tables.ownBucketLive key.bucketNames) ∧
        ((e.pastBoundary sort.direction query.cursor = false ∧ ex.serveHit c₁ query filters sort e = .ok (r, c')) ∨
          (e.pastBoundary sort.direction query.cursor = true ∧
            ∃ filterArc simple r₀, ex.resolveFilters filters = .ok (filterArc, simple) ∧
              ex.serveBounded c₁ query key sort e filterArc simple = .ok (r₀, c') ∧
              r = ex.applyOffset query.sort query.pageOffset { r₀ with totalMatched := filterArc.card }))) ∨
      (c.lookup key = none ∧ ∃ filterArc simple, ex.resolveFilters filters = .ok (filterArc, simple) ∧
        ((filterArc.card < c.config.minFilterSize ∧ ex.servePlain c query filterArc simple = .ok (r, c')) ∨
          (c.config.minFilterSize ≤ filterArc.card ∧
            ex.seedAndServe diffs c query filters key sort filterArc simple choices = .ok (r, c')))) := by
  subst hkey
  unfold executeQueryAt at h
  simp only [← hfilters, hsort, hskip] at h
  split at h
  · next found hlookup =>
    refine .inl ⟨found, _, _, hlookup, rfl, rfl, ?_⟩
    split at h
    · next hpast =>
      unfold executeQuerySlowPath at h
      obtain ⟨⟨filterArc, simple⟩, hfilter, h⟩ := bind_eq_ok_iff.mp h
      simp only [hsort, hskip, Option.isNone_some, Bool.false_eq_true, false_and, or_self, if_false,
        Option.some_or] at h
      obtain ⟨⟨r₀, c₁⟩, hserve, h⟩ := bind_eq_ok_iff.mp h
      cases h
      exact .inr ⟨hpast, filterArc, simple, r₀, hfilter, hserve, by rw [hsort]⟩
    · next hpast => exact .inl ⟨Bool.eq_false_iff.mpr hpast, h⟩
  · next hlookup =>
    unfold executeQuerySlowPath at h
    obtain ⟨⟨filterArc, simple⟩, hfilter, h⟩ := bind_eq_ok_iff.mp h
    simp only [hsort, hskip, Option.isNone_none, Bool.false_eq_true, true_and, false_or, Option.none_or, hlookup] at h
    refine .inr ⟨hlookup, filterArc, simple, hfilter, ?_⟩
    split at h
    · next hsize => exact .inl ⟨hsize, h⟩
    · next hsize => exact .inr ⟨Nat.le_of_not_lt hsize, h⟩

/-- The same before the first refresh, if the entry found can be kept up to date: it is served as it is. -/
theorem executeQuery_inv [Host] (hsort : query.sort = some sort) (hskip : query.skipCache = false)
    (hfilters : filters = ex.tables.snapRangeClauses query.filters)
    (hsettled : ∀ e, c.lookup (keyOf filters sort) = some e → (keyOf filters sort).diffState ex.tables.freshDiffs = .noop)
    (h : ex.executeQuery c query choices = .ok (r, c')) :
    (∃ e, c.lookup (keyOf filters sort) = some e ∧ e.pastBoundary sort.direction query.cursor = false ∧
        ex.serveHit c query filters sort e = .ok (r, c')) ∨
      ∃ filterArc simple, ex.resolveFilters filters = .ok (filterArc, simple) ∧
        ((∃ e r₀, c.lookup (keyOf filters sort) = some e ∧ e.pastBoundary sort.direction query.cursor = true ∧
            ex.serveBounded c query (keyOf filters sort) sort e filterArc simple = .ok (r₀, c') ∧
            r = ex.applyOffset query.sort query.pageOffset
              { r₀ with totalMatched := filterArc.card }) ∨
          (c.lookup (keyOf filters sort) = none ∧ ((filterArc.card < c.config.minFilterSize ∧
                ex.servePlain c query filterArc simple = .ok (r, c')) ∨
              (c.config.minFilterSize ≤ filterArc.card ∧
                ex.seedAndServe ex.tables.freshDiffs c query filters (keyOf filters sort) sort filterArc simple choices =
                  .ok (r, c'))))) := by
  obtain ⟨found, e, c₁, hlookup, rfl, rfl, hcases⟩ | ⟨hlookup, filterArc, simple, hfilter, hcases⟩ :=
    executeQueryAt_inv hsort hskip hfilters rfl h
  · rw [hsettled found hlookup] at hcases
    obtain ⟨hpast, hserve⟩ | ⟨hpast, filterArc, simple, r₀, hfilter, hserve, hr⟩ := hcases
    · exact .inl ⟨found, hlookup, hpast, hserve⟩
    · exact .inr ⟨filterArc, simple, hfilter, .inl ⟨found, r₀, hlookup, hpast, hserve, hr⟩⟩
  · exact .inr ⟨filterArc, simple, hfilter, .inr ⟨hlookup, hcases⟩⟩

/-- A query without a sort, or one that asks for it, bypasses the cache. -/
theorem executeQueryAt_bypass [Host] (hbypass : query.sort = none ∨ query.skipCache = true)
    (h : ex.executeQueryAt diffs bucketCutoff c query choices = .ok (r, c')) :
    ∃ filterArc simple, ex.resolveFilters (ex.tables.snapRangeClauses query.filters) =
      .ok (filterArc, simple) ∧ ex.servePlain c query filterArc simple = .ok (r, c') := by
  have hslow : ex.executeQueryAt diffs bucketCutoff c query choices =
      ex.executeQuerySlowPath diffs c query (ex.tables.snapRangeClauses query.filters) none choices := by
    unfold executeQueryAt
    rcases hbypass with hsort | hskip
    · simp only [hsort]
    · cases query.sort <;> simp only [hskip]
  rw [hslow] at h
  unfold executeQuerySlowPath at h
  obtain ⟨⟨filterArc, simple⟩, hfilter, h⟩ := bind_eq_ok_iff.mp h
  refine ⟨filterArc, simple, hfilter, ?_⟩
  cases hsort : query.sort with
  | none =>
    simp only [hsort] at h
    exact h
  | some sort =>
    have hskip : query.skipCache = true := hbypass.resolve_left (by simp [hsort])
    simp only [hsort, hskip, true_or, if_true] at h
    exact h

/-! ## Calls do not fail

The only errors are those of the filters and of a sort field that does not exist. -/

section Total

variable {sf : SortField} (hsf : ex.sorts.getField sort.field = some sf)

include hsf

theorem executeFromBitmapInner_total (bitmap : Bitmap) (limit : Nat) (cursor : Option CursorPosition)
    (simple : Bool) : ∃ r, ex.executeFromBitmapInner bitmap (some sort) limit cursor simple = .ok r := by
  refine bind_ok ?_ fun _ => ⟨_, rfl⟩
  rw [Option.elim_some]
  unfold simpleSortAndPaginate sortAndPaginate
  rw [hsf]
  split <;> exact ⟨_, rfl⟩

theorem serveExpanded_total (e : UnifiedEntry) (limit : Nat) (cursor : Option CursorPosition)
    (total : Nat) : ∃ r, ex.serveExpanded e sort limit cursor total = .ok r := by
  unfold serveExpanded
  cases e.radix with
  | none => exact executeFromBitmapInner_total hsf _ _ _ _
  | some radix =>
    rw [Option.elim_some, executeFromRadix, hsf]
    exact ⟨_, rfl⟩

theorem serveEntry_total (e : UnifiedEntry) (limit : Nat) (cursor : Option CursorPosition) :
    ∃ r, ex.serveEntry e sort limit cursor = .ok r := by
  unfold serveEntry
  cases e.sortedKeys with
  | none => exact serveExpanded_total hsf _ _ _ _
  | some keys => exact ⟨_, rfl⟩

theorem expandFrom_total (c : UnifiedCache) (key : UnifiedKey) (filterArc : Bitmap) (simple : Bool)
    (n : Nat) (cursor : Option CursorPosition) : ∃ c', ex.expandFrom c key sort filterArc simple n cursor = .ok c' :=
  bind_ok (executeFromBitmapInner_total hsf _ _ _ _) fun _ => ⟨_, rfl⟩

theorem serveHit_total [Host] (hfilter : ∃ out, ex.resolveFilters filters = .ok out) (c : UnifiedCache)
    (query : BitdexQuery) (e : UnifiedEntry) : ∃ out, ex.serveHit c query filters sort e = .ok out := by
  refine bind_ok (serveEntry_total hsf e _ _) fun result => ?_
  split
  · refine bind_ok hfilter fun ⟨filterArc, simple⟩ => ?_
    refine bind_ok (expandFrom_total hsf _ _ _ _ _ _) fun c' => ?_
    refine bind_ok ?_ fun _ => ⟨_, rfl⟩
    cases c'.lookup (keyOf filters sort) with
    | none => exact ⟨_, rfl⟩
    | some e' => exact serveExpanded_total hsf e' _ _ _
  · exact ⟨_, rfl⟩

theorem serveBounded_total (c : UnifiedCache) (query : BitdexQuery) (key : UnifiedKey)
    (e : UnifiedEntry) (filterArc : Bitmap) (simple : Bool) :
    ∃ out, ex.serveBounded c query key sort e filterArc simple = .ok out := by
  have hbounded : ∃ out, ex.boundedBitmap c query key sort e filterArc simple = .ok out := by
    unfold boundedBitmap
    split
    · exact bind_ok (expandFrom_total hsf _ _ _ _ _ _) fun _ => ⟨_, rfl⟩
    · exact ⟨_, rfl⟩
  refine bind_ok hbounded fun ⟨effective, useSimple, c₁⟩ => ?_
  refine bind_ok (executeFromBitmapInner_total hsf _ _ _ _) fun result => ?_
  split
  · split
    · refine bind_ok (expandFrom_total hsf _ _ _ _ _ _) fun c₂ => ?_
      refine bind_ok ?_ fun _ => ⟨_, rfl⟩
      cases c₂.lookup key with
      | none => exact executeFromBitmapInner_total hsf _ _ _ _
      | some e' => exact serveExpanded_total hsf e' _ _ _
    · exact bind_ok (executeFromBitmapInner_total hsf _ _ _ _) fun _ => ⟨_, rfl⟩
  · exact ⟨_, rfl⟩

theorem seedAndServe_total (diffs : String → Option PendingBucketDiffs) (c : UnifiedCache) (query : BitdexQuery)
    (filters : List FilterClause) (key : UnifiedKey) (filterArc : Bitmap) (simple : Bool) (choices : Choices) :
    ∃ out, ex.seedAndServe diffs c query filters key sort filterArc simple choices = .ok out := by
  unfold seedAndServe
  dsimp only
  split
  · exact bind_ok (executeFromBitmapInner_total hsf _ _ _ _) fun _ => ⟨_, rfl⟩
  · split
    · exact ⟨_, rfl⟩
    · refine bind_ok (executeFromBitmapInner_total hsf _ _ _ _) fun seed => ?_
      refine bind_ok ?_ fun _ => ⟨_, rfl⟩
      cases UnifiedCache.lookup _ key with
      | none => exact executeFromBitmapInner_total hsf _ _ _ _
      | some e =>
        rw [Option.elim_some]
        cases e.sortedKeys with
        | none => exact executeFromBitmapInner_total hsf _ _ _ _
        | some keys => exact ⟨_, rfl⟩

/-- **A sorted query** returns if its filters resolve and its sort field exists. -/
theorem executeQueryAt_total [Host] (hsort : query.sort = some sort)
    (hfilter : ∃ out, ex.resolveFilters (ex.tables.snapRangeClauses query.filters) = .ok out)
    (diffs : String → Option PendingBucketDiffs) (bucketCutoff : Nat) (c : UnifiedCache) (choices : Choices) :
    ∃ out, ex.executeQueryAt diffs bucketCutoff c query choices = .ok out := by
  have hslow : ∀ c cached, ∃ out, ex.executeQuerySlowPath diffs c query
      (ex.tables.snapRangeClauses query.filters) cached choices = .ok out := by
    intro c cached
    refine bind_ok hfilter fun ⟨filterArc, simple⟩ => ?_
    have hplain : ∃ out, ex.servePlain c query filterArc simple = .ok out := by
      unfold servePlain
      rw [hsort]
      exact bind_ok (executeFromBitmapInner_total hsf _ _ _ _) fun _ => ⟨_, rfl⟩
    simp only [hsort]
    split
    · exact hplain
    · split
      · exact bind_ok (serveBounded_total hsf _ _ _ _ _ _) fun _ => ⟨_, rfl⟩
      · exact seedAndServe_total hsf _ _ _ _ _ _ _ _
  unfold executeQueryAt
  simp only [hsort]
  split
  · next s hskip heq _ =>
    obtain rfl := Option.some.inj heq
    split
    · split
      · exact hslow _ _
      · exact serveHit_total hsf hfilter _ query _
    · exact hslow c none
  · exact hslow c none

theorem executeQuery_total [Host] (hsort : query.sort = some sort)
    (hfilter : ∃ out, ex.resolveFilters (ex.tables.snapRangeClauses query.filters) = .ok out)
    (c : UnifiedCache) (choices : Choices) : ∃ out, ex.executeQuery c query choices = .ok out :=
  executeQueryAt_total hsf hsort hfilter _ 0 c choices

end Total

end QueryExecutor

end Bitdex
