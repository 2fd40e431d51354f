import Bitdex.Cache.Maintain
import Bitdex.Index.Load
import Bitdex.Write.Mutation

/-!
# `Engine.FlushThread` — the loop that applies writes

One thread owns a private copy of the index, `staging`, and turns queued mutations into published snapshots (`build`
in `concurrent_engine.rs`). A cycle has three parts, between which other threads take their steps:

* `begin` samples the loading flag, activates deferred slots, drains the queue and applies the batch;
* `settle` samples the flag again and, outside loading mode, maintains the cache and publishes; it compacts, and
  clears the cache if loading mode was just left with unpublished changes;
* `finish` evicts idle values and publishes what is left to publish.

Commands are handled between `settle` and `finish`; `ForcePublish` drains both queues itself. With asynchronous
maintenance the batch is queued for the cache worker (`cache_worker.rs`), which merges the items it finds and
evaluates them against the published snapshot, in one step here.

A published snapshot is a value (`Engine.Shared` is about shared filter fields). Time buckets, tombstones on disk and
metrics are left out. Unloading goes over the fields an index has, which are the configured ones.
-/

namespace Bitdex

open Option

/-! ## Deferred activations -/

namespace SlotAllocator

variable (sa : SlotAllocator)

/-- How many slots wait. -/
def deferredCount : Nat := (sa.deferred.map fun e => e.2.length).sum

/-- Make every due slot alive and forget its schedule. -/
def activateDue (now : UInt64) : SlotAllocator × List UInt32 :=
  let activated := (sa.deferred.filter fun e => decide (e.1 ≤ now)).flatMap (·.2)
  ({ sa with
      alive := sa.alive.insertBulk activated
      deferred := sa.deferred.filter fun e => !decide (e.1 ≤ now) }, activated)

/-- A batch is applied, or the due slots are activated. -/
inductive SlotEvent where
  | batch (b : WriteBatch)
  | activate (now : UInt64)

def step (sa : SlotAllocator) : SlotEvent → SlotAllocator
  | .batch b => sa.applyAlive b
  | .activate now => (sa.activateDue now).1

/-- What the allocator is for, to one slot: it is alive or not, and may wait for a time. -/
structure SlotLife where
  alive : Bool
  time : Option UInt64

/-- What an event makes of a slot. -/
def SlotLife.next (x : UInt32) (life : SlotLife) : SlotEvent → SlotLife
  | .batch b => ⟨decide (x ∉ b.aliveRemoves ∧ (x ∈ b.aliveInserts ∨ life.alive)),
      b.deferredMuts.foldl (fun time m => if x = m.1 then m.2 else time) life.time⟩
  | .activate now => if life.time.any (· ≤ now) then ⟨true, none⟩ else life

/-- The allocator has the slot as planned. -/
structure Lives (sa : SlotAllocator) (x : UInt32) (life : SlotLife) : Prop where
  alive_iff : x ∈ sa.alive.fused ↔ life.alive = true
  deferredAt_eq : sa.deferredAt x = life.time.toList

variable {sa} {x : UInt32} {now : UInt64}

theorem deferredAt_activateDue :
    (sa.activateDue now).1.deferredAt x = (sa.deferredAt x).filter fun t => !decide (t ≤ now) := by
  unfold deferredAt activateDue
  rw [List.filterMap_filter, List.filter_filterMap]
  congr 1
  funext e
  by_cases hx : x ∈ e.2
  · by_cases hnow : e.1 ≤ now <;> simp [hx, hnow, Option.filter]
  · simp [hx]

theorem mem_alive_activateDue :
    x ∈ (sa.activateDue now).1.alive.fused ↔ (sa.deferredAt x).any (· ≤ now) = true ∨ x ∈ sa.alive.fused := by
  refine VersionedBitmap.mem_fused_insertBulk.trans (or_congr_left ?_)
  simp only [deferredAt, List.mem_flatMap, List.mem_filter, List.any_eq_true, List.mem_filterMap, decide_eq_true_eq,
    ite_none_right_eq_some, some.injEq]
  constructor
  · rintro ⟨e, ⟨he, hdue⟩, hx⟩
    exact ⟨e.1, ⟨e, he, hx, rfl⟩, hdue⟩
  · rintro ⟨_, ⟨e, he, hx, rfl⟩, hdue⟩
    exact ⟨e, ⟨he, hdue⟩, hx⟩

theorem Lives.next {life : SlotLife} (h : sa.Lives x life) (ev : SlotEvent) : (sa.step ev).Lives x (life.next x ev) := by
  cases ev with
  | batch b =>
    refine ⟨mem_alive_applyAlive.trans ?_, deferredAt_applyAlive.trans ?_⟩
    · rw [h.alive_iff]
      exact decide_eq_true_iff.symm
    · rw [h.deferredAt_eq]
      exact List.foldl_hom _ fun time m => by unfold reschedule; split <;> rfl
  | activate now =>
    have halive := @mem_alive_activateDue sa x now
    have htime := @deferredAt_activateDue sa x now
    rw [h.deferredAt_eq] at halive htime
    rw [h.alive_iff] at halive
    obtain ⟨alive, _ | t⟩ := life
    · exact ⟨halive.trans (by simp [SlotLife.next]), htime⟩
    · rw [SlotLife.next]
      split <;> exact ⟨halive.trans (by simp_all), htime.trans (by simp_all)⟩

/-- **Slots live as planned.** After any batches and activations a slot is alive, and waits under one time or none, as
the events say: the last schedule or cancellation counts, and once its time has come it is alive. -/
theorem lives_run (evs : List SlotEvent) (x : UInt32) :
    (evs.foldl step .new).Lives x (evs.foldl (SlotLife.next x) ⟨false, none⟩) := by
  induction evs using List.reverseRecOn with
  | nil => exact ⟨by simp [new, VersionedBitmap.newEmpty], rfl⟩
  | append_singleton evs ev ih =>
    rw [List.foldl_concat, List.foldl_concat]
    exact ih.next ev

end SlotAllocator

/-- The ops that replay activated slots as fresh inserts. A slot whose document cannot be read is taken back. -/
def activationOps (cfg : Config) (docs : UInt32 → Option Document) (now : UInt64)
    (activated : List UInt32) : List MutationOp :=
  (activated.flatMap fun slot => (docs slot).elim [] fun doc => diffDocument slot none doc cfg false now) ++
    (activated.filter fun slot => (docs slot).isNone).map fun slot => .aliveRemove [slot]

/-! ## Data read from disk -/

/-- What a query thread read from disk and sent to the flush thread. -/
inductive LazyLoad where
  | filterField (name : String) (bitmaps : HashMap UInt64 Bitmap)
  | filterValues (field : String) (values : HashMap UInt64 Bitmap) (requested : List UInt64)
  | sortField (name : String) (layers : List Bitmap)
  | slots (slots : SlotAllocator)

namespace IndexState

variable (st : IndexState)

/-- Apply data read from disk. -/
def applyLoad : LazyLoad → IndexState
  | .filterField name bitmaps => { st with filters := st.filters.update name (·.loadFieldComplete bitmaps) }
  | .filterValues field values requested =>
    { st with filters := st.filters.update field (·.loadValues values requested) }
  | .sortField name layers => { st with sorts := st.sorts.update name (·.loadLayers layers) }
  | .slots slots => { st with slots := slots }

def applyLoads (loads : List LazyLoad) : IndexState := loads.foldl applyLoad st

/-- Compact the filter diffs. -/
def mergeFilters : IndexState := { st with filters := ⟨st.filters.fields.filterMap fun _ ff => some ff.mergeDirty⟩ }

/-- Compact the sort diffs. -/
def promoteSorts : IndexState := { st with sorts := ⟨st.sorts.fields.filterMap fun _ sf => some sf.mergeDirty⟩ }

def hasDirtySorts : Bool := st.sorts.fields.entries.any fun e => e.2.bitLayers.any (·.isDirty)

/-- A resident value of one of the fields has an unmerged diff. -/
def hasLoadedDirty (fields : List String) : Bool :=
  fields.any fun name => (st.filters.getField name).elim false fun ff =>
    ff.bitmaps.entries.any fun e => e.2.isLoaded && e.2.isDirty

/-- Those of some idle values that may be evicted: the ones without pending changes. -/
def evictable (idle : List (String × UInt64)) : List (String × UInt64) :=
  idle.filter fun v =>
    ((st.filters.getField v.1).bind (·.getVersioned v.2)).elim false fun vb => !vb.isDirty

/-- Drop values from memory. -/
def evictValues (values : List (String × UInt64)) : IndexState :=
  values.foldl (fun st v => { st with filters := st.filters.update v.1 (·.removeValue v.2) }) st

/-- The index without its bases, except in the fields to skip. -/
def unload (skipFilters skipSorts : List String) : IndexState where
  slots := st.slots
  filters := ⟨st.filters.fields.filterMap fun name ff =>
    some (if name ∈ skipFilters then ff else ff.unload)⟩
  sorts := ⟨st.sorts.fields.filterMap fun name sf =>
    some (if name ∈ skipSorts then sf else sf.unload)⟩

end IndexState

/-! ## Coarse invalidation of the cache -/

namespace UnifiedCache

variable (c : UnifiedCache)

/-- Drop every entry. -/
def clear : UnifiedCache := .new c.config

/-- Flag the entries whose key passes a test. -/
def markForRebuild (p : UnifiedKey → Bool) : UnifiedCache :=
  (c.entries.keys.filter p).foldl (fun c key => c.modify key (fun e => { e with needsRebuild := true })
    (fun _ => rfl) fun _ => rfl) c

/-- An alive bit changed: flag all. -/
def maintainAliveChanges : UnifiedCache := c.markForRebuild fun _ => true

/-- Flag the entries of a field. -/
def invalidateFilterField (field : String) : UnifiedCache :=
  c.markForRebuild fun key => key.filterClauses.any fun k => decide (k.field = field)

variable {c} {key : UnifiedKey}

@[simp] theorem lookup_clear : c.clear.entries.lookup key = none := AList.lookup_empty key

theorem lookup_markForRebuild (p : UnifiedKey → Bool) :
    (c.markForRebuild p).entries.lookup key = (c.entries.lookup key).map fun e =>
      { e with needsRebuild := e.needsRebuild || p key } := by
  rw [markForRebuild, lookup_foldl_modify (List.Nodup.filter p c.entries.keys_nodup)]
  cases h : c.entries.lookup key with
  | none => simp
  | some e =>
    have hkey : key ∈ c.entries.keys := AList.mem_keys.mp (AList.lookup_isSome.mp (by rw [h]; rfl))
    cases hp : p key with
    | true => simp [hkey, hp]
    | false => simp [hp]

end UnifiedCache

/-! ## Work for the cache worker -/

namespace WriteBatch

/-- A batch that gives the worker nothing to do is not queued. -/
def isEmptyWork (b : WriteBatch) : Bool :=
  decide (b.filterInserts.entries = []) && decide (b.filterRemoves.entries = []) &&
    decide (b.mutatedSortSlots.entries = []) && decide (b.aliveInserts = ∅) && decide (b.aliveRemoves = ∅)

/-- One kind of group, over all of some batches. -/
def gather {κ : Type} [DecidableEq κ] (groups : WriteBatch → Postings κ UInt32) (items : List WriteBatch) :
    Postings κ UInt32 :=
  Postings.addAll ∅ (items.flatMap fun b => (groups b).entries.map fun e => (e.1, e.2))

/-- Merge work items. Inserts and removes of one slot under one key cancel out. -/
def coalesceWorkItems (items : List WriteBatch) : WriteBatch where
  filterInserts := (gather filterInserts items).cancel (gather filterRemoves items)
  filterRemoves := (gather filterRemoves items).cancel (gather filterInserts items)
  sortSets := gather sortSets items
  sortClears := gather sortClears items
  aliveInserts := items.foldl (fun s b => s ∪ b.aliveInserts) ∅
  aliveRemoves := items.foldl (fun s b => s ∪ b.aliveRemoves) ∅
  deferredMuts := []

theorem mem_ids_gather {κ : Type} [DecidableEq κ] {groups : WriteBatch → Postings κ UInt32}
    {items : List WriteBatch} {k : κ} {x : UInt32} :
    x ∈ (gather groups items).ids k ↔ ∃ b ∈ items, x ∈ (groups b).ids k := by
  rw [gather, Postings.mem_ids_addAll]
  simp only [Postings.ids_empty, Finset.notMem_empty, false_or, List.mem_flatMap, List.mem_map,
    Postings.mem_ids_iff_entries]
  constructor
  · rintro ⟨p, ⟨b, hb, e, he, rfl⟩, rfl, hx⟩
    exact ⟨b, hb, e, he, rfl, hx⟩
  · rintro ⟨b, hb, e, he, rfl, hx⟩
    exact ⟨_, ⟨b, hb, e, he, rfl⟩, rfl, hx⟩

end WriteBatch

/-! ## The thread -/

/-- What the thread is set up with. -/
structure FlushConfig where
  config : Config
  /-- After how many seconds an activation whose document could not be read is tried again. -/
  retrySecs : UInt64
  asyncMaintenance : Bool
  backlogDropLimit : Nat
  maxPageSize : Nat
  /-- The per-slot test of an entry that was stored without its clause tree. -/
  legacy : UInt32 → CanonicalClause → Bool

/-- The locals of a cycle: the first sample of the loading flag, the ops drained, and whether data was loaded. -/
structure Cycle where
  isLoading : Bool
  ops : List MutationOp
  lazyLoaded : Bool
deriving DecidableEq

/-- Where the thread is. -/
inductive Phase where
  | idle
  | applied (c : Cycle)
  | settled (c : Cycle)
  | stopped
deriving DecidableEq

/-- The state of the flush thread. -/
structure FlushThread where
  staging : IndexState
  published : IndexState
  /-- The mutation channel. -/
  queue : List MutationOp
  /-- The channel of data read from disk. -/
  loads : List LazyLoad
  /-- The shared loading flag. -/
  loading : Bool
  wasLoading : Bool
  stagingDirty : Bool
  cache : UnifiedCache
  /-- The items queued for the cache worker. -/
  work : List WriteBatch
  /-- String maps, dictionaries and time buckets, as last stored. -/
  tables : Tables
  phase : Phase

/-- Commands to the flush thread. -/
inductive FlushCommand where
  | forcePublish
  | syncUnloaded (unloaded : IndexState)
  | exitLoadingSaveUnload (saved : Bool) (skipFilters skipSorts : List String)

/-- Steps of the flush thread and beside it. -/
inductive ThreadEvent where
  -- other threads
  | send (op : MutationOp)
  | load (data : LazyLoad)
  | setLoading (loading : Bool)
  | setTables (tables : Tables)
  /-- A query stores an entry that it formed from the snapshot `basis`. -/
  | store (basis : IndexState) (key : UnifiedKey) (sortedSlots : List UInt32) (hasMore : Bool)
      (totalMatched : Nat) (filters : List FilterClause) (valueFn : UInt32 → Nat)
      (evicted : List UnifiedKey)
  /-- The cache worker handles the first `n` items. -/
  | worker (n : Nat)
  -- the flush thread
  | begin (now : UInt64) (docs : UInt32 → Option Document) (promote : Bool)
  | settle (compact idleTick workerFull : Bool) (lazyValueFields : List String)
  | command (cmd : FlushCommand)
  | finish (idle : List (String × UInt64))
  | shutdown

namespace FlushThread

variable (cfg : FlushConfig) (s : FlushThread)

/-- A thread at rest over an index, with an empty cache. -/
def initial (st : IndexState) (cacheConfig : UnifiedCacheConfig) (tables : Tables) : FlushThread :=
  ⟨st, st, [], [], false, false, false, .new cacheConfig, [], tables, .idle⟩

/-- The executor on an index, with the tables of the moment. -/
def executor (st : IndexState) : QueryExecutor := ⟨st.slots, st.filters, st.sorts, cfg.maxPageSize, s.tables⟩

/-! ### The first part of a cycle -/

/-- Activation, outside loading mode: the allocator afterwards and the ops to replay. -/
def activate (now : UInt64) (docs : UInt32 → Option Document) : SlotAllocator × List MutationOp :=
  if s.loading = false ∧ 0 < s.staging.slots.deferredCount then
    let (slots, activated) := s.staging.slots.activateDue now
    let missed := activated.filter fun slot => (docs slot).isNone
    (missed.foldl (fun sa slot => sa.scheduleAlive slot (now + cfg.retrySecs)) slots,
      activationOps cfg.config docs now activated)
  else (s.staging.slots, [])

/-- The ops of a cycle: activations first, then the channel. -/
def cycleOps (now : UInt64) (docs : UInt32 → Option Document) : List MutationOp :=
  (s.activate cfg now docs).2 ++ s.queue

/-- Between the drain and the batch sort layers may be promoted, and at most one load is applied. -/
def prepareStaging (promote : Bool) (st : IndexState) : IndexState :=
  (if promote then st.promoteSorts else st).applyLoads (s.loads.take 1)

/-- The first part of a cycle. -/
def beginCycle (now : UInt64) (docs : UInt32 → Option Document) (promote : Bool) : FlushThread :=
  let ops := s.cycleOps cfg now docs
  let prepared := s.prepareStaging promote { s.staging with slots := (s.activate cfg now docs).1 }
  { s with
    staging := if ops = [] then prepared else prepared.applyOps ops
    queue := []
    loads := s.loads.drop 1
    stagingDirty := s.stagingDirty || (promote && s.staging.hasDirtySorts) || !ops.isEmpty
    phase := .applied ⟨s.loading, ops, !s.loads.isEmpty⟩ }

/-! ### The second part -/

/-- The cache after a batch outside loading mode, and the items queued for the worker. -/
def maintainCache [Host] (b : WriteBatch) (workerFull : Bool) : UnifiedCache × List WriteBatch :=
  if cfg.asyncMaintenance then
    if b.isEmptyWork then (s.cache, s.work)
    else if workerFull then
      ((s.cache.removeSlotsFromAll (Bitmap.iter b.aliveRemoves)).maintainAliveChanges, s.work)
    else (s.cache, s.work ++ [b])
  else (s.cache.maintain cfg.legacy b (s.executor cfg s.staging), s.work)

/-- Maintain the cache, compact if it is time, and publish. -/
def flushBatch [Host] (b : WriteBatch) (compact workerFull : Bool) : FlushThread :=
  let staging := if compact then s.staging.mergeFilters else s.staging
  { s with
    cache := (s.maintainCache cfg b workerFull).1
    work := (s.maintainCache cfg b workerFull).2
    staging := staging
    published := staging
    stagingDirty := false }

/-- Compact resident diffs of lazily loaded fields while no mutations arrive. -/
def idleCompact : FlushThread :=
  { s with
    staging := s.staging.mergeFilters
    published := s.staging.mergeFilters
    stagingDirty := false }

/-- Publish what was applied in loading mode; the cache may be stale from that time. -/
def exitLoading : FlushThread :=
  { s with
    staging := s.staging.mergeFilters
    published := s.staging.mergeFilters
    cache := s.cache.clear
    stagingDirty := false }

/-- The batch of a cycle is maintained and published: there is one, and the second sample of the flag is
clear. -/
def flushes (c : Cycle) : Bool := !c.ops.isEmpty && !s.loading

/-- An idle cycle compacts. -/
def compactsIdle (c : Cycle) (idleTick : Bool) (lazyValueFields : List String) : Bool :=
  !c.isLoading && c.ops.isEmpty && idleTick && s.staging.hasLoadedDirty lazyValueFields

/-- Loading mode has been left with unpublished changes. -/
def leavesLoading (c : Cycle) : Bool := s.wasLoading && !c.isLoading && s.stagingDirty

/-- The second part of a cycle. -/
def settleCycle [Host] (c : Cycle) (compact idleTick workerFull : Bool) (lazyValueFields : List String) :
    FlushThread :=
  let s₁ := if s.flushes c then s.flushBatch cfg (.groupAndSort c.ops) compact workerFull else s
  let s₂ := if s₁.compactsIdle c idleTick lazyValueFields then s₁.idleCompact else s₁
  let s₃ := if s₂.leavesLoading c then s₂.exitLoading else s₂
  { s₃ with wasLoading := c.isLoading, phase := .settled c }

/-! ### Commands, the third part and shutdown -/

/-- `ForcePublish`: drain the loads and the mutations, compact and publish. The cache is not touched. -/
def forcePublish : FlushThread :=
  let loaded := s.staging.applyLoads s.loads
  let staging := if s.queue = [] then loaded else (loaded.applyOps s.queue).mergeFilters
  { s with staging := staging, published := staging, queue := [], loads := [], stagingDirty := false }

/-- Take an unloaded index as staging. -/
def syncUnloaded (unloaded : IndexState) : FlushThread :=
  let staging := if s.queue = [] then unloaded else unloaded.applyOps s.queue
  { s with
    staging := staging
    published := staging
    queue := []
    cache := s.cache.clear
    stagingDirty := false }

/-- Leave loading mode and, unless the save failed, replace staging by the published index without its bases. -/
def exitLoadingSaveUnload (saved : Bool) (skipFilters skipSorts : List String) : FlushThread :=
  if saved then
    { s with
      staging := s.published.unload skipFilters skipSorts
      published := s.published.unload skipFilters skipSorts
      cache := s.cache.clear
      loading := false
      stagingDirty := false }
  else { s with loading := false }

/-- Handle a command. -/
def runCommand : FlushCommand → FlushThread
  | .forcePublish => s.forcePublish
  | .syncUnloaded unloaded => s.syncUnloaded unloaded
  | .exitLoadingSaveUnload saved skipFilters skipSorts =>
    s.exitLoadingSaveUnload saved skipFilters skipSorts

/-- Outside loading mode, evict idle values and publish evictions, loads and promoted layers not yet published. -/
def finishCycle (c : Cycle) (idle : List (String × UInt64)) : FlushThread :=
  if c.isLoading then { s with phase := .idle }
  else
    let evicted := s.staging.evictable idle
    let staging := s.staging.evictValues evicted
    let publishes := !evicted.isEmpty || (c.ops.isEmpty && (c.lazyLoaded || s.stagingDirty))
    { s with
      staging := staging
      published := if publishes then staging else s.published
      stagingDirty := s.stagingDirty && !(c.ops.isEmpty && !c.lazyLoaded)
      phase := .idle }

/-- The final flush. -/
def shutdownFlush : FlushThread :=
  if s.queue = [] then { s with phase := .stopped }
  else
    let staging := (s.staging.applyOps s.queue).mergeFilters
    { s with staging := staging, published := staging, queue := [], phase := .stopped }

theorem finishCycle_keeps (c : Cycle) (idle : List (String × UInt64)) :
    (s.finishCycle c idle).phase = .idle ∧ (s.finishCycle c idle).cache = s.cache ∧
      (s.finishCycle c idle).work = s.work := by
  rw [finishCycle]
  split
  · exact ⟨rfl, rfl, rfl⟩
  · exact ⟨rfl, rfl, rfl⟩

theorem shutdownFlush_keeps :
    s.shutdownFlush.phase = .stopped ∧ s.shutdownFlush.cache = s.cache ∧ s.shutdownFlush.work = s.work ∧
      s.shutdownFlush.stagingDirty = s.stagingDirty ∧ s.shutdownFlush.wasLoading = s.wasLoading := by
  rw [shutdownFlush]
  split
  · exact ⟨rfl, rfl, rfl, rfl, rfl⟩
  · exact ⟨rfl, rfl, rfl, rfl, rfl⟩

/-! ### The cache worker -/

/-- The limit on the backlog is looked at after each item but the first. -/
def dropsBacklog (n : Nat) : Bool := decide (cfg.backlogDropLimit < n ∧ n ≠ 1)

/-- Too deep a backlog is dropped: every entry is flagged if an alive bit or sort value changed, otherwise those whose
keys name a changed field. -/
def invalidateAndDrop (items : List WriteBatch) : UnifiedCache :=
  if items.any (fun b => !decide (b.aliveInserts = ∅) || !decide (b.aliveRemoves = ∅)) ||
      items.any (fun b => !decide (b.mutatedSortSlots.entries = [])) then
    s.cache.maintainAliveChanges
  else
    (items.flatMap fun b => (groupKeys b.filterInserts b.filterRemoves).map (·.field)).foldl
      UnifiedCache.invalidateFilterField s.cache

/-- One cycle of the worker. -/
def runWorker [Host] (n : Nat) : FlushThread :=
  { s with
    work := s.work.drop n
    cache :=
      if dropsBacklog cfg n then s.invalidateAndDrop (s.work.take n)
      else s.cache.maintain cfg.legacy (.coalesceWorkItems (s.work.take n)) (s.executor cfg s.published) }

/-- One step; `none` if the phase does not allow it. The worker takes items up to the one that makes it drop the
backlog. -/
def next [Host] : ThreadEvent → Option FlushThread
  | .send op => some { s with queue := s.queue ++ [op] }
  | .load data => some { s with loads := s.loads ++ [data] }
  | .setLoading loading => some { s with loading := loading }
  | .setTables tables => some { s with tables := tables }
  | .store _ key sortedSlots hasMore totalMatched filters valueFn evicted =>
    some { s with
            cache := s.cache.formAndStoreWithClauses key sortedSlots hasMore totalMatched filters valueFn
              evicted }
  | .worker n =>
    if 0 < n ∧ n ≤ s.work.length ∧ n ≤ max (cfg.backlogDropLimit + 1) 2 then some (s.runWorker cfg n)
    else none
  | .begin now docs promote =>
    match s.phase with
    | .idle => some (s.beginCycle cfg now docs promote)
    | _ => none
  | .settle compact idleTick workerFull lazyValueFields =>
    match s.phase with
    | .applied c => some (s.settleCycle cfg c compact idleTick workerFull lazyValueFields)
    | _ => none
  | .command cmd =>
    match s.phase with
    | .settled _ => some (s.runCommand cmd)
    | _ => none
  | .finish idle =>
    match s.phase with
    | .settled c => some (s.finishCycle c idle)
    | _ => none
  | .shutdown =>
    match s.phase with
    | .idle => some s.shutdownFlush
    | _ => none

section Inversion

variable [Host] {cfg s} {s' : FlushThread}

theorem next_worker {n : Nat} (h : s.next cfg (.worker n) = some s') :
    (0 < n ∧ n ≤ s.work.length ∧ n ≤ max (cfg.backlogDropLimit + 1) 2) ∧ s' = s.runWorker cfg n := by
  simp only [next] at h
  split at h
  · rename_i hn
    exact ⟨hn, (some.inj h).symm⟩
  · cases h

theorem next_begin {now : UInt64} {docs : UInt32 → Option Document} {promote : Bool}
    (h : s.next cfg (.begin now docs promote) = some s') :
    s.phase = .idle ∧ s' = s.beginCycle cfg now docs promote := by
  simp only [next] at h
  split at h
  · rename_i hp
    exact ⟨hp, (some.inj h).symm⟩
  · cases h

theorem next_settle {compact idleTick workerFull : Bool} {lazyValueFields : List String}
    (h : s.next cfg (.settle compact idleTick workerFull lazyValueFields) = some s') :
    ∃ c, s.phase = .applied c ∧ s' = s.settleCycle cfg c compact idleTick workerFull lazyValueFields := by
  simp only [next] at h
  split at h
  · rename_i c hp
    exact ⟨c, hp, (some.inj h).symm⟩
  · cases h

theorem next_command {cmd : FlushCommand} (h : s.next cfg (.command cmd) = some s') :
    ∃ c, s.phase = .settled c ∧ s' = s.runCommand cmd := by
  simp only [next] at h
  split at h
  · rename_i c hp
    exact ⟨c, hp, (some.inj h).symm⟩
  · cases h

theorem next_finish {idle : List (String × UInt64)} (h : s.next cfg (.finish idle) = some s') :
    ∃ c, s.phase = .settled c ∧ s' = s.finishCycle c idle := by
  simp only [next] at h
  split at h
  · rename_i c hp
    exact ⟨c, hp, (some.inj h).symm⟩
  · cases h

theorem next_shutdown (h : s.next cfg .shutdown = some s') : s.phase = .idle ∧ s' = s.shutdownFlush := by
  simp only [next] at h
  split at h
  · rename_i hp
    exact ⟨hp, (some.inj h).symm⟩
  · cases h

/-- The second part of a cycle flushes the batch, compacts while idle, leaves loading mode, or does nothing. -/
theorem settleCycle_cases (cfg : FlushConfig) (s : FlushThread) (c : Cycle)
    (compact idleTick workerFull : Bool) (lazyValueFields : List String) :
    (s.flushes c = true ∧ s.settleCycle cfg c compact idleTick workerFull lazyValueFields =
      { s.flushBatch cfg (.groupAndSort c.ops) compact workerFull with
          wasLoading := c.isLoading, phase := .settled c }) ∨
    (s.flushes c = false ∧ s.compactsIdle c idleTick lazyValueFields = true ∧
      s.settleCycle cfg c compact idleTick workerFull lazyValueFields =
        { s.idleCompact with wasLoading := c.isLoading, phase := .settled c }) ∨
    (s.flushes c = false ∧ s.compactsIdle c idleTick lazyValueFields = false ∧
      s.leavesLoading c = true ∧ s.settleCycle cfg c compact idleTick workerFull lazyValueFields =
        { s.exitLoading with wasLoading := c.isLoading, phase := .settled c }) ∨
    (s.flushes c = false ∧ s.compactsIdle c idleTick lazyValueFields = false ∧
      s.leavesLoading c = false ∧ s.settleCycle cfg c compact idleTick workerFull lazyValueFields =
        { s with wasLoading := c.isLoading, phase := .settled c }) := by
  cases hf : s.flushes c with
  | true =>
    -- a flush leaves nothing dirty, so the cache is not cleared behind it
    have hops : c.ops.isEmpty = false := by
      rw [flushes, Bool.and_eq_true, Bool.not_eq_true'] at hf
      exact hf.1
    refine .inl ⟨rfl, ?_⟩
    simp [settleCycle, hf, compactsIdle, hops, leavesLoading, flushBatch]
  | false =>
    cases hc : s.compactsIdle c idleTick lazyValueFields with
    | true =>
      refine .inr (.inl ⟨rfl, rfl, ?_⟩)
      simp [settleCycle, hf, hc, leavesLoading, idleCompact]
    | false =>
      cases hl : s.leavesLoading c with
      | true =>
        refine .inr (.inr (.inl ⟨rfl, rfl, rfl, ?_⟩))
        simp [settleCycle, hf, hc, hl]
      | false =>
        refine .inr (.inr (.inr ⟨rfl, rfl, rfl, ?_⟩))
        simp [settleCycle, hf, hc, hl]

end Inversion

end FlushThread

end Bitdex
