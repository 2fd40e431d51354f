import Bitdex.Engine.Persisted

/-!
# `Engine.SaveUnload` — saving and unloading while the flush thread runs

`save_and_unload` writes the published snapshot to the data directory, loads the published snapshot a second time,
builds from it an index without the fields that are loaded, and has the flush thread take that as staging
(`SyncUnloaded`). Cycles run between any two of these steps. A snapshot has slots and sort fields of its own, but its
filter fields are those that the flush thread works on.

What a cycle applies between the second snapshot and the swap is not in the index swapped in, and for the alive set it
is not read back from the log either (`swap_loses_insert`).
-/

namespace Bitdex

open VersionedBitmap FlushThread IndexState FilterIndex FilterField AList FilterBitmapStore SortField Option

/-! ## Indexes put together from two -/

namespace FilterIndex

/-- The fields of one index, except that those outside a list are taken from another. -/
def graft (fi other : FilterIndex) (kept : List String) : FilterIndex :=
  ⟨fi.fields.filterMap fun name ff => some (if name ∈ kept then ff else (other.getField name).getD ff)⟩

variable {fi other : FilterIndex} {kept : List String}

theorem getField_graft (name : String) : (fi.graft other kept).getField name =
      (fi.getField name).map fun ff => if name ∈ kept then ff else (other.getField name).getD ff := by
  rw [getField, graft, lookup_filterMap, map_eq_bind]
  rfl

theorem valueAt_graft {g : FilterGroupKey} (h : (fi.getField g.field).isSome = (other.getField g.field).isSome) :
    (fi.graft other kept).valueAt g = if g.field ∈ kept then fi.valueAt g else other.valueAt g := by
  rw [valueAt, getField_graft, valueAt, valueAt]
  cases hf : fi.getField g.field with
  | none =>
    rw [hf] at h
    rw [isSome_eq_false_iff.mp h.symm |> isNone_iff_eq_none.mp]
    split <;> rfl
  | some ff =>
    rw [hf] at h
    obtain ⟨ff', hff'⟩ := isSome_iff_exists.mp h.symm
    rw [hff']
    split <;> rfl

end FilterIndex

namespace Mirrors

variable {parked : List String} {disk : Target → Bitmap} {a b resident : IndexState}

/-- Slots and sort fields of one index with filter fields whose values are each of the one or the other. -/
theorem mixed (ha : Mirrors parked disk a resident) (hb : Mirrors parked disk b resident) {fi : FilterIndex}
    (hfi : ∀ g, fi.valueAt g = a.filters.valueAt g ∨ fi.valueAt g = b.filters.valueAt g) :
    Mirrors parked disk { a with filters := fi } resident := by
  have hvalue : ∀ g, ∃ st, Mirrors parked disk st resident ∧ fi.valueAt g = st.filters.valueAt g := fun g =>
    (hfi g).elim (fun heq => ⟨a, ha, heq⟩) fun heq => ⟨b, hb, heq⟩
  refine ⟨fun t => ?_, fun t ht => ?_⟩
  · cases t with
    | filter f v =>
      obtain ⟨st, hst, heq⟩ := hvalue ⟨f, v⟩
      rw [← hst.has, has_filter_iff, has_filter_iff, heq]
    | sort f n => exact ha.has (.sort f n)
    | alive => exact Iff.rfl
  · cases t with
    | filter f v =>
      obtain ⟨st, hst, heq⟩ := hvalue ⟨f, v⟩
      rw [has_filter_iff, heq] at ht
      show overValue _ _ (fi.valueAt ⟨f, v⟩) = _
      rw [heq]
      exact hst.standsFor (.filter f v) (has_filter_iff.mpr ht)
    | sort f n => exact ha.standsFor (.sort f n) ht
    | alive => exact ha.standsFor .alive trivial

theorem graft (ha : Mirrors parked disk a resident) (hb : Mirrors parked disk b resident) (kept : List String) :
    Mirrors parked disk { a with filters := b.filters.graft a.filters kept } resident := by
  refine ha.mixed hb fun g => ?_
  rw [valueAt_graft (Bool.eq_iff_iff.mpr ((hb.has (.filter g.field 0)).trans (ha.has (.filter g.field 0)).symm))]
  split
  · exact .inr rfl
  · exact .inl rfl

end Mirrors

/-! ## What a step of the engine does to a snapshot -/

namespace Persisted

variable (cfg : FlushConfig) (s : Persisted)

/-- The step drains no ops. -/
def Quiet : DiskEvent → Prop
  | .thread (.begin now docs _) => s.thread.cycleOps cfg now docs = []
  | .thread (.command .forcePublish) => s.thread.queue = []
  | .thread (.command (.syncUnloaded _)) => False
  | .thread .shutdown => s.thread.queue = []
  | _ => True

/-- The published snapshot has the slots and sort fields of staging. -/
def PublishesStaging : Prop :=
  s.thread.published.slots = s.thread.staging.slots ∧ s.thread.published.sorts = s.thread.staging.sorts

/-- Nothing but staging, the snapshot and the queues has moved. -/
structure Unchanged (s s' : Persisted) : Prop where
  resident : s'.resident = s.resident
  dir : s'.dir = s.dir
  parked : s.parked ⊆ s'.parked
  logged : s'.Logged ↔ s.Logged

/-- A step applies nothing and leaves the snapshot or publishes staging; or it applies ops, and then publishes staging
or leaves a batch to be logged. -/
def Effect (s' : Persisted) (ev : DiskEvent) : Prop :=
  (Unchanged s s' ∧ (s'.PublishesStaging ∨ s'.thread.published = s.thread.published)) ∨
    ¬(s.Logged ∧ s.Quiet cfg ev) ∧ (s'.PublishesStaging ∨ ¬s'.Logged)

variable {cfg s} {s' : Persisted}

theorem PublishesStaging.of_eq (h : s.thread.published = s.thread.staging) : s.PublishesStaging :=
  ⟨congrArg _ h, congrArg _ h⟩

theorem Unchanged.of_same (hphase : s'.thread.phase = s.thread.phase) (hdir : s'.dir = s.dir)
    (hresident : s'.resident = s.resident) (hparked : s'.parked = s.parked) : Unchanged s s' :=
  ⟨hresident, hdir, by rw [hparked]; exact List.Subset.refl _, by rw [Logged, Logged, hphase]⟩

section Steps

variable [Host]

theorem effect_begin {now : UInt64} {docs : UInt32 → Option Document} {promote : Bool}
    (hmeets : s.BeginMeets cfg now docs promote) (hs : s.next cfg (.thread (.begin now docs promote)) = some s') :
    s.Effect cfg s' (.thread (.begin now docs promote)) := by
  obtain ⟨t, ht, rfl⟩ := map_eq_some_iff.mp hs
  obtain ⟨hidle, rfl⟩ := next_begin ht
  by_cases hops : s.thread.cycleOps cfg now docs = []
  · refine .inl ⟨⟨?_, rfl, List.Subset.refl _, ?_⟩, .inr rfl⟩
    · show (s.resident.activate (s.thread.activated now)).applyDrained (s.thread.cycleOps cfg now docs) = _
      rw [applyDrained, if_pos hops, hmeets.activated_eq_nil hops]
      rfl
    · refine iff_of_true (fun c hc => ?_) (logged_of_idle hidle)
      cases hc
      exact hops
  · exact .inr ⟨fun h => hops h.2, .inr fun h => hops (h _ rfl)⟩

/-- A settled cycle has published staging, unless it had nothing to flush. -/
theorem published_settleCycle (cfg : FlushConfig) (t : FlushThread) (c : Cycle)
    (compact idleTick workerFull : Bool) (lazyValueFields : List String) :
    (t.settleCycle cfg c compact idleTick workerFull lazyValueFields).phase = .settled c ∧
      ((t.settleCycle cfg c compact idleTick workerFull lazyValueFields).published =
          (t.settleCycle cfg c compact idleTick workerFull lazyValueFields).staging ∨ t.flushes c = false ∧
          (t.settleCycle cfg c compact idleTick workerFull lazyValueFields).published = t.published) := by
  rcases settleCycle_cases cfg t c compact idleTick workerFull lazyValueFields with
    ⟨-, heq⟩ | ⟨-, -, heq⟩ | ⟨-, -, -, heq⟩ | ⟨hflushes, -, -, heq⟩ <;> rw [heq]
  · exact ⟨rfl, .inl rfl⟩
  · exact ⟨rfl, .inl rfl⟩
  · exact ⟨rfl, .inl rfl⟩
  · exact ⟨rfl, .inr ⟨hflushes, rfl⟩⟩

theorem effect_settle {compact idleTick workerFull : Bool} {lazyValueFields : List String}
    (hmeets : s.Meets cfg (.thread (.settle compact idleTick workerFull lazyValueFields)))
    (hs : s.next cfg (.thread (.settle compact idleTick workerFull lazyValueFields)) = some s') :
    s.Effect cfg s' (.thread (.settle compact idleTick workerFull lazyValueFields)) := by
  obtain ⟨t, ht, rfl⟩ := map_eq_some_iff.mp hs
  obtain ⟨c, hphase, rfl⟩ := next_settle ht
  obtain ⟨hsettled, hpublished⟩ := published_settleCycle cfg s.thread c compact idleTick workerFull lazyValueFields
  by_cases hops : c.ops = []
  · have hflushes : s.thread.flushes c = false := by simp [flushes, hops]
    refine .inl ⟨⟨rfl, ?_, List.Subset.refl _, iff_of_true (logged_of_settled hsettled) fun c' hc' => ?_⟩, ?_⟩
    · show s.dirAfter cfg (.settle compact idleTick workerFull lazyValueFields) = s.dir
      rw [dirAfter, hphase]
      simp [hflushes]
    · rw [hphase] at hc'
      cases hc'
      exact hops
    · exact hpublished.imp PublishesStaging.of_eq And.right
  · have hflushes : s.thread.flushes c = true := by
      simp [flushes, hops, hmeets c hphase hops]
    rcases hpublished with h | ⟨h, -⟩
    · exact .inr ⟨fun h' => hops (h'.1 c hphase), .inl (.of_eq h)⟩
    · rw [hflushes] at h
      cases h

theorem effect_command {cmd : FlushCommand} (hmeets : s.Meets cfg (.thread (.command cmd)))
    (hs : s.next cfg (.thread (.command cmd)) = some s') : s.Effect cfg s' (.thread (.command cmd)) := by
  obtain ⟨t, ht, rfl⟩ := map_eq_some_iff.mp hs
  obtain ⟨c, hphase, rfl⟩ := next_command ht
  cases cmd with
  | forcePublish =>
    by_cases hqueue : s.thread.queue = []
    · refine .inl ⟨.of_same rfl rfl ?_ rfl, .inl ⟨rfl, rfl⟩⟩
      show s.resident.applyDrained s.thread.queue = _
      rw [applyDrained, if_pos hqueue]
    · exact .inr ⟨fun h => hqueue h.2, .inl ⟨rfl, rfl⟩⟩
  | syncUnloaded unloaded => exact .inr ⟨fun h => h.2, .inl ⟨rfl, rfl⟩⟩
  | exitLoadingSaveUnload saved skipFilters skipSorts =>
    obtain rfl : saved = false := hmeets
    exact .inl ⟨.of_same rfl rfl rfl rfl, .inr rfl⟩

theorem effect_finish {idle : List (String × UInt64)}
    (hs : s.next cfg (.thread (.finish idle)) = some s') : s.Effect cfg s' (.thread (.finish idle)) := by
  obtain ⟨t, ht, rfl⟩ := map_eq_some_iff.mp hs
  obtain ⟨c, hphase, rfl⟩ := next_finish ht
  have hlogged := logged_of_settled hphase
  refine .inl ⟨⟨rfl, rfl, List.subset_append_right _ _,
    iff_of_true (logged_of_idle (s.thread.finishCycle_keeps c idle).1) hlogged⟩, ?_⟩
  show ((s.thread.finishCycle c idle).published.slots = (s.thread.finishCycle c idle).staging.slots ∧
    (s.thread.finishCycle c idle).published.sorts = (s.thread.finishCycle c idle).staging.sorts) ∨
    (s.thread.finishCycle c idle).published = s.thread.published
  rw [finishCycle]
  split
  · exact .inr rfl
  · -- a cycle that evicts publishes what is left
    simp only
    split
    · exact .inl ⟨rfl, rfl⟩
    · exact .inr rfl

theorem effect_shutdown (hs : s.next cfg (.thread .shutdown) = some s') : s.Effect cfg s' (.thread .shutdown) := by
  obtain ⟨t, ht, rfl⟩ := map_eq_some_iff.mp hs
  obtain ⟨hidle, rfl⟩ := next_shutdown ht
  by_cases hqueue : s.thread.queue = []
  · have hflush : s.thread.shutdownFlush = { s.thread with phase := .stopped } := by
      rw [shutdownFlush, if_pos hqueue]
    refine .inl ⟨⟨?_, rfl, List.Subset.refl _,
      iff_of_true (logged_of_stopped s.thread.shutdownFlush_keeps.1) (logged_of_idle hidle)⟩, .inr ?_⟩
    · show s.resident.applyDrained s.thread.queue = _
      rw [applyDrained, if_pos hqueue]
    · show s.thread.shutdownFlush.published = _
      rw [hflush]
  · refine .inr ⟨fun h => hqueue h.2, .inl ?_⟩
    show s.thread.shutdownFlush.published.slots = s.thread.shutdownFlush.staging.slots ∧
      s.thread.shutdownFlush.published.sorts = s.thread.shutdownFlush.staging.sorts
    rw [shutdownFlush, if_neg hqueue]
    exact ⟨rfl, rfl⟩

theorem effect_next {ev : DiskEvent} (hmeets : s.Meets cfg ev) (hs : s.next cfg ev = some s') : s.Effect cfg s' ev := by
  cases ev with
  | thread ev =>
    cases ev with
    | load data => cases hs
    | begin now docs promote => exact effect_begin hmeets hs
    | settle compact idleTick workerFull lazyValueFields => exact effect_settle hmeets hs
    | command cmd => exact effect_command hmeets hs
    | finish idle => exact effect_finish hs
    | shutdown => exact effect_shutdown hs
    | worker n =>
      obtain ⟨t, ht, rfl⟩ := map_eq_some_iff.mp hs
      obtain ⟨-, rfl⟩ := next_worker ht
      exact .inl ⟨.of_same rfl rfl rfl rfl, .inr rfl⟩
    | send op | setLoading loading | setTables tables
    | store basis key sortedSlots hasMore totalMatched filters valueFn evicted =>
      cases hs
      exact .inl ⟨.of_same rfl rfl rfl rfl, .inr rfl⟩
  | readField name | readValues field values =>
    cases hs
    exact .inl ⟨.of_same rfl rfl rfl rfl, .inr rfl⟩
  | readSort name =>
    rw [next] at hs
    split at hs
    · cases hs
      exact .inl ⟨.of_same rfl rfl rfl rfl, .inr rfl⟩
    · cases hs
      exact .inl ⟨.of_same rfl rfl rfl rfl, .inr rfl⟩
  | deliver n =>
    obtain ⟨data, -, rfl⟩ := map_eq_some_iff.mp hs
    exact .inl ⟨.of_same rfl rfl rfl rfl, .inr rfl⟩

end Steps

end Persisted

/-! ## The call and its steps -/

/-- Where a call of `save_and_unload` stands. The slots and sort fields of a snapshot are its own; its filter fields
are staging's, so they are taken from there when read. -/
inductive SaveCall where
  | notRunning
  | loaded (skips : SaveSkips) (slots : SlotAllocator) (sorts : SortIndex)
  | saved (skips : SaveSkips)
  | taken (skips : SaveSkips) (slots : SlotAllocator) (sorts : SortIndex)
  | built (skipFilters : List String) (unloaded : IndexState)

/-- The engine with a save under way. -/
structure Unloading where
  base : Persisted
  call : SaveCall

/-- Steps of the engine and of the save. -/
inductive UnloadEvent where
  | engine (ev : DiskEvent)
  -- the save of one snapshot
  | loadSnapshot (skips : SaveSkips)
  | writeSnapshot
  -- the second snapshot, the index without its loaded fields, the swap
  | takeSnapshot
  | buildUnloaded
  | swap

namespace Unloading

variable (s : Unloading)

/-- A snapshot as it is read. -/
def snapshot (slots : SlotAllocator) (sorts : SortIndex) : IndexState := ⟨slots, s.base.thread.staging.filters, sorts⟩

/-- The index that is swapped in; the fields that were skipped are shared with staging. -/
def swapped (skipFilters : List String) (unloaded : IndexState) : IndexState :=
  { unloaded with filters := s.base.thread.staging.filters.graft unloaded.filters skipFilters }

/-- One step; `none` if it is not possible. -/
def next [Host] (cfg : FlushConfig) (s : Unloading) : UnloadEvent → Option Unloading
  -- the swap is a step of the call
  | .engine (.thread (.command (.syncUnloaded _))) => none
  | .engine ev => (s.base.next cfg ev).map fun base => { s with base := base }
  | .loadSnapshot skips =>
    match s.call with
    | .notRunning =>
      some { s with call := .loaded skips s.base.thread.published.slots s.base.thread.published.sorts }
    | _ => none
  | .writeSnapshot =>
    match s.call with
    | .loaded skips slots sorts =>
      some ⟨{ s.base with
              dir := s.base.dir.writeInnerToStore cfg.config skips (s.snapshot slots sorts) }, .saved skips⟩
    | _ => none
  | .takeSnapshot =>
    match s.call with
    | .saved skips =>
      some { s with call := .taken skips s.base.thread.published.slots s.base.thread.published.sorts }
    | _ => none
  | .buildUnloaded =>
    match s.call with
    | .taken skips slots sorts =>
      some { s with
              call := .built skips.skipFilters
                ((s.snapshot slots sorts).unload skips.skipFilters skips.skipSorts) }
    | _ => none
  | .swap =>
    match s.call with
    | .built skipFilters unloaded =>
      (s.base.next cfg (.thread (.command (.syncUnloaded (s.swapped skipFilters unloaded))))).map
        fun base => ⟨base, .notRunning⟩
    | _ => none

/-- What a save writes is in memory: the layers of the sort fields, and for a field not merged into its buckets the
values of every bucket it writes. -/
structure WriteMeets (cfg : FlushConfig) (dir : DataDir) (skips : SaveSkips) (snap : IndexState) : Prop where
  layers : ∀ f, f ∈ cfg.config.sortFields.map (·.name) → f ∉ skips.skipSorts → ∀ b vb,
    snap.sorts.layerAt f b = some vb → vb.isLoaded = true
  values : ∀ f, f ∉ skips.skipFilters → f ∉ skips.lazyValues → ∀ v config vb,
    snap.filters.valueAt ⟨f, v⟩ = some (config, some vb) → vb.isLoaded = true
  buckets : ∀ f ff, snap.filters.getField f = some ff → f ∉ skips.skipFilters → f ∉ skips.lazyValues →
    ∀ v, ff.getVersioned v = none →
      (∃ w ∈ ff.bitmaps, FilterBucketKey.fromValue f w = FilterBucketKey.fromValue f v) →
      dir.filters.values.ids ⟨f, v⟩ = ∅

/-- A snapshot is held that has not been used yet. -/
def holding : Bool :=
  match s.call with
  | .notRunning | .saved _ => false
  | .loaded _ _ _ | .taken _ _ _ | .built _ _ => true

/-- The condition on a step. -/
def Meets (cfg : FlushConfig) (s : Unloading) : UnloadEvent → Prop
  -- no ops are applied between a snapshot and its use
  | .engine ev => s.base.Meets cfg ev ∧ (s.holding = true → s.base.Quiet cfg ev)
  | .loadSnapshot _ => s.base.Logged
  | .writeSnapshot =>
    ∀ skips slots sorts, s.call = .loaded skips slots sorts →
      WriteMeets cfg s.base.dir skips (s.snapshot slots sorts)
  | .takeSnapshot => s.base.Logged
  | .buildUnloaded => True
  | .swap =>
    ∀ skipFilters unloaded, s.call = .built skipFilters unloaded →
      Persisted.Redundant s.base.thread.staging s.base.dir s.base.thread.queue ∧
        (s.swapped skipFilters unloaded).InsertsCovered
          ((s.swapped skipFilters unloaded).filters.fields.keys ++ s.base.parked) s.base.dir.holders
          (.groupAndSort s.base.thread.queue)

/-! ## The invariant -/

/-- The snapshot that a call holds stands for the same bitmaps as the index that never saved. -/
def CallInv : Prop :=
  match s.call with
  | .notRunning | .saved _ => True
  | .loaded _ slots sorts | .taken _ slots sorts =>
    s.base.Logged ∧ Mirrors s.base.parked s.base.dir.holders (s.snapshot slots sorts) s.base.resident
  | .built _ unloaded =>
    s.base.Logged ∧ Mirrors (unloaded.filters.fields.keys ++ s.base.parked) s.base.dir.holders unloaded
      s.base.resident

/-- What every state reached satisfies. -/
structure Inv (cfg : FlushConfig) (s : Unloading) : Prop where
  base : s.base.Inv cfg
  published : s.base.Logged → Mirrors s.base.parked s.base.dir.holders
    (s.snapshot s.base.thread.published.slots s.base.thread.published.sorts) s.base.resident
  call : s.CallInv

variable {cfg : FlushConfig} {s}

/-! ### Steps of the engine -/

/-- What a held snapshot stands for does not depend on staging but for the filter fields it shares. -/
theorem CallInv.unchanged {base' : Persisted} (h : s.CallInv)
    (hd : s.base.Logged → Durable s.base.dir.holders s.base.resident)
    (hstaging : Mirrors base'.parked base'.dir.holders base'.thread.staging base'.resident)
    (hsame : Persisted.Unchanged s.base base') : CallInv { s with base := base' } := by
  obtain ⟨base, call⟩ := s
  have hpark : base.Logged → ∀ {p st}, Mirrors p base.dir.holders st base.resident → ∀ {p'}, p ⊆ p' →
      Mirrors p' base'.dir.holders st base'.resident := by
    intro hlogged p st hm p' hp
    rw [hsame.dir, hsame.resident]
    exact hm.park (hd hlogged).fields hp
  cases call with
  | notRunning | saved skips => trivial
  | loaded skips slots sorts | taken skips slots sorts =>
    exact ⟨hsame.logged.mpr h.1, (hpark h.1 h.2 hsame.parked).mixed hstaging fun _ => .inr rfl⟩
  | built skipFilters unloaded =>
    refine ⟨hsame.logged.mpr h.1, hpark h.1 h.2 fun f hf => ?_⟩
    rcases List.mem_append.mp hf with hf | hf
    · exact List.mem_append_left _ hf
    · exact List.mem_append_right _ (hsame.parked hf)

section Steps

variable [Host] {s' : Unloading} {skips : SaveSkips}

theorem Inv.engine (h : s.Inv cfg) {ev : DiskEvent} (hmeets : s.Meets cfg (.engine ev)) {base' : Persisted}
    (hs : s.base.next cfg ev = some base') : Inv cfg { s with base := base' } := by
  have hbase := h.base.step hmeets.1 hs
  have heffect : s.base.Effect cfg base' ev := Persisted.effect_next hmeets.1 hs
  refine ⟨hbase, fun hlogged => ?_, ?_⟩
  · -- the snapshot is staging, or it is the old one
    have hstaging : base'.PublishesStaging → Mirrors base'.parked base'.dir.holders
        ⟨base'.thread.published.slots, base'.thread.staging.filters, base'.thread.published.sorts⟩
        base'.resident := by
      intro hpub
      rw [hpub.1, hpub.2]
      exact hbase.mirrors
    rcases heffect with ⟨hsame, hpub | hpub⟩ | ⟨-, hpub | hnot⟩
    · exact hstaging hpub
    · have hold := hsame.logged.mp hlogged
      have hkept := (h.published hold).park (h.base.durable_of_logged hold).fields hsame.parked
      rw [← hsame.dir, ← hsame.resident, ← hpub] at hkept
      exact hkept.mixed hbase.mirrors fun _ => .inr rfl
    · exact hstaging hpub
    · exact absurd hlogged hnot
  · rcases heffect with ⟨hsame, -⟩ | ⟨hnot, -⟩
    · exact h.call.unchanged h.base.durable_of_logged hbase.mirrors hsame
    · -- a step that applies ops is taken only while no snapshot is held
      obtain ⟨base, call⟩ := s
      cases call with
      | notRunning | saved skips => trivial
      | loaded skips slots sorts | taken skips slots sorts | built skipFilters unloaded =>
        exact absurd ⟨h.call.1, hmeets.2 rfl⟩ hnot

/-! ### Steps of the call -/

omit [Host] in
/-- **The save changes nothing on disk** if the snapshot is current and what it writes is in memory. -/
theorem durable_write {dir : DataDir} {snap resident : IndexState} {parked : List String}
    (hbits : ∀ f, cfg.sortBits f ≤ 255) (hstores : ∀ t, resident.Has t → DataDir.Stores cfg.sortBits t)
    (hm : Mirrors parked dir.holders snap resident) (hd : Durable dir.holders resident)
    (hmeets : WriteMeets cfg dir skips snap) :
    Durable (dir.writeInnerToStore cfg.config skips snap).holders resident := by
  intro t ht
  rw [← hd t ht]
  have hsnap := (hm.has t).mpr ht
  have hstands := (hm.standsFor t hsnap).trans (hd t ht).symm
  cases t with
  | filter f v =>
    obtain ⟨ff, hff⟩ := isSome_iff_exists.mp hsnap
    have hids : (dir.writeInnerToStore cfg.config skips snap).holders (.filter f v) = _ :=
      ids_saveFields hff
    have hat := valueAt_of_getField hff v
    rw [standsFor_filter hat] at hstands
    rw [hids]
    split
    · rfl
    · rename_i hskip
      split
      · -- merged by `or`: memory has no bit that the disk lacks
        refine Finset.union_eq_left.mpr ?_
        cases hvb : ff.getVersioned v with
        | none =>
          rw [bits_of_none hvb]
          exact Finset.empty_subset _
        | some vb =>
          rw [hvb] at hstands
          rw [bits_of_some hvb]
          exact fused_subset_content.trans (Finset.subset_of_eq hstands)
      · rename_i hlazy
        split
        · rename_i hbucket
          cases hvb : ff.getVersioned v with
          | none =>
            rw [bits_of_none hvb]
            exact (hmeets.buckets f ff hff hskip hlazy v hvb hbucket).symm
          | some vb =>
            rw [hvb] at hat hstands
            have hloaded := hmeets.values f hskip hlazy v ff.config vb hat
            rw [bits_of_some hvb, ← content_of_loaded hloaded]
            exact hstands
        · rfl
  | sort f b =>
    obtain ⟨vb, hvb⟩ := has_sort_iff.mp hsnap
    obtain ⟨sf, hsf, hlayer⟩ := bind_eq_some_iff.mp hvb
    have hb : b < sf.numBits := (List.getElem?_eq_some_iff.mp hlayer).1
    have hwidth : sf.numBits ≤ cfg.sortBits f := by
      by_contra hlt
      have hhas : snap.Has (.sort f (cfg.sortBits f)) := by
        show _ < snap.sorts.numBits f
        rw [SortIndex.numBits, hsf]
        exact Nat.lt_of_not_le hlt
      exact Nat.lt_irrefl _ (hstores _ ((hm.has _).mp hhas)).2
    have hsaved : (dir.writeInnerToStore cfg.config skips snap).holders (.sort f b) = _ :=
      SortBitmapStore.layer_saveSorts hsf (hwidth.trans (hbits f)) hb _ _
    rw [hsaved]
    split
    · rename_i hwritten
      have hloaded := hmeets.layers f hwritten.1 hwritten.2 b vb hvb
      rw [standsFor_sort hvb, content_of_loaded hloaded] at hstands
      rw [layer, hlayer]
      exact hstands
    · rfl
  | alive => exact hstands

omit [Host] in
/-- A snapshot that the call holds. -/
theorem Inv.held (h : s.Inv cfg) {slots : SlotAllocator} {sorts : SortIndex}
    (hcall : s.call = .loaded skips slots sorts ∨ s.call = .taken skips slots sorts) :
    s.base.Logged ∧ Mirrors s.base.parked s.base.dir.holders (s.snapshot slots sorts) s.base.resident := by
  have hinv := h.call
  rcases hcall with hcall | hcall
  · rwa [CallInv, hcall] at hinv
  · rwa [CallInv, hcall] at hinv

theorem Inv.write (h : s.Inv cfg) (hbits : ∀ f, cfg.sortBits f ≤ 255) (hmeets : s.Meets cfg .writeSnapshot)
    (hs : s.next cfg .writeSnapshot = some s') : s'.Inv cfg := by
  rw [next] at hs
  split at hs
  · rename_i skips slots sorts hcall
    cases hs
    obtain ⟨hlogged, hheld⟩ := h.held (.inl hcall)
    have hd := durable_write hbits h.base.stores hheld (h.base.durable_of_logged hlogged)
      (hmeets skips slots sorts hcall)
    exact ⟨.of_logged hlogged (h.base.mirrors.redisk hd) hd h.base.stores,
      fun hlogged => (h.published hlogged).redisk hd, trivial⟩
  · cases hs

theorem Inv.loadSnapshot (h : s.Inv cfg) (hmeets : s.Meets cfg (.loadSnapshot skips))
    (hs : s.next cfg (.loadSnapshot skips) = some s') : s'.Inv cfg := by
  rw [next] at hs
  split at hs
  · cases hs
    exact ⟨h.base, h.published, hmeets, h.published hmeets⟩
  · cases hs

theorem Inv.takeSnapshot (h : s.Inv cfg) (hmeets : s.Meets cfg .takeSnapshot)
    (hs : s.next cfg .takeSnapshot = some s') : s'.Inv cfg := by
  rw [next] at hs
  split at hs
  · cases hs
    exact ⟨h.base, h.published, hmeets, h.published hmeets⟩
  · cases hs

theorem Inv.buildUnloaded (h : s.Inv cfg) (hs : s.next cfg .buildUnloaded = some s') : s'.Inv cfg := by
  rw [next] at hs
  split at hs
  · rename_i skips slots sorts hcall
    cases hs
    obtain ⟨hlogged, hheld⟩ := h.held (.inr hcall)
    have hd := (h.base.durable_of_logged hlogged).fields
    refine ⟨h.base, h.published, hlogged, Mirrors.unload (hheld.park hd (List.subset_append_right _ _)) hd ?_⟩
    intro f hf _
    refine List.mem_append_left _ (mem_keys.mp (lookup_isSome.mp ?_))
    show (lookup f (filterMap _ _)).isSome = true
    rw [lookup_filterMap]
    obtain ⟨ff, hff⟩ := isSome_iff_exists.mp hf
    rw [show lookup f (s.snapshot slots sorts).filters.fields = some ff from hff]
    rfl
  · cases hs

theorem Inv.swap (h : s.Inv cfg) (hmeets : s.Meets cfg .swap) (hs : s.next cfg .swap = some s') : s'.Inv cfg := by
  rw [next] at hs
  split at hs
  · rename_i skipFilters unloaded hcall
    obtain ⟨base', hbase', rfl⟩ := map_eq_some_iff.mp hs
    have hheld : s.base.Logged ∧ Mirrors (unloaded.filters.fields.keys ++ s.base.parked) s.base.dir.holders
        unloaded s.base.resident := by
      have hinv := h.call
      rwa [CallInv, hcall] at hinv
    have hd := h.base.durable_of_logged hheld.1
    have hparked : unloaded.filters.fields.keys ++ s.base.parked ⊆
        (s.swapped skipFilters unloaded).filters.fields.keys ++ s.base.parked := by
      intro f hf
      rcases List.mem_append.mp hf with hf | hf
      · have hhas : unloaded.Has (.filter f 0) := lookup_isSome.mpr (mem_keys.mpr hf)
        have hstaging : (s.base.thread.staging.filters.getField f).isSome = true :=
          (h.base.mirrors.has (.filter f 0)).mpr ((hheld.2.has (.filter f 0)).mp hhas)
        refine List.mem_append_left _ (mem_keys.mp (lookup_isSome.mp ?_))
        show ((s.swapped skipFilters unloaded).filters.getField f).isSome = true
        rw [swapped, getField_graft, isSome_map, hstaging]
      · exact List.mem_append_right _ hf
    have hswapped : Mirrors ((s.swapped skipFilters unloaded).filters.fields.keys ++ s.base.parked)
        s.base.dir.holders (s.swapped skipFilters unloaded) s.base.resident :=
      (hheld.2.park hd.fields hparked).graft
        (h.base.mirrors.park hd.fields (List.subset_append_right _ _)) skipFilters
    obtain ⟨hred, hcovered⟩ := hmeets skipFilters unloaded hcall
    have hsync : s.base.Meets cfg (.thread (.command (.syncUnloaded (s.swapped skipFilters unloaded)))) := by
      refine ⟨fun t => (hswapped.has t).trans (h.base.mirrors.has t).symm, fun t ht => ?_, hred, hcovered⟩
      rw [hswapped.standsFor t ht, hd t ((hswapped.has t).mp ht)]
    have hbase := h.base.command hsync hbase'
    refine ⟨hbase, fun _ => ?_, trivial⟩
    obtain ⟨t, ht, rfl⟩ := map_eq_some_iff.mp hbase'
    obtain ⟨c, -, rfl⟩ := next_command ht
    exact hbase.mirrors
  · cases hs

theorem Inv.step (h : s.Inv cfg) (hbits : ∀ f, cfg.sortBits f ≤ 255) {ev : UnloadEvent}
    (hmeets : s.Meets cfg ev) (hs : s.next cfg ev = some s') : s'.Inv cfg := by
  cases ev with
  | engine ev =>
    have hbase : ∃ base', s.base.next cfg ev = some base' ∧ { s with base := base' } = s' := by
      rw [next.eq_def] at hs
      split at hs
      · cases hs
      · rename_i _ heq
        cases heq
        exact map_eq_some_iff.mp hs
      all_goals cases ‹UnloadEvent.engine _ = _›
    obtain ⟨base', hbase', rfl⟩ := hbase
    exact h.engine hmeets hbase'
  | loadSnapshot skips => exact h.loadSnapshot hmeets hs
  | writeSnapshot => exact h.write hbits hmeets hs
  | takeSnapshot => exact h.takeSnapshot hmeets hs
  | buildUnloaded => exact h.buildUnloaded hs
  | swap => exact h.swap hmeets hs

end Steps

end Unloading

/-! ## Reloading -/

namespace IndexState

variable {st : IndexState} {parked : List String} {disk : Target → Bitmap} {f : String} {v : UInt64} {ff : FilterField}

/-- A value that is loaded, or neither in memory nor on disk, stands for its own bits. -/
theorem standsFor_eq_bits (hff : st.filters.getField f = some ff)
    (hloaded : ∀ vb, ff.getVersioned v = some vb → vb.isLoaded = true)
    (hdisk : ff.getVersioned v = none → disk (.filter f v) = ∅) :
    st.standsFor parked disk (.filter f v) = st.filters.bits f v := by
  rw [standsFor_filter (valueAt_of_getField hff v), bits_of_getField hff]
  cases hvb : ff.getVersioned v with
  | none =>
    rw [bits_of_none hvb, overValue, hdisk hvb]
    split <;> rfl
  | some vb =>
    rw [bits_of_some hvb, overValue, content_of_loaded (hloaded vb hvb)]

/-- So after a load it has the bits of the index that was never unloaded. -/
theorem bits_of_loaded {resident : IndexState} {load : FilterField → FilterField}
    (hm : Mirrors parked disk { st with filters := st.filters.update f load } resident)
    (hhas : resident.Has (.filter f v)) (hloaded : ∀ ff vb, (load ff).getVersioned v = some vb → vb.isLoaded = true)
    (hdisk : ∀ ff, (load ff).getVersioned v = none → disk (.filter f v) = ∅) :
    (st.filters.update f load).bits f v = resident.filters.bits f v := by
  have hafter := (hm.has _).mpr hhas
  obtain ⟨ff', hff'⟩ := isSome_iff_exists.mp hafter
  have hff := hff'
  rw [getField_update, if_pos rfl] at hff
  obtain ⟨ff, -, rfl⟩ := map_eq_some_iff.mp hff
  exact (standsFor_eq_bits hff' (hloaded ff) (hdisk ff)).symm.trans (hm.standsFor (.filter f v) hafter)

theorem standsFor_eq_layer {b : Nat} {vb : VersionedBitmap} (hvb : st.sorts.layerAt f b = some vb)
    (hloaded : vb.isLoaded = true ∨ disk (.sort f b) = ∅) :
    st.standsFor parked disk (.sort f b) = st.sorts.layer f b := by
  obtain ⟨sf, hsf, hlayer⟩ := bind_eq_some_iff.mp hvb
  have hfused : st.sorts.layer f b = vb.fused := by simp [SortIndex.layer, hsf, layer, hlayer]
  rw [standsFor_sort hvb, hfused]
  rcases hloaded with hloaded | hdisk
  · exact content_of_loaded hloaded _
  · rw [hdisk, content_empty]

end IndexState

namespace Persisted

variable (cfg : FlushConfig) (s : Persisted)

/-- A filter field is read and loaded, or single values of it. -/
def reloadField (f : String) : IndexState := s.thread.staging.applyLoad (.filterField f (s.dir.filters.loadField f))

def reloadValues (f : String) (values : List UInt64) : IndexState :=
  s.thread.staging.applyLoad (.filterValues f (s.dir.filters.loadFieldValues f values) values)

/-- A sort field is read and loaded, if it has a shard. -/
def reloadSort (f : String) : IndexState :=
  match s.dir.sorts.loadSortLayers f (cfg.sortBits f) with
  | some layers => s.thread.staging.applyLoad (.sortField f layers)
  | none => s.thread.staging

/-- Once reloaded, every bitmap is that of the engine that never saved or unloaded. -/
structure Kept : Prop where
  alive : s.thread.staging.slots.alive.fused = s.resident.slots.alive.fused
  fields : ∀ f v, s.resident.Has (.filter f v) → (s.reloadField f).filters.bits f v = s.resident.filters.bits f v
  values : ∀ f v values, s.resident.Has (.filter f v) → v ∈ values →
    (s.reloadValues f values).filters.bits f v = s.resident.filters.bits f v
  layers : ∀ f b, s.resident.Has (.sort f b) → (s.reloadSort cfg f).sorts.layer f b = s.resident.sorts.layer f b

variable {cfg s}

section Reload

variable (hm : Mirrors s.parked s.dir.holders s.thread.staging s.resident)
  (hd : Durable s.dir.holders s.resident) {f : String}
include hm hd

theorem bits_reloadField {v : UInt64} (hhas : s.resident.Has (.filter f v)) :
    (s.reloadField f).filters.bits f v = s.resident.filters.bits f v := by
  have hloaded : Mirrors s.parked s.dir.holders (s.reloadField f) s.resident := by
    refine hm.applyLoad hd.fields fun v config vb? _ => ?_
    rw [lookup_loadField]
    exact freshFor_self
  refine bits_of_loaded hloaded hhas ?_ ?_
  · intro ff vb hvb
    rw [getVersioned_loadFieldComplete] at hvb
    split at hvb
    · cases hvb
      rfl
    · cases hvb
  · intro ff hnone
    rw [getVersioned_loadFieldComplete] at hnone
    split at hnone
    · cases hnone
    · rename_i habsent
      rw [not_or, lookup_loadField] at habsent
      show (s.dir.filters.values.lookup ⟨f, v⟩).getD ∅ = ∅
      rw [not_isSome_iff_eq_none.mp habsent.2]
      rfl

theorem bits_reloadValues {v : UInt64} {values : List UInt64} (hhas : s.resident.Has (.filter f v))
    (hv : v ∈ values) : (s.reloadValues f values).filters.bits f v = s.resident.filters.bits f v := by
  have hloaded : Mirrors s.parked s.dir.holders (s.reloadValues f values) s.resident := by
    refine hm.applyLoad hd.fields fun v hv config vb? _ => ?_
    rw [lookup_loadFieldValues _ hv]
    exact freshFor_self
  refine bits_of_loaded hloaded hhas ?_ ?_
  · intro ff vb hvb
    rw [getVersioned_loadValues, if_pos hv] at hvb
    cases hvb
    rfl
  · intro ff hnone
    rw [getVersioned_loadValues, if_pos hv] at hnone
    cases hnone

theorem layer_reloadSort {b : Nat} (hhas : s.resident.Has (.sort f b)) (hb : b < cfg.sortBits f) :
    (s.reloadSort cfg f).sorts.layer f b = s.resident.sorts.layer f b := by
  obtain ⟨vb, hvb⟩ := has_sort_iff.mp ((hm.has _).mpr hhas)
  rw [reloadSort]
  cases hload : s.dir.sorts.loadSortLayers f (cfg.sortBits f) with
  | none =>
    have hbits : _ = s.resident.sorts.layer f b := hm.standsFor (.sort f b) ((hm.has _).mpr hhas)
    rw [← hbits]
    exact (standsFor_eq_layer hvb (.inr (s.dir.sorts.layer_eq_empty hload hb))).symm
  | some layers =>
    have hlayers := s.dir.sorts.getElem?_loadSortLayers hload
    have hloaded : Mirrors s.parked s.dir.holders (s.thread.staging.applyLoad (.sortField f layers))
        s.resident := by
      refine hm.applyLoad hd.fields fun b' vb' data _ hdata => ?_
      rw [hlayers, ite_none_right_eq_some, some.injEq] at hdata
      rw [← hdata.2]
      exact freshFor_self
    have hbits : _ = s.resident.sorts.layer f b := hloaded.standsFor (.sort f b) ((hloaded.has _).mpr hhas)
    have hafter : (s.thread.staging.applyLoad (.sortField f layers)).sorts.layerAt f b = _ :=
      SortIndex.layerAt_loadLayers
    rw [if_pos rfl, hvb, hlayers b, if_pos hb] at hafter
    rw [← hbits]
    exact (standsFor_eq_layer hafter
      (.inl isLoaded_replaceBasePreserveDiff)).symm

end Reload

theorem Inv.kept (h : s.Inv cfg) (hlogged : s.Logged) : s.Kept cfg := by
  have hd := h.durable_of_logged hlogged
  exact ⟨h.mirrors.standsFor .alive trivial, fun f v hhas => bits_reloadField h.mirrors hd hhas,
    fun f v values hhas hv => bits_reloadValues h.mirrors hd hhas hv,
    fun f b hhas => layer_reloadSort h.mirrors hd hhas (h.stores _ hhas).2⟩

end Persisted

/-! ## Runs -/

namespace Unloading

variable {cfg : FlushConfig} {s s₀ : Unloading}

/-- The start of a run: no call, and the published snapshot is the staging index. -/
structure Starts (cfg : FlushConfig) (s : Unloading) : Prop where
  base : s.base.Starts cfg
  published : s.base.PublishesStaging
  call : s.call = .notRunning

theorem Starts.inv (h : s.Starts cfg) : s.Inv cfg := by
  refine ⟨h.base.inv, fun _ => ?_, ?_⟩
  · rw [h.published.1, h.published.2]
    exact h.base.mirrors
  · rw [CallInv, h.call]
    trivial

/-- **Saving and unloading loses nothing** in a run whose steps meet the condition. -/
theorem kept_of_reaches [Host] (hbits : ∀ f, cfg.sortBits f ≤ 255) (h₀ : s₀.Starts cfg) {events : List UnloadEvent}
    (h : Reaches (fun s ev s' => Unloading.next cfg s ev = some s') (Unloading.Meets cfg) s₀ events s)
    (hlogged : s.base.Logged) : s.base.Kept cfg := by
  have hinv : s.Inv cfg :=
    h.invariant (fun _ s => s.Inv cfg) h₀.inv fun _ _ _ _ hinv hmeets hs => hinv.step hbits hmeets hs
  exact hinv.base.kept hlogged

/-! ## The condition can be evaluated -/

theorem isLoaded_of_valueAt {fi : FilterIndex} {f : String} {v : UInt64} {config : FilterFieldConfig}
    {vb : VersionedBitmap}
    (hall : ∀ ff, fi.getField f = some ff → ∀ v vb, ff.bitmaps.lookup v = some vb → vb.isLoaded = true)
    (hvb : fi.valueAt ⟨f, v⟩ = some (config, some vb)) : vb.isLoaded = true := by
  obtain ⟨ff, hff, hpair⟩ := map_eq_some_iff.mp hvb
  exact hall ff hff v vb (Prod.mk.inj hpair).2

set_option synthInstance.maxSize 512 in
instance decidableWriteMeets (dir : DataDir) (skips : SaveSkips) (snap : IndexState) :
    Decidable (WriteMeets cfg dir skips snap) :=
  decidable_of_iff ((∀ f ∈ cfg.config.sortFields.map SortFieldConfig.name, f ∉ skips.skipSorts → ∀ sf,
        snap.sorts.getField f = some sf → sf.isFullyLoaded = true) ∧
      ∀ f ff, snap.filters.fields.lookup f = some ff → f ∉ skips.skipFilters → f ∉ skips.lazyValues →
        (∀ v vb, ff.bitmaps.lookup v = some vb → vb.isLoaded = true) ∧
        ∀ g ∈ dir.filters.values.keys, g.field = f → ff.getVersioned g.value = none →
          (∃ w ∈ ff.bitmaps.keys, FilterBucketKey.fromValue f w = FilterBucketKey.fromValue f g.value) →
          dir.filters.values.ids g = ∅) (by
    constructor
    · rintro ⟨hsorts, hfilters⟩
      refine ⟨fun f hf hskip b vb hvb => ?_, fun f hskip hlazy v config vb =>
        isLoaded_of_valueAt fun ff hff => (hfilters f ff hff hskip hlazy).1, fun f ff hff hskip hlazy v hnone hw => ?_⟩
      · obtain ⟨sf, hsf, hlayer⟩ := bind_eq_some_iff.mp hvb
        exact List.all_eq_true.mp (hsorts f hf hskip sf hsf) vb (List.mem_of_getElem? hlayer)
      · by_contra hne
        obtain ⟨x, hx⟩ := Finset.nonempty_iff_ne_empty.mpr hne
        exact hne ((hfilters f ff hff hskip hlazy).2 ⟨f, v⟩ (Postings.mem_of_mem_ids hx) rfl hnone hw)
    · intro h
      refine ⟨fun f hf hskip sf hsf => List.all_eq_true.mpr fun vb hvb => ?_, fun f ff hff hskip hlazy =>
        ⟨fun v vb hvb => h.values f hskip hlazy v ff.config vb ?_, fun g _ hg hnone hw => ?_⟩⟩
      · obtain ⟨b, hb⟩ := List.getElem?_of_mem hvb
        exact h.layers f hf hskip b vb (by rw [SortIndex.layerAt, hsf, bind_some, hb])
      · rw [valueAt_of_getField hff, FilterField.getVersioned, hvb]
      · subst hg
        exact h.buckets g.field ff hff hskip hlazy g.value hnone hw)

instance decidableQuiet (s : Persisted) : (ev : DiskEvent) → Decidable (s.Quiet cfg ev)
  | .thread (.begin _ _ _) | .thread (.command .forcePublish) | .thread .shutdown => inferInstanceAs (Decidable (_ = []))
  | .thread (.command (.syncUnloaded _)) => isFalse id
  | .thread (.send _) | .thread (.load _) | .thread (.setLoading _) | .thread (.setTables _)
  | .thread (.store _ _ _ _ _ _ _ _) | .thread (.worker _) | .thread (.settle _ _ _ _)
  | .thread (.command (.exitLoadingSaveUnload _ _ _)) | .thread (.finish _) | .readField _ | .readValues _ _
  | .readSort _ | .deliver _ => isTrue trivial

instance decidableLogged (s : Persisted) : Decidable s.Logged :=
  inferInstanceAs (Decidable (∀ c, s.thread.phase = .applied c → c.ops = []))

noncomputable instance decidableMeets : (ev : UnloadEvent) → Decidable (s.Meets cfg ev)
  | .engine ev => inferInstanceAs (Decidable (s.base.Meets cfg ev ∧ (_ = true → s.base.Quiet cfg ev)))
  | .loadSnapshot _ | .takeSnapshot => inferInstanceAs (Decidable s.base.Logged)
  | .writeSnapshot =>
    match hcall : s.call with
    | .loaded skips slots sorts => decidable_of_iff (WriteMeets cfg s.base.dir skips (s.snapshot slots sorts))
      ⟨fun h _ _ _ hs => by rw [hcall] at hs; cases hs; exact h, fun h => h skips slots sorts hcall⟩
    | .notRunning | .saved _ | .taken _ _ _ | .built _ _ => isTrue fun _ _ _ hs => by rw [hcall] at hs; cases hs
  | .buildUnloaded => isTrue trivial
  | .swap =>
    -- of a swap that drains something the condition is asked for every bit
    if hqueue : s.base.thread.queue = [] then isTrue fun _ _ _ => by
      rw [hqueue]
      exact ⟨fun t _ x bit hsettle => (nomatch hsettle), fun g hg => (nomatch hg)⟩
    else Classical.dec _

/-! ## Runs of an engine with two documents -/

section Samples

attribute [local instance] Host.ascii

open Persisted (alwaysLoaded)

/-- The engine right after a save, and no call. -/
def unsaved : Unloading := ⟨alwaysLoaded, .notRunning⟩

def engineSteps (events : List ThreadEvent) : List UnloadEvent := events.map fun ev => .engine (.thread ev)

def saveAll : UnloadEvent := .loadSnapshot ⟨[], [], []⟩

/-- Slot 3 is inserted by a regular cycle between the second snapshot and the swap. -/
def lateInsertRun : List UnloadEvent :=
  [saveAll, .writeSnapshot, .takeSnapshot, .buildUnloaded] ++
    engineSteps (sendThird ++ [beginQuiet, settleQuiet]) ++ [.swap] ++ engineSteps [.finish []]

/-- The slot is alive for an engine that never saved, and here it is not. -/
theorem swap_loses_insert :
    ∃ s, Reaches (fun s ev s' => next inlineConfig s ev = some s') (fun _ _ => True) unsaved lateInsertRun s ∧
      s.base.thread.phase = .idle ∧ s.base.thread.staging.slots.alive.fused = {1, 2} ∧
      s.base.resident.slots.alive.fused = {1, 2, 3} :=
  Computed.of_true.exists_end (by decide +kernel)

/-- The index is loaded whole, so over a disk that has it it stands for itself. -/
theorem mirrors_alwaysLoaded : Mirrors [] alwaysLoaded.dir.holders twoMatchesState twoMatchesState := by
  refine ⟨fun _ => Iff.rfl, fun t ht => ?_⟩
  cases t with
  | filter f v =>
    obtain ⟨ff, hff⟩ := isSome_iff_exists.mp ht
    have hdisk := Persisted.durable_savedMatches _ ht
    have hbits : twoMatchesState.holders (.filter f v) = ff.bits v := bits_of_getField hff v
    refine standsFor_eq_bits hff (fun vb hvb => ?_) fun hnone => ?_
    · have hat := valueAt_of_getField hff v
      rw [hvb] at hat
      have hall : ∀ f ff, twoMatchesState.filters.fields.lookup f = some ff →
          ∀ v vb, ff.bitmaps.lookup v = some vb → vb.isLoaded = true := by decide +kernel
      exact isLoaded_of_valueAt (hall f) hat
    · exact hdisk.trans (hbits.trans (bits_of_none hnone))
  | sort f b =>
    obtain ⟨vb, hvb⟩ := has_sort_iff.mp ht
    obtain ⟨sf, hsf, hlayer⟩ := bind_eq_some_iff.mp hvb
    refine standsFor_eq_layer hvb (.inl ?_)
    obtain ⟨rfl, -⟩ := Persisted.sorts_twoMatchesState hsf
    have hloaded : (twoMatchesState.sorts.getField "v").all isFullyLoaded = true := by
      decide +kernel
    rw [hsf] at hloaded
    exact List.all_eq_true.mp hloaded vb (List.mem_of_getElem? hlayer)
  | alive => rfl

theorem starts_unsaved : unsaved.Starts inlineConfig :=
  ⟨⟨rfl, mirrors_alwaysLoaded, Persisted.durable_savedMatches, Persisted.stores_twoMatchesState⟩, ⟨rfl, rfl⟩, rfl⟩

/-- The same insert by a regular cycle before the call. -/
def insertRun : List UnloadEvent :=
  engineSteps sendThird ++ [.engine (.thread beginQuiet)] ++ [.engine (.thread settleQuiet)] ++
    [.engine (.thread (.finish []))]

/-- The save writes it. -/
def builtRun : List UnloadEvent := insertRun ++ [saveAll] ++ [.writeSnapshot] ++ [.takeSnapshot] ++ [.buildUnloaded]

/-- The swap finds nothing to drain. -/
def quietRun : List UnloadEvent :=
  builtRun ++ [.engine (.thread beginQuiet)] ++ [.engine (.thread settleQuiet)] ++ [.swap] ++
    [.engine (.thread (.finish []))]

theorem sortBits_inlineConfig (f : String) : inlineConfig.sortBits f ≤ 255 := by
  by_cases hf : "v" = f
  · subst hf
    decide
  · have hdefault : inlineConfig.sortBits f = 32 := by simp [FlushConfig.sortBits, inlineConfig, hf]
    rw [hdefault]
    decide

/-- The value is unloaded but for the pending change of slot 3, and reloading gives all three slots. -/
theorem kept_quietRun :
    ∃ s, Reaches (fun s ev s' => next inlineConfig s ev = some s') (Meets inlineConfig) unsaved quietRun s ∧
      s.base.thread.staging.filters.bits "a" 1 = {3} ∧ s.base.resident.filters.bits "a" 1 = {1, 2, 3} ∧
      s.base.Kept inlineConfig := by
  have hrun : Computed (next inlineConfig) (Meets inlineConfig) unsaved quietRun :=
    .of_along (by decide +kernel)
  obtain ⟨s, hs, hphase, hstaging, hresident⟩ : ∃ s, _ ∧ s.base.thread.phase = .idle ∧
      s.base.thread.staging.filters.bits "a" 1 = {3} ∧ s.base.resident.filters.bits "a" 1 = {1, 2, 3} :=
    hrun.exists_end (by decide +kernel)
  exact ⟨s, hs, hstaging, hresident,
    kept_of_reaches sortBits_inlineConfig starts_unsaved hs (Persisted.logged_of_idle hphase)⟩

end Samples

end Unloading

end Bitdex
