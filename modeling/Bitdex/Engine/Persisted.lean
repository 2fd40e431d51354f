import Bitdex.Engine.Mirror
import Bitdex.Engine.Save
import Bitdex.Engine.Bypass

/-!
# `Engine.Persisted` — the flush thread over its data directory

A regular cycle appends its batch to the ops log after it has applied it (`concurrent_engine.rs`). `ForcePublish`,
`SyncUnloaded` and the shutdown flush append nothing. Queries read values and layers from the directory at any time
(`ensure_fields_loaded`), which are applied some cycles later, once or more than once.

The state carries, beside the thread and the directory, the index `resident`, which takes every batch that staging
takes and is never unloaded, evicted from or loaded into. By the invariant what is loaded back from the directory is
staging (`reload_eq_staging`), and what is marked loaded has `resident`'s content (`loaded_eq_resident`).
-/

namespace Bitdex

open IndexState FlushThread WriteBatch VersionedBitmap SortIndex AList FilterBitmapStore Option

/-! ## Activation -/

namespace FlushThread

variable (s : FlushThread)

/-- The slots that a cycle activates. -/
def activated (now : UInt64) : List UInt32 :=
  if s.loading = false ∧ 0 < s.staging.slots.deferredCount then (s.staging.slots.activateDue now).2 else []

theorem alive_activate (cfg : FlushConfig) (now : UInt64) (docs : UInt32 → Option Document) :
    (s.activate cfg now docs).1.alive = s.staging.slots.alive.insertBulk (s.activated now) := by
  have hmissed : ∀ (missed : List UInt32) (sa : SlotAllocator), (missed.foldl (fun sa slot =>
      sa.scheduleAlive slot (now + cfg.retrySecs)) sa).alive = sa.alive := by
    intro missed
    induction missed with
    | nil => intro sa; rfl
    | cons slot missed ih =>
      intro sa
      rw [List.foldl_cons, ih]
      rfl
  rw [activate, activated]
  split
  · exact hmissed _ _
  · rfl

end FlushThread

namespace IndexState

/-- Activated slots are alive before the batch of their cycle is applied. -/
def activate (st : IndexState) (slots : List UInt32) : IndexState :=
  { st with slots := { st.slots with alive := st.slots.alive.insertBulk slots } }

/-- A drain without ops applies nothing. -/
def applyDrained (st : IndexState) (ops : List MutationOp) : IndexState := if ops = [] then st else st.applyOps ops

theorem has_activate {st : IndexState} {slots : List UInt32} {t : Target} : (st.activate slots).Has t ↔ st.Has t := by
  cases t <;> exact Iff.rfl

theorem has_applyDrained {st : IndexState} {ops : List MutationOp} {t : Target} :
    (st.applyDrained ops).Has t ↔ st.Has t := by
  rw [applyDrained]
  split
  · exact Iff.rfl
  · exact has_applyOps

end IndexState

/-! ## A saved index -/

/-- **A save is durable** if it is exact and fields are restored from it. -/
theorem durable_writeInnerToStore {dir : DataDir} {cfg : Config} {skips : SaveSkips} {snap : IndexState}
    (hwidth : ∀ f sf, snap.sorts.getField f = some sf → sf.numBits ≤ 255) (hcounter : snap.slots.nextSlot ≠ 0)
    (h : dir.SaveMeets cfg skips snap) : Durable (dir.writeInnerToStore cfg skips snap).holders snap := by
  intro t ht
  cases t with
  | filter f v =>
    obtain ⟨ff, hff⟩ := isSome_iff_exists.mp ht
    rw [show snap.holders (.filter f v) = ff.bits v from FilterIndex.bits_of_getField hff v]
    exact (DataDir.ids_saved_iff hff v).mpr (h.filters hcounter f ff hff v)
  | sort f b =>
    have hb : b < snap.sorts.numBits f := ht
    cases hsf : snap.sorts.getField f with
    | none => simp [numBits, hsf] at hb
    | some sf =>
      have hb : b < sf.numBits := by simpa [numBits, hsf] using hb
      have hlayer : snap.holders (.sort f b) = sf.layer b := by
        simp [holders, layer, hsf]
      rw [hlayer]
      exact (DataDir.layer_saved_iff hsf (hwidth f sf hsf) hb).mpr fun hkept =>
        h.sorts hcounter f sf hsf hkept b hb
  | alive => rfl

/-! ## The state and its steps -/

/-- The width of a sort field, as the log takes it from the config. -/
def FlushConfig.sortBits (cfg : FlushConfig) (name : String) : Nat :=
  ((cfg.config.sortFields.find? fun sc => decide (sc.name = name)).map (·.bits)).getD 32

/-- The thread with its directory. -/
structure Persisted where
  thread : FlushThread
  dir : DataDir
  /-- The index that is never unloaded. -/
  resident : IndexState
  /-- The fields some of whose values may be on disk only. -/
  parked : List String
  /-- What queries have read from the directory. -/
  reads : List LazyLoad

/-- Steps of the thread and of loading queries. -/
inductive DiskEvent where
  | thread (ev : ThreadEvent)
  -- queries
  | readField (name : String)
  | readValues (field : String) (values : List UInt64)
  | readSort (name : String)
  /-- The `n`th read is sent to the flush thread. -/
  | deliver (n : Nat)

namespace Persisted

variable (cfg : FlushConfig) (s : Persisted)

def dirAfter : ThreadEvent → DataDir
  | .settle _ _ _ _ =>
    match s.thread.phase with
    | .applied c =>
      if s.thread.flushes c then s.dir.logBatch cfg.sortBits (.groupAndSort c.ops) else s.dir
    | _ => s.dir
  | _ => s.dir

def residentAfter : ThreadEvent → IndexState
  | .begin now docs _ =>
    (s.resident.activate (s.thread.activated now)).applyDrained (s.thread.cycleOps cfg now docs)
  | .command .forcePublish => s.resident.applyDrained s.thread.queue
  | .command (.syncUnloaded _) => s.resident.applyDrained s.thread.queue
  | .shutdown => s.resident.applyDrained s.thread.queue
  | _ => s.resident

def parkedAfter : ThreadEvent → List String
  | .finish idle => (s.thread.staging.evictable idle).map (·.1) ++ s.parked
  | .command (.syncUnloaded unloaded) => unloaded.filters.fields.keys ++ s.parked
  | _ => s.parked

/-- One step; `none` if it is not possible. -/
def next [Host] (cfg : FlushConfig) (s : Persisted) : DiskEvent → Option Persisted
  -- what is loaded has been read
  | .thread (.load _) => none
  | .thread ev =>
    (s.thread.next cfg ev).map fun t =>
      { s with
        thread := t
        dir := s.dirAfter cfg ev
        resident := s.residentAfter cfg ev
        parked := s.parkedAfter ev }
  | .readField name =>
    some { s with reads := s.reads ++ [.filterField name (s.dir.filters.loadField name)] }
  | .readValues field values =>
    some { s with
            reads := s.reads ++ [.filterValues field (s.dir.filters.loadFieldValues field values) values] }
  | .readSort name =>
    match s.dir.sorts.loadSortLayers name (cfg.sortBits name) with
    | some layers => some { s with reads := s.reads ++ [.sortField name layers] }
    | none => some s
  | .deliver n =>
    (s.reads[n]?).map fun data => { s with thread := { s.thread with loads := s.thread.loads ++ [data] } }

/-- No slot is both inserted and removed under one value. -/
def Unconflicted (st : IndexState) (b : WriteBatch) : Prop :=
  ∀ f v, st.Has (.filter f v) → ∀ x ∈ b.filterInserts.ids ⟨f, v⟩, x ∉ b.filterRemoves.ids ⟨f, v⟩

/-- Every bit that the ops write has that value on disk. -/
def Redundant (st : IndexState) (dir : DataDir) (ops : List MutationOp) : Prop :=
  ∀ t, st.Has t → ∀ x bit, Settle.settle t.preferred (bitWrites t x ops) = some bit →
    decide (x ∈ dir.holders t) = bit

/-- The staging index as the batch of a cycle finds it. -/
def prepared (now : UInt64) (docs : UInt32 → Option Document) (promote : Bool) : IndexState :=
  s.thread.prepareStaging promote { s.thread.staging with slots := (s.thread.activate cfg now docs).1 }

/-- Before its loads. -/
def promoted (now : UInt64) (docs : UInt32 → Option Document) (promote : Bool) : IndexState :=
  let st : IndexState := { s.thread.staging with slots := (s.thread.activate cfg now docs).1 }
  if promote then st.promoteSorts else st

/-- The condition on the start of a cycle. -/
structure BeginMeets (now : UInt64) (docs : UInt32 → Option Document) (promote : Bool) : Prop where
  unconflicted : Unconflicted s.thread.staging (.groupAndSort (s.thread.cycleOps cfg now docs))
  fits : (groupAndSort (s.thread.cycleOps cfg now docs)).LayersFit
  /-- What is activated is written by the batch too. -/
  activated : ∀ x ∈ s.thread.activated now,
    x ∈ (groupAndSort (s.thread.cycleOps cfg now docs)).aliveInserts ∨
      x ∈ (groupAndSort (s.thread.cycleOps cfg now docs)).aliveRemoves
  fresh : (s.promoted cfg now docs promote).FreshLoads s.dir.holders (s.thread.loads.take 1)
  covered : (s.prepared cfg now docs promote).InsertsCovered s.parked s.dir.holders
    (.groupAndSort (s.thread.cycleOps cfg now docs))

/-- The condition on a step. -/
def Meets : DiskEvent → Prop
  | .thread (.begin now docs promote) => s.BeginMeets cfg now docs promote
  | .thread (.settle _ _ _ _) => ∀ c, s.thread.phase = .applied c → c.ops ≠ [] → s.thread.loading = false
  | .thread (.command .forcePublish) =>
    Redundant s.thread.staging s.dir s.thread.queue ∧
      s.thread.staging.FreshLoads s.dir.holders s.thread.loads ∧
      (s.thread.staging.applyLoads s.thread.loads).InsertsCovered s.parked s.dir.holders
        (.groupAndSort s.thread.queue)
  | .thread (.command (.syncUnloaded unloaded)) =>
    -- the index that comes in is, over the disk, what is on disk
    (∀ t, unloaded.Has t ↔ s.thread.staging.Has t) ∧
      (∀ t, unloaded.Has t →
        unloaded.standsFor (unloaded.filters.fields.keys ++ s.parked) s.dir.holders t = s.dir.holders t) ∧
      Redundant s.thread.staging s.dir s.thread.queue ∧
      unloaded.InsertsCovered (unloaded.filters.fields.keys ++ s.parked) s.dir.holders
        (.groupAndSort s.thread.queue)
  -- the end of a bulk load is no part of these runs
  | .thread (.command (.exitLoadingSaveUnload saved _ _)) => saved = false
  | .thread .shutdown =>
    Redundant s.thread.staging s.dir s.thread.queue ∧
      s.thread.staging.InsertsCovered s.parked s.dir.holders (.groupAndSort s.thread.queue)
  | _ => True

/-! ## The invariant -/

/-- The directory once the batch of the cycle is logged. -/
def pendingDir : DataDir :=
  match s.thread.phase with
  | .applied c => if c.ops = [] then s.dir else s.dir.logBatch cfg.sortBits (.groupAndSort c.ops)
  | _ => s.dir

/-- What every state reached satisfies. -/
structure Inv : Prop where
  mirrors : Mirrors s.parked s.dir.holders s.thread.staging s.resident
  durable : Durable (s.pendingDir cfg).holders s.resident
  stores : ∀ t, s.resident.Has t → DataDir.Stores cfg.sortBits t

/-- No batch waits for its log. -/
def Logged : Prop := ∀ c, s.thread.phase = .applied c → c.ops = []

variable {cfg s} {now : UInt64} {docs : UInt32 → Option Document} {promote : Bool}
  {st resident : IndexState} {dir : DataDir} {ops : List MutationOp} {parked : List String}

theorem logged_of_not_applied (h : ∀ c, s.thread.phase ≠ .applied c) : s.Logged := fun c hc => absurd hc (h c)

theorem logged_of_idle (h : s.thread.phase = .idle) : s.Logged :=
  logged_of_not_applied fun c hc => by rw [h] at hc; cases hc

theorem logged_of_settled {c : Cycle} (h : s.thread.phase = .settled c) : s.Logged :=
  logged_of_not_applied fun c hc => by rw [h] at hc; cases hc

theorem logged_of_stopped (h : s.thread.phase = .stopped) : s.Logged :=
  logged_of_not_applied fun c hc => by rw [h] at hc; cases hc

theorem pendingDir_of_logged (h : s.Logged) : s.pendingDir cfg = s.dir := by
  rw [pendingDir]
  split
  · rename_i c hc
    rw [if_pos (h c hc)]
  · rfl

theorem Inv.of_logged (hlogged : s.Logged) (hmirrors : Mirrors s.parked s.dir.holders s.thread.staging s.resident)
    (hd : Durable s.dir.holders s.resident)
    (hstores : ∀ t, s.resident.Has t → DataDir.Stores cfg.sortBits t) : s.Inv cfg := by
  refine ⟨hmirrors, ?_, hstores⟩
  rw [pendingDir_of_logged hlogged]
  exact hd

/-- Once its batches are logged, the disk has what the index has. -/
theorem Inv.durable_of_logged (h : s.Inv cfg) (hlogged : s.Logged) : Durable s.dir.holders s.resident := by
  have hd := h.durable
  rwa [pendingDir_of_logged hlogged] at hd

/-- A cycle without ops activates nothing. -/
theorem BeginMeets.activated_eq_nil (h : s.BeginMeets cfg now docs promote)
    (hops : s.thread.cycleOps cfg now docs = []) : s.thread.activated now = [] := by
  refine List.eq_nil_iff_forall_not_mem.mpr fun x hx => ?_
  have hwritten := h.activated x hx
  rw [hops] at hwritten
  rcases hwritten with hx | hx <;> cases hx

/-- What the ops redo changes nothing. -/
theorem durable_applyDrained (hhas : ∀ t, st.Has t ↔ resident.Has t) (hd : Durable dir.holders resident)
    (h : Redundant st dir ops) : Durable dir.holders (resident.applyDrained ops) := by
  intro t ht
  have ht : resident.Has t := has_applyDrained.mp ht
  rw [applyDrained]
  split
  · exact hd t ht
  · ext x
    have hbit : decide (x ∈ dir.holders t) = (resident.applyOps ops).bit t x := by
      rw [bit_applyOps ht]
      cases hsettle : Settle.settle t.preferred (bitWrites t x ops) with
      | none =>
        have hdisk : x ∈ dir.holders t ↔ x ∈ resident.holders t := by rw [hd t ht]
        exact decide_eq_decide.mpr hdisk
      | some bit => exact h t ((hhas t).mpr ht) x bit hsettle
    exact decide_eq_decide.mp hbit

/-- **The log of a cycle** brings the disk to the index that took the batch. -/
theorem durable_logBatch {slots : List UInt32} {numBits : String → Nat} (hhas : ∀ t, st.Has t ↔ resident.Has t)
    (hd : Durable dir.holders resident) (hstores : ∀ t, resident.Has t → DataDir.Stores numBits t)
    (hun : Unconflicted st (.groupAndSort ops)) (hfit : (groupAndSort ops).LayersFit)
    (hslots : ∀ x ∈ slots, x ∈ (groupAndSort ops).aliveInserts ∨ x ∈ (groupAndSort ops).aliveRemoves) :
    Durable (dir.logBatch numBits (.groupAndSort ops)).holders ((resident.activate slots).applyOps ops) := by
  intro t ht
  have ht : resident.Has t := has_activate.mp (has_applyOps.mp ht)
  ext x
  rw [DataDir.mem_holders_logBatch hfit (hstores t ht), applyOps, mem_holders_applyBatch (has_activate.mpr ht), hd t ht]
  cases t with
  | filter f v =>
    -- the two orders differ for a slot that is both inserted and removed
    have hdisjoint := hun f v ((hhas _).mpr ht) x
    simp only [Target.logged, Target.preferred, group, Bool.not_true, Bool.not_false]
    show _ ↔ if _ then _ else if _ then _ else x ∈ resident.holders (.filter f v)
    grind
  | sort f b => rfl
  | alive =>
    have halive : x ∈ (resident.activate slots).holders .alive ↔ x ∈ slots ∨ x ∈ resident.holders .alive :=
      mem_fused_insertBulk
    simp only [Target.logged, Target.preferred, group, Bool.not_false]
    grind

section Drained

variable {disk : Target → Bitmap} (h : Mirrors parked disk st resident) (hd : FieldsDurable disk resident)
  (hcovered : st.InsertsCovered parked disk (.groupAndSort ops))
include h hd hcovered

theorem mirrors_applyDrained : Mirrors parked disk (st.applyDrained ops) (resident.applyDrained ops) := by
  rw [applyDrained, applyDrained]
  split
  · exact h
  · exact h.applyOps hd hcovered

/-- A drain outside a cycle compacts what it has applied. -/
theorem mirrors_mergeDrained :
    Mirrors parked disk (if ops = [] then st else (st.applyOps ops).mergeFilters) (resident.applyDrained ops) := by
  rw [applyDrained]
  split
  · exact h
  · exact (h.applyOps hd hcovered).mergeFilters

end Drained

/-! ### Steps that leave the staging index alone -/

theorem Inv.of_same {s' : Persisted} (h : s.Inv cfg) (hstaging : s'.thread.staging = s.thread.staging)
    (hphase : s'.thread.phase = s.thread.phase) (hdir : s'.dir = s.dir)
    (hresident : s'.resident = s.resident) (hparked : s'.parked = s.parked) : s'.Inv cfg := by
  have hpending : s'.pendingDir cfg = s.pendingDir cfg := by rw [pendingDir, pendingDir, hphase, hdir]
  exact ⟨by rw [hparked, hdir, hstaging, hresident]; exact h.mirrors,
    by rw [hpending, hresident]; exact h.durable, by rw [hresident]; exact h.stores⟩

section Steps

variable [Host] {s' : Persisted}

/-! ### Cycles -/

theorem Inv.begin (h : s.Inv cfg) (hmeets : s.Meets cfg (.thread (.begin now docs promote)))
    (hs : s.next cfg (.thread (.begin now docs promote)) = some s') : s'.Inv cfg := by
  obtain ⟨t, ht, rfl⟩ := map_eq_some_iff.mp hs
  obtain ⟨hidle, rfl⟩ := next_begin ht
  have hd := h.durable_of_logged (logged_of_idle hidle)
  have hdact : FieldsDurable s.dir.holders (s.resident.activate (s.thread.activated now)) := by
    intro t hne ht
    rw [hd t (has_activate.mp ht)]
    cases t with
    | filter f v | sort f b => rfl
    | alive => exact absurd rfl hne
  -- both indexes take the activated slots
  have hactivated : Mirrors s.parked s.dir.holders
      { s.thread.staging with slots := (s.thread.activate cfg now docs).1 }
      (s.resident.activate (s.thread.activated now)) := by
    refine ⟨fun t => ?_, fun t ht => ?_⟩
    · rw [has_activate, ← h.mirrors.has]
      cases t <;> exact Iff.rfl
    · cases t with
      | filter f v => exact h.mirrors.standsFor (.filter f v) ht
      | sort f b => exact h.mirrors.standsFor (.sort f b) ht
      | alive =>
        have hover : s.thread.staging.slots.alive.fused = s.resident.slots.alive.fused :=
          h.mirrors.standsFor .alive trivial
        ext x
        show x ∈ (s.thread.activate cfg now docs).1.alive.fused ↔
          x ∈ (s.resident.slots.alive.insertBulk (s.thread.activated now)).fused
        rw [alive_activate, mem_fused_insertBulk, mem_fused_insertBulk, hover]
  have hpromoted : Mirrors s.parked s.dir.holders (s.promoted cfg now docs promote)
      (s.resident.activate (s.thread.activated now)) := by
    cases promote with
    | true => exact hactivated.promoteSorts
    | false => exact hactivated
  have hprepared : Mirrors s.parked s.dir.holders (s.prepared cfg now docs promote)
      (s.resident.activate (s.thread.activated now)) :=
    hpromoted.applyLoads hdact hmeets.fresh
  refine ⟨mirrors_applyDrained hprepared hdact hmeets.covered, ?_, ?_⟩
  · show Durable (pendingDir cfg _).holders _
    show Durable (if s.thread.cycleOps cfg now docs = [] then s.dir else _).holders
      ((s.resident.activate (s.thread.activated now)).applyDrained (s.thread.cycleOps cfg now docs))
    rw [applyDrained]
    by_cases hops : s.thread.cycleOps cfg now docs = []
    · rw [if_pos hops, if_pos hops]
      rw [hmeets.activated_eq_nil hops]
      exact hd
    · rw [if_neg hops, if_neg hops]
      exact durable_logBatch h.mirrors.has hd h.stores hmeets.unconflicted hmeets.fits hmeets.activated
  · intro t ht
    exact h.stores t (has_activate.mp (has_applyDrained.mp ht))

theorem Inv.settle (h : s.Inv cfg) {compact idleTick workerFull : Bool} {lazyValueFields : List String}
    (hmeets : s.Meets cfg (.thread (.settle compact idleTick workerFull lazyValueFields)))
    (hs : s.next cfg (.thread (.settle compact idleTick workerFull lazyValueFields)) = some s') : s'.Inv cfg := by
  obtain ⟨t, ht, rfl⟩ := map_eq_some_iff.mp hs
  obtain ⟨c, hphase, rfl⟩ := next_settle ht
  have hloading := hmeets c hphase
  have hpending := h.durable
  rw [pendingDir, hphase] at hpending
  have hdir : s.dirAfter cfg (.settle compact idleTick workerFull lazyValueFields) =
      if s.thread.flushes c then s.dir.logBatch cfg.sortBits (.groupAndSort c.ops) else s.dir := by
    rw [dirAfter, hphase]
  -- the cycle logs its batch exactly if it has one
  have hflushes : s.thread.flushes c = decide (c.ops ≠ []) := by
    rw [flushes]
    by_cases hops : c.ops = []
    · simp [hops]
    · simp [hops, hloading hops]
  have hd : Durable (s.dirAfter cfg (.settle compact idleTick workerFull lazyValueFields)).holders
      s.resident := by
    rw [hdir, hflushes]
    by_cases hops : c.ops = []
    · simpa [hops] using hpending
    · simpa [hops] using hpending
  have hstaging : Mirrors s.parked s.dir.holders
      (s.thread.settleCycle cfg c compact idleTick workerFull lazyValueFields).staging s.resident ∧
      (s.thread.settleCycle cfg c compact idleTick workerFull lazyValueFields).phase = .settled c := by
    rcases settleCycle_cases cfg s.thread c compact idleTick workerFull lazyValueFields with
      ⟨-, heq⟩ | ⟨-, -, heq⟩ | ⟨-, -, -, heq⟩ | ⟨-, -, -, heq⟩
    · rw [heq]
      refine ⟨?_, rfl⟩
      cases compact with
      | true => exact h.mirrors.mergeFilters
      | false => exact h.mirrors
    · rw [heq]
      exact ⟨h.mirrors.mergeFilters, rfl⟩
    · rw [heq]
      exact ⟨h.mirrors.mergeFilters, rfl⟩
    · rw [heq]
      exact ⟨h.mirrors, rfl⟩
  exact .of_logged (logged_of_settled hstaging.2) (hstaging.1.redisk hd) hd h.stores

theorem Inv.finish (h : s.Inv cfg) {idle : List (String × UInt64)}
    (hs : s.next cfg (.thread (.finish idle)) = some s') : s'.Inv cfg := by
  obtain ⟨t, ht, rfl⟩ := map_eq_some_iff.mp hs
  obtain ⟨c, hphase, rfl⟩ := next_finish ht
  have hd := h.durable_of_logged (logged_of_settled hphase)
  have hparked := h.mirrors.park hd.fields
    (List.subset_append_right ((s.thread.staging.evictable idle).map (·.1)) s.parked)
  refine .of_logged (logged_of_idle (s.thread.finishCycle_keeps c idle).1) ?_ hd h.stores
  show Mirrors ((s.thread.staging.evictable idle).map (·.1) ++ s.parked) s.dir.holders
    (s.thread.finishCycle c idle).staging s.resident
  rw [finishCycle]
  split
  · exact hparked
  · exact hparked.evictValues hd.fields fun v hv => List.mem_append_left _ (List.mem_map_of_mem hv)

/-! ### Drains that are not logged -/

omit [Host] in
/-- A drain outside a cycle: its ops are on disk already. -/
theorem Inv.drained (h : s.Inv cfg) (hlogged : s.Logged)
    (hred : Redundant s.thread.staging s.dir s.thread.queue) (hlogged' : s'.Logged) (hdir : s'.dir = s.dir)
    (hresident : s'.resident = s.resident.applyDrained s.thread.queue)
    (hmirrors : Durable s.dir.holders s.resident → Mirrors s'.parked s.dir.holders s'.thread.staging
      (s.resident.applyDrained s.thread.queue)) : s'.Inv cfg := by
  have hd := h.durable_of_logged hlogged
  refine .of_logged hlogged' ?_ ?_ ?_
  · rw [hdir, hresident]
    exact hmirrors hd
  · rw [hdir, hresident]
    exact durable_applyDrained h.mirrors.has hd hred
  · intro t ht
    rw [hresident] at ht
    exact h.stores t (has_applyDrained.mp ht)

theorem Inv.command (h : s.Inv cfg) {cmd : FlushCommand} (hmeets : s.Meets cfg (.thread (.command cmd)))
    (hs : s.next cfg (.thread (.command cmd)) = some s') : s'.Inv cfg := by
  obtain ⟨t, ht, rfl⟩ := map_eq_some_iff.mp hs
  obtain ⟨c, hphase, rfl⟩ := next_command ht
  cases cmd with
  | forcePublish =>
    obtain ⟨hred, hfresh, hcovered⟩ := hmeets
    refine h.drained (logged_of_settled hphase) hred (logged_of_settled hphase) rfl rfl fun hd => ?_
    exact mirrors_mergeDrained (h.mirrors.applyLoads hd.fields hfresh) hd.fields hcovered
  | syncUnloaded unloaded =>
    obtain ⟨hhas, hover, hred, hcovered⟩ := hmeets
    refine h.drained (logged_of_settled hphase) hred (logged_of_settled hphase) rfl rfl fun hd => ?_
    have hmirrors : Mirrors (unloaded.filters.fields.keys ++ s.parked) s.dir.holders unloaded s.resident := by
      refine ⟨fun t => (hhas t).trans (h.mirrors.has t), fun t ht => ?_⟩
      rw [hover t ht]
      exact hd t ((h.mirrors.has t).mp ((hhas t).mp ht))
    exact mirrors_applyDrained hmirrors hd.fields hcovered
  | exitLoadingSaveUnload saved skipFilters skipSorts =>
    obtain rfl : saved = false := hmeets
    exact h.of_same rfl rfl rfl rfl rfl

theorem Inv.shutdown (h : s.Inv cfg) (hmeets : s.Meets cfg (.thread .shutdown))
    (hs : s.next cfg (.thread .shutdown) = some s') : s'.Inv cfg := by
  obtain ⟨t, ht, rfl⟩ := map_eq_some_iff.mp hs
  obtain ⟨hidle, rfl⟩ := next_shutdown ht
  obtain ⟨hred, hcovered⟩ := hmeets
  refine h.drained (logged_of_idle hidle) hred (logged_of_stopped s.thread.shutdownFlush_keeps.1) rfl rfl
    fun hd => ?_
  have hstaging : s.thread.shutdownFlush.staging =
      if s.thread.queue = [] then s.thread.staging else (s.thread.staging.applyOps s.thread.queue).mergeFilters := by
    rw [shutdownFlush]
    split <;> rfl
  show Mirrors s.parked s.dir.holders s.thread.shutdownFlush.staging _
  rw [hstaging]
  exact mirrors_mergeDrained h.mirrors hd.fields hcovered

/-! ## Runs -/

theorem Inv.step (h : s.Inv cfg) {ev : DiskEvent} (hmeets : s.Meets cfg ev) (hs : s.next cfg ev = some s') :
    s'.Inv cfg := by
  cases ev with
  | thread ev =>
    cases ev with
    | load data => cases hs
    | begin now docs promote => exact h.begin hmeets hs
    | settle compact idleTick workerFull lazyValueFields => exact h.settle hmeets hs
    | command cmd => exact h.command hmeets hs
    | finish idle => exact h.finish hs
    | shutdown => exact h.shutdown hmeets hs
    | worker n =>
      obtain ⟨t, ht, rfl⟩ := map_eq_some_iff.mp hs
      obtain ⟨-, rfl⟩ := next_worker ht
      exact h.of_same rfl rfl rfl rfl rfl
    | send op | setLoading loading | setTables tables
    | store basis key sortedSlots hasMore totalMatched filters valueFn evicted =>
      cases hs
      exact h.of_same rfl rfl rfl rfl rfl
  | readField name | readValues field values =>
    cases hs
    exact h.of_same rfl rfl rfl rfl rfl
  | readSort name =>
    rw [next] at hs
    split at hs
    · cases hs
      exact h.of_same rfl rfl rfl rfl rfl
    · cases hs
      exact h
  | deliver n =>
    obtain ⟨data, -, rfl⟩ := map_eq_some_iff.mp hs
    exact h.of_same rfl rfl rfl rfl rfl

theorem Inv.run {s₀ : Persisted} (h₀ : s₀.Inv cfg) {events : List DiskEvent}
    (h : Reaches (fun s ev s' => s.next cfg ev = some s') (Meets cfg) s₀ events s) : s.Inv cfg :=
  h.invariant (fun _ s => s.Inv cfg) h₀ fun _ _ _ _ hinv hmeets hs => hinv.step hmeets hs

end Steps

/-- The start of a run: no cycle is under way, and the index over its directory was always resident, as after a
restart or right after a save. -/
structure Starts (cfg : FlushConfig) (s : Persisted) : Prop where
  idle : s.thread.phase = .idle
  mirrors : Mirrors s.parked s.dir.holders s.thread.staging s.resident
  durable : Durable s.dir.holders s.resident
  stores : ∀ t, s.resident.Has t → DataDir.Stores cfg.sortBits t

theorem Starts.inv (h : s.Starts cfg) : s.Inv cfg := .of_logged (logged_of_idle h.idle) h.mirrors h.durable h.stores

/-! ## Disk and memory -/

/-- The directory is loaded back as the index. -/
structure Reloads (dir : DataDir) (parked : List String) (st : IndexState) : Prop where
  alive : dir.alive.getD ∅ = st.slots.alive.fused
  /-- A value in memory; the pending changes of one that is not loaded are on disk too. -/
  values : ∀ f ff, st.filters.getField f = some ff → ∀ v (vb : VersionedBitmap), ff.getVersioned v = some vb →
    ((dir.filters.loadField f).lookup v).getD ∅ = vb.content (((dir.filters.loadField f).lookup v).getD ∅)
  absent : ∀ f ff, st.filters.getField f = some ff → f ∉ parked → ∀ v, ff.getVersioned v = none →
    ((dir.filters.loadField f).lookup v).getD ∅ = ∅
  layers : ∀ f sf, st.sorts.getField f = some sf → ∀ (b : Nat) (vb : VersionedBitmap),
    sf.bitLayers[b]? = some vb → (((dir.sorts.loadSortLayers f sf.numBits).getD [])[b]?).getD ∅ =
      vb.content ((((dir.sorts.loadSortLayers f sf.numBits).getD [])[b]?).getD ∅)

theorem Reloads.of_standsFor (h : ∀ t, st.Has t → dir.holders t = st.standsFor parked dir.holders t) :
    Reloads dir parked st := by
  have hfilter : ∀ f ff, st.filters.getField f = some ff → ∀ v,
      dir.holders (.filter f v) = overValue (decide (f ∈ parked)) (dir.holders (.filter f v))
        (some (ff.config, ff.getVersioned v)) := by
    intro f ff hff v
    have hvb := FilterIndex.valueAt_of_getField hff v
    rw [← standsFor_filter hvb]
    exact h _ (has_filter_iff.mpr ⟨_, hvb⟩)
  refine ⟨h .alive trivial, fun f ff hff v vb hvb => ?_, fun f ff hff hf v hnone => ?_, fun f sf hsf b vb hvb => ?_⟩
  · rw [lookup_loadField]
    have hv := hfilter f ff hff v
    rw [hvb] at hv
    exact hv
  · rw [lookup_loadField]
    have hv := hfilter f ff hff v
    rw [hnone, decide_eq_false hf] at hv
    exact hv
  · have hb : b < sf.numBits := (List.getElem?_eq_some_iff.mp hvb).1
    have hat : st.sorts.layerAt f b = some vb := by rw [layerAt, hsf, bind_some, hvb]
    rw [SortBitmapStore.getD_loadSortLayers _ hb]
    have hlayer := h (.sort f b) (has_sort_iff.mpr ⟨vb, hat⟩)
    rw [standsFor_sort hat] at hlayer
    exact hlayer

section Results

variable [Host] {s₀ : Persisted} {events : List DiskEvent}

/-- **Disk and memory agree** between the cycles of a run whose steps meet the condition. -/
theorem reload_eq_staging (h₀ : s₀.Starts cfg)
    (h : Reaches (fun s ev s' => s.next cfg ev = some s') (Meets cfg) s₀ events s)
    (hphase : ∀ c, s.thread.phase ≠ .applied c) : Reloads s.dir s.parked s.thread.staging := by
  have hinv := h₀.inv.run h
  have hd := hinv.durable_of_logged (logged_of_not_applied hphase)
  refine Reloads.of_standsFor fun t ht => ?_
  rw [hinv.mirrors.standsFor t ht]
  exact hd t ((hinv.mirrors.has t).mp ht)

/-- **Lazy loading is transparent** in a run whose steps meet the condition. -/
theorem loaded_eq_resident (h₀ : s₀.Starts cfg)
    (h : Reaches (fun s ev s' => s.next cfg ev = some s') (Meets cfg) s₀ events s) :
    (∀ f ff, s.thread.staging.filters.getField f = some ff → ∀ v vb, ff.getVersioned v = some vb →
      vb.isLoaded = true → vb.fused = s.resident.filters.bits f v) ∧
    ∀ f sf, s.thread.staging.sorts.getField f = some sf → sf.isFullyLoaded = true → ∀ b < sf.numBits,
      sf.layer b = s.resident.sorts.layer f b := by
  have hover := (h₀.inv.run h).mirrors.standsFor
  refine ⟨fun f ff hff v vb hvb hloaded => ?_, fun f sf hsf hloaded b hb => ?_⟩
  · have hat := FilterIndex.valueAt_of_getField hff v
    have hv := hover (.filter f v) (has_filter_iff.mpr ⟨_, hat⟩)
    rw [standsFor_filter hat, hvb, overValue, content_of_loaded hloaded] at hv
    exact hv
  · have hget : sf.bitLayers[b]? = some sf.bitLayers[b] := List.getElem?_eq_getElem hb
    have hat : s.thread.staging.sorts.layerAt f b = some sf.bitLayers[b] := by
      rw [layerAt, hsf, bind_some, hget]
    have hlayer := hover (.sort f b) (has_sort_iff.mpr ⟨_, hat⟩)
    have hall : sf.bitLayers[b].isLoaded = true := List.all_eq_true.mp hloaded _ (List.getElem_mem hb)
    rw [standsFor_sort hat, content_of_loaded hall] at hlayer
    rw [SortField.layer, hget]
    exact hlayer

end Results

/-! ## The condition can be evaluated

A batch has finitely many groups, and a load brings finitely many values. What the drains outside a cycle ask is asked
of every bit, and is not evaluated. -/

section Decidable

attribute [mk_iff] BeginMeets

instance decidableUnconflicted (b : WriteBatch) : Decidable (Unconflicted st b) :=
  decidable_of_iff (∀ g ∈ b.filterInserts.keys, st.Has (.filter g.field g.value) →
      ∀ x ∈ b.filterInserts.ids g, x ∉ b.filterRemoves.ids g)
    ⟨fun h f v hhas x hx => h ⟨f, v⟩ (Postings.mem_of_mem_ids hx) hhas x hx, fun h g _ => h g.field g.value⟩

instance decidableLayersFit (b : WriteBatch) : Decidable b.LayersFit :=
  decidable_of_iff (∀ g ∈ b.sortSets.keys ++ b.sortClears.keys, g.bitLayer < 256)
    ⟨fun h g hg => h g (List.mem_append.mpr hg), fun h g hg => h g (List.mem_append.mp hg)⟩

instance decidableInsertsCovered (disk : Target → Bitmap) (b : WriteBatch) :
    Decidable (st.InsertsCovered parked disk b) :=
  decidable_of_iff (∀ g ∈ b.filterInserts.keys, ∀ p, st.filters.valueAt g = some p → p.2 = none → g.field ∈ parked →
      (FilterField.new p.1).isLazyField = false → disk (.filter g.field g.value) = ∅)
    ⟨fun h g hg config hp => h g hg _ hp rfl, fun h g hg p hp hnone => h g hg p.1 (by rw [hp, ← hnone])⟩

instance decidableFreshFor (vb : VersionedBitmap) (data disk : Bitmap) : Decidable (vb.FreshFor data disk) :=
  inferInstanceAs (Decidable (_ ∧ _))

/-- A value that is neither loaded nor on disk is fresh; other loads are not evaluated. -/
noncomputable instance decidableFresh : (load : LazyLoad) → Decidable (st.Fresh dir.holders load)
  | .filterField name bitmaps =>
    decidable_of_iff (∀ v ∈ bitmaps.keys ++ (dir.filters.loadField name).keys, ∀ p,
        st.filters.valueAt ⟨name, v⟩ = some p →
          (p.2.getD .newUnloaded).FreshFor ((bitmaps.lookup v).getD ∅) (dir.holders (.filter name v))) (by
      refine ⟨fun h v config vb? hp => ?_, fun h v _ p hp => h v p.1 p.2 hp⟩
      by_cases hv : v ∈ bitmaps.keys ++ (dir.filters.loadField name).keys
      · exact h v hv _ hp
      · rw [List.mem_append, not_or] at hv
        show FreshFor _ _ ((dir.filters.values.lookup ⟨name, v⟩).getD ∅)
        rw [← lookup_loadField, lookup_eq_none.mpr hv.1, lookup_eq_none.mpr hv.2]
        exact freshFor_self)
  | .filterValues _ _ _ | .sortField _ _ => Classical.dec _
  | .slots slots => inferInstanceAs (Decidable (slots.alive.fused = st.slots.alive.fused))

noncomputable instance decidableFreshLoads (st : IndexState) : (loads : List LazyLoad) → Decidable (st.FreshLoads dir.holders loads)
  | [] => isTrue trivial
  | load :: loads =>
    have := decidableFreshLoads (st.applyLoad load) loads
    inferInstanceAs (Decidable (st.Fresh dir.holders load ∧ _))

noncomputable instance decidableBeginMeets : Decidable (s.BeginMeets cfg now docs promote) :=
  decidable_of_iff _ (beginMeets_iff cfg s now docs promote).symm

noncomputable instance decidableMeets (ev : DiskEvent) : Decidable (s.Meets cfg ev) := by
  unfold Meets
  split <;> first | infer_instance | exact Classical.dec _

end Decidable

/-! ## Runs of an engine with two documents -/

section Samples

attribute [local instance] Host.ascii

/-- The two slots of `twoMatches`, saved. -/
def savedMatches : DataDir := .writeInnerToStore .empty inlineConfig.config ⟨[], [], []⟩ twoMatchesState

/-- The engine right after a restart: no field is loaded. -/
def restartedState : IndexState where
  slots := twoMatchesState.slots
  filters := ⟨(∅ : HashMap String FilterField).insert "a" (.new {})⟩
  sorts := ⟨(∅ : HashMap String SortField).insert "v" ⟨[.newUnloaded, .newUnloaded, .newUnloaded]⟩⟩

def restarted : Persisted := ⟨.initial restartedState {} .empty, savedMatches, twoMatchesState, ["a"], []⟩

theorem sorts_twoMatchesState {f : String} {sf : SortField}
    (hsf : twoMatchesState.sorts.getField f = some sf) : f = "v" ∧ sf.numBits = 3 := by
  have hall : ∀ e ∈ twoMatchesState.sorts.fields.entries, e.1 = "v" ∧ e.2.numBits = 3 := by decide
  exact hall ⟨f, sf⟩ (List.of_mem_dlookup hsf)

theorem durable_savedMatches : Durable savedMatches.holders twoMatchesState := by
  refine durable_writeInnerToStore (fun f sf hsf => ?_) (by decide)
    (DataDir.saveMeets_empty (by decide) (fun _ => rfl) fun f sf hsf => ?_)
  · rw [(sorts_twoMatchesState hsf).2]
    decide
  · rw [(sorts_twoMatchesState hsf).1]
    decide

theorem has_restartedState (t : Target) : restartedState.Has t ↔ twoMatchesState.Has t := by
  cases t with
  | filter f v =>
    by_cases hf : f = "a"
    · subst hf
      exact iff_of_true rfl rfl
    · have h₁ : restartedState.filters.getField f = none := lookup_insert_ne hf
      have h₂ : twoMatchesState.filters.getField f = none := lookup_insert_ne hf
      simp [Has, h₁, h₂]
  | sort f b =>
    by_cases hf : f = "v"
    · subst hf
      exact Iff.rfl
    · have h₁ : restartedState.sorts.getField f = none := lookup_insert_ne hf
      have h₂ : twoMatchesState.sorts.getField f = none := lookup_insert_ne hf
      simp [Has, numBits, h₁, h₂]
  | alive => exact Iff.rfl

theorem stores_twoMatchesState (t : Target) (ht : twoMatchesState.Has t) : DataDir.Stores inlineConfig.sortBits t := by
  cases t with
  | filter f v => trivial
  | sort f b =>
    obtain ⟨vb, hvb⟩ := has_sort_iff.mp ht
    obtain ⟨sf, hsf, -⟩ := bind_eq_some_iff.mp hvb
    obtain ⟨rfl, -⟩ := sorts_twoMatchesState hsf
    have hb : b < 3 := ht
    exact ⟨by omega, hb⟩
  | alive => trivial

theorem starts_restarted : restarted.Starts inlineConfig := by
  refine ⟨rfl, .restart durable_savedMatches has_restartedState ?_ ?_ rfl, durable_savedMatches, stores_twoMatchesState⟩
  · intro f v config vb? hvb
    obtain ⟨ff, hff, hpair⟩ := map_eq_some_iff.mp hvb
    have hmem : ⟨f, ff⟩ ∈ restartedState.filters.fields.entries := List.of_mem_dlookup hff
    cases List.mem_singleton.mp hmem
    cases hpair
    exact ⟨rfl, List.mem_singleton_self "a"⟩
  · intro f b vb hvb
    obtain ⟨sf, hsf, hlayer⟩ := bind_eq_some_iff.mp hvb
    have hmem : ⟨f, sf⟩ ∈ restartedState.sorts.fields.entries := List.of_mem_dlookup hsf
    cases List.mem_singleton.mp hmem
    simpa using List.mem_of_getElem? hlayer

/-- A query loads the field, and slot 3 is sent. -/
def loadAndSend : List DiskEvent := [.readField "a", .deliver 0] ++ sendThird.map .thread

def loadingRun : List DiskEvent :=
  loadAndSend ++ [.thread beginQuiet] ++ [.thread settleQuiet] ++ [.thread (.finish [])]

theorem computed_loadingRun : Computed (next inlineConfig) (Meets inlineConfig) restarted loadingRun :=
  .of_along (by decide +kernel)

/-- The field is loaded, the disk has the new slot, and the two agree. -/
theorem reload_loadingRun :
    ∃ s, Reaches (fun s ev s' => next inlineConfig s ev = some s') (Meets inlineConfig) restarted loadingRun s ∧
      s.dir.holders (.filter "a" 1) = {1, 2, 3} ∧ Reloads s.dir s.parked s.thread.staging := by
  obtain ⟨s, hrun, hphase, hdisk⟩ : ∃ s, _ ∧ s.thread.phase = .idle ∧
      s.dir.holders (.filter "a" 1) = {1, 2, 3} := computed_loadingRun.exists_end (by decide +kernel)
  exact ⟨s, hrun, hdisk, reload_eq_staging starts_restarted hrun fun c hc => by rw [hphase] at hc; cases hc⟩

theorem loaded_loadingRun :
    ∃ s ff vb, Reaches (fun s ev s' => next inlineConfig s ev = some s') (Meets inlineConfig) restarted
        loadingRun s ∧ s.thread.staging.filters.getField "a" = some ff ∧ ff.getVersioned 1 = some vb ∧
      vb.isLoaded = true ∧ vb.fused = s.resident.filters.bits "a" 1 := by
  obtain ⟨s, hrun, ff, hff, vb, hvb, hloaded⟩ : ∃ s, _ ∧
      ∃ ff, s.thread.staging.filters.getField "a" = some ff ∧ ∃ vb, ff.getVersioned 1 = some vb ∧
        vb.isLoaded = true := computed_loadingRun.exists_end (by decide +kernel)
  exact ⟨s, ff, vb, hrun, hff, hvb, hloaded, (loaded_eq_resident starts_restarted hrun).1 "a" ff hff 1 vb hvb hloaded⟩

/-- The engine that has saved and not restarted. -/
def alwaysLoaded : Persisted := ⟨.initial twoMatchesState {} .empty, savedMatches, twoMatchesState, [], []⟩

/-- Slot 1 is removed from the value 1 of `a` and inserted under it again, in one cycle. -/
def rewriteRun : List DiskEvent :=
  [.thread (.send (.filterRemove "a" 1 [1])), .thread (.send (.filterInsert "a" 1 [1])), .thread beginQuiet,
    .thread settleQuiet, .thread (.finish [])]

/-- The insert of slot 3 is drained by a `ForcePublish`. -/
def forcedInsertRun : List DiskEvent :=
  [.thread beginQuiet, .thread settleQuiet] ++ sendThird.map .thread ++
    [.thread (.command .forcePublish), .thread (.finish [])]

/-- The log of the cycle clears the slot that memory holds; what a `ForcePublish` drained is not on disk. -/
theorem reload_differs :
    (∃ s, Reaches (fun s ev s' => next inlineConfig s ev = some s') (fun _ _ => True) alwaysLoaded rewriteRun s ∧
      s.thread.phase = .idle ∧ s.thread.staging.filters.bits "a" 1 = {1, 2} ∧
      ((s.dir.filters.loadField "a").lookup 1).getD ∅ = {2}) ∧
    ∃ s, Reaches (fun s ev s' => next inlineConfig s ev = some s') (fun _ _ => True) alwaysLoaded
        forcedInsertRun s ∧ s.thread.phase = .idle ∧ s.thread.staging.slots.alive.fused = {1, 2, 3} ∧
      s.dir.alive = some {1, 2} :=
  ⟨Computed.of_true.exists_end (by decide +kernel), Computed.of_true.exists_end (by decide +kernel)⟩

/-- Two queries read the field. The second read is applied after the removal of slot 2 was compacted. -/
def staleRun : List DiskEvent :=
  [.readField "a", .readField "a", .deliver 0, .thread beginQuiet, .thread settleQuiet, .thread (.finish []),
    .thread (.send (.filterRemove "a" 1 [2])), .thread beginQuiet, .thread (.settle true false false []),
    .thread (.finish []), .deliver 1, .thread beginQuiet]

/-- The removed slot is back. -/
theorem stale_load_resurrects :
    ∃ s ff vb, Reaches (fun s ev s' => next inlineConfig s ev = some s') (fun _ _ => True) restarted staleRun s ∧
      s.thread.staging.filters.getField "a" = some ff ∧ ff.getVersioned 1 = some vb ∧ vb.isLoaded = true ∧
      vb.fused = {1, 2} ∧ s.resident.filters.bits "a" 1 = {1} := by
  simp only [reaches_true_iff, exists_and_left]
  decide +kernel

end Samples

end Persisted

end Bitdex
