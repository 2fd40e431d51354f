import Bitdex.Engine.Accounts

/-!
# `Engine.Worker` — entries that the cache worker keeps in step

With asynchronous maintenance the flush thread publishes, queues the batch as an item, and goes on. The worker
(`cache_worker.rs`) takes some items, merges them and evaluates the slots they name on whatever snapshot is published
by then. So an entry may be formed from a snapshot whose item is still queued, and merging cancels an insert against a
remove of the same slot, whichever came first.

`Watched` carries with the thread the snapshot that an entry agrees with on each slot (`seen`): the one it was formed
from, or a later one in which a worker looked at the slot or found that it had not moved. The invariant is that the
queued items account for all that has changed since (`Kept`); `Meets` is what the steps need for that.

An item is queued here in the step that publishes its snapshot. A worker that runs in between takes the older items
only: the step `worker n` with the new item left in the queue.
-/

namespace Bitdex

open UnifiedCache FlushThread WriteBatch Option Finset

/-! ## The watched thread -/

/-- The flush thread and, per key and slot, the last snapshot that the entry is known to agree with. -/
structure Watched where
  thread : FlushThread
  seen : UnifiedKey → UInt32 → IndexState

namespace Watched

variable [Host] (cfg : FlushConfig) (s : Watched)

/-- The executor on the published snapshot. -/
def current : QueryExecutor := s.thread.executor cfg s.thread.published

/-- The executor on the snapshot in which an entry last saw a slot. -/
def lastSeen (key : UnifiedKey) (x : UInt32) : QueryExecutor := s.thread.executor cfg (s.seen key x)

/-- A slot has moved since the entry last saw it. -/
def Moved (key : UnifiedKey) (e : UnifiedEntry) (x : UInt32) : Prop :=
  x ∈ movedSlots (s.lastSeen cfg key x) (s.current cfg) key e

instance (key : UnifiedKey) (e : UnifiedEntry) (x : UInt32) : Decidable (s.Moved cfg key e x) := by
  unfold Moved
  infer_instance

/-- A worker that takes `n` items sees the published snapshot in the slots it looks at and those not moved. -/
def seenAfter (ev : ThreadEvent) (key : UnifiedKey) (x : UInt32) : IndexState :=
  match ev with
  | .store basis key' _ _ _ _ _ _ => if key = key' then basis else s.seen key x
  | .worker n =>
    match s.thread.cache.entries.lookup key with
    | some e =>
      if s.Moved cfg key e x ∧
          (dropsBacklog cfg n = false → ¬ Evaluates (.coalesceWorkItems (s.thread.work.take n)) key e x) then
        s.seen key x
      else s.thread.published
    | none => s.seen key x
  | _ => s.seen key x

/-- One step and what is seen after it. -/
def next (ev : ThreadEvent) : Option Watched := (s.thread.next cfg ev).map fun t => ⟨t, s.seenAfter cfg ev⟩

/-- The snapshot that a step should publish: the present one, with the batch that it flushes. -/
def due (t : FlushThread) : ThreadEvent → IndexState
  | .settle _ _ _ _ =>
    match t.phase with
    | .applied c => if t.flushes c then t.published.applyOps c.ops else t.published
    | _ => t.published
  | _ => t.published

/-- **The condition on publishing.** To the entries left, what `t'` publishes reads as `st` does, except where a
queued item writes; the executor answers them with the intersection of their clauses. -/
structure Publishes (t : FlushThread) (st : IndexState) (t' : FlushThread) : Prop where
  merged : t'.published.AliveMerged
  conjoins : ∀ key e, t'.Resident key e → Conjoins (t'.executor cfg t'.published) e
  accounted : ∀ key e, t'.Resident key e → ∀ x, Accounted t.work key e st t'.published x

/-- **The condition.** What a step needs so that no slot is forgotten. -/
def Meets : ThreadEvent → Prop
  | .send _ | .load _ | .setLoading _ | .begin _ _ _ => True
  | .setTables tables =>
    -- the new tables move nothing in the snapshots that count
    let t := { s.thread with tables := tables }
    ∀ key e, s.thread.Resident key e → Conjoins (t.executor cfg s.thread.published) e ∧
      ∀ x, Conjoins (t.executor cfg (s.seen key x)) e ∧
        x ∉ movedSlots (s.lastSeen cfg key x) (t.executor cfg (s.seen key x)) key e
  | .store basis key sortedSlots hasMore totalMatched filters valueFn _ =>
    -- the entry is right for its snapshot, and what has changed since is written by queued items
    let e := s.thread.cache.formEntry key sortedSlots hasMore totalMatched filters valueFn
    (∀ x, AgreesAt (s.thread.executor cfg basis) key e x) ∧ Conjoins (s.thread.executor cfg basis) e ∧
      Conjoins (s.current cfg) e ∧ ∀ x, Accounted s.thread.work key e basis s.thread.published x
  | .worker n =>
    ∀ key e, s.thread.Resident key e →
      if dropsBacklog cfg n then
        -- keys name the changed leaf fields of their entries
        ∀ b ∈ s.thread.work.take n, ∀ g ∈ groupKeys b.filterInserts b.filterRemoves,
          g.field ∈ leafFieldsOfEach e.originalFilterClauses → ∃ k ∈ key.filterClauses, k.field = g.field
      else
        (∀ x, s.Moved cfg key e x →
          Merges (s.thread.work.take n) (s.thread.work.drop n) key e (s.seen key x) s.thread.published x) ∧
        JudgesRight cfg.legacy (s.current cfg) (s.thread.work.take n) key e
  | ev => ∀ t, s.thread.next cfg ev = some t → Publishes cfg s.thread (due s.thread ev) t

/-- A slot of an entry: the entry agrees with the snapshot last seen there, and queued items account for what changed
since. -/
structure Kept (key : UnifiedKey) (e : UnifiedEntry) (x : UInt32) : Prop where
  agrees : AgreesAt (s.lastSeen cfg key x) key e x
  conjoins : Conjoins (s.lastSeen cfg key x) e
  accounted : Accounted s.thread.work key e (s.seen key x) s.thread.published x

/-- **The invariant.** -/
structure Inv : Prop where
  merged : s.thread.published.AliveMerged
  direction : ∀ key e, s.thread.Resident key e → e.direction = key.direction
  conjoins : ∀ key e, s.thread.Resident key e → Conjoins (s.current cfg) e
  kept : ∀ key e, s.thread.Resident key e → ∀ x, s.Kept cfg key e x

variable {cfg s} {s' : Watched} {t : FlushThread} {key : UnifiedKey} {e e' : UnifiedEntry} {x : UInt32}

/-- A slot is kept if the snapshot it was seen in is known. -/
theorem Kept.of_seen {seen : UnifiedKey → UInt32 → IndexState} {st : IndexState} (hseen : seen key x = st)
    (hagrees : AgreesAt (t.executor cfg st) key e x) (hconj : Conjoins (t.executor cfg st) e)
    (haccounted : Accounted t.work key e st t.published x) : Kept cfg ⟨t, seen⟩ key e x := by
  subst hseen
  exact ⟨hagrees, hconj, haccounted⟩

/-- With an empty queue an entry agrees with the published snapshot. -/
theorem Kept.agreesAt_current (h : s.Kept cfg key e x) (hconj : Conjoins (s.current cfg) e)
    (hwork : s.thread.work = []) : AgreesAt (s.current cfg) key e x := by
  have haccounted := h.accounted
  rw [hwork] at haccounted
  exact h.agrees.carry (haccounted.notMem_movedSlots h.conjoins hconj)

/-! ### Steps that form or evaluate nothing -/

omit [Host] in
/-- An executor is its snapshot and the tables. -/
theorem executor_congr (htables : t.tables = s.thread.tables) (st : IndexState) :
    t.executor cfg st = s.thread.executor cfg st := by
  rw [executor, htables, executor]

/-- Such a step brings no entry, leaves the items in the queue, and publishes as the condition asks. -/
theorem Inv.quiet (h : s.Inv cfg) {st : IndexState} (hpublishes : Publishes cfg s.thread st t)
    (hdue : ∀ key e, t.Resident key e → ∀ x, Accounted t.work key e s.thread.published st x)
    (htables : t.tables = s.thread.tables) (hresident : ∀ key e, t.Resident key e → s.thread.Resident key e)
    (hwork : ∀ b ∈ s.thread.work, b ∈ t.work) : Inv cfg ⟨t, s.seen⟩ := by
  refine ⟨hpublishes.merged, fun key e hres => h.direction key e (hresident key e hres), hpublishes.conjoins,
    fun key e hres x => ?_⟩
  have hkept := h.kept key e (hresident key e hres) x
  refine .of_seen rfl ?_ ?_ ?_
  · rw [executor_congr htables]
    exact hkept.agrees
  · rw [executor_congr htables]
    exact hkept.conjoins
  · have hnew := (hpublishes.accounted key e hres x).mono hwork
    exact (hkept.accounted.mono hwork).trans ((hdue key e hres x).trans hnew)

/-- Such a step that applies no ops and keeps the entries. -/
theorem Inv.keeps (h : s.Inv cfg) (hpublishes : Publishes cfg s.thread s.thread.published t)
    (htables : t.tables = s.thread.tables) (hcache : t.cache = s.thread.cache)
    (hwork : t.work = s.thread.work) : Inv cfg ⟨t, s.seen⟩ :=
  h.quiet hpublishes (fun _ _ _ _ => .refl) htables (fun _ _ hres => ⟨hcache ▸ hres.1, hres.2⟩) fun _ hb => hwork ▸ hb

/-- Such a step that applies no ops and clears the cache. -/
theorem Inv.clears (h : s.Inv cfg) (hpublishes : Publishes cfg s.thread s.thread.published t)
    (htables : t.tables = s.thread.tables) (hcache : t.cache = s.thread.cache.clear)
    (hwork : t.work = s.thread.work) : Inv cfg ⟨t, s.seen⟩ := by
  refine h.quiet hpublishes (fun _ _ _ _ => .refl) htables (fun key e ⟨hlookup, _⟩ => ?_) fun _ hb => hwork ▸ hb
  rw [hcache, lookup_clear] at hlookup
  cases hlookup

/-- A step that leaves the published snapshot as it is. -/
theorem Inv.of_same (h : s.Inv cfg) (hpublished : t.published = s.thread.published)
    (htables : t.tables = s.thread.tables) (hcache : t.cache = s.thread.cache)
    (hwork : t.work = s.thread.work) : Inv cfg ⟨t, s.seen⟩ := by
  refine h.keeps ⟨hpublished ▸ h.merged, fun key e hres => ?_, fun key e hres x => ?_⟩ htables hcache hwork
  · rw [executor_congr htables, hpublished]
    exact h.conjoins key e ⟨hcache ▸ hres.1, hres.2⟩
  · rw [hpublished]
    exact .refl

section Flush

variable (hasync : cfg.asyncMaintenance = true) (b : WriteBatch) (compact workerFull : Bool)

include hasync

/-- A flush leaves the entries and queues its batch if there is work in it, or it flags them all. -/
theorem resident_flushBatch (h : (s.thread.flushBatch cfg b compact workerFull).Resident key e) :
    s.thread.Resident key e ∧ (b.isEmptyWork = true ∨ b ∈ (s.thread.flushBatch cfg b compact workerFull).work) := by
  obtain ⟨hlookup, hflag⟩ := h
  simp only [flushBatch, maintainCache, hasync, if_true] at hlookup ⊢
  cases hempty : b.isEmptyWork with
  | true =>
    rw [hempty] at hlookup
    exact ⟨⟨hlookup, hflag⟩, .inl rfl⟩
  | false =>
    cases workerFull with
    | true =>
      rw [hempty] at hlookup
      rw [not_lookup_maintainAliveChanges hlookup] at hflag
      cases hflag
    | false =>
      rw [hempty] at hlookup
      exact ⟨⟨hlookup, hflag⟩, .inr (by simp)⟩

/-- **A flush** publishes what its batch accounts for. -/
theorem Inv.settle (h : s.Inv cfg) {idleTick : Bool} {lazyValueFields : List String}
    (hmeets : s.Meets cfg (.settle compact idleTick workerFull lazyValueFields))
    (ht : s.thread.next cfg (.settle compact idleTick workerFull lazyValueFields) = some t) :
    Inv cfg ⟨t, s.seen⟩ := by
  have hpublishes := hmeets t ht
  obtain ⟨c, hphase, rfl⟩ := next_settle ht
  obtain ⟨hflushes, heq⟩ | ⟨hflushes, -, heq⟩ | ⟨hflushes, -, -, heq⟩ | ⟨hflushes, -, -, heq⟩ :=
    settleCycle_cases cfg s.thread c compact idleTick workerFull lazyValueFields
  · rw [heq] at hpublishes ⊢
    simp only [due, hphase, hflushes, if_true] at hpublishes
    refine h.quiet hpublishes (fun key e hres x => ?_) rfl (fun key e hres => ?_) fun b hb => ?_
    · have hbatch : Accounted [groupAndSort c.ops] key e s.thread.published (s.thread.published.applyOps c.ops) x :=
        accounted_applyBatch _ h.merged
      rcases (resident_flushBatch hasync (.groupAndSort c.ops) compact workerFull hres).2 with hempty | hqueued
      · exact (hbatch.of_isEmptyWork hempty).mono fun b hb => absurd hb List.not_mem_nil
      · exact hbatch.mono fun b hb => List.mem_singleton.mp hb ▸ hqueued
    · exact (resident_flushBatch hasync (.groupAndSort c.ops) compact workerFull hres).1
    · show b ∈ (s.thread.flushBatch cfg (.groupAndSort c.ops) compact workerFull).work
      exact Audited.mem_work_flushBatch (s := ⟨s.thread, fun _ => ∅⟩) hb
  · rw [heq] at hpublishes ⊢
    simp only [due, hphase, hflushes, Bool.false_eq_true, if_false] at hpublishes
    exact h.keeps hpublishes rfl rfl rfl
  · rw [heq] at hpublishes ⊢
    simp only [due, hphase, hflushes, Bool.false_eq_true, if_false] at hpublishes
    exact h.clears hpublishes rfl rfl rfl
  · rw [heq] at hpublishes ⊢
    simp only [due, hphase, hflushes, Bool.false_eq_true, if_false] at hpublishes
    exact h.keeps hpublishes rfl rfl rfl

end Flush

/-- A command brings no entry and takes no item. -/
theorem Inv.command (h : s.Inv cfg) {cmd : FlushCommand} (hmeets : s.Meets cfg (.command cmd))
    (ht : s.thread.next cfg (.command cmd) = some t) : Inv cfg ⟨t, s.seen⟩ := by
  have hpublishes := hmeets t ht
  obtain ⟨c, -, rfl⟩ := next_command ht
  cases cmd with
  | forcePublish => exact h.keeps hpublishes rfl rfl rfl
  | syncUnloaded unloaded => exact h.clears hpublishes rfl rfl rfl
  | exitLoadingSaveUnload saved skipFilters skipSorts =>
    cases saved with
    | true => exact h.clears hpublishes rfl rfl rfl
    | false => exact h.keeps hpublishes rfl rfl rfl

theorem Inv.finish (h : s.Inv cfg) {idle : List (String × UInt64)} (hmeets : s.Meets cfg (.finish idle))
    (ht : s.thread.next cfg (.finish idle) = some t) : Inv cfg ⟨t, s.seen⟩ := by
  have hpublishes := hmeets t ht
  obtain ⟨c, -, rfl⟩ := next_finish ht
  obtain ⟨-, hcache, hwork⟩ := s.thread.finishCycle_keeps c idle
  have htables : (s.thread.finishCycle c idle).tables = s.thread.tables := by
    rw [finishCycle]
    split <;> rfl
  exact h.keeps hpublishes htables hcache hwork

theorem Inv.shutdown (h : s.Inv cfg) (hmeets : s.Meets cfg .shutdown)
    (ht : s.thread.next cfg .shutdown = some t) : Inv cfg ⟨t, s.seen⟩ := by
  have hpublishes := hmeets t ht
  obtain ⟨-, rfl⟩ := next_shutdown ht
  obtain ⟨-, hcache, hwork, -⟩ := s.thread.shutdownFlush_keeps
  have htables : s.thread.shutdownFlush.tables = s.thread.tables := by
    rw [shutdownFlush]
    split <;> rfl
  exact h.keeps hpublishes htables hcache hwork

/-- New tables that move nothing. -/
theorem Inv.setTables (h : s.Inv cfg) {tables : Tables} (hmeets : s.Meets cfg (.setTables tables)) :
    Inv cfg ⟨{ s.thread with tables := tables }, s.seen⟩ := by
  refine ⟨h.merged, h.direction, fun key e hres => (hmeets key e hres).1, fun key e hres x => ?_⟩
  have hkept := h.kept key e hres x
  obtain ⟨hconj, hmoved⟩ := (hmeets key e hres).2 x
  exact .of_seen rfl (hkept.agrees.carry hmoved) hconj hkept.accounted

/-! ### Forming an entry and running the worker -/

theorem Inv.store (h : s.Inv cfg) {basis : IndexState} {key₀ : UnifiedKey} {sortedSlots : List UInt32}
    {hasMore : Bool} {totalMatched : Nat} {filters : List FilterClause} {valueFn : UInt32 → Nat}
    {evicted : List UnifiedKey} {s' : Watched}
    (hmeets : s.Meets cfg (.store basis key₀ sortedSlots hasMore totalMatched filters valueFn evicted))
    (hs : s.next cfg (.store basis key₀ sortedSlots hasMore totalMatched filters valueFn evicted) =
      some s') : s'.Inv cfg := by
  obtain rfl := some.inj hs
  obtain ⟨hagrees, hbasis, hcurrent, haccounted⟩ := hmeets
  refine ⟨h.merged, fun key e ⟨hlookup, hflag⟩ => ?_, fun key e ⟨hlookup, hflag⟩ => ?_,
    fun key e ⟨hlookup, hflag⟩ x => ?_⟩
  · rcases lookup_formAndStore_some hlookup with ⟨rfl, rfl⟩ | ⟨-, hold⟩
    · rfl
    · exact h.direction key e ⟨hold, hflag⟩
  · rcases lookup_formAndStore_some hlookup with ⟨rfl, rfl⟩ | ⟨-, hold⟩
    · exact hcurrent
    · exact h.conjoins key e ⟨hold, hflag⟩
  · rcases lookup_formAndStore_some hlookup with ⟨rfl, rfl⟩ | ⟨hk, hold⟩
    · have hseen : s.seenAfter cfg (.store basis key sortedSlots hasMore totalMatched filters valueFn
          evicted) key x = basis := if_pos rfl
      exact .of_seen hseen (hagrees x) hbasis (haccounted x)
    · have hseen : s.seenAfter cfg (.store basis key₀ sortedSlots hasMore totalMatched filters valueFn
          evicted) key x = s.seen key x := if_neg hk
      have hkept := h.kept key e ⟨hold, hflag⟩ x
      exact .of_seen hseen hkept.agrees hkept.conjoins hkept.accounted

section Worker

variable {n : Nat}

/-- The snapshot of a slot that has moved and is not looked at stays the old one. -/
theorem seenAfter_of_missed (hres : s.thread.Resident key e) (hmoved : s.Moved cfg key e x)
    (hmissed : dropsBacklog cfg n = false → ¬ Evaluates (.coalesceWorkItems (s.thread.work.take n)) key e x) :
    s.seenAfter cfg (.worker n) key x = s.seen key x := by
  simp only [seenAfter, hres.1]
  exact if_pos ⟨hmoved, hmissed⟩

theorem seenAfter_of_not_missed (hres : s.thread.Resident key e) (h : ¬ (s.Moved cfg key e x ∧
      (dropsBacklog cfg n = false → ¬ Evaluates (.coalesceWorkItems (s.thread.work.take n)) key e x))) :
    s.seenAfter cfg (.worker n) key x = s.thread.published := by
  simp only [seenAfter, hres.1]
  exact if_neg h

omit [Host] in
/-- The items taken and the items left are the queue. -/
theorem accounted_take_drop {st : IndexState} (h : Accounted s.thread.work key e st s.thread.published x) (n : Nat) :
    Accounted (s.thread.work.take n ++ s.thread.work.drop n) key e st s.thread.published x := by
  rw [List.take_append_drop]
  exact h

/-- A backlog that is dropped: the entries that are left unflagged read nothing that it wrote. -/
theorem Inv.workerDrops (h : s.Inv cfg) (hmeets : s.Meets cfg (.worker n)) (hdrop : dropsBacklog cfg n = true) :
    Inv cfg ⟨s.thread.runWorker cfg n, s.seenAfter cfg (.worker n)⟩ := by
  have hcache : (s.thread.runWorker cfg n).cache = s.thread.invalidateAndDrop (s.thread.work.take n) := if_pos hdrop
  have hkeep : ∀ key e, (s.thread.runWorker cfg n).Resident key e →
      s.thread.Resident key e ∧ ¬ Invalidates (s.thread.work.take n) key := by
    intro key e hres
    rw [Resident, hcache] at hres
    exact lookup_invalidateAndDrop.mp hres
  refine ⟨h.merged, fun key e hres => h.direction key e (hkeep key e hres).1,
    fun key e hres => h.conjoins key e (hkeep key e hres).1, fun key e hres x => ?_⟩
  obtain ⟨hold, hvalid⟩ := hkeep key e hres
  have hkept := h.kept key e hold x
  by_cases hmoved : s.Moved cfg key e x
  · have hnamed := hmeets key e hold
    rw [if_pos hdrop] at hnamed
    have hmissed : dropsBacklog cfg n = false → ¬ Evaluates (.coalesceWorkItems (s.thread.work.take n)) key e x := by
      rw [hdrop]
      exact fun hfalse => Bool.noConfusion hfalse
    exact .of_seen (seenAfter_of_missed hold hmoved hmissed) hkept.agrees hkept.conjoins
      ((accounted_take_drop hkept.accounted n).afterDrop hvalid hnamed)
  · exact .of_seen (seenAfter_of_not_missed hold fun hm => hmoved hm.1) (hkept.agrees.carry hmoved)
      (h.conjoins key e hold) .refl

/-- Items that are merged and evaluated: a slot looked at or not moved is seen in the published snapshot, any other is
accounted for by the items left. -/
theorem Inv.workerEvaluates (h : s.Inv cfg) (hmeets : s.Meets cfg (.worker n)) (hdrop : dropsBacklog cfg n = false) :
    Inv cfg ⟨s.thread.runWorker cfg n, s.seenAfter cfg (.worker n)⟩ := by
  have hcache : (s.thread.runWorker cfg n).cache = s.thread.cache.maintain cfg.legacy
      (.coalesceWorkItems (s.thread.work.take n)) (s.current cfg) := if_neg (by simp [hdrop])
  have hcond : ∀ key e, s.thread.Resident key e → (∀ x, s.Moved cfg key e x →
      Merges (s.thread.work.take n) (s.thread.work.drop n) key e (s.seen key x) s.thread.published x) ∧
        JudgesRight cfg.legacy (s.current cfg) (s.thread.work.take n) key e := by
    intro key e hres
    have hmeets := hmeets key e hres
    rwa [if_neg (by simp [hdrop])] at hmeets
  have hold : ∀ key e', (s.thread.runWorker cfg n).Resident key e' →
      ∃ e, s.thread.Resident key e ∧ Maintained (s.current cfg) cfg.legacy
        (.coalesceWorkItems (s.thread.work.take n)) key e e' := by
    intro key e' hres
    rw [Resident, hcache] at hres
    obtain ⟨e, he, -, hflag⟩ := lookup_maintain_some hres.1
    have hbefore : s.thread.Resident key e := ⟨he, hflag hres.2⟩
    obtain ⟨sf, hsf, hloaded⟩ := (hcond key e hbefore).2.loaded
    exact ⟨e, hbefore, maintained he (h.direction key e hbefore) hsf hloaded hres.1 hres.2⟩
  have hconj : ∀ key e', (s.thread.runWorker cfg n).Resident key e' → Conjoins (s.current cfg) e' := by
    intro key e' hres
    obtain ⟨e, hbefore, hm⟩ := hold key e' hres
    exact (conjoins_congr hm.same.clauses).mpr (h.conjoins key e hbefore)
  refine ⟨h.merged, fun key e' hres => ?_, hconj, fun key e' hres x => ?_⟩
  · obtain ⟨e, hbefore, hm⟩ := hold key e' hres
    exact hm.same.direction.trans (h.direction key e hbefore)
  · obtain ⟨e, hbefore, hm⟩ := hold key e' hres
    obtain ⟨hmerges, hright⟩ := hcond key e hbefore
    have hkept := h.kept key e hbefore x
    by_cases hx : Evaluates (.coalesceWorkItems (s.thread.work.take n)) key e x
    · have hmerged : (s.current cfg).slots.isAlive x = true → x ∈ (s.current cfg).aliveBitmap := by
        intro halive
        show x ∈ s.thread.published.slots.alive.base
        rw [h.merged.2]
        exact (VersionedBitmap.contains_iff _).mp halive
      exact .of_seen (seenAfter_of_not_missed hbefore fun hm => hm.2 hdrop hx)
        (hm.agreesAt (h.conjoins key e hbefore) hright hmerged hx) (hconj key e' hres) .refl
    · have hsame := hm.mem_of_not_evaluates hx
      by_cases hmoved : s.Moved cfg key e x
      · obtain ⟨hnames, hdeletes⟩ := not_or.mp (mt evaluates_coalesced_iff.mpr hx)
        have hrest := (accounted_take_drop hkept.accounted n).afterMerge (hmerges x hmoved) hnames hdeletes
        exact .of_seen (seenAfter_of_missed hbefore hmoved fun _ => hx) (hkept.agrees.congr hm.same hsame)
          ((conjoins_congr hm.same.clauses).mpr hkept.conjoins) (hrest.congr hm.same.clauses)
      · exact .of_seen (seenAfter_of_not_missed hbefore fun hm => hmoved hm.1)
          ((hkept.agrees.carry hmoved).congr hm.same hsame) (hconj key e' hres) .refl

theorem Inv.worker (h : s.Inv cfg) (hmeets : s.Meets cfg (.worker n))
    (hs : s.next cfg (.worker n) = some s') : s'.Inv cfg := by
  obtain ⟨t, ht, rfl⟩ := map_eq_some_iff.mp hs
  obtain ⟨-, rfl⟩ := next_worker ht
  cases hdrop : dropsBacklog cfg n with
  | true => exact h.workerDrops hmeets hdrop
  | false => exact h.workerEvaluates hmeets hdrop

end Worker

/-! ## Runs -/

theorem Inv.step (hasync : cfg.asyncMaintenance = true) (h : s.Inv cfg) {ev : ThreadEvent}
    (hmeets : s.Meets cfg ev) (hs : s.next cfg ev = some s') : s'.Inv cfg := by
  obtain ⟨t, ht, rfl⟩ := map_eq_some_iff.mp hs
  cases ev with
  | store basis key sortedSlots hasMore totalMatched filters valueFn evicted => exact h.store hmeets hs
  | worker n => exact h.worker hmeets hs
  | setTables tables =>
    obtain rfl := some.inj ht
    exact h.setTables hmeets
  | send op | load data | setLoading loading =>
    obtain rfl := some.inj ht
    exact h.of_same rfl rfl rfl rfl
  | begin now docs promote =>
    obtain ⟨-, rfl⟩ := next_begin ht
    exact h.of_same rfl rfl rfl rfl
  | settle compact idleTick workerFull lazyValueFields => exact h.settle hasync compact workerFull hmeets ht
  | command cmd => exact h.command hmeets ht
  | finish idle => exact h.finish hmeets ht
  | shutdown => exact h.shutdown hmeets ht

/-- The thread with everything seen in the published snapshot. -/
def start (t : FlushThread) : Watched := ⟨t, fun _ _ => t.published⟩

end Watched

/-! ## The condition, evaluated -/

section Evaluated

variable {items rest : List WriteBatch} {key : UnifiedKey} {e : UnifiedEntry} {x : UInt32}

instance decidableNames : Decidable (Names items key e x) := decidable_of_iff _ triggered_coalesced_iff

instance decidableDeletes : Decidable (Deletes items x) := by
  unfold Deletes
  infer_instance

instance decidableWritesBit (b : WriteBatch) (g : FilterGroupKey) : Decidable (b.WritesBit x g) :=
  inferInstanceAs (Decidable (_ ∨ _))

instance decidableWritesAlive (b : WriteBatch) : Decidable (b.WritesAlive x) := inferInstanceAs (Decidable (_ ∨ _))

instance decidableInsertsBit (g : FilterGroupKey) : Decidable (InsertsBit items g x) := by
  unfold InsertsBit
  infer_instance

instance decidableRemovesBit (g : FilterGroupKey) : Decidable (RemovesBit items g x) := by
  unfold RemovesBit
  infer_instance

instance decidableNetWrites (g : FilterGroupKey) : Decidable (NetWrites items g x) :=
  inferInstanceAs (Decidable (_ ∨ _))

instance decidableLeavesReaching : Decidable (∃ g, LeavesGroup items g ∧ GroupReaches key e g) :=
  decidable_of_iff (Reached (coalesceWorkItems items).filterInserts (coalesceWorkItems items).filterRemoves key e)
    (exists_congr fun _ => and_congr_left fun _ => mem_groupKeys_coalesced)

instance decidableSameAlive (st st' : IndexState) : Decidable (st.SameAlive st' x) :=
  inferInstanceAs (Decidable (_ ∧ _))

instance decidableAliveMerged (st : IndexState) : Decidable st.AliveMerged := inferInstanceAs (Decidable (_ ∧ _))

/-- The slots that some items write under a filter key or create. -/
def writtenSlots (items : List WriteBatch) : Bitmap :=
  items.foldl (fun s b => s ∪ (b.filterInserts.entries ++ b.filterRemoves.entries).foldl (fun s g => s ∪ g.2)
    b.aliveInserts) ∅

theorem mem_writtenSlots {b : WriteBatch} (hb : b ∈ items) (hw : x ∈ b.aliveInserts ∨ ∃ g, b.WritesBit x g) :
    x ∈ writtenSlots items := by
  refine Postings.mem_foldl_union.mpr (.inr ⟨b, hb, Postings.mem_foldl_union.mpr (hw.imp id ?_)⟩)
  rintro ⟨g, hx | hx⟩
  · obtain ⟨entry, hentry, -, hmem⟩ := Postings.mem_ids_iff_entries.mp hx
    exact ⟨entry, List.mem_append_left _ hentry, hmem⟩
  · obtain ⟨entry, hentry, -, hmem⟩ := Postings.mem_ids_iff_entries.mp hx
    exact ⟨entry, List.mem_append_right _ hentry, hmem⟩

instance decidableMerges (st st' : IndexState) : Decidable (Merges items rest key e st st' x) :=
  decidable_of_iff _ (merges_iff items rest key e st st' x).symm

/-- Items that do not write a slot merge well for it. -/
theorem merges_of_notMem {st st' : IndexState} (h : x ∉ writtenSlots items) : Merges items rest key e st st' x :=
  ⟨fun _ hb g _ _ hw => absurd (mem_writtenSlots hb (.inr ⟨g, hw⟩)) h,
    fun ⟨_, hb, hx⟩ => absurd (mem_writtenSlots hb (.inl hx)) h⟩

instance decidableForallMerges (P : UInt32 → Prop) [DecidablePred P] (seen : UInt32 → IndexState) (st : IndexState) :
    Decidable (∀ x, P x → Merges items rest key e (seen x) st x) :=
  decidable_of_iff (∀ x ∈ writtenSlots items, P x → Merges items rest key e (seen x) st x)
    ⟨fun h x hx => if hw : x ∈ writtenSlots items then h x hw hx else merges_of_notMem hw, fun h x _ => h x⟩

namespace IndexState

variable (st : IndexState)

/-- The keys that a field stores a bitmap under. -/
def storedKeys (f : String) : List UInt64 := (st.filters.getField f).elim [] (·.bitmaps.keys)

/-- The slots with a sort value other than 0. -/
def valuedSlots (key : UnifiedKey) : Bitmap :=
  ((st.sorts.getField key.sortField).elim [] (·.bitLayers)).foldl (fun s l => s ∪ l.fused) ∅

variable {st}

theorem mem_storedKeys {f : String} {k : UInt64} (h : x ∈ st.filters.bits f k) : k ∈ st.storedKeys f := by
  unfold storedKeys
  cases hff : st.filters.getField f with
  | none =>
    rw [FilterIndex.bits_of_getField_none hff] at h
    cases h
  | some ff =>
    rw [FilterIndex.bits_of_getField hff] at h
    cases hvb : ff.getVersioned k with
    | none =>
      rw [FilterField.bits_of_none hvb] at h
      cases h
    | some vb => exact AList.mem_keys.mp (AList.lookup_isSome.mp (by rw [← FilterField.getVersioned, hvb]; rfl))

theorem valueFor_eq_zero (h : x ∉ st.valuedSlots key) : st.valueFor key x = 0 := by
  unfold valuedSlots at h
  unfold valueFor SortIndex.reconstructValue
  cases hsf : st.sorts.getField key.sortField with
  | none => rfl
  | some sf =>
    rw [hsf, Postings.mem_foldl_union, not_or] at h
    have hlayers : ∀ (ls : List VersionedBitmap) (bit : Nat), (∀ l ∈ ls, x ∉ l.fused) →
        SortField.reconstructFrom (ls.map (·.fusedContains x)) bit 0 = 0 := by
      intro ls
      induction ls with
      | nil => exact fun _ _ => rfl
      | cons l ls ih =>
        intro bit hls
        have hl : l.fusedContains x = false := by
          rw [← Bool.not_eq_true, VersionedBitmap.fusedContains_iff]
          exact hls l List.mem_cons_self
        rw [List.map_cons, SortField.reconstructFrom, hl]
        exact ih (bit + 1) fun l' hl' => hls l' (List.mem_cons_of_mem l hl')
    exact hlayers sf.bitLayers 0 fun l hl hx => h.2 ⟨l, hl, hx⟩

end IndexState

instance decidableForallAccounted (st st' : IndexState) : Decidable (∀ x, Accounted items key e st st' x) :=
  decidable_of_iff ((∀ f ∈ leafFieldsOfEach e.originalFilterClauses, ∀ k ∈ st.storedKeys f ++ st'.storedKeys f,
      ∀ x ∈ st.filters.bits f k ∪ st'.filters.bits f k,
        (x ∈ st.filters.bits f k ↔ x ∈ st'.filters.bits f k) ∨ ∃ b ∈ items, b.WritesBit x ⟨f, k⟩) ∧
    (∀ x ∈ st.valuedSlots key ∪ st'.valuedSlots key,
      st.valueFor key x = st'.valueFor key x ∨ ∃ b ∈ items, x ∈ b.mutatedSortSlots.ids key.sortField) ∧
    ∀ x ∈ (st.slots.alive.base ∪ st'.slots.alive.base) ∪ (st.slots.alive.fused ∪ st'.slots.alive.fused),
      st.SameAlive st' x ∨ ∃ b ∈ items, b.WritesAlive x) (by
    refine ⟨fun ⟨hbits, hvalue, halive⟩ x => ⟨fun f hf k => ?_, ?_, ?_⟩,
      fun h => ⟨fun f hf k _ x _ => (h x).bits f hf k, fun x _ => (h x).value, fun x _ => (h x).alive⟩⟩
    · by_cases hx : x ∈ st.filters.bits f k ∪ st'.filters.bits f k
      · refine hbits f hf k (List.mem_append.mpr ((mem_union.mp hx).imp ?_ ?_)) x hx
        · exact IndexState.mem_storedKeys
        · exact IndexState.mem_storedKeys
      · obtain ⟨hno, hno'⟩ := not_or.mp (mt mem_union.mpr hx)
        exact .inl (iff_of_false hno hno')
    · by_cases hx : x ∈ st.valuedSlots key ∪ st'.valuedSlots key
      · exact hvalue x hx
      · obtain ⟨hno, hno'⟩ := not_or.mp (mt mem_union.mpr hx)
        exact .inl ((IndexState.valueFor_eq_zero hno).trans (IndexState.valueFor_eq_zero hno').symm)
    · by_cases hx : x ∈ (st.slots.alive.base ∪ st'.slots.alive.base) ∪ (st.slots.alive.fused ∪ st'.slots.alive.fused)
      · exact halive x hx
      · simp only [mem_union, not_or] at hx
        obtain ⟨⟨hbase, hbase'⟩, hfused, hfused'⟩ := hx
        refine .inl ⟨iff_of_false hbase hbase', ?_⟩
        rw [Bool.eq_iff_iff]
        exact iff_of_false (mt (VersionedBitmap.contains_iff _).mp hfused) (mt (VersionedBitmap.contains_iff _).mp hfused'))

variable [Host]

attribute [mk_iff] AgreesAt

instance decidableAgreesAt (ex : QueryExecutor) (x : UInt32) : Decidable (AgreesAt ex key e x) :=
  decidable_of_iff _ (agreesAt_iff ex key e x).symm

instance decidableAgrees (ex : QueryExecutor) : Decidable (∀ x, AgreesAt ex key e x) :=
  decidable_of_iff (e.bitmap ⊆ resultOf ex e ∧ ∀ x ∈ resultOf ex e, ex.slots.isAlive x = true →
      x ∉ e.bitmap → e.hasMore = true ∧ entryQualifies ex key e x = false)
    ⟨fun h x => ⟨fun hx => h.1 hx, h.2 x⟩, fun h => ⟨fun x => (h x).member, fun x => (h x).outsider⟩⟩

instance decidableConjoins (ex : QueryExecutor) : Decidable (Conjoins ex e) := by
  unfold Conjoins
  infer_instance

instance decidableEvaluatorRight (legacy : UInt32 → CanonicalClause → Bool) (ex : QueryExecutor) :
    Decidable (EvaluatorRight legacy ex key e x) := by
  unfold EvaluatorRight
  infer_instance

/-- The slots that are named are those the merged batch looks at. -/
instance decidableForallNames (P : UInt32 → Prop) [DecidablePred P] : Decidable (∀ x, Names items key e x → P x) :=
  decidable_of_iff (∀ x, Triggered (coalesceWorkItems items) key e x → P x)
    (forall_congr' fun _ => imp_congr_left triggered_coalesced_iff)

attribute [mk_iff] JudgesRight

instance decidableJudgesRight (legacy : UInt32 → CanonicalClause → Bool) (ex : QueryExecutor) :
    Decidable (JudgesRight legacy ex items key e) :=
  decidable_of_iff _ (judgesRight_iff legacy ex items key e).symm

namespace Watched

variable (cfg : FlushConfig)

attribute [mk_iff] Publishes

instance decidablePublishes (t : FlushThread) (st : IndexState) (t' : FlushThread) :
    Decidable (Publishes cfg t st t') :=
  decidable_of_iff _ (publishes_iff cfg t st t').symm

/-- What new tables may do is about every slot, and is not evaluated. -/
noncomputable instance decidableMeets (s : Watched) : (ev : ThreadEvent) → Decidable (s.Meets cfg ev)
  | .setTables _ => Classical.dec _
  | .send _ | .load _ | .setLoading _ | .begin _ _ _ | .store _ _ _ _ _ _ _ _ | .worker _ | .settle _ _ _ _
  | .command _ | .finish _ | .shutdown => by
    unfold Meets
    infer_instance

end Watched

end Evaluated

/-! ## Items that cancel, and items that do not -/

section Samples

attribute [local instance] Host.ascii

def asyncConfig : FlushConfig := { inlineConfig with asyncMaintenance := true }

/-- The events of a cycle that drains some ops. -/
def cycleOf (ops : List MutationOp) : List ThreadEvent := ops.map .send ++ [beginQuiet] ++ [settleQuiet] ++ [.finish []]

/-- Slots 1 and 2 match `a = 1`; slot 3 has the value 2 of `a` and sorts before both. -/
def thirdElsewhere : IndexState where
  slots := ⟨4, .new {1, 2, 3}, []⟩
  filters := ⟨(∅ : HashMap String FilterField).insert "a"
    ⟨((∅ : HashMap UInt64 VersionedBitmap).insert 1 (.new {1, 2})).insert 2 (.new {3}), {}⟩⟩
  sorts := ⟨(∅ : HashMap String SortField).insert "v" ⟨[.new {1, 2, 3}, .new {2, 3}, .new {1, 3}]⟩⟩

/-- Slot 3 goes from one value of `a` to another. -/
def moveThird (old new : UInt64) : List MutationOp := [.filterRemove "a" old [3], .filterInsert "a" new [3]]

/-- A query on `a = 1` stores the three slots it finds in a snapshot. -/
def storeThree (st : IndexState) : ThreadEvent :=
  .store st matchesKey [3, 1, 2] false 3 [.eq "a" (.integer 1)]
    (QueryExecutor.sortValue ⟨st.slots, st.filters, st.sorts, 100, .empty⟩ "v") []

def watchedElsewhere : Watched := .start (.initial thirdElsewhere {} .empty)

/-- Slot 3 comes to `a = 1`, a query stores its result, slot 3 goes back, and then the worker runs. -/
def crossedRun (st : IndexState) : List ThreadEvent :=
  cycleOf (moveThird 2 1) ++ [storeThree st] ++ cycleOf (moveThird 1 2) ++ [.worker 2]

def watchedMatches : Watched := .start (.initial twoMatchesState {} .empty)

/-- Slot 2 leaves `a = 1`. -/
def removeSecond : List MutationOp := [.filterRemove "a" 1 [2]]

/-- Two cycles whose items the worker merges: slot 3 comes and slot 2 goes. -/
def mergedRun : List ThreadEvent :=
  [storeMatches] ++ cycleOf (thirdOps [0, 1, 2]) ++ cycleOf removeSecond ++ [.worker 2]

end Samples

end Bitdex
