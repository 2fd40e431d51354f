import Bitdex.Engine.Activation

/-!
# `Engine.Deleted` — a deleted slot stays dead

A delete sends the ops that clear a slot's bits and, last, an `AliveRemove` (`concurrent_engine.rs`), which wins over
every insert of its batch. After that three things could bring the slot back: a later op that sets its alive bit, an
index put in the place of staging, and the activation of a schedule from before the delete, which the delete does not
cancel; the WAL reader sends the cancel by itself, after the ops of the delete.

`AliveStep` says once what any step can do to the alive bit of a slot. From it follow the invariants `Behind`, `Dying`
and `Gone`, and from them `no_resurrection`.
-/

namespace Bitdex

open Settle IndexState VersionedBitmap Option

/-! ## The alive bit through batches and loads -/

namespace IndexState

variable {st : IndexState} {ops : List MutationOp} {x : UInt32}

theorem isAlive_applyDrained :
    (st.applyDrained ops).slots.isAlive x = (settle false (bitWrites .alive x ops)).getD (st.slots.isAlive x) := by
  have hhas : st.Has .alive := trivial
  rw [isAlive_eq_bit, isAlive_eq_bit, bit_applyDrained hhas]
  rfl

/-- A remove wins over everything in its batch. -/
theorem isAlive_applyDrained_of_remove (h : false ∈ bitWrites .alive x ops) :
    (st.applyDrained ops).slots.isAlive x = false := by
  rw [isAlive_applyDrained, settle_eq_ite, if_pos h, getD_some]

/-- A batch that does not insert the slot does not make it alive. -/
theorem isAlive_applyDrained_of_no_insert (hdead : st.slots.isAlive x = false) (h : true ∉ bitWrites .alive x ops) :
    (st.applyDrained ops).slots.isAlive x = false := by
  rw [isAlive_applyDrained, settle_eq_ite]
  split
  · rfl
  · rw [Bool.not_false, if_neg h]
    exact hdead

/-- Loads that agree about a slot leave its alive bit as it is. -/
theorem isAlive_applyLoads {loads : List LazyLoad} {alive : Bool} (hst : st.slots.isAlive x = alive)
    (h : ∀ sa, .slots sa ∈ loads → sa.isAlive x = alive) : (st.applyLoads loads).slots.isAlive x = alive := by
  induction loads generalizing st with
  | nil => exact hst
  | cons load loads ih =>
    refine ih ?_ fun sa hsa => h sa (List.mem_cons_of_mem load hsa)
    cases load with
    | filterField name bitmaps | filterValues field values requested | sortField name layers => exact hst
    | slots sa => exact h sa List.mem_cons_self

end IndexState

namespace FlushThread

/-! ## What a step does to the alive bit -/

/-- An index that replaces staging, or is read from disk into it, has the slot's alive bit as staging does; writes and
cycles bring none. -/
def SlotsAgree (x : UInt32) (t : FlushThread) : ThreadEvent → Prop
  | .begin _ _ _ => ∀ sa, .slots sa ∈ t.loads.take 1 → sa.isAlive x = t.staging.slots.isAlive x
  | .command .forcePublish => ∀ sa, .slots sa ∈ t.loads → sa.isAlive x = t.staging.slots.isAlive x
  | .command (.syncUnloaded unloaded) => unloaded.slots.isAlive x = t.staging.slots.isAlive x
  | .command (.exitLoadingSaveUnload saved _ _) =>
    saved = true → t.published.slots.isAlive x = t.staging.slots.isAlive x
  | _ => True

/-- **One step, seen from the alive bit of a slot.** -/
inductive AliveStep (x : UInt32) (t t' : FlushThread) : ThreadEvent → Prop where
  /-- An op is queued. -/
  | sent {op : MutationOp} (staging : t'.staging.slots.isAlive x = t.staging.slots.isAlive x)
      (published : t'.published.slots.isAlive x = t.published.slots.isAlive x) (queue : t'.queue = t.queue ++ [op])
      (dirty : t'.stagingDirty = t.stagingDirty) : AliveStep x t t' (.send op)
  /-- A cycle activates what is due and drains the queue. -/
  | begun {now : UInt64} {docs : UInt32 → Option Document} {promote : Bool}
      (removed : false ∈ bitWrites .alive x t.queue → t'.staging.slots.isAlive x = false)
      (unread : x ∈ t.activated now → docs x = none → t'.staging.slots.isAlive x = false)
      (untouched : x ∉ t.activated now → t.staging.slots.isAlive x = false → true ∉ bitWrites .alive x t.queue →
        t'.staging.slots.isAlive x = false)
      (dirty : t.staging.slots.isAlive x = true ∨ t.stagingDirty = true →
        t'.staging.slots.isAlive x = true ∨ t'.stagingDirty = true)
      (published : t'.published.slots.isAlive x = t.published.slots.isAlive x) (queue : t'.queue = []) :
      AliveStep x t t' (.begin now docs promote)
  /-- The queue is drained and the result published. -/
  | drained {ev : ThreadEvent}
      (staging : t'.staging.slots.isAlive x =
        (settle false (bitWrites .alive x t.queue)).getD (t.staging.slots.isAlive x))
      (published : t'.published.slots.isAlive x = t'.staging.slots.isAlive x) (queue : t'.queue = []) :
      AliveStep x t t' ev
  /-- Staging and the queue stay as they are; staging may be published. -/
  | kept {ev : ThreadEvent} (staging : t'.staging.slots.isAlive x = t.staging.slots.isAlive x)
      (published : t'.published.slots.isAlive x = t'.staging.slots.isAlive x ∨
        t'.published.slots.isAlive x = t.published.slots.isAlive x ∧ t'.stagingDirty = t.stagingDirty)
      (queue : t'.queue = t.queue) : AliveStep x t t' ev

section Begin

variable {cfg : FlushConfig} {x : UInt32} {t : FlushThread} {now : UInt64} {docs : UInt32 → Option Document}
  {promote : Bool}

/-- Activations write the alive bit of due slots only. -/
theorem bitWrites_activationOps_of_notMem {activated : List UInt32} {target : Target} (hx : x ∉ activated) :
    bitWrites target x (activationOps cfg.config docs now activated) = [] := by
  rw [bitWrites, List.filterMap_eq_nil_iff]
  intro op hop
  obtain ⟨slot, hslot, hop⟩ := mem_activationOps.mp hop
  cases hwrite : op.write target x with
  | none => rfl
  | some v =>
    rw [eq_of_write_replayOps hop hwrite] at hx
    exact absurd hslot hx

/-- A slot that is not due, or is alive already, goes into the batch as it was. -/
theorem isAlive_prepared (hagree : t.SlotsAgree x (.begin now docs promote))
    (h : x ∉ t.activated now ∨ t.staging.slots.isAlive x = true) :
    (t.prepared cfg now docs promote).slots.isAlive x = t.staging.slots.isAlive x := by
  have hactivate : (t.activate cfg now docs).1.isAlive x = t.staging.slots.isAlive x := by
    rw [Bool.eq_iff_iff]
    show contains _ x = true ↔ contains _ x = true
    rw [alive_activate, contains_iff, contains_iff,
      mem_fused_insertBulk]
    refine ⟨fun hmem => ?_, .inr⟩
    rcases h with hx | halive
    · exact hmem.resolve_left hx
    · exact (contains_iff _).mp halive
  refine isAlive_applyLoads ?_ hagree
  cases promote with
  | true | false => exact hactivate

theorem aliveStep_begin (hagree : t.SlotsAgree x (.begin now docs promote)) :
    AliveStep x t (t.beginCycle cfg now docs promote) (.begin now docs promote) := by
  have hwrites : bitWrites .alive x (t.cycleOps cfg now docs) =
      bitWrites .alive x (activationOps cfg.config docs now (t.activated now)) ++ bitWrites .alive x t.queue := by
    rw [cycleOps_eq, bitWrites_append]
  refine .begun ?_ ?_ ?_ ?_ rfl rfl
  · intro hremove
    refine isAlive_applyDrained_of_remove ?_
    rw [hwrites]
    exact List.mem_append_right _ hremove
  · -- the replay of a document that cannot be read is a remove
    intro hdue hnone
    refine isAlive_applyDrained_of_remove ?_
    rw [hwrites]
    refine List.mem_append_left _ ((mem_bitWrites_activationOps hdue).mpr ?_)
    rw [replayOps, hnone]
    simp [bitWrites, MutationOp.write]
  · intro hdue hdead hinsert
    refine isAlive_applyDrained_of_no_insert ((isAlive_prepared hagree (.inl hdue)).trans hdead) ?_
    rw [hwrites, bitWrites_activationOps_of_notMem hdue]
    exact hinsert
  · rintro (halive | hdirty)
    · -- without ops nothing takes the slot out, with ops staging is dirty
      cases hops : t.cycleOps cfg now docs with
      | nil =>
        rw [staging_beginCycle, hops]
        exact .inl ((isAlive_prepared hagree (.inr halive)).trans halive)
      | cons op ops =>
        refine .inr ?_
        simp [beginCycle, hops]
    · refine .inr ?_
      simp [beginCycle, hdirty]

end Begin

section Steps

variable {cfg : FlushConfig} {x : UInt32} {t t' : FlushThread} {ev : ThreadEvent}

/-- The second part of a cycle publishes staging or leaves everything. -/
theorem aliveStep_settle [Host] (c : Cycle) (compact idleTick workerFull : Bool) (lazyValueFields : List String) :
    AliveStep x t (t.settleCycle cfg c compact idleTick workerFull lazyValueFields) ev := by
  obtain ⟨-, heq⟩ | ⟨-, -, heq⟩ | ⟨-, -, -, heq⟩ | ⟨-, -, -, heq⟩ :=
    settleCycle_cases cfg t c compact idleTick workerFull lazyValueFields
  · rw [heq]
    refine .kept ?_ (.inl rfl) rfl
    cases compact with
    | true | false => rfl
  · rw [heq]
    exact .kept rfl (.inl rfl) rfl
  · rw [heq]
    exact .kept rfl (.inl rfl) rfl
  · rw [heq]
    exact .kept rfl (.inr ⟨rfl, rfl⟩) rfl

/-- Draining the queue into an index that has the alive bit as staging has it, and publishing the result. -/
theorem aliveStep_drain (st : IndexState) (hst : st.slots.isAlive x = t.staging.slots.isAlive x)
    (hstaging : t'.staging.slots = (st.applyDrained t.queue).slots) (hpublished : t'.published = t'.staging)
    (hqueue : t'.queue = []) : AliveStep x t t' ev := by
  refine .drained ?_ (by rw [hpublished]) hqueue
  rw [hstaging, isAlive_applyDrained, hst]

theorem aliveStep_command {cmd : FlushCommand} (hagree : t.SlotsAgree x (.command cmd)) :
    AliveStep x t (t.runCommand cmd) (.command cmd) := by
  cases cmd with
  | forcePublish =>
    refine aliveStep_drain (t.staging.applyLoads t.loads) (isAlive_applyLoads rfl hagree) ?_ rfl rfl
    show slots (if t.queue = [] then _ else _) = _
    rw [applyDrained]
    split
    · rfl
    · rfl
  | syncUnloaded unloaded =>
    exact aliveStep_drain unloaded hagree rfl rfl rfl
  | exitLoadingSaveUnload saved skipFilters skipSorts =>
    cases saved with
    | true => exact .kept (hagree rfl) (.inl rfl) rfl
    | false => exact .kept rfl (.inr ⟨rfl, rfl⟩) rfl

/-- Evicting values leaves the slots alone. -/
theorem slots_evictValues (st : IndexState) (values : List (String × UInt64)) :
    (st.evictValues values).slots = st.slots := by
  induction values generalizing st with
  | nil => rfl
  | cons v values ih => exact ih _

/-- The third part publishes unless staging is as clean as before. -/
theorem aliveStep_finish (c : Cycle) (idle : List (String × UInt64)) : AliveStep x t (t.finishCycle c idle) ev := by
  have hslots := slots_evictValues t.staging (t.staging.evictable idle)
  rw [finishCycle]
  split
  · exact .kept rfl (.inr ⟨rfl, rfl⟩) rfl
  · refine .kept (congrArg (SlotAllocator.isAlive · x) hslots) ?_ rfl
    cases hpublishes : !(t.staging.evictable idle).isEmpty ||
        (c.ops.isEmpty && (c.lazyLoaded || t.stagingDirty)) with
    | true =>
      refine .inl ?_
      simp [hpublishes]
    | false =>
      -- a dirty staging is published by a cycle without ops
      refine .inr ⟨?_, ?_⟩
      · simp [hpublishes, Bool.false_eq_true]
      · show (t.stagingDirty && !(c.ops.isEmpty && !c.lazyLoaded)) = t.stagingDirty
        cases hdirty : t.stagingDirty with
        | false => rfl
        | true =>
          rw [hdirty, Bool.or_true, Bool.and_true, Bool.or_eq_false_iff] at hpublishes
          rw [hpublishes.2]
          rfl

theorem aliveStep_shutdown : AliveStep x t t.shutdownFlush ev := by
  rw [shutdownFlush]
  split
  · exact .kept rfl (.inr ⟨rfl, rfl⟩) rfl
  · next hne =>
    refine aliveStep_drain t.staging rfl ?_ rfl rfl
    rw [applyDrained, if_neg hne]
    rfl

/-- **Every step** is one of the four. -/
theorem aliveStep_of_next [Host] (hagree : t.SlotsAgree x ev) (h : t.next cfg ev = some t') : AliveStep x t t' ev := by
  cases ev with
  | send op =>
    obtain rfl := some.inj h
    exact .sent rfl rfl rfl rfl
  | load data | setLoading loading | setTables tables
  | store basis key sortedSlots hasMore totalMatched filters valueFn evicted =>
    obtain rfl := some.inj h
    exact .kept rfl (.inr ⟨rfl, rfl⟩) rfl
  | worker n =>
    obtain ⟨-, rfl⟩ := next_worker h
    exact .kept rfl (.inr ⟨rfl, rfl⟩) rfl
  | begin now docs promote =>
    obtain ⟨-, rfl⟩ := next_begin h
    exact aliveStep_begin hagree
  | settle compact idleTick workerFull lazyValueFields =>
    obtain ⟨c, -, rfl⟩ := next_settle h
    exact aliveStep_settle c compact idleTick workerFull lazyValueFields
  | command cmd =>
    obtain ⟨c, -, rfl⟩ := next_command h
    exact aliveStep_command hagree
  | finish idle =>
    obtain ⟨c, -, rfl⟩ := next_finish h
    exact aliveStep_finish c idle
  | shutdown =>
    obtain ⟨-, rfl⟩ := next_shutdown h
    exact aliveStep_shutdown

end Steps

/-! ## From the delete on -/

/-- **The condition** on a step after the delete: no op sets the slot's alive bit, and a cycle that activates the slot
drains a remove of it or cannot read its document. -/
def Quiet (x : UInt32) (t : FlushThread) (ev : ThreadEvent) : Prop :=
  t.SlotsAgree x ev ∧
    match ev with
    | .send op => op.write .alive x ≠ some true
    | .begin now docs _ => x ∈ t.activated now → docs x = none ∨ false ∈ bitWrites .alive x t.queue
    | _ => True

/-- What the snapshot shows alive and staging does not is still to be published. -/
def Behind (x : UInt32) (t : FlushThread) : Prop :=
  t.published.slots.isAlive x = true → t.staging.slots.isAlive x = true ∨ t.stagingDirty = true

/-- The slot is dead in staging and nothing queued brings it back, or a remove of it is queued. -/
def Dying (x : UInt32) (t : FlushThread) : Prop :=
  false ∈ bitWrites .alive x t.queue ∨
    (t.staging.slots.isAlive x = false ∧ true ∉ bitWrites .alive x t.queue)

/-- The slot is dead everywhere and nothing queued brings it back. -/
structure Gone (x : UInt32) (t : FlushThread) : Prop where
  staging : t.staging.slots.isAlive x = false
  published : t.published.slots.isAlive x = false
  queue : true ∉ bitWrites .alive x t.queue

/-- The channel is empty and what was drained from it has been published. -/
def Drained (t : FlushThread) : Prop := t.queue = [] ∧ t.stagingDirty = false

section Run

variable {x : UInt32} {t t' : FlushThread} {ev : ThreadEvent}

theorem Behind.step (h : t.Behind x) (hstep : AliveStep x t t' ev) : t'.Behind x := by
  intro halive
  cases hstep with
  | sent staging published queue dirty =>
    rw [staging, dirty]
    exact h (published ▸ halive)
  | begun removed unread untouched dirty published queue => exact dirty (h (published ▸ halive))
  | drained staging published queue => exact .inl (published ▸ halive)
  | kept staging published queue =>
    rcases published with hnow | ⟨hsame, hdirty⟩
    · exact .inl (hnow ▸ halive)
    · rw [staging, hdirty]
      exact h (hsame ▸ halive)

/-- A queue that is drained into a dying slot leaves it dead. -/
theorem Dying.settle_eq_false (h : t.Dying x) :
    (settle false (bitWrites .alive x t.queue)).getD (t.staging.slots.isAlive x) = false := by
  rw [settle_eq_ite]
  split
  · rfl
  · next hno =>
    obtain ⟨hdead, hinsert⟩ := h.resolve_left hno
    rw [Bool.not_false, if_neg hinsert]
    exact hdead

/-- **What the queue comes to**: a step after the delete leaves it, but for an op that does not insert the slot, or
drains it and leaves the slot dead. -/
theorem Dying.cases (h : t.Dying x) (hquiet : t.Quiet x ev) (hstep : AliveStep x t t' ev) :
    (t'.staging.slots.isAlive x = t.staging.slots.isAlive x ∧
        ∃ writes, bitWrites .alive x t'.queue = bitWrites .alive x t.queue ++ writes ∧ true ∉ writes) ∨
      (t'.staging.slots.isAlive x = false ∧ t'.queue = []) := by
  cases hstep with
  | @sent op staging published queue dirty =>
    refine .inl ⟨staging, bitWrites .alive x [op], by rw [queue, bitWrites_append], fun hmem => ?_⟩
    obtain ⟨op', hop', hwrite⟩ := List.mem_filterMap.mp hmem
    rw [List.mem_singleton.mp hop'] at hwrite
    exact hquiet.2 hwrite
  | @begun now docs promote removed unread untouched dirty published queue =>
    refine .inr ⟨?_, queue⟩
    rcases h with hremove | ⟨hdead, hinsert⟩
    · exact removed hremove
    · by_cases hdue : x ∈ t.activated now
      · rcases hquiet.2 hdue with hnone | hremove
        · exact unread hdue hnone
        · exact removed hremove
      · exact untouched hdue hdead hinsert
  | drained staging published queue => exact .inr ⟨staging.trans h.settle_eq_false, queue⟩
  | kept staging published queue =>
    refine .inl ⟨staging, [], ?_, List.not_mem_nil⟩
    rw [queue, List.append_nil]

theorem Dying.step (h : t.Dying x) (hquiet : t.Quiet x ev) (hstep : AliveStep x t t' ev) : t'.Dying x := by
  rcases h.cases hquiet hstep with ⟨hstaging, writes, hqueue, hwrites⟩ | ⟨hdead, hqueue⟩
  · rw [Dying, hstaging, hqueue]
    rcases h with hremove | ⟨hdead, hinsert⟩
    · exact .inl (List.mem_append_left _ hremove)
    · exact .inr ⟨hdead, fun hmem => (List.mem_append.mp hmem).elim hinsert hwrites⟩
  · rw [Dying, hqueue]
    exact .inr ⟨hdead, List.not_mem_nil⟩

/-- Nothing brings back a slot that is dead everywhere. -/
theorem Gone.step (h : t.Gone x) (hquiet : t.Quiet x ev) (hstep : AliveStep x t t' ev) : t'.Gone x := by
  have hdying : t.Dying x := .inr ⟨h.staging, h.queue⟩
  have hdead : t'.staging.slots.isAlive x = false ∧ true ∉ bitWrites .alive x t'.queue := by
    rcases hdying.cases hquiet hstep with ⟨hstaging, writes, hqueue, hwrites⟩ | ⟨hdead, hqueue⟩
    · rw [hstaging, hqueue]
      exact ⟨h.staging, fun hmem => (List.mem_append.mp hmem).elim h.queue hwrites⟩
    · rw [hqueue]
      exact ⟨hdead, List.not_mem_nil⟩
  -- what is published is the old snapshot or staging
  have hpublished : t'.published.slots.isAlive x = false := by
    cases hstep with
    | sent staging published queue dirty => exact published.trans h.published
    | begun removed unread untouched dirty published queue => exact published.trans h.published
    | drained staging published queue => exact published.trans hdead.1
    | kept staging published queue =>
      rcases published with hnow | ⟨hsame, -⟩
      · exact hnow.trans hdead.1
      · exact hsame.trans h.published
  exact ⟨hdead.1, hpublished, hdead.2⟩

/-- A drained channel leaves a dying slot dead in the snapshot too. -/
theorem Dying.gone (h : t.Dying x) (hbehind : t.Behind x) (hdrained : t.Drained) : t.Gone x := by
  obtain ⟨hqueue, hclean⟩ := hdrained
  rw [Dying, hqueue] at h
  obtain ⟨hdead, hinsert⟩ := h.resolve_left List.not_mem_nil
  refine ⟨hdead, ?_, by rw [hqueue]; exact hinsert⟩
  by_contra halive
  rcases hbehind (by simpa using halive) with halive | hdirty
  · rw [hdead] at halive
    cases halive
  · rw [hclean] at hdirty
    cases hdirty

end Run

section Main

variable [Host] {cfg : FlushConfig} {x : UInt32}

/-- The ops of a delete end with a remove of the slot. -/
theorem dying_of_delete {t t' : FlushThread} (h : t.next cfg (.send (.aliveRemove [x])) = some t') : t'.Dying x := by
  obtain rfl := some.inj h
  refine .inl (List.mem_filterMap.mpr ⟨.aliveRemove [x], List.mem_append_right _ List.mem_cons_self, ?_⟩)
  simp [MutationOp.write]

/-- **No resurrection.** Whatever ran before: once the delete has been submitted and the steps that follow meet the
condition, from the first state on in which the channel is drained the slot is alive neither in staging nor in the
published snapshot. -/
theorem no_resurrection {st : IndexState} {cacheConfig : UnifiedCacheConfig} {tables : Tables}
    {before after later : List ThreadEvent} {t₁ t₂ t t' : FlushThread}
    (hbefore : Reaches (fun t ev t' => t.next cfg ev = some t') (SlotsAgree x) (.initial st cacheConfig tables)
      before t₁) (hdelete : t₁.next cfg (.send (.aliveRemove [x])) = some t₂)
    (hafter : Reaches (fun t ev t' => t.next cfg ev = some t') (Quiet x) t₂ after t) (hdrained : t.Drained)
    (hlater : Reaches (fun t ev t' => t.next cfg ev = some t') (Quiet x) t later t') :
    t'.staging.slots.isAlive x = false ∧ t'.published.slots.isAlive x = false := by
  have hbehind₁ : t₁.Behind x :=
    hbefore.invariant (fun _ t => t.Behind x) .inl fun _ _ _ _ h hagree hs => h.step (aliveStep_of_next hagree hs)
  have hagree : t₁.SlotsAgree x (.send (.aliveRemove [x])) := trivial
  have hbehind₂ : t₂.Behind x := hbehind₁.step (aliveStep_of_next hagree hdelete)
  have hinv : t.Behind x ∧ t.Dying x := by
    refine hafter.invariant (fun _ t => t.Behind x ∧ t.Dying x) ⟨hbehind₂, dying_of_delete hdelete⟩ ?_
    intro _ s ev s' h hquiet hs
    have hstep := aliveStep_of_next hquiet.1 hs
    exact ⟨h.1.step hstep, h.2.step hquiet hstep⟩
  have hgone : t'.Gone x := by
    refine hlater.invariant (fun _ t => t.Gone x) (hinv.2.gone hinv.1 hdrained) ?_
    intro _ s ev s' h hquiet hs
    exact h.step hquiet (aliveStep_of_next hquiet.1 hs)
  exact ⟨hgone.staging, hgone.published⟩

end Main

/-! ## An image that is scheduled for 100 and deleted before -/

section Samples

attribute [local instance] Host.ascii

/-- A cycle at some time; the document of slot 0 is in the store, a delete leaves it there. -/
def imageCycle (now : UInt64) : List ThreadEvent := [.begin now publishedLater false, settleQuiet, .finish []]

/-- The insert of an image with a publication time of 100, drained at 10. -/
def scheduleImage : List ThreadEvent :=
  (diffDocument 0 none (image none (some 100)) imageConfig false 10).map .send ++ imageCycle 10

def deleteImage : List ThreadEvent := (deleteOps 0 (some (image none (some 100))) imageConfig).map .send

/-- The delete is drained at 20. -/
def deletedRun : List ThreadEvent := scheduleImage ++ deleteImage ++ imageCycle 20

/-- The delete is drained at 99, and the cancel that the WAL reader sends after it comes too late for that cycle. -/
def cancelledRun : List ThreadEvent := scheduleImage ++ deleteImage ++ imageCycle 99

def noImages : FlushThread := .initial emptyImages {} .empty

def imageStep (t : FlushThread) (ev : ThreadEvent) : Option FlushThread := t.next imageFlush ev

/-- The thread after some events. -/
def afterEvents (events : List ThreadEvent) : Option FlushThread := events.foldlM imageStep noImages

instance decidableDrained (t : FlushThread) : Decidable t.Drained :=
  inferInstanceAs (Decidable (t.queue = [] ∧ t.stagingDirty = false))

theorem reaches_drained (events : List ThreadEvent) (alive : Bool)
    (h : ∃ t, afterEvents events = some t ∧ t.Drained ∧ t.published.slots.isAlive 0 = alive) :
    ∃ t, Reaches (fun t ev t' => t.next imageFlush ev = some t') (fun _ _ => True) noImages events t ∧ t.Drained ∧
      t.published.slots.isAlive 0 = alive :=
  Computed.of_true.exists_end h

/-- The schedule survives the delete: with everything drained and slot 0 dead, the cycle at 100 makes it alive again.
A cancel drained by that same cycle does not help. -/
theorem stale_schedule_resurrects :
    (∃ t t', Reaches (fun t ev t' => t.next imageFlush ev = some t') (fun _ _ => True) noImages deletedRun t ∧
        t.Drained ∧ t.published.slots.isAlive 0 = false ∧
      Reaches (fun t ev t' => t.next imageFlush ev = some t') (fun _ _ => True) noImages
        (deletedRun ++ imageCycle 100) t' ∧ t'.Drained ∧ t'.published.slots.isAlive 0 = true) ∧
    ∃ t t', Reaches (fun t ev t' => t.next imageFlush ev = some t') (fun _ _ => True) noImages cancelledRun t ∧
        t.Drained ∧ t.published.slots.isAlive 0 = false ∧
      Reaches (fun t ev t' => t.next imageFlush ev = some t') (fun _ _ => True) noImages
        (cancelledRun ++ (.send (.deferredCancel 0) :: imageCycle 100)) t' ∧ t'.Drained ∧
      t'.published.slots.isAlive 0 = true := by
  obtain ⟨t₁, hreach₁, hdrained₁, hdead₁⟩ := reaches_drained deletedRun false (by decide +kernel)
  obtain ⟨t₂, hback⟩ := reaches_drained (deletedRun ++ imageCycle 100) true (by decide +kernel)
  obtain ⟨t₃, hreach₃, hdrained₃, hdead₃⟩ := reaches_drained cancelledRun false (by decide +kernel)
  obtain ⟨t₄, hlate⟩ := reaches_drained (cancelledRun ++ (.send (.deferredCancel 0) :: imageCycle 100)) true
    (by decide +kernel)
  exact ⟨⟨t₁, t₂, hreach₁, hdrained₁, hdead₁, hback⟩, t₃, t₄, hreach₃, hdrained₃, hdead₃, hlate⟩

/-! The same image, deleted with its schedule in one batch. -/

instance decidableForallSlots (loads : List LazyLoad) (P : SlotAllocator → Prop) [DecidablePred P] :
    Decidable (∀ sa, .slots sa ∈ loads → P sa) :=
  have (load : LazyLoad) : Decidable (∀ sa, load = .slots sa → P sa) := by
    cases load with
    | slots sa => exact decidable_of_iff (P sa) ⟨fun h _ heq => by cases heq; exact h, fun h => h sa rfl⟩
    | _ => exact isTrue nofun
  decidable_of_iff (∀ load ∈ loads, ∀ sa, load = .slots sa → P sa)
    ⟨fun h sa hsa => h _ hsa sa rfl, fun h load hload sa heq => h sa (heq ▸ hload)⟩

instance decidableSlotsAgree (x : UInt32) (t : FlushThread) : (ev : ThreadEvent) → Decidable (t.SlotsAgree x ev)
  | .begin _ _ _ | .command .forcePublish | .command (.syncUnloaded _) | .command (.exitLoadingSaveUnload _ _ _) => by
    unfold SlotsAgree
    infer_instance
  | .send _ | .load _ | .setLoading _ | .setTables _ | .store _ _ _ _ _ _ _ _ | .worker _ | .settle _ _ _ _ | .finish _
  | .shutdown => isTrue trivial

instance decidableQuiet (x : UInt32) (t : FlushThread) : (ev : ThreadEvent) → Decidable (Quiet x t ev)
  | .send _ | .begin _ _ _ => inferInstanceAs (Decidable (_ ∧ (_ → _)))
  | .load _ | .setLoading _ | .setTables _ | .store _ _ _ _ _ _ _ _ | .worker _ | .settle _ _ _ _ | .command _
  | .finish _ | .shutdown => inferInstanceAs (Decidable (_ ∧ True))

/-- The image is scheduled, and its bits are cleared. -/
def clearedRun : List ThreadEvent :=
  [] ++ (diffDocument 0 none (image none (some 100)) imageConfig false 10).map .send ++ imageCycle 10 ++
    (clearOldOps imageConfig 0 (image none (some 100))).map .send

def clearedImage : FlushThread := (afterEvents clearedRun).getD noImages

def deletedImage : FlushThread := { clearedImage with queue := clearedImage.queue ++ [.aliveRemove [0]] }

/-- The schedule is cancelled before the delete is drained. -/
def withCancel : List ThreadEvent := [] ++ [.deferredCancel 0].map .send ++ imageCycle 20

def drainedImage : FlushThread := (withCancel.foldlM imageStep deletedImage).getD deletedImage

theorem no_resurrection_cancelled :
    ∃ t', Reaches (fun t ev t' => t.next imageFlush ev = some t') (Quiet 0) drainedImage ([] ++ imageCycle 100) t' ∧
      t'.staging.slots.isAlive 0 = false ∧ t'.published.slots.isAlive 0 = false := by
  have hempty : drainedImage.Drained := by decide +kernel
  -- the steps meet the condition: nothing inserts the slot, and it is never due
  have hbefore : Computed imageStep (Quiet 0) noImages clearedRun :=
    .of_along (by decide +kernel)
  have hafter : Computed imageStep (Quiet 0) deletedImage withCancel :=
    .of_along (by decide +kernel)
  have hcycle : Computed imageStep (Quiet 0) drainedImage ([] ++ imageCycle 100) :=
    .of_along (by decide +kernel)
  have hcleared : clearedRun.foldlM imageStep noImages = some clearedImage :=
    (getD_of_ne_none (by decide +kernel) noImages).symm
  have hdrained : withCancel.foldlM imageStep deletedImage = some drainedImage :=
    (getD_of_ne_none (by decide +kernel) deletedImage).symm
  have hlater : (([] ++ imageCycle 100).foldlM imageStep drainedImage).isSome = true := by decide +kernel
  obtain ⟨t', ht'⟩ := isSome_iff_exists.mp hlater
  have hreach : Reaches (fun t ev t' => imageStep t ev = some t') (SlotsAgree 0) noImages clearedRun clearedImage :=
    (hbefore _ hcleared).mono fun _ _ h => h.1
  exact ⟨t', hcycle t' ht', no_resurrection hreach rfl (hafter _ hdrained) hempty (hcycle t' ht')⟩

end Samples

end FlushThread

end Bitdex
