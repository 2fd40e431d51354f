import Bitdex.Engine.Persisted
import Bitdex.Write.Diff

/-!
# `Engine.Activation` — what a cycle makes of a slot that is due

At the top of a cycle the flush thread makes every due slot alive and takes it off the schedule. The stored document
is replayed as a fresh insert, together with the ops that the cycle drains; a slot whose document cannot be read is
scheduled again and taken back. A slot should come out `Activated` or `Waiting`. The replay of a document due later
than its slot only schedules the slot again: it stays alive in no bitmap (`due_again_is_alive_bare`).
-/

namespace Bitdex

open Settle SlotAllocator List IndexState

/-- The slot shows its document, but for the bits that drained ops write. -/
structure Activated (cfg : Config) (st : IndexState) (slot : UInt32) (doc : Document) (drained : List MutationOp) :
    Prop where
  undrained : ∀ t, st.Has t → bitWrites t slot drained = [] → (st.bit t slot = true ↔ cfg.Shows doc t)
  drained : ∀ t, st.Has t → ∀ v, (bitWrites t slot drained).getLast? = some v → st.bit t slot = v

/-- The slot is out of the index and scheduled. -/
structure Waiting (st : IndexState) (slot : UInt32) : Prop where
  dead : st.slots.isAlive slot = false
  filters : ∀ f k, slot ∉ st.filters.bits f k
  sorts : ∀ f b, slot ∉ st.sorts.layer f b
  scheduled : st.slots.deferredAt slot ≠ []

/-! ## The condition -/

/-- The ops of one due slot. -/
def replayOps (cfg : Config) (docs : UInt32 → Option Document) (now : UInt64) (slot : UInt32) : List MutationOp :=
  (docs slot).elim [.aliveRemove [slot]] fun doc => diffDocument slot none doc cfg false now

/-- What the slot held before is in the document or cleared; the document is not due later, or the slot held all of
it; and the last drained write of a bit is the one a batch prefers, or nothing in the batch writes that one. -/
structure TakesUp (cfg : Config) (st : IndexState) (slot : UInt32) (doc : Document) (now : UInt64)
    (drained : List MutationOp) : Prop where
  stale : ∀ t, st.Has t → bitWrites t slot drained = [] → st.bit t slot = true →
    cfg.Shows doc t ∨ false ∈ bitWrites t slot (diffDocument slot none doc cfg false now)
  due : ∀ t, st.Has t → bitWrites t slot drained = [] → cfg.Shows doc t →
    cfg.deferredUntil doc now = none ∨ st.bit t slot = true
  last_wins : ∀ t, st.Has t → ∀ v, (bitWrites t slot drained).getLast? = some v → v = t.preferred ∨
    t.preferred ∉ bitWrites t slot (diffDocument slot none doc cfg false now) ∧ t.preferred ∉ bitWrites t slot drained

/-- Nothing puts the slot into a bitmap, what it was in is cleared, it is made dead, and it stays scheduled. -/
structure StaysOut (st : IndexState) (slot : UInt32) (ops : List MutationOp) : Prop where
  dead : false ∈ bitWrites .alive slot ops ∨ (true ∉ bitWrites .alive slot ops ∧ st.bit .alive slot = false)
  unset : ∀ t, st.Has t → t ≠ .alive → true ∉ bitWrites t slot ops
  cleared : ∀ t, st.Has t → t ≠ .alive → st.bit t slot = true → false ∈ bitWrites t slot ops
  scheduled : (ops.filterMap (·.deferredMut)).foldl (reschedule slot) (st.slots.deferredAt slot) ≠ []

section Ops

variable {cfg : Config} {docs : UInt32 → Option Document} {now : UInt64} {slot : UInt32} {t : Target} {v : Bool}
  {op : MutationOp} {doc : Document}

/-- **What a replay can be**: the slot is scheduled again and nothing else, or bits of the slot are written. -/
theorem replayOps_cases (cfg : Config) (docs : UInt32 → Option Document) (now : UInt64) (slot : UInt32) :
    (∃ activateAt, replayOps cfg docs now slot = [.deferredAlive slot activateAt]) ∨
      ∀ op ∈ replayOps cfg docs now slot, op.WritesOnly slot := by
  unfold replayOps
  cases docs slot with
  | none =>
    refine .inr fun op hop => ?_
    obtain rfl : op = .aliveRemove [slot] := mem_singleton.mp hop
    rfl
  | some doc => exact insertOps_cases cfg slot doc now

theorem eq_of_write_replayOps {x : UInt32} (hop : op ∈ replayOps cfg docs now slot)
    (hwrite : op.write t x = some v) : x = slot := by
  rcases replayOps_cases cfg docs now slot with ⟨activateAt, hreplay⟩ | hreplay
  · rw [hreplay] at hop
    obtain rfl := mem_singleton.mp hop
    cases hwrite
  · exact (hreplay op hop).eq_of_write hwrite

theorem eq_of_deferredMut_replayOps {m : UInt32 × Option UInt64} (hop : op ∈ replayOps cfg docs now slot)
    (hmut : op.deferredMut = some m) :
    ∃ activateAt, replayOps cfg docs now slot = [.deferredAlive slot activateAt] ∧ m = (slot, some activateAt) := by
  rcases replayOps_cases cfg docs now slot with ⟨activateAt, hreplay⟩ | hreplay
  · refine ⟨activateAt, hreplay, ?_⟩
    rw [hreplay] at hop
    obtain rfl := mem_singleton.mp hop
    exact (Option.some.inj hmut).symm
  · rw [(hreplay op hop).deferredMut_eq] at hmut
    cases hmut

theorem preferred_of_ne_alive (ht : t ≠ .alive) : t.preferred = true := by
  cases t with
  | alive => exact absurd rfl ht
  | _ => rfl

/-- When the replay alone leaves what the document shows in a bit. -/
theorem settle_replay_iff {bit : Bool} :
    ((settle t.preferred (bitWrites t slot (diffDocument slot none doc cfg false now))).getD bit = true ↔
        cfg.Shows doc t) ↔
      (bit = true → cfg.Shows doc t ∨ false ∈ bitWrites t slot (diffDocument slot none doc cfg false now)) ∧
        (cfg.Shows doc t → cfg.deferredUntil doc now = none ∨ bit = true) := by
  cases hdue : cfg.deferredUntil doc now with
  | some activateAt =>
    -- the replay writes no bit
    have hnil : bitWrites t slot (diffDocument slot none doc cfg false now) = [] := by
      rw [diffDocument, hdue]
      rfl
    rw [hnil]
    simp only [settle_eq_none_iff.mpr, Option.getD_none, not_mem_nil, or_false, reduceCtorEq, false_or]
    exact iff_iff_implies_and_implies
  | none =>
    have hshown : cfg.shownBit slot doc now t = true ↔ cfg.Shows doc t := shownBit_iff hdue
    rw [Config.shownBit] at hshown
    by_cases ht : t = .alive
    · -- alive is always shown, and the replay sets it whatever it was
      subst ht
      have hset := hshown.mpr trivial
      have hsettle : settle Target.alive.preferred
          (bitWrites .alive slot (diffDocument slot none doc cfg false now)) = some true := by
        revert hset
        cases settle Target.alive.preferred
          (bitWrites .alive slot (diffDocument slot none doc cfg false now)) with
        | none => exact fun h => absurd h Bool.false_ne_true
        | some v => exact congrArg some
      rw [hsettle]
      exact iff_of_true (iff_of_true rfl trivial) ⟨fun _ => .inl trivial, fun _ => .inl rfl⟩
    · rw [preferred_of_ne_alive ht, getD_settle_true_iff] at hshown ⊢
      simp only [Bool.false_eq_true, and_false, or_false] at hshown
      tauto

/-! ## The activations of a cycle, seen from one slot -/

theorem mem_activationOps {activated : List UInt32} :
    op ∈ activationOps cfg docs now activated ↔ ∃ slot ∈ activated, op ∈ replayOps cfg docs now slot := by
  simp only [activationOps, mem_append, mem_flatMap, mem_map, mem_filter]
  constructor
  · rintro (⟨slot, hslot, hop⟩ | ⟨slot, ⟨hslot, hnone⟩, rfl⟩)
    · refine ⟨slot, hslot, ?_⟩
      cases hdoc : docs slot with
      | none => simp [hdoc] at hop
      | some doc => simpa [replayOps, hdoc] using hop
    · refine ⟨slot, hslot, ?_⟩
      rw [replayOps, Option.isNone_iff_eq_none.mp hnone]
      exact mem_cons_self
  · rintro ⟨slot, hslot, hop⟩
    cases hdoc : docs slot with
    | none =>
      rw [replayOps, hdoc] at hop
      exact .inr ⟨slot, ⟨hslot, by rw [hdoc]; rfl⟩, (mem_singleton.mp hop).symm⟩
    | some doc =>
      rw [replayOps, hdoc] at hop
      exact .inl ⟨slot, hslot, by rw [hdoc]; exact hop⟩

/-- Of all activations only its own writes bits of a due slot. -/
theorem mem_bitWrites_activationOps {activated : List UInt32} (hslot : slot ∈ activated) :
    v ∈ bitWrites t slot (activationOps cfg docs now activated) ↔
      v ∈ bitWrites t slot (replayOps cfg docs now slot) := by
  simp only [bitWrites, mem_filterMap, mem_activationOps]
  constructor
  · rintro ⟨op, ⟨slot', -, hop⟩, hwrite⟩
    obtain rfl := eq_of_write_replayOps hop hwrite
    exact ⟨op, hop, hwrite⟩
  · rintro ⟨op, hop, hwrite⟩
    exact ⟨op, ⟨slot, hslot, hop⟩, hwrite⟩

theorem foldl_reschedule_of_absent {muts : List (UInt32 × Option UInt64)} (h : ∀ m ∈ muts, slot ≠ m.1)
    (times : List UInt64) : muts.foldl (reschedule slot) times = times :=
  foldl_view id (fun m hm _ => if_neg (h m hm)) times

/-- Mutations that agree about a slot act as one. -/
theorem foldl_reschedule_of_agree {muts : List (UInt32 × Option UInt64)} {o : Option UInt64}
    (hmem : (slot, o) ∈ muts) (h : ∀ m ∈ muts, m.1 = slot → m.2 = o) (times : List UInt64) :
    muts.foldl (reschedule slot) times = o.toList := by
  induction muts using reverseRecOn with
  | nil => cases hmem
  | append_singleton muts m ih =>
    rw [foldl_append, foldl_cons, foldl_nil, reschedule]
    split
    · next hm => rw [h m (by simp) hm.symm]
    · next hm =>
      rcases mem_append.mp hmem with hmem | hmem
      · exact ih hmem fun m' hm' => h m' (mem_append_left _ hm')
      · exact absurd (congrArg Prod.fst (mem_singleton.mp hmem)) hm

/-- Of all activations only its own reschedules a due slot. -/
theorem reschedule_activationOps {activated : List UInt32} (hslot : slot ∈ activated) (times : List UInt64) :
    ((activationOps cfg docs now activated).filterMap (·.deferredMut)).foldl (reschedule slot) times =
      ((replayOps cfg docs now slot).filterMap (·.deferredMut)).foldl (reschedule slot) times := by
  have hmut : ∀ m ∈ (activationOps cfg docs now activated).filterMap (·.deferredMut), m.1 = slot →
      ∃ activateAt, replayOps cfg docs now slot = [.deferredAlive slot activateAt] ∧ m.2 = some activateAt := by
    intro m hm heq
    obtain ⟨op, hop, hm⟩ := mem_filterMap.mp hm
    obtain ⟨slot', -, hop⟩ := mem_activationOps.mp hop
    obtain ⟨activateAt, hreplay, rfl⟩ := eq_of_deferredMut_replayOps hop hm
    obtain rfl : slot' = slot := heq
    exact ⟨activateAt, hreplay, rfl⟩
  rcases replayOps_cases cfg docs now slot with ⟨activateAt, hreplay⟩ | hreplay
  · have hmem : (slot, some activateAt) ∈ (activationOps cfg docs now activated).filterMap (·.deferredMut) := by
      refine mem_filterMap.mpr ⟨.deferredAlive slot activateAt, mem_activationOps.mpr ⟨slot, hslot, ?_⟩, rfl⟩
      rw [hreplay]
      exact mem_cons_self
    rw [foldl_reschedule_of_agree hmem, hreplay]
    · simp [MutationOp.deferredMut, reschedule]
    · intro m hm heq
      obtain ⟨activateAt', hreplay', hat⟩ := hmut m hm heq
      rw [hreplay] at hreplay'
      cases hreplay'
      exact hat
  · -- the replay writes bits only, so nothing names the slot
    have hnone : (replayOps cfg docs now slot).filterMap (·.deferredMut) = [] :=
      filterMap_eq_nil_iff.mpr fun op hop => (hreplay op hop).deferredMut_eq
    rw [hnone, foldl_reschedule_of_absent]
    · rfl
    · intro m hm heq
      obtain ⟨activateAt, hone, -⟩ := hmut m hm heq.symm
      exact hreplay _ (hone ▸ mem_cons_self)

end Ops

/-! ## The index after the batch -/

namespace IndexState

variable {st : IndexState} {ops : List MutationOp} {t : Target} {slot : UInt32}

theorem bit_applyDrained (hhas : st.Has t) :
    (st.applyDrained ops).bit t slot = (settle t.preferred (bitWrites t slot ops)).getD (st.bit t slot) := by
  rw [applyDrained]
  split
  · next hops => rw [hops]; rfl
  · exact bit_applyOps hhas

theorem deferredAt_applyDrained : (st.applyDrained ops).slots.deferredAt slot =
      (ops.filterMap (·.deferredMut)).foldl (reschedule slot) (st.slots.deferredAt slot) := by
  rw [applyDrained]
  split
  · next hops => rw [hops]; rfl
  · exact deferredAt_applyOps

end IndexState

namespace FlushThread

variable (cfg : FlushConfig) (s : FlushThread) (now : UInt64) (docs : UInt32 → Option Document) (promote : Bool)

/-- The index that the batch of a cycle is applied to. -/
def prepared : IndexState := s.prepareStaging promote { s.staging with slots := (s.activate cfg now docs).1 }

theorem staging_beginCycle : (s.beginCycle cfg now docs promote).staging =
      (s.prepared cfg now docs promote).applyDrained (s.cycleOps cfg now docs) := rfl

theorem cycleOps_eq : s.cycleOps cfg now docs = activationOps cfg.config docs now (s.activated now) ++ s.queue := by
  rw [cycleOps, activate, activated]
  split <;> rfl

variable {cfg s now docs promote} {slot : UInt32} {t : Target}

theorem has_beginCycle : (s.beginCycle cfg now docs promote).staging.Has t ↔ (s.prepared cfg now docs promote).Has t :=
  has_applyDrained

variable (hslot : slot ∈ s.activated now)
include hslot

/-- A due slot sees its own replay and the drained ops. -/
theorem bit_beginCycle (hhas : (s.prepared cfg now docs promote).Has t) :
    (s.beginCycle cfg now docs promote).staging.bit t slot =
      (settle t.preferred (bitWrites t slot (replayOps cfg.config docs now slot ++ s.queue))).getD
        ((s.prepared cfg now docs promote).bit t slot) := by
  rw [staging_beginCycle, bit_applyDrained hhas, cycleOps_eq]
  congr 1
  refine settle_congr fun v => ?_
  rw [bitWrites_append, bitWrites_append, mem_append, mem_append, mem_bitWrites_activationOps hslot]

theorem deferredAt_beginCycle : (s.beginCycle cfg now docs promote).staging.slots.deferredAt slot =
      ((replayOps cfg.config docs now slot ++ s.queue).filterMap (·.deferredMut)).foldl
        (reschedule slot) ((s.prepared cfg now docs promote).slots.deferredAt slot) := by
  rw [staging_beginCycle, deferredAt_applyDrained, cycleOps_eq, filterMap_append,
    filterMap_append, foldl_append, foldl_append, reschedule_activationOps hslot]

/-! ## Each outcome -/

theorem activated_iff {doc : Document} (hdoc : docs slot = some doc) :
    Activated cfg.config (s.beginCycle cfg now docs promote).staging slot doc s.queue ↔
      TakesUp cfg.config (s.prepared cfg now docs promote) slot doc now s.queue := by
  have hreplay : replayOps cfg.config docs now slot = diffDocument slot none doc cfg.config false now := by
    rw [replayOps, hdoc]
    rfl
  have hbit : ∀ t, (s.prepared cfg now docs promote).Has t →
      (s.beginCycle cfg now docs promote).staging.bit t slot = (settle t.preferred
        (bitWrites t slot (diffDocument slot none doc cfg.config false now) ++ bitWrites t slot s.queue)).getD
          ((s.prepared cfg now docs promote).bit t slot) := by
    intro t hhas
    rw [bit_beginCycle hslot hhas, hreplay, bitWrites_append]
  constructor
  · intro h
    have hreplayed : ∀ t, (s.prepared cfg now docs promote).Has t → bitWrites t slot s.queue = [] →
        ((settle t.preferred (bitWrites t slot (diffDocument slot none doc cfg.config false now))).getD
          ((s.prepared cfg now docs promote).bit t slot) = true ↔ cfg.config.Shows doc t) := by
      intro t hhas hnil
      have hshown := h.undrained t (has_beginCycle.mpr hhas) hnil
      rwa [hbit t hhas, hnil, append_nil] at hshown
    refine ⟨fun t hhas hnil => (settle_replay_iff.mp (hreplayed t hhas hnil)).1,
      fun t hhas hnil => (settle_replay_iff.mp (hreplayed t hhas hnil)).2, ?_⟩
    intro t hhas v hlast
    have hv := h.drained t (has_beginCycle.mpr hhas) v hlast
    rw [hbit t hhas] at hv
    exact (getD_settle_append_eq_last_iff hlast).mp hv
  · intro h
    constructor
    · intro t hhas hnil
      have hhas := has_beginCycle.mp hhas
      rw [hbit t hhas, hnil, append_nil]
      exact settle_replay_iff.mpr ⟨h.stale t hhas hnil, h.due t hhas hnil⟩
    · intro t hhas v hlast
      have hhas := has_beginCycle.mp hhas
      rw [hbit t hhas]
      exact (getD_settle_append_eq_last_iff hlast).mpr (h.last_wins t hhas v hlast)

/-- A filter or sort bit ends clear exactly if nothing sets it and it was clear or is cleared. -/
theorem bit_beginCycle_eq_false_iff (hhas : (s.prepared cfg now docs promote).Has t) (ht : t ≠ .alive) :
    (s.beginCycle cfg now docs promote).staging.bit t slot = false ↔
      true ∉ bitWrites t slot (replayOps cfg.config docs now slot ++ s.queue) ∧
        ((s.prepared cfg now docs promote).bit t slot = true →
          false ∈ bitWrites t slot (replayOps cfg.config docs now slot ++ s.queue)) := by
  rw [bit_beginCycle hslot hhas, preferred_of_ne_alive ht, ← Bool.not_eq_true, getD_settle_true_iff]
  tauto

theorem waiting_iff : Waiting (s.beginCycle cfg now docs promote).staging slot ↔
      StaysOut (s.prepared cfg now docs promote) slot (replayOps cfg.config docs now slot ++ s.queue) := by
  have halive : (s.prepared cfg now docs promote).Has .alive := trivial
  have hdead : (s.beginCycle cfg now docs promote).staging.slots.isAlive slot = false ↔
      false ∈ bitWrites .alive slot (replayOps cfg.config docs now slot ++ s.queue) ∨
        (true ∉ bitWrites .alive slot (replayOps cfg.config docs now slot ++ s.queue) ∧
          (s.prepared cfg now docs promote).bit .alive slot = false) := by
    rw [isAlive_eq_bit, bit_beginCycle hslot halive]
    exact getD_settle_false_iff
  constructor
  · intro h
    have hclear : ∀ t, (s.prepared cfg now docs promote).Has t → t ≠ .alive →
        (s.beginCycle cfg now docs promote).staging.bit t slot = false := by
      intro t _ ht
      cases t with
      | filter f k => exact decide_eq_false (h.filters f k)
      | sort f b => exact decide_eq_false (h.sorts f b)
      | alive => exact absurd rfl ht
    refine ⟨hdead.mp h.dead, ?_, ?_, ?_⟩
    · intro t hhas ht
      exact ((bit_beginCycle_eq_false_iff hslot hhas ht).mp (hclear t hhas ht)).1
    · intro t hhas ht
      exact ((bit_beginCycle_eq_false_iff hslot hhas ht).mp (hclear t hhas ht)).2
    · rw [← deferredAt_beginCycle hslot]
      exact h.scheduled
  · intro h
    have hclear : ∀ t, t ≠ .alive → (s.beginCycle cfg now docs promote).staging.bit t slot = false := by
      intro t ht
      by_cases hhas : (s.prepared cfg now docs promote).Has t
      · exact (bit_beginCycle_eq_false_iff hslot hhas ht).mpr ⟨h.unset t hhas ht, h.cleared t hhas ht⟩
      · exact bit_eq_false fun hh => hhas (has_beginCycle.mp hh)
    refine ⟨hdead.mpr h.dead, ?_, ?_, ?_⟩
    · intro f k
      exact of_decide_eq_false (hclear (.filter f k) nofun)
    · intro f b
      exact of_decide_eq_false (hclear (.sort f b) nofun)
    · rw [deferredAt_beginCycle hslot]
      exact h.scheduled

end FlushThread

/-- **Activation is all or nothing**, for every due slot, exactly under the condition. -/
theorem beginCycle_activates_iff (cfg : FlushConfig) (s : FlushThread) (now : UInt64)
    (docs : UInt32 → Option Document) (promote : Bool) : (∀ slot ∈ s.activated now, (∃ doc, docs slot = some doc ∧
          Activated cfg.config (s.beginCycle cfg now docs promote).staging slot doc s.queue) ∨
        Waiting (s.beginCycle cfg now docs promote).staging slot) ↔
      ∀ slot ∈ s.activated now, (∃ doc, docs slot = some doc ∧
          TakesUp cfg.config (s.prepared cfg now docs promote) slot doc now s.queue) ∨
        StaysOut (s.prepared cfg now docs promote) slot (replayOps cfg.config docs now slot ++ s.queue) := by
  refine forall₂_congr fun slot hslot => or_congr (exists_congr fun doc => and_congr_right fun hdoc => ?_) ?_
  · exact FlushThread.activated_iff hslot hdoc
  · exact FlushThread.waiting_iff hslot

/-! ### An image that is due at 5 and published at 100 -/

section Samples

def imageFlush : FlushConfig := { inlineConfig with config := imageConfig }

/-- Slot 0 is due at 5. -/
def dueImages : FlushThread := .initial { emptyImages with slots := new.scheduleAlive 0 5 } {} .empty

def publishedLater : UInt32 → Option Document := fun _ => some (image none (some 100))

/-- At 10 the slot is made alive, in no bitmap: the replay only schedules it for 100. -/
theorem due_again_is_alive_bare : 0 ∈ dueImages.activated 10 ∧
      (dueImages.beginCycle imageFlush 10 publishedLater false).staging.slots.isAlive 0 = true ∧
      0 ∉ (dueImages.beginCycle imageFlush 10 publishedLater false).staging.filters.bits "isPublished" 1 ∧
      imageConfig.Shows (image none (some 100)) (.filter "isPublished" 1) ∧
      ¬((∃ doc, publishedLater 0 = some doc ∧ Activated imageFlush.config
            (dueImages.beginCycle imageFlush 10 publishedLater false).staging 0 doc dueImages.queue) ∨
          Waiting (dueImages.beginCycle imageFlush 10 publishedLater false).staging 0) := by
  have halive : (dueImages.beginCycle imageFlush 10 publishedLater false).staging.slots.isAlive 0 = true := by
    decide +kernel
  have hbare : 0 ∉ (dueImages.beginCycle imageFlush 10 publishedLater false).staging.filters.bits "isPublished" 1 := by
    decide +kernel
  have hshows : imageConfig.Shows (image none (some 100)) (.filter "isPublished" 1) := by
    -- what an insert after the publication time shows
    have hshown : imageConfig.shownBit 0 (image none (some 100)) 200 (.filter "isPublished" 1) = true := by
      decide +kernel
    exact (shownBit_iff (by decide +kernel)).mp hshown
  refine ⟨by decide +kernel, halive, hbare, hshows, ?_⟩
  rintro (⟨doc, hdoc, hact⟩ | hwait)
  · obtain rfl : image none (some 100) = doc := Option.some.inj hdoc
    have hhas : (dueImages.beginCycle imageFlush 10 publishedLater false).staging.Has (.filter "isPublished" 1) := by
      decide +kernel
    exact hbare ((mem_bits_iff_bit _ _ _).mpr ((hact.undrained _ hhas rfl).mpr hshows))
  · rw [hwait.dead] at halive
    cases halive

end Samples

end Bitdex
