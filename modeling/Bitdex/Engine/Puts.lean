import Bitdex.Write.Grouping
import Bitdex.Write.Refresh

/-!
# `Engine.Puts` — puts against the flush thread

`put` reads the alive bit from the published snapshot and the old document from the store, diffs, and sends the ops to
one queue and the document to another (`concurrent_engine.rs`). The flush thread drains the op queue into staging,
publishes it, and later drains the document queue into the store. Both queues lag behind, so a put can diff against a
document that is no longer, or not yet, what the slot shows. Two puts without a flush in between leave the values of
both (`overlapping_puts_leave_both`).
-/

namespace Bitdex

open List IndexState Option

/-! ## The engine as seen by one slot -/

/-- How far the current `put` or `put_many` call on the slot has come. -/
inductive Call where
  | idle
  /-- The alive and allocation status are read; old documents are read one by one. -/
  | reading (isUpsert wasAllocated : Bool) (done : List ((Document × UInt64) × Option Document))
      (todo : List (Document × UInt64))
  /-- The ops are sent; the documents are not enqueued yet. -/
  | sent (docs : List Document)

/-- The state that matters for one slot. `stored` is what the document store returns for it. -/
structure Engine where
  published : IndexState
  staging : IndexState
  opQueue : List MutationOp
  docQueue : List Document
  stored : Option Document
  call : Call

/-- Steps of the caller and of the flush thread. A put carries the clock its diff will read. -/
inductive EngineEvent where
  | begin (puts : List (Document × UInt64))
  | readDoc
  | send
  | enqueue
  | flush (n : Nat)
  | publish
  | writeDocs (n : Nat)

namespace Engine

variable (cfg : Config) (defaults : Document) (slot : UInt32)

/-- One step; `none` if it is not possible. A `put` is a `put_many` of one document. A call's ops reach the queue one
by one, so a drain may take any number. -/
def step (e : Engine) : EngineEvent → Option Engine
  | .begin puts =>
    match e.call with
    | .idle =>
      let isUpsert := e.published.slots.isAlive slot
      let wasAllocated := !isUpsert && e.published.slots.wasEverAllocated slot
      some { e with call := .reading isUpsert wasAllocated [] puts }
    | _ => none
  | .readDoc =>
    match e.call with
    | .reading isUpsert wasAllocated done (p :: todo) =>
      let oldDoc := if isUpsert || wasAllocated then e.stored else none
      some { e with call := .reading isUpsert wasAllocated (done ++ [(p, oldDoc)]) todo }
    | _ => none
  | .send =>
    match e.call with
    | .reading isUpsert _ done [] =>
      let ops := done.flatMap fun p => diffDocument slot p.2 p.1.1 cfg isUpsert p.1.2
      some { e with opQueue := e.opQueue ++ ops, call := .sent (done.map (·.1.1)) }
    | _ => none
  | .enqueue =>
    match e.call with
    | .sent docs => some { e with docQueue := e.docQueue ++ docs, call := .idle }
    | _ => none
  | .flush n =>
    -- `prepare` returns 0 and nothing is applied when the drain is empty
    if e.opQueue.take n = [] then some e
    else some { e with staging := e.staging.applyOps (e.opQueue.take n), opQueue := e.opQueue.drop n }
  | .publish => some { e with published := e.staging }
  | .writeDocs n =>
    let stored := ((e.docQueue.take n).getLast?.map (·.readBack defaults)).or e.stored
    some { e with stored := stored, docQueue := e.docQueue.drop n }

/-- An engine at rest with nothing stored for the slot. -/
def initial (st : IndexState) : Engine := ⟨st, st, [], [], none, .idle⟩

/-- Both queues are drained and the snapshot is published. -/
def Drained (e : Engine) : Prop := e.opQueue = [] ∧ e.docQueue = [] ∧ e.published = e.staging

/-- The condition on a step: a call starts on a drained engine and puts at most one document into the slot, which
spells out the fields with a schema default and meets `Refreshable` against what the slot shows. The flush thread's
steps are free. -/
def Meets (e : Engine) : EngineEvent → Prop
  | .begin puts =>
    e.Drained ∧ puts.length ≤ 1 ∧ ∀ p ∈ puts, Complete defaults p.1 ∧
      Refreshable cfg (if e.published.slots.isAlive slot then e.stored else none) p.1 p.2
  | _ => True

end Engine

/-- The documents a run has put, in order. -/
def EngineEvent.puts : EngineEvent → List (Document × UInt64)
  | .begin puts => puts
  | _ => []

/-- The last document put in a run, with its clock. -/
def lastPut (es : List EngineEvent) : Option (Document × UInt64) := (es.flatMap (·.puts)).getLast?

theorem lastPut_append (es : List EngineEvent) (ev : EngineEvent) :
    lastPut (es ++ [ev]) = ev.puts.getLast?.or (lastPut es) := by
  simp [lastPut, flatMap_append, getLast?_append]

/-! ## The invariant -/

namespace Engine

section Invariant

variable (cfg : Config) (defaults : Document) (slot : UInt32) (st₀ : IndexState)

/-- What the slot shows after a put alone; nothing before the first put. -/
def shown (c : Option (Document × UInt64)) (t : Target) : Bool := c.elim false fun p => cfg.shownBit slot p.1 p.2 t

/-- The ops still queued take every bit to what the put shows, however they are flushed. -/
def BitsPending (e : Engine) (c : Option (Document × UInt64)) : Prop :=
  (∀ t, e.staging.Has t ↔ st₀.Has t) ∧
    ∀ t, st₀.Has t →
      Settle.Settling t.preferred (bitWrites t slot e.opQueue) ∧
        (bitWrites t slot e.opQueue).getLast?.getD (e.staging.bit t slot) = shown cfg slot c t

/-- The documents still queued take the stored document to the one put. -/
def DocPending (e : Engine) (c : Option (Document × UInt64)) : Prop :=
  (e.docQueue.getLast?.map (·.readBack defaults)).or e.stored = c.map (·.1.readBack defaults)

/-- The invariant of a run, call phase by call phase. -/
def Invariant (es : List EngineEvent) (e : Engine) : Prop :=
  (∀ p, lastPut es = some p → Complete defaults p.1) ∧
  match e.call with
  | .idle => BitsPending cfg slot st₀ e (lastPut es) ∧ DocPending defaults e (lastPut es)
  | .reading isUpsert wasAllocated done todo =>
    -- the engine is drained and stays so while the call reads
    e.Drained ∧ ∃ c, (∀ p, c = some p → Complete defaults p.1) ∧
      BitsPending cfg slot st₀ e c ∧ DocPending defaults e c ∧ isUpsert = shown cfg slot c .alive ∧
      ((done = [] ∧ todo = [] ∧ lastPut es = c) ∨
        ∃ p, lastPut es = some p ∧ Refreshable cfg (if isUpsert then e.stored else none) p.1 p.2 ∧
          ((done = [] ∧ todo = [p]) ∨
            (done = [(p, if isUpsert || wasAllocated then e.stored else none)] ∧ todo = [])))
  | .sent docs =>
    BitsPending cfg slot st₀ e (lastPut es) ∧
      ((docs = [] ∧ DocPending defaults e (lastPut es)) ∨
        ∃ p, lastPut es = some p ∧ docs = [p.1])

variable {cfg defaults slot st₀} {e e' : Engine} {c : Option (Document × UInt64)}
  {es : List EngineEvent} {ev : EngineEvent} {n : Nat}

/-! ### Steps of the flush thread -/

theorem bitWrites_take_drop (t : Target) (slot : UInt32) (ops : List MutationOp) (n : Nat) :
    bitWrites t slot ops = bitWrites t slot (ops.take n) ++ bitWrites t slot (ops.drop n) := by
  rw [← bitWrites_append, take_append_drop]

/-- Flushing some ops leaves the rest pending. -/
theorem BitsPending.flush (h : BitsPending cfg slot st₀ e c)
    (hstep : e.step cfg defaults slot (.flush n) = some e') : BitsPending cfg slot st₀ e' c := by
  simp only [step] at hstep
  split at hstep
  · cases hstep
    exact h
  · cases hstep
    refine ⟨fun t => has_applyOps.trans (h.1 t), fun t ht => ?_⟩
    obtain ⟨hsettling, hlast⟩ := h.2 t ht
    rw [bitWrites_take_drop t slot e.opQueue n] at hsettling hlast
    refine ⟨hsettling.of_append_right, ?_⟩
    show (bitWrites t slot (e.opQueue.drop n)).getLast?.getD
      ((e.staging.applyOps (e.opQueue.take n)).bit t slot) = _
    rw [bit_applyOps ((h.1 t).mpr ht), hsettling.flush, hlast]

/-- Writing some documents leaves the rest pending. -/
theorem DocPending.writeDocs (h : DocPending defaults e c)
    (hstep : e.step cfg defaults slot (.writeDocs n) = some e') : DocPending defaults e' c := by
  cases hstep
  unfold DocPending at h ⊢
  rw [← h]
  have hlast : e.docQueue.getLast? = (e.docQueue.drop n).getLast?.or (e.docQueue.take n).getLast? := by
    rw [← getLast?_append, take_append_drop]
  rw [hlast]
  cases (e.docQueue.drop n).getLast? <;> simp

/-- On a drained engine the flush thread has nothing to do. -/
theorem Drained.flushThread (h : e.Drained) (hev : ev = .flush n ∨ ev = .publish ∨ ev = .writeDocs n)
    (hstep : e.step cfg defaults slot ev = some e') : e' = e := by
  obtain ⟨hops, hdocs, hpub⟩ := h
  rcases hev with rfl | rfl | rfl
  · simp only [step, hops, take_nil, if_true, some.injEq] at hstep
    exact hstep.symm
  · cases e
    cases hpub
    cases hstep
    rfl
  · simp only [step, hdocs, take_nil, drop_nil, getLast?_nil, map_none,
      none_or, some.injEq] at hstep
    rw [← hstep, ← hdocs]

/-! ### Steps of the caller -/

theorem shown_alive_iff : shown cfg slot c .alive = true ↔ ∃ p, c = some p ∧ cfg.deferredUntil p.1 p.2 = none := by
  cases c with
  | none => simp [shown]
  | some p =>
    cases h : cfg.deferredUntil p.1 p.2 with
    | none =>
      have hshows : cfg.shownBit slot p.1 p.2 .alive = true := (shownBit_iff h).mpr trivial
      simp [shown, hshows, h]
    | some activateAt => simp [shown, shownBit_of_deferred h, h]

/-- A slot that is not alive shows nothing. -/
theorem shown_eq_false (h : shown cfg slot c .alive = false) (t : Target) : shown cfg slot c t = false := by
  cases c with
  | none => rfl
  | some p =>
    cases hd : cfg.deferredUntil p.1 p.2 with
    | none =>
      have halive : shown cfg slot (some p) .alive = true := shown_alive_iff.mpr ⟨p, rfl, hd⟩
      rw [halive] at h
      cases h
    | some activateAt => exact shownBit_of_deferred hd

/-- A live slot shows its document as it is read back. -/
theorem shown_iff_readBack {p : Document × UInt64} (hcomplete : Complete defaults p.1)
    (hd : cfg.deferredUntil p.1 p.2 = none) (t : Target) :
    shown cfg slot (some p) t = true ↔ cfg.Shows (p.1.readBack defaults) t :=
  (shownBit_iff hd).trans (Config.shows_congr hcomplete.alike_readBack)

/-- **Sending the ops of a put** against the document the slot shows. -/
theorem BitsPending.send (h : BitsPending cfg slot st₀ e c) (hdrained : e.Drained)
    (hdoc : DocPending defaults e c) (hcomplete : ∀ p, c = some p → Complete defaults p.1)
    {isUpsert : Bool} (wasAllocated : Bool) (halive : isUpsert = shown cfg slot c .alive)
    {p : Document × UInt64}
    (hput : Refreshable cfg (if isUpsert then e.stored else none) p.1 p.2) {t : Target} (ht : st₀.Has t) :
    let ops := diffDocument slot (if isUpsert || wasAllocated then e.stored else none) p.1 cfg isUpsert p.2
    Settle.Settling t.preferred (bitWrites t slot ops) ∧
      (bitWrites t slot ops).getLast?.getD (e.staging.bit t slot) = shown cfg slot (some p) t := by
  intro ops
  have hbit : e.staging.bit t slot = shown cfg slot c t := by
    have hlast := (h.2 t ht).2
    rw [hdrained.1] at hlast
    exact hlast
  rw [hbit]
  refine diffDocument_refreshes ?_ ?_ ?_ t
  · intro hup
    obtain ⟨q, rfl, hd⟩ := shown_alive_iff.mp (halive.symm.trans hup)
    have hstored : e.stored = some (q.1.readBack defaults) := by
      unfold DocPending at hdoc
      rw [hdrained.2.1] at hdoc
      exact hdoc
    refine ⟨q.1.readBack defaults, ?_, shown_iff_readBack (hcomplete q rfl) hd⟩
    rw [hup, Bool.true_or, if_pos rfl, hstored]
  · exact fun hup => shown_eq_false (halive.symm.trans hup)
  · cases isUpsert with
    | true | false => exact hput

variable (h : Invariant cfg defaults slot st₀ es e)

include h in
theorem invariant_begin {puts : List (Document × UInt64)} (hmeets : Meets cfg defaults slot e (.begin puts))
    (hstep : e.step cfg defaults slot (.begin puts) = some e') :
    Invariant cfg defaults slot st₀ (es ++ [.begin puts]) e' := by
  obtain ⟨hdrained, hlen, hputs⟩ := hmeets
  obtain ⟨hcomplete, hphase⟩ := h
  simp only [step] at hstep
  split at hstep
  · next hcall =>
    rw [hcall] at hphase
    obtain ⟨hbits, hdoc⟩ := hphase
    cases hstep
    have halive : e.published.slots.isAlive slot = shown cfg slot (lastPut es) .alive := by
      have hlast := (hbits.2 .alive trivial).2
      rw [hdrained.1] at hlast
      rw [isAlive_eq_bit, hdrained.2.2]
      exact hlast
    rw [Invariant, lastPut_append]
    obtain _ | ⟨p, _ | ⟨q, rest⟩⟩ := puts
    · exact ⟨hcomplete, hdrained, lastPut es, hcomplete, hbits, hdoc, halive, .inl ⟨rfl, rfl, rfl⟩⟩
    · obtain ⟨hnew, hput⟩ := hputs p mem_cons_self
      refine ⟨?_, hdrained, lastPut es, hcomplete, hbits, hdoc, halive, .inr ⟨p, rfl, hput, .inl ⟨rfl, rfl⟩⟩⟩
      rintro q hq
      cases hq
      exact hnew
    · simp at hlen
  · cases hstep

/-- Every step but the start of a call leaves the documents put as they are. -/
theorem lastPut_append_of_puts_nil (hev : ev.puts = []) : lastPut (es ++ [ev]) = lastPut es := by
  rw [lastPut_append, hev]
  rfl

include h

theorem invariant_readDoc (hstep : e.step cfg defaults slot .readDoc = some e') :
    Invariant cfg defaults slot st₀ (es ++ [.readDoc]) e' := by
  obtain ⟨hcomplete, hphase⟩ := h
  simp only [step] at hstep
  split at hstep
  · next isUpsert wasAllocated done p todo hcall =>
    rw [hcall] at hphase
    cases hstep
    rw [Invariant, lastPut_append_of_puts_nil rfl]
    obtain ⟨hdrained, c, hc, hbits, hdoc, halive, ⟨-, htodo, -⟩ | ⟨q, hlast, hput, hcase⟩⟩ := hphase
    · cases htodo
    · obtain ⟨rfl, htodo⟩ | ⟨-, htodo⟩ := hcase
      · obtain ⟨rfl, rfl⟩ := cons.inj htodo
        exact ⟨hcomplete, hdrained, c, hc, hbits, hdoc, halive, .inr ⟨p, hlast, hput, .inr ⟨rfl, rfl⟩⟩⟩
      · cases htodo
  · cases hstep

theorem invariant_send (hstep : e.step cfg defaults slot .send = some e') :
    Invariant cfg defaults slot st₀ (es ++ [.send]) e' := by
  obtain ⟨hcomplete, hphase⟩ := h
  simp only [step] at hstep
  split at hstep
  · next isUpsert wasAllocated done hcall =>
    rw [hcall] at hphase
    cases hstep
    rw [Invariant, lastPut_append_of_puts_nil rfl]
    refine ⟨hcomplete, ?_⟩
    obtain ⟨hdrained, c, hc, hbits, hdoc, halive, ⟨rfl, -, rfl⟩ | ⟨p, hlast, hput, hcase⟩⟩ := hphase
    · -- a call without a document for the slot sends nothing
      refine ⟨?_, .inl ⟨rfl, hdoc⟩⟩
      simpa [BitsPending] using hbits
    · obtain ⟨-, htodo⟩ | ⟨rfl, -⟩ := hcase
      · cases htodo
      · refine ⟨⟨hbits.1, fun t ht => ?_⟩, .inr ⟨p, hlast, rfl⟩⟩
        rw [hlast]
        have hsend := hbits.send hdrained hdoc hc wasAllocated halive hput ht
        simpa [hdrained.1] using hsend
  · cases hstep

theorem invariant_enqueue (hstep : e.step cfg defaults slot .enqueue = some e') :
    Invariant cfg defaults slot st₀ (es ++ [.enqueue]) e' := by
  obtain ⟨hcomplete, hphase⟩ := h
  simp only [step] at hstep
  split at hstep
  · next docs hcall =>
    rw [hcall] at hphase
    cases hstep
    rw [Invariant, lastPut_append_of_puts_nil rfl]
    obtain ⟨hbits, ⟨rfl, hdoc⟩ | ⟨p, hlast, rfl⟩⟩ := hphase
    · refine ⟨hcomplete, hbits, ?_⟩
      simpa [DocPending] using hdoc
    · refine ⟨hcomplete, hbits, ?_⟩
      simp [DocPending, hlast]
  · cases hstep

/-- A step of the flush thread keeps what is pending, and on a drained engine it does nothing. -/
theorem Invariant.keep (hev : ev.puts = [])
    (hcall' : e'.call = e.call) (hbits : ∀ c, BitsPending cfg slot st₀ e c → BitsPending cfg slot st₀ e' c)
    (hdoc : ∀ c, DocPending defaults e c → DocPending defaults e' c) (hdrained : e.Drained → e' = e) :
    Invariant cfg defaults slot st₀ (es ++ [ev]) e' := by
  obtain ⟨hcomplete, hphase⟩ := h
  rw [Invariant, lastPut_append_of_puts_nil hev, hcall']
  refine ⟨hcomplete, ?_⟩
  cases hcall : e.call with
  | idle =>
    rw [hcall] at hphase
    exact ⟨hbits _ hphase.1, hdoc _ hphase.2⟩
  | reading isUpsert wasAllocated done todo =>
    rw [hcall] at hphase
    rw [hdrained hphase.1]
    exact hphase
  | sent docs =>
    rw [hcall] at hphase
    exact ⟨hbits _ hphase.1, hphase.2.imp_left fun h => ⟨h.1, hdoc _ h.2⟩⟩

theorem invariant_flush (hstep : e.step cfg defaults slot (.flush n) = some e') :
    Invariant cfg defaults slot st₀ (es ++ [.flush n]) e' := by
  have hframe : e'.call = e.call ∧ e'.docQueue = e.docQueue ∧ e'.stored = e.stored := by
    simp only [step] at hstep
    split at hstep <;> cases hstep <;> exact ⟨rfl, rfl, rfl⟩
  obtain ⟨hcall', hqueue, hstored⟩ := hframe
  refine h.keep rfl hcall' (fun c hc => hc.flush hstep) (fun c hc => ?_) fun hd => hd.flushThread (.inl rfl) hstep
  rwa [DocPending, hqueue, hstored]

theorem invariant_publish (hstep : e.step cfg defaults slot .publish = some e') :
    Invariant cfg defaults slot st₀ (es ++ [.publish]) e' := by
  have hdrained : e.Drained → e' = e := fun hd => hd.flushThread (n := 0) (.inr (.inl rfl)) hstep
  cases hstep
  exact h.keep rfl rfl (fun _ => id) (fun _ => id) hdrained

theorem invariant_writeDocs (hstep : e.step cfg defaults slot (.writeDocs n) = some e') :
    Invariant cfg defaults slot st₀ (es ++ [.writeDocs n]) e' := by
  have hdrained : e.Drained → e' = e := fun hd => hd.flushThread (.inr (.inr rfl)) hstep
  have hdoc : ∀ c, DocPending defaults e c → DocPending defaults e' c := fun c hc => hc.writeDocs hstep
  cases hstep
  exact h.keep rfl rfl (fun _ => id) hdoc hdrained

theorem invariant_step (hmeets : Meets cfg defaults slot e ev) (hstep : e.step cfg defaults slot ev = some e') :
    Invariant cfg defaults slot st₀ (es ++ [ev]) e' := by
  cases ev with
  | begin puts => exact invariant_begin h hmeets hstep
  | readDoc => exact invariant_readDoc h hstep
  | send => exact invariant_send h hstep
  | enqueue => exact invariant_enqueue h hstep
  | flush n => exact invariant_flush h hstep
  | publish => exact invariant_publish h hstep
  | writeDocs n => exact invariant_writeDocs h hstep

omit h in
theorem invariant_initial (hempty : ∀ t, st₀.bit t slot = false) :
    Invariant cfg defaults slot st₀ [] (initial st₀) := by
  refine ⟨fun p hp => ?_, ⟨fun _ => Iff.rfl, fun t _ => ⟨.nil, hempty t⟩⟩, rfl⟩
  cases hp

end Invariant

end Engine

/-- **The last put wins.** From an engine at rest whose slot is empty, take any run of puts on the slot and flush
steps in which every put meets the condition. Whenever no call is under way and the engine is drained, the slot is
indexed as if the last document had been inserted alone, and that document is stored. -/
theorem engine_shows_last_put (cfg : Config) (defaults : Document) (slot : UInt32) (st₀ : IndexState)
    (hempty : ∀ t, st₀.bit t slot = false) {es : List EngineEvent} {e : Engine}
    (hrun : Reaches (fun e ev e' => e.step cfg defaults slot ev = some e')
      (Engine.Meets cfg defaults slot) (Engine.initial st₀) es e)
    (hidle : e.call = .idle) (hdrained : e.Drained) {doc : Document} {now : UInt64}
    (hlast : lastPut es = some (doc, now)) :
    SameBits slot e.published (st₀.applyOps (diffDocument slot none doc cfg false now)) ∧
      e.stored = some (doc.readBack defaults) := by
  have hinv := hrun.invariant (Engine.Invariant cfg defaults slot st₀)
    (Engine.invariant_initial hempty) fun es e ev e' h hmeets hstep => Engine.invariant_step h hmeets hstep
  obtain ⟨-, hphase⟩ := hinv
  rw [hidle] at hphase
  obtain ⟨hbits, hdoc⟩ := hphase
  rw [hlast] at hbits hdoc
  obtain ⟨hops, hdocs, hpub⟩ := hdrained
  constructor
  · refine sameBits_iff.mpr fun t => ?_
    rw [hpub]
    by_cases ht : st₀.Has t
    · have hbit := (hbits.2 t ht).2
      rw [hops] at hbit
      rw [bit_applyOps ht, hempty t]
      exact hbit
    · rw [bit_eq_false ((hbits.1 t).not.mpr ht),
        bit_eq_false (has_applyOps.not.mpr ht)]
  · unfold Engine.DocPending at hdoc
    rw [hdocs] at hdoc
    exact hdoc

section Samples

/-- The steps of one put, from its snapshot to its document. -/
def putEvents (doc : Document) : List EngineEvent := [.begin [(doc, 0)], .readDoc, .send, .enqueue]

/-- The steps that drain an engine. -/
def drainEvents : List EngineEvent := [.flush 100, .publish, .writeDocs 100]

/-- Two puts without a flush in between. -/
def overlapEvents : List EngineEvent := putEvents (oneFieldDoc 1) ++ putEvents (oneFieldDoc 2) ++ drainEvents

def sampleStep (e : Engine) (ev : EngineEvent) : Option Engine := e.step oneFieldConfig (fun _ => none) 0 ev

/-- The ops of a put into the empty slot. -/
def aloneOps (v : Int64) : List MutationOp := diffDocument 0 none (oneFieldDoc v) oneFieldConfig false 0

def overlapped : Engine :=
  let st := oneFieldState.applyOps (aloneOps 1 ++ aloneOps 2)
  ⟨st, st, [], [], some ((oneFieldDoc 2).readBack fun _ => none), .idle⟩

theorem foldlM_overlapEvents : overlapEvents.foldlM sampleStep (Engine.initial oneFieldState) = some overlapped := by
  rfl

/-- The second put does not see the first, inserts as into an empty slot, and the drained slot is under
the values of both documents. -/
theorem overlapping_puts_leave_both : Reaches (fun e ev e' => sampleStep e ev = some e') (fun _ _ => True)
        (Engine.initial oneFieldState) overlapEvents overlapped ∧
      overlapped.call = .idle ∧ overlapped.Drained ∧ lastPut overlapEvents = some (oneFieldDoc 2, 0) ∧
      0 ∈ overlapped.published.filters.bits "f" 1 ∧ 0 ∈ overlapped.published.filters.bits "f" 2 ∧
      ¬SameBits 0 overlapped.published (oneFieldState.applyOps (aloneOps 2)) := by
  have hone : 0 ∈ overlapped.published.filters.bits "f" 1 := by decide +kernel
  have htwo : 0 ∈ overlapped.published.filters.bits "f" 2 := by decide +kernel
  have halone : 0 ∉ (oneFieldState.applyOps (aloneOps 2)).filters.bits "f" 1 := by decide +kernel
  refine ⟨?_, rfl, ⟨rfl, rfl, rfl⟩, rfl, hone, htwo, fun h => halone ((h.filters "f" 1).mp hone)⟩
  exact Reaches.start.extend foldlM_overlapEvents fun _ _ _ => trivial

/-- The same two puts, each followed by a drain. -/
def separateEvents : List EngineEvent :=
  (([.begin [(oneFieldDoc 1, 0)]] ++ ([.readDoc, .send, .enqueue] ++ drainEvents)) ++
    [.begin [(oneFieldDoc 2, 0)]]) ++ ([.readDoc, .send, .enqueue] ++ drainEvents)

def afterFirstPut : Engine :=
  let st := oneFieldState.applyOps (aloneOps 1)
  ⟨st, st, [], [], some ((oneFieldDoc 1).readBack fun _ => none), .idle⟩

def afterSecondPut : Engine :=
  let st := afterFirstPut.staging.applyOps
    (diffDocument 0 afterFirstPut.stored (oneFieldDoc 2) oneFieldConfig true 0)
  ⟨st, st, [], [], some ((oneFieldDoc 2).readBack fun _ => none), .idle⟩

theorem refreshable_oneField (shown : Option Document) (v : Int64) :
    Refreshable oneFieldConfig shown (oneFieldDoc v) 0 := by
  refine ⟨fun s hs => ?_, fun o _ sc hsc => ?_⟩
  · cases hs
  · cases hsc

theorem reaches_afterSecondPut : Reaches (fun e ev e' => e.step oneFieldConfig (fun _ => none) 0 ev = some e')
      (Engine.Meets oneFieldConfig (fun _ => none) 0) (Engine.initial oneFieldState) separateEvents
      afterSecondPut := by
  have hmeets : ∀ e : Engine, e.Drained → ∀ v,
      Engine.Meets oneFieldConfig (fun _ => none) 0 e (.begin [(oneFieldDoc v, 0)]) := by
    refine fun e he v => ⟨he, le_refl 1, fun p hp => ?_⟩
    rw [mem_singleton.mp hp]
    exact ⟨fun f hf => (by cases hf), refreshable_oneField _ v⟩
  have hfree : ∀ ev ∈ [EngineEvent.readDoc, .send, .enqueue] ++ drainEvents, ∀ e : Engine,
      Engine.Meets oneFieldConfig (fun _ => none) 0 e ev := by
    intro ev hev e
    simp only [drainEvents, cons_append, nil_append, mem_cons, not_mem_nil, or_false] at hev
    rcases hev with rfl | rfl | rfl | rfl | rfl | rfl <;> trivial
  have hstart : Reaches (fun e ev e' => e.step oneFieldConfig (fun _ => none) 0 ev = some e')
      (Engine.Meets oneFieldConfig (fun _ => none) 0) (Engine.initial oneFieldState) [] _ := .start
  have hfirst := hstart.next (hmeets _ ⟨rfl, rfl, rfl⟩ 1) rfl
  have hdrained := hfirst.extend (show _ = some afterFirstPut from rfl) hfree
  have hsecond := hdrained.next (hmeets afterFirstPut ⟨rfl, rfl, rfl⟩ 2) rfl
  exact hsecond.extend rfl hfree

theorem bit_oneFieldState (t : Target) : oneFieldState.bit t 0 = false := by
  cases t with
  | filter f k =>
    refine decide_eq_false fun hmem => ?_
    by_cases hf : f = "f"
    · subst hf
      have hfield : oneFieldState.filters.getField "f" = some (.new {}) := AList.lookup_insert _
      cases hmem
    · have hfield : oneFieldState.filters.getField f = none := AList.lookup_insert_ne hf
      rw [holders, FilterIndex.bits_of_getField_none hfield] at hmem
      cases hmem
  | sort f b | alive => rfl

/-- Drained in between, the second document replaces the first. -/
theorem engine_shows_last_put_twice : SameBits 0 afterSecondPut.published (oneFieldState.applyOps (aloneOps 2)) ∧
      afterSecondPut.stored = some ((oneFieldDoc 2).readBack fun _ => none) :=
  engine_shows_last_put oneFieldConfig (fun _ => none) 0 oneFieldState
    bit_oneFieldState reaches_afterSecondPut rfl ⟨rfl, rfl, rfl⟩ rfl

end Samples

end Bitdex
