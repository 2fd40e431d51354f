import Bitdex.Store.Wal

/-!
# `Store.WalRun` — what a reader of the ops log is delivered

The writer and the reader of the log take turns: appends, reads, restarts, deletions of generations that the reader
has left, and crashes during an append. `WalRun` keeps beside the files the log as if nothing had been deleted, and
the place in it of every cursor that a read returned.

Without crashes every read continues where the last one, or the cursor resumed from, stopped, except at a payload
whose length does not fit 32 bits (`long_payload_lost`). With crashes the same holds over enough reads, as long as
nothing is written behind a torn record; the writer opened after a crash does so (`append_behind_torn_record_lost`).
-/

namespace Bitdex

open Frames Scan List

/-- The log with its writer and reader. Beside them: what the last crash left at the end of the writer's file, every
record written whole, how many of them lie before the cursor the reader resumed from, what it has delivered since,
every cursor a read returned with the number of records before it, and the generation below which files were deleted.
-/
structure WalRun (Ops : Type) where
  dir : WalDir
  writer : WalWriter
  cursor : WalCursor
  torn : List UInt8
  log : List (EntityOps Ops)
  base : Nat
  delivered : List (EntityOps Ops)
  returned : List (WalCursor × Nat)
  deletedBelow : Nat

/-- What can happen to the log. -/
inductive WalEvent (Ops : Type) where
  | append (batch : List (EntityOps Ops))
  /-- The process ends during an append, `k` bytes into a record, and the writer is opened again. -/
  | crash (whole : List (EntityOps Ops)) (cut : EntityOps Ops) (k : Nat) (rotationSize : Nat)
  | reopen (rotationSize : Nat)
  | read (max : Nat)
  | resume (cursor : WalCursor) (position : Nat)
  | delete (g : Nat)

namespace WalRun

section

variable {Ops : Type}

/-- An empty log. -/
def start (rotationSize : Nat) : WalRun Ops where
  dir := []
  writer := .withRotationSize [] rotationSize
  cursor := ⟨0, 0⟩
  torn := []
  log := []
  base := 0
  delivered := []
  returned := [(⟨0, 0⟩, 0)]
  deletedBelow := 0

variable (crc32 : List UInt8 → UInt32) (json : OpsJson Ops)

/-- A read takes at least one record. The reader resumes from a cursor returned to it whose generation was not
deleted; deletion is below the reader's own generation. -/
def next (s : WalRun Ops) : WalEvent Ops → Option (WalRun Ops)
  | .append batch =>
    let r := s.writer.appendBatch crc32 json s.dir batch
    some { s with
      dir := r.1
      writer := r.2.1
      log := s.log ++ batch
      torn := if batch.isEmpty then s.torn else [] }
  | .crash whole cut k rotationSize =>
    if k < (cut.encode crc32 json).length then
      let torn := (cut.encode crc32 json).take k
      let dir := s.dir.appendFile (s.writer.target s.dir) (encodeAll crc32 json whole ++ torn)
      some { s with
        dir := dir
        writer := .withRotationSize dir rotationSize
        log := s.log ++ whole
        torn := torn }
    else none
  | .reopen rotationSize => some { s with writer := .withRotationSize s.dir rotationSize }
  | .read max =>
    if 1 ≤ max then
      let b := readBatch crc32 json s.dir s.cursor max
      let delivered := s.delivered ++ b.entries
      some { s with
        cursor := b.newCursor
        delivered := delivered
        returned := s.returned ++ [(b.newCursor, s.base + delivered.length)] }
    else none
  | .resume cursor position =>
    if (cursor, position) ∈ s.returned ∧ s.deletedBelow ≤ cursor.generation then
      some { s with cursor := cursor, base := position, delivered := [] }
    else none
  | .delete g =>
    if g ≤ s.cursor.generation then
      some { s with dir := s.dir.deleteGensBelow g, deletedBelow := max s.deletedBelow g }
    else none

/-- Lengths and generations fit their 32 bits. -/
def SizesFit (s : WalRun Ops) : WalEvent Ops → Prop
  | .append batch =>
    (∀ e ∈ batch, e.Fits json) ∧ (batch ≠ [] → s.writer.Rotates s.dir → s.writer.generation + 1 < 2 ^ 32)
  | .crash whole cut _ _ =>
    (∀ e ∈ whole, e.Fits json) ∧ cut.Fits json ∧ (s.writer.Rotates s.dir → s.writer.generation + 1 < 2 ^ 32)
  | _ => True

/-- Nothing is written behind a torn record. -/
def OffTorn (s : WalRun Ops) : WalEvent Ops → Prop
  | .append batch => batch ≠ [] → s.torn = [] ∨ s.writer.Rotates s.dir
  | .crash _ _ _ _ => s.torn = [] ∨ s.writer.Rotates s.dir
  | _ => True

/-- The process does not end during an append. -/
def NoCrash : WalEvent Ops → Prop
  | .crash _ _ _ _ => False
  | _ => True

/-- What ties the directory, the writer and the cursors to the log. -/
structure Inv (s : WalRun Ops) (segs : List (Segment Ops)) : Prop where
  holds : Holds crc32 json s.dir segs
  writer_eq : s.writer.generation = s.dir.lastGen
  torn_eq : ∀ last, segs.getLast? = some last → last.torn = s.torn
  position_le : ∀ cp ∈ s.returned, cp.2 ≤ s.log.length
  after : ∀ cp ∈ s.returned, s.deletedBelow ≤ cp.1.generation → After crc32 json segs cp.1 (s.log.drop cp.2)
  current : (s.cursor, s.base + s.delivered.length) ∈ s.returned
  cursor_kept : s.deletedBelow ≤ s.cursor.generation
  delivered_eq : s.delivered <+: s.log.drop s.base

variable {crc32 json} {s s' : WalRun Ops} {segs : List (Segment Ops)} {ev : WalEvent Ops} {n : Nat}

theorem inv_start (rotationSize : Nat) : Inv crc32 json (start rotationSize : WalRun Ops) [] where
  holds := ⟨rfl, List.Pairwise.nil, by simp⟩
  writer_eq := rfl
  torn_eq := by simp
  position_le := by simp [start]
  after := by
    intro cp hcp _
    rw [mem_singleton.mp hcp]
    exact .before rfl
  current := mem_cons_self
  cursor_kept := le_rfl
  delivered_eq := nil_prefix

theorem Inv.after_cursor (h : s.Inv crc32 json segs) :
    After crc32 json segs s.cursor ((s.log.drop s.base).drop s.delivered.length) := by
  rw [drop_drop]
  exact h.after _ h.current h.cursor_kept

theorem Inv.base_le (h : s.Inv crc32 json segs) : s.base ≤ s.log.length := by
  have hle : s.base + s.delivered.length ≤ s.log.length := h.position_le _ h.current
  omega

theorem generation_withRotationSize {dir : WalDir} (h : Holds crc32 json dir segs) (rotationSize : Nat) :
    (WalWriter.withRotationSize dir rotationSize).generation = dir.lastGen :=
  Nat.max_eq_left h.lastGen_pos

/-! ## One event -/

/-- An append or a crash during one, with the writer there is afterwards. -/
theorem Inv.write (h : s.Inv crc32 json segs) {whole : List (EntityOps Ops)} {torn : List UInt8}
    (hfits : ∀ e ∈ whole, e.Fits json) (hstops : parseEntry crc32 json torn = none)
    (hgen : s.writer.Rotates s.dir → s.writer.generation + 1 < 2 ^ 32)
    (hoff : s.torn = [] ∨ s.writer.Rotates s.dir) {dir : WalDir} (writer : WalWriter)
    (hdir : s.dir.appendFile (s.writer.target s.dir) (encodeAll crc32 json whole ++ torn) = dir)
    (hwriter : ∀ segs', Holds crc32 json dir segs' → dir.lastGen = s.writer.target s.dir →
      writer.generation = dir.lastGen) :
    ∃ segs', Inv crc32 json { s with dir := dir, writer := writer, log := s.log ++ whole, torn := torn } segs' ∧
      (torn = [] → (∀ seg ∈ segs, seg.torn = []) → ∀ seg ∈ segs', seg.torn = []) := by
  have hbehind : (∀ last, segs.getLast? = some last → last.torn = []) ∨ s.writer.Rotates s.dir :=
    hoff.imp_left fun hnil last hlast => (h.torn_eq last hlast).trans hnil
  obtain ⟨init, new, hholds, htarget, htorn, hafter, hold⟩ := h.holds.write h.writer_eq hfits hstops hgen hbehind
  rw [hdir] at hholds
  have hlastGen : dir.lastGen = s.writer.target s.dir := by
    rw [hholds.lastGen_eq, getLast?_concat]
    exact htarget
  refine ⟨init ++ [new], ⟨hholds, hwriter _ hholds hlastGen, ?_, ?_, ?_, h.current, h.cursor_kept, ?_⟩, ?_⟩
  · intro last hlast
    rw [getLast?_concat] at hlast
    rw [← Option.some.inj hlast, htorn]
  · intro cp hcp
    show cp.2 ≤ (s.log ++ whole).length
    rw [length_append]
    exact Nat.le_add_right_of_le (h.position_le cp hcp)
  · intro cp hcp hkept
    show After crc32 json (init ++ [new]) cp.1 ((s.log ++ whole).drop cp.2)
    rw [drop_append_of_le_length (h.position_le cp hcp)]
    exact hafter _ _ (h.after cp hcp hkept)
  · show s.delivered <+: (s.log ++ whole).drop s.base
    rw [drop_append_of_le_length h.base_le]
    exact h.delivered_eq.trans (prefix_append _ _)
  · intro hnil hclean seg hseg
    rcases mem_append.mp hseg with hseg | hseg
    · exact hclean seg (hold seg hseg)
    · rw [mem_singleton.mp hseg, htorn, hnil]

theorem Inv.read (h : s.Inv crc32 json segs) (hnext : next crc32 json s (.read n) = some s') :
    s'.Inv crc32 json segs := by
  simp only [next] at hnext
  split at hnext
  · cases hnext
    obtain ⟨m, -, -, -, htake, hgen, hafter⟩ := h.holds.readBatch_delivers h.after_cursor n
    -- what is delivered then is again the front of the log, and `hafter` speaks of the rest
    have hpos : s.delivered ++ (readBatch crc32 json s.dir s.cursor n).entries <+: s.log.drop s.base := by
      obtain ⟨left, hleft⟩ := h.delivered_eq
      rw [htake, ← hleft, drop_left]
      exact (prefix_append_right_inj _).mpr <| take_prefix m left
    have hleft : (s.log.drop s.base).drop (s.delivered ++ (readBatch crc32 json s.dir s.cursor n).entries).length =
        ((s.log.drop s.base).drop s.delivered.length).drop m := by
      rw [htake, length_append, ← drop_drop, length_take]
      rcases Nat.le_total m ((s.log.drop s.base).drop s.delivered.length).length with hm | hm
      · rw [Nat.min_eq_left hm]
      · rw [Nat.min_eq_right hm, drop_length, drop_of_length_le hm]
    refine ⟨h.holds, h.writer_eq, h.torn_eq, ?_, ?_, ?_, h.cursor_kept.trans hgen, hpos⟩
    · intro cp hcp
      rcases mem_append.mp hcp with hcp | hcp
      · exact h.position_le cp hcp
      · rw [mem_singleton.mp hcp]
        have hlen := hpos.length_le
        have hbase := h.base_le
        rw [length_drop] at hlen
        show s.base + _ ≤ s.log.length
        omega
    · intro cp hcp hkept
      rcases mem_append.mp hcp with hcp | hcp
      · exact h.after cp hcp hkept
      · rw [mem_singleton.mp hcp]
        show After crc32 json segs _ (s.log.drop (s.base + _))
        rw [← drop_drop, hleft]
        exact hafter
    · exact mem_append_right _ mem_cons_self
  · cases hnext

theorem Inv.delete (h : s.Inv crc32 json segs) {g : Nat} (hnext : next crc32 json s (.delete g) = some s') :
    s'.Inv crc32 json (segs.filter fun seg => g ≤ seg.generation) := by
  simp only [next] at hnext
  split at hnext
  · rename_i hg
    cases hnext
    have hlast := (h.holds.after_delete h.after_cursor hg).2
    have hholds := h.holds.delete g
    refine ⟨hholds, ?_, ?_, h.position_le, ?_, h.current, max_le h.cursor_kept hg, h.delivered_eq⟩
    · show s.writer.generation = (s.dir.deleteGensBelow g).lastGen
      rw [hholds.lastGen_eq, hlast, ← h.holds.lastGen_eq, h.writer_eq]
    · rw [hlast]
      exact h.torn_eq
    · intro cp hcp hkept
      exact (h.holds.after_delete (h.after cp hcp (le_of_max_le_left hkept)) (le_of_max_le_right hkept)).1
  · cases hnext

/-- **One event keeps the tie**, and tears no record unless the process ends. -/
theorem Inv.step (h : s.Inv crc32 json segs) (hsizes : s.SizesFit json ev) (hoff : s.OffTorn ev)
    (hnext : next crc32 json s ev = some s') :
    ∃ segs', s'.Inv crc32 json segs' ∧ (NoCrash ev → (∀ seg ∈ segs, seg.torn = []) → ∀ seg ∈ segs', seg.torn = []) := by
  cases ev with
  | append batch =>
    cases hnext
    cases batch with
    | nil =>
      refine ⟨segs, ?_, fun _ hclean => hclean⟩
      simpa [WalWriter.appendBatch] using h
    | cons e batch =>
      obtain ⟨segs', hinv, hclean⟩ := h.write hsizes.1 parseEntry_nil (hsizes.2 (by simp)) (hoff (by simp))
        { s.writer with generation := s.writer.target s.dir } rfl fun _ _ hlast => hlast.symm
      rw [append_nil] at hinv
      exact ⟨segs', hinv, fun _ => hclean rfl⟩
  | crash whole cut k rotationSize =>
    simp only [next] at hnext
    split at hnext
    · rename_i hk
      cases hnext
      obtain ⟨segs', hinv, -⟩ := h.write hsizes.1 (parseEntry_take hsizes.2.1 hk) hsizes.2.2 hoff
        (.withRotationSize _ rotationSize) rfl fun segs' hholds _ => generation_withRotationSize hholds rotationSize
      exact ⟨segs', hinv, fun hcrash => hcrash.elim⟩
    · cases hnext
  | reopen rotationSize =>
    cases hnext
    refine ⟨segs, ⟨h.holds, ?_, h.torn_eq, h.position_le, h.after, h.current, h.cursor_kept, h.delivered_eq⟩,
      fun _ hclean => hclean⟩
    exact generation_withRotationSize h.holds rotationSize
  | read n => exact ⟨segs, h.read hnext, fun _ hclean => hclean⟩
  | resume cursor position =>
    simp only [next] at hnext
    split at hnext
    · rename_i hcursor
      cases hnext
      exact ⟨segs, ⟨h.holds, h.writer_eq, h.torn_eq, h.position_le, h.after, hcursor.1, hcursor.2,
        nil_prefix⟩, fun _ hclean => hclean⟩
    · cases hnext
  | delete g =>
    refine ⟨_, h.delete hnext, ?_⟩
    intro _ hclean seg hseg
    exact hclean seg (mem_filter.mp hseg).1

/-- Without crashes no torn record is remembered. -/
theorem torn_next (hcrash : NoCrash ev) (htorn : s.torn = []) (hnext : next crc32 json s ev = some s') :
    s'.torn = [] := by
  cases ev with
  | append batch =>
    cases hnext
    simp [htorn]
  | crash whole cut k rotationSize => exact hcrash.elim
  | reopen rotationSize =>
    cases hnext
    exact htorn
  | read n | resume cursor position | delete g =>
    simp only [next] at hnext
    split at hnext
    · cases hnext
      exact htorn
    · cases hnext

theorem offTorn_of_nil (htorn : s.torn = []) : s.OffTorn ev := by
  cases ev with
  | append batch => exact fun _ => .inl htorn
  | crash whole cut k rotationSize => exact .inl htorn
  | reopen _ | read _ | resume _ _ | delete _ => trivial

/-! ## Whole runs -/

/-- **Every record once and in order.** In every run without crashes whose lengths and generations fit, the reader
has delivered the records from the cursor it resumed from on, and the next read goes on with those that follow. -/
theorem delivered_in_order {rotationSize : Nat} {es : List (WalEvent Ops)}
    (h : Reaches (fun s ev s' => next crc32 json s ev = some s') (fun s ev => s.SizesFit json ev ∧ NoCrash ev)
      (start rotationSize) es s) :
    s.delivered <+: s.log.drop s.base ∧ ∀ n, 1 ≤ n → (readBatch crc32 json s.dir s.cursor n).entries =
        ((s.log.drop s.base).drop s.delivered.length).take n := by
  have hinv : s.torn = [] ∧ ∃ segs, s.Inv crc32 json segs ∧ ∀ seg ∈ segs, seg.torn = [] := by
    refine h.invariant (fun _ s => s.torn = [] ∧ ∃ segs, s.Inv crc32 json segs ∧ ∀ seg ∈ segs, seg.torn = []) ?_ ?_
    · exact ⟨rfl, [], inv_start rotationSize, by simp⟩
    · rintro es s ev s' ⟨htorn, segs, hinv, hclean⟩ ⟨hsizes, hcrash⟩ hnext
      obtain ⟨segs', hinv', hclean'⟩ := hinv.step hsizes (offTorn_of_nil htorn) hnext
      exact ⟨torn_next hcrash htorn hnext, segs', hinv', hclean' hcrash hclean⟩
  obtain ⟨-, segs, hinv, hclean⟩ := hinv
  refine ⟨hinv.delivered_eq, ?_⟩
  intro n _
  obtain ⟨m, -, -, hexact, htake, -⟩ := hinv.holds.readBatch_delivers hinv.after_cursor n
  rw [htake, hexact hclean]

/-- **Records behind a crash are delivered**, in order and nothing else, in every run whose lengths and generations
fit with nothing written behind a torn record. -/
theorem delivered_behind_torn {rotationSize : Nat} {es : List (WalEvent Ops)}
    (h : Reaches (fun s ev s' => next crc32 json s ev = some s') (fun s ev => s.SizesFit json ev ∧ s.OffTorn ev)
      (start rotationSize) es s) :
    s.delivered <+: s.log.drop s.base ∧ ∀ n, 1 ≤ n → ∀ times, (s.log.drop s.base).length ≤ times →
        s.delivered ++ readTimes crc32 json s.dir n times s.cursor = s.log.drop s.base := by
  have hinv : ∃ segs, s.Inv crc32 json segs := by
    refine h.invariant (fun _ s => ∃ segs, s.Inv crc32 json segs) ⟨[], inv_start rotationSize⟩ ?_
    rintro es s ev s' ⟨segs, hinv⟩ ⟨hsizes, hoff⟩ hnext
    obtain ⟨segs', hinv', -⟩ := hinv.step hsizes hoff hnext
    exact ⟨segs', hinv'⟩
  obtain ⟨segs, hinv⟩ := hinv
  refine ⟨hinv.delivered_eq, ?_⟩
  intro n hn times htimes
  have hlen : ((s.log.drop s.base).drop s.delivered.length).length ≤ times := by
    rw [length_drop]
    omega
  obtain ⟨left, hleft⟩ := hinv.delivered_eq
  rw [hinv.holds.readTimes_eq hn hinv.after_cursor hlen, ← hleft, drop_left]

end

/-! ## Sample runs -/

section

/-- Ops that are written as one value of `2 ^ 32` bytes. -/
def longJson : OpsJson Unit where
  toVec _ := replicate (2 ^ 32) 0
  fromSlice bytes := if bytes.length = 2 ^ 32 then some () else none
  fromSlice_toVec _ := by rw [length_replicate, if_pos rfl]

/-- The length field cannot name such a payload, so nothing is decoded. -/
theorem parseEntry_longJson (crc32 : List UInt8 → UInt32) (data rest : List UInt8) (e : EntityOps Unit) :
    parseEntry crc32 longJson data ≠ some (some e, rest) := by
  intro h
  unfold parseEntry at h
  dsimp only at h
  split at h
  · cases h
  · split at h
    · cases h
    · have hdecoded := (Prod.mk.inj (Option.some.inj h)).1
      split at hdecoded
      · obtain ⟨ops, hops, -⟩ := Option.map_eq_some_iff.mp hdecoded
        have hlt := ofLeBytes_lt (data.take 4)
        have hpow : 256 ^ (data.take 4).length ≤ 2 ^ 32 := by
          rw [length_take]
          exact Nat.pow_le_pow_right (by decide) (Nat.min_le_left 4 _)
        have hlen : (((data.drop 4).take (9 + ofLeBytes (data.take 4))).drop 9).length ≠ 2 ^ 32 := by
          rw [length_drop, length_take]
          omega
        rw [longJson] at hops
        dsimp only at hops
        rw [if_neg hlen] at hops
        cases hops
      · cases hdecoded

theorem readLoop_longJson (crc32 : List UInt8 → UInt32) (dir : WalDir) (fuel : Nat) (cursor : WalCursor)
    (room : Nat) : (readLoop crc32 longJson dir fuel cursor room).entries = [] := by
  induction fuel generalizing cursor room with
  | zero => rfl
  | succ fuel ih =>
    have hfile : ∀ file, (readFile crc32 longJson file cursor room).entries = [] := fun file =>
      records_scan_eq_nil (fun data rest e => parseEntry_longJson crc32 data rest e) room _
    cases hgen : dir.file cursor.generation with
    | none =>
      cases hnext : dir.nextGen cursor.generation with
      | none => simp [readLoop, hgen, hnext]
      | some g =>
        simp only [readLoop, hgen, hnext]
        exact ih _ _
    | some file =>
      cases hnext : dir.nextGen cursor.generation with
      | none =>
        simp only [readLoop, hgen, hnext, ite_self]
        split
        · rfl
        · exact hfile file
      | some g =>
        simp only [readLoop, hgen, hnext]
        split
        · exact ih _ _
        · split
          · exact hfile file
          · split
            · rw [hfile file, ih]
              rfl
            · exact hfile file

/-- **A long payload is lost.** It is appended with success, and no read delivers it. -/
theorem long_payload_lost :
    ∃ s, Reaches (fun s ev s' => next crc32Of longJson s ev = some s') (fun _ ev => NoCrash ev) (start 100)
        [.append [⟨1, (), true⟩]] s ∧ s.delivered = [] ∧ s.log.drop s.base = [⟨1, (), true⟩] ∧
      ∀ n, (readBatch crc32Of longJson s.dir s.cursor n).entries = [] := by
  refine ⟨_, Reaches.start.next trivial rfl, rfl, rfl, ?_⟩
  intro n
  exact readLoop_longJson _ _ _ _ _

/-- Ops that are their own bytes. -/
def rawJson : OpsJson (List UInt8) := ⟨id, some, fun _ => rfl⟩

def firstOps : EntityOps (List UInt8) := ⟨1, [7], true⟩

def tornOps : EntityOps (List UInt8) := ⟨2, [8], true⟩

def laterOps : EntityOps (List UInt8) := ⟨3, [9], true⟩

section Decidable

variable {Ops : Type} (json : OpsJson Ops) (s : WalRun Ops) (ev : WalEvent Ops)

instance decidableFits (e : EntityOps Ops) : Decidable (e.Fits json) := inferInstanceAs (Decidable (_ < _))

instance decidableSizesFit : Decidable (s.SizesFit json ev) := by
  unfold SizesFit
  split <;> infer_instance

instance decidableOffTorn : Decidable (s.OffTorn ev) := by
  unfold OffTorn
  split <;> infer_instance

instance decidableNoCrash : Decidable (NoCrash ev) := by
  unfold NoCrash
  split <;> infer_instance

end Decidable

def appended : List (WalEvent (List UInt8)) := [.append [firstOps]]

/-- A restart and a read before it, with a small rotation size. -/
def quietRun : List (WalEvent (List UInt8)) :=
  (appended ++ [.append [laterOps]]) ++ [.read 1, .reopen 10, .resume ⟨1, 18⟩ 1, .delete 1]

/-- The reader resumes behind the first record, in the generation before the one that holds the second. -/
theorem delivered_quietRun : ∃ s, Reaches (fun s ev s' => next crc32Of rawJson s ev = some s')
        (fun s ev => s.SizesFit rawJson ev ∧ NoCrash ev) (start 10) quietRun s ∧
      s.log.drop s.base = [laterOps] ∧ (readBatch crc32Of rawJson s.dir s.cursor 5).entries = [laterOps] := by
  have hquiet : Computed (next crc32Of rawJson) (fun s ev => s.SizesFit rawJson ev ∧ NoCrash ev) (start 10)
      quietRun := .of_along (by decide +kernel)
  obtain ⟨s, hs, hdelivered, hlog⟩ : ∃ s, _ ∧ s.delivered = [] ∧ s.log.drop s.base = [laterOps] :=
    hquiet.exists_end (by decide +kernel)
  have hread := (delivered_in_order hs).2 5 (by decide)
  rw [hdelivered, hlog] at hread
  exact ⟨s, hs, hlog, hread⟩

/-- A crash six bytes into the second record. -/
def crashed (rotationSize : Nat) : List (WalEvent (List UInt8)) := appended ++ [.crash [] tornOps 6 rotationSize]

/-- An append by the writer that is opened then. -/
def tornRun (rotationSize : Nat) : List (WalEvent (List UInt8)) := crashed rotationSize ++ [.append [laterOps]]

theorem readTimes_stuck {Ops : Type} {crc32 : List UInt8 → UInt32} {json : OpsJson Ops} {dir : WalDir}
    {cursor : WalCursor} {n : Nat} (hentries : (readBatch crc32 json dir cursor n).entries = [])
    (hcursor : (readBatch crc32 json dir cursor n).newCursor = cursor) (times : Nat) :
    readTimes crc32 json dir n times cursor = [] := by
  induction times with
  | zero => rfl
  | succ times ih => rw [readTimes, hentries, hcursor, ih, append_nil]

/-- **What is appended behind a torn record is lost.** The reader takes it for the rest of the torn one; the checksum
is wrong, so both are stepped over. -/
theorem append_behind_torn_record_lost :
    ∃ s, Reaches (fun s ev s' => next crc32Of rawJson s ev = some s') (fun s ev => s.SizesFit rawJson ev)
        (start 100) (tornRun 100) s ∧ s.delivered = [] ∧ s.log.drop s.base = [firstOps, laterOps] ∧
      ∀ times, readTimes crc32Of rawJson s.dir 10 (times + 1) s.cursor = [firstOps] := by
  have htorn : Computed (next crc32Of rawJson) (fun s ev => s.SizesFit rawJson ev) (start 100) (tornRun 100) :=
    .of_along (by decide +kernel)
  obtain ⟨s, hs, hdelivered, hlog, hfirst, hcursor, hsecond, hstuck⟩ : ∃ s, _ ∧ s.delivered = [] ∧
      s.log.drop s.base = [firstOps, laterOps] ∧
      (readBatch crc32Of rawJson s.dir s.cursor 10).entries = [firstOps] ∧
      (readBatch crc32Of rawJson s.dir s.cursor 10).newCursor = ⟨1, 36⟩ ∧
      (readBatch crc32Of rawJson s.dir ⟨1, 36⟩ 10).entries = [] ∧
      (readBatch crc32Of rawJson s.dir ⟨1, 36⟩ 10).newCursor = ⟨1, 36⟩ := htorn.exists_end (by decide +kernel)
  refine ⟨s, hs, hdelivered, hlog, ?_⟩
  intro times
  rw [readTimes, hfirst, hcursor, readTimes_stuck hsecond hstuck, append_nil]

/-- With a rotation size that the torn file has reached, the last append goes to a file of its own. -/
theorem delivered_tornRun : ∃ s, Reaches (fun s ev s' => next crc32Of rawJson s ev = some s')
        (fun s ev => s.SizesFit rawJson ev ∧ s.OffTorn ev) (start 100) (tornRun 10) s ∧
      s.log.drop s.base = [firstOps, laterOps] ∧
      readTimes crc32Of rawJson s.dir 10 2 s.cursor = [firstOps, laterOps] := by
  have htorn : Computed (next crc32Of rawJson) (fun s ev => s.SizesFit rawJson ev ∧ s.OffTorn ev) (start 100)
      (tornRun 10) := .of_along (by decide +kernel)
  obtain ⟨s, hs, hdelivered, hlog⟩ : ∃ s, _ ∧ s.delivered = [] ∧ s.log.drop s.base = [firstOps, laterOps] :=
    htorn.exists_end (by decide +kernel)
  have hread := (delivered_behind_torn hs).2 10 (by decide) 2 (by rw [hlog]; decide)
  rw [hdelivered, hlog] at hread
  exact ⟨s, hs, hlog, hread⟩

end

end WalRun

end Bitdex
