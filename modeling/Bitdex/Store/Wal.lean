import Bitdex.Store.Shard
import Bitdex.Library.Scan

/-!
# `Store.Wal` — the ops log and its reader

Ops of the upstream database are appended to a log of numbered files, the *generations* (`ops_wal.rs`). The writer
goes on to the next generation once the current file has reached a size; the reader keeps a cursor, a generation and
an offset in its file, and generations that every cursor has passed are deleted. A generation is a `Segment`, whole
records and what a crash left of one more.

A generation is a file name, so numbers are 32 bits wide. The file `ops.wal` of older versions is not modelled.
-/

namespace Bitdex

open Frames Scan List

/-! ## Records -/

/-- The ops of one entity. -/
structure EntityOps (Ops : Type) where
  entityId : Int64
  ops : Ops
  createsSlot : Bool
deriving DecidableEq

/-- How ops are written as JSON and read back. -/
structure OpsJson (Ops : Type) where
  toVec : Ops → List UInt8
  fromSlice : List UInt8 → Option Ops
  fromSlice_toVec : ∀ ops, fromSlice (toVec ops) = some ops

/-- `HEADER_SIZE`: the length of the payload, the entity and the flags. -/
def walHeaderSize : Nat := 13

def flagCreatesSlot : UInt8 := 1

def crcSize : Nat := 4

section Records

variable {Ops : Type} (crc32 : List UInt8 → UInt32) (json : OpsJson Ops)

/-- What the checksum covers. -/
def EntityOps.checked (e : EntityOps Ops) : List UInt8 :=
  leBytes 8 e.entityId.toUInt64.toNat ++ ((if e.createsSlot then flagCreatesSlot else 0) :: json.toVec e.ops)

/-- One record of the log; the length of the payload is cut to 32 bits. -/
def EntityOps.encode (e : EntityOps Ops) : List UInt8 :=
  leBytes 4 (json.toVec e.ops).length ++ (e.checked json ++ leBytes 4 (crc32 (e.checked json)).toNat)

/-- The bytes of a batch. -/
def encodeAll (batch : List (EntityOps Ops)) : List UInt8 := batch.flatMap fun e => e.encode crc32 json

/-- The loop body of `read_file`. A record with a wrong checksum or no JSON is stepped over; a cut one ends the loop.
-/
def parseEntry (data : List UInt8) : Option (Option (EntityOps Ops) × List UInt8) :=
  if data.length < walHeaderSize then none
  else
    let plen := ofLeBytes (data.take 4)
    let recordEnd := walHeaderSize + plen + crcSize
    if data.length < recordEnd then none
    else
      let crcIn := (data.drop 4).take (9 + plen)
      let stored := ofLeBytes ((data.drop (walHeaderSize + plen)).take 4)
      let eid := (UInt64.ofNat (ofLeBytes (crcIn.take 8))).toInt64
      let flags := (crcIn.drop 8).headD 0
      some (if stored = (crc32 crcIn).toNat then
          (json.fromSlice (crcIn.drop 9)).map fun ops => ⟨eid, ops, decide (flags &&& flagCreatesSlot ≠ 0)⟩
        else none,
        data.drop recordEnd)

theorem parseEntry_shrinks {data rest : List UInt8} {e : Option (EntityOps Ops)}
    (h : parseEntry crc32 json data = some (e, rest)) : rest.length < data.length := by
  unfold parseEntry at h
  dsimp only at h
  split at h
  · cases h
  · rename_i hlong
    split at h
    · cases h
    · obtain ⟨-, rfl⟩ := Prod.mk.inj (Option.some.inj h)
      simp only [length_drop, walHeaderSize, crcSize] at hlong ⊢
      omega

/-- The reader of a generation. -/
def walScanner : Scanner (EntityOps Ops) UInt8 := ⟨parseEntry crc32 json, parseEntry_shrinks crc32 json⟩

theorem walScanner_parse : (walScanner crc32 json).parse = parseEntry crc32 json := rfl

/-- The length of the payload fits its field. -/
def EntityOps.Fits (e : EntityOps Ops) : Prop := (json.toVec e.ops).length < 2 ^ 32

theorem length_checked (e : EntityOps Ops) : (e.checked json).length = 9 + (json.toVec e.ops).length := by
  simp only [EntityOps.checked, length_append, length_cons, length_leBytes]
  omega

theorem length_encode (e : EntityOps Ops) :
    (e.encode crc32 json).length = walHeaderSize + (json.toVec e.ops).length + crcSize := by
  simp only [EntityOps.encode, length_append, length_leBytes, length_checked, walHeaderSize, crcSize]
  omega

@[simp] theorem encodeAll_append (es es' : List (EntityOps Ops)) :
    encodeAll crc32 json (es ++ es') = encodeAll crc32 json es ++ encodeAll crc32 json es' :=
  flatMap_append

theorem eq_nil_of_length_encodeAll {es : List (EntityOps Ops)} (h : (encodeAll crc32 json es).length = 0) :
    es = [] := by
  cases es with
  | nil => rfl
  | cons e es =>
    rw [encodeAll, flatMap_cons, length_append, length_encode, walHeaderSize] at h
    omega

variable {crc32 json} {e : EntityOps Ops}

theorem EntityOps.Fits.length_field (h : e.Fits json) :
    ofLeBytes (leBytes 4 (json.toVec e.ops).length) = (json.toVec e.ops).length := by
  rw [ofLeBytes_leBytes]
  exact Nat.mod_eq_of_lt h

/-- **A whole record is read back.** -/
theorem parseEntry_encode (h : e.Fits json) (rest : List UInt8) :
    parseEntry crc32 json (e.encode crc32 json ++ rest) = some (some e, rest) := by
  have hsplit : e.encode crc32 json ++ rest = leBytes 4 (json.toVec e.ops).length ++
      (e.checked json ++ (leBytes 4 (crc32 (e.checked json)).toNat ++ rest)) := by
    simp [EntityOps.encode, append_assoc]
  have hlen := length_encode crc32 json e
  have hplen : ofLeBytes ((e.encode crc32 json ++ rest).take 4) = (json.toVec e.ops).length := by
    rw [hsplit, take_left' (length_leBytes 4 _), h.length_field]
  have hcrcIn : ((e.encode crc32 json ++ rest).drop 4).take (9 + (json.toVec e.ops).length) = e.checked json := by
    rw [hsplit]
    exact slice_append (length_leBytes 4 _) (length_checked json e) _
  have hstored : ofLeBytes (((e.encode crc32 json ++ rest).drop
      (walHeaderSize + (json.toVec e.ops).length)).take 4) = (crc32 (e.checked json)).toNat := by
    rw [hsplit, ← append_assoc, slice_append ?_ (length_leBytes 4 _), ofLeBytes_leBytes]
    · exact Nat.mod_eq_of_lt (crc32 (e.checked json)).toNat_lt
    · rw [length_append, length_leBytes, length_checked, walHeaderSize]
      omega
  have heid : (UInt64.ofNat (ofLeBytes ((e.checked json).take 8))).toInt64 = e.entityId := by
    rw [EntityOps.checked, take_left' (length_leBytes 8 _), ofLeBytes_leBytes,
      Nat.mod_eq_of_lt (show _ < 256 ^ 8 from e.entityId.toUInt64.toNat_lt), UInt64.ofNat_toNat]
    rfl
  have hflags : ((e.checked json).drop 8).headD 0 = if e.createsSlot then flagCreatesSlot else 0 := by
    rfl
  have hops : (e.checked json).drop 9 = json.toVec e.ops := by
    rfl
  have hcreates : decide ((if e.createsSlot then flagCreatesSlot else 0) &&& flagCreatesSlot ≠ 0) = e.createsSlot := by
    cases e.createsSlot <;> decide
  have hdrop : (e.encode crc32 json ++ rest).drop (walHeaderSize + (json.toVec e.ops).length + crcSize) =
      rest := drop_left' hlen
  have hshort : ¬ (e.encode crc32 json ++ rest).length < walHeaderSize := by
    rw [length_append]
    omega
  have hcut : ¬ (e.encode crc32 json ++ rest).length < walHeaderSize + (json.toVec e.ops).length + crcSize := by
    rw [length_append]
    omega
  unfold parseEntry
  simp only [if_neg hshort, hplen, if_neg hcut, hcrcIn, hstored, heid, hflags, hops, if_true,
    json.fromSlice_toVec, Option.map_some, hcreates, hdrop]

/-- **A torn record stops the reader**, wherever it was cut. -/
theorem parseEntry_take (h : e.Fits json) {k : Nat} (hk : k < (e.encode crc32 json).length) :
    parseEntry crc32 json ((e.encode crc32 json).take k) = none := by
  have hlen : ((e.encode crc32 json).take k).length = k := by
    rw [length_take]
    omega
  rw [length_encode] at hk
  unfold parseEntry
  rw [hlen]
  by_cases hshort : k < walHeaderSize
  · rw [if_pos hshort]
  · have hmin : min 4 k = 4 := Nat.min_eq_left (by simp only [walHeaderSize] at hshort; omega)
    have hplen : ofLeBytes (((e.encode crc32 json).take k).take 4) = (json.toVec e.ops).length := by
      rw [take_take, hmin, EntityOps.encode, take_left' (length_leBytes 4 _), h.length_field]
    rw [if_neg hshort, hplen, if_pos hk]

theorem parseEntry_nil : parseEntry crc32 json [] = none := rfl

end Records

/-! ## Files -/

/-- The generations that are there, in the order of `list_generations`. -/
abbrev WalDir := List (Nat × List UInt8)

namespace WalDir

/-- The file of a generation. -/
def file (dir : WalDir) (gen : Nat) : Option (List UInt8) := (dir.find? fun f => f.1 == gen).map Prod.snd

/-- `next_gen`. -/
def nextGen (dir : WalDir) (gen : Nat) : Option Nat := (dir.find? fun f => gen < f.1).map Prod.fst

/-- A file is opened for appending, and created if it is not there. -/
def appendFile : WalDir → Nat → List UInt8 → WalDir
  | [], gen, bytes => [(gen, bytes)]
  | f :: dir, gen, bytes =>
    if f.1 < gen then f :: appendFile dir gen bytes
    else if f.1 = gen then (gen, f.2 ++ bytes) :: dir
    else (gen, bytes) :: f :: dir

/-- `delete_gens_below`. -/
def deleteGensBelow (dir : WalDir) (g : Nat) : WalDir := dir.filter fun f => g ≤ f.1

/-- The last generation that is there. -/
def lastGen (dir : WalDir) : Nat := (dir.getLast?.map Prod.fst).getD 1

theorem appendFile_new {dir : WalDir} {gen : Nat} (h : ∀ f ∈ dir, f.1 < gen) (bytes : List UInt8) :
    dir.appendFile gen bytes = dir ++ [(gen, bytes)] := by
  induction dir with
  | nil => rfl
  | cons f dir ih =>
    rw [appendFile, if_pos (h f mem_cons_self), ih fun f' h' => h f' (mem_cons_of_mem f h'), cons_append]

theorem appendFile_last {dir : WalDir} {gen : Nat} (h : ∀ f ∈ dir, f.1 < gen) (old bytes : List UInt8) :
    appendFile (dir ++ [(gen, old)]) gen bytes = dir ++ [(gen, old ++ bytes)] := by
  induction dir with
  | nil => simp [appendFile]
  | cons f dir ih =>
    rw [cons_append, appendFile, if_pos (h f mem_cons_self),
      ih fun f' h' => h f' (mem_cons_of_mem f h'), cons_append]

end WalDir

/-! ## The writer -/

/-- Where the writer stands. -/
structure WalWriter where
  generation : Nat
  rotationSize : Nat

namespace WalWriter

/-- `with_rotation_size`. -/
def withRotationSize (dir : WalDir) (rotationSize : Nat) : WalWriter := ⟨max dir.lastGen 1, rotationSize⟩

/-- The current file has reached the size. -/
def Rotates (w : WalWriter) (dir : WalDir) : Prop := w.rotationSize ≤ ((dir.file w.generation).map length).getD 0

instance (w : WalWriter) (dir : WalDir) : Decidable (w.Rotates dir) := inferInstanceAs (Decidable (_ ≤ _))

/-- The generation that the next append goes to. -/
def target (w : WalWriter) (dir : WalDir) : Nat := if w.Rotates dir then (w.generation + 1) % 2 ^ 32 else w.generation

/-- `append_batch`: the directory and the writer after it, and the bytes written. -/
def appendBatch {Ops : Type} (crc32 : List UInt8 → UInt32) (json : OpsJson Ops) (w : WalWriter) (dir : WalDir)
    (batch : List (EntityOps Ops)) : WalDir × WalWriter × Nat :=
  if batch.isEmpty then (dir, w, 0)
  else (dir.appendFile (w.target dir) (encodeAll crc32 json batch), { w with generation := w.target dir },
    (encodeAll crc32 json batch).length)

end WalWriter

/-! ## The reader -/

/-- Where a reader stands. -/
structure WalCursor where
  generation : Nat
  offset : Nat
deriving DecidableEq

/-- What a read returns. -/
structure WalBatch (Ops : Type) where
  entries : List (EntityOps Ops)
  newCursor : WalCursor
  bytesRead : Nat
  crcFailures : Nat

section Reader

variable {Ops : Type} (crc32 : List UInt8 → UInt32) (json : OpsJson Ops)

/-- `read_file`. -/
def readFile (file : List UInt8) (cursor : WalCursor) (max : Nat) : WalBatch Ops :=
  let data := file.drop cursor.offset
  let r := scan (walScanner crc32 json) max data
  let pos := data.length - r.rest.length
  ⟨r.records, { cursor with offset := cursor.offset + pos }, pos, r.skipped⟩

/-- The loop of `read_batch`, with the number of records it may still read. Every round but the last goes on to a
later generation. -/
def readLoop (dir : WalDir) : Nat → WalCursor → Nat → WalBatch Ops
  | 0, cursor, _ => ⟨[], cursor, 0, 0⟩
  | fuel + 1, cursor, room =>
    match dir.file cursor.generation with
    | none =>
      match dir.nextGen cursor.generation with
      | some g => readLoop dir fuel ⟨g, 0⟩ room
      | none => ⟨[], cursor, 0, 0⟩
    | some file =>
      if file.length ≤ cursor.offset then
        match dir.nextGen cursor.generation with
        | some g => readLoop dir fuel ⟨g, 0⟩ room
        | none => ⟨[], cursor, 0, 0⟩
      else
        let b := readFile crc32 json file cursor room
        if room ≤ b.entries.length then b
        -- the file is used up, or its tail cannot be decoded
        else if file.length ≤ b.newCursor.offset ∨ b.newCursor.offset = cursor.offset then
          match dir.nextGen cursor.generation with
          | some g =>
            let rest := readLoop dir fuel ⟨g, 0⟩ (room - b.entries.length)
            ⟨b.entries ++ rest.entries, rest.newCursor, b.bytesRead + rest.bytesRead,
              b.crcFailures + rest.crcFailures⟩
          | none => b
        else b

/-- `read_batch`. -/
def readBatch (dir : WalDir) (cursor : WalCursor) (max : Nat) : WalBatch Ops :=
  readLoop crc32 json dir (dir.length + 1) cursor max

/-- The records of several reads, one after the other. -/
def readTimes (dir : WalDir) (max : Nat) : Nat → WalCursor → List (EntityOps Ops)
  | 0, _ => []
  | n + 1, cursor =>
    let b := readBatch crc32 json dir cursor max
    b.entries ++ readTimes dir max n b.newCursor

/-! ## Segments -/

/-- One generation as it was written: whole records, and what a crash left of one more. -/
structure Segment (Ops : Type) where
  generation : Nat
  entries : List (EntityOps Ops)
  torn : List UInt8

namespace Segment

def bytes (seg : Segment Ops) : List UInt8 := encodeAll crc32 json seg.entries ++ seg.torn

/-- A generation as a file. -/
def file (seg : Segment Ops) : Nat × List UInt8 := (seg.generation, seg.bytes crc32 json)

/-- A generation that can be read. -/
structure Readable (seg : Segment Ops) : Prop where
  generation_pos : 0 < seg.generation
  fits : ∀ e ∈ seg.entries, e.Fits json
  stops : parseEntry crc32 json seg.torn = none

end Segment

/-- The directory holds these segments. -/
structure Holds (dir : WalDir) (segs : List (Segment Ops)) : Prop where
  dir_eq : dir = segs.map fun seg => seg.file crc32 json
  sorted : segs.Pairwise fun a b => a.generation < b.generation
  readable : ∀ seg ∈ segs, seg.Readable crc32 json

/-- A cursor between two records of a segment. -/
structure Inside (cursor : WalCursor) (seg : Segment Ops) (pre post : List (EntityOps Ops)) : Prop where
  generation_eq : cursor.generation = seg.generation
  entries_eq : seg.entries = pre ++ post
  offset_eq : cursor.offset = (encodeAll crc32 json pre).length

/-- The records after a cursor. A reader that has read nothing starts in generation 0, before all others. -/
inductive After (segs : List (Segment Ops)) (cursor : WalCursor) : List (EntityOps Ops) → Prop where
  | before (h : cursor.generation = 0) : After segs cursor (segs.flatMap Segment.entries)
  | inside (front : List (Segment Ops)) (seg : Segment Ops) (back : List (Segment Ops))
      (pre post : List (EntityOps Ops)) (hsegs : segs = front ++ seg :: back)
      (h : Inside crc32 json cursor seg pre post) : After segs cursor (post ++ back.flatMap Segment.entries)

/-- What a read may give of the records left: some from the front, all it may take if no generation has a torn record,
and at least one. -/
def Delivers (segs : List (Segment Ops)) (gen max : Nat) (left : List (EntityOps Ops)) (b : WalBatch Ops) :
    Prop :=
  ∃ m ≤ max, (1 ≤ max → 1 ≤ m) ∧ ((∀ seg ∈ segs, seg.torn = []) → m = max) ∧ b.entries = left.take m ∧
    gen ≤ b.newCursor.generation ∧ After crc32 json segs b.newCursor (left.drop m)

variable {crc32 json} {dir : WalDir} {segs front back : List (Segment Ops)} {seg : Segment Ops}
  {pre post left : List (EntityOps Ops)} {cursor : WalCursor}

theorem Segment.length_bytes (h : seg.entries = pre ++ post) : (seg.bytes crc32 json).length =
      (encodeAll crc32 json pre).length + (encodeAll crc32 json post).length + seg.torn.length := by
  rw [Segment.bytes, h, encodeAll_append, length_append, length_append]

theorem Holds.lt_of_front (h : Holds crc32 json dir (front ++ seg :: back)) :
    ∀ s ∈ front, s.generation < seg.generation := by
  intro s hs
  exact (pairwise_append.mp h.sorted).2.2 s hs seg mem_cons_self

theorem Holds.lt_of_back (h : Holds crc32 json dir (front ++ seg :: back)) :
    ∀ s ∈ back, seg.generation < s.generation :=
  (pairwise_cons.mp (pairwise_append.mp h.sorted).2.1).1

theorem Holds.file_eq_none (h : Holds crc32 json dir segs) {gen : Nat}
    (hne : ∀ s ∈ segs, s.generation ≠ gen) : dir.file gen = none := by
  rw [WalDir.file, h.dir_eq, Option.map_eq_none_iff, find?_eq_none]
  intro f hf
  obtain ⟨s, hs, rfl⟩ := mem_map.mp hf
  simpa [Segment.file] using hne s hs

theorem Holds.file_eq (h : Holds crc32 json dir (front ++ seg :: back)) :
    dir.file seg.generation = some (seg.bytes crc32 json) := by
  have hfront : (front.map fun s => s.file crc32 json).find? (fun f => f.1 == seg.generation) = none := by
    rw [find?_eq_none]
    intro f hf
    obtain ⟨s, hs, rfl⟩ := mem_map.mp hf
    simpa [Segment.file] using (h.lt_of_front s hs).ne
  rw [WalDir.file, h.dir_eq, map_append, map_cons, find?_append, hfront, find?_cons_of_pos (by simp [Segment.file])]
  rfl

theorem Holds.nextGen_eq (h : Holds crc32 json dir (front ++ back)) {gen : Nat}
    (hfront : ∀ s ∈ front, s.generation ≤ gen) (hback : ∀ s ∈ back, gen < s.generation) :
    dir.nextGen gen = back.head?.map Segment.generation := by
  have hnone : (front.map fun s => s.file crc32 json).find? (fun f => gen < f.1) = none := by
    rw [find?_eq_none]
    intro f hf
    obtain ⟨s, hs, rfl⟩ := mem_map.mp hf
    show ¬ decide (gen < s.generation) = true
    rw [decide_eq_true_eq]
    exact Nat.not_lt.mpr (hfront s hs)
  rw [WalDir.nextGen, h.dir_eq, map_append, find?_append, hnone]
  cases back with
  | nil => rfl
  | cons s back =>
    have hs : decide (gen < (s.file crc32 json).1) = true := decide_eq_true (hback s mem_cons_self)
    simp only [map_cons, find?_cons, hs]
    rfl

theorem Holds.nextGen_seg (h : Holds crc32 json dir (front ++ seg :: back)) :
    dir.nextGen seg.generation = back.head?.map Segment.generation := by
  have h' : Holds crc32 json dir ((front ++ [seg]) ++ back) := by
    rw [append_assoc]
    exact h
  refine h'.nextGen_eq ?_ h.lt_of_back
  intro s hs
  rcases mem_append.mp hs with hs | hs
  · exact (h.lt_of_front s hs).le
  · rw [mem_singleton.mp hs]

/-! ## A file that was cut -/

/-- The records that are there as a whole in the first `k` bytes. -/
def wholeRecords (crc32 : List UInt8 → UInt32) (json : OpsJson Ops) : Nat → List (EntityOps Ops) → List (EntityOps Ops)
  | _, [] => []
  | k, e :: es =>
    if k < (e.encode crc32 json).length then [] else e :: wholeRecords crc32 json (k - (e.encode crc32 json).length) es

/-- **Whatever a crash leaves of a file**, its whole records are read, in order, and nothing else. -/
theorem readFile_take (es : List { e : EntityOps Ops // e.Fits json }) (k generation max : Nat) :
    (readFile crc32 json ((encodeAll crc32 json es.unattach).take k) ⟨generation, 0⟩ max).entries =
      (wholeRecords crc32 json k es.unattach).take max := by
  obtain ⟨torn, htake, hstops, hfits⟩ : ∃ torn, (encodeAll crc32 json es.unattach).take k =
      encodeAll crc32 json (wholeRecords crc32 json k es.unattach) ++ torn ∧ parseEntry crc32 json torn = none ∧
      ∀ e ∈ wholeRecords crc32 json k es.unattach, e.Fits json := by
    induction es generalizing k with
    | nil => exact ⟨[], take_nil, parseEntry_nil, nofun⟩
    | cons e es ih =>
      rw [unattach_cons, wholeRecords, encodeAll, flatMap_cons, ← encodeAll]
      split
      · next hcut => exact ⟨_, take_append_of_le_length hcut.le, parseEntry_take e.2 hcut, nofun⟩
      · next hwhole =>
        obtain ⟨torn, htake, hstops, hfits⟩ := ih (k - (e.1.encode crc32 json).length)
        refine ⟨torn, ?_, hstops, forall_mem_cons.mpr ⟨e.2, hfits⟩⟩
        rw [take_append, take_of_length_le (Nat.le_of_not_lt hwhole), htake, ← append_assoc]
        rfl
  rw [htake]
  exact congrArg Scanned.records (scan_records (fun e he => parseEntry_encode (hfits e he)) hstops max)

/-! ## One read -/

/-- What a read takes from one file. -/
theorem Inside.readFile_eq (h : Inside crc32 json cursor seg pre post) (hread : seg.Readable crc32 json) (max : Nat) :
    (readFile crc32 json (seg.bytes crc32 json) cursor max).entries = post.take max ∧
      Inside crc32 json (readFile crc32 json (seg.bytes crc32 json) cursor max).newCursor seg
        (pre ++ post.take max) (post.drop max) := by
  have hdata : (seg.bytes crc32 json).drop cursor.offset = encodeAll crc32 json post ++ seg.torn := by
    rw [Segment.bytes, h.entries_eq, encodeAll_append, append_assoc, h.offset_eq, drop_left]
  have hparse : ∀ e ∈ post, ∀ rest,
      (walScanner crc32 json).parse (e.encode crc32 json ++ rest) = some (some e, rest) := by
    intro e he rest
    have hmem : e ∈ seg.entries := by
      rw [h.entries_eq]
      exact mem_append_right pre he
    rw [walScanner_parse]
    exact parseEntry_encode (hread.fits e hmem) rest
  have hscan : scan (walScanner crc32 json) max (encodeAll crc32 json post ++ seg.torn) =
      ⟨post.take max, encodeAll crc32 json (post.drop max) ++ seg.torn, 0⟩ :=
    scan_records hparse hread.stops max
  have hlen : (encodeAll crc32 json post).length =
      (encodeAll crc32 json (post.take max)).length + (encodeAll crc32 json (post.drop max)).length := by
    rw [← length_append, ← encodeAll_append, take_append_drop]
  refine ⟨?_, ?_, ?_, ?_⟩
  · simp [readFile, hdata, hscan]
  · exact h.generation_eq
  · rw [h.entries_eq, append_assoc, take_append_drop]
  · simp only [readFile, hdata, hscan, encodeAll_append, length_append]
    have hoffset := h.offset_eq
    omega

/-- A read that ends in a segment. -/
theorem Delivers.of_inside (hsegs : segs = front ++ seg :: back) {post pre' : List (EntityOps Ops)}
    {b : WalBatch Ops} {m max : Nat} (hentries : b.entries = post.take m)
    (hcursor : Inside crc32 json b.newCursor seg pre' (post.drop m)) (hm : m ≤ post.length ∨ back = [])
    (hmax : m ≤ max) (hone : 1 ≤ max → 1 ≤ m) (hexact : (∀ seg ∈ segs, seg.torn = []) → m = max) :
    Delivers crc32 json segs seg.generation max (post ++ back.flatMap Segment.entries) b := by
  have hafter := After.inside front seg back pre' (post.drop m) hsegs hcursor
  refine ⟨m, hmax, hone, hexact, ?_, hcursor.generation_eq.ge, ?_⟩
  · rcases hm with hm | rfl
    · rw [take_append_of_le_length hm, hentries]
    · rw [flatMap_nil, append_nil, hentries]
  · rcases hm with hm | rfl
    · rw [drop_append_of_le_length hm]
      exact hafter
    · rw [flatMap_nil, append_nil] at hafter ⊢
      exact hafter

/-- The loop from a cursor inside a segment, by induction on the segments behind it. -/
theorem Holds.readLoop_delivers (h : Holds crc32 json dir segs) (hsegs : segs = front ++ seg :: back)
    (hin : Inside crc32 json cursor seg pre post) {fuel : Nat} (hfuel : back.length < fuel) (room : Nat) :
    Delivers crc32 json segs seg.generation room (post ++ back.flatMap Segment.entries)
      (readLoop crc32 json dir fuel cursor room) := by
  induction back generalizing front seg cursor pre post fuel room with
  | nil =>
    obtain ⟨fuel, rfl⟩ : ∃ n, fuel = n + 1 := ⟨fuel - 1, by omega⟩
    have h' := hsegs ▸ h
    obtain ⟨hentries, hcursor⟩ := hin.readFile_eq (h'.readable seg (by simp)) room
    have hread : Delivers crc32 json segs seg.generation room (post ++ [].flatMap Segment.entries)
        (readFile crc32 json (seg.bytes crc32 json) cursor room) :=
      Delivers.of_inside hsegs hentries hcursor (.inr rfl) le_rfl id fun _ => rfl
    simp only [readLoop, hin.generation_eq, h'.file_eq, h'.nextGen_seg, head?_nil, Option.map_none]
    split
    · rename_i hend
      rw [Segment.length_bytes hin.entries_eq, hin.offset_eq] at hend
      have hpost : post = [] := eq_nil_of_length_encodeAll crc32 json (by omega)
      subst hpost
      exact Delivers.of_inside (m := room) hsegs take_nil.symm (drop_nil.symm ▸ hin) (.inr rfl) le_rfl id
        fun _ => rfl
    · split
      · exact hread
      · split
        · exact hread
        · exact hread
  | cons next back ih =>
    obtain ⟨fuel, rfl⟩ : ∃ n, fuel = n + 1 := ⟨fuel - 1, by omega⟩
    have h' := hsegs ▸ h
    have hlt : seg.generation < next.generation := h'.lt_of_back next mem_cons_self
    have hnext : ∀ room, Delivers crc32 json segs next.generation room
        ((next :: back).flatMap Segment.entries) (readLoop crc32 json dir fuel ⟨next.generation, 0⟩ room) := by
      intro room
      have hstart : Inside crc32 json ⟨next.generation, 0⟩ next [] next.entries := ⟨rfl, rfl, rfl⟩
      rw [length_cons] at hfuel
      exact ih (by rw [hsegs, append_cons]) hstart (by omega) room
    obtain ⟨hentries, hcursor⟩ := hin.readFile_eq (h'.readable seg (by simp)) room
    have hlen : (seg.bytes crc32 json).length = _ := Segment.length_bytes hin.entries_eq
    simp only [readLoop, hin.generation_eq, h'.file_eq, h'.nextGen_seg, head?_cons, Option.map_some]
    split
    · rename_i hend
      rw [hin.offset_eq] at hend
      have hpost : post = [] := eq_nil_of_length_encodeAll crc32 json (by omega)
      obtain ⟨m, hmax, hone, hexact, htake, hgen, hafter⟩ := hnext room
      subst hpost
      exact ⟨m, hmax, hone, hexact, htake, hlt.le.trans hgen, hafter⟩
    · split
      · rename_i hfull
        rw [hentries, length_take] at hfull
        exact Delivers.of_inside hsegs hentries hcursor (.inl (by omega)) le_rfl id fun _ => rfl
      · rename_i hfull
        rw [hentries, length_take] at hfull
        have hall : post.take room = post := take_of_length_le (by omega)
        have hnone : post.drop room = [] := drop_of_length_le (by omega)
        rw [hall] at hentries
        rw [hall, hnone, ← hin.entries_eq] at hcursor
        split
        · -- on to the next generation with what is left of the room
          obtain ⟨m, hmax, hone, hexact, htake, hgen, hafter⟩ := hnext (room - post.length)
          refine ⟨post.length + m, by omega, by omega, ?_, ?_, ?_, ?_⟩
          · intro hclean
            have hm := hexact hclean
            omega
          · simp only [hentries, htake, take_length_add_append]
          · rw [hentries]
            exact hlt.le.trans hgen
          · simp only [hentries, drop_length_add_append]
            exact hafter
        · -- records were read and a torn one is left, so the read ends here
          rename_i hstay
          rw [hcursor.offset_eq, hin.entries_eq, encodeAll_append, length_append, hin.offset_eq, hlen] at hstay
          have htorn : seg.torn ≠ [] := by
            intro htorn
            rw [htorn, length_nil] at hstay
            omega
          have hpost : post ≠ [] := by
            rintro rfl
            exact hstay (.inr rfl)
          rw [← take_length (l := post)] at hentries
          rw [← drop_length (l := post)] at hcursor
          refine Delivers.of_inside hsegs hentries hcursor (.inl le_rfl) (by omega) ?_ ?_
          · intro _
            exact length_pos_iff.mpr hpost
          · intro hclean
            exact absurd (hclean seg (by simp [hsegs])) htorn

/-- **One read** takes records from the front of those that are left, and leaves the cursor behind them. -/
theorem Holds.readBatch_delivers (h : Holds crc32 json dir segs)
    (hafter : After crc32 json segs cursor left) (max : Nat) :
    Delivers crc32 json segs cursor.generation max left (readBatch crc32 json dir cursor max) := by
  have hlength : dir.length = segs.length := by rw [h.dir_eq, length_map]
  cases hafter with
  | inside front seg back pre post hsegs hin =>
    have hback : back.length < dir.length + 1 := by
      rw [hlength, hsegs, length_append, length_cons]
      omega
    rw [hin.generation_eq]
    exact h.readLoop_delivers hsegs hin hback max
  | before hzero =>
    have hnone : dir.file 0 = none := h.file_eq_none fun s hs => (h.readable s hs).generation_pos.ne'
    have hnext : dir.nextGen 0 = segs.head?.map Segment.generation := by
      rw [← nil_append segs] at h
      exact h.nextGen_eq (by simp) fun s hs => (h.readable s hs).generation_pos
    unfold readBatch
    cases segs with
    | nil =>
      simp only [readLoop, hzero, hnone, hnext, head?_nil, Option.map_none]
      exact ⟨max, le_rfl, id, fun _ => rfl, take_nil.symm, hzero.symm.le, by
        rw [flatMap_nil, drop_nil]
        exact .before hzero⟩
    | cons seg back =>
      simp only [readLoop, hzero, hnone, hnext, head?_cons, Option.map_some]
      have hback : back.length < dir.length := by
        rw [hlength, length_cons]
        omega
      have hstart : Inside crc32 json ⟨seg.generation, 0⟩ seg [] seg.entries := ⟨rfl, rfl, rfl⟩
      obtain ⟨m, hmax, hone, hexact, htake, -, hafter⟩ :=
        h.readLoop_delivers (nil_append (seg :: back)).symm hstart hback max
      exact ⟨m, hmax, hone, hexact, htake, Nat.zero_le _, hafter⟩

/-- Enough reads give all that is left. -/
theorem Holds.readTimes_eq (h : Holds crc32 json dir segs) {max : Nat} (hmax : 1 ≤ max) {n : Nat}
    (hafter : After crc32 json segs cursor left)
    (hn : left.length ≤ n) : readTimes crc32 json dir max n cursor = left := by
  induction n generalizing cursor left with
  | zero =>
    rw [eq_nil_of_length_eq_zero (Nat.le_zero.mp hn)]
    rfl
  | succ n ih =>
    obtain ⟨m, -, hone, -, htake, -, hdrop⟩ := h.readBatch_delivers hafter max
    rw [readTimes, htake, ih hdrop (by rw [length_drop]; omega), take_append_drop]

/-! ## What appends and deletions do to a cursor -/

theorem After.append_segment (h : After crc32 json segs cursor left) (new : Segment Ops) :
    After crc32 json (segs ++ [new]) cursor (left ++ new.entries) := by
  cases h with
  | before hzero =>
    have hnew : After crc32 json (segs ++ [new]) cursor _ := .before hzero
    rwa [flatMap_append, flatMap_singleton] at hnew
  | inside front seg back pre post hsegs hin =>
    rw [append_assoc, ← flatMap_singleton Segment.entries new, ← flatMap_append]
    refine .inside front seg (back ++ [new]) pre post ?_ hin
    rw [hsegs, append_assoc, cons_append]

/-- Records behind those of the last segment, which keeps its generation. -/
theorem After.append_entries {init : List (Segment Ops)} {last : Segment Ops}
    (h : After crc32 json (init ++ [last]) cursor left) (whole : List (EntityOps Ops)) (torn : List UInt8) :
    After crc32 json (init ++ [⟨last.generation, last.entries ++ whole, torn⟩]) cursor (left ++ whole) := by
  generalize hsegs : init ++ [last] = segs at h
  generalize hnew : (⟨last.generation, last.entries ++ whole, torn⟩ : Segment Ops) = new
  have hgeneration : new.generation = last.generation := by rw [← hnew]
  have hentries : new.entries = last.entries ++ whole := by rw [← hnew]
  cases h with
  | before hzero =>
    have hafter : After crc32 json (init ++ [new]) cursor _ := .before hzero
    rwa [flatMap_append, flatMap_singleton, hentries, ← append_assoc,
      ← flatMap_singleton Segment.entries last, ← flatMap_append, hsegs] at hafter
  | inside front seg back pre post hsplit hin =>
    rcases eq_nil_or_concat back with rfl | ⟨back, b, rfl⟩
    · -- the cursor stands in the last segment itself
      obtain ⟨rfl, hlast⟩ := append_inj' (hsegs.trans hsplit) rfl
      obtain rfl := singleton_inj.mp hlast
      have hin' : Inside crc32 json cursor new pre (post ++ whole) :=
        ⟨by rw [hin.generation_eq, hgeneration], by rw [hentries, hin.entries_eq, append_assoc], hin.offset_eq⟩
      have hafter := After.inside init new [] pre (post ++ whole) rfl hin'
      rwa [flatMap_nil, append_nil] at hafter ⊢
    · rw [concat_eq_append] at hsplit ⊢
      obtain ⟨rfl, hlast⟩ := append_inj' ((hsegs.trans hsplit).trans
        (append_assoc front (seg :: back) [b]).symm) rfl
      obtain rfl := singleton_inj.mp hlast
      rw [append_assoc]
      have hafter := After.inside front seg (back ++ [new]) pre post rfl hin
      rwa [flatMap_append, flatMap_singleton, hentries, ← append_assoc, ← append_assoc,
        append_assoc post, ← flatMap_singleton Segment.entries last, ← flatMap_append] at hafter

/-- Behind whole records the bytes of an append make whole records again. -/
theorem Holds.append_last {init : List (Segment Ops)} {last : Segment Ops}
    (h : Holds crc32 json dir (init ++ [last])) (hlast : last.torn = []) {whole : List (EntityOps Ops)}
    {torn : List UInt8} (hfits : ∀ e ∈ whole, e.Fits json) (hstops : parseEntry crc32 json torn = none) :
    Holds crc32 json (dir.appendFile last.generation (encodeAll crc32 json whole ++ torn))
      (init ++ [⟨last.generation, last.entries ++ whole, torn⟩]) where
  dir_eq := by
    have hbytes : last.bytes crc32 json = encodeAll crc32 json last.entries := by
      rw [Segment.bytes, hlast, append_nil]
    have hdir : dir = (init.map fun seg => seg.file crc32 json) ++ [(last.generation, last.bytes crc32 json)] := by
      rw [h.dir_eq, map_append]
      rfl
    rw [hdir, WalDir.appendFile_last, hbytes, ← append_assoc, ← encodeAll_append, map_append]
    · rfl
    · intro f hf
      obtain ⟨seg, hseg, rfl⟩ := mem_map.mp hf
      exact h.lt_of_front seg hseg
  sorted := by
    refine pairwise_append.mpr ⟨(pairwise_append.mp h.sorted).1, pairwise_singleton _ _, ?_⟩
    intro a ha b hb
    rw [mem_singleton.mp hb]
    exact h.lt_of_front a ha
  readable := by
    intro seg hseg
    rcases mem_append.mp hseg with hseg | hseg
    · exact h.readable seg (mem_append_left _ hseg)
    · have hread := h.readable last (mem_append_right init mem_cons_self)
      rw [mem_singleton.mp hseg]
      exact ⟨hread.generation_pos, fun e he => (mem_append.mp he).elim (hread.fits e) (hfits e), hstops⟩

variable (h : Holds crc32 json dir segs)
include h

theorem Holds.after_delete (hafter : After crc32 json segs cursor left) {g : Nat} (hg : g ≤ cursor.generation) :
    After crc32 json (segs.filter fun seg => g ≤ seg.generation) cursor left ∧
      (segs.filter fun seg => g ≤ seg.generation).getLast? = segs.getLast? := by
  cases hafter with
  | before hzero =>
    have hall : (segs.filter fun seg => g ≤ seg.generation) = segs := by
      rw [filter_eq_self]
      intro seg _
      exact decide_eq_true (by omega)
    rw [hall]
    exact ⟨.before hzero, rfl⟩
  | inside front seg back pre post hsegs hin =>
    subst hsegs
    rw [hin.generation_eq] at hg
    have hkept : ((seg :: back).filter fun seg => g ≤ seg.generation) = seg :: back := by
      rw [filter_eq_self]
      intro s hs
      apply decide_eq_true
      rcases mem_cons.mp hs with rfl | hs
      · exact hg
      · exact hg.trans (h.lt_of_back s hs).le
    rw [filter_append, hkept]
    refine ⟨.inside _ seg back pre post rfl hin, ?_⟩
    rw [getLast?_append, getLast?_append, getLast?_cons, Option.some_or, Option.some_or]

theorem Holds.delete (g : Nat) :
    Holds crc32 json (dir.deleteGensBelow g) (segs.filter fun seg => g ≤ seg.generation) where
  dir_eq := by
    rw [WalDir.deleteGensBelow, h.dir_eq, filter_map]
    rfl
  sorted := h.sorted.filter _
  readable seg hseg := h.readable seg (mem_filter.mp hseg).1

theorem Holds.lastGen_eq : dir.lastGen = (segs.getLast?.map Segment.generation).getD 1 := by
  rw [WalDir.lastGen, h.dir_eq, getLast?_map, Option.map_map]
  rfl

theorem Holds.le_lastGen : ∀ seg ∈ segs, seg.generation ≤ dir.lastGen := by
  intro seg hseg
  rw [h.lastGen_eq]
  rcases eq_nil_or_concat segs with rfl | ⟨init, last, rfl⟩
  · cases hseg
  · rw [concat_eq_append] at h hseg ⊢
    rw [getLast?_concat]
    rcases mem_append.mp hseg with hseg | hseg
    · exact (h.lt_of_front seg hseg).le
    · rw [mem_singleton.mp hseg]
      rfl

theorem Holds.lastGen_pos : 1 ≤ dir.lastGen := by
  rw [h.lastGen_eq]
  cases hlast : segs.getLast? with
  | none => exact le_rfl
  | some last => exact (h.readable last (mem_of_getLast? hlast)).generation_pos

theorem Holds.append_new (new : Segment Ops) (hnew : new.Readable crc32 json)
    (hlt : ∀ seg ∈ segs, seg.generation < new.generation) :
    Holds crc32 json (dir.appendFile new.generation (new.bytes crc32 json)) (segs ++ [new]) where
  dir_eq := by
    rw [WalDir.appendFile_new, h.dir_eq, map_append]
    · rfl
    · intro f hf
      rw [h.dir_eq] at hf
      obtain ⟨seg, hseg, rfl⟩ := mem_map.mp hf
      exact hlt seg hseg
  sorted := by
    refine pairwise_append.mpr ⟨h.sorted, pairwise_singleton _ _, ?_⟩
    intro a ha b hb
    rw [mem_singleton.mp hb]
    exact hlt a ha
  readable := by
    intro seg hseg
    rcases mem_append.mp hseg with hseg | hseg
    · exact h.readable seg hseg
    · rw [mem_singleton.mp hseg]
      exact hnew

/-- **One write**, whole records and perhaps a torn one, goes to a new generation or behind whole records, and behind
what every cursor has left. -/
theorem Holds.write {w : WalWriter} (hw : w.generation = dir.lastGen)
    {whole : List (EntityOps Ops)} {torn : List UInt8} (hfits : ∀ e ∈ whole, e.Fits json)
    (hstops : parseEntry crc32 json torn = none) (hgen : w.Rotates dir → w.generation + 1 < 2 ^ 32)
    (htorn : (∀ last, segs.getLast? = some last → last.torn = []) ∨ w.Rotates dir) :
    ∃ init new, Holds crc32 json (dir.appendFile (w.target dir) (encodeAll crc32 json whole ++ torn))
        (init ++ [new]) ∧ new.generation = w.target dir ∧ new.torn = torn ∧
      (∀ cursor left, After crc32 json segs cursor left → After crc32 json (init ++ [new]) cursor (left ++ whole)) ∧
      ∀ seg ∈ init, seg ∈ segs := by
  have hnew (hlt : ∀ seg ∈ segs, seg.generation < w.target dir) (hpos : 0 < w.target dir) :=
    h.append_new ⟨w.target dir, whole, torn⟩ ⟨hpos, hfits, hstops⟩ hlt
  by_cases hrot : w.Rotates dir
  · -- a new generation, above all others
    have htarget : w.target dir = w.generation + 1 := by
      rw [WalWriter.target, if_pos hrot, Nat.mod_eq_of_lt (hgen hrot)]
    refine ⟨segs, ⟨w.target dir, whole, torn⟩, hnew ?_ (by omega), rfl, rfl, ?_, fun seg hseg => hseg⟩
    · intro seg hseg
      have hle := h.le_lastGen seg hseg
      omega
    · intro cursor left hafter
      exact hafter.append_segment _
  · have htarget : w.target dir = w.generation := if_neg hrot
    rcases eq_nil_or_concat segs with rfl | ⟨init, last, rfl⟩
    · -- the first write of all
      refine ⟨[], ⟨w.target dir, whole, torn⟩, hnew (by simp) ?_, rfl, rfl, ?_, by simp⟩
      · rw [htarget, hw]
        exact h.lastGen_pos
      · intro cursor left hafter
        exact hafter.append_segment _
    · rw [concat_eq_append] at h htorn ⊢
      have hlast : last.torn = [] := (htorn.resolve_right hrot) last getLast?_concat
      have hgeneration : w.target dir = last.generation := by
        rw [htarget, hw, h.lastGen_eq, getLast?_concat]
        rfl
      rw [hgeneration]
      refine ⟨init, _, h.append_last hlast hfits hstops, rfl, rfl, ?_, ?_⟩
      · intro cursor left hafter
        exact hafter.append_entries whole torn
      · intro seg hseg
        exact mem_append_left _ hseg

end Reader

end Bitdex
