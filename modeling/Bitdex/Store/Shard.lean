import Bitdex.Store.Ops
import Mathlib.Data.List.TakeWhile

/-!
# `Store.Shard` — shard files and their ops log

A shard file (`shard_store.rs`) is a header of 28 bytes, a snapshot, and a log of ops not yet folded into it.
`append_ops` writes entries at the physical end of the file and raises the op count in the header; `read` replays the
entries up to the first that is cut off or damaged. A crash during an append leaves such an entry, nothing truncates
it, and whatever is appended after it is never replayed.

The file is the list of its bytes and a missing file is `none`. The checksum is a parameter; that it detects damage is
a hypothesis (`DamageDetected`). An op count past 32 bits wraps, as in the release build.
-/

namespace Bitdex

open Frames List BitmapOp

/-! ## The header -/

/-- `BDSS`. -/
def shardMagic : List UInt8 := [0x42, 0x44, 0x53, 0x53]

/-- The version of the format. -/
def shardVersion : Nat := 1

/-- The length of a header. -/
def headerSize : Nat := 28

/-- Where the op count stands in the header. -/
def headerOpsCountOffset : Nat := 20

/-- The header of a shard. -/
structure ShardHeader where
  version : Nat
  opsSectionOffset : Nat
  snapshotLen : Nat
  opsCount : Nat
  flags : Nat
deriving DecidableEq

namespace ShardHeader

/-- The bytes of a header. -/
def encode (h : ShardHeader) : List UInt8 :=
  shardMagic ++ leBytes 4 h.version ++ leBytes 8 h.opsSectionOffset ++ leBytes 4 h.snapshotLen ++
    leBytes 4 h.opsCount ++ leBytes 4 h.flags

/-- Read a header. -/
def decode (bytes : List UInt8) : Except IoError ShardHeader :=
  if bytes.length < headerSize then
    .error ⟨.unexpectedEof,
      "shard header too short: " ++ toString bytes.length ++ " bytes, need " ++ toString headerSize⟩
  else if bytes.take 4 ≠ shardMagic then .error ⟨.invalidData, "invalid shard magic bytes"⟩
  else
    let version := ofLeBytes ((bytes.drop 4).take 4)
    if version ≠ shardVersion then
      .error ⟨.invalidData, "unsupported shard version: " ++ toString version ++ ", expected " ++
        toString shardVersion⟩
    else .ok
      { version := version
        opsSectionOffset := ofLeBytes ((bytes.drop 8).take 8)
        snapshotLen := ofLeBytes ((bytes.drop 16).take 4)
        opsCount := ofLeBytes ((bytes.drop 20).take 4)
        flags := ofLeBytes ((bytes.drop 24).take 4) }

/-- A header whose fields fit their bytes. -/
structure Fits (h : ShardHeader) : Prop where
  version_eq : h.version = shardVersion
  offset_lt : h.opsSectionOffset < 2 ^ 64
  snapshotLen_lt : h.snapshotLen < 2 ^ 32
  opsCount_lt : h.opsCount < 2 ^ 32
  flags_lt : h.flags < 2 ^ 32

@[simp] theorem length_encode (h : ShardHeader) : h.encode.length = headerSize := by
  simp [encode, shardMagic, headerSize]

/-- **The header is read back.** -/
theorem decode_encode {h : ShardHeader} (hfits : h.Fits) : decode h.encode = .ok h := by
  have hsplit : h.encode = shardMagic ++ (leBytes 4 h.version ++ (leBytes 8 h.opsSectionOffset ++
      (leBytes 4 h.snapshotLen ++ (leBytes 4 h.opsCount ++ (leBytes 4 h.flags ++ []))))) := by
    simp [encode, append_assoc]
  have hshort : ¬ h.encode.length < headerSize := Nat.lt_irrefl _
  have hmagic : h.encode.take 4 = shardMagic := by
    rw [hsplit]
    exact take_left' rfl
  have hversion : (h.encode.drop 4).take 4 = leBytes 4 h.version := by
    rw [hsplit]
    exact slice_append (by simp [shardMagic]) (length_leBytes 4 _) _
  have hoffset : (h.encode.drop 8).take 8 = leBytes 8 h.opsSectionOffset := by
    rw [hsplit]
    exact slice_append (by simp) (length_leBytes 8 _) _
  have hlen : (h.encode.drop 16).take 4 = leBytes 4 h.snapshotLen := by
    rw [hsplit, ← append_assoc, ← append_assoc]
    exact slice_append (by simp [shardMagic]) (length_leBytes 4 _) _
  have hcount : (h.encode.drop 20).take 4 = leBytes 4 h.opsCount := by
    rw [hsplit, ← append_assoc, ← append_assoc, ← append_assoc]
    exact slice_append (by simp [shardMagic]) (length_leBytes 4 _) _
  have hflags : (h.encode.drop 24).take 4 = leBytes 4 h.flags := by
    exact slice_append (by simp [shardMagic]) (length_leBytes 4 _) _
  unfold decode
  simp only [if_neg hshort, hmagic, hversion, hoffset, hlen, hcount, hflags, ofLeBytes_leBytes,
    ne_eq, not_true_eq_false, if_false]
  rw [Nat.mod_eq_of_lt (show h.version < 256 ^ 4 by rw [hfits.version_eq]; decide),
    Nat.mod_eq_of_lt (show h.opsSectionOffset < 256 ^ 8 from hfits.offset_lt),
    Nat.mod_eq_of_lt (show h.snapshotLen < 256 ^ 4 from hfits.snapshotLen_lt),
    Nat.mod_eq_of_lt (show h.opsCount < 256 ^ 4 from hfits.opsCount_lt),
    Nat.mod_eq_of_lt (show h.flags < 256 ^ 4 from hfits.flags_lt), if_neg (not_not.mpr hfits.version_eq)]

/-- The header with more ops; the count wraps at 32 bits. -/
def addOps (h : ShardHeader) (additional : Nat) : ShardHeader :=
  { h with opsCount := (h.opsCount + additional) % 2 ^ 32 }

theorem Fits.addOps {h : ShardHeader} (hfits : h.Fits) (additional : Nat) : (h.addOps additional).Fits :=
  ⟨hfits.version_eq, hfits.offset_lt, hfits.snapshotLen_lt, Nat.mod_lt _ (by decide), hfits.flags_lt⟩

theorem Fits.addOps_zero {h : ShardHeader} (hfits : h.Fits) : h.addOps 0 = h := by
  unfold ShardHeader.addOps
  rw [Nat.add_zero, Nat.mod_eq_of_lt hfits.opsCount_lt]

end ShardHeader

/-! ## Files -/

/-- How a store's snapshot and ops are turned into bytes. An op whose bytes fit the length field is read back. -/
structure ShardCodec (σ Op : Type) where
  decode : List UInt8 → Except IoError σ
  empty : σ
  encodeOp : Op → List UInt8
  decodeOp : List UInt8 → Except IoError Op
  apply : σ → Op → σ
  decodeOp_encodeOp : ∀ op, (encodeOp op).length < 2 ^ 32 → decodeOp (encodeOp op) = .ok op

section Files

variable {σ Op : Type} (crc32 : List UInt8 → UInt32) (codec : ShardCodec σ Op)

/-- `write_op_entry`. -/
def writeOpEntry (op : Op) : List UInt8 := frame crc32 (codec.encodeOp op)

def writeOpEntries (ops : List Op) : List UInt8 := ops.flatMap (writeOpEntry crc32 codec)

/-- `read_op_entries`: the ops in file order, up to the first bad entry. -/
def readOpEntries (data : List UInt8) : List Op := readAll crc32 (fun payload => (codec.decodeOp payload).toOption) data

/-- The header, the snapshot section and everything from the ops offset on. -/
def readShardFileRaw (data : List UInt8) :
    Except IoError (ShardHeader × List UInt8 × List UInt8) := do
  if data.length < headerSize then
    .error ⟨.unexpectedEof, "shard file too small for header"⟩
  else
    let header ← ShardHeader.decode (data.take headerSize)
    let snapshotEnd := headerSize + header.snapshotLen
    if snapshotEnd > data.length then
      .error ⟨.unexpectedEof, "shard file truncated in snapshot section"⟩
    else
      let snapshotBytes := (data.take snapshotEnd).drop headerSize
      let opsBytes := if header.opsSectionOffset ≤ data.length then data.drop header.opsSectionOffset else []
      return (header, snapshotBytes, opsBytes)

/-- A file that has at least a header. -/
def isValidShardFile (file : Option (List UInt8)) : Bool :=
  file.elim false fun data => decide (headerSize ≤ data.length)

/-- An empty snapshot section stands for the empty snapshot. -/
def readSnapshot (header : ShardHeader) (snapshotBytes : List UInt8) : Except IoError σ :=
  if header.snapshotLen > 0 then codec.decode snapshotBytes else .ok codec.empty

/-- `read`: the snapshot with the readable ops applied. -/
def readShard (file : Option (List UInt8)) : Except IoError (Option σ) :=
  match file with
  | none => .ok none
  | some data =>
    if !isValidShardFile (some data) then .ok none
    else do
      let (header, snapshotBytes, opsBytes) ← readShardFileRaw data
      let snapshot ← readSnapshot codec header snapshotBytes
      return some (if header.opsCount > 0 then (readOpEntries crc32 codec opsBytes).foldl codec.apply
        snapshot else snapshot)

/-- `append_ops_to_shard_opts`: write at the end of the file, then the new count into the header. -/
def appendOpsToShard (file newOpsBytes : List UInt8) (additionalCount : Nat) :
    Except IoError (List UInt8) := do
  let header ← ShardHeader.decode (file.take headerSize)
  let appended := file ++ newOpsBytes
  let opsCount := (header.opsCount + additionalCount) % 2 ^ 32
  return appended.take headerOpsCountOffset ++ leBytes 4 opsCount ++
    appended.drop (headerOpsCountOffset + 4)

/-- `append_ops_opts`; a missing file, or a stub without a header, is written anew. -/
def appendOps (file : Option (List UInt8)) (ops : List Op) : Except IoError (Option (List UInt8)) :=
  if ops = [] then .ok file
  else
    let opsBuf := writeOpEntries crc32 codec ops
    let count := ops.length % 2 ^ 32
    if isValidShardFile file then (appendOpsToShard (file.getD []) opsBuf count).map some
    else
      let header : ShardHeader := ⟨shardVersion, headerSize, 0, count, 0⟩
      .ok (some (header.encode ++ opsBuf))

/-- Several calls, one after the other; `append_op` is a call with one op. -/
def appendAll (file : Option (List UInt8)) (calls : List (List Op)) :
    Except IoError (Option (List UInt8)) :=
  calls.foldlM (appendOps crc32 codec) file

/-! ## What the calls do to a file with a header -/

variable {crc32 codec}

theorem take_headerSize (header : ShardHeader) (body : List UInt8) :
    (header.encode ++ body).take headerSize = header.encode :=
  take_left' header.length_encode

theorem appendOpsToShard_eq {header : ShardHeader} (hfits : header.Fits) (body newOps : List UInt8) (count : Nat) :
    appendOpsToShard (header.encode ++ body) newOps count = .ok ((header.addOps count).encode ++ (body ++ newOps)) := by
  have hfront : ∀ h : ShardHeader, h.encode = (shardMagic ++ leBytes 4 h.version ++
      leBytes 8 h.opsSectionOffset ++ leBytes 4 h.snapshotLen) ++ (leBytes 4 h.opsCount ++ leBytes 4 h.flags) := by
    intro h
    simp [ShardHeader.encode, append_assoc]
  have hlen : (shardMagic ++ leBytes 4 header.version ++ leBytes 8 header.opsSectionOffset ++
      leBytes 4 header.snapshotLen).length = headerOpsCountOffset := by
    simp [shardMagic, headerOpsCountOffset]
  unfold appendOpsToShard
  rw [take_headerSize, ShardHeader.decode_encode hfits]
  refine congrArg Except.ok ?_
  rw [hfront header, hfront (header.addOps count), ← drop_drop]
  simp only [append_assoc (_ ++ leBytes 4 header.snapshotLen)]
  rw [take_left' hlen, drop_left' hlen, append_assoc (leBytes 4 header.opsCount),
    append_assoc (leBytes 4 header.opsCount)]
  simp [ShardHeader.addOps, append_assoc]

theorem isValidShardFile_encode (header : ShardHeader) (body : List UInt8) :
    isValidShardFile (some (header.encode ++ body)) = true := by
  simp [isValidShardFile]

theorem appendOps_eq {header : ShardHeader} (hfits : header.Fits) (body : List UInt8) (ops : List Op) :
    appendOps crc32 codec (some (header.encode ++ body)) ops =
      .ok (some ((header.addOps ops.length).encode ++ (body ++ writeOpEntries crc32 codec ops))) := by
  unfold appendOps
  split
  · next hnil =>
    subst hnil
    rw [length_nil, hfits.addOps_zero]
    simp [writeOpEntries]
  · simp only [isValidShardFile_encode, if_true, Option.getD_some]
    rw [appendOpsToShard_eq hfits]
    simp [ShardHeader.addOps, Except.map]

/-- **Several calls** write all their entries behind the file and add up their counts. -/
theorem appendAll_eq {header : ShardHeader} (hfits : header.Fits) (body : List UInt8) (calls : List (List Op)) :
    appendAll crc32 codec (some (header.encode ++ body)) calls =
      .ok (some ((header.addOps calls.flatten.length).encode ++
        (body ++ writeOpEntries crc32 codec calls.flatten))) := by
  induction calls generalizing header body with
  | nil => exact appendOps_eq hfits body []
  | cons ops calls ih =>
    unfold appendAll
    rw [foldlM_cons, appendOps_eq hfits]
    show appendAll crc32 codec _ calls = _
    rw [ih (hfits.addOps _)]
    simp [ShardHeader.addOps, writeOpEntries, Nat.add_assoc]

/-- **The sections of a file** are found where the header says. -/
theorem readShardFileRaw_eq {header : ShardHeader} {snapshotBytes : List UInt8} (hfits : header.Fits)
    (hsnapshot : header.snapshotLen = snapshotBytes.length)
    (hoffset : header.opsSectionOffset = headerSize + snapshotBytes.length) (opsBytes : List UInt8) :
    readShardFileRaw (header.encode ++ (snapshotBytes ++ opsBytes)) = .ok (header, snapshotBytes, opsBytes) := by
  have hlen : (header.encode ++ snapshotBytes).length = headerSize + snapshotBytes.length := by
    rw [length_append, ShardHeader.length_encode]
  have hlong : headerSize + snapshotBytes.length ≤ (header.encode ++ snapshotBytes ++ opsBytes).length := by
    rw [length_append]
    omega
  unfold readShardFileRaw
  rw [take_headerSize, ShardHeader.decode_encode hfits, ← append_assoc, if_neg (by omega)]
  simp only [bind, Except.bind, hsnapshot, hoffset, if_neg (Nat.not_lt.mpr hlong), if_pos hlong, pure, Except.pure]
  rw [take_left' hlen, drop_left' hlen, drop_left' header.length_encode]

/-! ## Files a crash can leave -/

variable (crc32 codec)

/-- The bytes of an op fit the length field of its entry. -/
def FitsEntry (op : Op) : Prop := (codec.encodeOp op).length < 2 ^ 32

instance : DecidablePred (FitsEntry codec) := fun _ => Nat.decLt _ _

/-- A valid snapshot, valid entries, and what a crash left behind. The header's count, written last, may be stale. -/
structure ShardImage where
  header : ShardHeader
  snapshotBytes : List UInt8
  snapshot : σ
  entries : List (List UInt8 × Op)
  tail : List UInt8
  fits : header.Fits
  snapshotLen_eq : header.snapshotLen = snapshotBytes.length
  offset_eq : header.opsSectionOffset = headerSize + snapshotBytes.length
  decodes : readSnapshot codec header snapshotBytes = .ok snapshot
  valid : ∀ e ∈ entries, e.1.length < 2 ^ 32 ∧ codec.decodeOp e.1 = .ok e.2

variable {crc32 codec}

namespace ShardImage

variable (crc32) in
/-- Everything behind the header. -/
def body (image : ShardImage codec) : List UInt8 :=
  image.snapshotBytes ++ (image.entries.flatMap (fun e => frame crc32 e.1) ++ image.tail)

variable (crc32) in
/-- The bytes of a file. -/
def bytes (image : ShardImage codec) : List UInt8 := image.header.encode ++ image.body crc32

def ops (image : ShardImage codec) : List Op := image.entries.map Prod.snd

/-- What the file stands for: its snapshot with some ops applied. -/
def replay (image : ShardImage codec) (ops : List Op) : σ := ops.foldl codec.apply image.snapshot

/-- The appended ops a reader can reach: none behind a damaged tail or from the first that does not fit on. -/
def reached (image : ShardImage codec) (appended : List Op) : List Op :=
  if image.tail = [] then appended.takeWhile (fun op => decide (FitsEntry codec op)) else []

variable (crc32) in
/-- The checksum detects every damaged entry: neither the tail, whatever was written behind it, nor an entry whose
length field was cut starts with an entry. -/
structure DamageDetected (image : ShardImage codec) (appended : List Op) : Prop where
  tail_none : image.tail ≠ [] → readFrame crc32 (fun payload => (codec.decodeOp payload).toOption)
    (image.tail ++ writeOpEntries crc32 codec appended) = none
  cut_none : ∀ op rest, (op :: rest) <:+ appended → ¬ FitsEntry codec op →
    readFrame crc32 (fun payload => (codec.decodeOp payload).toOption)
      (writeOpEntries crc32 codec (op :: rest)) = none

theorem damageDetected_of_fits {image : ShardImage codec} {appended : List Op}
    (hfit : ∀ op ∈ appended, FitsEntry codec op)
    (htail : image.tail ≠ [] → readFrame crc32 (fun payload => (codec.decodeOp payload).toOption)
      (image.tail ++ writeOpEntries crc32 codec appended) = none) : image.DamageDetected crc32 appended where
  tail_none := htail
  cut_none op _ hsuffix hcut := absurd (hfit op (hsuffix.subset mem_cons_self)) hcut

end ShardImage

theorem readOpEntries_writeOpEntries {ops : List Op} (hcut : ∀ op rest, (op :: rest) <:+ ops → ¬ FitsEntry codec op →
      readFrame crc32 (fun payload => (codec.decodeOp payload).toOption)
        (writeOpEntries crc32 codec (op :: rest)) = none) :
    readOpEntries crc32 codec (writeOpEntries crc32 codec ops) =
      ops.takeWhile (fun op => decide (FitsEntry codec op)) := by
  induction ops with
  | nil => rfl
  | cons op ops ih =>
    by_cases hfit : FitsEntry codec op
    · have hdecode : (codec.decodeOp (codec.encodeOp op)).toOption = some op := by
        rw [codec.decodeOp_encodeOp op hfit]
        rfl
      rw [takeWhile_cons_of_pos (by simpa using hfit), ← ih fun o rest hsuffix =>
        hcut o rest (hsuffix.trans (suffix_cons op ops))]
      exact readAll_of_some (readFrame_frame hfit hdecode _)
    · rw [takeWhile_cons_of_neg (by simpa using hfit)]
      exact readAll_of_none (hcut op ops suffix_rfl hfit)

namespace ShardImage

/-- **Reading after appending** applies the intact entries and the reached appended ops. -/
theorem readOpEntries_eq {image : ShardImage codec} {appended : List Op} (h : image.DamageDetected crc32 appended) :
    readOpEntries crc32 codec (image.entries.flatMap (fun e => frame crc32 e.1) ++ image.tail ++
      writeOpEntries crc32 codec appended) = image.ops ++ image.reached appended := by
  have hvalid : ∀ e ∈ image.entries, e.1.length < 2 ^ 32 ∧ (codec.decodeOp e.1).toOption = some e.2 := by
    intro e he
    obtain ⟨hlen, hdecode⟩ := image.valid e he
    exact ⟨hlen, by rw [hdecode]; rfl⟩
  unfold readOpEntries
  rw [append_assoc, readAll_append hvalid]
  refine congrArg (image.ops ++ ·) ?_
  unfold reached
  split
  · next hnil =>
    rw [hnil]
    exact readOpEntries_writeOpEntries h.cut_none
  · next htail => exact readAll_of_none (h.tail_none htail)

theorem readShard_eq (image : ShardImage codec) (additional : Nat) (newOps : List UInt8) :
    readShard crc32 codec (some ((image.header.addOps additional).encode ++ (image.body crc32 ++ newOps))) =
      .ok (some (if (image.header.opsCount + additional) % 2 ^ 32 > 0 then
        image.replay (readOpEntries crc32 codec (image.entries.flatMap (fun e => frame crc32 e.1) ++
          image.tail ++ newOps)) else image.snapshot)) := by
  have hraw := readShardFileRaw_eq (image.fits.addOps additional) image.snapshotLen_eq image.offset_eq
    (image.entries.flatMap (fun e => frame crc32 e.1) ++ image.tail ++ newOps)
  unfold readShard
  simp only [isValidShardFile_encode, Bool.not_true, Bool.false_eq_true, if_false]
  rw [body, append_assoc, hraw]
  have hdecode : readSnapshot codec (image.header.addOps additional) image.snapshotBytes =
      .ok image.snapshot := image.decodes
  show (readSnapshot codec (image.header.addOps additional) image.snapshotBytes >>= _) = _
  rw [hdecode]
  rfl

variable (crc32) in
/-- **The appended ops are read back exactly when** the file had no damaged tail, every op fits its entry and the
count did not wrap to zero; or the ops not reached would not have changed anything. -/
theorem read_appendAll_iff (image : ShardImage codec) (calls : List (List Op))
    (h : image.DamageDetected crc32 calls.flatten) :
    ∃ file, appendAll crc32 codec (some (image.bytes crc32)) calls = .ok file ∧
      (readShard crc32 codec file = .ok (some (image.replay (image.ops ++ calls.flatten))) ↔
        ((image.tail = [] ∧ (∀ op ∈ calls.flatten, FitsEntry codec op) ∧
            (image.header.opsCount + calls.flatten.length) % 2 ^ 32 ≠ 0) ∨
          image.replay (image.ops ++ calls.flatten) =
            if (image.header.opsCount + calls.flatten.length) % 2 ^ 32 = 0 then image.snapshot
            else image.replay (image.ops ++ image.reached calls.flatten))) := by
  refine ⟨_, appendAll_eq image.fits (image.body crc32) calls, ?_⟩
  rw [readShard_eq, readOpEntries_eq h, Except.ok.injEq, Option.some.injEq]
  by_cases hcount : (image.header.opsCount + calls.flatten.length) % 2 ^ 32 = 0
  · rw [if_neg (Nat.not_lt.mpr hcount.le), if_pos hcount]
    refine ⟨fun heq => .inr heq.symm, ?_⟩
    rintro (⟨-, -, hne⟩ | heq)
    · exact absurd hcount hne
    · exact heq.symm
  · rw [if_pos (Nat.pos_of_ne_zero hcount), if_neg hcount]
    refine ⟨fun heq => .inr heq.symm, ?_⟩
    rintro (⟨htail, hfit, -⟩ | heq)
    · have hall : image.reached calls.flatten = calls.flatten := by
        rw [reached, if_pos htail]
        exact takeWhile_eq_self_iff.mpr fun op hop => decide_eq_true (hfit op hop)
      rw [hall]
    · exact heq.symm

end ShardImage

end Files

/-! ## The alive shard -/

/-- Serialised roaring bitmaps, which a snapshot of the alive shard consists of. -/
abbrev RoaringDecoder := List UInt8 → Except IoError Bitmap

/-- `BitmapSnapshotCodec` with `BitmapOpCodec`. -/
def aliveCodec (deserialize : RoaringDecoder) : ShardCodec Bitmap BitmapOp where
  decode := deserialize
  empty := ∅
  encodeOp := encodeOp
  decodeOp := decodeOp
  apply := KeyedOp.applyTo
  decodeOp_encodeOp := decodeOp_encodeOp

/-- One bit of the CRC, with the reflected IEEE polynomial. -/
def crc32Step (crc : UInt32) : UInt32 := if crc &&& 1 = 1 then (0xEDB88320 : UInt32) ^^^ (crc >>> 1) else crc >>> 1

/-- One byte of the CRC. -/
def crc32Byte (crc : UInt32) (b : UInt8) : UInt32 := crc32Step^[8] (crc ^^^ b.toUInt32)

/-- `crc32_of`. -/
def crc32Of (data : List UInt8) : UInt32 := data.foldl crc32Byte 0xFFFFFFFF ^^^ 0xFFFFFFFF

/-- The check value of the CRC, for the text `123456789`. -/
example : crc32Of [0x31, 0x32, 0x33, 0x34, 0x35, 0x36, 0x37, 0x38, 0x39] = 0xCBF43926 := by
  decide +kernel

section

def noSnapshot : ShardCodec Bitmap BitmapOp := aliveCodec fun _ => .error ⟨.invalidData, "bitmap: not decoded"⟩

/-- The alive shard after one append of slot 1, with some bytes of a second append behind it. -/
def aliveImage (tail : List UInt8) : ShardImage noSnapshot where
  header := ⟨shardVersion, headerSize, 0, 1, 0⟩
  snapshotBytes := []
  snapshot := ∅
  entries := [(encodeOp (.batchSet () [1]), .batchSet () [1])]
  tail := tail
  fits := ⟨rfl, by decide, by decide, by decide, by decide⟩
  snapshotLen_eq := rfl
  offset_eq := rfl
  decodes := rfl
  valid := by
    rintro e he
    obtain rfl := mem_singleton.mp he
    exact ⟨by decide, rfl⟩

/-- What six bytes of the append of slot 2 leave. -/
def tornTail : List UInt8 := (writeOpEntry crc32Of noSnapshot (.batchSet () [2])).take 6

/-- **Ops behind a torn tail are lost.** A crash cut the append of slot 2, as the checksum detects; slot 3 is appended
with success and not read back. -/
theorem append_behind_torn_tail_lost : (aliveImage tornTail).DamageDetected crc32Of [.batchSet () [3]] ∧
    ∃ file, appendAll crc32Of noSnapshot (some ((aliveImage tornTail).bytes crc32Of))
        [[.batchSet () [3]]] = .ok file ∧ readShard crc32Of noSnapshot file = .ok (some {1}) ∧
      (aliveImage tornTail).replay ((aliveImage tornTail).ops ++ [.batchSet () [3]]) = {1, 3} := by
  refine ⟨ShardImage.damageDetected_of_fits (by decide) fun _ => by decide +kernel, _, rfl, ?_, ?_⟩
  · decide +kernel
  · decide +kernel

/-- Without a torn tail two more appends are read back in order. -/
theorem read_appendAll_two_calls : ∃ file, appendAll crc32Of noSnapshot (some ((aliveImage []).bytes crc32Of))
        [[.batchSet () [3]], [.batchClear () [1], .setBit () 4]] = .ok file ∧
      readShard crc32Of noSnapshot file = .ok (some {3, 4}) := by
  obtain ⟨file, happend, hread⟩ := ShardImage.read_appendAll_iff crc32Of (aliveImage [])
    [[.batchSet () [3]], [.batchClear () [1], .setBit () 4]]
    (ShardImage.damageDetected_of_fits (by decide) fun h => absurd rfl h)
  refine ⟨file, happend, ?_⟩
  rw [hread.mpr (.inl ⟨rfl, by decide, by decide⟩)]
  decide +kernel

end

end Bitdex
