import Bitdex.Store.Shard

/-!
# `Store.Rewrite` — snapshots, compaction and crashes

`write_snapshot`, `compact_shard` and the first append to a key write a shard file whole (`shard_store.rs`): the bytes
go to a file with the extension `new`, which is then renamed over the shard. At startup a sweep renames every `new`
file left if its header can be read and counts a snapshot; otherwise it deletes it. The header does not say whether
the bytes behind it are whole, nor whether the shard has been appended to since.

Readers see the last snapshot with all later ops (`Shard.read_eq_spec`), but for lengths past 32 bits and snapshots
without bytes. Calls on one key come one after the other.
-/

namespace Bitdex

open Frames ShardHeader List ShardImage

/-- A store that can be compacted also writes snapshots, which are read back if their bytes fit the length field. -/
structure SnapshotCodec (σ Op : Type) extends ShardCodec σ Op where
  encode : σ → List UInt8
  decode_encode : ∀ s, (encode s).length < 2 ^ 32 → decode (encode s) = .ok s

/-! ## Headers of whole files -/

/-- The header of a snapshot without ops; the length is cut to 32 bits. -/
def snapshotHeader (len : Nat) : ShardHeader := ⟨shardVersion, (headerSize + len) % 2 ^ 64, len % 2 ^ 32, 0, 0⟩

theorem fits_snapshotHeader (len : Nat) : (snapshotHeader len).Fits :=
  ⟨rfl, Nat.mod_lt _ (by decide), Nat.mod_lt _ (by decide), Nat.two_pow_pos 32, Nat.two_pow_pos 32⟩

/-- The header of ops without a snapshot. -/
def coldHeader (count : Nat) : ShardHeader := ⟨shardVersion, headerSize, 0, count % 2 ^ 32, 0⟩

theorem fits_coldHeader (count : Nat) : (coldHeader count).Fits :=
  ⟨rfl, by simp only [coldHeader, headerSize]; decide, Nat.two_pow_pos 32, Nat.mod_lt _ (by decide), Nat.two_pow_pos 32⟩

section Calls

variable {σ Op : Type} (crc32 : List UInt8 → UInt32) (codec : SnapshotCodec σ Op)

/-! ## Calls -/

/-- The file that `write_snapshot` leaves. -/
def writeSnapshot (snapshot : σ) : List UInt8 :=
  (snapshotHeader (codec.encode snapshot).length).encode ++ codec.encode snapshot

/-- `read_header_at`. -/
def readHeaderAt : Option (List UInt8) → Except IoError (Option ShardHeader)
  | none => .ok none
  | some data =>
    if data.length < headerSize then .error ⟨.unexpectedEof, "failed to fill whole buffer"⟩
    else (decode (data.take headerSize)).map some

/-- `ops_count`. -/
def opsCount (file : Option (List UInt8)) : Except IoError (Option Nat) := (readHeaderAt file).map (·.map (·.opsCount))

/-- `compact_shard`; a shard with a snapshot and no ops is left alone. -/
def compactShard (file : Option (List UInt8)) : Except IoError (Bool × Option (List UInt8)) := do
  let header ← readHeaderAt file
  if header.any fun h => decide (h.snapshotLen > 0) && decide (h.opsCount = 0) then return (false, file)
  else
    match ← readShard crc32 codec.toShardCodec file with
    | none => return (false, file)
    | some snapshot => return (true, some (writeSnapshot codec snapshot))

/-- `append_op` is an append of one op. -/
inductive ShardCall (σ Op : Type) where
  | append (ops : List Op)
  | writeSnapshot (snapshot : σ)
  | compact

/-- The file after a call. -/
def callShard (file : Option (List UInt8)) : ShardCall σ Op → Except IoError (Option (List UInt8))
  | .append ops => appendOps crc32 codec.toShardCodec file ops
  | .writeSnapshot snapshot => .ok (some (writeSnapshot codec snapshot))
  | .compact => (compactShard crc32 codec file).map Prod.snd

/-- What a reader should see after a call: the last written snapshot, or the empty one, with all later ops; `none`
while nothing was written. -/
def specCall (seen : Option σ) : ShardCall σ Op → Option σ
  | .append ops => if ops = [] then seen else some (ops.foldl codec.apply (seen.getD codec.empty))
  | .writeSnapshot snapshot => some snapshot
  | .compact => seen

/-- A shard file, and beside it what a reader should see. -/
structure Shard (σ : Type) where
  file : Option (List UInt8)
  seen : Option σ

/-- A call that returns `Ok`. -/
def Shard.next (s : Shard σ) (call : ShardCall σ Op) : Option (Shard σ) :=
  (callShard crc32 codec s.file call).toOption.map fun file => ⟨file, specCall codec s.seen call⟩

/-! ### The condition and the invariant -/

/-- The bytes of a snapshot fit the length field, and there are some unless the snapshot is empty. -/
def Storable (snapshot : σ) : Prop :=
  (codec.encode snapshot).length < 2 ^ 32 ∧ (codec.encode snapshot = [] → snapshot = codec.empty)

/-- The op count of a shard, zero if it has none. -/
def countOf (file : Option (List UInt8)) : Nat :=
  match opsCount file with
  | .ok (some n) => n
  | _ => 0

/-- The condition on a call. -/
def Shard.Meets (s : Shard σ) : ShardCall σ Op → Prop
  | .append ops => ops ≠ [] → (∀ op ∈ ops, FitsEntry codec.toShardCodec op) ∧
      (countOf s.file + ops.length) % 2 ^ 32 ≠ 0
  | .writeSnapshot snapshot => Storable codec snapshot
  | .compact => ∀ snapshot, s.seen = some snapshot → Storable codec snapshot

/-- The file is a whole image of what should be seen. -/
def Shard.Inv (s : Shard σ) : Prop :=
  match s.seen with
  | none => isValidShardFile s.file = false
  | some snapshot => ∃ image : ShardImage codec.toShardCodec, s.file = some (image.bytes crc32) ∧
      image.tail = [] ∧ image.replay image.ops = snapshot ∧ (image.header.opsCount = 0 → image.ops = [])

variable {crc32 codec}

/-! ## Images of whole files -/

namespace ShardImage

variable {image : ShardImage codec.toShardCodec}

/-- A file without a damaged tail reads as its snapshot with its ops. -/
theorem readShard_bytes (htail : image.tail = []) (hcount : image.header.opsCount = 0 → image.ops = []) :
    readShard crc32 codec.toShardCodec (some (image.bytes crc32)) = .ok (some (image.replay image.ops)) := by
  have hread : readShard crc32 codec.toShardCodec (some _) = _ := image.readShard_eq 0 []
  rw [image.fits.addOps_zero, append_nil, Nat.add_zero, Nat.mod_eq_of_lt image.fits.opsCount_lt] at hread
  have hwhole : image.DamageDetected crc32 [] :=
    damageDetected_of_fits (fun _ hop => absurd hop not_mem_nil) fun hne => absurd htail hne
  have hreached : image.reached [] = [] := by
    rw [reached]
    split <;> rfl
  have hops : readOpEntries crc32 codec.toShardCodec (image.entries.flatMap (fun e => frame crc32 e.1) ++
      image.tail ++ []) = image.ops := by
    have hall := readOpEntries_eq hwhole
    rwa [hreached, append_nil] at hall
  rw [bytes, hread, hops]
  by_cases hzero : image.header.opsCount = 0
  · rw [if_neg (by omega), hcount hzero]
    rfl
  · rw [if_pos (Nat.pos_of_ne_zero hzero)]

theorem readHeaderAt_bytes : readHeaderAt (some (image.bytes crc32)) = .ok (some image.header) := by
  have hlong : ¬ (image.bytes crc32).length < headerSize := by
    rw [bytes, length_append, length_encode]
    omega
  rw [readHeaderAt, if_neg hlong, bytes, take_headerSize, decode_encode image.fits]
  rfl

theorem countOf_bytes : countOf (some (image.bytes crc32)) = image.header.opsCount := by
  rw [countOf, opsCount, readHeaderAt_bytes]
  rfl

/-- The offset of the ops does not overflow. -/
theorem opsSectionOffset_snapshotHeader {len : Nat} (h : len < 2 ^ 32) :
    (snapshotHeader len).opsSectionOffset = headerSize + len := by
  have hlt : headerSize + len < 2 ^ 64 := by
    simp only [headerSize]
    omega
  exact Nat.mod_eq_of_lt hlt

/-- A snapshot that can be stored is read back, also if its encoding is empty. -/
theorem readSnapshot_encode {snapshot : σ} (h : Storable codec snapshot) :
    readSnapshot codec.toShardCodec (snapshotHeader (codec.encode snapshot).length) (codec.encode snapshot) =
      .ok snapshot := by
  rw [readSnapshot, snapshotHeader]
  simp only [Nat.mod_eq_of_lt h.1]
  split
  · exact codec.decode_encode snapshot h.1
  · rename_i hzero
    rw [h.2 (length_eq_zero_iff.mp (Nat.le_zero.mp (Nat.le_of_not_lt hzero)))]

/-- A snapshot without ops. -/
def ofSnapshot (snapshot : σ) (h : Storable codec snapshot) : ShardImage codec.toShardCodec where
  header := snapshotHeader (codec.encode snapshot).length
  snapshotBytes := codec.encode snapshot
  snapshot := snapshot
  entries := []
  tail := []
  fits := fits_snapshotHeader _
  snapshotLen_eq := Nat.mod_eq_of_lt h.1
  offset_eq := opsSectionOffset_snapshotHeader h.1
  decodes := readSnapshot_encode h
  valid := fun _ he => absurd he not_mem_nil

theorem bytes_ofSnapshot (snapshot : σ) (h : Storable codec snapshot) :
    (ofSnapshot snapshot h).bytes crc32 = writeSnapshot codec snapshot := by
  simp [bytes, body, ofSnapshot, writeSnapshot]

def entriesOf (codec : SnapshotCodec σ Op) (ops : List Op) : List (List UInt8 × Op) :=
  ops.map fun op => (codec.encodeOp op, op)

theorem valid_entriesOf {ops : List Op} (h : ∀ op ∈ ops, FitsEntry codec.toShardCodec op) :
    ∀ e ∈ entriesOf codec ops, e.1.length < 2 ^ 32 ∧ codec.decodeOp e.1 = .ok e.2 := by
  intro e he
  obtain ⟨op, hop, rfl⟩ := mem_map.mp he
  exact ⟨h op hop, codec.decodeOp_encodeOp op (h op hop)⟩

theorem flatMap_entriesOf (ops : List Op) :
    (entriesOf codec ops).flatMap (fun e => frame crc32 e.1) = writeOpEntries crc32 codec.toShardCodec ops := by
  rw [entriesOf, flatMap_map]
  rfl

theorem map_snd_entriesOf (ops : List Op) : (entriesOf codec ops).map Prod.snd = ops := by
  rw [entriesOf, map_map]
  exact map_id ops

/-- The image with more ops behind it. -/
def addOps (image : ShardImage codec.toShardCodec) (ops : List Op)
    (h : ∀ op ∈ ops, FitsEntry codec.toShardCodec op) : ShardImage codec.toShardCodec where
  header := image.header.addOps ops.length
  snapshotBytes := image.snapshotBytes
  snapshot := image.snapshot
  entries := image.entries ++ entriesOf codec ops
  tail := []
  fits := image.fits.addOps ops.length
  snapshotLen_eq := image.snapshotLen_eq
  offset_eq := image.offset_eq
  decodes := image.decodes
  valid := fun e he => (mem_append.mp he).elim (image.valid e) (valid_entriesOf h e)

theorem bytes_addOps {ops : List Op} {h : ∀ op ∈ ops, FitsEntry codec.toShardCodec op}
    (htail : image.tail = []) : (image.addOps ops h).bytes crc32 = (image.header.addOps ops.length).encode ++
        (image.body crc32 ++ writeOpEntries crc32 codec.toShardCodec ops) := by
  rw [bytes, body, body, htail, addOps, flatMap_append, flatMap_entriesOf]
  simp [append_nil, append_assoc]

theorem ops_addOps {ops : List Op} {h : ∀ op ∈ ops, FitsEntry codec.toShardCodec op} :
    (image.addOps ops h).ops = image.ops ++ ops := by
  show (image.entries ++ entriesOf codec ops).map Prod.snd = _
  rw [map_append, map_snd_entriesOf]
  rfl

/-- Ops on the empty snapshot, as the first append writes them. -/
def ofOps (ops : List Op) (h : ∀ op ∈ ops, FitsEntry codec.toShardCodec op) :
    ShardImage codec.toShardCodec where
  header := coldHeader ops.length
  snapshotBytes := []
  snapshot := codec.empty
  entries := entriesOf codec ops
  tail := []
  fits := fits_coldHeader _
  snapshotLen_eq := rfl
  offset_eq := rfl
  decodes := rfl
  valid := valid_entriesOf h

end ShardImage

/-! ## Sequences of calls -/

namespace Shard

variable {s s' : Shard σ} {file file' : Option (List UInt8)} {seen : Option σ} {ops : List Op}

theorem Inv.read (h : s.Inv crc32 codec) : readShard crc32 codec.toShardCodec s.file = .ok s.seen := by
  obtain ⟨file, seen⟩ := s
  cases seen with
  | none =>
    have hinvalid : isValidShardFile file = false := h
    cases file with
    | none => rfl
    | some data => simp [readShard, hinvalid]
  | some snapshot =>
    obtain ⟨image, rfl, htail, hreplay, hcount⟩ := h
    rw [readShard_bytes htail hcount, hreplay]

theorem inv_writeSnapshot {snapshot : σ} (h : Storable codec snapshot) :
    Inv crc32 codec ⟨some (writeSnapshot codec snapshot), some snapshot⟩ :=
  ⟨.ofSnapshot snapshot h, by rw [bytes_ofSnapshot], rfl, rfl, fun _ => rfl⟩

/-- The first append writes the file. -/
theorem inv_append_new (hinvalid : isValidShardFile file = false) (hnil : ops ≠ [])
    (hmeets : Meets codec ⟨file, none⟩ (.append ops))
    (hfile : appendOps crc32 codec.toShardCodec file ops = .ok file') :
    Inv crc32 codec ⟨file', some (ops.foldl codec.apply codec.empty)⟩ := by
  obtain ⟨hfits, hcount⟩ := hmeets hnil
  have hzero : countOf file = 0 := by
    cases file with
    | none => rfl
    | some data =>
      have hshort : data.length < headerSize := by simpa [isValidShardFile] using hinvalid
      simp [countOf, opsCount, readHeaderAt, hshort, Except.map]
  simp only [hzero, Nat.zero_add] at hcount
  simp only [appendOps, if_neg hnil, hinvalid, Bool.false_eq_true, if_false] at hfile
  cases hfile
  refine ⟨.ofOps ops hfits, ?_, rfl, ?_, fun h0 => absurd h0 hcount⟩
  · show _ = some (encode _ ++ ([] ++ ((entriesOf codec ops).flatMap _ ++ [])))
    rw [flatMap_entriesOf, append_nil]
    rfl
  · show ((entriesOf codec ops).map Prod.snd).foldl codec.apply codec.empty = _
    rw [map_snd_entriesOf]

/-- Later ones write behind it. -/
theorem inv_append_image {image : ShardImage codec.toShardCodec} (htail : image.tail = []) (hnil : ops ≠ [])
    (hmeets : Meets codec ⟨some (image.bytes crc32), seen⟩ (.append ops)) :
    ∃ file, appendOps crc32 codec.toShardCodec (some (image.bytes crc32)) ops = .ok file ∧
      Inv crc32 codec ⟨file, some (ops.foldl codec.apply (image.replay image.ops))⟩ := by
  obtain ⟨hfits, hcount⟩ := hmeets hnil
  simp only [countOf_bytes] at hcount
  refine ⟨_, appendOps_eq image.fits _ _, image.addOps ops hfits, ?_, rfl, ?_, fun h0 => absurd h0 hcount⟩
  · rw [bytes_addOps htail]
  · rw [ops_addOps]
    show (image.ops ++ ops).foldl codec.apply image.snapshot = _
    rw [foldl_append]
    rfl

theorem inv_append (h : Inv crc32 codec ⟨file, seen⟩) (hmeets : Meets codec ⟨file, seen⟩ (.append ops))
    (hfile : appendOps crc32 codec.toShardCodec file ops = .ok file') :
    Inv crc32 codec ⟨file', specCall codec seen (.append ops)⟩ := by
  rw [specCall]
  by_cases hnil : ops = []
  · rw [appendOps, if_pos hnil] at hfile
    cases hfile
    rw [if_pos hnil]
    exact h
  · rw [if_neg hnil]
    cases seen with
    | none => exact inv_append_new h hnil hmeets hfile
    | some snapshot =>
      obtain ⟨image, rfl, htail, rfl, -⟩ := h
      obtain ⟨file, happend, hinv⟩ := inv_append_image htail hnil hmeets
      rw [happend] at hfile
      cases hfile
      exact hinv

/-- **Compaction is invisible.** -/
theorem inv_compact (h : Inv crc32 codec ⟨file, seen⟩)
    (hmeets : ∀ snapshot, seen = some snapshot → Storable codec snapshot)
    (hfile : (compactShard crc32 codec file).map Prod.snd = .ok file') : Inv crc32 codec ⟨file', seen⟩ := by
  have hread : readShard crc32 codec.toShardCodec file = .ok seen := h.read
  rw [compactShard] at hfile
  cases hheader : readHeaderAt file with
  | error e =>
    rw [hheader] at hfile
    cases hfile
  | ok header =>
    simp only [hheader, hread, bind, Except.bind] at hfile
    split at hfile
    · cases hfile
      exact h
    · cases seen with
      | none =>
        cases hfile
        exact h
      | some snapshot =>
        cases hfile
        exact inv_writeSnapshot (hmeets snapshot rfl)

theorem next_eq_some {call : ShardCall σ Op} (h : s.next crc32 codec call = some s') :
    callShard crc32 codec s.file call = .ok s'.file ∧ s'.seen = specCall codec s.seen call := by
  obtain ⟨file', hfile, rfl⟩ := Option.map_eq_some_iff.mp h
  cases hcall : callShard crc32 codec s.file call with
  | error e =>
    rw [hcall] at hfile
    cases hfile
  | ok file =>
    rw [hcall] at hfile
    cases hfile
    exact ⟨rfl, rfl⟩

theorem Inv.step (h : s.Inv crc32 codec) {call : ShardCall σ Op} (hmeets : s.Meets codec call)
    (hs : s.next crc32 codec call = some s') : s'.Inv crc32 codec := by
  obtain ⟨file', seen'⟩ := s'
  obtain ⟨hfile, rfl⟩ := next_eq_some hs
  cases call with
  | append ops => exact inv_append h hmeets hfile
  | writeSnapshot snapshot =>
    cases hfile
    exact inv_writeSnapshot hmeets
  | compact => exact inv_compact h hmeets hfile

/-- **Readers see the last snapshot with the later ops**, whenever the shard is compacted. -/
theorem read_eq_spec {file₀ : Option (List UInt8)} (h₀ : isValidShardFile file₀ = false) {calls : List (ShardCall σ Op)}
    (h : Reaches (fun s call s' => next crc32 codec s call = some s') (Meets codec) ⟨file₀, none⟩ calls s) :
    readShard crc32 codec.toShardCodec s.file = .ok (calls.foldl (specCall codec) none) := by
  have hinv : s.Inv crc32 codec ∧ s.seen = calls.foldl (specCall codec) none := by
    refine h.invariant (fun calls s => s.Inv crc32 codec ∧ s.seen = calls.foldl (specCall codec) none)
      ⟨h₀, rfl⟩ fun calls s call s' ih hmeets hs => ⟨ih.1.step hmeets hs, ?_⟩
    rw [foldl_concat, ← ih.2]
    exact (next_eq_some hs).2
  rw [hinv.1.read, hinv.2]

end Shard

/-! ## Crashes -/

variable (crc32 codec)

/-- A shard file and the file that a rewrite of it goes to first. -/
structure ShardDir where
  shard : Option (List UInt8)
  new : Option (List UInt8)

/-- `new_file_is_promotable`: a whole header that counts a snapshot. -/
def newFileIsPromotable (data : List UInt8) : Bool :=
  match decode (data.take headerSize) with
  | .ok h => decide (h.snapshotLen > 0)
  | .error _ => false

/-- `sweep_dir` at startup; the shards all have the extension that a promoted file gets. -/
def ShardDir.sweep (dir : ShardDir) : ShardDir :=
  match dir.new with
  | none => dir
  | some data => if newFileIsPromotable data then ⟨some data, none⟩ else ⟨dir.shard, none⟩

/-- What is written whole: a snapshot, or the first ops of a shard. -/
inductive Rewrite (σ Op : Type) where
  | snapshot (snapshot : σ)
  | coldCreate (ops : List Op)

/-- The bytes a rewrite puts down. -/
def Rewrite.content : Rewrite σ Op → List UInt8
  | .snapshot s => writeSnapshot codec s
  | .coldCreate ops => (coldHeader ops.length).encode ++ writeOpEntries crc32 codec.toShardCodec ops

/-- Where `write_shard_file_atomic` ends: before it opens the new file, after some bytes of it (all of them if the
rename failed), or after the rename. -/
inductive WritePoint where
  | opening
  | writing (n : Nat)
  | renamed

/-- What a write leaves, where it ends. -/
def writeShardFileAtomic (old : Option (List UInt8)) (content : List UInt8) : WritePoint → ShardDir
  | .opening => ⟨old, none⟩
  | .writing n => ⟨old, some (content.take n)⟩
  | .renamed => ⟨some content, none⟩

/-- An append; where there is no shard it is a rewrite, which uses up the new file. -/
def ShardDir.append (dir : ShardDir) (ops : List Op) : Except IoError ShardDir :=
  (appendOps crc32 codec.toShardCodec dir.shard ops).map fun shard =>
    ⟨shard, if ops = [] ∨ isValidShardFile dir.shard = true then dir.new else none⟩

/-- After the sweep the shard reads as it did, with every op since; or as the new content, if there was none. -/
def ShardDir.Recovers (dir : ShardDir) (content : List UInt8) (appended : List Op) : Prop :=
  readShard crc32 codec.toShardCodec dir.sweep.shard = readShard crc32 codec.toShardCodec dir.shard ∨
    appended = [] ∧ readShard crc32 codec.toShardCodec dir.sweep.shard =
      readShard crc32 codec.toShardCodec (some content)

/-- How a file reads that ends within its snapshot. -/
def cutError : IoError := ⟨.unexpectedEof, "shard file truncated in snapshot section"⟩

variable {crc32 codec}

/-! ### Parts of a file -/

theorem newFileIsPromotable_take {header : ShardHeader} (hfits : header.Fits) (body : List UInt8) (n : Nat) :
    newFileIsPromotable ((header.encode ++ body).take n) = decide (headerSize ≤ n ∧ 0 < header.snapshotLen) := by
  rw [newFileIsPromotable, take_take]
  by_cases hn : headerSize ≤ n
  · rw [Nat.min_eq_left hn, take_headerSize, decode_encode hfits]
    simp [hn]
  · have hmin : min headerSize n = n := Nat.min_eq_right (Nat.le_of_not_le hn)
    have hshort : ((header.encode ++ body).take n).length < headerSize := by
      rw [length_take]
      omega
    rw [hmin, decode, if_pos hshort]
    simp [hn]

/-- A file whose header says that there are no ops. -/
theorem readShard_no_ops {header : ShardHeader} (hfits : header.Fits) (hcount : header.opsCount = 0)
    (body : List UInt8) :
    readShard crc32 codec.toShardCodec (some (header.encode ++ body)) =
      if body.length < header.snapshotLen then .error cutError
      else (readSnapshot codec.toShardCodec header (body.take header.snapshotLen)).map some := by
  have hlength : (header.encode ++ body).length = headerSize + body.length := by
    rw [length_append, length_encode]
  have hheader : ¬ (header.encode ++ body).length < headerSize := by omega
  have hsnapshot : drop headerSize (take (headerSize + header.snapshotLen)
      (header.encode ++ body)) = body.take header.snapshotLen := by
    rw [drop_take, drop_left' header.length_encode, Nat.add_sub_cancel_left]
  rw [readShard]
  simp only [isValidShardFile_encode, Bool.not_true, Bool.false_eq_true, if_false]
  rw [readShardFileRaw, if_neg hheader, take_headerSize, decode_encode hfits]
  simp only [bind, Except.bind, hsnapshot, hlength]
  by_cases hcut : body.length < header.snapshotLen
  · rw [if_pos (by omega), if_pos hcut]
    rfl
  · rw [if_neg (by omega), if_neg hcut]
    simp only [pure, Except.pure, hcount, Nat.lt_irrefl, gt_iff_lt, if_false]
    cases readSnapshot codec.toShardCodec header (body.take header.snapshotLen) <;> rfl

/-- A part of a snapshot file reads as the whole if it has the bytes that the header counts. -/
theorem readShard_take_snapshot (snapshot : σ) {n : Nat} (hn : headerSize ≤ n) :
    readShard crc32 codec.toShardCodec (some ((writeSnapshot codec snapshot).take n)) =
      if headerSize + (codec.encode snapshot).length % 2 ^ 32 ≤ n then
        readShard crc32 codec.toShardCodec (some (writeSnapshot codec snapshot))
      else .error cutError := by
  have hfits := fits_snapshotHeader (codec.encode snapshot).length
  have htake : (writeSnapshot codec snapshot).take n = (snapshotHeader (codec.encode snapshot).length).encode ++
        (codec.encode snapshot).take (n - headerSize) := by
    rw [writeSnapshot, take_append, take_of_length_le (by rw [length_encode]; exact hn), length_encode]
  have hlen : (snapshotHeader (codec.encode snapshot).length).snapshotLen =
      (codec.encode snapshot).length % 2 ^ 32 := rfl
  rw [htake, readShard_no_ops hfits rfl, writeSnapshot, readShard_no_ops hfits rfl, length_take, take_take]
  by_cases hwhole : headerSize + (codec.encode snapshot).length % 2 ^ 32 ≤ n
  · rw [if_pos hwhole, if_neg (by omega), if_neg (by omega), Nat.min_eq_left (by omega)]
  · rw [if_neg hwhole, if_pos (by omega)]

theorem isValidShardFile_appendOps {file file' : Option (List UInt8)} {ops : List Op} (hne : ops ≠ [])
    (h : appendOps crc32 codec.toShardCodec file ops = .ok file') : isValidShardFile file' = true := by
  rw [appendOps, if_neg hne] at h
  by_cases hvalid : isValidShardFile file = true
  · simp only [hvalid, if_true, appendOpsToShard] at h
    cases hdecode : decode ((file.getD []).take headerSize) with
    | error e =>
      rw [hdecode] at h
      cases h
    | ok header =>
      rw [hdecode] at h
      cases h
      obtain ⟨data, rfl, hlong⟩ : ∃ data, file = some data ∧ headerSize ≤ data.length := by
        cases file with
        | none => cases hvalid
        | some data => exact ⟨data, rfl, of_decide_eq_true hvalid⟩
      refine decide_eq_true ?_
      simp only [headerSize, headerOpsCountOffset, Option.getD_some, length_append, length_take,
        length_drop, length_leBytes] at hlong ⊢
      omega
  · simp only [hvalid, Bool.false_eq_true, if_false] at h
    cases h
    exact isValidShardFile_encode _ _

/-! ### The sweep -/

namespace ShardDir

variable {dir dir' : ShardDir}

/-- The new file outlives appends to a shard. -/
theorem new_append {calls : List (List Op)} (h : calls.foldlM (append crc32 codec) dir = .ok dir') :
    dir'.new = if calls.flatten = [] ∨ isValidShardFile dir.shard = true then dir.new else none := by
  induction calls generalizing dir with
  | nil =>
    cases h
    rfl
  | cons ops calls ih =>
    rw [foldlM_cons] at h
    cases hfile : appendOps crc32 codec.toShardCodec dir.shard ops with
    | error e =>
      rw [append, hfile] at h
      cases h
    | ok shard =>
      rw [append, hfile] at h
      rw [ih h]
      by_cases hnil : ops = []
      · subst hnil
        cases hfile
        simp
      · have hvalid := isValidShardFile_appendOps hnil hfile
        simp [hnil, hvalid]

theorem shard_sweep_of_none (h : dir.new = none) : dir.sweep.shard = dir.shard := by
  rw [sweep, h]

theorem shard_sweep_of_some {data : List UInt8} (h : dir.new = some data) :
    dir.sweep.shard = if newFileIsPromotable data then some data else dir.shard := by
  rw [sweep, h]
  simp only
  split <;> rfl

/-- The leftover of a write is not promoted; or is promoted whole, and nothing was appended since; or what it replaces
reads the same. -/
def SweepMeets (crc32 : List UInt8 → UInt32) (codec : SnapshotCodec σ Op) (old : Option (List UInt8))
    (dir : ShardDir) (appended : List Op) : Rewrite σ Op → WritePoint → Prop
  | .snapshot s, .writing n =>
    headerSize ≤ n → 0 < (codec.encode s).length % 2 ^ 32 →
      (appended = [] ∨ isValidShardFile old = true) →
        if headerSize + (codec.encode s).length % 2 ^ 32 ≤ n then
          appended = [] ∨ readShard crc32 codec.toShardCodec dir.shard =
            readShard crc32 codec.toShardCodec (some (writeSnapshot codec s))
        else
          readShard crc32 codec.toShardCodec dir.shard = .error cutError ∨
            appended = [] ∧
              readShard crc32 codec.toShardCodec (some (writeSnapshot codec s)) = .error cutError
  | _, _ => True

/-- The leftover of a snapshot, with the shard it was to replace. -/
theorem recovers_snapshot_iff {s : σ} {n : Nat} {appended : List Op} (hhead : headerSize ≤ n)
    (hswept : dir.sweep.shard = some ((writeSnapshot codec s).take n)) :
    dir.Recovers crc32 codec (writeSnapshot codec s) appended ↔
      if headerSize + (codec.encode s).length % 2 ^ 32 ≤ n then
        appended = [] ∨ readShard crc32 codec.toShardCodec dir.shard =
          readShard crc32 codec.toShardCodec (some (writeSnapshot codec s))
      else
        readShard crc32 codec.toShardCodec dir.shard = .error cutError ∨ appended = [] ∧
            readShard crc32 codec.toShardCodec (some (writeSnapshot codec s)) = .error cutError := by
  rw [Recovers, hswept, readShard_take_snapshot s hhead]
  split
  · constructor
    · rintro (heq | ⟨hnil, -⟩)
      · exact .inr heq.symm
      · exact .inl hnil
    · rintro (hnil | heq)
      · exact .inr ⟨hnil, rfl⟩
      · exact .inl heq.symm
  · rw [eq_comm, @eq_comm _ (Except.error cutError)]

/-- **A rewrite is atomic under crashes exactly when** its leftover is not promoted, or is promoted whole with nothing
appended since, or makes no difference. -/
theorem recovers_iff (old : Option (List UInt8)) (w : Rewrite σ Op) (point : WritePoint) (calls : List (List Op))
    (h : calls.foldlM (append crc32 codec) (writeShardFileAtomic old (w.content crc32 codec) point) = .ok dir) :
    dir.Recovers crc32 codec (w.content crc32 codec) calls.flatten ↔
      SweepMeets crc32 codec old dir calls.flatten w point := by
  have hnew := new_append h
  have hkept : dir.sweep.shard = dir.shard →
      dir.Recovers crc32 codec (w.content crc32 codec) calls.flatten := fun heq => .inl (by rw [heq])
  cases point with
  | opening | renamed =>
    have hnone : dir.new = none := by
      rw [hnew]
      exact ite_self none
    cases w <;> exact iff_of_true (hkept (shard_sweep_of_none hnone)) trivial
  | writing n =>
    have hnew : dir.new = if calls.flatten = [] ∨ isValidShardFile old = true then
      some ((w.content crc32 codec).take n) else none := hnew
    cases w with
    | coldCreate ops =>
      -- a file without a snapshot is never promoted
      refine iff_of_true (hkept ?_) trivial
      split at hnew
      · rw [shard_sweep_of_some hnew]
        have hnot : newFileIsPromotable
            ((Rewrite.content crc32 codec (.coldCreate ops)).take n) = false := by
          rw [Rewrite.content, newFileIsPromotable_take (fits_coldHeader _)]
          exact decide_eq_false fun h => Nat.lt_irrefl 0 h.2
        rw [hnot]
        rfl
      · exact shard_sweep_of_none hnew
    | snapshot s =>
      have hpromotes : newFileIsPromotable ((Rewrite.content crc32 codec (.snapshot s)).take n) =
          decide (headerSize ≤ n ∧ 0 < (codec.encode s).length % 2 ^ 32) :=
        newFileIsPromotable_take (fits_snapshotHeader _) _ _
      rw [SweepMeets]
      by_cases hleft : calls.flatten = [] ∨ isValidShardFile old = true
      · rw [if_pos hleft] at hnew
        have hswept := shard_sweep_of_some hnew
        rw [hpromotes] at hswept
        by_cases hhead : headerSize ≤ n ∧ 0 < (codec.encode s).length % 2 ^ 32
        · rw [decide_eq_true hhead] at hswept
          simp only [hhead.1, hhead.2, hleft, forall_const]
          exact recovers_snapshot_iff hhead.1 hswept
        · rw [decide_eq_false hhead] at hswept
          exact iff_of_true (hkept hswept) fun h₁ h₂ => absurd ⟨h₁, h₂⟩ hhead
      · rw [if_neg hleft] at hnew
        exact iff_of_true (hkept (shard_sweep_of_none hnew)) fun _ _ h => absurd h hleft

end ShardDir

end Calls

/-! ## Two small stores -/

section Samples

/-- A text; an op adds a byte to it. -/
def textCodec : SnapshotCodec (List UInt8) UInt8 where
  decode bytes := .ok bytes
  empty := []
  encodeOp b := [b]
  decodeOp bytes := if h : bytes.length = 1 then .ok bytes[0] else .error ⟨.invalidData, "not one byte"⟩
  apply text b := text ++ [b]
  decodeOp_encodeOp _ _ := rfl
  encode text := text
  decode_encode _ _ := rfl

/-- A flag whose set state takes no bytes. -/
def flagCodec : SnapshotCodec Bool Unit where
  decode bytes := .ok bytes.isEmpty
  empty := false
  encodeOp _ := []
  decodeOp _ := .ok ()
  apply flag _ := !flag
  decodeOp_encodeOp _ _ := rfl
  encode flag := if flag then [] else [0]
  decode_encode flag _ := by cases flag <;> rfl

namespace Shard

/-- A written snapshot without bytes is read as the empty one. -/
theorem empty_section_forgets :
    ∃ s, Reaches (fun s call s' => next crc32Of flagCodec s call = some s') (fun _ _ => True) ⟨none, none⟩
        [.writeSnapshot true] s ∧ readShard crc32Of flagCodec.toShardCodec s.file = .ok (some false) ∧
      [ShardCall.writeSnapshot true].foldl (specCall flagCodec) none = some true := by
  refine ⟨_, Reaches.start.next trivial rfl, ?_, rfl⟩
  decide +kernel

def firstText : List (ShardCall (List UInt8) UInt8) := [.append [1, 2]]

def compactedText : List (ShardCall (List UInt8) UInt8) := firstText ++ [.compact]

def secondText : List (ShardCall (List UInt8) UInt8) := compactedText ++ [.append [3]]

def textRun : List (ShardCall (List UInt8) UInt8) := secondText ++ [.compact]

instance decidableStorable {σ Op : Type} [DecidableEq σ] (codec : SnapshotCodec σ Op) (snapshot : σ) :
    Decidable (Storable codec snapshot) :=
  inferInstanceAs (Decidable (_ ∧ _))

instance decidableMeets {σ Op : Type} [DecidableEq σ] (codec : SnapshotCodec σ Op) (s : Shard σ)
    (call : ShardCall σ Op) : Decidable (s.Meets codec call) := by
  unfold Meets
  split <;> infer_instance

/-- Two appends with a compaction after each. -/
theorem read_textRun :
    ∃ s, Reaches (fun s call s' => next crc32Of textCodec s call = some s') (Meets textCodec) ⟨none, none⟩
        textRun s ∧ countOf s.file = 0 ∧ readShard crc32Of textCodec.toShardCodec s.file = .ok (some [1, 2, 3]) := by
  have hrun : Computed (next crc32Of textCodec) (Meets textCodec) ⟨none, none⟩ textRun := .of_along (by decide +kernel)
  obtain ⟨s, hs, hcount⟩ : ∃ s, _ ∧ countOf s.file = 0 := hrun.exists_end (by decide +kernel)
  exact ⟨s, hs, hcount, read_eq_spec rfl hs⟩

end Shard

namespace ShardDir

def oldText : Option (List UInt8) := some (writeSnapshot textCodec [1, 2])

/-- The text `3 4` is to take the place of `1 2`. -/
def newText : Rewrite (List UInt8) UInt8 := .snapshot [3, 4]

/-- After a crash behind the first byte of the new snapshot the cut file replaces the old one. After a rename that
fails, the byte appended next is lost at the next start. -/
theorem sweep_promotes_cut_and_stale : readShard crc32Of textCodec.toShardCodec
      (writeShardFileAtomic oldText (newText.content crc32Of textCodec) (.writing 29)).sweep.shard = .error cutError ∧
    ∃ dir, [[5]].foldlM (append crc32Of textCodec)
        (writeShardFileAtomic oldText (newText.content crc32Of textCodec) (.writing 30)) = .ok dir ∧
      readShard crc32Of textCodec.toShardCodec dir.shard = .ok (some [1, 2, 5]) ∧
      readShard crc32Of textCodec.toShardCodec dir.sweep.shard = .ok (some [3, 4]) := by
  exact ⟨by decide +kernel, _, rfl, by decide +kernel, by decide +kernel⟩

/-- After ten bytes there is no whole header, and the leftover is deleted. -/
theorem recovers_iff_cut_header : ∃ dir, [[5]].foldlM (append crc32Of textCodec)
        (writeShardFileAtomic oldText (newText.content crc32Of textCodec) (.writing 10)) = .ok dir ∧
      dir.Recovers crc32Of textCodec (newText.content crc32Of textCodec) [5] ∧
      readShard crc32Of textCodec.toShardCodec dir.sweep.shard = .ok (some [1, 2, 5]) := by
  have hcall : [[5]].foldlM (append crc32Of textCodec)
      (writeShardFileAtomic oldText (newText.content crc32Of textCodec) (.writing 10)) = .ok _ := rfl
  refine ⟨_, hcall, (recovers_iff oldText newText (.writing 10) [[5]] hcall).mpr ?_, by decide +kernel⟩
  intro hheader
  exact absurd hheader (by decide)

end ShardDir

end Samples

end Bitdex
