import Bitdex.Library.Frames
import Bitdex.Library.Postings
import Bitdex.Index

/-!
# `Store.Ops` — the ops of a shard log and their bytes

Every shard file ends in a log of ops on the bitmaps of its snapshot (`shard_store_bitmap.rs`). The three stores use
one shape of op: set or clear a bit, or a batch of bits, of the bitmap under a key. The alive store has no key, a
filter bucket is keyed by value, a sort shard by bit position. A slice out of range panics in the source before its
error is built; here it gives the error that the source names for it.
-/

open Frames

namespace Bitdex

open List UInt32

/-- The kinds of `io::Error` the store builds itself. -/
inductive IoErrorKind where
  | unexpectedEof
  | invalidData
deriving DecidableEq, Repr

/-- An `io::Error`. -/
structure IoError where
  kind : IoErrorKind
  text : String
deriving DecidableEq, Repr

/-- A change to the bitmap under a key. -/
inductive KeyedOp (κ : Type) where
  | setBit (key : κ) (bit : UInt32)
  | clearBit (key : κ) (bit : UInt32)
  | batchSet (key : κ) (bits : List UInt32)
  | batchClear (key : κ) (bits : List UInt32)
deriving DecidableEq

/-- Ops of the alive store. -/
abbrev BitmapOp := KeyedOp Unit

/-- Keyed by the value within the bucket. -/
abbrev FilterOp := KeyedOp UInt64

/-- Keyed by the bit position. -/
abbrev SortLayerOp := KeyedOp UInt8

namespace KeyedOp

variable {κ : Type}

/-- The bitmap an op writes. -/
def key : KeyedOp κ → κ
  | setBit key _ => key
  | clearBit key _ => key
  | batchSet key _ => key
  | batchClear key _ => key

/-- The bits an op writes. -/
def bits : KeyedOp κ → List UInt32
  | setBit _ bit => [bit]
  | clearBit _ bit => [bit]
  | batchSet _ bits => bits
  | batchClear _ bits => bits

/-- Whether the op sets its bits or clears them. -/
def isSet : KeyedOp κ → Bool
  | setBit _ _ => true
  | clearBit _ _ => false
  | batchSet _ _ => true
  | batchClear _ _ => false

def u32Bytes (n : UInt32) : List UInt8 := leBytes 4 n.toNat

/-- A count and the bits. -/
def batchBytes (bits : List UInt32) : List UInt8 := leBytes 4 bits.length ++ bits.flatMap u32Bytes

/-- A tag, the key, then the bit or the batch; the tags of a store follow its base. -/
def encodeOp (base : UInt8) (keyBytes : κ → List UInt8) : KeyedOp κ → List UInt8
  | setBit key bit => (base + 1) :: (keyBytes key ++ u32Bytes bit)
  | clearBit key bit => (base + 2) :: (keyBytes key ++ u32Bytes bit)
  | batchSet key bits => (base + 3) :: (keyBytes key ++ batchBytes bits)
  | batchClear key bits => (base + 4) :: (keyBytes key ++ batchBytes bits)

/-- Take a number off the front. -/
def takeWord (width : Nat) (text : String) (bytes : List UInt8) : Except IoError (Nat × List UInt8) :=
  if width ≤ bytes.length then .ok (ofLeBytes (bytes.take width), bytes.drop width)
  else .error ⟨.unexpectedEof, text⟩

def readBits (text : String) : Nat → List UInt8 → Except IoError (List UInt32)
  | 0, _ => .ok []
  | count + 1, bytes => do
      let (bit, rest) ← takeWord 4 text bytes
      let bits ← readBits text count rest
      return ofNat bit :: bits

theorem takeWord_leBytes {width n : Nat} (hn : n < 256 ^ width) (text : String) (rest : List UInt8) :
    takeWord width text (leBytes width n ++ rest) = .ok (n, rest) := by
  have hlen := length_leBytes width n
  unfold takeWord
  rw [if_pos (by rw [length_append, hlen]; exact Nat.le_add_right _ _), take_left' hlen,
    drop_left' hlen, ofLeBytes_leBytes, Nat.mod_eq_of_lt hn]

theorem takeWord_u32Bytes (n : UInt32) (text : String) (rest : List UInt8) :
    takeWord 4 text (u32Bytes n ++ rest) = .ok (n.toNat, rest) :=
  takeWord_leBytes n.toNat_lt text rest

theorem takeWord_u32Bytes_nil (n : UInt32) (text : String) : takeWord 4 text (u32Bytes n) = .ok (n.toNat, []) := by
  rw [← takeWord_u32Bytes, append_nil]

theorem readBits_flatMap (bits : List UInt32) (text : String) :
    readBits text bits.length (bits.flatMap u32Bytes) = .ok bits := by
  induction bits with
  | nil => rfl
  | cons bit bits ih =>
    rw [flatMap_cons, length_cons, readBits, takeWord_u32Bytes]
    show (readBits text bits.length (bits.flatMap u32Bytes) >>= _) = _
    rw [ih]
    show Except.ok (ofNat bit.toNat :: bits) = _
    rw [UInt32.ofNat_toNat]

/-- A lower-case hexadecimal digit. -/
def hexDigit (n : Nat) : Char := if n < 10 then Char.ofNat (48 + n) else Char.ofNat (87 + n)

/-- `{:02x}`. -/
def hexByte (b : UInt8) : String := String.ofList [hexDigit (b.toNat / 16), hexDigit (b.toNat % 16)]

theorem takeWord_batchBytes {bits : List UInt32} (hlen : bits.length < 2 ^ 32) (text : String) :
    takeWord 4 text (batchBytes bits) = .ok (bits.length, bits.flatMap u32Bytes) :=
  takeWord_leBytes hlen text _

theorem length_flatMap_u32Bytes (bits : List UInt32) : (bits.flatMap u32Bytes).length = bits.length * 4 := by
  induction bits with
  | nil => rfl
  | cons bit bits ih =>
    rw [flatMap_cons, length_append, u32Bytes, length_leBytes, length_cons]
    omega

theorem not_length_batchBytes_lt (bits : List UInt32) : ¬ (batchBytes bits).length < 4 := by
  rw [batchBytes, length_append, length_leBytes]
  omega

theorem length_bits_lt {base : UInt8} {keyBytes : κ → List UInt8} {op : KeyedOp κ}
    (hlen : (encodeOp base keyBytes op).length < 2 ^ 32) : op.bits.length < 2 ^ 32 := by
  cases op with
  | setBit key bit | clearBit key bit => exact Nat.one_lt_two_pow_iff.mpr (by decide)
  | batchSet key bits | batchClear key bits =>
    simp only [encodeOp, batchBytes, length_cons, length_append, length_leBytes,
      length_flatMap_u32Bytes] at hlen
    show bits.length < 2 ^ 32
    omega

/-- `apply` on a bucket or on the layers of a sort field: a set creates the bitmap, a clear of a missing
one does nothing. -/
def apply [DecidableEq κ] (m : Postings κ UInt32) (op : KeyedOp κ) : Postings κ UInt32 :=
  if op.isSet then m.add op.key op.bits.toFinset else HashMap.alter m op.key (· \ op.bits.toFinset)

/-- `apply` on a single bitmap. -/
def applyTo (bitmap : Bitmap) (op : KeyedOp κ) : Bitmap :=
  if op.isSet then bitmap ∪ op.bits.toFinset else bitmap \ op.bits.toFinset

/-- What an op writes to a bit under a key, if it touches it. -/
def write [DecidableEq κ] (key : κ) (bit : UInt32) (op : KeyedOp κ) : Option Bool :=
  if op.key = key ∧ bit ∈ op.bits then some op.isSet else none

theorem mem_apply [DecidableEq κ] (m : Postings κ UInt32) (op : KeyedOp κ) (k : κ) (x : UInt32) :
    decide (x ∈ (apply m op).ids k) = (op.write k x).getD (decide (x ∈ m.ids k)) := by
  unfold apply write
  by_cases hset : op.isSet = true
  · rw [if_pos hset, Bool.decide_congr Postings.mem_ids_add]
    by_cases htouch : op.key = k ∧ x ∈ op.bits
    · simp [htouch, hset]
    · have : ¬ (op.key = k ∧ x ∈ op.bits.toFinset) := by simpa using htouch
      simp only [this, or_false, if_neg htouch, Option.getD_none]
  · rw [if_neg hset]
    have hids : (HashMap.alter m op.key (· \ op.bits.toFinset)).lookup k =
        if k = op.key then (m.lookup op.key).map (· \ op.bits.toFinset) else m.lookup k :=
      HashMap.lookup_alter m op.key _ k
    by_cases hk : op.key = k
    · subst hk
      rw [Postings.ids, hids, Postings.ids]
      cases m.lookup op.key with
      | none | some s => by_cases hx : x ∈ op.bits <;> simp [hx, hset]
    · rw [Postings.ids, hids, if_neg (Ne.symm hk), if_neg (fun h => hk h.1)]
      rfl

end KeyedOp

/-! ## The three stores -/

namespace BitmapOp

/-- The alive store has no key. -/
def encodeOp : BitmapOp → List UInt8 := KeyedOp.encodeOp 0x00 fun _ => []

/-- The decoder of the alive store. -/
def decodeOp : List UInt8 → Except IoError BitmapOp
  | [] => .error ⟨.invalidData, "empty bitmap op"⟩
  | tag :: bytes =>
    if tag = 0x01 ∨ tag = 0x02 then do
      let (bit, _) ← KeyedOp.takeWord 4 "truncated" bytes
      return if tag = 0x01 then .setBit () (ofNat bit) else .clearBit () (ofNat bit)
    else if tag = 0x03 ∨ tag = 0x04 then do
      let (count, rest) ← KeyedOp.takeWord 4 "truncated" bytes
      let bits ← KeyedOp.readBits "truncated" count rest
      return if tag = 0x03 then .batchSet () bits else .batchClear () bits
    else .error ⟨.invalidData, "unknown op: 0x" ++ KeyedOp.hexByte tag⟩

/-- **An op is read back** when its bytes fit the length field of an entry. -/
theorem decodeOp_encodeOp (op : BitmapOp) (hlen : (encodeOp op).length < 2 ^ 32) : decodeOp (encodeOp op) = .ok op := by
  cases op with
  | setBit key bit | clearBit key bit =>
    simp [encodeOp, KeyedOp.encodeOp, decodeOp, KeyedOp.takeWord_u32Bytes_nil, bind, Except.bind, pure, Except.pure]
  | batchSet key bits | batchClear key bits =>
    have hbits : bits.length < 2 ^ 32 := KeyedOp.length_bits_lt hlen
    simp [encodeOp, KeyedOp.encodeOp, decodeOp, KeyedOp.takeWord_batchBytes hbits, KeyedOp.readBits_flatMap, bind,
      Except.bind, pure, Except.pure]

end BitmapOp

namespace SortLayerOp

/-- The bytes of a sort op. -/
def encodeOp : SortLayerOp → List UInt8 := KeyedOp.encodeOp 0x20 fun bitPosition => [bitPosition]

/-- Unlike the other two, checks the length first and the whole batch before reading it. -/
def decodeOp : List UInt8 → Except IoError SortLayerOp
  | tag :: bitPosition :: bytes =>
    if bytes.length < 4 then .error ⟨.unexpectedEof, "sort layer op too short"⟩
    else do
      let (slot, rest) ← KeyedOp.takeWord 4 "truncated slot" bytes
      if tag = 0x21 then return .setBit bitPosition (ofNat slot)
      else if tag = 0x22 then return .clearBit bitPosition (ofNat slot)
      else if tag = 0x23 ∨ tag = 0x24 then
        if rest.length < slot * 4 then .error ⟨.unexpectedEof, "truncated sort layer batch op"⟩
        else
          let slots ← KeyedOp.readBits "truncated slot" slot rest
          return if tag = 0x23 then .batchSet bitPosition slots else .batchClear bitPosition slots
      else .error ⟨.invalidData, "unknown sort layer op tag: 0x" ++ KeyedOp.hexByte tag⟩
  | _ => .error ⟨.unexpectedEof, "sort layer op too short"⟩

/-- **A layer op is read back**, by a decoder of its own. -/
theorem decodeOp_encodeLayer (op : SortLayerOp) (hlen : (encodeOp op).length < 2 ^ 32) :
    decodeOp (encodeOp op) = .ok op := by
  cases op with
  | setBit key bit | clearBit key bit =>
    have hshort : ¬ (KeyedOp.u32Bytes bit).length < 4 := by simp [KeyedOp.u32Bytes]
    simp [encodeOp, KeyedOp.encodeOp, decodeOp, hshort, KeyedOp.takeWord_u32Bytes_nil, bind, Except.bind, pure,
      Except.pure]
  | batchSet key bits | batchClear key bits =>
    have hbits : bits.length < 2 ^ 32 := KeyedOp.length_bits_lt hlen
    have hwhole : ¬ (bits.flatMap KeyedOp.u32Bytes).length < bits.length * 4 := by
      rw [KeyedOp.length_flatMap_u32Bytes]
      exact lt_irrefl _
    simp only [encodeOp, KeyedOp.encodeOp, decodeOp, singleton_append, KeyedOp.not_length_batchBytes_lt, hwhole,
      KeyedOp.takeWord_batchBytes hbits, KeyedOp.readBits_flatMap, bind, Except.bind]
    rfl

theorem decodeOp_encodeLayer_batchSet : (encodeOp (.batchSet 3 [5, 9])).length < 2 ^ 32 ∧
    decodeOp (encodeOp (.batchSet 3 [5, 9])) = .ok (.batchSet 3 [5, 9]) :=
  ⟨by decide, decodeOp_encodeLayer _ (by decide)⟩

end SortLayerOp

end Bitdex
