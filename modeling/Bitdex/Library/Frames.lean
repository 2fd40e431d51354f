import Mathlib.Data.List.Basic
import Mathlib.Tactic.Ring

/-!
# `Library.Frames` — logs of length-prefixed, checksummed entries

A log file is a sequence of *frames*: the length of a payload in four bytes, the payload, and a checksum of it in four
bytes. A writer appends frames; a reader decodes them in order and stops at the first one that is cut off, fails its
checksum or does not decode. The checksum and the decoder are parameters.
-/

namespace Frames

/-! ## Little-endian numbers -/

/-- The `width` low bytes of a number, lowest first; higher ones are cut off. -/
def leBytes : Nat → Nat → List UInt8
  | 0, _ => []
  | width + 1, n => UInt8.ofNat n :: leBytes width (n / 256)

/-- A number from little-endian bytes. -/
def ofLeBytes : List UInt8 → Nat
  | [] => 0
  | b :: bs => b.toNat + 256 * ofLeBytes bs

@[simp] theorem length_leBytes (width n : Nat) : (leBytes width n).length = width := by
  induction width generalizing n with
  | zero => rfl
  | succ width ih => rw [leBytes, List.length_cons, ih]

/-- A number that does not fit is cut to the width. -/
@[simp] theorem ofLeBytes_leBytes (width n : Nat) : ofLeBytes (leBytes width n) = n % 256 ^ width := by
  induction width generalizing n with
  | zero => simp [leBytes, ofLeBytes, Nat.mod_one]
  | succ width ih =>
    have hlow : (UInt8.ofNat n).toNat = n % 256 := UInt8.toNat_ofNat'
    rw [leBytes, ofLeBytes, ih, hlow, Nat.pow_succ, Nat.mul_comm (256 ^ width) 256, Nat.mod_mul]

theorem ofLeBytes_lt (bytes : List UInt8) : ofLeBytes bytes < 256 ^ bytes.length := by
  induction bytes with
  | nil => simp [ofLeBytes]
  | cons b bs ih =>
    have hb : b.toNat < 256 := b.toNat_lt
    rw [ofLeBytes, List.length_cons]
    omega

/-- A field of known place and width. -/
theorem slice_append {α : Type} {xs ys : List α} {n k : Nat} (hx : xs.length = n) (hy : ys.length = k)
    (zs : List α) : ((xs ++ (ys ++ zs)).drop n).take k = ys := by
  rw [List.drop_left' hx, List.take_left' hy]

section

variable {α : Type} (checksum : List UInt8 → UInt32) (decode : List UInt8 → Option α)

/-- One entry of a log. -/
def frame (payload : List UInt8) : List UInt8 :=
  leBytes 4 payload.length ++ payload ++ leBytes 4 (checksum payload).toNat

/-- The first entry of some bytes and what follows it. -/
def readFrame (data : List UInt8) : Option (α × List UInt8) :=
  if data.length < 4 then none
  else
    let len := ofLeBytes (data.take 4)
    let body := data.drop 4
    if body.length < len + 4 then none
    else
      let payload := body.take len
      let stored := ofLeBytes ((body.drop len).take 4)
      if stored = (checksum payload).toNat then
        (decode payload).map fun a => (a, body.drop (len + 4))
      else none

/-- The reader's loop; every entry takes up space, so the number of bytes bounds the rounds. -/
def readLoop : Nat → List UInt8 → List α
  | 0, _ => []
  | fuel + 1, data =>
    match readFrame checksum decode data with
    | none => []
    | some (a, rest) => a :: readLoop fuel rest

/-- All entries of a log. -/
def readAll (data : List UInt8) : List α := readLoop checksum decode data.length data

variable {checksum decode}

@[simp] theorem length_frame (payload : List UInt8) : (frame checksum payload).length = payload.length + 8 := by
  simp only [frame, List.length_append, length_leBytes]
  omega

/-- **A whole entry is read back.** -/
theorem readFrame_frame {payload : List UInt8} {a : α} (hlen : payload.length < 2 ^ 32)
    (hdecode : decode payload = some a) (rest : List UInt8) :
    readFrame checksum decode (frame checksum payload ++ rest) = some (a, rest) := by
  have hsplit : frame checksum payload ++ rest = leBytes 4 payload.length ++
      (payload ++ (leBytes 4 (checksum payload).toNat ++ rest)) := by
    simp [frame, List.append_assoc]
  have htake : (frame checksum payload ++ rest).take 4 = leBytes 4 payload.length := by
    rw [hsplit, List.take_left' (length_leBytes 4 _)]
  have hdrop : (frame checksum payload ++ rest).drop 4 = payload ++ (leBytes 4 (checksum payload).toNat ++ rest) := by
    rw [hsplit, List.drop_left' (length_leBytes 4 _)]
  have hvalue : ofLeBytes (leBytes 4 payload.length) = payload.length := by
    rw [ofLeBytes_leBytes]
    exact Nat.mod_eq_of_lt (by omega)
  have hstored : ofLeBytes (leBytes 4 (checksum payload).toNat) = (checksum payload).toNat := by
    rw [ofLeBytes_leBytes]
    exact Nat.mod_eq_of_lt (checksum payload).toNat_lt
  have hshort : ¬ (frame checksum payload ++ rest).length < 4 := by
    rw [List.length_append, length_frame]
    omega
  have hbody : ¬ (payload ++ (leBytes 4 (checksum payload).toNat ++ rest)).length < payload.length + 4 := by
    simp only [List.length_append, length_leBytes]
    omega
  unfold readFrame
  simp only [if_neg hshort, htake, hdrop, hvalue, if_neg hbody, List.take_left', List.drop_left',
    List.take_left' (length_leBytes 4 _), hstored, if_true, hdecode, Option.map_some]
  congr 2
  rw [← List.drop_drop, List.drop_left' rfl, List.drop_left' (length_leBytes 4 _)]

theorem readFrame_length {data rest : List UInt8} {a : α}
    (h : readFrame checksum decode data = some (a, rest)) : rest.length < data.length := by
  unfold readFrame at h
  dsimp only at h
  split at h
  · cases h
  · next hdata =>
    split at h
    · cases h
    · split at h
      · obtain ⟨b, -, hb⟩ := Option.map_eq_some_iff.mp h
        obtain ⟨-, rfl⟩ := Prod.mk.inj hb
        simp only [List.length_drop]
        omega
      · cases h

/-- More rounds than bytes change nothing. -/
theorem readLoop_eq_readAll {fuel : Nat} {data : List UInt8} (hfuel : data.length ≤ fuel) :
    readLoop checksum decode fuel data = readAll checksum decode data := by
  have hmono : ∀ fuel fuel' : Nat, ∀ data : List UInt8, data.length ≤ fuel → data.length ≤ fuel' →
      readLoop checksum decode fuel data = readLoop checksum decode fuel' data := by
    intro fuel
    induction fuel with
    | zero =>
      intro fuel' data h _
      have hnil : data = [] := List.length_eq_zero_iff.mp (Nat.le_zero.mp h)
      subst hnil
      cases fuel' with
      | zero | succ n => rfl
    | succ n ih =>
      intro fuel' data h h'
      cases fuel' with
      | zero =>
        have hnil : data = [] := List.length_eq_zero_iff.mp (Nat.le_zero.mp h')
        subst hnil
        rfl
      | succ m =>
        simp only [readLoop]
        cases hread : readFrame checksum decode data with
        | none => rfl
        | some p =>
          obtain ⟨a, rest⟩ := p
          have hlt := readFrame_length hread
          exact congrArg (a :: ·) (ih m rest (by omega) (by omega))
  exact hmono fuel data.length data hfuel le_rfl

theorem readAll_of_none {data : List UInt8} (h : readFrame checksum decode data = none) :
    readAll checksum decode data = [] := by
  unfold readAll
  cases hlen : data.length with
  | zero => rfl
  | succ n => simp [readLoop, h]

theorem readAll_of_some {data rest : List UInt8} {a : α} (h : readFrame checksum decode data = some (a, rest)) :
    readAll checksum decode data = a :: readAll checksum decode rest := by
  have hlt := readFrame_length h
  obtain ⟨n, hn⟩ : ∃ n, data.length = n + 1 := ⟨data.length - 1, by omega⟩
  rw [readAll, hn]
  simp only [readLoop, h]
  rw [readLoop_eq_readAll (by omega)]

/-- **Whole entries are read in order**, then what follows them. -/
theorem readAll_append {entries : List (List UInt8 × α)}
    (h : ∀ e ∈ entries, e.1.length < 2 ^ 32 ∧ decode e.1 = some e.2) (tail : List UInt8) :
    readAll checksum decode (entries.flatMap (fun e => frame checksum e.1) ++ tail) =
      entries.map Prod.snd ++ readAll checksum decode tail := by
  induction entries with
  | nil => rfl
  | cons e entries ih =>
    obtain ⟨hlen, hdecode⟩ := h e List.mem_cons_self
    rw [List.flatMap_cons, List.append_assoc, readAll_of_some (readFrame_frame hlen hdecode _),
      ih fun e' he' => h e' (List.mem_cons_of_mem e he'), List.map_cons, List.cons_append]

end

end Frames
