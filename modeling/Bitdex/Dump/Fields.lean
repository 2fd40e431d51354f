import Mathlib.Data.List.TakeWhile
import Bitdex.Index

/-!
# `Dump.Fields` — the integers of a CSV row

`parse_i64_fast` reads digits up to the first byte that is none. A carriage return, a space or a quote ends the number
there, also in front of its first digit; any other byte makes the field no number. Overflow is not checked.
`ParsedRow.getI64_iff` says which fields are read as the number that they are.
-/

namespace Bitdex

open List

/-- A row: the bytes of its fields, and the index of each column. -/
structure ParsedRow where
  fields : List (List UInt8)
  colIndex : HashMap String Nat

/-- An `i64` operation overflows: a panic, or a wrapped number without overflow checks. -/
inductive Overflow where
  | overflow
deriving DecidableEq

def isDigit (b : UInt8) : Bool := decide (48 ≤ b) && decide (b ≤ 57)

/-- `\r`, a space or a quote. -/
def endsNumber (b : UInt8) : Bool := b = 13 || b = 32 || b = 34

/-- The loop of `parse_i64_fast`. -/
def digitLoop : Nat → List UInt8 → Except Overflow (Option Nat)
  | n, [] => .ok (some n)
  | n, b :: bs =>
    if isDigit b then
      let n' := n * 10 + (b.toNat - 48)
      if n' < 2 ^ 63 then digitLoop n' bs else .error .overflow
    else if endsNumber b then .ok (some n)
    else .ok none

/-- Drop a carriage return at the end. -/
def stripCr (bytes : List UInt8) : List UInt8 := if bytes.getLast? = some 13 then bytes.dropLast else bytes

/-- The sign, and what follows it. -/
def unsigned : List UInt8 → Bool × List UInt8
  | [] => (false, [])
  | b :: bs => if b = 45 then (true, bs) else (false, b :: bs)

/-- The number at the start of a field. -/
def parseI64Fast (bytes : List UInt8) : Except Overflow (Option Int64) :=
  let bytes := stripCr bytes
  if bytes = [] then .ok none
  else (digitLoop 0 (unsigned bytes).2).map fun read =>
    read.map fun n : Nat => Int64.ofInt (if (unsigned bytes).1 then -(n : Int) else n)

/-- Without the quotes around a field, as `get_str` takes them off. -/
def unquoted (bytes : List UInt8) : List UInt8 :=
  if 2 ≤ bytes.length ∧ bytes.head? = some 34 ∧ bytes.getLast? = some 34 then bytes.tail.dropLast else bytes

namespace ParsedRow

variable (row : ParsedRow) (column : String)

/-- The bytes of a column. -/
def field : Option (List UInt8) := (row.colIndex.lookup column).bind fun idx => row.fields[idx]?

/-- The bytes, if there are any. -/
def getBytes : Option (List UInt8) := (row.field column).filter (· ≠ [])

/-- A column as a number. -/
def getI64 : Except Overflow (Option Int64) := (row.getBytes column).elim (.ok none) parseI64Fast

end ParsedRow

/-! ## The loop -/

/-- The number that digits stand for, behind a number that was read before them. -/
def digitsNumber (n : Nat) (bs : List UInt8) : Nat := bs.foldl (fun n b => n * 10 + (b.toNat - 48)) n

theorem le_digitsNumber (n : Nat) (bs : List UInt8) : n ≤ digitsNumber n bs := by
  induction bs generalizing n with
  | nil => exact le_rfl
  | cons b bs ih =>
    have hstep : n ≤ n * 10 + (b.toNat - 48) := by omega
    exact hstep.trans (ih _)

/-- The loop reads the leading digits, if they fit, and judges the byte behind them. -/
theorem digitLoop_eq (n : Nat) (hn : n < 2 ^ 63) (bs : List UInt8) :
    digitLoop n bs = if digitsNumber n (bs.takeWhile isDigit) < 2 ^ 63 then
        .ok (if (bs.dropWhile isDigit).head?.all endsNumber then some (digitsNumber n (bs.takeWhile isDigit))
          else none)
      else .error .overflow := by
  induction bs generalizing n with
  | nil => exact (if_pos hn).symm
  | cons b bs ih =>
    cases hb : isDigit b with
    | false =>
      simp only [digitLoop, takeWhile_cons, dropWhile_cons, hb, Bool.false_eq_true, if_false,
        head?_cons, Option.all_some]
      show _ = if n < 2 ^ 63 then _ else _
      split <;> rfl
    | true =>
      rw [takeWhile_cons, dropWhile_cons, digitLoop, hb]
      by_cases hlt : n * 10 + (b.toNat - 48) < 2 ^ 63
      · simp only [if_true, if_pos hlt, ih _ hlt]
        rfl
      · have hle := le_digitsNumber (n * 10 + (b.toNat - 48)) (bs.takeWhile isDigit)
        have hbig : ¬digitsNumber n (b :: bs.takeWhile isDigit) < 2 ^ 63 := fun h => hlt (hle.trans_lt h)
        simp only [if_true, if_neg hlt, if_neg hbig]

theorem parseI64Fast_eq {bytes : List UInt8} (hne : stripCr bytes ≠ []) :
    parseI64Fast bytes = let parts := unsigned (stripCr bytes)
      let n := digitsNumber 0 (parts.2.takeWhile isDigit)
      if n < 2 ^ 63 then
        .ok (if (parts.2.dropWhile isDigit).head?.all endsNumber then
          some (Int64.ofInt (if parts.1 then -(n : Int) else n)) else none)
      else .error .overflow := by
  rw [parseI64Fast]
  simp only [if_neg hne, digitLoop_eq 0 (by decide : 0 < 2 ^ 63)]
  by_cases hfits : digitsNumber 0 ((unsigned (stripCr bytes)).2.takeWhile isDigit) < 2 ^ 63
  · rw [if_pos hfits, if_pos hfits, Except.map, apply_ite (Option.map _)]
    rfl
  · rw [if_neg hfits, if_neg hfits]
    rfl

/-! ## Decimal numbers -/

/-- The decimal digits of a number. -/
def digitBytes (m : Nat) : List UInt8 := (Nat.toDigits 10 m).map Char.toUInt8

/-- The text of a number, as `to_string` writes it. -/
def decimal (n : Int64) : List UInt8 := (if n < 0 then [45] else []) ++ digitBytes n.toInt.natAbs

theorem isDigit_toUInt8 {c : Char} (h : c.isDigit = true) : isDigit c.toUInt8 = true ∧ c.toUInt8.toNat = c.toNat := by
  have hrange : 48 ≤ c.toNat ∧ c.toNat ≤ 57 := by simpa [Char.isDigit, UInt32.le_iff_toNat_le] using h
  have hnat : c.toUInt8.toNat = c.toNat := Nat.mod_eq_of_lt (hrange.2.trans_lt (by decide))
  refine ⟨?_, hnat⟩
  simp [isDigit, UInt8.le_iff_toNat_le, hnat, hrange]

theorem isDigit_of_mem_digitBytes {m : Nat} {b : UInt8} (hb : b ∈ digitBytes m) : isDigit b = true := by
  obtain ⟨c, hc, rfl⟩ := mem_map.mp hb
  exact (isDigit_toUInt8 (Nat.isDigit_of_mem_toDigits (by decide) le_rfl hc)).1

theorem digitsNumber_digitBytes (m : Nat) : digitsNumber 0 (digitBytes m) = m := by
  have hm := Nat.ofDigitChars_ten_toDigits (n := m)
  rw [digitsNumber, digitBytes, foldl_map]
  refine (foldl_ext _ _ 0 fun n c hc => ?_).trans hm
  rw [(isDigit_toUInt8 (Nat.isDigit_of_mem_toDigits (by decide) le_rfl hc)).2, Nat.mul_comm]
  rfl

theorem mem_decimal {n : Int64} {b : UInt8} (hb : b ∈ decimal n) : isDigit b = true ∨ b = 45 := by
  rcases mem_append.mp hb with hb | hb
  · split at hb
    · exact .inr (mem_singleton.mp hb)
    · cases hb
  · exact .inl (isDigit_of_mem_digitBytes hb)

theorem unsigned_decimal (n : Int64) : unsigned (decimal n) = (decide (n < 0), digitBytes n.toInt.natAbs) := by
  by_cases hn : n < 0
  · rw [decimal, if_pos hn, decide_eq_true hn]
    rfl
  · rw [decimal, if_neg hn, decide_eq_false hn, nil_append]
    cases hbytes : digitBytes n.toInt.natAbs with
    | nil => rfl
    | cons b bs =>
      have hb : isDigit b = true := isDigit_of_mem_digitBytes (hbytes ▸ mem_cons_self)
      rw [unsigned, if_neg]
      rintro rfl
      cases hb

theorem decimal_injective {n n' : Int64} (h : decimal n = decimal n') : n = n' := by
  have hparts := congrArg unsigned h
  rw [unsigned_decimal, unsigned_decimal, Prod.mk.injEq, decide_eq_decide] at hparts
  have habs := congrArg (digitsNumber 0) hparts.2
  rw [digitsNumber_digitBytes, digitsNumber_digitBytes] at habs
  have hsign := hparts.1
  rw [Int64.lt_iff_toInt_lt, Int64.lt_iff_toInt_lt] at hsign
  refine Int64.toInt_inj.mp ?_
  simp only [Int64.toInt_zero] at hsign
  omega

theorem stripCr_decimal (n : Int64) : stripCr (decimal n) = decimal n := by
  refine if_neg fun hlast => ?_
  rcases mem_decimal (mem_of_getLast? hlast) with h | h <;> cases h

theorem unquoted_decimal (n : Int64) : unquoted (decimal n) = decimal n := by
  refine if_neg fun hquoted => ?_
  rcases mem_decimal (mem_of_head? hquoted.2.1) with h | h <;> cases h

theorem parts_decimal (n : Int64) : (unsigned (stripCr (decimal n))).2.takeWhile isDigit = digitBytes n.toInt.natAbs ∧
      (unsigned (stripCr (decimal n))).2.dropWhile isDigit = [] := by
  rw [stripCr_decimal, unsigned_decimal]
  exact ⟨takeWhile_eq_self_iff.mpr fun _ hb => isDigit_of_mem_digitBytes hb,
    dropWhile_eq_nil_iff.mpr fun _ hb => isDigit_of_mem_digitBytes hb⟩

theorem ofInt_decimal (n : Int64) :
    Int64.ofInt (if decide (n < 0) then -(n.toInt.natAbs : Int) else n.toInt.natAbs) = n := by
  have habs : (if decide (n < 0) then -(n.toInt.natAbs : Int) else n.toInt.natAbs) = n.toInt := by
    simp only [Int64.lt_iff_toInt_lt, Int64.toInt_zero, decide_eq_true_eq]
    omega
  rw [habs, Int64.ofInt_toInt]

/-! ## Which fields are read right -/

theorem stripCr_quoted (bs : List UInt8) : stripCr (34 :: (bs ++ [34])) = 34 :: (bs ++ [34]) := by
  refine if_neg ?_
  rw [← cons_append, getLast?_concat]
  decide

theorem eq_decimal_or_quoted {field : List UInt8} {n : Int64} (h : unquoted field = decimal n) :
    field = decimal n ∨ field = 34 :: (decimal n ++ [34]) := by
  unfold unquoted at h
  split at h
  · rename_i hquoted
    obtain ⟨hlen, hhead, hlast⟩ := hquoted
    cases field with
    | nil => cases hhead
    | cons b bs =>
      have hne : bs ≠ [] := ne_nil_of_length_pos (Nat.succ_le_succ_iff.mp hlen)
      rw [getLast?_cons_of_ne_nil hne] at hlast
      right
      rw [Option.some.inj hhead, ← h, tail_cons, dropLast_append_getLast? _ hlast]
  · exact .inl h

/-- The leading digits fit; without a carriage return the field is empty, is no number at the byte behind the digits,
is a decimal number, or a quoted zero. -/
def ReadsDecimal (field : List UInt8) : Prop :=
  let digits := (unsigned (stripCr field)).2
  digitsNumber 0 (digits.takeWhile isDigit) < 2 ^ 63 ∧
    (stripCr field = [] ∨ (digits.dropWhile isDigit).head?.all endsNumber = false ∨
      (∃ n, field = decimal n) ∨ field = [34, 48, 34])

theorem not_decimal {field : List UInt8} {n : Int64} (hempty : stripCr field = [] ∨
    ((unsigned (stripCr field)).2.dropWhile isDigit).head?.all endsNumber = false) : unquoted field ≠ decimal n := by
  intro h
  rcases eq_decimal_or_quoted h with rfl | rfl
  · rw [(parts_decimal n).2, stripCr_decimal] at hempty
    rcases hempty with hnil | hends
    · have hdigits := congrArg (fun bs => (unsigned bs).2) hnil
      rw [unsigned_decimal] at hdigits
      exact Nat.toDigits_ne_nil (map_eq_nil_iff.mp hdigits)
    · cases hends
  · rw [stripCr_quoted] at hempty
    rcases hempty with hnil | hends
    · cases hnil
    · cases hends

namespace ParsedRow

variable {row : ParsedRow} {column : String} {field : List UInt8}

theorem getI64_eq (h : row.field column = some field) : row.getI64 column = parseI64Fast field := by
  rw [getI64, getBytes, h]
  cases field <;> rfl

/-- **Fields read as decimal numbers.** A number is read without overflow exactly if the field without its quotes is
its text, for the fields that meet the condition and no others. -/
theorem getI64_iff (h : row.field column = some field) :
    (∃ read, row.getI64 column = .ok read ∧ ∀ n, read = some n ↔ unquoted field = decimal n) ↔ ReadsDecimal field := by
  rw [getI64_eq h]
  by_cases hnil : stripCr field = []
  · refine iff_of_true ⟨none, ?_, fun n => iff_of_false (Option.some_ne_none n).symm (not_decimal (.inl hnil))⟩
      ⟨?_, .inl hnil⟩
    · exact if_pos hnil
    · rw [hnil]
      decide
  · rw [parseI64Fast_eq hnil, ReadsDecimal]
    by_cases hfits : digitsNumber 0 ((unsigned (stripCr field)).2.takeWhile isDigit) < 2 ^ 63
    · rw [if_pos hfits]
      cases hends : ((unsigned (stripCr field)).2.dropWhile isDigit).head?.all endsNumber with
      | false =>
        exact iff_of_true ⟨none, rfl, fun n => iff_of_false (Option.some_ne_none n).symm (not_decimal (.inr hends))⟩
          ⟨hfits, .inr (.inl rfl)⟩
      | true =>
        constructor
        · rintro ⟨_, ⟨⟩, hread⟩
          refine ⟨hfits, .inr (.inr ?_)⟩
          generalize hm : Int64.ofInt _ = m at hread
          rcases eq_decimal_or_quoted ((hread m).mp rfl) with hfield | hfield
          · exact .inl ⟨m, hfield⟩
          · -- no digit is read of a quoted number, so that it is zero
            rw [hfield, stripCr_quoted] at hm
            have hzero : Int64.ofInt 0 = m := hm
            rw [hfield, ← hzero]
            exact .inr (by decide)
        · rintro ⟨-, h' | h' | ⟨n, rfl⟩ | rfl⟩
          · exact absurd h' hnil
          · cases h'
          · refine ⟨_, rfl, fun n' => ?_⟩
            rw [(parts_decimal n).1, digitsNumber_digitBytes, stripCr_decimal, unsigned_decimal, if_pos rfl,
              ofInt_decimal, unquoted_decimal, Option.some_inj]
            exact ⟨congrArg decimal, decimal_injective⟩
          · refine ⟨some 0, rfl, fun n => ?_⟩
            rw [Option.some_inj]
            exact ⟨fun hn => hn ▸ rfl, fun hn => decimal_injective hn⟩
    · rw [if_neg hfits]
      refine iff_of_false ?_ fun hreads => hfits hreads.1
      rintro ⟨_, ⟨⟩, -⟩

def textRow (text : String) : ParsedRow := ⟨[text.toList.map Char.toUInt8], (∅ : HashMap String Nat).insert "n" 0⟩

theorem getI64_negative : ∃ read, (textRow "-42").getI64 "n" = .ok read ∧
    ∀ n, read = some n ↔ unquoted [45, 52, 50] = decimal n :=
  (getI64_iff rfl).mpr ⟨by decide, .inr (.inr (.inl ⟨-42, by decide⟩))⟩

/-- A quoted number and a quoted word are read as 0, a number in front of a space is read whatever follows, and
`2 ^ 63` overflows. -/
theorem getI64_misreads : (textRow "\"12\"").getI64 "n" = .ok (some 0) ∧ (textRow "\"x\"").getI64 "n" = .ok (some 0) ∧
      (textRow "5 x").getI64 "n" = .ok (some 5) ∧ (textRow "-").getI64 "n" = .ok (some 0) ∧
      (textRow "9223372036854775808").getI64 "n" = .error .overflow := by
  decide +kernel

end ParsedRow

end Bitdex
