import Bitdex.Write.Mutation

/-!
# `Schema` — JSON records and the data schema

Records reach the engine as JSON. A data schema (`config.rs`) names the fields of a record and their defaults.

A JSON object is a list of members; a parsed object has no key twice. An `f64` is given by its bits.
-/

namespace Bitdex

/-- `n as f64` for an integer without sign: rounded to nearest, ties to even. -/
def f64OfNat (n : Nat) : UInt64 :=
  if n = 0 then 0
  else
    let e := n.log2
    let significand :=
      if e ≤ 52 then n <<< (52 - e)
      else
        let shift := e - 52
        let rest := n % 2 ^ shift
        let half := 2 ^ (shift - 1)
        let down := n >>> shift
        if rest > half ∨ (rest = half ∧ down % 2 = 1) then down + 1 else down
    -- a significand that was rounded up to the next power of two carries into the exponent
    UInt64.ofNat ((e + 1022) * 2 ^ 52 + significand)

example : f64OfNat 3 = 0x4008000000000000 ∧ f64OfNat (2 ^ 64 - 1) = 0x43f0000000000000 := by decide +kernel

/-- A number as the parser keeps it: without sign, negative, or a float. -/
inductive JsonNumber where
  | posInt (n : UInt64)
  | negInt (n : Int64)
  | float (bits : UInt64)
deriving DecidableEq

namespace JsonNumber

/-- `as_i64`: a number in the range of an `i64`. -/
def asI64 : JsonNumber → Option Int64
  | posInt n => if n.toNat < 2 ^ 63 then some n.toInt64 else none
  | negInt n => some n
  | float _ => none

/-- `as_u64`: a number without sign. -/
def asU64 : JsonNumber → Option UInt64
  | posInt n => some n
  | _ => none

/-- `as_f64`: the nearest float. -/
def asF64 : JsonNumber → UInt64
  | posInt n => f64OfNat n.toNat
  | negInt n => 0x8000000000000000 ||| f64OfNat n.toInt.natAbs
  | float bits => bits

end JsonNumber

/-- A JSON value. -/
inductive Json where
  | null
  | bool (b : Bool)
  | number (n : JsonNumber)
  | string (s : String)
  | array (items : List Json)
  | object (members : List (String × Json))

namespace Json

/-- `as_i64`: only numbers in the range of an `i64`. -/
def asI64 : Json → Option Int64
  | number n => n.asI64
  | _ => none

/-- `as_u64`: only numbers without sign. -/
def asU64 : Json → Option UInt64
  | number n => n.asU64
  | _ => none

/-- `as_i64`, or the bits of a larger `u64`. -/
def asWrappedI64 (json : Json) : Option Int64 := json.asI64.or (json.asU64.map UInt64.toInt64)

end Json

/-! ## The data schema -/

/-- What the document store reads of a mapping: the field it fills and the field's default. -/
structure SchemaMapping where
  target : String
  defaultValue : Option Json

/-- A data schema as the document store reads it. -/
structure DataSchema where
  schemaVersion : UInt8
  fields : List SchemaMapping

end Bitdex
