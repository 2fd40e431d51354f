import Mathlib.Tactic.Ring
import Bitdex.Library.Enumerate
import Bitdex.Query

/-!
# `Sort.Rank` — the (value, slot) order and the value of a slot

Results are ranked by sort value and, among equal values, by slot: both descending for `Desc`, both ascending for
`Asc`. A cursor is a position in that order, not necessarily the position of a slot. `reconstructValue_eq` identifies
the value that the sort layers store.
-/

namespace Bitdex

open Enumeration List UInt32

/-- A position: a sort value and a slot. -/
abbrev Position := Nat × UInt32

/-- `p` comes no later than `q`. -/
def posLe (descending : Bool) (p q : Position) : Prop :=
  if descending then q.1 < p.1 ∨ (q.1 = p.1 ∧ q.2 ≤ p.2)
  else p.1 < q.1 ∨ (p.1 = q.1 ∧ p.2 ≤ q.2)

/-- `p` comes strictly before `q`. -/
def posLt (descending : Bool) (p q : Position) : Prop :=
  if descending then q.1 < p.1 ∨ (q.1 = p.1 ∧ q.2 < p.2)
  else p.1 < q.1 ∨ (p.1 = q.1 ∧ p.2 < q.2)

instance (descending : Bool) (p q : Position) : Decidable (posLe descending p q) :=
  inferInstanceAs (Decidable (if descending then q.1 < p.1 ∨ (q.1 = p.1 ∧ q.2 ≤ p.2)
    else p.1 < q.1 ∨ (p.1 = q.1 ∧ p.2 ≤ q.2)))

instance (descending : Bool) (p q : Position) : Decidable (posLt descending p q) :=
  inferInstanceAs (Decidable (if descending then q.1 < p.1 ∨ (q.1 = p.1 ∧ q.2 < p.2)
    else p.1 < q.1 ∨ (p.1 = q.1 ∧ p.2 < q.2)))

theorem posLe_trans {descending : Bool} {p q r : Position} (h₁ : posLe descending p q)
    (h₂ : posLe descending q r) : posLe descending p r := by
  unfold posLe at *
  simp only [le_iff_toNat_le] at *
  split at h₁
  · next hd =>
    rw [if_pos hd] at h₂ ⊢
    omega
  · next hd =>
    rw [if_neg hd] at h₂ ⊢
    omega

theorem posLe_antisymm {descending : Bool} {p q : Position} (h₁ : posLe descending p q)
    (h₂ : posLe descending q p) : p = q := by
  unfold posLe at *
  simp only [le_iff_toNat_le] at *
  apply Prod.ext
  · split at h₁ <;> rename_i hd
    · rw [if_pos hd] at h₂
      omega
    · rw [if_neg hd] at h₂
      omega
  · apply UInt32.toNat_inj.mp
    split at h₁ <;> rename_i hd
    · rw [if_pos hd] at h₂
      omega
    · rw [if_neg hd] at h₂
      omega

theorem posLe_total (descending : Bool) (p q : Position) : posLe descending p q ∨ posLe descending q p := by
  unfold posLe
  simp only [le_iff_toNat_le]
  cases descending <;> simp only [if_true, if_false, Bool.false_eq_true] <;> omega

/-- Strictly before is not-after. -/
theorem posLt_iff_not_posLe {descending : Bool} {p q : Position} : posLt descending p q ↔ ¬ posLe descending q p := by
  unfold posLt posLe
  simp only [le_iff_toNat_le, lt_iff_toNat_lt]
  cases descending <;> simp only [if_true, if_false, Bool.false_eq_true] <;> omega

/-! ## Slots in rank order -/

/-- The order on slots by their position. -/
def rankLe (descending : Bool) (value : UInt32 → Nat) (a b : UInt32) : Prop :=
  posLe descending (value a, a) (value b, b)

section RankInstances

variable (descending : Bool) (value : UInt32 → Nat)

instance : DecidableRel (rankLe descending value) :=
  fun a b => inferInstanceAs (Decidable (posLe descending (value a, a) (value b, b)))

instance : IsTrans UInt32 (rankLe descending value) := ⟨fun _ _ _ h₁ h₂ => posLe_trans h₁ h₂⟩

instance : Std.Antisymm (rankLe descending value) := ⟨fun _ _ h₁ h₂ => (Prod.ext_iff.mp (posLe_antisymm h₁ h₂)).2⟩

instance : Std.Total (rankLe descending value) := ⟨fun a b => posLe_total descending (value a, a) (value b, b)⟩

end RankInstances

/-- The slots of a bitmap in rank order. -/
def ranked (descending : Bool) (value : UInt32 → Nat) (s : Bitmap) : List UInt32 :=
  enumerate (rankLe descending value) s

/-- The slot lies strictly after the cursor; without a cursor every slot does. -/
def afterCursor (descending : Bool) (value : UInt32 → Nat) (cursor : Option Position)
    (slot : UInt32) : Prop :=
  match cursor with
  | some c => posLt descending c (value slot, slot)
  | none => True

instance (descending : Bool) (value : UInt32 → Nat) (cursor : Option Position) :
    DecidablePred (afterCursor descending value cursor) := fun slot =>
  match cursor with
  | some c => inferInstanceAs (Decidable (posLt descending c (value slot, slot)))
  | none => inferInstanceAs (Decidable True)

/-! ## Bit lists -/

/-- The number a bit list denotes, most significant bit first. -/
def msbValue : List Bool → Nat
  | [] => 0
  | b :: bs => (if b then 2 ^ bs.length else 0) + msbValue bs

theorem msbValue_lt (bs : List Bool) : msbValue bs < 2 ^ bs.length := by
  induction bs with
  | nil => simp [msbValue]
  | cons b bs ih =>
    rw [msbValue, length_cons]
    split <;> omega

theorem msbValue_concat (bs : List Bool) (b : Bool) : msbValue (bs ++ [b]) = 2 * msbValue bs + if b then 1 else 0 := by
  induction bs with
  | nil => cases b <;> rfl
  | cons c bs ih =>
    rw [cons_append, msbValue, msbValue, ih, length_append, length_singleton]
    split <;> split <;> omega

/-- The loop from the least significant layer adds the remaining bits above the ones it has read. -/
theorem reconstructFrom_eq (bs : List Bool) (bit value : Nat) (hvalue : value < 2 ^ bit)
    (hbits : bit + bs.length ≤ 32) :
    SortField.reconstructFrom bs bit value = value + 2 ^ bit * msbValue bs.reverse := by
  induction bs generalizing bit value with
  | nil => simp [SortField.reconstructFrom, msbValue]
  | cons b bs ih =>
    rw [length_cons] at hbits
    have hbit : bit % 32 = bit := Nat.mod_eq_of_lt (by omega)
    have hpow : 2 ^ (bit + 1) = 2 ^ bit + 2 ^ bit := by
      omega
    rw [SortField.reconstructFrom, reverse_cons, msbValue_concat, hbit]
    cases b with
    | true =>
      -- the new bit lies above everything accumulated so far
      have hor : value ||| 1 <<< bit = value + 2 ^ bit := by
        have h := Nat.two_pow_add_eq_or_of_lt hvalue 1
        rw [Nat.mul_one] at h
        rw [Nat.one_shiftLeft, Nat.or_comm, ← h, Nat.add_comm]
      rw [if_pos rfl, if_pos rfl, hor, ih (bit + 1) _ (by omega) (by omega)]
      ring
    | false =>
      rw [if_neg (by simp), if_neg (by simp), ih (bit + 1) value (by omega) (by omega)]
      ring

namespace SortField

/-- The fused layers, most significant first. -/
def msbLayers (sf : SortField) : List Bitmap := sf.fusedLayers.reverse

theorem length_msbLayers (sf : SortField) : sf.msbLayers.length = sf.numBits := by
  simp [msbLayers, fusedLayers, numBits]

/-- The bits of a slot in a list of layers. -/
def slotBits (layers : List Bitmap) (slot : UInt32) : List Bool := layers.map fun layer => decide (slot ∈ layer)

/-- **The stored value** is the number whose bits are the slot's memberships, most significant layer
first. -/
theorem reconstructValue_eq (sf : SortField) (h : sf.numBits ≤ 32) (slot : UInt32) :
    sf.reconstructValue slot = msbValue (slotBits sf.msbLayers slot) := by
  have hbits : sf.bitLayers.map (·.fusedContains slot) = slotBits sf.fusedLayers slot := by
    unfold slotBits fusedLayers
    rw [map_map]
    refine map_congr_left fun vb _ => ?_
    rw [Function.comp_apply, Bool.eq_iff_iff, VersionedBitmap.fusedContains_iff, decide_eq_true_iff]
  have hlen : (slotBits sf.fusedLayers slot).length ≤ 32 := by
    simpa [slotBits, fusedLayers, numBits] using h
  rw [reconstructValue, hbits, reconstructFrom_eq _ 0 0 (by simp) (by simpa using hlen)]
  simp [msbLayers, slotBits, map_reverse]

end SortField

end Bitdex
