import Mathlib.Data.List.Basic

/-!
# `Library.Scan` — readers that step over what they cannot decode

A reader walks over some data. At every position it either stops, or takes up a piece of the data; the piece is a
record, or something it steps over. `scan` is the walk with a limit on the number of records.
-/

namespace Scan

/-- One step of a reader at the front of some data: the record there, or `none` where it is stepped over, and what
follows; no step where the reader stops. -/
structure Scanner (α β : Type) where
  parse : List β → Option (Option α × List β)
  shrinks : ∀ {data rest : List β} {e : Option α}, parse data = some (e, rest) → rest.length < data.length

/-- What a walk gave: the records, what is left of the data, and how many pieces were stepped over. -/
structure Scanned (α β : Type) where
  records : List α
  rest : List β
  skipped : Nat

section

variable {α β : Type} (sc : Scanner α β)

/-- The walk, with the number of records it may still take; every step takes up data. -/
def scanLoop : Nat → Nat → List β → Scanned α β
  | 0, _, data => ⟨[], data, 0⟩
  | _ + 1, 0, data => ⟨[], data, 0⟩
  | fuel + 1, max + 1, data =>
    match sc.parse data with
    | none => ⟨[], data, 0⟩
    | some (some a, rest) =>
      let r := scanLoop fuel max rest
      { r with records := a :: r.records }
    | some (none, rest) =>
      let r := scanLoop fuel (max + 1) rest
      { r with skipped := r.skipped + 1 }

/-- The walk over all data. -/
def scan (max : Nat) (data : List β) : Scanned α β := scanLoop sc data.length max data

variable {sc}

/-- **Whole records are read in order**, up to what stops the reader. -/
theorem scan_records {encode : α → List β} {records : List α}
    (hparse : ∀ a ∈ records, ∀ rest, sc.parse (encode a ++ rest) = some (some a, rest))
    {tail : List β} (hstop : sc.parse tail = none) (max : Nat) : scan sc max (records.flatMap encode ++ tail) =
      ⟨records.take max, (records.drop max).flatMap encode ++ tail, 0⟩ := by
  have hloop : ∀ fuel max, (records.flatMap encode ++ tail).length ≤ fuel →
      scanLoop sc fuel max (records.flatMap encode ++ tail) =
        ⟨records.take max, (records.drop max).flatMap encode ++ tail, 0⟩ := by
    induction records with
    | nil =>
      intro fuel max _
      cases fuel with
      | zero => simp [scanLoop]
      | succ fuel =>
        cases max with
        | zero => simp [scanLoop]
        | succ max => simp [scanLoop, hstop]
    | cons a records ih =>
      intro fuel max hfuel
      have hhead := hparse a List.mem_cons_self (records.flatMap encode ++ tail)
      have hlt := sc.shrinks hhead
      rw [List.flatMap_cons, List.append_assoc] at hfuel ⊢
      cases fuel with
      | zero => omega
      | succ fuel =>
        cases max with
        | zero => simp [scanLoop]
        | succ max =>
          simp only [scanLoop, hhead]
          rw [ih (fun b hb => hparse b (List.mem_cons_of_mem a hb)) fuel max (by omega)]
          rfl
  exact hloop _ _ (Nat.le_refl _)

/-- A reader of which no step gives a record reads none. -/
theorem records_scan_eq_nil (h : ∀ data rest a, sc.parse data ≠ some (some a, rest)) (max : Nat)
    (data : List β) : (scan sc max data).records = [] := by
  have hloop : ∀ fuel max data, (scanLoop sc fuel max data).records = [] := by
    intro fuel
    induction fuel with
    | zero =>
      intro max data
      rfl
    | succ fuel ih =>
      intro max data
      cases max with
      | zero => rfl
      | succ max =>
        rw [scanLoop]
        split
        · rfl
        · rename_i a rest hparse
          exact absurd hparse (h data rest a)
        · exact ih _ _
  exact hloop _ _ _

end

end Scan
