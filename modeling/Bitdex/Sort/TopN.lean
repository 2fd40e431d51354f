import Bitdex.Sort.Rank

/-!
# `Sort.TopN` — bit-sliced top-N retrieval

`SortField::top_n` (`sort.rs`) finds the first `limit` candidates after a cursor without reading any value: a cursor
filter and a bifurcation each walk the bit layers from the most significant one with set operations, and only the
slots that are left are sorted.

Both walks are proved by induction on the layers still to read: what has been read so far is the same for every slot
of the working set, so the order among them is the order of the remaining bits.
-/

namespace Bitdex

open Enumeration List SortField
open Finset (mem_inter mem_sdiff mem_union)

/-- `RoaringBitmap::iter`: ascending slots. -/
def Bitmap.iter (s : Bitmap) : List UInt32 := enumerate (· ≤ ·) s

@[simp] theorem Bitmap.mem_iter {s : Bitmap} {x : UInt32} : x ∈ Bitmap.iter s ↔ x ∈ s := by
  simp [Bitmap.iter]

/-- The slots that have the better bit value at a layer. -/
def preferredSide (descending : Bool) (remaining layer : Bitmap) : Bitmap :=
  if descending then remaining ∩ layer else remaining \ layer

/-- The bifurcation loop, most significant layer first: confirmed winners, working set and number of slots still
wanted. -/
def bifurcateLoop (descending : Bool) :
    List Bitmap → Bitmap → Bitmap → Nat → Bitmap × Bitmap × Nat
  | [], result, remaining, k => (result, remaining, k)
  | layer :: rest, result, remaining, k =>
    if k = 0 ∨ remaining = ∅ then (result, remaining, k)
    else
      let preferred := preferredSide descending remaining layer
      if preferred.card = 0 then bifurcateLoop descending rest result remaining k
      else if preferred.card ≥ k then bifurcateLoop descending rest result preferred k
      else bifurcateLoop descending rest (result ∪ preferred) (remaining \ preferred)
        (k - preferred.card)

/-- After the last layer the rest has equal values; those that sort first among ties are taken. -/
def takeTies (descending : Bool) : Bitmap × Bitmap × Nat → Bitmap
  | (result, remaining, k) =>
    if k > 0 ∧ remaining ≠ ∅ then
      let ties := if descending then (Bitmap.iter remaining).reverse else Bitmap.iter remaining
      result ∪ (ties.take k).toFinset
    else result

/-- The first `limit` candidates, as a set. -/
def bifurcateWithLayers (layers : List Bitmap) (candidates : Bitmap) (limit : Nat)
    (descending : Bool) : Bitmap :=
  if candidates.card ≤ limit then candidates
  else takeTies descending (bifurcateLoop descending layers.reverse ∅ candidates limit)

/-- The cursor loop, most significant layer first: slots confirmed after the cursor and those equal to it so far. -/
def cursorLoop (descending : Bool) (cursorValue : Nat) :
    List Bitmap → Bitmap → Bitmap → Bitmap × Bitmap
  | [], confirmed, equal => (confirmed, equal)
  | layer :: rest, confirmed, equal =>
    if equal = ∅ then (confirmed, equal)
    else
      -- the bit of this layer; a `u32` shift masks its amount to five bits
      let cursorBitSet := cursorValue.testBit (rest.length % 32)
      if descending then
        if cursorBitSet then
          cursorLoop descending cursorValue rest (confirmed ∪ (equal \ layer)) (equal ∩ layer)
        else cursorLoop descending cursorValue rest confirmed (equal \ layer)
      else
        if cursorBitSet then cursorLoop descending cursorValue rest confirmed (equal ∩ layer)
        else cursorLoop descending cursorValue rest (confirmed ∪ (equal ∩ layer)) (equal \ layer)

/-- The slot tiebreaker on what is still equal after the last layer. -/
def tiebreak (descending : Bool) (cursorSlotId : UInt32) : Bitmap × Bitmap → Bitmap
  | (confirmed, equal) =>
    if equal = ∅ then confirmed
    else
      confirmed ∪
        if descending then equal.filter (fun s => ¬ cursorSlotId ≤ s)
        else equal.filter (fun s => ¬ s ≤ cursorSlotId)

/-- The candidates after a cursor. -/
def applyCursorFilterWithLayers (layers : List Bitmap) (candidates : Bitmap) (descending : Bool)
    (cursorSortValue : Nat) (cursorSlotId : UInt32) : Bitmap :=
  tiebreak descending cursorSlotId
    (cursorLoop descending (cursorSortValue % 2 ^ 32) layers.reverse ∅ candidates)

def reconstructValueWithLayers (slot : UInt32) (layers : List Bitmap) : Nat :=
  reconstructFrom (slotBits layers slot) 0 0

/-- The final slots sorted by reconstructed value and slot. -/
def orderResultsWithLayers (layers : List Bitmap) (resultBitmap : Bitmap) (descending : Bool) :
    List UInt32 :=
  (Bitmap.iter resultBitmap).insertionSort
    (rankLe descending fun slot => reconstructValueWithLayers slot layers)

namespace SortField

/-- The candidates after the cursor, if there is one. -/
def effectiveCandidates (sf : SortField) (candidates : Bitmap) (descending : Bool) :
    Option Position → Bitmap
  | some (cursorSortValue, cursorSlotId) =>
    applyCursorFilterWithLayers sf.fusedLayers candidates descending cursorSortValue cursorSlotId
  | none => candidates

/-- The first `limit` candidates after a cursor. -/
def topN (sf : SortField) (candidates : Bitmap) (limit : Nat) (descending : Bool)
    (cursor : Option Position) : List UInt32 :=
  if candidates = ∅ ∨ limit = 0 then []
  else
    let candidates := sf.effectiveCandidates candidates descending cursor
    if candidates = ∅ then []
    else
      let topNBitmap := bifurcateWithLayers sf.fusedLayers candidates limit descending
      orderResultsWithLayers sf.fusedLayers topNBitmap descending

end SortField

/-! ## Values over the layers still to read -/

/-- The number the remaining layers (most significant first) give a slot. -/
def valueIn (layers : List Bitmap) (slot : UInt32) : Nat := msbValue (slotBits layers slot)

@[simp] theorem valueIn_nil (slot : UInt32) : valueIn [] slot = 0 := rfl

theorem valueIn_cons (layer : Bitmap) (rest : List Bitmap) (slot : UInt32) :
    valueIn (layer :: rest) slot = (if slot ∈ layer then 2 ^ rest.length else 0) + valueIn rest slot := by
  simp [valueIn, slotBits, msbValue]

theorem valueIn_lt (layers : List Bitmap) (slot : UInt32) : valueIn layers slot < 2 ^ layers.length := by
  have h := msbValue_lt (slotBits layers slot)
  simpa [valueIn, slotBits] using h

variable {layers : List Bitmap}

theorem reconstructValueWithLayers_eq (h : layers.length ≤ 32) (slot : UInt32) :
    reconstructValueWithLayers slot layers = valueIn layers.reverse slot := by
  have hlen : (slotBits layers slot).length ≤ 32 := by
    simpa [slotBits] using h
  rw [reconstructValueWithLayers, reconstructFrom_eq _ 0 0 (by simp) (by simpa using hlen)]
  simp [valueIn, slotBits, map_reverse]

/-! ## The cursor filter -/

/-- For any working set: the confirmed slots gain those of it whose remaining bits lie after the cursor's, and the
rest has the cursor's bits. -/
theorem cursorLoop_spec (descending : Bool) (cv : Nat) (layers : List Bitmap)
    (hlen : layers.length ≤ 32) (confirmed equal : Bitmap) (x : UInt32) :
    (x ∈ (cursorLoop descending cv layers confirmed equal).1 ↔ x ∈ confirmed ∨ (x ∈ equal ∧
        if descending then valueIn layers x < cv % 2 ^ layers.length
        else cv % 2 ^ layers.length < valueIn layers x)) ∧
    (x ∈ (cursorLoop descending cv layers confirmed equal).2 ↔
      x ∈ equal ∧ valueIn layers x = cv % 2 ^ layers.length) := by
  induction layers generalizing confirmed equal with
  | nil => simp [cursorLoop, Nat.mod_one]
  | cons layer rest ih =>
    rw [length_cons] at hlen
    have hrest : rest.length ≤ 32 := by omega
    have hbit : rest.length % 32 = rest.length := Nat.mod_eq_of_lt (by omega)
    have hmod : cv % 2 ^ (rest.length + 1) =
        cv % 2 ^ rest.length + 2 ^ rest.length * (cv.testBit rest.length).toNat := by
      rw [Nat.mod_pow_succ, Nat.toNat_testBit]
    have hlt := valueIn_lt rest x
    have hcv : cv % 2 ^ rest.length < 2 ^ rest.length := Nat.mod_lt _ (Nat.two_pow_pos _)
    rw [valueIn_cons]
    unfold cursorLoop
    by_cases hempty : equal = ∅
    · simp [hempty]
    · rw [if_neg hempty, hbit]
      -- in each of the four cases the layer splits the working set at this bit
      cases descending <;> cases hb : cv.testBit rest.length <;>
        simp only [if_true, if_false, Bool.false_eq_true] <;>
        rw [(ih hrest _ _).2] <;>
        simp only [mem_inter, mem_sdiff] <;>
        by_cases hx : x ∈ layer <;> simp only [hx, if_true, if_false] <;>
        constructor <;> grind

/-- **The cursor filter** keeps the candidates strictly after the cursor, of which the layers see the low
bits only. -/
theorem applyCursorFilter_eq (hlen : layers.length ≤ 32) (candidates : Bitmap) (descending : Bool) (v : Nat)
    (s : UInt32) : applyCursorFilterWithLayers layers candidates descending v s = candidates.filter
        (afterCursor descending (valueIn layers.reverse) (some (v % 2 ^ layers.length, s))) := by
  have hmod : v % 2 ^ 32 % 2 ^ layers.reverse.length = v % 2 ^ layers.length := by
    rw [length_reverse]
    exact Nat.mod_mod_of_dvd v (Nat.pow_dvd_pow 2 hlen)
  have hlen' : layers.reverse.length ≤ 32 := by rwa [length_reverse]
  ext x
  have hspec := cursorLoop_spec descending (v % 2 ^ 32) layers.reverse hlen' ∅ candidates x
  unfold applyCursorFilterWithLayers tiebreak
  generalize cursorLoop descending (v % 2 ^ 32) layers.reverse ∅ candidates = p at hspec
  obtain ⟨confirmed, equal⟩ := p
  simp only [Finset.mem_filter, afterCursor, posLt]
  by_cases hempty : equal = ∅
  · cases descending <;> grind
  · cases descending with
    | true =>
      grind
    | false =>
      grind

/-! ## The bifurcation -/

variable (descending : Bool) (remaining layer : Bitmap)

theorem preferredSide_subset : preferredSide descending remaining layer ⊆ remaining := by
  unfold preferredSide
  split
  · exact Finset.inter_subset_left
  · exact Finset.sdiff_subset

/-- The preferred side comes before the other one: the layer's bit outweighs all lower ones. -/
theorem preferredSide_before (rest : List Bitmap) :
    Before (rankLe descending (valueIn (layer :: rest))) (preferredSide descending remaining layer)
      (remaining \ preferredSide descending remaining layer) := by
  intro a ha b hb
  have hva := valueIn_lt rest a
  have hvb := valueIn_lt rest b
  have hab : a ≠ b := by
    rintro rfl
    exact (mem_sdiff.mp hb).2 ha
  refine ⟨?_, hab⟩
  unfold rankLe posLe
  rw [valueIn_cons, valueIn_cons]
  cases descending with
  | true =>
    simp only [preferredSide, if_true, mem_inter, mem_sdiff, not_and] at ha hb
    rw [if_pos rfl, if_pos ha.2, if_neg (hb.2 hb.1)]
    left
    omega
  | false =>
    simp only [preferredSide, if_false, Bool.false_eq_true, mem_sdiff, not_and, not_not] at ha hb
    rw [if_neg (by simp), if_neg ha.2, if_pos (hb.2 hb.1)]
    left
    omega

/-- Among slots on one side of a layer the layer does not decide the order. -/
theorem enumerate_one_side (rest : List Bitmap) {s : Bitmap} (hside : (∀ x ∈ s, x ∈ layer) ∨ (∀ x ∈ s, x ∉ layer)) :
    enumerate (rankLe descending (valueIn (layer :: rest))) s = enumerate (rankLe descending (valueIn rest)) s := by
  apply enumerate_congr
  intro a ha b hb
  unfold rankLe posLe
  rw [valueIn_cons, valueIn_cons]
  rcases hside with hin | hout
  · rw [if_pos (hin a ha), if_pos (hin b hb)]
    simp
  · rw [if_neg (hout a ha), if_neg (hout b hb)]
    simp

theorem preferredSide_one_side : (∀ x ∈ preferredSide descending remaining layer, x ∈ layer) ∨
      (∀ x ∈ preferredSide descending remaining layer, x ∉ layer) := by
  cases descending with
  | true => exact Or.inl fun x hx => (mem_inter.mp hx).2
  | false => exact Or.inr fun x hx => (mem_sdiff.mp hx).2

theorem otherSide_one_side : (∀ x ∈ remaining \ preferredSide descending remaining layer, x ∈ layer) ∨
      (∀ x ∈ remaining \ preferredSide descending remaining layer, x ∉ layer) := by
  cases descending with
  | true =>
    right
    intro x hx hxl
    simp only [preferredSide, if_true, mem_sdiff, mem_inter, not_and] at hx
    exact hx.2 hx.1 hxl
  | false =>
    left
    intro x hx
    simp only [preferredSide, if_false, Bool.false_eq_true, mem_sdiff, not_and, not_not] at hx
    exact hx.2 hx.1

/-- With equal values the order is the slot order of the direction. -/
theorem enumerate_ties (s : Bitmap) :
    enumerate (rankLe descending (valueIn [])) s = if descending then (Bitmap.iter s).reverse else Bitmap.iter s := by
  symm
  cases descending with
  | true =>
    rw [if_pos rfl]
    apply eq_enumerate
    · rw [pairwise_reverse]
      exact (pairwise_enumerate s).imp fun hab => Or.inr ⟨rfl, hab⟩
    · exact nodup_reverse.mpr (nodup_enumerate s)
    · intro x
      simp [Bitmap.iter]
  | false =>
    apply eq_enumerate
    · exact (pairwise_enumerate s).imp fun hab => Or.inr ⟨rfl, hab⟩
    · exact nodup_enumerate s
    · intro x
      simp [Bitmap.iter]

/-- **The bifurcation loop** adds the first `k` slots of any working set in the order of the layers still to read. -/
theorem takeTies_bifurcateLoop (layers : List Bitmap) (result remaining : Bitmap) (k : Nat) :
    takeTies descending (bifurcateLoop descending layers result remaining k) =
      result ∪ ((enumerate (rankLe descending (valueIn layers)) remaining).take k).toFinset := by
  induction layers generalizing result remaining k with
  | nil =>
    rw [bifurcateLoop, takeTies, enumerate_ties]
    by_cases hk : k > 0 ∧ remaining ≠ ∅
    · rw [if_pos hk]
    · rw [← enumerate_ties]
      rcases not_and_or.mp hk with hk0 | hempty
      · simp [Nat.le_zero.mp (not_lt.mp hk0)]
      · simp [not_not.mp hempty]
  | cons layer rest ih =>
    unfold bifurcateLoop
    by_cases hstop : k = 0 ∨ remaining = ∅
    · -- the loop breaks: nothing is wanted, or nothing is left
      rw [takeTies]
      rcases hstop with hk0 | hempty
      · simp [hk0]
      · simp [hempty]
    · rw [if_neg hstop]
      set preferred := preferredSide descending remaining layer with hpref
      have hsub : preferred ⊆ remaining := preferredSide_subset descending remaining layer
      have hbefore := preferredSide_before descending remaining layer rest
      have hsideP := preferredSide_one_side descending remaining layer
      have hsideQ := otherSide_one_side descending remaining layer
      rw [← hpref] at hbefore hsideP hsideQ
      show takeTies descending (if preferred.card = 0 then _ else if preferred.card ≥ k then _ else _)
        = _
      by_cases hzero : preferred.card = 0
      · -- nobody has the better bit: the layer decides nothing
        have hempty : preferred = ∅ := Finset.card_eq_zero.mp hzero
        rw [hempty, Finset.sdiff_empty] at hsideQ
        rw [if_pos hzero, ih, enumerate_one_side descending layer rest hsideQ]
      · rw [if_neg hzero]
        by_cases hge : preferred.card ≥ k
        · -- the better side alone has enough
          rw [if_pos hge, ih, take_enumerate_of_before hsub hbefore hge,
            enumerate_one_side descending layer rest hsideP]
        · -- the better side wins whole; the remainder is wanted from the other side
          rw [if_neg hge, ih, take_enumerate_of_before_card_le hsub hbefore (by omega),
            enumerate_one_side descending layer rest hsideQ]
          ext x
          simp only [mem_union, mem_toFinset, mem_append, mem_enumerate]
          tauto

theorem bifurcateWithLayers_eq (layers : List Bitmap) (candidates : Bitmap) (limit : Nat) (descending : Bool) :
    bifurcateWithLayers layers candidates limit descending =
      ((enumerate (rankLe descending (valueIn layers.reverse)) candidates).take limit).toFinset := by
  unfold bifurcateWithLayers
  by_cases hcard : candidates.card ≤ limit
  · rw [if_pos hcard, take_of_length_le (by rwa [length_enumerate])]
    ext x
    simp
  · rw [if_neg hcard, takeTies_bifurcateLoop, Finset.empty_union]

/-! ## Top-N -/

/-- Sorting the winners lists them in rank order. -/
theorem orderResultsWithLayers_eq (hlen : layers.length ≤ 32) (resultBitmap : Bitmap) (descending : Bool) :
    orderResultsWithLayers layers resultBitmap descending =
      enumerate (rankLe descending (valueIn layers.reverse)) resultBitmap := by
  have hvalue : (fun slot => reconstructValueWithLayers slot layers) = valueIn layers.reverse :=
    funext fun slot => reconstructValueWithLayers_eq hlen slot
  unfold orderResultsWithLayers
  rw [hvalue]
  apply eq_enumerate
  · exact pairwise_insertionSort _ _
  · exact (perm_insertionSort _ _).nodup_iff.mpr (nodup_enumerate resultBitmap)
  · intro x
    rw [mem_insertionSort]
    exact mem_enumerate

/-! ## Results are candidates

This holds for any number of layers and any cursor. -/

variable {descending} {candidates : Bitmap} {x : UInt32}

/-- The cursor loop only moves slots that it was given. -/
theorem mem_cursorLoop {cursorValue : Nat} {confirmed equal : Bitmap}
    (h : x ∈ (cursorLoop descending cursorValue layers confirmed equal).1 ∨
      x ∈ (cursorLoop descending cursorValue layers confirmed equal).2) : x ∈ confirmed ∨ x ∈ equal := by
  induction layers generalizing confirmed equal with
  | nil => exact h
  | cons layer rest ih =>
    simp only [cursorLoop] at h
    split_ifs at h
    · exact h
    all_goals
      have hkept := ih h
      simp only [mem_union, mem_sdiff, mem_inter] at hkept
      tauto

theorem mem_of_mem_applyCursorFilter {value : Nat} {slot : UInt32}
    (h : x ∈ applyCursorFilterWithLayers layers candidates descending value slot) : x ∈ candidates := by
  have hloop : ∀ out : Bitmap × Bitmap, x ∈ tiebreak descending slot out → x ∈ out.1 ∨ x ∈ out.2 := by
    intro ⟨confirmed, equal⟩ hx
    simp only [tiebreak] at hx
    split_ifs at hx
    · exact .inl hx
    all_goals
      rw [mem_union, Finset.mem_filter] at hx
      exact hx.imp_right And.left
  exact (mem_cursorLoop (hloop _ h)).resolve_left (Finset.notMem_empty x)

theorem SortField.mem_of_mem_topN {sf : SortField} {limit : Nat} {cursor : Option Position}
    (h : x ∈ sf.topN candidates limit descending cursor) : x ∈ candidates := by
  have heffective : ∀ {y}, y ∈ sf.effectiveCandidates candidates descending cursor → y ∈ candidates := by
    intro y hy
    cases cursor with
    | none => exact hy
    | some c => exact mem_of_mem_applyCursorFilter hy
  unfold topN at h
  split_ifs at h
  · cases h
  · simp only at h
    split_ifs at h
    · cases h
    · rw [orderResultsWithLayers, mem_insertionSort, Bitmap.mem_iter, bifurcateWithLayers_eq,
        mem_toFinset] at h
      exact heffective (mem_enumerate.mp (mem_of_mem_take h))

/-- A position of which only the low `n` bits of the value are read. -/
def cutTo (n : Nat) (p : Position) : Position := (p.1 % 2 ^ n, p.2)

theorem map_cutTo {n : Nat} {cursor : Option Position} (h : ∀ c, cursor = some c → c.1 < 2 ^ n) :
    cursor.map (cutTo n) = cursor := by
  cases hc : cursor with
  | none => rfl
  | some c => rw [Option.map_some, cutTo, Nat.mod_eq_of_lt (h c hc)]

/-- For any cursor, the result is the ranked candidates strictly after what the layers see of it, cut at `limit`. -/
theorem SortField.topN_cut (sf : SortField) (hbits : sf.numBits ≤ 32) (candidates : Bitmap)
    (limit : Nat) (descending : Bool) (cursor : Option Position) :
    sf.topN candidates limit descending cursor = (ranked descending sf.reconstructValue (candidates.filter
        (afterCursor descending sf.reconstructValue (cursor.map (cutTo sf.numBits))))).take limit := by
  have hlen : sf.fusedLayers.length ≤ 32 := by
    simpa [fusedLayers, numBits] using hbits
  have hvalue : sf.reconstructValue = valueIn sf.fusedLayers.reverse :=
    funext fun slot => sf.reconstructValue_eq hbits slot
  have hfilter : sf.effectiveCandidates candidates descending cursor = candidates.filter
      (afterCursor descending sf.reconstructValue (cursor.map (cutTo sf.numBits))) := by
    cases cursor with
    | none => exact (Finset.filter_true_of_mem fun _ _ => trivial).symm
    | some c =>
      have hwidth : sf.numBits = sf.fusedLayers.length := by simp [fusedLayers, numBits]
      rw [hvalue, hwidth]
      exact applyCursorFilter_eq hlen candidates descending c.1 c.2
  unfold topN
  by_cases hstop : candidates = ∅ ∨ limit = 0
  · rcases hstop with hempty | hzero
    · simp [hempty, ranked]
    · simp [hzero]
  · rw [if_neg hstop]
    simp only [hfilter]
    set after := candidates.filter
      (afterCursor descending sf.reconstructValue (cursor.map (cutTo sf.numBits))) with hafter
    by_cases hempty : after = ∅
    · simp [hempty, ranked]
    · rw [if_neg hempty, orderResultsWithLayers_eq hlen, bifurcateWithLayers_eq,
        enumerate_toFinset_take, ranked, hvalue]

theorem SortField.topN_eq (sf : SortField) (hbits : sf.numBits ≤ 32) (candidates : Bitmap)
    (limit : Nat) (descending : Bool) (cursor : Option Position)
    (hcursor : ∀ c, cursor = some c → c.1 < 2 ^ sf.numBits) :
    sf.topN candidates limit descending cursor = (ranked descending sf.reconstructValue
        (candidates.filter (afterCursor descending sf.reconstructValue cursor))).take limit := by
  rw [sf.topN_cut hbits, map_cutTo hcursor]

/-- **Top-N is exact.** With at most 32 layers of any content and a cursor below `2 ^ num_bits`, the
result is the first `limit` candidates strictly after the cursor, in (value, slot) order and without
duplicates. -/
theorem SortField.topN_exact (sf : SortField) (hbits : sf.numBits ≤ 32) (candidates : Bitmap)
    (limit : Nat) (descending : Bool) (cursor : Option Position)
    (hcursor : ∀ c, cursor = some c → c.1 < 2 ^ sf.numBits) :
    let result := sf.topN candidates limit descending cursor
    result = (ranked descending sf.reconstructValue
        (candidates.filter (afterCursor descending sf.reconstructValue cursor))).take limit ∧
      result.Nodup ∧
      result.Pairwise fun a b =>
        posLt descending (sf.reconstructValue a, a) (sf.reconstructValue b, b) := by
  intro result
  have heq : result = _ := sf.topN_eq hbits candidates limit descending cursor hcursor
  have hnodup : result.Nodup := by
    rw [heq]
    exact (nodup_enumerate _).sublist (take_sublist limit _)
  have hsorted : result.Pairwise (rankLe descending sf.reconstructValue) := by
    rw [heq]
    exact (pairwise_enumerate _).sublist (take_sublist limit _)
  refine ⟨heq, hnodup, (hsorted.and hnodup).imp ?_⟩
  rintro a b ⟨hle, hne⟩
  rw [posLt_iff_not_posLe]
  exact fun hba => hne (antisymm_of (rankLe descending sf.reconstructValue) hle hba)

/-- Three slots with values 2, 1, 2: a two-layer field whose second layer is still in the diff. -/
def sampleSortField : SortField := ⟨[.new {1}, (VersionedBitmap.newEmpty.insert 0).insert 2]⟩

/-- Descending from the cursor (2, 2), the tie at slot 0 comes next, then slot 1. -/
theorem SortField.topN_exact_sample : sampleSortField.numBits ≤ 32 ∧
    sampleSortField.topN {0, 1, 2} 5 true (some (2, 2)) = [0, 1] := by
  have hbits : sampleSortField.numBits ≤ 32 := by decide
  have hcursor : ∀ c, some ((2, 2) : Position) = some c → c.1 < 2 ^ sampleSortField.numBits := by
    rintro c hc
    cases hc
    decide
  refine ⟨hbits, ?_⟩
  rw [(sampleSortField.topN_exact hbits {0, 1, 2} 5 true (some (2, 2)) hcursor).1]
  decide +kernel

end Bitdex
