import Bitdex.Write.Mutation

/-!
# `Write.Grouping` — does it matter where the op stream is cut?

The flush thread drains whatever the op channel holds, so the ops of several writes can meet in one batch and the ops
of one write can be spread over several. The reference is one batch per write. For each bit the two runs agree exactly
when the last batch that touches the bit settles on the same value as the last write that touches it
(`sameSlot_iff_settlesAlike`). They can differ: two writes in one batch leave the values of both documents set
(`sameSlot_fails_two_puts`).
-/

namespace Bitdex

open IndexState

/-! ## Writes to one slot -/

/-- A document-level write; a `put` carries the clock it reads. -/
inductive SlotWrite where
  | put (doc : Document) (now : UInt64)
  | delete

namespace SlotWrite

variable (cfg : Config) (defaults : Document) (slot : UInt32)

/-- The ops of a write, from the index and the stored document just before it. -/
def ops (st : IndexState) (stored : Option Document) : SlotWrite → List MutationOp
  | .put doc now =>
    let isUpsert := st.slots.isAlive slot
    let wasAllocated := !isUpsert && st.slots.wasEverAllocated slot
    let oldDoc := if isUpsert || wasAllocated then stored else none
    diffDocument slot oldDoc doc cfg isUpsert now
  | .delete => deleteOps slot stored cfg

/-- The stored document after a write; a delete leaves it in place. -/
def storedAfter (stored : Option Document) : SlotWrite → Option Document
  | .put doc _ => some (doc.readBack defaults)
  | .delete => stored

/-- The ops of successive writes, each applied in a batch of its own before the next one. -/
def writeOps (st : IndexState) (stored : Option Document) : List SlotWrite → List (List MutationOp)
  | [] => []
  | w :: ws =>
    let ops := w.ops cfg slot st stored
    ops :: writeOps (st.applyOps ops) (w.storedAfter defaults stored) ws

end SlotWrite

/-! ## What the index says about a slot -/

/-- Two index states index a slot alike: they agree on its filter bits (null and shadow keys too), every bit of its
sort values and on being alive. -/
structure SameBits (slot : UInt32) (st st' : IndexState) : Prop where
  filters : ∀ field value, slot ∈ st.filters.bits field value ↔ slot ∈ st'.filters.bits field value
  sorts : ∀ field bit, slot ∈ st.sorts.layer field bit ↔ slot ∈ st'.sorts.layer field bit
  alive : st.slots.isAlive slot = st'.slots.isAlive slot

/-- They also agree on its scheduled activations. -/
structure SameSlot (slot : UInt32) (st st' : IndexState) : Prop extends SameBits slot st st' where
  deferred : st.slots.deferredAt slot = st'.slots.deferredAt slot

theorem isAlive_eq_bit (st : IndexState) (slot : UInt32) : st.slots.isAlive slot = st.bit .alive slot := by
  rw [Bool.eq_iff_iff]
  exact (VersionedBitmap.contains_iff _).trans decide_eq_true_iff.symm

theorem sameBits_iff {slot : UInt32} {st st' : IndexState} :
    SameBits slot st st' ↔ ∀ t, st.bit t slot = st'.bit t slot := by
  constructor
  · intro h t
    cases t with
    | filter field value => exact decide_eq_decide.mpr (h.filters field value)
    | sort field bitLayer => exact decide_eq_decide.mpr (h.sorts field bitLayer)
    | alive => rw [← isAlive_eq_bit, ← isAlive_eq_bit, h.alive]
  · intro hbits
    refine ⟨?_, ?_, ?_⟩
    · exact fun field value => decide_eq_decide.mp (hbits (.filter field value))
    · exact fun field bit => decide_eq_decide.mp (hbits (.sort field bit))
    · rw [isAlive_eq_bit, isAlive_eq_bit, hbits .alive]

/-! ## Cutting the stream -/

/-- A bit settles alike in two cuts of an op stream: the last batches of the two that touch it leave the same value. A
batch leaves a filter or sort bit set if any of its ops sets it, and an alive bit cleared if any clears it. -/
def SettlesAlike (t : Target) (slot : UInt32) (cut cut' : List (List MutationOp)) : Prop :=
  Settle.outcome t.preferred (cut.map (bitWrites t slot)) =
    Settle.outcome t.preferred (cut'.map (bitWrites t slot))

instance (t : Target) (slot : UInt32) (cut cut' : List (List MutationOp)) :
    Decidable (SettlesAlike t slot cut cut') :=
  inferInstanceAs (Decidable (_ = _))

theorem flatten_map_bitWrites (t : Target) (slot : UInt32) (cut : List (List MutationOp)) :
    (cut.map (bitWrites t slot)).flatten = bitWrites t slot cut.flatten := by
  induction cut with
  | nil => rfl
  | cons ops cut ih => simp [bitWrites, ih, List.filterMap_append]

/-- Two cuts of one stream leave a slot in the same state exactly when every bit settles alike. -/
theorem sameSlot_applyAll_iff {st : IndexState} {slot : UInt32} {cut cut' : List (List MutationOp)}
    (hcut : cut.flatten = cut'.flatten) :
    SameSlot slot (st.applyAll cut) (st.applyAll cut') ↔ ∀ t, st.Has t → SettlesAlike t slot cut cut' := by
  have hwrites : ∀ t, (cut.map (bitWrites t slot)).flatten = (cut'.map (bitWrites t slot)).flatten := by
    intro t
    rw [flatten_map_bitWrites, flatten_map_bitWrites, hcut]
  constructor
  · intro hsame t hhas
    have hbit := sameBits_iff.mp hsame.toSameBits t
    rw [bit_applyAll hhas, bit_applyAll hhas] at hbit
    exact (Settle.run_eq_run_iff (hwrites t)).mp hbit
  · intro halike
    refine ⟨sameBits_iff.mpr fun t => ?_, ?_⟩
    · by_cases hhas : st.Has t
      · rw [bit_applyAll hhas, bit_applyAll hhas]
        exact (Settle.run_eq_run_iff (hwrites t)).mpr (halike t hhas)
      · rw [bit_eq_false (has_applyAll.not.mpr hhas),
          bit_eq_false (has_applyAll.not.mpr hhas)]
    · rw [deferredAt_applyAll, deferredAt_applyAll, hcut]

/-- **Batching against one batch per write.** For any writes to a slot, from any index state and stored document, a
cut of their op stream into batches gives the slot the state of one batch per write exactly when every bit the index
has settles alike. -/
theorem sameSlot_iff_settlesAlike (cfg : Config) (defaults : Document) (slot : UInt32)
    (st : IndexState) (stored : Option Document) (writes : List SlotWrite) (batches : List (List MutationOp))
    (hcut : batches.flatten = (SlotWrite.writeOps cfg defaults slot st stored writes).flatten) :
    SameSlot slot (st.applyAll batches) (st.applyAll (SlotWrite.writeOps cfg defaults slot st stored writes)) ↔
      ∀ t, st.Has t → SettlesAlike t slot batches (SlotWrite.writeOps cfg defaults slot st stored writes) :=
  sameSlot_applyAll_iff hcut

section Samples

/-- An empty index with one filter field. -/
def oneFieldState : IndexState := ⟨.new, ⟨(∅ : HashMap String FilterField).insert "f" (.new {})⟩, ⟨∅⟩⟩

def oneFieldConfig : Config := ⟨["f"], [], [], none, by decide, by decide⟩

def oneFieldDoc (v : Int64) : Document := fun name =>
  if name = "f" then some (.single (.integer v)) else none

/-- Two puts to an empty slot, write by write. -/
def twoPutOps : List (List MutationOp) :=
  SlotWrite.writeOps oneFieldConfig (fun _ => none) 0 oneFieldState none
    [.put (oneFieldDoc 1) 0, .put (oneFieldDoc 2) 0]

theorem sameSlot_iff_settlesAlike_two_puts : twoPutOps.flatten.map (fun op => [op]) ≠ twoPutOps ∧
      (SameSlot 0 (oneFieldState.applyAll (twoPutOps.flatten.map fun op => [op])) (oneFieldState.applyAll twoPutOps) ↔
        ∀ t, oneFieldState.Has t → SettlesAlike t 0 (twoPutOps.flatten.map fun op => [op]) twoPutOps) :=
  ⟨by decide +kernel, sameSlot_iff_settlesAlike oneFieldConfig (fun _ => none) 0 oneFieldState none
      [.put (oneFieldDoc 1) 0, .put (oneFieldDoc 2) 0] _ (by decide +kernel)⟩

/-- Joined in one batch, the two puts leave the slot under both values: the batch removes the first
value before it inserts it. -/
theorem sameSlot_fails_two_puts : [twoPutOps.flatten].flatten = twoPutOps.flatten ∧
      0 ∈ (oneFieldState.applyAll [twoPutOps.flatten]).filters.bits "f" 1 ∧
      0 ∉ (oneFieldState.applyAll twoPutOps).filters.bits "f" 1 ∧
      ¬SameSlot 0 (oneFieldState.applyAll [twoPutOps.flatten]) (oneFieldState.applyAll twoPutOps) := by
  have hjoined : 0 ∈ (oneFieldState.applyAll [twoPutOps.flatten]).filters.bits "f" 1 := by
    decide +kernel
  have hserial : 0 ∉ (oneFieldState.applyAll twoPutOps).filters.bits "f" 1 := by decide +kernel
  exact ⟨by decide +kernel, hjoined, hserial, fun h => hserial ((h.filters "f" 1).mp hjoined)⟩

end Samples

end Bitdex
