import Bitdex.Library.Assoc
import Bitdex.Bitmap

/-!
# `Index` — filter fields, sort fields and the slot allocator

The parts of an index snapshot (`filter.rs`, `sort.rs`, `slot.rs`): a `FilterField` keeps one versioned bitmap per
distinct value, under a `u64` key; a `SortField` one per bit of the sort value, least significant first; the
`SlotAllocator` the alive bitmap and the slots that wait for activation.

Locks, reference counts, the dirty-value side index and the fused-layer memo (`Index.Fused`) change no bits that a
reader sees. Hash maps are association lists with distinct keys; the only iterations over one (`range_scan`) build a
union.
-/

namespace Bitdex

open VersionedBitmap List Option

/-- A hash map: an association list with distinct keys. -/
abbrev HashMap (κ β : Type) := AList (fun _ : κ => β)

/-- Change the value under a key in place; a missing key is ignored. -/
def HashMap.alter {κ β : Type} [DecidableEq κ] (m : HashMap κ β) (k : κ) (f : β → β) : HashMap κ β :=
  match m.lookup k with
  | some v => m.insert k (f v)
  | none => m

theorem HashMap.lookup_alter {κ β : Type} [DecidableEq κ] (m : HashMap κ β) (k : κ) (f : β → β) (k' : κ) :
    (HashMap.alter m k f).lookup k' = if k' = k then (m.lookup k).map f else m.lookup k' := by
  unfold HashMap.alter
  cases h : m.lookup k with
  | none =>
    by_cases hk : k' = k
    · subst hk
      simp [h]
    · simp [hk]
  | some v => exact AList.lookup_insert_eq_ite

/-! ## Filter fields -/

/-- Reserved bitmap key of the null values of a nullable filter field. -/
def nullBitmapKey : UInt64 := 0xffffffffffffffff

/-- The kinds of filter fields. -/
inductive FilterFieldType where
  | singleValue
  | multiValue
  | boolean
deriving DecidableEq, Repr

/-- The part of a filter field's configuration that reads and writes consult. -/
structure FilterFieldConfig where
  fieldType : FilterFieldType := .singleValue
  eagerLoad : Bool := false
  perValueLazy : Bool := false
  maxRangeScanValues : Option Nat := none
deriving DecidableEq, Repr

/-- One filter field: a bitmap per value. -/
structure FilterField where
  bitmaps : HashMap UInt64 VersionedBitmap
  config : FilterFieldConfig

namespace FilterField

variable (ff : FilterField)

/-- A field without values. -/
def new (config : FilterFieldConfig) : FilterField := ⟨∅, config⟩

/-- Values are loaded one by one. -/
def isLazyField : Bool := !ff.config.eagerLoad && (decide (ff.config.fieldType = .multiValue) || ff.config.perValueLazy)

/-- The state a value's bitmap starts in when an insert creates it. -/
def newInsertedVb : VersionedBitmap := if ff.isLazyField then .newUnloaded else .newEmpty

/-- The bitmap of a value. -/
def getVersioned (value : UInt64) : Option VersionedBitmap := ff.bitmaps.lookup value

/-- Set slots under a value. -/
def insertBulk (value : UInt64) (slots : List UInt32) : FilterField :=
  let vb := (ff.getVersioned value).getD ff.newInsertedVb
  { ff with bitmaps := ff.bitmaps.insert value (vb.insertBulk slots) }

/-- Removing from a value that is not in memory creates an unloaded placeholder. -/
def removeBulk (value : UInt64) (slots : List UInt32) : FilterField :=
  let vb := (ff.getVersioned value).getD .newUnloaded
  { ff with bitmaps := ff.bitmaps.insert value (vb.removeBulk slots) }

/-- The size of a value's base. -/
def cardinality (value : UInt64) : Nat :=
  match ff.getVersioned value with
  | some vb => vb.baseLen
  | none => 0

def loadedValueCount : Nat := ff.bitmaps.entries.length

/-- The slots stored under a bitmap key; a missing bitmap stores none. -/
def bits (value : UInt64) : Bitmap :=
  match ff.getVersioned value with
  | some vb => vb.fused
  | none => ∅

variable {value key : UInt64} {slots : List UInt32} {x : UInt32} {vb : VersionedBitmap}

theorem bits_of_some {ff : FilterField} (h : ff.getVersioned value = some vb) : ff.bits value = vb.fused := by
  simp [bits, h]

theorem bits_of_none {ff : FilterField} (h : ff.getVersioned value = none) : ff.bits value = ∅ := by
  simp [bits, h]

theorem getD_bits (value : UInt64) : ((ff.getVersioned value).map fused).getD ∅ = ff.bits value := by
  unfold bits
  cases ff.getVersioned value <;> rfl

theorem fused_getD_newInsertedVb (value : UInt64) :
    ((ff.getVersioned value).getD ff.newInsertedVb).fused = ff.bits value := by
  unfold bits newInsertedVb newEmpty
  cases ff.getVersioned value with
  | some vb => rfl
  | none =>
    split <;> simp

theorem fused_getD_newUnloaded (value : UInt64) :
    ((ff.getVersioned value).getD .newUnloaded).fused = ff.bits value := by
  unfold bits
  cases ff.getVersioned value with
  | some vb => rfl
  | none => simp

variable {ff}

theorem bits_insert :
    bits { ff with bitmaps := ff.bitmaps.insert value vb } key = if key = value then vb.fused else ff.bits key := by
  unfold bits getVersioned
  by_cases hk : key = value
  · rw [if_pos hk, hk, AList.lookup_insert]
  · rw [if_neg hk, AList.lookup_insert_ne hk]

theorem mem_bits_insertBulk :
    x ∈ (ff.insertBulk value slots).bits key ↔ (key = value ∧ x ∈ slots) ∨ x ∈ ff.bits key := by
  rw [insertBulk, bits_insert]
  split
  · next hk => simp [hk, mem_fused_insertBulk, fused_getD_newInsertedVb]
  · next hk => simp [hk]

theorem mem_bits_removeBulk :
    x ∈ (ff.removeBulk value slots).bits key ↔ ¬(key = value ∧ x ∈ slots) ∧ x ∈ ff.bits key := by
  rw [removeBulk, bits_insert]
  split
  · next hk => simp [hk, mem_fused_removeBulk, fused_getD_newUnloaded]
  · next hk => simp [hk]

end FilterField

/-- All filter fields, by name. -/
structure FilterIndex where
  fields : HashMap String FilterField

namespace FilterIndex

/-- The field of a name. -/
def getField (fi : FilterIndex) (name : String) : Option FilterField := fi.fields.lookup name

/-- Change a field in place; a name that is not a field is ignored. -/
def update (fi : FilterIndex) (name : String) (f : FilterField → FilterField) : FilterIndex :=
  ⟨HashMap.alter fi.fields name f⟩

/-- The slots stored under a key of a field; a missing field stores none. -/
def bits (fi : FilterIndex) (name : String) (value : UInt64) : Bitmap :=
  match fi.getField name with
  | some ff => ff.bits value
  | none => ∅

variable {fi : FilterIndex} {name n : String}

theorem bits_of_getField {ff : FilterField} (h : fi.getField name = some ff) (value : UInt64) :
    fi.bits name value = ff.bits value := by
  simp [bits, h]

theorem bits_of_getField_none (h : fi.getField name = none) (value : UInt64) : fi.bits name value = ∅ := by
  simp [bits, h]

theorem getField_update (fi : FilterIndex) (name : String) (f : FilterField → FilterField) (n : String) :
    (fi.update name f).getField n = if n = name then (fi.getField name).map f else fi.getField n :=
  HashMap.lookup_alter fi.fields name f n

theorem isSome_getField_update (fi : FilterIndex) (name : String) (f : FilterField → FilterField)
    (n : String) : ((fi.update name f).getField n).isSome = (fi.getField n).isSome := by
  rw [getField_update]
  split
  · next h => rw [h, isSome_map]
  · rfl

variable {value k : UInt64} {slots : List UInt32} {x : UInt32}

theorem mem_bits_update_insertBulk : x ∈ (fi.update name (·.insertBulk value slots)).bits n k ↔
      x ∈ fi.bits n k ∨ ((fi.getField n).isSome = true ∧ name = n ∧ value = k ∧ x ∈ slots) := by
  unfold bits
  rw [getField_update]
  by_cases hn : name = n
  · subst hn
    cases fi.getField name with
    | none => simp
    | some ff =>
      simp only [if_true, map_some, FilterField.mem_bits_insertBulk, isSome_some,
        true_and, eq_comm (a := value)]
      exact or_comm
  · simp [hn, Ne.symm hn]

theorem mem_bits_update_removeBulk : x ∈ (fi.update name (·.removeBulk value slots)).bits n k ↔
      x ∈ fi.bits n k ∧ ¬(name = n ∧ value = k ∧ x ∈ slots) := by
  unfold bits
  rw [getField_update]
  by_cases hn : name = n
  · subst hn
    cases fi.getField name with
    | none => simp
    | some ff =>
      simp only [if_true, map_some, FilterField.mem_bits_removeBulk, true_and, eq_comm (a := value)]
      exact and_comm
  · simp [hn, Ne.symm hn]

end FilterIndex

/-! ## Sort fields -/

/-- One bitmap per bit position, least significant first. -/
structure SortField where
  bitLayers : List VersionedBitmap

namespace SortField

variable (sf : SortField)

/-- The width of the sort value. -/
def numBits : Nat := sf.bitLayers.length

/-- The fused view of every bit layer that one query shares. -/
def fusedLayers : List Bitmap := sf.bitLayers.map fused

/-- The loop over the layers, least significant first: `if contains { value |= 1 << bit }`. A `u32` shift masks to
five bits. -/
def reconstructFrom (slotIn : List Bool) (bit value : Nat) : Nat :=
  match slotIn with
  | [] => value
  | b :: rest => reconstructFrom rest (bit + 1) (if b then value ||| 1 <<< (bit % 32) else value)

/-- The stored sort value of a slot. -/
def reconstructValue (slot : UInt32) : Nat := reconstructFrom (sf.bitLayers.map (·.fusedContains slot)) 0 0

/-- No layer is an empty placeholder. -/
def isFullyLoaded : Bool := sf.bitLayers.all (·.isLoaded)

/-- Set a bit for some slots; a layer that does not exist is ignored. -/
def setLayerBulk (bit : Nat) (slots : List UInt32) : SortField := ⟨sf.bitLayers.modify bit (·.insertBulk slots)⟩

/-- Clear a bit for some slots. -/
def clearLayerBulk (bit : Nat) (slots : List UInt32) : SortField := ⟨sf.bitLayers.modify bit (·.removeBulk slots)⟩

/-- The slots whose value has the bit; a missing layer has none. -/
def layer (bit : Nat) : Bitmap :=
  match sf.bitLayers[bit]? with
  | some vb => vb.fused
  | none => ∅

@[simp] theorem numBits_setLayerBulk (bit : Nat) (slots : List UInt32) :
    (sf.setLayerBulk bit slots).numBits = sf.numBits := by
  simp [numBits, setLayerBulk]

@[simp] theorem numBits_clearLayerBulk (bit : Nat) (slots : List UInt32) :
    (sf.clearLayerBulk bit slots).numBits = sf.numBits := by
  simp [numBits, clearLayerBulk]

variable {sf} {bit b : Nat} {slots : List UInt32} {x : UInt32}

theorem lt_numBits_of_mem_layer (h : x ∈ sf.layer b) : b < sf.numBits := by
  by_contra hb
  rw [layer, getElem?_eq_none (by simpa [numBits] using hb)] at h
  cases h

/-- The value of a slot is read off its bits, layer by layer. -/
theorem reconstructValue_congr {sf' : SortField} (hnum : sf'.numBits = sf.numBits)
    (h : ∀ b, x ∈ sf'.layer b ↔ x ∈ sf.layer b) : sf'.reconstructValue x = sf.reconstructValue x := by
  have hbits : sf'.bitLayers.map (·.fusedContains x) = sf.bitLayers.map (·.fusedContains x) := by
    refine ext_getElem (by simpa [numBits] using hnum) fun b hb hb' => ?_
    have hlayer := h b
    rw [length_map] at hb hb'
    simp only [layer, getElem?_eq_getElem hb, getElem?_eq_getElem hb'] at hlayer
    rw [getElem_map, getElem_map, Bool.eq_iff_iff, fusedContains_iff, fusedContains_iff]
    exact hlayer
  rw [reconstructValue, hbits, reconstructValue]

theorem mem_layer_setLayerBulk :
    x ∈ (sf.setLayerBulk bit slots).layer b ↔ x ∈ sf.layer b ∨ (b < sf.numBits ∧ bit = b ∧ x ∈ slots) := by
  unfold layer setLayerBulk numBits
  rw [getElem?_modify]
  by_cases hb : b < sf.bitLayers.length
  · by_cases hbit : bit = b
    · simp [hbit, hb, mem_fused_insertBulk, or_comm]
    · simp [hbit]
  · simp [hb]

theorem mem_layer_clearLayerBulk :
    x ∈ (sf.clearLayerBulk bit slots).layer b ↔ x ∈ sf.layer b ∧ ¬(bit = b ∧ x ∈ slots) := by
  unfold layer clearLayerBulk
  rw [getElem?_modify]
  cases sf.bitLayers[b]? with
  | none => simp
  | some vb =>
    by_cases hbit : bit = b
    · simp [hbit, mem_fused_removeBulk, and_comm]
    · simp [hbit]

end SortField

/-- All sort fields by name. -/
structure SortIndex where
  fields : HashMap String SortField

namespace SortIndex

/-- The field of a name. -/
def getField (si : SortIndex) (name : String) : Option SortField := si.fields.lookup name

/-- Change a field in place; a name that is not a field is ignored. -/
def update (si : SortIndex) (name : String) (f : SortField → SortField) : SortIndex := ⟨HashMap.alter si.fields name f⟩

theorem getField_update (si : SortIndex) (name : String) (f : SortField → SortField) (n : String) :
    (si.update name f).getField n = if n = name then (si.getField name).map f else si.getField n :=
  HashMap.lookup_alter si.fields name f n

/-- The number of layers of a field, 0 if there is no such field. -/
def numBits (si : SortIndex) (name : String) : Nat := ((si.getField name).map (·.numBits)).getD 0

/-- The value of a slot in a field. -/
def reconstructValue (si : SortIndex) (name : String) (slot : UInt32) : Option Nat :=
  (si.getField name).map (·.reconstructValue slot)

/-- The slots whose value in the field has the bit. -/
def layer (si : SortIndex) (name : String) (bit : Nat) : Bitmap :=
  match si.getField name with
  | some sf => sf.layer bit
  | none => ∅

variable {si : SortIndex} {name n : String} {bit b : Nat} {slots : List UInt32} {x : UInt32}

theorem lt_numBits_of_mem_layer (h : x ∈ si.layer n b) : b < si.numBits n := by
  unfold layer at h
  unfold numBits
  split at h
  · next hf =>
    rw [hf]
    exact SortField.lt_numBits_of_mem_layer h
  · cases h

theorem numBits_update {f : SortField → SortField} (hf : ∀ sf, (f sf).numBits = sf.numBits) :
    (si.update name f).numBits n = si.numBits n := by
  unfold numBits
  rw [getField_update]
  by_cases hn : n = name
  · subst hn
    cases si.getField n <;> simp [hf]
  · simp [hn]

theorem mem_layer_update_set : x ∈ (si.update name (·.setLayerBulk bit slots)).layer n b ↔
      x ∈ si.layer n b ∨ (b < si.numBits n ∧ name = n ∧ bit = b ∧ x ∈ slots) := by
  unfold layer numBits
  rw [getField_update]
  by_cases hn : name = n
  · subst hn
    cases si.getField name with
    | none => simp
    | some sf => simp [SortField.mem_layer_setLayerBulk]
  · simp [hn, Ne.symm hn]

theorem mem_layer_update_clear : x ∈ (si.update name (·.clearLayerBulk bit slots)).layer n b ↔
      x ∈ si.layer n b ∧ ¬(name = n ∧ bit = b ∧ x ∈ slots) := by
  unfold layer
  rw [getField_update]
  by_cases hn : name = n
  · subst hn
    cases si.getField name with
    | none => simp
    | some sf => simp [SortField.mem_layer_clearLayerBulk]
  · simp [hn, Ne.symm hn]

end SortIndex

/-! ## The slot allocator -/

/-- The alive bitmap, the high-water mark and the slots whose activation is scheduled, each under its unix time. -/
structure SlotAllocator where
  nextSlot : UInt32
  alive : VersionedBitmap
  deferred : List (UInt64 × List UInt32)

namespace SlotAllocator

variable (sa : SlotAllocator)

/-- No slot is allocated. -/
def new : SlotAllocator := ⟨0, .newEmpty, []⟩

/-- The slot is alive. -/
def isAlive (slot : UInt32) : Bool := sa.alive.contains slot

/-- The slot lies below the high-water mark. -/
def wasEverAllocated (slot : UInt32) : Bool := decide (slot < sa.nextSlot)

/-- The bitmap every query starts from: the compacted base only. -/
def aliveBitmap : Bitmap := sa.alive.base

def aliveCount : Nat := sa.alive.fusedLen

/-- Set alive bits and raise the high-water mark above them. -/
def aliveInsertBulk (slots : List UInt32) : SlotAllocator :=
  let maxSeen := slots.foldl (fun m slot => if slot ≥ m then slot + 1 else m) sa.nextSlot
  { sa with
    nextSlot := if maxSeen > sa.nextSlot then maxSeen else sa.nextSlot
    alive := sa.alive.insertBulk slots }

/-- Clear one alive bit. -/
def aliveRemoveOne (slot : UInt32) : SlotAllocator := { sa with alive := sa.alive.remove slot }

def mergeAlive : SlotAllocator := { sa with alive := sa.alive.merge }

/-- Take a slot out of the deferred map, under every activation time. -/
def cancelDeferred (slot : UInt32) : SlotAllocator :=
  { sa with
    deferred := sa.deferred.filterMap fun e =>
      let slots := e.2.filter fun s => decide (s ≠ slot)
      if slots = [] then none else some (e.1, slots) }

/-- `entry(activate_at).or_default().push(slot)` in the ordered deferred map. -/
def pushDeferred (slot : UInt32) (activateAt : UInt64) :
    List (UInt64 × List UInt32) → List (UInt64 × List UInt32)
  | [] => [(activateAt, [slot])]
  | e :: rest =>
    if e.1 = activateAt then (e.1, e.2 ++ [slot]) :: rest
    else if activateAt < e.1 then (activateAt, [slot]) :: e :: rest
    else e :: pushDeferred slot activateAt rest

/-- Schedule a slot's activation; a slot is under one activation time at most. -/
def scheduleAlive (slot : UInt32) (activateAt : UInt64) : SlotAllocator :=
  let cancelled := sa.cancelDeferred slot
  { cancelled with
    nextSlot := if slot ≥ sa.nextSlot then slot + 1 else sa.nextSlot
    deferred := pushDeferred slot activateAt cancelled.deferred }

/-- The activation times a slot is scheduled under. -/
def deferredAt (slot : UInt32) : List UInt64 := sa.deferred.filterMap fun e => if slot ∈ e.2 then some e.1 else none

variable {sa}

theorem deferredAt_cancelDeferred {slot x : UInt32} :
    (sa.cancelDeferred slot).deferredAt x = if x = slot then [] else sa.deferredAt x := by
  unfold deferredAt cancelDeferred
  rw [filterMap_filterMap]
  by_cases hx : x = slot
  · rw [if_pos hx, filterMap_eq_nil_iff]
    intro e _
    by_cases hnil : e.2.filter (fun s => decide (s ≠ slot)) = []
    · simp only [hnil, if_true, bind_none]
    · simp only [hnil, if_false, bind_some]
      rw [if_neg (by simp [hx])]
  · rw [if_neg hx]
    congr 1
    funext e
    have hmem : x ∈ e.2.filter (fun s => decide (s ≠ slot)) ↔ x ∈ e.2 := by simp [hx]
    by_cases hnil : e.2.filter (fun s => decide (s ≠ slot)) = []
    · -- the dropped entry held nothing but `slot`
      rw [hnil] at hmem
      simp only [hnil, if_true, bind_none]
      rw [if_neg (by rw [← hmem]; exact not_mem_nil)]
    · simp only [hnil, if_false, bind_some, hmem]

theorem deferredAt_pushDeferred {slot x : UInt32} {activateAt : UInt64}
    {deferred : List (UInt64 × List UInt32)} (h : x = slot → ∀ e ∈ deferred, x ∉ e.2) :
    ((pushDeferred slot activateAt deferred).filterMap fun e =>
        if x ∈ e.2 then some e.1 else none) =
      if x = slot then [activateAt]
      else deferred.filterMap fun e => if x ∈ e.2 then some e.1 else none := by
  induction deferred with
  | nil => by_cases hx : x = slot <;> simp [pushDeferred, hx]
  | cons e rest ih =>
    have ih := ih fun hx e he => h hx e (mem_cons_of_mem _ he)
    have hnone : x = slot → (rest.filterMap fun e => if x ∈ e.2 then some e.1 else none) = [] := by
      intro hx
      rw [filterMap_eq_nil_iff]
      intro e' he'
      rw [if_neg (h hx e' (mem_cons_of_mem _ he'))]
    unfold pushDeferred
    by_cases hx : x = slot
    · have hnot := h hx e mem_cons_self
      split_ifs with hkey hlt
      · simp only [filterMap_cons, hnone hx]
        simp [hx, hkey]
      · simp only [filterMap_cons, hnone hx, if_neg hnot]
        simp [hx]
      · rw [filterMap_cons, ih]
        simp [if_neg hnot, if_pos hx]
    · split_ifs <;> simp [filterMap_cons, hx, ih]

theorem deferredAt_scheduleAlive {slot x : UInt32} {activateAt : UInt64} :
    (sa.scheduleAlive slot activateAt).deferredAt x = if x = slot then [activateAt] else sa.deferredAt x := by
  have hclean : x = slot → ∀ e ∈ (sa.cancelDeferred slot).deferred, x ∉ e.2 := by
    rintro rfl e he
    simp only [cancelDeferred, mem_filterMap] at he
    obtain ⟨e₀, -, he⟩ := he
    split at he
    · cases he
    · cases he
      simp
  show ((pushDeferred slot activateAt (sa.cancelDeferred slot).deferred).filterMap _) = _
  rw [deferredAt_pushDeferred hclean]
  by_cases hx : x = slot
  · simp [hx]
  · have h : (sa.cancelDeferred slot).deferredAt x = _ := deferredAt_cancelDeferred
    rw [if_neg hx] at h
    rw [if_neg hx, if_neg hx, ← h]
    rfl

end SlotAllocator

end Bitdex
