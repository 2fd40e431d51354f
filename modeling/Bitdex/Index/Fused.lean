import Bitdex.Index.Views

/-!
# `Index.Fused` — the cached view of a sort field

A `SortField` keeps the fused view of its layers for the queries that share it. Every mutator drops the view first,
and a clone starts without one. The layers of a clone are shared until they are changed (`Arc::make_mut`), so they are
values here; only the cache is changed behind a shared reference.
-/

namespace Bitdex

open List Option

namespace SortField

variable (sf : SortField)

/-- A field without a value in any slot. -/
def new (numBits : Nat) : SortField := ⟨replicate numBits .newEmpty⟩

/-- `(value >> bit) & 1 == 1`; a `u32` shift masks its amount. -/
def hasBit (value : UInt32) (bit : Nat) : Bool := value.toNat.testBit (bit % 32)

/-- Set the layers of the value's bits. -/
def insert (slot value : UInt32) : SortField :=
  ⟨sf.bitLayers.mapIdx fun bit vb => if hasBit value bit then vb.insert slot else vb⟩

/-- Clear the slot in all layers. -/
def remove (slot : UInt32) : SortField := ⟨sf.bitLayers.map (·.remove slot)⟩

/-- Flip the layers in which the two values differ. -/
def update (slot oldValue newValue : UInt32) : SortField :=
  ⟨sf.bitLayers.mapIdx fun bit vb =>
    if hasBit (oldValue ^^^ newValue) bit then if hasBit oldValue bit then vb.remove slot else vb.insert slot
    else vb⟩

/-- Compact every layer. -/
def mergeAll : SortField := ⟨sf.bitLayers.map (·.merge)⟩

/-- Drop the bases; the diffs stay. -/
def clearBasesAndUnload : SortField := ⟨sf.bitLayers.map (·.clearBaseAndUnload)⟩

end SortField

/-- The `&mut self` methods of a sort field that change its layers. -/
inductive FieldMutator where
  | insert (slot value : UInt32)
  | remove (slot : UInt32)
  | update (slot oldValue newValue : UInt32)
  | setLayerBulk (bit : Nat) (slots : List UInt32)
  | clearLayerBulk (bit : Nat) (slots : List UInt32)
  | orLayer (bit : Nat) (bitmap : Bitmap)
  | mergeAll
  | mergeDirty
  | loadLayers (layers : List Bitmap)
  | clearBasesAndUnload

/-- A sort field with `fused_cache`. -/
structure CachedField where
  field : SortField
  cache : Option (List Bitmap)

namespace CachedField

variable (f : CachedField)

/-- Drop the cached view. -/
def invalidateFused : CachedField := { f with cache := none }

/-! ### The mutators, each with its own call of `invalidate_fused` -/

def insert (slot value : UInt32) : CachedField :=
  let f := f.invalidateFused
  { f with field := f.field.insert slot value }

def remove (slot : UInt32) : CachedField :=
  let f := f.invalidateFused
  { f with field := f.field.remove slot }

def update (slot oldValue newValue : UInt32) : CachedField :=
  let f := f.invalidateFused
  { f with field := f.field.update slot oldValue newValue }

def setLayerBulk (bit : Nat) (slots : List UInt32) : CachedField :=
  let f := f.invalidateFused
  { f with field := f.field.setLayerBulk bit slots }

def clearLayerBulk (bit : Nat) (slots : List UInt32) : CachedField :=
  let f := f.invalidateFused
  { f with field := f.field.clearLayerBulk bit slots }

def orLayer (bit : Nat) (bitmap : Bitmap) : CachedField :=
  let f := f.invalidateFused
  { f with field := f.field.orLayer bit bitmap }

def mergeAll : CachedField :=
  let f := f.invalidateFused
  { f with field := f.field.mergeAll }

def mergeDirty : CachedField :=
  let f := f.invalidateFused
  { f with field := f.field.mergeDirty }

def loadLayers (layers : List Bitmap) : CachedField :=
  let f := f.invalidateFused
  { f with field := f.field.loadLayers layers }

def clearBasesAndUnload : CachedField :=
  let f := f.invalidateFused
  { f with field := f.field.clearBasesAndUnload }

/-- The call of a mutator. -/
def mutate : FieldMutator → CachedField
  | .insert slot value => f.insert slot value
  | .remove slot => f.remove slot
  | .update slot oldValue newValue => f.update slot oldValue newValue
  | .setLayerBulk bit slots => f.setLayerBulk bit slots
  | .clearLayerBulk bit slots => f.clearLayerBulk bit slots
  | .orLayer bit bitmap => f.orLayer bit bitmap
  | .mergeAll => f.mergeAll
  | .mergeDirty => f.mergeDirty
  | .loadLayers layers => f.loadLayers layers
  | .clearBasesAndUnload => f.clearBasesAndUnload

/-- The clone that `Arc::make_mut` makes starts without a view. -/
def clone : CachedField := { f with cache := none }

/-- The view, and the field with the view in its cache. -/
def fusedLayers : List Bitmap × CachedField :=
  match f.cache with
  | some fused => (fused, f)
  | none => (f.field.fusedLayers, { f with cache := some f.field.fusedLayers })

/-- A cached view is the view of the layers. -/
def Fresh : Prop := ∀ fused ∈ f.cache, fused = f.field.fusedLayers

variable {f}

theorem fresh_none {sf : SortField} : Fresh ⟨sf, none⟩ := by
  intro fused h
  cases h

/-- **Every mutator drops the view**, so that none is out of date. -/
theorem fresh_mutate (m : FieldMutator) : (f.mutate m).Fresh := by
  cases m <;> exact fresh_none

/-- Reading through the cache. -/
theorem Fresh.fusedLayers (h : f.Fresh) :
    f.fusedLayers.1 = f.field.fusedLayers ∧ f.fusedLayers.2.field = f.field ∧ f.fusedLayers.2.Fresh := by
  rw [CachedField.fusedLayers]
  split
  · next fused hcache => exact ⟨h fused hcache, rfl, h⟩
  · exact ⟨rfl, rfl, fun _ hfused => (some.inj hfused).symm⟩

end CachedField

/-- What happens to a field and its clones; `clone` adds a clone of the `i`-th field. -/
inductive FieldEvent where
  | clone (i : Nat)
  | read (i : Nat)
  | mutate (i : Nat) (m : FieldMutator)

namespace FieldEvent

/-- A field and its clones after an event; an event on a field that does not exist does nothing. -/
def apply (fields : List CachedField) : FieldEvent → List CachedField
  | .clone i => fields ++ ((fields[i]?).map CachedField.clone).toList
  | .read i => fields.modify i fun f => f.fusedLayers.2
  | .mutate i m => fields.modify i (·.mutate m)

/-- A run from a new field. -/
def run (numBits : Nat) (events : List FieldEvent) : List CachedField := events.foldl apply [⟨.new numBits, none⟩]

variable {fields : List CachedField} {ev : FieldEvent}

/-- **One event** keeps the views fresh. -/
theorem fresh_apply (h : ∀ f ∈ fields, f.Fresh) : ∀ f ∈ apply fields ev, f.Fresh := by
  have hmodify : ∀ i g, (∀ f ∈ fields, (g f).Fresh) → ∀ f ∈ fields.modify i g, f.Fresh := by
    intro i g hg f hf
    obtain ⟨j, hj⟩ := List.getElem?_of_mem hf
    rw [List.getElem?_modify] at hj
    obtain ⟨f', hf', rfl⟩ := map_eq_some_iff.mp hj
    split
    · exact hg f' (mem_of_getElem? hf')
    · exact h f' (mem_of_getElem? hf')
  cases ev with
  | clone i =>
    intro f hf
    rcases mem_append.mp hf with hf | hf
    · exact h f hf
    · obtain ⟨f', -, rfl⟩ := map_eq_some_iff.mp (mem_toList.mp hf)
      exact CachedField.fresh_none
  | read i => exact hmodify i _ fun f hf => (h f hf).fusedLayers.2.2
  | mutate i m => exact hmodify i _ fun f _ => CachedField.fresh_mutate m

/-- **One event** leaves the layers of a field, unless it mutates that field. -/
theorem field_apply (h : ∀ f ∈ fields, f.Fresh) {i : Nat} {f : CachedField} (hf : fields[i]? = some f)
    (hev : ∀ m, ev ≠ .mutate i m) : ((apply fields ev)[i]?).map CachedField.field = some f.field := by
  cases ev with
  | clone j =>
    rw [apply, List.getElem?_append_left (List.getElem?_eq_some_iff.mp hf).1, hf]
    rfl
  | read j =>
    rw [apply, List.getElem?_modify, hf]
    split
    · exact congrArg some (h f (mem_of_getElem? hf)).fusedLayers.2.1
    · rfl
  | mutate j m =>
    have hij : j ≠ i := fun hij => hev m (hij ▸ rfl)
    simp [apply, hf, hij]

theorem fresh_run (numBits : Nat) (events : List FieldEvent) : ∀ f ∈ run numBits events, f.Fresh := by
  refine foldlRecOn (motive := fun fields => ∀ f ∈ fields, f.Fresh) events apply ?_ fun _ h _ _ => fresh_apply h
  intro f hf
  rw [mem_singleton.mp hf]
  exact CachedField.fresh_none

/-- **The cached view.** After every run, a field and its clones show base plus diff of their layers, and an event
leaves what any other field shows. -/
theorem fusedLayers_run (numBits : Nat) (events : List FieldEvent) : (∀ f ∈ run numBits events,
      f.fusedLayers.1 = f.field.bitLayers.map fun vb => (vb.base ∪ vb.diff.sets) \ vb.diff.clears) ∧
    ∀ ev i f, (run numBits events)[i]? = some f → (∀ m, ev ≠ .mutate i m) →
      ((run numBits (events ++ [ev]))[i]?).map (·.fusedLayers.1) = some f.fusedLayers.1 := by
  have h := fresh_run numBits events
  constructor
  · intro f hf
    rw [(h f hf).fusedLayers.1]
    refine map_congr_left fun vb _ => ?_
    ext x
    -- no bit is both set and cleared in a diff, so the order of the two does not matter
    have hdisjoint : x ∈ vb.diff.sets → x ∉ vb.diff.clears := fun hx => Finset.disjoint_left.mp vb.diff.disjoint hx
    rw [VersionedBitmap.mem_fused, Finset.mem_sdiff, Finset.mem_union]
    tauto
  · intro ev i f hf hev
    have hfield := field_apply h hf hev
    rw [run, foldl_concat, ← run]
    obtain ⟨f', hf', heq⟩ := map_eq_some_iff.mp hfield
    rw [hf', map_some, (fresh_apply h f' (mem_of_getElem? hf')).fusedLayers.1,
      (h f (mem_of_getElem? hf)).fusedLayers.1, heq]

end FieldEvent

end Bitdex
