import Bitdex.Write.Batch
import Bitdex.Index.Load

/-!
# `Write.Parts` — one bitmap of an index under every operation

An index is changed field by field: by the groups of a batch, by loads, by compaction, by eviction. Whoever follows
one bitmap through these changes needs to know only what each of them makes of that bitmap: a value of a filter field
(`FilterIndex.valueAt`) or a layer of a sort field (`SortIndex.layerAt`).
-/

namespace Bitdex

open AList Bitmap FilterField Postings Option

theorem VersionedBitmap.loadBase_loadBase {vb : VersionedBitmap} {data : Bitmap} :
    (vb.loadBase data).loadBase data = vb.loadBase data := by
  simp [loadBase, Finset.union_assoc]

/-! ## One value of a filter field -/

namespace FilterField

variable {ff : FilterField} {v value : UInt64} {slots : List UInt32} {data : HashMap UInt64 Bitmap}

theorem getVersioned_insertBulk : (ff.insertBulk value slots).getVersioned v =
      if v = value then some (((ff.getVersioned value).getD ff.newInsertedVb).insertBulk slots)
      else ff.getVersioned v :=
  lookup_insert_eq_ite

theorem getVersioned_removeBulk : (ff.removeBulk value slots).getVersioned v =
      if v = value then some (((ff.getVersioned value).getD .newUnloaded).removeBulk slots)
      else ff.getVersioned v :=
  lookup_insert_eq_ite

theorem getVersioned_removeValue :
    (ff.removeValue value).getVersioned v = if v = value then none else ff.getVersioned v :=
  lookup_erase_eq_ite

theorem getVersioned_mergeDirty : ff.mergeDirty.getVersioned v = (ff.getVersioned v).map VersionedBitmap.merge := by
  show lookup v (ff.bitmaps.filterMap _) = _
  rw [lookup_filterMap, map_eq_bind]
  rfl

theorem getVersioned_unload : ff.unload.getVersioned v =
      (ff.getVersioned v).bind fun vb => if vb.isDirty then some vb.cloneDiffOnly else none := by
  show lookup v (ff.bitmaps.filterMap _) = _
  rw [lookup_filterMap]
  rfl

/-- Every load of a value ORs what was read into its base, nothing if the value was not found. -/
theorem loadedVb_eq :
    ff.loadedVb data value = ((ff.getVersioned value).getD .newUnloaded).loadBase ((data.lookup value).getD ∅) := by
  rw [loadedVb]
  cases data.lookup value with
  | some bitmap => rfl
  | none =>
    cases ff.getVersioned value <;>
      simp [VersionedBitmap.loadBase, VersionedBitmap.markLoaded, VersionedBitmap.newEmpty,
        VersionedBitmap.new, VersionedBitmap.newUnloaded]

theorem getVersioned_loadValues {requested : List UInt64} :
    (ff.loadValues data requested).getVersioned v = if v ∈ requested then
        some (((ff.getVersioned v).getD .newUnloaded).loadBase ((data.lookup v).getD ∅))
      else ff.getVersioned v := by
  refine foldl_visit (k := v) (p := fun ff : FilterField => ff.getVersioned v)
    (u := fun o => some ((o.getD .newUnloaded).loadBase ((data.lookup v).getD ∅))) ?_ ?_ ?_ requested ff
  · intro o
    simp [VersionedBitmap.loadBase_loadBase]
  · intro ff
    show lookup v (ff.bitmaps.insert v _) = _
    rw [lookup_insert, loadedVb_eq]
  · intro ff v' hv
    exact lookup_insert_ne (Ne.symm hv)

theorem config_loadValues {requested : List UInt64} : (ff.loadValues data requested).config = ff.config :=
  foldl_view config (by intros; rfl) ff

theorem getVersioned_loadFieldComplete :
    (ff.loadFieldComplete data).getVersioned v = if (ff.getVersioned v).isSome ∨ (data.lookup v).isSome then
        some (((ff.getVersioned v).getD .newUnloaded).loadBase ((data.lookup v).getD ∅))
      else none := by
  have hloaded := view_applyTo (m := data) (s := ff.bitmaps) (k := v)
    (fun m value => m.lookup value) (fun _ bitmap o => some ((o.getD .newUnloaded).loadBase bitmap))
    (show ∀ (m : HashMap UInt64 VersionedBitmap) value bitmap value',
        (m.insert value (((m.lookup value).getD .newUnloaded).loadBase bitmap)).lookup value' =
          if value' = value then some (((m.lookup value).getD .newUnloaded).loadBase bitmap)
          else m.lookup value' from fun _ _ _ _ => lookup_insert_eq_ite)
  show lookup v (filterMap _ _) = _
  rw [lookup_filterMap]
  rw [applyTo] at hloaded
  rw [hloaded]
  show _ = if (lookup v ff.bitmaps).isSome = true ∨ _ then
    some (((lookup v ff.bitmaps).getD .newUnloaded).loadBase _) else none
  cases lookup v data with
  | some bitmap => simp [VersionedBitmap.loadBase, VersionedBitmap.markLoaded]
  | none =>
    rcases eq_none_or_eq_some (lookup v ff.bitmaps) with hv | ⟨vb, hv⟩ <;>
      simp [hv, VersionedBitmap.loadBase, VersionedBitmap.markLoaded]

end FilterField

/-! ## One value of a filter index -/

namespace FilterIndex

variable (fi : FilterIndex) {g : FilterGroupKey}

/-- The config of a value's field and the value's bitmap, if it is in memory. -/
def valueAt (g : FilterGroupKey) : Option (FilterFieldConfig × Option VersionedBitmap) :=
  (fi.getField g.field).map fun ff => (ff.config, ff.getVersioned g.value)

variable {fi} {groups : Postings FilterGroupKey UInt32}

theorem valueAt_of_getField {name : String} {ff : FilterField} (h : fi.getField name = some ff)
    (v : UInt64) : fi.valueAt ⟨name, v⟩ = some (ff.config, ff.getVersioned v) := by
  rw [valueAt, h, map_some]

theorem isSome_valueAt : (fi.valueAt g).isSome = (fi.getField g.field).isSome := by
  rw [valueAt, isSome_map]

/-- A change of one field, value by value. -/
theorem valueAt_update {name : String} {f : FilterField → FilterField}
    (upd : FilterFieldConfig → UInt64 → Option VersionedBitmap → Option VersionedBitmap)
    (hconfig : ∀ ff, (f ff).config = ff.config)
    (hvalue : ∀ ff v, (f ff).getVersioned v = upd ff.config v (ff.getVersioned v)) :
    (fi.update name f).valueAt g =
      if g.field = name then (fi.valueAt g).map fun p => (p.1, upd p.1 g.value p.2) else fi.valueAt g := by
  rw [valueAt, getField_update]
  split
  · rename_i hname
    rw [valueAt, hname]
    cases fi.getField name with
    | none => rfl
    | some ff => simp [hconfig, hvalue]
  · rfl

/-- A change of every field, value by value. -/
theorem valueAt_filterMap {f : String → FilterField → FilterField}
    (upd : String → UInt64 → Option VersionedBitmap → Option VersionedBitmap)
    (hconfig : ∀ name ff, (f name ff).config = ff.config)
    (hvalue : ∀ name ff v, (f name ff).getVersioned v = upd name v (ff.getVersioned v)) :
    valueAt ⟨fi.fields.filterMap fun name ff => some (f name ff)⟩ g =
      (fi.valueAt g).map fun p => (p.1, upd g.field g.value p.2) := by
  rw [valueAt, valueAt, getField, getField, lookup_filterMap]
  cases lookup g.field fi.fields with
  | none => rfl
  | some ff => simp [hconfig, hvalue]

theorem valueAt_removeGroups : (fi.removeGroups groups).valueAt g = (groups.lookup g).elim (fi.valueAt g) fun slots =>
        (fi.valueAt g).map fun p => (p.1, some ((p.2.getD .newUnloaded).removeBulk (iter slots))) := by
  refine view_applyTo (fun (fi : FilterIndex) g => fi.valueAt g) (fun _ slots o =>
    o.map fun p => (p.1, some ((p.2.getD .newUnloaded).removeBulk (iter slots)))) ?_
  rintro fi ⟨f, v⟩ slots ⟨f', v'⟩
  rw [valueAt_update (f := fun ff => ff.removeBulk v (iter slots))
    (fun _ w o => if w = v then some ((o.getD .newUnloaded).removeBulk (iter slots)) else o)
    (fun _ => rfl) fun ff w => by rw [getVersioned_removeBulk]; split <;> simp_all]
  by_cases hf : f' = f
  · subst hf
    by_cases hv : v' = v
    · subst hv
      simp
    · simp [hv]
  · simp [hf]

theorem valueAt_insertGroups : (fi.insertGroups groups).valueAt g = (groups.lookup g).elim (fi.valueAt g) fun slots =>
        (fi.valueAt g).map fun p => (p.1, some ((p.2.getD (new p.1).newInsertedVb).insertBulk (iter slots))) := by
  refine view_applyTo (fun (fi : FilterIndex) g => fi.valueAt g) (fun _ slots o =>
    o.map fun p =>
      (p.1, some ((p.2.getD (new p.1).newInsertedVb).insertBulk (iter slots)))) ?_
  rintro fi ⟨f, v⟩ slots ⟨f', v'⟩
  rw [valueAt_update (f := fun ff => ff.insertBulk v (iter slots))
    (fun config w o => if w = v then
      some ((o.getD (new config).newInsertedVb).insertBulk (iter slots)) else o)
    (fun _ => rfl) fun ff w => by
      rw [getVersioned_insertBulk]
      by_cases hw : w = v
      · rw [if_pos hw, if_pos hw, hw]
        rfl
      · rw [if_neg hw, if_neg hw]]
  by_cases hf : f' = f
  · subst hf
    by_cases hv : v' = v
    · subst hv
      simp
    · simp [hv]
  · simp [hf]

end FilterIndex

/-! ## One layer of a sort index -/

namespace SortIndex

variable (si : SortIndex) {f : String} {b : Nat}

/-- A layer of a sort field. -/
def layerAt (f : String) (b : Nat) : Option VersionedBitmap := (si.getField f).bind (·.bitLayers[b]?)

variable {si} {groups : Postings SortGroupKey UInt32}

theorem isSome_layerAt : (si.layerAt f b).isSome = decide (b < si.numBits f) := by
  rw [layerAt, numBits]
  cases si.getField f with
  | none => simp
  | some sf =>
    rw [bind_some, map_some, getD_some, SortField.numBits]
    by_cases hb : b < sf.bitLayers.length
    · rw [List.getElem?_eq_getElem hb, decide_eq_true hb, isSome_some]
    · rw [List.getElem?_eq_none (Nat.le_of_not_lt hb), decide_eq_false hb, isSome_none]

theorem layerAt_update {name : String} {g : SortField → SortField} (upd : Nat → VersionedBitmap → VersionedBitmap)
    (hlayer : ∀ (sf : SortField) (i : Nat), (g sf).bitLayers[i]? = sf.bitLayers[i]?.map (upd i)) :
    (si.update name g).layerAt f b = if f = name then (si.layerAt f b).map (upd b) else si.layerAt f b := by
  rw [layerAt, getField_update]
  split
  · rename_i hname
    rw [layerAt, hname]
    cases si.getField name with
    | none => rfl
    | some sf => simp [hlayer]
  · rfl

theorem layerAt_filterMap {g : String → SortField → SortField} (upd : String → VersionedBitmap → VersionedBitmap)
    (hlayer : ∀ (name : String) (sf : SortField) (i : Nat),
      (g name sf).bitLayers[i]? = sf.bitLayers[i]?.map (upd name)) :
    layerAt ⟨si.fields.filterMap fun name sf => some (g name sf)⟩ f b = (si.layerAt f b).map (upd f) := by
  rw [layerAt, layerAt, getField, getField, lookup_filterMap]
  cases lookup f si.fields with
  | none => rfl
  | some sf => simp [hlayer]

/-- A write to one layer per group changes the layer of its own group. -/
theorem layerAt_groups {write : SortField → Nat → List UInt32 → SortField}
    (upd : List UInt32 → VersionedBitmap → VersionedBitmap)
    (hwrite : ∀ sf b slots i, (write sf b slots).bitLayers[i]? =
      sf.bitLayers[i]?.map fun vb => if b = i then upd slots vb else vb) :
    (groups.applyTo (fun si g slots => si.update g.field (write · g.bitLayer (iter slots))) si).layerAt f b =
      (groups.lookup ⟨f, b⟩).elim (si.layerAt f b) fun slots =>
        (si.layerAt f b).map (upd (iter slots)) := by
  refine view_applyTo (k := ⟨f, b⟩) (fun (si : SortIndex) (g : SortGroupKey) =>
    si.layerAt g.field g.bitLayer) (fun _ slots o => o.map (upd (iter slots))) ?_
  rintro si ⟨f, b⟩ slots ⟨f', b'⟩
  rw [layerAt_update _ fun sf i => hwrite sf b (iter slots) i]
  by_cases hf : f' = f
  · subst hf
    by_cases hb : b' = b
    · subst hb
      simp
    · simp [hb, Ne.symm hb]
  · simp [hf]

theorem layerAt_clearGroups :
    (si.clearGroups groups).layerAt f b = (groups.lookup ⟨f, b⟩).elim (si.layerAt f b) fun slots =>
        (si.layerAt f b).map (·.removeBulk (iter slots)) :=
  layerAt_groups (fun slots vb => vb.removeBulk slots) fun sf b slots i => by
    rw [SortField.clearLayerBulk, List.getElem?_modify]; split <;> simp_all

theorem layerAt_setGroups :
    (si.setGroups groups).layerAt f b = (groups.lookup ⟨f, b⟩).elim (si.layerAt f b) fun slots =>
        (si.layerAt f b).map (·.insertBulk (iter slots)) :=
  layerAt_groups (fun slots vb => vb.insertBulk slots) fun sf b slots i => by
    rw [SortField.setLayerBulk, List.getElem?_modify]; split <;> simp_all

theorem layerAt_loadLayers {name : String} {layers : List Bitmap} : (si.update name (·.loadLayers layers)).layerAt f b =
      if f = name then (si.layerAt f b).map fun vb => (layers[b]?).elim vb vb.replaceBasePreserveDiff
      else si.layerAt f b :=
  layerAt_update (fun i vb => (layers[i]?).elim vb vb.replaceBasePreserveDiff) fun sf i => by
    simp [SortField.loadLayers]

end SortIndex

end Bitdex
