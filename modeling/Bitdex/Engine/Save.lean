import Bitdex.Store.Bitmaps
import Bitdex.Engine.FlushThread

/-!
# `Engine.Save` — writing a snapshot and restoring it

`write_inner_to_store` writes a snapshot over whatever the data directory holds: the alive set and the slot counter
always, the deferred map only if it has a slot, a sort field unless it is skipped, and a filter field bucket by
bucket, for the buckets some value in memory lies in. A field loaded by value is merged into its buckets. At startup
the fields are read back only if the slot counter is not zero.

Nothing in the directory is removed, so a deferred map, a bucket or a value from earlier stays.
-/

namespace Bitdex

open Postings AList FilterBitmapStore VersionedBitmap Option
open FilterBucketKey (fromValue ofGroup)

/-! ## Writing -/

namespace FilterBitmapStore

variable (fs : FilterBitmapStore)

theorem field_of_ofGroup {g : FilterGroupKey} {key : FilterBucketKey} (h : ofGroup g = key) : g.field = key.field := by
  rw [← h]
  rfl

/-- What a bucket's file holds. -/
def readFilterBucket (key : FilterBucketKey) : Postings UInt64 UInt32 :=
  fs.values.rename (fun g => if ofGroup g = key then some g.value else none) <| by
    rintro ⟨f₁, v₁⟩ ⟨f₂, v₂⟩ v h₁ h₂
    simp only [ite_none_right_eq_some, some.injEq] at h₁ h₂
    rw [h₁.2, h₂.2, show f₁ = f₂ from (field_of_ofGroup h₁.1).trans (field_of_ofGroup h₂.1).symm]

/-- Replace the shard of a bucket. -/
def writeFilterBucket (key : FilterBucketKey) (entries : Postings UInt64 UInt32) : FilterBitmapStore :=
  ⟨entries.applyTo (fun m value bitmap => insert ⟨key.field, value⟩ bitmap m)
    (fs.values.filterMap fun g bitmap => if ofGroup g = key then none else some bitmap)⟩

/-- The bitmaps of a field's values that lie in a bucket. -/
def bucketEntries (ff : FilterField) (key : FilterBucketKey) : Postings UInt64 UInt32 :=
  ff.bitmaps.filterMap fun value vb =>
    if fromValue key.field value = key then some (if vb.isDirty then vb.fused else vb.base)
    else none

/-- Write one bucket of a field; a lazily loaded one is merged into the bitmaps on disk. -/
def saveBucket (ff : FilterField) (isLazy : Bool) (key : FilterBucketKey) : FilterBitmapStore :=
  let entries := bucketEntries ff key
  if isLazy then
    fs.writeFilterBucket key
      (addAll (fs.readFilterBucket key) (entries.entries.map fun e => (e.1, e.2)))
  else fs.writeFilterBucket key entries

/-- Write the buckets that values in memory lie in. -/
def saveField (name : String) (ff : FilterField) (isLazy : Bool) : FilterBitmapStore :=
  (ff.bitmaps.keys.map (fromValue name)).dedup.foldl
    (fun fs key => fs.saveBucket ff isLazy key) fs

/-- Write the fields of a snapshot. -/
def saveFields (fields : HashMap String FilterField) (skipFilters lazyValues : List String) :
    FilterBitmapStore :=
  fields.entries.foldl (fun fs e =>
    if e.1 ∈ skipFilters then fs
    else if e.1 ∈ lazyValues ∧ e.2.bitmaps.entries = [] then fs
    else fs.saveField e.1 e.2 (decide (e.1 ∈ lazyValues))) fs

end FilterBitmapStore

namespace SortBitmapStore

variable (ss : SortBitmapStore)

/-- Replace the packed shard of a field. Empty layers are left out, which reads the same; at most 255 positions
differ. -/
def writeSortLayers (field : String) (layers : List Bitmap) : SortBitmapStore :=
  { ss with
    packed := ss.packed.insert field
      (addAll ∅ (layers.mapIdx fun i bitmap => (UInt8.ofNat i, bitmap))) }

/-- Write the configured sort fields of a snapshot. -/
def saveSorts (names : List String) (sorts : SortIndex) (skipSorts : List String) : SortBitmapStore :=
  names.foldl (fun ss name =>
    if name ∈ skipSorts then ss
    else (sorts.getField name).elim ss fun sf => ss.writeSortLayers name sf.fusedLayers) ss

end SortBitmapStore

/-- What a save leaves out: fields that wait to be loaded, and filter fields loaded value by value. -/
structure SaveSkips where
  skipSorts : List String
  skipFilters : List String
  lazyValues : List String

namespace DataDir

variable (dir : DataDir)

/-- Write a snapshot. -/
def writeInnerToStore (cfg : Config) (skips : SaveSkips) (snap : IndexState) : DataDir where
  alive := some snap.slots.alive.fused
  slotCounter := some snap.slots.nextSlot
  deferredAlive := if 0 < snap.slots.deferredCount then some snap.slots.deferred else dir.deferredAlive
  sorts := dir.sorts.saveSorts (cfg.sortFields.map (·.name)) snap.sorts skips.skipSorts
  filters := dir.filters.saveFields snap.filters.fields skips.skipFilters skips.lazyValues

/-! ## Restoring -/

/-- The allocator at startup. -/
def restoreSlots : SlotAllocator :=
  match dir.alive with
  | some alive => ⟨dir.slotCounter.getD 0, .new alive, dir.deferredAlive.getD []⟩
  | none => .new

/-- A value as it is loaded after a restart. With a slot counter of zero nothing is. -/
def restoreValue (field : String) (value : UInt64) : Bitmap :=
  if dir.restoreSlots.nextSlot = 0 then ∅ else ((dir.filters.loadField field).lookup value).getD ∅

/-- A sort layer as a boot reads it. -/
def restoreLayer (field : String) (bits bit : Nat) : Bitmap :=
  if dir.restoreSlots.nextSlot = 0 then ∅ else (((dir.sorts.loadSortLayers field bits).getD [])[bit]?).getD ∅

/-- Restoring gives the snapshot. -/
structure Restores (snap : IndexState) : Prop where
  alive : dir.restoreSlots.alive.fused = snap.slots.alive.fused
  slotCounter : dir.restoreSlots.nextSlot = snap.slots.nextSlot
  deferred : dir.restoreSlots.deferred = snap.slots.deferred
  sorts : ∀ f sf, snap.sorts.getField f = some sf → ∀ b < sf.numBits,
    dir.restoreLayer f sf.numBits b = sf.layer b
  filters : ∀ f ff, snap.filters.getField f = some ff → ∀ v, dir.restoreValue f v = ff.bits v

/-! ## When a save is exact -/

/-- The earlier content under a value of a written field does not show: it is replaced with its bucket, or merged and
contained in the snapshot's bitmap. -/
def ValueCleared (skips : SaveSkips) (f : String) (ff : FilterField) (v : UInt64) : Prop :=
  if f ∈ skips.skipFilters then dir.filters.values.ids ⟨f, v⟩ = ff.bits v
  else if f ∈ skips.lazyValues then dir.filters.values.ids ⟨f, v⟩ ⊆ ff.bits v
  else (∀ w ∈ ff.bitmaps, fromValue f w ≠ fromValue f v) →
    dir.filters.values.ids ⟨f, v⟩ = ∅

/-- The condition on what was there before. -/
structure SaveMeets (cfg : Config) (skips : SaveSkips) (snap : IndexState) : Prop where
  /-- A map without slots is not written. -/
  deferred : snap.slots.deferredCount = 0 → dir.deferredAlive.getD [] = snap.slots.deferred
  /-- Under a slot counter of zero no field is restored. -/
  unused : snap.slots.nextSlot = 0 →
    (∀ f ff, snap.filters.getField f = some ff → ∀ v, ff.bits v = ∅) ∧
      ∀ f sf, snap.sorts.getField f = some sf → ∀ b < sf.numBits, sf.layer b = ∅
  filters : snap.slots.nextSlot ≠ 0 → ∀ f ff, snap.filters.getField f = some ff → ∀ v,
    dir.ValueCleared skips f ff v
  /-- A sort field that is not written is on disk already. -/
  sorts : snap.slots.nextSlot ≠ 0 → ∀ f sf, snap.sorts.getField f = some sf →
    (f ∈ skips.skipSorts ∨ f ∉ cfg.sortFields.map (·.name)) → ∀ b < sf.numBits,
    dir.sorts.layer f b = sf.layer b

end DataDir

/-! ## What a save writes -/

theorem VersionedBitmap.ite_isDirty (vb : VersionedBitmap) : (if vb.isDirty then vb.fused else vb.base) = vb.fused := by
  cases hempty : vb.diff.isEmpty with
  | true => simp [isDirty, fused, hempty]
  | false => simp [isDirty, hempty]

namespace FilterBitmapStore

variable {fs : FilterBitmapStore} {ff : FilterField} {key : FilterBucketKey} {name : String} {v : UInt64}

theorem lookup_writeFilterBucket {entries : Postings UInt64 UInt32}
    (hentries : ∀ value ∈ entries, fromValue key.field value = key) (f : String)
    (v : UInt64) :
    (fs.writeFilterBucket key entries).values.lookup ⟨f, v⟩ =
      if fromValue f v = key then entries.lookup v else fs.values.lookup ⟨f, v⟩ := by
  have hkept : (fs.values.filterMap fun g bitmap =>
      if ofGroup g = key then none else some bitmap).lookup ⟨f, v⟩ =
        if fromValue f v = key then none else fs.values.lookup ⟨f, v⟩ := by
    rw [lookup_filterMap, ofGroup]
    cases fs.values.lookup ⟨f, v⟩ <;> split <;> simp_all
  by_cases hf : f = key.field
  · subst hf
    -- the entries are inserted value by value
    have hview : (fs.writeFilterBucket key entries).values.lookup ⟨key.field, v⟩ = _ :=
      view_applyTo (m := entries) (k := v)
        (fun (m : Postings FilterGroupKey UInt32) value => m.lookup ⟨key.field, value⟩)
        (fun _ bitmap _ => some bitmap) fun m value bitmap value' => by simp [lookup_insert_eq_ite]
    rw [hview, hkept]
    by_cases hbucket : fromValue key.field v = key
    · rw [if_pos hbucket, if_pos hbucket]
      cases entries.lookup v <;> rfl
    · have hnone : entries.lookup v = none := lookup_eq_none.mpr fun hv => hbucket (hentries v hv)
      rw [if_neg hbucket, if_neg hbucket, hnone]
      rfl
  · have hbucket : fromValue f v ≠ key := fun h => hf (congrArg FilterBucketKey.field h)
    have hother : (fs.writeFilterBucket key entries).values.lookup ⟨f, v⟩ = _ :=
      foldl_view (fun m : Postings FilterGroupKey UInt32 => m.lookup ⟨f, v⟩)
        (fun _ _ _ => lookup_insert_ne fun h => hf (FilterGroupKey.mk.inj h).1) _
    rw [hother, hkept, if_neg hbucket, if_neg hbucket]

theorem ids_writeFilterBucket {entries : Postings UInt64 UInt32}
    (hentries : ∀ value ∈ entries, fromValue key.field value = key) (f : String)
    (v : UInt64) :
    (fs.writeFilterBucket key entries).values.ids ⟨f, v⟩ =
      if fromValue f v = key then entries.ids v else fs.values.ids ⟨f, v⟩ := by
  rw [ids, lookup_writeFilterBucket hentries]
  split <;> rfl

theorem lookup_bucketEntries :
    (bucketEntries ff key).lookup v = if fromValue key.field v = key then (ff.getVersioned v).map fused
      else none := by
  rw [bucketEntries, lookup_filterMap, FilterField.getVersioned]
  cases lookup v ff.bitmaps with
  | none => split <;> rfl
  | some vb => simp [ite_isDirty]

theorem mem_bucketEntries (hv : v ∈ bucketEntries ff key) : fromValue key.field v = key := by
  by_contra hne
  have hnone : (bucketEntries ff key).lookup v = none := by
    rw [lookup_bucketEntries, if_neg hne]
  exact lookup_eq_none.mp hnone hv

theorem ids_bucketEntries (hv : fromValue key.field v = key) : (bucketEntries ff key).ids v = ff.bits v := by
  rw [ids, lookup_bucketEntries, if_pos hv, FilterField.getD_bits]

theorem ids_readFilterBucket (hv : fromValue key.field v = key) :
    (fs.readFilterBucket key).ids v = fs.values.ids ⟨key.field, v⟩ := by
  have hlookup : (fs.readFilterBucket key).lookup v = fs.values.lookup ⟨key.field, v⟩ := by
    apply lookup_rename
    rintro ⟨f, w⟩
    simp only [ite_none_right_eq_some, some.injEq, FilterGroupKey.mk.injEq]
    constructor
    · rintro ⟨hbucket, hw⟩
      exact ⟨field_of_ofGroup hbucket, hw⟩
    · rintro ⟨rfl, rfl⟩
      exact ⟨hv, rfl⟩
  rw [ids, hlookup, ids]

theorem mem_readFilterBucket (hv : v ∈ fs.readFilterBucket key) : fromValue key.field v = key := by
  have hkeys : v ∈ (fs.readFilterBucket key).keys := hv
  rw [readFilterBucket, rename, keys, keys_renameEntry, List.mem_filterMap] at hkeys
  obtain ⟨⟨f, w⟩, -, hw⟩ := hkeys
  simp only [ite_none_right_eq_some, some.injEq] at hw
  rw [← hw.2, ← field_of_ofGroup hw.1]
  exact hw.1

/-- What writing one bucket makes of a value's bitmap. -/
theorem ids_saveBucket {isLazy : Bool} :
    (fs.saveBucket ff isLazy key).values.ids ⟨name, v⟩ = if fromValue name v = key then
        (if isLazy then fs.values.ids ⟨name, v⟩ else ∅) ∪ ff.bits v
      else fs.values.ids ⟨name, v⟩ := by
  rw [saveBucket]
  cases isLazy with
  | true =>
    rw [if_pos rfl, ids_writeFilterBucket]
    · by_cases hkey : fromValue name v = key
      · subst hkey
        have hread : (fs.readFilterBucket (.fromValue name v)).ids v = fs.values.ids ⟨name, v⟩ :=
          ids_readFilterBucket rfl
        have hentries : (bucketEntries ff (.fromValue name v)).ids v = ff.bits v := ids_bucketEntries rfl
        rw [if_pos rfl, if_pos rfl, ← hread, ← hentries]
        ext x
        rw [mem_ids_addAll, Finset.mem_union, mem_ids_iff_entries (m := bucketEntries _ _)]
        simp
      · rw [if_neg hkey, if_neg hkey]
    · intro value hvalue
      rcases mem_addAll.mp hvalue with hmem | ⟨p, hp, rfl⟩
      · exact mem_readFilterBucket hmem
      · obtain ⟨e, he, rfl⟩ := List.mem_map.mp hp
        have hmem : e.1 ∈ bucketEntries ff key := mem_keys.mpr (List.mem_map_of_mem he)
        exact mem_bucketEntries hmem
  | false =>
    rw [if_neg Bool.false_ne_true, ids_writeFilterBucket fun value => mem_bucketEntries]
    by_cases hkey : fromValue name v = key
    · subst hkey
      rw [if_pos rfl, if_pos rfl, if_neg Bool.false_ne_true, Finset.empty_union]
      exact ids_bucketEntries rfl
    · rw [if_neg hkey, if_neg hkey]

/-- The buckets that values of a field lie in. -/
theorem mem_bucketKeys {values : List UInt64} {n : String} : fromValue n v ∈ (values.map (fromValue name)).dedup ↔
      n = name ∧ ∃ w ∈ values, fromValue name w = .fromValue name v := by
  rw [List.mem_dedup, List.mem_map]
  constructor
  · rintro ⟨w, hw, hbucket⟩
    obtain rfl : name = n := congrArg FilterBucketKey.field hbucket
    exact ⟨rfl, w, hw, hbucket⟩
  · rintro ⟨rfl, w, hw, hbucket⟩
    exact ⟨w, hw, hbucket⟩

/-- What writing one field makes of a value's bitmap. -/
theorem ids_saveField {isLazy : Bool} {n : String} : (fs.saveField name ff isLazy).values.ids ⟨n, v⟩ =
      if n = name ∧ ∃ w ∈ ff.bitmaps, fromValue name w = .fromValue name v then
        (if isLazy then fs.values.ids ⟨n, v⟩ else ∅) ∪ ff.bits v
      else fs.values.ids ⟨n, v⟩ := by
  have hvisit := foldl_visit (k := fromValue n v)
    (f := fun (fs : FilterBitmapStore) key => fs.saveBucket ff isLazy key)
    (p := fun fs => fs.values.ids ⟨n, v⟩) (u := fun s => (if isLazy then s else ∅) ∪ ff.bits v)
    (by intro s; cases isLazy <;> simp [Finset.union_assoc])
    (by intro fs; rw [ids_saveBucket, if_pos rfl])
    (by intro fs key hkey; rw [ids_saveBucket, if_neg (Ne.symm hkey)])
    (ff.bitmaps.keys.map (fromValue name)).dedup fs
  rw [saveField, hvisit]
  simp only [mem_bucketKeys, mem_keys]

/-- A value without a neighbour in its bucket is not in memory. -/
theorem bits_of_no_neighbour (h : ¬∃ w ∈ ff.bitmaps, fromValue name w = .fromValue name v) : ff.bits v = ∅ :=
  FilterField.bits_of_none (lookup_eq_none.mpr fun hv => h ⟨v, hv, rfl⟩)

theorem ids_saveFields_step {skipFilters lazyValues : List String} {n : String} : (if name ∈ skipFilters then fs
      else if name ∈ lazyValues ∧ ff.bitmaps.entries = [] then fs
      else fs.saveField name ff (decide (name ∈ lazyValues))).values.ids ⟨n, v⟩ =
      if n = name then
        if name ∈ skipFilters then fs.values.ids ⟨name, v⟩
        else if name ∈ lazyValues then fs.values.ids ⟨name, v⟩ ∪ ff.bits v
        else if ∃ w ∈ ff.bitmaps, fromValue name w = .fromValue name v then ff.bits v
        else fs.values.ids ⟨name, v⟩
      else fs.values.ids ⟨n, v⟩ := by
  by_cases hn : n = name
  · subst hn
    rw [if_pos rfl]
    by_cases hskip : n ∈ skipFilters
    · rw [if_pos hskip, if_pos hskip]
    · rw [if_neg hskip, if_neg hskip]
      by_cases hlazy : n ∈ lazyValues
      · split
        · rename_i hempty
          have hnone : ¬∃ w ∈ ff.bitmaps, fromValue n w = .fromValue n v := by
            rintro ⟨w, hw, -⟩
            exact notMem_of_entries_eq_nil hempty.2 w hw
          rw [bits_of_no_neighbour hnone, Finset.union_empty]
        · rw [ids_saveField, decide_eq_true hlazy, if_pos rfl]
          split
          · rfl
          · rename_i hnone
            rw [bits_of_no_neighbour fun h => hnone ⟨rfl, h⟩, Finset.union_empty]
      · rw [if_neg fun h => hlazy h.1, if_neg hlazy, ids_saveField, decide_eq_false hlazy]
        simp
  · split
    · rfl
    · split
      · rfl
      · rw [ids_saveField, if_neg fun h => hn h.1]

/-- What a save makes of a value's bitmap. -/
theorem ids_saveFields {fields : HashMap String FilterField} {skipFilters lazyValues : List String}
    (hff : fields.lookup name = some ff) :
    (fs.saveFields fields skipFilters lazyValues).values.ids ⟨name, v⟩ =
      if name ∈ skipFilters then fs.values.ids ⟨name, v⟩
      else if name ∈ lazyValues then fs.values.ids ⟨name, v⟩ ∪ ff.bits v
      else if ∃ w ∈ ff.bitmaps, fromValue name w = .fromValue name v then ff.bits v
      else fs.values.ids ⟨name, v⟩ := by
  have hview : (fs.saveFields fields skipFilters lazyValues).values.ids ⟨name, v⟩ = _ :=
    view_foldl (m := fields) (s := fs) (k := name)
      (fun (fs : FilterBitmapStore) n => fs.values.ids ⟨n, v⟩) (fun n (ff : FilterField) s =>
        if n ∈ skipFilters then s
        else if n ∈ lazyValues then s ∪ ff.bits v
        else if ∃ w ∈ ff.bitmaps, fromValue n w = .fromValue n v then ff.bits v else s)
      (fun fs n ff n' => ids_saveFields_step)
  rw [hff] at hview
  exact hview

end FilterBitmapStore

namespace SortBitmapStore

variable {ss : SortBitmapStore} {f : String} {b : Nat}

theorem layer_writeSortLayers {layers : List Bitmap} (hlen : layers.length ≤ 255) (hb : b < layers.length) :
    (ss.writeSortLayers f layers).layer f b = layers[b] := by
  rw [layer, writeSortLayers, lookup_insert]
  ext x
  simp only [mem_ids_addAll, ids_empty, Finset.notMem_empty, List.mem_mapIdx, false_or]
  constructor
  · rintro ⟨_, ⟨i, hi, rfl⟩, hpos, hx⟩
    obtain rfl := (WriteBatch.ofNat_bitLayer_inj (by omega) (by omega)).mp hpos
    exact hx
  · intro hx
    exact ⟨_, ⟨b, hb, rfl⟩, rfl, hx⟩

theorem layer_writeSortLayers_ne {layers : List Bitmap} {name : String} (hf : f ≠ name) :
    (ss.writeSortLayers name layers).layer f b = ss.layer f b := by
  rw [layer, writeSortLayers, lookup_insert_ne hf]
  rfl

/-- What a save makes of a layer. -/
theorem layer_saveSorts {sorts : SortIndex} {sf : SortField} (hsf : sorts.getField f = some sf)
    (hwidth : sf.numBits ≤ 255) (hb : b < sf.numBits) (names skipSorts : List String) :
    (ss.saveSorts names sorts skipSorts).layer f b =
      if f ∈ names ∧ f ∉ skipSorts then sf.layer b else ss.layer f b := by
  have hlen : sf.fusedLayers.length = sf.numBits := by rw [SortField.fusedLayers, List.length_map]; rfl
  have hlayer : sf.fusedLayers[b] = sf.layer b := by
    have hb' : b < sf.bitLayers.length := hb
    simp [SortField.fusedLayers, SortField.layer, hb']
  have hvisit := foldl_visit (k := f)
    (f := fun (ss : SortBitmapStore) name =>
      if name ∈ skipSorts then ss
      else (sorts.getField name).elim ss fun sf => ss.writeSortLayers name sf.fusedLayers)
    (p := fun ss => ss.layer f b) (u := fun s => if f ∈ skipSorts then s else sf.layer b)
    (by intro s; split <;> rfl)
    (by
      intro ss
      split
      · rfl
      · rw [hsf, elim_some, layer_writeSortLayers (by omega) (by omega), hlayer])
    (by
      intro ss name hname
      split
      · rfl
      · cases sorts.getField name with
        | none => rfl
        | some sf => exact layer_writeSortLayers_ne (Ne.symm hname))
    names ss
  rw [saveSorts]
  grind

end SortBitmapStore

/-! ## Saving and restoring -/

namespace DataDir

variable {dir : DataDir} {cfg : Config} {skips : SaveSkips} {snap : IndexState}

theorem ids_saved_iff {f : String} {ff : FilterField} (hff : snap.filters.getField f = some ff) (v : UInt64) :
    (dir.writeInnerToStore cfg skips snap).filters.values.ids ⟨f, v⟩ = ff.bits v ↔ dir.ValueCleared skips f ff v := by
  have hids : (dir.writeInnerToStore cfg skips snap).filters.values.ids ⟨f, v⟩ = _ :=
    ids_saveFields hff
  rw [hids, ValueCleared]
  split
  · rfl
  · split
    · exact Finset.union_eq_right
    · split
      · rename_i hbucket
        obtain ⟨w, hw, heq⟩ := hbucket
        exact iff_of_true rfl fun hnone => absurd heq (hnone w hw)
      · rename_i hbucket
        rw [bits_of_no_neighbour hbucket]
        exact ⟨fun h _ => h, fun h => h fun w hw heq => hbucket ⟨w, hw, heq⟩⟩

theorem layer_saved_iff {f : String} {sf : SortField} (hsf : snap.sorts.getField f = some sf)
    (hwidth : sf.numBits ≤ 255) {b : Nat} (hb : b < sf.numBits) :
    (dir.writeInnerToStore cfg skips snap).sorts.layer f b = sf.layer b ↔
      (f ∈ skips.skipSorts ∨ f ∉ cfg.sortFields.map (·.name) → dir.sorts.layer f b = sf.layer b) := by
  have hlayer : (dir.writeInnerToStore cfg skips snap).sorts.layer f b = _ :=
    SortBitmapStore.layer_saveSorts hsf hwidth hb _ _
  grind

/-- **A save is exact** under its condition on the earlier content, and only then. A field has at most 255 layers (a
`u8`). -/
theorem restores_iff (hwidth : ∀ f sf, snap.sorts.getField f = some sf → sf.numBits ≤ 255) :
    (dir.writeInnerToStore cfg skips snap).Restores snap ↔ dir.SaveMeets cfg skips snap := by
  have hslots : (dir.writeInnerToStore cfg skips snap).restoreSlots = ⟨snap.slots.nextSlot, .new snap.slots.alive.fused,
        (dir.writeInnerToStore cfg skips snap).deferredAlive.getD []⟩ := rfl
  have hvalue : ∀ f v, (dir.writeInnerToStore cfg skips snap).restoreValue f v = if snap.slots.nextSlot = 0 then ∅
      else (dir.writeInnerToStore cfg skips snap).filters.values.ids ⟨f, v⟩ := by
    intro f v
    rw [restoreValue, lookup_loadField]
    rfl
  have hlayer : ∀ f bits b, b < bits → (dir.writeInnerToStore cfg skips snap).restoreLayer f bits b =
      if snap.slots.nextSlot = 0 then ∅ else (dir.writeInnerToStore cfg skips snap).sorts.layer f b := by
    intro f bits b hb
    rw [restoreLayer, hslots, SortBitmapStore.getD_loadSortLayers _ hb]
  constructor
  · intro h
    refine ⟨fun hcount => ?_, fun hzero => ⟨fun f ff hff v => ?_, fun f sf hsf b hb => ?_⟩,
      fun hcounter f ff hff v => ?_, fun hcounter f sf hsf hkept b hb => ?_⟩
    · have hdeferred := h.deferred
      rw [hslots] at hdeferred
      rw [← hdeferred, writeInnerToStore, hcount, if_neg (Nat.lt_irrefl 0)]
    · have hff := h.filters f ff hff v
      rw [hvalue, if_pos hzero] at hff
      exact hff.symm
    · have hsf := h.sorts f sf hsf b hb
      rw [hlayer _ _ _ hb, if_pos hzero] at hsf
      exact hsf.symm
    · have heq := h.filters f ff hff v
      rw [hvalue, if_neg hcounter] at heq
      exact (ids_saved_iff hff v).mp heq
    · have heq := h.sorts f sf hsf b hb
      rw [hlayer _ _ _ hb, if_neg hcounter] at heq
      exact (layer_saved_iff hsf (hwidth f sf hsf) hb).mp heq hkept
  · intro h
    refine ⟨?_, rfl, ?_, fun f sf hsf b hb => ?_, fun f ff hff v => ?_⟩
    · exact fused_new _
    · show (if 0 < snap.slots.deferredCount then some snap.slots.deferred else dir.deferredAlive).getD [] = _
      split
      · rfl
      · rename_i hcount
        exact h.deferred (Nat.eq_zero_of_not_pos hcount)
    · rw [hlayer _ _ _ hb]
      split
      · rename_i hzero
        exact ((h.unused hzero).2 f sf hsf b hb).symm
      · rename_i hcounter
        exact (layer_saved_iff hsf (hwidth f sf hsf) hb).mpr fun hkept => h.sorts hcounter f sf hsf hkept b hb
    · rw [hvalue]
      split
      · rename_i hzero
        exact ((h.unused hzero).1 f ff hff v).symm
      · rename_i hcounter
        exact (ids_saved_iff hff v).mpr (h.filters hcounter f ff hff v)

/-- A directory without files is no obstacle. -/
theorem saveMeets_empty (hcounter : snap.slots.nextSlot ≠ 0)
    (hdeferred : snap.slots.deferredCount = 0 → snap.slots.deferred = [])
    (hsorts : ∀ f sf, snap.sorts.getField f = some sf → f ∈ cfg.sortFields.map (·.name)) :
    empty.SaveMeets cfg ⟨[], [], []⟩ snap := by
  refine ⟨fun hcount => (hdeferred hcount).symm, fun hzero => absurd hzero hcounter, fun _ f ff _ v => ?_,
    fun _ f sf hsf hkept => ?_⟩
  · exact fun _ => ids_empty _
  · rcases hkept with hskip | hname
    · exact absurd hskip List.not_mem_nil
    · exact absurd (hsorts f sf hsf) hname

/-! ### A save over an earlier one -/

def savedConfig : Config := ⟨["a"], [⟨"v", 3, none⟩], [], none, List.nodup_singleton "a", List.nodup_singleton "v"⟩

def savedSorts : SortIndex := ⟨(∅ : HashMap String SortField).insert "v" ⟨[.new {1}, .newEmpty, .new {1}]⟩⟩

def savedFilters (value : UInt64) : FilterIndex :=
  ⟨(∅ : HashMap String FilterField).insert "a"
    ⟨(∅ : HashMap UInt64 VersionedBitmap).insert value (.new {1}), {}⟩⟩

/-- Slot 1 has the value 256, slot 2 waits for its time. -/
def earlierSnapshot : IndexState := ⟨⟨3, .new {1}, [(5, [2])]⟩, savedFilters 256, savedSorts⟩

/-- Slot 1 has the value 1 now, and slot 2 has been activated. -/
def laterSnapshot : IndexState := ⟨⟨3, .new {1, 2}, []⟩, savedFilters 1, savedSorts⟩

def savedOver (dir : DataDir) : DataDir := dir.writeInnerToStore savedConfig ⟨[], [], []⟩ laterSnapshot

/-- The deferred map of the first save stays, and so does the bucket of the value 256, which no value in
memory lies in. -/
theorem earlier_save_shows :
    let dir := savedOver (empty.writeInnerToStore savedConfig ⟨[], [], []⟩ earlierSnapshot)
    dir.restoreSlots.deferred = [(5, [2])] ∧ dir.restoreValue "a" 256 = {1} ∧
      laterSnapshot.slots.deferred = [] ∧ laterSnapshot.filters.bits "a" 256 = ∅ ∧
      ¬dir.Restores laterSnapshot := by
  intro dir
  have hdeferred : dir.restoreSlots.deferred = [(5, [2])] := by decide +kernel
  refine ⟨hdeferred, by decide +kernel, rfl, by decide +kernel, fun h => ?_⟩
  have hsame := h.deferred
  cases hsame

theorem savedSorts_width {f : String} {sf : SortField} (hsf : savedSorts.getField f = some sf) :
    f = "v" ∧ sf.numBits = 3 := by
  have hall : ∀ e ∈ savedSorts.fields.entries, e.1 = "v" ∧ e.2.numBits = 3 := by decide
  exact hall ⟨f, sf⟩ (List.of_mem_dlookup hsf)

/-- Into a directory without files the same snapshot is saved exactly. -/
theorem restores_laterSnapshot : (savedOver empty).Restores laterSnapshot := by
  refine (restores_iff fun f sf hsf => ?_).mpr (saveMeets_empty (by decide) (fun _ => rfl) fun f sf hsf => ?_)
  · rw [(savedSorts_width hsf).2]
    decide
  · rw [(savedSorts_width hsf).1]
    decide

end DataDir

end Bitdex
