import Bitdex.Engine.Save

/-!
# `Dump.Save` — writing the result of a dump phase

`save_phase_to_disk` writes the bitmaps that a dump phase has built over whatever the data directory holds. A filter
field is written bucket by bucket, for the buckets that a value of the phase lies in; a sort field only if one of its
layers has a slot; and for a phase that sets the alive set, that set and the slot counter, and the deferred map only
if it has an entry. Nothing is removed. `loadsPhase_iff` says for which phases and earlier contents the directory then
loads as the phase.
-/

namespace Bitdex

open List Option AList

open FilterBucketKey (fromValue)

/-- The result of a dump phase. A sort field has at most 255 layers, its width is a `u8`. -/
structure PhaseResult where
  filterMaps : HashMap String (Postings UInt64 UInt32)
  sortMaps : HashMap String (List Bitmap)
  alive : Bitmap
  deferredSlots : List (UInt64 × List UInt32)
  maxSlot : UInt32
  width : ∀ f layers, sortMaps.lookup f = some layers → layers.length ≤ 255

namespace PhaseResult

variable (result : PhaseResult)

/-- One above the greatest slot, with `saturating_add`. -/
def slotCounter : UInt32 :=
  let maxSlot := (result.deferredSlots.flatMap (·.2)).foldl max result.maxSlot
  if maxSlot = 0xFFFFFFFF then maxSlot else maxSlot + 1

/-- The greatest slot of the phase, or one it defers. -/
def HasSlot (slot : UInt32) : Prop := slot = result.maxSlot ∨ ∃ e ∈ result.deferredSlots, slot ∈ e.2

/-- The counter that follows the greatest slot of the phase, as far as a `u32` goes. -/
def IsNextSlot (counter : UInt32) : Prop :=
  ∃ slot, result.HasSlot slot ∧ (∀ slot', result.HasSlot slot' → slot' ≤ slot) ∧
    counter.toNat = min (slot.toNat + 1) (UInt32.size - 1)

end PhaseResult

/-! ## Writing -/

namespace FilterBitmapStore

variable (fs : FilterBitmapStore)

/-- The values of a phase that lie in a bucket. -/
def phaseEntries (values : Postings UInt64 UInt32) (key : FilterBucketKey) : Postings UInt64 UInt32 :=
  values.filterMap fun value bitmap =>
    if fromValue key.field value = key then some bitmap else none

/-- Write the buckets that values of the phase lie in. -/
def savePhaseField (name : String) (values : Postings UInt64 UInt32) : FilterBitmapStore :=
  (values.keys.map (fromValue name)).dedup.foldl
    (fun fs key => fs.writeFilterBucket key (phaseEntries values key)) fs

/-- Write the filter bitmaps of a phase. -/
def savePhaseFields (maps : HashMap String (Postings UInt64 UInt32)) : FilterBitmapStore :=
  maps.entries.foldl (fun fs e => if e.2.entries = [] then fs else fs.savePhaseField e.1 e.2) fs

end FilterBitmapStore

/-- Write the sort fields of a phase that have a slot in a layer. -/
def SortBitmapStore.savePhaseSorts (ss : SortBitmapStore) (maps : HashMap String (List Bitmap)) :
    SortBitmapStore :=
  maps.entries.foldl (fun ss e =>
    if e.2 ≠ [] ∧ ∃ bitmap ∈ e.2, bitmap ≠ ∅ then ss.writeSortLayers e.1 e.2 else ss) ss

namespace DataDir

variable (dir : DataDir)

/-- Write a phase. -/
def savePhaseToDisk (result : PhaseResult) (setsAlive : Bool) : DataDir where
  filters := dir.filters.savePhaseFields result.filterMaps
  sorts := dir.sorts.savePhaseSorts result.sortMaps
  alive := if setsAlive then some result.alive else dir.alive
  slotCounter := if setsAlive then some result.slotCounter else dir.slotCounter
  deferredAlive := if setsAlive ∧ result.deferredSlots ≠ [] then some result.deferredSlots else dir.deferredAlive

/-- The directory loads as the phase: all its fields and, for a phase that sets the alive set, the allocator. -/
structure LoadsPhase (result : PhaseResult) (setsAlive : Bool) : Prop where
  filters : ∀ f values, result.filterMaps.lookup f = some values → ∀ v,
    (dir.filters.loadField f).lookup v = values.lookup v
  sorts : ∀ f layers, result.sortMaps.lookup f = some layers →
    (dir.sorts.loadSortLayers f layers.length).getD (replicate layers.length ∅) = layers
  alive : setsAlive → dir.alive = some result.alive
  slotCounter : setsAlive → ∃ counter, dir.slotCounter = some counter ∧ result.IsNextSlot counter
  deferred : setsAlive → dir.deferredAlive.getD [] = result.deferredSlots

/-- Nothing in the earlier content outlives the phase. -/
structure PhaseMeets (result : PhaseResult) (setsAlive : Bool) : Prop where
  /-- Every value on disk shares its bucket with one of the phase. -/
  filters : ∀ f values, result.filterMaps.lookup f = some values → ∀ v bitmap,
    dir.filters.values.lookup ⟨f, v⟩ = some bitmap →
      ∃ w ∈ values, fromValue f w = fromValue f v
  /-- A sort field without a slot is not written. -/
  sorts : ∀ f layers, result.sortMaps.lookup f = some layers → (∀ bitmap ∈ layers, bitmap = ∅) →
    ∀ b < layers.length, dir.sorts.layer f b = ∅
  /-- A map without an entry is not written. -/
  deferred : setsAlive → result.deferredSlots = [] → dir.deferredAlive.getD [] = []

end DataDir

/-! ## What a save writes -/

namespace PhaseResult

theorem foldl_max_spec (slots : List UInt32) (m : UInt32) :
    (slots.foldl max m = m ∨ slots.foldl max m ∈ slots) ∧ m ≤ slots.foldl max m ∧
      ∀ slot ∈ slots, slot ≤ slots.foldl max m := by
  induction slots generalizing m with
  | nil => exact ⟨.inl rfl, UInt32.le_refl m, fun slot h => absurd h not_mem_nil⟩
  | cons slot slots ih =>
    obtain ⟨hmem, hle, hall⟩ := ih (max m slot)
    have hmax : max m slot = if m ≤ slot then slot else m := rfl
    rw [foldl_cons]
    rw [hmax] at hmem hle hall ⊢
    split at hmem
    · rename_i hms
      grind
    · rename_i hms
      grind

theorem isNextSlot_slotCounter (result : PhaseResult) : result.IsNextSlot result.slotCounter := by
  obtain ⟨hmem, hle, hall⟩ := foldl_max_spec (result.deferredSlots.flatMap (·.2)) result.maxSlot
  refine ⟨_, hmem.imp id mem_flatMap.mp, ?_, ?_⟩
  · rintro slot (rfl | hslot)
    · exact hle
    · exact hall slot (mem_flatMap.mpr hslot)
  · rw [slotCounter]
    generalize (result.deferredSlots.flatMap (·.2)).foldl max result.maxSlot = m
    have hlt := m.toNat_lt
    split
    · rename_i hm
      subst hm
      decide
    · rename_i hm
      have hne : m.toNat ≠ 0xFFFFFFFF := fun heq => hm (UInt32.toNat_inj.mp heq)
      rw [UInt32.size]
      show (m.toNat + 1) % 2 ^ 32 = _
      omega

end PhaseResult

namespace FilterBitmapStore

variable {fs : FilterBitmapStore} {values : Postings UInt64 UInt32} {key : FilterBucketKey} {name n : String}
  {v : UInt64}

theorem lookup_phaseEntries :
    (phaseEntries values key).lookup v = if fromValue key.field v = key then values.lookup v else none := by
  rw [phaseEntries, lookup_filterMap]
  cases values.lookup v with
  | none => split <;> rfl
  | some bitmap => rfl

theorem mem_phaseEntries (hv : v ∈ phaseEntries values key) : fromValue key.field v = key := by
  by_contra hne
  have hnone : (phaseEntries values key).lookup v = none := by
    rw [lookup_phaseEntries, if_neg hne]
  exact lookup_eq_none.mp hnone hv

/-- In a bucket that has been written, a value is read as the phase has it. -/
theorem lookup_savePhaseField : (fs.savePhaseField name values).values.lookup ⟨n, v⟩ =
      if n = name ∧ ∃ w ∈ values, fromValue name w = .fromValue name v then values.lookup v
      else fs.values.lookup ⟨n, v⟩ := by
  have hbucket : ∀ (fs : FilterBitmapStore) key,
      (fs.writeFilterBucket key (phaseEntries values key)).values.lookup ⟨n, v⟩ =
        if fromValue n v = key then values.lookup v else fs.values.lookup ⟨n, v⟩ := by
    intro fs key
    rw [lookup_writeFilterBucket fun value => mem_phaseEntries]
    split
    · rename_i hkey
      subst hkey
      exact lookup_phaseEntries.trans (if_pos rfl)
    · rfl
  have hvisit := Postings.foldl_visit (k := fromValue n v)
    (f := fun (fs : FilterBitmapStore) key => fs.writeFilterBucket key (phaseEntries values key))
    (p := fun fs => fs.values.lookup ⟨n, v⟩) (u := fun _ => values.lookup v)
    (fun _ => rfl)
    (fun fs => (hbucket fs _).trans (if_pos rfl))
    (fun fs key hkey => (hbucket fs key).trans (if_neg (Ne.symm hkey)))
    (values.keys.map (fromValue name)).dedup fs
  rw [savePhaseField, hvisit]
  simp only [mem_bucketKeys, AList.mem_keys]

theorem lookup_savePhaseFields_step :
    (if values.entries = [] then fs else fs.savePhaseField name values).values.lookup ⟨n, v⟩ = if n = name then
        if ∃ w ∈ values, fromValue name w = .fromValue name v then values.lookup v
        else fs.values.lookup ⟨name, v⟩
      else fs.values.lookup ⟨n, v⟩ := by
  by_cases hempty : values.entries = []
  · -- a field without values is skipped, and has no bucket either
    have hnone : ¬∃ w ∈ values, fromValue name w = .fromValue name v := by
      rintro ⟨w, hw, -⟩
      exact notMem_of_entries_eq_nil hempty w hw
    rw [if_pos hempty]
    split
    · rename_i hn
      rw [hn]
    · rfl
  · rw [if_neg hempty, lookup_savePhaseField]
    by_cases hn : n = name
    · subst hn
      simp
    · rw [if_neg fun h => hn h.1, if_neg hn]

/-- What a save makes of a filter field of the phase. -/
theorem lookup_savePhaseFields {maps : HashMap String (Postings UInt64 UInt32)}
    (hvalues : maps.lookup name = some values) :
    (fs.savePhaseFields maps).values.lookup ⟨name, v⟩ =
      if ∃ w ∈ values, fromValue name w = .fromValue name v then values.lookup v
      else fs.values.lookup ⟨name, v⟩ := by
  have hview : (fs.savePhaseFields maps).values.lookup ⟨name, v⟩ = _ :=
    view_foldl (m := maps) (s := fs) (k := name)
      (fun (fs : FilterBitmapStore) n => fs.values.lookup ⟨n, v⟩)
      (fun n (values : Postings UInt64 UInt32) found =>
        if ∃ w ∈ values, fromValue n w = .fromValue n v then values.lookup v else found)
      (fun fs name values n => lookup_savePhaseFields_step)
  rw [hvalues] at hview
  exact hview

end FilterBitmapStore

namespace SortBitmapStore

variable {ss : SortBitmapStore} {f : String} {layers : List Bitmap}

/-- A field loads as given layers if each of them does. -/
theorem getD_loadSortLayers_eq_iff : (ss.loadSortLayers f layers.length).getD (replicate layers.length ∅) = layers ↔
      ∀ b (hb : b < layers.length), ss.layer f b = layers[b] := by
  have hloaded : ∀ b, ((ss.loadSortLayers f layers.length).getD (replicate layers.length ∅))[b]? =
      if b < layers.length then some (ss.layer f b) else none := by
    intro b
    cases hload : ss.loadSortLayers f layers.length with
    | none =>
      rw [getD_none, getElem?_replicate]
      split
      · rename_i hb
        rw [ss.layer_eq_empty hload hb]
      · rfl
    | some loaded => rw [getD_some, ss.getElem?_loadSortLayers hload]
  constructor
  · intro h b hb
    have hget := hloaded b
    rw [h, getElem?_eq_getElem hb, if_pos hb] at hget
    exact (some.inj hget).symm
  · intro h
    apply ext_getElem?
    intro b
    rw [hloaded b]
    split
    · rename_i hb
      rw [h b hb, getElem?_eq_getElem hb]
    · rename_i hb
      rw [getElem?_eq_none (Nat.not_lt.mp hb)]

/-- The packed shard of a field is replaced, whatever store it was written to. -/
theorem layer_savePhaseSorts_step {ss₀ : SortBitmapStore} {name : String} {b : Nat} :
    (if layers ≠ [] ∧ ∃ bitmap ∈ layers, bitmap ≠ ∅ then ss.writeSortLayers name layers else ss).layer f b =
      if f = name then
        if layers ≠ [] ∧ ∃ bitmap ∈ layers, bitmap ≠ ∅ then (ss₀.writeSortLayers name layers).layer name b
        else ss.layer name b
      else ss.layer f b := by
  by_cases hf : f = name
  · subst hf
    rw [if_pos rfl]
    split
    · rw [layer, layer, writeSortLayers, writeSortLayers, lookup_insert, lookup_insert]
    · rfl
  · split
    · exact layer_writeSortLayers_ne hf
    · rfl

/-- What a save makes of a sort field of the phase. -/
theorem layer_savePhaseSorts {maps : HashMap String (List Bitmap)} (hlayers : maps.lookup f = some layers)
    (hwidth : layers.length ≤ 255) {b : Nat} (hb : b < layers.length) :
    (ss.savePhaseSorts maps).layer f b = if ∃ bitmap ∈ layers, bitmap ≠ ∅ then layers[b] else ss.layer f b := by
  have hview : (ss.savePhaseSorts maps).layer f b = _ :=
    view_foldl (m := maps) (s := ss) (k := f) (fun (ss : SortBitmapStore) n => ss.layer n b)
      (fun n (layers : List Bitmap) found =>
        if layers ≠ [] ∧ ∃ bitmap ∈ layers, bitmap ≠ ∅ then (ss.writeSortLayers n layers).layer n b
        else found)
      (fun ss name layers n => layer_savePhaseSorts_step)
  have hne : layers ≠ [] := ne_nil_of_length_pos (Nat.zero_lt_of_lt hb)
  rw [hlayers] at hview
  rw [hview, elim_some, layer_writeSortLayers hwidth hb]
  simp [hne]

end SortBitmapStore

/-! ## Saving and loading -/

namespace DataDir

variable {dir : DataDir} {result : PhaseResult} {setsAlive : Bool}

theorem loadField_saved_iff {f : String} {values : Postings UInt64 UInt32}
    (hvalues : result.filterMaps.lookup f = some values) (v : UInt64) :
    ((dir.savePhaseToDisk result setsAlive).filters.loadField f).lookup v = values.lookup v ↔
      ∀ bitmap, dir.filters.values.lookup ⟨f, v⟩ = some bitmap → ∃ w ∈ values, fromValue f w = fromValue f v := by
  have hlookup : (dir.savePhaseToDisk result setsAlive).filters.values.lookup ⟨f, v⟩ = _ :=
    FilterBitmapStore.lookup_savePhaseFields hvalues
  rw [FilterBitmapStore.lookup_loadField, hlookup]
  split
  · rename_i hbucket
    exact iff_of_true rfl fun _ _ => hbucket
  · rename_i hbucket
    -- the phase has no value in this bucket, so none may be found
    have hnone : values.lookup v = none := lookup_eq_none.mpr fun hv => hbucket ⟨v, hv, rfl⟩
    rw [hnone]
    cases dir.filters.values.lookup ⟨f, v⟩ with
    | none => exact iff_of_true rfl fun bitmap h => absurd h (by simp)
    | some bitmap => exact iff_of_false (by simp) fun h => hbucket (h bitmap rfl)

theorem loadSortLayers_saved_iff {f : String} {layers : List Bitmap}
    (hlayers : result.sortMaps.lookup f = some layers) :
    ((dir.savePhaseToDisk result setsAlive).sorts.loadSortLayers f layers.length).getD
        (replicate layers.length ∅) = layers ↔
      ((∀ bitmap ∈ layers, bitmap = ∅) → ∀ b < layers.length, dir.sorts.layer f b = ∅) := by
  have hlayer : ∀ b (hb : b < layers.length), (dir.savePhaseToDisk result setsAlive).sorts.layer f b = _ :=
    fun b hb => SortBitmapStore.layer_savePhaseSorts hlayers (result.width f layers hlayers) hb
  rw [SortBitmapStore.getD_loadSortLayers_eq_iff]
  constructor
  · intro h hempty b hb
    have hb' := h b hb
    rw [hlayer b hb, if_neg (by simpa using hempty), hempty _ (getElem_mem hb)] at hb'
    exact hb'
  · intro h b hb
    rw [hlayer b hb]
    split
    · rfl
    · rename_i hempty
      have hempty : ∀ bitmap ∈ layers, bitmap = ∅ := by simpa using hempty
      rw [h hempty b hb, hempty _ (getElem_mem hb)]

/-- **A saved phase loads as the phase** if nothing in the earlier content outlives it, and only then. -/
theorem loadsPhase_iff (dir : DataDir) (result : PhaseResult) (setsAlive : Bool) :
    (dir.savePhaseToDisk result setsAlive).LoadsPhase result setsAlive ↔ dir.PhaseMeets result setsAlive := by
  have hdeferred : (dir.savePhaseToDisk result setsAlive).deferredAlive =
      if setsAlive ∧ result.deferredSlots ≠ [] then some result.deferredSlots else dir.deferredAlive := rfl
  constructor
  · intro h
    refine ⟨fun f values hvalues v => (loadField_saved_iff hvalues v).mp (h.filters f values hvalues v),
      fun f layers hlayers => (loadSortLayers_saved_iff hlayers).mp (h.sorts f layers hlayers),
      fun hsets hnil => ?_⟩
    have hloaded := h.deferred hsets
    rw [hdeferred, if_neg fun hwritten => hwritten.2 hnil, hnil] at hloaded
    exact hloaded
  · intro h
    refine ⟨fun f values hvalues v => (loadField_saved_iff hvalues v).mpr (h.filters f values hvalues v),
      fun f layers hlayers => (loadSortLayers_saved_iff hlayers).mpr (h.sorts f layers hlayers),
      fun hsets => if_pos hsets,
      fun hsets => ⟨_, if_pos hsets, result.isNextSlot_slotCounter⟩, fun hsets => ?_⟩
    rw [hdeferred]
    by_cases hnil : result.deferredSlots = []
    · rw [if_neg fun hwritten => hwritten.2 hnil, hnil, h.deferred hsets hnil]
    · rw [if_pos ⟨hsets, hnil⟩]
      rfl

/-! ### A phase over an earlier one -/

/-- A phase with one value of the filter field `a` and the sort field `v`. -/
def phase (value : UInt64) (layers : List Bitmap) (hwidth : layers.length ≤ 255)
    (deferredSlots : List (UInt64 × List UInt32)) : PhaseResult where
  filterMaps := (∅ : HashMap String (Postings UInt64 UInt32)).insert "a"
    ((∅ : Postings UInt64 UInt32).insert value {1})
  sortMaps := (∅ : HashMap String (List Bitmap)).insert "v" layers
  alive := {1}
  deferredSlots
  maxSlot := 1
  width f layers' h := by
    by_cases hf : f = "v"
    · subst hf
      obtain rfl := some.inj ((lookup_insert _).symm.trans h)
      exact hwidth
    · rw [lookup_insert_ne hf, lookup_empty] at h
      cases h

/-- Slot 1 has the values 256 and 5, slot 2 waits for its time. -/
def earlierPhase : PhaseResult := phase 256 [{1}, ∅, {1}] (by decide) [(5, [2])]

/-- Slot 1 has the values 1 and 0 now, and slot 2 is gone. -/
def laterPhase : PhaseResult := phase 1 [∅, ∅, ∅] (by decide) []

/-- The bucket of the value 256, the layers of `v` and the schedule of the first phase stay. -/
theorem earlier_phase_shows :
    let dir := (empty.savePhaseToDisk earlierPhase true).savePhaseToDisk laterPhase true
    (dir.filters.loadField "a").lookup 256 = some {1} ∧
      dir.sorts.loadSortLayers "v" 3 = some [{1}, ∅, {1}] ∧ dir.deferredAlive = some [(5, [2])] ∧
      laterPhase.deferredSlots = [] ∧ ¬dir.LoadsPhase laterPhase true := by
  intro dir
  have hdeferred : dir.deferredAlive = some [(5, [2])] := by decide +kernel
  refine ⟨by decide +kernel, by decide +kernel, hdeferred, rfl, fun h => ?_⟩
  have hsame := h.deferred rfl
  cases hsame

end DataDir

end Bitdex
