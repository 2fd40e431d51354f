import Bitdex.Write.Parts
import Bitdex.Engine.FlushThread

/-!
# `Engine.Mirror` — an index that is partly on disk

A value or layer that is not resident is a placeholder: its pending changes wait in memory for the bitmap on disk, so
an index with placeholders stands for bitmaps only together with a disk (`standsFor`). A value that is not in memory
at all is on disk only if its field is parked: values of it have been evicted or unloaded. `Mirrors` and `Durable` say
that the index over its disk, and the disk itself, hold what an index holds that was never unloaded.
-/

namespace Bitdex

open VersionedBitmap FilterField FilterIndex Option

/-! ## One bitmap -/

namespace VersionedBitmap

variable {vb : VersionedBitmap} {data disk s : Bitmap}

/-- Data read from disk earlier has no bit the disk has lost since, unless a pending change clears it; for a
placeholder it lacks only bits with a pending change. -/
def FreshFor (vb : VersionedBitmap) (data disk : Bitmap) : Prop :=
  (∀ x ∈ data, x ∈ disk ∨ x ∈ vb.diff.clears) ∧
    (vb.isLoaded = false → ∀ x ∈ disk, x ∈ data ∨ x ∈ vb.diff.sets ∨ x ∈ vb.diff.clears)

/-- What is on disk now is fresh. -/
theorem freshFor_self : vb.FreshFor disk disk := ⟨fun _ hx => .inl hx, fun _ _ hx => .inl hx⟩

/-- A bitmap that is right over one disk is right over a disk that is right itself. -/
theorem content_eq_self (h : vb.content disk = s) : vb.content s = s := by
  ext x
  have hx : x ∈ vb.content disk ↔ x ∈ s := by rw [h]
  rw [mem_content] at hx ⊢
  by_cases hset : x ∈ vb.diff.sets
  · exact iff_of_true (.inl hset) (hx.mp (.inl hset))
  · by_cases hclear : x ∈ vb.diff.clears
    · refine iff_of_false (by tauto) fun hs => ?_
      rcases hx.mpr hs with h' | h'
      · exact hset h'
      · exact h'.2 hclear
    · cases hloaded : vb.isLoaded with
      | true =>
        simp only [hloaded, Bool.true_eq_false, false_and, or_false] at hx ⊢
        exact hx
      | false =>
        tauto

/-- What is in memory counts whatever is on disk. -/
theorem fused_subset_content : vb.fused ⊆ vb.content disk := by
  intro x hx
  rw [mem_content]
  rcases mem_fused.mp hx with hset | ⟨hbase, hclear⟩
  · exact .inl hset
  · exact .inr ⟨.inl hbase, hclear⟩

theorem content_empty : vb.content ∅ = vb.fused := by
  ext x
  rw [mem_content, mem_fused]
  simp

/-- Fresh enough data, with the pending changes and, in a resident bitmap, the base, is what the disk has. -/
theorem mem_disk_iff_of_fresh (h : vb.content disk = disk) (hfresh : vb.FreshFor data disk) {x : UInt32} {counts : Prop}
    (hbase : counts → x ∈ vb.base) (hresident : vb.isLoaded = true → x ∈ vb.base → counts) :
    x ∈ vb.diff.sets ∨ (counts ∨ x ∈ data) ∧ x ∉ vb.diff.clears ↔ x ∈ disk := by
  have hx : x ∈ vb.content disk ↔ x ∈ disk := by rw [h]
  have hold := hfresh.1 x
  have hnew := hfresh.2
  rw [mem_content] at hx
  cases hloaded : vb.isLoaded with
  | true =>
    grind
  | false =>
    grind

/-- **Loading** data that is fresh enough gives the bitmap on disk. -/
theorem fused_loadBase_of_fresh (h : vb.content disk = disk) (hfresh : vb.FreshFor data disk) :
    (vb.loadBase data).fused = disk := by
  ext x
  rw [mem_fused_loadBase]
  exact mem_disk_iff_of_fresh h hfresh id fun _ hbase => hbase

/-- The same where the data replaces an empty base or a placeholder. -/
theorem fused_replaceBasePreserveDiff_of_fresh (h : vb.content disk = disk)
    (hfresh : vb.FreshFor data disk) : (vb.replaceBasePreserveDiff data).fused = disk := by
  rw [replaceBasePreserveDiff]
  split
  · rename_i hresident
    rw [← content_of_loaded hresident.1 disk, h]
  · rename_i hnot
    ext x
    rw [mem_fused, ← mem_disk_iff_of_fresh (x := x) h hfresh False.elim, false_or]
    -- a resident bitmap takes new data only if its base is empty
    exact fun hloaded hbase => hnot ⟨hloaded, Finset.ne_empty_of_mem hbase⟩

theorem isLoaded_replaceBasePreserveDiff : (vb.replaceBasePreserveDiff data).isLoaded = true := by
  rw [replaceBasePreserveDiff]
  split
  · rename_i hresident
    exact hresident.1
  · rfl

end VersionedBitmap

/-! ## One value over a disk -/

/-- What a value of a filter field stands for: its bitmap over the one on disk, or the latter alone if not in memory
and its field is parked. -/
def overValue (parked : Bool) (disk : Bitmap) : Option (FilterFieldConfig × Option VersionedBitmap) → Bitmap
  | none => ∅
  | some (_, some vb) => vb.content disk
  | some (_, none) => if parked then disk else ∅

section Value

variable {parked : Bool} {disk data : Bitmap} {config : FilterFieldConfig} {vb? : Option VersionedBitmap}
  {slots : List UInt32} {x : UInt32}

theorem mem_overValue_removeBulk (hground : vb? = none → parked = false → disk = ∅) :
    x ∈ overValue parked disk (some (config, some ((vb?.getD .newUnloaded).removeBulk slots))) ↔
      x ∉ slots ∧ x ∈ overValue parked disk (some (config, vb?)) := by
  rw [overValue, mem_content_removeBulk]
  cases vb? with
  | some vb => rfl
  | none =>
    rw [getD_none, content_newUnloaded]
    cases parked with
    | true => rfl
    | false =>
      rw [hground rfl rfl]
      rfl

theorem mem_overValue_insertBulk (hground : vb? = none → parked = false → disk = ∅)
    (hcovered : vb? = none → parked = true → (new config).isLazyField = false → disk = ∅) : x ∈ overValue parked disk
        (some (config, some ((vb?.getD (new config).newInsertedVb).insertBulk slots))) ↔
      x ∈ slots ∨ x ∈ overValue parked disk (some (config, vb?)) := by
  rw [overValue, mem_content_insertBulk]
  cases vb? with
  | some vb => rfl
  | none =>
    have hempty : newEmpty.content disk = ∅ := by
      rw [content_of_loaded rfl, newEmpty, fused_new]
    rw [getD_none, newInsertedVb]
    cases hlazy : (new config).isLazyField with
    | true =>
      rw [if_pos rfl, content_newUnloaded]
      cases parked with
      | true => rfl
      | false =>
        rw [hground rfl rfl]
        rfl
    | false =>
      -- the value becomes resident without a look at the disk
      cases parked with
      | true =>
        rw [hcovered rfl rfl hlazy]
        rfl
      | false => rfl

/-- A value loaded with fresh data stands for the bitmap on disk. -/
theorem overValue_loadBase (h : overValue parked disk (some (config, vb?)) = disk)
    (hfresh : (vb?.getD .newUnloaded).FreshFor data disk) :
    overValue parked disk (some (config, some ((vb?.getD .newUnloaded).loadBase data))) = disk := by
  refine fused_loadBase_of_fresh ?_ hfresh
  cases vb? with
  | some vb => exact h
  | none => exact content_newUnloaded disk

end Value

/-! ## The index over a disk -/

namespace IndexState

variable (st : IndexState) (parked : List String) (disk : Target → Bitmap)

/-- The bitmap a target stands for. -/
def standsFor : Target → Bitmap
  | .filter f v => overValue (decide (f ∈ parked)) (disk (.filter f v)) (st.filters.valueAt ⟨f, v⟩)
  | .sort f b => (st.sorts.layerAt f b).elim ∅ (·.content (disk (.sort f b)))
  | .alive => st.slots.alive.fused

/-- Where the batch inserts into a value not in memory, of a parked field without placeholders, nothing is on disk. -/
def InsertsCovered (b : WriteBatch) : Prop :=
  ∀ g ∈ b.filterInserts, ∀ config, st.filters.valueAt g = some (config, none) → g.field ∈ parked →
    (new config).isLazyField = false → disk (.filter g.field g.value) = ∅

/-- The data is fresh for the bitmaps it is loaded into. -/
def Fresh : LazyLoad → Prop
  | .filterField name bitmaps =>
    ∀ v config vb?, st.filters.valueAt ⟨name, v⟩ = some (config, vb?) →
      (vb?.getD .newUnloaded).FreshFor ((bitmaps.lookup v).getD ∅) (disk (.filter name v))
  | .filterValues field values requested =>
    ∀ v ∈ requested, ∀ config vb?, st.filters.valueAt ⟨field, v⟩ = some (config, vb?) →
      (vb?.getD .newUnloaded).FreshFor ((values.lookup v).getD ∅) (disk (.filter field v))
  | .sortField name layers =>
    ∀ b vb data, st.sorts.layerAt name b = some vb → layers[b]? = some data →
      vb.FreshFor data (disk (.sort name b))
  | .slots slots => slots.alive.fused = st.slots.alive.fused

/-- Every load is fresh when its turn comes. -/
def FreshLoads (st : IndexState) : List LazyLoad → Prop
  | [] => True
  | load :: loads => st.Fresh disk load ∧ FreshLoads (st.applyLoad load) loads

variable {st parked disk} {t : Target} {x : UInt32} {f : String} {v : UInt64} {b : Nat}

theorem has_filter_iff : st.Has (.filter f v) ↔ ∃ p, st.filters.valueAt ⟨f, v⟩ = some p := by
  rw [← isSome_iff_exists, isSome_valueAt]
  rfl

theorem has_sort_iff : st.Has (.sort f b) ↔ ∃ vb, st.sorts.layerAt f b = some vb := by
  rw [← isSome_iff_exists, SortIndex.isSome_layerAt, decide_eq_true_iff]
  rfl

theorem standsFor_filter {p : FilterFieldConfig × Option VersionedBitmap} (h : st.filters.valueAt ⟨f, v⟩ = some p) :
    st.standsFor parked disk (.filter f v) = overValue (decide (f ∈ parked)) (disk (.filter f v)) (some p) := by
  rw [standsFor, h]

theorem standsFor_sort {vb : VersionedBitmap} (h : st.sorts.layerAt f b = some vb) :
    st.standsFor parked disk (.sort f b) = vb.content (disk (.sort f b)) := by
  rw [standsFor, h, elim_some]

/-- **Ops over a disk.** A batch writes the same bits into a placeholder as into a resident bitmap. -/
theorem mem_standsFor_applyBatch {b : WriteBatch} (hhas : st.Has t)
    (hground : ∀ f v config, st.filters.valueAt ⟨f, v⟩ = some (config, none) → f ∉ parked → disk (.filter f v) = ∅)
    (hcovered : st.InsertsCovered parked disk b) :
    x ∈ (st.applyBatch b).standsFor parked disk t ↔ if x ∈ b.group t t.preferred then t.preferred = true
      else if x ∈ b.group t (!t.preferred) then t.preferred = false
      else x ∈ st.standsFor parked disk t := by
  cases t with
  | alive =>
    show x ∈ (st.slots.applyAlive b).alive.fused ↔ _
    rw [SlotAllocator.mem_alive_applyAlive]
    simp only [Target.preferred, WriteBatch.group, standsFor, Bool.not_false]
    grind
  | sort f n =>
    obtain ⟨vb, hvb⟩ := has_sort_iff.mp hhas
    have hafter : (st.sorts.applyGroups b.sortSets b.sortClears).layerAt f n = some
        (((b.sortClears.lookup ⟨f, n⟩).elim vb fun slots => vb.removeBulk (Bitmap.iter slots)) |> fun vb =>
          (b.sortSets.lookup ⟨f, n⟩).elim vb fun slots => vb.insertBulk (Bitmap.iter slots)) := by
      rw [SortIndex.applyGroups, SortIndex.layerAt_setGroups, SortIndex.layerAt_clearGroups, hvb]
      cases b.sortSets.lookup ⟨f, n⟩ <;> cases b.sortClears.lookup ⟨f, n⟩ <;> rfl
    have hover : (st.applyBatch b).standsFor parked disk (.sort f n) = _ := standsFor_sort hafter
    rw [hover, standsFor_sort hvb]
    simp only [Target.preferred, WriteBatch.group, Postings.ids, Bool.not_true]
    cases b.sortSets.lookup ⟨f, n⟩ <;> cases b.sortClears.lookup ⟨f, n⟩ <;>
      simp [mem_content_insertBulk, mem_content_removeBulk] <;> grind
  | filter f v =>
    obtain ⟨⟨config, vb?⟩, hvb⟩ := has_filter_iff.mp hhas
    have hg : vb? = none → decide (f ∈ parked) = false → disk (.filter f v) = ∅ := by
      intro hnone hparked
      subst hnone
      exact hground f v config hvb (of_decide_eq_false hparked)
    -- the removes come first; they make a placeholder of a value that is not in memory
    obtain ⟨vb₁?, hvb₁, hsame, hmem₁⟩ : ∃ vb₁?, (st.filters.removeGroups b.filterRemoves).valueAt ⟨f, v⟩ =
        some (config, vb₁?) ∧ (vb₁? = none → vb? = none) ∧
        (x ∈ overValue (decide (f ∈ parked)) (disk (.filter f v)) (some (config, vb₁?)) ↔
          x ∉ b.filterRemoves.ids ⟨f, v⟩ ∧
            x ∈ overValue (decide (f ∈ parked)) (disk (.filter f v)) (some (config, vb?))) := by
      rw [valueAt_removeGroups, hvb, Postings.ids]
      cases b.filterRemoves.lookup ⟨f, v⟩ with
      | none => exact ⟨vb?, rfl, id, by simp⟩
      | some slots =>
        exact ⟨_, rfl, fun h => absurd h (some_ne_none _), by simp [mem_overValue_removeBulk hg]⟩
    rw [standsFor_filter hvb]
    have hafter : x ∈ (st.applyBatch b).standsFor parked disk (.filter f v) ↔ x ∈ b.filterInserts.ids ⟨f, v⟩ ∨
        x ∈ overValue (decide (f ∈ parked)) (disk (.filter f v)) (some (config, vb₁?)) := by
      show x ∈ overValue _ _ ((st.filters.applyGroups b.filterInserts b.filterRemoves).valueAt ⟨f, v⟩) ↔ _
      rw [applyGroups, valueAt_insertGroups, hvb₁, Postings.ids]
      cases hins : b.filterInserts.lookup ⟨f, v⟩ with
      | none => simp
      | some slots =>
        have hmem : (⟨f, v⟩ : FilterGroupKey) ∈ b.filterInserts := AList.lookup_isSome.mp (by rw [hins]; rfl)
        have hcov : vb₁? = none → decide (f ∈ parked) = true →
            (new config).isLazyField = false → disk (.filter f v) = ∅ := by
          intro hnone hparked hlazy
          exact hcovered ⟨f, v⟩ hmem config (hsame hnone ▸ hvb) (of_decide_eq_true hparked) hlazy
        rw [elim_some, map_some, mem_overValue_insertBulk (fun hnone => hg (hsame hnone)) hcov]
        simp
    simp only [Target.preferred, WriteBatch.group, Bool.not_true]
    grind

end IndexState

/-! ## Mirrors -/

/-- The index over the disk holds what `resident` holds. -/
structure Mirrors (parked : List String) (disk : Target → Bitmap) (st resident : IndexState) : Prop where
  has : ∀ t, st.Has t ↔ resident.Has t
  standsFor : ∀ t, st.Has t → st.standsFor parked disk t = resident.holders t

/-- The disk holds what `resident` holds. -/
def Durable (disk : Target → Bitmap) (resident : IndexState) : Prop := ∀ t, resident.Has t → disk t = resident.holders t

/-- The same without the alive set. -/
def FieldsDurable (disk : Target → Bitmap) (resident : IndexState) : Prop :=
  ∀ t, t ≠ .alive → resident.Has t → disk t = resident.holders t

theorem Durable.fields {disk : Target → Bitmap} {resident : IndexState} (h : Durable disk resident) :
    FieldsDurable disk resident :=
  fun t _ ht => h t ht

namespace Mirrors

open IndexState (has_filter_iff has_sort_iff standsFor_filter standsFor_sort)

variable {st resident : IndexState} {parked parked' : List String} {disk disk' : Target → Bitmap}
  (h : Mirrors parked disk st resident) (hd : FieldsDurable disk resident)

include h hd

omit hd in
/-- **Bitmaps changed one by one**, each to one that stands for the same. -/
theorem of_map {st' : IndexState}
    (value : FilterGroupKey → FilterFieldConfig → Option VersionedBitmap → Option VersionedBitmap)
    (layer : String → Nat → VersionedBitmap → VersionedBitmap)
    (hvalue : ∀ g, st'.filters.valueAt g = (st.filters.valueAt g).map fun p => (p.1, value g p.1 p.2))
    (hlayer : ∀ f b, st'.sorts.layerAt f b = (st.sorts.layerAt f b).map (layer f b))
    (hfilter : ∀ f v config vb?, st.filters.valueAt ⟨f, v⟩ = some (config, vb?) → resident.Has (.filter f v) →
      overValue (decide (f ∈ parked)) (disk (.filter f v)) (some (config, vb?)) = resident.holders (.filter f v) →
      overValue (decide (f ∈ parked')) (disk' (.filter f v)) (some (config, value ⟨f, v⟩ config vb?)) =
        resident.holders (.filter f v)) (hsort : ∀ f b vb, st.sorts.layerAt f b = some vb → resident.Has (.sort f b) →
      vb.content (disk (.sort f b)) = resident.holders (.sort f b) →
      (layer f b vb).content (disk' (.sort f b)) = resident.holders (.sort f b))
    (halive : st'.slots.alive.fused = st.slots.alive.fused) : Mirrors parked' disk' st' resident := by
  have hhas : ∀ t, st'.Has t ↔ st.Has t := by
    intro t
    cases t with
    | filter f v => simp [has_filter_iff, hvalue]
    | sort f b => simp [has_sort_iff, hlayer]
    | alive => exact Iff.rfl
  refine ⟨fun t => (hhas t).trans (h.has t), fun t ht => ?_⟩
  have ht := (hhas t).mp ht
  have hover := h.standsFor t ht
  cases t with
  | filter f v =>
    obtain ⟨⟨config, vb?⟩, hvb⟩ := has_filter_iff.mp ht
    have hafter := hvalue ⟨f, v⟩
    rw [hvb, map_some] at hafter
    rw [standsFor_filter hvb] at hover
    rw [standsFor_filter hafter]
    exact hfilter f v config vb? hvb ((h.has _).mp ht) hover
  | sort f b =>
    obtain ⟨vb, hvb⟩ := has_sort_iff.mp ht
    have hafter := hlayer f b
    rw [hvb, map_some] at hafter
    rw [standsFor_sort hvb] at hover
    rw [standsFor_sort hafter]
    exact hsort f b vb hvb ((h.has _).mp ht) hover
  | alive => exact halive.trans hover

theorem ground {f : String} {v : UInt64} {config : FilterFieldConfig}
    (hvb : st.filters.valueAt ⟨f, v⟩ = some (config, none)) (hf : f ∉ parked) : disk (.filter f v) = ∅ := by
  have hhas : st.Has (.filter f v) := has_filter_iff.mpr ⟨_, hvb⟩
  rw [hd _ (by simp) ((h.has _).mp hhas), ← h.standsFor _ hhas, standsFor_filter hvb]
  simp [overValue, hf]

theorem applyOps {ops : List MutationOp} (hcovered : st.InsertsCovered parked disk (.groupAndSort ops)) :
    Mirrors parked disk (st.applyOps ops) (resident.applyOps ops) := by
  refine ⟨fun t => by rw [IndexState.has_applyOps, IndexState.has_applyOps, h.has], fun t ht => ?_⟩
  have ht : st.Has t := IndexState.has_applyOps.mp ht
  ext x
  rw [IndexState.applyOps, IndexState.mem_standsFor_applyBatch ht (fun _ _ _ hvb hf => h.ground hd hvb hf) hcovered,
    IndexState.applyOps, IndexState.mem_holders_applyBatch ((h.has t).mp ht), h.standsFor t ht]

omit hd in
/-- The disk may change to any that is right itself. -/
theorem redisk (hd : Durable disk' resident) : Mirrors parked disk' st resident := by
  refine h.of_map (fun _ _ o => o) (fun _ _ vb => vb) (fun _ => map_id'.symm) (fun _ _ => map_id'.symm)
    ?_ ?_ rfl
  · intro f v config vb? _ hhas hover
    rw [hd _ hhas]
    cases vb? with
    | some vb => exact content_eq_self hover
    | none =>
      rw [overValue] at hover ⊢
      split
      · rfl
      · rename_i hf
        rw [if_neg hf] at hover
        exact hover
  · intro f b vb _ hhas hover
    rw [hd _ hhas]
    exact content_eq_self hover

/-- A value that is not in memory may be left to a disk that is right. -/
theorem park (hparked : parked ⊆ parked') : Mirrors parked' disk st resident := by
  refine h.of_map (fun _ _ o => o) (fun _ _ vb => vb) (fun _ => map_id'.symm) (fun _ _ => map_id'.symm)
    ?_ (fun _ _ _ _ _ hover => hover) rfl
  intro f v config vb? _ hhas hover
  cases vb? with
  | some vb => exact hover
  | none =>
    rw [overValue] at hover ⊢
    by_cases hf : f ∈ parked
    · rw [if_pos (decide_eq_true (hparked hf))]
      rwa [if_pos (decide_eq_true hf)] at hover
    · split
      · exact hd _ (by simp) hhas
      · rwa [if_neg (by simpa using hf)] at hover

omit h hd in
/-- **A restart** leaves every field to the disk. -/
theorem restart (hd : Durable disk resident) (hhas : ∀ t, st.Has t ↔ resident.Has t)
    (hvalue : ∀ f v config vb?, st.filters.valueAt ⟨f, v⟩ = some (config, vb?) → vb? = none ∧ f ∈ parked)
    (hlayer : ∀ f b vb, st.sorts.layerAt f b = some vb → vb = .newUnloaded)
    (halive : st.slots.alive.fused = disk .alive) : Mirrors parked disk st resident := by
  refine ⟨hhas, fun t ht => ?_⟩
  rw [← hd t ((hhas t).mp ht)]
  cases t with
  | filter f v =>
    obtain ⟨⟨config, vb?⟩, hvb⟩ := has_filter_iff.mp ht
    obtain ⟨rfl, hf⟩ := hvalue f v config vb? hvb
    rw [standsFor_filter hvb, overValue, decide_eq_true hf, if_pos rfl]
  | sort f b =>
    obtain ⟨vb, hvb⟩ := has_sort_iff.mp ht
    rw [standsFor_sort hvb, hlayer f b vb hvb, content_newUnloaded]
  | alive => exact halive

/-! ### Compaction -/

omit hd in
theorem mergeFilters : Mirrors parked disk st.mergeFilters resident := by
  refine h.of_map (fun _ _ o => o.map merge) (fun _ _ vb => vb) ?_ (fun _ _ => map_id'.symm) ?_
    (fun _ _ _ _ _ hover => hover) rfl
  · exact fun g => valueAt_filterMap (fun _ _ o => o.map merge) (fun _ _ => rfl)
      fun _ _ _ => getVersioned_mergeDirty
  · intro f v config vb? _ _ hover
    rw [← hover]
    cases vb? with
    | some vb => exact content_merge _
    | none => rfl

omit hd in
theorem promoteSorts : Mirrors parked disk st.promoteSorts resident := by
  refine h.of_map (fun _ _ o => o) (fun _ _ => merge) (fun _ => map_id'.symm) ?_
    (fun _ _ _ _ _ _ hover => hover) ?_ rfl
  · exact fun f b => SortIndex.layerAt_filterMap (fun _ => merge) fun _ _ _ => by simp [SortField.mergeDirty]
  · intro f b vb _ _ hover
    rw [content_merge, hover]

/-! ### Loading, eviction, unloading -/

/-- A change of one field's values that leaves every value right. -/
theorem updateFilters {name : String} {f : FilterField → FilterField}
    (upd : FilterFieldConfig → UInt64 → Option VersionedBitmap → Option VersionedBitmap)
    (hconfig : ∀ ff, (f ff).config = ff.config)
    (hvalue : ∀ ff v, (f ff).getVersioned v = upd ff.config v (ff.getVersioned v))
    (hright : ∀ v config vb?, st.filters.valueAt ⟨name, v⟩ = some (config, vb?) →
      overValue (decide (name ∈ parked)) (disk (.filter name v)) (some (config, vb?)) = disk (.filter name v) →
      overValue (decide (name ∈ parked)) (disk (.filter name v)) (some (config, upd config v vb?)) =
        disk (.filter name v)) :
    Mirrors parked disk { st with filters := st.filters.update name f } resident := by
  refine h.of_map (fun g config o => if g.field = name then upd config g.value o else o) (fun _ _ vb => vb) ?_
    (fun _ _ => map_id'.symm) ?_ (fun _ _ _ _ _ hover => hover) rfl
  · intro g
    rw [valueAt_update upd hconfig hvalue]
    by_cases hg : g.field = name <;> simp [hg]
  · intro n v config vb? hvb hhas hover
    by_cases hn : n = name
    · subst hn
      have hdisk := hd _ (by simp) hhas
      rw [if_pos rfl]
      exact (hright v config vb? hvb (hover.trans hdisk.symm)).trans hdisk
    · rwa [if_neg hn]

/-- **Loading** fresh data. -/
theorem applyLoad {load : LazyLoad} (hfresh : st.Fresh disk load) :
    Mirrors parked disk (st.applyLoad load) resident := by
  cases load with
  | filterField name bitmaps =>
    refine h.updateFilters hd (fun _ v o => if o.isSome ∨ (bitmaps.lookup v).isSome then
      some ((o.getD .newUnloaded).loadBase ((bitmaps.lookup v).getD ∅)) else none) (fun _ => rfl)
      (fun _ _ => getVersioned_loadFieldComplete) ?_
    intro v config vb? hvb hover
    split
    · exact overValue_loadBase hover (hfresh v config vb? hvb)
    · rename_i hnone
      have hvb? : vb? = none := not_isSome_iff_eq_none.mp fun hsome => hnone (.inl hsome)
      rw [← hvb?]
      exact hover
  | filterValues field values requested =>
    refine h.updateFilters hd (fun _ v o => if v ∈ requested then
      some ((o.getD .newUnloaded).loadBase ((values.lookup v).getD ∅)) else o)
      (fun _ => config_loadValues) (fun _ _ => getVersioned_loadValues) ?_
    intro v config vb? hvb hover
    split
    · rename_i hv
      exact overValue_loadBase hover (hfresh v hv config vb? hvb)
    · exact hover
  | sortField name layers =>
    refine h.of_map (fun _ _ o => o)
      (fun f b vb => if f = name then (layers[b]?).elim vb vb.replaceBasePreserveDiff else vb)
      (fun _ => map_id'.symm) ?_ (fun _ _ _ _ _ _ hover => hover) ?_ rfl
    · intro f b
      refine SortIndex.layerAt_loadLayers.trans ?_
      by_cases hf : f = name <;> simp [hf]
    · intro f b vb hvb hhas hover
      split
      · rename_i hf
        subst hf
        cases hdata : layers[b]? with
        | none => exact hover
        | some data =>
          have hdisk := hd _ (by simp) hhas
          rw [elim_some, content_of_loaded isLoaded_replaceBasePreserveDiff, ← hdisk]
          exact fused_replaceBasePreserveDiff_of_fresh (hover.trans hdisk.symm)
            (hfresh b vb data hvb hdata)
      · exact hover
  | slots slots =>
    exact h.of_map (fun _ _ o => o) (fun _ _ vb => vb) (fun _ => map_id'.symm)
      (fun _ _ => map_id'.symm) (fun _ _ _ _ _ _ hover => hover) (fun _ _ _ _ _ hover => hover) hfresh

theorem applyLoads {loads : List LazyLoad} (hfresh : st.FreshLoads disk loads) :
    Mirrors parked disk (st.applyLoads loads) resident := by
  induction loads generalizing st with
  | nil => exact h
  | cons load loads ih => exact ih (h.applyLoad hd hfresh.1) hfresh.2

/-- **Eviction** of values whose fields are parked. -/
theorem evictValues {values : List (String × UInt64)} (hparked : ∀ v ∈ values, v.1 ∈ parked) :
    Mirrors parked disk (st.evictValues values) resident := by
  induction values generalizing st with
  | nil => exact h
  | cons value values ih =>
    refine ih ?_ fun v hv => hparked v (List.mem_cons_of_mem value hv)
    refine h.updateFilters hd (fun _ v o => if v = value.2 then none else o) (fun _ => rfl)
      (fun _ _ => getVersioned_removeValue) ?_
    intro v config vb? _ hover
    split
    · rw [overValue, if_pos (decide_eq_true (hparked value List.mem_cons_self))]
    · exact hover

/-- **Unloading** parks the fields that it does not skip. -/
theorem unload {skipFilters skipSorts : List String}
    (hparked : ∀ f, (st.filters.getField f).isSome → f ∉ skipFilters → f ∈ parked) :
    Mirrors parked disk (st.unload skipFilters skipSorts) resident := by
  refine h.of_map
    (fun g _ o => if g.field ∈ skipFilters then o
      else o.bind fun vb => if vb.isDirty then some vb.cloneDiffOnly else none)
    (fun f _ vb => if f ∈ skipSorts then vb else if vb.isDirty then vb.cloneDiffOnly else .newUnloaded)
    (fun g => ?_) (fun f b => ?_) ?_ ?_ rfl
  · refine valueAt_filterMap (fun name _ o => if name ∈ skipFilters then o
      else o.bind fun vb => if vb.isDirty then some vb.cloneDiffOnly else none)
      (fun name ff => by split <;> rfl) fun name ff v => ?_
    split
    · rfl
    · exact getVersioned_unload
  · refine SortIndex.layerAt_filterMap (fun name vb => if name ∈ skipSorts then vb
      else if vb.isDirty then vb.cloneDiffOnly else .newUnloaded) fun name sf i => ?_
    split
    · simp
    · simp [SortField.unload]
  · intro f v config vb? hvb hhas hover
    have hdisk := hd _ (by simp) hhas
    by_cases hskip : f ∈ skipFilters
    · rw [if_pos hskip, hover]
    · have hpark : decide (f ∈ parked) = true :=
        decide_eq_true (hparked f (has_filter_iff.mpr ⟨_, hvb⟩ : st.Has (.filter f v)) hskip)
      rw [if_neg hskip, hpark]
      cases vb? with
      | none => exact hdisk
      | some vb =>
        rw [bind_some]
        split
        · rw [hdisk]
          exact content_cloneDiffOnly hover
        · exact hdisk
  · intro f b vb _ hhas hover
    have hdisk := hd _ (by simp) hhas
    split
    · exact hover
    · split
      · rw [hdisk]
        exact content_cloneDiffOnly hover
      · rw [content_newUnloaded, hdisk]

end Mirrors

end Bitdex
