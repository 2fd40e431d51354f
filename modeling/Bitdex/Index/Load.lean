import Bitdex.Index

/-!
# `Index.Load` — bitmaps that live on disk

A value of a filter field, or a layer of a sort field, may be absent from memory: it was unloaded after a save,
evicted, or never loaded. Writes to it then land in the diff of an empty placeholder, and a later load brings the base
back from disk (`versioned_bitmap.rs`, `filter.rs`, `sort.rs`). A filter value ORs what was read into whatever base it
has; a sort layer takes what was read as its base, unless it is resident and not empty.
-/

namespace Bitdex

/-! ## One bitmap -/

namespace VersionedBitmap

variable (vb : VersionedBitmap)

/-- OR a bitmap into the base, past the diff. -/
def orIntoBase (bitmap : Bitmap) : VersionedBitmap := { vb with base := vb.base ∪ bitmap }

/-- OR what was read from disk into the base. -/
def loadBase (bitmap : Bitmap) : VersionedBitmap := { vb with base := vb.base ∪ bitmap, isLoaded := true }

/-- The base is in memory. -/
def markLoaded : VersionedBitmap := { vb with isLoaded := true }

/-- The placeholder that an unload leaves for a bitmap with pending changes. -/
def cloneDiffOnly : VersionedBitmap := ⟨∅, vb.diff, false⟩

/-- Take what was read from disk as the base, unless there is a resident base that is not empty. -/
def replaceBasePreserveDiff (bitmap : Bitmap) : VersionedBitmap :=
  if vb.isLoaded = true ∧ vb.base ≠ ∅ then vb else { vb with base := bitmap, isLoaded := true }

/-- What the bitmap holds: a resident one its own bits, a placeholder its diff over the bitmap on disk. -/
def content (disk : Bitmap) : Bitmap := if vb.isLoaded then vb.fused else (vb.loadBase disk).fused

variable {vb} {x : UInt32}

theorem mem_fused_loadBase {bitmap : Bitmap} :
    x ∈ (vb.loadBase bitmap).fused ↔ x ∈ vb.diff.sets ∨ ((x ∈ vb.base ∨ x ∈ bitmap) ∧ x ∉ vb.diff.clears) := by
  rw [mem_fused, loadBase, Finset.mem_union]

theorem content_of_loaded (h : vb.isLoaded = true) (disk : Bitmap) : vb.content disk = vb.fused := by
  rw [content, if_pos h]

theorem mem_content {disk : Bitmap} : x ∈ vb.content disk ↔ x ∈ vb.diff.sets ∨
      ((x ∈ vb.base ∨ (vb.isLoaded = false ∧ x ∈ disk)) ∧ x ∉ vb.diff.clears) := by
  unfold content
  cases h : vb.isLoaded with
  | true => simp [mem_fused]
  | false => simp [mem_fused_loadBase]

@[simp] theorem content_newUnloaded (disk : Bitmap) : newUnloaded.content disk = disk := by
  ext x
  simp [mem_content, newUnloaded, BitmapDiff.new]

theorem isLoaded_merge : vb.merge.isLoaded = vb.isLoaded := by
  unfold merge
  split
  · rfl
  · rfl

@[simp] theorem content_merge (disk : Bitmap) : vb.merge.content disk = vb.content disk := by
  cases h : vb.isLoaded with
  | true =>
    rw [content_of_loaded h, content_of_loaded (isLoaded_merge.trans h), fused_merge]
  | false =>
    -- a placeholder is never compacted
    have hm : vb.merge = vb := by simp [merge, h]
    rw [hm]

theorem isLoaded_insertBulk (bits : List UInt32) : (vb.insertBulk bits).isLoaded = vb.isLoaded :=
  foldl_view isLoaded (by intros; rfl) vb

theorem isLoaded_removeBulk (bits : List UInt32) : (vb.removeBulk bits).isLoaded = vb.isLoaded :=
  foldl_view isLoaded (by intros; rfl) vb

theorem loadBase_insertBulk (bits : List UInt32) (disk : Bitmap) :
    (vb.insertBulk bits).loadBase disk = (vb.loadBase disk).insertBulk bits :=
  (List.foldl_hom (loadBase · disk) fun _ _ => rfl).symm

theorem loadBase_removeBulk (bits : List UInt32) (disk : Bitmap) :
    (vb.removeBulk bits).loadBase disk = (vb.loadBase disk).removeBulk bits :=
  (List.foldl_hom (loadBase · disk) fun _ _ => rfl).symm

/-- A write changes the content in the same way whether the base is resident or not. -/
theorem mem_content_insertBulk {bits : List UInt32} {disk : Bitmap} :
    x ∈ (vb.insertBulk bits).content disk ↔ x ∈ bits ∨ x ∈ vb.content disk := by
  unfold content
  rw [isLoaded_insertBulk, loadBase_insertBulk]
  split
  · exact mem_fused_insertBulk
  · exact mem_fused_insertBulk

theorem mem_content_removeBulk {bits : List UInt32} {disk : Bitmap} :
    x ∈ (vb.removeBulk bits).content disk ↔ x ∉ bits ∧ x ∈ vb.content disk := by
  unfold content
  rw [isLoaded_removeBulk, loadBase_removeBulk]
  split
  · exact mem_fused_removeBulk
  · exact mem_fused_removeBulk

/-- Dropping the base of a bitmap leaves it to the disk. -/
theorem content_cloneDiffOnly {disk s : Bitmap} (h : vb.content disk = s) : vb.cloneDiffOnly.content s = s := by
  ext x
  have hx : x ∈ vb.content disk ↔ x ∈ s := by rw [h]
  rw [mem_content] at hx ⊢
  tauto

end VersionedBitmap

/-! ## Filter fields -/

namespace FilterField

variable (ff : FilterField)

/-- OR a bitmap into the base of a value. -/
def orBitmap (value : UInt64) (bitmap : Bitmap) : FilterField :=
  let vb := (ff.getVersioned value).getD .newEmpty
  { ff with bitmaps := ff.bitmaps.insert value (vb.orIntoBase bitmap) }

/-- Load a whole field: every value read is ORed into its base, and every value is then resident. -/
def loadFieldComplete (data : HashMap UInt64 Bitmap) : FilterField :=
  let loaded := data.entries.foldl (fun m e =>
    m.insert e.1 (((m.lookup e.1).getD .newUnloaded).loadBase e.2)) ff.bitmaps
  { ff with bitmaps := loaded.filterMap fun _ vb => some vb.markLoaded }

/-- What loading a requested value makes of it; a value that is not on disk is marked resident. -/
def loadedVb (data : HashMap UInt64 Bitmap) (value : UInt64) : VersionedBitmap :=
  match data.lookup value with
  | some bitmap => ((ff.getVersioned value).getD .newUnloaded).loadBase bitmap
  | none => ((ff.getVersioned value).getD .newEmpty).markLoaded

/-- Load the requested values. -/
def loadValues (data : HashMap UInt64 Bitmap) (requested : List UInt64) : FilterField :=
  requested.foldl (fun ff value =>
    { ff with bitmaps := ff.bitmaps.insert value (ff.loadedVb data value) }) ff

/-- Evict a value. -/
def removeValue (value : UInt64) : FilterField := { ff with bitmaps := ff.bitmaps.erase value }

/-- Compact every resident value. -/
def mergeDirty : FilterField := { ff with bitmaps := ff.bitmaps.filterMap fun _ vb => some vb.merge }

/-- The field without its bases: only values with pending changes stay. -/
def unload : FilterField :=
  { ff with bitmaps := ff.bitmaps.filterMap fun _ vb =>
              if vb.isDirty then some vb.cloneDiffOnly else none }

end FilterField

/-! ## Sort fields -/

namespace SortField

variable (sf : SortField)

/-- OR a bitmap into the base of a layer; a layer that does not exist is ignored. -/
def orLayer (bit : Nat) (bitmap : Bitmap) : SortField := ⟨sf.bitLayers.modify bit (·.orIntoBase bitmap)⟩

/-- Load the layers that were read. -/
def loadLayers (layers : List Bitmap) : SortField :=
  ⟨sf.bitLayers.mapIdx fun i vb => (layers[i]?).elim vb vb.replaceBasePreserveDiff⟩

/-- Compact every layer. -/
def mergeDirty : SortField := ⟨sf.bitLayers.map (·.merge)⟩

/-- The field without its bases. -/
def unload : SortField := ⟨sf.bitLayers.map fun vb => if vb.isDirty then vb.cloneDiffOnly else .newUnloaded⟩

end SortField

end Bitdex
