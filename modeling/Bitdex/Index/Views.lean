import Bitdex.Index.Load

/-!
# `Index.Views` — a versioned bitmap against a plain set

The content of a `VersionedBitmap` is split into a base and a diff, and two of the writes go into the base past the
diff. `BitmapRun` applies each operation to the bitmap and to a plain set beside it: the two stay together unless a
bitmap is ORed into the base over a pending removal, which hides it (`or_over_removal_hidden`).
-/

namespace Bitdex

open Finset

namespace VersionedBitmap

variable {vb : VersionedBitmap} {x : UInt32} {disk : Bitmap}

/-- Drop the base; the diff goes on collecting changes. -/
def clearBaseAndUnload (vb : VersionedBitmap) : VersionedBitmap := { vb with base := ∅, isLoaded := false }

/-- `fused`, borrowed if the diff is empty. -/
def fusedCow (vb : VersionedBitmap) : Bitmap := vb.fused

/-- `fused` behind a reference count. -/
def fusedArc (vb : VersionedBitmap) : Bitmap := vb.fused

/-- Every read is a read of `set`. -/
structure Shows (vb : VersionedBitmap) (set : Bitmap) : Prop where
  contains : ∀ bit, vb.contains bit = true ↔ bit ∈ set
  fusedContains : ∀ slot, vb.fusedContains slot = true ↔ slot ∈ set
  fused : vb.fused = set
  fusedCow : vb.fusedCow = set
  fusedArc : vb.fusedArc = set
  fusedLen : vb.fusedLen = set.card
  applyDiff : ∀ candidates, vb.applyDiff candidates ∩ candidates = set ∩ candidates

theorem shows_fused : vb.Shows vb.fused where
  contains _ := vb.contains_iff
  fusedContains _ := vb.fusedContains_iff
  fused := rfl
  fusedCow := rfl
  fusedArc := rfl
  fusedLen := vb.fusedLen_eq
  applyDiff candidates := by
    rw [applyDiff_eq, inter_comm candidates, inter_assoc, inter_self]

/-- Of what is ORed into the base the content takes all but the bits with a pending removal. -/
theorem mem_content_orIntoBase {bitmap : Bitmap} :
    x ∈ (vb.orIntoBase bitmap).content disk ↔ x ∈ vb.content disk ∨ (x ∈ bitmap ∧ x ∉ vb.diff.clears) := by
  rw [mem_content, mem_content]
  simp only [orIntoBase, mem_union]
  tauto

end VersionedBitmap

/-- A bitmap, what it held at the last unload, and the plain set under the same operations. -/
structure BitmapRun where
  vb : VersionedBitmap
  held : Option Bitmap
  plain : Bitmap

/-- The operations of a bitmap. -/
inductive BitmapEvent where
  | insert (bit : UInt32)
  | remove (bit : UInt32)
  | insertBulk (bits : List UInt32)
  | orIntoBase (bitmap : Bitmap)
  | merge
  | clearBaseAndUnload
  | loadBase

namespace BitmapRun

def start (base : Bitmap) : BitmapRun := ⟨.new base, none, base⟩

/-- What the bitmap holds, with what it held at the unload for a base that is not there. -/
def content (s : BitmapRun) : Bitmap := s.vb.content (s.held.getD ∅)

/-- A load comes after an unload and brings back what was held then. -/
def next (s : BitmapRun) : BitmapEvent → Option BitmapRun
  | .insert bit => some { s with vb := s.vb.insert bit, plain := insert bit s.plain }
  | .remove bit => some { s with vb := s.vb.remove bit, plain := s.plain.erase bit }
  | .insertBulk bits => some { s with vb := s.vb.insertBulk bits, plain := s.plain ∪ bits.toFinset }
  | .orIntoBase bitmap => some { s with vb := s.vb.orIntoBase bitmap, plain := s.plain ∪ bitmap }
  | .merge => some { s with vb := s.vb.merge }
  | .clearBaseAndUnload => some { s with vb := s.vb.clearBaseAndUnload, held := some s.content }
  | .loadBase => s.held.map fun held => { s with vb := s.vb.loadBase held }

/-- Nothing is ORed into the base over a pending removal, and a load brings back no bit removed since the unload. -/
def Meets (s : BitmapRun) : BitmapEvent → Prop
  | .orIntoBase bitmap => Disjoint bitmap s.vb.diff.clears
  | .loadBase => s.vb.isLoaded = true → ∀ x ∈ s.held.getD ∅, x ∈ s.vb.diff.clears ∨ x ∈ s.vb.fused
  | _ => True

/-- The bitmap is the plain set. -/
def Agrees (s : BitmapRun) : Prop := s.content = s.plain

variable {s s' : BitmapRun} {ev : BitmapEvent}

theorem Agrees.mem_iff (h : s.Agrees) (x : UInt32) : x ∈ s.vb.content (s.held.getD ∅) ↔ x ∈ s.plain := by
  rw [← h, content]

theorem Agrees.loadBase (h : s.Agrees) (hmeets : s.Meets .loadBase) {held : Bitmap} (hheld : s.held = some held) :
    (s.vb.loadBase held).fused = s.plain := by
  have hmem := h.mem_iff
  simp only [Meets, hheld, Option.getD_some] at hmeets hmem
  cases hloaded : s.vb.isLoaded with
  | true =>
    rw [VersionedBitmap.content_of_loaded hloaded] at hmem
    ext x
    rw [← hmem x, VersionedBitmap.mem_fused_loadBase, VersionedBitmap.mem_fused]
    have hold := hmeets hloaded x
    rw [VersionedBitmap.mem_fused] at hold
    tauto
  | false =>
    ext x
    rw [← hmem x, VersionedBitmap.content, hloaded]
    rfl

/-- **One operation** that meets the condition does to the content what it does to the plain set. -/
theorem Agrees.step (h : s.Agrees) (hmeets : s.Meets ev) (hnext : s.next ev = some s') : s'.Agrees := by
  have hmem := h.mem_iff
  cases ev with
  | insert bit =>
    cases hnext
    ext x
    show x ∈ (s.vb.insertBulk [bit]).content _ ↔ x ∈ insert bit s.plain
    rw [VersionedBitmap.mem_content_insertBulk, hmem, mem_insert, List.mem_singleton]
  | remove bit =>
    cases hnext
    ext x
    show x ∈ (s.vb.removeBulk [bit]).content _ ↔ x ∈ s.plain.erase bit
    rw [VersionedBitmap.mem_content_removeBulk, hmem, mem_erase, List.mem_singleton]
  | insertBulk bits =>
    cases hnext
    ext x
    show x ∈ (s.vb.insertBulk bits).content _ ↔ x ∈ s.plain ∪ bits.toFinset
    rw [VersionedBitmap.mem_content_insertBulk, hmem, mem_union, List.mem_toFinset, or_comm]
  | orIntoBase bitmap =>
    cases hnext
    ext x
    show x ∈ (s.vb.orIntoBase bitmap).content _ ↔ x ∈ s.plain ∪ bitmap
    have hfree : x ∈ bitmap → x ∉ s.vb.diff.clears := fun hx => disjoint_left.mp hmeets hx
    rw [VersionedBitmap.mem_content_orIntoBase, hmem, mem_union, and_iff_left_of_imp hfree]
  | merge =>
    cases hnext
    show s.vb.merge.content _ = s.plain
    rw [VersionedBitmap.content_merge]
    exact h
  | clearBaseAndUnload =>
    cases hnext
    show s.vb.cloneDiffOnly.content s.content = s.plain
    have hcontent : s.vb.content (s.held.getD ∅) = s.content := rfl
    rw [VersionedBitmap.content_cloneDiffOnly hcontent]
    exact h
  | loadBase =>
    obtain ⟨held, hheld, rfl⟩ := Option.map_eq_some_iff.mp hnext
    show (s.vb.loadBase held).content _ = s.plain
    rw [VersionedBitmap.content_of_loaded rfl, h.loadBase hmeets hheld]

/-- **The views of a bitmap.** In every run whose operations meet the condition, a loaded bitmap shows the
plain set, and no bit is pending both ways. -/
theorem shows_plain {base : Bitmap} {es : List BitmapEvent}
    (h : Reaches (fun s ev s' => next s ev = some s') Meets (start base) es s) :
    (s.vb.isLoaded = true → s.vb.Shows s.plain) ∧ Disjoint s.vb.diff.sets s.vb.diff.clears := by
  have hagrees : s.Agrees := by
    refine h.invariant (fun _ s => s.Agrees) ?_ ?_
    · show (VersionedBitmap.new base).content ∅ = base
      rw [VersionedBitmap.content_of_loaded rfl, VersionedBitmap.fused_new]
    · intro _ _ _ _ hagrees hmeets hnext
      exact hagrees.step hmeets hnext
  refine ⟨fun hloaded => ?_, s.vb.diff.disjoint⟩
  have hfused : s.vb.fused = s.plain := by rw [← hagrees, content, VersionedBitmap.content_of_loaded hloaded]
  rw [← hfused]
  exact VersionedBitmap.shows_fused

instance decidableMeets (s : BitmapRun) (ev : BitmapEvent) : Decidable (s.Meets ev) := by
  unfold Meets
  split <;> infer_instance

/-- Changes before, during and after an unload. -/
def reloadRun : List BitmapEvent :=
  [.insert 3, .remove 1, .clearBaseAndUnload, .insertBulk [4, 5], .remove 3, .loadBase, .orIntoBase {6}, .merge,
    .remove 5]

theorem shows_reloadRun :
    ∃ s, Reaches (fun s ev s' => next s ev = some s') Meets (start {1, 2}) reloadRun s ∧ s.vb.Shows {2, 4, 6} := by
  have hrun : Computed next Meets (start {1, 2}) reloadRun := .of_along (by decide +kernel)
  obtain ⟨s, hs, hloaded, hplain⟩ : ∃ s, _ ∧ s.vb.isLoaded = true ∧ s.plain = {2, 4, 6} :=
    hrun.exists_end (by decide +kernel)
  refine ⟨s, hs, ?_⟩
  rw [← hplain]
  exact (shows_plain hs).1 hloaded

/-- The removal of bit 1 is still pending when it is ORed into the base. -/
theorem or_over_removal_hidden :
    ∃ s, Reaches (fun s ev s' => next s ev = some s') (fun _ _ => True) (start ∅) [.remove 1, .orIntoBase {1}] s ∧
      s.vb.isLoaded = true ∧ s.plain = {1} ∧ s.vb.fused = ∅ ∧ s.vb.contains 1 = false :=
  Computed.of_true.exists_end (by decide +kernel)

end BitmapRun

end Bitdex
