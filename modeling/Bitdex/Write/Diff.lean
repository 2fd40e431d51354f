import Bitdex.Write.Refresh
import Bitdex.Write.Grouping

/-!
# `Write.Diff` — exactly when a diff is as good as a fresh insert

What an upsert, a deferral and a partial update leave, bit by bit (`IndexState.Leaves`), and from that, as
equivalences, when an upsert leaves what inserting the new document alone would (`sameFields_upsert_iff`), when a
partial update, which derives no shadows, leaves what an upsert of the merged document would
(`sameFields_partial_iff`), and when a deferred document is in no bitmap, whichever path set the slot's bits
(`hidden_iff`).
-/

namespace Bitdex

open SortFieldConfig List Config MutationOp Settle IndexState

/-! ## Indexes that hold a document -/

/-- The bits that an index built from the configuration has. -/
def Config.Indexes (cfg : Config) : Target → Prop
  | .filter f _ => f ∈ cfg.filterFields
  | .sort f b => ∃ sc ∈ cfg.sortFields, sc.name = f ∧ b < sc.bits
  | .alive => True

/-- The index has the configured fields and holds exactly the document in the slot. -/
structure IndexState.HoldsDoc (st : IndexState) (cfg : Config) (slot : UInt32) (doc : Document) : Prop where
  has_iff : ∀ t, st.Has t ↔ cfg.Indexes t
  bit_iff : ∀ t, cfg.Indexes t → (st.bit t slot = true ↔ cfg.Shows doc t)

/-- The index has the configured fields and the slot is empty. -/
structure IndexState.HoldsNothing (st : IndexState) (cfg : Config) (slot : UInt32) : Prop where
  has_iff : ∀ t, st.Has t ↔ cfg.Indexes t
  bit_eq : ∀ t, st.bit t slot = false

/-- The document shows the key and does not spell it out. -/
def Config.LeftKey (cfg : Config) (doc : Document) (f : String) (k : UInt64) : Prop :=
  cfg.Shows doc (.filter f k) ∧ k ∉ doc.keys f

/-- The document's value has the bit and the value under the field's own name does not. -/
def SortFieldConfig.leftBit (doc : Document) (sc : SortFieldConfig) (b : Nat) : Bool :=
  optBit (sc.freshValue doc) b && !optBit (fieldToSortU32 doc sc.name) b

/-- The slot has the same filter memberships (null and shadow bits are such) and sort values. -/
structure SameFields (slot : UInt32) (st st' : IndexState) : Prop where
  filters : ∀ field value, slot ∈ st.filters.bits field value ↔ slot ∈ st'.filters.bits field value
  sorts : ∀ field bit, slot ∈ st.sorts.layer field bit ↔ slot ∈ st'.sorts.layer field bit

theorem mem_bits_iff_bit {slot : UInt32} (st : IndexState) (f : String) (k : UInt64) :
    slot ∈ st.filters.bits f k ↔ st.bit (.filter f k) slot = true := decide_eq_true_iff.symm

theorem mem_layer_iff_bit {slot : UInt32} (st : IndexState) (f : String) (b : Nat) :
    slot ∈ st.sorts.layer f b ↔ st.bit (.sort f b) slot = true := decide_eq_true_iff.symm

namespace IndexState

/-- What is left of a slot in an index with the configured fields: its keys in the filter fields and the bits of its
sort values. -/
structure Leaves (st : IndexState) (cfg : Config) (slot : UInt32) (keys : String → UInt64 → Prop)
    (bits : SortFieldConfig → Nat → Bool) : Prop where
  has_iff : ∀ t, st.Has t ↔ cfg.Indexes t
  filter : ∀ f ∈ cfg.filterFields, ∀ k, st.bit (.filter f k) slot = true ↔ keys f k
  sort : ∀ sc ∈ cfg.sortFields, ∀ b < sc.bits, st.bit (.sort sc.name b) slot = bits sc b

section Leaves

variable {st st' : IndexState} {cfg : Config} {slot : UInt32} {keys keys' : String → UInt64 → Prop}
  {bits bits' : SortFieldConfig → Nat → Bool}

/-- Only the configured fields count. -/
theorem Leaves.sameFields_iff (h : st.Leaves cfg slot keys bits) (h' : st'.Leaves cfg slot keys' bits') :
    SameFields slot st st' ↔ (∀ f ∈ cfg.filterFields, ∀ k, (keys f k ↔ keys' f k)) ∧
      ∀ sc ∈ cfg.sortFields, ∀ b < sc.bits, bits sc b = bits' sc b := by
  have hnone : ∀ t, ¬cfg.Indexes t → st.bit t slot = st'.bit t slot := by
    intro t ht
    rw [bit_eq_false (mt (h.has_iff t).mp ht), bit_eq_false (mt (h'.has_iff t).mp ht)]
  constructor
  · intro hsame
    refine ⟨?_, ?_⟩
    · intro f hf k
      rw [← h.filter f hf k, ← h'.filter f hf k, ← mem_bits_iff_bit, ← mem_bits_iff_bit]
      exact hsame.filters f k
    · intro sc hsc b hb
      rw [← h.sort sc hsc b hb, ← h'.sort sc hsc b hb, Bool.eq_iff_iff, ← mem_layer_iff_bit, ← mem_layer_iff_bit]
      exact hsame.sorts sc.name b
  · rintro ⟨hfilters, hsorts⟩
    refine ⟨?_, ?_⟩
    · intro f k
      rw [mem_bits_iff_bit, mem_bits_iff_bit]
      by_cases hf : f ∈ cfg.filterFields
      · rw [h.filter f hf k, h'.filter f hf k]
        exact hfilters f hf k
      · rw [hnone (.filter f k) hf]
    · intro f b
      rw [mem_layer_iff_bit, mem_layer_iff_bit, ← Bool.eq_iff_iff]
      by_cases ht : cfg.Indexes (.sort f b)
      · obtain ⟨sc, hsc, rfl, hb⟩ := ht
        rw [h.sort sc hsc b hb, h'.sort sc hsc b hb]
        exact hsorts sc hsc b hb
      · exact hnone (.sort f b) ht

end Leaves

/-! ## What an upsert leaves -/

section Holds

variable {st : IndexState} {cfg : Config} {slot : UInt32} {old new : Document} {now : UInt64} {f : String}
  {k : UInt64} {b : Nat} {sc : SortFieldConfig} (h : st.HoldsDoc cfg slot old)

include h

theorem HoldsDoc.leaves :
    st.Leaves cfg slot (fun f k => cfg.Shows old (.filter f k)) fun sc b => optBit (sc.freshValue old) b where
  has_iff := h.has_iff
  filter f hf k := h.bit_iff (.filter f k) hf
  sort sc hsc b hb := by
    rw [Bool.eq_iff_iff, h.bit_iff (.sort sc.name b) ⟨sc, hsc, rfl, hb⟩, shows_sort_iff hsc]
    exact and_iff_right hb

theorem HoldsDoc.bit_filter (hf : f ∈ cfg.filterFields) (k : UInt64) (ops : List MutationOp) :
    (st.applyOps ops).bit (.filter f k) slot =
      (settle true (bitWrites (.filter f k) slot ops)).getD (st.bit (.filter f k) slot) :=
  bit_applyOps ((h.has_iff (.filter f k)).mpr hf)

theorem HoldsDoc.bit_sort (hsc : sc ∈ cfg.sortFields) (hb : b < sc.bits) (ops : List MutationOp) :
    (st.applyOps ops).bit (.sort sc.name b) slot =
      (settle (Target.sort sc.name b).preferred (bitWrites (.sort sc.name b) slot ops)).getD
        (optBit (sc.freshValue old) b) := by
  rw [bit_applyOps ((h.has_iff (.sort sc.name b)).mpr ⟨sc, hsc, rfl, hb⟩), h.leaves.sort sc hsc b hb]

/-- Ops that move a sort field from the old document's value to another, or leave it where they agree. -/
theorem HoldsDoc.sort_changed (hsc : sc ∈ cfg.sortFields) (hb : b < sc.bits)
    {ops : List MutationOp} {change : Option UInt32 × Option UInt32} {value : Option UInt32}
    (hwrites : bitWrites (.sort sc.name b) slot ops = sortDiffWrites change.1 change.2 b)
    (hchange : (change = (none, none) ∧ sc.freshValue old = value) ∨ change = (sc.freshValue old, value)) :
    (st.applyOps ops).bit (.sort sc.name b) slot = optBit value b := by
  rw [h.bit_sort hsc hb, hwrites]
  exact settle_sortDiffWrites hchange

/-- **An upsert of a visible document** leaves the filter bits of that document, and `upsertValue` in a sort field. -/
theorem HoldsDoc.upsert (hvisible : cfg.deferredUntil new now = none) :
    (st.applyOps (diffDocument slot (some old) new cfg true now)).Leaves cfg slot
      (fun f k => cfg.Shows new (.filter f k)) fun sc b => optBit (sc.upsertValue old new) b where
  has_iff t := has_applyOps.trans (h.has_iff t)
  filter f hf k := by
    classical
    obtain ⟨before, hbefore⟩ : ∃ before : Target → Bool, ∀ t, before t = true ↔ cfg.Shows old t :=
      ⟨fun t => decide (cfg.Shows old t), fun t => decide_eq_true_iff⟩
    have hbit : st.bit (.filter f k) slot = before (.filter f k) := by
      rw [Bool.eq_iff_iff, h.leaves.filter f hf k, hbefore]
    rw [h.bit_filter hf k, hbit]
    exact settle_filter_iff hvisible (fun _ => ⟨old, rfl, hbefore⟩) nofun
  sort sc hsc b hb := by
    refine h.sort_changed hsc hb ?_ (sortChange_upsertValue sc old new)
    rw [bitWrites_visible_sort hvisible, if_pos rfl, Option.getD_some, writes_upsertOps.sort sc hsc, if_pos hb]

/-! ## What a deferral leaves -/

variable {activateAt : UInt64} {isUpsert : Bool}

/-- Ops that clear what the stored document spells out, and others that write neither filter nor sort bits, leave the
bits not spelled out under the field's own name. -/
theorem HoldsDoc.cleared {ops : List MutationOp}
    (hops : ∀ t, t ≠ .alive → bitWrites t slot ops = bitWrites t slot (clearOldOps cfg slot old)) :
    (st.applyOps ops).Leaves cfg slot (cfg.LeftKey old) (leftBit old) where
  has_iff t := has_applyOps.trans (h.has_iff t)
  filter f hf k := by
    rw [h.bit_filter hf k, hops (.filter f k) (by simp), writes_clearOldOps.filter, if_pos hf,
      getD_settle_true_iff, h.leaves.filter f hf k, Config.LeftKey]
    simp [mem_replicate, count_eq_zero, and_comm]
  sort sc hsc b hb := by
    rw [h.bit_sort hsc hb, hops (.sort sc.name b) (by simp), writes_clearOldOps.sort sc hsc,
      leftBit]
    cases optBit (fieldToSortU32 old sc.name) b <;> simp [hb, settle, Target.preferred]

/-- **A deferral** clears what the stored document spells out. -/
theorem HoldsDoc.deferred (hdeferred : cfg.deferredUntil new now = some activateAt) :
    (st.applyOps (diffDocument slot (some old) new cfg isUpsert now)).Leaves cfg slot (cfg.LeftKey old)
      (leftBit old) := by
  refine h.cleared fun t ht => ?_
  rw [bitWrites_deferred hdeferred, Option.elim_some, bitWrites_append, bitWrites_singleton]
  simp [write, ht]

/-! ## What an insert leaves -/

omit h

theorem HoldsNothing.bit_insert (h : st.HoldsNothing cfg slot) {t : Target} (ht : cfg.Indexes t) :
    (st.applyOps (diffDocument slot none new cfg false now)).bit t slot = cfg.shownBit slot new now t := by
  rw [bit_applyOps ((h.has_iff t).mpr ht), h.bit_eq t]
  rfl

/-- **An insert** of a deferred document leaves the slot empty. -/
theorem HoldsNothing.deferred (h : st.HoldsNothing cfg slot) (hdeferred : cfg.deferredUntil new now = some activateAt) :
    (st.applyOps (diffDocument slot none new cfg false now)).Leaves cfg slot (fun _ _ => False) fun _ _ => false where
  has_iff t := has_applyOps.trans (h.has_iff t)
  filter f hf k := by
    have ht : cfg.Indexes (.filter f k) := hf
    simp [h.bit_insert ht, shownBit_of_deferred hdeferred]
  sort sc hsc b hb := by
    have ht : cfg.Indexes (.sort sc.name b) := ⟨sc, hsc, rfl, hb⟩
    rw [h.bit_insert ht, shownBit_of_deferred hdeferred]

/-- **An insert** of a visible document into an empty slot makes the index hold it. -/
theorem HoldsNothing.holdsDoc_insert (h : st.HoldsNothing cfg slot) (hvisible : cfg.deferredUntil new now = none) :
    (st.applyOps (diffDocument slot none new cfg false now)).HoldsDoc cfg slot new where
  has_iff t := has_applyOps.trans (h.has_iff t)
  bit_iff t ht := by
    rw [h.bit_insert ht]
    exact shownBit_iff hvisible

end Holds

end IndexState

/-! ### An insert writes its own slot -/

/-- The op writes bits of this slot and of no other. -/
def MutationOp.WritesOnly (slot : UInt32) : MutationOp → Prop
  | .filterInsert _ _ slots | .filterRemove _ _ slots | .sortSet _ _ slots | .sortClear _ _ slots
  | .aliveInsert slots | .aliveRemove slots => slots = [slot]
  | .deferredAlive _ _ | .deferredCancel _ => False

namespace MutationOp.WritesOnly

variable {op : MutationOp} {slot x : UInt32}

theorem eq_of_write {t : Target} {v : Bool} (h : op.WritesOnly slot) (hwrite : op.write t x = some v) : x = slot := by
  cases op with
  | deferredAlive | deferredCancel => exact h.elim
  | _ =>
    obtain rfl : _ = [slot] := h
    simp only [write, mem_singleton, Option.ite_none_right_eq_some] at hwrite
    exact hwrite.1.2

theorem deferredMut_eq (h : op.WritesOnly slot) : op.deferredMut = none := by
  cases op with
  | deferredAlive | deferredCancel => exact h.elim
  | _ => rfl

end MutationOp.WritesOnly

section Inserts

variable {cfg : Config} {now : UInt64} {slot x : UInt32} {t : Target} {op : MutationOp} {doc : Document}

theorem writesOnly_of_mem_freshOps (hop : op ∈ cfg.freshOps slot none doc) : op.WritesOnly slot := by
  simp only [freshOps, Option.elim_none, nil_append, mem_append, mem_flatMap,
    mem_ite_nil_left, mem_elim_nil, collectFilterInsertOps, overwriteBitsOps, mem_map] at hop
  obtain ⟨name, -, -, fv, -, k, -, rfl⟩ | ⟨sc, -, value, -, b, -, rfl⟩ := hop
  · rfl
  · split <;> rfl

theorem writesOnly_of_mem_shadowOps (hop : op ∈ cfg.shadowOps slot doc) : op.WritesOnly slot := by
  simp only [shadowOps, mem_flatMap, mem_cons, not_mem_nil, or_false] at hop
  obtain ⟨s, -, rfl | rfl⟩ := hop <;> rfl

/-- **What an insert can be**: the slot is scheduled and nothing else, or bits of the slot are written. -/
theorem insertOps_cases (cfg : Config) (slot : UInt32) (doc : Document) (now : UInt64) :
    (∃ activateAt, diffDocument slot none doc cfg false now = [.deferredAlive slot activateAt]) ∨
      ∀ op ∈ diffDocument slot none doc cfg false now, op.WritesOnly slot := by
  rw [diffDocument]
  cases cfg.deferredUntil doc now with
  | some activateAt => exact .inl ⟨activateAt, rfl⟩
  | none =>
    refine .inr fun op hop => ?_
    simp only [Bool.false_eq_true, if_false, mem_append, mem_singleton] at hop
    rcases hop with (hop | hop) | rfl
    · exact writesOnly_of_mem_freshOps hop
    · exact writesOnly_of_mem_shadowOps hop
    · rfl

theorem bitWrites_insert_of_ne (hx : x ≠ slot) : bitWrites t x (diffDocument slot none doc cfg false now) = [] := by
  rw [bitWrites, filterMap_eq_nil_iff]
  intro op hop
  rcases insertOps_cases cfg slot doc now with ⟨activateAt, hops⟩ | hops
  · rw [hops] at hop
    obtain rfl := mem_singleton.mp hop
    rfl
  · cases hwrite : op.write t x with
    | none => rfl
    | some v => exact absurd ((hops op hop).eq_of_write hwrite) hx

end Inserts

/-! ### An index of images -/

section Images

/-- Images sort by the later of two times; a shadow says whether they have a publication time, which defers them. -/
def imageConfig : Config where
  filterFields := ["isPublished"]
  sortFields := [⟨"sortAt", 8, some ⟨.greatest, ["existedAt", "publishedAt"]⟩⟩]
  dataSchema := [⟨"publishedAtUnix", "publishedAt", false⟩, ⟨"publishedAtUnix", "isPublished", true⟩]
  deferredAlive := some ⟨"publishedAt", false⟩
  filter_nodup := by decide
  sort_nodup := by decide

def emptyImages : IndexState where
  slots := .new
  filters := ⟨(∅ : HashMap String FilterField).insert "isPublished" (.new {})⟩
  sorts := ⟨(∅ : HashMap String SortField).insert "sortAt" ⟨replicate 8 .newEmpty⟩⟩

def image (existedAt publishedAt : Option Int64) : Document := fun name =>
  if name = "existedAt" then existedAt.map fun v => .single (.integer v)
  else if name = "publishedAt" then publishedAt.map fun v => .single (.integer v)
  else none

/-- The index after the image was inserted into slot 0, at time 10. -/
def imageState (doc : Document) : IndexState := emptyImages.applyOps (diffDocument 0 none doc imageConfig false 10)

theorem lookup_insert_empty {β : Type} (name f : String) (v : β) :
    AList.lookup f ((∅ : HashMap String β).insert name v) = if f = name then some v else none := by
  split
  · next h => rw [h, AList.lookup_insert]
  · next h => rw [AList.lookup_insert_ne h, AList.lookup_empty]

theorem getField_filters_emptyImages (f : String) :
    emptyImages.filters.getField f = if f = "isPublished" then some (.new {}) else none :=
  lookup_insert_empty _ _ _

theorem getField_sorts_emptyImages (f : String) :
    emptyImages.sorts.getField f = if f = "sortAt" then some ⟨replicate 8 .newEmpty⟩ else none :=
  lookup_insert_empty _ _ _

theorem emptyImages_holdsNothing : emptyImages.HoldsNothing imageConfig 0 where
  has_iff t := by
    cases t with
    | filter f k =>
      show (emptyImages.filters.getField f).isSome = true ↔ f ∈ ["isPublished"]
      rw [getField_filters_emptyImages]
      split <;> simp_all
    | sort f b =>
      show b < emptyImages.sorts.numBits f ↔ _
      rw [SortIndex.numBits, getField_sorts_emptyImages]
      split
      · next hf => simp [hf, Config.Indexes, imageConfig, SortField.numBits]
      · next hf => simp [Config.Indexes, imageConfig, Ne.symm hf]
    | alive => exact Iff.rfl
  bit_eq t := by
    refine decide_eq_false ?_
    cases t with
    | filter f k =>
      show 0 ∉ emptyImages.filters.bits f k
      rw [FilterIndex.bits, getField_filters_emptyImages]
      by_cases hf : f = "isPublished" <;>
        simp [hf, FilterField.bits, FilterField.getVersioned, FilterField.new]
    | sort f b =>
      show 0 ∉ emptyImages.sorts.layer f b
      rw [SortIndex.layer, getField_sorts_emptyImages]
      by_cases hf : f = "sortAt"
      · simp only [hf, if_true, SortField.layer, getElem?_replicate]
        split
        · next vb hvb =>
          split at hvb
          · cases hvb
            decide
          · cases hvb
        · exact Finset.notMem_empty 0
      · simp [hf]
    | alive => decide

theorem imageState_holdsDoc {doc : Document} (h : imageConfig.deferredUntil doc 10 = none) :
    (imageState doc).HoldsDoc imageConfig 0 doc := emptyImages_holdsNothing.holdsDoc_insert h

end Images

/-! ## An upsert against an insert -/

section Upsert

variable {st st₀ : IndexState} {cfg : Config} {slot : UInt32} {old new : Document} {now activateAt : UInt64}
  {isUpsert : Bool}

/-- Falling back on the old document's source values changes no bit of a sort field. -/
def Config.KeepsSortBits (cfg : Config) (old new : Document) : Prop :=
  ∀ sc ∈ cfg.sortFields, ∀ b < sc.bits, optBit (sc.upsertValue old new) b = optBit (sc.freshValue new) b

/-- The document carries its shadows' values, and the bits of its computed sort values, under those fields' names. -/
def Config.SpellsBits (cfg : Config) (doc : Document) : Prop :=
  (∀ s ∈ cfg.deriveExistsBooleanShadows doc, s.1 ∈ cfg.filterFields → shadowKey s.2 ∈ doc.keys s.1) ∧
    ∀ sc ∈ cfg.sortFields, ∀ b < sc.bits,
      optBit (sc.freshValue doc) b = true → optBit (fieldToSortU32 doc sc.name) b = true

/-- What an upsert needs: of the new document if it is visible, of the old one if the new one is deferred. -/
def Config.UpsertMeets (cfg : Config) (old new : Document) (now : UInt64) : Prop :=
  match cfg.deferredUntil new now with
  | none => cfg.KeepsSortBits old new
  | some _ => cfg.SpellsBits old

/-- Nothing is left of a document that spells out its bits, and of no other. -/
theorem Config.spellsBits_iff : cfg.SpellsBits old ↔ (∀ f ∈ cfg.filterFields, ∀ k, ¬cfg.LeftKey old f k) ∧
      ∀ sc ∈ cfg.sortFields, ∀ b < sc.bits, sc.leftBit old b = false := by
  refine and_congr ?_ ?_
  · constructor
    · rintro hspells f hf k ⟨hshows, hk⟩
      rcases hshows with ⟨-, -, hmem⟩ | ⟨s, hs, rfl, rfl⟩
      · exact hk hmem
      · exact hk (hspells s hs hf)
    · intro hnone s hs hf
      by_contra hk
      exact hnone s.1 hf (shadowKey s.2) ⟨.inr ⟨s, hs, rfl, rfl⟩, hk⟩
  · refine forall₄_congr fun sc _ b _ => ?_
    rw [leftBit]
    cases optBit (sc.freshValue old) b <;> cases optBit (fieldToSortU32 old sc.name) b <;> simp

/-- **An upsert is as good as an insert** into an empty slot exactly when the condition holds. -/
theorem sameFields_upsert_iff (hold : st.HoldsDoc cfg slot old) (hempty : st₀.HoldsNothing cfg slot) :
    SameFields slot (st.applyOps (diffDocument slot (some old) new cfg true now))
        (st₀.applyOps (diffDocument slot none new cfg false now)) ↔ cfg.UpsertMeets old new now := by
  rw [Config.UpsertMeets]
  cases hnew : cfg.deferredUntil new now with
  | none =>
    rw [(hold.upsert hnew).sameFields_iff (hempty.holdsDoc_insert hnew).leaves]
    exact and_iff_right fun _ _ _ => Iff.rfl
  | some activateAt =>
    rw [(hold.deferred hnew).sameFields_iff (hempty.deferred hnew)]
    simp only [iff_false]
    exact spellsBits_iff.symm

/-- An image without a publication time gets a later time of existence. -/
theorem sameFields_upsert_image : (imageState (image (some 3) none)).HoldsDoc imageConfig 0 (image (some 3) none) ∧
      emptyImages.HoldsNothing imageConfig 0 ∧
      imageConfig.UpsertMeets (image (some 3) none) (image (some 4) none) 10 ∧ SameFields 0
        ((imageState (image (some 3) none)).applyOps
          (diffDocument 0 (some (image (some 3) none)) (image (some 4) none) imageConfig true 10))
        (emptyImages.applyOps (diffDocument 0 none (image (some 4) none) imageConfig false 10)) := by
  have hold : (imageState (image (some 3) none)).HoldsDoc imageConfig 0 (image (some 3) none) :=
    imageState_holdsDoc (by decide)
  have hmeets : imageConfig.UpsertMeets (image (some 3) none) (image (some 4) none) 10 := by
    show ∀ sc ∈ imageConfig.sortFields, ∀ b < sc.bits, _
    decide +kernel
  exact ⟨hold, emptyImages_holdsNothing, hmeets, (sameFields_upsert_iff hold emptyImages_holdsNothing).mpr hmeets⟩

/-- An image loses its publication time 5: the upsert still sorts it at 5, an insert sorts it at 4. -/
theorem upsert_sorts_by_removed_time :
    (imageState (image (some 3) (some 5))).HoldsDoc imageConfig 0 (image (some 3) (some 5)) ∧
      emptyImages.HoldsNothing imageConfig 0 ∧ ¬SameFields 0 ((imageState (image (some 3) (some 5))).applyOps
          (diffDocument 0 (some (image (some 3) (some 5))) (image (some 4) none) imageConfig true 10))
        (emptyImages.applyOps (diffDocument 0 none (image (some 4) none) imageConfig false 10)) := by
  refine ⟨imageState_holdsDoc (by decide), emptyImages_holdsNothing, fun hsame => ?_⟩
  have hupsert : 0 ∈ ((imageState (image (some 3) (some 5))).applyOps
      (diffDocument 0 (some (image (some 3) (some 5))) (image (some 4) none) imageConfig true 10)).sorts.layer
        "sortAt" 0 := by decide +kernel
  have hinsert : 0 ∉ (emptyImages.applyOps
      (diffDocument 0 none (image (some 4) none) imageConfig false 10)).sorts.layer "sortAt" 0 := by
    decide +kernel
  exact hinsert ((hsame.sorts "sortAt" 0).mp hupsert)

/-! ## A deferred document is hidden -/

/-- The slot is dead, scheduled once, and in no bitmap. -/
structure Hidden (st : IndexState) (slot : UInt32) (activateAt : UInt64) : Prop where
  dead : st.slots.isAlive slot = false
  scheduled : st.slots.deferredAt slot = [activateAt]
  filters : ∀ f k, slot ∉ st.filters.bits f k
  sorts : ∀ f b, slot ∉ st.sorts.layer f b

theorem isAlive_deferred (hdeferred : cfg.deferredUntil new now = some activateAt) :
    (st.applyOps (diffDocument slot (some old) new cfg isUpsert now)).slots.isAlive slot = false := by
  have hhas : st.Has .alive := trivial
  rw [isAlive_eq_bit, bit_applyOps hhas, bitWrites_deferred hdeferred, Option.elim_some,
    bitWrites_append, bitWrites_singleton]
  simp [write, settle, Target.preferred]

theorem deferredAt_deferred (hdeferred : cfg.deferredUntil new now = some activateAt) :
    (st.applyOps (diffDocument slot (some old) new cfg isUpsert now)).slots.deferredAt slot = [activateAt] := by
  rw [deferredAt_applyOps, diffDocument, hdeferred]
  -- the last op schedules the slot, whatever was scheduled before
  simp [deferredMut, SlotAllocator.reschedule]

/-- The bits of a filter or sort field that clearing a document clears: those it has under the field's own name. -/
def Config.Clears (cfg : Config) (doc : Document) : Target → Prop
  | .filter f k => f ∈ cfg.filterFields ∧ k ∈ doc.keys f
  | .sort f b => ∃ sc ∈ cfg.sortFields, sc.name = f ∧ b < sc.bits ∧ optBit (fieldToSortU32 doc f) b = true
  | .alive => False

theorem false_mem_clearOldOps_iff (slot : UInt32) {t : Target} :
    false ∈ bitWrites t slot (clearOldOps cfg slot old) ↔ cfg.Clears old t := by
  cases t with
  | filter f k =>
    rw [writes_clearOldOps.filter, Config.Clears]
    by_cases hf : f ∈ cfg.filterFields <;> simp [hf, mem_replicate, count_eq_zero]
  | sort f b =>
    rw [Config.Clears]
    by_cases hf : ∃ sc ∈ cfg.sortFields, sc.name = f
    · obtain ⟨sc, hsc, rfl⟩ := hf
      rw [writes_clearOldOps.sort sc hsc]
      constructor
      · intro hmem
        split at hmem
        · next hset => exact ⟨sc, hsc, rfl, hset⟩
        · cases hmem
      · rintro ⟨sc', hsc', hname, hset⟩
        obtain rfl : sc' = sc := inj_on_of_nodup_map cfg.sort_nodup hsc' hsc hname
        rw [if_pos hset]
        exact mem_singleton_self false
    · have hquiet : cfg.Quiet (.sort f b) := ⟨by simp, fun sc hsc b' heq => hf ⟨sc, hsc, (Target.sort.inj heq).1.symm⟩⟩
      rw [writes_clearOldOps.quiet _ hquiet]
      refine iff_of_false not_mem_nil ?_
      rintro ⟨sc, hsc, hname, -⟩
      exact hf ⟨sc, hsc, hname⟩
  | alive =>
    rw [writes_clearOldOps.quiet _ quiet_alive]
    exact iff_of_false not_mem_nil not_false

/-- **What a deferral leaves** of any slot: the bits the stored document does not have under the field's own name. -/
theorem bit_deferred {t : Target} (ht : t ≠ .alive) (hdeferred : cfg.deferredUntil new now = some activateAt) :
    (st.applyOps (diffDocument slot (some old) new cfg isUpsert now)).bit t slot = true ↔
      st.bit t slot = true ∧ ¬cfg.Clears old t := by
  by_cases hhas : st.Has t
  · have htrue : true ∉ bitWrites t slot ((some old).elim [] (clearOldOps cfg slot)) := true_notMem_clearOldOps
    rw [Option.elim_some] at htrue
    have hwrites : bitWrites t slot (diffDocument slot (some old) new cfg isUpsert now) =
        bitWrites t slot (clearOldOps cfg slot old) := by
      rw [bitWrites_deferred hdeferred, Option.elim_some, bitWrites_append, bitWrites_singleton]
      simp [write, ht]
    rw [bit_applyOps hhas, hwrites, ← false_mem_clearOldOps_iff slot, settle_eq_ite]
    cases t.preferred <;> by_cases hfalse : false ∈ bitWrites t slot (clearOldOps cfg slot old) <;>
      simp [htrue, hfalse]
  · rw [bit_eq_false hhas, bit_eq_false (mt has_applyOps.mp hhas)]
    simp

/-- Every bit the slot has in the index, null and shadow bits included, is one that clearing the document clears. -/
def Config.ClearsSlot (cfg : Config) (doc : Document) (st : IndexState) (slot : UInt32) : Prop :=
  (∀ f k, slot ∈ st.filters.bits f k → cfg.Clears doc (.filter f k)) ∧
    ∀ f b, slot ∈ st.sorts.layer f b → cfg.Clears doc (.sort f b)

/-- **A deferred document is hidden** exactly when each bit its slot has in the index, however set, is one that the
document it replaces has under the field's own name. -/
theorem hidden_iff (hdeferred : cfg.deferredUntil new now = some activateAt) :
    Hidden (st.applyOps (diffDocument slot (some old) new cfg isUpsert now)) slot activateAt ↔
      cfg.ClearsSlot old st slot := by
  have hfilter : ∀ f k, slot ∉ (st.applyOps (diffDocument slot (some old) new cfg isUpsert now)).filters.bits f k ↔
      (slot ∈ st.filters.bits f k → cfg.Clears old (.filter f k)) := by
    intro f k
    rw [mem_bits_iff_bit, bit_deferred (by simp) hdeferred, not_and_not_right, mem_bits_iff_bit]
  have hsort : ∀ f b, slot ∉ (st.applyOps (diffDocument slot (some old) new cfg isUpsert now)).sorts.layer f b ↔
      (slot ∈ st.sorts.layer f b → cfg.Clears old (.sort f b)) := by
    intro f b
    rw [mem_layer_iff_bit, bit_deferred (by simp) hdeferred, not_and_not_right, mem_layer_iff_bit]
  constructor
  · intro hhidden
    exact ⟨fun f k => (hfilter f k).mp (hhidden.filters f k), fun f b => (hsort f b).mp (hhidden.sorts f b)⟩
  · rintro ⟨hfilters, hsorts⟩
    exact ⟨isAlive_deferred hdeferred, deferredAt_deferred hdeferred, fun f k => (hfilter f k).mpr (hfilters f k),
      fun f b => (hsort f b).mpr (hsorts f b)⟩

/-- In an index that holds exactly the document, these are the documents that spell out their bits. -/
theorem IndexState.HoldsDoc.clearsSlot (hold : st.HoldsDoc cfg slot old) (hspells : cfg.SpellsBits old) :
    cfg.ClearsSlot old st slot := by
  refine ⟨fun f k hmem => ?_, fun f b hmem => ?_⟩
  · have hbit := (mem_bits_iff_bit st f k).mp hmem
    have hf : f ∈ cfg.filterFields := by
      by_contra hnone
      rw [bit_eq_false (mt (hold.has_iff (.filter f k)).mp hnone)] at hbit
      cases hbit
    refine ⟨hf, ?_⟩
    by_contra hk
    exact (spellsBits_iff.mp hspells).1 f hf k ⟨(hold.leaves.filter f hf k).mp hbit, hk⟩
  · have hbit := (mem_layer_iff_bit st f b).mp hmem
    have ht : cfg.Indexes (.sort f b) := by
      by_contra hnone
      rw [bit_eq_false (mt (hold.has_iff (.sort f b)).mp hnone)] at hbit
      cases hbit
    obtain ⟨sc, hsc, rfl, hb⟩ := ht
    rw [hold.leaves.sort sc hsc b hb] at hbit
    exact ⟨sc, hsc, rfl, hb, hspells.2 sc hsc b hb hbit⟩

/-- A published image that carries its shadow and its sort value itself. -/
def spelledImage : Document := fun name =>
  if name = "isPublished" then some (.single (.integer 1))
  else if name = "sortAt" then some (.single (.integer 5))
  else image none (some 5) name

theorem hidden_spelledImage : (imageState spelledImage).HoldsDoc imageConfig 0 spelledImage ∧
      imageConfig.deferredUntil (image none (some 100)) 10 = some 100 ∧ imageConfig.SpellsBits spelledImage ∧
      Hidden ((imageState spelledImage).applyOps
        (diffDocument 0 (some spelledImage) (image none (some 100)) imageConfig true 10)) 0 100 := by
  have hold : (imageState spelledImage).HoldsDoc imageConfig 0 spelledImage := imageState_holdsDoc (by decide)
  have hdeferred : imageConfig.deferredUntil (image none (some 100)) 10 = some 100 := by decide
  have hspells : imageConfig.SpellsBits spelledImage := by
    unfold Config.SpellsBits
    decide +kernel
  exact ⟨hold, hdeferred, hspells, (hidden_iff hdeferred).mpr (hold.clearsSlot hspells)⟩

/-- A published image is moved to time 100 and still counts as published at time 10. One that carries its shadow and
sort value itself, and whose slot a null value has put under the null key, stays under that key. -/
theorem deferred_image_stays_published :
    (imageState (image none (some 5))).HoldsDoc imageConfig 0 (image none (some 5)) ∧
      (imageState (image none (some 5))).slots.isAlive 0 = true ∧
      imageConfig.deferredUntil (image none (some 100)) 10 = some 100 ∧
      0 ∈ ((imageState (image none (some 5))).applyOps
        (diffDocument 0 (some (image none (some 5))) (image none (some 100)) imageConfig true 10)).filters.bits
          "isPublished" 1 ∧ ¬Hidden ((imageState (image none (some 5))).applyOps
        (diffDocument 0 (some (image none (some 5))) (image none (some 100)) imageConfig true 10)) 0 100 ∧
      0 ∈ (((imageState spelledImage).applyOps [.filterInsert "isPublished" nullBitmapKey [0]]).applyOps
        (diffDocument 0 (some spelledImage) (image none (some 100)) imageConfig true 10)).filters.bits
          "isPublished" nullBitmapKey := by
  have hleft : 0 ∈ ((imageState (image none (some 5))).applyOps
      (diffDocument 0 (some (image none (some 5))) (image none (some 100)) imageConfig true 10)).filters.bits
        "isPublished" 1 := by decide +kernel
  exact ⟨imageState_holdsDoc (by decide), by decide +kernel, by decide, hleft,
    fun hhidden => hhidden.filters "isPublished" 1 hleft, by decide +kernel⟩

end Upsert

/-! ## What a partial update leaves -/

/-- The fields of the patch override, the others are kept. -/
def Document.merge (old patch : Document) : Document := fun name => (patch name).or (old name)

/-- The patch has a value for the field that differs from the stored one. -/
def Document.Patches (patch old : Document) (f : String) : Prop :=
  (patch f).isSome = true ∧ fieldValuesEqual (old f) (patch f) = false

instance (patch old : Document) (f : String) : Decidable (patch.Patches old f) := inferInstanceAs (Decidable (_ ∧ _))

/-- The keys a partial update leaves: those of a patched field, with what the stored document showed but did not spell
out. -/
def Config.PatchedKey (cfg : Config) (old patch : Document) (f : String) (k : UInt64) : Prop :=
  if patch.Patches old f then k ∈ patch.keys f ∨ (cfg.Shows old (.filter f k) ∧ k ∉ old.keys f)
  else cfg.Shows old (.filter f k)

section Partial

variable {st : IndexState} {cfg : Config} {slot : UInt32} {old patch : Document} {now : UInt64} {f : String}
  {k : UInt64} {b : Nat} {sc : SortFieldConfig}

theorem Document.merge_of_some {v : FieldValue} (h : patch f = some v) : (old.merge patch) f = some v := by
  simp [Document.merge, h]

theorem Document.merge_of_none (h : patch f = none) : (old.merge patch) f = old f := by
  simp [Document.merge, h]

/-- The values between which a partial update moves a sort field. -/
def partialChange (sc : SortFieldConfig) (old patch : Document) : Option UInt32 × Option UInt32 :=
  match sc.computed with
  | some computed => resolveComputedSort computed old patch
  | none => (fieldToSortU32 old sc.name, fieldToSortU32 (old.merge patch) sc.name)

theorem writes_partialOps : cfg.Writes slot (cfg.partialOps slot old patch) (fun f k => if patch.Patches old f then
          replicate ((old.keys f).count k) false ++ replicate ((patch.keys f).count k) true
        else [])
      fun sc b =>
        if b < sc.bits then sortDiffWrites (partialChange sc old patch).1 (partialChange sc old patch).2 b else [] := by
  refine writes_loops (fun t name ht => ?_) (fun t sc ht => ?_) (fun f k => ?_) fun sc b => ?_
  · split
    · rfl
    · split
      · rfl
      · rw [bitWrites_append, (bitWrites_collect_of_ne ht _).1]
        exact (bitWrites_collect_of_ne ht (some _)).2
  · dsimp only
    split <;> (try split) <;> (try split) <;> (try split) <;> simp [bitWrites_emit_of_ne ht]
  · cases hp : patch f with
    | none => simp [Document.Patches, hp]
    | some v =>
      have hinsert : bitWrites (.filter f k) slot (collectFilterInsertOps f slot v) =
          replicate ((patch.keys f).count k) true := by
        rw [← bitWrites_insertOps, hp]
        rfl
      cases heq : fieldValuesEqual (old f) (some v) <;>
        simp [heq, hp, Document.Patches, bitWrites_removeOps, hinsert]
  · unfold partialChange
    cases sc.computed with
    | some computed =>
      dsimp only
      split
      · exact bitWrites_emitChange _ _
      · -- no source is in the patch, so none has changed
        rename_i hnone
        have hchange : resolveComputedSort computed old patch = (none, none) := by
          rw [resolveComputedSort, if_neg]
          rw [any_eq_true]
          rintro ⟨f, hf, hchanged⟩
          apply hnone
          rw [any_eq_true]
          exact ⟨f, hf, (Bool.and_eq_true_iff.mp hchanged).1⟩
        simp [hchange, sortDiffWrites]
    | none =>
      dsimp only
      cases hp : patch sc.name with
      | none =>
        have hmerge : fieldToSortU32 (old.merge patch) sc.name = fieldToSortU32 old sc.name := by
          simp [fieldToSortU32, Document.merge_of_none hp]
        simp [hmerge, sortDiffWrites_self]
      | some v =>
        have hmerge : fieldToSortU32 (old.merge patch) sc.name = fieldToSortU32 patch sc.name := by
          simp [fieldToSortU32, Document.merge_of_some hp, hp]
        rw [hmerge]
        dsimp only
        split
        · rename_i heq
          have hsame : Alike (old sc.name) (patch sc.name) := .inr (by rw [hp]; exact heq)
          simp [hsame.index.2.2, sortDiffWrites_self]
        · exact bitWrites_emitChange _ _

/-- A source is taken from the patch, then from the stored document; merging them first makes no
difference. -/
theorem filterMap_merge_eq (sources : List String) :
    (sources.filterMap fun f => (fieldToSortU32 (old.merge patch) f).or (fieldToSortU32 old f)) =
      sources.filterMap fun f => (fieldToSortU32 patch f).or (fieldToSortU32 old f) := by
  refine filterMap_congr fun f _ => ?_
  cases hp : patch f with
  | none => simp [fieldToSortU32, Document.merge_of_none hp, hp]
  | some v => simp [fieldToSortU32, Document.merge_of_some hp, hp]

theorem partialChange_upsertValue (sc : SortFieldConfig) (old patch : Document) :
    (partialChange sc old patch = (none, none) ∧ sc.freshValue old = sc.upsertValue old (old.merge patch)) ∨
      partialChange sc old patch = (sc.freshValue old, sc.upsertValue old (old.merge patch)) := by
  have h := sortChange_upsertValue sc old patch
  unfold partialChange
  unfold sortChange freshValue upsertValue at h
  unfold freshValue upsertValue
  cases hc : sc.computed with
  | none => exact .inr rfl
  | some computed =>
    simp only [hc] at h
    simp only [filterMap_merge_eq]
    exact h

/-- **A partial update** of a visible document leaves the patched keys, and the sort values of an upsert of the merged
one. -/
theorem IndexState.HoldsDoc.patched (h : st.HoldsDoc cfg slot old) (hvisible : cfg.deferredUntil patch now = none) :
    (st.applyOps (diffDocumentPartial slot (some old) patch cfg now)).Leaves cfg slot (cfg.PatchedKey old patch)
      fun sc b => optBit (sc.upsertValue old (old.merge patch)) b := by
  have hops : diffDocumentPartial slot (some old) patch cfg now = cfg.partialOps slot old patch := by
    simp [diffDocumentPartial, hvisible, Option.getD_some]
  refine ⟨fun t => has_applyOps.trans (h.has_iff t), ?_, ?_⟩
  · intro f hf k
    rw [h.bit_filter hf k, hops, writes_partialOps.filter, getD_settle_true_iff, h.leaves.filter f hf k,
      Config.PatchedKey]
    by_cases hp : patch.Patches old f
    · simp [hf, hp, mem_replicate, count_eq_zero, and_comm]
    · simp [hp]
  · intro sc hsc b hb
    refine h.sort_changed hsc hb ?_ (partialChange_upsertValue sc old patch)
    rw [hops, writes_partialOps.sort sc hsc, if_pos hb]

/-! ## A partial update against an upsert of the merged document -/

/-- The keys that the derived shadows of a document are filed under in a field. -/
def Config.shadowKeys (cfg : Config) (doc : Document) (f : String) : List UInt64 :=
  ((cfg.deriveExistsBooleanShadows doc).filter fun s => s.1 = f).map fun s => shadowKey s.2

/-- The partial update leaves every shadow as the merged document derives it; it touches only those in the patch. -/
def Config.KeepsShadows (cfg : Config) (old patch : Document) : Prop :=
  ∀ f ∈ cfg.filterFields, f ∈ cfg.shadowTargets → ∀ k,
    (if patch.Patches old f then k ∈ patch.keys f ∨ (k ∈ cfg.shadowKeys old f ∧ k ∉ old.keys f)
      else k ∈ cfg.shadowKeys old f) ↔ k ∈ cfg.shadowKeys (old.merge patch) f

/-- The merged document is deferred, though the patch alone is not: the bitmaps must be left as clearing the stored
document would leave them. -/
def Config.ClearsLike (cfg : Config) (old patch : Document) : Prop :=
  (∀ f ∈ cfg.filterFields, ∀ k, cfg.PatchedKey old patch f k → cfg.Shows old (.filter f k) ∧ k ∉ old.keys f) ∧
    ∀ sc ∈ cfg.sortFields, ∀ b < sc.bits, optBit (sc.upsertValue old (old.merge patch)) b =
      (optBit (sc.freshValue old) b && !optBit (fieldToSortU32 old sc.name) b)

/-- What a partial update needs. A patch that is deferred itself needs nothing. -/
def Config.PatchMeets (cfg : Config) (old patch : Document) (now : UInt64) : Prop :=
  match cfg.deferredUntil patch now, cfg.deferredUntil (old.merge patch) now with
  | some _, _ => True
  | none, none => cfg.KeepsShadows old patch
  | none, some _ => cfg.ClearsLike old patch

theorem shows_iff_mem_shadowKeys {doc : Document} (hs : f ∈ cfg.shadowTargets) :
    cfg.Shows doc (.filter f k) ↔ k ∈ cfg.shadowKeys doc f := by
  simp [Config.Shows, shadowKeys, hs, not_true_eq_false, false_and, and_false, false_or,
    mem_map, mem_filter, decide_eq_true_eq, and_assoc]

/-- A field that is no shadow is patched as the merged document has it. -/
theorem patchedKey_iff_of_not_shadow (hf : f ∈ cfg.filterFields) (hs : f ∉ cfg.shadowTargets) :
    cfg.PatchedKey old patch f k ↔ cfg.Shows (old.merge patch) (.filter f k) := by
  rw [Config.PatchedKey, shows_filter_of_not_shadow hs, shows_filter_of_not_shadow hs, and_iff_right hf,
    and_iff_right hf]
  cases hp : patch f with
  | none =>
    have hkeys : (old.merge patch).keys f = old.keys f := by
      simp [Document.keys, Document.merge_of_none hp]
    simp [Document.Patches, hp, hkeys]
  | some v =>
    have hkeys : (old.merge patch).keys f = patch.keys f := by
      simp [Document.keys, Document.merge_of_some hp, hp]
    rw [hkeys]
    split
    · simp
    · rename_i hsame
      -- the stored value equals the patched one, so both have the same keys
      have heq : fieldValuesEqual (old f) (patch f) = true := by
        by_contra hne
        exact hsame ⟨by rw [hp]; rfl, Bool.eq_false_of_not_eq_true hne⟩
      have halike : Alike (old f) (patch f) := .inr heq
      rw [halike.index.2.1]

theorem keepsShadows_iff : cfg.KeepsShadows old patch ↔ ∀ f ∈ cfg.filterFields, ∀ k,
      (cfg.PatchedKey old patch f k ↔ cfg.Shows (old.merge patch) (.filter f k)) := by
  have hshadow : ∀ f, f ∈ cfg.shadowTargets → ∀ k,
      ((cfg.PatchedKey old patch f k ↔ cfg.Shows (old.merge patch) (.filter f k)) ↔
        ((if patch.Patches old f then k ∈ patch.keys f ∨ (k ∈ cfg.shadowKeys old f ∧ k ∉ old.keys f)
          else k ∈ cfg.shadowKeys old f) ↔ k ∈ cfg.shadowKeys (old.merge patch) f)) := by
    intro f hs k
    rw [Config.PatchedKey, shows_iff_mem_shadowKeys hs, shows_iff_mem_shadowKeys hs]
  constructor
  · intro hkeeps f hf k
    by_cases hs : f ∈ cfg.shadowTargets
    · exact (hshadow f hs k).mpr (hkeeps f hf hs k)
    · exact patchedKey_iff_of_not_shadow hf hs
  · intro hall f hf hs k
    exact (hshadow f hs k).mp (hall f hf k)

/-- The merged document has the timestamp of the patch. -/
theorem deferredUntil_merge {activateAt : UInt64} (h : cfg.deferredUntil patch now = some activateAt) :
    cfg.deferredUntil (old.merge patch) now = some activateAt := by
  unfold deferredUntil at h ⊢
  cases hda : cfg.deferredAlive with
  | none => simp [hda] at h
  | some da =>
    rw [hda] at h
    cases hp : patch da.sourceField with
    | none => simp [hp] at h
    | some v => simpa [Document.merge_of_some hp, hp] using h

/-- **A partial update is as good as an upsert** of the merged document exactly when the condition holds. -/
theorem sameFields_partial_iff (hold : st.HoldsDoc cfg slot old) :
    SameFields slot (st.applyOps (diffDocumentPartial slot (some old) patch cfg now))
        (st.applyOps (diffDocument slot (some old) (old.merge patch) cfg true now)) ↔
      cfg.PatchMeets old patch now := by
  rw [Config.PatchMeets]
  cases hpatch : cfg.deferredUntil patch now with
  | some activateAt =>
    -- both clear what the stored document spells out
    have hcleared : (st.applyOps (diffDocumentPartial slot (some old) patch cfg now)).Leaves cfg slot
        (cfg.LeftKey old) (leftBit old) := by
      refine hold.cleared fun t ht => ?_
      simp only [diffDocumentPartial, hpatch, Option.getD_some, bitWrites_append]
      simp [bitWrites, write, ht]
    rw [hcleared.sameFields_iff (hold.deferred (deferredUntil_merge hpatch))]
    exact iff_of_true ⟨fun _ _ _ => Iff.rfl, fun _ _ _ _ => rfl⟩ trivial
  | none =>
    cases hmerged : cfg.deferredUntil (old.merge patch) now with
    | none =>
      rw [(hold.patched hpatch).sameFields_iff (hold.upsert hmerged), ← keepsShadows_iff]
      exact and_iff_left fun _ _ _ _ => rfl
    | some activateAt =>
      rw [(hold.patched hpatch).sameFields_iff (hold.deferred hmerged)]
      refine and_congr (forall₃_congr fun f hf k => ?_) Iff.rfl
      -- what a deferral leaves, a partial update leaves too
      refine ⟨Iff.mp, fun hleft => ⟨hleft, fun hkept => ?_⟩⟩
      rw [Config.PatchedKey]
      split
      · exact .inr hkept
      · exact hkept.1

/-- A patch of the time of existence touches no shadow. -/
theorem sameFields_partial_image : (imageState (image (some 3) none)).HoldsDoc imageConfig 0 (image (some 3) none) ∧
      imageConfig.PatchMeets (image (some 3) none) (image (some 4) none) 10 ∧ SameFields 0
        ((imageState (image (some 3) none)).applyOps
          (diffDocumentPartial 0 (some (image (some 3) none)) (image (some 4) none) imageConfig 10))
        ((imageState (image (some 3) none)).applyOps
          (diffDocument 0 (some (image (some 3) none)) ((image (some 3) none).merge (image (some 4) none))
            imageConfig true 10)) := by
  have hold : (imageState (image (some 3) none)).HoldsDoc imageConfig 0 (image (some 3) none) :=
    imageState_holdsDoc (by decide)
  have hmeets : imageConfig.PatchMeets (image (some 3) none) (image (some 4) none) 10 := by
    show imageConfig.KeepsShadows (image (some 3) none) (image (some 4) none)
    intro f hf _ k
    obtain rfl : f = "isPublished" := mem_singleton.mp hf
    have hkeys : imageConfig.shadowKeys (image (some 3) none) "isPublished" =
        imageConfig.shadowKeys ((image (some 3) none).merge (image (some 4) none)) "isPublished" := by decide
    rw [if_neg (by decide), hkeys]
  exact ⟨hold, hmeets, (sameFields_partial_iff hold).mpr hmeets⟩

/-- A patch publishes an image: the partial update leaves it unpublished, an upsert publishes it. -/
theorem partial_update_leaves_unpublished :
    (imageState (image none none)).HoldsDoc imageConfig 0 (image none none) ∧ ¬SameFields 0
        ((imageState (image none none)).applyOps
          (diffDocumentPartial 0 (some (image none none)) (image none (some 5)) imageConfig 10))
        ((imageState (image none none)).applyOps
          (diffDocument 0 (some (image none none)) ((image none none).merge (image none (some 5)))
            imageConfig true 10)) := by
  refine ⟨imageState_holdsDoc (by decide), fun hsame => ?_⟩
  have hpartial : 0 ∉ ((imageState (image none none)).applyOps
      (diffDocumentPartial 0 (some (image none none)) (image none (some 5)) imageConfig 10)).filters.bits
        "isPublished" 1 := by decide +kernel
  have hupsert : 0 ∈ ((imageState (image none none)).applyOps
      (diffDocument 0 (some (image none none)) ((image none none).merge (image none (some 5)))
        imageConfig true 10)).filters.bits "isPublished" 1 := by decide +kernel
  exact hpartial ((hsame.filters "isPublished" 1).mpr hupsert)

end Partial

end Bitdex
