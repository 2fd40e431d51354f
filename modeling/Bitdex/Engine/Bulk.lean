import Bitdex.Engine.Shared
import Bitdex.Write.Diff
import Bitdex.Write.Parts

/-!
# `Engine.Bulk` — bulk operations beside the flush thread

`put_bulk`, `build_all_from_docstore` and `rebuild_fields_from_docstore` clone the published snapshot, write to the
clone and publish it themselves. The flush thread's staging copy does not hear of that, nor the bulk operation of the
flush thread: each may publish a snapshot without the other's writes.

`Sharing` is the two sides with a ledger of what every bit was last written to (`owed`) and of what the last
publication owes (`due`). A clone lags once a write was made that it does not see. If no lagging clone is published,
and replaced fields are rebuilt with every write made to them, every published bit stays (`due_bit_eq`). Regular
cycles publish a lagging staging copy after a bulk operation that makes a slot alive.

What a bulk operation writes to its clone alone is written here in the step that stores it.
-/

namespace Bitdex

open FilterIndex InnerEngine VersionedBitmap IndexState AList List

/-! ## Writes past the diff -/

theorem VersionedBitmap.mem_fused_orIntoBase_of_notMem {vb : VersionedBitmap} {bitmap : Bitmap} {x : UInt32}
    (hx : x ∉ bitmap) : x ∈ (vb.orIntoBase bitmap).fused ↔ x ∈ vb.fused := by
  rw [mem_fused, mem_fused, orIntoBase]
  simp [hx]

theorem FilterField.mem_bits_orBitmap_of_not {ff : FilterField} {value k : UInt64} {bitmap : Bitmap} {x : UInt32}
    (h : ¬(k = value ∧ x ∈ bitmap)) : x ∈ (ff.orBitmap value bitmap).bits k ↔ x ∈ ff.bits k := by
  unfold bits getVersioned orBitmap
  by_cases hk : k = value
  · have hx : x ∉ bitmap := fun hx => h ⟨hk, hx⟩
    subst hk
    rw [lookup_insert]
    show x ∈ (orIntoBase _ bitmap).fused ↔ _
    rw [mem_fused_orIntoBase_of_notMem hx, getVersioned]
    cases ff.bitmaps.lookup k with
    | none | some vb => exact Iff.rfl
  · rw [lookup_insert_ne hk]

theorem SortField.mem_layer_orLayer_of_not {sf : SortField} {bit b : Nat} {bitmap : Bitmap} {x : UInt32}
    (h : ¬(b = bit ∧ x ∈ bitmap)) : x ∈ (sf.orLayer bit bitmap).layer b ↔ x ∈ sf.layer b := by
  unfold layer orLayer
  rw [List.getElem?_modify]
  by_cases hb : bit = b
  · have hx : x ∉ bitmap := fun hx => h ⟨hb.symm, hx⟩
    cases sf.bitLayers[b]? with
    | none => simp
    | some vb => simpa [hb] using mem_fused_orIntoBase_of_notMem hx
  · cases sf.bitLayers[b]? <;> simp [hb]

/-- OR a bitmap into the alive set, past the diff. -/
def SlotAllocator.aliveOrBitmap (sa : SlotAllocator) (bitmap : Bitmap) : SlotAllocator where
  nextSlot := match (Bitmap.iter bitmap).getLast? with
    | some maxSlot => if maxSlot + 1 > sa.nextSlot then maxSlot + 1 else sa.nextSlot
    | none => sa.nextSlot
  alive := sa.alive.orIntoBase bitmap
  deferred := sa.deferred

/-! ## What a bulk operation writes to its clone -/

/-- What the documents decompose into, apart from values of shared fields. -/
structure BulkFields where
  /-- Replaced filter fields, with their new values. -/
  newFilters : List (String × FilterFieldConfig × List (UInt64 × Bitmap)) := []
  /-- Replaced sort fields, with their numbers of bits. -/
  newSorts : List (String × Nat) := []
  sorts : List (String × Nat × Bitmap) := []
  alive : Bitmap := ∅

/-- `add_field`, and the values ORed into the new field. -/
def addFilterField (he : FieldHeap × InnerEngine) (f : String × FilterFieldConfig × List (UInt64 × Bitmap)) :
    FieldHeap × InnerEngine :=
  let field := f.2.2.foldl (fun ff v => ff.orBitmap v.1 v.2) (.new f.2.1)
  ({ cell := fun n a => if n = f.1 ∧ a = he.1.next then field else he.1.cell n a, next := he.1.next + 1 },
    { he.2 with filters := he.2.filters.insert f.1 he.1.next })

/-- Add an empty sort field. -/
def addSortField (si : SortIndex) (f : String × Nat) : SortIndex :=
  ⟨si.fields.insert f.1 ⟨replicate f.2 .newEmpty⟩⟩

/-- OR a bitmap into a layer. -/
def orSortLayer (si : SortIndex) (l : String × Nat × Bitmap) : SortIndex := si.update l.1 (·.orLayer l.2.1 l.2.2)

namespace BulkFields

variable (w : BulkFields)

/-- The clone with the fields written. -/
def into (he : FieldHeap × InnerEngine) : FieldHeap × InnerEngine :=
  let added := w.newFilters.foldl addFilterField he
  (added.1, { added.2 with
    sorts := w.sorts.foldl orSortLayer (w.newSorts.foldl addSortField added.2.sorts)
    slots := added.2.slots.aliveOrBitmap w.alive })

/-- The bits written. -/
def writes : List (Target × Bitmap) :=
  (w.newFilters.flatMap fun f => f.2.2.map fun v => (.filter f.1 v.1, v.2)) ++
    (w.sorts.map fun l => (.sort l.1 l.2.1, l.2.2)) ++ [(.alive, w.alive)]

/-- The write sets a bit. -/
def Writes (t : Target) (x : UInt32) : Prop := ∃ e ∈ w.writes, e.1 = t ∧ x ∈ e.2

instance (t : Target) (x : UInt32) : Decidable (w.Writes t x) := by
  unfold Writes
  infer_instance

/-- The field of the bit is replaced. -/
def Replaces : Target → Prop
  | .filter f _ => f ∈ w.newFilters.map (·.1)
  | .sort f _ => f ∈ w.newSorts.map (·.1)
  | .alive => False

instance : DecidablePred w.Replaces
  | .filter f _ => inferInstanceAs (Decidable (f ∈ w.newFilters.map (·.1)))
  | .sort f _ => inferInstanceAs (Decidable (f ∈ w.newSorts.map (·.1)))
  | .alive => inferInstanceAs (Decidable False)

end BulkFields

/-- Every `Arc` of the clone was made. -/
def InnerEngine.Made (h : FieldHeap) (e : InnerEngine) : Prop := ∀ n arc, e.filters.lookup n = some arc → arc < h.next

section Fields

variable {h : FieldHeap} {e e' : InnerEngine} {n : String} {k : UInt64} {x : UInt32}
  {f : String × FilterFieldConfig × List (UInt64 × Bitmap)}

theorem FilterField.notMem_bits_foldl_orBitmap {values : List (UInt64 × Bitmap)} {ff : FilterField}
    (hff : x ∉ ff.bits k) (hv : ∀ v ∈ values, ¬(k = v.1 ∧ x ∈ v.2)) :
    x ∉ (values.foldl (fun ff v => ff.orBitmap v.1 v.2) ff).bits k := by
  induction values generalizing ff with
  | nil => exact hff
  | cons v values ih =>
    refine ih ?_ fun v' hv' => hv v' (mem_cons_of_mem v hv')
    rw [FilterField.mem_bits_orBitmap_of_not (hv v mem_cons_self)]
    exact hff

/-- A clone made before a field is added does not see it. -/
theorem getField_view_addFilterField (hmade : e'.Made h) :
    (e'.view (addFilterField (h, e) f).1).filters.getField n = (e'.view h).filters.getField n := by
  rw [getField_view, getField_view]
  cases harc : e'.filters.lookup n with
  | none => rfl
  | some arc =>
    have hlt := hmade n arc harc
    have hne : ¬(n = f.1 ∧ arc = h.next) := fun hn => absurd hn.2 (Nat.ne_of_lt hlt)
    simp [addFilterField, hne]

theorem made_addFilterField (hmade : e'.Made h) :
    e'.Made (addFilterField (h, e) f).1 := fun n arc harc => Nat.lt_succ_of_lt (hmade n arc harc)

/-- The clone itself sees the new field in place of the old one. -/
theorem getField_view_addFilterField_self (hmade : e.Made h) :
    ((addFilterField (h, e) f).2.view (addFilterField (h, e) f).1).filters.getField n =
      if n = f.1 then some (f.2.2.foldl (fun ff v => ff.orBitmap v.1 v.2) (.new f.2.1))
      else (e.view h).filters.getField n := by
  rw [getField_view]
  by_cases hn : n = f.1
  · subst hn
    simp [addFilterField]
  · rw [if_neg hn, ← getField_view_addFilterField (e := e) (f := f) hmade, getField_view]
    simp [addFilterField, lookup_insert_ne hn]

theorem made_addFilterField_self (hmade : e.Made h) : (addFilterField (h, e) f).2.Made (addFilterField (h, e) f).1 := by
  intro n arc harc
  rcases lookup_insert_eq_some.mp harc with ⟨-, rfl⟩ | ⟨-, harc⟩
  · exact Nat.lt_succ_self _
  · exact Nat.lt_succ_of_lt (hmade n arc harc)

/-- What adding fields leaves alone: clones made before, and the other fields of the clone. -/
theorem foldl_addFilterField_spec (fields : List (String × FilterFieldConfig × List (UInt64 × Bitmap)))
    (hmade : e.Made h) : (∀ e' : InnerEngine, e'.Made h → e'.Made (fields.foldl addFilterField (h, e)).1 ∧
      ∀ n, (e'.view (fields.foldl addFilterField (h, e)).1).filters.getField n = (e'.view h).filters.getField n) ∧
    (fields.foldl addFilterField (h, e)).2.Made (fields.foldl addFilterField (h, e)).1 ∧
    (fields.foldl addFilterField (h, e)).2.slots = e.slots ∧ (fields.foldl addFilterField (h, e)).2.sorts = e.sorts ∧
    ∀ n k x, (∀ f ∈ fields, f.1 = n → ∀ v ∈ f.2.2, ¬(k = v.1 ∧ x ∈ v.2)) →
      (x ∈ ((fields.foldl addFilterField (h, e)).2.view (fields.foldl addFilterField (h, e)).1).filters.bits n k ↔
        n ∉ fields.map (·.1) ∧ x ∈ (e.view h).filters.bits n k) := by
  induction fields generalizing h e with
  | nil => exact ⟨fun e' he' => ⟨he', fun _ => rfl⟩, hmade, rfl, rfl, fun n k x _ => by simp⟩
  | cons f fields ih =>
    obtain ⟨hothers, hself, hslots, hsorts, hbits⟩ := ih (made_addFilterField_self (f := f) hmade)
    refine ⟨fun e' he' => ?_, hself, hslots, hsorts, fun n k x hx => ?_⟩
    · obtain ⟨hmade', hfields⟩ := hothers e' (made_addFilterField he')
      exact ⟨hmade', fun n => (hfields n).trans (getField_view_addFilterField he')⟩
    · refine (hbits n k x fun f' hf' => hx f' (mem_cons_of_mem f hf')).trans ?_
      -- either the field just added is the one asked for, and it has no such bit, or it is another one
      by_cases hn : n = f.1
      · have hnew : x ∉ ((addFilterField (h, e) f).2.view (addFilterField (h, e) f).1).filters.bits n k := by
          have hfield := getField_view_addFilterField_self (n := n) (f := f) hmade
          rw [if_pos hn] at hfield
          rw [bits_of_getField hfield]
          refine FilterField.notMem_bits_foldl_orBitmap ?_ (hx f mem_cons_self hn.symm)
          simp [FilterField.bits, FilterField.getVersioned, FilterField.new]
        simp [hn] at hnew ⊢
        exact fun _ => hnew
      · have hfield := getField_view_addFilterField_self (n := n) (f := f) hmade
        rw [if_neg hn] at hfield
        have hsame : ((addFilterField (h, e) f).2.view (addFilterField (h, e) f).1).filters.bits n k =
            (e.view h).filters.bits n k := by
          simp [bits, hfield]
        rw [hsame]
        simp [hn]

theorem mem_layer_foldl_addSortField (fields : List (String × Nat)) {si : SortIndex} {b : Nat} :
    x ∈ (fields.foldl addSortField si).layer n b ↔ n ∉ fields.map (·.1) ∧ x ∈ si.layer n b := by
  induction fields generalizing si with
  | nil => simp
  | cons f fields ih =>
    rw [foldl_cons, ih]
    have hlayer : x ∈ (addSortField si f).layer n b ↔ n ≠ f.1 ∧ x ∈ si.layer n b := by
      unfold SortIndex.layer SortIndex.getField addSortField
      by_cases hn : n = f.1
      · subst hn
        rw [lookup_insert]
        simp only [SortField.layer, List.getElem?_replicate, ne_eq, not_true_eq_false, false_and, iff_false]
        split
        · next vb hvb =>
          split at hvb
          · cases hvb
            simp [mem_fused, newEmpty, new, BitmapDiff.new]
          · cases hvb
        · exact Finset.notMem_empty x
      · simp [hn]
    simp only [map_cons, mem_cons, not_or]
    tauto

theorem mem_layer_foldl_orSortLayer (layers : List (String × Nat × Bitmap)) {si : SortIndex} {b : Nat}
    (hx : ∀ l ∈ layers, ¬(n = l.1 ∧ b = l.2.1 ∧ x ∈ l.2.2)) :
    x ∈ (layers.foldl orSortLayer si).layer n b ↔ x ∈ si.layer n b := by
  induction layers generalizing si with
  | nil => exact Iff.rfl
  | cons l layers ih =>
    rw [foldl_cons, ih fun l' hl' => hx l' (mem_cons_of_mem l hl')]
    unfold SortIndex.layer orSortLayer
    rw [SortIndex.getField_update]
    by_cases hn : n = l.1
    · rw [if_pos hn, ← hn]
      cases si.getField n with
      | none => exact Iff.rfl
      | some sf =>
        exact SortField.mem_layer_orLayer_of_not fun hb => hx l mem_cons_self ⟨hn, hb.1, hb.2⟩
    · rw [if_neg hn]

/-- **The clone of a bulk operation**: what it does not write is as before, or empty in a replaced field. -/
theorem bit_into {w : BulkFields} {t : Target} (hmade : e.Made h) (hw : ¬w.Writes t x) :
    ((w.into (h, e)).2.view (w.into (h, e)).1).bit t x = true ↔ ¬w.Replaces t ∧ (e.view h).bit t x = true := by
  obtain ⟨-, -, hslots, hsorts, hbits⟩ := foldl_addFilterField_spec w.newFilters hmade
  simp only [bit, decide_eq_true_iff]
  cases t with
  | filter n k =>
    refine hbits n k x ?_
    intro f hf hn v hv hk
    refine hw ⟨(.filter f.1 v.1, v.2), ?_, by rw [hn, hk.1], hk.2⟩
    simp only [BulkFields.writes, mem_append, mem_flatMap, mem_map]
    exact .inl (.inl ⟨f, hf, v, hv, rfl⟩)
  | sort n b =>
    show x ∈ (w.sorts.foldl orSortLayer (w.newSorts.foldl addSortField _)).layer n b ↔ _
    rw [mem_layer_foldl_orSortLayer, mem_layer_foldl_addSortField, hsorts]
    · exact Iff.rfl
    · intro l hl hlb
      refine hw ⟨(.sort l.1 l.2.1, l.2.2), ?_, by rw [hlb.1, hlb.2.1], hlb.2.2⟩
      simp only [BulkFields.writes, mem_append, mem_map]
      exact .inl (.inr ⟨l, hl, rfl⟩)
  | alive =>
    have hx : x ∉ w.alive := by
      intro hx
      refine hw ⟨(.alive, w.alive), ?_, rfl, hx⟩
      simp [BulkFields.writes]
    show x ∈ (orIntoBase _ w.alive).fused ↔ _
    rw [mem_fused_orIntoBase_of_notMem hx, hslots]
    simp [BulkFields.Replaces, holders, view]

/-- Clones made before see nothing of it. -/
theorem bit_into_of_made {w : BulkFields} {t : Target} (hmade : e.Made h) (hmade' : e'.Made h) :
    (e'.view (w.into (h, e)).1).bit t x = (e'.view h).bit t x := by
  obtain ⟨hothers, -⟩ := foldl_addFilterField_spec w.newFilters hmade
  refine bit_congr ?_ ?_ ?_ t x
  · rfl
  · exact (hothers e' hmade').2
  · rfl

theorem made_into {w : BulkFields} (hmade : e.Made h) :
    (w.into (h, e)).2.Made (w.into (h, e)).1 ∧ ∀ e' : InnerEngine, e'.Made h → e'.Made (w.into (h, e)).1 := by
  obtain ⟨hothers, hself, -⟩ := foldl_addFilterField_spec w.newFilters hmade
  exact ⟨hself, fun e' he' => (hothers e' he').1⟩

end Fields

/-! ## The two sides -/

/-- A bulk operation under way: the clone that it loaded. -/
structure Bulk where
  clone : InnerEngine
  lags : Bool

/-- The flush thread, the bulk operations under way and the ledger. A clone lags once a write was made that it does not
see. -/
structure Sharing where
  heap : FieldHeap
  staging : InnerEngine
  published : InnerEngine
  bulks : Nat → Option Bulk
  stagingLags : Bool
  publishedLags : Bool
  /-- What every bit was last written to. -/
  owed : Target → UInt32 → Option Bool
  /-- What the last publication showed of that, until a later write to the bit. -/
  due : Target → UInt32 → Option Bool

/-- Steps of the flush thread and of bulk operations. -/
inductive ShareEvent where
  -- the flush thread
  | apply (op : MutationOp)
  | compact (field : String)
  | publish
  -- bulk operations
  | load (id : Nat)
  | orBitmap (id : Nat) (field : String) (value : UInt64) (bitmap : Bitmap)
  | store (id : Nat) (fields : BulkFields)

namespace Sharing

/-- The flush thread has just published an index. -/
def initial (st : IndexState) : Sharing where
  heap := ⟨fun n _ => (st.filters.getField n).getD (.new {}), 1⟩
  staging := ⟨st.slots, st.filters.fields.filterMap fun _ _ => some 0, st.sorts⟩
  published := ⟨st.slots, st.filters.fields.filterMap fun _ _ => some 0, st.sorts⟩
  bulks := fun _ => none
  stagingLags := false
  publishedLags := false
  owed := fun _ _ => none
  due := fun _ _ => none

variable (s : Sharing)

/-- Bits are written: they are owed, and what the last publication showed of them is not due any more. -/
def record (written : Target → UInt32 → Option Bool) : Sharing :=
  { s with
    owed := fun t x => (written t x).or (s.owed t x)
    due := fun t x => if (written t x).isSome then none else s.due t x }

/-- Clones that do not see a write lag. -/
def lag (misses : InnerEngine → Bool) : Sharing :=
  { s with
    stagingLags := s.stagingLags || misses s.staging
    publishedLags := s.publishedLags || misses s.published
    bulks := fun id => (s.bulks id).map fun b => { b with lags := b.lags || misses b.clone } }

/-- What is owed is now published. -/
def settleDue : Sharing := { s with due := s.owed }

/-- A clone misses a step of the flush thread, unless it has the field's `Arc` or the step writes no bit. -/
def missesOp (op : MutationOp) (clone : InnerEngine) : Bool :=
  match op with
  | .filterInsert field _ _ | .filterRemove field _ _ => !decide (s.staging.Shares clone field)
  | .sortSet _ _ _ | .sortClear _ _ _ | .aliveInsert _ | .aliveRemove _ => true
  | .deferredAlive _ _ | .deferredCancel _ => false

/-- The clone differs from a stored one in a bit that the bulk operation wrote. -/
def missesFields (fields : BulkFields) (stored : FieldHeap × InnerEngine) (clone : InnerEngine) : Bool :=
  !fields.writes.all fun e => (Bitmap.iter e.2).all fun x =>
    (clone.view stored.1).bit e.1 x == (stored.2.view stored.1).bit e.1 x

/-- One step of the flush thread. Other clones see what it writes to a field they share, and nothing else. -/
def apply (op : MutationOp) : Sharing :=
  let written := fun t x => if (s.staging.view s.heap).Has t then op.write t x else none
  let lagged := s.lag fun clone => s.missesOp op clone
  -- the staging copy itself misses nothing
  { lagged.record written with
    heap := (s.staging.applyOp s.heap op).1
    staging := (s.staging.applyOp s.heap op).2
    stagingLags := s.stagingLags }

/-- Merge the diffs of a field into its bases. -/
def compact (field : String) : Sharing := { s with heap := s.staging.updateField s.heap field (·.mergeDirty) }

/-- Publish staging. -/
def publish : Sharing := { s with published := s.staging, publishedLags := s.stagingLags }.settleDue

/-- A bulk operation clones the snapshot. -/
def load (id : Nat) : Sharing :=
  { s with bulks := fun i => if i = id then some ⟨s.published, s.publishedLags⟩ else s.bulks i }

/-- OR a bitmap into a field of a clone; all who have its `Arc` see that. -/
def orBitmap (b : Bulk) (field : String) (value : UInt64) (bitmap : Bitmap) : Sharing :=
  let heap := b.clone.updateField s.heap field (·.orBitmap value bitmap)
  let written := fun t x =>
    if t = .filter field value ∧ x ∈ bitmap then some ((b.clone.view heap).bit t x) else none
  { (s.lag fun clone => !decide (b.clone.Shares clone field)).record written with heap := heap }

/-- Publish the clone of a bulk operation. The bits written are owed as the clone shows them. -/
def store (id : Nat) (b : Bulk) (fields : BulkFields) : Sharing :=
  let stored := fields.into (s.heap, b.clone)
  let written := fun t x =>
    if fields.Writes t x then some ((stored.2.view stored.1).bit t x) else none
  let lagged := (s.lag fun clone => missesFields fields stored clone).record written
  { lagged with
    heap := stored.1
    published := stored.2
    publishedLags := b.lags
    bulks := fun i => if i = id then none else lagged.bulks i }.settleDue

/-- One event; `none` if there is no such bulk operation. -/
def next : ShareEvent → Option Sharing
  | .apply op => some (s.apply op)
  | .compact field => some (s.compact field)
  | .publish => some s.publish
  | .load id => some (s.load id)
  | .orBitmap id field value bitmap => (s.bulks id).map fun b => s.orBitmap b field value bitmap
  | .store id fields => (s.bulks id).map fun b => s.store id b fields

/-- **The condition.** A clone that is published does not lag, and replaced fields are rebuilt with all writes to
them. -/
def Meets : ShareEvent → Prop
  | .publish => s.stagingLags = false
  | .store id fields => ∀ b, s.bulks id = some b → b.lags = false ∧
      ∀ t x v, fields.Replaces t → s.owed t x = some v → (fields.Writes t x ↔ v = true)
  | _ => True

end Sharing

/-! ### The bulk operations

The values of fields that a clone shares are written where all see them; the rest is private until the clone is
stored. -/

/-- `put_bulk`: no field is replaced. -/
def putBulk (id : Nat) (values : List (String × UInt64 × Bitmap)) (sorts : List (String × Nat × Bitmap))
    (alive : Bitmap) : List ShareEvent :=
  .load id :: (values.map fun v => .orBitmap id v.1 v.2.1 v.2.2) ++ [.store id { sorts := sorts, alive := alive }]

/-- `build_all_from_docstore`: every field is replaced, and the slots of all documents are made alive. -/
def buildAllFromDocstore (id : Nat) (fields : BulkFields) : List ShareEvent := [.load id, .store id fields]

/-- `rebuild_fields_from_docstore`: the fields asked for are replaced, the slots stay. -/
def rebuildFieldsFromDocstore (id : Nat) (newFilters : List (String × FilterFieldConfig × List (UInt64 × Bitmap)))
    (newSorts : List (String × Nat)) (sorts : List (String × Nat × Bitmap)) : List ShareEvent :=
  [.load id, .store id { newFilters := newFilters, newSorts := newSorts, sorts := sorts }]

namespace Sharing

variable (s : Sharing)

/-! ## What the ledger says of the clones -/

/-- The clone shows everything that is owed. -/
def Carries (h : FieldHeap) (owed : Target → UInt32 → Option Bool) (e : InnerEngine) : Prop :=
  ∀ t x v, owed t x = some v → (e.view h).bit t x = v

/-- Clones that do not lag show everything owed; the published one shows what is due. -/
structure Inv : Prop where
  staging_made : s.staging.Made s.heap
  published_made : s.published.Made s.heap
  bulks_made : ∀ id b, s.bulks id = some b → b.clone.Made s.heap
  staging_carries : s.stagingLags = false → Carries s.heap s.owed s.staging
  published_carries : s.publishedLags = false → Carries s.heap s.owed s.published
  bulks_carry : ∀ id b, s.bulks id = some b → b.lags = false → Carries s.heap s.owed b.clone
  due_shown : Carries s.heap s.due s.published

variable {s} {h h' : FieldHeap} {e e' : InnerEngine} {owed written : Target → UInt32 → Option Bool} {field : String}

/-- A clone that sees a write carries what is owed afterwards. -/
theorem Carries.record (hcarries : Carries h owed e) (hnew : ∀ t x v, written t x = some v → (e'.view h').bit t x = v)
    (hold : ∀ t x, written t x = none → (e'.view h').bit t x = (e.view h).bit t x) :
    Carries h' (fun t x => (written t x).or (owed t x)) e' := by
  intro t x v hv
  have hv : (written t x).or (owed t x) = some v := hv
  cases hw : written t x with
  | none =>
    rw [hw] at hv
    rw [hold t x hw]
    exact hcarries t x v hv
  | some v' =>
    rw [hw] at hv
    exact hnew t x v (hw.trans hv)

/-- What is due stays shown by a clone whose other bits stay. -/
theorem Carries.erase (hcarries : Carries h owed e)
    (hold : ∀ t x, written t x = none → (e.view h').bit t x = (e.view h).bit t x) :
    Carries h' (fun t x => if (written t x).isSome then none else owed t x) e := by
  intro t x v hv
  cases hw : written t x with
  | none =>
    simp only [hw, Option.isSome_none, Bool.false_eq_true, if_false] at hv
    rw [hold t x hw]
    exact hcarries t x v hv
  | some v' => simp [hw] at hv

theorem initial_inv (st : IndexState) : (initial st).Inv := by
  have hmade : (initial st).staging.Made (initial st).heap := by
    intro n arc harc
    have hzero : (st.filters.fields.lookup n).bind (fun _ => some 0) = some arc := by
      rw [← harc]
      exact (lookup_filterMap st.filters.fields (fun _ _ => some 0) n).symm
    obtain ⟨ff, -, hff⟩ := Option.bind_eq_some_iff.mp hzero
    show arc < 1
    cases hff
    exact Nat.one_pos
  have hcarries : ∀ e : InnerEngine, Carries (initial st).heap (initial st).owed e := fun e t x v hv => nomatch hv
  exact ⟨hmade, hmade, fun _ _ hb => (nomatch hb), fun _ => hcarries _, fun _ => hcarries _,
    fun _ _ hb => (nomatch hb), hcarries _⟩

/-- **A write.** Clones that miss it lag; the others show it; every bit not written stays in every clone. -/
theorem Inv.write (hinv : s.Inv) {misses : InnerEngine → Bool} (hmade : ∀ e : InnerEngine, e.Made s.heap → e.Made h')
    (hframe : ∀ e : InnerEngine, e.Made s.heap → ∀ t x, written t x = none →
      (e.view h').bit t x = (e.view s.heap).bit t x)
    (hseen : ∀ e : InnerEngine, e.Made s.heap → misses e = false → ∀ t x v, written t x = some v →
      (e.view h').bit t x = v) :
    Inv { (s.lag misses).record written with heap := h' } := by
  have hcarry : ∀ (e : InnerEngine) (lags : Bool), e.Made s.heap →
      (lags = false → Carries s.heap s.owed e) → (lags || misses e) = false →
      Carries h' (fun t x => (written t x).or (s.owed t x)) e := by
    intro e lags he hcarries hlags
    obtain ⟨hlags, hmisses⟩ := Bool.or_eq_false_iff.mp hlags
    exact (hcarries hlags).record (hseen e he hmisses) (hframe e he)
  refine ⟨hmade _ hinv.staging_made, hmade _ hinv.published_made, ?_, ?_, ?_, ?_, ?_⟩
  · intro id b hb
    obtain ⟨b₀, hb₀, rfl⟩ := Option.map_eq_some_iff.mp hb
    exact hmade _ (hinv.bulks_made id b₀ hb₀)
  · exact hcarry s.staging s.stagingLags hinv.staging_made hinv.staging_carries
  · exact hcarry s.published s.publishedLags hinv.published_made hinv.published_carries
  · intro id b hb hlags
    obtain ⟨b₀, hb₀, rfl⟩ := Option.map_eq_some_iff.mp hb
    exact hcarry b₀.clone b₀.lags (hinv.bulks_made id b₀ hb₀) (hinv.bulks_carry id b₀ hb₀) hlags
  · exact hinv.due_shown.erase (hframe s.published hinv.published_made)

/-! ### The flush thread -/

theorem made_updateField {f : FilterField → FilterField} (hmade : e'.Made h) : e'.Made (e.updateField h field f) := by
  intro n arc harc
  have hnext : (e.updateField h field f).next = h.next := by
    unfold updateField
    split <;> rfl
  rw [hnext]
  exact hmade n arc harc

theorem made_applyOp {op : MutationOp} (hmade : e'.Made h) : e'.Made (e.applyOp h op).1 := by
  cases op with
  | filterInsert | filterRemove => exact made_updateField hmade
  | _ => exact hmade

theorem Inv.apply (hinv : s.Inv) (op : MutationOp) : (s.apply op).Inv := by
  have hframe : ∀ (e : InnerEngine) t x, (if (s.staging.view s.heap).Has t then op.write t x else none) = none →
      (e.view (s.staging.applyOp s.heap op).1).bit t x = (e.view s.heap).bit t x := by
    intro e t x hw
    refine bit_applyOp_frame ?_
    by_cases hhas : (s.staging.view s.heap).Has t
    · rw [if_pos hhas] at hw
      exact .inl hw
    · exact .inr hhas
  have hseen : ∀ (e : InnerEngine), s.missesOp op e = false → ∀ t x v,
      (if (s.staging.view s.heap).Has t then op.write t x else none) = some v →
      (e.view (s.staging.applyOp s.heap op).1).bit t x = v := by
    intro e hmisses t x v hw
    by_cases hhas : (s.staging.view s.heap).Has t
    · rw [if_pos hhas] at hw
      cases op with
      | filterInsert field value slots | filterRemove field value slots =>
        have hs : s.staging.Shares e field := by simpa [missesOp] using hmisses
        have hhas' : (e.view s.heap).Has t := by
          cases t with
          | filter n k =>
            obtain ⟨rfl, rfl⟩ : n = field ∧ k = value := by
              simp only [MutationOp.write, Option.ite_none_right_eq_some, Target.filter.injEq] at hw
              exact hw.1.1
            show ((e.view s.heap).filters.getField n).isSome = true
            rw [getField_view, hs, ← getField_view]
            exact hhas
          | sort | alive => simp [MutationOp.write] at hw
        rw [bit_applyOp_of_shares rfl hs hhas', hw]
        rfl
      | sortSet | sortClear | aliveInsert | aliveRemove => cases hmisses
      | deferredAlive | deferredCancel => cases hw
    · rw [if_neg hhas] at hw
      cases hw
  have hmade : ∀ e : InnerEngine, e.Made s.heap → e.Made (s.staging.applyOp s.heap op).1 := by
    intro e he
    exact made_applyOp he
  have hwrite := hinv.write hmade (fun e _ => hframe e) (fun e _ => hseen e)
  have hstaging : (s.staging.applyOp s.heap op).2.filters = s.staging.filters := by
    cases op <;> rfl
  -- the staging copy has written through itself, so it carries the write whatever it shares
  refine ⟨?_, hwrite.published_made, hwrite.bulks_made, ?_, hwrite.published_carries, hwrite.bulks_carry,
    hwrite.due_shown⟩
  · intro n arc harc
    exact made_applyOp hinv.staging_made n arc (hstaging ▸ harc)
  · intro hlags
    refine (hinv.staging_carries hlags).record ?_ ?_
    · intro t x v hw
      by_cases hhas : (s.staging.view s.heap).Has t
      · rw [if_pos hhas] at hw
        show ((s.staging.applyOp s.heap op).2.view (s.staging.applyOp s.heap op).1).bit t x = v
        rw [bit_applyOp hhas, hw]
        rfl
      · rw [if_neg hhas] at hw
        cases hw
    · intro t x hw
      show ((s.staging.applyOp s.heap op).2.view (s.staging.applyOp s.heap op).1).bit t x = _
      by_cases hhas : (s.staging.view s.heap).Has t
      · rw [if_pos hhas] at hw
        rw [bit_applyOp hhas, hw]
        rfl
      · rw [bit_eq_false fun hh => hhas (has_applyOp.mp hh), bit_eq_false hhas]

/-- A change of a field in place that keeps a bit of it. -/
theorem bit_updateField {f : FilterField → FilterField} {t : Target} {x : UInt32}
    (hf : ∀ ff k, t = .filter field k → (x ∈ (f ff).bits k ↔ x ∈ ff.bits k)) :
    (e.view (e'.updateField h field f)).bit t x = (e.view h).bit t x := by
  cases t with
  | filter n k =>
    unfold bit
    congr 1
    refine propext ?_
    show x ∈ bits _ n k ↔ x ∈ bits _ n k
    unfold bits
    by_cases hs : e'.Shares e field
    · rw [getField_view_updateField hs, getField_update]
      by_cases hn : n = field
      · rw [if_pos hn, hn]
        cases (e.view h).filters.getField field with
        | none => exact Iff.rfl
        | some ff => exact hf ff k (by rw [hn])
      · rw [if_neg hn]
    · rw [getField_view_updateField_of_not_shares hs]
  | sort | alive => rfl

theorem Inv.compact (hinv : s.Inv) (field : String) : (s.compact field).Inv := by
  have hcarries : ∀ {owed : Target → UInt32 → Option Bool} {e : InnerEngine}, Carries s.heap owed e →
      Carries (s.compact field).heap owed e := by
    intro owed e hc t x v hv
    refine (bit_updateField fun ff k _ => ?_).trans (hc t x v hv)
    rw [FilterField.bits, FilterField.bits, FilterField.getVersioned_mergeDirty]
    cases ff.getVersioned k with
    | none => exact Iff.rfl
    | some vb => exact iff_of_eq (congrArg (x ∈ ·) vb.fused_merge)
  exact ⟨made_updateField hinv.staging_made, made_updateField hinv.published_made,
    fun id b hb => made_updateField (hinv.bulks_made id b hb), fun hl => hcarries (hinv.staging_carries hl),
    fun hl => hcarries (hinv.published_carries hl), fun id b hb hl => hcarries (hinv.bulks_carry id b hb hl),
    hcarries hinv.due_shown⟩

theorem Inv.publish (hinv : s.Inv) (hmeets : s.stagingLags = false) : s.publish.Inv :=
  ⟨hinv.staging_made, hinv.staging_made, hinv.bulks_made, hinv.staging_carries, hinv.staging_carries,
    hinv.bulks_carry, hinv.staging_carries hmeets⟩

/-! ### Bulk operations -/

theorem Inv.load (hinv : s.Inv) (id : Nat) : (s.load id).Inv := by
  refine ⟨hinv.staging_made, hinv.published_made, ?_, hinv.staging_carries, hinv.published_carries, ?_, hinv.due_shown⟩
  · intro i b hb
    simp only [Sharing.load] at hb
    split at hb
    · cases hb
      exact hinv.published_made
    · exact hinv.bulks_made i b hb
  · intro i b hb
    simp only [Sharing.load] at hb
    split at hb
    · cases hb
      exact hinv.published_carries
    · exact hinv.bulks_carry i b hb

theorem Inv.orBitmap (hinv : s.Inv) (b : Bulk) (field : String) (value : UInt64) (bitmap : Bitmap) :
    (s.orBitmap b field value bitmap).Inv := by
  refine hinv.write (fun e he => made_updateField he) ?_ ?_
  · intro e _ t x hw
    have hnot : ¬(t = .filter field value ∧ x ∈ bitmap) := by
      intro hw'
      rw [if_pos hw'] at hw
      cases hw
    refine bit_updateField fun ff k ht => FilterField.mem_bits_orBitmap_of_not ?_
    rintro ⟨rfl, hx⟩
    exact hnot ⟨ht, hx⟩
  · intro e _ hmisses t x v hw
    have hs : b.clone.Shares e field := by simpa using hmisses
    obtain ⟨⟨rfl, -⟩, hv⟩ := Option.ite_none_right_eq_some.mp hw
    rw [← Option.some.inj hv]
    -- the two clones have the same `Arc`
    unfold bit
    congr 1
    show (x ∈ bits _ field value) = (x ∈ bits _ field value)
    congr 1
    unfold bits
    rw [getField_view, getField_view, hs]

theorem Inv.store (hinv : s.Inv) {id : Nat} {b : Bulk} {fields : BulkFields} (hb : s.bulks id = some b)
    (hlags : b.lags = false)
    (hrebuilt : ∀ t x v, fields.Replaces t → s.owed t x = some v → (fields.Writes t x ↔ v = true)) :
    (s.store id b fields).Inv := by
  have hclone := hinv.bulks_made id b hb
  obtain ⟨hself, hothers⟩ := made_into (w := fields) hclone
  generalize hstored : fields.into (s.heap, b.clone) = stored at hself hothers
  have hwrite : Inv { (s.lag (missesFields fields stored)).record (fun t x =>
      if fields.Writes t x then some ((stored.2.view stored.1).bit t x) else none) with heap := stored.1 } := by
    refine hinv.write hothers ?_ ?_
    · intro e he t x _
      rw [← hstored]
      exact bit_into_of_made hclone he
    · intro e _ hmisses t x v hw
      obtain ⟨⟨en, hen, rfl, hx⟩, hv⟩ := Option.ite_none_right_eq_some.mp hw
      rw [← Option.some.inj hv]
      simp only [missesFields, Bool.not_eq_false', all_eq_true, beq_iff_eq] at hmisses
      exact hmisses en hen x (Bitmap.mem_iter.mpr hx)
  have hpublished : Carries stored.1 (fun t x =>
      (if fields.Writes t x then some ((stored.2.view stored.1).bit t x) else none).or (s.owed t x)) stored.2 := by
    intro t x v hv
    by_cases hw : fields.Writes t x
    · simp only [if_pos hw, Option.some_or, Option.some.injEq] at hv
      exact hv
    · simp only [if_neg hw, Option.none_or] at hv
      have hbit : (stored.2.view stored.1).bit t x = true ↔
          ¬fields.Replaces t ∧ (b.clone.view s.heap).bit t x = true := by
        rw [← hstored]
        exact bit_into hclone hw
      have hcarried := hinv.bulks_carry id b hb hlags t x v hv
      rw [Bool.eq_iff_iff, hbit, hcarried]
      -- a replaced field was rebuilt, so a bit that is not written was owed clear
      by_cases hrep : fields.Replaces t
      · have hclear : ¬v = true := fun hv' => hw ((hrebuilt t x v hrep hv).mpr hv')
        simp [hrep, hclear]
      · simp [hrep]
  have hstore : s.store id b fields = { s with
      heap := stored.1
      published := stored.2
      publishedLags := b.lags
      stagingLags := s.stagingLags || missesFields fields stored s.staging
      bulks := fun i => if i = id then none else
        (s.bulks i).map fun b => { b with lags := b.lags || missesFields fields stored b.clone }
      owed := fun t x =>
        (if fields.Writes t x then some ((stored.2.view stored.1).bit t x) else none).or (s.owed t x)
      due := fun t x =>
        (if fields.Writes t x then some ((stored.2.view stored.1).bit t x) else none).or (s.owed t x) } := by
    rw [← hstored]
    rfl
  rw [hstore]
  refine ⟨hwrite.staging_made, hself, ?_, hwrite.staging_carries, fun _ => hpublished, ?_, hpublished⟩
  · intro i b' hb'
    dsimp only at hb'
    split at hb'
    · cases hb'
    · exact hwrite.bulks_made i b' hb'
  · intro i b' hb'
    dsimp only at hb'
    split at hb'
    · cases hb'
    · exact hwrite.bulks_carry i b' hb'

/-- **One step** that meets the condition keeps the invariant. -/
theorem Inv.step (hinv : s.Inv) {ev : ShareEvent} {s' : Sharing} (hmeets : s.Meets ev) (hs : s.next ev = some s') :
    s'.Inv := by
  cases ev with
  | apply op =>
    cases hs
    exact hinv.apply op
  | compact field =>
    cases hs
    exact hinv.compact field
  | publish =>
    cases hs
    exact hinv.publish hmeets
  | load id =>
    cases hs
    exact hinv.load id
  | orBitmap id field value bitmap =>
    obtain ⟨b, -, rfl⟩ := Option.map_eq_some_iff.mp hs
    exact hinv.orBitmap b field value bitmap
  | store id fields =>
    obtain ⟨b, hb, rfl⟩ := Option.map_eq_some_iff.mp hs
    obtain ⟨hlags, hrebuilt⟩ := hmeets b hb
    exact hinv.store hb hlags hrebuilt

end Sharing

/-- **Nothing published is lost.** In every run whose steps meet the condition, each bit written before the last
publication and not since is published as last written. -/
theorem due_bit_eq (st : IndexState) {es : List ShareEvent} {s : Sharing}
    (h : Reaches (fun s ev s' => Sharing.next s ev = some s') Sharing.Meets (.initial st) es s) :
    ∀ t x v, s.due t x = some v → (s.published.view s.heap).bit t x = v := by
  have hinv : s.Inv :=
    h.invariant (fun _ s => s.Inv) (Sharing.initial_inv st) fun _ _ _ _ hinv hmeets hs => hinv.step hmeets hs
  exact hinv.due_shown

/-! ### Images that are put in bulk -/

section Samples

/-- A regular cycle makes slots alive. -/
def aliveCycle (slots : List UInt32) : List ShareEvent := [.apply (.aliveInsert slots), .publish]

/-- Slot 0 is put in bulk, with the value 1 of `isPublished`. -/
def publishZero : List ShareEvent := putBulk 0 [("isPublished", 1, {0})] [] {0}

/-- What is owed of replaced fields is not enumerable, but where none is replaced nothing is asked. -/
noncomputable instance Sharing.decidableMeets (s : Sharing) : (ev : ShareEvent) → Decidable (s.Meets ev)
  | .publish => inferInstanceAs (Decidable (s.stagingLags = false))
  | .store id fields =>
    have : Decidable (∀ t x v, fields.Replaces t → s.owed t x = some v → (fields.Writes t x ↔ v = true)) :=
      if h : fields.newFilters = [] ∧ fields.newSorts = [] then
        isTrue fun t _ _ hrep => by cases t <;> simp [BulkFields.Replaces, h] at hrep
      else Classical.dec _
    inferInstanceAs (Decidable (∀ b, s.bulks id = some b → b.lags = false ∧ _))
  | .apply _ | .compact _ | .load _ | .orBitmap _ _ _ _ => isTrue trivial

/-- The value put in bulk is still there after a regular cycle, and so is the slot that an earlier cycle made alive. -/
theorem due_bit_eq_publishZero :
    ∃ s, Reaches (fun s ev s' => Sharing.next s ev = some s') Sharing.Meets (.initial emptyImages)
        (aliveCycle [0] ++ publishZero ++ aliveCycle [7]) s ∧
      s.due (.filter "isPublished" 1) 0 = some true ∧ s.due .alive 0 = some true ∧
      (s.published.view s.heap).bit (.filter "isPublished" 1) 0 = true ∧
      (s.published.view s.heap).bit .alive 0 = true := by
  have hrun : Computed Sharing.next Sharing.Meets (.initial emptyImages)
      (aliveCycle [0] ++ publishZero ++ aliveCycle [7]) :=
    .of_along (by decide +kernel)
  obtain ⟨s, hs, hfilter, halive⟩ : ∃ s, _ ∧ s.due (.filter "isPublished" 1) 0 = some true ∧
      s.due .alive 0 = some true := hrun.exists_end (by decide +kernel)
  exact ⟨s, hs, hfilter, halive, due_bit_eq emptyImages hs _ _ _ hfilter, due_bit_eq emptyImages hs _ _ _ halive⟩

/-- Slot 0 is put in bulk while no document is alive; the next regular cycle publishes a snapshot without it, though
the shared filter field has it. -/
theorem cycle_drops_bulk_slot :
    ∃ s, Reaches (fun s ev s' => Sharing.next s ev = some s') (fun _ _ => True) (.initial emptyImages)
        (publishZero ++ aliveCycle [7]) s ∧
      s.due .alive 0 = some true ∧ (s.published.view s.heap).bit .alive 0 = false ∧
      (s.published.view s.heap).bit (.filter "isPublished" 1) 0 = true :=
  Computed.of_true.exists_end (by decide +kernel)

/-- A field that is rebuilt is lost in the same way. -/
example : ((rebuildFieldsFromDocstore 0 [("isPublished", {}, [(1, {0})])] [] [] ++ aliveCycle [7]).foldlM Sharing.next
    (.initial emptyImages)).map (fun s => (s.due (.filter "isPublished" 1) 0,
      (s.published.view s.heap).bit (.filter "isPublished" 1) 0)) = some (some true, false) := by
  decide +kernel

end Samples

end Bitdex
