import Bitdex.Index.Load

/-!
# `Index.Dirty` — which values of a filter field wait for a merge

A filter field (`filter.rs`) keeps its bitmaps under one lock and the values with unmerged changes (`dirty_values`)
under another. An operation takes one after the other and holds neither in between, so that operations of other
threads come between its sections. `tracked_of_reaches`: in the runs whose steps meet `meets` no change is lost sight
of.
-/

namespace Bitdex

open FilterField List Option

/-- A value of a map has changes that are not merged. -/
def dirtyIn (m : HashMap UInt64 VersionedBitmap) (value : UInt64) : Bool := (m.lookup value).any (·.isDirty)

section Maps

variable {m : HashMap UInt64 VersionedBitmap} {value v : UInt64} {vb : VersionedBitmap}

theorem dirtyIn_insert : dirtyIn (m.insert value vb) v = if v = value then vb.isDirty else dirtyIn m v := by
  unfold dirtyIn
  rw [AList.lookup_insert_eq_ite]
  split <;> rfl

theorem dirtyIn_filterMap {f : UInt64 → VersionedBitmap → VersionedBitmap} :
    dirtyIn (m.filterMap fun value vb => some (f value vb)) v = (m.lookup v).any fun vb => (f v vb).isDirty := by
  unfold dirtyIn
  rw [AList.lookup_filterMap]
  cases m.lookup v <;> rfl

/-- A bitmap with the changes of the one before, or none if there was none, adds no changes. -/
theorem dirtyIn_of_insert (old : VersionedBitmap) (h : dirtyIn (m.insert value vb) v = true)
    (hold : old.isDirty = false) (hvb : vb.isDirty = ((m.lookup value).getD old).isDirty) : dirtyIn m v = true := by
  rw [dirtyIn_insert] at h
  split at h
  · next hv =>
    subst hv
    rw [hvb] at h
    cases hlookup : m.lookup v with
    | none => simp [hlookup, hold] at h
    | some vb => simpa [dirtyIn, hlookup] using h
  · exact h

theorem of_foldl {σ ε : Type} {P : σ → Prop} {step : σ → ε → σ} {es : List ε} {s : σ}
    (hstep : ∀ s e, P (step s e) → P s) (h : P (es.foldl step s)) : P s := by
  induction es generalizing s with
  | nil => exact h
  | cons e es ih => exact hstep s e (ih h)

end Maps

namespace FilterField

variable (ff : FilterField)

/-- Put a bitmap under a value. -/
def insertVersioned (value : UInt64) (vb : VersionedBitmap) : FilterField :=
  { ff with bitmaps := ff.bitmaps.insert value vb }

/-- Replace values by what was loaded. -/
def loadFrom (data : HashMap UInt64 Bitmap) : FilterField :=
  { ff with bitmaps := data.entries.foldl (fun m e => m.insert e.1 (.new e.2)) ff.bitmaps }

/-- Clear a slot everywhere. -/
def removeFromAll (slot : UInt32) : FilterField :=
  { ff with bitmaps := ff.bitmaps.filterMap fun _ vb => some (vb.remove slot) }

/-- Drop the bases and keep the diffs. -/
def clearBasesAndUnload : FilterField := { ff with bitmaps := ff.bitmaps.filterMap fun _ vb => some vb.cloneDiffOnly }

/-- The loop of `merge_dirty`: a value without its base keeps its changes. -/
def mergeValues (dirty : Finset UInt64) : FilterField :=
  { ff with bitmaps := ff.bitmaps.filterMap fun value vb => some (if value ∈ dirty then vb.merge else vb) }

/-- The values that the loop cannot merge yet. -/
def requeue (dirty : Finset UInt64) : Finset UInt64 :=
  dirty.filter fun value => (ff.getVersioned value).any fun vb => vb.isDirty && !vb.isLoaded

variable {ff} {v : UInt64} {data : HashMap UInt64 Bitmap}

theorem dirtyIn_of_loadFrom (h : dirtyIn (ff.loadFrom data).bitmaps v = true) : dirtyIn ff.bitmaps v = true := by
  refine of_foldl (P := fun m => dirtyIn m v = true) (fun m e h => ?_) h
  rw [dirtyIn_insert] at h
  split at h
  · cases h
  · exact h

theorem dirtyIn_of_loadValues {requested : List UInt64}
    (h : dirtyIn (ff.loadValues data requested).bitmaps v = true) : dirtyIn ff.bitmaps v = true := by
  refine of_foldl (P := fun ff : FilterField => dirtyIn ff.bitmaps v = true) (fun ff value h => ?_) h
  unfold loadedVb at h
  split at h
  · exact dirtyIn_of_insert .newUnloaded h rfl rfl
  · exact dirtyIn_of_insert .newEmpty h rfl rfl

theorem dirtyIn_of_loadFieldComplete (h : dirtyIn (ff.loadFieldComplete data).bitmaps v = true) :
    dirtyIn ff.bitmaps v = true := by
  simp only [loadFieldComplete, dirtyIn_filterMap] at h
  refine of_foldl (P := fun m => dirtyIn m v = true) (fun m e h => ?_) h
  exact dirtyIn_of_insert .newUnloaded h rfl rfl

/-- After the loop only what it gives back has changes, of the values that it was given. -/
theorem dirtyIn_of_mergeValues {dirty : Finset UInt64} (h : dirtyIn (ff.mergeValues dirty).bitmaps v = true) :
    v ∈ ff.requeue dirty ∨ (v ∉ dirty ∧ dirtyIn ff.bitmaps v = true) := by
  rw [mergeValues, dirtyIn_filterMap] at h
  obtain ⟨vb, hvb, h⟩ := (Option.any_eq_true _ _).mp h
  split at h
  · next hv =>
    refine .inl (Finset.mem_filter.mpr ⟨hv, (Option.any_eq_true _ _).mpr ⟨vb, hvb, ?_⟩⟩)
    unfold VersionedBitmap.merge at h
    split at h
    · next hstay =>
      have hdirty : vb.diff.isEmpty = false := by simpa [VersionedBitmap.isDirty] using h
      simpa [h, hdirty] using hstay
    · cases h
  · next hv => exact .inr ⟨hv, (Option.any_eq_true _ _).mpr ⟨vb, hvb, h⟩⟩

end FilterField

/-! ## Operations in sections -/

/-- What is left of an operation that has released a lock. -/
inductive Unfinished where
  | mark (values : Finset UInt64)
  | unmark (value : UInt64)
  | merge (dirty : Finset UInt64)
deriving DecidableEq

/-- The values that an operation will mark, or merge and mark if it cannot. -/
def Unfinished.covers (value : UInt64) : Unfinished → Bool
  | .mark values => value ∈ values
  | .unmark _ => false
  | .merge dirty => value ∈ dirty

/-- A field, its dirty values and calls under way. -/
structure TrackedField where
  field : FilterField
  dirtyValues : Finset UInt64
  pending : List Unfinished

/-- The operations on a field; `insert` and `remove` are the bulk operations with one slot. -/
inductive TrackingCall where
  | insertBulk (value : UInt64) (slots : List UInt32)
  | removeBulk (value : UInt64) (slots : List UInt32)
  | removeFromAll (slot : UInt32)
  | orBitmap (value : UInt64) (bitmap : Bitmap)
  | removeValue (value : UInt64)
  | insertVersioned (value : UInt64) (vb : VersionedBitmap)
  | loadFrom (data : HashMap UInt64 Bitmap)
  | loadFieldComplete (data : HashMap UInt64 Bitmap)
  | loadValues (data : HashMap UInt64 Bitmap) (requested : List UInt64)
  | clearBasesAndUnload
  | mergeDirty
  | mergeField (value : UInt64)

/-- A call starts or goes on. -/
inductive TrackingEvent where
  | start (call : TrackingCall)
  | resume (i : Nat)

namespace TrackedField

variable (s : TrackedField)

def new (config : FilterFieldConfig) : TrackedField := ⟨.new config, ∅, []⟩

/-- The bitmaps are written and the rest is still to be done. -/
def awaiting (field : FilterField) (rest : Unfinished) : TrackedField :=
  { s with field := field, pending := rest :: s.pending }

/-- The first section of an operation. -/
def start : TrackingCall → TrackedField
  | .insertBulk value slots => s.awaiting (s.field.insertBulk value slots) (.mark {value})
  | .removeBulk value slots => s.awaiting (s.field.removeBulk value slots) (.mark {value})
  | .removeFromAll slot => s.awaiting (s.field.removeFromAll slot) (.mark s.field.bitmaps.keys.toFinset)
  | .orBitmap value bitmap => { s with field := s.field.orBitmap value bitmap }
  | .removeValue value => s.awaiting (s.field.removeValue value) (.unmark value)
  | .insertVersioned value vb =>
    s.awaiting (s.field.insertVersioned value vb) (if vb.isDirty then .mark {value} else .unmark value)
  | .loadFrom data => { s with field := s.field.loadFrom data }
  | .loadFieldComplete data => { s with field := s.field.loadFieldComplete data }
  | .loadValues data requested => { s with field := s.field.loadValues data requested }
  | .clearBasesAndUnload => { s with field := s.field.clearBasesAndUnload }
  | .mergeDirty =>
    if s.dirtyValues = ∅ then s
    else { s with dirtyValues := ∅, pending := .merge s.dirtyValues :: s.pending }
  | .mergeField value =>
    match s.field.getVersioned value with
    | some vb =>
      if vb.isDirty && !vb.isLoaded then s.awaiting s.field (.mark {value})
      else s.awaiting (s.field.mergeValues {value}) (.unmark value)
    | none => s.awaiting s.field (.mark ∅)

/-- The next section of an operation under way. -/
def resume (i : Nat) : Option TrackedField :=
  s.pending[i]?.map fun rest =>
    let s := { s with pending := s.pending.eraseIdx i }
    match rest with
    | .mark values => { s with dirtyValues := s.dirtyValues ∪ values }
    | .unmark value => { s with dirtyValues := s.dirtyValues.erase value }
    | .merge dirty =>
      let requeue := s.field.requeue dirty
      { s with field := s.field.mergeValues dirty
               pending := if requeue = ∅ then s.pending else .mark requeue :: s.pending }

def next (s : TrackedField) : TrackingEvent → Option TrackedField
  | .start call => some (s.start call)
  | .resume i => s.resume i

/-- The value is dirty, or an operation under way has it in hand. -/
def Tracked (value : UInt64) : Prop := value ∈ s.dirtyValues ∨ ∃ rest ∈ s.pending, rest.covers value = true

/-- Every value with changes is tracked. -/
def Inv : Prop := ∀ value, dirtyIn s.field.bitmaps value = true → s.Tracked value

/-- **The condition on a step.** A value with changes leaves the dirty set only while an operation has it in hand. -/
def meets (s : TrackedField) : TrackingEvent → Bool
  | .start _ => true
  | .resume i =>
    match s.pending[i]? with
    | some (.unmark value) => !dirtyIn s.field.bitmaps value || s.pending.any (·.covers value)
    | _ => true

variable {s} {s' : TrackedField} {ev : TrackingEvent}

theorem Inv.awaiting {field : FilterField} {rest : Unfinished} (h : s.Inv)
    (hfield : ∀ v, dirtyIn field.bitmaps v = true → rest.covers v = true ∨ dirtyIn s.field.bitmaps v = true) :
    (s.awaiting field rest).Inv := by
  intro v hv
  rcases hfield v hv with hrest | hold
  · exact .inr ⟨rest, mem_cons_self, hrest⟩
  · exact (h v hold).imp_right fun ⟨r, hr, hcov⟩ => ⟨r, mem_cons_of_mem rest hr, hcov⟩

/-- An operation without a second section adds no changes. -/
theorem Inv.load {field : FilterField} (h : s.Inv)
    (hfield : ∀ {v}, dirtyIn field.bitmaps v = true → dirtyIn s.field.bitmaps v = true) :
    ({ s with field := field } : TrackedField).Inv :=
  fun v hv => h v (hfield hv)

/-- A write that marks its value afterwards. -/
theorem Inv.written {value : UInt64} {vb : VersionedBitmap} (h : s.Inv) :
    (s.awaiting { s.field with bitmaps := s.field.bitmaps.insert value vb } (.mark {value})).Inv := by
  refine h.awaiting fun v hv => ?_
  rw [dirtyIn_insert] at hv
  split at hv
  · next hvalue => exact .inl (by simp [Unfinished.covers, hvalue])
  · exact .inr hv

theorem Inv.start (h : s.Inv) (call : TrackingCall) : (s.start call).Inv := by
  cases call with
  | insertBulk value slots | removeBulk value slots => exact h.written
  | removeFromAll slot =>
    refine h.awaiting fun v hv => .inl ?_
    rw [removeFromAll, dirtyIn_filterMap] at hv
    obtain ⟨vb, hvb, -⟩ := (Option.any_eq_true _ _).mp hv
    have hkey : v ∈ s.field.bitmaps := AList.lookup_isSome.mp (isSome_of_eq_some hvb)
    exact decide_eq_true (mem_toFinset.mpr hkey)
  | orBitmap value bitmap => exact h.load fun hv => dirtyIn_of_insert .newEmpty hv rfl rfl
  | removeValue value =>
    refine h.awaiting fun v hv => .inr ?_
    obtain ⟨vb, hvb, hd⟩ := (Option.any_eq_true _ _).mp hv
    exact (Option.any_eq_true _ _).mpr ⟨vb, (AList.lookup_erase_eq_some.mp hvb).2, hd⟩
  | insertVersioned value vb =>
    rw [TrackedField.start]
    split
    · exact h.written
    · next hclean =>
      refine h.awaiting fun v hv => .inr ?_
      rw [insertVersioned, dirtyIn_insert] at hv
      split at hv
      · exact absurd hv hclean
      · exact hv
  | loadFrom data => exact h.load dirtyIn_of_loadFrom
  | loadFieldComplete data => exact h.load dirtyIn_of_loadFieldComplete
  | loadValues data requested => exact h.load dirtyIn_of_loadValues
  | clearBasesAndUnload =>
    refine h.load fun hv => ?_
    rwa [clearBasesAndUnload, dirtyIn_filterMap] at hv
  | mergeDirty =>
    rw [TrackedField.start]
    split
    · exact h
    · intro v hv
      rcases h v hv with hdirty | ⟨rest, hrest, hcov⟩
      · exact .inr ⟨_, mem_cons_self, decide_eq_true hdirty⟩
      · exact .inr ⟨rest, mem_cons_of_mem _ hrest, hcov⟩
  | mergeField value =>
    rw [TrackedField.start]
    split
    · split
      · exact h.awaiting fun v hv => .inr hv
      · next vb hvb hmerge =>
        refine h.awaiting fun v hv => .inr ?_
        rcases dirtyIn_of_mergeValues hv with hrequeue | ⟨-, hold⟩
        · obtain ⟨-, hany⟩ := Finset.mem_filter.mp hrequeue
          obtain ⟨vb, hvb, hd⟩ := (Option.any_eq_true _ _).mp hany
          exact (Option.any_eq_true _ _).mpr ⟨vb, hvb, (Bool.and_eq_true_iff.mp hd).1⟩
        · exact hold
    · exact h.awaiting fun v hv => .inr hv

/-- An operation under way other than the one that goes on stays under way. -/
theorem mem_eraseIdx_of_covers {l : List Unfinished} {i : Nat} {rest r : Unfinished} {v : UInt64}
    (hi : l[i]? = some rest) (hrest : rest.covers v = false) (hr : r ∈ l) (hcov : r.covers v = true) :
    r ∈ l.eraseIdx i := by
  obtain ⟨j, hj⟩ := mem_iff_getElem?.mp hr
  refine mem_eraseIdx_iff_getElem?.mpr ⟨j, fun hji => ?_, hj⟩
  rw [hji, hi] at hj
  rw [some.inj hj, hcov] at hrest
  cases hrest

theorem Inv.resume {i : Nat} (h : s.Inv) (hmeets : s.meets (.resume i) = true) (hs : s.resume i = some s') : s'.Inv := by
  obtain ⟨rest, hi, rfl⟩ := map_eq_some_iff.mp hs
  -- what another operation has in hand stays there
  have hkeep : ∀ {v r}, rest.covers v = false → r ∈ s.pending → r.covers v = true →
      ∃ r ∈ s.pending.eraseIdx i, r.covers v = true :=
    fun hrest hr hcov => ⟨_, mem_eraseIdx_of_covers hi hrest hr hcov, hcov⟩
  cases rest with
  | mark values =>
    intro v hv
    by_cases hval : v ∈ values
    · exact .inl (Finset.mem_union_right _ hval)
    · rcases h v hv with hdirty | ⟨r, hr, hcov⟩
      · exact .inl (Finset.mem_union_left _ hdirty)
      · exact .inr (hkeep (decide_eq_false hval) hr hcov)
  | unmark value =>
    intro v hv
    have htracked : (v ≠ value ∧ v ∈ s.dirtyValues) ∨ ∃ r ∈ s.pending, r.covers v = true := by
      by_cases hvalue : v = value
      · rw [meets, hi] at hmeets
        simpa [← hvalue, hv] using hmeets
      · exact (h v hv).imp_left fun hdirty => ⟨hvalue, hdirty⟩
    rcases htracked with hdirty | ⟨r, hr, hcov⟩
    · exact .inl (Finset.mem_erase.mpr hdirty)
    · exact .inr (hkeep rfl hr hcov)
  | merge dirty =>
    intro v hv
    rcases dirtyIn_of_mergeValues hv with hrequeue | ⟨hout, hold⟩
    · refine .inr ⟨.mark (s.field.requeue dirty), ?_, decide_eq_true hrequeue⟩
      show _ ∈ if s.field.requeue dirty = ∅ then _ else _
      rw [if_neg (Finset.ne_empty_of_mem hrequeue)]
      exact mem_cons_self
    · rcases h v hold with hdirty | ⟨r, hr, hcov⟩
      · exact .inl hdirty
      · obtain ⟨r, hr, hcov⟩ := hkeep (decide_eq_false hout) hr hcov
        refine .inr ⟨r, ?_, hcov⟩
        show _ ∈ if s.field.requeue dirty = ∅ then _ else _
        split
        · exact hr
        · exact mem_cons_of_mem _ hr

/-- **In every run whose steps meet the condition, a value with changes is dirty** once no operation is under way. -/
theorem tracked_of_reaches {config : FilterFieldConfig} {evs : List TrackingEvent}
    (h : Reaches (fun s ev s' => TrackedField.next s ev = some s') (fun s ev => s.meets ev = true) (new config) evs s)
    (hidle : s.pending = []) {value : UInt64} (hdirty : dirtyIn s.field.bitmaps value = true) : value ∈ s.dirtyValues := by
  have hinv : s.Inv := by
    refine Reaches.invariant (fun _ s => s.Inv) (fun v hv => ?_) (fun _ s ev s' hs hmeets hstep => ?_) h
    · cases hv
    · cases ev with
      | start call => exact some.inj hstep ▸ hs.start call
      | resume i => exact hs.resume hmeets hstep
  rcases hinv value hdirty with hmem | ⟨rest, hrest, -⟩
  · exact hmem
  · rw [hidle] at hrest
    cases hrest

/-- A second insert finishes between the two sections of `merge_field`, which then unmarks its value. -/
theorem insert_during_mergeField :
    ∃ s, [TrackingEvent.start (.insertBulk 5 [1]), .resume 0, .start (.mergeField 5), .start (.insertBulk 5 [2]), .resume 0,
        .resume 0].foldlM TrackedField.next (new {}) = some s ∧
      s.pending = [] ∧ dirtyIn s.field.bitmaps 5 = true ∧ 5 ∉ s.dirtyValues := by
  decide +kernel

/-- One after the other they leave the value dirty. -/
theorem tracked_of_reaches_after :
    ∃ s, [TrackingEvent.start (.insertBulk 5 [1]), .resume 0, .start (.mergeField 5), .resume 0,
        .start (.insertBulk 5 [2]), .resume 0].foldlM TrackedField.next (new {}) = some s ∧
      dirtyIn s.field.bitmaps 5 = true ∧ 5 ∈ s.dirtyValues := by
  have hrun : Computed TrackedField.next (fun s ev => s.meets ev = true) (new {}) [.start (.insertBulk 5 [1]), .resume 0,
      .start (.mergeField 5), .resume 0, .start (.insertBulk 5 [2]), .resume 0] := .of_along (by decide +kernel)
  obtain ⟨s, hs, hidle, hdirty⟩ := hrun.exists_end (P := fun s => s.pending = [] ∧ dirtyIn s.field.bitmaps 5 = true)
    (by decide +kernel)
  exact ⟨s, (reaches_true_iff.mp (hs.mono fun _ _ _ => trivial)), hdirty, tracked_of_reaches hs hidle hdirty⟩

end TrackedField

end Bitdex
