import Bitdex.Engine.FlushThread
import Bitdex.Engine.Maintenance

/-!
# `Engine.Bypass` — changes that cache maintenance never sees

The regular cycle hands its batch to cache maintenance. `ForcePublish` and the final flush drain the same queue and do
not, loading mode puts maintenance off until the cache is cleared on exit, and the worker merges batches before it
looks.

`Audited` keeps the books: per key, the slots whose result applied ops changed and nothing has re-evaluated since
(`owed`). A debt must be `Covered` by a clear of the cache that is due, by the batch of the cycle under way, or by an
item in the worker's queue; `Meets` is what each step needs for that.
-/

namespace Bitdex

open UnifiedCache FlushThread WriteBatch List Postings Bitmap Finset

section Changes

variable [Host] (ex ex' : QueryExecutor) (key : UnifiedKey) (e : UnifiedEntry)

/-- The result of an entry's clauses; clauses that are refused have none. -/
def resultOf : Bitmap :=
  match ex.resolveFilters e.originalFilterClauses with
  | .ok r => r.1
  | .error _ => ∅

/-- The slots whose part in an entry's result differs on two indexes: they match on one only, or with another sort
value. -/
def changedSlots : Bitmap :=
  (resultOf ex e \ resultOf ex' e) ∪ (resultOf ex' e \ resultOf ex e) ∪
    (resultOf ex' e).filter fun x => ex.sortValue key.sortField x ≠ ex'.sortValue key.sortField x

@[simp] theorem changedSlots_self : changedSlots ex ex key e = ∅ := by
  simp [changedSlots]

end Changes

/-! ## What a batch makes maintenance look at -/

/-- Maintenance of a batch looks at a slot of an entry. -/
def Evaluates (b : WriteBatch) (key : UnifiedKey) (e : UnifiedEntry) (x : UInt32) : Prop :=
  Triggered b key e x ∨ x ∈ b.aliveRemoves

section Evaluates

variable {b : WriteBatch} {key : UnifiedKey} {e e' : UnifiedEntry} {x : UInt32}

theorem filterTriggered_congr (h : e'.originalFilterClauses = e.originalFilterClauses) :
    FilterTriggered b key e' x ↔ FilterTriggered b key e x := by
  unfold FilterTriggered Reached watchedSlots watchedFields
  rw [h]

theorem evaluates_congr (h : e'.originalFilterClauses = e.originalFilterClauses) :
    Evaluates b key e' x ↔ Evaluates b key e x := by
  unfold Evaluates Triggered
  rw [filterTriggered_congr h]

theorem isEmptyWork_of_nil : (groupAndSort []).isEmptyWork = true := by decide

/-- A batch with nothing for the worker makes it look at nothing. -/
theorem not_evaluates_of_isEmptyWork (h : b.isEmptyWork = true) : ¬ Evaluates b key e x := by
  simp only [isEmptyWork, Bool.and_eq_true, decide_eq_true_eq] at h
  obtain ⟨⟨⟨⟨hins, hrem⟩, hsort⟩, -⟩, halive⟩ := h
  rintro ((hx | ⟨⟨g, hg, -⟩, -⟩) | hx)
  · obtain ⟨entry, hentry, -⟩ := mem_ids_iff_entries.mp hx
    rw [hsort] at hentry
    cases hentry
  · have hkeys : groupKeys b.filterInserts b.filterRemoves = [] := by
      simp [groupKeys, AList.keys, hins, hrem, keys]
    rw [hkeys] at hg
    cases hg
  · rw [halive] at hx
    cases hx

/-- No insert of an item meets a remove of another, and no group is empty. -/
structure Uncancelled (items : List WriteBatch) : Prop where
  disjoint : ∀ b ∈ items, ∀ b' ∈ items, ∀ g x, x ∈ b.filterInserts.ids g → x ∉ b'.filterRemoves.ids g
  inserts : ∀ b ∈ items, ∀ g ∈ b.filterInserts.keys, ∃ x, x ∈ b.filterInserts.ids g
  removes : ∀ b ∈ items, ∀ g ∈ b.filterRemoves.keys, ∃ x, x ∈ b.filterRemoves.ids g

variable {items : List WriteBatch} {g : FilterGroupKey}

theorem mem_coalesced_inserts (h : Uncancelled items) (hb : b ∈ items)
    (hx : x ∈ b.filterInserts.ids g) : x ∈ (coalesceWorkItems items).filterInserts.ids g := by
  refine mem_ids_cancel.mpr ⟨mem_ids_gather.mpr ⟨b, hb, hx⟩, fun hrem => ?_⟩
  obtain ⟨b', hb', hx'⟩ := mem_ids_gather.mp hrem
  exact h.disjoint b hb b' hb' g x hx hx'

theorem mem_coalesced_removes (h : Uncancelled items) (hb : b ∈ items)
    (hx : x ∈ b.filterRemoves.ids g) : x ∈ (coalesceWorkItems items).filterRemoves.ids g := by
  refine mem_ids_cancel.mpr ⟨mem_ids_gather.mpr ⟨b, hb, hx⟩, fun hins => ?_⟩
  obtain ⟨b', hb', hx'⟩ := mem_ids_gather.mp hins
  exact h.disjoint b' hb' b hb g x hx' hx

theorem groupKeys_coalesced (h : Uncancelled items) (hb : b ∈ items)
    (hg : g ∈ groupKeys b.filterInserts b.filterRemoves) : g ∈ groupKeys (coalesceWorkItems items).filterInserts
      (coalesceWorkItems items).filterRemoves := by
  rcases mem_append.mp hg with hg | hg
  · obtain ⟨y, hy⟩ := h.inserts b hb g hg
    exact mem_append_left _
      (AList.mem_keys.mp (mem_of_mem_ids (mem_coalesced_inserts h hb hy)))
  · obtain ⟨y, hy⟩ := h.removes b hb g hg
    exact mem_append_right _
      (AList.mem_keys.mp (mem_of_mem_ids (mem_coalesced_removes h hb hy)))

theorem sortTriggered_coalesced (hb : b ∈ items) (hx : SortTriggered b key x) :
    SortTriggered (coalesceWorkItems items) key x := by
  obtain ⟨layer, hlayer⟩ := mem_mutatedSortSlots.mp hx
  refine mem_mutatedSortSlots.mpr ⟨layer, hlayer.imp ?_ ?_⟩
  · exact fun h => mem_ids_gather.mpr ⟨b, hb, h⟩
  · exact fun h => mem_ids_gather.mpr ⟨b, hb, h⟩

/-- **Merged items.** Without cancellation the merged batch looks at everything its items look at. -/
theorem evaluates_coalesced (h : Uncancelled items) (hb : b ∈ items) (hx : Evaluates b key e x) :
    Evaluates (coalesceWorkItems items) key e x := by
  rcases hx with (hx | ⟨⟨g, hg, hreach⟩, hwatched⟩) | hx
  · exact .inl (.inl (sortTriggered_coalesced hb hx))
  · refine .inl (.inr ⟨⟨g, groupKeys_coalesced h hb hg, hreach⟩, ?_⟩)
    obtain ⟨f, hf, hchanged⟩ := mem_watchedSlots.mp hwatched
    obtain ⟨k, hk⟩ := mem_changedSlots.mp hchanged
    refine mem_watchedSlots.mpr ⟨f, hf, mem_changedSlots.mpr ⟨k, hk.imp ?_ ?_⟩⟩
    · exact mem_coalesced_inserts h hb
    · exact mem_coalesced_removes h hb
  · exact .inr (mem_foldl_union.mpr (.inr ⟨b, hb, hx⟩))

end Evaluates

/-! ## What maintenance has looked at -/

/-- The slots of the items of a key. -/
def slotsOf (work : List CacheMaintenanceItem) (key : UnifiedKey) : Bitmap :=
  ((work.filter fun item => decide (item.key = key)).flatMap (·.slots)).toFinset

/-- The sort field of a key is there with all its layers; otherwise sort work removes nothing. -/
def sortLoaded (ex : QueryExecutor) (key : UnifiedKey) : Bool :=
  (ex.sorts.getField key.sortField).elim false (·.isFullyLoaded)

/-- The slots of an entry that one round of maintenance re-evaluates: the deleted ones, its filter work, and its sort
work if the sort values can be read. -/
def UnifiedCache.reevaluated (c : UnifiedCache) (b : WriteBatch) (ex : QueryExecutor) (key : UnifiedKey) :
    Bitmap :=
  let c₁ := c.removeSlotsFromAll (iter b.aliveRemoves)
  b.aliveRemoves ∪ slotsOf (c₁.collectFilterWork b.filterInserts b.filterRemoves).1 key ∪
    if sortLoaded ex key then slotsOf (c₁.collectSortWork b.mutatedSortSlots).1 key else ∅

section Reevaluated

variable {c : UnifiedCache} {b : WriteBatch} {key : UnifiedKey} {e e' : UnifiedEntry} {x : UInt32}

theorem mem_slotsOf {work : List CacheMaintenanceItem} {item : CacheMaintenanceItem} (hitem : item ∈ work)
    (hkey : item.key = key) (hx : x ∈ item.slots) : x ∈ slotsOf work key := by
  refine mem_toFinset.mpr (mem_flatMap.mpr ⟨item, mem_filter.mpr ⟨hitem, ?_⟩, hx⟩)
  exact decide_eq_true hkey

/-- An entry that is left after maintenance was not dropped for its budget. -/
theorem not_overBudget_of_lookup_maintain [Host] {ex : QueryExecutor} {legacy : UInt32 → CanonicalClause → Bool}
    (h' : (c.maintain legacy b ex).entries.lookup key = some e') :
    key ∉ ((c.removeSlotsFromAll (iter b.aliveRemoves)).collectFilterWork b.filterInserts b.filterRemoves).2 ∧
      key ∉ ((c.removeSlotsFromAll (iter b.aliveRemoves)).collectSortWork b.mutatedSortSlots).2 := by
  unfold maintain at h'
  rw [lookup_removeAll] at h'
  split at h'
  · cases h'
  · next hkept =>
    simp only [mem_append, not_or] at hkept
    exact ⟨hkept.1.1.1, hkept.1.1.2⟩

/-- **One round.** What a batch makes maintenance look at is re-evaluated in every entry that is left. -/
theorem mem_reevaluated [Host] {ex : QueryExecutor} {legacy : UInt32 → CanonicalClause → Bool}
    (h : c.entries.lookup key = some e) (hflag : e.needsRebuild = false)
    (hsort : SortTriggered b key x → sortLoaded ex key = true)
    (h' : (c.maintain legacy b ex).entries.lookup key = some e') (hx : Evaluates b key e x) :
    x ∈ c.reevaluated b ex key := by
  obtain ⟨hfilterBudget, hsortBudget⟩ := not_overBudget_of_lookup_maintain h'
  obtain ⟨e₁, he₁, hsame, hflag₁, -⟩ := lookup_removeSlotsFromAll h (iter b.aliveRemoves)
  rw [hflag] at hflag₁
  rw [reevaluated, mem_union, mem_union]
  rcases hx with (hx | hx) | hx
  · -- the slot is one of the entry's sort item
    have hslots : b.mutatedSortSlots.ids key.sortField ≠ ∅ := ne_empty_of_mem hx
    have hitem := (returned_of_sort_mutated he₁ hflag₁ hslots).resolve_left hsortBudget
    have hmem : x ∈ (workItem key e₁ (b.mutatedSortSlots.ids key.sortField)).slots := mem_iter.mpr hx
    rw [if_pos (hsort hx)]
    exact .inr (mem_slotsOf hitem rfl hmem)
  · -- the entry is affected, so it has a filter item with the slot
    obtain ⟨hreach, hwatched⟩ := (filterTriggered_congr hsame.clauses).mpr hx
    have hitem := (collects_filterWork.complete key e₁ he₁ hflag₁ (ne_empty_of_mem hwatched)
      ((mem_affectedIds_iff_reached he₁).mpr hreach)).resolve_left hfilterBudget
    exact .inl (.inr (mem_slotsOf hitem rfl (mem_iter.mpr hwatched)))
  · exact .inl (.inl hx)

end Reevaluated

/-! ## Coarse invalidation -/

section Drop

variable {c : UnifiedCache} {key : UnifiedKey} {e' : UnifiedEntry}

/-- The entries that are not flagged are those from before whose keys fail the test. -/
theorem unflagged_markForRebuild {p : UnifiedKey → Bool} :
    ((c.markForRebuild p).entries.lookup key = some e' ∧ e'.needsRebuild = false) ↔
      (c.entries.lookup key = some e' ∧ e'.needsRebuild = false) ∧ p key = false := by
  rw [lookup_markForRebuild]
  cases p key with
  | false => simp
  | true =>
    simp only [Bool.or_true, Option.map_eq_some_iff, Bool.true_eq_false, and_false, iff_false, not_and]
    rintro ⟨e, -, rfl⟩
    simp

theorem not_lookup_maintainAliveChanges (h : c.maintainAliveChanges.entries.lookup key = some e') :
    e'.needsRebuild = true := by
  by_contra hflag
  cases (unflagged_markForRebuild.mp ⟨h, by simpa using hflag⟩).2

/-- Invalidated fields flag the entries whose keys name one of them. -/
theorem unflagged_invalidateFields {fields : List String} :
    ((fields.foldl invalidateFilterField c).entries.lookup key = some e' ∧ e'.needsRebuild = false) ↔
      (c.entries.lookup key = some e' ∧ e'.needsRebuild = false) ∧
        ∀ f ∈ fields, ∀ k ∈ key.filterClauses, k.field ≠ f := by
  refine foldl_and_iff (fun c : UnifiedCache => c.entries.lookup key = some e' ∧ e'.needsRebuild = false)
    fun c f => ?_
  rw [invalidateFilterField, unflagged_markForRebuild, any_eq_false]
  simp [decide_eq_true_eq, ne_eq]

end Drop

/-! ## The audited thread -/

namespace FlushThread

variable (t : FlushThread)

/-- An entry that queries are served from. -/
def Resident (key : UnifiedKey) (e : UnifiedEntry) : Prop :=
  t.cache.entries.lookup key = some e ∧ e.needsRebuild = false

/-- The thread is on its way to clear the cache: something was applied in loading mode and not published since, and no
cycle outside loading mode publishes first. -/
def ClearDue : Prop :=
  t.stagingDirty = true ∧
    match t.phase with
    | .applied c => c.isLoading = true ∨ (c.ops = [] ∧ t.wasLoading = true)
    | _ => t.wasLoading = true

/-- A slot of an entry is still going to be looked at. -/
def Covered (key : UnifiedKey) (e : UnifiedEntry) (x : UInt32) : Prop :=
  t.ClearDue ∨
    (∃ c, t.phase = .applied c ∧ c.isLoading = false ∧ Evaluates (.groupAndSort c.ops) key e x) ∨
    ∃ b ∈ t.work, Evaluates b key e x

/-- No cycle is under way, the worker's queue is empty, and nothing applied in loading mode waits. -/
def AtRest : Prop :=
  (t.phase = .idle ∨ t.phase = .stopped) ∧ t.work = [] ∧ ¬ (t.stagingDirty = true ∧ t.wasLoading = true)

/-- The sort values of the entries that a batch re-sorts can be read from an index. -/
def SortsLoaded (b : WriteBatch) (ex : QueryExecutor) : Prop :=
  ∀ key e, t.Resident key e → ∀ x, SortTriggered b key x → sortLoaded ex key = true

/-- Dropping items flags the entry under a key: an alive bit or sort value changed, or the key names a changed field.
-/
def Invalidates (items : List WriteBatch) (key : UnifiedKey) : Prop :=
  (∃ b ∈ items, b.aliveInserts ≠ ∅ ∨ b.aliveRemoves ≠ ∅ ∨ b.mutatedSortSlots.entries ≠ []) ∨
    ∃ b ∈ items, ∃ g ∈ groupKeys b.filterInserts b.filterRemoves, ∃ k ∈ key.filterClauses, k.field = g.field

variable {t} {key : UnifiedKey} {e e' : UnifiedEntry} {x : UInt32}

/-- **A dropped backlog** leaves the entries unflagged that it had no reason to flag, and only them. -/
theorem lookup_invalidateAndDrop {items : List WriteBatch} :
    ((t.invalidateAndDrop items).entries.lookup key = some e ∧ e.needsRebuild = false) ↔
      t.Resident key e ∧ ¬ Invalidates items key := by
  have hcoarse : (items.any (fun b => !decide (b.aliveInserts = ∅) || !decide (b.aliveRemoves = ∅)) ||
      items.any fun b => !decide (b.mutatedSortSlots.entries = [])) = true ↔
        ∃ b ∈ items, b.aliveInserts ≠ ∅ ∨ b.aliveRemoves ≠ ∅ ∨ b.mutatedSortSlots.entries ≠ [] := by
    simp [← or_assoc, and_or_left, exists_or]
  rw [invalidateAndDrop]
  split
  · next hall =>
    refine ⟨fun h => ?_, fun h => absurd (.inl (hcoarse.mp hall)) h.2⟩
    exact absurd (unflagged_markForRebuild.mp h).2 Bool.noConfusion
  · next hnone =>
    rw [unflagged_invalidateFields, Invalidates, or_iff_right (mt hcoarse.mpr hnone)]
    refine and_congr_right fun _ => ⟨?_, fun h f hf k hk hkf => ?_⟩
    · rintro h ⟨b, hb, g, hg, k, hk, hkf⟩
      exact h g.field (mem_flatMap.mpr ⟨b, hb, mem_map.mpr ⟨g, hg, rfl⟩⟩) k hk hkf
    · obtain ⟨b, hb, hmem⟩ := mem_flatMap.mp hf
      obtain ⟨g, hg, rfl⟩ := mem_map.mp hmem
      exact h ⟨b, hb, g, hg, k, hk, hkf⟩

theorem covered_congr {t' : FlushThread} (hdirty : t'.stagingDirty = t.stagingDirty)
    (hwas : t'.wasLoading = t.wasLoading) (hphase : t'.phase = t.phase) (hwork : t'.work = t.work)
    (hclauses : e'.originalFilterClauses = e.originalFilterClauses) (h : t.Covered key e x) :
    t'.Covered key e' x := by
  unfold Covered ClearDue at h ⊢
  rw [hdirty, hwas, hphase, hwork]
  simpa only [evaluates_congr hclauses] using h

/-- At rest nothing is on its way. -/
theorem not_covered_of_atRest (h : t.AtRest) : ¬ t.Covered key e x := by
  obtain ⟨hphase, hwork, hclear⟩ := h
  rintro (⟨hdirty, hdue⟩ | ⟨c, hc, -⟩ | ⟨b, hb, -⟩)
  · refine hclear ⟨hdirty, ?_⟩
    rcases hphase with hp | hp
    · rw [hp] at hdue
      exact hdue
    · rw [hp] at hdue
      exact hdue
  · rcases hphase with hp | hp
    · rw [hp] at hc
      cases hc
    · rw [hp] at hc
      cases hc
  · rw [hwork] at hb
    cases hb

end FlushThread

/-- The flush thread with its books: per key, the slots whose result applied ops changed and nothing re-evaluated
since. -/
structure Audited where
  thread : FlushThread
  owed : UnifiedKey → Bitmap

namespace Audited

variable [Host] (cfg : FlushConfig) (s : Audited)

/-- What a change of the index owes the entry under a key. -/
def charge (before after : IndexState) (key : UnifiedKey) : Bitmap :=
  match s.thread.cache.entries.lookup key with
  | some e => changedSlots (s.thread.executor cfg before) (s.thread.executor cfg after) key e
  | none => ∅

/-- The books after a step to `t`. Drained ops are charged with what they changed; maintenance pays for what it
re-evaluates; a new entry is behind by what changed since its snapshot. Loads and promoted layers are in both indexes
compared. -/
def owedAfter (ev : ThreadEvent) (t : FlushThread) (key : UnifiedKey) : Bitmap :=
  match ev with
  | .begin _ _ promote =>
    s.owed key ∪ s.charge cfg (s.thread.prepareStaging promote s.thread.staging) t.staging key
  | .settle _ _ _ _ =>
    match s.thread.phase with
    | .applied c =>
      if s.thread.flushes c && !cfg.asyncMaintenance then
        s.owed key \ s.thread.cache.reevaluated (.groupAndSort c.ops)
          (s.thread.executor cfg s.thread.staging) key
      else s.owed key
    | _ => s.owed key
  | .command .forcePublish =>
    s.owed key ∪ s.charge cfg (s.thread.staging.applyLoads s.thread.loads) t.staging key
  | .shutdown => s.owed key ∪ s.charge cfg s.thread.staging t.staging key
  | .worker n =>
    if dropsBacklog cfg n then s.owed key
    else
      s.owed key \ s.thread.cache.reevaluated (.coalesceWorkItems (s.thread.work.take n))
        (s.thread.executor cfg s.thread.published) key
  | .store basis key' sortedSlots hasMore totalMatched filters valueFn _ =>
    if key = key' then
      changedSlots (s.thread.executor cfg basis) (s.thread.executor cfg s.thread.staging) key
        (s.thread.cache.formEntry key' sortedSlots hasMore totalMatched filters valueFn)
    else s.owed key
  | _ => s.owed key

/-- One step and its bookkeeping. -/
def next (ev : ThreadEvent) : Option Audited := (s.thread.next cfg ev).map fun t => ⟨t, s.owedAfter cfg ev t⟩

/-- **The condition.** What a step needs so that no debt is left uncovered. -/
def Meets : ThreadEvent → Prop
  | .begin now docs promote =>
    -- outside loading mode the batch looks at every slot it changes, and is not drained by the cycle
    -- that has to clear the cache
    s.thread.loading = false →
      (s.thread.cycleOps cfg now docs ≠ [] → ¬ s.thread.ClearDue) ∧
      ∀ key e, s.thread.Resident key e →
        ∀ x ∈ s.charge cfg (s.thread.prepareStaging promote s.thread.staging)
          (s.thread.beginCycle cfg now docs promote).staging key,
          Evaluates (.groupAndSort (s.thread.cycleOps cfg now docs)) key e x
  | .settle _ idleTick _ lazyValueFields =>
    ∀ c, s.thread.phase = .applied c →
      (c.ops ≠ [] → s.thread.loading = c.isLoading) ∧
      (s.thread.ClearDue → s.thread.compactsIdle c idleTick lazyValueFields = false) ∧
      s.thread.SortsLoaded (.groupAndSort c.ops) (s.thread.executor cfg s.thread.staging)
  | .command .forcePublish =>
    -- nothing waits for a clear, and what the drained ops change is looked at by a queued item
    ¬ s.thread.ClearDue ∧
    ∀ key e, s.thread.Resident key e →
      ∀ x ∈ s.charge cfg (s.thread.staging.applyLoads s.thread.loads) s.thread.forcePublish.staging key,
        ∃ b ∈ s.thread.work, Evaluates b key e x
  | .shutdown =>
    ∀ key e, s.thread.Resident key e →
      ∀ x ∈ s.charge cfg s.thread.staging s.thread.shutdownFlush.staging key,
        ∃ b ∈ s.thread.work, Evaluates b key e x
  | .worker n =>
    if dropsBacklog cfg n then
      -- keys name the changed leaf fields of their entries
      ∀ key e, s.thread.Resident key e → ∀ b ∈ s.thread.work.take n,
        ∀ g ∈ groupKeys b.filterInserts b.filterRemoves,
          g.field ∈ leafFieldsOfEach e.originalFilterClauses → ∃ k ∈ key.filterClauses, k.field = g.field
    else
      Uncancelled (s.thread.work.take n) ∧
      s.thread.SortsLoaded (.coalesceWorkItems (s.thread.work.take n))
        (s.thread.executor cfg s.thread.published)
  | .store basis key sortedSlots hasMore totalMatched filters valueFn _ =>
    let e := s.thread.cache.formEntry key sortedSlots hasMore totalMatched filters valueFn
    ∀ x ∈ changedSlots (s.thread.executor cfg basis) (s.thread.executor cfg s.thread.staging) key e,
      s.thread.Covered key e x
  | _ => True

/-- **The invariant.** -/
structure Inv : Prop where
  settled : ∀ c, s.thread.phase = .settled c → s.thread.wasLoading = c.isLoading
  covered : ∀ key e, s.thread.Resident key e → ∀ x ∈ s.owed key, s.thread.Covered key e x

variable {cfg s} {s' : Audited} {key : UnifiedKey} {e e' : UnifiedEntry} {x : UInt32}

theorem charge_of_resident {before after : IndexState} (h : s.thread.Resident key e) : s.charge cfg before after key =
      changedSlots (s.thread.executor cfg before) (s.thread.executor cfg after) key e := by
  rw [charge, h.1]

/-! ### The steps of other threads -/

omit [Host] in
/-- A step that leaves the books, the cache, the worker's queue and the thread's own flags alone. -/
theorem Inv.of_same {t : FlushThread} (h : s.Inv) (hcache : t.cache = s.thread.cache)
    (hdirty : t.stagingDirty = s.thread.stagingDirty) (hwas : t.wasLoading = s.thread.wasLoading)
    (hphase : t.phase = s.thread.phase) (hwork : t.work = s.thread.work) : Inv ⟨t, s.owed⟩ := by
  refine ⟨fun c hc => ?_, fun key e hres x hx => ?_⟩
  · rw [hwas]
    exact h.settled c (hphase.symm.trans hc)
  · refine covered_congr hdirty hwas hphase hwork rfl (h.covered key e ?_ x hx)
    rw [Resident, ← hcache]
    exact hres

theorem Inv.store (h : s.Inv) {basis : IndexState} {key₀ : UnifiedKey} {sortedSlots : List UInt32}
    {hasMore : Bool} {totalMatched : Nat} {filters : List FilterClause} {valueFn : UInt32 → Nat}
    {evicted : List UnifiedKey}
    (hmeets : s.Meets cfg (.store basis key₀ sortedSlots hasMore totalMatched filters valueFn evicted))
    (hs : s.next cfg (.store basis key₀ sortedSlots hasMore totalMatched filters valueFn evicted) =
      some s') : s'.Inv := by
  obtain rfl := Option.some.inj hs
  refine ⟨h.settled, fun key e hres x hx => ?_⟩
  obtain ⟨hlookup, hflag⟩ := hres
  simp only [owedAfter] at hx
  rcases lookup_formAndStore_some hlookup with ⟨rfl, rfl⟩ | ⟨hk, hold⟩
  · rw [if_pos rfl] at hx
    exact covered_congr rfl rfl rfl rfl rfl (hmeets x hx)
  · rw [if_neg hk] at hx
    exact covered_congr rfl rfl rfl rfl rfl (h.covered key e ⟨hold, hflag⟩ x hx)

/-- A debt that the worker has just handled: it is paid, or its entry is flagged. -/
theorem worker_clears {n : Nat} (hmeets : s.Meets cfg (.worker n))
    (hlookup : s.thread.cache.entries.lookup key = some e) (hflag : e.needsRebuild = false)
    (hlookup' : (s.thread.runWorker cfg n).cache.entries.lookup key = some e')
    (hflag' : e'.needsRebuild = false) {b : WriteBatch} (hb : b ∈ s.thread.work.take n) (hx : Evaluates b key e x) :
    dropsBacklog cfg n = false ∧ x ∈ s.thread.cache.reevaluated (.coalesceWorkItems (s.thread.work.take n))
        (s.thread.executor cfg s.thread.published) key := by
  simp only [Meets] at hmeets
  simp only [runWorker] at hlookup'
  cases hdrop : dropsBacklog cfg n with
  | false =>
    simp only [hdrop, Bool.false_eq_true, if_false] at hmeets hlookup'
    obtain ⟨huncancelled, hloaded⟩ := hmeets
    exact ⟨rfl, mem_reevaluated hlookup hflag (hloaded key e ⟨hlookup, hflag⟩ x) hlookup'
      (evaluates_coalesced huncancelled hb hx)⟩
  | true =>
    simp only [hdrop, if_true] at hmeets hlookup'
    refine absurd ?_ (lookup_invalidateAndDrop.mp ⟨hlookup', hflag'⟩).2
    rcases hx with (hx | ⟨⟨g, hg, hreach⟩, -⟩) | hx
    · obtain ⟨entry, hentry, -⟩ := mem_ids_iff_entries.mp hx
      exact .inl ⟨b, hb, .inr (.inr (ne_nil_of_mem hentry))⟩
    · refine .inr ⟨b, hb, g, hg, ?_⟩
      rcases hreach with hk | ⟨k, hk, hkf, -⟩ | ⟨hleaf, -⟩
      · exact ⟨_, hk, rfl⟩
      · exact ⟨k, hk, hkf⟩
      · exact hmeets key e ⟨hlookup, hflag⟩ b hb g hg hleaf
    · exact .inl ⟨b, hb, .inr (.inl (ne_empty_of_mem hx))⟩

/-- The entries after a worker step were there before, with their clauses, and no flag was lifted. -/
theorem lookup_runWorker {n : Nat}
    (h : (s.thread.runWorker cfg n).cache.entries.lookup key = some e') (hflag : e'.needsRebuild = false) :
    ∃ e, s.thread.Resident key e ∧ e'.originalFilterClauses = e.originalFilterClauses := by
  simp only [runWorker] at h
  split at h
  · exact ⟨e', (lookup_invalidateAndDrop.mp ⟨h, hflag⟩).1, rfl⟩
  · obtain ⟨e, he, hsame, hold⟩ := lookup_maintain_some h
    exact ⟨e, ⟨he, hold hflag⟩, hsame.clauses⟩

theorem Inv.worker (h : s.Inv) {n : Nat} (hmeets : s.Meets cfg (.worker n))
    (hs : s.next cfg (.worker n) = some s') : s'.Inv := by
  obtain ⟨t, ht, rfl⟩ := Option.map_eq_some_iff.mp hs
  obtain ⟨-, rfl⟩ := next_worker ht
  refine ⟨h.settled, fun key e' hres x hx => ?_⟩
  obtain ⟨e, hold, hclauses⟩ := lookup_runWorker hres.1 hres.2
  have howed : x ∈ s.owed key := by
    simp only [owedAfter] at hx
    split at hx
    · exact hx
    · exact (mem_sdiff.mp hx).1
  rcases h.covered key e hold x howed with hclear | hbatch | ⟨b, hb, hev⟩
  · exact .inl hclear
  · obtain ⟨c, hc, hl, hev⟩ := hbatch
    exact .inr (.inl ⟨c, hc, hl, (evaluates_congr hclauses).mpr hev⟩)
  · -- the item is among those just handled, or still in the queue
    rw [← take_append_drop n s.thread.work] at hb
    rcases mem_append.mp hb with hb | hb
    · exfalso
      obtain ⟨hdrop, hpaid⟩ := worker_clears hmeets hold.1 hold.2 hres.1 hres.2 hb hev
      simp only [owedAfter, hdrop, Bool.false_eq_true, if_false] at hx
      exact (mem_sdiff.mp hx).2 hpaid
    · exact .inr (.inr ⟨b, hb, (evaluates_congr hclauses).mpr hev⟩)

/-! ### The steps of the flush thread -/

section Begin

variable {now : UInt64} {docs : UInt32 → Option Document} {promote : Bool} {t : FlushThread}

omit [Host] in
theorem stagingDirty_beginCycle (h : t.stagingDirty = true ∨ t.cycleOps cfg now docs ≠ []) :
    (t.beginCycle cfg now docs promote).stagingDirty = true := by
  show (t.stagingDirty || (promote && t.staging.hasDirtySorts) ||
    !(t.cycleOps cfg now docs).isEmpty) = true
  rcases h with h | h
  · simp [h]
  · simp [h]

omit [Host] in
/-- In loading mode nothing is activated, so a cycle without ops applies none. -/
theorem staging_beginCycle_of_loading (hloading : t.loading = true) (hops : t.cycleOps cfg now docs = []) :
    (t.beginCycle cfg now docs promote).staging = t.prepareStaging promote t.staging := by
  have hactivate : t.activate cfg now docs = (t.staging.slots, []) := by
    rw [activate, if_neg]
    simp [hloading]
  simp only [beginCycle, if_pos hops, hactivate]

/-- What the drained ops change is covered: by a clear in loading mode, otherwise by their own batch. -/
theorem covered_begin_charge (hmeets : s.Meets cfg (.begin now docs promote)) (hres : s.thread.Resident key e)
    (hx : x ∈ s.charge cfg (s.thread.prepareStaging promote s.thread.staging)
      (s.thread.beginCycle cfg now docs promote).staging key) :
    (s.thread.beginCycle cfg now docs promote).Covered key e x := by
  cases hloading : s.thread.loading with
  | true =>
    by_cases hops : s.thread.cycleOps cfg now docs = []
    · rw [staging_beginCycle_of_loading hloading hops, charge_of_resident hres, changedSlots_self] at hx
      cases hx
    · exact .inl ⟨stagingDirty_beginCycle (.inr hops), .inl hloading⟩
  | false => exact .inr (.inl ⟨_, rfl, hloading, (hmeets hloading).2 key e hres x hx⟩)

/-- A clear that was due is still due, since a cycle that drains ops outside loading mode finds none. -/
theorem clearDue_begin (hidle : s.thread.phase = .idle) (hmeets : s.Meets cfg (.begin now docs promote))
    (hdue : s.thread.ClearDue) : (s.thread.beginCycle cfg now docs promote).ClearDue := by
  have hwas : s.thread.wasLoading = true := by
    have hdue := hdue.2
    rw [hidle] at hdue
    exact hdue
  refine ⟨stagingDirty_beginCycle (.inl hdue.1), ?_⟩
  cases hloading : s.thread.loading with
  | true => exact .inl hloading
  | false =>
    refine .inr ⟨?_, hwas⟩
    by_contra hops
    exact (hmeets hloading).1 hops hdue

theorem Inv.begin (h : s.Inv) (hmeets : s.Meets cfg (.begin now docs promote))
    (hs : s.next cfg (.begin now docs promote) = some s') : s'.Inv := by
  obtain ⟨t, ht, rfl⟩ := Option.map_eq_some_iff.mp hs
  obtain ⟨hidle, rfl⟩ := next_begin ht
  refine ⟨fun c hc => ?_, fun key e hres x hx => ?_⟩
  · cases hc
  · rcases mem_union.mp hx with hx | hx
    · rcases h.covered key e hres x hx with hdue | ⟨c, hc, -⟩ | hwork
      · exact .inl (clearDue_begin hidle hmeets hdue)
      · rw [hidle] at hc
        cases hc
      · exact .inr (.inr hwork)
    · exact covered_begin_charge hmeets hres hx

end Begin

section Settle

variable {compact idleTick workerFull : Bool} {lazyValueFields : List String} {c : Cycle}

/-- The entries after a flush were there before, with their clauses, and no flag was lifted. -/
theorem lookup_flushBatch {b : WriteBatch}
    (h : (s.thread.flushBatch cfg b compact workerFull).cache.entries.lookup key = some e')
    (hflag : e'.needsRebuild = false) :
    ∃ e, s.thread.Resident key e ∧ e'.originalFilterClauses = e.originalFilterClauses := by
  simp only [flushBatch, maintainCache] at h
  split at h
  · split at h
    · exact ⟨e', ⟨h, hflag⟩, rfl⟩
    · split at h
      · rw [not_lookup_maintainAliveChanges h] at hflag
        cases hflag
      · exact ⟨e', ⟨h, hflag⟩, rfl⟩
  · obtain ⟨e, he, hsame, hold⟩ := lookup_maintain_some h
    exact ⟨e, ⟨he, hold hflag⟩, hsame.clauses⟩

theorem mem_work_flushBatch {b b' : WriteBatch} (h : b' ∈ s.thread.work) :
    b' ∈ (s.thread.flushBatch cfg b compact workerFull).work := by
  simp only [flushBatch, maintainCache]
  split
  · split
    · exact h
    · split
      · exact h
      · exact mem_append_left _ h
  · exact h

omit [Host] in
/-- A cycle that does not flush its batch covers nothing: the batch is empty or was drained in loading mode. -/
theorem not_evaluates_of_not_flushes (hmode : c.ops ≠ [] → s.thread.loading = c.isLoading)
    (hflushes : s.thread.flushes c = false) (hloading : c.isLoading = false) :
    ¬ Evaluates (.groupAndSort c.ops) key e x := by
  by_cases hops : c.ops = []
  · rw [hops]
    exact not_evaluates_of_isEmptyWork isEmptyWork_of_nil
  · have hflag := hmode hops
    rw [hloading] at hflag
    simp [flushes, hflag, hops] at hflushes

variable (hphase : s.thread.phase = .applied c)

omit [Host] in
include hphase in
/-- A cycle that flushes drained ops outside loading mode. -/
theorem not_clearDue_of_flushes (hmode : c.ops ≠ [] → s.thread.loading = c.isLoading)
    (hflushes : s.thread.flushes c = true) : ¬ s.thread.ClearDue := by
  rw [flushes, Bool.and_eq_true, Bool.not_eq_true', Bool.not_eq_true'] at hflushes
  have hops : c.ops ≠ [] := by
    intro hnil
    rw [hnil] at hflushes
    cases hflushes.1
  rintro ⟨-, hdue⟩
  rw [hphase] at hdue
  rcases hdue with hloading | ⟨hnil, -⟩
  · rw [← hmode hops, hflushes.2] at hloading
    cases hloading
  · exact hops hnil

omit [Host] in
include hphase in
/-- A clear that is due and not made by this cycle is due after it, since the cycle was in loading mode. -/
theorem isLoading_of_clearDue (hleaves : s.thread.leavesLoading c = false) (hdue : s.thread.ClearDue) :
    c.isLoading = true := by
  obtain ⟨hdirty, hdue⟩ := hdue
  rw [hphase] at hdue
  rcases hdue with hloading | ⟨-, hwas⟩
  · exact hloading
  · simpa [leavesLoading, hwas, hdirty] using hleaves

omit [Host] in
include hphase in
/-- Without a flush a debt is covered by a clear that is due or by a queued item. -/
theorem covered_of_not_flushes (hmode : c.ops ≠ [] → s.thread.loading = c.isLoading) (h : s.Inv)
    (hflushes : s.thread.flushes c = false) (hres : s.thread.Resident key e') (hx : x ∈ s.owed key) :
    s.thread.ClearDue ∨ ∃ b ∈ s.thread.work, Evaluates b key e' x := by
  rcases h.covered key e' hres x hx with hdue | ⟨c', hc', hloading, hev⟩ | hwork
  · exact .inl hdue
  · obtain rfl : c = c' := by
      rw [hphase] at hc'
      cases hc'
      rfl
    exact absurd hev (not_evaluates_of_not_flushes hmode hflushes hloading)
  · exact .inr hwork

variable (hmeets : s.Meets cfg (.settle compact idleTick workerFull lazyValueFields))

include hphase hmeets

/-- A flush of a batch, inside the second part: a debt that the batch covers is paid, queued or flagged. -/
theorem covered_flushBatch (hold : s.thread.Resident key e)
    (hlookup : (s.thread.flushBatch cfg (.groupAndSort c.ops) compact workerFull).cache.entries.lookup key =
      some e') (hflag : e'.needsRebuild = false) (hx : Evaluates (.groupAndSort c.ops) key e x) :
    (cfg.asyncMaintenance = false ∧ x ∈ s.thread.cache.reevaluated (.groupAndSort c.ops)
        (s.thread.executor cfg s.thread.staging) key) ∨ groupAndSort c.ops ∈
        (s.thread.flushBatch cfg (.groupAndSort c.ops) compact workerFull).work := by
  simp only [flushBatch, maintainCache] at hlookup ⊢
  cases hasync : cfg.asyncMaintenance with
  | false =>
    rw [hasync] at hlookup
    have hloaded := (hmeets c hphase).2.2 key e hold x
    exact .inl ⟨rfl, mem_reevaluated hold.1 hold.2 hloaded hlookup hx⟩
  | true =>
    rw [hasync] at hlookup
    refine .inr ?_
    cases hempty : (groupAndSort c.ops).isEmptyWork with
    | true => exact absurd hx (not_evaluates_of_isEmptyWork hempty)
    | false =>
      cases hfull : workerFull with
      | false => simp
      | true =>
        rw [hempty, hfull] at hlookup
        rw [not_lookup_maintainAliveChanges hlookup] at hflag
        cases hflag

/-- After a flush every debt that is left has its item in the worker's queue. -/
theorem queued_of_flushes (h : s.Inv) (hflushes : s.thread.flushes c = true)
    (hlookup : (s.thread.flushBatch cfg (.groupAndSort c.ops) compact workerFull).cache.entries.lookup key =
      some e') (hflag : e'.needsRebuild = false)
    (hx : x ∈ if s.thread.flushes c && !cfg.asyncMaintenance then
        s.owed key \ s.thread.cache.reevaluated (.groupAndSort c.ops)
          (s.thread.executor cfg s.thread.staging) key
      else s.owed key) :
    ∃ b ∈ (s.thread.flushBatch cfg (.groupAndSort c.ops) compact workerFull).work, Evaluates b key e' x := by
  obtain ⟨e, hold, hclauses⟩ := lookup_flushBatch hlookup hflag
  have howed : x ∈ s.owed key := by
    split at hx
    · exact (mem_sdiff.mp hx).1
    · exact hx
  rcases h.covered key e hold x howed with hdue | ⟨c', hc', -, hev⟩ | ⟨b, hb, hev⟩
  · exact absurd hdue (not_clearDue_of_flushes hphase (hmeets c hphase).1 hflushes)
  · obtain rfl : c = c' := by
      rw [hphase] at hc'
      cases hc'
      rfl
    rcases covered_flushBatch hphase hmeets hold hlookup hflag hev with ⟨hasync, hpaid⟩ | hqueued
    · rw [hflushes, hasync] at hx
      exact absurd hpaid (mem_sdiff.mp hx).2
    · exact ⟨_, hqueued, (evaluates_congr hclauses).mpr hev⟩
  · exact ⟨b, mem_work_flushBatch hb, (evaluates_congr hclauses).mpr hev⟩

omit hphase in
theorem Inv.settle (h : s.Inv)
    (hs : s.next cfg (.settle compact idleTick workerFull lazyValueFields) = some s') : s'.Inv := by
  obtain ⟨t, ht, rfl⟩ := Option.map_eq_some_iff.mp hs
  obtain ⟨c, hphase, rfl⟩ := next_settle ht
  have hcases := settleCycle_cases cfg s.thread c compact idleTick workerFull lazyValueFields
  refine ⟨fun c' hc' => ?_, fun key e' hres x hx => ?_⟩
  · obtain ⟨-, heq⟩ | ⟨-, -, heq⟩ | ⟨-, -, -, heq⟩ | ⟨-, -, -, heq⟩ := hcases
    all_goals
      simp only [heq, Phase.settled.injEq] at hc' ⊢
      rw [hc']
  · simp only [owedAfter, hphase] at hx
    obtain ⟨hflushes, heq⟩ | ⟨hflushes, hcompacts, heq⟩ | ⟨-, -, -, heq⟩ | ⟨hflushes, -, hleaves, heq⟩ := hcases
    · -- the batch is flushed
      simp only [heq, Resident] at hres ⊢
      exact .inr (.inr (queued_of_flushes hphase hmeets h hflushes hres.1 hres.2 hx))
    · -- idle compaction: no clear may be due
      simp only [heq, Resident] at hres ⊢
      rw [hflushes] at hx
      rcases covered_of_not_flushes hphase (hmeets c hphase).1 h hflushes hres hx with hdue | hwork
      · rw [(hmeets c hphase).2.1 hdue] at hcompacts
        cases hcompacts
      · exact .inr (.inr hwork)
    · -- the cache is cleared
      simp only [heq, Resident, exitLoading, lookup_clear] at hres
      cases hres.1
    · -- nothing happens
      simp only [heq, Resident] at hres ⊢
      rw [hflushes] at hx
      rcases covered_of_not_flushes hphase (hmeets c hphase).1 h hflushes hres hx with hdue | hwork
      · exact .inl ⟨hdue.1, isLoading_of_clearDue hphase hleaves hdue⟩
      · exact .inr (.inr hwork)

end Settle

omit [Host] in
/-- A thread whose cache is cleared owes nothing to a resident entry. -/
theorem Inv.of_cleared {t : FlushThread} {owed : UnifiedKey → Bitmap}
    (hcache : ∀ key, t.cache.entries.lookup key = none)
    (hsettled : ∀ c, t.phase = .settled c → t.wasLoading = c.isLoading) : Inv ⟨t, owed⟩ := by
  refine ⟨hsettled, fun key e hres => ?_⟩
  rw [Resident, hcache key] at hres
  cases hres.1

omit [Host] in
/-- Between the second part and the third, a debt is covered by a clear that is due or by an item. -/
theorem covered_of_settled (h : s.Inv) {c : Cycle} (hphase : s.thread.phase = .settled c)
    (hres : s.thread.Resident key e) (hx : x ∈ s.owed key) :
    (s.thread.stagingDirty = true ∧ c.isLoading = true) ∨ ∃ b ∈ s.thread.work, Evaluates b key e x := by
  rcases h.covered key e hres x hx with ⟨hdirty, hdue⟩ | ⟨c', hc', -⟩ | hwork
  · rw [hphase] at hdue
    exact .inl ⟨hdirty, (h.settled c hphase).symm.trans hdue⟩
  · rw [hphase] at hc'
    cases hc'
  · exact .inr hwork

theorem Inv.forcePublish (h : s.Inv) (hmeets : s.Meets cfg (.command .forcePublish))
    (hs : s.next cfg (.command .forcePublish) = some s') : s'.Inv := by
  obtain ⟨t, ht, rfl⟩ := Option.map_eq_some_iff.mp hs
  obtain ⟨c, hphase, rfl⟩ := next_command ht
  refine ⟨h.settled, fun key e hres x hx => ?_⟩
  rcases mem_union.mp hx with hx | hx
  · rcases covered_of_settled h hphase hres hx with ⟨hdirty, hloading⟩ | hwork
    · refine absurd ⟨hdirty, ?_⟩ hmeets.1
      rw [hphase]
      exact (h.settled c hphase).trans hloading
    · exact .inr (.inr hwork)
  · exact .inr (.inr (hmeets.2 key e hres x hx))

theorem Inv.command (h : s.Inv) {cmd : FlushCommand} (hmeets : s.Meets cfg (.command cmd))
    (hs : s.next cfg (.command cmd) = some s') : s'.Inv := by
  obtain ⟨t, ht, rfl⟩ := Option.map_eq_some_iff.mp hs
  obtain ⟨c, hphase, rfl⟩ := next_command ht
  cases cmd with
  | forcePublish => exact h.forcePublish hmeets hs
  | syncUnloaded unloaded => exact Inv.of_cleared (fun key => lookup_clear) h.settled
  | exitLoadingSaveUnload saved skipFilters skipSorts =>
    cases saved with
    | true => exact Inv.of_cleared (fun key => lookup_clear) h.settled
    | false => exact h.of_same rfl rfl rfl rfl rfl

theorem Inv.finish (h : s.Inv) {idle : List (String × UInt64)} (hs : s.next cfg (.finish idle) = some s') : s'.Inv := by
  obtain ⟨t, ht, rfl⟩ := Option.map_eq_some_iff.mp hs
  obtain ⟨c, hphase, rfl⟩ := next_finish ht
  cases hloading : c.isLoading with
  | true =>
    have heq : s.thread.finishCycle c idle = { s.thread with phase := .idle } := by
      rw [finishCycle, if_pos hloading]
    refine ⟨fun c' hc' => ?_, fun key e hres x hx => ?_⟩
    · simp only [heq] at hc'
      cases hc'
    · simp only [heq] at hres ⊢
      rcases covered_of_settled h hphase hres hx with ⟨hdirty, -⟩ | hwork
      · exact .inl ⟨hdirty, (h.settled c hphase).trans hloading⟩
      · exact .inr (.inr hwork)
  | false =>
    -- outside loading mode no clear is due, so it does not matter what is published
    obtain ⟨hidle, hcache, hwork⟩ := s.thread.finishCycle_keeps c idle
    refine ⟨fun c' hc' => ?_, fun key e hres x hx => ?_⟩
    · rw [hidle] at hc'
      cases hc'
    · rw [Resident, hcache] at hres
      rcases covered_of_settled h hphase hres hx with ⟨-, hl⟩ | hb
      · rw [hloading] at hl
        cases hl
      · rw [← hwork] at hb
        exact .inr (.inr hb)

theorem Inv.shutdown (h : s.Inv) (hmeets : s.Meets cfg .shutdown) (hs : s.next cfg .shutdown = some s') : s'.Inv := by
  obtain ⟨t, ht, rfl⟩ := Option.map_eq_some_iff.mp hs
  obtain ⟨hidle, rfl⟩ := next_shutdown ht
  obtain ⟨hstopped, hcache, hwork, hdirty, hwas⟩ := s.thread.shutdownFlush_keeps
  refine ⟨fun c hc => ?_, fun key e hres x hx => ?_⟩
  · rw [hstopped] at hc
    cases hc
  · rw [Resident, hcache] at hres
    rcases mem_union.mp hx with hx | hx
    · rcases h.covered key e hres x hx with ⟨hd, hdue⟩ | ⟨c, hc, -⟩ | hb
      · rw [hidle] at hdue
        refine .inl ⟨hdirty.trans hd, ?_⟩
        rw [hstopped]
        exact hwas.trans hdue
      · rw [hidle] at hc
        cases hc
      · rw [← hwork] at hb
        exact .inr (.inr hb)
    · have hb := hmeets key e hres x hx
      rw [← hwork] at hb
      exact .inr (.inr hb)

/-! ## Runs -/

theorem Inv.step (h : s.Inv) {ev : ThreadEvent} (hmeets : s.Meets cfg ev) (hs : s.next cfg ev = some s') : s'.Inv := by
  cases ev with
  | send op | load data | setLoading loading | setTables tables =>
    obtain rfl := Option.some.inj hs
    exact h.of_same rfl rfl rfl rfl rfl
  | store basis key sortedSlots hasMore totalMatched filters valueFn evicted => exact h.store hmeets hs
  | worker n => exact h.worker hmeets hs
  | begin now docs promote => exact h.begin hmeets hs
  | settle compact idleTick workerFull lazyValueFields => exact h.settle hmeets hs
  | command cmd => exact h.command hmeets hs
  | finish idle => exact h.finish hs
  | shutdown => exact h.shutdown hmeets hs

end Audited

/-! ## A check of the condition -/

section Evaluated

instance decidableEvaluates {b : WriteBatch} {key : UnifiedKey} {e : UnifiedEntry} (x : UInt32) :
    Decidable (Evaluates b key e x) := by
  unfold Evaluates
  infer_instance

instance decidableForallResident (t : FlushThread) (P : UnifiedKey → UnifiedEntry → Prop)
    [∀ key e, Decidable (P key e)] : Decidable (∀ key e, t.Resident key e → P key e) :=
  decidable_of_iff (∀ key e, t.cache.entries.lookup key = some e → e.needsRebuild = false → P key e)
    ⟨fun h key e hres => h key e hres.1 hres.2, fun h key e he hflag => h key e ⟨he, hflag⟩⟩

instance decidableAtRest (t : FlushThread) : Decidable t.AtRest :=
  inferInstanceAs (Decidable ((t.phase = .idle ∨ t.phase = .stopped) ∧ t.work = [] ∧
    ¬ (t.stagingDirty = true ∧ t.wasLoading = true)))

instance decidableClearDue (t : FlushThread) : Decidable t.ClearDue := by
  unfold ClearDue
  cases t.phase <;> infer_instance

instance decidableForallApplied (phase : Phase) (P : Cycle → Prop) [DecidablePred P] :
    Decidable (∀ c, phase = .applied c → P c) :=
  match phase with
  | .applied c => decidable_of_iff (P c) ⟨fun h _ hc => by cases hc; exact h, fun h => h c rfl⟩
  | .idle | .settled _ | .stopped => isTrue nofun

instance decidableCovered (t : FlushThread) (key : UnifiedKey) (e : UnifiedEntry) (x : UInt32) :
    Decidable (t.Covered key e x) :=
  have : Decidable (∃ c, t.phase = .applied c ∧ c.isLoading = false ∧ Evaluates (.groupAndSort c.ops) key e x) :=
    decidable_of_iff (¬ ∀ c, t.phase = .applied c → ¬ (c.isLoading = false ∧ Evaluates (.groupAndSort c.ops) key e x))
      (by simp)
  inferInstanceAs (Decidable (t.ClearDue ∨ _ ∨ ∃ b ∈ t.work, _))

instance decidableSortsLoaded (t : FlushThread) (b : WriteBatch) (ex : QueryExecutor) : Decidable (t.SortsLoaded b ex) :=
  inferInstanceAs (Decidable (∀ key e, t.Resident key e → ∀ x ∈ b.mutatedSortSlots.ids key.sortField, _ = true))

instance decidableUncancelled (items : List WriteBatch) : Decidable (Uncancelled items) :=
  -- only the groups of an item have slots
  decidable_of_iff ((∀ b ∈ items, ∀ b' ∈ items, ∀ g ∈ b.filterInserts.keys, ∀ x ∈ b.filterInserts.ids g,
      x ∉ b'.filterRemoves.ids g) ∧ (∀ b ∈ items, ∀ g ∈ b.filterInserts.keys, b.filterInserts.ids g ≠ ∅) ∧
      ∀ b ∈ items, ∀ g ∈ b.filterRemoves.keys, b.filterRemoves.ids g ≠ ∅)
    ⟨fun h => ⟨fun b hb b' hb' g x hx => h.1 b hb b' hb' g (Postings.mem_of_mem_ids hx) x hx,
        fun b hb g hg => nonempty_iff_ne_empty.mpr (h.2.1 b hb g hg),
        fun b hb g hg => nonempty_iff_ne_empty.mpr (h.2.2 b hb g hg)⟩,
      fun h => ⟨fun b hb b' hb' g _ => h.disjoint b hb b' hb' g,
        fun b hb g hg => nonempty_iff_ne_empty.mp (h.inserts b hb g hg),
        fun b hb g hg => nonempty_iff_ne_empty.mp (h.removes b hb g hg)⟩⟩

variable [Host]

instance Audited.decidableMeets (cfg : FlushConfig) (s : Audited) (ev : ThreadEvent) : Decidable (s.Meets cfg ev) := by
  unfold Meets
  split <;> infer_instance

end Evaluated

/-! ## One insert, force-published and flushed -/

section Samples

attribute [local instance] Host.ascii

/-- Inline maintenance over a filter field and a sort field. -/
def inlineConfig : FlushConfig where
  config := ⟨["a"], [⟨"v", 3, none⟩], [], none, by decide, by decide⟩
  retrySecs := 60
  asyncMaintenance := false
  backlogDropLimit := 4096
  maxPageSize := 100
  legacy := fun _ _ => false

def twoMatchesState : IndexState := ⟨twoMatches.slots, twoMatches.filters, twoMatches.sorts⟩

def auditedMatches : Audited := ⟨.initial twoMatchesState {} .empty, fun _ => ∅⟩

/-- A query on the value 1 of `a` stores its two slots. -/
def storeMatches : ThreadEvent :=
  .store twoMatchesState matchesKey [1, 2] false 2 [.eq "a" (.integer 1)] (twoMatches.sortValue "v") []

def beginQuiet : ThreadEvent := .begin 0 (fun _ => none) false

def settleQuiet : ThreadEvent := .settle false false false []

/-- Slot 3 comes with the value 1 and the highest sort value. -/
def sendThird : List ThreadEvent := (thirdOps [0, 1, 2]).map .send

/-- The insert arrives after the drain of a cycle and is drained by `ForcePublish`. -/
def forcedRun : List ThreadEvent :=
  [storeMatches, beginQuiet, settleQuiet] ++ sendThird ++ [.command .forcePublish, .finish []]

/-- The same insert drained by a regular cycle. -/
def regularRun : List ThreadEvent := [storeMatches] ++ sendThird ++ [beginQuiet] ++ [settleQuiet] ++ [.finish []]

end Samples

end Bitdex
