import Bitdex.Cache.Collect
import Bitdex.Cache.Native
import Bitdex.Cache.Serve

/-!
# `Cache.Maintain` — one flush applied to the cache

After a flush has been applied to the index, the entries it may affect are brought up to date (`unified_cache.rs`,
inline path of the flush loop). Every slot of the collected work is evaluated against the new index: those that match
and are strictly inside the floor are added, those that do not match or whose sort value changed to the floor or
beyond are removed. Deleted slots leave every entry first. `Maintained` says which slots an entry holds afterwards.

The engine stores every entry with its clause tree; the test of an entry without one is a parameter.
-/

namespace Bitdex

open Enumeration UnifiedEntry CacheMaintenanceItem Postings Bitmap List

/-! ## The sort slots of a batch -/

namespace WriteBatch

variable (b : WriteBatch)

/-- The slots whose sort bits a batch writes, per field. -/
def mutatedSortSlots : Postings String UInt32 :=
  addAll ∅ ((b.sortSets.entries ++ b.sortClears.entries).map fun g => (g.1.field, g.2))

variable {b}

theorem mem_mutatedSortSlots {field : String} {x : UInt32} : x ∈ b.mutatedSortSlots.ids field ↔
      ∃ layer, x ∈ b.sortSets.ids ⟨field, layer⟩ ∨ x ∈ b.sortClears.ids ⟨field, layer⟩ := by
  rw [mutatedSortSlots, mem_ids_regroup SortGroupKey.field]
  constructor
  · rintro ⟨⟨f, layer⟩, rfl, hx⟩
    exact ⟨layer, hx⟩
  · rintro ⟨layer, hx⟩
    exact ⟨⟨field, layer⟩, rfl, hx⟩

end WriteBatch

/-! ## Collecting sort work -/

namespace UnifiedCache

variable (c : UnifiedCache) (sortMutations : Postings String UInt32)

/-- The ids of the entries that sort by a mutated field. -/
def sortAffectedIds : Finset CacheEntryId :=
  sortMutations.keys.foldl (fun ids field => ids ∪ c.metaIndex.entriesForSortField field) ∅

/-- The work item of an affected id: all mutated slots of its sort field. -/
def sortWorkItem (id : CacheEntryId) : Option CacheMaintenanceItem :=
  match c.metaIdToKey.lookup id with
  | none => none
  | some key =>
    match c.entries.lookup key with
    | none => none
    | some entry =>
      if entry.needsRebuild then none
      else if sortMutations.ids key.sortField = ∅ then none
      else some (workItem key entry (sortMutations.ids key.sortField))

/-- Work items and over-budget keys of a flush's sort mutations. -/
def collectSortWork : List CacheMaintenanceItem × List UnifiedKey :=
  if c.entries.entries = [] ∨ sortMutations.entries = [] then ([], [])
  else
    let affected := c.sortAffectedIds sortMutations
    if affected = ∅ then ([], [])
    else
      let totalSortSlots := (sortMutations.entries.map fun e => e.2.card).sum
      if c.overBudget affected totalSortSlots then
        ([], (enumerate (· ≤ ·) affected).filterMap c.metaIdToKey.lookup)
      else ((enumerate (· ≤ ·) affected).filterMap (c.sortWorkItem sortMutations), [])

variable {c sortMutations} {key : UnifiedKey} {entry : UnifiedEntry}

theorem mem_sortAffectedIds {id : CacheEntryId} :
    id ∈ c.sortAffectedIds sortMutations ↔ ∃ field ∈ sortMutations, id ∈ c.metaIndex.entriesForSortField field := by
  rw [sortAffectedIds, mem_foldl_union]
  simp [AList.mem_keys]

/-- Every resident that sorts by a mutated field is affected. -/
theorem mem_sortAffectedIds_of_resident (h : c.entries.lookup key = some entry) :
    entry.metaId ∈ c.sortAffectedIds sortMutations ↔ key.sortField ∈ sortMutations := by
  have hreg := c.registered key entry h
  rw [mem_sortAffectedIds]
  constructor
  · rintro ⟨field, hfield, hid⟩
    obtain ⟨d, hd⟩ := (MetaIndex.mem_entriesForSortField hreg).mp hid
    have hsame : key.sortField = field := by
      simpa [UnifiedKey.registration, EntryRegistration.of] using
        congrArg (fun k : Option SortKey => k.map (·.field)) hd
    exact hsame ▸ hfield
  · intro hfield
    exact ⟨_, hfield, (MetaIndex.mem_entriesForSortField hreg).mpr ⟨key.direction, rfl⟩⟩

end UnifiedCache

/-! ## Evaluating -/

mutual

/-- The leaf tests a clause costs. -/
def countOneLeafAtom : FilterClause → Nat
  | .isIn _ values | .notIn _ values => values.length
  | .not inner => countOneLeafAtom inner
  | .and parts | .or parts => countLeafAtoms parts
  | _ => 1

/-- The leaves of some clauses. -/
def countLeafAtoms : List FilterClause → Nat
  | [] => 0
  | c :: cs => countOneLeafAtom c + countLeafAtoms cs

end

/-- What the evaluation of one item asks to change. -/
structure CacheMaintenanceResult where
  key : UnifiedKey
  adds : List (UInt32 × Nat)
  removes : List (UInt32 × Nat)
  sortBoundRemoves : List (UInt32 × Nat)

def CacheMaintenanceResult.isEmpty (r : CacheMaintenanceResult) : Bool :=
  r.adds.isEmpty && r.removes.isEmpty && r.sortBoundRemoves.isEmpty

/-- What evaluating an item gives. -/
inductive ItemOutcome where
  | result (r : CacheMaintenanceResult)
  | compoundTooLarge (key : UnifiedKey)

/-- The result, if there is one. -/
def ItemOutcome.result? : ItemOutcome → Option CacheMaintenanceResult
  | result r => some r
  | compoundTooLarge _ => none

/-- The key of an item that was too large. -/
def ItemOutcome.tooLarge? : ItemOutcome → Option UnifiedKey
  | result _ => none
  | compoundTooLarge key => some key

/-- The outcomes of some items, split into results and keys to evict. -/
def splitOutcomes (outcome : CacheMaintenanceItem → Option ItemOutcome)
    (work : List CacheMaintenanceItem) : List CacheMaintenanceResult × List UnifiedKey :=
  let outcomes := work.filterMap outcome
  (outcomes.filterMap (·.result?), outcomes.filterMap (·.tooLarge?))

section Evaluate

variable [Host] (ex : QueryExecutor) (legacy : UInt32 → CanonicalClause → Bool) (limit : Nat)

namespace CacheMaintenanceItem

variable (item : CacheMaintenanceItem)

/-- The filter test of an item: its clause tree, or the clauses of its key if it has none. -/
def matchesSlot (slot : UInt32) : Bool :=
  if item.originalFilterClauses = [] then item.key.filterClauses.all (legacy slot)
  else slotMatchesFilterNative ex.filters ex.sorts ex.tables slot item.originalFilterClauses

/-- The sort value of a slot, for an item. -/
def value (slot : UInt32) : Nat := ex.sortValue item.key.sortField slot

/-- Strictly inside the floor. -/
def qualifies (slot : UInt32) : Bool := sortQualifiesRaw (item.value ex slot) item.minTrackedValue item.direction

/-- The slots of an item that pass a test, with their values. -/
def select (p : UInt32 → Bool) : List (UInt32 × Nat) := (item.slots.filter p).map fun slot => (slot, item.value ex slot)

/-- More leaf tests than the limit; 0 is no limit. -/
def tooLarge : Bool :=
  decide (0 < limit ∧ item.originalFilterClauses ≠ [] ∧
    limit < countLeafAtoms item.originalFilterClauses)

/-- What a filter item asks to change. -/
def filterResult : CacheMaintenanceResult where
  key := item.key
  adds := item.select ex fun slot => item.matchesSlot ex legacy slot && item.qualifies ex slot
  removes := item.select ex fun slot => !item.matchesSlot ex legacy slot
  sortBoundRemoves := []

/-- Evaluate the slots of an item. -/
def filterOutcome : Option ItemOutcome :=
  if item.tooLarge limit then some (.compoundTooLarge item.key)
  else if (item.filterResult ex legacy).isEmpty then none
  else some (.result (item.filterResult ex legacy))

/-- What a sort item asks to change; nothing is removed while the field is not fully loaded. -/
def sortResult (fieldLoaded : Bool) : CacheMaintenanceResult where
  key := item.key
  adds := item.select ex fun slot => item.qualifies ex slot && item.matchesSlot ex legacy slot
  removes := item.select ex fun slot =>
    fieldLoaded && (item.qualifies ex slot && !item.matchesSlot ex legacy slot)
  sortBoundRemoves := item.select ex fun slot => fieldLoaded && !item.qualifies ex slot

/-- Whether some value of the field can be inside the floor, and whether some can be outside. -/
def canAddRemove (fieldMax fieldMin : Nat) (fieldLoaded : Bool) : Bool × Bool :=
  match item.direction with
  | .desc => (decide (fieldMax > item.minTrackedValue),
      fieldLoaded && decide (fieldMin ≤ item.minTrackedValue))
  | .asc => (decide (fieldMin < item.minTrackedValue),
      fieldLoaded && decide (fieldMax ≥ item.minTrackedValue))

/-- The outcome of a sort item, given the values of all slots that are looked at for its field. -/
def sortOutcome (values : List Nat) (sf : SortField) : Option ItemOutcome :=
  match values with
  | [] => none
  | v :: vs =>
    let fieldMax := (v :: vs).foldl max 0
    let fieldMin := vs.foldl min v
    let can := item.canAddRemove fieldMax fieldMin sf.isFullyLoaded
    if !can.1 && !can.2 then none
    else if can.1 && item.tooLarge limit then some (.compoundTooLarge item.key)
    else if (item.sortResult ex legacy sf.isFullyLoaded).isEmpty then none
    else some (.result (item.sortResult ex legacy sf.isFullyLoaded))

end CacheMaintenanceItem

/-- Evaluate all items. -/
def evaluateFilterWork (work : List CacheMaintenanceItem) :
    List CacheMaintenanceResult × List UnifiedKey :=
  splitOutcomes (·.filterOutcome ex legacy limit) work

/-- The values looked at for a sort field. -/
def fieldValues (work : List CacheMaintenanceItem) (field : String) (sf : SortField) : List Nat :=
  (work.filter fun item => decide (item.key.sortField = field)).flatMap fun item =>
    item.slots.map sf.reconstructValue

/-- An item whose sort field does not exist is skipped. -/
def evaluateSortWork (work : List CacheMaintenanceItem) :
    List CacheMaintenanceResult × List UnifiedKey :=
  splitOutcomes (fun item => (ex.sorts.getField item.key.sortField).bind fun sf =>
    item.sortOutcome ex legacy limit (fieldValues work item.key.sortField sf) sf) work

end Evaluate

/-! ## Applying -/

namespace UnifiedEntry

variable (e : UnifiedEntry)

/-- Apply one result to its entry: adds, filter removes, and the sort removes still outside the floor; not if it is
flagged. -/
def applyResult (r : CacheMaintenanceResult) : UnifiedEntry :=
  if e.needsRebuild then e
  else
    let added := e.addSlotsBulk r.adds
    let removed := added.removeSlotsBulk r.removes
    removed.removeSlotsBulk (r.sortBoundRemoves.filter fun p =>
      !sortQualifiesRaw p.2 removed.minTrackedValue r.key.direction)

/-- Apply the results for one key. -/
def applyAll (key : UnifiedKey) (results : List CacheMaintenanceResult) : UnifiedEntry :=
  (results.filter fun r => decide (r.key = key)).foldl applyResult e

/-- What maintenance never changes in an entry. -/
structure SameBounds (e e' : UnifiedEntry) : Prop where
  metaId : e'.metaId = e.metaId
  clauses : e'.originalFilterClauses = e.originalFilterClauses
  floor : e'.minTrackedValue = e.minTrackedValue
  hasMore : e'.hasMore = e.hasMore
  direction : e'.direction = e.direction

theorem SameBounds.refl : SameBounds e e := ⟨rfl, rfl, rfl, rfl, rfl⟩

variable {e}

theorem SameBounds.trans {e' e'' : UnifiedEntry} (h : SameBounds e e') (h' : SameBounds e' e'') : SameBounds e e'' :=
  ⟨h'.metaId.trans h.metaId, h'.clauses.trans h.clauses, h'.floor.trans h.floor,
    h'.hasMore.trans h.hasMore, h'.direction.trans h.direction⟩

theorem sameBounds_addSlotsBulk (adds : List (UInt32 × Nat)) : SameBounds e (e.addSlotsBulk adds) := by
  unfold addSlotsBulk
  split
  · exact .refl e
  · exact ⟨rfl, rfl, rfl, rfl, rfl⟩

theorem sameBounds_removeSlotsBulk (removes : List (UInt32 × Nat)) : SameBounds e (e.removeSlotsBulk removes) := by
  unfold removeSlotsBulk
  dsimp only
  split
  · exact .refl e
  · exact ⟨rfl, rfl, rfl, rfl, rfl⟩

theorem sameBounds_applyResult (r : CacheMaintenanceResult) : SameBounds e (e.applyResult r) := by
  unfold applyResult
  split
  · exact .refl e
  · exact ((sameBounds_addSlotsBulk _).trans (sameBounds_removeSlotsBulk _)).trans
      (sameBounds_removeSlotsBulk _)

theorem sameBounds_removeSlots (slots : List UInt32) : SameBounds e (e.removeSlots slots) := ⟨rfl, rfl, rfl, rfl, rfl⟩

/-- The slots after one result: its adds without its removes. -/
theorem mem_applyResult {r : CacheMaintenanceResult} {x : UInt32} (hflag : e.needsRebuild = false) :
    x ∈ (e.applyResult r).bitmap ↔ (x ∈ e.bitmap ∨ x ∈ r.adds.map Prod.fst) ∧ x ∉ r.removes.map Prod.fst ∧
        ¬ ∃ v, (x, v) ∈ r.sortBoundRemoves ∧ sortQualifiesRaw v e.minTrackedValue r.key.direction = false := by
  have hfloor : ((e.addSlotsBulk r.adds).removeSlotsBulk r.removes).minTrackedValue = e.minTrackedValue :=
    ((sameBounds_addSlotsBulk _).trans (sameBounds_removeSlotsBulk _)).floor
  unfold applyResult
  simp only [hflag, Bool.false_eq_true, if_false, hfloor]
  rw [mem_removeSlotsBulk, mem_removeSlotsBulk, mem_addSlotsBulk, and_assoc]
  refine and_congr_right fun _ => and_congr_right fun _ => not_congr ?_
  simp

end UnifiedEntry

namespace UnifiedCache

variable (c : UnifiedCache)

/-- One deleted slot leaves every entry. -/
def removeSlotFromAll (slot : UInt32) : UnifiedCache :=
  c.entries.keys.foldl (fun c key => c.modify key (·.removeSlots [slot])
    (fun _ => (sameBounds_removeSlots [slot]).metaId)
    fun _ => (sameBounds_removeSlots [slot]).clauses) c

def removeSlotsFromAll (slots : List UInt32) : UnifiedCache := slots.foldl removeSlotFromAll c

/-- Apply results one after the other. -/
def applyMaintenanceResults (results : List CacheMaintenanceResult) : UnifiedCache :=
  results.foldl (fun c r => c.modify r.key (·.applyResult r)
    (fun _ => (sameBounds_applyResult r).metaId)
    fun _ => (sameBounds_applyResult r).clauses) c

/-- **One flush**, the inline path: deleted slots leave, work is collected and evaluated against the new
index, results are applied, filter results first, and what overran is evicted. -/
def maintain [Host] (legacy : UInt32 → CanonicalClause → Bool) (b : WriteBatch) (ex : QueryExecutor) :
    UnifiedCache :=
  let c₁ := c.removeSlotsFromAll (iter b.aliveRemoves)
  let filterWork := c₁.collectFilterWork b.filterInserts b.filterRemoves
  let sortWork := c₁.collectSortWork b.mutatedSortSlots
  let limit := c.config.compoundEvalAtomLimit
  let filterResults := evaluateFilterWork ex legacy limit filterWork.1
  let sortResults := evaluateSortWork ex legacy limit sortWork.1
  ((c₁.applyMaintenanceResults filterResults.1).applyMaintenanceResults sortResults.1).removeAll
    (filterWork.2 ++ sortWork.2 ++ filterResults.2 ++ sortResults.2)

/-! ### The entry under a key -/

variable {c} {key : UnifiedKey}

theorem lookup_foldl_modify {f : UnifiedEntry → UnifiedEntry} {hid horig} {keys : List UnifiedKey}
    (hnodup : keys.Nodup) :
    (keys.foldl (fun c key => c.modify key f hid horig) c).entries.lookup key =
      if key ∈ keys then (c.entries.lookup key).map f else c.entries.lookup key := by
  induction keys generalizing c with
  | nil => simp
  | cons k keys ih =>
    obtain ⟨hk, hrest⟩ := nodup_cons.mp hnodup
    rw [foldl_cons, ih hrest, lookup_modify]
    by_cases hkey : key = k
    · subst hkey
      simp [hk]
    · simp [hkey]

theorem lookup_removeSlotFromAll (slot : UInt32) :
    (c.removeSlotFromAll slot).entries.lookup key = (c.entries.lookup key).map (·.removeSlots [slot]) := by
  rw [removeSlotFromAll, lookup_foldl_modify c.entries.keys_nodup]
  split
  · rfl
  · next hkey =>
    have hnone : c.entries.lookup key = none := AList.lookup_eq_none.mpr fun hmem => hkey (AList.mem_keys.mp hmem)
    rw [hnone, Option.map_none]

/-- The entries after some slots have left; everything but what they hold stays. -/
theorem lookup_removeSlotsFromAll {e : UnifiedEntry} (h : c.entries.lookup key = some e) (slots : List UInt32) :
    ∃ e', (c.removeSlotsFromAll slots).entries.lookup key = some e' ∧ SameBounds e e' ∧
      e'.needsRebuild = e.needsRebuild ∧ ∀ x, x ∈ e'.bitmap ↔ x ∈ e.bitmap ∧ x ∉ slots := by
  induction slots generalizing c e with
  | nil => exact ⟨e, h, .refl e, rfl, by simp⟩
  | cons slot slots ih =>
    have hone : (c.removeSlotFromAll slot).entries.lookup key = some (e.removeSlots [slot]) := by
      rw [lookup_removeSlotFromAll, h, Option.map_some]
    obtain ⟨e', he', hsame, hflag, hmem⟩ := ih hone
    refine ⟨e', he', (sameBounds_removeSlots [slot]).trans hsame, hflag, fun x => ?_⟩
    rw [hmem, removeSlots]
    simp [toFinset_cons, toFinset_nil, insert_empty_eq, Finset.mem_sdiff,
      Finset.mem_singleton, mem_cons, not_or, and_assoc]

theorem lookup_removeSlotsFromAll_none (h : c.entries.lookup key = none) (slots : List UInt32) :
    (c.removeSlotsFromAll slots).entries.lookup key = none := by
  induction slots generalizing c with
  | nil => exact h
  | cons slot slots ih => exact ih (by rw [lookup_removeSlotFromAll, h, Option.map_none])

theorem lookup_applyMaintenanceResults (results : List CacheMaintenanceResult) :
    (c.applyMaintenanceResults results).entries.lookup key =
      (c.entries.lookup key).map fun e => e.applyAll key results := by
  unfold applyMaintenanceResults
  induction results generalizing c with
  | nil => simp [applyAll]
  | cons r results ih =>
    rw [foldl_cons, ih, lookup_modify]
    by_cases hkey : r.key = key
    · subst hkey
      simp [applyAll, Function.comp_def]
    · simp [applyAll, hkey, Ne.symm hkey]

/-! ### Which items an entry has -/

variable {e : UnifiedEntry} {b : WriteBatch} {sortMutations : Postings String UInt32}

theorem collects_sortWork : c.Collects (c.sortAffectedIds sortMutations) (fun key _ => sortMutations.ids key.sortField)
      (c.collectSortWork sortMutations) := by
  unfold collectSortWork
  split
  · next hnil =>
    refine collects_nil fun key e he _ => ?_
    rcases hnil with hnil | hnil
    · exact absurd he (lookup_ne_some hnil)
    · refine Finset.eq_empty_of_forall_notMem fun x hx => ?_
      rw [mem_ids_iff_entries, hnil] at hx
      obtain ⟨g, hg, -⟩ := hx
      cases hg
  · dsimp only
    split
    · next hnil => exact collects_nil fun key e _ haff => absurd (hnil ▸ haff) (Finset.notMem_empty _)
    · exact collects_affected _

/-- A resident that sorts by a mutated field is returned, over budget or with its slots. -/
theorem returned_of_sort_mutated (h : c.entries.lookup key = some e) (hflag : e.needsRebuild = false)
    (hslots : sortMutations.ids key.sortField ≠ ∅) : key ∈ (c.collectSortWork sortMutations).2 ∨
      workItem key e (sortMutations.ids key.sortField) ∈ (c.collectSortWork sortMutations).1 := by
  refine collects_sortWork.complete key e h hflag hslots ((mem_sortAffectedIds_of_resident h).mpr ?_)
  by_contra hno
  rw [ids, AList.lookup_eq_none.mpr hno] at hslots
  exact hslots rfl

end UnifiedCache

/-! ### What one item does to its entry -/

section Stages

variable {ex : QueryExecutor} {legacy : UInt32 → CanonicalClause → Bool} {limit : Nat}
  {item : CacheMaintenanceItem} {e e' : UnifiedEntry} {x : UInt32}

theorem mem_select {p : UInt32 → Bool} {v : Nat} :
    (x, v) ∈ item.select ex p ↔ (x ∈ item.slots ∧ p x = true) ∧ v = item.value ex x := by
  simp only [select, mem_map, mem_filter, Prod.mk.injEq]
  constructor
  · rintro ⟨y, hy, rfl, rfl⟩
    exact ⟨hy, rfl⟩
  · rintro ⟨hx, rfl⟩
    exact ⟨x, hx, rfl, rfl⟩

theorem mem_map_fst_select {p : UInt32 → Bool} : x ∈ (item.select ex p).map Prod.fst ↔ x ∈ item.slots ∧ p x = true := by
  constructor
  · intro h
    obtain ⟨⟨y, v⟩, hy, rfl⟩ := mem_map.mp h
    exact (mem_select.mp hy).1
  · intro h
    exact mem_map.mpr ⟨(x, item.value ex x), mem_select.mpr ⟨h, rfl⟩, rfl⟩

/-- A filter result decides the slots that do not match and adds those inside the floor. -/
theorem mem_applyResult_filterResult [Host] (ex : QueryExecutor) (legacy : UInt32 → CanonicalClause → Bool)
    (item : CacheMaintenanceItem) (hflag : e.needsRebuild = false) :
    x ∈ (e.applyResult (item.filterResult ex legacy)).bitmap ↔ if x ∈ item.slots then
        item.matchesSlot ex legacy x = true ∧ (item.qualifies ex x = true ∨ x ∈ e.bitmap)
      else x ∈ e.bitmap := by
  rw [mem_applyResult hflag]
  simp only [filterResult, mem_map_fst_select, not_mem_nil, false_and,
    exists_false, not_false_eq_true, and_true, Bool.and_eq_true, Bool.not_eq_true']
  by_cases hx : x ∈ item.slots
  · cases hm : item.matchesSlot ex legacy x <;> simp [hx, or_comm]
  · simp [hx]

/-- With a fully loaded field, a sort result decides all its slots. -/
theorem mem_applyResult_sortResult [Host] (ex : QueryExecutor) (legacy : UInt32 → CanonicalClause → Bool)
    (item : CacheMaintenanceItem) (hflag : e.needsRebuild = false)
    (hfloor : item.minTrackedValue = e.minTrackedValue) (hdir : item.direction = item.key.direction) :
    x ∈ (e.applyResult (item.sortResult ex legacy true)).bitmap ↔
      if x ∈ item.slots then item.matchesSlot ex legacy x = true ∧ item.qualifies ex x = true
      else x ∈ e.bitmap := by
  rw [mem_applyResult hflag]
  have hbound : (∃ v, (x, v) ∈ (item.sortResult ex legacy true).sortBoundRemoves ∧
      sortQualifiesRaw v e.minTrackedValue item.key.direction = false) ↔
      x ∈ item.slots ∧ item.qualifies ex x = false := by
    simp only [sortResult, mem_select, Bool.true_and, Bool.not_eq_true']
    constructor
    · rintro ⟨v, ⟨hx, rfl⟩, -⟩
      exact hx
    · intro hx
      refine ⟨_, ⟨hx, rfl⟩, ?_⟩
      rw [← hfloor, ← hdir]
      exact hx.2
  show _ ∧ _ ∧ ¬ (∃ v, (x, v) ∈ (item.sortResult ex legacy true).sortBoundRemoves ∧
    sortQualifiesRaw v e.minTrackedValue item.key.direction = false) ↔ _
  rw [hbound]
  simp only [sortResult, mem_map_fst_select, Bool.true_and, Bool.and_eq_true, Bool.not_eq_true']
  by_cases hx : x ∈ item.slots
  · cases hm : item.matchesSlot ex legacy x <;> cases hq : item.qualifies ex x <;> simp [hx]
  · simp [hx]

theorem mem_applyResult_of_isEmpty {r : CacheMaintenanceResult} (hempty : r.isEmpty = true) :
    x ∈ (e.applyResult r).bitmap ↔ x ∈ e.bitmap := by
  simp only [CacheMaintenanceResult.isEmpty, Bool.and_eq_true, List.isEmpty_iff] at hempty
  cases hflag : e.needsRebuild with
  | true => simp [applyResult, hflag]
  | false =>
    rw [mem_applyResult hflag]
    simp [hempty]

namespace UnifiedEntry

variable {r : CacheMaintenanceResult} {rs : List CacheMaintenanceResult}

theorem unflagged_of_foldl (h : (rs.foldl applyResult e).needsRebuild = false) : e.needsRebuild = false := by
  induction rs generalizing e with
  | nil => exact h
  | cons r rs ih =>
    have hmid := ih h
    rw [applyResult] at hmid
    split at hmid
    · exact hmid
    · next hflag => simpa using hflag

theorem sameBounds_foldl_applyResult (rs : List CacheMaintenanceResult) : SameBounds e (rs.foldl applyResult e) := by
  induction rs generalizing e with
  | nil => exact .refl e
  | cons r rs ih => exact (sameBounds_applyResult r).trans ih

/-- Applying one result again changes nothing, so a list of copies of it acts as one. -/
theorem mem_foldl_applyResult (hrs : ∀ r' ∈ rs, r' = r) (hflag : (rs.foldl applyResult e).needsRebuild = false) :
    x ∈ (rs.foldl applyResult e).bitmap ↔ if rs = [] then x ∈ e.bitmap else x ∈ (e.applyResult r).bitmap := by
  induction rs generalizing e with
  | nil => simp
  | cons r' rs ih =>
    obtain rfl := hrs r' mem_cons_self
    have hstart := unflagged_of_foldl hflag
    rw [foldl_cons] at hflag ⊢
    rw [ih (fun r hr => hrs r (mem_cons_of_mem _ hr)) hflag, if_neg (cons_ne_nil r' rs)]
    split
    · exact Iff.rfl
    · rw [mem_applyResult (unflagged_of_foldl hflag), (sameBounds_applyResult r').floor, mem_applyResult hstart]
      tauto

end UnifiedEntry

theorem mem_splitOutcomes {outcome : CacheMaintenanceItem → Option ItemOutcome} {work : List CacheMaintenanceItem}
    {r : CacheMaintenanceResult} :
    r ∈ (splitOutcomes outcome work).1 ↔ ∃ item ∈ work, outcome item = some (.result r) := by
  simp only [splitOutcomes, mem_filterMap]
  constructor
  · rintro ⟨o, ⟨item, hitem, ho⟩, hr⟩
    cases o with
    | result r' => exact ⟨item, hitem, by rw [ho, Option.some.inj hr]⟩
    | compoundTooLarge key => cases hr
  · rintro ⟨item, hitem, ho⟩
    exact ⟨.result r, ⟨item, hitem, ho⟩, rfl⟩

/-- **One stage of a flush.** An entry's items are copies of one, so they act as its result does on the slots looked
at. -/
theorem UnifiedCache.mem_stage {c : UnifiedCache} {key : UnifiedKey} {e₂ : UnifiedEntry}
    {affected : Finset CacheEntryId} {slots : UnifiedKey → UnifiedEntry → Bitmap}
    {work : List CacheMaintenanceItem × List UnifiedKey} {outcome : CacheMaintenanceItem → Option ItemOutcome}
    {r : CacheMaintenanceResult} {P : Prop}
    (hcollects : c.Collects affected slots work) (h : c.entries.lookup key = some e) (hstart : e.needsRebuild = false)
    (hkey : ∀ item r', outcome item = some (.result r') → r'.key = item.key)
    (hout : workItem key e (slots key e) ∈ work.1 → outcome (workItem key e (slots key e)) = some (.result r) ∨
      outcome (workItem key e (slots key e)) = some (.compoundTooLarge key) ∨
        (outcome (workItem key e (slots key e)) = none ∧ r.isEmpty = true))
    (hbudget : key ∉ work.2) (hsmall : key ∉ (splitOutcomes outcome work.1).2)
    (he' : e₂.applyAll key (splitOutcomes outcome work.1).1 = e') (hflag : e'.needsRebuild = false)
    (hr : x ∈ (e₂.applyResult r).bitmap ↔ if x ∈ (workItem key e (slots key e)).slots then P else x ∈ e₂.bitmap) :
    (e.metaId ∈ affected ∧ x ∈ slots key e → (x ∈ e'.bitmap ↔ P)) ∧
      (¬(e.metaId ∈ affected ∧ x ∈ slots key e) → (x ∈ e'.bitmap ↔ x ∈ e₂.bitmap)) := by
  subst he'
  have hitem : ∀ r' ∈ (splitOutcomes outcome work.1).1.filter fun r => decide (r.key = key),
      workItem key e (slots key e) ∈ work.1 ∧ outcome (workItem key e (slots key e)) = some (.result r') := by
    intro r' hr'
    obtain ⟨hin, hk⟩ := mem_filter.mp hr'
    obtain ⟨item, hitem, ho⟩ := mem_splitOutcomes.mp hin
    obtain rfl : item.key = key := (hkey item r' ho).symm.trans (of_decide_eq_true hk)
    rw [← (hcollects.item item hitem e h).2.2]
    exact ⟨hitem, ho⟩
  have hsame : ∀ r' ∈ (splitOutcomes outcome work.1).1.filter fun r => decide (r.key = key), r' = r := by
    intro r' hr'
    obtain ⟨hin, ho⟩ := hitem r' hr'
    rcases hout hin with h | h | ⟨h, -⟩ <;> rw [h] at ho <;> cases ho
    rfl
  have hfold : x ∈ (e₂.applyAll key (splitOutcomes outcome work.1).1).bitmap ↔ _ := mem_foldl_applyResult hsame hflag
  refine ⟨fun hlook => hfold.trans ?_, fun hlook => hfold.trans ?_⟩
  · refine Iff.trans ?_ (hr.trans (iff_of_eq (if_pos (mem_iter.mpr hlook.2))))
    split
    · next hnil =>
      -- nothing was asked of the entry, since the item asks for nothing
      have hin := (hcollects.complete key e h hstart (Finset.ne_empty_of_mem hlook.2) hlook.1).resolve_left hbudget
      rcases hout hin with h | h | ⟨-, hempty⟩
      · have hr : r ∈ ([] : List CacheMaintenanceResult) :=
          hnil ▸ mem_filter.mpr ⟨mem_splitOutcomes.mpr ⟨_, hin, h⟩, decide_eq_true (hkey _ r h)⟩
        cases hr
      · exact (hsmall (mem_filterMap.mpr ⟨_, mem_filterMap.mpr ⟨_, hin, h⟩, rfl⟩)).elim
      · exact (mem_applyResult_of_isEmpty hempty).symm
    · exact Iff.rfl
  · split
    · exact Iff.rfl
    · next hne =>
      -- the entry has an item, so it is affected and the slot is not one of the item's
      obtain ⟨r', hr'⟩ := exists_mem_of_ne_nil _ hne
      have haff := (hcollects.item _ (hitem r' hr').1 e h).2.1
      exact hr.trans (iff_of_eq (if_neg fun hx => hlook ⟨haff, mem_iter.mp hx⟩))

theorem filterOutcome_cases [Host] (ex : QueryExecutor) (legacy : UInt32 → CanonicalClause → Bool) (limit : Nat)
    (item : CacheMaintenanceItem) :
    item.filterOutcome ex legacy limit = some (.result (item.filterResult ex legacy)) ∨
      item.filterOutcome ex legacy limit = some (.compoundTooLarge item.key) ∨
      (item.filterOutcome ex legacy limit = none ∧ (item.filterResult ex legacy).isEmpty = true) := by
  unfold filterOutcome
  split
  · exact .inr (.inl rfl)
  · split
    · next hempty => exact .inr (.inr ⟨rfl, hempty⟩)
    · exact .inl rfl

theorem le_foldl_max (values : List Nat) (m : Nat) : m ≤ values.foldl max m := by
  induction values generalizing m with
  | nil => exact le_rfl
  | cons v values ih => exact (le_max_left m v).trans (ih (max m v))

theorem foldl_min_le (values : List Nat) (m : Nat) : values.foldl min m ≤ m := by
  induction values generalizing m with
  | nil => exact le_rfl
  | cons v values ih => exact (ih (min m v)).trans (min_le_left m v)

/-- With a fully loaded field and its own slots' values, only an item that asks for nothing has no outcome. -/
theorem sortOutcome_cases [Host] {values : List Nat} {sf : SortField} (hloaded : sf.isFullyLoaded = true)
    (hvalues : values = [] → item.slots = []) :
    item.sortOutcome ex legacy limit values sf = some (.result (item.sortResult ex legacy true)) ∨
      item.sortOutcome ex legacy limit values sf = some (.compoundTooLarge item.key) ∨
      (item.sortOutcome ex legacy limit values sf = none ∧ (item.sortResult ex legacy true).isEmpty = true) := by
  unfold sortOutcome
  split
  · refine .inr (.inr ⟨rfl, ?_⟩)
    simp [CacheMaintenanceResult.isEmpty, sortResult, select, hvalues rfl]
  · next v vs =>
    have hmax : v ≤ vs.foldl max v := le_foldl_max vs v
    have hmin : vs.foldl min v ≤ v := foldl_min_le vs v
    have hcan : (!(item.canAddRemove ((v :: vs).foldl max 0) (vs.foldl min v) sf.isFullyLoaded).1 &&
        !(item.canAddRemove ((v :: vs).foldl max 0) (vs.foldl min v) sf.isFullyLoaded).2) = false := by
      unfold canAddRemove
      cases item.direction <;> simp [hloaded] <;> omega
    simp only [hcan, Bool.false_eq_true, if_false]
    split
    · exact .inr (.inl rfl)
    · split
      · next hempty => exact .inr (.inr ⟨rfl, hloaded ▸ hempty⟩)
      · exact .inl (by rw [hloaded])

end Stages

/-! ### One flush, slot by slot -/

namespace UnifiedCache

variable [Host] {c : UnifiedCache} {key : UnifiedKey} {e e' : UnifiedEntry} {b : WriteBatch}
  {legacy : UInt32 → CanonicalClause → Bool} {ex : QueryExecutor}

/-- The filter test of an entry, as maintenance applies it. -/
def entryMatches (ex : QueryExecutor) (legacy : UInt32 → CanonicalClause → Bool) (key : UnifiedKey)
    (e : UnifiedEntry) (slot : UInt32) : Bool :=
  (workItem key e ∅).matchesSlot ex legacy slot

/-- Strictly inside the floor of an entry. -/
def entryQualifies (ex : QueryExecutor) (key : UnifiedKey) (e : UnifiedEntry) (slot : UInt32) : Bool :=
  sortQualifiesRaw (ex.sortValue key.sortField slot) e.minTrackedValue e.direction

/-- A batch has an entry look at a slot for its filter: the entry is reached, and a field it watches changed there. -/
def FilterTriggered (b : WriteBatch) (key : UnifiedKey) (e : UnifiedEntry) (slot : UInt32) : Prop :=
  Reached b.filterInserts b.filterRemoves key e ∧
    slot ∈ watchedSlots b.filterInserts b.filterRemoves key e

/-- A batch has an entry look at a slot for its sort value. -/
def SortTriggered (b : WriteBatch) (key : UnifiedKey) (slot : UInt32) : Prop :=
  slot ∈ b.mutatedSortSlots.ids key.sortField

/-- **What one flush makes of an entry** that survives it unflagged, with a fully loaded sort field. -/
structure Maintained (ex : QueryExecutor) (legacy : UInt32 → CanonicalClause → Bool) (b : WriteBatch)
    (key : UnifiedKey) (e e' : UnifiedEntry) : Prop where
  same : SameBounds e e'
  sorted : ∀ x, SortTriggered b key x →
    (x ∈ e'.bitmap ↔ entryMatches ex legacy key e x = true ∧ entryQualifies ex key e x = true)
  filtered : ∀ x, ¬ SortTriggered b key x → FilterTriggered b key e x →
    (x ∈ e'.bitmap ↔ entryMatches ex legacy key e x = true ∧
      (entryQualifies ex key e x = true ∨ (x ∈ e.bitmap ∧ x ∉ b.aliveRemoves)))
  untouched : ∀ x, ¬ SortTriggered b key x → ¬ FilterTriggered b key e x →
    (x ∈ e'.bitmap ↔ x ∈ e.bitmap ∧ x ∉ b.aliveRemoves)

/-- The filter results of a flush, applied to the entry under a key. -/
theorem mem_filterStage (limit : Nat) (h : c.entries.lookup key = some e)
    (hbudget : key ∉ (c.collectFilterWork b.filterInserts b.filterRemoves).2)
    (hsmall : key ∉ (evaluateFilterWork ex legacy limit (c.collectFilterWork b.filterInserts b.filterRemoves).1).2)
    (he' : e.applyAll key (evaluateFilterWork ex legacy limit
      (c.collectFilterWork b.filterInserts b.filterRemoves).1).1 = e')
    (hflag : e'.needsRebuild = false) (x : UInt32) : (FilterTriggered b key e x → (x ∈ e'.bitmap ↔
        entryMatches ex legacy key e x = true ∧ (entryQualifies ex key e x = true ∨ x ∈ e.bitmap))) ∧
      (¬ FilterTriggered b key e x → (x ∈ e'.bitmap ↔ x ∈ e.bitmap)) := by
  have hkeys : ∀ (item' : CacheMaintenanceItem) r',
      item'.filterOutcome ex legacy limit = some (.result r') → r'.key = item'.key := by
    intro item' r' hout
    unfold filterOutcome at hout
    split_ifs at hout <;> cases hout
    rfl
  have hstart : e.needsRebuild = false := unflagged_of_foldl (he' ▸ hflag)
  have hstage := mem_stage (x := x) collects_filterWork h hstart hkeys (fun _ => filterOutcome_cases ex legacy limit _)
    hbudget hsmall he' hflag (mem_applyResult_filterResult ex legacy _ hstart)
  rw [mem_affectedIds_iff_reached h] at hstage
  exact hstage

/-- The sort results of a flush, applied to an entry whose bounds are those of the one under the key. -/
theorem mem_sortStage (limit : Nat) {e₂ : UnifiedEntry} (h : c.entries.lookup key = some e)
    (hunflagged : e.needsRebuild = false) (hdir : e.direction = key.direction)
    (hsame : SameBounds e e₂) {sf : SortField}
    (hsf : ex.sorts.getField key.sortField = some sf) (hloaded : sf.isFullyLoaded = true)
    (hbudget : key ∉ (c.collectSortWork b.mutatedSortSlots).2)
    (hsmall : key ∉ (evaluateSortWork ex legacy limit (c.collectSortWork b.mutatedSortSlots).1).2)
    (he' : e₂.applyAll key (evaluateSortWork ex legacy limit (c.collectSortWork b.mutatedSortSlots).1).1 = e')
    (hflag : e'.needsRebuild = false) (x : UInt32) : (SortTriggered b key x → (x ∈ e'.bitmap ↔
        entryMatches ex legacy key e x = true ∧ entryQualifies ex key e x = true)) ∧
      (¬ SortTriggered b key x → (x ∈ e'.bitmap ↔ x ∈ e₂.bitmap)) := by
  have hkeys : ∀ (item' : CacheMaintenanceItem) r', ((ex.sorts.getField item'.key.sortField).bind
      fun sf => item'.sortOutcome ex legacy limit
        (fieldValues (c.collectSortWork b.mutatedSortSlots).1 item'.key.sortField sf) sf) =
        some (.result r') → r'.key = item'.key := by
    intro item' r' hout
    obtain ⟨sf', -, hout⟩ := Option.bind_eq_some_iff.mp hout
    unfold sortOutcome at hout
    split at hout
    · cases hout
    · dsimp only at hout
      split_ifs at hout <;> cases hout
      rfl
  have hstage := mem_stage (x := x)
    (r := (workItem key e (b.mutatedSortSlots.ids key.sortField)).sortResult ex legacy true) collects_sortWork h
    hunflagged hkeys (by
      intro hitem
      have hfield : ex.sorts.getField (workItem key e (b.mutatedSortSlots.ids key.sortField)).key.sortField =
          some sf := hsf
      simp only [hfield, Option.bind_some]
      refine sortOutcome_cases hloaded fun hvalues => ?_
      rw [fieldValues, flatMap_eq_nil_iff] at hvalues
      exact map_eq_nil_iff.mp (hvalues _ (mem_filter.mpr ⟨hitem, decide_eq_true rfl⟩)))
    hbudget hsmall he' hflag
    (mem_applyResult_sortResult ex legacy _ (unflagged_of_foldl (he' ▸ hflag)) hsame.floor.symm hdir)
  rw [mem_sortAffectedIds_of_resident h, and_iff_right_of_imp mem_of_mem_ids] at hstage
  exact hstage

/-- An entry after a flush was under the key before, with the same bounds, and a flag stays. -/
theorem lookup_maintain_some (h' : (c.maintain legacy b ex).entries.lookup key = some e') :
    ∃ e, c.entries.lookup key = some e ∧ SameBounds e e' ∧ (e'.needsRebuild = false → e.needsRebuild = false) := by
  unfold maintain at h'
  rw [lookup_removeAll, lookup_applyMaintenanceResults, lookup_applyMaintenanceResults] at h'
  split at h'
  · cases h'
  · cases hlookup : c.entries.lookup key with
    | none =>
      rw [lookup_removeSlotsFromAll_none hlookup] at h'
      cases h'
    | some e =>
      obtain ⟨e₁, he₁, hsame, hflag₁, -⟩ := lookup_removeSlotsFromAll hlookup (iter b.aliveRemoves)
      rw [he₁, Option.map_some, Option.map_some, Option.some.injEq] at h'
      subst h'
      refine ⟨e, rfl, (hsame.trans (sameBounds_foldl_applyResult _)).trans
        (sameBounds_foldl_applyResult _), fun hflag => ?_⟩
      rw [← hflag₁]
      exact unflagged_of_foldl (unflagged_of_foldl hflag)

/-- **One flush.** An entry that is there and unflagged afterwards has been maintained. -/
theorem maintained (h : c.entries.lookup key = some e) (hdir : e.direction = key.direction)
    {sf : SortField} (hsf : ex.sorts.getField key.sortField = some sf) (hloaded : sf.isFullyLoaded = true)
    (h' : (c.maintain legacy b ex).entries.lookup key = some e') (hflag : e'.needsRebuild = false) :
    Maintained ex legacy b key e e' := by
  obtain ⟨e₀, he₀, -, hflag₀⟩ := lookup_maintain_some h'
  obtain rfl : e = e₀ := Option.some.inj (h.symm.trans he₀)
  obtain ⟨e₁, he₁, hsame₁, hflag₁, hmem₁⟩ := lookup_removeSlotsFromAll h (iter b.aliveRemoves)
  unfold maintain at h'
  rw [lookup_removeAll, lookup_applyMaintenanceResults, lookup_applyMaintenanceResults, he₁] at h'
  split at h'
  · cases h'
  · next hkept =>
    simp only [mem_append, not_or] at hkept
    obtain ⟨⟨⟨hbudget, hsortBudget⟩, hsmall⟩, hsortSmall⟩ := hkept
    rw [Option.map_some, Option.map_some, Option.some.injEq] at h'
    subst h'
    have hdir₁ : e₁.direction = key.direction := hsame₁.direction.trans hdir
    have hsame₂ := sameBounds_foldl_applyResult (e := e₁)
      ((evaluateFilterWork ex legacy c.config.compoundEvalAtomLimit
        ((c.removeSlotsFromAll (iter b.aliveRemoves)).collectFilterWork b.filterInserts
          b.filterRemoves).1).1.filter fun r => decide (r.key = key))
    -- the clauses, the floor and the direction of the entry are those it had before the flush
    have htrig : ∀ x, FilterTriggered b key e₁ x ↔ FilterTriggered b key e x := by
      intro x
      simp only [FilterTriggered, Reached, watchedSlots, watchedFields, hsame₁.clauses]
    have hitem : workItem key e₁ ∅ = workItem key e ∅ := by
      simp [workItem, hsame₁.clauses, hsame₁.floor, hsame₁.direction]
    have hmatch : ∀ x, entryMatches ex legacy key e₁ x = entryMatches ex legacy key e x := by
      intro x
      rw [entryMatches, hitem, entryMatches]
    have hqual : ∀ x, entryQualifies ex key e₁ x = entryQualifies ex key e x := by
      intro x
      simp [entryQualifies, hsame₁.floor, hsame₁.direction]
    have hunflagged : e₁.needsRebuild = false := hflag₁.trans (hflag₀ hflag)
    have hsort := mem_sortStage c.config.compoundEvalAtomLimit he₁ hunflagged hdir₁ hsame₂
      hsf hloaded hsortBudget hsortSmall rfl hflag
    have hfilter := mem_filterStage c.config.compoundEvalAtomLimit he₁ hbudget hsmall rfl
      (unflagged_of_foldl hflag)
    simp only [htrig, hmatch, hqual, hmem₁, mem_iter] at hsort hfilter
    refine ⟨(hsame₁.trans hsame₂).trans (sameBounds_foldl_applyResult _), ?_, ?_, ?_⟩
    · intro x hx
      exact (hsort x).1 hx
    · intro x hx hfx
      exact ((hsort x).2 hx).trans ((hfilter x).1 hfx)
    · intro x hx hfx
      exact ((hsort x).2 hx).trans ((hfilter x).2 hfx)

end UnifiedCache

end Bitdex
