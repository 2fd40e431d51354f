import Bitdex.Cache.Store
import Bitdex.Executor.Locality
import Bitdex.Write.Batch

/-!
# `Cache.Collect` — which entries a flush must look at

`collect_filter_work` finds the entries a flush may affect and, for each, the slots to re-evaluate
(`unified_cache.rs`). An entry is found in one of two ways (`Reached`): its key holds an `eq` clause whose text is the
decimal bitmap key of a changed group, or it mentions a changed field that its key names in no clause or in a clause
other than `eq`. An `eq` clause on a boolean, a string or a negative integer is not reached by its own writes.
-/

namespace Bitdex

open Enumeration List Postings FilterIndex UnifiedCache

/-- Maintenance work for one entry. -/
structure CacheMaintenanceItem where
  key : UnifiedKey
  slots : List UInt32
  minTrackedValue : Nat
  direction : SortDirection
  originalFilterClauses : List FilterClause

section Groups

variable (inserts removes : Postings FilterGroupKey UInt32)

/-- The group keys of a batch, inserts first. -/
def groupKeys : List FilterGroupKey := inserts.keys ++ removes.keys

/-- The slots a batch changes, per field. -/
def changedSlotsPerField : Postings String UInt32 :=
  addAll ∅ ((inserts.entries ++ removes.entries).map fun g => (g.1.field, g.2))

variable {inserts removes}

theorem mem_changedSlots {field : String} {x : UInt32} : x ∈ (changedSlotsPerField inserts removes).ids field ↔
      ∃ key, x ∈ inserts.ids ⟨field, key⟩ ∨ x ∈ removes.ids ⟨field, key⟩ := by
  rw [changedSlotsPerField, mem_ids_regroup FilterGroupKey.field]
  constructor
  · rintro ⟨⟨f, key⟩, rfl, hx⟩
    exact ⟨key, hx⟩
  · rintro ⟨key, hx⟩
    exact ⟨⟨field, key⟩, rfl, hx⟩

theorem mem_changedFields {field : String} :
    field ∈ (changedSlotsPerField inserts removes).keys ↔ ∃ g ∈ groupKeys inserts removes, g.field = field := by
  have hmem : field ∈ changedSlotsPerField inserts removes ↔ _ := mem_addAll
  rw [← AList.mem_keys, hmem]
  simp only [AList.notMem_empty, mem_map, mem_append, false_or, groupKeys, AList.keys, keys]
  constructor
  · rintro ⟨p, ⟨g, hg, rfl⟩, rfl⟩
    exact ⟨g.1, hg.imp (fun h => ⟨g, h, rfl⟩) (fun h => ⟨g, h, rfl⟩), rfl⟩
  · rintro ⟨g, ⟨e, he, rfl⟩ | ⟨e, he, rfl⟩, rfl⟩
    · exact ⟨_, ⟨e, .inl he, rfl⟩, rfl⟩
    · exact ⟨_, ⟨e, .inr he, rfl⟩, rfl⟩

end Groups

/-! ## Collecting -/

/-- The second test of an entry that mentions a changed field: its key names it in a clause other than `eq`, or not at
all. -/
def fallbackMatches (clauses : List CanonicalClause) (field : String) : Bool :=
  let fieldInCanonical := clauses.any fun c => decide (c.field = field)
  let hasNonEq := fieldInCanonical && clauses.any fun c => decide (c.field = field ∧ c.op ≠ "eq")
  hasNonEq || !fieldInCanonical

namespace UnifiedCache

variable (c : UnifiedCache) (inserts removes : Postings FilterGroupKey UInt32)

/-- The ids of the entries with an `eq` clause on a changed group's decimal key. -/
def eqIds : Finset CacheEntryId :=
  (groupKeys inserts removes).foldl (fun ids g =>
    ids ∪ c.metaIndex.entriesForClause g.field "eq" (toString g.value.toNat)) ∅

/-- Whether the key of an id passes the second test; an id without a key does not. -/
def idMatches (field : String) (id : CacheEntryId) : Bool :=
  match c.metaIdToKey.lookup id with
  | some key => fallbackMatches key.filterClauses field
  | none => false

/-- The affected ids: one pass over the groups, then one over the changed fields. -/
def affectedIds : Finset CacheEntryId :=
  (changedSlotsPerField inserts removes).keys.foldl (fun ids field =>
      ids ∪ (c.metaIndex.entriesForFilterField field \ ids).filter fun id =>
        c.idMatches field id = true)
    (c.eqIds inserts removes)

/-- The fields whose changed slots an entry must look at. -/
def watchedFields (key : UnifiedKey) (entry : UnifiedEntry) : List String :=
  if entry.originalFilterClauses = [] then key.filterClauses.map (·.field)
  else leafFieldsOfEach entry.originalFilterClauses

/-- The slots an entry must look at: the changed ones of its watched fields. -/
def watchedSlots (key : UnifiedKey) (entry : UnifiedEntry) : Bitmap :=
  (watchedFields key entry).foldl (fun s f =>
    s ∪ (changedSlotsPerField inserts removes).ids f) ∅

/-- The work item of a resident entry on some slots. -/
def workItem (key : UnifiedKey) (entry : UnifiedEntry) (slots : Bitmap) : CacheMaintenanceItem :=
  ⟨key, slots.iter, entry.minTrackedValue, entry.direction, entry.originalFilterClauses⟩

/-- The work item of an affected id; flagged entries and entries without a changed slot have none. -/
def filterWorkItem (id : CacheEntryId) : Option CacheMaintenanceItem :=
  match c.metaIdToKey.lookup id with
  | none => none
  | some key =>
    match c.entries.lookup key with
    | none => none
    | some entry =>
      if entry.needsRebuild then none
      else if watchedSlots inserts removes key entry = ∅ then none
      else some (workItem key entry (watchedSlots inserts removes key entry))

/-- Affected entries times changed slots, against the configured budget. -/
def overBudget (affected : Finset CacheEntryId) (changed : Nat) : Bool :=
  decide (c.config.maxMaintenanceMs = 0 ∧ c.config.maxMaintenanceWork > 0 ∧
    affected.card * changed > c.config.maxMaintenanceWork)

/-- Work items and over-budget keys of a flush's filter groups. -/
def collectFilterWork : List CacheMaintenanceItem × List UnifiedKey :=
  if c.entries.entries = [] then ([], [])
  else
    let changed := changedSlotsPerField inserts removes
    if changed.entries = [] then ([], [])
    else
      let affected := c.affectedIds inserts removes
      let totalChangedSlots := (changed.entries.map fun e => e.2.card).sum
      if c.overBudget affected totalChangedSlots then
        ([], (enumerate (· ≤ ·) affected).filterMap c.metaIdToKey.lookup)
      else
        ((enumerate (· ≤ ·) affected).filterMap (c.filterWorkItem inserts removes), [])

/-! ## Which ids are affected -/

/-- **Reached.** A group of the batch is on the decimal key of an `eq` clause of the entry, on the field of another
clause of its key, or on a field only its clause tree mentions. -/
def Reached (inserts removes : Postings FilterGroupKey UInt32) (key : UnifiedKey)
    (entry : UnifiedEntry) : Prop :=
  ∃ g ∈ groupKeys inserts removes,
    ⟨g.field, "eq", toString g.value.toNat⟩ ∈ key.filterClauses ∨
    (∃ k ∈ key.filterClauses, k.field = g.field ∧ k.op ≠ "eq") ∨
    (g.field ∈ leafFieldsOfEach entry.originalFilterClauses ∧
      ∀ k ∈ key.filterClauses, k.field ≠ g.field)

variable {c inserts removes} {key : UnifiedKey} {entry : UnifiedEntry} {id : CacheEntryId} {field : String}
  {affected : Finset CacheEntryId} {slots : UnifiedKey → UnifiedEntry → Bitmap}

theorem mem_eqIds : id ∈ c.eqIds inserts removes ↔ ∃ g ∈ groupKeys inserts removes,
      id ∈ c.metaIndex.entriesForClause g.field "eq" (toString g.value.toNat) := by
  rw [eqIds, mem_foldl_union]
  simp

theorem mem_affectedIds :
    id ∈ c.affectedIds inserts removes ↔ id ∈ c.eqIds inserts removes ∨ ∃ g ∈ groupKeys inserts removes,
        id ∈ c.metaIndex.entriesForFilterField g.field ∧ c.idMatches g.field id = true := by
  have hstep : ∀ (ids : Finset CacheEntryId) (field : String),
      id ∈ ids ∪ (c.metaIndex.entriesForFilterField field \ ids).filter (fun id => c.idMatches field id = true) ↔
        id ∈ ids ∨ (id ∈ c.metaIndex.entriesForFilterField field ∧ c.idMatches field id = true) := by
    intro ids field
    rw [Finset.mem_union, Finset.mem_filter, Finset.mem_sdiff]
    tauto
  refine (foldl_or_iff (id ∈ ·) hstep).trans (or_congr_right ?_)
  constructor
  · rintro ⟨field, hfield, hid⟩
    obtain ⟨g, hg, rfl⟩ := mem_changedFields.mp hfield
    exact ⟨g, hg, hid⟩
  · rintro ⟨g, hg, hid⟩
    exact ⟨g.field, mem_changedFields.mpr ⟨g, hg, rfl⟩, hid⟩

theorem fallbackMatches_iff {clauses : List CanonicalClause} : fallbackMatches clauses field = true ↔
      (∃ k ∈ clauses, k.field = field ∧ k.op ≠ "eq") ∨ ∀ k ∈ clauses, k.field ≠ field := by
  simp only [fallbackMatches, Bool.or_eq_true, Bool.and_eq_true, any_eq_true,
    decide_eq_true_eq, Bool.not_eq_true', any_eq_false]
  constructor
  · rintro (⟨-, h⟩ | h)
    · exact .inl h
    · exact .inr h
  · rintro (⟨k, hk, hfield, hop⟩ | h)
    · exact .inl ⟨⟨k, hk, hfield⟩, k, hk, hfield, hop⟩
    · exact .inr h

theorem mem_fieldKeys_registration {original : List FilterClause} {f : String} :
    f ∈ (key.registration original).fieldKeys ↔
      (∃ k ∈ key.filterClauses, k.field = f) ∨ f ∈ leafFieldsOfEach original := by
  simp [UnifiedKey.registration, EntryRegistration.of]

/-- **A resident is affected exactly when it is reached.** -/
theorem mem_affectedIds_iff_reached (h : c.entries.lookup key = some entry) :
    entry.metaId ∈ c.affectedIds inserts removes ↔ Reached inserts removes key entry := by
  have hreg := c.registered key entry h
  have hmatches : ∀ f, c.idMatches f entry.metaId = fallbackMatches key.filterClauses f := by
    intro f
    rw [idMatches, c.id_to_key key entry h]
  rw [mem_affectedIds, mem_eqIds, ← exists_or]
  refine exists_congr fun g => ?_
  rw [← and_or_left]
  refine and_congr_right fun _ => ?_
  rw [MetaIndex.mem_entriesForClause hreg, MetaIndex.mem_entriesForFilterField hreg,
    mem_fieldKeys_registration, hmatches, fallbackMatches_iff]
  refine or_congr_right ?_
  constructor
  · rintro ⟨hmention, hnonEq | hnone⟩
    · exact .inl hnonEq
    · rcases hmention with ⟨k, hk, hkf⟩ | hleaf
      · exact absurd hkf (hnone k hk)
      · exact .inr ⟨hleaf, hnone⟩
  · rintro (⟨k, hk, hkf, hop⟩ | ⟨hleaf, hnone⟩)
    · exact ⟨.inl ⟨k, hk, hkf⟩, .inl ⟨k, hk, hkf, hop⟩⟩
    · exact ⟨.inr hleaf, .inr hnone⟩

/-! ## What is collected -/

theorem mem_watchedSlots {x : UInt32} : x ∈ watchedSlots inserts removes key entry ↔
      ∃ f ∈ watchedFields key entry, x ∈ (changedSlotsPerField inserts removes).ids f := by
  rw [watchedSlots, mem_foldl_union]
  simp

/-- The work item of an id on the slots that are its entry's. -/
def residentItem (c : UnifiedCache) (slots : UnifiedKey → UnifiedEntry → Bitmap) (id : CacheEntryId) :
    Option CacheMaintenanceItem :=
  match c.metaIdToKey.lookup id with
  | none => none
  | some key =>
    match c.entries.lookup key with
    | none => none
    | some entry =>
      if entry.needsRebuild then none
      else if slots key entry = ∅ then none
      else some (workItem key entry (slots key entry))

/-- The work items are those of the unflagged residents with something to look at. -/
theorem residentItem_eq_some {item : CacheMaintenanceItem} : c.residentItem slots id = some item ↔
      ∃ key entry, c.entries.lookup key = some entry ∧ entry.metaId = id ∧ entry.needsRebuild = false ∧
        slots key entry ≠ ∅ ∧ item = workItem key entry (slots key entry) := by
  unfold residentItem
  constructor
  · intro h
    cases hkey : c.metaIdToKey.lookup id with
    | none => simp [hkey] at h
    | some key =>
      obtain ⟨entry, hentry, hid⟩ := c.key_to_id id key hkey
      simp only [hkey, hentry] at h
      split at h
      · cases h
      · next hflag =>
        split at h
        · cases h
        · next hslots =>
          exact ⟨key, entry, hentry, hid, by simpa using hflag, hslots, (Option.some.inj h).symm⟩
  · rintro ⟨key, entry, hentry, rfl, hflag, hslots, rfl⟩
    simp [c.id_to_key key entry hentry, hentry, hflag, hslots]

/-- What is returned for the affected ids: work items of their entries or keys over budget, one of them for every
unflagged entry with something to look at. -/
structure Collects (c : UnifiedCache) (affected : Finset CacheEntryId) (slots : UnifiedKey → UnifiedEntry → Bitmap)
    (work : List CacheMaintenanceItem × List UnifiedKey) : Prop where
  item : ∀ item ∈ work.1, ∀ e, c.entries.lookup item.key = some e →
    e.needsRebuild = false ∧ e.metaId ∈ affected ∧ item = workItem item.key e (slots item.key e)
  skipped : ∀ key ∈ work.2, ∀ e, c.entries.lookup key = some e → e.metaId ∈ affected
  complete : ∀ key e, c.entries.lookup key = some e → e.needsRebuild = false → slots key e ≠ ∅ →
    e.metaId ∈ affected → key ∈ work.2 ∨ workItem key e (slots key e) ∈ work.1

theorem collects_nil (h : ∀ key e, c.entries.lookup key = some e → e.metaId ∈ affected → slots key e = ∅) :
    c.Collects affected slots ([], []) where
  item _ hitem := nomatch hitem
  skipped _ hkey := nomatch hkey
  complete key e he _ hslots haff := absurd (h key e he haff) hslots

theorem collects_affected (skip : Bool) :
    c.Collects affected slots (if skip then ([], (enumerate (· ≤ ·) affected).filterMap c.metaIdToKey.lookup)
      else ((enumerate (· ≤ ·) affected).filterMap (c.residentItem slots), [])) := by
  cases skip with
  | true =>
    refine ⟨fun _ hitem => (nomatch hitem), fun key hkey e he => ?_, fun key e he _ _ haff => .inl ?_⟩
    · obtain ⟨id, haff, hlookup⟩ := mem_filterMap.mp hkey
      obtain ⟨e', he', rfl⟩ := c.key_to_id id key hlookup
      rw [Option.some.inj (he.symm.trans he')]
      exact mem_enumerate.mp haff
    · exact mem_filterMap.mpr ⟨e.metaId, mem_enumerate.mpr haff, c.id_to_key key e he⟩
  | false =>
    refine ⟨fun item hitem e he => ?_, fun _ hkey => (nomatch hkey), fun key e he hflag hslots haff => .inr ?_⟩
    · obtain ⟨id, haff, hwork⟩ := mem_filterMap.mp hitem
      obtain ⟨key', e', he', rfl, hflag, -, hitem'⟩ := residentItem_eq_some.mp hwork
      obtain rfl : item.key = key' := by rw [hitem']; rfl
      cases he.symm.trans he'
      exact ⟨hflag, mem_enumerate.mp haff, hitem'⟩
    · exact mem_filterMap.mpr ⟨e.metaId, mem_enumerate.mpr haff,
        residentItem_eq_some.mpr ⟨key, e, he, rfl, hflag, hslots, rfl⟩⟩

/-- A cache without entries has no resident. -/
theorem lookup_ne_some (h : c.entries.entries = []) : c.entries.lookup key ≠ some entry := by
  intro he
  have hmem := AList.mem_lookup_iff.mp he
  rw [h] at hmem
  cases hmem

theorem collects_filterWork :
    c.Collects (c.affectedIds inserts removes) (watchedSlots inserts removes) (c.collectFilterWork inserts removes) := by
  unfold collectFilterWork
  split
  · next hnil => exact collects_nil fun key e he => absurd he (lookup_ne_some hnil)
  · dsimp only
    split
    · next hnil =>
      refine collects_nil fun key e _ _ => Finset.eq_empty_of_forall_notMem fun x hx => ?_
      obtain ⟨f, -, hf⟩ := mem_watchedSlots.mp hx
      rw [mem_ids_iff_entries, hnil] at hf
      obtain ⟨g, hg, -⟩ := hf
      cases hg
    · exact collects_affected _

/-! ## A changed result is due to a changed leaf field -/

theorem agreeAt_applyGroups {fi : FilterIndex} {slot : UInt32}
    (h : slot ∉ (changedSlotsPerField inserts removes).ids field) :
    fi.AgreeAt (fi.applyGroups inserts removes) field slot := by
  rw [mem_changedSlots, not_exists] at h
  exact fun key => (mem_bits_applyGroups_of_notMem (not_or.mp (h key)).1 (not_or.mp (h key)).2).symm

theorem exists_changed_of_differs [Host] {ex : QueryExecutor} {clauses : List FilterClause}
    {slot : UInt32} {v v' : Bool} (hbefore : ex.slotMatchesFilters slot clauses = .ok v)
    (hafter : { ex with filters := ex.filters.applyGroups inserts removes }.slotMatchesFilters slot
      clauses = .ok v') (hne : v ≠ v') :
    ∃ f ∈ leafFieldsOfEach clauses, slot ∈ (changedSlotsPerField inserts removes).ids f := by
  by_contra hnone
  push Not at hnone
  refine hne ?_
  rw [ex.slotMatchesFilters_ok hbefore, QueryExecutor.slotMatchesFilters_ok _ hafter, Bool.eq_iff_iff,
    all_eq_true, all_eq_true]
  refine forall₂_congr fun c hc => ?_
  have hsame : ex.holds c slot = { ex with filters := ex.filters.applyGroups inserts removes }.holds c slot :=
    QueryExecutor.holds_congr ⟨rfl, Iff.rfl⟩ fun f hf =>
      agreeAt_applyGroups (hnone f (mem_leafFieldsOfEach.mpr ⟨c, hc, hf⟩))
  rw [hsame]

/-- **Completeness.** For an unflagged resident whose filter result at a slot changes, being returned over budget or
with that slot is being reached. -/
theorem collectFilterWork_iff_reached [Host] (c : UnifiedCache) (ex : QueryExecutor)
    (inserts removes : Postings FilterGroupKey UInt32) (key : UnifiedKey) (entry : UnifiedEntry)
    (h : c.entries.lookup key = some entry) (hflag : entry.needsRebuild = false) (slot : UInt32)
    (v v' : Bool) (hbefore : ex.slotMatchesFilters slot entry.originalFilterClauses = .ok v)
    (hafter : { ex with filters := ex.filters.applyGroups inserts removes }.slotMatchesFilters slot
      entry.originalFilterClauses = .ok v') (hne : v ≠ v') :
    (key ∈ (c.collectFilterWork inserts removes).2 ∨
        ∃ item ∈ (c.collectFilterWork inserts removes).1, item.key = key ∧ slot ∈ item.slots) ↔
      Reached inserts removes key entry := by
  rw [← mem_affectedIds_iff_reached h]
  have hwork : c.Collects _ _ (c.collectFilterWork inserts removes) := collects_filterWork
  constructor
  · rintro (hover | ⟨item, hitem, rfl, -⟩)
    · exact hwork.skipped key hover entry h
    · exact (hwork.item item hitem entry h).2.1
  · intro haff
    obtain ⟨f, hf, hslot⟩ := exists_changed_of_differs hbefore hafter hne
    have hclauses : entry.originalFilterClauses ≠ [] := by
      intro hnil
      rw [hnil] at hf
      cases hf
    have hwatched : slot ∈ watchedSlots inserts removes key entry := by
      refine mem_watchedSlots.mpr ⟨f, ?_, hslot⟩
      rw [watchedFields, if_neg hclauses]
      exact hf
    refine (hwork.complete key entry h hflag (Finset.ne_empty_of_mem hwatched) haff).imp_right fun hitem =>
      ⟨_, hitem, rfl, ?_⟩
    simpa [workItem] using hwatched

/-! ## A boolean clause is not reached by its own writes -/

section

attribute [local instance] Host.ascii

/-- One alive slot and two empty filter fields. -/
def emptyFieldsSample : QueryExecutor where
  slots := ⟨1, .new {0}, []⟩
  filters := ⟨((∅ : HashMap String FilterField).insert "nsfw" (.new {})).insert "level" (.new {})⟩
  sorts := ⟨∅⟩
  maxPageSize := 100
  tables := .empty

/-- The groups of a batch that stores slot 0 under one key. -/
def storeZero (group : FilterGroupKey) : Postings FilterGroupKey UInt32 := add ∅ group {0}

/-- The executor after that batch. -/
def sampleAfter (group : FilterGroupKey) : QueryExecutor :=
  let filters := emptyFieldsSample.filters.applyGroups (storeZero group) ∅
  { emptyFieldsSample with filters := filters }

/-- The key of a query with one clause. -/
def sampleKey (clause : FilterClause) : UnifiedKey := ⟨canonicalize [clause], "score", .desc⟩

/-- A cache with the entry of that query, formed while nothing matched. -/
def sampleCache (clause : FilterClause) : UnifiedCache :=
  (new {}).formAndStoreWithClauses (sampleKey clause) [] false 0 [clause] (fun _ => 0) []

theorem lookup_sampleCache (clause : FilterClause) : (sampleCache clause).entries.lookup (sampleKey clause) =
      some ((new {}).formEntry (sampleKey clause) [] false 0 [clause] fun _ => 0) := by
  rw [sampleCache, lookup_formAndStore, if_pos rfl]

/-- Slot 0 enters `nsfw = true`: the entry of that clause is not returned, since its key says `true` where the group
says `1`. -/
theorem collectFilterWork_misses_bool : ∃ entry, (sampleCache (.eq "nsfw" (.bool true))).entries.lookup
        (sampleKey (.eq "nsfw" (.bool true))) = some entry ∧ entry.needsRebuild = false ∧
      emptyFieldsSample.slotMatchesFilters 0 entry.originalFilterClauses = .ok false ∧
      (sampleAfter ⟨"nsfw", 1⟩).slotMatchesFilters 0 entry.originalFilterClauses = .ok true ∧
      (sampleCache (.eq "nsfw" (.bool true))).collectFilterWork (storeZero ⟨"nsfw", 1⟩) ∅ = ([], []) := by
  refine ⟨_, lookup_sampleCache _, rfl, ?_, ?_, ?_⟩
  · decide +kernel
  · decide +kernel
  · refine Prod.ext (isEmpty_iff.mp ?_) (isEmpty_iff.mp ?_) <;> decide +kernel

/-- With an integer the texts agree, and slot 0 is collected. -/
theorem collectFilterWork_iff_reached_integer : ∃ entry, (sampleCache (.eq "level" (.integer 5))).entries.lookup
        (sampleKey (.eq "level" (.integer 5))) = some entry ∧ entry.needsRebuild = false ∧
      emptyFieldsSample.slotMatchesFilters 0 entry.originalFilterClauses = .ok false ∧
      (sampleAfter ⟨"level", 5⟩).slotMatchesFilters 0 entry.originalFilterClauses = .ok true ∧
      (sampleKey (.eq "level" (.integer 5)) ∈
          ((sampleCache (.eq "level" (.integer 5))).collectFilterWork (storeZero ⟨"level", 5⟩) ∅).2 ∨ ∃ item ∈
            ((sampleCache (.eq "level" (.integer 5))).collectFilterWork (storeZero ⟨"level", 5⟩) ∅).1,
          item.key = sampleKey (.eq "level" (.integer 5)) ∧ 0 ∈ item.slots) := by
  have hbefore : emptyFieldsSample.slotMatchesFilters 0
      ((new {}).formEntry (sampleKey (.eq "level" (.integer 5))) [] false 0
        [.eq "level" (.integer 5)] fun _ => 0).originalFilterClauses = .ok false := by decide +kernel
  have hafter : (sampleAfter ⟨"level", 5⟩).slotMatchesFilters 0
      ((new {}).formEntry (sampleKey (.eq "level" (.integer 5))) [] false 0
        [.eq "level" (.integer 5)] fun _ => 0).originalFilterClauses = .ok true := by decide +kernel
  refine ⟨_, lookup_sampleCache _, rfl, hbefore, hafter, ?_⟩
  refine (collectFilterWork_iff_reached _ emptyFieldsSample _ _ _ _ (lookup_sampleCache _) rfl 0 false
    true hbefore hafter (by decide)).mpr ⟨⟨"level", 5⟩, ?_, .inl ?_⟩
  · decide +kernel
  · decide +kernel

end

end UnifiedCache

end Bitdex
