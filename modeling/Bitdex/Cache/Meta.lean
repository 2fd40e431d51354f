import Bitdex.Library.Postings
import Bitdex.Cache.Key

/-!
# `Cache.Meta` — which cache entries mention which fields

The meta-index (`meta_index.rs`) files every cache entry under the clauses of its key, the fields it mentions and its
sort specification. A write asks it which entries may be affected. That an entry is filed under exactly what its
registration lists, and that no live id is handed out twice, are fields of `MetaIndex`.
-/

namespace Bitdex

open List AList

/-! ## Leaf fields -/

mutual

/-- The field names of the leaves of a clause; the source collects them into a set. -/
def collectLeafFields : FilterClause → List String
  | .eq f _ | .notEq f _ | .isIn f _ | .notIn f _ | .gt f _ | .gte f _ | .lt f _ | .lte f _
  | .isNull f | .isNotNull f | .bucketBitmap f _ _ => [f]
  | .not inner => collectLeafFields inner
  | .and parts | .or parts => leafFieldsOfEach parts

/-- The leaf fields of some clauses. -/
def leafFieldsOfEach : List FilterClause → List String
  | [] => []
  | c :: cs => collectLeafFields c ++ leafFieldsOfEach cs

end

theorem mem_leafFieldsOfEach {cs : List FilterClause} {f : String} :
    f ∈ leafFieldsOfEach cs ↔ ∃ c ∈ cs, f ∈ collectLeafFields c := by
  induction cs with
  | nil => simp [leafFieldsOfEach]
  | cons c cs ih => simp [leafFieldsOfEach, ih]

/-! ## The index -/

/-- The number of an entry. -/
abbrev CacheEntryId := Nat

/-- A sort specification. -/
structure SortKey where
  field : String
  direction : SortDirection
deriving DecidableEq, Repr

/-- What an entry is filed under, kept for its deregistration. -/
structure EntryRegistration where
  clauseKeys : List CanonicalClause
  fieldKeys : List String
  sortKey : Option SortKey
deriving DecidableEq

/-- The registration of an entry: its canonical clauses, their fields and the leaf fields of its tree, and its sort.
-/
def EntryRegistration.of (filterClauses : List CanonicalClause)
    (originalFilterClauses : Option (List FilterClause)) (sortKey : Option SortKey) :
    EntryRegistration where
  clauseKeys := filterClauses
  fieldKeys := (filterClauses.map (·.field) ++
    leafFieldsOfEach (originalFilterClauses.getD [])).dedup
  sortKey := sortKey

/-- Cache entry ids, filed by clause, field and sort. Ids of deregistered entries are handed out again. -/
structure MetaIndex where
  nextId : CacheEntryId
  freeIds : List CacheEntryId
  clauseBitmaps : Postings CanonicalClause CacheEntryId
  fieldBitmaps : Postings String CacheEntryId
  sortBitmaps : Postings SortKey CacheEntryId
  registrations : HashMap CacheEntryId EntryRegistration
  clause_filed : Postings.Filed EntryRegistration.clauseKeys clauseBitmaps registrations
  field_filed : Postings.Filed EntryRegistration.fieldKeys fieldBitmaps registrations
  sort_filed : Postings.Filed (fun r => r.sortKey.toList) sortBitmaps registrations
  registered_lt : ∀ id ∈ registrations, id < nextId
  free_lt : ∀ id ∈ freeIds, id < nextId
  free_unregistered : ∀ id ∈ freeIds, id ∉ registrations
  free_nodup : freeIds.Nodup

namespace MetaIndex

/-- Nothing is registered. -/
def new : MetaIndex where
  nextId := 0
  freeIds := []
  clauseBitmaps := ∅
  fieldBitmaps := ∅
  sortBitmaps := ∅
  registrations := ∅
  clause_filed := Postings.filed_empty
  field_filed := Postings.filed_empty
  sort_filed := Postings.filed_empty
  registered_lt := by simp
  free_lt := by simp
  free_unregistered := by simp
  free_nodup := nodup_nil

variable (m : MetaIndex)

/-- File a registration under an id that is neither registered nor free afterwards. -/
def file (id : CacheEntryId) (reg : EntryRegistration) (nextId : CacheEntryId)
    (freeIds : List CacheEntryId) (hid : id ∉ m.registrations) (hlt : id < nextId)
    (hle : m.nextId ≤ nextId) (hfree : ∀ i ∈ freeIds, i ∈ m.freeIds) (hnodup : (id :: freeIds).Nodup) :
    MetaIndex where
  nextId := nextId
  freeIds := freeIds
  clauseBitmaps := m.clauseBitmaps.addAll (reg.clauseKeys.map fun k => (k, {id}))
  fieldBitmaps := m.fieldBitmaps.addAll (reg.fieldKeys.map fun k => (k, {id}))
  sortBitmaps := m.sortBitmaps.addAll (reg.sortKey.toList.map fun k => (k, {id}))
  registrations := m.registrations.insert id reg
  clause_filed := m.clause_filed.insert hid reg
  field_filed := m.field_filed.insert hid reg
  sort_filed := m.sort_filed.insert hid reg
  registered_lt := by
    intro i hi
    rcases mem_insert _ |>.mp hi with rfl | hi
    · exact hlt
    · exact lt_of_lt_of_le (m.registered_lt i hi) hle
  free_lt := fun i hi => lt_of_lt_of_le (m.free_lt i (hfree i hi)) hle
  free_unregistered := by
    intro i hi hmem
    rcases mem_insert _ |>.mp hmem with rfl | hmem
    · exact (nodup_cons.mp hnodup).1 hi
    · exact m.free_unregistered i (hfree i hi) hmem
  free_nodup := (nodup_cons.mp hnodup).2

/-- Allocate an id, a free one if there is one, and file the entry under it. -/
def register (reg : EntryRegistration) : CacheEntryId × MetaIndex :=
  match h : m.freeIds with
  | id :: rest =>
    (id, m.file id reg m.nextId rest
      (m.free_unregistered id (h ▸ mem_cons_self)) (m.free_lt id (h ▸ mem_cons_self))
      le_rfl (fun _ hi => h ▸ mem_cons_of_mem id hi) (h ▸ m.free_nodup))
  | [] =>
    (m.nextId, m.file m.nextId reg (m.nextId + 1) []
      (fun hmem => (m.registered_lt _ hmem).false) (Nat.lt_succ_self _) (Nat.le_succ _)
      (by simp) (nodup_singleton _))

/-- Withdraw an entry and free its id; an unknown id is ignored. -/
def deregister (id : CacheEntryId) : MetaIndex :=
  match h : m.registrations.lookup id with
  | none => m
  | some reg =>
    { nextId := m.nextId
      freeIds := id :: m.freeIds
      clauseBitmaps := m.clauseBitmaps.discardAll reg.clauseKeys id
      fieldBitmaps := m.fieldBitmaps.discardAll reg.fieldKeys id
      sortBitmaps := m.sortBitmaps.discardAll reg.sortKey.toList id
      registrations := m.registrations.erase id
      clause_filed := m.clause_filed.erase h
      field_filed := m.field_filed.erase h
      sort_filed := m.sort_filed.erase h
      registered_lt := fun i hi => m.registered_lt i (mem_erase.mp hi).2
      free_lt := by
        intro i hi
        rcases mem_cons.mp hi with rfl | hi
        · exact m.registered_lt i (lookup_isSome.mp (by rw [h]; rfl))
        · exact m.free_lt i hi
      free_unregistered := by
        intro i hi hmem
        rcases mem_cons.mp hi with rfl | hi
        · exact (mem_erase.mp hmem).1 rfl
        · exact m.free_unregistered i hi (mem_erase.mp hmem).2
      free_nodup := by
        refine nodup_cons.mpr ⟨fun hi => ?_, m.free_nodup⟩
        exact m.free_unregistered id hi (lookup_isSome.mp (by rw [h]; rfl)) }

/-- The ids filed under a clause. -/
def entriesForClause (field op valueRepr : String) : Finset CacheEntryId := m.clauseBitmaps.ids ⟨field, op, valueRepr⟩

/-- The ids of the entries that mention a filter field. -/
def entriesForFilterField (field : String) : Finset CacheEntryId := m.fieldBitmaps.ids field

/-- The ids of the entries that sort by a field, in either direction. -/
def entriesForSortField (field : String) : Finset CacheEntryId :=
  m.sortBitmaps.ids ⟨field, .asc⟩ ∪ m.sortBitmaps.ids ⟨field, .desc⟩

/-! ## What a registration changes -/

variable {m} {reg : EntryRegistration} {id : CacheEntryId}

/-- The id handed out was not in use. -/
theorem register_fresh (m : MetaIndex) (reg : EntryRegistration) : (m.register reg).1 ∉ m.registrations := by
  unfold register
  split
  · next id rest h => exact m.free_unregistered id (h ▸ mem_cons_self)
  · exact fun hmem => (m.registered_lt _ hmem).false

theorem registrations_register : (m.register reg).2.registrations = m.registrations.insert (m.register reg).1 reg := by
  unfold register
  split <;> rfl

theorem lookup_deregister_ne {i : CacheEntryId} (hi : i ≠ id) :
    (m.deregister id).registrations.lookup i = m.registrations.lookup i := by
  unfold deregister
  split
  · rfl
  · exact lookup_erase_ne hi

theorem mem_entriesForClause {field op valueRepr : String} (h : m.registrations.lookup id = some reg) :
    id ∈ m.entriesForClause field op valueRepr ↔ ⟨field, op, valueRepr⟩ ∈ reg.clauseKeys := by
  rw [entriesForClause, m.clause_filed, h]
  simp

theorem mem_entriesForFilterField {field : String} (h : m.registrations.lookup id = some reg) :
    id ∈ m.entriesForFilterField field ↔ field ∈ reg.fieldKeys := by
  rw [entriesForFilterField, m.field_filed, h]
  simp

theorem mem_entriesForSortField {field : String} (h : m.registrations.lookup id = some reg) :
    id ∈ m.entriesForSortField field ↔ ∃ d, reg.sortKey = some ⟨field, d⟩ := by
  rw [entriesForSortField, Finset.mem_union, m.sort_filed, m.sort_filed, h]
  constructor
  · simp only [Option.some.injEq, Option.mem_toList, exists_eq_left']
    rintro (hd | hd)
    · exact ⟨_, hd⟩
    · exact ⟨_, hd⟩
  · rintro ⟨_ | _, hd⟩
    · exact .inl ⟨reg, rfl, by simp [hd]⟩
    · exact .inr ⟨reg, rfl, by simp [hd]⟩

end MetaIndex

end Bitdex
