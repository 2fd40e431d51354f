import Bitdex.Cache.Entry

/-!
# `Cache.Store` — the cache as a whole

`UnifiedCache` (`unified_cache.rs`) maps keys to entries and keeps the meta-index and `meta_id_to_key` in step with
that map. Maintenance finds an entry only through them, so what every reachable cache satisfies is a field of the
structure: ids and keys of resident entries lead to each other, and an entry is registered with the clauses of its key
and its own clause tree.

The store on disk is left out. Which keys a full cache evicts, a sampled clock in the source, is a parameter.
-/

namespace Bitdex

open AList Option

/-! ## Clause costs -/

mutual

/-- The cost class of a clause, 1 to 5. -/
def clauseAtomCost : FilterClause → Nat
  | .eq _ _ | .isNull _ | .isNotNull _ | .bucketBitmap _ _ _ => 1
  | .notEq _ _ | .gt _ _ | .gte _ _ | .lt _ _ | .lte _ _ => 2
  | .isIn _ _ | .notIn _ _ => 3
  | .and parts | .or parts => max (maxAtomCost parts) 4
  | .not (.and _) | .not (.or _) => 5
  | .not other => clauseAtomCost other

/-- The largest cost of some clauses, 1 if there is none. -/
def maxAtomCost : List FilterClause → Nat
  | [] => 1
  | c :: cs => max (clauseAtomCost c) (maxAtomCost cs)

end

/-- Clauses in evaluation order: a stable sort by cost. -/
def sortByAtomCost (clauses : List FilterClause) : List FilterClause :=
  clauses.insertionSort fun a b => clauseAtomCost a ≤ clauseAtomCost b

/-! ## The cache -/

/-- How an entry is registered: with the canonical clauses and the sort of its key, and its clause tree. -/
def UnifiedKey.registration (key : UnifiedKey) (originalFilterClauses : List FilterClause) :
    EntryRegistration :=
  .of key.filterClauses (some originalFilterClauses) (some ⟨key.sortField, key.direction⟩)

/-- Entries by key, and how to find them. -/
structure UnifiedCache where
  entries : HashMap UnifiedKey UnifiedEntry
  metaIdToKey : HashMap CacheEntryId UnifiedKey
  metaIndex : MetaIndex
  config : UnifiedCacheConfig
  id_to_key : ∀ key entry, entries.lookup key = some entry →
    metaIdToKey.lookup entry.metaId = some key
  key_to_id : ∀ id key, metaIdToKey.lookup id = some key →
    ∃ entry, entries.lookup key = some entry ∧ entry.metaId = id
  registered : ∀ key entry, entries.lookup key = some entry →
    metaIndex.registrations.lookup entry.metaId = some (key.registration entry.originalFilterClauses)

namespace UnifiedCache

def new (config : UnifiedCacheConfig) : UnifiedCache where
  entries := ∅
  metaIdToKey := ∅
  metaIndex := .new
  config := config
  id_to_key := by simp
  key_to_id := by simp
  registered := by simp

variable (c : UnifiedCache)

/-- Residents with one id have one key. -/
theorem key_unique {key key' : UnifiedKey} {e e' : UnifiedEntry}
    (h : c.entries.lookup key = some e) (h' : c.entries.lookup key' = some e')
    (hid : e.metaId = e'.metaId) : key = key' := by
  have h₁ := c.id_to_key key e h
  rw [hid, c.id_to_key key' e' h'] at h₁
  exact (some.inj h₁).symm

/-- Change an entry in place, keeping its id and its clauses. -/
def modify (key : UnifiedKey) (f : UnifiedEntry → UnifiedEntry)
    (hid : ∀ e, (f e).metaId = e.metaId)
    (horig : ∀ e, (f e).originalFilterClauses = e.originalFilterClauses) : UnifiedCache :=
  match h : c.entries.lookup key with
  | none => c
  | some entry =>
    { c with
      entries := c.entries.insert key (f entry)
      id_to_key := by
        intro key' e' h'
        rcases lookup_insert_eq_some.mp h' with ⟨rfl, rfl⟩ | ⟨-, h'⟩
        · rw [hid]
          exact c.id_to_key key' entry h
        · exact c.id_to_key key' e' h'
      key_to_id := by
        intro id key' h'
        obtain ⟨e', he', hid'⟩ := c.key_to_id id key' h'
        by_cases hk : key' = key
        · subst hk
          rw [h, some.injEq] at he'
          exact ⟨f entry, lookup_insert _, by rw [hid, he', hid']⟩
        · exact ⟨e', by rw [lookup_insert_ne hk]; exact he', hid'⟩
      registered := by
        intro key' e' h'
        rcases lookup_insert_eq_some.mp h' with ⟨rfl, rfl⟩ | ⟨-, h'⟩
        · rw [hid, horig]
          exact c.registered key' entry h
        · exact c.registered key' e' h' }

/-- Take an entry out of the cache and out of both reverse structures. -/
def remove (key : UnifiedKey) : UnifiedCache :=
  match h : c.entries.lookup key with
  | none => c
  | some old =>
    { entries := c.entries.erase key
      metaIdToKey := c.metaIdToKey.erase old.metaId
      metaIndex := c.metaIndex.deregister old.metaId
      config := c.config
      id_to_key := by
        intro key' e' h'
        obtain ⟨hk, h'⟩ := lookup_erase_eq_some.mp h'
        have hne : e'.metaId ≠ old.metaId := fun hid => hk (c.key_unique h' h hid)
        exact lookup_erase_eq_some.mpr ⟨hne, c.id_to_key key' e' h'⟩
      key_to_id := by
        intro id key' h'
        obtain ⟨hne, h'⟩ := lookup_erase_eq_some.mp h'
        obtain ⟨e', he', hid'⟩ := c.key_to_id id key' h'
        have hk : key' ≠ key := by
          rintro rfl
          rw [h, some.injEq] at he'
          exact hne (by rw [← hid', he'])
        exact ⟨e', lookup_erase_eq_some.mpr ⟨hk, he'⟩, hid'⟩
      registered := by
        intro key' e' h'
        obtain ⟨hk, h'⟩ := lookup_erase_eq_some.mp h'
        have hne : e'.metaId ≠ old.metaId := fun hid => hk (c.key_unique h' h hid)
        rw [MetaIndex.lookup_deregister_ne hne]
        exact c.registered key' e' h' }

/-- Remove entries one after the other, as eviction does. -/
def removeAll (keys : List UnifiedKey) : UnifiedCache := keys.foldl remove c

variable {c} {key key' : UnifiedKey}

theorem lookup_modify {f : UnifiedEntry → UnifiedEntry} {hid horig} : (c.modify key f hid horig).entries.lookup key' =
      if key' = key then (c.entries.lookup key).map f else c.entries.lookup key' := by
  unfold modify
  split
  · next h =>
    by_cases hk : key' = key
    · subst hk
      simp [h]
    · simp [hk]
  · next e h => simp [h, lookup_insert_eq_ite]

@[simp] theorem config_modify {f : UnifiedEntry → UnifiedEntry} {hid horig} :
    (c.modify key f hid horig).config = c.config := by
  unfold modify
  split <;> rfl

theorem lookup_remove : (c.remove key).entries.lookup key' = if key' = key then none else c.entries.lookup key' := by
  unfold remove
  split
  · next h =>
    by_cases hk : key' = key
    · subst hk
      simp [h]
    · simp [hk]
  · exact lookup_erase_eq_ite

theorem config_remove : (c.remove key).config = c.config := by
  unfold remove
  split <;> rfl

theorem config_removeAll (c : UnifiedCache) (keys : List UnifiedKey) : (c.removeAll keys).config = c.config :=
  foldl_view config (by intros; exact config_remove) c

theorem lookup_removeAll (c : UnifiedCache) (keys : List UnifiedKey) (key' : UnifiedKey) :
    (c.removeAll keys).entries.lookup key' = if key' ∈ keys then none else c.entries.lookup key' := by
  induction keys generalizing c with
  | nil => simp [removeAll]
  | cons k keys ih =>
    rw [removeAll, List.foldl_cons, ← removeAll, ih, lookup_remove]
    by_cases hk : key' = k
    · simp [hk]
    · simp [hk]

/-! ## Storing a new entry -/

/-- The id is registered but belongs to no resident yet. -/
structure Reserved (c : UnifiedCache) (id : CacheEntryId) (reg : EntryRegistration) : Prop where
  lookup_eq : c.metaIndex.registrations.lookup id = some reg
  not_resident : ∀ key e, c.entries.lookup key = some e → e.metaId ≠ id

theorem Reserved.remove {id : CacheEntryId} {reg : EntryRegistration} (h : c.Reserved id reg)
    (key : UnifiedKey) : (c.remove key).Reserved id reg := by
  unfold UnifiedCache.remove
  split
  · exact h
  · next old hold =>
    refine ⟨?_, ?_⟩
    · rw [MetaIndex.lookup_deregister_ne (h.not_resident key old hold).symm]
      exact h.lookup_eq
    · exact fun key' e he => h.not_resident key' e (lookup_erase_eq_some.mp he).2

theorem Reserved.removeAll {id : CacheEntryId} {reg : EntryRegistration} (h : c.Reserved id reg)
    (keys : List UnifiedKey) : (c.removeAll keys).Reserved id reg := by
  induction keys generalizing c with
  | nil => exact h
  | cons k keys ih => exact ih (h.remove k)

variable (c)

/-- Register with the meta-index; the entry is stored later. -/
def register (reg : EntryRegistration) : UnifiedCache :=
  { c with
    metaIndex := (c.metaIndex.register reg).2
    registered := by
      intro key e he
      have hreg := c.registered key e he
      have hne : e.metaId ≠ (c.metaIndex.register reg).1 := by
        intro hid
        refine c.metaIndex.register_fresh reg ?_
        rw [← hid]
        exact lookup_isSome.mp (by rw [hreg]; rfl)
      rw [MetaIndex.registrations_register, lookup_insert_ne hne]
      exact hreg }

theorem reserved_register (reg : EntryRegistration) : (c.register reg).Reserved (c.metaIndex.register reg).1 reg := by
  refine ⟨?_, ?_⟩
  · show (c.metaIndex.register reg).2.registrations.lookup _ = _
    rw [MetaIndex.registrations_register, lookup_insert]
  · intro key e he hid
    refine c.metaIndex.register_fresh reg ?_
    rw [← hid]
    exact lookup_isSome.mp (by rw [c.registered key e he]; rfl)

/-- Make an entry with a reserved id resident under a key that has none. -/
def insertReserved (key : UnifiedKey) (entry : UnifiedEntry) (hkey : c.entries.lookup key = none)
    (h : c.Reserved entry.metaId (key.registration entry.originalFilterClauses)) : UnifiedCache :=
  { c with
    entries := c.entries.insert key entry
    metaIdToKey := c.metaIdToKey.insert entry.metaId key
    id_to_key := by
      intro key' e' h'
      rcases lookup_insert_eq_some.mp h' with ⟨rfl, rfl⟩ | ⟨-, h'⟩
      · exact lookup_insert _
      · rw [lookup_insert_ne (h.not_resident key' e' h')]
        exact c.id_to_key key' e' h'
    key_to_id := by
      intro id key' h'
      rcases lookup_insert_eq_some.mp h' with ⟨rfl, rfl⟩ | ⟨-, h'⟩
      · exact ⟨entry, lookup_insert _, rfl⟩
      · obtain ⟨e', he', hid'⟩ := c.key_to_id id key' h'
        have hk : key' ≠ key := by
          rintro rfl
          rw [hkey] at he'
          cases he'
        exact ⟨e', lookup_insert_eq_some.mpr (.inr ⟨hk, he'⟩), hid'⟩
    registered := by
      intro key' e' h'
      rcases lookup_insert_eq_some.mp h' with ⟨rfl, rfl⟩ | ⟨-, h'⟩
      · exact h.lookup_eq
      · exact c.registered key' e' h' }

/-- The entry that `form_and_store_with_clauses` builds. -/
def formEntry (key : UnifiedKey) (sortedSlots : List UInt32) (hasMore : Bool) (totalMatched : Nat)
    (originalFilterClauses : List FilterClause) (valueFn : UInt32 → Nat) : UnifiedEntry :=
  let original := sortByAtomCost originalFilterClauses
  .newWithClauses sortedSlots c.config.initialCapacity c.config.maxCapacity hasMore totalMatched
    (c.metaIndex.register (key.registration original)).1 key.direction original valueFn

/-- Register a new entry, replace the one under its key, evict what the budget asks for and store the
entry. -/
def formAndStoreWithClauses (key : UnifiedKey) (sortedSlots : List UInt32) (hasMore : Bool)
    (totalMatched : Nat) (originalFilterClauses : List FilterClause) (valueFn : UInt32 → Nat)
    (evicted : List UnifiedKey) : UnifiedCache :=
  let reg := key.registration (sortByAtomCost originalFilterClauses)
  ((c.register reg).removeAll (key :: evicted)).insertReserved key
    (c.formEntry key sortedSlots hasMore totalMatched originalFilterClauses valueFn)
    (by rw [lookup_removeAll]; simp)
    ((c.reserved_register reg).removeAll _)

variable {c} {sortedSlots : List UInt32} {hasMore : Bool} {totalMatched : Nat} {original : List FilterClause}
  {valueFn : UInt32 → Nat} {evicted : List UnifiedKey}

theorem lookup_formAndStore : (c.formAndStoreWithClauses key sortedSlots hasMore totalMatched original valueFn
        evicted).entries.lookup key' =
      if key' = key then some (c.formEntry key sortedSlots hasMore totalMatched original valueFn)
      else if key' ∈ evicted then none else c.entries.lookup key' := by
  show lookup key' (insert key _ _) = _
  by_cases hk : key' = key
  · subst hk
    rw [lookup_insert, if_pos rfl]
  · rw [lookup_insert_ne hk]
    have hremoved := lookup_removeAll (c.register (key.registration (sortByAtomCost original)))
      (key :: evicted) key'
    rw [hremoved]
    simp [hk, register]

/-- An entry after a store is the new one, or it was there before. -/
theorem lookup_formAndStore_some {e : UnifiedEntry}
    (h : (c.formAndStoreWithClauses key sortedSlots hasMore totalMatched original valueFn
      evicted).entries.lookup key' = some e) :
    (key' = key ∧ e = c.formEntry key sortedSlots hasMore totalMatched original valueFn) ∨
      (key' ≠ key ∧ c.entries.lookup key' = some e) := by
  rw [lookup_formAndStore] at h
  split at h
  · next hk => exact .inl ⟨hk, (some.inj h).symm⟩
  · next hk =>
    split at h
    · cases h
    · exact .inr ⟨hk, h⟩

@[simp] theorem config_formAndStore : (c.formAndStoreWithClauses key sortedSlots hasMore totalMatched original valueFn
        evicted).config = c.config :=
  config_removeAll _ _

end UnifiedCache

end Bitdex
