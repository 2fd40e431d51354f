import Bitdex.Buckets.Live

/-!
# `Engine.Unloaded` — cached entries that are only on disk

A registered entry need not be in memory: its shard waits to be loaded, or it was evicted. It cannot be maintained, so
a change that affects it has to tombstone it, and `meta.bin` has to keep what a restore reads. A worker that drops its
backlog (`cache_worker.rs`) tombstones nothing, and flags only entries whose keys name a changed field. The merge
thread writes `meta.bin` from the entries in memory, so all others are gone from it.
-/

namespace Bitdex

open UnifiedCache FlushThread WriteBatch List

/-! ## A dropped backlog -/

/-- A clause on a time bucket; the clause of a prefilter has the same op. -/
def IsTimeBucketClause (k : CanonicalClause) : Prop := k.op = "bucket" ∧ k.field ≠ "__prefilter"

/-- An item changes a field that the entry mentions at some depth, its sort field, or its time bucket. -/
def Affects (items : List WriteBatch) (bucketSort : String) (reg : EntryRegistration) : Prop :=
  ∃ b ∈ items, (∃ g ∈ groupKeys b.filterInserts b.filterRemoves, g.field ∈ reg.fieldKeys) ∨
    (∃ s ∈ reg.sortKey, s.field ∈ b.mutatedSortSlots) ∨
    (∃ k ∈ reg.clauseKeys, IsTimeBucketClause k) ∧ b.bucketChangedSlots bucketSort ≠ ∅

/-- The thread with the tombstones of its cache. -/
structure PersistentThread where
  thread : FlushThread
  tombstoned : Finset CacheEntryId

namespace PersistentThread

variable (p : PersistentThread) (items : List WriteBatch) (bucketSort : String)

/-- The worker drops its backlog. -/
def dropBacklog : PersistentThread := { p with thread := { p.thread with cache := p.thread.invalidateAndDrop items } }

/-- Registered, but not in memory. -/
def Unloaded (id : CacheEntryId) (reg : EntryRegistration) : Prop :=
  p.thread.cache.metaIndex.registrations.lookup id = some reg ∧ p.thread.cache.metaIdToKey.lookup id = none

/-- In a later state the affected entries in memory are flagged or gone, the others tombstoned. -/
structure Handled (after : PersistentThread) : Prop where
  resident : ∀ key e, p.thread.cache.entries.lookup key = some e →
    Affects items bucketSort (key.registration e.originalFilterClauses) →
      ∀ e', after.thread.cache.entries.lookup key = some e' → e'.needsRebuild = true
  unloaded : ∀ id reg, p.Unloaded id reg → Affects items bucketSort reg → id ∈ after.tombstoned

variable {p items bucketSort}

/-- Everything but a field in a compound clause makes a dropped backlog flag the entry. -/
theorem invalidates_of_affects {key : UnifiedKey} {e : UnifiedEntry}
    (hleaf : ∀ b ∈ items, ∀ g ∈ groupKeys b.filterInserts b.filterRemoves,
      g.field ∈ leafFieldsOfEach e.originalFilterClauses → Invalidates items key)
    (h : Affects items bucketSort (key.registration e.originalFilterClauses)) : Invalidates items key := by
  obtain ⟨b, hb, ⟨g, hg, hfield⟩ | ⟨s, -, hs⟩ | ⟨-, hslots⟩⟩ := h
  · rcases mem_fieldKeys_registration.mp hfield with hk | hfield
    · exact .inr ⟨b, hb, g, hg, hk⟩
    · exact hleaf b hb g hg hfield
  · refine .inl ⟨b, hb, .inr (.inr fun hnil => ?_)⟩
    simp [AList.mem_keys, AList.keys, hnil] at hs
  · -- a bucket changes with alive bits or sort bits only
    obtain ⟨x, hx⟩ := Finset.nonempty_iff_ne_empty.mpr hslots
    rw [bucketChangedSlots, Finset.mem_union, Finset.mem_union] at hx
    refine .inl ⟨b, hb, ?_⟩
    rcases hx with (hx | hx) | hx
    · exact .inl (Finset.ne_empty_of_mem hx)
    · exact .inr (.inl (Finset.ne_empty_of_mem hx))
    · obtain ⟨entry, hentry, -⟩ := Postings.mem_ids_iff_entries.mp hx
      exact .inr (.inr (ne_nil_of_mem hentry))

/-- **A dropped backlog** is handled exactly if every entry in memory is flagged for the changed fields it mentions,
and what it affects on disk was tombstoned before. -/
theorem handled_dropBacklog_iff : p.Handled items bucketSort (p.dropBacklog items) ↔
      (∀ key e, p.thread.Resident key e → ∀ b ∈ items, ∀ g ∈ groupKeys b.filterInserts b.filterRemoves,
        g.field ∈ leafFieldsOfEach e.originalFilterClauses → Invalidates items key) ∧
      ∀ id reg, p.Unloaded id reg → Affects items bucketSort reg → id ∈ p.tombstoned := by
  constructor
  · refine fun h => ⟨fun key e hres b hb g hg hleaf => ?_, h.unloaded⟩
    by_contra hinv
    obtain ⟨hlookup, hflag⟩ := lookup_invalidateAndDrop.mpr ⟨hres, hinv⟩
    have haffects : Affects items bucketSort (key.registration e.originalFilterClauses) :=
      ⟨b, hb, .inl ⟨g, hg, mem_fieldKeys_registration.mpr (.inr hleaf)⟩⟩
    rw [h.resident key e hres.1 haffects e hlookup] at hflag
    cases hflag
  · refine fun h => ⟨fun key e he haffects e' he' => ?_, h.2⟩
    by_contra hflag
    obtain ⟨hres, hinv⟩ := lookup_invalidateAndDrop.mp ⟨he', Bool.not_eq_true _ ▸ hflag⟩
    obtain rfl : e' = e := Option.some.inj (hres.1.symm.trans he)
    exact hinv (invalidates_of_affects (h.1 key e' hres) haffects)

end PersistentThread

section Samples

attribute [local instance] Host.ascii

def nestedClauses : List FilterClause := [.or [.eq "a" (.integer 1)]]

def nestedKey : UnifiedKey := ⟨canonicalize nestedClauses, "v", .desc⟩

/-- An entry for a compound clause on `a`. -/
def nestedThread : FlushThread :=
  { FlushThread.initial twoMatchesState {} .empty with
    cache := (new {}).formAndStoreWithClauses nestedKey [1, 2] false 2 nestedClauses
      (twoMatches.sortValue "v") [] }

/-- Slot 3 gets the value 1 of `a`; the entry stays as it is, and unflagged. -/
theorem dropBacklog_misses_nested :
    ¬ PersistentThread.Handled ⟨nestedThread, ∅⟩ [.groupAndSort [.filterInsert "a" 1 [3]]] "v"
      (PersistentThread.dropBacklog ⟨nestedThread, ∅⟩ [.groupAndSort [.filterInsert "a" 1 [3]]]) := by
  intro h
  have hhit := h.resident nestedKey _ rfl
    ⟨_, mem_singleton_self _, .inl ⟨⟨"a", 1⟩, by decide, by decide⟩⟩ _ rfl
  revert hhit
  decide +kernel

end Samples

/-! ## Rewriting `meta.bin` -/

/-- What `meta.bin` says about an entry. -/
structure MetaEntry where
  entryId : CacheEntryId
  key : UnifiedKey
  capacity : Nat
  maxCapacity : Nat
  minTrackedValue : Nat
  totalMatched : Nat
  hasMore : Bool
  originalFilterClauses : List FilterClause

/-- The content of `meta.bin`. -/
structure MetaFile where
  entries : List MetaEntry
  tombstones : Finset CacheEntryId
  nextEntryId : CacheEntryId

/-- The record of an id; an entry that is not found gets the defaults. -/
def MetaEntry.of (id : CacheEntryId) (key : UnifiedKey) : Option UnifiedEntry → MetaEntry
  | some e => ⟨id, key, e.capacity % 2 ^ 32, e.maxCapacity % 2 ^ 32, e.minTrackedValue, e.totalMatched, e.hasMore,
      e.originalFilterClauses⟩
  | none => ⟨id, key, 4000, 64000, 0, 0, true, []⟩

namespace UnifiedCache

variable (c : UnifiedCache) (tombstoned : Finset CacheEntryId)

/-- What is written to `meta.bin`. -/
def metaEntries : List MetaEntry := c.metaIdToKey.entries.map fun s => .of s.1 s.2 (c.entries.lookup s.2)

/-- The file the merge thread writes: the live entries, and the tombstones of those that were left out. -/
def metaFile : MetaFile :=
  let compacted := c.metaEntries.filter (·.entryId ∉ tombstoned)
  { entries := compacted
    tombstones := tombstoned.filter fun id =>
      id ∈ c.metaEntries.map (·.entryId) ∧ id ∉ compacted.map (·.entryId)
    nextEntryId := c.metaIndex.nextId }

/-- What a restore needs of the entries that are only on disk is taken over from the old file. -/
def KeepsUnloaded (old new : MetaFile) : Prop :=
  ∀ m ∈ old.entries, c.metaIdToKey.lookup m.entryId = none → ∃ m' ∈ new.entries,
    m'.entryId = m.entryId ∧ m'.capacity = m.capacity ∧ m'.minTrackedValue = m.minTrackedValue ∧
      m'.hasMore = m.hasMore ∧ m'.totalMatched = m.totalMatched ∧
      m'.originalFilterClauses = m.originalFilterClauses

/-- **A rewrite** keeps no entry that is only on disk: there must be none. -/
theorem keepsUnloaded_metaFile_iff (old : MetaFile) :
    c.KeepsUnloaded old (c.metaFile tombstoned) ↔ ∀ m ∈ old.entries, m.entryId ∈ c.metaIdToKey := by
  constructor
  · intro h m hm
    by_contra hid
    obtain ⟨m', hm', heq, -⟩ := h m hm (AList.lookup_eq_none.mpr hid)
    obtain ⟨s, hs, rfl⟩ := mem_map.mp (mem_filter.mp hm').1
    have hentry : (MetaEntry.of s.1 s.2 (c.entries.lookup s.2)).entryId = s.1 := by
      cases c.entries.lookup s.2 <;> rfl
    rw [← heq, hentry] at hid
    exact hid (AList.mem_keys.mpr (mem_map_of_mem hs))
  · intro h m hm hnone
    exact absurd (h m hm) (AList.lookup_eq_none.mp hnone)

/-- After a restart nothing is in memory yet, and the next rewrite loses what the file had. -/
theorem metaFile_loses_unloaded :
    ¬ (new {}).KeepsUnloaded ⟨[⟨0, ⟨[], "v", .desc⟩, 4000, 64000, 1, 2, false, []⟩], ∅, 1⟩ ((new {}).metaFile ∅) := by
  intro h
  obtain ⟨m', hm', -⟩ := h _ (mem_singleton_self _) rfl
  cases hm'

end UnifiedCache

end Bitdex
