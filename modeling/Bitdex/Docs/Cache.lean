import Bitdex.Docs.Store

/-!
# `Docs.Cache` — documents read through the cache

`get_document` looks into the document cache and reads the shard of the slot on a miss (`concurrent_engine.rs`).
`get_documents` does so for a list of slots: it groups the positions of the misses by shard, reads every shard once
and puts the documents back at their positions. The cache is a map here: its generations (`doc_cache.rs`) decide only
what is evicted.
-/

namespace Bitdex

open List AList Option

/-- Cached documents by slot. -/
abbrev DocCache := HashMap UInt32 StoredDoc

/-- Put documents into the cache. -/
def DocCache.insertBatch (c : DocCache) (docs : List (UInt32 × StoredDoc)) : DocCache :=
  docs.foldl (fun c d => insert d.1 d.2 c) c

/-- The results of `get_documents` so far, and the documents that go into the cache. -/
structure Gathered where
  results : List (Option StoredDoc)
  seenForCache : Finset UInt32
  toCache : List (UInt32 × StoredDoc)

/-- What its shard has for a slot, at its position. A slot goes into the cache once. -/
def Gathered.put (g : Gathered) (slot : UInt32) (idx : Nat) (found : Option StoredDoc) : Gathered :=
  match found with
  | none => g
  | some doc =>
    { results := g.results.set idx (some doc)
      seenForCache := {slot} ∪ g.seenForCache
      toCache := if slot ∈ g.seenForCache then g.toCache else g.toCache ++ [(slot, doc)] }

namespace DocStoreV3

variable (s : DocStoreV3) (cache : Option DocCache) (slots : List UInt32)

/-- `get_shard`, with the documents by slot. -/
def getShard (shard : UInt32) : HashMap UInt32 StoredDoc :=
  (s.files.read shard).elim ∅ fun snap => snap.filterMap fun _ fields => some (s.fieldsToStoredDoc fields)

/-- `cache.get`, if there is a cache. -/
def cached (slot : UInt32) : Option StoredDoc := cache.bind (·.lookup slot)

/-- Read a document through the cache. -/
def getDocument (slot : UInt32) : Option StoredDoc × Option DocCache :=
  match cached cache slot with
  | some doc => (some doc, cache)
  | none =>
    match s.get slot with
    | some doc => (some doc, cache.map (·.insert slot doc))
    | none => (none, cache)

/-- `get_document` for one slot after the other. -/
def getEach : Option DocCache → List UInt32 → List (Option StoredDoc) × Option DocCache
  | cache, [] => ([], cache)
  | cache, slot :: slots =>
    let first := s.getDocument cache slot
    let rest := getEach first.2 slots
    (first.1 :: rest.1, rest.2)

/-- `slots[idx]`. -/
def slotAt (idx : Nat) : UInt32 := slots.getD idx 0

/-- The positions to read from disk. -/
def missIndices : List Nat := (range slots.length).filter fun idx => (cached cache (slotAt slots idx)).isNone

/-- `shard_groups`, without the slots of the positions. -/
def shardGroups : HashMap UInt32 (List Nat) :=
  groupBy (fun idx => slotToShard (slotAt slots idx)) (missIndices cache slots)

/-- Read the missing documents, shard by shard. -/
def gather : Gathered :=
  (shardGroups cache slots).entries.foldl (fun g e => e.2.foldl (fun g idx =>
      Gathered.put g (slotAt slots idx) idx ((s.getShard e.1).lookup (slotAt slots idx))) g)
    ⟨slots.map (cached cache), ∅, []⟩

/-- Read documents through the cache. -/
def getDocuments : List (Option StoredDoc) × Option DocCache :=
  ((s.gather cache slots).results, cache.map (DocCache.insertBatch · (s.gather cache slots).toCache))

/-- A slot is cached as before, or it was not and is cached now with the store's document. -/
def Fills (cache' : Option DocCache) : Prop :=
  ∀ x, cached cache' x = cached cache x ∨ cached cache x = none ∧ cached cache' x = s.get x

/-! ## Single reads -/

variable {s cache slots} {slot : UInt32}

theorem lookup_getShard : (s.getShard (slotToShard slot)).lookup slot = s.get slot := by
  rw [getShard, get, DocFiles.doc]
  cases s.files.read (slotToShard slot) with
  | none => rfl
  | some snap => exact (lookup_filterMap _ _ _).trans map_eq_bind.symm

/-- What the store has goes into the cache under a slot that was not there. -/
theorem Fills.insert {c : DocCache} {doc : StoredDoc} (h : s.Fills cache (some c)) (hmiss : cached cache slot = none)
    (hdoc : s.get slot = some doc) : s.Fills cache (some (insert slot doc c)) := by
  intro x
  rw [cached, bind_some, lookup_insert_eq_ite]
  by_cases hx : x = slot
  · rw [if_pos hx, hx]
    exact .inr ⟨hmiss, hdoc.symm⟩
  · rw [if_neg hx]
    exact h x

theorem Fills.insertBatch {c : DocCache} {docs : List (UInt32 × StoredDoc)} (h : s.Fills cache (some c))
    (hdocs : ∀ d ∈ docs, cached cache d.1 = none ∧ s.get d.1 = some d.2) : s.Fills cache (some (c.insertBatch docs)) :=
  foldlRecOn (motive := fun c => s.Fills cache (some c)) docs _ h fun _ hc d hd =>
    hc.insert (hdocs d hd).1 (hdocs d hd).2

theorem getDocument_fst : (s.getDocument cache slot).1 = (cached cache slot).or (s.get slot) := by
  rw [getDocument]
  cases cached cache slot with
  | some doc => rfl
  | none => cases s.get slot <;> rfl

theorem fills_getDocument : s.Fills cache (s.getDocument cache slot).2 := by
  have hsame : s.Fills cache cache := fun _ => .inl rfl
  rw [getDocument]
  cases hmiss : cached cache slot with
  | some doc => exact hsame
  | none =>
    cases hdoc : s.get slot with
    | none => exact hsame
    | some doc =>
      cases cache with
      | none => exact hsame
      | some c => exact hsame.insert hmiss hdoc

/-- What an earlier read puts into the cache is what a later one would find in the store. -/
theorem getEach_fst : (s.getEach cache slots).1 = slots.map fun slot => (cached cache slot).or (s.get slot) := by
  induction slots generalizing cache with
  | nil => rfl
  | cons slot slots ih =>
    show (s.getDocument cache slot).1 :: (s.getEach _ slots).1 = _
    rw [getDocument_fst, ih]
    refine congrArg _ (map_congr_left fun x _ => ?_)
    rcases @fills_getDocument s cache slot x with hx | ⟨hx, hx'⟩
    · rw [hx]
    · rw [hx, hx', Option.or_self, none_or]

/-! ## The batch -/

/-- Shard by shard, every miss gets what the store has for it. -/
theorem gather_eq : s.gather cache slots = ((shardGroups cache slots).entries.flatMap (·.2)).foldl
    (fun g idx => Gathered.put g (slotAt slots idx) idx (s.get (slotAt slots idx)))
      ⟨slots.map (cached cache), ∅, []⟩ := by
  rw [foldl_flatMap]
  refine foldl_ext _ _ _ fun g e he => foldl_ext _ _ _ fun g idx hidx => ?_
  rw [← ((mem_groupBy he).mp hidx).2, lookup_getShard]

theorem mem_shardGroups {idx : Nat} : idx ∈ (shardGroups cache slots).entries.flatMap (·.2) ↔
    idx < slots.length ∧ cached cache (slotAt slots idx) = none := by
  rw [shardGroups, mem_flatMap_groupBy, missIndices, mem_filter, mem_range, isNone_iff_eq_none]

/-- One position is written by its own miss alone. -/
theorem getElem?_put (g : Gathered) (idx i : Nat) (found : Option StoredDoc) :
    (g.put slot idx found).results[i]? = if i = idx then g.results[i]?.map fun r => found.or r else g.results[i]? := by
  cases found with
  | none => simp [Gathered.put]
  | some doc =>
    by_cases hi : i = idx
    · subst hi
      cases hr : g.results[i]? <;> simp [Gathered.put, getElem?_set', hr]
    · simp [Gathered.put, hi, getElem?_set_ne (Ne.symm hi)]

theorem results_gather :
    (s.gather cache slots).results = slots.map fun slot => (cached cache slot).or (s.get slot) := by
  refine ext_getElem? fun i => ?_
  -- however often a position is visited, the store's document is put there
  have hvisit := Postings.foldl_visit (k := i) (p := fun g : Gathered => g.results[i]?)
    (f := fun g idx => g.put (slotAt slots idx) idx (s.get (slotAt slots idx)))
    (u := Option.map fun r => (s.get (slotAt slots i)).or r) (by intro o; cases o <;> simp [← Option.or_assoc])
    (by intro g; rw [getElem?_put, if_pos rfl]) (by intro g idx hidx; rw [getElem?_put, if_neg (Ne.symm hidx)])
  rw [gather_eq, hvisit]
  simp only [mem_shardGroups]
  by_cases hi : i < slots.length
  · cases hmiss : cached cache slots[i] <;> simp [slotAt, hi, hmiss]
  · simp [hi]

/-- What goes into the cache was not there, and is the store's. -/
theorem toCache_gather : ∀ d ∈ (s.gather cache slots).toCache, cached cache d.1 = none ∧ s.get d.1 = some d.2 := by
  rw [gather_eq]
  refine foldlRecOn (motive := fun g : Gathered => ∀ d ∈ g.toCache, cached cache d.1 = none ∧ s.get d.1 = some d.2)
    _ _ (fun _ hd => absurd hd not_mem_nil) fun g hg idx hidx => ?_
  cases hdoc : s.get (slotAt slots idx) with
  | none => exact hg
  | some doc =>
    rw [Gathered.put]
    split
    · exact hg
    · intro d hd
      rcases mem_append.mp hd with hd | hd
      · exact hg d hd
      · rw [mem_singleton.mp hd]
        exact ⟨(mem_shardGroups.mp hidx).2, hdoc⟩

/-- **Reading a list of slots is reading each of them**, from the same cache or in turn. What either puts into the
cache is the store's. -/
theorem getDocuments_eq (s : DocStoreV3) (cache : Option DocCache) (slots : List UInt32) :
    (s.getDocuments cache slots).1 = slots.map (fun slot => (s.getDocument cache slot).1) ∧
      (s.getDocuments cache slots).1 = (s.getEach cache slots).1 ∧
      s.Fills cache (s.getDocuments cache slots).2 ∧ ∀ slot, s.Fills cache (s.getDocument cache slot).2 := by
  refine ⟨?_, results_gather.trans getEach_fst.symm, ?_, fun slot => fills_getDocument⟩
  · exact results_gather.trans (map_congr_left fun slot _ => getDocument_fst.symm)
  · cases cache with
    | none => exact fun _ => .inl rfl
    | some c => exact Fills.insertBatch (fun _ => .inl rfl) toCache_gather

end DocStoreV3

end Bitdex
