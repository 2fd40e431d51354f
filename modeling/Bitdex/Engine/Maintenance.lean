import Bitdex.Cache.Maintain
import Bitdex.Engine.CacheRun

/-!
# `Engine.Maintenance` — cache entries through flush after flush

An entry is formed from one snapshot and then kept in step by maintenance alone. What it must go on saying is `Exact`:
its slots match its filter, and a matching slot outside it comes after all of them, or there is none if the entry
claims to be complete.

Maintenance looks at the slots of its work only, tests them with its own evaluator, and compares values with a floor
that never moves. So the invariant that survives a flush is `Bounded`: in addition, members are at the floor or inside
it and outsiders are not strictly inside. `FlushMeets` says which flushes keep it.
-/

namespace Bitdex

open Enumeration UnifiedCache QueryExecutor SortDirection List Finset

/-! ## What an entry must say -/

section Entry

variable (ex : QueryExecutor) (key : UnifiedKey)

/-- A slot comes strictly before another in the order of a key. -/
abbrev precedes (m x : UInt32) : Prop :=
  posLt key.direction.descending (ex.sortValue key.sortField m, m) (ex.sortValue key.sortField x, x)

/-- **Exact.** The executor accepts the entry's clauses, every member is in their result, and an alive slot of the
result that is no member comes strictly after every member; an entry without more has none. -/
def Exact [Host] (e : UnifiedEntry) : Prop :=
  ∃ matching simple, ex.resolveFilters e.originalFilterClauses = .ok (matching, simple) ∧
    (∀ x ∈ e.bitmap, x ∈ matching) ∧
    ∀ x ∈ matching, ex.slots.isAlive x = true → x ∉ e.bitmap →
      e.hasMore = true ∧ ∀ m ∈ e.bitmap, precedes ex key m x

/-- The invariant: also, members are at the floor or inside it, and outsiders are not strictly inside. -/
structure Bounded (matching : Bitmap) (e : UnifiedEntry) : Prop where
  direction : e.direction = key.direction
  members : ∀ x ∈ e.bitmap, x ∈ matching
  inside : ∀ x ∈ e.bitmap,
    sortQualifiesRaw e.minTrackedValue (ex.sortValue key.sortField x) e.direction = false
  outside : ∀ x ∈ matching, ex.slots.isAlive x = true → x ∉ e.bitmap → e.hasMore = true ∧
    entryQualifies ex key e x = false ∧ ∀ m ∈ e.bitmap, precedes ex key m x

variable {ex key} {e : UnifiedEntry}

/-- A slot strictly inside the floor precedes one that is not. -/
theorem precedes_of_qualifies {m x : UInt32} (hdir : e.direction = key.direction)
    (hm : entryQualifies ex key e m = true) (hx : entryQualifies ex key e x = false) : precedes ex key m x := by
  unfold entryQualifies sortQualifiesRaw at hm hx
  unfold precedes posLt descending
  rw [hdir] at hm hx
  cases hd : key.direction <;> simp only [hd, decide_eq_true_eq, decide_eq_false_iff_not] at hm hx ⊢ <;>
    simp <;> omega

/-- A slot at the floor or inside it precedes one strictly beyond it. -/
theorem precedes_of_beyond {m x : UInt32} (hdir : e.direction = key.direction)
    (hm : sortQualifiesRaw e.minTrackedValue (ex.sortValue key.sortField m) e.direction = false)
    (hx : entryQualifies ex key e x = false)
    (hne : ex.sortValue key.sortField x ≠ e.minTrackedValue) : precedes ex key m x := by
  unfold entryQualifies sortQualifiesRaw at hx
  unfold sortQualifiesRaw at hm
  unfold precedes posLt descending
  rw [hdir] at hm hx
  cases hd : key.direction <;> simp only [hd, decide_eq_false_iff_not] at hm hx ⊢ <;>
    simp <;> omega

/-- Strictly inside is inside. -/
theorem inside_of_qualifies {x : UInt32} (h : entryQualifies ex key e x = true) :
    sortQualifiesRaw e.minTrackedValue (ex.sortValue key.sortField x) e.direction = false := by
  unfold entryQualifies sortQualifiesRaw at h
  unfold sortQualifiesRaw
  cases hd : e.direction <;> simp only [hd, decide_eq_true_eq, decide_eq_false_iff_not] at h ⊢ <;> omega

/-- **A new entry** holds the first slots of its result, and its floor is the value of the last. -/
theorem Bounded.of_tracks {matching : Bitmap} (hdir : e.direction = key.direction)
    (h : Tracks ex key matching e) (hcapacity : e.bitmap = ∅ → matching = ∅) : Bounded ex key matching e := by
  have hinit := initial_iff.mp h.initial
  have hlast : e.bitmap ≠ ∅ → ∃ last ∈ e.bitmap, (∀ x ∈ e.bitmap, keyRank ex key x last) ∧
      e.minTrackedValue = ex.sortValue key.sortField last := by
    intro hne
    have hranked : ranked key.direction.descending (ex.sortValue key.sortField) e.bitmap ≠ [] :=
      fun hnil => hne (enumerate_eq_nil_iff.mp hnil)
    obtain ⟨last, hlast⟩ := getLast?_isSome.mpr hranked |> Option.isSome_iff_exists.mp
    obtain ⟨hmem, hmax⟩ := getLast?_enumerate_iff.mp hlast
    exact ⟨last, hmem, hmax, h.floor last hlast⟩
  refine ⟨hdir, hinit.1, ?_, ?_⟩
  · intro x hx
    obtain ⟨last, -, hmax, hfloor⟩ := hlast (ne_empty_of_mem hx)
    have hle := hmax x hx
    rw [hdir]
    unfold keyRank rankLe posLe descending at hle
    unfold sortQualifiesRaw
    cases hd : key.direction <;> simp only [hd] at hle ⊢ <;> simp at hle ⊢ <;> omega
  · intro x hx _ hout
    have hbefore : ∀ m ∈ e.bitmap, precedes ex key m x := fun m hm =>
      posLt_iff_not_posLe.mpr fun hle => hout (hinit.2 m hm x hx hle)
    have hne : e.bitmap ≠ ∅ := fun hempty => by
      rw [hcapacity hempty] at hx
      cases hx
    refine ⟨?_, ?_, hbefore⟩
    · by_contra hmore
      rw [h.complete (by simpa using hmore)] at hout
      exact hout hx
    · obtain ⟨last, hmem, -, hfloor⟩ := hlast hne
      have hlt := hbefore last hmem
      unfold entryQualifies sortQualifiesRaw
      rw [hfloor, hdir]
      unfold precedes posLt descending at hlt
      cases hd : key.direction <;> simp only [hd] at hlt ⊢ <;> simp at hlt ⊢ <;> omega

end Entry

/-! ## One flush -/

/-- The executor on the index after a batch, with the tables of that moment. -/
def QueryExecutor.afterBatch (ex : QueryExecutor) (b : WriteBatch) (tables : Tables) : QueryExecutor :=
  let st : IndexState := ⟨ex.slots, ex.filters, ex.sorts⟩
  { ex with
    slots := (st.applyBatch b).slots
    filters := (st.applyBatch b).filters
    sorts := (st.applyBatch b).sorts
    tables := tables }

section Flush

variable [Host] (legacy : UInt32 → CanonicalClause → Bool) (ex ex' : QueryExecutor) (b : WriteBatch)
  (key : UnifiedKey) (e : UnifiedEntry)

/-- Maintenance looks at a slot for an entry. -/
def Triggered (slot : UInt32) : Prop := SortTriggered b key slot ∨ FilterTriggered b key e slot

/-- **The condition on a flush** from one index to the next, for one unflagged entry. -/
structure FlushMeets : Prop where
  /-- The executor still accepts the clauses. -/
  accepts : ∃ after simple, ex'.resolveFilters e.originalFilterClauses = .ok (after, simple)
  /-- The sort field is there and fully loaded. -/
  loaded : ∃ sf, ex'.sorts.getField key.sortField = some sf ∧ sf.isFullyLoaded = true
  /-- A slot that leaves the result, or enters it alive, is looked at; a deleted slot needs no look. -/
  collected : ∀ before simple after simple',
    ex.resolveFilters e.originalFilterClauses = .ok (before, simple) →
    ex'.resolveFilters e.originalFilterClauses = .ok (after, simple') →
    ∀ x, ¬ Triggered b key e x → x ∉ b.aliveRemoves → (x ∈ before → x ∈ after) ∧
      (x ∈ after → ex'.slots.isAlive x = true → x ∈ before ∧ ex.slots.isAlive x = true)
  /-- The evaluator is right about the slots that are looked at. -/
  agrees : ∀ after simple, ex'.resolveFilters e.originalFilterClauses = .ok (after, simple) →
    ∀ x, Triggered b key e x → (entryMatches ex' legacy key e x = true ↔ x ∈ after)
  /-- A matching slot that has to stay outside, or whose new value takes it out, lies strictly beyond
  the floor of an entry that has more. -/
  placed : ∀ x, entryMatches ex' legacy key e x = true → entryQualifies ex' key e x = false →
    SortTriggered b key x ∨ (FilterTriggered b key e x ∧ x ∉ e.bitmap) →
    e.hasMore = true ∧ ex'.sortValue key.sortField x ≠ e.minTrackedValue

variable {legacy ex ex' b key e} {e' : UnifiedEntry}

omit [Host] in
theorem sortValue_afterBatch (tables : Tables) {x : UInt32} (hx : ¬ SortTriggered b key x) :
    (ex.afterBatch b tables).sortValue key.sortField x = ex.sortValue key.sortField x := by
  refine congrArg (Option.getD · 0) (SortIndex.reconstructValue_applyGroups fun layer => ?_)
  rw [← not_or]
  exact fun hmem => hx (WriteBatch.mem_mutatedSortSlots.mpr ⟨layer, hmem⟩)

omit [Host] in
theorem isAlive_afterBatch {tables : Tables} {x : UInt32}
    (h : (ex.afterBatch b tables).slots.isAlive x = true) : x ∉ b.aliveRemoves := by
  have hmem : x ∈ (ex.slots.applyAlive b).alive.fused := (VersionedBitmap.contains_iff _).mp h
  exact (SlotAllocator.mem_alive_applyAlive.mp hmem).1

/-- **One flush** that meets the condition keeps a maintained entry bounded. -/
theorem Bounded.flush {before after : Bitmap} {simple simple' : Bool}
    (hbefore : ex.resolveFilters e.originalFilterClauses = .ok (before, simple))
    (hafter : ex'.resolveFilters e.originalFilterClauses = .ok (after, simple'))
    (hvalue : ∀ x, ¬ SortTriggered b key x → ex'.sortValue key.sortField x = ex.sortValue key.sortField x)
    (halive : ∀ x, ex'.slots.isAlive x = true → x ∉ b.aliveRemoves)
    (h : Bounded ex key before e) (hmeets : FlushMeets legacy ex ex' b key e)
    (hmaint : Maintained ex' legacy b key e e') : Bounded ex' key after e' := by
  have hagrees := hmeets.agrees after simple' hafter
  have hcollected := hmeets.collected before simple after simple' hbefore hafter
  -- a member is a slot that was found inside, or a member from before whose value is the same
  have hmember : ∀ x ∈ e'.bitmap, entryQualifies ex' key e x = true ∨ (¬ SortTriggered b key x ∧ x ∈ e.bitmap) := by
    intro x hx
    by_cases hs : SortTriggered b key x
    · exact .inl ((hmaint.sorted x hs).mp hx).2
    · by_cases hf : FilterTriggered b key e x
      · exact ((hmaint.filtered x hs hf).mp hx).2.imp id fun hold => ⟨hs, hold.1⟩
      · exact .inr ⟨hs, ((hmaint.untouched x hs hf).mp hx).1⟩
  have hinside : ∀ x ∈ e'.bitmap, sortQualifiesRaw e.minTrackedValue
      (ex'.sortValue key.sortField x) e.direction = false := by
    intro x hx
    rcases hmember x hx with hq | ⟨hs, hold⟩
    · exact inside_of_qualifies hq
    · rw [hvalue x hs]
      exact h.inside x hold
  have hbeyond : ∀ x, entryQualifies ex' key e x = false → ex'.sortValue key.sortField x ≠ e.minTrackedValue →
      ∀ m ∈ e'.bitmap, precedes ex' key m x :=
    fun x hq hne m hm => precedes_of_beyond h.direction (hinside m hm) hq hne
  refine ⟨hmaint.same.direction.trans h.direction, ?_, ?_, ?_⟩
  · intro x hx
    by_cases ht : Triggered b key e x
    · refine (hagrees x ht).mp ?_
      by_cases hs : SortTriggered b key x
      · exact ((hmaint.sorted x hs).mp hx).1
      · exact ((hmaint.filtered x hs (ht.resolve_left hs)).mp hx).1
    · obtain ⟨hs, hf⟩ := not_or.mp ht
      obtain ⟨hold, hkept⟩ := (hmaint.untouched x hs hf).mp hx
      exact (hcollected x ht hkept).1 (h.members x hold)
  · rw [hmaint.same.floor, hmaint.same.direction]
    exact hinside
  · intro x hx hlive hout
    have hkept := halive x hlive
    have hq' : entryQualifies ex' key e' x = entryQualifies ex' key e x := by
      rw [entryQualifies, hmaint.same.floor, hmaint.same.direction, entryQualifies]
    rw [hmaint.same.hasMore, hq']
    by_cases ht : Triggered b key e x
    · -- a slot that was looked at and is outside did not qualify
      have hmatch := (hagrees x ht).mpr hx
      have hstay : entryQualifies ex' key e x = false ∧
          (SortTriggered b key x ∨ (FilterTriggered b key e x ∧ x ∉ e.bitmap)) := by
        by_cases hs : SortTriggered b key x
        · refine ⟨?_, .inl hs⟩
          by_contra hq
          exact hout ((hmaint.sorted x hs).mpr ⟨hmatch, by simpa using hq⟩)
        · have hf := ht.resolve_left hs
          have hnot : ¬ (entryQualifies ex' key e x = true ∨ (x ∈ e.bitmap ∧ x ∉ b.aliveRemoves)) :=
            fun hin => hout ((hmaint.filtered x hs hf).mpr ⟨hmatch, hin⟩)
          rw [not_or] at hnot
          exact ⟨by simpa using hnot.1, .inr ⟨hf, fun hold => hnot.2 ⟨hold, hkept⟩⟩⟩
      obtain ⟨hmore, hne⟩ := hmeets.placed x hmatch hstay.1 hstay.2
      exact ⟨hmore, hstay.1, hbeyond x hstay.1 hne⟩
    · -- a slot that was not looked at was outside before
      obtain ⟨hs, hf⟩ := not_or.mp ht
      have hold : x ∉ e.bitmap := fun hold => hout ((hmaint.untouched x hs hf).mpr ⟨hold, hkept⟩)
      obtain ⟨hin, hlive'⟩ := (hcollected x ht hkept).2 hx hlive
      obtain ⟨hmore, hq, hprec⟩ := h.outside x hin hlive' hold
      have hqx : entryQualifies ex' key e x = false := by
        rw [entryQualifies, hvalue x hs]
        exact hq
      refine ⟨hmore, hqx, fun m hm => ?_⟩
      rcases hmember m hm with hqm | ⟨hsm, holdm⟩
      · exact precedes_of_qualifies h.direction hqm hqx
      · have hmx := hprec m holdm
        rw [precedes, ← hvalue m hsm, ← hvalue x hs] at hmx
        exact hmx

end Flush

section Runs

variable [Host] (legacy : UInt32 → CanonicalClause → Bool)

/-- The index and the cache over it. -/
structure CachedIndex where
  ex : QueryExecutor
  cache : UnifiedCache

/-- What happens: a query misses and seeds an entry, or the flush thread applies ops. -/
inductive FlushEvent where
  | seed (query : BitdexQuery) (filters : List FilterClause) (sort : SortClause) (choices : Choices)
  | flush (ops : List MutationOp) (tables : Tables)

namespace CachedIndex

omit [Host] in
/-- The executor after the ops of a flush. -/
def flushed (s : CachedIndex) (ops : List MutationOp) (tables : Tables) : QueryExecutor :=
  s.ex.afterBatch (.groupAndSort ops) tables

/-- A failed query leaves the cache as it is; a flush maintains it against the new index. -/
def next (s : CachedIndex) : FlushEvent → CachedIndex
  | .seed query filters sort choices =>
    let seeded := do
      let (bitmap, simple) ← s.ex.resolveFilters filters
      s.ex.seedAndServe s.ex.tables.freshDiffs s.cache query filters (keyOf filters sort) sort bitmap simple
        choices
    { s with cache := seeded.toOption.elim s.cache Prod.snd }
  | .flush ops tables =>
    ⟨s.flushed ops tables, s.cache.maintain legacy (.groupAndSort ops) (s.flushed ops tables)⟩

/-- The condition on an event. An entry keeps its clauses in another order than the query, so a seed must have the
same result in both; a flush must meet the condition for every unflagged entry. -/
def Meets (s : CachedIndex) : FlushEvent → Prop
  | .seed _ filters _ _ => 0 < s.cache.config.initialCapacity ∧
      ∀ bitmap simple, s.ex.resolveFilters filters = .ok (bitmap, simple) →
        ∃ simple', s.ex.resolveFilters (sortByAtomCost filters) = .ok (bitmap, simple')
  | .flush ops tables => ∀ key e, s.cache.entries.lookup key = some e → e.needsRebuild = false →
      FlushMeets legacy s.ex (s.flushed ops tables) (.groupAndSort ops) key e

/-- Every unflagged entry is bounded by the result of its clauses. -/
structure Inv (s : CachedIndex) : Prop where
  valid : s.ex.Valid
  direction : ∀ key e, s.cache.entries.lookup key = some e → e.direction = key.direction
  bounded : ∀ key e, s.cache.entries.lookup key = some e → e.needsRebuild = false →
    ∃ matching simple, s.ex.resolveFilters e.originalFilterClauses = .ok (matching, simple) ∧
      Bounded s.ex key matching e

variable {legacy} {s : CachedIndex}

omit [Host] in
theorem valid_afterBatch {ex : QueryExecutor} (hex : ex.Valid) (b : WriteBatch) (tables : Tables) :
    (ex.afterBatch b tables).Valid := by
  refine ⟨hex.page_pos, fun field sf hsf => ?_⟩
  have hsf' : (ex.sorts.applyGroups b.sortSets b.sortClears).getField field = some sf := hsf
  have hnum : (ex.sorts.applyGroups b.sortSets b.sortClears).numBits field = ex.sorts.numBits field :=
    SortIndex.numBits_applyGroups
  unfold SortIndex.numBits at hnum
  rw [hsf', Option.map_some, Option.getD_some] at hnum
  cases hold : ex.sorts.getField field with
  | none => rw [hnum, hold]; exact Nat.zero_le _
  | some sf₀ =>
    rw [hnum, hold]
    exact hex.bits_le field sf₀ hold

theorem Inv.new {ex : QueryExecutor} (hex : ex.Valid) (config : UnifiedCacheConfig) : Inv ⟨ex, .new config⟩ := by
  refine ⟨hex, fun key e he => ?_, fun key e he => ?_⟩
  · cases he
  · cases he

/-- A stored entry keeps the invariant if it is bounded itself. -/
theorem Inv.formAndStore (h : s.Inv) {key : UnifiedKey} {slots : List UInt32} {hasMore : Bool}
    {total : Nat} {filters : List FilterClause} {valueFn : UInt32 → Nat} {evicted : List UnifiedKey}
    {bitmap : Bitmap} {simple : Bool} {state : BucketDiffState}
    (hresult : s.ex.resolveFilters (sortByAtomCost filters) = .ok (bitmap, simple))
    (hnew : Bounded s.ex key bitmap (s.cache.formEntry key slots hasMore total filters valueFn)) :
    Inv ⟨s.ex, (s.cache.formAndStoreWithClauses key slots hasMore total filters valueFn evicted).seedBucketCutoff key
      state⟩ := by
  refine ⟨h.valid, fun key' e' he' => ?_, fun key' e' he' hflag => ?_⟩
  · obtain ⟨e₀, he₀, hsame⟩ := lookup_seedBucketCutoff_some he'
    have hdirection : e₀.direction = key'.direction := by
      rcases lookup_formAndStore_some he₀ with ⟨rfl, rfl⟩ | ⟨-, hold⟩
      · exact hnew.direction
      · exact h.direction key' e₀ hold
    rcases hsame with rfl | rfl <;> exact hdirection
  · obtain ⟨e₀, he₀, rfl | rfl⟩ := lookup_seedBucketCutoff_some he'
    · rcases lookup_formAndStore_some he₀ with ⟨rfl, rfl⟩ | ⟨-, hold⟩
      · exact ⟨bitmap, simple, hresult, hnew⟩
      · exact h.bounded key' e' hold hflag
    · cases hflag

/-- **A seed** that meets the condition keeps the invariant. -/
theorem Inv.seed (h : s.Inv) {query : BitdexQuery} {filters : List FilterClause} {sort : SortClause}
    {choices : Choices} (hmeets : s.Meets legacy (.seed query filters sort choices)) :
    (s.next legacy (.seed query filters sort choices)).Inv := by
  obtain ⟨hcapacity, horder⟩ := hmeets
  show Inv ⟨s.ex, Option.elim (Except.toOption (s.ex.resolveFilters filters >>= _)) _ _⟩
  cases hseeded : s.ex.resolveFilters filters >>= fun (bitmap, simple) =>
      s.ex.seedAndServe s.ex.tables.freshDiffs s.cache query filters (keyOf filters sort) sort bitmap simple
        choices with
  | error err => exact h
  | ok out =>
    obtain ⟨⟨bitmap, simple⟩, hbitmap, hserve⟩ := bind_eq_ok_iff.mp hseeded
    obtain ⟨simple', hresult⟩ := horder bitmap simple hbitmap
    obtain ⟨-, hsame, -⟩ | ⟨-, hzero, -, hstored⟩ | ⟨-, -, seed, hseed, hstored, -⟩ :=
      seedAndServe_inv hserve
    · show Inv ⟨s.ex, out.2⟩
      rw [hsame]
      exact h
    · show Inv ⟨s.ex, out.2⟩
      rw [hstored]
      have hempty : bitmap = ∅ := card_eq_zero.mp hzero
      have hsound : Sound s.ex (keyOf filters sort) bitmap s.cache.config _ :=
        @formEntry_empty_sound s.ex (fun _ => bitmap) s.cache _ filters hempty
      exact h.formAndStore hresult (.of_tracks rfl hsound.toTracks fun _ => hempty)
    · show Inv ⟨s.ex, out.2⟩
      rw [hstored]
      obtain ⟨hids, hsound⟩ := @formEntry_seed_sound s.ex (fun _ => bitmap) s.cache
        (keyOf filters sort) filters h.valid simple seed hseed
      refine h.formAndStore hresult (.of_tracks rfl hsound.toTracks fun hnone => ?_)
      -- a seed of at least one slot is empty only if there is nothing to seed from
      have hnil : seed.ids.take s.cache.config.initialCapacity = [] := toFinset_eq_empty_iff _ |>.mp hnone
      rw [hids, take_take, take_eq_nil_iff] at hnil
      exact enumerate_eq_nil_iff.mp (hnil.resolve_left (by omega))

/-- **A flush** that meets the condition keeps the invariant. -/
theorem Inv.flush (h : s.Inv) {ops : List MutationOp} {tables : Tables}
    (hmeets : s.Meets legacy (.flush ops tables)) : (s.next legacy (.flush ops tables)).Inv := by
  refine ⟨valid_afterBatch h.valid _ _, fun key e' he' => ?_, fun key e' he' hflag => ?_⟩
  · obtain ⟨e, he, hsame, -⟩ := lookup_maintain_some he'
    exact hsame.direction.trans (h.direction key e he)
  · obtain ⟨e, he, hsame, hkept⟩ := lookup_maintain_some he'
    have hm := hmeets key e he (hkept hflag)
    obtain ⟨sf, hsf, hloaded⟩ := hm.loaded
    have hmaint := maintained he (h.direction key e he) hsf hloaded he' hflag
    obtain ⟨before, simple, hresult, hb⟩ := h.bounded key e he (hkept hflag)
    obtain ⟨after, simple', hafter⟩ := hm.accepts
    refine ⟨after, simple', hsame.clauses ▸ hafter, ?_⟩
    exact hb.flush hresult hafter (fun _ => sortValue_afterBatch tables) (fun _ => isAlive_afterBatch) hm hmaint

end CachedIndex

end Runs

/-! ## A check of the condition

A cache has finitely many entries, and a batch names finitely many slots. -/

section Evaluated

variable {b : WriteBatch} {key : UnifiedKey} {e : UnifiedEntry}

instance decidableReached (inserts removes : Postings FilterGroupKey UInt32) :
    Decidable (Reached inserts removes key e) := by
  unfold Reached
  infer_instance

instance decidableSortTriggered (x : UInt32) : Decidable (SortTriggered b key x) := by
  unfold SortTriggered
  infer_instance

instance decidableFilterTriggered (x : UInt32) : Decidable (FilterTriggered b key e x) := by
  unfold FilterTriggered
  infer_instance

instance decidableTriggered (x : UInt32) : Decidable (Triggered b key e x) := by
  unfold Triggered
  infer_instance

instance decidableForallTriggered (P : UInt32 → Prop) [DecidablePred P] : Decidable (∀ x, Triggered b key e x → P x) :=
  decidable_of_iff (∀ x ∈ b.mutatedSortSlots.ids key.sortField ∪ watchedSlots b.filterInserts b.filterRemoves key e,
      Triggered b key e x → P x)
    ⟨fun h x hx => h x (mem_union.mpr (hx.imp id And.right)) hx, fun h x _ => h x⟩

variable [Host]

set_option synthInstance.maxSize 512 in
instance decidableFlushMeets (legacy : UInt32 → CanonicalClause → Bool) (ex ex' : QueryExecutor) :
    Decidable (FlushMeets legacy ex ex' b key e) :=
  decidable_of_iff ((¬ ∀ after simple, ex'.resolveFilters e.originalFilterClauses = .ok (after, simple) → False) ∧
      (∃ sf, ex'.sorts.getField key.sortField = some sf ∧ sf.isFullyLoaded = true) ∧
      (∀ before simple, ex.resolveFilters e.originalFilterClauses = .ok (before, simple) →
        ∀ after simple', ex'.resolveFilters e.originalFilterClauses = .ok (after, simple') →
        ∀ x ∈ before ∪ after, ¬ Triggered b key e x → x ∉ b.aliveRemoves → (x ∈ before → x ∈ after) ∧
          (x ∈ after → ex'.slots.isAlive x = true → x ∈ before ∧ ex.slots.isAlive x = true)) ∧
      (∀ after simple, ex'.resolveFilters e.originalFilterClauses = .ok (after, simple) →
        ∀ x, Triggered b key e x → (entryMatches ex' legacy key e x = true ↔ x ∈ after)) ∧
      ∀ x, Triggered b key e x → entryMatches ex' legacy key e x = true → entryQualifies ex' key e x = false →
        SortTriggered b key x ∨ (FilterTriggered b key e x ∧ x ∉ e.bitmap) →
        e.hasMore = true ∧ ex'.sortValue key.sortField x ≠ e.minTrackedValue) (by
    constructor
    · rintro ⟨haccepts, hloaded, hcollected, hagrees, hplaced⟩
      refine ⟨by simpa only [imp_false, not_forall, not_not] using haccepts, hloaded,
        fun before simple after simple' hb ha x hx hrem => ?_, hagrees,
        fun x hm hq hx => hplaced x (hx.imp id And.left) hm hq hx⟩
      have hin := fun h => hcollected before simple hb after simple' ha x (mem_union.mpr h) hx hrem
      exact ⟨fun h => (hin (.inl h)).1 h, fun h => (hin (.inr h)).2 h⟩
    · intro h
      exact ⟨by simpa only [imp_false, not_forall, not_not] using h.accepts, h.loaded,
        fun before simple hb after simple' ha x _ => h.collected before simple after simple' hb ha x, h.agrees,
        fun x _ => h.placed x⟩)

instance CachedIndex.decidableMeets (legacy : UInt32 → CanonicalClause → Bool) (s : CachedIndex) (ev : FlushEvent) :
    Decidable (s.Meets legacy ev) := by
  unfold Meets
  split <;> infer_instance

end Evaluated

/-! ## A complete entry that misses a slot, and one that keeps up -/

section Samples

attribute [local instance] Host.ascii

/-- Slots 1 and 2 match `a = 1` and have the values 5 and 3. -/
def twoMatches : QueryExecutor where
  slots := ⟨3, .new {1, 2}, []⟩
  filters := ⟨(∅ : HashMap String FilterField).insert "a"
    ⟨(∅ : HashMap UInt64 VersionedBitmap).insert 1 (.new {1, 2}), {}⟩⟩
  sorts := ⟨(∅ : HashMap String SortField).insert "v" ⟨[.new {1, 2}, .new {2}, .new {1}]⟩⟩
  maxPageSize := 100
  tables := .empty

theorem twoMatches_valid : twoMatches.Valid := by
  have hall : ∀ f sf, twoMatches.sorts.fields.lookup f = some sf → sf.numBits ≤ 32 := by decide
  exact ⟨by decide, hall⟩

def matchesKey : UnifiedKey := keyOf [.eq "a" (.integer 1)] ⟨"v", .desc⟩

/-- The first page of `a = 1` by value, highest first, which seeds an entry. -/
def seedMatches : FlushEvent :=
  .seed ⟨[.eq "a" (.integer 1)], some ⟨"v", .desc⟩, 1, none, none, false⟩ [.eq "a" (.integer 1)]
    ⟨"v", .desc⟩ ⟨[], true⟩

/-- Slot 3 is inserted with `a = 1` and the bits of its value. -/
def thirdOps (layers : List Nat) : List MutationOp :=
  [.aliveInsert [3], .filterInsert "a" 1 [3]] ++ layers.map fun layer => .sortSet "v" layer [3]

def insertThird (layers : List Nat) : FlushEvent := .flush (thirdOps layers) .empty

/-- The entry and the index after a seed of some capacity and an insert of slot 3. -/
def afterThird (capacity : Nat) (layers : List Nat) : CachedIndex :=
  [seedMatches, insertThird layers].foldl (CachedIndex.next fun _ _ => false)
    ⟨twoMatches, .new { initialCapacity := capacity }⟩

end Samples

end Bitdex
