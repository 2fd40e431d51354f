import Bitdex.Engine.Segment

/-!
# `Engine.CacheRun` — the cache over runs of queries and prefetches

Every expansion in the engine hands a cursor to the traversal: the fast path the cursor of the page it served or the
client's, the slow path the client's, the prefetch worker the floor's value at slot 0. An entry survives them all if
each is contiguous with it (`Engine.Segment`). This module states that as a condition on the event and the cache, and
carries it through `executeQuery` and `prefetch` to every run on one snapshot (`cache_tracks`).
-/

namespace Bitdex

open Enumeration QueryExecutor UnifiedCache UnifiedEntry List Except

/-! ## Queries and prefetches -/

section Steps

variable [Host] (ex : QueryExecutor) (matching : UnifiedKey → Bitmap)

/-- The page ends strictly inside the entry. -/
structure PageInside (key : UnifiedKey) (e : UnifiedEntry) (query : BitdexQuery) : Prop where
  fits : ∀ sf, ex.sorts.getField key.sortField = some sf → CursorPosition.Fits sf query.cursor
  in_entry : e.pastBoundary key.direction query.cursor = false
  clamp : query.fetchLimit ≤ ex.maxPageSize
  inside : query.fetchLimit < (e.bitmap.filter (afterKey ex key query.cursor)).card

/-- **The condition on a query.** Its filters match what its key is taken to match, and if it finds an entry with more
slots and room, its page ends inside the entry or the entry is contiguous with its cursor. -/
structure QueryMeets (c : UnifiedCache) (query : BitdexQuery) (key : UnifiedKey) : Prop where
  answer : ∀ bitmap simple, ex.resolveFilters (ex.tables.snapRangeClauses query.filters) =
    .ok (bitmap, simple) → bitmap = matching key
  contiguous : ∀ e, c.lookup key = some e → e.hasMore = true → e.capacity < e.maxCapacity →
    PageInside ex key e query ∨
      Contiguous ex key (matching key) e query.cursor (e.maxCapacity - e.capacity)

/-- **The condition on a prefetch.** The clauses match the same without string maps, dictionaries and
time buckets, and the entry is contiguous with its floor at slot 0. -/
structure PrefetchMeets (c : UnifiedCache) (key : UnifiedKey) : Prop where
  answer : ∀ e, c.entries.lookup key = some e → ∀ bitmap simple,
    ({ ex with tables := .empty } : QueryExecutor).resolveFilters e.originalFilterClauses =
      .ok (bitmap, simple) → bitmap = matching key
  contiguous : ∀ e, c.entries.lookup key = some e → e.hasMore = true → e.capacity < e.maxCapacity →
    Contiguous ex key (matching key) e (some ⟨e.minTrackedValue, 0⟩) (e.maxCapacity - e.capacity)

/-- What happens to the cache of a fixed snapshot. -/
inductive CacheEvent where
  | query (query : BitdexQuery) (choices : Choices)
  | prefetch (key : UnifiedKey)

/-- The cache after an event; a query that fails leaves it as it is. -/
def cacheStep (c : UnifiedCache) : CacheEvent → UnifiedCache
  | .query query choices => ((ex.executeQuery c query choices).toOption).elim c Prod.snd
  | .prefetch key => ex.prefetch c key

/-- The key of a sorted query that does not bypass the cache. -/
def BitdexQuery.key? (query : BitdexQuery) : Option UnifiedKey :=
  if query.skipCache then none
  else query.sort.map (keyOf (ex.tables.snapRangeClauses query.filters))

/-- The condition on an event. -/
def CacheEvent.Meets (c : UnifiedCache) : CacheEvent → Prop
  | .query q _ => ∀ key, q.key? ex = some key → QueryMeets ex matching c q key
  | .prefetch key => PrefetchMeets ex matching c key

variable {ex matching} {c c' : UnifiedCache} {key : UnifiedKey} {query : BitdexQuery}
  {filters : List FilterClause} {sort : SortClause} {e : UnifiedEntry} {r : QueryResult}
  (hex : ex.Valid) (hc : CacheSound ex matching c)

section Paths

omit [Host]

/-- Flagging an entry changes nothing that it says of its result. -/
theorem Sound.markForRebuild {config : UnifiedCacheConfig} {bitmap : Bitmap} (h : Sound ex key bitmap config e) :
    Sound ex key bitmap config e.markForRebuild :=
  ⟨⟨h.segment, h.floor, h.complete⟩, h.maxCapacity_eq, h.keys_eq, h.radix_eq, h.keys_none⟩

/-- A stored entry keeps the cache sound if it is sound or, because it cannot be kept up to date, flagged. -/
theorem CacheSound.formAndStore (hc : CacheSound ex matching c) {slots : List UInt32}
    {hasMore : Bool} {total : Nat} {original : List FilterClause} {valueFn : UInt32 → Nat} {evicted : List UnifiedKey}
    (h : Sound ex key (matching key) c.config (c.formEntry key slots hasMore total original valueFn)) :
    CacheSound ex matching
      ((c.formAndStoreWithClauses key slots hasMore total original valueFn evicted).seedBucketCutoff key
        (key.diffState ex.tables.freshDiffs)) := by
  refine ⟨fun key' e' he' => ?_, fun key' e' he' => ?_⟩
  · rw [config_seedBucketCutoff, config_formAndStore]
    obtain ⟨e₀, he₀, hflagged⟩ := lookup_seedBucketCutoff_some he'
    have hsound : Sound ex key' (matching key') c.config e₀ := by
      rcases lookup_formAndStore_some he₀ with ⟨rfl, rfl⟩ | ⟨-, hold⟩
      · exact h
      · exact hc.sound key' e₀ hold
    rcases hflagged with rfl | rfl
    · exact hsound
    · exact hsound.markForRebuild
  · by_cases hkey : key' = key
    · subst hkey
      rw [lookup_seeded] at he'
      refine (diffState_freshDiffs ex.tables key').resolve_right fun hrebuild => ?_
      rw [hrebuild] at he'
      cases he'
    · obtain ⟨he', hflag⟩ := lookup_eq_some_iff.mp he'
      rw [entries_seedBucketCutoff, if_neg fun h => hkey h.1] at he'
      obtain ⟨hsame, -⟩ | ⟨-, hold⟩ := lookup_formAndStore_some he'
      · exact absurd hsame hkey
      · exact hc.settled key' e' (lookup_eq_some_iff.mpr ⟨hold, hflag⟩)

/-- An entry for a result without slots is sound. -/
theorem formEntry_empty_sound (hempty : matching key = ∅) :
    Sound ex key (matching key) c.config (c.formEntry key [] false 0 filters fun _ => 0) := by
  refine ⟨⟨?_, ?_, fun _ => ?_⟩, rfl, ?_, ?_, fun _ => .inl ?_⟩
  · simp [formEntry, newWithClauses, ranked]
  · intro last hlast
    simp [formEntry, newWithClauses, ranked] at hlast
  · simp [formEntry, newWithClauses, hempty]
  · intro keys hkeys
    simp [formEntry, newWithClauses] at hkeys
  · intro r hr
    cases hr
  · simp [formEntry, newWithClauses]

/-- A seed is the first slots of the result, and the entry formed from it is sound. -/
theorem formEntry_seed_sound (filters : List FilterClause) (hex : ex.Valid) {simple : Bool} {seed : QueryResult}
    (hseed : ex.executeFromBitmapUnclamped (matching key) (some key.sort) c.config.initialCapacity none
      simple = .ok seed) : seed.ids = (keyRanked ex key (matching key)).take c.config.initialCapacity ∧
      Sound ex key (matching key) c.config (c.formEntry key seed.ids
        (decide ((matching key).card > seed.ids.length)) (matching key).card filters
        (ex.sortValue key.sortField)) := by
  obtain ⟨sf, hsf⟩ := executeFromBitmapInner_field key hseed
  have hnone : CursorPosition.Fits sf none := fun c hcur => by cases hcur
  have hids : seed.ids = (keyRanked ex key (matching key)).take c.config.initialCapacity := by
    rw [executeFromBitmapUnclamped, executeFromBitmapInner_eq hsf (hex.bits_le _ sf hsf) hnone,
      ← sortValue_key hsf] at hseed
    rw [← ok.inj hseed, keyRanked, ← slotsAfter_none]
    rfl
  exact ⟨hids, Sound.newWithClauses _ _ _ _ (hex.sortValue_lt key.sortField) hids rfl⟩

variable {config : UnifiedCacheConfig} {bitmap : Bitmap} {sf : SortField}
  (hsf : ex.sorts.getField key.sortField = some sf) (hsound : Sound ex key bitmap config e)

include hex hsf hsound

theorem serveEntry_length_le {cursor : Option CursorPosition} (hfits : CursorPosition.Fits sf cursor) {limit : Nat}
    (h : ex.serveEntry e key.sort limit cursor = .ok r) : r.ids.length ≤ limit := by
  unfold serveEntry at h
  cases hkeys : e.sortedKeys with
  | none =>
    rw [hkeys] at h
    rw [(serveExpanded_page hex hsf hfits hsound.radix_eq h).1.ids_eq, length_take]
    omega
  | some keys =>
    rw [hkeys] at h
    rw [← ok.inj h]
    simp only [executeFromSortedKeys, length_map, length_take]
    omega

/-- A page that used the entry up hands on a cursor that is contiguous with it. -/
theorem contiguous_of_wallHit (hcontig : e.hasMore = true → e.capacity < e.maxCapacity → PageInside ex key e query ∨
      Contiguous ex key bitmap e query.cursor (e.maxCapacity - e.capacity))
    (hr : ex.serveEntry e key.sort query.fetchLimit query.cursor = .ok r)
    (hwall : wallHit query e r = true) (hroom : 0 < e.maxCapacity - e.capacity) :
    Contiguous ex key bitmap e (r.cursor.or query.cursor) (e.maxCapacity - e.capacity) := by
  have hmore : e.hasMore = true := by
    rw [wallHit, Bool.and_eq_true] at hwall
    exact hwall.1
  have hpage : CursorPosition.Fits sf query.cursor → IsPage ex key e.bitmap query.cursor query.fetchLimit r := by
    intro hfits
    have hle := serveEntry_length_le hex hsf hsound hfits hr
    have hlimit : 0 < query.fetchLimit := by
      by_contra hzero
      have hids : r.ids = [] := length_eq_zero_iff.mp (by omega)
      simp [wallHit, hids, Nat.eq_zero_of_not_pos hzero] at hwall
    exact (serveEntry_page hex hsf hfits hsound hlimit hr).1
  rcases hcontig hmore (by omega) with hinside | hcon
  · have hnot := (hpage (hinside.fits sf hsf)).not_wallHit hinside.clamp hinside.inside
    rw [hnot] at hwall
    cases hwall
  · exact hcon.of_page hsound.toTracks hex (hpage (hcon.fits sf hsf))

/-- The page of the expanded entry hands on a cursor that is contiguous with it. -/
theorem contiguous_of_bounded {n : Nat} {useSimple : Bool} (hcon : Contiguous ex key bitmap e query.cursor n)
    (hr : ex.executeFromBitmap e.bitmap (some key.sort) query.fetchLimit query.cursor useSimple = .ok r) :
    Contiguous ex key bitmap e (r.cursor.or query.cursor) n :=
  hcon.of_page hsound.toTracks hex (executeFromBitmap_page hex hsf (hcon.fits sf hsf) hr).1

omit hsf hsound

include hc

/-- A miss keeps the cache sound: a new entry holds the first slots of the result. -/
theorem seedAndServe_sound {simple : Bool} {choices : Choices}
    (h : ex.seedAndServe ex.tables.freshDiffs c query filters key key.sort (matching key) simple choices =
      .ok (r, c')) : CacheSound ex matching c' := by
  obtain ⟨-, rfl, -⟩ | ⟨-, hzero, -, rfl⟩ | ⟨-, -, seed, hseed, rfl, -⟩ := seedAndServe_inv h
  · exact hc
  · exact hc.formAndStore (formEntry_empty_sound (Finset.card_eq_zero.mp hzero))
  · exact hc.formAndStore (formEntry_seed_sound filters hex hseed).2

variable (hlookup : c.lookup key = some e) (hpast : e.pastBoundary key.direction query.cursor = true)

include hlookup hpast

/-- What the slow path finds after the expansion that a cursor past the entry asks for. -/
theorem boundedBitmap_sound (hmore : e.hasMore = true) (hcontig : e.capacity < e.maxCapacity →
      Contiguous ex key (matching key) e query.cursor (e.maxCapacity - e.capacity))
    {simple useSimple : Bool} {effective : Bitmap}
    (h : ex.boundedBitmap c query key key.sort e (matching key) simple = .ok (effective, useSimple, c')) :
    CacheSound ex matching c' ∧ ∃ e', c'.lookup key = some e' ∧ effective = e'.bitmap ∧ e'.bitmap = e.bitmap ∪
        ((slotsAfterKey ex key (matching key) query.cursor).take (e.maxCapacity - e.capacity)).toFinset ∧
      (0 < e.maxCapacity - e.capacity → Contiguous ex key (matching key) e' query.cursor (e.maxCapacity - e.capacity)) ∧
      e'.maxCapacity - e'.capacity ≤ e.maxCapacity - e.capacity := by
  have hsound := hc.found hlookup
  obtain ⟨hexpand, heffective⟩ := boundedBitmap_inv hpast hmore h
  rw [← hsound.maxCapacity_eq] at hexpand
  obtain ⟨hc', e', he', hbitmap, hcon, hroom⟩ :=
    hc.expandFrom hex hlookup (fun hpos => hcontig (by omega)) le_rfl hexpand
  exact ⟨hc', e', he', heffective e' he', hbitmap, hcon, hroom⟩

/-- The slow path keeps the cache sound when it is given an entry that the cursor has left. -/
theorem serveBounded_sound (hcontig : e.hasMore = true → e.capacity < e.maxCapacity →
      Contiguous ex key (matching key) e query.cursor (e.maxCapacity - e.capacity)) {simple : Bool}
    (h : ex.serveBounded c query key key.sort e (matching key) simple = .ok (r, c')) : CacheSound ex matching c' := by
  have hsound := hc.found hlookup
  obtain ⟨effective, useSimple, c₁, r₀, hbounded, hr₀, hcases⟩ := serveBounded_inv h
  cases hmore : e.hasMore with
  | false =>
    -- nothing is expanded
    rw [boundedBitmap_complete hmore] at hbounded
    cases hbounded
    obtain ⟨-, rfl⟩ | ⟨htrue, -⟩ | ⟨-, -, rfl⟩ := hcases
    · exact hc
    · rw [hmore] at htrue
      cases htrue
    · exact hc
  | true =>
    obtain ⟨hc₁, e₁, he₁, heffective, -, hcon₁, hroom₁⟩ :=
      boundedBitmap_sound hex hc hlookup hpast hmore (hcontig hmore) hbounded
    obtain ⟨-, rfl⟩ | ⟨-, hexpand, -⟩ | ⟨hfalse, -⟩ := hcases
    · exact hc₁
    · -- a short page expands again, from its own cursor
      rw [← hsound.maxCapacity_eq] at hexpand
      have hsound₁ := hc₁.found he₁
      obtain ⟨sf, hsf⟩ := expandFrom_field hexpand
      rw [heffective] at hr₀
      exact (hc₁.expandFrom hex he₁
        (fun hpos => contiguous_of_bounded hex hsf hsound₁ (hcon₁ hpos) hr₀) hroom₁ hexpand).1
    · rw [hmore] at hfalse
      cases hfalse

end Paths

include hex hc

/-- The fast path keeps the cache sound. -/
theorem serveHit_sound (hkey : key = keyOf (ex.tables.snapRangeClauses query.filters) sort)
    (hlookup : c.lookup key = some e) (hmeets : QueryMeets ex matching c query key)
    (h : ex.serveHit c query (ex.tables.snapRangeClauses query.filters) sort e = .ok (r, c')) :
    CacheSound ex matching c' := by
  subst hkey
  have hsound := hc.found hlookup
  obtain ⟨r₀, hr₀, ⟨-, rfl, -⟩ | ⟨hwall, filterArc, simple, hfilter, hexpand, -⟩⟩ := serveHit_inv h
  · exact hc
  · rw [hmeets.answer filterArc simple hfilter, ← hsound.maxCapacity_eq] at hexpand
    obtain ⟨sf, hsf⟩ := expandFrom_field hexpand
    exact (hc.expandFrom hex hlookup
      (contiguous_of_wallHit hex hsf hsound (hmeets.contiguous e hlookup) hr₀ hwall) le_rfl hexpand).1

/-- **A query** that meets the condition keeps the cache sound. -/
theorem executeQuery_sound {choices : Choices}
    (hmeets : ∀ key, query.key? ex = some key → QueryMeets ex matching c query key)
    (h : ex.executeQuery c query choices = .ok (r, c')) : CacheSound ex matching c' := by
  by_cases hbypass : query.sort = none ∨ query.skipCache = true
  · obtain ⟨filterArc, simple, -, hserve⟩ := executeQueryAt_bypass hbypass h
    rw [(servePlain_inv hserve).1]
    exact hc
  · rw [not_or, Bool.not_eq_true] at hbypass
    obtain ⟨sort, hsort⟩ := Option.ne_none_iff_exists'.mp hbypass.1
    have hm := hmeets (keyOf (ex.tables.snapRangeClauses query.filters) sort) (by
      simp [BitdexQuery.key?, hsort, hbypass.2])
    obtain ⟨e, hlookup, -, hserve⟩ | ⟨filterArc, simple, hfilter,
      ⟨e, r₀, hlookup, hpast, hserve, -⟩ | ⟨-, ⟨-, hserve⟩ | ⟨-, hserve⟩⟩⟩ :=
      executeQuery_inv hsort hbypass.2 rfl (hc.settled _) h
    · exact serveHit_sound hex hc rfl hlookup hm hserve
    · rw [hm.answer filterArc simple hfilter] at hserve
      refine serveBounded_sound hex hc hlookup hpast (fun hmore hcap => ?_) hserve
      exact (hm.contiguous e hlookup hmore hcap).resolve_left fun hinside => by
        have hin : e.pastBoundary sort.direction query.cursor = false := hinside.in_entry
        rw [hin] at hpast
        cases hpast
    · rw [(servePlain_inv hserve).1]
      exact hc
    · rw [hm.answer filterArc simple hfilter] at hserve
      exact seedAndServe_sound hex hc hserve

/-- **A prefetch** that meets the condition keeps the cache sound. -/
theorem prefetch_sound (hmeets : PrefetchMeets ex matching c key) : CacheSound ex matching (ex.prefetch c key) := by
  unfold prefetch
  split
  · exact hc
  · next e he =>
    split
    · exact hc
    · next hroom =>
      rw [not_or, Bool.not_eq_false, not_le] at hroom
      have hcon := hmeets.contiguous e he hroom.1 hroom.2
      split
      · exact hc
      · next slots hslots =>
        split
        · exact hc
        · next hne =>
          obtain ⟨⟨bitmap, simple⟩, hfilter, hslots⟩ := bind_eq_ok_iff.mp hslots
          obtain ⟨expanded, hexp, hslots⟩ := bind_eq_ok_iff.mp hslots
          obtain ⟨sf, hsf⟩ := executeFromBitmapInner_field key hexp
          have hids : slots = (slotsAfterKey ex key (matching key) (some ⟨e.minTrackedValue, 0⟩)).take
              (e.maxCapacity - e.capacity) := by
            rw [executeFromBitmapUnclamped, executeFromBitmapInner_eq hsf (hex.bits_le _ sf hsf) (hcon.fits sf hsf),
              hmeets.answer e he bitmap simple hfilter, ← sortValue_key hsf] at hexp
            rw [← ok.inj hslots, ← ok.inj hexp]
            rfl
          refine hc.expandEntry fun e' he' hsound => ?_
          have heq : e' = e := Option.some.inj (he'.symm.trans he)
          subst heq
          exact hsound.expand hcon le_rfl hids hne

/-- **One event** that meets the condition keeps the cache sound. -/
theorem cacheStep_sound {event : CacheEvent} (hmeets : event.Meets ex matching c) :
    CacheSound ex matching (cacheStep ex c event) := by
  cases event with
  | query query choices =>
    show CacheSound ex matching ((ex.executeQuery c query choices).toOption.elim c Prod.snd)
    cases hq : ex.executeQuery c query choices with
    | error err => exact hc
    | ok out => exact executeQuery_sound hex hc hmeets hq
  | prefetch key => exact prefetch_sound hex hc hmeets

omit hex hc

/-- **Entries track their results.** In every run of queries and prefetches on one snapshot whose events meet the
condition, every entry is an initial segment of the ranked list of what its key matches, its floor is its last slot's
value, and `has_more` is false only if it is the whole list. -/
theorem cache_tracks (hex : ex.Valid) {config : UnifiedCacheConfig} {events : List CacheEvent}
    (h : Reaches (fun c ev c' => cacheStep ex c ev = c') (CacheEvent.Meets ex matching) (.new config) events c) :
    ∀ key e, c.entries.lookup key = some e → Tracks ex key (matching key) e := by
  have hsound : CacheSound ex matching c := by
    refine Reaches.invariant (fun _ c => CacheSound ex matching c) (CacheSound.new config) ?_ h
    intro es c ev c' hc hmeets hstep
    subst hstep
    exact cacheStep_sound hex hc hmeets
  exact fun key e he => (hsound.sound key e he).toTracks

end Steps

section Decidable

variable (ex : QueryExecutor) (matching : UnifiedKey → Bitmap) (c : UnifiedCache) (key : UnifiedKey)

instance decidableFits (sf : SortField) (cursor : Option CursorPosition) :
    Decidable (CursorPosition.Fits sf cursor) := by
  unfold CursorPosition.Fits
  infer_instance

attribute [mk_iff] Contiguous PageInside QueryMeets PrefetchMeets

instance decidableContiguous (bitmap : Bitmap) (e : UnifiedEntry) (cursor : Option CursorPosition) (room : Nat) :
    Decidable (Contiguous ex key bitmap e cursor room) :=
  decidable_of_iff _ (contiguous_iff ex key bitmap e cursor room).symm

instance decidablePageInside (e : UnifiedEntry) (query : BitdexQuery) : Decidable (PageInside ex key e query) :=
  decidable_of_iff _ (pageInside_iff ex key e query).symm

instance decidableForallOk {ε : Type} (answer : Except ε (Bitmap × Bool)) (P : Bitmap → Prop) [DecidablePred P] :
    Decidable (∀ bitmap simple, answer = .ok (bitmap, simple) → P bitmap) :=
  match answer with
  | .error _ => isTrue nofun
  | .ok (bitmap, _) => decidable_of_iff (P bitmap) ⟨fun h _ _ ha => by cases ha; exact h, fun h => h _ _ rfl⟩

variable [Host]

instance decidableQueryMeets (query : BitdexQuery) : Decidable (QueryMeets ex matching c query key) :=
  decidable_of_iff _ (queryMeets_iff ex matching c query key).symm

instance decidablePrefetchMeets : Decidable (PrefetchMeets ex matching c key) :=
  decidable_of_iff _ (prefetchMeets_iff ex matching c key).symm

instance decidableCacheMeets (ev : CacheEvent) : Decidable (ev.Meets ex matching c) :=
  match ev with
  | .query q _ => inferInstanceAs (Decidable (∀ key ∈ q.key? ex, QueryMeets ex matching c q key))
  | .prefetch key => inferInstanceAs (Decidable (PrefetchMeets ex matching c key))

end Decidable

/-! ## Two expansions that break an entry, and one that does not -/

section Samples

attribute [local instance] Host.ascii

/-- Six slots with values 5, 4, 3, 3, 3 and 1, in a sort field of three layers. -/
def sixSlots : QueryExecutor where
  slots := ⟨7, .new {1, 2, 3, 4, 5, 6}, []⟩
  filters := ⟨∅⟩
  sorts := ⟨(∅ : HashMap String SortField).insert "v"
    ⟨[.new {1, 3, 4, 5, 6}, .new {3, 4, 5}, .new {1, 2}]⟩⟩
  maxPageSize := 100
  tables := .empty

theorem sixSlots_valid : sixSlots.Valid := by
  have hall : ∀ f sf, sixSlots.sorts.fields.lookup f = some sf → sf.numBits ≤ 32 := by decide
  exact ⟨by decide, hall⟩

theorem sixSlots_resolve :
    sixSlots.resolveFilters (sixSlots.tables.snapRangeClauses []) = .ok ({1, 2, 3, 4, 5, 6}, true) := by
  decide +kernel

/-- The unfiltered result by value, highest first. -/
def byValueKey : UnifiedKey := ⟨[], "v", .desc⟩

/-- A page of the unfiltered result. -/
def byValuePage (limit : Nat) (cursor : Option CursorPosition) : CacheEvent :=
  .query ⟨[], some ⟨"v", .desc⟩, limit, cursor, none, false⟩ ⟨[], true⟩

/-- An entry seeded with one slot and expanded from a cursor at value 3, slot 3, holds the first and last of six
slots. One seeded with three slots, the last with value 3, and expanded by a prefetch misses the other two of that
value and claims to be complete. -/
theorem expansions_leave_gaps : sixSlots.resolveFilters [] = .ok ({1, 2, 3, 4, 5, 6}, true) ∧
    (∃ e, ([byValuePage 1 none, byValuePage 1 (some ⟨3, 3⟩)].foldl (cacheStep sixSlots)
        (.new { initialCapacity := 1, maxCapacity := 2 })).entries.lookup byValueKey = some e ∧
      e.bitmap = {1, 6} ∧ ¬ Tracks sixSlots byValueKey {1, 2, 3, 4, 5, 6} e) ∧
    (∃ e, ([byValuePage 1 none, .prefetch byValueKey].foldl (cacheStep sixSlots)
        (.new { initialCapacity := 3, maxCapacity := 6 })).entries.lookup byValueKey = some e ∧
      e.bitmap = {1, 2, 5, 6} ∧ e.hasMore = false ∧ ¬ Tracks sixSlots byValueKey {1, 2, 3, 4, 5, 6} e) := by
  refine ⟨by decide +kernel, ?_, ?_⟩
  · obtain ⟨e, he, hbm⟩ : ∃ e, ([byValuePage 1 none, byValuePage 1 (some ⟨3, 3⟩)].foldl (cacheStep sixSlots)
        (.new { initialCapacity := 1, maxCapacity := 2 })).entries.lookup byValueKey = some e ∧
        e.bitmap = {1, 6} := by decide +kernel
    refine ⟨e, he, hbm, fun h => ?_⟩
    have hseg := h.segment
    rw [hbm] at hseg
    revert hseg
    decide +kernel
  · obtain ⟨e, he, hbm, hmore⟩ : ∃ e, ([byValuePage 1 none, .prefetch byValueKey].foldl (cacheStep sixSlots)
        (.new { initialCapacity := 3, maxCapacity := 6 })).entries.lookup byValueKey = some e ∧
        e.bitmap = {1, 2, 5, 6} ∧ e.hasMore = false := by decide +kernel
    refine ⟨e, he, hbm, hmore, fun h => ?_⟩
    have hall := h.complete hmore
    rw [hbm] at hall
    revert hall
    decide +kernel

/-- Paging on from the entry's own last slot meets the condition: the entry seeded with the first slot is
expanded to the first two. -/
theorem cache_tracks_next_page : ∃ e, ([byValuePage 1 none, byValuePage 1 (some ⟨5, 1⟩)].foldl (cacheStep sixSlots)
        (.new { initialCapacity := 1, maxCapacity := 2 })).entries.lookup byValueKey = some e ∧
      e.bitmap = {1, 2} ∧ Tracks sixSlots byValueKey {1, 2, 3, 4, 5, 6} e := by
  -- the first page finds no entry, the second one that holds everything up to its cursor
  have hreach : Reaches (fun c ev c' => cacheStep sixSlots c ev = c')
      (CacheEvent.Meets sixSlots fun _ => {1, 2, 3, 4, 5, 6})
      (.new { initialCapacity := 1, maxCapacity := 2 })
      [byValuePage 1 none, byValuePage 1 (some ⟨5, 1⟩)] _ :=
    (Reaches.start.next (by decide +kernel) rfl).next (by decide +kernel) rfl
  obtain ⟨e, he, hbm⟩ : ∃ e, ([byValuePage 1 none, byValuePage 1 (some ⟨5, 1⟩)].foldl (cacheStep sixSlots)
      (.new { initialCapacity := 1, maxCapacity := 2 })).entries.lookup byValueKey = some e ∧
      e.bitmap = {1, 2} := by decide +kernel
  exact ⟨e, he, hbm, cache_tracks sixSlots_valid hreach byValueKey e he⟩

end Samples

end Bitdex
