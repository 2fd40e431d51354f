import Bitdex.Engine.CacheRun

/-!
# `Engine.Offset` — pages at an offset

A query without a cursor may ask for the page at an offset. The engine enlarges the limit by the offset, fetches a
page from the start and drops its first `offset` slots (`concurrent_engine.rs`). Every page function clamps the
enlarged page to the page limit, a seed has only the first slots of the result, an entry only those it holds. Two
paths return before the slots are dropped: a page that uses an entry up, and a caller that does not win the rebuild of
a flagged entry. An entry that cannot follow its time buckets is flagged as it is read or seeded: the read still
serves it, but an expansion does not find it.
-/

namespace Bitdex

open Enumeration QueryExecutor List Option Finset Except

/-! ## The page at an offset -/

/-- The slots with ranks `offset` to `offset + limit - 1` of the ranked result, with the last one's position, or no
cursor if nothing is left. -/
structure OffsetPage (ex : QueryExecutor) (key : UnifiedKey) (matching : Bitmap) (offset limit : Nat)
    (r : QueryResult) : Prop where
  ids_eq : r.ids = ((ranked key.direction.descending (ex.sortValue key.sortField) matching).drop
    offset).take limit
  cursor_eq : r.cursor = cursorAtLast (ex.sortValue key.sortField) r.ids ∨
    (r.cursor = none ∧ matching.card ≤ offset + limit)

/-- The first `bound` of `total` slots have the page at an offset: they reach its end or the result's, or nothing is
there. -/
def CutHasPage (total offset limit bound : Nat) : Prop := min (offset + limit) total ≤ bound ∨ total ≤ offset

theorem cursorAtLast_eq_none_iff {value : UInt32 → Nat} {ids : List UInt32} :
    cursorAtLast value ids = none ↔ ids = [] := by
  rw [cursorAtLast, map_eq_none_iff, getLast?_eq_none_iff]

section Cut

variable {ex : QueryExecutor} {key : UnifiedKey} {matching bitmap : Bitmap} {offset limit m : Nat}
  {r : QueryResult} {sf : SortField}

theorem length_ranked (descending : Bool) (value : UInt32 → Nat) (bitmap : Bitmap) :
    (ranked descending value bitmap).length = bitmap.card :=
  length_enumerate bitmap

theorem IsPage.ids_first (hpage : IsPage ex key bitmap none limit r) :
    r.ids = (keyRanked ex key bitmap).take (min limit ex.maxPageSize) := by
  rw [hpage.ids_eq, slotsAfter_none]

theorem IsPage.cursor_first (hpage : IsPage ex key bitmap none limit r) :
    r.cursor = cursorAtLast (ex.sortValue key.sortField) r.ids ∨
      (r.cursor = none ∧ bitmap.card ≤ min limit ex.maxPageSize) := by
  have hcursor := hpage.cursor_eq
  rwa [slotsAfter_none, length_ranked] at hcursor

theorem card_filter_afterKey_none (bitmap : Bitmap) : (bitmap.filter (afterKey ex key none)).card = bitmap.card := by
  rw [filter_true_of_mem]
  intro x _
  trivial

theorem ids_applyOffset (sort : Option SortClause) (offset : Nat) (r : QueryResult) :
    (ex.applyOffset sort offset r).ids = r.ids.drop offset := by
  unfold applyOffset
  split
  · split
    · next hle => exact (drop_eq_nil_of_le hle).symm
    · rfl
  · next hnot =>
    rcases Nat.eq_zero_or_pos offset with rfl | hpos
    · rfl
    · have hnil : r.ids = [] := by_contra fun hne => hnot ⟨hpos, hne⟩
      rw [hnil, drop_nil]

theorem cursor_applyOffset (hsf : ex.sorts.getField key.sortField = some sf) (hoffset : 0 < offset)
    (hempty : r.ids = [] → r.cursor = none) : (ex.applyOffset (some key.sort) offset r).cursor =
      cursorAtLast (ex.sortValue key.sortField) (r.ids.drop offset) := by
  have hfield : (some key.sort).bind (fun s => ex.sorts.getField s.field) = some sf := hsf
  unfold applyOffset
  split
  · split
    · next hle =>
      rw [drop_eq_nil_of_le hle]
      rfl
    · rw [hfield, sortValue_key hsf]
      rfl
  · next hnot =>
    have hnil : r.ids = [] := by_contra fun hne => hnot ⟨hoffset, hne⟩
    rw [hnil, drop_nil, hempty hnil]
    rfl

/-- **What is left of a leading part** of the result after its first `offset` slots is the page at that offset if the
part has it. The cursor is computed anew unless the offset is 0. -/
theorem offsetPage_applyOffset_iff (hsf : ex.sorts.getField key.sortField = some sf)
    (hlimit : 0 < limit) (hm : m ≤ offset + limit) (hids : r.ids = (keyRanked ex key matching).take m)
    (hcursor : r.cursor = cursorAtLast (ex.sortValue key.sortField) r.ids ∨ r.cursor = none) :
    OffsetPage ex key matching offset limit (ex.applyOffset (some key.sort) offset r) ↔
      CutHasPage matching.card offset limit m ∧
        (offset = 0 → r.cursor = cursorAtLast (ex.sortValue key.sortField) r.ids ∨ matching.card ≤ limit) := by
  have hcut : (ex.applyOffset (some key.sort) offset r).ids =
      ((keyRanked ex key matching).drop offset).take limit ↔ CutHasPage matching.card offset limit m := by
    rw [ids_applyOffset, hids, drop_take_eq_cut_iff hm hlimit, length_ranked]
    rfl
  rcases Nat.eq_zero_or_pos offset with rfl | hpos
  · have hsame : ex.applyOffset (some key.sort) 0 r = r := by
      simp [applyOffset]
    constructor
    · intro h
      refine ⟨hcut.mp h.ids_eq, fun _ => h.cursor_eq.imp_right fun ⟨_, hle⟩ => ?_⟩
      rwa [Nat.zero_add] at hle
    · rintro ⟨hhas, hlast⟩
      refine ⟨hcut.mpr hhas, ?_⟩
      rcases hcursor with hat | hnone
      · exact .inl hat
      · refine (hlast rfl).imp_right fun hle => ⟨hnone, ?_⟩
        rwa [Nat.zero_add]
  · have hempty : r.ids = [] → r.cursor = none := by
      intro hnil
      rcases hcursor with hat | hnone
      · rw [hat, hnil]
        rfl
      · exact hnone
    constructor
    · intro h
      exact ⟨hcut.mp h.ids_eq, fun hzero => absurd hzero hpos.ne'⟩
    · rintro ⟨hhas, -⟩
      refine ⟨hcut.mpr hhas, .inl ?_⟩
      rw [cursor_applyOffset hsf hpos hempty, ids_applyOffset]

/-- **A leading part that nothing is dropped from** is the page at an offset only if the offset is 0 or
the result is empty. -/
theorem offsetPage_undropped_iff (hm : 0 < m) (hml : m ≤ offset + limit)
    (hids : r.ids = (keyRanked ex key matching).take m)
    (hcursor : r.cursor = cursorAtLast (ex.sortValue key.sortField) r.ids) :
    OffsetPage ex key matching offset limit r ↔ matching.card = 0 ∨ (offset = 0 ∧ min limit matching.card ≤ m) := by
  have hnodup : (keyRanked ex key matching).Nodup := nodup_enumerate matching
  have hcut := take_eq_cut_iff hnodup hm hml
  rw [← length_eq_zero_iff, length_ranked] at hcut
  rw [← hcut]
  constructor
  · intro h
    exact hids.symm.trans h.ids_eq
  · intro h
    exact ⟨hids.trans h, .inl hcursor⟩

end Cut

/-- A first page of `n` slots uses the entry up: it has all of its packed keys, and the entry not the whole result. -/
def UnifiedEntry.UsedUp (e : UnifiedEntry) (n : Nat) : Prop :=
  e.hasMore = true ∧ e.sortedKeys ≠ none ∧ e.bitmap ≠ ∅ ∧ e.bitmap.card ≤ n

/-- The entry under a key as a call reads it. -/
def QueryExecutor.readFound (ex : QueryExecutor) (diffs : String → Option PendingBucketDiffs) (bucketCutoff : Nat)
    (key : UnifiedKey) (found : UnifiedEntry) : UnifiedEntry :=
  found.readAt (key.diffState diffs) bucketCutoff (ex.tables.ownBucketLive key.bucketNames)

/-- A page that uses the entry up is served again, at offset 0, if the entry and its room reach the end of the page.
It is served as it is, without a cursor, if the entry was flagged, so it must be the whole result. -/
def UnifiedEntry.ServesAgain (e : UnifiedEntry) (total limit : Nat) : Prop :=
  if e.needsRebuild then total ≤ limit ∧ total ≤ e.bitmap.card
  else min limit total ≤ max e.bitmap.card (e.maxCapacity - e.capacity)

/-- **The condition on a hit.** The entry reaches the end of the page at the offset; a page that uses it up is at
offset 0. -/
def HitMeets (ex : QueryExecutor) (e : UnifiedEntry) (matching : Bitmap) (query : BitdexQuery) : Prop :=
  (e.UsedUp (min query.fetchLimit ex.maxPageSize) →
    query.pageOffset = 0 ∧ e.ServesAgain matching.card query.limit) ∧
  (¬ e.UsedUp (min query.fetchLimit ex.maxPageSize) →
    CutHasPage matching.card query.pageOffset query.limit (min ex.maxPageSize e.bitmap.card))

/-- **The condition on a miss.** The seed reaches the end of the page, and past it if the offset is 0; one flagged at
once leaves the page to the filter result. A caller that does not rebuild the entry must ask for offset 0. -/
def MissMeets (ex : QueryExecutor) (diffs : String → Option PendingBucketDiffs) (c : UnifiedCache) (key : UnifiedKey)
    (matching : Bitmap) (query : BitdexQuery) (choices : Choices) : Prop :=
  if c.shouldRebuildSingleFlight key choices.startRebuild then
    if (key.diffState diffs).isRebuild then
      CutHasPage matching.card query.pageOffset query.limit ex.maxPageSize
    else
      matching.card = 0 ∨
        (CutHasPage matching.card query.pageOffset query.limit (min ex.maxPageSize c.config.initialCapacity) ∧
          (query.pageOffset = 0 → matching.card ≤ c.config.initialCapacity ∨
            query.limit < c.config.initialCapacity))
  else matching.card = 0 ∨ query.pageOffset = 0

/-- **The condition**, path by path. Around the cache the clamped page reaches as far as the page at the offset. -/
def OffsetMeets (ex : QueryExecutor) (diffs : String → Option PendingBucketDiffs) (bucketCutoff : Nat)
    (c : UnifiedCache) (key : UnifiedKey) (matching : Bitmap) (query : BitdexQuery) (choices : Choices) : Prop :=
  if query.skipCache then
    CutHasPage matching.card query.pageOffset query.limit ex.maxPageSize
  else
    match c.lookup key with
    | some found => HitMeets ex (ex.readFound diffs bucketCutoff key found) matching query
    | none =>
      if matching.card < c.config.minFilterSize then
        CutHasPage matching.card query.pageOffset query.limit ex.maxPageSize
      else MissMeets ex diffs c key matching query choices

section Paths

variable [Host] {ex : QueryExecutor} {c c' : UnifiedCache} {key : UnifiedKey} {matching : Bitmap}
  {query : BitdexQuery} {filters : List FilterClause} {sort : SortClause} {e : UnifiedEntry}
  {r : QueryResult} {sf : SortField} {config : UnifiedCacheConfig} {simple : Bool} {choices : Choices}
  {diffs : String → Option PendingBucketDiffs} {bucketCutoff : Nat}
  (hex : ex.Valid) (hsf : ex.sorts.getField key.sortField = some sf)
  (hcursor : query.cursor = none) (hlimit : 0 < query.limit) (hmax : query.limit ≤ ex.maxPageSize)

omit [Host] in
theorem fits_none (sf : SortField) : CursorPosition.Fits sf none := by
  intro c hc
  cases hc

include hex hsf hcursor hlimit hmax

omit [Host] hmax in
/-- **A page of the filter result itself.** -/
theorem executeFromBitmap_offset_iff {r₀ : QueryResult}
    (hr₀ : ex.executeFromBitmap matching (some key.sort) query.fetchLimit query.cursor simple = .ok r₀) :
    OffsetPage ex key matching query.pageOffset query.limit
        (ex.applyOffset (some key.sort) query.pageOffset { r₀ with totalMatched := matching.card }) ↔
      CutHasPage matching.card query.pageOffset query.limit ex.maxPageSize := by
  rw [hcursor] at hr₀
  obtain ⟨hpage, hlast⟩ := executeFromBitmap_page hex hsf (fits_none sf) hr₀
  have hfetch : query.fetchLimit = query.limit + query.pageOffset := rfl
  rw [offsetPage_applyOffset_iff (r := { r₀ with totalMatched := matching.card }) hsf hlimit
    (by omega) hpage.ids_first (.inl hlast)]
  unfold CutHasPage
  constructor
  · rintro ⟨hhas, -⟩
    omega
  · intro hhas
    exact ⟨by omega, fun _ => .inl hlast⟩

omit [Host] hmax in
theorem servePlain_offset_iff (hsort : query.sort = some key.sort)
    (h : ex.servePlain c query matching simple = .ok (r, c')) :
    OffsetPage ex key matching query.pageOffset query.limit r ↔
      CutHasPage matching.card query.pageOffset query.limit ex.maxPageSize := by
  obtain ⟨-, r₀, hr₀, rfl⟩ := servePlain_inv h
  rw [hsort] at hr₀ ⊢
  exact executeFromBitmap_offset_iff hex hsf hcursor hlimit hr₀

omit [Host] in
/-- A first page of a sound entry uses it up exactly if `UsedUp` says so. -/
theorem wallHit_iff (hsound : Sound ex key matching config e)
    (hr : ex.serveEntry e key.sort query.fetchLimit none = .ok r) :
    wallHit query e r = true ↔ e.UsedUp (min query.fetchLimit ex.maxPageSize) := by
  have hfetch : query.fetchLimit = query.limit + query.pageOffset := rfl
  have hpos : 0 < min query.fetchLimit ex.maxPageSize := by omega
  obtain ⟨hpage, hkeys, hnokeys⟩ := serveEntry_page hex hsf (fits_none sf) hsound (by omega) hr
  have hids : r.ids = [] ↔ e.bitmap = ∅ := by
    rw [hpage.ids_first, take_eq_nil_iff]
    exact (or_iff_right hpos.ne').trans enumerate_eq_nil_iff
  have hwall : wallHit query e r = true ↔ e.hasMore = true ∧ r.cursor = none ∧ r.ids ≠ [] := by
    simp [wallHit, hcursor]
  rw [hwall]
  constructor
  · rintro ⟨hmore, hnone, hne⟩
    have hnotLast : r.cursor ≠ cursorAtLast (ex.sortValue key.sortField) r.ids := by
      intro hlast
      exact hne (cursorAtLast_eq_none_iff.mp (hlast.symm.trans hnone))
    refine ⟨hmore, fun hno => hnotLast (hnokeys hno), fun hempty => hne (hids.mpr hempty), ?_⟩
    exact (hpage.cursor_first.resolve_left hnotLast).2
  · rintro ⟨hmore, hsome, hne, hle⟩
    refine ⟨hmore, ?_, fun hnil => hne (hids.mp hnil)⟩
    by_contra hcur
    have hlt := hkeys hsome hcur
    rw [card_filter_afterKey_none] at hlt
    omega

omit [Host] hcursor hmax in
/-- **A first page that a sound entry serves**, before anything is expanded. -/
theorem serveEntry_offset_iff (hsound : Sound ex key matching config e)
    (hr : ex.serveEntry e key.sort query.fetchLimit none = .ok r) {total : Nat} :
    OffsetPage ex key matching query.pageOffset query.limit
        (ex.applyOffset (some key.sort) query.pageOffset { r with totalMatched := total }) ↔
      CutHasPage matching.card query.pageOffset query.limit (min ex.maxPageSize e.bitmap.card) ∧
        (query.pageOffset = 0 → r.cursor = cursorAtLast (ex.sortValue key.sortField) r.ids ∨
          matching.card ≤ query.limit) := by
  have hfetch : query.fetchLimit = query.limit + query.pageOffset := rfl
  obtain ⟨hpage, -⟩ := serveEntry_page hex hsf (fits_none sf) hsound (by omega) hr
  have hids : r.ids = (keyRanked ex key matching).take (min (min query.fetchLimit ex.maxPageSize) e.bitmap.card) := by
    have hsegment : keyRanked ex key e.bitmap = (keyRanked ex key matching).take e.bitmap.card :=
      hsound.initial.enumerate_eq_take
    rw [hpage.ids_first, hsegment, take_take]
  rw [offsetPage_applyOffset_iff (r := { r with totalMatched := total }) hsf hlimit (by omega) hids
    (hpage.cursor_first.imp_right And.left)]
  refine and_congr_left fun _ => ?_
  unfold CutHasPage
  omega

section Seed

variable {ids : List UInt32} {hasMore : Bool} {total : Nat}
  (hids : ids = (keyRanked ex key matching).take c.config.initialCapacity)

include hids

omit [Host] hex hsf hcursor hlimit hmax in
theorem card_formEntry_seed : (c.formEntry key ids hasMore total filters (ex.sortValue key.sortField)).bitmap.card =
      min c.config.initialCapacity matching.card := by
  show (ids.take c.config.initialCapacity).toFinset.card = _
  rw [hids, take_take, Nat.min_self, toFinset_card_of_nodup, length_take, length_ranked]
  exact (nodup_enumerate matching).sublist (take_sublist _ _)

omit [Host] hcursor in
/-- At offset 0 the packed keys of a seed come with a cursor only if the page ends inside the seed. -/
theorem serveSeed_cursor_iff (hsound : Sound ex key matching c.config
      (c.formEntry key ids hasMore total filters (ex.sortValue key.sortField)))
    (hr : ex.serveEntry (c.formEntry key ids hasMore total filters (ex.sortValue key.sortField))
      key.sort query.fetchLimit none = .ok r) (hsome : matching.card ≠ 0) (hcap : 0 < c.config.initialCapacity)
    (hzero : query.pageOffset = 0) : r.cursor = cursorAtLast (ex.sortValue key.sortField) r.ids ↔
      query.limit < min c.config.initialCapacity matching.card := by
  have hfetch : query.fetchLimit = query.limit + query.pageOffset := rfl
  have hcard : (c.formEntry key ids hasMore total filters (ex.sortValue key.sortField)).bitmap.card =
      min c.config.initialCapacity matching.card :=
    card_formEntry_seed hids
  obtain ⟨hpage, hkeys, -⟩ := serveEntry_page hex hsf (fits_none sf) hsound (by omega) hr
  constructor
  · intro hlast
    have hne : r.ids ≠ [] := by
      intro hnil
      have hlen := congrArg length (hpage.ids_first.symm.trans hnil)
      rw [length_take, length_ranked, hcard, length_nil] at hlen
      omega
    have hsomeKeys : (c.formEntry key ids hasMore total filters
        (ex.sortValue key.sortField)).sortedKeys ≠ none := by
      show (if ids.take c.config.initialCapacity = [] then none else some _) ≠ none
      rw [if_neg]
      · exact some_ne_none _
      · intro hnil
        have hlen := congrArg length hnil
        rw [hids, take_take, length_take, length_ranked, length_nil] at hlen
        omega
    have hinside := hkeys hsomeKeys fun hnone =>
      hne (cursorAtLast_eq_none_iff.mp (hlast.symm.trans hnone))
    rw [card_filter_afterKey_none, hcard] at hinside
    omega
  · intro hlt
    refine hpage.cursor_first.resolve_right fun ⟨_, hle⟩ => ?_
    rw [hcard] at hle
    omega

end Seed

omit [Host] in
/-- A seed that is served. -/
theorem serveSeed_offset_iff {seed r₀ : QueryResult} (hsome : matching.card ≠ 0)
    (hseed : ex.executeFromBitmapUnclamped matching (some key.sort) c.config.initialCapacity none simple = .ok seed)
    (hr₀ : ex.serveEntry (c.formEntry key seed.ids (decide (matching.card > seed.ids.length)) matching.card filters
      (ex.sortValue key.sortField)) key.sort query.fetchLimit query.cursor = .ok r₀) :
    OffsetPage ex key matching query.pageOffset query.limit
        (ex.applyOffset (some key.sort) query.pageOffset { r₀ with totalMatched := matching.card }) ↔
      matching.card = 0 ∨ (CutHasPage matching.card query.pageOffset query.limit
            (min ex.maxPageSize c.config.initialCapacity) ∧
          (query.pageOffset = 0 → matching.card ≤ c.config.initialCapacity ∨
            query.limit < c.config.initialCapacity)) := by
  obtain ⟨hids, hsound⟩ := @formEntry_seed_sound ex (fun _ => matching) c key filters hex simple seed hseed
  rw [hcursor] at hr₀
  rw [serveEntry_offset_iff hex hsf hlimit hsound hr₀, card_formEntry_seed hids]
  have hlast := fun hzero hcap =>
    serveSeed_cursor_iff hex hsf hlimit hmax hids hsound hr₀ hsome hcap hzero
  unfold CutHasPage
  rcases Nat.eq_zero_or_pos c.config.initialCapacity with hnocap | hcap
  · -- a seed of no slots has the page only if nothing is at the offset
    constructor
    · rintro ⟨hhas, -⟩
      exact .inr ⟨by omega, fun hzero => by omega⟩
    · rintro (hzero | ⟨hhas, -⟩)
      · exact absurd hzero hsome
      · exact ⟨by omega, fun hzero => by omega⟩
  · constructor
    · rintro ⟨hhas, hcur⟩
      refine .inr ⟨by omega, fun hzero => ?_⟩
      have hend := hcur hzero
      rw [hlast hzero hcap] at hend
      omega
    · rintro (hzero | ⟨hhas, hcur⟩)
      · exact absurd hzero hsome
      · refine ⟨by omega, fun hzero => ?_⟩
        have hend := hcur hzero
        rw [hlast hzero hcap]
        omega

omit [Host] in
/-- **A miss** of a caller that may seed the entry, or of one that may not. -/
theorem seedAndServe_offset_iff
    (h : ex.seedAndServe diffs c query filters key key.sort matching simple choices = .ok (r, c')) :
    OffsetPage ex key matching query.pageOffset query.limit r ↔ MissMeets ex diffs c key matching query choices := by
  have hfetch : query.fetchLimit = query.limit + query.pageOffset := rfl
  unfold MissMeets
  obtain ⟨hlost, -, r₀, hr₀, rfl⟩ | ⟨hwon, hzero, rfl, -⟩ | ⟨hwon, hsome, seed, hseed, -, r₀, hr₀, rfl⟩ :=
    seedAndServe_inv h
  · -- the page is served from the filter result, with nothing dropped
    rw [hcursor] at hr₀
    obtain ⟨hpage, hlast⟩ := executeFromBitmap_page hex hsf (fits_none sf) hr₀
    rw [if_neg (by simp [hlost]), offsetPage_undropped_iff
      (r := { r₀ with totalMatched := matching.card }) (by omega) (by omega) hpage.ids_first hlast]
    omega
  · -- an empty result has an empty page at every offset
    have hempty : matching = ∅ := card_eq_zero.mp hzero
    rw [if_pos hwon]
    refine iff_of_true ⟨?_, .inl rfl⟩ ?_
    · rw [hempty, ranked, enumerate_empty, drop_nil, take_nil]
    · split
      · exact .inr (hzero ▸ Nat.zero_le _)
      · exact .inl hzero
  · rw [if_pos hwon]
    split at hr₀
    · next hrebuild =>
      rw [if_pos hrebuild]
      exact executeFromBitmap_offset_iff hex hsf hcursor hlimit hr₀
    · next hkept =>
      rw [if_neg hkept]
      exact serveSeed_offset_iff hex hsf hcursor hlimit hmax hsome hseed hr₀

omit [Host] hcursor hlimit hmax in
/-- The entry after an expansion from the start: the longer of what it had and what was asked for. -/
theorem expandFrom_start (hsound : Sound ex key matching c.config e) (hlookup : c.lookup key = some e)
    {n : Nat} (h : ex.expandFrom c key key.sort matching simple n none = .ok c') :
    ∃ e', c'.lookup key = some e' ∧ (∀ r, e'.radix = some r → r = .fromBitmap e'.bitmap (ex.sortValue key.sortField)) ∧
      keyRanked ex key e'.bitmap = (keyRanked ex key matching).take (max e.bitmap.card n) := by
  rw [expandFrom_eq hex hsf (fits_none sf), slotsAfterKey, slotsAfter_none] at h
  rw [← ok.inj h]
  have hunion : keyRanked ex key (e.bitmap ∪ ((keyRanked ex key matching).take n).toFinset) = _ :=
    hsound.initial.enumerate_union_take
  dsimp only
  split
  · next hnil =>
    refine ⟨e, hlookup, hsound.radix_eq, ?_⟩
    rw [hnil, toFinset_nil, union_empty] at hunion
    exact hunion
  · refine ⟨e.expand _ _, ?_, fun r hr => (some.inj hr).symm, hunion⟩
    rw [UnifiedCache.lookup_expandFound, hlookup, map_some]

omit [Host] hcursor hlimit hmax in
/-- An expansion does not find a flagged entry. -/
theorem lookup_expandFrom_flagged (hlookup : c.lookup key = none) {n : Nat}
    (h : ex.expandFrom c key key.sort matching simple n none = .ok c') : c'.lookup key = none := by
  rw [expandFrom_eq hex hsf (fits_none sf)] at h
  rw [← ok.inj h]
  dsimp only
  split
  · exact hlookup
  · rw [UnifiedCache.lookup_expandFound, hlookup, map_none]

omit [Host] hsf hex hcursor hlimit hmax in
/-- **A page that is the whole entry**, without a cursor, is the page at an offset only if it is the whole result. -/
theorem offsetPage_whole_iff (hsound : Sound ex key matching config e) (hne : e.bitmap ≠ ∅)
    (hle : e.bitmap.card ≤ query.pageOffset + query.limit) (hids : r.ids = keyRanked ex key e.bitmap)
    (hnone : r.cursor = none) : OffsetPage ex key matching query.pageOffset query.limit r ↔
      query.pageOffset = 0 ∧ matching.card ≤ query.limit ∧ matching.card ≤ e.bitmap.card := by
  have hcard : 0 < e.bitmap.card := card_pos.mpr (nonempty_of_ne_empty hne)
  have hsub := card_le_card hsound.initial.subset
  have hsegment : keyRanked ex key e.bitmap = (keyRanked ex key matching).take e.bitmap.card :=
    hsound.initial.enumerate_eq_take
  have hnodup : (keyRanked ex key matching).Nodup := nodup_enumerate matching
  have hcut := take_eq_cut_iff hnodup hcard hle
  rw [← length_eq_zero_iff, length_ranked] at hcut
  have hcursor : cursorAtLast (ex.sortValue key.sortField) r.ids ≠ none := by
    rw [ne_eq, cursorAtLast_eq_none_iff, hids]
    exact fun hnil => hne (enumerate_eq_nil_iff.mp hnil)
  constructor
  · intro h
    have hmeets := hcut.mp (hsegment.symm.trans (hids.symm.trans h.ids_eq))
    obtain hlast | ⟨-, hend⟩ := h.cursor_eq
    · exact absurd (hlast.symm.trans hnone) hcursor
    · omega
  · rintro ⟨hzero, hlimit, hwhole⟩
    refine ⟨hids.trans (hsegment.trans (hcut.mpr (.inr ⟨hzero, by omega⟩))), .inr ⟨hnone, by omega⟩⟩

/-- **A hit**, served from the entry as it was read. -/
theorem serveHit_offset_iff (hkey : key = keyOf filters sort)
    (hlookup : c.lookup key = if e.needsRebuild then none else some e) (hsound : Sound ex key matching c.config e)
    (hanswer : ex.resolveFilters filters = .ok (matching, simple))
    (h : ex.serveHit c query filters sort e = .ok (r, c')) :
    OffsetPage ex key matching query.pageOffset query.limit r ↔ HitMeets ex e matching query := by
  subst hkey
  have hfetch : query.fetchLimit = query.limit + query.pageOffset := rfl
  obtain ⟨r₀, hr₀, ⟨hwall, -, rfl⟩ | ⟨hwall, filterArc, simple', hfilter, hexpand, r₁, hr₁, rfl⟩⟩ := serveHit_inv h
  · rw [hcursor] at hr₀
    have hnot : ¬ e.UsedUp (min query.fetchLimit ex.maxPageSize) := by
      rw [← wallHit_iff hex hsf hcursor hlimit hmax hsound hr₀, hwall]
      exact Bool.false_ne_true
    obtain ⟨hpage, -, hnokeys⟩ := serveEntry_page hex hsf (fits_none sf) hsound (by omega) hr₀
    -- a page that comes without a cursor has the whole result
    have hend : query.pageOffset = 0 →
        r₀.cursor = cursorAtLast (ex.sortValue sort.field) r₀.ids ∨ matching.card ≤ query.limit := by
      intro hzero
      rcases hpage.cursor_first with hlast | ⟨hnone, hle⟩
      · exact .inl hlast
      · cases hmore : e.hasMore with
        | false =>
          rw [hsound.complete hmore] at hle
          exact .inr (by omega)
        | true =>
          left
          by_cases hno : e.sortedKeys = none
          · exact hnokeys hno
          · have hempty : e.bitmap = ∅ := by_contra fun hne => hnot ⟨hmore, hno, hne, hle⟩
            have hnil : r₀.ids = [] := by
              rw [hpage.ids_first, hempty, keyRanked, ranked, enumerate_empty, take_nil]
            rw [hnone, hnil]
            rfl
    refine (serveEntry_offset_iff hex hsf hlimit hsound hr₀).trans ?_
    exact ⟨fun hhas => ⟨fun hused => absurd hused hnot, fun _ => hhas.1⟩, fun hhas => ⟨hhas.2 hnot, hend⟩⟩
  · rw [hcursor] at hr₀
    have hused := (wallHit_iff hex hsf hcursor hlimit hmax hsound hr₀).mp hwall
    have hmeets : HitMeets ex e matching query ↔ query.pageOffset = 0 ∧ e.ServesAgain matching.card query.limit :=
      ⟨fun h => h.1 hused, fun h => ⟨fun _ => h, fun hnot => absurd hused hnot⟩⟩
    rw [hmeets, UnifiedEntry.ServesAgain]
    obtain ⟨rfl, -⟩ := Prod.mk.inj (ok.inj (hanswer.symm.trans hfilter))
    -- the page came without a cursor, so the entry is expanded from the start
    have hfirst : r₀.cursor = none := by
      simp only [wallHit, hcursor, isSome_none, Bool.and_false, Bool.or_false,
        Bool.and_eq_true, isNone_iff_eq_none] at hwall
      exact hwall.2.1
    have hnone : r₀.cursor.or query.cursor = none := by
      rw [hfirst, hcursor]
      rfl
    obtain ⟨hmore, hkeys, hne, hle⟩ := hused
    split
    · next hflagged =>
      -- the flagged entry is not found again, and the page stays what it is
      rw [if_pos hflagged] at hlookup
      rw [hnone] at hexpand
      rw [lookup_expandFrom_flagged hex hsf hlookup hexpand] at hr₁
      obtain rfl := ok.inj hr₁
      have hids := (serveEntry_page hex hsf (fits_none sf) hsound (by omega) hr₀).1.ids_first
      rw [take_of_length_le (by rw [keyRanked, length_ranked]; exact hle)] at hids
      exact offsetPage_whole_iff (r := { r₀ with totalMatched := matching.card }) hsound hne (by omega) hids hfirst
    · next hkept =>
      rw [if_neg hkept] at hlookup
      rw [hnone, ← hsound.maxCapacity_eq] at hexpand
      obtain ⟨e', he', hradix, hranked⟩ := expandFrom_start hex hsf hsound hlookup hexpand
      rw [he', hcursor] at hr₁
      obtain ⟨hpage, hlast⟩ := serveExpanded_page hex hsf (fits_none sf) hradix hr₁
      have hids := hpage.ids_first
      rw [hranked, take_take] at hids
      have hcard : 0 < e.bitmap.card := card_pos.mpr (nonempty_of_ne_empty hne)
      have hsub := card_le_card hsound.initial.subset
      rw [offsetPage_undropped_iff (r := { r₁ with totalMatched := matching.card }) (by omega) (by omega)
        hids hlast]
      omega

end Paths

/-! ## Offsets that are lost and one that is not -/

section Samples

attribute [local instance] Host.ascii

/-- A page of the six slots at an offset. -/
def byValueAt (offset limit : Nat) (skipCache : Bool) : BitdexQuery :=
  ⟨[], some ⟨"v", .desc⟩, limit, none, some offset, skipCache⟩

/-- The cache after one page of the six slots. -/
def sixSlotsCache (initialCapacity : Nat) : UnifiedCache :=
  cacheStep sixSlots (.new { initialCapacity := initialCapacity, maxCapacity := 6 }) (byValuePage 1 none)

/-- With two bucket clauses the seed is flagged at once, and the slot at offset 3 comes from the filter result. -/
example :
    let bucket := FilterClause.bucketBitmap "t" "day" {1, 2, 3, 4, 5, 6}
    let query := { byValueAt 3 1 false with filters := [bucket, bucket] }
    ((sixSlots.executeQuery (.new { initialCapacity := 3 }) query ⟨[], true⟩).toOption.map fun out => out.1.ids) =
      some [4] := by
  decide +kernel

end Samples

end Bitdex
