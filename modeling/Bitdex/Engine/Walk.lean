import Bitdex.Engine.CacheRun

/-!
# `Engine.Walk` — paging through a result by its cursors

A client asks for a page without a cursor and then for the next with the cursor of the last, until a page is empty or
has no cursor. Three things can keep the walk from enumerating the result: a page of a freshly seeded entry has no
cursor if it reaches the entry's last slot, an entry expanded once has no room left, and an entry may be expanded from
a cursor that leaves a gap. `Covers` says that the entry and its room reach as far as the page.
-/

namespace Bitdex

open Enumeration QueryExecutor List

section Exact

variable {ex : QueryExecutor} {key : UnifiedKey} {matching bitmap : Bitmap} {e e' : UnifiedEntry}
  {config : UnifiedCacheConfig} {cursor cursor' : Option CursorPosition} {limit n : Nat}
  {r : QueryResult}

/-- The page is the next cut of the result: its first slots after the cursor, with the last one's position, or no
cursor if nothing is left. -/
structure ExactPage (ex : QueryExecutor) (key : UnifiedKey) (matching : Bitmap)
    (cursor : Option CursorPosition) (limit : Nat) (r : QueryResult) : Prop where
  ids_eq : r.ids = (slotsAfter key.direction.descending (ex.sortValue key.sortField) matching
    cursor).take (min limit ex.maxPageSize)
  cursor_eq : r.cursor = cursorAtLast (ex.sortValue key.sortField) r.ids ∨
    (r.cursor = none ∧ r.ids =
      slotsAfter key.direction.descending (ex.sortValue key.sortField) matching cursor)

/-- The bitmap has as much of the result after the cursor as the page takes. -/
def Enough (ex : QueryExecutor) (key : UnifiedKey) (matching : Bitmap)
    (cursor : Option CursorPosition) (limit : Nat) (bitmap : Bitmap) : Prop :=
  min (min limit ex.maxPageSize) (matching.filter (afterKey ex key cursor)).card ≤
    (bitmap.filter (afterKey ex key cursor)).card

theorem Enough.mono (h : Enough ex key matching cursor limit e.bitmap)
    (hsub : e.bitmap ⊆ e'.bitmap) : Enough ex key matching cursor limit e'.bitmap :=
  h.trans (Finset.card_le_card (Finset.filter_subset_filter _ hsub))

/-- A page of an initial segment that has enough is a page of the whole. -/
theorem IsPage.ids_exact (hpage : IsPage ex key bitmap cursor limit r)
    (hinit : Initial (keyRank ex key) bitmap matching) (henough : Enough ex key matching cursor limit bitmap) :
    r.ids = (slotsAfterKey ex key matching cursor).take (min limit ex.maxPageSize) := by
  have hsegment : slotsAfter key.direction.descending (ex.sortValue key.sortField) bitmap cursor =
      (slotsAfterKey ex key matching cursor).take (bitmap.filter (afterKey ex key cursor)).card :=
    (hinit.filter (afterKey ex key cursor)).enumerate_eq_take
  rw [hpage.ids_eq, hsegment, take_take, take_eq_take_iff, length_slotsAfter]
  unfold Enough at henough
  omega

theorem IsPage.exact (hpage : IsPage ex key bitmap cursor limit r) (hinit : Initial (keyRank ex key) bitmap matching)
    (henough : Enough ex key matching cursor limit bitmap)
    (hcursor : r.cursor = cursorAtLast (ex.sortValue key.sortField) r.ids) :
    ExactPage ex key matching cursor limit r :=
  ⟨hpage.ids_exact hinit henough, .inl hcursor⟩

/-- A page of the whole result is exact. -/
theorem IsPage.exact_whole (hpage : IsPage ex key matching cursor limit r) :
    ExactPage ex key matching cursor limit r := by
  refine ⟨hpage.ids_eq, hpage.cursor_eq.imp_right fun ⟨hnone, hle⟩ => ⟨hnone, ?_⟩⟩
  rw [hpage.ids_eq, take_of_length_le hle]

/-- The cursor that a page hands on does not come before the one it was asked for. -/
theorem IsPage.later (hpage : IsPage ex key bitmap cursor limit r) {slot : UInt32}
    (h : afterKey ex key (r.cursor.or cursor) slot) : afterKey ex key cursor slot := by
  rcases hpage.cursor_eq with hlast | ⟨hnone, -⟩
  · rw [hlast, cursorAtLast] at h
    cases hids : r.ids.getLast? with
    | none =>
      rw [hids] at h
      exact h
    | some last =>
      rw [hids] at h
      have hmem := mem_of_getLast? hids
      rw [hpage.ids_eq] at hmem
      have hafter := (Finset.mem_filter.mp (mem_ranked.mp (mem_of_mem_take hmem))).2
      refine upClosed_afterKey cursor (a := last) ?_ hafter
      exact (posLe_total _ _ _).resolve_right (posLt_iff_not_posLe.mp h)
  · rw [hnone] at h
    exact h

/-- **What an expansion reaches.** Expanded by `n` slots from a cursor contiguous with it, an entry has `n` slots
after any earlier cursor, or all there are. -/
theorem Contiguous.reach (hcon : Contiguous ex key matching e cursor' n)
    (hlater : ∀ slot, afterKey ex key cursor' slot → afterKey ex key cursor slot)
    (hbitmap : e'.bitmap = e.bitmap ∪ ((slotsAfterKey ex key matching cursor').take n).toFinset) :
    min n (matching.filter (afterKey ex key cursor)).card ≤ (e'.bitmap.filter (afterKey ex key cursor)).card := by
  rw [slotsAfter_take_eq_window] at hbitmap
  by_cases hall : matching.filter (afterKey ex key cursor) ⊆ e'.bitmap.filter (afterKey ex key cursor)
  · exact (Nat.min_le_right _ _).trans (Finset.card_le_card hall)
  · -- a slot that is still missing lies past the window, so the window is full
    obtain ⟨slot, hslot, hmissing⟩ := Finset.not_subset.mp hall
    obtain ⟨hmatch, hafter⟩ := Finset.mem_filter.mp hslot
    have hnot : slot ∉ e'.bitmap := fun h => hmissing (Finset.mem_filter.mpr ⟨h, hafter⟩)
    rw [hbitmap, Finset.mem_union, not_or, mem_toFinset] at hnot
    have hafter' : afterKey ex key cursor' slot := by
      by_contra hbefore
      exact hnot.1 (hcon.no_gap slot hmatch hbefore)
    have hfull : (window (keyRank ex key) (afterKey ex key cursor') matching n).length = n := by
      rw [window, length_take]
      refine Nat.min_eq_left (Nat.le_of_not_lt fun hlt => hnot.2 ?_)
      rw [window, take_of_length_le hlt.le, mem_enumerate]
      exact Finset.mem_filter.mpr ⟨hmatch, hafter'⟩
    have hsub : (window (keyRank ex key) (afterKey ex key cursor') matching n).toFinset ⊆
        e'.bitmap.filter (afterKey ex key cursor) := by
      intro x hx
      rw [hbitmap, Finset.mem_filter]
      refine ⟨Finset.mem_union_right _ hx, hlater x ?_⟩
      rw [mem_toFinset] at hx
      exact (Finset.mem_filter.mp (mem_enumerate.mp (mem_of_mem_take hx))).2
    have hnodup : (window (keyRank ex key) (afterKey ex key cursor') matching n).Nodup :=
      (nodup_enumerate _).sublist (take_sublist n _)
    calc min n (matching.filter (afterKey ex key cursor)).card
        ≤ n := Nat.min_le_left _ _
      _ = (window (keyRank ex key) (afterKey ex key cursor') matching n).toFinset.card := by
          rw [toFinset_card_of_nodup hnodup, hfull]
      _ ≤ _ := Finset.card_le_card hsub

end Exact

section Paths

variable (ex : QueryExecutor) (matching : UnifiedKey → Bitmap)

/-- A page of `p` slots is in the entry, or there is room for what is left of the page or the result. -/
def HasRoom (key : UnifiedKey) (e : UnifiedEntry) (cursor : Option CursorPosition) (p : Nat) : Prop :=
  p ≤ (e.bitmap.filter (afterKey ex key cursor)).card ∨
    (e.bitmap ≠ ∅ ∧ min p ((matching key).filter (afterKey ex key cursor)).card ≤
      e.maxCapacity - e.capacity)

/-- **What a page of `p` slots after a cursor needs.** On a miss: a result too small to cache, one an entry holds
entirely, or a page that ends before the entry does. On a hit with more slots: an entry that has the page or room for
it. -/
structure Covers (c : UnifiedCache) (key : UnifiedKey) (cursor : Option CursorPosition) (p : Nat) :
    Prop where
  miss : c.lookup key = none → (matching key).card < c.config.minFilterSize ∨
    (matching key).card ≤ c.config.initialCapacity ∨
    ((matching key).filter fun slot => ¬ afterKey ex key cursor slot).card + p <
      c.config.initialCapacity
  hit : ∀ e, c.lookup key = some e → e.hasMore = true → HasRoom ex matching key e cursor p

variable {ex matching} {c c' : UnifiedCache} {key : UnifiedKey} {query : BitdexQuery}
  {filters : List FilterClause} {sort : SortClause} {e : UnifiedEntry} {r : QueryResult}
  {config : UnifiedCacheConfig} {sf : SortField} (hex : ex.Valid) (hsf : ex.sorts.getField key.sortField = some sf)
  (hfits : CursorPosition.Fits sf query.cursor) (hlimit : 0 < query.fetchLimit)

theorem applyOffset_zero (sort : Option SortClause) (r : QueryResult) : ex.applyOffset sort 0 r = r := by
  simp [applyOffset]

include hex hsf hfits

theorem executeFromBitmap_exact {simple : Bool}
    (h : ex.executeFromBitmap (matching key) (some key.sort) query.fetchLimit query.cursor simple =
      .ok r) : ExactPage ex key (matching key) query.cursor query.fetchLimit r :=
  (executeFromBitmap_page hex hsf hfits h).1.exact_whole

/-- A page of an expanded entry that has enough is exact. -/
theorem serveExpanded_exact (hsound : Sound ex key (matching key) config e)
    (henough : Enough ex key (matching key) query.cursor query.fetchLimit e.bitmap) {total : Nat}
    (h : ex.serveExpanded e key.sort query.fetchLimit query.cursor total = .ok r) :
    ExactPage ex key (matching key) query.cursor query.fetchLimit r := by
  obtain ⟨hpage, hcursor⟩ := serveExpanded_page hex hsf hfits hsound.radix_eq h
  exact hpage.exact hsound.initial henough hcursor

include hlimit

/-- A page of an entry that is complete, or that it ends inside, is exact. -/
theorem serveEntry_exact (hsound : Sound ex key (matching key) config e)
    (hinside : e.hasMore = false ∨ min query.fetchLimit ex.maxPageSize <
      (e.bitmap.filter (afterKey ex key query.cursor)).card)
    (h : ex.serveEntry e key.sort query.fetchLimit query.cursor = .ok r) :
    ExactPage ex key (matching key) query.cursor query.fetchLimit r := by
  obtain ⟨hpage, -⟩ := serveEntry_page hex hsf hfits hsound hlimit h
  rcases hinside with hnone | hlt
  · rw [hsound.complete hnone] at hpage
    exact hpage.exact_whole
  · refine hpage.exact hsound.initial ((Nat.min_le_left _ _).trans hlt.le) ?_
    refine hpage.cursor_eq.resolve_right fun ⟨_, hle⟩ => ?_
    rw [length_slotsAfter] at hle
    omega

/-- **A miss.** -/
theorem seedAndServe_exact (hoffset : query.pageOffset = 0) (hcover : (matching key).card ≤ c.config.initialCapacity ∨
      ((matching key).filter fun slot => ¬ afterKey ex key query.cursor slot).card +
        min query.fetchLimit ex.maxPageSize < c.config.initialCapacity) {simple : Bool} {choices : Choices}
    {diffs : String → Option PendingBucketDiffs}
    (h : ex.seedAndServe diffs c query filters key key.sort (matching key) simple choices = .ok (r, c')) :
    ExactPage ex key (matching key) query.cursor query.fetchLimit r := by
  obtain ⟨-, -, r₀, hr₀, rfl⟩ | ⟨-, hzero, rfl, -⟩ | ⟨-, -, seed, hseed, -, r₀, hr₀, rfl⟩ := seedAndServe_inv h
  · have hexact := executeFromBitmap_exact hex hsf hfits hr₀
    exact ⟨hexact.ids_eq, hexact.cursor_eq⟩
  · have hempty : matching key = ∅ := Finset.card_eq_zero.mp hzero
    have hnil : slotsAfter key.direction.descending (ex.sortValue key.sortField) (matching key)
        query.cursor = [] := by
      rw [slotsAfter, hempty, Finset.filter_empty, ranked, enumerate_empty]
    exact ⟨by rw [hnil, take_nil], .inr ⟨rfl, hnil.symm⟩⟩
  · split at hr₀
    · -- a seed that is flagged at once: the page comes from the filter result
      have hexact := executeFromBitmap_exact hex hsf hfits hr₀
      rw [hoffset]
      exact ⟨hexact.ids_eq, hexact.cursor_eq⟩
    · obtain ⟨hids, hsound⟩ := formEntry_seed_sound filters hex hseed
      have hlen : seed.ids.length = min c.config.initialCapacity (matching key).card := by
        rw [hids, length_take, keyRanked, ranked, length_enumerate]
      generalize he : c.formEntry key seed.ids (decide ((matching key).card > seed.ids.length)) (matching key).card
        filters (ex.sortValue key.sortField) = e at hsound
      have hinside : e.hasMore = false ∨
          min query.fetchLimit ex.maxPageSize < (e.bitmap.filter (afterKey ex key query.cursor)).card := by
        by_cases hfit : (matching key).card ≤ c.config.initialCapacity
        · left
          rw [← he]
          show decide ((matching key).card > seed.ids.length) = false
          rw [decide_eq_false_iff_not]
          omega
        · right
          -- of the seed at most what the result has at or before the cursor is not after it
          have hbitmap : e.bitmap = seed.ids.toFinset := by
            rw [← he]
            show (seed.ids.take c.config.initialCapacity).toFinset = _
            rw [take_of_length_le (by omega)]
          have hcard : seed.ids.toFinset.card = c.config.initialCapacity := by
            rw [toFinset_card_of_nodup]
            · omega
            · rw [hids]
              exact (nodup_enumerate _).sublist (take_sublist _ _)
          have hsub := Finset.card_le_card (Finset.filter_subset_filter
            (fun slot => ¬ afterKey ex key query.cursor slot) hsound.initial.subset)
          have hsplit := Finset.card_filter_add_card_filter_not (s := seed.ids.toFinset)
            (afterKey ex key query.cursor)
          rw [hbitmap] at hsub ⊢
          omega
      subst he
      have hexact := serveEntry_exact hex hsf hfits hlimit hsound hinside hr₀
      rw [hoffset]
      exact ⟨hexact.ids_eq, hexact.cursor_eq⟩

omit hlimit hex hsf hfits in
/-- After an expansion under the condition, the entry and the room it had cover the page. -/
theorem enough_of_expand {e' : UnifiedEntry} {cursor' : Option CursorPosition}
    (hcover : HasRoom ex matching key e query.cursor (min query.fetchLimit ex.maxPageSize))
    (hcontig : 0 < e.maxCapacity - e.capacity → Contiguous ex key (matching key) e cursor' (e.maxCapacity - e.capacity))
    (hlater : ∀ slot, afterKey ex key cursor' slot → afterKey ex key query.cursor slot)
    (hbitmap : e'.bitmap = e.bitmap ∪
      ((slotsAfterKey ex key (matching key) cursor').take (e.maxCapacity - e.capacity)).toFinset) :
    Enough ex key (matching key) query.cursor query.fetchLimit e'.bitmap := by
  have hsub : e.bitmap ⊆ e'.bitmap := by
    rw [hbitmap]
    exact Finset.subset_union_left
  rcases hcover with hin | ⟨-, hroom⟩
  · exact ((Nat.min_le_left _ _).trans hin).trans
      (Finset.card_le_card (Finset.filter_subset_filter _ hsub))
  · rcases Nat.eq_zero_or_pos (e.maxCapacity - e.capacity) with hzero | hpos
    · rw [hzero] at hroom
      exact hroom.trans (Nat.zero_le _)
    · have hreach := (hcontig hpos).reach hlater hbitmap
      unfold Enough
      omega

variable (hcover : e.hasMore = true → HasRoom ex matching key e query.cursor (min query.fetchLimit ex.maxPageSize))

include hcover

omit hlimit in
/-- **A hit that the cursor has left.** -/
theorem serveBounded_exact (hc : CacheSound ex matching c) (hlookup : c.lookup key = some e)
    (hpast : e.pastBoundary key.direction query.cursor = true)
    (hcontig : e.hasMore = true → e.capacity < e.maxCapacity →
      Contiguous ex key (matching key) e query.cursor (e.maxCapacity - e.capacity)) {simple : Bool}
    (h : ex.serveBounded c query key key.sort e (matching key) simple = .ok (r, c')) :
    ExactPage ex key (matching key) query.cursor query.fetchLimit r := by
  have hsound := hc.found hlookup
  obtain ⟨effective, useSimple, c₁, r₀, hbounded, hr₀, hcases⟩ := serveBounded_inv h
  cases hmore : e.hasMore with
  | false =>
    -- the entry is the whole result
    rw [boundedBitmap_complete hmore] at hbounded
    cases hbounded
    rw [hsound.complete hmore] at hr₀ hcases
    obtain ⟨rfl, -⟩ | ⟨htrue, -⟩ | ⟨-, hlt, -⟩ := hcases
    · exact executeFromBitmap_exact hex hsf hfits hr₀
    · rw [hmore] at htrue
      cases htrue
    · exact absurd hlt (Nat.lt_irrefl _)
  | true =>
    obtain ⟨hc₁, e₁, he₁, rfl, hbitmap₁, hcon₁, hroom₁⟩ :=
      boundedBitmap_sound hex hc hlookup hpast hmore (hcontig hmore) hbounded
    have hsound₁ := hc₁.found he₁
    have henough₁ : Enough ex key (matching key) query.cursor query.fetchLimit e₁.bitmap :=
      enough_of_expand (hcover hmore) (fun hpos => hcontig hmore (by omega)) (fun _ h => h)
        hbitmap₁
    obtain ⟨rfl, -⟩ | ⟨-, hexpand, hr⟩ | ⟨hfalse, -⟩ := hcases
    · obtain ⟨hpage, hcursor⟩ := executeFromBitmap_page hex hsf hfits hr₀
      exact hpage.exact hsound₁.initial henough₁ hcursor
    · rw [← hsound.maxCapacity_eq] at hexpand
      obtain ⟨hc₂, e₂, he₂, hbitmap₂, -⟩ := hc₁.expandFrom hex he₁
        (fun hpos => contiguous_of_bounded hex hsf hsound₁ (hcon₁ hpos) hr₀) hroom₁ hexpand
      have hsub : e₁.bitmap ⊆ e₂.bitmap := by
        rw [hbitmap₂]
        exact Finset.subset_union_left
      rw [he₂, Option.elim_some] at hr
      exact serveExpanded_exact hex hsf hfits (hc₂.found he₂) (henough₁.mono hsub) hr
    · rw [hmore] at hfalse
      cases hfalse

/-- A page that did not use the entry up is exact if the entry has room for it. -/
theorem exact_of_not_wallHit (hsound : Sound ex key (matching key) config e)
    (hr : ex.serveEntry e key.sort query.fetchLimit query.cursor = .ok r) (hwall : wallHit query e r = false) :
    ExactPage ex key (matching key) query.cursor query.fetchLimit r := by
  cases hmore : e.hasMore with
  | false => exact serveEntry_exact hex hsf hfits hlimit hsound (.inl hmore) hr
  | true =>
    obtain ⟨hpage, hkeys, -⟩ := serveEntry_page hex hsf hfits hsound hlimit hr
    rw [wallHit, hmore, Bool.true_and, Bool.or_eq_false_iff, Bool.and_eq_false_iff,
      Bool.and_eq_false_iff, decide_eq_false_iff_not] at hwall
    obtain ⟨hcursor, hfull⟩ := hwall
    have hlast : r.cursor = cursorAtLast (ex.sortValue key.sortField) r.ids := by
      rcases hpage.cursor_eq with hlast | ⟨hnone, -⟩
      · exact hlast
      · have hnil : r.ids = [] := by simpa [hnone] using hcursor
        rw [hnone, hnil]
        rfl
    refine hpage.exact hsound.initial ?_ hlast
    rcases hcover hmore with hin | ⟨hne, hroom⟩
    · exact (Nat.min_le_left _ _).trans hin
    · rcases hfull with hlong | hfirst
      · -- the page is as long as was asked for
        rw [hpage.ids_eq, length_take, length_slotsAfter] at hlong
        unfold Enough
        omega
      · -- the first page: the entry is not empty, so it came with a cursor
        rw [Option.isSome_eq_false_iff, Option.isNone_iff_eq_none] at hfirst
        have hsome : r.cursor ≠ none := by
          intro hnone
          have hpos : 0 < min query.fetchLimit ex.maxPageSize := Nat.lt_min.mpr ⟨hlimit, hex.page_pos⟩
          have hnil : r.ids = [] := by simpa [hnone] using hcursor
          rw [hpage.ids_eq, hfirst, slotsAfter_none, take_eq_nil_iff] at hnil
          exact hne (enumerate_eq_nil_iff.mp (hnil.resolve_left hpos.ne'))
        cases hnokeys : e.sortedKeys with
        | none =>
          have hcap := (hsound.keys_none hnokeys).resolve_left hne
          rw [hcap, Nat.sub_self] at hroom
          exact hroom.trans (Nat.zero_le _)
        | some keys =>
          have hlt := hkeys (by simp [hnokeys]) hsome
          exact (Nat.min_le_left _ _).trans hlt.le

/-- **A hit.** -/
theorem serveHit_exact [Host] (hoffset : query.pageOffset = 0) (hc : CacheSound ex matching c)
    (hkey : key = keyOf (ex.tables.snapRangeClauses query.filters) sort)
    (hlookup : c.lookup key = some e) (hmeets : QueryMeets ex matching c query key)
    (h : ex.serveHit c query (ex.tables.snapRangeClauses query.filters) sort e = .ok (r, c')) :
    ExactPage ex key (matching key) query.cursor query.fetchLimit r := by
  subst hkey
  have hsound := hc.found hlookup
  obtain ⟨r₀, hr₀, ⟨hwall, -, rfl⟩ | ⟨hwall, filterArc, simple, hfilter, hexpand, r₁, hr₁, rfl⟩⟩ := serveHit_inv h
  · have hexact := exact_of_not_wallHit hex hsf hfits hlimit hcover hsound hr₀ hwall
    rw [hoffset]
    exact ⟨hexact.ids_eq, hexact.cursor_eq⟩
  · -- the page used the entry up: it is served again from the expanded entry
    rw [hmeets.answer filterArc simple hfilter, ← hsound.maxCapacity_eq] at hexpand
    obtain ⟨hpage, -⟩ := serveEntry_page hex hsf hfits hsound hlimit hr₀
    have hcon := contiguous_of_wallHit hex hsf hsound (hmeets.contiguous e hlookup) hr₀ hwall
    obtain ⟨hc₁, e₁, he₁, hbitmap₁, -⟩ := hc.expandFrom hex hlookup hcon le_rfl hexpand
    have hmore : e.hasMore = true := by
      rw [wallHit, Bool.and_eq_true] at hwall
      exact hwall.1
    have henough := enough_of_expand (hcover hmore) hcon (fun _ h => hpage.later h) hbitmap₁
    rw [he₁] at hr₁
    have hexact := serveExpanded_exact hex hsf hfits (hc₁.found he₁) henough hr₁
    exact ⟨hexact.ids_eq, hexact.cursor_eq⟩

omit hcover

/-- **A query** without an offset that meets the conditions gets the next cut of its result. -/
theorem executeQuery_exact [Host] (hc : CacheSound ex matching c) (hsort : query.sort = some sort)
    (hskip : query.skipCache = false) (hoffset : query.pageOffset = 0)
    (hkey : key = keyOf (ex.tables.snapRangeClauses query.filters) sort) (hmeets : QueryMeets ex matching c query key)
    (hcovers : Covers ex matching c key query.cursor (min query.fetchLimit ex.maxPageSize))
    {choices : Choices} (h : ex.executeQuery c query choices = .ok (r, c')) :
    ExactPage ex key (matching key) query.cursor query.fetchLimit r := by
  subst hkey
  obtain ⟨e, hlookup, -, hserve⟩ | ⟨filterArc, simple, hfilter, hcases⟩ := executeQuery_inv hsort hskip rfl (hc.settled _) h
  · exact serveHit_exact hex hsf hfits hlimit (hcovers.hit e hlookup) hoffset hc rfl hlookup hmeets hserve
  · rw [hmeets.answer filterArc simple hfilter] at hcases
    obtain ⟨e, r₀, hlookup, hpast, hserve, rfl⟩ | ⟨hlookup, ⟨-, hplain⟩ | ⟨hsize, hserve⟩⟩ := hcases
    · have hexact := serveBounded_exact hex hsf hfits (hcovers.hit e hlookup) hc hlookup hpast
        (fun hmore hcap => (hmeets.contiguous e hlookup hmore hcap).resolve_left fun hinside => by
          have hin : e.pastBoundary sort.direction query.cursor = false := hinside.in_entry
          rw [hin] at hpast
          cases hpast) hserve
      rw [hoffset]
      exact ⟨hexact.ids_eq, hexact.cursor_eq⟩
    · obtain ⟨-, r₀, hr₀, rfl⟩ := servePlain_inv hplain
      rw [hsort] at hr₀
      have hexact := executeFromBitmap_exact hex hsf hfits hr₀
      rw [hoffset]
      exact ⟨hexact.ids_eq, hexact.cursor_eq⟩
    · exact seedAndServe_exact hex hsf hfits hlimit hoffset
        ((hcovers.miss hlookup).resolve_left (Nat.not_lt.mpr hsize)) hserve

end Paths

/-! ## The walk -/

/-- A client that pages through a result: the cache, its last page's cursor, the slots it has got and in how many
pages, and whether it has stopped. -/
structure Walk where
  cache : UnifiedCache
  cursor : Option CursorPosition
  ids : List UInt32
  pages : Nat
  stopped : Bool

/-- The client asks for its next page, or something else happens to the cache. -/
inductive WalkEvent where
  | page (choices : Choices)
  | other (event : CacheEvent)

section Walks

variable [Host] (ex : QueryExecutor) (matching : UnifiedKey → Bitmap) (filters : List FilterClause)
  (sort : SortClause) (pageSize : Nat)

namespace Walk

/-- The query of one page. -/
def nextQuery (w : Walk) : BitdexQuery := ⟨filters, some sort, pageSize, w.cursor, none, false⟩

/-- The key that the pages are cached under. -/
def key : UnifiedKey := keyOf (ex.tables.snapRangeClauses filters) sort

def start (config : UnifiedCacheConfig) : Walk := ⟨.new config, none, [], 0, false⟩

/-- The client keeps what it got and stops at a page that is empty or has no cursor. -/
def receive (w : Walk) (out : QueryResult × UnifiedCache) : Walk where
  cache := out.2
  cursor := out.1.cursor
  ids := w.ids ++ out.1.ids
  pages := w.pages + 1
  stopped := out.1.ids.isEmpty || out.1.cursor.isNone

/-- One event; a client that has stopped asks for no page. -/
def step (w : Walk) : WalkEvent → Option Walk
  | .page choices =>
    if w.stopped then none
    else ((ex.executeQuery w.cache (w.nextQuery filters sort pageSize) choices).toOption).map
      w.receive
  | .other event => some { w with cache := cacheStep ex w.cache event }

/-- **The condition on an event of a walk.** A page meets the condition on queries, and the cache covers it; anything
else meets the condition on cache events. -/
def Meets (w : Walk) : WalkEvent → Prop
  | .page _ =>
    QueryMeets ex matching w.cache (w.nextQuery filters sort pageSize) (key ex filters sort) ∧
      Covers ex matching w.cache (key ex filters sort) w.cursor (min pageSize ex.maxPageSize)
  | .other event => event.Meets ex matching w.cache

/-- **The invariant**: the cache is sound, and what the client has, then what lies after its cursor, is the ranked
result. -/
structure Inv (w : Walk) : Prop where
  sound : CacheSound ex matching w.cache
  fits : w.stopped = false → ∀ sf, ex.sorts.getField sort.field = some sf →
    CursorPosition.Fits sf w.cursor
  rest : w.stopped = false → w.ids ++ slotsAfter sort.direction.descending (ex.sortValue sort.field)
    (matching (key ex filters sort)) w.cursor =
      ranked sort.direction.descending (ex.sortValue sort.field) (matching (key ex filters sort))
  all : w.stopped = true → w.ids =
    ranked sort.direction.descending (ex.sortValue sort.field) (matching (key ex filters sort))
  progress : w.stopped = false → w.pages ≤ w.ids.length

end Walk

variable {ex matching filters sort pageSize}

omit [Host] in
/-- What lies after the last slot of a page is what the page left over. -/
theorem slotsAfter_next {descending : Bool} {value : UInt32 → Nat} {bitmap : Bitmap}
    {cursor : Option CursorPosition} {n : Nat} {last : UInt32}
    (hlast : ((slotsAfter descending value bitmap cursor).take n).getLast? = some last) :
    slotsAfter descending value bitmap (some ⟨value last, last⟩) =
      (slotsAfter descending value bitmap cursor).drop n := by
  have hafter : afterCursor descending value (cursor.map (·.position)) last := by
    have hmem := mem_of_mem_take (mem_of_getLast? hlast)
    exact (Finset.mem_filter.mp (mem_ranked.mp hmem)).2
  have hsame : bitmap.filter (afterCursor descending value (some (value last, last))) =
      (bitmap.filter (afterCursor descending value (cursor.map (·.position)))).filter
        fun slot => ¬ rankLe descending value slot last := by
    ext slot
    rw [Finset.mem_filter, Finset.mem_filter, Finset.mem_filter, and_assoc]
    refine and_congr_right fun _ => ⟨fun h => ?_, fun h => posLt_iff_not_posLe.mpr h.2⟩
    have hnot : ¬ rankLe descending value slot last := posLt_iff_not_posLe.mp h
    exact ⟨upClosed_afterCursor _ _ _ ((posLe_total _ _ _).resolve_left hnot) hafter, hnot⟩
  show ranked descending value (bitmap.filter (afterCursor descending value
    (some (value last, last)))) = _
  rw [hsame]
  exact enumerate_filter_eq_drop hlast

section Page

variable {key : UnifiedKey} {bitmap : Bitmap} {cursor : Option CursorPosition} {r : QueryResult}

omit [Host] in
/-- A page that is empty or has no cursor is the rest of the result. -/
theorem ExactPage.stops (h : ExactPage ex key bitmap cursor pageSize r) (hex : ex.Valid)
    (hpage : 0 < pageSize) (hstopped : r.ids = [] ∨ r.cursor = none) :
    r.ids = slotsAfterKey ex key bitmap cursor := by
  have hempty : r.ids = [] → r.ids = slotsAfterKey ex key bitmap cursor := by
    intro hnil
    have hpos : 0 < min pageSize ex.maxPageSize := Nat.lt_min.mpr ⟨hpage, hex.page_pos⟩
    have htake := h.ids_eq
    rw [hnil, eq_comm, take_eq_nil_iff] at htake
    exact hnil.trans (htake.resolve_left hpos.ne').symm
  rcases hstopped with hnil | hnone
  · exact hempty hnil
  · rcases h.cursor_eq with hlast | ⟨-, hall⟩
    · rw [hnone, cursorAtLast, eq_comm, Option.map_eq_none_iff, getLast?_eq_none_iff] at hlast
      exact hempty hlast
    · exact hall

omit [Host] in
/-- A page with a cursor is followed by what lies after that cursor. -/
theorem ExactPage.continues (h : ExactPage ex key bitmap cursor pageSize r) {next : CursorPosition}
    (hnext : r.cursor = some next) : (∃ slot, next.sortValue = ex.sortValue key.sortField slot) ∧
      r.ids ++ slotsAfterKey ex key bitmap (some next) = slotsAfterKey ex key bitmap cursor := by
  have hlast : cursorAtLast (ex.sortValue key.sortField) r.ids = some next := by
    rcases h.cursor_eq with hlast | ⟨hnone, -⟩
    · rw [← hlast, hnext]
    · rw [hnext] at hnone
      cases hnone
  obtain ⟨slot, hslot, rfl⟩ := Option.map_eq_some_iff.mp hlast
  refine ⟨⟨slot, rfl⟩, ?_⟩
  rw [h.ids_eq] at hslot ⊢
  rw [slotsAfterKey, slotsAfter_next hslot, take_append_drop]

end Page

theorem Walk.Inv.start (config : UnifiedCacheConfig) : (Walk.start config).Inv ex matching filters sort where
  sound := CacheSound.new config
  fits := fun _ sf _ c hc => by cases hc
  rest := fun _ => slotsAfter_none _ _ _
  all := fun h => by cases h
  progress := fun _ => le_rfl

omit [Host] in
theorem Walk.pageOffset_nextQuery (w : Walk) : (w.nextQuery filters sort pageSize).pageOffset = 0 := by
  simp [BitdexQuery.pageOffset, Walk.nextQuery]

omit [Host] in
theorem Walk.fetchLimit_nextQuery (w : Walk) (filters : List FilterClause) (sort : SortClause)
    (pageSize : Nat) : (w.nextQuery filters sort pageSize).fetchLimit = pageSize := by
  rw [BitdexQuery.fetchLimit, w.pageOffset_nextQuery]
  rfl

omit [Host] in
theorem Walk.stopped_receive {w : Walk} {r : QueryResult} {c' : UnifiedCache} :
    (w.receive (r, c')).stopped = true ↔ r.ids = [] ∨ r.cursor = none := by
  simp [Walk.receive]

/-- A page is asked for by a client that has not stopped, and its answer is received. -/
theorem Walk.step_page_eq_some_iff {w w' : Walk} {choices : Choices} :
    w.step ex filters sort pageSize (.page choices) = some w' ↔ w.stopped = false ∧
      ∃ out, ex.executeQuery w.cache (w.nextQuery filters sort pageSize) choices = .ok out ∧ w' = w.receive out := by
  show (if w.stopped then none else _) = some w' ↔ _
  cases w.stopped with
  | true => simp
  | false =>
    cases ex.executeQuery w.cache (w.nextQuery filters sort pageSize) choices with
    | error err => simp [Except.toOption]
    | ok out => simp [Except.toOption, eq_comm]

/-- **One page.** An exact page takes the client one cut further, or to the end. -/
theorem Walk.Inv.receive (hex : ex.Valid) {w : Walk} (h : w.Inv ex matching filters sort)
    (hpage : 0 < pageSize) (hrun : w.stopped = false) {r : QueryResult} {c' : UnifiedCache}
    (hsound : CacheSound ex matching c')
    (hexact : ExactPage ex (key ex filters sort) (matching (key ex filters sort)) w.cursor pageSize r) :
    (w.receive (r, c')).Inv ex matching filters sort := by
  have hrest := h.rest hrun
  cases hstopped : (w.receive (r, c')).stopped with
  | true =>
    refine ⟨hsound, fun hf => ?_, fun hf => ?_, fun _ => ?_, fun hf => ?_⟩
    · rw [hstopped] at hf
      cases hf
    · rw [hstopped] at hf
      cases hf
    · rw [← hrest]
      exact congrArg (w.ids ++ ·) (hexact.stops hex hpage (Walk.stopped_receive.mp hstopped))
    · rw [hstopped] at hf
      cases hf
  | false =>
    have hgo := (not_congr Walk.stopped_receive).mp (Bool.eq_false_iff.mp hstopped)
    rw [not_or] at hgo
    obtain ⟨next, hnext⟩ := Option.ne_none_iff_exists'.mp hgo.2
    obtain ⟨⟨slot, hslot⟩, hids⟩ := hexact.continues hnext
    refine ⟨hsound, fun _ sf hsf c hc => ?_, fun _ => ?_, fun ht => ?_, fun _ => ?_⟩
    · have hc' : next = c := Option.some.inj (hnext.symm.trans hc)
      rw [← hc', hslot, sortValue_key hsf]
      exact SortField.reconstructValue_lt_numBits (hex.bits_le _ sf hsf) slot
    · show (w.ids ++ r.ids) ++ slotsAfter _ _ _ r.cursor = _
      rw [hnext, append_assoc, ← hrest]
      exact congrArg (w.ids ++ ·) hids
    · rw [hstopped] at ht
      cases ht
    · have hpos : 0 < r.ids.length := length_pos_iff.mpr hgo.1
      have hle := h.progress hrun
      show w.pages + 1 ≤ (w.ids ++ r.ids).length
      rw [length_append]
      omega

/-- Anything else that happens to the cache leaves the client where it is. -/
theorem Walk.Inv.other {w : Walk} (h : w.Inv ex matching filters sort) {c' : UnifiedCache}
    (hsound : CacheSound ex matching c') : ({ w with cache := c' } : Walk).Inv ex matching filters sort :=
  ⟨hsound, h.fits, h.rest, h.all, h.progress⟩

/-- **One event of a walk** that meets the condition. -/
theorem Walk.Inv.step (hex : ex.Valid) (hfield : ∃ sf, ex.sorts.getField sort.field = some sf)
    (hpage : 0 < pageSize) {w w' : Walk} {event : WalkEvent} (h : w.Inv ex matching filters sort)
    (hmeets : w.Meets ex matching filters sort pageSize event)
    (hstep : w.step ex filters sort pageSize event = some w') : w'.Inv ex matching filters sort := by
  cases event with
  | other event =>
    rw [← Option.some.inj hstep]
    exact h.other (cacheStep_sound hex h.sound hmeets)
  | page choices =>
    obtain ⟨hquery, hcovers⟩ := hmeets
    obtain ⟨sf, hsf⟩ := hfield
    obtain ⟨hrun, ⟨r, c'⟩, hout, rfl⟩ := Walk.step_page_eq_some_iff.mp hstep
    have hsf' : ex.sorts.getField (key ex filters sort).sortField = some sf := hsf
    refine h.receive hex hpage hrun ?_ ?_
    · refine executeQuery_sound hex h.sound (fun key hkey => ?_) hout
      obtain rfl := Option.some.inj hkey
      exact hquery
    · have hfits : CursorPosition.Fits sf (w.nextQuery filters sort pageSize).cursor :=
        h.fits hrun sf hsf
      rw [← Walk.fetchLimit_nextQuery w filters sort pageSize] at hpage hcovers ⊢
      exact executeQuery_exact hex hsf' hfits hpage h.sound rfl rfl w.pageOffset_nextQuery rfl hquery
        hcovers hout

/-- **Walks enumerate.** In every run of a walk and of other queries and prefetches on one snapshot whose events meet
the condition: what the client has got is an initial segment of the ranked result; if it has stopped it has the whole;
it has stopped if it asked for more pages than the result has slots; and until then its next page does not fail. -/
theorem walk_enumerates (hex : ex.Valid) (hfield : ∃ sf, ex.sorts.getField sort.field = some sf)
    (hanswer : ∃ simple, ex.resolveFilters (ex.tables.snapRangeClauses filters) =
      .ok (matching (Walk.key ex filters sort), simple)) (hpage : 0 < pageSize)
    {config : UnifiedCacheConfig} {events : List WalkEvent} {w : Walk}
    (h : Reaches (fun w event w' => w.step ex filters sort pageSize event = some w')
      (Walk.Meets ex matching filters sort pageSize) (.start config) events w) :
    w.ids <+: ranked sort.direction.descending (ex.sortValue sort.field) (matching (Walk.key ex filters sort)) ∧
      (w.stopped = true → w.ids = ranked sort.direction.descending (ex.sortValue sort.field)
        (matching (Walk.key ex filters sort))) ∧
      ((matching (Walk.key ex filters sort)).card < w.pages → w.stopped = true) ∧
      (w.stopped = false → ∀ choices, (w.step ex filters sort pageSize (.page choices)).isSome = true) := by
  have hinv : w.Inv ex matching filters sort :=
    Reaches.invariant (fun _ w => w.Inv ex matching filters sort) (Walk.Inv.start config)
      (fun _ _ _ _ hinv hmeets hstep => hinv.step hex hfield hpage hmeets hstep) h
  refine ⟨?_, hinv.all, ?_, ?_⟩
  · cases hstopped : w.stopped with
    | false => exact ⟨_, hinv.rest hstopped⟩
    | true => rw [hinv.all hstopped]
  · intro hpages
    by_contra hstopped
    rw [Bool.not_eq_true] at hstopped
    have hle := hinv.progress hstopped
    have hlen := congrArg length (hinv.rest hstopped)
    rw [length_append, ranked, length_enumerate] at hlen
    omega
  · intro hstopped choices
    obtain ⟨sf, hsf⟩ := hfield
    obtain ⟨simple, hresolve⟩ := hanswer
    obtain ⟨out, hout⟩ : ∃ out, ex.executeQuery w.cache (w.nextQuery filters sort pageSize) choices =
        .ok out := executeQuery_total hsf rfl ⟨_, hresolve⟩ w.cache choices
    exact Option.isSome_iff_exists.mpr ⟨_, Walk.step_page_eq_some_iff.mpr ⟨hstopped, out, hout, rfl⟩⟩

instance decidableHasRoom (key : UnifiedKey) (e : UnifiedEntry) (cursor : Option CursorPosition) (p : Nat) :
    Decidable (HasRoom ex matching key e cursor p) :=
  inferInstanceAs (Decidable (_ ∨ _))

attribute [mk_iff] Covers

instance decidableCovers (c : UnifiedCache) (key : UnifiedKey) (cursor : Option CursorPosition) (p : Nat) :
    Decidable (Covers ex matching c key cursor p) :=
  decidable_of_iff _ (covers_iff ex matching c key cursor p).symm

instance decidableWalkMeets (w : Walk) (event : WalkEvent) :
    Decidable (w.Meets ex matching filters sort pageSize event) :=
  match event with
  | .page _ => inferInstanceAs (Decidable (_ ∧ _))
  | .other event => inferInstanceAs (Decidable (event.Meets ex matching w.cache))

end Walks

/-! ## A walk that bypasses the cache -/

section Plain

variable [Host] (ex : QueryExecutor) (filters : List FilterClause) (sort : SortClause) (pageSize : Nat)

def plainQuery (cursor : Option CursorPosition) : BitdexQuery := ⟨filters, some sort, pageSize, cursor, none, true⟩

/-- At most `n` pages from a cursor on; a page without a cursor is the last. -/
def plainWalk (c : UnifiedCache) (choices : Choices) : Nat → Option CursorPosition → Except BitdexError (List UInt32)
  | 0, _ => .ok []
  | n + 1, cursor => do
    let (r, c') ← ex.executeQuery c (plainQuery filters sort pageSize cursor) choices
    match r.cursor with
    | none => .ok r.ids
    | some next => return r.ids ++ (← plainWalk c' choices n (some next))

variable {ex filters sort pageSize}

/-- **Without the cache a walk meets no condition**: `n` pages are the first `n` cuts of the ranked result. -/
theorem plainWalk_eq (hex : ex.Valid) (hfield : ∃ sf, ex.sorts.getField sort.field = some sf) {bitmap : Bitmap}
    (hanswer : ∃ simple, ex.resolveFilters (ex.tables.snapRangeClauses filters) = .ok (bitmap, simple))
    (hpage : 0 < pageSize) (c : UnifiedCache) (choices : Choices) (n : Nat) :
    plainWalk ex filters sort pageSize c choices n none = .ok ((ranked sort.direction.descending
      (ex.sortValue sort.field) bitmap).take (n * min pageSize ex.maxPageSize)) := by
  obtain ⟨sf, hsf⟩ := hfield
  obtain ⟨simple, hanswer⟩ := hanswer
  have hfrom : ∀ n cursor, CursorPosition.Fits sf cursor → plainWalk ex filters sort pageSize c choices n cursor =
      .ok ((slotsAfter sort.direction.descending (ex.sortValue sort.field) bitmap cursor).take
        (n * min pageSize ex.maxPageSize)) := by
    intro n
    induction n with
    | zero => simp [plainWalk]
    | succ n ih =>
      intro cursor hfits
      have hoffset : (plainQuery filters sort pageSize cursor).pageOffset = 0 := by cases cursor <;> rfl
      obtain ⟨⟨_, _⟩, hout⟩ : ∃ out, ex.executeQuery c (plainQuery filters sort pageSize cursor) choices = .ok out :=
        executeQuery_total hsf rfl ⟨_, hanswer⟩ c choices
      obtain ⟨_, _, hfilter, hserve⟩ := executeQueryAt_bypass (.inr rfl) hout
      cases hanswer.symm.trans hfilter
      obtain ⟨rfl, r, hr, rfl⟩ := servePlain_inv hserve
      rw [BitdexQuery.fetchLimit, hoffset] at hr
      rw [hoffset] at hout
      have hexact : ExactPage ex (Walk.key ex filters sort) bitmap cursor pageSize r :=
        (executeFromBitmap_page hex hsf hfits hr).1.exact_whole
      have hpageIds : r.ids = (slotsAfter sort.direction.descending (ex.sortValue sort.field) bitmap cursor).take
        (min pageSize ex.maxPageSize) := hexact.ids_eq
      rw [plainWalk, hout, Nat.succ_mul, Nat.add_comm, take_add, ← hpageIds, applyOffset_zero]
      show (match r.cursor with | none => _ | some next => _) = _
      cases hnext : r.cursor with
      | none =>
        have hrest := hexact.stops hex hpage (.inr hnext)
        rw [drop_eq_nil_of_le ((take_eq_self_iff _).mp (hpageIds.symm.trans hrest)), take_nil, append_nil]
      | some next =>
        obtain ⟨⟨slot, hslot⟩, hids⟩ := hexact.continues hnext
        have hfits' : CursorPosition.Fits sf (some next) := by
          rintro _ ⟨⟩
          rw [hslot, sortValue_key hsf]
          exact SortField.reconstructValue_lt_numBits (hex.bits_le _ sf hsf) slot
        have hdrop := (append_right_inj r.ids).mp (hids.trans (by rw [hpageIds]; exact (take_append_drop _ _).symm))
        simp only [ih _ hfits']
        exact congrArg (fun rest => Except.ok (r.ids ++ rest.take (n * min pageSize ex.maxPageSize))) hdrop
  rw [hfrom n none nofun, slotsAfter_none]

end Plain

/-! ## Walks that stop early, and one that does not -/

section Samples

attribute [local instance] Host.ascii

/-- A walk over the six slots by value, highest first. -/
def byValueWalk (pageSize : Nat) (config : UnifiedCacheConfig) (events : List WalkEvent) :
    Option Walk :=
  events.foldlM (fun w event => w.step sixSlots [] ⟨"v", .desc⟩ pageSize event) (.start config)

def nextPage : WalkEvent := .page ⟨[], true⟩

/-- Of six matching slots a walk gets two because its first page is the whole seeded entry and has no cursor, two
because the entry reaches its maximal capacity and the third page is empty, and three because a query with a far
cursor has left a gap. -/
theorem walks_stop_early :
    sixSlots.resolveFilters (sixSlots.tables.snapRangeClauses []) = .ok ({1, 2, 3, 4, 5, 6}, true) ∧
    (byValueWalk 2 { initialCapacity := 2, maxCapacity := 4 } [nextPage]).map
      (fun w => (w.ids, w.stopped)) = some ([1, 2], true) ∧
    (byValueWalk 1 { initialCapacity := 2, maxCapacity := 3 } [nextPage, nextPage, nextPage]).map
      (fun w => (w.ids, w.stopped)) = some ([1, 2], true) ∧
    (byValueWalk 1 { initialCapacity := 2, maxCapacity := 5 } [.other (byValuePage 1 none),
        .other (byValuePage 1 (some ⟨3, 3⟩)), nextPage, nextPage, nextPage, nextPage]).map
      (fun w => (w.ids, w.stopped)) = some ([1, 2, 6], true) :=
  ⟨sixSlots_resolve, by decide +kernel, by decide +kernel, by decide +kernel⟩

/-- Three pages of three slots through an entry seeded with five: the second page expands it. -/
theorem walk_enumerates_three_pages :
    ∃ w, byValueWalk 3 { initialCapacity := 5, maxCapacity := 12 } [nextPage, nextPage, nextPage] =
        some w ∧ w.stopped = true ∧ w.ids = ranked true (sixSlots.sortValue "v") {1, 2, 3, 4, 5, 6} := by
  -- the seed holds five slots and the page takes three; then there is room for seven more; then all are there
  have hrun : Computed (fun w event => Walk.step sixSlots [] ⟨"v", .desc⟩ 3 w event)
      (Walk.Meets sixSlots (fun _ => {1, 2, 3, 4, 5, 6}) [] ⟨"v", .desc⟩ 3)
      (.start { initialCapacity := 5, maxCapacity := 12 }) [nextPage, nextPage, nextPage] :=
    .of_along (by decide +kernel)
  obtain ⟨w, hw, hstopped⟩ : ∃ w, byValueWalk 3 { initialCapacity := 5, maxCapacity := 12 }
      [nextPage, nextPage, nextPage] = some w ∧ w.stopped = true := by decide +kernel
  have hall := walk_enumerates sixSlots_valid ⟨_, rfl⟩ ⟨true, sixSlots_resolve⟩ (by decide) (hrun w hw)
  exact ⟨w, hw, hstopped, hall.2.1 hstopped⟩

theorem plainWalk_two_pages : plainWalk sixSlots [] ⟨"v", .desc⟩ 2 (.new {}) ⟨[], true⟩ 2 none =
      .ok ((ranked true (sixSlots.sortValue "v") {1, 2, 3, 4, 5, 6}).take (2 * min 2 sixSlots.maxPageSize)) :=
  plainWalk_eq sixSlots_valid ⟨_, rfl⟩ ⟨true, sixSlots_resolve⟩ (by decide) _ _ 2

end Samples

end Bitdex
