import Bitdex.Engine.Query

/-!
# `Engine.Segment` — entries hold first slots of the ranked result

A page is served from an entry in place of the filter result, so an entry must hold the *first* slots of that result
in rank order, its floor must be the value of the last of them, and `has_more` may be false only if none is left. An
expansion appends the slots after a cursor that the caller chose and moves the floor to the last of them, so it keeps
this only if nothing at or before that cursor is missing from the entry and if it reaches as far as the entry does
(`Contiguous`).
-/

namespace Bitdex

open Enumeration QueryExecutor List UnifiedCache

/-! ## What an entry must say -/

section Entry

variable (ex : QueryExecutor) (key : UnifiedKey) (matching : Bitmap)

/-- The rank order of a key. -/
abbrev keyRank : UInt32 → UInt32 → Prop := rankLe key.direction.descending (ex.sortValue key.sortField)

/-- A slot lies after a cursor in the order of a key. -/
abbrev afterKey (cursor : Option CursorPosition) : UInt32 → Prop :=
  afterCursor key.direction.descending (ex.sortValue key.sortField) (cursor.map (·.position))

/-- A bitmap in the order of a key. -/
abbrev keyRanked : Bitmap → List UInt32 := ranked key.direction.descending (ex.sortValue key.sortField)

/-- The slots of a bitmap after a cursor in the order of a key. -/
abbrev slotsAfterKey : Bitmap → Option CursorPosition → List UInt32 :=
  slotsAfter key.direction.descending (ex.sortValue key.sortField)

/-- **The entry tracks the result**: it is an initial segment of the ranked list, its floor is its last slot's value,
and it is the whole list if it claims there is no more. -/
structure Tracks (e : UnifiedEntry) : Prop where
  segment : ranked key.direction.descending (ex.sortValue key.sortField) e.bitmap <+:
    ranked key.direction.descending (ex.sortValue key.sortField) matching
  floor : ∀ last, (ranked key.direction.descending (ex.sortValue key.sortField) e.bitmap).getLast? =
    some last → e.minTrackedValue = ex.sortValue key.sortField last
  complete : e.hasMore = false → e.bitmap = matching

/-- The entry also serves what it holds: keys and radix index are its bitmap's, and only an empty or expanded one has
no keys. -/
structure Sound (config : UnifiedCacheConfig) (e : UnifiedEntry) : Prop extends
    Tracks ex key matching e where
  maxCapacity_eq : e.maxCapacity = config.maxCapacity
  keys_eq : ∀ keys, e.sortedKeys = some keys →
    keys = packedKeys key.direction (ex.sortValue key.sortField) e.bitmap
  radix_eq : ∀ r, e.radix = some r → r = .fromBitmap e.bitmap (ex.sortValue key.sortField)
  keys_none : e.sortedKeys = none → e.bitmap = ∅ ∨ e.capacity = e.maxCapacity

/-- **The condition on an expansion** by at most `room` slots after a cursor: the sort field can represent the
cursor's value, no matching slot up to the cursor is missing from the entry, and it has at most `room` slots after it.
-/
structure Contiguous (e : UnifiedEntry) (cursor : Option CursorPosition) (room : Nat) : Prop where
  fits : ∀ sf, ex.sorts.getField key.sortField = some sf → CursorPosition.Fits sf cursor
  no_gap : ∀ slot ∈ matching, ¬ afterKey ex key cursor slot → slot ∈ e.bitmap
  within : (e.bitmap.filter (afterKey ex key cursor)).card ≤ room

variable {ex key matching} {e : UnifiedEntry} {config : UnifiedCacheConfig}
  {cursor : Option CursorPosition} {room : Nat}

theorem Tracks.initial (h : Tracks ex key matching e) : Initial (keyRank ex key) e.bitmap matching :=
  initial_of_enumerate h.segment

theorem upClosed_afterKey (cursor : Option CursorPosition) : UpClosed (keyRank ex key) (afterKey ex key cursor) :=
  upClosed_afterCursor _ _ _

/-- The slots that an expansion finds. -/
theorem slotsAfter_take_eq_window (cursor : Option CursorPosition) (n : Nat) :
    (slotsAfterKey ex key matching cursor).take n = window (keyRank ex key) (afterKey ex key cursor) matching n :=
  rfl

theorem length_slotsAfter :
    (slotsAfterKey ex key matching cursor).length = (matching.filter (afterKey ex key cursor)).card :=
  length_enumerate _

/-- **One expansion** under the condition keeps the entry sound. The room it thinks it has must not exceed the `n`
asked for. -/
theorem Sound.expand (h : Sound ex key matching config e) {n : Nat}
    (hcontig : Contiguous ex key matching e cursor n) (hroom : e.maxCapacity - e.capacity ≤ n)
    {newSlots : List UInt32} (hnew : newSlots = (slotsAfterKey ex key matching cursor).take n) (hne : newSlots ≠ []) :
    Sound ex key matching config (e.expand newSlots (ex.sortValue key.sortField)) := by
  have hinit : Initial (keyRank ex key) (e.bitmap ∪ newSlots.toFinset) matching := by
    rw [hnew]
    exact h.initial.union_window hcontig.no_gap
  refine ⟨⟨hinit.enumerate_isInit, ?_, ?_⟩, h.maxCapacity_eq, ?_, ?_, fun _ => .inr rfl⟩
  · -- the last new slot is the last slot of the entry
    intro last hlast
    obtain ⟨m, hm⟩ : ∃ m, newSlots.getLast? = some m := ⟨_, getLast?_eq_some_getLast hne⟩
    have hend : (keyRanked ex key (e.bitmap ∪ newSlots.toFinset)).getLast? = some m := by
      rw [hnew] at hm ⊢
      exact getLast?_union_window (upClosed_afterKey cursor) h.initial hcontig.within hm
    have hlast' : some m = some last := hend.symm.trans hlast
    show (newSlots.getLast?.map (ex.sortValue key.sortField)).getD e.minTrackedValue = _
    rw [hm, Option.some.inj hlast']
    rfl
  · -- fewer slots than room: the traversal has come to the end
    intro hmore
    have hcases : e.hasMore = false ∨ newSlots.length < e.maxCapacity - e.capacity := by
      cases hhas : e.hasMore with
      | false => exact .inl rfl
      | true => exact .inr (by simpa [UnifiedEntry.expand, hhas] using hmore)
    rcases hcases with hnone | hshort
    · have hall := h.complete hnone
      show e.bitmap ∪ newSlots.toFinset = matching
      refine Finset.Subset.antisymm hinit.subset ?_
      rw [hall]
      exact Finset.subset_union_left
    · show e.bitmap ∪ newSlots.toFinset = matching
      rw [hnew] at hshort ⊢
      exact window_complete h.initial.subset hcontig.no_gap (lt_of_lt_of_le hshort hroom)
  · intro keys hkeys
    cases hkeys
  · intro r hr
    exact (Option.some.inj hr).symm

/-- A new entry from the first slots of the result is sound. -/
theorem Sound.newWithClauses (capacity total metaId : Nat) (original : List FilterClause)
    {hasMore : Bool} (hvalue : ∀ slot, ex.sortValue key.sortField slot < 2 ^ 32)
    {slots : List UInt32} (hslots : slots = (keyRanked ex key matching).take capacity)
    (hmore : hasMore = decide (matching.card > slots.length)) :
    Sound ex key matching config (.newWithClauses slots capacity config.maxCapacity hasMore total
      metaId key.direction original (ex.sortValue key.sortField)) := by
  have htake : slots.take capacity = slots := by
    rw [hslots, take_take, Nat.min_self]
  have hranked : keyRanked ex key slots.toFinset = slots := by
    rw [hslots]
    exact enumerate_toFinset_take matching capacity
  have hnodup : slots.Nodup := by
    rw [hslots]
    exact (nodup_enumerate matching).sublist (take_sublist capacity _)
  refine ⟨⟨?_, ?_, ?_⟩, rfl, ?_, ?_, ?_⟩
  · show keyRanked ex key (slots.take capacity).toFinset <+: _
    rw [htake, hranked, hslots]
    exact ⟨_, take_append_drop capacity _⟩
  · intro last hlast
    have hlast' : slots.getLast? = some last := by
      rw [← hranked, ← htake]
      exact hlast
    show ((slots.take capacity).getLast?.map (ex.sortValue key.sortField)).getD 0 = _
    rw [htake, hlast']
    rfl
  · intro hfalse
    have hle : matching.card ≤ slots.length := by
      have hfalse' : hasMore = false := hfalse
      rw [hmore, decide_eq_false_iff_not] at hfalse'
      exact Nat.le_of_not_lt hfalse'
    show (slots.take capacity).toFinset = matching
    refine Finset.eq_of_subset_of_card_le ?_ ?_
    · intro x hx
      rw [htake, mem_toFinset, hslots] at hx
      exact mem_ranked.mp (mem_of_mem_take hx)
    · rwa [htake, toFinset_card_of_nodup hnodup]
  · intro keys hkeys
    have hkeys' : (if slots.take capacity = [] then none
        else some (buildSortedKeys (slots.take capacity) key.direction
          (ex.sortValue key.sortField))) = some keys := hkeys
    show keys = packedKeys key.direction _ (slots.take capacity).toFinset
    rw [htake] at hkeys' ⊢
    split at hkeys'
    · cases hkeys'
    · rw [← Option.some.inj hkeys', buildSortedKeys_eq hvalue hnodup]
  · intro r hr
    cases hr
  · intro hnone
    have hnone' : (if slots.take capacity = [] then none
        else some (buildSortedKeys (slots.take capacity) key.direction
          (ex.sortValue key.sortField))) = none := hnone
    left
    show (slots.take capacity).toFinset = ∅
    split at hnone'
    · next hnil => rw [hnil, toFinset_nil]
    · cases hnone'

end Entry

/-! ## Pages of a sound entry -/

/-- What a running index guarantees: a page limit that is not 0, and sort fields of at most 32 layers. -/
structure QueryExecutor.Valid (ex : QueryExecutor) : Prop where
  page_pos : 0 < ex.maxPageSize
  bits_le : ∀ field sf, ex.sorts.getField field = some sf → sf.numBits ≤ 32

/-- What a key sorts by. -/
def UnifiedKey.sort (key : UnifiedKey) : SortClause := ⟨key.sortField, key.direction⟩

section Pages

variable {ex : QueryExecutor} {key : UnifiedKey} {matching : Bitmap} {e : UnifiedEntry}
  {config : UnifiedCacheConfig} {cursor : Option CursorPosition} {limit room : Nat} {sf : SortField}

theorem QueryExecutor.sortValue_key (hsf : ex.sorts.getField key.sortField = some sf) :
    ex.sortValue key.sortField = sf.reconstructValue :=
  sortValue_eq (show ex.sorts.getField key.sort.field = some sf from hsf)

theorem QueryExecutor.Valid.sortValue_lt (hex : ex.Valid) (field : String) (slot : UInt32) :
    ex.sortValue field slot < 2 ^ 32 := by
  unfold sortValue SortIndex.reconstructValue
  cases hsf : ex.sorts.getField field with
  | none => simp
  | some sf => exact SortField.reconstructValue_lt (hex.bits_le field sf hsf) slot

/-- A page of a bitmap: its first slots after the cursor, and the last one's position unless the page reaches the end.
-/
structure IsPage (ex : QueryExecutor) (key : UnifiedKey) (bitmap : Bitmap)
    (cursor : Option CursorPosition) (limit : Nat) (r : QueryResult) : Prop where
  ids_eq : r.ids = (slotsAfter key.direction.descending (ex.sortValue key.sortField) bitmap cursor).take
    (min limit ex.maxPageSize)
  cursor_eq : r.cursor = cursorAtLast (ex.sortValue key.sortField) r.ids ∨
    (r.cursor = none ∧ (slotsAfter key.direction.descending (ex.sortValue key.sortField) bitmap
      cursor).length ≤ min limit ex.maxPageSize)

variable (hex : ex.Valid) (hsf : ex.sorts.getField key.sortField = some sf)
  (hfits : CursorPosition.Fits sf cursor) {r : QueryResult}

include hex hsf hfits

theorem executeFromBitmap_page {bitmap : Bitmap} {simple : Bool}
    (h : ex.executeFromBitmap bitmap (some key.sort) limit cursor simple = .ok r) :
    IsPage ex key bitmap cursor limit r ∧ r.cursor = cursorAtLast (ex.sortValue key.sortField) r.ids := by
  rw [executeFromBitmap, executeFromBitmapInner_eq hsf (hex.bits_le _ sf hsf) hfits, ← sortValue_key hsf] at h
  rw [← Except.ok.inj h]
  exact ⟨⟨rfl, .inl rfl⟩, rfl⟩

/-- A page of an entry's bitmap, from its radix index if it has one. -/
theorem serveExpanded_page {total : Nat}
    (hradix : ∀ r, e.radix = some r → r = .fromBitmap e.bitmap (ex.sortValue key.sortField))
    (h : ex.serveExpanded e key.sort limit cursor total = .ok r) :
    IsPage ex key e.bitmap cursor limit r ∧ r.cursor = cursorAtLast (ex.sortValue key.sortField) r.ids := by
  unfold serveExpanded at h
  cases hr : e.radix with
  | none =>
    rw [hr] at h
    exact executeFromBitmap_page hex hsf hfits h
  | some radix =>
    have hpage := executeFromRadix_eq (hex.bits_le _ sf hsf)
      (show ex.sorts.getField key.sort.field = some sf from hsf) hfits e.bitmap limit total
    rw [← sortValue_key hsf] at hpage
    rw [hr, Option.elim_some, hradix radix hr, hpage] at h
    rw [← Except.ok.inj h]
    exact ⟨⟨rfl, .inl rfl⟩, rfl⟩

/-- **A page of a sound entry** is a page of its bitmap. From packed keys it has a cursor only if it ends inside the
entry, otherwise always its last slot's position. -/
theorem serveEntry_page (hsound : Sound ex key matching config e) (hlimit : 0 < limit)
    (h : ex.serveEntry e key.sort limit cursor = .ok r) :
    IsPage ex key e.bitmap cursor limit r ∧ (e.sortedKeys ≠ none → r.cursor ≠ none →
        min limit ex.maxPageSize < (e.bitmap.filter (afterKey ex key cursor)).card) ∧
      (e.sortedKeys = none → r.cursor = cursorAtLast (ex.sortValue key.sortField) r.ids) := by
  unfold serveEntry at h
  cases hkeys : e.sortedKeys with
  | none =>
    rw [hkeys] at h
    obtain ⟨hpage, hlast⟩ := serveExpanded_page hex hsf hfits hsound.radix_eq h
    exact ⟨hpage, fun hne => absurd rfl hne, fun _ => hlast⟩
  | some keys =>
    rw [hkeys, hsound.keys_eq keys hkeys] at h
    rw [(Except.ok.inj h).symm.trans (executeFromSortedKeys_eq key.direction (hex.sortValue_lt key.sortField) ex
      (fun c hc => hfits.lt (hex.bits_le _ sf hsf) hc) e.bitmap hex.page_pos hlimit _)]
    refine ⟨⟨rfl, ?_⟩, ?_, fun hnone => absurd hnone (Option.some_ne_none _)⟩
    · dsimp only
      split
      · exact .inl rfl
      · next hle => exact .inr ⟨rfl, Nat.le_of_not_lt hle⟩
    · intro _ hsome
      dsimp only at hsome
      split at hsome
      · next hlt => exact lt_of_lt_of_eq hlt (length_enumerate _)
      · exact absurd rfl hsome

end Pages

section Expansions

variable {ex : QueryExecutor} {key : UnifiedKey} {matching : Bitmap} {e : UnifiedEntry}
  {config : UnifiedCacheConfig} {cursor cursor' : Option CursorPosition} {limit n : Nat}

/-- A later cursor at a slot of the entry is as good as an earlier one. -/
theorem Contiguous.later (h : Contiguous ex key matching e cursor n) (htracks : Tracks ex key matching e)
    (hex : ex.Valid) {slot : UInt32} (hmem : slot ∈ e.bitmap) (hafter : afterKey ex key cursor slot) :
    Contiguous ex key matching e (some ⟨ex.sortValue key.sortField slot, slot⟩) n := by
  refine ⟨?_, ?_, ?_⟩
  · intro sf hsf c hc
    rw [← Option.some.inj hc, sortValue_key hsf]
    exact SortField.reconstructValue_lt_numBits (hex.bits_le _ sf hsf) slot
  · -- what is not after a member is a member
    intro x hx hnot
    refine (initial_iff.mp htracks.initial).2 slot hmem x hx ?_
    by_contra hle
    exact hnot (posLt_iff_not_posLe.mpr hle)
  · refine le_trans (Finset.card_le_card ?_) h.within
    intro x hx
    rw [Finset.mem_filter] at hx ⊢
    refine ⟨hx.1, upClosed_afterKey cursor (a := slot) ?_ hafter⟩
    exact (posLe_total _ _ _).resolve_right (posLt_iff_not_posLe.mp hx.2)

/-- The cursor that a page of the entry hands to an expansion. -/
theorem Contiguous.of_page (h : Contiguous ex key matching e cursor n)
    (htracks : Tracks ex key matching e) (hex : ex.Valid) {r : QueryResult}
    (hpage : IsPage ex key e.bitmap cursor limit r) : Contiguous ex key matching e (r.cursor.or cursor) n := by
  rcases hpage.cursor_eq with hlast | ⟨hnone, -⟩
  · rw [hlast, cursorAtLast]
    cases hids : r.ids.getLast? with
    | none => exact h
    | some slot =>
      have hmem : slot ∈ slotsAfterKey ex key e.bitmap cursor := by
        have hslot := mem_of_getLast? hids
        rw [hpage.ids_eq] at hslot
        exact mem_of_mem_take hslot
      obtain ⟨hbm, hafter⟩ := Finset.mem_filter.mp (mem_ranked.mp hmem)
      exact h.later htracks hex hbm hafter
  · rw [hnone]
    exact h

/-- After its own expansion the entry is still contiguous with the cursor it was expanded from. -/
theorem Contiguous.expand (h : Contiguous ex key matching e cursor n)
    (htracks : Tracks ex key matching e) {newSlots : List UInt32}
    (hnew : newSlots = (slotsAfterKey ex key matching cursor).take n) :
    Contiguous ex key matching (e.expand newSlots (ex.sortValue key.sortField)) cursor n := by
  rw [slotsAfter_take_eq_window] at hnew
  refine ⟨h.fits, fun slot hslot hnot => Finset.mem_union_left _ (h.no_gap slot hslot hnot), ?_⟩
  have hsub : (e.bitmap ∪ newSlots.toFinset).filter (afterKey ex key cursor) ⊆
      newSlots.toFinset := by
    rw [Finset.filter_union]
    refine Finset.union_subset ?_ (Finset.filter_subset _ _)
    rw [hnew]
    exact htracks.initial.filter_subset_window h.within
  refine (Finset.card_le_card hsub).trans ((toFinset_card_le newSlots).trans ?_)
  rw [hnew, window, length_take]
  exact Nat.min_le_left n _

/-- A page that ends strictly inside the entry does not use it up. -/
theorem IsPage.not_wallHit {query : BitdexQuery} {r : QueryResult}
    (hpage : IsPage ex key e.bitmap query.cursor query.fetchLimit r) (hclamp : query.fetchLimit ≤ ex.maxPageSize)
    (hinside : query.fetchLimit < (e.bitmap.filter (afterKey ex key query.cursor)).card) :
    wallHit query e r = false := by
  have hmin : min query.fetchLimit ex.maxPageSize = query.fetchLimit := Nat.min_eq_left hclamp
  have hids : r.ids.length = query.fetchLimit := by
    rw [hpage.ids_eq, length_take, length_slotsAfter]
    omega
  have hcur : r.cursor.isNone = false ∨ r.ids = [] := by
    rcases hpage.cursor_eq with hlast | ⟨-, hle⟩
    · rw [hlast, cursorAtLast]
      cases hcase : r.ids.getLast? with
      | none => exact .inr (getLast?_eq_none_iff.mp hcase)
      | some slot => exact .inl rfl
    · rw [length_slotsAfter] at hle
      omega
  unfold wallHit
  rcases hcur with hcur | hcur
  · simp [hcur, hids]
  · simp [hcur, ← hids]

theorem executeFromBitmapInner_field (key : UnifiedKey) {bitmap : Bitmap} {simple : Bool} {r : QueryResult}
    (h : ex.executeFromBitmapInner bitmap (some key.sort) n cursor simple = .ok r) :
    ∃ sf, ex.sorts.getField key.sortField = some sf := by
  cases hsf : ex.sorts.getField key.sortField with
  | some sf => exact ⟨sf, rfl⟩
  | none =>
    have hfail : ex.executeFromBitmapInner bitmap (some key.sort) n cursor simple =
        .error (.fieldNotFound key.sortField) := by
      unfold executeFromBitmapInner simpleSortAndPaginate
        sortAndPaginate
      simp only [UnifiedKey.sort, Option.elim_some, hsf, Option.elim_none, ite_self]
      rfl
    rw [hfail] at h
    cases h

theorem expandFrom_field {c c' : UnifiedCache} {filterArc : Bitmap} {simple : Bool}
    (h : ex.expandFrom c key key.sort filterArc simple n cursor = .ok c') :
    ∃ sf, ex.sorts.getField key.sortField = some sf := by
  obtain ⟨r, hr, -⟩ := bind_eq_ok_iff.mp h
  exact executeFromBitmapInner_field key hr

/-- An expansion by no slots changes nothing. -/
theorem expandFrom_zero {c c' : UnifiedCache} {filterArc : Bitmap} {simple : Bool}
    (h : ex.expandFrom c key key.sort filterArc simple 0 cursor = .ok c') : c' = c := by
  obtain ⟨sf, hsf⟩ := expandFrom_field h
  have hids : ∃ total next, ex.executeFromBitmapUnclamped filterArc (some key.sort) 0 cursor simple =
      .ok ⟨[], total, next⟩ := by
    unfold executeFromBitmapUnclamped executeFromBitmapInner
      simpleSortAndPaginate sortAndPaginate SortField.topN
    simp only [UnifiedKey.sort, Option.elim_some, hsf, or_true, if_true, take_zero, ite_self]
    exact ⟨_, _, rfl⟩
  obtain ⟨total, next, hids⟩ := hids
  unfold expandFrom at h
  rw [hids] at h
  exact (Except.ok.inj h).symm

/-- What an expansion from a cursor that fits does. -/
theorem expandFrom_eq (hex : ex.Valid) {sf : SortField}
    (hsf : ex.sorts.getField key.sortField = some sf) (hfits : CursorPosition.Fits sf cursor)
    (c : UnifiedCache) (filterArc : Bitmap) (simple : Bool) :
    ex.expandFrom c key key.sort filterArc simple n cursor =
      .ok (let newSlots := (slotsAfterKey ex key filterArc cursor).take n
           if newSlots = [] then c else c.expandFound key newSlots (ex.sortValue key.sortField)) := by
  unfold expandFrom executeFromBitmapUnclamped
  rw [executeFromBitmapInner_eq hsf (hex.bits_le _ sf hsf) hfits filterArc n simple, ← sortValue_key hsf]
  rfl

end Expansions

section Cache

/-- Every entry is sound for what its key matches, and those that a query finds can be kept up to date. -/
structure CacheSound (ex : QueryExecutor) (matching : UnifiedKey → Bitmap) (c : UnifiedCache) : Prop where
  sound : ∀ key e, c.entries.lookup key = some e → Sound ex key (matching key) c.config e
  settled : ∀ key e, c.lookup key = some e → key.diffState ex.tables.freshDiffs = .noop

variable {ex : QueryExecutor} {matching : UnifiedKey → Bitmap} {c c' : UnifiedCache} {key : UnifiedKey}
  {cursor : Option CursorPosition} {n : Nat}

theorem CacheSound.new (config : UnifiedCacheConfig) : CacheSound ex matching (.new config) := by
  refine ⟨fun key e h => ?_, fun key e h => ?_⟩ <;> cases h

theorem CacheSound.found {e : UnifiedEntry} (hc : CacheSound ex matching c) (h : c.lookup key = some e) :
    Sound ex key (matching key) c.config e :=
  hc.sound key e (lookup_eq_some_iff.mp h).1

theorem CacheSound.expandEntry (hc : CacheSound ex matching c) {newSlots : List UInt32}
    (h : ∀ e, c.entries.lookup key = some e → Sound ex key (matching key) c.config e →
      Sound ex key (matching key) c.config (e.expand newSlots (ex.sortValue key.sortField))) :
    CacheSound ex matching (c.expandEntry key newSlots (ex.sortValue key.sortField)) := by
  refine ⟨fun key' e' h' => ?_, fun key' e' h' => ?_⟩
  · rw [entries_expandEntry] at h'
    rw [config_expandEntry]
    split at h'
    · next hk =>
      subst hk
      obtain ⟨e, he, rfl⟩ := Option.map_eq_some_iff.mp h'
      exact h e he (hc.sound key' e he)
    · exact hc.sound key' e' h'
  · -- an expansion leaves the flag as it is
    obtain ⟨h', hflag⟩ := lookup_eq_some_iff.mp h'
    rw [entries_expandEntry] at h'
    split at h'
    · next hk =>
      subst hk
      obtain ⟨e, he, rfl⟩ := Option.map_eq_some_iff.mp h'
      exact hc.settled key' e (lookup_eq_some_iff.mpr ⟨he, hflag⟩)
    · exact hc.settled key' e' (lookup_eq_some_iff.mpr ⟨h', hflag⟩)

/-- **One expansion by a query** from a cursor contiguous with the entry: the cache stays sound, the entry has got the
slots asked for and is still contiguous. -/
theorem CacheSound.expandFrom (hex : ex.Valid) (hc : CacheSound ex matching c) {simple : Bool}
    {e : UnifiedEntry} (hlookup : c.lookup key = some e)
    (hcontig : 0 < n → Contiguous ex key (matching key) e cursor n) (hroom : e.maxCapacity - e.capacity ≤ n)
    (h : ex.expandFrom c key key.sort (matching key) simple n cursor = .ok c') :
    CacheSound ex matching c' ∧ ∃ e', c'.lookup key = some e' ∧
      e'.bitmap = e.bitmap ∪ ((slotsAfterKey ex key (matching key) cursor).take n).toFinset ∧
      (0 < n → Contiguous ex key (matching key) e' cursor n) ∧ e'.maxCapacity - e'.capacity ≤ n := by
  have hresident := (lookup_eq_some_iff.mp hlookup).1
  rcases Nat.eq_zero_or_pos n with rfl | hn
  · rw [expandFrom_zero h]
    exact ⟨hc, e, hlookup, by simp, hcontig, hroom⟩
  · have hcon := hcontig hn
    obtain ⟨sf, hsf⟩ := expandFrom_field h
    rw [expandFrom_eq hex hsf (hcon.fits sf hsf)] at h
    rw [← Except.ok.inj h]
    dsimp only
    split
    · next hnil => exact ⟨hc, e, hlookup, by simp [hnil], hcontig, hroom⟩
    · next hne =>
      have htracks := (hc.sound key e hresident).toTracks
      refine ⟨?_, e.expand _ _, ?_, rfl, fun _ => hcon.expand htracks rfl, ?_⟩
      · rw [expandFound, hlookup]
        refine hc.expandEntry fun e' he' hsound => ?_
        have heq : e' = e := Option.some.inj (he'.symm.trans hresident)
        subst heq
        exact hsound.expand hcon hroom rfl hne
      · rw [lookup_expandFound, hlookup, Option.map_some]
      · show e.maxCapacity - e.maxCapacity ≤ n
        omega

end Cache

end Bitdex
