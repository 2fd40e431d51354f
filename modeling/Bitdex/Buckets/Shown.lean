import Bitdex.Engine.Query

/-!
# `Buckets.Shown` — which slots a page of an entry can have

A page of a cache entry comes from its packed keys, its radix index or its bitmap. Expiry diffs take slots out of all
three when an entry is read (`apply_bucket_diff` in `unified_cache.rs`): the keys are dropped, and the radix index
forgets each slot in the first bucket that has it. A slot that was added again under another value is still in a
second one.
-/

namespace Bitdex

open List Bitmap Except
open Option (map_eq_some_iff some.inj some_ne_none)

namespace RadixSortIndex

variable {r : RadixSortIndex} {slot x : UInt32} {i : Fin 256} {slots : List UInt32}
  {adds : List (UInt32 × Nat)}

/-- No slot is in two buckets. -/
def Once (r : RadixSortIndex) : Prop := ∀ i j x, x ∈ r.buckets i → x ∈ r.buckets j → i = j

theorem mem_buckets_removeBlind (h : r.Once) : x ∈ (r.removeBlind slot).buckets i ↔ x ∈ r.buckets i ∧ x ≠ slot := by
  unfold removeBlind
  split
  · next j hfind =>
    have hj : slot ∈ r.buckets j := by simpa using find?_some hfind
    by_cases hij : i = j
    · subst hij
      simp [and_comm]
    · simp only [Function.update_of_ne hij, iff_self_and]
      rintro hx rfl
      exact hij (h i j x hx hj)
  · next hfind =>
    have hnone : slot ∉ r.buckets i := fun hslot =>
      find?_eq_none.mp hfind i (mem_finRange i) (decide_eq_true hslot)
    simp only [iff_self_and]
    rintro hx rfl
    exact hnone hx

theorem Once.removeBlind (h : r.Once) : (r.removeBlind slot).Once := by
  intro i j x hi hj
  exact h i j x ((mem_buckets_removeBlind h).mp hi).1 ((mem_buckets_removeBlind h).mp hj).1

theorem Once.foldl_removeBlind (h : r.Once) : (slots.foldl RadixSortIndex.removeBlind r).Once := by
  induction slots generalizing r with
  | nil => exact h
  | cons slot slots ih => exact ih h.removeBlind

theorem mem_buckets_foldl_removeBlind (h : r.Once) :
    x ∈ (slots.foldl RadixSortIndex.removeBlind r).buckets i ↔ x ∈ r.buckets i ∧ x ∉ slots := by
  induction slots generalizing r with
  | nil => simp
  | cons slot slots ih =>
    rw [foldl_cons, ih h.removeBlind, mem_buckets_removeBlind h, mem_cons, not_or, and_assoc]

/-- Slots that are added keep their bucket if the index has them, and are not added for two buckets. -/
def Fits (r : RadixSortIndex) (adds : List (UInt32 × Nat)) : Prop :=
  ∀ a ∈ adds, (∀ i, a.1 ∈ r.buckets i → i = bucketOf a.2) ∧
    ∀ a' ∈ adds, a'.1 = a.1 → bucketOf a'.2 = bucketOf a.2

theorem Once.foldl_insert (h : r.Once) (hfits : r.Fits adds) : (adds.foldl (fun r a => r.insert a.1 a.2) r).Once := by
  intro i j x hi hj
  rcases mem_buckets_foldl_insert.mp hi with hi | ⟨a, ha, rfl, rfl⟩
  · rcases mem_buckets_foldl_insert.mp hj with hj | ⟨a, ha, rfl, rfl⟩
    · exact h i j x hi hj
    · exact (hfits a ha).1 i hi
  · rcases mem_buckets_foldl_insert.mp hj with hj | ⟨a', ha', rfl, hx⟩
    · exact ((hfits a ha).1 j hj).symm
    · exact (hfits a' ha').2 a ha hx

theorem once_fromBitmap {bitmap : Bitmap} {valueFn : UInt32 → Nat} : (fromBitmap bitmap valueFn).Once := by
  intro i j x hi hj
  rw [(mem_buckets_fromBitmap.mp hi).2, (mem_buckets_fromBitmap.mp hj).2]

end RadixSortIndex

/-! ## Packed keys -/

/-- The slot of a packed key, for any value. -/
theorem unpackKey_packKey_snd (value : Nat) (slot : UInt32) : (unpackKey (packKey value slot)).2 = slot := by
  have hslot : slot.toNat < 2 ^ 32 := slot.toNat_lt
  have hmod : (value % 2 ^ 32 * 2 ^ 32 + slot.toNat) % 2 ^ 32 = slot.toNat := by omega
  rw [unpackKey, packKey, hmod, UInt32.ofNat_toNat]

theorem mem_of_mem_buildSortedKeys {slots : List UInt32} {direction : SortDirection}
    {valueFn : UInt32 → Nat} {key : Nat} (h : key ∈ buildSortedKeys slots direction valueFn) :
    (unpackKey key).2 ∈ slots := by
  have hkey : key ∈ slots.map fun slot => packKey (valueFn slot) slot := by
    cases direction with
    | desc | asc => exact (mem_insertionSort _).mp h
  obtain ⟨slot, hslot, rfl⟩ := mem_map.mp hkey
  rw [unpackKey_packKey_snd]
  exact hslot

namespace UnifiedEntry

variable (e : UnifiedEntry)

/-- Some page of the entry can have the slot. -/
def shows (slot : UInt32) : Bool :=
  decide (slot ∈ e.bitmap) || (e.sortedKeys.elim false fun keys => keys.any fun key => (unpackKey key).2 == slot) ||
    e.radix.elim false fun r => (finRange 256).any fun i => decide (slot ∈ r.buckets i)

variable {e} {slot : UInt32}

theorem shows_iff : e.shows slot = true ↔
    slot ∈ e.bitmap ∨ (∃ keys, e.sortedKeys = some keys ∧ ∃ key ∈ keys, (unpackKey key).2 = slot) ∨
      ∃ r, e.radix = some r ∧ ∃ i, slot ∈ r.buckets i := by
  unfold shows
  rw [Bool.or_eq_true, Bool.or_eq_true, decide_eq_true_iff, or_assoc]
  refine or_congr_right (or_congr ?_ ?_)
  · cases e.sortedKeys with
    | none => simp
    | some keys => simp [any_eq_true]
  · cases e.radix with
    | none => simp
    | some r => simp [any_eq_true]

end UnifiedEntry

namespace QueryExecutor

variable {ex : QueryExecutor} {sort : SortClause} {cursor : Option CursorPosition} {limit : Nat} {id : UInt32}
  {bitmap : Bitmap} {p : List UInt32 × Option CursorPosition} {page : QueryResult}

/-- Where a missing field is an error, a result was computed from a field. -/
theorem exists_of_elim_ok {ε α β : Type} {o : Option α} {err : ε} {f : α → Except ε β} {r : β}
    (h : o.elim (.error err) f = .ok r) : ∃ a, f a = .ok r := by
  cases o with
  | none => cases h
  | some a => exact ⟨a, h⟩

theorem mem_of_mem_slotOrderPaginate (h : id ∈ (slotOrderPaginate bitmap limit cursor).1) : id ∈ bitmap := by
  have hid := mem_iter.mp (mem_reverse.mp (mem_of_mem_take h))
  cases cursor with
  | none => exact hid
  | some c => exact (Finset.mem_filter.mp hid).1

theorem mem_of_mem_simpleSortAndPaginate (h : ex.simpleSortAndPaginate bitmap sort limit cursor = .ok p)
    (hid : id ∈ p.1) : id ∈ bitmap := by
  obtain ⟨sf, h⟩ := exists_of_elim_ok h
  obtain rfl := ok.inj h
  have hid := mem_of_mem_filter (mem_of_mem_take hid)
  rwa [mem_insertionSort, mem_iter] at hid

theorem mem_of_mem_sortAndPaginate (h : ex.sortAndPaginate bitmap sort limit cursor = .ok p)
    (hid : id ∈ p.1) : id ∈ bitmap := by
  obtain ⟨sf, h⟩ := exists_of_elim_ok h
  obtain rfl := ok.inj h
  exact SortField.mem_of_mem_topN hid

/-- A page of a bitmap has only slots of it. -/
theorem mem_of_mem_executeFromBitmap {sort : Option SortClause} {simple : Bool}
    (h : ex.executeFromBitmap bitmap sort limit cursor simple = .ok page) (hid : id ∈ page.ids) : id ∈ bitmap := by
  obtain ⟨p, hp, h⟩ := bind_eq_ok_iff.mp h
  obtain rfl := ok.inj h
  cases sort with
  | none =>
    obtain rfl := ok.inj hp
    exact mem_of_mem_slotOrderPaginate hid
  | some sort =>
    split at hp
    · exact mem_of_mem_simpleSortAndPaginate hp hid
    · exact mem_of_mem_sortAndPaginate hp hid

theorem mem_of_mem_radixLoop {sf : SortField} {direction : SortDirection}
    {buckets : List (Fin 256 × Bitmap)} (h : id ∈ radixLoop sf direction cursor buckets limit) :
    ∃ b ∈ buckets, id ∈ b.2 := by
  induction buckets generalizing limit with
  | nil => cases h
  | cons b buckets ih =>
    obtain ⟨bucket, bitmap⟩ := b
    simp only [radixLoop] at h
    split at h
    · cases h
    · split at h
      · obtain ⟨b, hb, hid⟩ := ih h
        exact ⟨b, mem_cons_of_mem _ hb, hid⟩
      · rcases mem_append.mp h with h | h
        · exact ⟨(bucket, bitmap), mem_cons_self, SortField.mem_of_mem_topN h⟩
        · obtain ⟨b, hb, hid⟩ := ih h
          exact ⟨b, mem_cons_of_mem _ hb, hid⟩

theorem mem_of_mem_executeFromRadix {radix : RadixSortIndex} {total : Nat}
    (h : ex.executeFromRadix radix sort limit cursor total = .ok page) (hid : id ∈ page.ids) :
    ∃ i, id ∈ radix.buckets i := by
  obtain ⟨sf, h⟩ := exists_of_elim_ok h
  obtain rfl := ok.inj h
  obtain ⟨b, hb, hid⟩ := mem_of_mem_radixLoop hid
  obtain ⟨i, -, rfl⟩ := mem_map.mp hb
  exact ⟨i, hid⟩

/-- **A page of an entry** has only slots that the entry shows. -/
theorem shows_of_mem_serveEntry {e : UnifiedEntry}
    (h : ex.serveEntry e sort limit cursor = .ok page) (hid : id ∈ page.ids) : e.shows id = true := by
  rw [UnifiedEntry.shows_iff]
  unfold serveEntry at h
  cases hkeys : e.sortedKeys with
  | some keys =>
    rw [hkeys] at h
    obtain rfl := ok.inj h
    obtain ⟨key, hkey, rfl⟩ := mem_map.mp hid
    have hkey : key ∈ keys := mem_of_mem_drop (mem_of_mem_take hkey)
    exact .inr (.inl ⟨keys, rfl, key, hkey, rfl⟩)
  | none =>
    rw [hkeys, serveExpanded] at h
    cases hradix : e.radix with
    | none =>
      rw [hradix] at h
      exact .inl (mem_of_mem_executeFromBitmap h hid)
    | some radix =>
      rw [hradix] at h
      exact .inr (.inr ⟨radix, rfl, mem_of_mem_executeFromRadix h hid⟩)

end QueryExecutor

/-! ## Entries that show their bitmap only -/

namespace UnifiedEntry

variable (e : UnifiedEntry)

/-- An entry from a shard file. The keys of the file are used if it has them. -/
def fromRestoredWithClauses (bitmap : Bitmap) (metaId : CacheEntryId) (initialCapacity maxCapacity : Nat)
    (direction : SortDirection) (persistedSortedKeys : Option (List Nat)) (valueFn : UInt32 → Nat)
    (hasMore : Bool) (persistedTotalMatched : Nat) (originalFilterClauses : List FilterClause) :
    UnifiedEntry :=
  let sortedKeys := match persistedSortedKeys with
    | some keys => if keys = [] then none else some keys
    | none =>
      if bitmap = ∅ ∨ bitmap.card > maxCapacity then none
      else some (buildSortedKeys (iter bitmap) direction valueFn)
  { bitmap := bitmap
    minTrackedValue := ((sortedKeys.bind (·.getLast?)).map fun key => (unpackKey key).1).getD 0
    capacity := if bitmap.card > initialCapacity then maxCapacity else initialCapacity
    maxCapacity := maxCapacity
    hasMore := hasMore
    totalMatched := if persistedTotalMatched > 0 then persistedTotalMatched else bitmap.card
    needsRebuild := false
    metaId := metaId
    sortedKeys := sortedKeys
    radix := none
    direction := direction
    originalFilterClauses := originalFilterClauses }

/-- The keys and the radix index have only slots of the bitmap, and the radix index has each once. -/
structure Listed : Prop where
  keys : ∀ keys, e.sortedKeys = some keys → ∀ key ∈ keys, (unpackKey key).2 ∈ e.bitmap
  radix : ∀ r, e.radix = some r → ∀ i x, x ∈ r.buckets i → x ∈ e.bitmap
  once : ∀ r, e.radix = some r → r.Once

variable {e} {slot : UInt32} {maxCapacity total : Nat} {hasMore : Bool} {id : CacheEntryId} {direction : SortDirection}
  {clauses : List FilterClause} {valueFn : UInt32 → Nat} {adds : List (UInt32 × Nat)}

theorem Listed.shows_iff (h : e.Listed) : e.shows slot = true ↔ slot ∈ e.bitmap := by
  rw [UnifiedEntry.shows_iff]
  constructor
  · rintro (hin | ⟨keys, hkeys, key, hkey, rfl⟩ | ⟨r, hr, i, hin⟩)
    · exact hin
    · exact h.keys keys hkeys key hkey
    · exact h.radix r hr i slot hin
  · exact .inl

theorem Listed.newWithClauses {sortedSlots : List UInt32} {capacity : Nat} :
    (UnifiedEntry.newWithClauses sortedSlots capacity maxCapacity hasMore total id direction clauses
      valueFn).Listed where
  keys keys hkeys key hkey := by
    obtain ⟨-, hkeys⟩ := Option.ite_none_left_eq_some.mp hkeys
    obtain rfl := some.inj hkeys
    exact mem_toFinset.mpr (mem_of_mem_buildSortedKeys hkey)
  radix r hr := absurd hr.symm (some_ne_none r)
  once r hr := absurd hr.symm (some_ne_none r)

theorem Listed.addSlotsBulk (h : e.Listed) (hfits : ∀ r, e.radix = some r → r.Fits adds) :
    (e.addSlotsBulk adds).Listed := by
  by_cases hadds : adds = []
  · rwa [UnifiedEntry.addSlotsBulk, if_pos hadds]
  · rw [UnifiedEntry.addSlotsBulk, if_neg hadds]
    refine ⟨fun _ hkeys => absurd hkeys.symm (some_ne_none _), fun r hr i x hx => ?_, fun r hr => ?_⟩
    · obtain ⟨old, hold, rfl⟩ := map_eq_some_iff.mp hr
      refine Finset.mem_union.mpr ?_
      rcases RadixSortIndex.mem_buckets_foldl_insert.mp hx with hx | ⟨a, ha, -, rfl⟩
      · exact .inl (h.radix old hold i x hx)
      · exact .inr (mem_toFinset.mpr (mem_map_of_mem ha))
    · obtain ⟨old, hold, rfl⟩ := map_eq_some_iff.mp hr
      exact (h.once old hold).foldl_insert (hfits old hold)

/-- Removing slots from the bitmap and the radix index alike, and dropping the keys. -/
theorem Listed.remove (h : e.Listed) {removed : Bitmap} {slots : List UInt32} (hslots : ∀ x ∈ removed, x ∈ slots) :
    { e with
      bitmap := e.bitmap \ removed
      sortedKeys := none
      radix := e.radix.map fun r => slots.foldl RadixSortIndex.removeBlind r : UnifiedEntry }.Listed := by
  refine ⟨fun _ hkeys => absurd hkeys.symm (some_ne_none _), fun r hr i x hx => ?_, fun r hr => ?_⟩
  · obtain ⟨old, hold, rfl⟩ := map_eq_some_iff.mp hr
    obtain ⟨hin, hnot⟩ := (RadixSortIndex.mem_buckets_foldl_removeBlind (h.once old hold)).mp hx
    exact Finset.mem_sdiff.mpr ⟨h.radix old hold i x hin, fun hrem => hnot (hslots x hrem)⟩
  · obtain ⟨old, hold, rfl⟩ := map_eq_some_iff.mp hr
    exact (h.once old hold).foldl_removeBlind

theorem Listed.removeSlotsBulk (h : e.Listed) (removes : List (UInt32 × Nat)) : (e.removeSlotsBulk removes).Listed := by
  unfold UnifiedEntry.removeSlotsBulk
  simp only
  split
  · exact h
  · exact h.remove fun x hx => mem_toFinset.mp hx

theorem Listed.applyBucketDiff (h : e.Listed) (candidates ownBucketLive : Bitmap) :
    (e.applyBucketDiff candidates ownBucketLive).Listed := by
  unfold UnifiedEntry.applyBucketDiff
  simp only
  split
  · exact h
  · exact h.remove fun x hx => mem_iter.mpr hx

/-- A diff takes the candidates out that are not in the bucket. -/
theorem mem_bitmap_applyBucketDiff {candidates ownBucketLive : Bitmap} :
    slot ∈ (e.applyBucketDiff candidates ownBucketLive).bitmap ↔
      slot ∈ e.bitmap ∧ (slot ∈ candidates → slot ∈ ownBucketLive) := by
  unfold applyBucketDiff
  simp only
  split
  · next hnone =>
    refine (and_iff_left_of_imp fun hslot hcand => ?_).symm
    by_contra hlive
    have hremoved : slot ∈ (e.bitmap ∩ candidates) \ ownBucketLive :=
      Finset.mem_sdiff.mpr ⟨Finset.mem_inter.mpr ⟨hslot, hcand⟩, hlive⟩
    rw [hnone] at hremoved
    exact absurd hremoved (Finset.notMem_empty slot)
  · simp only [Finset.mem_sdiff, Finset.mem_inter, not_and, not_not]
    exact and_congr_right fun hslot => ⟨fun h hcand => h ⟨hslot, hcand⟩, fun h hboth => h hboth.2⟩

theorem Listed.expand {newSlots : List UInt32} : (e.expand newSlots valueFn).Listed where
  keys _ hkeys := absurd hkeys.symm (some_ne_none _)
  radix r hr i x hx := by
    obtain rfl := some.inj hr
    exact (RadixSortIndex.mem_buckets_fromBitmap.mp hx).1
  once r hr := by
    obtain rfl := some.inj hr
    exact RadixSortIndex.once_fromBitmap

theorem Listed.markForRebuild (h : e.Listed) : e.markForRebuild.Listed := ⟨h.keys, h.radix, h.once⟩

theorem Listed.fromRestoredWithClauses {bitmap : Bitmap} {initialCapacity : Nat} {persisted : Option (List Nat)}
    (hkeys : ∀ keys, persisted = some keys → ∀ key ∈ keys, (unpackKey key).2 ∈ bitmap) :
    (UnifiedEntry.fromRestoredWithClauses bitmap id initialCapacity maxCapacity direction persisted valueFn
      hasMore total clauses).Listed where
  keys keys h key hkey := by
    show (unpackKey key).2 ∈ bitmap
    cases persisted with
    | some stored =>
      obtain ⟨-, h⟩ := Option.ite_none_left_eq_some.mp h
      obtain rfl := some.inj h
      exact hkeys stored rfl key hkey
    | none =>
      obtain ⟨-, h⟩ := Option.ite_none_left_eq_some.mp h
      obtain rfl := some.inj h
      exact mem_iter.mp (mem_of_mem_buildSortedKeys hkey)
  radix r hr := absurd hr.symm (some_ne_none r)
  once r hr := absurd hr.symm (some_ne_none r)

end UnifiedEntry

end Bitdex
