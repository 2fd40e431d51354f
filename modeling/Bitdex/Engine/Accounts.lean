import Bitdex.Cache.Native
import Bitdex.Engine.Bypass

/-!
# `Engine.Accounts` — what an entry reads of a slot, and what batches write of it

What an entry should say of a slot rests on the slot's bits in the leaf fields of its clauses, on its sort value and
on whether it is alive. `Accounted`: two snapshots differ in these only where one of some batches writes. A batch
accounts for its own application (`accounted_applyBatch`), and what nothing accounts for has not moved
(`Accounted.notMem_movedSlots`).

The worker merges items, and merging cancels an insert of a slot against a remove of it under the same key. `Names`
says in terms of the items which slots the merged batch looks at (`triggered_coalesced_iff`). Any other slot is
accounted for by the items left in the queue, if what was cancelled is stored as the entry saw it
(`Accounted.afterMerge`).
-/

namespace Bitdex

open UnifiedCache FlushThread WriteBatch Postings QueryExecutor Finset

section Agreement

variable [Host] (ex ex' : QueryExecutor) (key : UnifiedKey) (e : UnifiedEntry)

/-- **Agreement** of an entry with an index on one slot: a member is in the result, and an alive slot of the result
that is no member is one the entry need not hold: it has more slots, and the slot is not inside its floor. -/
structure AgreesAt (x : UInt32) : Prop where
  member : x ∈ e.bitmap → x ∈ resultOf ex e
  outsider : x ∈ resultOf ex e → ex.slots.isAlive x = true → x ∉ e.bitmap →
    e.hasMore = true ∧ entryQualifies ex key e x = false

/-- The slots whose standing in an entry changes between two indexes: they leave the result, come alive in it, or come
inside the floor. -/
def movedSlots : Bitmap :=
  (resultOf ex e \ resultOf ex' e) ∪
    (resultOf ex' e).filter fun x => ex'.slots.isAlive x = true ∧
      ¬ (x ∈ resultOf ex e ∧ ex.slots.isAlive x = true ∧
        (entryQualifies ex' key e x = true → entryQualifies ex key e x = true))

variable {ex ex' key e} {e' : UnifiedEntry} {x : UInt32}

theorem notMem_movedSlots : x ∉ movedSlots ex ex' key e ↔ (x ∈ resultOf ex e → x ∈ resultOf ex' e) ∧
      (x ∈ resultOf ex' e → ex'.slots.isAlive x = true → x ∈ resultOf ex e ∧ ex.slots.isAlive x = true ∧
        (entryQualifies ex' key e x = true → entryQualifies ex key e x = true)) := by
  rw [movedSlots, mem_union, mem_sdiff, mem_filter, not_or]
  refine and_congr ?_ ?_
  · rw [not_and, not_not]
  · rw [not_and, not_and, not_not]

/-- Agreement on a slot lasts while the slot does not move. -/
theorem AgreesAt.carry (h : AgreesAt ex key e x) (hmoved : x ∉ movedSlots ex ex' key e) : AgreesAt ex' key e x := by
  obtain ⟨hstay, hwas⟩ := notMem_movedSlots.mp hmoved
  refine ⟨fun hmem => hstay (h.member hmem), ?_⟩
  intro hin halive hout
  obtain ⟨hin', halive', hinside⟩ := hwas hin halive
  obtain ⟨hmore, hq⟩ := h.outsider hin' halive' hout
  refine ⟨hmore, ?_⟩
  rw [← Bool.not_eq_true] at hq ⊢
  exact fun hq' => hq (hinside hq')

theorem resultOf_congr (h : e'.originalFilterClauses = e.originalFilterClauses) : resultOf ex e' = resultOf ex e := by
  rw [resultOf, h, resultOf]

omit [Host] in
theorem entryQualifies_congr (h : UnifiedEntry.SameBounds e e') :
    entryQualifies ex key e' x = entryQualifies ex key e x := by
  rw [entryQualifies, h.floor, h.direction, entryQualifies]

/-- Agreement on a slot is about the bounds of the entry and that slot of its bitmap. -/
theorem AgreesAt.congr (h : AgreesAt ex key e x) (hsame : UnifiedEntry.SameBounds e e')
    (hmem : x ∈ e'.bitmap ↔ x ∈ e.bitmap) : AgreesAt ex key e' x := by
  refine ⟨fun hx => ?_, fun hin halive hout => ?_⟩
  · rw [resultOf_congr hsame.clauses]
    exact h.member (hmem.mp hx)
  · rw [resultOf_congr hsame.clauses] at hin
    rw [hsame.hasMore, entryQualifies_congr hsame]
    exact h.outsider hin halive fun hx => hout (hmem.mpr hx)

end Agreement

section Answers

variable [Host] {ex ex' : QueryExecutor} {e : UnifiedEntry} {x : UInt32}

/-- The executor accepts the clauses of an entry and answers with their intersection. -/
def Conjoins (ex : QueryExecutor) (e : UnifiedEntry) : Prop :=
  ∃ r ∈ (ex.resolveFilters e.originalFilterClauses).toOption,
    ex.intersectClauses (ex.tables.snapRangeClauses e.originalFilterClauses) = .ok r.1

theorem Tables.snapRangeClauses_eq_map (t : Tables) (clauses : List FilterClause) :
    t.snapRangeClauses clauses = clauses.map t.snapClause := by
  unfold Tables.snapRangeClauses
  induction clauses with
  | nil => rfl
  | cons c cs ih => rw [Tables.snapEach, ih, List.map_cons]

/-- A bound on the bucketed field is snapped to a bucket of that field. -/
theorem Tables.snapToBucket_eq_some {t : Tables} {f : String} {ts : Int64} {c : FilterClause}
    (h : t.snapToBucket f ts = some c) : ∃ name bitmap, c = .bucketBitmap f name bitmap := by
  obtain ⟨tb, -, h⟩ := Option.bind_eq_some_iff.mp h
  obtain ⟨-, h⟩ := Option.ite_none_right_eq_some.mp h
  obtain rfl := Option.some.inj h
  dsimp only
  cases hwithin : (tb.snapDuration (t.nowUnix - (Tables.tsToSecs ts).toUInt64.toNat)).bind fun name =>
      (tb.getBucket name).map fun b => FilterClause.bucketBitmap f name b.bitmap with
  | none =>
    rw [Option.getD_none]
    cases tb.getBucket (tb.snapNearest (t.nowUnix - (Tables.tsToSecs ts).toUInt64.toNat)) with
    | none | some b => exact ⟨_, _, rfl⟩
  | some c =>
    obtain ⟨name, -, hname⟩ := Option.bind_eq_some_iff.mp hwithin
    obtain ⟨b, -, rfl⟩ := Option.map_eq_some_iff.mp hname
    exact ⟨name, b.bitmap, rfl⟩

/-- Snapping keeps the leaf fields of a clause. -/
theorem collectLeafFields_snapClause (t : Tables) (c : FilterClause) :
    collectLeafFields (t.snapClause c) = collectLeafFields c := by
  have hsnap : ∀ f ts clause, collectLeafFields clause = [f] →
      collectLeafFields ((t.snapToBucket f ts).getD clause) = [f] := by
    intro f ts clause hclause
    cases hc : t.snapToBucket f ts with
    | none => exact hclause
    | some c =>
      obtain ⟨name, bitmap, rfl⟩ := Tables.snapToBucket_eq_some hc
      rfl
  induction c using FilterClause.tree_induction with
  | gt f v | gte f v =>
    cases v with
    | integer ts => exact hsnap f ts _ rfl
    | _ => rfl
  | and cs ih | or cs ih =>
    have heach : leafFieldsOfEach (t.snapEach cs) = leafFieldsOfEach cs := by
      induction cs with
      | nil => rfl
      | cons c cs ihcs =>
        rw [Tables.snapEach, leafFieldsOfEach, leafFieldsOfEach, ih c List.mem_cons_self,
          ihcs fun c hc => ih c (List.mem_cons_of_mem _ hc)]
    rw [Tables.snapClause, collectLeafFields, collectLeafFields, heach]
  | _ => rfl

theorem conjoins_congr {e' : UnifiedEntry} (h : e'.originalFilterClauses = e.originalFilterClauses) :
    Conjoins ex e' ↔ Conjoins ex e := by
  rw [Conjoins, h, Conjoins]

theorem resolveFilters_of_conjoins (h : Conjoins ex e) :
    ∃ simple, ex.resolveFilters e.originalFilterClauses = .ok (resultOf ex e, simple) ∧
      ex.intersectClauses (ex.tables.snapRangeClauses e.originalFilterClauses) = .ok (resultOf ex e) := by
  obtain ⟨r, hr, hinter⟩ := h
  cases hresolve : ex.resolveFilters e.originalFilterClauses with
  | error err =>
    rw [hresolve] at hr
    cases hr
  | ok r' =>
    rw [hresolve] at hr
    cases hr
    have hresult : resultOf ex e = r.1 := by rw [resultOf, hresolve]
    rw [hresult]
    exact ⟨r.2, rfl, hinter⟩

/-- **Locality of an answer.** Two snapshots that share a slot and store the same of it in the leaf fields give the
same. -/
theorem mem_resultOf_congr (h : Conjoins ex e) (h' : Conjoins ex' e) (hshares : SharesSlot ex ex' x)
    (hfields : ∀ f ∈ leafFieldsOfEach e.originalFilterClauses, ex.filters.AgreeAt ex'.filters f x) :
    x ∈ resultOf ex e ↔ x ∈ resultOf ex' e := by
  obtain ⟨-, -, hinter⟩ := resolveFilters_of_conjoins h
  obtain ⟨-, -, hinter'⟩ := resolveFilters_of_conjoins h'
  rw [ex.mem_intersectClauses hinter, ex'.mem_intersectClauses hinter', hshares.alive_iff, ← hshares.tables_eq]
  refine and_congr_right fun _ => forall₂_congr fun c hc => ?_
  rw [Tables.snapRangeClauses_eq_map] at hc
  obtain ⟨c₀, hc₀, rfl⟩ := List.mem_map.mp hc
  rw [holds_congr hshares fun f hf => hfields f (mem_leafFieldsOfEach.mpr ⟨c₀, hc₀, ?_⟩)]
  rwa [collectLeafFields_snapClause] at hf

end Answers

/-! ## What batches write -/

namespace WriteBatch

variable (b : WriteBatch) (x : UInt32)

/-- The batch writes a slot under a filter key. -/
def WritesBit (g : FilterGroupKey) : Prop := x ∈ b.filterInserts.ids g ∨ x ∈ b.filterRemoves.ids g

/-- The batch creates or deletes a slot. -/
def WritesAlive : Prop := x ∈ b.aliveInserts ∨ x ∈ b.aliveRemoves

end WriteBatch

namespace IndexState

variable (st st' : IndexState)

/-- The sort value of a slot in the order of a key. -/
def valueFor (key : UnifiedKey) (x : UInt32) : Nat := (st.sorts.reconstructValue key.sortField x).getD 0

/-- A slot is alive in both snapshots or in neither, to a query and to a write. -/
def SameAlive (x : UInt32) : Prop :=
  (x ∈ st.slots.aliveBitmap ↔ x ∈ st'.slots.aliveBitmap) ∧ st.slots.isAlive x = st'.slots.isAlive x

/-- The alive bitmap is in memory and has no pending changes. -/
def AliveMerged : Prop := st.slots.alive.isLoaded = true ∧ st.slots.alive.base = st.slots.alive.fused

end IndexState

section Accounts

variable (items : List WriteBatch) (key : UnifiedKey) (e : UnifiedEntry) (st st' : IndexState) (x : UInt32)

/-- **Accounted.** What an entry reads of a slot differs in two snapshots only where an item writes it. -/
structure Accounted : Prop where
  bits : ∀ f ∈ leafFieldsOfEach e.originalFilterClauses, ∀ k,
    (x ∈ st.filters.bits f k ↔ x ∈ st'.filters.bits f k) ∨ ∃ b ∈ items, b.WritesBit x ⟨f, k⟩
  value : st.valueFor key x = st'.valueFor key x ∨ ∃ b ∈ items, SortTriggered b key x
  alive : st.SameAlive st' x ∨ ∃ b ∈ items, b.WritesAlive x

variable {items key e st st' x} {items' : List WriteBatch} {st'' : IndexState} {b : WriteBatch} {e' : UnifiedEntry}

theorem Accounted.refl : Accounted items key e st st x :=
  ⟨fun _ _ _ => .inl Iff.rfl, .inl rfl, .inl ⟨Iff.rfl, rfl⟩⟩

/-- Items that write nothing the entry reads can be left out. -/
theorem Accounted.leaveOut (h : Accounted items key e st st' x)
    (hitems : ∀ b ∈ items, b ∈ items' ∨ ((∀ f ∈ leafFieldsOfEach e.originalFilterClauses, ∀ k, ¬ b.WritesBit x ⟨f, k⟩) ∧
      ¬ SortTriggered b key x ∧ ¬ b.WritesAlive x)) : Accounted items' key e st st' x := by
  refine ⟨fun f hf k => (h.bits f hf k).imp_right ?_, h.value.imp_right ?_, h.alive.imp_right ?_⟩
  · rintro ⟨b, hb, hw⟩
    exact ⟨b, (hitems b hb).resolve_right fun hno => hno.1 f hf k hw, hw⟩
  · rintro ⟨b, hb, hw⟩
    exact ⟨b, (hitems b hb).resolve_right fun hno => hno.2.1 hw, hw⟩
  · rintro ⟨b, hb, hw⟩
    exact ⟨b, (hitems b hb).resolve_right fun hno => hno.2.2 hw, hw⟩

theorem Accounted.mono (h : Accounted items key e st st' x) (hsub : ∀ b ∈ items, b ∈ items') :
    Accounted items' key e st st' x :=
  h.leaveOut fun b hb => .inl (hsub b hb)

/-- Accounts add up. -/
theorem Accounted.trans (h : Accounted items key e st st' x) (h' : Accounted items key e st' st'' x) :
    Accounted items key e st st'' x := by
  refine ⟨fun f hf k => ?_, ?_, ?_⟩
  · rcases h.bits f hf k with hsame | hw
    · exact (h'.bits f hf k).imp_left hsame.trans
    · exact .inr hw
  · rcases h.value with hsame | hw
    · exact h'.value.imp_left hsame.trans
    · exact .inr hw
  · rcases h.alive with hsame | hw
    · exact h'.alive.imp_left fun hsame' => ⟨hsame.1.trans hsame'.1, hsame.2.trans hsame'.2⟩
    · exact .inr hw

theorem Accounted.congr (h : Accounted items key e st st' x)
    (hclauses : e'.originalFilterClauses = e.originalFilterClauses) : Accounted items key e' st st' x :=
  ⟨by rw [hclauses]; exact h.bits, h.value, h.alive⟩

/-- **A batch accounts for what it changes.** -/
theorem accounted_applyBatch (b : WriteBatch) (hmerged : st.AliveMerged) :
    Accounted [b] key e st (st.applyBatch b) x := by
  refine ⟨fun f _ k => ?_, ?_, ?_⟩
  · by_cases hw : b.WritesBit x ⟨f, k⟩
    · exact .inr ⟨b, List.mem_singleton_self b, hw⟩
    · obtain ⟨hins, hrem⟩ := not_or.mp hw
      exact .inl (FilterIndex.mem_bits_applyGroups_of_notMem hins hrem).symm
  · by_cases hw : SortTriggered b key x
    · exact .inr ⟨b, List.mem_singleton_self b, hw⟩
    · refine .inl (congrArg (Option.getD · 0) (SortIndex.reconstructValue_applyGroups fun layer => ?_).symm)
      rw [← not_or]
      exact fun hmem => hw (mem_mutatedSortSlots.mpr ⟨layer, hmem⟩)
  · by_cases hw : b.WritesAlive x
    · exact .inr ⟨b, List.mem_singleton_self b, hw⟩
    · obtain ⟨hins, hrem⟩ := not_or.mp hw
      have hfused : x ∈ (st.slots.applyAlive b).alive.fused ↔ x ∈ st.slots.alive.fused := by
        rw [SlotAllocator.mem_alive_applyAlive]
        simp [hins, hrem]
      refine .inl ⟨?_, ?_⟩
      · have hbase := (st.slots.merged_applyAlive b hmerged.1).2
        show x ∈ st.slots.alive.base ↔ x ∈ (st.slots.applyAlive b).alive.base
        rw [hbase, hfused, hmerged.2]
      · rw [Bool.eq_iff_iff]
        exact (VersionedBitmap.contains_iff _).trans (hfused.symm.trans (VersionedBitmap.contains_iff _).symm)

/-- An item that is not queued, because there is nothing in it for the worker, accounts for nothing. -/
theorem Accounted.of_isEmptyWork (h : Accounted (b :: items) key e st st' x) (hempty : b.isEmptyWork = true) :
    Accounted items key e st st' x := by
  simp only [isEmptyWork, Bool.and_eq_true, decide_eq_true_eq] at hempty
  obtain ⟨⟨⟨⟨hins, hrem⟩, hsort⟩, haliveIns⟩, haliveRem⟩ := hempty
  have hids : ∀ {κ : Type} [DecidableEq κ] {m : Postings κ UInt32}, m.entries = [] → ∀ k, x ∉ m.ids k := by
    intro κ _ m hm k hx
    obtain ⟨entry, hentry, -⟩ := mem_ids_iff_entries.mp hx
    rw [hm] at hentry
    cases hentry
  refine h.leaveOut fun b' hb' => ?_
  rcases List.mem_cons.mp hb' with rfl | hb'
  · refine .inr ⟨fun f _ k => not_or.mpr ⟨hids hins _, hids hrem _⟩, hids hsort _, ?_⟩
    rw [WritesAlive, haliveIns, haliveRem]
    simp
  · exact .inl hb'

/-- **What nothing accounts for has not moved.** -/
theorem Accounted.notMem_movedSlots [Host] {cfg : FlushConfig} {t : FlushThread} (h : Accounted [] key e st st' x)
    (hst : Conjoins (t.executor cfg st) e) (hst' : Conjoins (t.executor cfg st') e) :
    x ∉ movedSlots (t.executor cfg st) (t.executor cfg st') key e := by
  have hnone : ∀ {P : WriteBatch → Prop}, ¬ ∃ b ∈ ([] : List WriteBatch), P b := by simp
  have halive := h.alive.resolve_right hnone
  have hvalue : (t.executor cfg st').sortValue key.sortField x = (t.executor cfg st).sortValue key.sortField x :=
    (h.value.resolve_right hnone).symm
  have hresult : x ∈ resultOf (t.executor cfg st) e ↔ x ∈ resultOf (t.executor cfg st') e :=
    mem_resultOf_congr hst hst' ⟨rfl, halive.1⟩ fun f hf k => (h.bits f hf k).resolve_right hnone
  refine Bitdex.notMem_movedSlots.mpr ⟨hresult.mp, fun hin hlive => ⟨hresult.mpr hin, halive.2.trans hlive, ?_⟩⟩
  rw [entryQualifies, hvalue, entryQualifies]
  exact id

end Accounts

section Merged

variable (items rest : List WriteBatch) (key : UnifiedKey) (e : UnifiedEntry)

/-- Some item inserts a slot under a key. -/
def InsertsBit (g : FilterGroupKey) (x : UInt32) : Prop := ∃ b ∈ items, x ∈ b.filterInserts.ids g

/-- Some item removes a slot from under a key. -/
def RemovesBit (g : FilterGroupKey) (x : UInt32) : Prop := ∃ b ∈ items, x ∈ b.filterRemoves.ids g

/-- Some items write a slot under a key, and always the same way. -/
def NetWrites (g : FilterGroupKey) (x : UInt32) : Prop :=
  (InsertsBit items g x ∧ ¬ RemovesBit items g x) ∨ (RemovesBit items g x ∧ ¬ InsertsBit items g x)

/-- A group that merging leaves: it is inserts only or removes only, or one of its slots does not cancel. -/
def LeavesGroup (g : FilterGroupKey) : Prop :=
  ((∃ b ∈ items, g ∈ b.filterInserts) ∧
      ((∀ b ∈ items, g ∉ b.filterRemoves) ∨ ∃ x, InsertsBit items g x ∧ ¬ RemovesBit items g x)) ∨
    (∃ b ∈ items, g ∈ b.filterRemoves) ∧
      ((∀ b ∈ items, g ∉ b.filterInserts) ∨ ∃ x, RemovesBit items g x ∧ ¬ InsertsBit items g x)

/-- A group makes maintenance find an entry. -/
def GroupReaches (g : FilterGroupKey) : Prop :=
  ⟨g.field, "eq", toString g.value.toNat⟩ ∈ key.filterClauses ∨
    (∃ k ∈ key.filterClauses, k.field = g.field ∧ k.op ≠ "eq") ∨
    (g.field ∈ leafFieldsOfEach e.originalFilterClauses ∧ ∀ k ∈ key.filterClauses, k.field ≠ g.field)

/-- **What merged items name.** An item re-sorts the slot, or it is written in a watched field, always the same way,
and a group that merging leaves reaches the entry. -/
def Names (x : UInt32) : Prop :=
  (∃ b ∈ items, SortTriggered b key x) ∨
    (∃ g, LeavesGroup items g ∧ GroupReaches key e g) ∧ ∃ f ∈ watchedFields key e, ∃ k, NetWrites items ⟨f, k⟩ x

/-- Some item deletes a slot. -/
def Deletes (x : UInt32) : Prop := ∃ b ∈ items, x ∈ b.aliveRemoves

variable {items key e} {g : FilterGroupKey} {x : UInt32}

theorem mem_gather {κ : Type} [DecidableEq κ] {groups : WriteBatch → Postings κ UInt32} {k : κ} :
    k ∈ gather groups items ↔ ∃ b ∈ items, k ∈ groups b := by
  have hmem : k ∈ gather groups items ↔ _ := mem_addAll
  rw [hmem]
  simp only [AList.notMem_empty, false_or, List.mem_flatMap, List.mem_map]
  constructor
  · rintro ⟨_, ⟨b, hb, entry, hentry, rfl⟩, rfl⟩
    exact ⟨b, hb, AList.mem_keys.mpr (List.mem_map_of_mem hentry)⟩
  · rintro ⟨b, hb, hk⟩
    obtain ⟨entry, hentry, rfl⟩ := List.mem_map.mp (AList.mem_keys.mp hk)
    exact ⟨_, ⟨b, hb, entry, hentry, rfl⟩, rfl⟩

theorem mem_groupKeys_coalesced :
    g ∈ groupKeys (coalesceWorkItems items).filterInserts (coalesceWorkItems items).filterRemoves ↔
      LeavesGroup items g := by
  simp only [groupKeys, coalesceWorkItems, List.mem_append, ← AList.mem_keys, mem_cancel, mem_gather, mem_ids_gather,
    LeavesGroup, InsertsBit, RemovesBit, not_exists, not_and]

theorem mem_watchedSlots_coalesced :
    x ∈ watchedSlots (coalesceWorkItems items).filterInserts (coalesceWorkItems items).filterRemoves key e ↔
      ∃ f ∈ watchedFields key e, ∃ k, NetWrites items ⟨f, k⟩ x := by
  simp only [mem_watchedSlots, mem_changedSlots, coalesceWorkItems, mem_ids_cancel, mem_ids_gather, NetWrites,
    InsertsBit, RemovesBit]

theorem sortTriggered_coalesced_iff :
    SortTriggered (coalesceWorkItems items) key x ↔ ∃ b ∈ items, SortTriggered b key x := by
  refine ⟨fun h => ?_, fun ⟨b, hb, h⟩ => sortTriggered_coalesced hb h⟩
  obtain ⟨layer, h | h⟩ := mem_mutatedSortSlots.mp h
  · obtain ⟨b, hb, hx⟩ := mem_ids_gather.mp h
    exact ⟨b, hb, mem_mutatedSortSlots.mpr ⟨layer, .inl hx⟩⟩
  · obtain ⟨b, hb, hx⟩ := mem_ids_gather.mp h
    exact ⟨b, hb, mem_mutatedSortSlots.mpr ⟨layer, .inr hx⟩⟩

/-- **The merged batch looks at what its items name.** -/
theorem triggered_coalesced_iff : Triggered (coalesceWorkItems items) key e x ↔ Names items key e x := by
  refine or_congr sortTriggered_coalesced_iff (and_congr ?_ mem_watchedSlots_coalesced)
  exact exists_congr fun g => and_congr_left fun _ => mem_groupKeys_coalesced

theorem mem_aliveRemoves_coalesced : x ∈ (coalesceWorkItems items).aliveRemoves ↔ Deletes items x := by
  refine mem_foldl_union.trans ?_
  simp [Deletes]

theorem evaluates_coalesced_iff :
    Evaluates (coalesceWorkItems items) key e x ↔ Names items key e x ∨ Deletes items x :=
  or_congr triggered_coalesced_iff mem_aliveRemoves_coalesced

/-- A leaf field of the clauses is watched. -/
theorem mem_watchedFields {f : String} (hf : f ∈ leafFieldsOfEach e.originalFilterClauses) :
    f ∈ watchedFields key e := by
  rw [watchedFields, if_neg]
  · exact hf
  · intro hnil
    rw [hnil] at hf
    cases hf

/-- A written key is one of the batch's groups. -/
theorem WriteBatch.WritesBit.mem_groupKeys {b : WriteBatch} (h : b.WritesBit x g) :
    g ∈ groupKeys b.filterInserts b.filterRemoves :=
  List.mem_append.mpr (h.imp (fun hx => AList.mem_keys.mp (mem_of_mem_ids hx))
    fun hx => AList.mem_keys.mp (mem_of_mem_ids hx))

variable (items key e) in
/-- **The condition on merging** `items`, for a slot that an entry last saw in `st` and that is published as in `st'`:
a written bit does not cancel and some group reaches the entry, or it is stored as the entry saw it, or an item in
`rest`, which stays queued, writes it; a slot that comes alive is named or deleted, was alive, or comes alive for an
item in `rest`. -/
@[mk_iff]
structure Merges (st st' : IndexState) (x : UInt32) : Prop where
  bits : ∀ b ∈ items, ∀ g ∈ groupKeys b.filterInserts b.filterRemoves,
    g.field ∈ leafFieldsOfEach e.originalFilterClauses → b.WritesBit x g →
      (NetWrites items g x ∧ ∃ g', LeavesGroup items g' ∧ GroupReaches key e g') ∨
        (x ∈ st.filters.bits g.field g.value ↔ x ∈ st'.filters.bits g.field g.value) ∨ ∃ b ∈ rest, b.WritesBit x g
  revived : (∃ b ∈ items, x ∈ b.aliveInserts) →
    Names items key e x ∨ Deletes items x ∨ st.SameAlive st' x ∨ ∃ b ∈ rest, b.WritesAlive x

variable {rest} {st st' : IndexState}

/-- **Cancellation.** A slot that merged items are taken from and do not look at is accounted for by the items that
are left. -/
theorem Accounted.afterMerge (h : Accounted (items ++ rest) key e st st' x) (hmerges : Merges items rest key e st st' x)
    (hnames : ¬ Names items key e x) (hdeletes : ¬ Deletes items x) : Accounted rest key e st st' x := by
  refine ⟨fun f hf k => ?_, ?_, ?_⟩
  · rcases h.bits f hf k with hsame | ⟨b, hb, hw⟩
    · exact .inl hsame
    · rcases List.mem_append.mp hb with hb | hb
      · rcases hmerges.bits b hb ⟨f, k⟩ hw.mem_groupKeys hf hw with ⟨hnet, hreached⟩ | hstored
        · exact absurd (.inr ⟨hreached, f, mem_watchedFields hf, k, hnet⟩) hnames
        · exact hstored
      · exact .inr ⟨b, hb, hw⟩
  · rcases h.value with hsame | ⟨b, hb, hw⟩
    · exact .inl hsame
    · rcases List.mem_append.mp hb with hb | hb
      · exact absurd (.inl ⟨b, hb, hw⟩) hnames
      · exact .inr ⟨b, hb, hw⟩
  · rcases h.alive with hsame | ⟨b, hb, hw⟩
    · exact .inl hsame
    · rcases List.mem_append.mp hb with hb | hb
      · have hins := hw.resolve_right fun hx => hdeletes ⟨b, hb, hx⟩
        exact ((hmerges.revived ⟨b, hb, hins⟩).resolve_left hnames).resolve_left hdeletes
      · exact .inr ⟨b, hb, hw⟩

/-- **A dropped backlog** that does not invalidate the entry wrote nothing it reads, if the key names the leaf fields
written. -/
theorem Accounted.afterDrop (h : Accounted (items ++ rest) key e st st' x) (hvalid : ¬ Invalidates items key)
    (hnamed : ∀ b ∈ items, ∀ g ∈ groupKeys b.filterInserts b.filterRemoves,
      g.field ∈ leafFieldsOfEach e.originalFilterClauses → ∃ k ∈ key.filterClauses, k.field = g.field) :
    Accounted rest key e st st' x := by
  refine h.leaveOut fun b hb => (List.mem_append.mp hb).symm.imp_right fun hb => ?_
  refine ⟨fun f hf k hw => ?_, fun hw => ?_, fun hw => ?_⟩
  · have hg := hw.mem_groupKeys
    exact hvalid (.inr ⟨b, hb, _, hg, hnamed b hb _ hg hf⟩)
  · obtain ⟨entry, hentry, -⟩ := mem_ids_iff_entries.mp hw
    exact hvalid (.inl ⟨b, hb, .inr (.inr (List.ne_nil_of_mem hentry))⟩)
  · exact hvalid (.inl ⟨b, hb, hw.imp ne_empty_of_mem fun hx => .inl (ne_empty_of_mem hx)⟩)

end Merged

/-! ## One evaluation -/

section Judge

variable [Host] (legacy : UInt32 → CanonicalClause → Bool) (ex : QueryExecutor) (items : List WriteBatch)
  (key : UnifiedKey) (e : UnifiedEntry)

/-- The clauses of an entry in the order in which the executor applies them. -/
def orderedClauses : List FilterClause :=
  (planQuery (ex.tables.snapRangeClauses e.originalFilterClauses) ex.filters ex.slots (some ex.tables)).orderedClauses

/-- The per-slot evaluator is right about a slot: if it is alive, the leaves the executor reads otherwise do not
change the truth of the clauses; a dead one is accepted only if the executor returns it too. -/
def EvaluatorRight (x : UInt32) : Prop :=
  if x ∈ ex.aliveBitmap then
    if e.originalFilterClauses = [] then key.filterClauses.all (legacy x) = true
    else truthOfList (fun _ c => ex.leafStored x c) e.originalFilterClauses =
      truthOfList (fun r c => ex.leafStored x c ^^ ex.readsOtherwise x r c) (orderedClauses ex e)
  else entryMatches ex legacy key e x = true → x ∈ resultOf ex e

/-- **The condition on an evaluation** of merged items for an entry: the sort values can be read, the evaluator is
right about the named slots, and a slot of the result left or taken outside is one the entry need not hold. -/
structure JudgesRight : Prop where
  loaded : ∃ sf, ex.sorts.getField key.sortField = some sf ∧ sf.isFullyLoaded = true
  agrees : ∀ x, Names items key e x → EvaluatorRight legacy ex key e x
  placed : ∀ x ∈ resultOf ex e, ex.slots.isAlive x = true → Names items key e x ∨ Deletes items x →
    (Names items key e x → entryQualifies ex key e x = false) →
    (∃ b ∈ items, SortTriggered b key x) ∨ x ∉ e.bitmap ∨ Deletes items x →
    e.hasMore = true ∧ entryQualifies ex key e x = false

variable {legacy ex items key e} {b : WriteBatch} {e' : UnifiedEntry} {x : UInt32}

theorem entryMatches_iff (hconj : Conjoins ex e) (halive : x ∈ ex.aliveBitmap)
    (h : EvaluatorRight legacy ex key e x) : entryMatches ex legacy key e x = true ↔ x ∈ resultOf ex e := by
  obtain ⟨simple, hresolve, hinter⟩ := resolveFilters_of_conjoins hconj
  rw [EvaluatorRight, if_pos halive] at h
  by_cases hnil : e.originalFilterClauses = []
  · rw [if_pos hnil] at h
    rw [hnil] at hinter
    refine iff_of_true ((if_pos hnil).trans h) ((ex.mem_intersectClauses hinter).mpr ⟨fun _ => halive, ?_⟩)
    exact fun c hc => absurd hc List.not_mem_nil
  · rw [if_neg hnil] at h
    have hnative : entryMatches ex legacy key e x =
        slotMatchesFilterNative ex.filters ex.sorts ex.tables x e.originalFilterClauses := if_neg hnil
    obtain ⟨b, hb, hpair⟩ := bind_eq_ok_iff.mp hresolve
    obtain rfl : b = resultOf ex e := congrArg Prod.fst (Except.ok.inj hpair)
    rw [hnative, slotMatchesFilterNative_eq_truth, h]
    exact (mem_computeFilters_iff_truth hb halive).symm

/-- A slot of which the evaluator is right is matched only if it is in the result. -/
theorem mem_resultOf_of_entryMatches (hconj : Conjoins ex e) (h : EvaluatorRight legacy ex key e x)
    (hmatch : entryMatches ex legacy key e x = true) : x ∈ resultOf ex e := by
  by_cases halive : x ∈ ex.aliveBitmap
  · exact (entryMatches_iff hconj halive h).mp hmatch
  · rw [EvaluatorRight, if_neg halive] at h
    exact h hmatch

/-- A slot that is not looked at stays as it was. -/
theorem UnifiedCache.Maintained.mem_of_not_evaluates (hm : Maintained ex legacy b key e e')
    (hx : ¬ Evaluates b key e x) : x ∈ e'.bitmap ↔ x ∈ e.bitmap := by
  obtain ⟨htrig, halive⟩ := not_or.mp hx
  obtain ⟨hsort, hfilter⟩ := not_or.mp htrig
  rw [hm.untouched x hsort hfilter]
  exact and_iff_left halive

/-- **One evaluation** that meets the condition leaves the entry in agreement on every slot it looks at. -/
theorem UnifiedCache.Maintained.agreesAt (hm : Maintained ex legacy (coalesceWorkItems items) key e e')
    (hconj : Conjoins ex e) (hright : JudgesRight legacy ex items key e)
    (hmerged : ex.slots.isAlive x = true → x ∈ ex.aliveBitmap)
    (hx : Evaluates (coalesceWorkItems items) key e x) : AgreesAt ex key e' x := by
  have hjudged : Triggered (coalesceWorkItems items) key e x → EvaluatorRight legacy ex key e x :=
    fun ht => hright.agrees x (triggered_coalesced_iff.mp ht)
  refine ⟨fun hmem => ?_, fun hin halive hout => ?_⟩
  · rw [resultOf_congr hm.same.clauses]
    by_cases hs : SortTriggered (coalesceWorkItems items) key x
    · exact mem_resultOf_of_entryMatches hconj (hjudged (.inl hs)) ((hm.sorted x hs).mp hmem).1
    · by_cases hf : FilterTriggered (coalesceWorkItems items) key e x
      · exact mem_resultOf_of_entryMatches hconj (hjudged (.inr hf)) ((hm.filtered x hs hf).mp hmem).1
      · -- only a deleted slot is looked at for no other reason, and it has left the entry
        have hkept := ((hm.untouched x hs hf).mp hmem).2
        exact absurd (hx.resolve_left (not_or.mpr ⟨hs, hf⟩)) hkept
  · rw [resultOf_congr hm.same.clauses] at hin
    rw [hm.same.hasMore, entryQualifies_congr hm.same]
    have hmatch : Triggered (coalesceWorkItems items) key e x → entryMatches ex legacy key e x = true :=
      fun ht => (entryMatches_iff hconj (hmerged halive) (hjudged ht)).mpr hin
    refine hright.placed x hin halive (evaluates_coalesced_iff.mp hx) (fun hnames => ?_) ?_
    · by_contra hq
      rw [Bool.not_eq_false] at hq
      have ht := triggered_coalesced_iff.mpr hnames
      by_cases hs : SortTriggered (coalesceWorkItems items) key x
      · exact hout ((hm.sorted x hs).mpr ⟨hmatch ht, hq⟩)
      · exact hout ((hm.filtered x hs (ht.resolve_left hs)).mpr ⟨hmatch ht, .inl hq⟩)
    · rw [← sortTriggered_coalesced_iff, ← mem_aliveRemoves_coalesced]
      by_cases hs : SortTriggered (coalesceWorkItems items) key x
      · exact .inl hs
      · refine .inr ?_
        by_contra hno
        rw [not_or, not_not] at hno
        by_cases hf : FilterTriggered (coalesceWorkItems items) key e x
        · exact hout ((hm.filtered x hs hf).mpr ⟨hmatch (.inr hf), .inr hno⟩)
        · exact hout ((hm.untouched x hs hf).mpr hno)

end Judge

end Bitdex
