import Bitdex.Sync.FanOut

/-!
# `Dump.Deferral` — rows of a dump that are to become visible later

The row loop of `process_dump_with_progress` has a deferral check of its own. In a phase that sets the alive set,
under any config with `deferred_alive`, a row is scheduled and gets no bit if the enrichment text under `publishedAt`
is a number above the current time in seconds. The configured source field and its unit are not read. `heldBack_iff`
says which rows with a value in the future are held back as they should be.
-/

namespace Bitdex

open List SlotAllocator

/-- `str::parse::<u64>`. -/
def parseU64 : List Char → Option UInt64
  | '+' :: cs => (digitsValue cs).bind fun n => if n < 2 ^ 64 then some (UInt64.ofNat n) else none
  | cs => (digitsValue cs).bind fun n => if n < 2 ^ 64 then some (UInt64.ofNat n) else none

/-- A row that has a slot and passes the request's filter: its direct columns by mapped field, the texts of
`enriched_map`, and the computed numbers. -/
structure DumpRow where
  slot : UInt32
  columns : HashMap String Int64
  enriched : HashMap String String
  computed : HashMap String Int64

namespace DumpRow

variable (row : DumpRow)

/-- The number a row has for a field. As in `row_sv`, a computed one replaces an enrichment's, and that a direct
column's. -/
def value (field : String) : Option Int64 :=
  (row.computed.lookup field).or
    (((row.enriched.lookup field).bind fun s => parseI64 s.toList).or (row.columns.lookup field))

/-- The activation time, if the value for the configured source field lies in the future. -/
def futureAt (da : DeferredAliveConfig) (now : UInt64) : Option UInt64 :=
  (row.value da.sourceField).bind fun v =>
    let activateAt := if da.msToSeconds then v.toUInt64 / 1000 else v.toUInt64
    if 0 ≤ v ∧ now < activateAt then some activateAt else none

/-- `enriched_get("publishedAt")` as a `u64`. -/
def publishedAt : Option UInt64 := (row.enriched.lookup "publishedAt").bind fun s => parseU64 s.toList

end DumpRow

/-! ## The row loop -/

/-- What a thread collects: the filter and sort bits of its rows, the alive set and the slots to activate later. -/
structure ThreadResult where
  bits : List (Target × UInt32)
  alive : Bitmap
  deferred : List (UInt32 × UInt64)

/-- The results of all threads. -/
structure MergedResult where
  bits : List (Target × UInt32)
  alive : Bitmap
  deferredSlots : List (UInt64 × List UInt32)

/-- The times that a slot has in a deferred map, one for each entry. -/
def MergedResult.scheduled (deferred : List (UInt64 × List UInt32)) (slot : UInt32) : List UInt64 :=
  deferred.flatMap fun e => (e.2.filter fun s => decide (s = slot)).map fun _ => e.1

/-- The slot has no bit, and one schedule. -/
structure MergedResult.HeldBack (result : MergedResult) (slot : UInt32) (activateAt : UInt64) : Prop where
  alive : slot ∉ result.alive
  bits : ∀ target, (target, slot) ∉ result.bits
  once : scheduled result.deferredSlots slot = [activateAt]

namespace DumpRow

variable (rowBits : DumpRow → List Target) (cfg : Config) (setsAlive : Bool) (now : UInt64)

/-- The deferral check. -/
def heldUntil (row : DumpRow) : Option UInt64 :=
  if cfg.deferredAlive.isSome && setsAlive then
    match row.publishedAt with
    | some pubSecs => if now < pubSecs then some pubSecs else none
    | none => none
  else none

/-- One turn of the row loop. `rowBits` are the filter and sort bits that a row gets at the end of it. -/
def processRow (t : ThreadResult) (row : DumpRow) : ThreadResult :=
  match row.heldUntil cfg setsAlive now with
  | some pubSecs => { t with deferred := t.deferred ++ [(row.slot, pubSecs)] }
  | none =>
    { t with
      alive := if setsAlive then insert row.slot t.alive else t.alive
      bits := t.bits ++ (rowBits row).map fun target => (target, row.slot) }

/-- The rows of one thread. -/
def processChunk (rows : List DumpRow) : ThreadResult := rows.foldl (processRow rowBits cfg setsAlive now) ⟨[], ∅, []⟩

/-- A phase, chunk by chunk. -/
def processDump (chunks : List (List DumpRow)) : MergedResult :=
  let results := chunks.map (processChunk rowBits cfg setsAlive now)
  { bits := results.flatMap (·.bits)
    alive := results.foldl (fun alive t => alive ∪ t.alive) ∅
    deferredSlots := (results.flatMap (·.deferred)).foldl
      (fun deferred d => pushDeferred d.1 d.2 deferred) [] }

end DumpRow

/-! ## What the loop collects -/

namespace MergedResult

theorem scheduled_pushDeferred {slot x : UInt32} {activateAt : UInt64} (deferred : List (UInt64 × List UInt32)) :
    (scheduled (pushDeferred slot activateAt deferred) x).Perm
      ((if slot = x then [activateAt] else []) ++ scheduled deferred x) := by
  induction deferred with
  | nil => by_cases hx : slot = x <;> simp [pushDeferred, scheduled, hx]
  | cons e rest ih =>
    unfold pushDeferred
    by_cases hkey : e.1 = activateAt
    · rw [if_pos hkey]
      by_cases hx : slot = x
      · simp only [scheduled, flatMap_cons, filter_append, hx, if_true, hkey, map_append]
        simp
      · simp [scheduled, hx]
    · rw [if_neg hkey]
      by_cases hlt : activateAt < e.1
      · rw [if_pos hlt]
        by_cases hx : slot = x <;> simp [scheduled, hx]
      · rw [if_neg hlt]
        -- the entry stays in front, and the new one goes behind it
        have hcons : ∀ m, scheduled (e :: m) x =
            ((e.2.filter fun s => decide (s = x)).map fun _ => e.1) ++ scheduled m x := fun m => rfl
        exact (ih.append_left _).trans (perm_append_comm_assoc _ _ _)

theorem scheduled_foldl {x : UInt32} (pushes : List (UInt32 × UInt64)) (deferred : List (UInt64 × List UInt32)) :
    (scheduled (pushes.foldl (fun deferred d => pushDeferred d.1 d.2 deferred) deferred) x).Perm
      (((pushes.filter fun d => decide (d.1 = x)).map (·.2)) ++ scheduled deferred x) := by
  induction pushes generalizing deferred with
  | nil => exact .refl _
  | cons d pushes ih =>
    refine (ih _).trans (((scheduled_pushDeferred deferred).append_left _).trans ?_)
    by_cases hx : d.1 = x
    · simp only [hx, if_true, filter_cons, decide_true, map_cons]
      exact perm_append_comm_assoc _ _ _
    · simp [hx]

end MergedResult

namespace DumpRow

variable {rowBits : DumpRow → List Target} {cfg : Config} {setsAlive : Bool} {now : UInt64} {rows : List DumpRow}
  {t : ThreadResult}

theorem deferred_foldl_processRow : (rows.foldl (processRow rowBits cfg true now) t).deferred = t.deferred ++
      rows.filterMap fun r => (r.heldUntil cfg true now).map fun pubSecs => (r.slot, pubSecs) := by
  induction rows generalizing t with
  | nil => simp
  | cons row rows ih =>
    rw [foldl_cons, ih, processRow]
    cases hheld : row.heldUntil cfg true now <;> simp [hheld]

theorem mem_alive_foldl_processRow {x : UInt32} : x ∈ (rows.foldl (processRow rowBits cfg true now) t).alive ↔
      x ∈ t.alive ∨ ∃ r ∈ rows, r.heldUntil cfg true now = none ∧ r.slot = x := by
  refine foldl_or_iff (fun t : ThreadResult => x ∈ t.alive) fun t row => ?_
  rw [processRow]
  cases row.heldUntil cfg true now <;> simp [or_comm, eq_comm]

theorem mem_bits_foldl_processRow {p : Target × UInt32} : p ∈ (rows.foldl (processRow rowBits cfg true now) t).bits ↔
      p ∈ t.bits ∨ ∃ r ∈ rows, r.heldUntil cfg true now = none ∧ ∃ target ∈ rowBits r, (target, r.slot) = p := by
  refine foldl_or_iff (fun t : ThreadResult => p ∈ t.bits) fun t row => ?_
  rw [processRow]
  cases row.heldUntil cfg true now <;> simp

/-- The times under which the dump schedules a slot: one for each of its rows that is held back. -/
theorem scheduled_processDump (chunks : List (List DumpRow)) (slot : UInt32) :
    (MergedResult.scheduled (processDump rowBits cfg true now chunks).deferredSlots slot).Perm
      ((chunks.flatten.filter fun r => decide (r.slot = slot)).filterMap (·.heldUntil cfg true now)) := by
  have hchunk : ∀ rows, (processChunk rowBits cfg true now rows).deferred =
      rows.filterMap fun r => (r.heldUntil cfg true now).map fun pubSecs => (r.slot, pubSecs) :=
    fun rows => deferred_foldl_processRow
  have hpushes : ((chunks.map (processChunk rowBits cfg true now)).flatMap (·.deferred)) =
      chunks.flatten.filterMap fun r => (r.heldUntil cfg true now).map fun pubSecs => (r.slot, pubSecs) := by
    rw [flatMap_map, filterMap_flatten, ← flatMap_def]
    simp [hchunk]
  have hslot : ∀ rows : List DumpRow,
      ((rows.filterMap fun r => (r.heldUntil cfg true now).map fun pubSecs => (r.slot, pubSecs)).filter
          fun d => decide (d.1 = slot)).map (·.2) =
        (rows.filter fun r => decide (r.slot = slot)).filterMap (·.heldUntil cfg true now) := by
    intro rows
    induction rows with
    | nil => rfl
    | cons r rows ih =>
      cases hheld : r.heldUntil cfg true now <;> by_cases hr : r.slot = slot <;> simp [hheld, hr, ih]
  have hperm := MergedResult.scheduled_foldl (x := slot)
    ((chunks.map (processChunk rowBits cfg true now)).flatMap (·.deferred)) []
  rw [← hslot, ← hpushes]
  exact hperm.trans (.of_eq (append_nil _))

theorem mem_alive_processDump {chunks : List (List DumpRow)} {slot : UInt32} :
    slot ∈ (processDump rowBits cfg true now chunks).alive ↔
      ∃ r ∈ chunks.flatten, r.heldUntil cfg true now = none ∧ r.slot = slot := by
  have hchunk : ∀ rows, slot ∈ (processChunk rowBits cfg true now rows).alive ↔ _ :=
    fun rows => mem_alive_foldl_processRow
  rw [processDump, Postings.mem_foldl_union]
  simp only [mem_map, exists_exists_and_eq_and, hchunk, mem_flatten]
  grind

theorem held_of_mem_bits {chunks : List (List DumpRow)} {p : Target × UInt32}
    (hp : p ∈ (processDump rowBits cfg true now chunks).bits) :
    ∃ r ∈ chunks.flatten, r.heldUntil cfg true now = none ∧ r.slot = p.2 := by
  obtain ⟨t, ht, hp⟩ := mem_flatMap.mp hp
  obtain ⟨rows, hrows, rfl⟩ := mem_map.mp ht
  rcases mem_bits_foldl_processRow.mp hp with hnil | ⟨r, hr, hnone, target, -, rfl⟩
  · cases hnil
  · exact ⟨r, mem_flatten.mpr ⟨rows, hrows, hr⟩, hnone, rfl⟩

theorem heldUntil_eq_some {da : DeferredAliveConfig} (hda : cfg.deferredAlive = some da) {row : DumpRow}
    {pubSecs : UInt64} :
    row.heldUntil cfg true now = some pubSecs ↔ row.publishedAt = some pubSecs ∧ now < pubSecs := by
  rw [heldUntil]
  cases row.publishedAt with
  | none => simp
  | some p => simp; grind

theorem now_lt_futureAt {da : DeferredAliveConfig} {row : DumpRow} {activateAt : UInt64}
    (h : row.futureAt da now = some activateAt) : now < activateAt := by
  obtain ⟨v, -, hv⟩ := Option.bind_eq_some_iff.mp h
  simp only [Option.ite_none_right_eq_some, Option.some.injEq] at hv
  obtain ⟨⟨-, hlt⟩, rfl⟩ := hv
  exact hlt

/-- **Rows in the future are held back** exactly if their time is the number in the enrichment `publishedAt`, whatever
the source field is, and no other row has the slot. -/
theorem heldBack_iff {da : DeferredAliveConfig} (hda : cfg.deferredAlive = some da)
    {chunks : List (List DumpRow)} {row : DumpRow} (hrow : row ∈ chunks.flatten) {activateAt : UInt64}
    (hfuture : row.futureAt da now = some activateAt) :
    (processDump rowBits cfg true now chunks).HeldBack row.slot activateAt ↔ row.publishedAt = some activateAt ∧
        (chunks.flatten.filter fun r => decide (r.slot = row.slot)) = [row] := by
  have hheld : row.heldUntil cfg true now = some activateAt ↔ row.publishedAt = some activateAt :=
    (heldUntil_eq_some hda).trans (and_iff_left (now_lt_futureAt hfuture))
  have hperm : (MergedResult.scheduled (processDump rowBits cfg true now chunks).deferredSlots row.slot).Perm _ :=
    scheduled_processDump chunks row.slot
  have hmem : row ∈ chunks.flatten.filter fun r => decide (r.slot = row.slot) :=
    mem_filter.mpr ⟨hrow, decide_eq_true rfl⟩
  rw [← hheld]
  constructor
  · intro h
    -- a row of the slot that is not held back would be alive
    have hall : ∀ r ∈ chunks.flatten.filter fun r => decide (r.slot = row.slot), r.heldUntil cfg true now ≠ none := by
      intro r hr hnone
      obtain ⟨hr, hslot⟩ := mem_filter.mp hr
      exact h.alive (mem_alive_processDump.mpr ⟨r, hr, hnone, of_decide_eq_true hslot⟩)
    rw [h.once] at hperm
    have htimes := singleton_perm.mp hperm
    generalize (chunks.flatten.filter fun r => decide (r.slot = row.slot)) = rows at hmem hall htimes ⊢
    cases rows with
    | nil => cases hmem
    | cons r rest =>
      obtain ⟨time, htime⟩ := Option.ne_none_iff_exists'.mp (hall r mem_cons_self)
      rw [filterMap_cons_some htime] at htimes
      obtain ⟨rfl, hrest⟩ := cons.inj htimes
      have hnil : rest = [] := eq_nil_iff_forall_not_mem.mpr fun r' hr' =>
        hall r' (mem_cons_of_mem _ hr') (filterMap_eq_nil_iff.mp hrest.symm r' hr')
      subst hnil
      obtain rfl := mem_singleton.mp hmem
      exact ⟨htime, rfl⟩
  · rintro ⟨htime, hone⟩
    have hshown : ¬∃ r ∈ chunks.flatten, r.heldUntil cfg true now = none ∧ r.slot = row.slot := by
      rintro ⟨r, hr, hnone, hslot⟩
      have hr' : r ∈ chunks.flatten.filter fun r => decide (r.slot = row.slot) :=
        mem_filter.mpr ⟨hr, decide_eq_true hslot⟩
      rw [hone] at hr'
      obtain rfl := mem_singleton.mp hr'
      rw [htime] at hnone
      cases hnone
    rw [hone, filterMap_cons_some htime] at hperm
    exact ⟨fun halive => hshown (mem_alive_processDump.mp halive),
      fun target hbit => hshown (held_of_mem_bits hbit), perm_singleton.mp hperm⟩

/-! ### Dumps of one row, at time 5 -/

def sourceConfig (sourceField : String) (msToSeconds : Bool) : Config :=
  ⟨[], [], [], some ⟨sourceField, msToSeconds⟩, nodup_nil, nodup_nil⟩

def enrichedRow (field text : String) : DumpRow := ⟨1, ∅, (∅ : HashMap String String).insert field text, ∅⟩

def columnRow (field : String) (v : Int64) : DumpRow := ⟨1, (∅ : HashMap String Int64).insert field v, ∅, ∅⟩

def dumpOf (cfg : Config) (row : DumpRow) : MergedResult := processDump (fun _ => []) cfg true 5 [[row]]

theorem heldBack_publishedAt :
    (dumpOf (sourceConfig "publishedAt" false) (enrichedRow "publishedAt" "9")).HeldBack 1 9 := by
  have hda : (sourceConfig "publishedAt" false).deferredAlive = some ⟨"publishedAt", false⟩ := rfl
  have hrow : enrichedRow "publishedAt" "9" ∈ [[enrichedRow "publishedAt" "9"]].flatten := mem_cons_self
  have hfuture : (enrichedRow "publishedAt" "9").futureAt ⟨"publishedAt", false⟩ 5 = some 9 := by decide +kernel
  exact (heldBack_iff hda hrow hfuture).mpr ⟨by decide +kernel, rfl⟩

/-- Slot 1 is due at time 9. It is alive at once if the source is another field or a direct column, and scheduled for
time 9000 if the unit is milliseconds. -/
theorem published_early : (enrichedRow "releaseAt" "9").futureAt ⟨"releaseAt", false⟩ 5 = some 9 ∧
      1 ∈ (dumpOf (sourceConfig "releaseAt" false) (enrichedRow "releaseAt" "9")).alive ∧
      (columnRow "publishedAt" 9).futureAt ⟨"publishedAt", false⟩ 5 = some 9 ∧
      1 ∈ (dumpOf (sourceConfig "publishedAt" false) (columnRow "publishedAt" 9)).alive ∧
      (enrichedRow "publishedAt" "9000").futureAt ⟨"publishedAt", true⟩ 5 = some 9 ∧
      (dumpOf (sourceConfig "publishedAt" true) (enrichedRow "publishedAt" "9000")).deferredSlots = [(9000, [1])] := by
  decide +kernel

end DumpRow

end Bitdex
