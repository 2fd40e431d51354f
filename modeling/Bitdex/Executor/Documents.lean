import Bitdex.Cache.Native
import Bitdex.Executor.Locality
import Bitdex.Write.Diff

/-!
# `Executor.Documents` — clauses over documents

What a clause means for the documents that were inserted (`Config.satisfies`), and when that is what it means for the
stored bits. A clause compares numbers, the executor bitmap keys:

* keys are unsigned, so a negative number is larger than any other in a range clause;
* `-1` would have the key of the null values, and has no bitmap;
* an insert writes no null values, so a field the document lacks is "not equal" to everything;
* an `id` is cut to the 32 bits of a slot number.

`Config.leafDiffers` marks the leaves of a clause where that makes a difference.
-/

namespace Bitdex

open QueryExecutor List IndexState VersionedBitmap Value FilterClause UInt64

/-! ## What a clause means for a document -/

/-- The number that a value stands for; a boolean stands for 0 or 1. -/
def Value.number : Value → Option Int
  | .integer v => some v.toInt
  | .bool b => some (if b then 1 else 0)
  | .float _ => none
  | .string _ => none

namespace Config

variable (cfg : Config)

/-- The values of a document in a filter field. Those of a shadow are derived. -/
def valuesIn (doc : Document) (f : String) : List Value :=
  if f ∈ cfg.shadowTargets then
    ((cfg.deriveExistsBooleanShadows doc).filter fun s => s.1 = f).map fun s => .bool s.2
  else
    match doc f with
    | some (.single v) => [v]
    | some (.multi vs) => vs
    | none => []

/-- The numbers of a field. -/
def numbers (doc : Document) (f : String) : List Int := (cfg.valuesIn doc f).filterMap number

/-- What a clause on the field compares with; the field `id` is the slot number. -/
def subject (slot : UInt32) (doc : Document) (f : String) : List Int :=
  if f = "id" then [(slot.toNat : Int)] else cfg.numbers doc f

/-- The document has no value in the field. -/
def lacks (doc : Document) (f : String) : Bool := decide (f ≠ "id") && decide (f ∉ cfg.shadowTargets) && (doc f).isNone

section Leaves

variable (slot : UInt32) (doc : Document)

/-- The field equals the value, or contains it. -/
def equals (f : String) (v : Value) : Bool := v.number.any fun n => decide (n ∈ cfg.subject slot doc f)

/-- A number of the field compares with the value. -/
def compares (cmp : Int → Int → Bool) (f : String) (v : Value) : Bool :=
  v.number.any fun m => (cfg.subject slot doc f).any fun n => cmp n m

/-- The meaning of a clause without connectives. -/
def leafSatisfies : FilterClause → Bool
  | .eq f v => cfg.equals slot doc f v
  | .notEq f v => !cfg.lacks doc f && !cfg.equals slot doc f v
  | .isIn f vs => vs.any (cfg.equals slot doc f)
  | .notIn f vs => !cfg.lacks doc f && !vs.any (cfg.equals slot doc f)
  | .gt f v => cfg.compares slot doc (fun n m => decide (n > m)) f v
  | .gte f v => cfg.compares slot doc (fun n m => decide (n ≥ m)) f v
  | .lt f v => cfg.compares slot doc (fun n m => decide (n < m)) f v
  | .lte f v => cfg.compares slot doc (fun n m => decide (n ≤ m)) f v
  | .isNull f => cfg.lacks doc f
  | .isNotNull f => !cfg.lacks doc f
  | .bucketBitmap _ _ bitmap => decide (slot ∈ bitmap)
  | .and _ => true
  | .not _ | .or _ => false

/-- **The document in the slot satisfies the clause.** -/
def satisfies (c : FilterClause) : Bool := truth (fun _ leaf => cfg.leafSatisfies slot doc leaf) .alone c

/-! ## Where keys differ from numbers -/

/-- An `id` whose low 32 bits are the slot number, a boolean as an `id`, or a `-1`. -/
def equalsDiffers (f : String) (v : Value) : Bool :=
  if f = "id" then
    match v with
    | .integer n => decide (slotOfInteger n = slot) && decide (n.toInt ≠ slot.toNat)
    | _ => cfg.equals slot doc f v
  else decide (v.number = some (-1)) && decide (-1 ∈ cfg.numbers doc f)

/-- The values for which `Eq` differs make a difference for `In`. -/
def anyDiffers (f : String) (vs : List Value) : Bool :=
  vs.any (cfg.equals slot doc f) != vs.any fun v => cfg.equals slot doc f v ^^ cfg.equalsDiffers slot doc f v

/-- The unsigned keys compare in another way, or the field is a filter field of the name `id`. -/
def comparesDiffers (cmp : Int → Int → Bool) (f : String) (v : Value) : Bool :=
  cfg.compares slot doc cmp f v !=
    v.number.any fun m => (cfg.numbers doc f).any fun n => decide (n ≠ -1) && cmp (n % 2 ^ 64) (m % 2 ^ 64)

/-- The executor's answer to the leaf is not the document's. -/
def leafDiffers : FilterClause → Bool
  | .eq f v => cfg.equalsDiffers slot doc f v
  | .notEq f v => cfg.lacks doc f || cfg.equalsDiffers slot doc f v
  | .isIn f vs => cfg.anyDiffers slot doc f vs
  | .notIn f vs => cfg.lacks doc f || cfg.anyDiffers slot doc f vs
  | .gt f v => cfg.comparesDiffers slot doc (fun n m => decide (n > m)) f v
  | .gte f v => cfg.comparesDiffers slot doc (fun n m => decide (n ≥ m)) f v
  | .lt f v => cfg.comparesDiffers slot doc (fun n m => decide (n < m)) f v
  | .lte f v => cfg.comparesDiffers slot doc (fun n m => decide (n ≤ m)) f v
  | .isNull f | .isNotNull f => cfg.lacks doc f
  | .bucketBitmap _ _ _ | .and _ | .not _ | .or _ => false

end Leaves

end Config

mutual

/-- A clause over numbers, without empty conjunctions. -/
def FilterClause.Numeric : FilterClause → Bool
  | .eq _ v | .notEq _ v | .gt _ v | .gte _ v | .lt _ v | .lte _ v => v.number.isSome
  | .isIn _ vs | .notIn _ vs => vs.all (·.number.isSome)
  | .not c => c.Numeric
  | .and cs => !cs.isEmpty && numericEach cs
  | .or cs => numericEach cs
  | .isNull _ | .isNotNull _ => true
  | .bucketBitmap _ _ _ => false

def numericEach : List FilterClause → Bool
  | [] => true
  | c :: cs => c.Numeric && numericEach cs

end

theorem numericEach_eq_all (cs : List FilterClause) : numericEach cs = cs.all FilterClause.Numeric := by
  induction cs with
  | nil => rfl
  | cons c cs ih => rw [numericEach, ih, all_cons]

/-! ## Numbers and keys -/

theorem emod_toInt (v : Int64) : v.toInt % 2 ^ 64 = v.toUInt64.toNat := by
  have hcond := BitVec.toInt_eq_toNat_cond v.toBitVec
  have hint : v.toInt = v.toBitVec.toInt := rfl
  have hnat : v.toUInt64.toNat = v.toBitVec.toNat := rfl
  rw [hint, hcond]
  split <;> omega

/-- A value with a number converts to the key that is the number modulo `2 ^ 64`. -/
theorem valueToBitmapKey_of_number {v : Value} {n : Int} (hn : v.number = some n) :
    ∃ key, valueToBitmapKey v = some key ∧ (key.toNat : Int) = n % 2 ^ 64 := by
  cases v with
  | integer w =>
    cases hn
    exact ⟨w.toUInt64, rfl, (emod_toInt w).symm⟩
  | bool b =>
    cases hn
    refine ⟨if b then 1 else 0, rfl, ?_⟩
    cases b <;> rfl
  | float | string => cases hn

theorem number_bounds {v : Value} {n : Int} (hn : v.number = some n) : -2 ^ 63 ≤ n ∧ n < 2 ^ 63 := by
  cases v with
  | integer w =>
    cases hn
    exact ⟨w.le_toInt, w.toInt_lt⟩
  | bool b =>
    cases hn
    cases b <;> decide
  | float | string => cases hn

/-- What is indexed of a value: its number modulo `2 ^ 64`, unless it is `-1`. -/
theorem filterKey_eq_some_iff {v : Value} {key : UInt64} :
    filterKey v = some key ↔ ∃ n, v.number = some n ∧ n ≠ -1 ∧ (key.toNat : Int) = n % 2 ^ 64 := by
  cases v with
  | integer w =>
    have hmod := emod_toInt w
    have hbounds := number_bounds (v := .integer w) rfl
    have hnull : w.toUInt64 = nullBitmapKey ↔ w.toInt = -1 := by
      rw [← UInt64.toNat_inj]
      show w.toUInt64.toNat = 18446744073709551615 ↔ _
      omega
    simp only [filterKey, number, Option.some.injEq, exists_eq_left', hmod, Nat.cast_inj, UInt64.toNat_inj]
    by_cases hw : w.toInt = -1
    · simp [hnull.mpr hw, hw]
    · simp [mt hnull.mp hw, hw, eq_comm]
  | bool b =>
    cases b <;> simp [filterKey, number, ← UInt64.toNat_inj] <;> omega
  | float | string => simp [filterKey, number]

section Keys

variable {cfg : Config} {slot : UInt32} {doc : Document} {f : String} {v : Value} {n : Int} {key : UInt64}

/-- The bits of a field are those of the keys of its values. -/
theorem shows_iff_valuesIn (hf : f ∈ cfg.filterFields) :
    cfg.Shows doc (.filter f key) ↔ key ∈ (cfg.valuesIn doc f).filterMap filterKey := by
  unfold Config.valuesIn
  by_cases hs : f ∈ cfg.shadowTargets
  · simp only [Config.Shows, hs, not_true_eq_false, false_and, and_false, false_or, if_true, mem_filterMap,
      mem_map, mem_filter, decide_eq_true_iff]
    constructor
    · rintro ⟨s, hmem, hname, rfl⟩
      exact ⟨.bool s.2, ⟨s, ⟨hmem, hname⟩, rfl⟩, rfl⟩
    · rintro ⟨_, ⟨s, ⟨hmem, hname⟩, rfl⟩, hkey⟩
      exact ⟨s, hmem, hname, Option.some.inj hkey⟩
  · rw [shows_filter_of_not_shadow hs, if_neg hs, and_iff_right hf, Document.keys]
    cases doc f with
    | none => simp
    | some fv =>
      cases fv with
      | single v => cases hv : filterKey v <;> simp [FieldValue.keys, hv]
      | multi vs => exact Iff.rfl

/-- A bit is set for a key of a number other than `-1`. -/
theorem shows_iff_numbers (hf : f ∈ cfg.filterFields) :
    cfg.Shows doc (.filter f key) ↔ ∃ n ∈ cfg.numbers doc f, n ≠ -1 ∧ (key.toNat : Int) = n % 2 ^ 64 := by
  rw [shows_iff_valuesIn hf, Config.numbers]
  simp only [mem_filterMap, filterKey_eq_some_iff]
  constructor
  · rintro ⟨v, hv, n, hn, hne, hkey⟩
    exact ⟨n, ⟨v, hv, hn⟩, hne, hkey⟩
  · rintro ⟨n, ⟨v, hv, hn⟩, hne, hkey⟩
    exact ⟨v, hv, n, hn, hne, hkey⟩

/-- No document sets the null bit of a field. -/
theorem not_shows_null (hf : f ∈ cfg.filterFields) : ¬cfg.Shows doc (.filter f nullBitmapKey) := by
  rw [shows_iff_numbers hf]
  rintro ⟨n, hn, hne, hkey⟩
  obtain ⟨v, -, hv⟩ := mem_filterMap.mp hn
  have hbounds := number_bounds hv
  have hmax : (nullBitmapKey.toNat : Int) = 18446744073709551615 := rfl
  omega

/-- The bit of the key of a value is set if the field has its number, unless that is `-1`. -/
theorem shows_key_iff (hf : f ∈ cfg.filterFields) (hn : v.number = some n) (hkey : valueToBitmapKey v = some key) :
    cfg.Shows doc (.filter f key) ↔ n ∈ cfg.numbers doc f ∧ n ≠ -1 := by
  obtain ⟨key', hkey', hmod⟩ := valueToBitmapKey_of_number hn
  obtain rfl : key = key' := Option.some.inj (hkey.symm.trans hkey')
  have hbounds := number_bounds hn
  rw [shows_iff_numbers hf]
  constructor
  · rintro ⟨m, hm, hne, hmod'⟩
    obtain ⟨w, -, hw⟩ := mem_filterMap.mp hm
    have hbounds' := number_bounds hw
    obtain rfl : n = m := by omega
    exact ⟨hm, hne⟩
  · rintro ⟨hmem, hne⟩
    exact ⟨n, hmem, hne, hmod⟩

end Keys

/-! ## The executor over inserted documents -/

/-- A document, the slot it is inserted into, and the time of the insert. -/
structure Insertion where
  slot : UInt32
  doc : Document
  now : UInt64

/-- The document is not deferred. -/
def Config.Visible (cfg : Config) (d : Insertion) : Prop := cfg.deferredUntil d.doc d.now = none

namespace IndexState

/-- An index with the configured fields and no bits, as it is made. -/
structure Blank (st : IndexState) (cfg : Config) : Prop where
  has_iff : ∀ t, st.Has t ↔ cfg.Indexes t
  bit_eq : ∀ t x, st.bit t x = false
  alive_eq : st.slots.alive = .newEmpty

/-- Insert documents one after the other. -/
def insertAll (st : IndexState) (cfg : Config) (docs : List Insertion) : IndexState :=
  st.applyAll (docs.map fun d => diffDocument d.slot none d.doc cfg false d.now)

/-- A query executor over the index. -/
def queryExecutor (st : IndexState) (maxPageSize : Nat) (tables : Tables) : QueryExecutor :=
  ⟨st.slots, st.filters, st.sorts, maxPageSize, tables⟩

section Inserts

variable {st : IndexState} {cfg : Config} {docs : List Insertion} {t : Target} {x : UInt32}

theorem insertAll_cons (d : Insertion) :
    st.insertAll cfg (d :: docs) = (st.applyOps (diffDocument d.slot none d.doc cfg false d.now)).insertAll cfg docs :=
  rfl

theorem bit_insertAll_of_notMem (hx : x ∉ docs.map Insertion.slot) : (st.insertAll cfg docs).bit t x = st.bit t x := by
  induction docs generalizing st with
  | nil => rfl
  | cons d docs ih =>
    rw [map_cons, mem_cons, not_or] at hx
    obtain ⟨hne, hrest⟩ := hx
    rw [insertAll_cons, ih hrest]
    by_cases hhas : st.Has t
    · rw [bit_applyOps hhas, bitWrites_insert_of_ne hne]
      rfl
    · rw [bit_eq_false (mt has_applyOps.mp hhas), bit_eq_false hhas]

/-- An empty slot shows the document inserted into it. -/
theorem bit_insertAll (hslots : (docs.map Insertion.slot).Nodup) (hhas : st.Has t) {d : Insertion} (hd : d ∈ docs)
    (hempty : st.bit t d.slot = false) : (st.insertAll cfg docs).bit t d.slot = cfg.shownBit d.slot d.doc d.now t := by
  induction docs generalizing st with
  | nil => cases hd
  | cons d₀ docs ih =>
    obtain ⟨hfirst, hrest⟩ := nodup_cons.mp hslots
    rw [insertAll_cons]
    rcases mem_cons.mp hd with rfl | hmem
    · rw [bit_insertAll_of_notMem hfirst, bit_applyOps hhas, hempty]
      rfl
    · have hne : d.slot ≠ d₀.slot := by
        intro heq
        exact hfirst (heq ▸ mem_map_of_mem hmem)
      refine ih hrest (has_applyOps.mpr hhas) hmem ?_
      rw [bit_applyOps hhas, bitWrites_insert_of_ne hne, hempty]
      rfl

theorem merged_insertAll (hloaded : st.slots.alive.isLoaded = true) (hmerged : st.slots.alive.base = st.slots.alive.fused) :
    (st.insertAll cfg docs).slots.alive.base = (st.insertAll cfg docs).slots.alive.fused := by
  induction docs generalizing st with
  | nil => exact hmerged
  | cons d docs ih =>
    rw [insertAll_cons]
    generalize diffDocument d.slot none d.doc cfg false d.now = ops
    have hafter := st.slots.merged_applyAlive (WriteBatch.groupAndSort ops) hloaded
    exact ih hafter.1 hafter.2

end Inserts

end IndexState

/-! ## The executor's side, leaf by leaf -/

/-- The executor's index shows the document in the slot. -/
structure QueryExecutor.Holds (ex : QueryExecutor) (cfg : Config) (slot : UInt32) (doc : Document) : Prop where
  alive : slot ∈ ex.aliveBitmap
  has_iff : ∀ f, (ex.filters.getField f).isSome = true ↔ f ∈ cfg.filterFields
  bits_iff : ∀ f ∈ cfg.filterFields, ∀ key, slot ∈ ex.filters.bits f key ↔ cfg.Shows doc (.filter f key)
  no_buckets : ex.tables.timeBuckets = none

namespace QueryExecutor

variable [Host] {ex : QueryExecutor} {cfg : Config} {slot : UInt32} {doc : Document} {f : String} {v : Value} {n : Int}
  (h : ex.Holds cfg slot doc) {vs : List Value} {b : Bitmap} {c : FilterClause} {cmp : Int → Int → Bool}
  {predicate : UInt64 → UInt64 → Bool}

include h

omit [Host] in
/-- A leaf that evaluates names a filter field. -/
theorem Holds.mem_filterFields {ff : FilterField} (hff : ex.filters.getField f = some ff) : f ∈ cfg.filterFields := by
  rw [← h.has_iff, hff]
  rfl

theorem Holds.eqHolds_id :
    ex.eqHolds "id" v slot = (cfg.equals slot doc "id" v ^^ cfg.equalsDiffers slot doc "id" v) := by
  cases v with
  | integer w =>
    -- the low bits of the slot's own number are the slot
    have hcut : w.toInt = slot.toNat → slot = slotOfInteger w := by
      intro hw
      have hmod := emod_toInt w
      have hlt := slot.toNat_lt
      rw [← UInt32.toNat_inj, slotOfInteger, toNat_toUInt32]
      omega
    have halive := h.alive
    simp only [eqHolds, Config.equals, Config.equalsDiffers, Config.subject, number, if_true, Option.any_some,
      mem_singleton, eq_comm (a := slotOfInteger w)]
    by_cases hw : w.toInt = slot.toNat
    · simp [hw, ← hcut hw, halive]
    · simp [hw, halive]
  | bool b => simp [eqHolds, Config.equalsDiffers]
  | float | string => simp [eqHolds, Config.equals, Config.equalsDiffers, number]

theorem Holds.eqHolds_eq (hf : f = "id" ∨ f ∈ cfg.filterFields) (hn : v.number.isSome = true) :
    ex.eqHolds f v slot = (cfg.equals slot doc f v ^^ cfg.equalsDiffers slot doc f v) := by
  by_cases hid : f = "id"
  · rw [hid]
    exact h.eqHolds_id
  · have hfield := hf.resolve_left hid
    obtain ⟨n, hn⟩ := Option.isSome_iff_exists.mp hn
    obtain ⟨key, hkey, -⟩ := valueToBitmapKey_of_number hn
    have hresolve : ex.resolveValueKey f v = some key := by
      simp [resolveValueKey, Tables.resolveValueKey, hkey]
    rw [Bool.eq_iff_iff, eqHolds_iff_bits _ hid]
    simp only [hresolve, Option.some.injEq, exists_eq_left', h.bits_iff f hfield, shows_key_iff hfield hn hkey,
      Config.equals, Config.equalsDiffers, Config.subject, if_neg hid, hn, Option.any_some]
    by_cases hone : n = -1
    · subst hone
      by_cases hmem : -1 ∈ cfg.numbers doc f <;> simp [hmem]
    · simp [hone]

theorem Holds.any_eqHolds (hf : f = "id" ∨ f ∈ cfg.filterFields) (hvs : vs.all (·.number.isSome) = true) :
    vs.any (ex.eqHolds f · slot) = (vs.any (cfg.equals slot doc f) ^^ cfg.anyDiffers slot doc f vs) := by
  have heach : vs.any (ex.eqHolds f · slot) =
      vs.any fun v => cfg.equals slot doc f v ^^ cfg.equalsDiffers slot doc f v := by
    rw [Bool.eq_iff_iff, any_eq_true, any_eq_true]
    refine exists_congr fun v => and_congr_right fun hv => ?_
    rw [h.eqHolds_eq hf (all_eq_true.mp hvs v hv)]
  rw [heach, Config.anyDiffers]
  cases vs.any (cfg.equals slot doc f) <;> simp

omit [Host] in
/-- No document was inserted with null values. -/
theorem Holds.nullIn_eq_false : ex.nullIn f slot = false := by
  rw [Bool.eq_false_iff, Ne, nullIn_iff_bits]
  by_cases hf : f ∈ cfg.filterFields
  · rw [h.bits_iff f hf]
    exact not_shows_null hf
  · cases hff : ex.filters.getField f with
    | none => simp [FilterIndex.bits_of_getField_none hff]
    | some ff => exact absurd (h.mem_filterFields hff) hf

omit [Host] in
theorem Holds.scanHolds_eq (hf : f ∈ cfg.filterFields) (hn : v.number.isSome = true)
    (hcmp : ∀ k t : UInt64, predicate k t = cmp k.toNat t.toNat) :
    ex.scanHolds f v predicate slot = (cfg.compares slot doc cmp f v ^^ cfg.comparesDiffers slot doc cmp f v) := by
  obtain ⟨m, hm⟩ := Option.isSome_iff_exists.mp hn
  obtain ⟨target, htarget, hmod⟩ := valueToBitmapKey_of_number hm
  have hscan : ex.scanHolds f v predicate slot = true ↔
      ∃ n ∈ cfg.numbers doc f, n ≠ -1 ∧ cmp (n % 2 ^ 64) (m % 2 ^ 64) = true := by
    rw [scanHolds_iff_bits]
    simp only [htarget, Option.some.injEq, exists_eq_left', h.bits_iff f hf, hcmp, hmod]
    constructor
    · rintro ⟨key, -, hpred, hshows⟩
      obtain ⟨n, hmem, hne, hkey⟩ := (shows_iff_numbers hf).mp hshows
      exact ⟨n, hmem, hne, hkey ▸ hpred⟩
    · rintro ⟨n, hmem, hne, hpred⟩
      obtain ⟨w, hw, hnumber⟩ := mem_filterMap.mp hmem
      obtain ⟨key, -, hkey⟩ := valueToBitmapKey_of_number hnumber
      have hshows : cfg.Shows doc (.filter f key) := (shows_iff_numbers hf).mpr ⟨n, hmem, hne, hkey⟩
      refine ⟨key, ?_, hkey ▸ hpred, hshows⟩
      rintro rfl
      exact not_shows_null hf hshows
  have hkeys : ex.scanHolds f v predicate slot =
      v.number.any fun m => (cfg.numbers doc f).any fun n => decide (n ≠ -1) && cmp (n % 2 ^ 64) (m % 2 ^ 64) := by
    rw [Bool.eq_iff_iff, hscan, hm]
    simp
  rw [hkeys, Config.comparesDiffers]
  cases cfg.compares slot doc cmp f v <;> simp

/-! ### Leaves that evaluate -/

theorem Holds.field_of_evaluateEq (hb : ex.evaluateEq f v = .ok b) : f = "id" ∨ f ∈ cfg.filterFields := by
  by_cases hid : f = "id"
  · exact .inl hid
  · refine .inr ?_
    cases hff : ex.filters.getField f with
    | none => simp [evaluateEq, hid, hff] at hb
    | some ff => exact h.mem_filterFields hff

theorem Holds.field_of_evaluateIn (hb : ex.evaluateIn f vs = .ok b) : f = "id" ∨ f ∈ cfg.filterFields := by
  by_cases hid : f = "id"
  · exact .inl hid
  · refine .inr ?_
    cases hff : ex.filters.getField f with
    | none => simp [evaluateIn, hid, hff] at hb
    | some ff => exact h.mem_filterFields hff

omit [Host] in
theorem Holds.field_of_rangeScan (hb : ex.rangeScan f v predicate = .ok b) : f ∈ cfg.filterFields := by
  cases hff : ex.filters.getField f with
  | none => simp [rangeScan, hff] at hb
  | some ff => exact h.mem_filterFields hff

omit [Host] in
theorem Holds.bucketThreshold_eq_none : ex.bucketThreshold f v = none := by
  simp [bucketThreshold, h.no_buckets]

/-- A range clause in either direction. -/
theorem Holds.range_eq (hn : v.number.isSome = true) (hcmp : ∀ k t : UInt64, predicate k t = cmp k.toNat t.toNat)
    (hb : ex.evaluateAfter f v predicate = .ok b ∨ ex.evaluateBefore f v predicate = .ok b) :
    ex.afterHolds f v predicate slot = (cfg.compares slot doc cmp f v ^^ cfg.comparesDiffers slot doc cmp f v) ∧
      ex.beforeHolds f v predicate slot = (cfg.compares slot doc cmp f v ^^ cfg.comparesDiffers slot doc cmp f v) := by
  have hnone : ex.bucketThreshold f v = none := h.bucketThreshold_eq_none
  have hscan : ex.rangeScan f v predicate = .ok b := by
    simpa [evaluateAfter, evaluateBefore, hnone] using hb
  have hscanned := h.scanHolds_eq (h.field_of_rangeScan hscan) hn hcmp
  simp only [afterHolds, beforeHolds, hnone]
  exact ⟨hscanned, hscanned⟩

omit [Host] h in
/-- A field that the document lacks has no numbers. -/
theorem equals_of_lacks (hlacks : cfg.lacks doc f = true) (v : Value) :
    cfg.equals slot doc f v = false ∧ cfg.equalsDiffers slot doc f v = false := by
  simp only [Config.lacks, Bool.and_eq_true, decide_eq_true_iff, Option.isNone_iff_eq_none] at hlacks
  obtain ⟨⟨hid, hshadow⟩, hdoc⟩ := hlacks
  have hnumbers : cfg.numbers doc f = [] := by
    simp [Config.numbers, Config.valuesIn, hshadow, hdoc]
  constructor
  · simp [Config.equals, Config.subject, hid, hnumbers]
  · simp [Config.equalsDiffers, hid, hnumbers]

/-- **A leaf that evaluates** holds of the slot as of the document, unless it is marked. -/
theorem Holds.leaf_eq (hleaf : c.isLeaf = true) (hnumeric : c.Numeric = true) (hok : ex.Evaluable c) :
    ex.holds c slot = (cfg.leafSatisfies slot doc c ^^ cfg.leafDiffers slot doc c) := by
  obtain ⟨b, hb⟩ := hok
  have halive := h.alive
  have hnull : ∀ f, ex.nullIn f slot = false := fun f => h.nullIn_eq_false
  cases c with
  | eq f v => exact h.eqHolds_eq (h.field_of_evaluateEq hb) hnumeric
  | notEq f v =>
    rw [evaluateClause, bind_eq_ok_iff] at hb
    obtain ⟨b', hb', -⟩ := hb
    rw [holds, h.eqHolds_eq (h.field_of_evaluateEq hb') hnumeric, hnull]
    simp only [Config.leafSatisfies, Config.leafDiffers, halive]
    cases hlacks : cfg.lacks doc f with
    | false => cases cfg.equals slot doc f v <;> simp
    | true => simp [(equals_of_lacks hlacks v).1, (equals_of_lacks hlacks v).2]
  | isIn f vs => exact h.any_eqHolds (h.field_of_evaluateIn hb) hnumeric
  | notIn f vs =>
    rw [evaluateClause, bind_eq_ok_iff] at hb
    obtain ⟨b', hb', -⟩ := hb
    rw [holds, h.any_eqHolds (h.field_of_evaluateIn hb') hnumeric, hnull]
    simp only [Config.leafSatisfies, Config.leafDiffers, halive]
    cases hlacks : cfg.lacks doc f with
    | false => cases vs.any (cfg.equals slot doc f) <;> simp
    | true =>
      have hequals : ∀ v, cfg.equals slot doc f v = false := fun v => (equals_of_lacks hlacks v).1
      have hdiffers : ∀ v, cfg.equalsDiffers slot doc f v = false := fun v => (equals_of_lacks hlacks v).2
      simp [Config.anyDiffers, hequals, hdiffers]
  | gt f v => exact (h.range_eq hnumeric (fun k t => by simp [lt_iff_toNat_lt]) (.inl hb)).1
  | gte f v => exact (h.range_eq hnumeric (fun k t => by simp [le_iff_toNat_le]) (.inl hb)).1
  | lt f v => exact (h.range_eq hnumeric (fun k t => by simp [lt_iff_toNat_lt]) (.inr hb)).2
  | lte f v => exact (h.range_eq hnumeric (fun k t => by simp [le_iff_toNat_le]) (.inr hb)).2
  | isNull f => simp [holds, hnull, Config.leafSatisfies, Config.leafDiffers]
  | isNotNull f => simp [holds, hnull, halive, Config.leafSatisfies, Config.leafDiffers]
  | bucketBitmap => cases hnumeric
  | and cs =>
    simp only [isLeaf] at hleaf
    simp [FilterClause.Numeric, hleaf] at hnumeric
  | not | or => cases hleaf

/-- **A clause that evaluates** holds of the slot as its leaves say, the marked ones flipped. -/
theorem Holds.holds_eq_truth (hnumeric : c.Numeric = true) (hok : ex.Evaluable c) : ex.holds c slot =
      truth (fun _ leaf => cfg.leafSatisfies slot doc leaf ^^ cfg.leafDiffers slot doc leaf) .alone c := by
  induction c using tree_induction with
  | not c ih =>
    obtain ⟨b, hb⟩ := hok
    rw [evaluateClause, bind_eq_ok_iff] at hb
    obtain ⟨b', hb', -⟩ := hb
    rw [holds, truth, ih hnumeric ⟨b', hb'⟩]
    simp [h.alive, Reading.underNot]
  | and cs ih =>
    rw [FilterClause.Numeric, Bool.and_eq_true, numericEach_eq_all, all_eq_true] at hnumeric
    obtain ⟨hne, hnumeric⟩ := hnumeric
    have hne : cs.isEmpty = false := by simpa using hne
    have hok := ex.evaluable_of_and hok
    rw [holds, truth, holdsAll_eq, if_neg (by simp [hne]), truthAll_eq, hne, Bool.not_false, Bool.true_and,
      Bool.eq_iff_iff, all_eq_true, all_eq_true]
    refine forall₂_congr fun c hc => ?_
    rw [ih c hc (hnumeric c hc) (hok c hc)]
    rfl
  | or cs ih =>
    rw [FilterClause.Numeric, numericEach_eq_all, all_eq_true] at hnumeric
    have hok := ex.evaluable_of_or hok
    rw [holds, truth, holdsAny_eq, truthAny_eq, Bool.eq_iff_iff, any_eq_true, any_eq_true]
    refine exists_congr fun c => and_congr_right fun hc => ?_
    rw [ih c hc (hnumeric c hc) (hok c hc)]
    rfl
  | _ =>
    exact h.leaf_eq rfl hnumeric hok

omit h in
/-- A slot that is in no bitmap satisfies no clause. -/
theorem holds_eq_false_of_empty (hdead : slot ∉ ex.aliveBitmap) (hbits : ∀ f key, slot ∉ ex.filters.bits f key)
    (hbuckets : ex.tables.timeBuckets = none) (hnumeric : c.Numeric = true) : ex.holds c slot = false := by
  have heq : ∀ f v, ex.eqHolds f v slot = false := by
    intro f v
    by_cases hid : f = "id"
    · cases v <;> simp [eqHolds, hid, hdead]
    · rw [Bool.eq_false_iff, Ne, eqHolds_iff_bits _ hid]
      rintro ⟨key, -, hmem⟩
      exact hbits f key hmem
  have hscan : ∀ f v predicate, ex.scanHolds f v predicate slot = false := by
    intro f v predicate
    rw [Bool.eq_false_iff, Ne, scanHolds_iff_bits]
    rintro ⟨target, -, key, -, -, hmem⟩
    exact hbits f key hmem
  have hnone : ∀ f v, ex.bucketThreshold f v = none := fun f v => by simp [bucketThreshold, hbuckets]
  induction c using tree_induction with
  | not | notEq | notIn | isNotNull => simp [holds, hdead]
  | eq f v => exact heq f v
  | isIn f vs => simp [holds, heq]
  | gt | gte => simp [holds, afterHolds, hnone, hscan]
  | lt | lte => simp [holds, beforeHolds, hnone, hscan]
  | isNull f =>
    rw [holds, Bool.eq_false_iff, Ne, nullIn_iff_bits]
    exact hbits f nullBitmapKey
  | bucketBitmap => cases hnumeric
  | and cs ih =>
    rw [FilterClause.Numeric, Bool.and_eq_true, numericEach_eq_all, all_eq_true] at hnumeric
    obtain ⟨hne, hnumeric⟩ := hnumeric
    rw [Bool.eq_false_iff, Ne, holds_and_iff]
    rintro ⟨hne', hall⟩
    obtain ⟨c, hc⟩ := exists_mem_of_ne_nil cs hne'
    have hfalse := ih c hc (hnumeric c hc)
    rw [hall c hc] at hfalse
    cases hfalse
  | or cs ih =>
    rw [FilterClause.Numeric, numericEach_eq_all, all_eq_true] at hnumeric
    rw [Bool.eq_false_iff, Ne, holds_or_iff]
    rintro ⟨c, hc, htrue⟩
    have hfalse := ih c hc (hnumeric c hc)
    rw [htrue] at hfalse
    cases hfalse

end QueryExecutor

section Answer

variable [Host] {cfg : Config} {st₀ : IndexState} {docs : List Insertion} {maxPageSize : Nat} {tables : Tables}
  (hblank : st₀.Blank cfg) (hslots : (docs.map Insertion.slot).Nodup)

include hblank

omit [Host] in
theorem mem_aliveBitmap_iff_bit {x : UInt32} :
    x ∈ (st₀.insertAll cfg docs).slots.aliveBitmap ↔ (st₀.insertAll cfg docs).bit .alive x = true := by
  have hmerged : (st₀.insertAll cfg docs).slots.alive.base = (st₀.insertAll cfg docs).slots.alive.fused := by
    apply merged_insertAll
    · rw [hblank.alive_eq]
      rfl
    · rw [hblank.alive_eq]
      rfl
  rw [SlotAllocator.aliveBitmap, hmerged]
  exact decide_eq_true_iff.symm

include hslots

omit [Host] in
/-- What an inserted slot shows. -/
theorem bit_inserted_iff {d : Insertion} (hd : d ∈ docs) {t : Target} (ht : cfg.Indexes t) :
    (st₀.insertAll cfg docs).bit t d.slot = true ↔ cfg.Visible d ∧ cfg.Shows d.doc t := by
  rw [bit_insertAll hslots ((hblank.has_iff t).mpr ht) hd (hblank.bit_eq t d.slot)]
  unfold Config.Visible
  cases hdeferred : cfg.deferredUntil d.doc d.now with
  | none =>
    rw [and_iff_right rfl]
    exact shownBit_iff hdeferred
  | some activateAt => simp [shownBit_of_deferred hdeferred]

omit [Host] in
/-- A visible document is shown to the executor. -/
theorem holds_of_visible (hbuckets : tables.timeBuckets = none) {d : Insertion} (hd : d ∈ docs)
    (hvisible : cfg.Visible d) :
    ((st₀.insertAll cfg docs).queryExecutor maxPageSize tables).Holds cfg d.slot d.doc where
  alive := by
    refine (mem_aliveBitmap_iff_bit hblank).mpr ?_
    exact (bit_inserted_iff hblank hslots hd (t := .alive) trivial).mpr ⟨hvisible, trivial⟩
  has_iff f := has_applyAll.trans (hblank.has_iff (.filter f 0))
  bits_iff f hf key := by
    show d.slot ∈ (st₀.insertAll cfg docs).filters.bits f key ↔ _
    rw [mem_bits_iff_bit, bit_inserted_iff hblank hslots hd (t := .filter f key) hf, and_iff_right hvisible]
  no_buckets := hbuckets

omit [Host] in
/-- Any other slot shows nothing. -/
theorem bit_eq_false_of_not_visible {x : UInt32} (hx : ¬∃ d ∈ docs, d.slot = x ∧ cfg.Visible d) (t : Target) :
    (st₀.insertAll cfg docs).bit t x = false := by
  by_cases hmem : x ∈ docs.map Insertion.slot
  · obtain ⟨d, hd, rfl⟩ := mem_map.mp hmem
    by_cases ht : cfg.Indexes t
    · rw [Bool.eq_false_iff, Ne, bit_inserted_iff hblank hslots hd ht]
      rintro ⟨hvisible, -⟩
      exact hx ⟨d, hd, rfl, hvisible⟩
    · refine bit_eq_false fun hhas => ht ?_
      exact (hblank.has_iff t).mp (has_applyAll.mp hhas)
  · rw [bit_insertAll_of_notMem hmem, hblank.bit_eq]

/-- **Filters over documents.** For documents inserted into an empty index, the clause returns the alive slots whose
documents satisfy it exactly if, for every document not deferred, the marked leaves make no difference. -/
theorem mem_evaluateClause_iff_satisfies (hbuckets : tables.timeBuckets = none) {c : FilterClause}
    (hnumeric : c.Numeric = true) {b : Bitmap}
    (hb : ((st₀.insertAll cfg docs).queryExecutor maxPageSize tables).evaluateClause c = .ok b) :
    (∀ x, x ∈ b ↔ x ∈ (st₀.insertAll cfg docs).slots.aliveBitmap ∧
        ∃ d ∈ docs, d.slot = x ∧ cfg.satisfies x d.doc c = true) ↔ ∀ d ∈ docs, cfg.Visible d →
        truth (fun _ leaf => cfg.leafSatisfies d.slot d.doc leaf ^^ cfg.leafDiffers d.slot d.doc leaf) .alone c =
          truth (fun _ leaf => cfg.leafSatisfies d.slot d.doc leaf) .alone c := by
  have hunique : ∀ d ∈ docs, ∀ d' ∈ docs, d'.slot = d.slot → d' = d := by
    intro d hd d' hd' hslot
    exact inj_on_of_nodup_map hslots hd' hd hslot
  -- both sides at the slot of a visible document
  have hat : ∀ d ∈ docs, cfg.Visible d →
      (d.slot ∈ b ↔ truth (fun _ leaf => cfg.leafSatisfies d.slot d.doc leaf ^^ cfg.leafDiffers d.slot d.doc leaf)
        .alone c = true) ∧
      ((d.slot ∈ (st₀.insertAll cfg docs).slots.aliveBitmap ∧
        ∃ d' ∈ docs, d'.slot = d.slot ∧ cfg.satisfies d.slot d'.doc c = true) ↔
        cfg.satisfies d.slot d.doc c = true) := by
    intro d hd hvisible
    have hholds : ((st₀.insertAll cfg docs).queryExecutor maxPageSize tables).Holds cfg d.slot d.doc :=
      holds_of_visible hblank hslots hbuckets hd hvisible
    refine ⟨?_, ?_⟩
    · rw [mem_evaluateClause _ hb, hholds.holds_eq_truth hnumeric ⟨b, hb⟩]
    · constructor
      · rintro ⟨-, d', hd', hslot, hsat⟩
        rw [hunique d hd d' hd' hslot] at hsat
        exact hsat
      · intro hsat
        exact ⟨hholds.alive, d, hd, rfl, hsat⟩
  constructor
  · intro hexact d hd hvisible
    obtain ⟨hcode, hspec⟩ := hat d hd hvisible
    rw [Bool.eq_iff_iff, ← hcode, hexact d.slot, hspec]
    rfl
  · intro hsame x
    by_cases hx : ∃ d ∈ docs, d.slot = x ∧ cfg.Visible d
    · obtain ⟨d, hd, rfl, hvisible⟩ := hx
      obtain ⟨hcode, hspec⟩ := hat d hd hvisible
      rw [hcode, hspec, hsame d hd hvisible]
      rfl
    · -- an empty slot is neither returned nor alive
      have hbit := bit_eq_false_of_not_visible hblank hslots hx
      have hdead : x ∉ (st₀.insertAll cfg docs).slots.aliveBitmap := by
        rw [mem_aliveBitmap_iff_bit hblank, hbit .alive]
        exact Bool.false_ne_true
      have hbits : ∀ f key, x ∉ (st₀.insertAll cfg docs).filters.bits f key := by
        intro f key
        rw [mem_bits_iff_bit, hbit (.filter f key)]
        exact Bool.false_ne_true
      have hfalse : ((st₀.insertAll cfg docs).queryExecutor maxPageSize tables).holds c x = false :=
        holds_eq_false_of_empty hdead hbits hbuckets hnumeric
      rw [mem_evaluateClause _ hb, hfalse]
      simp [hdead]

end Answer

/-! ### Numbers below zero, missing values and large ids -/

section Samples

attribute [local instance] Host.ascii

/-- One integer field. -/
def numberConfig : Config where
  filterFields := ["n"]
  sortFields := []
  dataSchema := []
  deferredAlive := none
  filter_nodup := nodup_singleton "n"
  sort_nodup := nodup_nil

def emptyNumbers : IndexState where
  slots := .new
  filters := ⟨(∅ : HashMap String FilterField).insert "n" (.new {})⟩
  sorts := ⟨∅⟩

/-- Slot 0 has the number `-5`, slot 1 has none and slot 2 has 7. -/
def threeNumbers : List Insertion :=
  [⟨0, fun name => if name = "n" then some (.single (.integer (-5))) else none, 0⟩, ⟨1, fun _ => none, 0⟩,
    ⟨2, fun name => if name = "n" then some (.single (.integer 7)) else none, 0⟩]

theorem getField_emptyNumbers (f : String) :
    emptyNumbers.filters.getField f = if f = "n" then some (.new {}) else none :=
  lookup_insert_empty "n" f _

theorem emptyNumbers_blank : emptyNumbers.Blank numberConfig where
  has_iff t := by
    cases t with
    | filter f k =>
      simp only [IndexState.Has, Config.Indexes, numberConfig, getField_emptyNumbers, mem_singleton]
      split <;> simp_all
    | sort f b =>
      have hbits : emptyNumbers.sorts.numBits f = 0 := rfl
      simp [IndexState.Has, Config.Indexes, numberConfig, hbits]
    | alive => exact Iff.rfl
  bit_eq t x := by
    cases t with
    | filter f k =>
      simp only [bit, holders, FilterIndex.bits, getField_emptyNumbers]
      split
      · next ff hff =>
        split at hff
        · cases hff
          simp [FilterField.bits, FilterField.getVersioned, FilterField.new]
        · cases hff
      · simp
    | sort f b | alive => rfl
  alive_eq := rfl

/-- `-5` is above 0, a document without a number has one other than 7, and `2 ^ 32` is the id of slot 0. -/
theorem evaluateClause_misreads :
    ((emptyNumbers.insertAll numberConfig threeNumbers).queryExecutor 10 .empty).evaluateClause
        (.gt "n" (.integer 0)) = .ok {2, 0} ∧
      numberConfig.satisfies 0 (fun name => if name = "n" then some (.single (.integer (-5))) else none)
        (.gt "n" (.integer 0)) = false ∧
    ((emptyNumbers.insertAll numberConfig threeNumbers).queryExecutor 10 .empty).evaluateClause
        (.notEq "n" (.integer 7)) = .ok {0, 1} ∧
      numberConfig.satisfies 1 (fun _ => none) (.notEq "n" (.integer 7)) = false ∧
    ((emptyNumbers.insertAll numberConfig threeNumbers).queryExecutor 10 .empty).evaluateClause
        (.eq "id" (.integer 4294967296)) = .ok {0} ∧
      numberConfig.satisfies 0 (fun name => if name = "n" then some (.single (.integer (-5))) else none)
        (.eq "id" (.integer 4294967296)) = false := by
  decide +kernel

/-- A conjunction that keeps clear of all that returns slot 2. -/
theorem mem_evaluateClause_threeNumbers : emptyNumbers.Blank numberConfig ∧
      ((emptyNumbers.insertAll numberConfig threeNumbers).queryExecutor 10 .empty).evaluateClause
        (.and [.not (.eq "n" (.integer (-5))), .isIn "id" [.integer 0, .integer 2]]) = .ok {2} ∧
      ∀ x, x ∈ ({2} : Bitmap) ↔ x ∈ (emptyNumbers.insertAll numberConfig threeNumbers).slots.aliveBitmap ∧
        ∃ d ∈ threeNumbers, d.slot = x ∧ numberConfig.satisfies x d.doc
          (.and [.not (.eq "n" (.integer (-5))), .isIn "id" [.integer 0, .integer 2]]) = true := by
  have hb : ((emptyNumbers.insertAll numberConfig threeNumbers).queryExecutor 10 .empty).evaluateClause
      (.and [.not (.eq "n" (.integer (-5))), .isIn "id" [.integer 0, .integer 2]]) = .ok {2} := by decide +kernel
  refine ⟨emptyNumbers_blank, hb, ?_⟩
  refine (mem_evaluateClause_iff_satisfies emptyNumbers_blank (by decide) rfl (by decide) hb).mpr ?_
  intro d hd _
  simp only [threeNumbers, mem_cons, not_mem_nil, or_false] at hd
  rcases hd with rfl | rfl | rfl <;> decide +kernel

end Samples

end Bitdex
