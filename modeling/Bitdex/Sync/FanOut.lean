import Bitdex.Sync.Batch
import Bitdex.Executor.ClauseOrder
import Bitdex.Engine.Query

/-!
# `Sync.FanOut` — ops for the slots that a query finds

A fan-out carries a query and ops for every slot it matches: `apply_query_op_set` (`ops_processor.rs`) runs the query
through `execute_query` without a sort and with the largest limit, and applies the ops to each slot of the answer.
`execute_query` cuts every answer at `max_page_size`, so of more matches only the highest slots are reached.

The index is one snapshot with its fields loaded, and nothing is in flight. Left out: slots scheduled and not alive,
which a pass of its own reaches; computed sort fields; eviction of cached documents; metrics.
-/

namespace Bitdex

open Enumeration List QueryExecutor String

variable {J : Type}

/-! ## The query -/

/-- What the parser calls of the standard library: the `f64` bits of a text, and Unicode whitespace. -/
structure TextFns where
  parseF64 : String → Option UInt64
  isWhitespace : Char → Bool

/-- Why a fan-out fails. -/
inductive FanOutError where
  | parse (message : String)
  | query (e : BitdexError)

/-- `str::split`: the characters of the current piece and how many characters of a separator are left to skip. -/
def splitText (sep : List Char) : List Char → Nat → List Char → List (List Char)
  | piece, _, [] => [piece.reverse]
  | piece, skip + 1, _ :: cs => splitText sep piece skip cs
  | piece, 0, c :: cs =>
    if sep.isPrefixOf (c :: cs) then piece.reverse :: splitText sep [] (sep.length - 1) cs
    else splitText sep (c :: piece) 0 cs

/-- `str::trim_matches`. -/
def trimMatches (p : Char → Bool) (cs : List Char) : List Char := ((cs.dropWhile p).reverse.dropWhile p).reverse

/-- `splitn(3, ' ')`, if there are three parts. -/
def splitThree (cs : List Char) : Option (List Char × List Char × List Char) :=
  match cs.span (· ≠ ' ') with
  | (_, []) => none
  | (first, _ :: rest) =>
    match rest.span (· ≠ ' ') with
    | (_, []) => none
    | (second, _ :: third) => some (first, second, third)

/-- The number some digits denote. -/
def digitsValue (cs : List Char) : Option Nat :=
  if cs = [] then none
  else cs.foldlM (fun n c => if c.isDigit then some (n * 10 + (c.toNat - '0'.toNat)) else none) 0

/-- `str::parse::<i64>`. -/
def parseI64 : List Char → Option Int64
  | '-' :: cs => (digitsValue cs).bind fun n => if n ≤ 2 ^ 63 then some (Int64.ofInt (-n)) else none
  | '+' :: cs => (digitsValue cs).bind fun n => if n < 2 ^ 63 then some (Int64.ofInt n) else none
  | cs => (digitsValue cs).bind fun n => if n < 2 ^ 63 then some (Int64.ofInt n) else none

def doubleQuote : Char := Char.ofNat 34

def singleQuote : Char := Char.ofNat 39

section Parse

variable [Host] (text : TextFns)

/-- A value of a query text. -/
def parseQueryValue (cs : List Char) : Value :=
  match parseI64 cs with
  | some n => .integer n
  | none =>
    match text.parseF64 (ofList cs) with
    | some bits => .float bits
    | none =>
      if cs = "true".toList then .bool true
      else if cs = "false".toList then .bool false
      else .string (ofList (trimMatches (· = singleQuote) (trimMatches (· = doubleQuote) cs)))

/-- The values of a list. -/
def parseQueryValuesArray (s : List Char) : Except String (List Value) :=
  let trimmed := trimMatches text.isWhitespace s
  if trimmed.head? = some '[' ∧ trimmed.getLast? = some ']' then
    let parts := (splitText [','] [] 0 trimmed.tail.dropLast).map (trimMatches text.isWhitespace)
    .ok ((parts.filter (· ≠ [])).map (parseQueryValue text))
  else .error ("Expected array for 'in' filter, got: '" ++ ofList s ++ "'")

/-- One clause of the query. -/
def parseClause (clause : List Char) : Except String FilterClause :=
  match splitThree (trimMatches text.isWhitespace clause) with
  | none => .error ("Invalid filter clause: '" ++ ofList clause ++ "'")
  | some (field, op, value) =>
    let op := Host.toLowercase (ofList op)
    if op = "eq" then .ok (.eq (ofList field) (parseQueryValue text value))
    else if op = "in" then (parseQueryValuesArray text value).map (.isIn (ofList field))
    else .error ("Unsupported filter op '" ++ op ++ "' in queryOpSet")

/-- A query text as clauses. -/
def parseFilterFromQueryStr (query : String) : Except String (List FilterClause) :=
  (splitText " AND ".toList [] 0 query.toList).mapM (parseClause text)

end Parse

/-! ## The ops -/

/-- A slot and the time that this fan-out schedules it for. -/
structure Fanned where
  entity : Entity
  scheduled : Option UInt64

section Ops

variable (fm : FieldMeta J)

/-- `check_deferred_alive_secs`: the first future time that an op sets the deferred field to, perhaps in milliseconds.
-/
def checkDeferredAliveSecs (deferredField : Option (String × Bool)) (now : Int64) (ops : List (Op J)) : Option UInt64 :=
  deferredField.bind fun (daField, msToSecs) =>
    ops.findSome? fun
      | .set field value =>
        if field = daField then
          (fm.asI64 value).bind fun ts =>
            let secs := if msToSecs then ts / 1000 else ts
            if secs > now then some secs.toUInt64 else none
        else none
      | _ => none

/-- One op on a matched slot. A delete clears the alive bit and nothing else; a nested fan-out is ignored. -/
def Entity.fanOutOp (s : Entity) (op : Op J) : Entity :=
  match op with
  | .delete => { s with alive := false }
  | op => s.applyOp fm op

/-- One op on a slot that is deferred: the document is written and nothing else. -/
def Entity.deferOp (s : Entity) (op : Op J) : Entity :=
  match op with
  | .set field value => s.writeSet field (fm.packed value)
  | .remove field value => s.writeRemove field (fm.asI64 value)
  | .add field value => s.writeAdd field (fm.asI64 value)
  | _ => s

/-- The body of the loop over the matched slots. -/
def fanOutTo (deferredField : Option (String × Bool)) (now : Int64) (ops : List (Op J)) (s : Fanned) : Fanned :=
  match checkDeferredAliveSecs fm deferredField now ops with
  | some activateAt => ⟨ops.foldl (Entity.deferOp fm) s.entity, some activateAt⟩
  | none => { s with entity := ops.foldl (Entity.fanOutOp fm) s.entity }

end Ops

/-! ## The fan-out -/

/-- What a fan-out reads besides its query and ops: executor, cache, cap, deferred field and clock. -/
structure FanOutEnv where
  ex : QueryExecutor
  cache : UnifiedCache
  choices : Choices
  cap : Nat
  deferredField : Option (String × Bool)
  now : Int64

section FanOut

variable [Host] (env : FanOutEnv) (text : TextFns)

/-- `usize::MAX`. -/
def usizeMax : Nat := 2 ^ 64 - 1

/-- The slots that the ops are applied to: one answer of `execute_query`, or none if it is over the cap. -/
def fanOutSlots (queryStr : String) : Except FanOutError (List UInt32) := do
  let filters ← (parseFilterFromQueryStr text queryStr).mapError .parse
  let (result, _) ←
    (env.ex.executeQuery env.cache ⟨filters, none, usizeMax, none, none, true⟩ env.choices).mapError .query
  return if result.ids.length > env.cap then [] else result.ids

/-- `apply_query_op_set`: the number of slots or an error, and the slots after it. -/
def applyQueryOpSet (fm : FieldMeta J) (queryStr : String) (ops : List (Op J)) (st : UInt32 → Fanned) :
    Except FanOutError Nat × (UInt32 → Fanned) :=
  match fanOutSlots env text queryStr with
  | .error e => (.error e, st)
  | .ok slots =>
    (.ok slots.length, slots.foldl
      (fun st slot => Function.update st slot (fanOutTo fm env.deferredField env.now ops (st slot))) st)

end FanOut

/-! ## What the parser accepts -/

section Parsed

variable [Host] {text : TextFns} {filters : List FilterClause} {queryStr : String}

omit [Host] in
theorem splitText_ne_nil (sep piece : List Char) (skip : Nat) (cs : List Char) : splitText sep piece skip cs ≠ [] := by
  induction cs generalizing piece skip with
  | nil => exact cons_ne_nil _ _
  | cons c cs ih =>
    cases skip with
    | zero =>
      rw [splitText]
      split
      · exact cons_ne_nil _ _
      · exact ih _ _
    | succ skip => exact ih _ _

/-- A clause that tests stored values. -/
def FilterClause.IsLookup : FilterClause → Prop
  | .eq _ _ => True
  | .isIn _ _ => True
  | _ => False

theorem isLookup_of_parseClause {cs : List Char} {c : FilterClause} (h : parseClause text cs = .ok c) : c.IsLookup := by
  unfold parseClause at h
  split at h
  · cases h
  · rename_i field op value hsplit
    dsimp only at h
    split at h
    · cases h
      trivial
    · split at h
      · cases hvalues : parseQueryValuesArray text value with
        | error e =>
          rw [hvalues] at h
          cases h
        | ok values =>
          rw [hvalues] at h
          cases h
          trivial
      · cases h

omit [Host] in
theorem mapM_ok {ε α β : Type} {f : α → Except ε β} {l : List α} {l' : List β} (h : l.mapM f = .ok l') :
    l'.length = l.length ∧ ∀ b ∈ l', ∃ a ∈ l, f a = .ok b := by
  induction l generalizing l' with
  | nil =>
    cases h
    exact ⟨rfl, fun b hb => by cases hb⟩
  | cons a l ih =>
    rw [mapM_cons, bind_eq_ok_iff] at h
    obtain ⟨b, hb, h⟩ := h
    obtain ⟨bs, hbs, h⟩ := bind_eq_ok_iff.mp h
    cases h
    obtain ⟨hlength, hmem⟩ := ih hbs
    refine ⟨congrArg (· + 1) hlength, fun b' hb' => ?_⟩
    rcases mem_cons.mp hb' with rfl | hb'
    · exact ⟨a, mem_cons_self, hb⟩
    · obtain ⟨a', ha', h'⟩ := hmem b' hb'
      exact ⟨a', mem_cons_of_mem _ ha', h'⟩

/-- **Parsed queries**: at least one clause, each of which looks stored values up. -/
theorem isLookup_of_parse (h : parseFilterFromQueryStr text queryStr = .ok filters) :
    filters ≠ [] ∧ ∀ c ∈ filters, c.IsLookup := by
  obtain ⟨hlength, hmem⟩ := mapM_ok h
  constructor
  · rintro rfl
    exact splitText_ne_nil _ _ _ _ (length_eq_zero_iff.mp hlength.symm)
  · intro c hc
    obtain ⟨cs, -, hcs⟩ := hmem c hc
    exact isLookup_of_parseClause hcs

end Parsed

/-! ## The answer of the query -/

namespace QueryExecutor

variable [Host] {ex : QueryExecutor} {filters : List FilterClause} {matching : Bitmap}

theorem byRefHolds_of_isLookup {c : FilterClause} (h : c.IsLookup) (slot : UInt32) :
    ex.byRefHolds c slot = ex.holds c slot := by
  cases c with
  | eq | isIn => rfl
  | _ => exact absurd h id

theorem snapEach_of_isLookup {t : Tables} (h : ∀ c ∈ filters, c.IsLookup) : t.snapRangeClauses filters = filters := by
  show t.snapEach filters = filters
  induction filters with
  | nil => rw [Tables.snapEach]
  | cons c cs ih =>
    have hc : t.snapClause c = c := by
      cases c with
      | eq | isIn => simp [Tables.snapClause]
      | _ => exact absurd (h _ mem_cons_self) id
    rw [Tables.snapEach, hc, ih fun c' hc' => h c' (mem_cons_of_mem _ hc')]

/-- A lookup that fails is true of no slot: it names no filter field, or an id that is no integer. -/
theorem holds_eq_false_of_error {c : FilterClause} {e : BitdexError} (hlookup : c.IsLookup)
    (h : ex.evaluateClause c = .error e) (slot : UInt32) : ex.holds c slot = false := by
  cases c with
  | eq field value =>
    rw [evaluateClause, evaluateEq] at h
    show ex.eqHolds field value slot = false
    unfold eqHolds
    split at h
    · rename_i hid
      rw [if_pos hid]
      cases value with
      | integer v => cases h
      | _ => rfl
    · rename_i hid
      rw [if_neg hid]
      cases hfield : ex.filters.getField field with
      | none => rfl
      | some ff =>
        rw [hfield] at h
        dsimp only at h
        split at h <;> cases h
  | isIn field values =>
    rw [evaluateClause, evaluateIn] at h
    split at h
    · cases h
    · rename_i hid
      cases hfield : ex.filters.getField field with
      | none =>
        rw [holds, any_eq_false]
        intro v _
        simp [eqHolds, hid, hfield]
      | some ff =>
        rw [hfield] at h
        cases h
  | _ => exact absurd hlookup id

/-- **The filter result** of lookups is the set of slots of which all hold; if it cannot be computed, that set is
empty. -/
theorem resolveFilters_lookups (hne : filters ≠ []) (hlookup : ∀ c ∈ filters, c.IsLookup)
    (hmatching : ∀ x, x ∈ matching ↔ ∀ c ∈ filters, ex.holds c x = true) :
    (∃ simple, ex.resolveFilters filters = .ok (matching, simple)) ∨
      (∃ e, ex.resolveFilters filters = .error e) ∧ matching = ∅ := by
  have hperm := planQuery_perm filters ex.filters ex.slots (some ex.tables)
  have hresolve : ex.resolveFilters filters =
      (ex.computeFilters (planQuery filters ex.filters ex.slots (some ex.tables)).orderedClauses >>= fun bitmap =>
        .ok (bitmap, (planQuery filters ex.filters ex.slots (some ex.tables)).useSimpleSort)) := by
    rw [resolveFilters, snapEach_of_isLookup hlookup]
    rfl
  rw [hresolve]
  generalize planQuery filters ex.filters ex.slots (some ex.tables) = plan at hperm ⊢
  cases hclauses : plan.orderedClauses with
  | nil =>
    rw [hclauses] at hperm
    exact absurd hperm.symm.eq_nil hne
  | cons c rest =>
    rw [hclauses] at hperm
    have hmem : ∀ d, d ∈ c :: rest ↔ d ∈ filters := fun d => hperm.mem_iff
    cases hcompute : ex.computeFilters (c :: rest) with
    | ok bitmap =>
      left
      refine ⟨plan.useSimpleSort, ?_⟩
      have hbitmap : bitmap = matching := by
        ext x
        rw [ex.mem_computeFilters hcompute, hmatching]
        constructor
        · rintro ⟨hc, hrest⟩ d hd
          rcases mem_cons.mp ((hmem d).mpr hd) with rfl | hd'
          · exact hc
          · rw [← byRefHolds_of_isLookup (hlookup d hd)]
            exact hrest d hd'
        · intro hall
          refine ⟨hall c ((hmem c).mp mem_cons_self), fun d hd => ?_⟩
          have hd' : d ∈ filters := (hmem d).mp (mem_cons_of_mem _ hd)
          rw [byRefHolds_of_isLookup (hlookup d hd')]
          exact hall d hd'
      rw [hbitmap]
      rfl
    | error e =>
      right
      refine ⟨⟨e, rfl⟩, ?_⟩
      -- some clause cannot be evaluated, and it holds of no slot
      obtain ⟨d, hd, herr⟩ : ∃ d ∈ c :: rest, ¬ex.Evaluable d := by
        by_contra hnone
        have hall : ∀ d ∈ c :: rest, ex.Evaluable d := fun d hd => by_contra fun herr => hnone ⟨d, hd, herr⟩
        obtain ⟨b, hb⟩ := ex.computeFilters_ok hall
        rw [hcompute] at hb
        cases hb
      have hd' : d ∈ filters := (hmem d).mp hd
      cases hev : ex.evaluateClause d with
      | ok b => exact absurd ⟨b, hev⟩ herr
      | error e' =>
        rw [Finset.eq_empty_iff_forall_notMem]
        intro x hx
        have hfalse := holds_eq_false_of_error (hlookup d hd') hev x
        rw [(hmatching x).mp hx d hd'] at hfalse
        cases hfalse

omit [Host] in
/-- Newest first: the enumeration of the slots in descending order. -/
theorem reverse_iter (s : Bitmap) : (Bitmap.iter s).reverse = enumerate (· ≥ ·) s := by
  refine eq_enumerate ?_ ?_ ?_
  · rw [pairwise_reverse]
    exact pairwise_enumerate s
  · exact nodup_reverse.mpr (nodup_enumerate s)
  · intro x
    rw [mem_reverse, Bitmap.mem_iter]

omit [Host] in
theorem card_le_usizeMax (s : Bitmap) : s.card ≤ usizeMax := by
  have hcard : s.card ≤ (Finset.range (2 ^ 32)).card :=
    Finset.card_le_card_of_injOn UInt32.toNat (fun x _ => Finset.mem_coe.mpr (Finset.mem_range.mpr x.toNat_lt))
      fun x _ y _ h => UInt32.toNat_inj.mp h
  rw [Finset.card_range] at hcard
  exact hcard.trans (by decide)

end QueryExecutor

/-! ## Which slots are reached -/

section Reached

variable [Host] {env : FanOutEnv} {text : TextFns} {queryStr : String} {filters : List FilterClause}
  {matching : Bitmap} {fm : FieldMeta J}

section Page

variable (hparse : parseFilterFromQueryStr text queryStr = .ok filters)
  (hmatching : ∀ x, x ∈ matching ↔ ∀ c ∈ filters, env.ex.holds c x = true)

include hparse hmatching

/-- The first page of the matches, newest first. It fails only where nothing matches. -/
theorem fanOutSlots_eq : (∀ slots, fanOutSlots env text queryStr = .ok slots →
      slots = if min matching.card env.ex.maxPageSize > env.cap then []
        else (enumerate (· ≥ ·) matching).take (min usizeMax env.ex.maxPageSize)) ∧
      ((∃ slots, fanOutSlots env text queryStr = .ok slots) ∨ matching = ∅) := by
  obtain ⟨hne, hlookup⟩ := isLookup_of_parse hparse
  have hquery : env.ex.executeQuery env.cache ⟨filters, none, usizeMax, none, none, true⟩ env.choices =
      (env.ex.resolveFilters filters >>= fun r =>
        env.ex.servePlain env.cache ⟨filters, none, usizeMax, none, none, true⟩ r.1 r.2) := by
    rw [executeQuery, executeQueryAt, executeQuerySlowPath, snapEach_of_isLookup hlookup]
  have hslots : fanOutSlots env text queryStr =
      ((env.ex.executeQuery env.cache ⟨filters, none, usizeMax, none, none, true⟩ env.choices).mapError .query >>=
        fun r => .ok (if r.1.ids.length > env.cap then [] else r.1.ids)) := by
    rw [fanOutSlots, hparse]
    rfl
  rw [hslots, hquery]
  rcases resolveFilters_lookups hne hlookup hmatching with ⟨simple, hok⟩ | ⟨⟨e, herr⟩, hempty⟩
  · have hids : ((Bitmap.iter matching).reverse.take (min usizeMax env.ex.maxPageSize)).length =
        min matching.card env.ex.maxPageSize := by
      have hcard := card_le_usizeMax matching
      rw [reverse_iter, length_take, length_enumerate]
      omega
    rw [hok, ← reverse_iter, ← hids]
    exact ⟨fun slots h => (Except.ok.inj h).symm, .inl ⟨_, rfl⟩⟩
  · rw [herr]
    exact ⟨fun slots h => (by cases h), .inr hempty⟩

/-- **Reached**: the matching slots with fewer matches above them than a page holds, unless the page is over the cap.
-/
theorem mem_fanOutSlots_iff {slots : List UInt32} {slot : UInt32} (hslots : fanOutSlots env text queryStr = .ok slots) :
    slot ∈ slots ↔ slot ∈ matching ∧ (matching.filter (slot ≤ ·)).card ≤ env.ex.maxPageSize ∧
      min matching.card env.ex.maxPageSize ≤ env.cap := by
  rw [(fanOutSlots_eq hparse hmatching).1 slots hslots]
  have hcard := card_le_usizeMax (matching.filter (slot ≤ ·))
  by_cases hcap : min matching.card env.ex.maxPageSize > env.cap
  · rw [if_pos hcap]
    constructor
    · intro hmem
      cases hmem
    · rintro ⟨-, -, hle⟩
      omega
  · rw [if_neg hcap, mem_take_enumerate_iff]
    constructor
    · rintro ⟨hmem, hle⟩
      exact ⟨hmem, hle.trans (min_le_right _ _), not_lt.mp hcap⟩
    · rintro ⟨hmem, hle, -⟩
      exact ⟨hmem, le_min hcard hle⟩

theorem nodup_fanOutSlots {slots : List UInt32} (hslots : fanOutSlots env text queryStr = .ok slots) : slots.Nodup := by
  rw [(fanOutSlots_eq hparse hmatching).1 slots hslots]
  split
  · exact nodup_nil
  · exact (nodup_enumerate matching).sublist (take_sublist _ _)

end Page

omit [Host] in
/-- The loop: each slot of the list is visited once, the others are left alone. -/
theorem foldl_update_apply {σ : Type} {f : σ → σ} {slots : List UInt32} (hnodup : slots.Nodup) (st : UInt32 → σ)
    (slot : UInt32) :
    slots.foldl (fun st s => Function.update st s (f (st s))) st slot =
      if slot ∈ slots then f (st slot) else st slot := by
  induction slots generalizing st with
  | nil => rfl
  | cons s slots ih =>
    obtain ⟨hs, hnodup⟩ := nodup_cons.mp hnodup
    rw [foldl_cons, ih hnodup]
    by_cases hslot : slot = s
    · subst hslot
      rw [if_neg hs, if_pos mem_cons_self, Function.update_self]
    · simp [hslot]

/-- **Completeness.** A fan-out's ops are applied to every alive matching slot exactly if each has no more matches
from it upwards than a page holds, and the page is not over the cap. -/
theorem applyQueryOpSet_complete_iff (env : FanOutEnv) (text : TextFns) (fm : FieldMeta J) (queryStr : String)
    (filters : List FilterClause) (matching : Bitmap) (hparse : parseFilterFromQueryStr text queryStr = .ok filters)
    (hmatching : ∀ x, x ∈ matching ↔ ∀ c ∈ filters, env.ex.holds c x = true) :
    (∀ (ops : List (Op J)) (st : UInt32 → Fanned), ∀ slot ∈ matching, slot ∈ env.ex.aliveBitmap →
      (applyQueryOpSet env text fm queryStr ops st).2 slot = fanOutTo fm env.deferredField env.now ops (st slot)) ↔
      ∀ slot ∈ matching, slot ∈ env.ex.aliveBitmap → (matching.filter (slot ≤ ·)).card ≤ env.ex.maxPageSize ∧
          min matching.card env.ex.maxPageSize ≤ env.cap := by
  rcases (fanOutSlots_eq hparse hmatching).2 with ⟨slots, hslots⟩ | hempty
  · have happly : ∀ (ops : List (Op J)) (st : UInt32 → Fanned) (slot : UInt32),
        (applyQueryOpSet env text fm queryStr ops st).2 slot =
          if slot ∈ slots then fanOutTo fm env.deferredField env.now ops (st slot) else st slot := by
      intro ops st slot
      rw [applyQueryOpSet, hslots]
      exact foldl_update_apply (nodup_fanOutSlots hparse hmatching hslots) st slot
    constructor
    · intro hall slot hmem halive
      -- a delete shows whether the slot was reached
      have hdelete := hall [.delete] (fun _ => ⟨⟨true, true, fun _ => none, fun _ => false⟩, none⟩) slot hmem halive
      rw [happly] at hdelete
      by_cases hreached : slot ∈ slots
      · exact ((mem_fanOutSlots_iff hparse hmatching hslots).mp hreached).2
      · rw [if_neg hreached] at hdelete
        have hcheck : checkDeferredAliveSecs fm env.deferredField env.now ([.delete] : List (Op J)) = none := by
          cases hfield : env.deferredField <;> rfl
        rw [fanOutTo, hcheck] at hdelete
        have hbit : true = false := congrArg (fun s : Fanned => s.entity.alive) hdelete
        cases hbit
    · intro hcond ops st slot hmem halive
      rw [happly, if_pos]
      exact (mem_fanOutSlots_iff hparse hmatching hslots).mpr ⟨hmem, hcond slot hmem halive⟩
  · subst hempty
    exact iff_of_true (fun _ _ slot hmem => absurd hmem (Finset.notMem_empty slot))
      fun slot hmem => absurd hmem (Finset.notMem_empty slot)

end Reached

/-! ## The images of a post -/

section Images

attribute [local instance] Host.ascii

/-- No text denotes a float, and only the blank is whitespace. -/
def blankText : TextFns := ⟨fun _ => none, (· = ' ')⟩

/-- Three images of post 7, all alive, without a cap. -/
def postImages (maxPageSize : Nat) : FanOutEnv where
  ex :=
    { slots := ⟨4, .new {1, 2, 3}, []⟩
      filters := ⟨(∅ : HashMap String FilterField).insert "postId"
        ⟨(∅ : HashMap UInt64 VersionedBitmap).insert 7 (.new {1, 2, 3}), {}⟩⟩
      sorts := ⟨∅⟩
      maxPageSize := maxPageSize
      tables := .empty }
  cache := .new {}
  choices := ⟨[], false⟩
  cap := usizeMax
  deferredField := none
  now := 0

/-- Public images, none of them scheduled. -/
def publicSlots : UInt32 → Fanned := fun _ => ⟨(publicImages 0).toEntity, none⟩

theorem parse_postId : parseFilterFromQueryStr blankText "postId eq 7" = .ok [.eq "postId" (.integer 7)] := by
  have hclauses : splitText " AND ".toList [] 0 "postId eq 7".toList = ["postId eq 7".toList] := by decide +kernel
  have hparts : splitThree (trimMatches blankText.isWhitespace "postId eq 7".toList) =
      some ("postId".toList, "eq".toList, "7".toList) := by decide +kernel
  have hop : Host.toLowercase (ofList "eq".toList) = "eq" := by decide +kernel
  have hvalue : parseQueryValue blankText "7".toList = .integer 7 := by decide +kernel
  have hclause : parseClause blankText "postId eq 7".toList = .ok (.eq "postId" (.integer 7)) := by
    rw [parseClause, hparts]
    dsimp only
    rw [hop, if_pos rfl, hvalue, ofList_toList]
  rw [parseFilterFromQueryStr, hclauses, mapM_cons, hclause]
  rfl

/-- A page that holds all three reaches all three. -/
theorem applyQueryOpSet_complete_three :
    parseFilterFromQueryStr blankText "postId eq 7" = .ok [.eq "postId" (.integer 7)] ∧
      ∀ (ops : List (Op String)) (st : UInt32 → Fanned), ∀ slot ∈ ({1, 2, 3} : Bitmap),
        slot ∈ (postImages 3).ex.aliveBitmap →
        (applyQueryOpSet (postImages 3) blankText imageMeta "postId eq 7" ops st).2 slot =
          fanOutTo imageMeta none 0 ops (st slot) := by
  have hmatching : ∀ x, x ∈ ({1, 2, 3} : Bitmap) ↔
      ∀ c ∈ [FilterClause.eq "postId" (.integer 7)], (postImages 3).ex.holds c x = true := by
    intro x
    have hholds : (postImages 3).ex.holds (.eq "postId" (.integer 7)) x = decide (x ∈ ({1, 2, 3} : Bitmap)) := rfl
    rw [forall_mem_singleton, hholds, decide_eq_true_iff]
  refine ⟨parse_postId, (applyQueryOpSet_complete_iff (postImages 3) blankText imageMeta "postId eq 7" _ {1, 2, 3}
    parse_postId hmatching).mpr fun slot _ _ => ⟨Finset.card_filter_le _ _, ?_⟩⟩
  exact (min_le_left _ _).trans (card_le_usizeMax _)

/-- With two slots to a page the third image is not made private. -/
theorem fan_out_misses_third_image :
    let result := applyQueryOpSet (postImages 2) blankText imageMeta "postId eq 7"
      [.set "availability" "Private"] publicSlots
    (postImages 2).ex.holds (.eq "postId" (.integer 7)) 1 = true ∧ 1 ∈ (postImages 2).ex.aliveBitmap ∧
      result.1.toOption = some 2 ∧
      (result.2 1).entity.bits (.filter "availability" 2) = false ∧
      (fanOutTo imageMeta none 0 [.set "availability" "Private"] (publicSlots 1)).entity.bits
        (.filter "availability" 2) = true := by
  decide +kernel

end Images

end Bitdex
