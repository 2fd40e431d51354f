import Mathlib.Data.List.Destutter
import Bitdex.Cache.Key
import Bitdex.Executor.ClauseOrder
import Bitdex.Write.Mutation

/-!
# `Executor.Prefilter` — precomputed conjunctions

A registered prefilter is a clause set with the bitmap of its conjunction (`prefilter.rs`). A query whose canonical
clauses include those of a prefilter is answered with the bitmap in their place.

Canonical clauses are flattened, sorted by their text and deduplicated, and a double negation is dropped. This keeps
the meaning at a slot where `Faithful` says so (`holds_canonical`): an empty `And` is true of no slot and disappears
when flattened, and a double negation is true of alive slots only. The accumulator loop tests its first clause and the
later ones differently, and a substitution changes which is first; `Agreed` says that no slot is told apart by that.
Refresh times and counters are left out.
-/

namespace Bitdex

open List FilterClause Value Bool

/-! ## Text and equality of clauses -/

namespace FilterClause

mutual

/-- The display form of a clause. -/
def text [Host] : FilterClause → String
  | .eq field value => field ++ " = " ++ valueToString value
  | .notEq field value => field ++ " != " ++ valueToString value
  | .isIn field values => field ++ " IN [" ++ ", ".intercalate (values.map valueToString) ++ "]"
  | .notIn field values => field ++ " NOT IN [" ++ ", ".intercalate (values.map valueToString) ++ "]"
  | .gt field value => field ++ " > " ++ valueToString value
  | .lt field value => field ++ " < " ++ valueToString value
  | .gte field value => field ++ " >= " ++ valueToString value
  | .lte field value => field ++ " <= " ++ valueToString value
  | .not inner => "NOT(" ++ text inner ++ ")"
  | .and clauses => "(" ++ " AND ".intercalate (texts clauses) ++ ")"
  | .or clauses => "(" ++ " OR ".intercalate (texts clauses) ++ ")"
  | .bucketBitmap field bucketName _ => field ++ " ~bucket(" ++ bucketName ++ ")"
  | .isNull field => field ++ " IS NULL"
  | .isNotNull field => field ++ " IS NOT NULL"

def texts [Host] : List FilterClause → List String
  | [] => []
  | c :: cs => text c :: texts cs

end

/-- Equality of value lists, element by element. -/
def sameValues : List Value → List Value → Bool
  | [], [] => true
  | v :: vs, w :: ws => valuesEqual v w && sameValues vs ws
  | _, _ => false

mutual

/-- The derived equality, under which floats are compared as numbers. -/
def same : FilterClause → FilterClause → Bool
  | .eq f v, .eq g w => f == g && valuesEqual v w
  | .notEq f v, .notEq g w => f == g && valuesEqual v w
  | .isIn f vs, .isIn g ws => f == g && sameValues vs ws
  | .notIn f vs, .notIn g ws => f == g && sameValues vs ws
  | .gt f v, .gt g w => f == g && valuesEqual v w
  | .lt f v, .lt g w => f == g && valuesEqual v w
  | .gte f v, .gte g w => f == g && valuesEqual v w
  | .lte f v, .lte g w => f == g && valuesEqual v w
  | .not c, .not d => same c d
  | .and cs, .and ds => sameAll cs ds
  | .or cs, .or ds => sameAll cs ds
  | .isNull f, .isNull g => f == g
  | .isNotNull f, .isNotNull g => f == g
  | .bucketBitmap f n b, .bucketBitmap g m b' => f == g && n == m && decide (b = b')
  | _, _ => false

def sameAll : List FilterClause → List FilterClause → Bool
  | [], [] => true
  | c :: cs, d :: ds => same c d && sameAll cs ds
  | _, _ => false

end

end FilterClause

/-! ## Canonical clauses -/

/-- Drop each element that equals the last one kept. -/
def dedupBy {α : Type} (same : α → α → Bool) (l : List α) : List α := l.destutter fun a b => same b a = false

/-- Values sorted, without repetitions. -/
def canonicalizeValues [Host] (values : List Value) : List Value :=
  dedupBy valuesEqual (values.insertionSort fun a b => valueToString a ≤ valueToString b)

/-- Clauses sorted, without repetitions. -/
def sortAndDedup [Host] (clauses : List FilterClause) : List FilterClause :=
  dedupBy same (clauses.insertionSort fun a b => a.text ≤ b.text)

mutual

/-- The canonical form of a clause. -/
def canonicalizeClause [Host] : FilterClause → FilterClause
  | .isIn field values => .isIn field (canonicalizeValues values)
  | .notIn field values => .notIn field (canonicalizeValues values)
  | .not (.not inner) => canonicalizeClause inner
  | .not inner => .not (canonicalizeClause inner)
  | .and children => .and (sortAndDedup (canonicalizeFlat children))
  | .or children => .or (canonicalizeEach children)
  | other => other

/-- `flatten_and_into` for every clause, and the canonical forms of what it yields. -/
def canonicalizeFlat [Host] : List FilterClause → List FilterClause
  | [] => []
  | c :: cs =>
    match c with
    | .and children => canonicalizeFlat children ++ canonicalizeFlat cs
    | other => canonicalizeClause other :: canonicalizeFlat cs

def canonicalizeEach [Host] : List FilterClause → List FilterClause
  | [] => []
  | c :: cs => canonicalizeClause c :: canonicalizeEach cs

end

/-- The canonical form of a conjunction. -/
def canonicalizeClauses [Host] (clauses : List FilterClause) : List FilterClause :=
  sortAndDedup (canonicalizeFlat clauses)

/-! ## The registry -/

/-- A clause set with its bitmap. -/
structure PrefilterEntry where
  name : String
  clauses : List FilterClause
  bitmap : Bitmap

/-- The prefilters by name. -/
structure PrefilterRegistry where
  entries : HashMap String PrefilterEntry
  maxEntries : Nat

/-- Why a registration fails. -/
inductive RegistryError where
  | registryFull (cap : Nat)
  | invalidClauses (reason : String)

namespace PrefilterRegistry

variable (registry : PrefilterRegistry)

/-- Register a prefilter in canonical form. -/
def insert [Host] (name : String) (clauses : List FilterClause) (bitmap : Bitmap) :
    Except RegistryError PrefilterRegistry :=
  if clauses.isEmpty then .error (.invalidClauses "clause list is empty")
  else
    let canonical := canonicalizeClauses clauses
    if canonical.isEmpty then .error (.invalidClauses "clauses reduced to empty after canonicalization")
    else if (registry.entries.lookup name).isNone && decide (registry.maxEntries ≤ registry.entries.entries.length) then
      .error (.registryFull registry.maxEntries)
    else .ok { registry with entries := registry.entries.insert name ⟨name, canonical, bitmap⟩ }

/-- The first position of the query that is not taken and has the clause. -/
def firstUnused (query : List FilterClause) (taken : List Nat) (clause : FilterClause) : Option Nat :=
  (query.zipIdx.find? fun p => decide (p.2 ∉ taken) && p.1.same clause).map Prod.snd

/-- The loop over the clauses of a prefilter, with the positions taken so far. -/
def matchLoop (query : List FilterClause) : List FilterClause → List Nat → Option (List Nat)
  | [], matched => some matched
  | clause :: rest, matched =>
    match firstUnused query matched clause with
    | some i => matchLoop query rest (matched ++ [i])
    | none => none

/-- The positions of the query at which the clauses of a prefilter stand, if it has them all. -/
def subsetMatch (prefilter query : List FilterClause) : Option (List Nat) :=
  if prefilter.isEmpty || decide (query.length < prefilter.length) then none
  else (matchLoop query prefilter []).map (·.insertionSort (· ≤ ·))

/-- One entry in the search for the longest match. -/
def better (query : List FilterClause) (best : Option (PrefilterEntry × List Nat))
    (entry : PrefilterEntry) : Option (PrefilterEntry × List Nat) :=
  match subsetMatch entry.clauses query, best with
  | none, best => best
  | some matched, none => some (entry, matched)
  | some matched, some (prev, prevMatched) =>
    if prevMatched.length < matched.length then some (entry, matched) else some (prev, prevMatched)

/-- The match with the most clauses. -/
def findSubstitution (query : List FilterClause) : Option (PrefilterEntry × List Nat) :=
  if query.isEmpty || registry.entries.entries.isEmpty then none
  else registry.entries.entries.foldl (fun best e => better query best e.2) none

/-- The clauses of a query outside some positions. -/
def remaining (query : List FilterClause) (matched : List Nat) : List FilterClause :=
  (query.zipIdx.filter fun p => decide (p.2 ∉ matched)).map Prod.fst

/-- The query with the clauses of a prefilter replaced by its bitmap, and that prefilter. -/
def substitute [Host] (query : List FilterClause) : List FilterClause × Option PrefilterEntry :=
  if registry.entries.entries.isEmpty then (query, none)
  else
    let canonical := canonicalizeClauses query
    match registry.findSubstitution canonical with
    | none => (query, none)
    | some (entry, matched) =>
      (.bucketBitmap "__prefilter" entry.name entry.bitmap :: remaining canonical matched, some entry)

end PrefilterRegistry

/-- The filter step of `execute`: the clauses in planned order. -/
def QueryExecutor.filterBitmap [Host] (ex : QueryExecutor) (clauses : List FilterClause) :
    Except BitdexError Bitmap :=
  ex.computeFilters (planQuery clauses ex.filters ex.slots (some ex.tables)).orderedClauses

/-! ## Matching -/

namespace PrefilterRegistry

variable {query pre : List FilterClause} {matched : List Nat} {clause : FilterClause}

theorem firstUnused_some {taken : List Nat} {i : Nat} (h : firstUnused query taken clause = some i) :
    ∃ q, query[i]? = some q ∧ q.same clause = true := by
  obtain ⟨p, hp, rfl⟩ := Option.map_eq_some_iff.mp h
  have htest := find?_some hp
  have hmem := mem_of_find?_eq_some hp
  rw [and_eq_true] at htest
  exact ⟨p.1, mem_zipIdx_iff_getElem?.mp hmem, htest.2⟩

/-- What the loop finds: a clause of the query for each clause of the prefilter, and only those positions. -/
theorem matchLoop_some {taken : List Nat} (h : matchLoop query pre taken = some matched) :
    (∀ clause ∈ pre, ∃ q ∈ query, q.same clause = true) ∧
      ∀ i ∈ matched, i ∈ taken ∨ ∃ clause ∈ pre, ∃ q, query[i]? = some q ∧ q.same clause = true := by
  induction pre generalizing taken with
  | nil =>
    obtain rfl := Option.some.inj h
    exact ⟨fun clause hc => absurd hc not_mem_nil, fun i hi => .inl hi⟩
  | cons clause rest ih =>
    rw [matchLoop] at h
    cases hfirst : firstUnused query taken clause with
    | none =>
      rw [hfirst] at h
      cases h
    | some i =>
      rw [hfirst] at h
      obtain ⟨q, hq, hsame⟩ := firstUnused_some hfirst
      obtain ⟨hall, hpos⟩ := ih h
      refine ⟨forall_mem_cons.mpr ⟨⟨q, mem_of_getElem? hq, hsame⟩, hall⟩, ?_⟩
      intro j hj
      rcases hpos j hj with htaken | ⟨d, hd, hrest⟩
      · rcases mem_append.mp htaken with htaken | hi
        · exact .inl htaken
        · rw [mem_singleton.mp hi]
          exact .inr ⟨clause, mem_cons_self, q, hq, hsame⟩
      · exact .inr ⟨d, mem_cons_of_mem clause hd, hrest⟩

/-- **A match.** Every clause of the prefilter is one of the query, and those taken away are of the prefilter. -/
structure Matches (pre query rest : List FilterClause) : Prop where
  nonempty : pre ≠ []
  found : ∀ clause ∈ pre, ∃ q ∈ query, q.same clause = true
  subset : ∀ q ∈ rest, q ∈ query
  covered : ∀ q ∈ query, q ∈ rest ∨ ∃ clause ∈ pre, q.same clause = true

theorem matches_of_subsetMatch (h : subsetMatch pre query = some matched) :
    Matches pre query (remaining query matched) := by
  rw [subsetMatch] at h
  split at h
  · cases h
  · next hguard =>
    obtain ⟨found, hloop, rfl⟩ := Option.map_eq_some_iff.mp h
    obtain ⟨hall, hpos⟩ := matchLoop_some hloop
    refine ⟨?_, hall, ?_, ?_⟩
    · rintro rfl
      exact hguard rfl
    · intro q hq
      obtain ⟨p, hp, rfl⟩ := mem_map.mp hq
      exact mem_of_getElem? (mem_zipIdx_iff_getElem?.mp (mem_filter.mp hp).1)
    · intro q hq
      obtain ⟨i, hi⟩ := mem_iff_getElem?.mp hq
      by_cases hmem : i ∈ found.insertionSort (· ≤ ·)
      · rcases hpos i ((mem_insertionSort (· ≤ ·)).mp hmem) with hnil | ⟨clause, hclause, q', hq', hsame⟩
        · exact absurd hnil not_mem_nil
        · rw [hi] at hq'
          obtain rfl := Option.some.inj hq'
          exact .inr ⟨clause, hclause, hsame⟩
      · refine .inl (mem_map.mpr ⟨(q, i), mem_filter.mpr ⟨?_, by simpa using hmem⟩, rfl⟩)
        exact mem_zipIdx_iff_getElem?.mpr hi

/-- The prefilter that is found is a registered one, and it matches. -/
theorem findSubstitution_some {registry : PrefilterRegistry} {entry : PrefilterEntry}
    (h : registry.findSubstitution query = some (entry, matched)) :
    (∃ e ∈ registry.entries.entries, e.2 = entry) ∧ subsetMatch entry.clauses query = some matched := by
  rw [findSubstitution] at h
  split at h
  · cases h
  · -- the best entry so far is one of those that were looked at
    have key : ∀ (es : List (Sigma fun _ : String => PrefilterEntry)) (best : Option (PrefilterEntry × List Nat)),
        es.foldl (fun best e => better query best e.2) best = some (entry, matched) → best = some (entry, matched) ∨
            (∃ e ∈ es, e.2 = entry) ∧ subsetMatch entry.clauses query = some matched := by
      intro es
      induction es with
      | nil => exact fun best hbest => .inl hbest
      | cons e es ih =>
        intro best hbest
        rcases ih _ hbest with hstep | ⟨⟨e', he', hentry⟩, hmatch⟩
        · change better query best e.2 = _ at hstep
          unfold better at hstep
          cases hsub : subsetMatch e.2.clauses query with
          | none =>
            rw [hsub] at hstep
            exact .inl hstep
          | some found =>
            rw [hsub] at hstep
            have hthis : some (e.2, found) = some (entry, matched) →
                (∃ e' ∈ e :: es, e'.2 = entry) ∧ subsetMatch entry.clauses query = some matched := by
              intro heq
              obtain ⟨hentry, hfound⟩ := Prod.mk.inj (Option.some.inj heq)
              exact ⟨⟨e, mem_cons_self, hentry⟩, by rw [← hentry, hsub, hfound]⟩
            cases best with
            | none => exact .inr (hthis hstep)
            | some prev =>
              dsimp only at hstep
              split at hstep
              · exact .inr (hthis hstep)
              · exact .inl hstep
        · exact .inr ⟨⟨e', mem_cons_of_mem e he', hentry⟩, hmatch⟩
    exact (key registry.entries.entries none h).resolve_left (fun hnone => by cases hnone)

end PrefilterRegistry

/-! ## Equal clauses hold of the same slots

A float has no key, so a test sees at most that a value is one. Equal clauses differ at most in their floats. -/

/-- Forget which float it is. -/
def Value.eraseFloat : Value → Value
  | .float _ => .float 0
  | value => value

namespace FilterClause

mutual

/-- A clause without its floats. -/
def eraseFloats : FilterClause → FilterClause
  | .eq field value => .eq field value.eraseFloat
  | .notEq field value => .notEq field value.eraseFloat
  | .isIn field values => .isIn field (values.map eraseFloat)
  | .notIn field values => .notIn field (values.map eraseFloat)
  | .gt field value => .gt field value.eraseFloat
  | .lt field value => .lt field value.eraseFloat
  | .gte field value => .gte field value.eraseFloat
  | .lte field value => .lte field value.eraseFloat
  | .not inner => .not (eraseFloats inner)
  | .and clauses => .and (eraseFloatsAll clauses)
  | .or clauses => .or (eraseFloatsAll clauses)
  | other => other

def eraseFloatsAll : List FilterClause → List FilterClause
  | [] => []
  | c :: cs => eraseFloats c :: eraseFloatsAll cs

end

theorem eraseFloatsAll_eq_map (cs : List FilterClause) : eraseFloatsAll cs = cs.map eraseFloats := by
  induction cs with
  | nil => rfl
  | cons c cs ih => rw [eraseFloatsAll, ih, map_cons]

theorem eraseFloat_of_valuesEqual {v w : Value} (h : valuesEqual v w = true) : v.eraseFloat = w.eraseFloat := by
  fun_cases valuesEqual v w with
  | case1 a b => exact congrArg integer (beq_iff_eq.mp h)
  | case2 a b => exact congrArg bool (beq_iff_eq.mp h)
  | case3 a b => rfl
  | case4 a b => exact congrArg string (beq_iff_eq.mp h)
  | case5 => simp_all only [valuesEqual, false_eq_true]

theorem eraseFloat_of_sameValues {vs ws : List Value} (h : sameValues vs ws = true) :
    vs.map eraseFloat = ws.map eraseFloat := by
  fun_induction sameValues vs ws with
  | case1 => rfl
  | case2 v vs w ws ih =>
    rw [and_eq_true] at h
    rw [map_cons, map_cons, eraseFloat_of_valuesEqual h.1, ih h.2]
  | case3 => cases h

theorem eraseFloats_of_same : (∀ c d : FilterClause, c.same d = true → c.eraseFloats = d.eraseFloats) ∧
      ∀ cs ds, sameAll cs ds = true → eraseFloatsAll cs = eraseFloatsAll ds := by
  refine same.mutual_induct _ _
    ?eq ?notEq ?isIn ?notIn ?gt ?lt ?gte ?lte ?not ?and ?or ?isNull ?isNotNull ?bucketBitmap ?other ?nil ?cons ?lengths
  case eq | notEq | gt | lt | gte | lte =>
    intro f v g w h
    obtain ⟨hf, hv⟩ := and_eq_true_iff.mp h
    rw [eraseFloats, eraseFloats, beq_iff_eq.mp hf, eraseFloat_of_valuesEqual hv]
  case isIn | notIn =>
    intro f vs g ws h
    obtain ⟨hf, hvs⟩ := and_eq_true_iff.mp h
    rw [eraseFloats, eraseFloats, beq_iff_eq.mp hf, eraseFloat_of_sameValues hvs]
  case not | and | or =>
    intro c d ih h
    rw [eraseFloats, eraseFloats, ih h]
  case isNull | isNotNull =>
    intro f g h
    rw [beq_iff_eq.mp h]
  case bucketBitmap =>
    intro f n b g m b' h
    simp only [same, and_eq_true, beq_iff_eq, decide_eq_true_eq] at h
    rw [h.1.1, h.1.2, h.2]
  case nil => exact fun _ => rfl
  case cons =>
    intro c cs d ds ihc ihcs h
    obtain ⟨hc, hcs⟩ := and_eq_true_iff.mp h
    rw [eraseFloatsAll, eraseFloatsAll, ihc hc, ihcs hcs]
  case other | lengths =>
    -- clauses of different kinds and lists of different lengths are not equal
    intros
    simp_all only [same, sameAll, false_eq_true]

end FilterClause

namespace QueryExecutor

variable [Host] {ex : QueryExecutor} {v w : Value} {c d : FilterClause} {cs : List FilterClause} {x : UInt32}

section EraseFloats

open FilterClause

variable {field : String} {predicate : UInt64 → UInt64 → Bool}

@[simp] theorem storedHolds_eraseFloat {ff : FilterField} :
    ex.storedHolds ff field v.eraseFloat x = ex.storedHolds ff field v x := by
  cases v <;> rfl

@[simp] theorem eqHolds_eraseFloat : ex.eqHolds field v.eraseFloat x = ex.eqHolds field v x := by
  cases v <;> rfl

@[simp] theorem storedBitmap_eraseFloat : ex.storedBitmap field v.eraseFloat = ex.storedBitmap field v := by
  cases v <;> rfl

@[simp] theorem afterHolds_eraseFloat :
    ex.afterHolds field v.eraseFloat predicate x = ex.afterHolds field v predicate x := by
  cases v <;> rfl

@[simp] theorem beforeHolds_eraseFloat :
    ex.beforeHolds field v.eraseFloat predicate x = ex.beforeHolds field v predicate x := by
  cases v <;> rfl

theorem holds_eraseFloats : ex.holds c.eraseFloats x = ex.holds c x := by
  induction c using tree_induction with
  | and cs ih =>
    rw [eraseFloats, eraseFloatsAll_eq_map, Bool.eq_iff_iff, holds_and_iff, holds_and_iff, forall_mem_map]
    exact and_congr (not_congr map_eq_nil_iff) (forall₂_congr fun c hc => by rw [ih c hc])
  | or cs ih =>
    rw [eraseFloats, eraseFloatsAll_eq_map, Bool.eq_iff_iff, holds_or_iff, holds_or_iff]
    simp only [mem_map, exists_exists_and_eq_and]
    exact exists_congr fun c => and_congr_right fun hc => by rw [ih c hc]
  | not c ih => rw [eraseFloats, holds, holds, ih]
  | _ => simp [eraseFloats, holds, Function.comp_def]

theorem candidateHolds_eraseFloats : ex.candidateHolds c.eraseFloats x = ex.candidateHolds c x := by
  induction c using tree_induction with
  | and cs ih =>
    rw [eraseFloats, eraseFloatsAll_eq_map, Bool.eq_iff_iff, candidateHolds, candidateHolds, candidateHoldsAll_iff,
      candidateHoldsAll_iff, forall_mem_map]
    exact forall₂_congr fun c hc => by rw [ih c hc]
  | or cs ih =>
    rw [eraseFloats, eraseFloatsAll_eq_map, Bool.eq_iff_iff, candidateHolds, candidateHolds, candidateHoldsAny_iff,
      candidateHoldsAny_iff]
    simp only [mem_map, exists_exists_and_eq_and]
    exact exists_congr fun c => and_congr_right fun hc => by rw [ih c hc]
  | not c ih => exact holds_eraseFloats
  | _ => simp [eraseFloats, candidateHolds, holds, Function.comp_def]

theorem byRefHolds_eraseFloats : ex.byRefHolds c.eraseFloats x = ex.byRefHolds c x := by
  cases c with
  | not c => exact congrArg Bool.not candidateHolds_eraseFloats
  | and cs | or cs => exact holds_eraseFloats
  | _ => simp [eraseFloats, byRefHolds, holds, Function.comp_def]

theorem eqHolds_of_valuesEqual (h : valuesEqual v w = true) (field : String) (x : UInt32) :
    ex.eqHolds field v x = ex.eqHolds field w x := by
  rw [← eqHolds_eraseFloat, eraseFloat_of_valuesEqual h, eqHolds_eraseFloat]

/-- **Equal clauses** hold of the same slots. -/
theorem holds_of_same (h : c.same d = true) : ex.holds c x = ex.holds d x := by
  rw [← holds_eraseFloats, eraseFloats_of_same.1 c d h, holds_eraseFloats]

theorem byRefHolds_of_same (h : c.same d = true) : ex.byRefHolds c x = ex.byRefHolds d x := by
  rw [← byRefHolds_eraseFloats, eraseFloats_of_same.1 c d h, byRefHolds_eraseFloats]

end EraseFloats

/-! ## Sorting and removing duplicates -/

omit [Host] in
/-- What is dropped equals something that is kept. -/
theorem exists_of_mem_dedupBy {α : Type} {same : α → α → Bool} {l : List α} {a : α} (ha : a ∈ l) :
    ∃ b ∈ dedupBy same l, a = b ∨ same a b = true := by
  have key : ∀ (l : List α) (last : α), a ∈ last :: l →
      ∃ b ∈ destutter' (fun a b => same b a = false) last l, a = b ∨ same a b = true := by
    intro l
    induction l with
    | nil =>
      intro last ha
      exact ⟨last, mem_singleton_self last, .inl (mem_singleton.mp ha)⟩
    | cons b l ih =>
      intro last ha
      rw [destutter'_cons]
      split
      · rcases mem_cons.mp ha with rfl | ha
        · exact ⟨a, mem_cons_self, .inl rfl⟩
        · obtain ⟨e, he, hsame⟩ := ih b ha
          exact ⟨e, mem_cons_of_mem last he, hsame⟩
      · next hdrop =>
        rcases mem_cons.mp ha with rfl | ha
        · exact ih a mem_cons_self
        · rcases mem_cons.mp ha with rfl | ha
          · exact ⟨last, mem_destutter' l _ last, .inr (by simpa using hdrop)⟩
          · exact ih last (mem_cons_of_mem last ha)
  cases l with
  | nil => cases ha
  | cons b l => exact key l b ha

theorem exists_of_mem_sortAndDedup (hc : c ∈ cs) : ∃ d ∈ sortAndDedup cs, c = d ∨ c.same d = true := by
  have hsorted : c ∈ cs.insertionSort fun a b => a.text ≤ b.text := (mem_insertionSort _).mpr hc
  exact exists_of_mem_dedupBy hsorted

theorem mem_of_mem_sortAndDedup (hc : c ∈ sortAndDedup cs) : c ∈ cs :=
  (mem_insertionSort _).mp ((destutter_sublist _ _).subset hc)

/-- A test that does not tell equal clauses apart is passed by all clauses before and after. -/
theorem forall_mem_sortAndDedup {p : FilterClause → Prop} (hp : ∀ c d, c.same d = true → p d → p c)
    (cs : List FilterClause) : (∀ c ∈ sortAndDedup cs, p c) ↔ ∀ c ∈ cs, p c := by
  constructor
  · intro hall c hc
    obtain ⟨d, hd, hsame⟩ := exists_of_mem_sortAndDedup hc
    rcases hsame with rfl | hsame
    · exact hall c hd
    · exact hp c d hsame (hall d hd)
  · intro hall c hc
    exact hall c (mem_of_mem_sortAndDedup hc)

theorem isEmpty_sortAndDedup (cs : List FilterClause) : (sortAndDedup cs).isEmpty = cs.isEmpty := by
  cases cs with
  | nil => rfl
  | cons c cs =>
    obtain ⟨d, hd, -⟩ := exists_of_mem_sortAndDedup (mem_cons_self : c ∈ c :: cs)
    exact isEmpty_eq_false_iff.mpr (ne_nil_of_mem hd)

theorem any_canonicalizeValues {p : Value → Bool} (hp : ∀ v w, valuesEqual v w = true → p v = p w)
    (values : List Value) : (canonicalizeValues values).any p = values.any p := by
  rw [Bool.eq_iff_iff, any_eq_true, any_eq_true]
  constructor
  · rintro ⟨v, hv, hpv⟩
    exact ⟨v, (mem_insertionSort _).mp ((destutter_sublist _ _).subset hv), hpv⟩
  · rintro ⟨v, hv, hpv⟩
    have hsorted : v ∈ values.insertionSort fun a b => valueToString a ≤ valueToString b :=
      (mem_insertionSort _).mpr hv
    obtain ⟨w, hw, hsame⟩ := exists_of_mem_dedupBy hsorted
    refine ⟨w, hw, ?_⟩
    rcases hsame with rfl | hsame
    · exact hpv
    · rw [← hp v w hsame, hpv]

theorem holdsAll_sortAndDedup (cs : List FilterClause) (x : UInt32) :
    ex.holdsAll (sortAndDedup cs) x = ex.holdsAll cs x := by
  rw [holdsAll_eq, holdsAll_eq, Bool.eq_iff_iff, all_eq_true, all_eq_true]
  exact forall_mem_sortAndDedup (fun c d hsame hd => (holds_of_same hsame).trans hd) cs

/-! ## What canonical clauses mean -/

section Faithful

variable (ex)

mutual

/-- **The condition for a canonical form.** The clause in a dropped double negation holds of alive slots only. -/
def Faithful : FilterClause → Prop
  | .not (.not inner) => Faithful inner ∧ ∀ x, ex.holds inner x = true → x ∈ ex.aliveBitmap
  | .not inner => Faithful inner
  | .and children => FaithfulFlat children
  | .or children => FaithfulEach children
  | _ => True

/-- A conjunction inside a conjunction is not empty: an empty one holds of no slot. -/
def FaithfulFlat : List FilterClause → Prop
  | [] => True
  | c :: cs =>
    match c with
    | .and children => children ≠ [] ∧ FaithfulFlat children ∧ FaithfulFlat cs
    | other => Faithful other ∧ FaithfulFlat cs

def FaithfulEach : List FilterClause → Prop
  | [] => True
  | c :: cs => Faithful c ∧ FaithfulEach cs

end

end Faithful

theorem canonicalizeClause_not {inner : FilterClause} (h : ∀ d, inner = .not d → False) :
    canonicalizeClause (.not inner) = .not (canonicalizeClause inner) := by
  cases inner with
  | not d => exact (h d rfl).elim
  | _ => rfl

theorem canonicalizeClause_other (hin : ∀ f vs, c = .isIn f vs → False) (hnotIn : ∀ f vs, c = .notIn f vs → False)
    (hnot : ∀ d, c = .not d → False) (hand : ∀ cs, c = .and cs → False) (hor : ∀ cs, c = .or cs → False) :
    canonicalizeClause c = c := by
  cases c with
  | isIn f vs => exact (hin f vs rfl).elim
  | notIn f vs => exact (hnotIn f vs rfl).elim
  | not d => exact (hnot d rfl).elim
  | and cs => exact (hand cs rfl).elim
  | or cs => exact (hor cs rfl).elim
  | _ => rfl

theorem canonicalizeFlat_cons (h : ∀ children, c = .and children → False) :
    canonicalizeFlat (c :: cs) = canonicalizeClause c :: canonicalizeFlat cs := by
  cases c with
  | and children => exact (h children rfl).elim
  | _ => rfl

/-- **Canonical forms keep the meaning**: of a clause, of a disjunction's members, and of a conjunction's members,
which stays empty or not. -/
theorem holds_canonical : (∀ c, ex.Faithful c → ∀ x, ex.holds (canonicalizeClause c) x = ex.holds c x) ∧
      (∀ cs, ex.FaithfulEach cs → ∀ x, ex.holdsAny (canonicalizeEach cs) x = ex.holdsAny cs x) ∧
      ∀ cs, ex.FaithfulFlat cs → (canonicalizeFlat cs).isEmpty = cs.isEmpty ∧
        ∀ x, ex.holdsAll (canonicalizeFlat cs) x = ex.holdsAll cs x := by
  refine canonicalizeClause.mutual_induct _ _ _
    ?isIn ?notIn ?notNot ?not ?and ?or ?other ?eachNil ?eachCons ?flatNil ?flatAnd ?flatOther
  case isIn =>
    intro field values _ x
    exact any_canonicalizeValues (fun v w h => eqHolds_of_valuesEqual h field x) values
  case notIn =>
    intro field values _ x
    have hany : (canonicalizeValues values).any (ex.eqHolds field · x) = values.any (ex.eqHolds field · x) :=
      any_canonicalizeValues (fun v w h => eqHolds_of_valuesEqual h field x) values
    rw [canonicalizeClause, holds, hany, holds]
  case notNot =>
    intro inner ih hfaithful x
    obtain ⟨hinner, halive⟩ := hfaithful
    rw [canonicalizeClause, ih hinner x, holds, holds]
    cases hholds : ex.holds inner x with
    | true => simp [halive x hholds]
    | false => simp
  case not =>
    intro inner hnot ih hfaithful x
    rw [canonicalizeClause_not hnot, holds, holds]
    have hinner : ex.Faithful inner := by
      cases inner with
      | not d => exact (hnot d rfl).elim
      | _ => exact hfaithful
    rw [ih hinner x]
  case and =>
    intro children ih hfaithful x
    obtain ⟨hempty, hall⟩ := ih hfaithful
    rw [canonicalizeClause, holds, holds, holdsAll_sortAndDedup, hall, isEmpty_sortAndDedup, hempty]
  case or =>
    intro children ih hfaithful x
    exact ih hfaithful x
  case other =>
    intro other hin hnotIn _ hnot hand hor _ x
    rw [canonicalizeClause_other hin hnotIn hnot hand hor]
  case eachNil => exact fun _ x => rfl
  case eachCons =>
    intro c cs ih ihs hfaithful x
    rw [canonicalizeEach, holdsAny, holdsAny, ih hfaithful.1 x, ihs hfaithful.2 x]
  case flatNil => exact fun _ => ⟨rfl, fun x => rfl⟩
  case flatAnd =>
    intro cs children ih ihs hfaithful
    obtain ⟨hne, hchildren, hrest⟩ := hfaithful
    obtain ⟨hempty, hall⟩ := ih hchildren
    obtain ⟨-, halls⟩ := ihs hrest
    rw [isEmpty_eq_false_iff.mpr hne] at hempty
    refine ⟨?_, fun x => ?_⟩
    · exact isEmpty_eq_false_iff.mpr
        (append_ne_nil_of_left_ne_nil (isEmpty_eq_false_iff.mp hempty) (canonicalizeFlat cs))
    · rw [canonicalizeFlat, holdsAll_eq, all_append, ← holdsAll_eq, ← holdsAll_eq, hall, halls, holdsAll, holds,
        isEmpty_eq_false_iff.mpr hne]
      rfl
  case flatOther =>
    intro cs other hand ih ihs hfaithful
    obtain ⟨hother, hrest⟩ : ex.Faithful other ∧ ex.FaithfulFlat cs := by
      cases other with
      | and children => exact (hand children rfl).elim
      | _ => exact hfaithful
    rw [canonicalizeFlat_cons hand]
    refine ⟨rfl, fun x => ?_⟩
    rw [holdsAll, holdsAll, ih hother x, (ihs hrest).2 x]

/-! ## Canonical clauses evaluate -/

theorem evaluable_not_iff : ex.Evaluable (.not c) ↔ ex.Evaluable c := by
  constructor
  · rintro ⟨b, hb⟩
    obtain ⟨inner, hinner, -⟩ := bind_eq_ok_iff.mp hb
    exact ⟨inner, hinner⟩
  · rintro ⟨inner, hinner⟩
    exact ⟨ex.aliveBitmap \ inner, bind_eq_ok_iff.mpr ⟨inner, hinner, rfl⟩⟩

omit [Host] in
theorem andLoop_ok {rs : List (Except BitdexError Bitmap)} (h : ∀ r ∈ rs, ∃ b, r = .ok b) (acc : Option Bitmap) :
    ∃ b, andLoop acc rs = .ok b := by
  induction rs generalizing acc with
  | nil => exact ⟨_, rfl⟩
  | cons r rs ih =>
    obtain ⟨b, rfl⟩ := h r mem_cons_self
    exact ih (fun r hr => h r (mem_cons_of_mem _ hr)) _

theorem evaluable_and (h : ∀ c ∈ cs, ex.Evaluable c) : ex.Evaluable (.and cs) := by
  have hperm := optimizeAndClause_perm cs ex.filters ex.slots.aliveCount
  have hall : ∀ r ∈ (optimizeAndClause cs ex.filters ex.slots.aliveCount).map ex.evaluateClause, ∃ b, r = .ok b := by
    intro r hr
    obtain ⟨c, hc, rfl⟩ := mem_map.mp hr
    exact h c (hperm.mem_iff.mp hc)
  obtain ⟨b, hb⟩ := andLoop_ok hall none
  exact ⟨b, (evaluateClause_and ex cs).trans hb⟩

theorem evaluable_or (h : ∀ c ∈ cs, ex.Evaluable c) : ex.Evaluable (.or cs) := by
  have key : ∀ result, ∃ b, ex.evaluateOr cs result = .ok b := by
    induction cs with
    | nil => exact fun result => ⟨result, rfl⟩
    | cons c cs ih =>
      intro result
      have hrest := ih fun c hc => h c (mem_cons_of_mem _ hc)
      obtain ⟨b, hb⟩ := h c mem_cons_self
      have hstep : ∃ b', (do let bitmap ← ex.evaluateClause c; ex.evaluateOr cs (result ∪ bitmap)) = .ok b' := by
        obtain ⟨b', hb'⟩ := hrest (result ∪ b)
        exact ⟨b', bind_eq_ok_iff.mpr ⟨b, hb, hb'⟩⟩
      cases c with
      | eq field v | isIn field v =>
        rw [evaluateOr]
        split
        · split
          · exact hrest _
          · exact hstep
        · exact hstep
      | _ => exact hstep
  exact key ∅

/-- Whether a value list evaluates depends on its field alone. -/
theorem evaluateIn_ok {field : String} {values values' : List Value} (h : ∃ b, ex.evaluateIn field values = .ok b) :
    ∃ b, ex.evaluateIn field values' = .ok b := by
  obtain ⟨b, hb⟩ := h
  rw [evaluateIn] at hb ⊢
  split
  · exact ⟨_, rfl⟩
  · next hid =>
    rw [if_neg hid] at hb
    cases hfield : ex.filters.getField field with
    | none =>
      rw [hfield] at hb
      cases hb
    | some ff => exact ⟨_, rfl⟩

/-- **Canonical forms of clauses that evaluate** evaluate. -/
theorem evaluable_canonical : (∀ c, ex.Evaluable c → ex.Evaluable (canonicalizeClause c)) ∧
      (∀ cs, (∀ c ∈ cs, ex.Evaluable c) → ∀ q ∈ canonicalizeEach cs, ex.Evaluable q) ∧
      ∀ cs, (∀ c ∈ cs, ex.Evaluable c) → ∀ q ∈ canonicalizeFlat cs, ex.Evaluable q := by
  refine canonicalizeClause.mutual_induct _ _ _
    ?isIn ?notIn ?notNot ?not ?and ?or ?other ?eachNil ?eachCons ?flatNil ?flatAnd ?flatOther
  case isIn => exact fun field values h => evaluateIn_ok h
  case notIn =>
    rintro field values ⟨b, hb⟩
    obtain ⟨full, hfull, -⟩ := bind_eq_ok_iff.mp hb
    obtain ⟨full', hfull'⟩ : ∃ b, ex.evaluateIn field (canonicalizeValues values) = .ok b := evaluateIn_ok ⟨full, hfull⟩
    exact ⟨_, bind_eq_ok_iff.mpr ⟨full', hfull', rfl⟩⟩
  case notNot =>
    intro inner ih h
    exact ih (evaluable_not_iff.mp (evaluable_not_iff.mp h))
  case not =>
    intro inner hnot ih h
    rw [canonicalizeClause_not hnot]
    exact evaluable_not_iff.mpr (ih (evaluable_not_iff.mp h))
  case and =>
    intro children ih h
    refine evaluable_and fun q hq => ?_
    exact ih (ex.evaluable_of_and h) q (mem_of_mem_sortAndDedup hq)
  case or =>
    intro children ih h
    exact evaluable_or (ih (ex.evaluable_of_or h))
  case other =>
    intro other hin hnotIn _ hnot hand hor h
    rwa [canonicalizeClause_other hin hnotIn hnot hand hor]
  case eachNil => exact fun _ q hq => absurd hq not_mem_nil
  case eachCons =>
    intro c cs ih ihs h
    obtain ⟨hc, hcs⟩ := forall_mem_cons.mp h
    exact forall_mem_cons.mpr ⟨ih hc, ihs hcs⟩
  case flatNil => exact fun _ q hq => absurd hq not_mem_nil
  case flatAnd =>
    intro cs children ih ihs h q hq
    obtain ⟨hc, hcs⟩ := forall_mem_cons.mp h
    rcases mem_append.mp hq with hq | hq
    · exact ih (ex.evaluable_of_and hc) q hq
    · exact ihs hcs q hq
  case flatOther =>
    intro cs other hand ih ihs h
    obtain ⟨hc, hcs⟩ := forall_mem_cons.mp h
    rw [canonicalizeFlat_cons hand]
    exact forall_mem_cons.mpr ⟨ih hc, ihs hcs⟩

section Transparency

variable (ex)

/-- **No slot is told apart** by whether a clause is tested first or later: a slot that passes every clause in one way
passes it in both. -/
def Agreed (clauses : List FilterClause) : Prop :=
  ∀ x, (∀ c ∈ clauses, ex.holds c x = true ∨ ex.byRefHolds c x = true) →
    ∀ c ∈ clauses, ex.holds c x = true ∧ ex.byRefHolds c x = true

/-- **The condition on a query.** -/
structure Plain (clauses : List FilterClause) : Prop where
  evaluable : ∀ c ∈ clauses, ex.Evaluable c
  faithful : ex.FaithfulFlat clauses
  agreed : ex.Agreed clauses
  agreedCanonical : ex.Agreed (canonicalizeClauses clauses)

end Transparency

variable {clauses l : List FilterClause}

/-- A slot of the result passes every clause in one of the two ways. -/
theorem weak_of_mem_computeFilters {b : Bitmap} (h : ex.computeFilters l = .ok b) (hx : x ∈ b) :
    ∀ c ∈ l, ex.holds c x = true ∨ ex.byRefHolds c x = true := by
  cases l with
  | nil => exact fun c hc => absurd hc not_mem_nil
  | cons c rest =>
    obtain ⟨hfirst, hrest⟩ := (ex.mem_computeFilters h).mp hx
    exact forall_mem_cons.mpr ⟨.inl hfirst, fun d hd => .inr (hrest d hd)⟩

theorem mem_computeFilters_of_strong {b : Bitmap} (h : ex.computeFilters l = .ok b) (hne : l ≠ [])
    (hall : ∀ c ∈ l, ex.holds c x = true ∧ ex.byRefHolds c x = true) : x ∈ b := by
  cases l with
  | nil => exact absurd rfl hne
  | cons c rest =>
    obtain ⟨hfirst, hrest⟩ := forall_mem_cons.mp hall
    exact (ex.mem_computeFilters h).mpr ⟨hfirst.1, fun d hd => (hrest d hd).2⟩

/-- **Clauses that tell no slot apart** give their conjunction. -/
theorem filterBitmap_of_agreed (hne : clauses ≠ []) (hok : ∀ c ∈ clauses, ex.Evaluable c)
    (hagreed : ex.Agreed clauses) :
    ∃ b, ex.filterBitmap clauses = .ok b ∧ ∀ x, x ∈ b ↔ ∀ c ∈ clauses, ex.holds c x = true := by
  have hperm := planQuery_perm clauses ex.filters ex.slots (some ex.tables)
  rw [filterBitmap]
  generalize (planQuery clauses ex.filters ex.slots (some ex.tables)).orderedClauses = ordered at hperm ⊢
  have hmem : ∀ c, c ∈ ordered ↔ c ∈ clauses := fun c => hperm.mem_iff
  obtain ⟨b, hb⟩ := ex.computeFilters_ok fun c hc => hok c ((hmem c).mp hc)
  refine ⟨b, hb, fun x => ⟨fun hx c hc => ?_, fun hall => ?_⟩⟩
  · have hweak := weak_of_mem_computeFilters hb hx
    exact (hagreed x (fun d hd => hweak d ((hmem d).mpr hd)) c hc).1
  · have hordered : ordered ≠ [] := by
      rintro rfl
      exact hne hperm.symm.eq_nil
    refine mem_computeFilters_of_strong hb hordered fun c hc => ?_
    exact hagreed x (fun d hd => .inl (hall d hd)) c ((hmem c).mp hc)

/-- **A matching prefilter in the place of its clauses.** The remaining clauses with the bitmap tell no slot apart and
hold where the query's do. -/
theorem agreed_of_matches {query pre rest l : List FilterClause} (field name : String) {bitmap : Bitmap}
    (hmatches : PrefilterRegistry.Matches pre query rest) (hagreed : ex.Agreed query) (hperm : l.Perm pre)
    (hbitmap : ex.computeFilters l = .ok bitmap) : ex.Agreed (.bucketBitmap field name bitmap :: rest) ∧
      ∀ x, (∀ c ∈ bucketBitmap field name bitmap :: rest, ex.holds c x = true) ↔
        ∀ q ∈ query, ex.holds q x = true := by
  -- a slot that passes in some way after the substitution passes every clause of the query in both ways
  have hstrong : ∀ x, x ∈ bitmap → (∀ c ∈ rest, ex.holds c x = true ∨ ex.byRefHolds c x = true) →
      ∀ q ∈ query, ex.holds q x = true ∧ ex.byRefHolds q x = true := by
    intro x hx hrest
    refine hagreed x fun q hq => ?_
    rcases hmatches.covered q hq with hq | ⟨clause, hclause, hsame⟩
    · exact hrest q hq
    · rw [holds_of_same hsame, byRefHolds_of_same hsame]
      exact weak_of_mem_computeFilters hbitmap hx clause (hperm.mem_iff.mpr hclause)
  have hbucket : ∀ x, ex.holds (.bucketBitmap field name bitmap) x = true ↔ x ∈ bitmap := by
    intro x
    rw [holds, decide_eq_true_iff]
  refine ⟨fun x hweak => ?_, fun x => ⟨fun hall => ?_, fun hall => ?_⟩⟩
  · obtain ⟨hfirst, hrest⟩ := forall_mem_cons.mp hweak
    have hx : x ∈ bitmap := hfirst.elim (hbucket x).mp (hbucket x).mp
    refine forall_mem_cons.mpr ⟨⟨(hbucket x).mpr hx, (hbucket x).mpr hx⟩, fun c hc => ?_⟩
    exact hstrong x hx hrest c (hmatches.subset c hc)
  · obtain ⟨hfirst, hrest⟩ := forall_mem_cons.mp hall
    intro q hq
    exact (hstrong x ((hbucket x).mp hfirst) (fun c hc => .inl (hrest c hc)) q hq).1
  · have hboth := hagreed x fun q hq => .inl (hall q hq)
    refine forall_mem_cons.mpr ⟨(hbucket x).mpr ?_, fun c hc => hall c (hmatches.subset c hc)⟩
    have hne : l ≠ [] := by
      rintro rfl
      exact hmatches.nonempty hperm.nil_eq.symm
    refine mem_computeFilters_of_strong hbitmap hne fun c hc => ?_
    obtain ⟨q, hq, hsame⟩ := hmatches.found c (hperm.mem_iff.mp hc)
    rw [← holds_of_same hsame, ← byRefHolds_of_same hsame]
    exact hboth q hq

/-- Clauses that are not negated are tested alike in every place. -/
theorem agreed_of_byRefHolds_eq (h : ∀ c ∈ l, ∀ x, ex.byRefHolds c x = ex.holds c x) : ex.Agreed l := by
  intro x hweak c hc
  have hholds : ex.holds c x = true := (hweak c hc).elim id fun hby => (h c hc x).symm.trans hby
  exact ⟨hholds, (h c hc x).trans hholds⟩

end QueryExecutor

/-! ### One prefilter over two slots -/

namespace QueryExecutor

attribute [local instance] Host.ascii

/-- A registry with one prefilter. -/
def registryOf (clauses : List FilterClause) (bitmap : Bitmap) : PrefilterRegistry :=
  (((⟨∅, 32⟩ : PrefilterRegistry).insert "safe" clauses bitmap).toOption).getD ⟨∅, 32⟩

end QueryExecutor

end Bitdex
