import Mathlib.Data.String.Basic
import Mathlib.Data.Prod.Lex
import Mathlib.Data.List.Sort
import Bitdex.Query

/-!
# `Cache.Key` — canonical clauses and cache keys

A cached page is found by a key: the query's clauses turned into texts and sorted (`cache.rs`), with the sort field
and direction. `from_filter` never fails, so the `Option` of the source is dropped.
-/

namespace Bitdex

open List

/-- A clause as text. -/
structure CanonicalClause where
  field : String
  op : String
  valueRepr : String
deriving DecidableEq, Repr

namespace CanonicalClause

/-- The derived order: field, then op, then value text. -/
def tuple (c : CanonicalClause) : String ×ₗ (String ×ₗ String) := toLex (c.field, toLex (c.op, c.valueRepr))

theorem tuple_injective : Function.Injective tuple := by
  rintro ⟨f₁, o₁, v₁⟩ ⟨f₂, o₂, v₂⟩ h
  simp only [tuple, EmbeddingLike.apply_eq_iff_eq, Prod.mk.injEq] at h
  simp [h]

instance : LinearOrder CanonicalClause := LinearOrder.lift' tuple tuple_injective

end CanonicalClause

/-- `value_to_string`: the display form of a value. -/
def valueToString [Host] : Value → String
  | .integer i => toString i.toInt
  | .float bits => Host.displayF64 bits
  | .bool b => if b then "true" else "false"
  | .string s => s

/-- Value texts sorted and joined with commas. -/
def joinValues [Host] (values : List Value) : String :=
  ",".intercalate ((values.map valueToString).insertionSort (· ≤ ·))

/-- The text of a sub-clause inside a compound clause. -/
def CanonicalClause.text (k : CanonicalClause) : String := k.field ++ ":" ++ k.op ++ ":" ++ k.valueRepr

mutual

/-- The canonical form of a clause. -/
def CanonicalClause.fromFilter [Host] : FilterClause → CanonicalClause
  | .eq field value => ⟨field, "eq", valueToString value⟩
  | .notEq field value => ⟨field, "neq", valueToString value⟩
  | .isIn field values => ⟨field, "in", joinValues values⟩
  | .notIn field values => ⟨field, "notin", joinValues values⟩
  | .gt field value => ⟨field, "gt", valueToString value⟩
  | .gte field value => ⟨field, "gte", valueToString value⟩
  | .lt field value => ⟨field, "lt", valueToString value⟩
  | .lte field value => ⟨field, "lte", valueToString value⟩
  | .bucketBitmap field bucketName _ => ⟨field, "bucket", bucketName⟩
  | .not inner =>
    let innerKey := CanonicalClause.fromFilter inner
    ⟨innerKey.field, "not(" ++ innerKey.op ++ ")", innerKey.valueRepr⟩
  | .and inner => ⟨"", "and", "+".intercalate ((clauseTexts inner).insertionSort (· ≤ ·))⟩
  | .or inner => ⟨"", "or", "|".intercalate ((clauseTexts inner).insertionSort (· ≤ ·))⟩
  | .isNull field => ⟨field, "isnull", ""⟩
  | .isNotNull field => ⟨field, "isnotnull", ""⟩

def clauseTexts [Host] : List FilterClause → List String
  | [] => []
  | c :: cs => (CanonicalClause.fromFilter c).text :: clauseTexts cs

end

/-- The clauses of a top-level `And` stand for it. -/
def topClauses : FilterClause → List FilterClause
  | .and inner => inner
  | c => [c]

/-- The cache key of a clause list: top-level `And`s flattened, canonical forms sorted. -/
def canonicalize [Host] (clauses : List FilterClause) : List CanonicalClause :=
  ((clauses.flatMap topClauses).map CanonicalClause.fromFilter).insertionSort (· ≤ ·)

/-- What an entry is found by. -/
structure UnifiedKey where
  filterClauses : List CanonicalClause
  sortField : String
  direction : SortDirection
deriving DecidableEq

/-- A clause on a time bucket. A prefilter is substituted as a bucket clause too and is none. -/
def CanonicalClause.isTimeBucketClause (c : CanonicalClause) : Bool :=
  decide (c.op = "bucket") && decide (c.field ≠ "__prefilter")

/-- `bucket_names_from_canonical`. -/
def UnifiedKey.bucketNames (key : UnifiedKey) : List String :=
  (key.filterClauses.filter (·.isTimeBucketClause)).map (·.valueRepr)

/-- The key does not see the order of the clauses. -/
theorem canonicalize_perm [Host] {a b : List FilterClause} (h : a.Perm b) : canonicalize a = canonicalize b := by
  have hperm : ((a.flatMap topClauses).map CanonicalClause.fromFilter).Perm
      ((b.flatMap topClauses).map CanonicalClause.fromFilter) :=
    (h.flatMap_right topClauses).map _
  exact List.Perm.eq_of_pairwise' (pairwise_insertionSort _ _) (pairwise_insertionSort _ _)
    (((perm_insertionSort _ _).trans hperm).trans (perm_insertionSort _ _).symm)

end Bitdex
