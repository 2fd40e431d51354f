import Bitdex.Engine.Shared

/-!
# `Engine.Isolation` — a query beside the flush thread

A query loads the published clone once and reads the index through it: the bitmap of one filter value, the layers of a
sort field or the alive set at a time. Meanwhile the flush thread applies its batches through the staging clone, op by
op. A filter field is written in place, for all clones that have its `Arc` (`Engine.Shared`). `isolated` says under
which condition the query returns what it would return on the index at the end of a cycle.
-/

namespace Bitdex

/-! ## Queries as readers -/

/-- One read of a query. -/
inductive Read where
  | filterValue (field : String) (value : UInt64)
  | sortLayers (field : String)
  | alive

/-- What a read returns: a bitmap, if there is one, or the layers of a sort field. -/
inductive Answer where
  | bitmap (vb : Option VersionedBitmap)
  | layers (sf : Option SortField)

/-- What a read returns. -/
def Read.answer (st : IndexState) : Read → Answer
  | .filterValue field value => .bitmap ((st.filters.getField field).bind (·.getVersioned value))
  | .sortLayers field => .layers (st.sorts.getField field)
  | .alive => .bitmap (some st.slots.alive)

/-- Any query: its next read, with what follows on each answer, or its result. -/
inductive Reader (α : Type) where
  | done (result : α)
  | read (r : Read) (rest : Answer → Reader α)

namespace Reader

variable {α : Type}

/-- The result on one index. -/
def run (st : IndexState) : Reader α → α
  | .done result => result
  | .read r rest => (rest (r.answer st)).run st

def Finished : Reader α → Prop
  | .done _ => True
  | .read _ _ => False

end Reader

/-! ## The query and the flush thread -/

/-- The flush thread, a query's clone, what is left of the query, and the index at the end of each cycle so far. -/
structure Watch (α : Type) where
  heap : FieldHeap
  staging : InnerEngine
  snapshot : InnerEngine
  query : Reader α
  boundaries : List IndexState

/-- Steps of the thread and of the query. -/
inductive WatchEvent where
  | apply (op : MutationOp)
  | publish
  | read

namespace Watch

variable {α : Type} (s : Watch α)

/-- The flush thread has published a clone of its staging copy, which the query loads. -/
def start (h : FieldHeap) (e : InnerEngine) (query : Reader α) : Watch α := ⟨h, e, e, query, [e.view h]⟩

/-- One event; `none` for a read of a query that has finished. -/
def next : WatchEvent → Option (Watch α)
  | .apply op => some { s with heap := (s.staging.applyOp s.heap op).1, staging := (s.staging.applyOp s.heap op).2 }
  | .publish => some { s with boundaries := s.boundaries ++ [s.staging.view s.heap] }
  | .read =>
    match s.query with
    | .done _ => none
    | .read r rest => some { s with query := rest (r.answer (s.snapshot.view s.heap)) }

/-- **The condition.** While the query runs, no filter field is written that its clone shares. -/
def Meets : WatchEvent → Prop
  | .apply op => s.query.Finished ∨ ∀ field, InnerEngine.opField op = some field → ¬s.staging.Shares s.snapshot field
  | _ => True

/-- The query, once it has finished, has the result that it has on the index at the end of some cycle. -/
def Isolated (query : Reader α) : Prop := ∀ result, s.query = .done result → ∃ st ∈ s.boundaries, result = query.run st

/-- The reads to come give what they gave at the start, and lead to the same result. -/
structure Inv (h : FieldHeap) (e : InnerEngine) (query : Reader α) : Prop where
  snapshot : s.snapshot = e
  boundary : e.view h ∈ s.boundaries
  fields : s.query.Finished ∨ ∀ n, (e.view s.heap).filters.getField n = (e.view h).filters.getField n
  result : s.query.run (e.view h) = query.run (e.view h)

variable {s} {h : FieldHeap} {e : InnerEngine} {query : Reader α}

theorem start_inv : (start h e query).Inv h e query := ⟨rfl, List.mem_singleton_self _, .inr fun _ => rfl, rfl⟩

theorem answer_congr {h' : FieldHeap}
    (hfields : ∀ n, (e.view h').filters.getField n = (e.view h).filters.getField n) (r : Read) :
    r.answer (e.view h') = r.answer (e.view h) := by
  cases r with
  | filterValue field value => rw [Read.answer, Read.answer, hfields]
  | sortLayers field | alive => rfl

theorem Inv.step (hinv : s.Inv h e query) {ev : WatchEvent} {s' : Watch α} (hmeets : s.Meets ev)
    (hs : s.next ev = some s') : s'.Inv h e query := by
  cases ev with
  | apply op =>
    obtain rfl := Option.some.inj hs
    refine ⟨hinv.snapshot, hinv.boundary, ?_, hinv.result⟩
    rcases hmeets with hdone | hshares
    · exact .inl hdone
    · rw [hinv.snapshot] at hshares
      refine hinv.fields.imp_right fun hfields n => ?_
      exact (InnerEngine.getField_view_applyOp hshares n).trans (hfields n)
  | publish =>
    obtain rfl := Option.some.inj hs
    exact ⟨hinv.snapshot, List.mem_append_left _ hinv.boundary, hinv.fields, hinv.result⟩
  | read =>
    have hfields := hinv.fields
    have hresult := hinv.result
    unfold next at hs
    cases hq : s.query with
    | done result =>
      rw [hq] at hs
      cases hs
    | read r rest =>
      rw [hq] at hs hfields hresult
      obtain rfl := Option.some.inj hs
      have hfields := hfields.resolve_left id
      -- the answer is the one at the start, so the rest leads where the whole did
      have hanswer : r.answer (s.snapshot.view s.heap) = r.answer (e.view h) := by
        rw [hinv.snapshot]
        exact answer_congr hfields r
      refine ⟨hinv.snapshot, hinv.boundary, .inr hfields, ?_⟩
      show (rest _).run _ = _
      rw [hanswer]
      exact hresult

/-- **Snapshot isolation.** In every run whose steps meet the condition, a finished query has the result of one
flush-cycle boundary, and the clone of an unfinished one is what it was when published. -/
theorem isolated {es : List WatchEvent}
    (hrun : Reaches (fun s ev s' => next s ev = some s') Meets (start h e query) es s) :
    s.Isolated query ∧ (s.query.Finished ∨ ∀ r : Read, r.answer (s.snapshot.view s.heap) = r.answer (e.view h)) := by
  have hinv : s.Inv h e query :=
    hrun.invariant (fun _ s => s.Inv h e query) start_inv fun _ _ _ _ hinv hmeets hs => hinv.step hmeets hs
  constructor
  · intro result hdone
    have hresult := hinv.result
    rw [hdone] at hresult
    exact ⟨_, hinv.boundary, hresult⟩
  · rw [hinv.snapshot]
    exact hinv.fields.imp_right answer_congr

/-! ### Slot 7 moves from value 1 of `a` to value 2 -/

def bits : Answer → Bitmap
  | .bitmap vb => (vb.map VersionedBitmap.fused).getD ∅
  | .layers _ => ∅

/-- `a = 1 OR a = 2`: the two bitmaps, one after the other. -/
def eitherValue : Reader Bitmap :=
  .read (.filterValue "a" 1) fun one => .read (.filterValue "a" 2) fun two => .done (bits one ∪ bits two)

def sevenHeap : FieldHeap := ⟨fun _ _ => ⟨(∅ : HashMap UInt64 VersionedBitmap).insert 1 (.new {7}), {}⟩, 1⟩

def sevenEngine : InnerEngine := ⟨.new, (∅ : HashMap String Nat).insert "a" 0, ⟨∅⟩⟩

/-- One cycle: the query makes its reads between the two steps of the batch. -/
def movedBetween : List WatchEvent :=
  [.apply (.filterRemove "a" 1 [7]), .read, .read, .apply (.filterInsert "a" 2 [7]), .publish]

/-- The result of the query and its results at the two boundaries. -/
def seen (s : Watch Bitmap) : Option Bitmap × List Bitmap :=
  (match s.query with
    | .done result => some result
    | .read _ _ => none, s.boundaries.map eitherValue.run)

/-- The slot has one of the two values at each boundary, and the query sees neither. -/
theorem moving_slot_unseen :
    (movedBetween.foldlM next (start sevenHeap sevenEngine eitherValue)).map seen = some (some ∅, [{7}, {7}]) := by
  decide +kernel

/-- A batch that writes a sort field goes unnoticed. -/
def besideSorts : List WatchEvent := [.read, .apply (.sortSet "v" 0 [7]), .read]

theorem isolated_besideSorts :
    ∃ s, besideSorts.foldlM next (start sevenHeap sevenEngine eitherValue) = some s ∧ s.Isolated eitherValue := by
  have hmeets : ∀ ev ∈ besideSorts, ∀ s : Watch Bitmap, s.Meets ev := by
    intro ev hev s
    simp only [besideSorts, List.mem_cons, List.not_mem_nil, or_false] at hev
    rcases hev with rfl | rfl | rfl
    · trivial
    · exact .inr fun field hfield => by cases hfield
    · trivial
  exact ⟨_, rfl, (isolated (Reaches.start.extend rfl hmeets)).1⟩

end Watch

end Bitdex
