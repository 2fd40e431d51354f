import Mathlib.Data.List.Induction

/-!
# `Sync.CopyCsv` — rows of a `COPY … WITH (FORMAT csv)` stream

The stream comes in chunks that may cut a row anywhere. `CopyParser` (`pg_sync/copy_queries.rs`) keeps the bytes of an
unfinished row and scans them again with the next chunk; `split_csv_fields` cuts a finished row into fields. A quote
opens or closes a quoted field, and a doubled one inside it is a quote. `copy_rows_iff` says when all rows of a table
are read back: the loop over the fields goes on at the end of a row after a quoted field, and adds an empty field
there (`quoted_last_field_adds_one`).
-/

namespace Bitdex.CopyCsv

open List

def comma : UInt8 := 44
def quote : UInt8 := 34
def newline : UInt8 := 10

/-! ## The parser -/

/-- The loop of `feed`: the finished lines and the bytes after them. `line` is what was scanned of the current line.
-/
def scan (inQuote : Bool) (line : List UInt8) : List UInt8 → List (List UInt8) × List UInt8
  | [] => ([], line)
  | b :: bs =>
    if b = quote then scan (!inQuote) (line ++ [b]) bs
    else if b = newline && !inQuote then (line :: (scan inQuote [] bs).1, (scan inQuote [] bs).2)
    else scan inQuote (line ++ [b]) bs

/-- One chunk: the lines so far with the new ones, and the new buffer. -/
def feed (p : List (List UInt8) × List UInt8) (chunk : List UInt8) : List (List UInt8) × List UInt8 :=
  (p.1 ++ (scan false [] (p.2 ++ chunk)).1, (scan false [] (p.2 ++ chunk)).2)

def feedAll (chunks : List (List UInt8)) : List (List UInt8) × List UInt8 := chunks.foldl feed ([], [])

/-- A quoted field behind its opening quote, and what comes behind the closing one. -/
def quotedField : List UInt8 → List UInt8 × List UInt8
  | [] => ([], [])
  | b :: bs =>
    if b = quote then
      match bs with
      | [] => ([], [])
      | c :: cs => if c = quote then (quote :: (quotedField cs).1, (quotedField cs).2) else ([], c :: cs)
    else (b :: (quotedField bs).1, (quotedField bs).2)

/-- The loop of `split_csv_fields`, with a bound on its turns. -/
def splitLoop : Nat → List UInt8 → List (List UInt8)
  | 0, _ => []
  | _ + 1, [] => [[]]
  | turns + 1, b :: bs =>
    if b = quote then
      (quotedField bs).1 :: splitLoop turns
        (if (quotedField bs).2.head? = some comma then (quotedField bs).2.tail else (quotedField bs).2)
    else
      (b :: bs).takeWhile (· ≠ comma) ::
        match (b :: bs).dropWhile (· ≠ comma) with
        | [] => []
        | _ :: rest => splitLoop turns rest

/-- Every turn takes a byte, and the last one may find none. -/
def splitCsvFields (line : List UInt8) : List (List UInt8) := splitLoop (line.length + 1) line

/-! ## What the server writes -/

/-- A field that has to be quoted. -/
def needsQuotes (field : List UInt8) : Bool := field.any fun b => b = comma || b = quote || b = newline

/-- Quotes are doubled. -/
def escape (field : List UInt8) : List UInt8 := field.flatMap fun b => if b = quote then [quote, quote] else [b]

/-- A field as it is sent. -/
def renderField (field : List UInt8) : List UInt8 :=
  if needsQuotes field then quote :: escape field ++ [quote] else field

def renderRow : List (List UInt8) → List UInt8
  | [] => []
  | [field] => renderField field
  | field :: next :: row => renderField field ++ comma :: renderRow (next :: row)

def renderTable (rows : List (List (List UInt8))) : List UInt8 := rows.flatMap fun row => renderRow row ++ [newline]

/-! ## Chunks -/

variable {q : Bool} {line a b rest : List UInt8} {field : List UInt8} {row : List (List UInt8)}

/-- Scanning the current line again leads to the same place. -/
def Pending (q : Bool) (line : List UInt8) : Prop := ∀ bs, scan false [] (line ++ bs) = scan q line bs

theorem Pending.concat {c : UInt8} {q' : Bool} (h : Pending q line)
    (hstep : ∀ bs, scan q line (c :: bs) = scan q' (line ++ [c]) bs) : Pending q' (line ++ [c]) := by
  intro bs
  rw [append_assoc, ← hstep]
  exact h (c :: bs)

/-- **A cut makes no difference**: the second part is scanned behind what is left of the first. -/
theorem Pending.scan_append (h : Pending q line) : scan q line (a ++ b) =
      ((scan q line a).1 ++ (scan false [] ((scan q line a).2 ++ b)).1, (scan false [] ((scan q line a).2 ++ b)).2) := by
  induction a generalizing q line with
  | nil => exact (h b).symm
  | cons c a ih =>
    by_cases hquote : c = quote
    · have hstep : ∀ bs, scan q line (c :: bs) = scan (!q) (line ++ [c]) bs := fun bs => by rw [scan, if_pos hquote]
      rw [cons_append, hstep, hstep, ih (h.concat hstep)]
    · cases hend : c = newline && !q with
      | true =>
        obtain rfl : q = false := by simpa using (Bool.and_eq_true_iff.mp hend).2
        have hstep : ∀ bs, scan false line (c :: bs) = (line :: (scan false [] bs).1, (scan false [] bs).2) := fun bs => by
          rw [scan, if_neg hquote, if_pos hend]
        rw [cons_append, hstep, hstep, ih fun _ => rfl]
        rfl
      | false =>
        have hstep : ∀ bs, scan q line (c :: bs) = scan q (line ++ [c]) bs := fun bs => by
          rw [scan, if_neg hquote, hend, if_neg Bool.false_ne_true]
        rw [cons_append, hstep, hstep, ih (h.concat hstep)]

theorem lines_feedAll (chunks : List (List UInt8)) : feedAll chunks = scan false [] chunks.flatten := by
  induction chunks using reverseRecOn with
  | nil => rfl
  | append_singleton chunks chunk ih =>
    have hpending : Pending false [] := fun _ => rfl
    rw [feedAll, foldl_append, ← feedAll, ih, flatten_append, flatten_singleton, hpending.scan_append]
    rfl

/-- **No byte is lost**: the finished lines with their newlines, then the bytes that wait, are the stream, however
cut. -/
theorem feedAll_lossless (chunks : List (List UInt8)) :
    (feedAll chunks).1.flatMap (· ++ [newline]) ++ (feedAll chunks).2 = chunks.flatten := by
  have hscan : ∀ bs q line, (scan q line bs).1.flatMap (· ++ [newline]) ++ (scan q line bs).2 = line ++ bs := by
    intro bs
    induction bs with
    | nil => intro q line; simp [scan]
    | cons b bs ih =>
      intro q line
      rw [scan]
      split
      · rw [ih, append_assoc, singleton_append]
      · split
        · next hend =>
          have hb : b = newline := by simpa using (Bool.and_eq_true_iff.mp hend).1
          rw [flatMap_cons, append_assoc, ih, hb]
          simp
        · rw [ih, append_assoc, singleton_append]
  rw [lines_feedAll, hscan, nil_append]

/-! ## Lines -/

theorem scan_escape : scan true line (escape field ++ rest) = scan true (line ++ escape field) rest := by
  induction field generalizing line with
  | nil => simp [escape]
  | cons c field ih =>
    by_cases hc : c = quote
    · simp_all [escape, scan]
    · simp_all [escape, scan]

theorem scan_renderField : scan false line (renderField field ++ rest) = scan false (line ++ renderField field) rest := by
  unfold renderField
  split
  · simp [scan, scan_escape]
  · next hplain =>
    induction field generalizing line with
    | nil => simp
    | cons c field ih =>
      simp only [needsQuotes, any_cons, Bool.or_eq_true, decide_eq_true_eq, not_or] at hplain
      have hrest : ¬ needsQuotes field = true := hplain.2
      rw [cons_append, scan, if_neg hplain.1.1.2, if_neg (by simp [hplain.1.2]), ih hrest, append_assoc]
      rfl

/-- A written row is one line. -/
theorem scan_renderRow : scan false line (renderRow row ++ newline :: rest) =
      ((line ++ renderRow row) :: (scan false [] rest).1, (scan false [] rest).2) := by
  have hnewline : ∀ line, scan false line (newline :: rest) = (line :: (scan false [] rest).1, (scan false [] rest).2) :=
    fun _ => rfl
  induction row generalizing line with
  | nil => simp [renderRow, hnewline]
  | cons field row ih =>
    cases row with
    | nil => rw [renderRow, scan_renderField, hnewline]
    | cons next row =>
      rw [renderRow, append_assoc, scan_renderField, cons_append]
      show scan false (line ++ renderField field ++ [comma]) _ = _
      rw [ih]
      simp

theorem scan_renderTable (rows : List (List (List UInt8))) :
    scan false [] (renderTable rows) = (rows.map renderRow, []) := by
  induction rows with
  | nil => rfl
  | cons row rows ih =>
    rw [renderTable, flatMap_cons, ← renderTable, append_assoc, singleton_append, scan_renderRow, ih]
    rfl

/-! ## Fields -/

theorem quotedField_of_ne {c : UInt8} (hc : c ≠ quote) :
    quotedField (c :: rest) = (c :: (quotedField rest).1, (quotedField rest).2) := by
  cases rest <;> simp [quotedField, hc]

theorem quotedField_escape (h : rest.head? ≠ some quote) :
    quotedField (escape field ++ quote :: rest) = (field, rest) := by
  induction field with
  | nil =>
    cases rest with
    | nil => rfl
    | cons c rest => simp_all [escape, quotedField]
  | cons c field ih =>
    by_cases hc : c = quote
    · simp_all [escape, quotedField]
    · simp_all [escape, quotedField_of_ne]

theorem ne_of_plain (hplain : ¬ needsQuotes field = true) : ∀ c ∈ field, c ≠ comma ∧ c ≠ quote := by
  intro c hc
  simp only [needsQuotes, any_eq_true, not_exists, not_and, Bool.or_eq_true, decide_eq_true_eq, not_or] at hplain
  exact (hplain c hc).1

theorem splitLoop_cons (turns : Nat) :
    splitLoop (turns + 1) (renderField field ++ comma :: rest) = field :: splitLoop turns rest := by
  unfold renderField
  split
  · rw [append_assoc, singleton_append, cons_append, splitLoop, if_pos rfl,
      quotedField_escape (by simp [comma, quote])]
    rfl
  · next hplain =>
    have hne := ne_of_plain hplain
    cases field with
    | nil => rfl
    | cons c field =>
      have hpos : ∀ d ∈ c :: field, decide (d ≠ comma) = true := fun d hd => decide_eq_true (hne d hd).1
      rw [cons_append, splitLoop, if_neg (hne c mem_cons_self).2, ← cons_append,
        takeWhile_append_of_pos hpos, dropWhile_append_of_pos hpos]
      simp

/-- The last field: behind a closing quote the loop takes one more turn. -/
theorem splitLoop_last (turns : Nat) :
    splitLoop (turns + 1) (renderField field) = field :: if needsQuotes field then splitLoop turns [] else [] := by
  unfold renderField
  split
  · rw [cons_append, splitLoop, if_pos rfl, quotedField_escape (by simp)]
    rfl
  · next hplain =>
    have hne := ne_of_plain hplain
    cases field with
    | nil => rfl
    | cons c field =>
      have hpos : ∀ d ∈ c :: field, decide (d ≠ comma) = true := fun d hd => decide_eq_true (hne d hd).1
      rw [splitLoop, if_neg (hne c mem_cons_self).2, ← append_nil (c :: field),
        takeWhile_append_of_pos hpos, dropWhile_append_of_pos hpos]
      rfl

theorem splitLoop_renderRow {turns : Nat} (hrow : row ≠ []) (hturns : (renderRow row).length < turns) :
    splitLoop turns (renderRow row) = row ++ if row.getLast?.any needsQuotes then [[]] else [] := by
  induction row generalizing turns with
  | nil => exact absurd rfl hrow
  | cons field row ih =>
    obtain ⟨turns, rfl⟩ := Nat.exists_eq_succ_of_ne_zero (Nat.ne_zero_of_lt hturns)
    cases row with
    | nil =>
      show splitLoop (turns + 1) (renderField field) = field :: if needsQuotes field then [[]] else []
      rw [splitLoop_last]
      split
      · next hquotes =>
        -- the closing quote leaves a turn
        rw [renderRow, renderField, if_pos hquotes] at hturns
        cases turns with
        | zero => simp at hturns
        | succ turns => rfl
      · rfl
    | cons next row =>
      rw [renderRow, length_append, length_cons] at hturns
      rw [renderRow, splitLoop_cons, ih (cons_ne_nil _ _) (by omega), getLast?_cons_cons]
      rfl

/-- **A table is read back**, however the stream is cut, if and only if no row ends with a quoted field. -/
theorem copy_rows_iff {rows : List (List (List UInt8))} (hrows : ∀ row ∈ rows, row ≠ []) {chunks : List (List UInt8)}
    (hchunks : chunks.flatten = renderTable rows) :
    (feedAll chunks).1.map splitCsvFields = rows ↔ ∀ row ∈ rows, row.getLast?.any needsQuotes = false := by
  have hrow : ∀ row ∈ rows, splitCsvFields (renderRow row) = row ↔ row.getLast?.any needsQuotes = false := by
    intro row hmem
    rw [splitCsvFields, splitLoop_renderRow (hrows row hmem) (Nat.lt_succ_self _)]
    cases row.getLast?.any needsQuotes <;> simp
  have hself := map_inj_left (l := rows) (f := splitCsvFields ∘ renderRow) (g := id)
  rw [map_id] at hself
  rw [lines_feedAll, hchunks, scan_renderTable, map_map, hself]
  exact forall₂_congr hrow

/-- One row with one field: the comma needs quotes, and a second field is read. -/
theorem quoted_last_field_adds_one :
    (feedAll [renderTable [[[97, comma, 98]]]]).1.map splitCsvFields = [[[97, comma, 98], []]] := by
  decide

/-- A row with a quoted field before the last, cut inside its quotes. -/
theorem copy_rows_cut_in_quotes :
    (feedAll [[quote, 97, newline], [98, quote, comma, 99, newline]]).1.map splitCsvFields =
      [[[97, newline, 98], [99]]] := by
  refine (copy_rows_iff ?_ ?_).mpr (by decide)
  · simp
  · rfl

end Bitdex.CopyCsv
