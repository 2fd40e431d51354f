import Bitdex.Write.Mutation

/-!
# `Write.Refresh` — when a diff turns the old document's bits into the new one's

`put` only sends the difference between the stored document and the new one. This module says what bits a document
shows when inserted alone into an empty slot (`Config.shownBit`), and when the ops of a diff take a slot from the
stored document's bits to the new one's (`diffDocument_refreshes`). That is so except in three cases:

* a computed sort field falls back on source fields of the old document that the new one lacks (`KeepsSources`);
* deferring a live document clears only what the stored document spells out, not derived shadows and computed sort
  values (`SpelledOut`);
* two shadow mappings with one target derive different values (`ShadowsAgree`).

The ops to each bit come in settling order, so they can be flushed in any pieces.
-/

namespace Bitdex

open List Config Settle SortFieldConfig MutationOp

open MutationOp (write)

/-! ## Writes of a list of ops -/

section Writes

variable {t : Target} {slot : UInt32}

@[simp] theorem bitWrites_nil : bitWrites t slot [] = [] := rfl

@[simp] theorem bitWrites_append (a b : List MutationOp) :
    bitWrites t slot (a ++ b) = bitWrites t slot a ++ bitWrites t slot b :=
  filterMap_append

theorem bitWrites_flatMap_eq_nil {α : Type} {l : List α} {g : α → List MutationOp}
    (h : ∀ a ∈ l, bitWrites t slot (g a) = []) : bitWrites t slot (l.flatMap g) = [] := by
  induction l with
  | nil => rfl
  | cons a l ih =>
    rw [flatMap_cons, bitWrites_append, h a mem_cons_self,
      ih fun b hb => h b (mem_cons_of_mem a hb), append_nil]

/-- When one element alone writes the bit, the others do not count. -/
theorem bitWrites_flatMap_eq {α κ : Type} {l : List α} (key : α → κ) {g : α → List MutationOp}
    (hnodup : (l.map key).Nodup) {a : α} (ha : a ∈ l)
    (hother : ∀ b ∈ l, key b ≠ key a → bitWrites t slot (g b) = []) :
    bitWrites t slot (l.flatMap g) = bitWrites t slot (g a) := by
  induction l with
  | nil => cases ha
  | cons b l ih =>
    rw [map_cons, nodup_cons] at hnodup
    rw [flatMap_cons, bitWrites_append]
    rcases mem_cons.mp ha with rfl | ha
    · rw [bitWrites_flatMap_eq_nil, append_nil]
      intro c hc
      refine hother c (mem_cons_of_mem _ hc) fun hkey => hnodup.1 ?_
      exact hkey ▸ mem_map_of_mem hc
    · have hb : key b ≠ key a := fun hkey => hnodup.1 (hkey ▸ mem_map_of_mem ha)
      rw [hother b mem_cons_self hb, nil_append,
        ih hnodup.2 ha fun c hc => hother c (mem_cons_of_mem b hc)]

/-- The ops of a loop over the bit layers, of which one writes the bit. -/
theorem bitWrites_layers {n b : Nat} {p : Nat → Bool} {op : Nat → MutationOp}
    (hother : ∀ bit, bit ≠ b → (op bit).write t slot = none) :
    bitWrites t slot (((range n).filter p).map op) =
      if b < n ∧ p b = true then ((op b).write t slot).toList else [] := by
  have hnodup : ((range n).filter p).Nodup := nodup_range.filter p
  have hflat : ((range n).filter p).map op = ((range n).filter p).flatMap fun bit => [op bit] :=
    map_eq_flatMap
  have hone : ∀ bit, bitWrites t slot [op bit] = ((op bit).write t slot).toList := by
    intro bit
    cases h : (op bit).write t slot <;> simp [bitWrites, h]
  rw [hflat]
  split
  · next hb =>
    rw [bitWrites_flatMap_eq id (by simpa using hnodup) (a := b) (by simpa using hb), hone]
    intro bit _ hbit
    rw [hone, hother bit hbit]
    rfl
  · next hb =>
    refine bitWrites_flatMap_eq_nil fun bit hbit => ?_
    have hne : bit ≠ b := by
      rintro rfl
      exact hb (by simpa using hbit)
    rw [hone, hother bit hne]
    rfl

end Writes

/-! ## Writes of one field -/

/-- The filter keys of a field of a document. -/
def Document.keys (doc : Document) (name : String) : List UInt64 :=
  match doc name with
  | some v => v.keys
  | none => []

/-- `(value >> bit) & 1` of an optional value. -/
def optBit (v : Option UInt32) (bit : Nat) : Bool := v.any (sortBit · bit)

section FieldWrites

variable {t : Target} {slot : UInt32} {doc : Document} {name f : String} {k : UInt64} {b n : Nat}

/-- A loop over filter keys writes a bit as often as its key occurs. -/
theorem bitWrites_keys {op : UInt64 → MutationOp} {v : Bool}
    (hop : ∀ key, (op key).write (.filter f k) slot = if key = k then some v else none)
    (keys : List UInt64) :
    bitWrites (.filter f k) slot (keys.map op) = replicate (keys.count k) v := by
  induction keys with
  | nil => rfl
  | cons key keys ih =>
    unfold bitWrites at ih ⊢
    rw [map_cons, filterMap_cons, hop, ih]
    by_cases hkey : key = k
    · simp [hkey, replicate_succ]
    · simp [hkey]

/-- The same for the keys of a field that the document may have. -/
theorem bitWrites_fieldKeys {op : UInt64 → MutationOp} {v : Bool}
    (hop : ∀ key, (op key).write (.filter f k) slot = if key = k then some v else none) :
    bitWrites (.filter f k) slot ((doc f).elim [] fun fv => fv.keys.map op) =
      replicate ((doc.keys f).count k) v := by
  unfold Document.keys
  cases doc f with
  | none => rfl
  | some fv => exact bitWrites_keys hop fv.keys

theorem bitWrites_removeOps : bitWrites (.filter f k) slot ((doc f).elim [] (collectFilterRemoveOps f slot)) =
      replicate ((doc.keys f).count k) false :=
  bitWrites_fieldKeys fun key => by simp [write, eq_comm]

theorem bitWrites_insertOps : bitWrites (.filter f k) slot ((doc f).elim [] (collectFilterInsertOps f slot)) =
      replicate ((doc.keys f).count k) true :=
  bitWrites_fieldKeys fun key => by simp [write, eq_comm]

/-- Ops on a filter field write no bit of anything else. -/
theorem bitWrites_collect_of_ne (ht : ∀ k, t ≠ .filter name k) (v : Option FieldValue) :
    bitWrites t slot (v.elim [] (collectFilterRemoveOps name slot)) = [] ∧
      bitWrites t slot (v.elim [] (collectFilterInsertOps name slot)) = [] := by
  cases v <;> simp [bitWrites, collectFilterRemoveOps, collectFilterInsertOps, write, ht]

/-- Ops on a sort field write no bit of anything else. -/
theorem bitWrites_sortOps_of_ne (ht : ∀ b, t ≠ .sort name b) (v : UInt32) (old new : Option UInt32) :
    bitWrites t slot (clearSetBitsOps name n slot v) = [] ∧ bitWrites t slot (overwriteBitsOps name n slot v) = [] ∧
      bitWrites t slot (emitSortDiffOps name n slot old new) = [] := by
  have hwrite : ∀ bit, (sortSet name bit [slot]).write t slot = none ∧
        (sortClear name bit [slot]).write t slot = none := by
    intro bit
    simp [write, ht]
  refine ⟨?_, ?_, ?_⟩
  · simp [bitWrites, clearSetBitsOps, hwrite]
  · simp only [bitWrites, overwriteBitsOps, filterMap_map, filterMap_eq_nil_iff]
    intro bit _
    simp only [Function.comp_apply]
    split <;> simp [hwrite]
  · cases old <;> cases new <;> simp only [emitSortDiffOps, bitWrites, filterMap_map,
      filterMap_eq_nil_iff, filterMap_nil, Function.comp_apply]
    · simp [hwrite]
    · simp [hwrite]
    · intro bit _
      split <;> simp [hwrite]

theorem bitWrites_emit_of_ne (ht : ∀ b, t ≠ .sort name b) (old new : Option UInt32) :
    bitWrites t slot (emitSortDiffOps name n slot old new) = [] :=
  (bitWrites_sortOps_of_ne ht 0 old new).2.2

theorem bitWrites_clearSetBitsOps (v : UInt32) : bitWrites (.sort name b) slot (clearSetBitsOps name n slot v) =
      if b < n ∧ sortBit v b = true then [false] else [] := by
  rw [clearSetBitsOps, bitWrites_layers (b := b)]
  · simp [write]
  · intro bit hbit
    simp [write, Ne.symm hbit]

theorem bitWrites_overwriteBitsOps (v : UInt32) :
    bitWrites (.sort name b) slot (overwriteBitsOps name n slot v) = if b < n then [sortBit v b] else [] := by
  have hall : overwriteBitsOps name n slot v = ((range n).filter fun _ => true).map fun bit =>
      if sortBit v bit then .sortSet name bit [slot] else .sortClear name bit [slot] := by
    simp [overwriteBitsOps]
  rw [hall, bitWrites_layers (b := b)]
  · cases sortBit v b <;> simp [write]
  · intro bit hbit
    split <;> simp [write, Ne.symm hbit]

/-- The writes of a value change to one bit. -/
def sortDiffWrites (old new : Option UInt32) (b : Nat) : List Bool :=
  match old, new with
  | some o, some v => if sortBit (o ^^^ v) b then [sortBit v b] else []
  | some _, none => [false]
  | none, some v => if sortBit v b then [true] else []
  | none, none => []

theorem bitWrites_emitSortDiffOps (old new : Option UInt32) :
    bitWrites (.sort name b) slot (emitSortDiffOps name n slot old new) =
      if b < n then sortDiffWrites old new b else [] := by
  cases old with
  | none =>
    cases new with
    | none => simp [emitSortDiffOps, sortDiffWrites]
    | some v =>
      rw [emitSortDiffOps, bitWrites_layers (b := b)]
      · by_cases hb : b < n <;> simp [sortDiffWrites, write, hb]
      · intro bit hbit
        simp [write, Ne.symm hbit]
  | some o =>
    cases new with
    | none =>
      have hall : emitSortDiffOps name n slot (some o) none =
          ((range n).filter fun _ => true).map fun bit => .sortClear name bit [slot] := by
        simp [emitSortDiffOps]
      rw [hall, bitWrites_layers (b := b)]
      · simp [sortDiffWrites, write]
      · intro bit hbit
        simp [write, Ne.symm hbit]
    | some v =>
      rw [emitSortDiffOps, bitWrites_layers (b := b)]
      · by_cases hb : b < n <;> cases hv : sortBit v b <;>
          simp [sortDiffWrites, write, hb, hv]
      · intro bit hbit
        split <;> simp [write, Ne.symm hbit]

theorem sortBit_xor (o v : UInt32) : sortBit (o ^^^ v) b = (sortBit o b != sortBit v b) := by
  simp [sortBit, UInt32.toNat_xor, Nat.testBit_xor]

theorem length_sortDiffWrites_le (old new : Option UInt32) : (sortDiffWrites old new b).length ≤ 1 := by
  unfold sortDiffWrites
  split <;> try split
  all_goals simp

/-- **A value change** takes every bit of the old value to the new one. -/
theorem getLast?_sortDiffWrites (old new : Option UInt32) :
    (sortDiffWrites old new b).getLast?.getD (optBit old b) = optBit new b := by
  cases old with
  | none =>
    cases new with
    | none => rfl
    | some v => cases h : sortBit v b <;> simp [sortDiffWrites, optBit, h]
  | some o =>
    cases new with
    | none => simp [sortDiffWrites, optBit]
    | some v =>
      simp only [sortDiffWrites, sortBit_xor, optBit, Option.any_some]
      cases sortBit o b <;> cases sortBit v b <;> rfl

theorem sortDiffWrites_self (v : Option UInt32) : sortDiffWrites v v b = [] := by
  cases v with
  | none => rfl
  | some v =>
    simp only [sortDiffWrites, sortBit_xor, bne_self_eq_false]
    rfl

/-- The test for a change drops no write. -/
theorem bitWrites_emitChange (o v : Option UInt32) :
    bitWrites (.sort name b) slot (if o = v then [] else emitSortDiffOps name n slot o v) =
      if b < n then sortDiffWrites o v b else [] := by
  split
  · next h => simp [h, sortDiffWrites_self]
  · exact bitWrites_emitSortDiffOps o v

end FieldWrites

/-! ## Documents that index alike -/

/-- Two field values are equal, or equal as the diff compares them. -/
def Alike (a b : Option FieldValue) : Prop := a = b ∨ fieldValuesEqual a b = true

theorem valuesEqual_index {a b : Value} (h : valuesEqual a b = true) :
    filterKey a = filterKey b ∧ valueToSortU32 a = valueToSortU32 b := by
  cases a <;> cases b <;> simp only [valuesEqual, Bool.false_eq_true, beq_iff_eq] at h
  · subst h
    exact ⟨rfl, rfl⟩
  · exact ⟨rfl, rfl⟩
  · subst h
    exact ⟨rfl, rfl⟩
  · exact ⟨rfl, rfl⟩

theorem filterMap_filterKey_eq {as bs : List Value} (hlen : as.length = bs.length)
    (h : ∀ p ∈ as.zip bs, valuesEqual p.1 p.2 = true) : as.filterMap filterKey = bs.filterMap filterKey := by
  induction as generalizing bs with
  | nil =>
    cases bs with
    | nil => rfl
    | cons b bs => cases hlen
  | cons a as ih =>
    cases bs with
    | nil => cases hlen
    | cons b bs =>
      have hab := h (a, b) mem_cons_self
      have hrest := ih (Nat.succ.inj hlen) fun p hp => h p (mem_cons_of_mem _ hp)
      rw [filterMap_cons, filterMap_cons, (valuesEqual_index hab).1, hrest]

/-- What the index reads of a field is the same for fields that are alike. -/
theorem Alike.index {d d' : Document} {f : String} (h : Alike (d f) (d' f)) :
    (d f).isSome = (d' f).isSome ∧ d.keys f = d'.keys f ∧ fieldToSortU32 d f = fieldToSortU32 d' f := by
  unfold Document.keys fieldToSortU32
  rcases h with h | h
  · rw [h]
    exact ⟨rfl, rfl, rfl⟩
  · cases hd : d f with
    | none =>
      cases hd' : d' f with
      | none => exact ⟨rfl, rfl, rfl⟩
      | some v' => rw [hd, hd'] at h; cases h
    | some v =>
      cases hd' : d' f with
      | none => rw [hd, hd'] at h; cases v <;> cases h
      | some v' =>
        rw [hd, hd'] at h
        cases v with
        | single a =>
          cases v' with
          | single a' =>
            obtain ⟨hkey, hsort⟩ := valuesEqual_index h
            exact ⟨rfl, congrArg Option.toList hkey, hsort⟩
          | multi as' => cases h
        | multi as =>
          cases v' with
          | single a' => cases h
          | multi as' =>
            simp only [fieldValuesEqual, Bool.and_eq_true, beq_iff_eq, all_eq_true] at h
            exact ⟨rfl, filterMap_filterKey_eq h.1 h.2, rfl⟩

/-- The document gives a value to every field that has a default. -/
def Complete (defaults doc : Document) : Prop := ∀ f, (defaults f).isSome = true → (doc f).isSome = true

/-- **Reading back.** A complete document is read back alike. -/
theorem Complete.alike_readBack {defaults doc : Document} (h : Complete defaults doc) (f : String) :
    Alike (doc f) (doc.readBack defaults f) := by
  have hf := h f
  unfold Document.readBack
  cases hd : doc f with
  | none =>
    cases hdefault : defaults f with
    | none => exact .inl rfl
    | some dflt =>
      rw [hd, hdefault] at hf
      cases hf rfl
  | some v =>
    cases defaults f with
    | none => exact .inl rfl
    | some dflt =>
      by_cases heq : fieldValuesEqual (some v) (some dflt) = true
      · simp only [heq, if_true]
        exact .inr heq
      · simp only [heq]
        exact .inl rfl

/-! ## What a document shows -/

/-- The key a shadow is filed under. -/
def shadowKey (derived : Bool) : UInt64 := if derived then 1 else 0

theorem shadowKey_inj {a b : Bool} (h : shadowKey a = shadowKey b) : a = b := by
  revert a b
  decide

namespace Config

variable (cfg : Config)

/-- The bits of a visible document: its filter keys, its derived shadows, its sort values. -/
def Shows (doc : Document) : Target → Prop
  | .filter f k =>
    (f ∈ cfg.filterFields ∧ f ∉ cfg.shadowTargets ∧ k ∈ doc.keys f) ∨
      ∃ s ∈ cfg.deriveExistsBooleanShadows doc, s.1 = f ∧ shadowKey s.2 = k
  | .sort f b => ∃ sc ∈ cfg.sortFields, sc.name = f ∧ b < sc.bits ∧ optBit (sc.freshValue doc) b = true
  | .alive => True

variable {cfg} {d d' : Document} {t : Target} {slot : UInt32}

theorem deriveExistsBooleanShadows_congr (h : ∀ f, Alike (d f) (d' f)) :
    cfg.deriveExistsBooleanShadows d = cfg.deriveExistsBooleanShadows d' := by
  have hsome : ∀ f, (d f).isSome = (d' f).isSome := fun f => (h f).index.1
  simp [deriveExistsBooleanShadows, hsome]

theorem freshValue_congr (h : ∀ f, Alike (d f) (d' f)) (sc : SortFieldConfig) : sc.freshValue d = sc.freshValue d' := by
  have hsort : fieldToSortU32 d = fieldToSortU32 d' := funext fun f => (h f).index.2.2
  simp [freshValue, hsort]

/-- Documents that are alike show the same bits. -/
theorem shows_congr (h : ∀ f, Alike (d f) (d' f)) : cfg.Shows d t ↔ cfg.Shows d' t := by
  have hkeys : ∀ f, d.keys f = d'.keys f := fun f => (h f).index.2.1
  cases t with
  | filter f k => simp [Shows, hkeys, deriveExistsBooleanShadows_congr h]
  | sort f b => simp only [Shows, freshValue_congr h]
  | alive => rfl

/-! ### Writes of loops over the fields -/

variable {f : String} {k : UInt64} {old new : Document}

/-- The alive bit, or a bit of a sort field that is not configured. -/
def Quiet (cfg : Config) (t : Target) : Prop :=
  (∀ f k, t ≠ .filter f k) ∧ ∀ sc ∈ cfg.sortFields, ∀ b, t ≠ .sort sc.name b

theorem quiet_alive : cfg.Quiet .alive := ⟨by simp, by simp⟩

/-- What ops write to the bits of the filter fields and of the sort fields; they write no others. -/
structure Writes (cfg : Config) (slot : UInt32) (ops : List MutationOp) (keys : String → UInt64 → List Bool)
    (bits : SortFieldConfig → Nat → List Bool) : Prop where
  filter : ∀ f k, bitWrites (.filter f k) slot ops = if f ∈ cfg.filterFields then keys f k else []
  sort : ∀ sc ∈ cfg.sortFields, ∀ b, bitWrites (.sort sc.name b) slot ops = bits sc b
  quiet : ∀ t, cfg.Quiet t → bitWrites t slot ops = []

/-- **Loops over the fields** in which every field writes bits of its own only. -/
theorem writes_loops {F : String → List MutationOp} {S : SortFieldConfig → List MutationOp}
    {keys : String → UInt64 → List Bool} {bits : SortFieldConfig → Nat → List Bool}
    (hF : ∀ t name, (∀ k, t ≠ .filter name k) → bitWrites t slot (F name) = [])
    (hS : ∀ t sc, (∀ b, t ≠ .sort sc.name b) → bitWrites t slot (S sc) = [])
    (hkeys : ∀ f k, bitWrites (.filter f k) slot (F f) = keys f k)
    (hbits : ∀ sc b, bitWrites (.sort sc.name b) slot (S sc) = bits sc b) :
    cfg.Writes slot (cfg.filterFields.flatMap F ++ cfg.sortFields.flatMap S) keys bits where
  filter f k := by
    rw [bitWrites_append, bitWrites_flatMap_eq_nil fun sc _ => hS _ sc (by simp), append_nil, ← hkeys]
    split
    · next hf =>
      refine bitWrites_flatMap_eq id (by simpa using cfg.filter_nodup) hf fun name _ hname => hF _ name ?_
      rintro k' ⟨⟩
      exact hname rfl
    · next hf =>
      refine bitWrites_flatMap_eq_nil fun name hname => hF _ name ?_
      rintro k' ⟨⟩
      exact hf hname
  sort sc hsc b := by
    rw [bitWrites_append, bitWrites_flatMap_eq_nil fun name _ => hF _ name (by simp), ← hbits]
    refine bitWrites_flatMap_eq (·.name) cfg.sort_nodup hsc fun sc' _ hname => hS _ sc' ?_
    simp [Ne.symm hname]
  quiet t ht := by
    rw [bitWrites_append, bitWrites_flatMap_eq_nil fun name _ => hF t name (ht.1 name),
      bitWrites_flatMap_eq_nil fun sc hsc => hS t sc (ht.2 sc hsc), append_nil]

theorem writes_clearOldOps :
    cfg.Writes slot (clearOldOps cfg slot old) (fun f k => replicate ((old.keys f).count k) false)
      fun sc b => if b < sc.bits ∧ optBit (fieldToSortU32 old sc.name) b = true then [false] else [] := by
  refine writes_loops (fun t name ht => (bitWrites_collect_of_ne ht _).1) (fun t sc ht => ?_)
    (fun f k => bitWrites_removeOps) fun sc b => ?_
  · cases fieldToSortU32 old sc.name with
    | none => rfl
    | some v => exact (bitWrites_sortOps_of_ne ht v none none).1
  · cases fieldToSortU32 old sc.name with
    | none => simp [optBit]
    | some v => exact bitWrites_clearSetBitsOps v

/-- The values between which an upsert moves a sort field. -/
def sortChange (sc : SortFieldConfig) (old new : Document) : Option UInt32 × Option UInt32 :=
  match sc.computed with
  | some computed => resolveComputedSort computed old new
  | none => (fieldToSortU32 old sc.name, fieldToSortU32 new sc.name)

theorem writes_upsertOps : cfg.Writes slot (cfg.upsertOps slot old new)
      (fun f k => if f ∉ cfg.shadowTargets ∧ fieldValuesEqual (old f) (new f) = false then
          replicate ((old.keys f).count k) false ++ replicate ((new.keys f).count k) true
        else [])
      fun sc b => if b < sc.bits then sortDiffWrites (sortChange sc old new).1 (sortChange sc old new).2 b else [] := by
  refine writes_loops (fun t name ht => ?_) (fun t sc ht => ?_) (fun f k => ?_) fun sc b => ?_
  · split
    · rfl
    · split
      · rfl
      · rw [bitWrites_append, (bitWrites_collect_of_ne ht _).1, (bitWrites_collect_of_ne ht _).2]
        rfl
  · dsimp only
    split <;> split <;> (try split) <;> simp [bitWrites_emit_of_ne ht]
  · by_cases hs : f ∈ cfg.shadowTargets <;> cases heq : fieldValuesEqual (old f) (new f) <;>
      simp [hs, bitWrites_removeOps, bitWrites_insertOps]
  · unfold sortChange
    cases sc.computed with
    | some computed => exact bitWrites_emitChange _ _
    | none =>
      cases heq : fieldValuesEqual (old sc.name) (new sc.name) with
      | false =>
        exact bitWrites_emitChange _ _
      | true =>
        have hsame : Alike (old sc.name) (new sc.name) := .inr heq
        simp [hsame.index.2.2, sortDiffWrites_self]

/-- The loops of a fresh insert. -/
theorem writes_freshOps : cfg.Writes slot (cfg.freshOps slot none new)
      (fun f k => if f ∈ cfg.shadowTargets then [] else replicate ((new.keys f).count k) true)
      fun sc b => if b < sc.bits then ((sc.freshValue new).map (sortBit · b)).toList else [] := by
  refine writes_loops (fun t name ht => ?_) (fun t sc ht => ?_) (fun f k => ?_) fun sc b => ?_
  · split
    · rfl
    · exact (bitWrites_collect_of_ne ht _).2
  · cases sc.freshValue new with
    | none => rfl
    | some v => exact (bitWrites_sortOps_of_ne ht v none none).2.1
  · split
    · rfl
    · exact bitWrites_insertOps
  · cases sc.freshValue new with
    | none => simp
    | some v => exact (bitWrites_overwriteBitsOps v).trans (by simp)

theorem mem_bitWrites {v : Bool} {ops : List MutationOp} :
    v ∈ bitWrites t slot ops ↔ ∃ op ∈ ops, op.write t slot = some v := by
  simp [bitWrites]

/-- A shadow is written to its own key and cleared from the other one. -/
theorem mem_filterWrites_shadowOps {v : Bool} : v ∈ bitWrites (.filter f k) slot (cfg.shadowOps slot d) ↔
      ∃ s ∈ cfg.deriveExistsBooleanShadows d, s.1 = f ∧ shadowKey (s.2 == v) = k := by
  rw [mem_bitWrites, shadowOps]
  simp only [mem_flatMap]
  constructor
  · rintro ⟨op, ⟨⟨name, derived⟩, hs, hop⟩, hwrite⟩
    refine ⟨⟨name, derived⟩, hs, ?_⟩
    cases derived <;> cases v <;> simp [write] at hop hwrite <;>
      rcases hop with rfl | rfl <;> simp_all [shadowKey]
  · rintro ⟨⟨name, derived⟩, hs, rfl, rfl⟩
    cases v
    · refine ⟨.filterRemove name (shadowKey (!derived)) [slot], ⟨⟨name, derived⟩, hs, ?_⟩, ?_⟩ <;>
        cases derived <;> simp [write, shadowKey]
    · refine ⟨.filterInsert name (shadowKey derived) [slot], ⟨⟨name, derived⟩, hs, ?_⟩, ?_⟩ <;>
        cases derived <;> simp [write, shadowKey]

theorem shadow_mem_targets {s : String × Bool} (h : s ∈ cfg.deriveExistsBooleanShadows d) :
    s.1 ∈ cfg.shadowTargets := by
  simp only [deriveExistsBooleanShadows, mem_map] at h
  obtain ⟨fm, hfm, rfl⟩ := h
  exact mem_map_of_mem hfm

theorem bitWrites_shadowOps_eq_nil (h : ∀ f k, f ∈ cfg.shadowTargets → t ≠ .filter f k) :
    bitWrites t slot (cfg.shadowOps slot d) = [] := by
  refine bitWrites_flatMap_eq_nil fun s hs => ?_
  have ht : ∀ k, t ≠ .filter s.1 k := fun k => h s.1 k (shadow_mem_targets hs)
  cases s.2 <;> simp [bitWrites, write, ht]

/-- Two mappings with one target derive the same value. -/
def ShadowsAgree (cfg : Config) (doc : Document) : Prop :=
  ∀ s ∈ cfg.deriveExistsBooleanShadows doc, ∀ s' ∈ cfg.deriveExistsBooleanShadows doc,
    s.1 = s'.1 → s.2 = s'.2

/-- Shadows that agree write one value to a bit. -/
theorem ShadowsAgree.writes_eq (h : cfg.ShadowsAgree d) {v w : Bool}
    (hv : v ∈ bitWrites (.filter f k) slot (cfg.shadowOps slot d))
    (hw : w ∈ bitWrites (.filter f k) slot (cfg.shadowOps slot d)) : v = w := by
  obtain ⟨s, hs, hname, hkey⟩ := mem_filterWrites_shadowOps.mp hv
  obtain ⟨s', hs', hname', hkey'⟩ := mem_filterWrites_shadowOps.mp hw
  have hderived : s.2 = s'.2 := h s hs s' hs' (hname.trans hname'.symm)
  have hbeq := shadowKey_inj (hkey.trans hkey'.symm)
  rw [hderived] at hbeq
  have hcancel : ∀ e v w : Bool, (e == v) = (e == w) → v = w := by decide
  exact hcancel s'.2 v w hbeq

theorem Quiet.shadowOps (h : cfg.Quiet t) : bitWrites t slot (cfg.shadowOps slot d) = [] :=
  bitWrites_shadowOps_eq_nil fun f k _ => h.1 f k

end Config

/-! ## A document inserted alone -/

section Refresh

variable {cfg : Config} {slot : UInt32} {t : Target} {doc : Document} {now activateAt : UInt64}
  {f : String} {k : UInt64} {b : Nat} {old : Option Document} {isUpsert : Bool}

/-- The bit an empty slot has after a document was inserted into it. -/
def Config.shownBit (cfg : Config) (slot : UInt32) (doc : Document) (now : UInt64) (t : Target) : Bool :=
  (settle t.preferred (bitWrites t slot (diffDocument slot none doc cfg false now))).getD false

theorem bitWrites_singleton (op : MutationOp) : bitWrites t slot [op] = (op.write t slot).toList := by
  cases h : op.write t slot <;> simp [bitWrites, h]

/-- A deferred document shows nothing. -/
theorem shownBit_of_deferred (h : cfg.deferredUntil doc now = some activateAt) :
    cfg.shownBit slot doc now t = false := by
  simp [shownBit, diffDocument, h, bitWrites_singleton, write, settle]

/-- The writes of a visible document end with its shadows and its alive bit. -/
theorem bitWrites_visible (h : cfg.deferredUntil doc now = none) :
    bitWrites t slot (diffDocument slot old doc cfg isUpsert now) =
      (if isUpsert then bitWrites t slot (cfg.upsertOps slot (old.getD fun _ => none) doc)
        else bitWrites t slot (old.elim [] (clearOldOps cfg slot)) ++ bitWrites t slot (cfg.freshOps slot none doc)) ++
        bitWrites t slot (cfg.shadowOps slot doc) ++ ((aliveInsert [slot]).write t slot).toList := by
  rw [diffDocument, h]
  cases isUpsert <;> simp [bitWrites_singleton, freshOps]

/-- Neither of them writes a sort bit. -/
theorem bitWrites_visible_sort (h : cfg.deferredUntil doc now = none) :
    bitWrites (.sort f b) slot (diffDocument slot old doc cfg isUpsert now) =
      if isUpsert then bitWrites (.sort f b) slot (cfg.upsertOps slot (old.getD fun _ => none) doc)
      else bitWrites (.sort f b) slot (old.elim [] (clearOldOps cfg slot)) ++
        bitWrites (.sort f b) slot (cfg.freshOps slot none doc) := by
  rw [bitWrites_visible h, bitWrites_shadowOps_eq_nil (by simp)]
  simp [write]

/-- Falling back on the old document's source fields makes no difference to a computed sort field. -/
def KeepsSources (cfg : Config) (old new : Document) : Prop :=
  ∀ sc ∈ cfg.sortFields, ∀ computed, sc.computed = some computed →
    computedValue computed.op (computed.sourceFields.filterMap fun f =>
        (fieldToSortU32 new f).or (fieldToSortU32 old f)) =
      computedValue computed.op (computed.sourceFields.filterMap (fieldToSortU32 new))

/-- Everything a document shows can be read off its own fields: shadows and computed values are stored too. -/
def SpelledOut (cfg : Config) (doc : Document) : Prop :=
  (∀ s ∈ cfg.deriveExistsBooleanShadows doc, s.1 ∈ cfg.filterFields ∧ shadowKey s.2 ∈ doc.keys s.1) ∧
    ∀ sc ∈ cfg.sortFields, sc.freshValue doc = fieldToSortU32 doc sc.name

/-- The value an upsert gives a sort field: a source without a sort value in the new document keeps the old one. -/
def SortFieldConfig.upsertValue (sc : SortFieldConfig) (old new : Document) : Option UInt32 :=
  match sc.computed with
  | some computed =>
    computedValue computed.op (computed.sourceFields.filterMap fun f =>
      (fieldToSortU32 new f).or (fieldToSortU32 old f))
  | none => fieldToSortU32 new sc.name

theorem upsertValue_of_keepsSources {sc : SortFieldConfig} {old new : Document} (hsc : sc ∈ cfg.sortFields)
    (hkeep : KeepsSources cfg old new) : sc.upsertValue old new = sc.freshValue new := by
  unfold upsertValue freshValue
  cases hcomputed : sc.computed with
  | none => rfl
  | some computed => exact hkeep sc hsc computed hcomputed

/-- Sources that are equal where the new document has them make no difference. -/
theorem filterMap_or_eq {old new : Document} {sources : List String}
    (h : ∀ f ∈ sources, (new f).isSome = true → fieldValuesEqual (old f) (new f) = true) :
    (sources.filterMap fun f => (fieldToSortU32 new f).or (fieldToSortU32 old f)) =
      sources.filterMap (fieldToSortU32 old) := by
  refine filterMap_congr fun f hf => ?_
  cases hnew : new f with
  | none => simp [fieldToSortU32, hnew]
  | some v =>
    have halike : Alike (old f) (new f) := .inr (h f hf (by simp [hnew]))
    rw [← halike.index.2.2, Option.or_self]

/-- An upsert moves a sort field from the old value to `upsertValue`, or leaves it where they agree. -/
theorem sortChange_upsertValue (sc : SortFieldConfig) (old new : Document) :
    (sortChange sc old new = (none, none) ∧ sc.freshValue old = sc.upsertValue old new) ∨
      sortChange sc old new = (sc.freshValue old, sc.upsertValue old new) := by
  unfold sortChange freshValue upsertValue
  cases sc.computed with
  | none => exact .inr rfl
  | some computed =>
    simp only [resolveComputedSort]
    split
    · exact .inr rfl
    · rename_i hchanged
      refine .inl ⟨rfl, ?_⟩
      rw [filterMap_or_eq]
      intro f hf hnew
      by_contra hne
      apply hchanged
      rw [any_eq_true]
      exact ⟨f, hf, by simp [hnew, hne]⟩

/-- Such a change leaves the bit of the other value. -/
theorem settle_sortDiffWrites {change : Option UInt32 × Option UInt32} {v w : Option UInt32}
    (h : (change = (none, none) ∧ v = w) ∨ change = (v, w)) :
    (settle true (sortDiffWrites change.1 change.2 b)).getD (optBit v b) = optBit w b := by
  rw [(Settle.Settling.of_length_le_one (length_sortDiffWrites_le _ _)).settle_eq]
  rcases h with ⟨rfl, rfl⟩ | rfl
  · rfl
  · exact getLast?_sortDiffWrites _ _

theorem shows_sort_iff {sc : SortFieldConfig} (hsc : sc ∈ cfg.sortFields) :
    cfg.Shows doc (.sort sc.name b) ↔ b < sc.bits ∧ optBit (sc.freshValue doc) b = true := by
  constructor
  · rintro ⟨sc', hsc', hname, h⟩
    rw [inj_on_of_nodup_map cfg.sort_nodup hsc' hsc hname] at h
    exact h
  · exact fun h => ⟨sc, hsc, rfl, h⟩

/-- Every shadow target has a derived value in every document. -/
theorem exists_shadow (hf : f ∈ cfg.shadowTargets) (doc : Document) :
    ∃ s ∈ cfg.deriveExistsBooleanShadows doc, s.1 = f := by
  obtain ⟨fm, hfm, rfl⟩ := mem_map.mp hf
  exact ⟨_, mem_map_of_mem hfm, rfl⟩

theorem shows_filter_of_shadow (hf : f ∈ cfg.shadowTargets) :
    cfg.Shows doc (.filter f k) ↔ true ∈ bitWrites (.filter f k) slot (cfg.shadowOps slot doc) := by
  rw [mem_filterWrites_shadowOps]
  simp [Config.Shows, hf]

theorem shows_filter_of_not_shadow (hf : f ∉ cfg.shadowTargets) :
    cfg.Shows doc (.filter f k) ↔ f ∈ cfg.filterFields ∧ k ∈ doc.keys f := by
  simp only [Config.Shows, hf, not_false_eq_true, true_and, or_iff_left_iff_imp]
  rintro ⟨s, hs, rfl, -⟩
  exact absurd (shadow_mem_targets hs) hf

theorem bitWrites_shadowOps_of_not_target (hf : f ∉ cfg.shadowTargets) :
    bitWrites (.filter f k) slot (cfg.shadowOps slot doc) = [] := by
  refine bitWrites_shadowOps_eq_nil fun f' k' hf' heq => hf ?_
  cases heq
  exact hf'

/-- A shadow bit of another document is either shown by this one or cleared by it. -/
theorem shadow_cleared {o : Document} (hf : f ∈ cfg.shadowTargets)
    (ho : cfg.Shows o (.filter f k)) (hdoc : ¬cfg.Shows doc (.filter f k)) :
    false ∈ bitWrites (.filter f k) slot (cfg.shadowOps slot doc) := by
  have hshows : ∀ d : Document, cfg.Shows d (.filter f k) ↔
      true ∈ bitWrites (.filter f k) slot (cfg.shadowOps slot d) := fun d => shows_filter_of_shadow hf
  rw [hshows, mem_filterWrites_shadowOps] at ho hdoc
  obtain ⟨s, -, -, hkey⟩ := ho
  obtain ⟨s', hs', hname'⟩ := exists_shadow hf doc
  refine mem_filterWrites_shadowOps.mpr ⟨s', hs', hname', ?_⟩
  have hne : s'.2 ≠ s.2 := fun heq => hdoc ⟨s', hs', hname', by rw [heq]; exact hkey⟩
  cases h' : s'.2 <;> cases h : s.2 <;> simp_all

theorem eq_false_of_mem_clearOldOps {w : Bool}
    (hw : w ∈ bitWrites t slot (old.elim [] (clearOldOps cfg slot))) : w = false := by
  obtain ⟨op, hop, hwrite⟩ := mem_bitWrites.mp hw
  simp only [mem_elim_nil, clearOldOps, collectFilterRemoveOps, clearSetBitsOps, mem_append, mem_flatMap,
    mem_map] at hop
  obtain ⟨o, -, ⟨name, -, v, -, key, -, rfl⟩ | ⟨sc, -, v, -, bit, -, rfl⟩⟩ := hop
  · simp only [write] at hwrite
    split at hwrite <;> cases hwrite
    rfl
  · simp only [write] at hwrite
    split at hwrite <;> cases hwrite
    rfl

variable {before : Target → Bool}

theorem true_notMem_clearOldOps : true ∉ bitWrites t slot (old.elim [] (clearOldOps cfg slot)) :=
  fun hmem => Bool.noConfusion (eq_false_of_mem_clearOldOps hmem)

/-- **Filter bits of a visible document.** -/
theorem settle_filter_iff (h : cfg.deferredUntil doc now = none)
    (hup : isUpsert = true → ∃ o, old = some o ∧ ∀ t, before t = true ↔ cfg.Shows o t)
    (hfresh : isUpsert = false → ∀ t, before t = false) : (settle true
        (bitWrites (.filter f k) slot (diffDocument slot old doc cfg isUpsert now))).getD
          (before (.filter f k)) = true ↔ cfg.Shows doc (.filter f k) := by
  have halive : ((aliveInsert [slot]).write (.filter f k) slot).toList = [] := by
    simp [write]
  rw [bitWrites_visible h, halive, append_nil, getD_settle_true_iff]
  -- a shadow target is written by the shadows only, any other field by the filter loop only
  by_cases hs : f ∈ cfg.shadowTargets
  · have hshows : cfg.Shows doc (.filter f k) ↔
        true ∈ bitWrites (.filter f k) slot (cfg.shadowOps slot doc) := shows_filter_of_shadow hs
    cases isUpsert with
    | true =>
      obtain ⟨o, rfl, hbefore⟩ := hup rfl
      simp only [if_true, Option.getD_some, writes_upsertOps.filter, hs, not_true_eq_false,
        false_and, if_false, ite_self, nil_append, ← hshows, hbefore]
      exact ⟨fun hor => hor.elim id fun hand => by_contra fun hdoc =>
        hand.1 (shadow_cleared hs hand.2 hdoc), .inl⟩
    | false => simp [writes_freshOps.filter, hs, true_notMem_clearOldOps, hfresh rfl, hshows]
  · rw [bitWrites_shadowOps_of_not_target hs, shows_filter_of_not_shadow hs]
    cases isUpsert with
    | true =>
      obtain ⟨o, rfl, hbefore⟩ := hup rfl
      rw [hbefore, shows_filter_of_not_shadow hs]
      simp only [if_true, Option.getD_some, writes_upsertOps.filter, hs, not_false_eq_true, true_and]
      by_cases hf : f ∈ cfg.filterFields
      · cases heq : fieldValuesEqual (o f) (doc f) with
        | true =>
          have halike : Alike (o f) (doc f) := .inr heq
          simp [hf, halike.index.2.1]
        | false => simp [hf, mem_replicate, count_eq_zero]
      · simp [hf]
    | false =>
      by_cases hf : f ∈ cfg.filterFields <;>
        simp [writes_freshOps.filter, hs, hf, true_notMem_clearOldOps, hfresh rfl, count_eq_zero]

/-- A sort field is configured, or its bits are quiet. -/
theorem exists_sortField_or_quiet (cfg : Config) (f : String) (b : Nat) :
    (∃ sc ∈ cfg.sortFields, sc.name = f) ∨ cfg.Quiet (.sort f b) := by
  by_cases hf : ∃ sc ∈ cfg.sortFields, sc.name = f
  · exact .inl hf
  · refine .inr ⟨by simp, fun sc hsc b' heq => hf ⟨sc, hsc, ?_⟩⟩
    cases heq
    rfl

theorem Config.Quiet.not_shows (hquiet : cfg.Quiet (.sort f b)) : ¬cfg.Shows doc (.sort f b) := by
  rintro ⟨sc, hsc, rfl, -⟩
  exact hquiet.2 sc hsc b rfl

theorem Config.Quiet.visible (hquiet : cfg.Quiet t) (h : cfg.deferredUntil doc now = none) :
    bitWrites t slot (diffDocument slot old doc cfg isUpsert now) = ((aliveInsert [slot]).write t slot).toList := by
  rw [bitWrites_visible h, hquiet.shadowOps]
  have hcleared : bitWrites t slot (old.elim [] (clearOldOps cfg slot)) = [] := by
    cases old with
    | none => rfl
    | some o => exact writes_clearOldOps.quiet t hquiet
  cases isUpsert <;> simp [hcleared, writes_upsertOps.quiet t hquiet, writes_freshOps.quiet t hquiet]

section Visible

variable (h : cfg.deferredUntil doc now = none)
  (hup : isUpsert = true → ∃ o, old = some o ∧ (∀ t, before t = true ↔ cfg.Shows o t) ∧ KeepsSources cfg o doc)
  (hfresh : isUpsert = false → ∀ t, before t = false)

include h hup hfresh

/-- **Sort bits of a visible document.** -/
theorem settle_sort_iff : (settle true (bitWrites (.sort f b) slot (diffDocument slot old doc cfg isUpsert now))).getD
          (before (.sort f b)) = true ↔ cfg.Shows doc (.sort f b) := by
  rcases exists_sortField_or_quiet cfg f b with ⟨sc, hsc, rfl⟩ | hquiet
  · rw [bitWrites_visible_sort h, shows_sort_iff hsc]
    cases isUpsert with
    | true =>
      obtain ⟨o, rfl, hbefore, hkeep⟩ := hup rfl
      have hold := hbefore (.sort sc.name b)
      rw [shows_sort_iff hsc] at hold
      simp only [if_true, Option.getD_some, writes_upsertOps.sort sc hsc]
      by_cases hb : b < sc.bits
      · have hbit : before (.sort sc.name b) = optBit (sc.freshValue o) b := by
          rw [Bool.eq_iff_iff, hold]
          simp [hb]
        rw [if_pos hb, hbit, settle_sortDiffWrites (sortChange_upsertValue sc o doc),
          upsertValue_of_keepsSources hsc hkeep, and_iff_right hb]
      · simpa [hb, settle] using hold
    | false =>
      rw [getD_settle_true_iff]
      by_cases hb : b < sc.bits <;> simp [writes_freshOps.sort sc hsc, true_notMem_clearOldOps, hb,
        hfresh rfl, optBit, Option.any_eq_true]
  · have hfalse : before (.sort f b) = false := by
      cases isUpsert with
      | true =>
        obtain ⟨o, -, hbefore, -⟩ := hup rfl
        exact Bool.eq_false_iff.mpr fun hb => hquiet.not_shows ((hbefore _).mp hb)
      | false => exact hfresh rfl _
    rw [hquiet.visible h]
    simp [write, settle, hfalse, hquiet.not_shows]

/-- **A visible document in place of another.** From the stored document's bits, or an empty slot, the diff ends with
the new document's bits. -/
theorem settle_visible_iff : (settle t.preferred
        (bitWrites t slot (diffDocument slot old doc cfg isUpsert now))).getD (before t) = true ↔
      cfg.Shows doc t := by
  cases t with
  | filter f k =>
    refine settle_filter_iff h (fun hu => ?_) hfresh
    obtain ⟨o, ho, hbefore, -⟩ := hup hu
    exact ⟨o, ho, hbefore⟩
  | sort f b => exact settle_sort_iff h hup hfresh
  | alive =>
    rw [quiet_alive.visible h]
    simp [write, Config.Shows]

omit hup hfresh

/-- **A visible document inserted alone** shows its own bits and no others. -/
theorem shownBit_iff : cfg.shownBit slot doc now t = true ↔ cfg.Shows doc t :=
  settle_visible_iff h (by simp) fun _ _ => rfl

/-- The ops of a visible document come in settling order. -/
theorem settling_visible (hagree : cfg.ShadowsAgree doc) :
    Settle.Settling t.preferred (bitWrites t slot (diffDocument slot old doc cfg isUpsert now)) := by
  have hcleared : ∀ w ∈ bitWrites t slot (old.elim [] (clearOldOps cfg slot)), w ≠ true :=
    fun w hw htrue => true_notMem_clearOldOps (htrue ▸ hw)
  cases t with
  | filter f k =>
    have hshadow : Settle.Settling true (bitWrites (.filter f k) slot (cfg.shadowOps slot doc)) := by
      cases hw : bitWrites (.filter f k) slot (cfg.shadowOps slot doc) with
      | nil => exact .nil
      | cons w ws =>
        refine .of_forall (b := w) fun v hv => ?_
        rw [← hw] at hv
        exact hagree.writes_eq hv (hw ▸ mem_cons_self)
    have halive : ((aliveInsert [slot]).write (.filter f k) slot).toList = [] := by
      simp [write]
    rw [bitWrites_visible h, halive, append_nil]
    by_cases hs : f ∈ cfg.shadowTargets
    · cases isUpsert with
      | true => simpa [writes_upsertOps.filter, hs, Target.preferred] using hshadow
      | false =>
        simpa [writes_freshOps.filter, hs, Target.preferred] using
          hshadow.append_left hcleared
    · rw [bitWrites_shadowOps_of_not_target hs, append_nil]
      have htrues : ∀ n, Settle.Settling true (replicate n true) := fun n =>
        .of_forall fun v hv => (mem_replicate.mp hv).2
      cases isUpsert with
      | true =>
        simp only [if_true, writes_upsertOps.filter, ← ite_and]
        split
        · refine (htrues _).append_left fun w hw => ?_
          rw [(mem_replicate.mp hw).2]
          exact Bool.false_ne_true
        · exact .nil
      | false =>
        simp only [Bool.false_eq_true, if_false, writes_freshOps.filter]
        refine Settle.Settling.append_left ?_ hcleared
        split
        · exact htrues _
        · exact .nil
  | sort f b =>
    rcases exists_sortField_or_quiet cfg f b with ⟨sc, hsc, rfl⟩ | hquiet
    · rw [bitWrites_visible_sort h]
      cases isUpsert with
      | true =>
        simp only [if_true, writes_upsertOps.sort sc hsc]
        split
        · exact .of_length_le_one (length_sortDiffWrites_le _ _)
        · exact .nil
      | false =>
        simp only [Bool.false_eq_true, if_false, writes_freshOps.sort sc hsc]
        refine Settle.Settling.append_left ?_ hcleared
        split
        · cases sc.freshValue doc with
          | none => exact .nil
          | some v => exact .singleton _
        · exact .nil
    · rw [hquiet.visible h]
      simp [write, Settle.Settling.nil]
  | alive =>
    rw [quiet_alive.visible h]
    simp [write, Settle.Settling.singleton]

end Visible

/-! ### Deferring a document -/

theorem bitWrites_deferred (h : cfg.deferredUntil doc now = some activateAt) :
    bitWrites t slot (diffDocument slot old doc cfg isUpsert now) =
      bitWrites t slot (old.elim [] fun o => clearOldOps cfg slot o ++ [.aliveRemove [slot]]) := by
  rw [diffDocument, h]
  simp [bitWrites_singleton, write]

/-- Deferring a document only clears bits. -/
theorem eq_false_of_mem_deferred {w : Bool} (h : cfg.deferredUntil doc now = some activateAt)
    (hw : w ∈ bitWrites t slot (diffDocument slot old doc cfg isUpsert now)) : w = false := by
  rw [bitWrites_deferred h] at hw
  cases old with
  | none => cases hw
  | some o =>
    rw [Option.elim_some, bitWrites_append, mem_append] at hw
    rcases hw with hw | hw
    · exact eq_false_of_mem_clearOldOps (show w ∈ bitWrites t slot ((some o).elim [] _) from hw)
    · rw [bitWrites_singleton] at hw
      simp only [write] at hw
      split at hw <;> simp at hw
      exact hw

theorem settling_deferred (h : cfg.deferredUntil doc now = some activateAt) :
    Settle.Settling t.preferred (bitWrites t slot (diffDocument slot old doc cfg isUpsert now)) :=
  .of_forall fun _ hw => eq_false_of_mem_deferred h hw

/-- **A spelled-out document** is cleared completely. -/
theorem SpelledOut.cleared {o : Document} (hspelled : SpelledOut cfg o) (hshows : cfg.Shows o t) :
    false ∈ bitWrites t slot (clearOldOps cfg slot o ++ [.aliveRemove [slot]]) := by
  rw [bitWrites_append, mem_append]
  cases t with
  | filter f k =>
    left
    rw [writes_clearOldOps.filter]
    have hkey : f ∈ cfg.filterFields ∧ k ∈ o.keys f := by
      rcases hshows with ⟨hf, -, hk⟩ | ⟨s, hs, rfl, rfl⟩
      · exact ⟨hf, hk⟩
      · exact hspelled.1 s hs
    simp [hkey, mem_replicate, count_eq_zero]
  | sort f b =>
    left
    obtain ⟨sc, hsc, rfl, hb⟩ := hshows
    rw [hspelled.2 sc hsc] at hb
    rw [writes_clearOldOps.sort sc hsc, if_pos hb]
    exact mem_cons_self
  | alive =>
    right
    simp [bitWrites_singleton, write]

/-- **Deferring** leaves nothing of a spelled-out document. -/
theorem settle_deferred (h : cfg.deferredUntil doc now = some activateAt)
    (hup : isUpsert = true → ∃ o, old = some o ∧ (∀ t, before t = true ↔ cfg.Shows o t) ∧ SpelledOut cfg o)
    (hfresh : isUpsert = false → ∀ t, before t = false) : (settle t.preferred
        (bitWrites t slot (diffDocument slot old doc cfg isUpsert now))).getD (before t) = false := by
  rw [(settling_deferred h).settle_eq]
  cases hlast : (bitWrites t slot (diffDocument slot old doc cfg isUpsert now)).getLast? with
  | some w => exact eq_false_of_mem_deferred h (mem_of_getLast? hlast)
  | none =>
    rw [getLast?_eq_none_iff] at hlast
    cases isUpsert with
    | false => exact hfresh rfl t
    | true =>
      obtain ⟨o, rfl, hbefore, hspelled⟩ := hup rfl
      refine Bool.eq_false_iff.mpr fun hb => ?_
      have hmem : false ∈ bitWrites t slot (clearOldOps cfg slot o ++ [.aliveRemove [slot]]) :=
        hspelled.cleared ((hbefore t).mp hb)
      rw [bitWrites_deferred h, Option.elim_some] at hlast
      rw [hlast] at hmem
      cases hmem

/-! ## The diff refreshes the slot -/

/-- What a put needs for its diff to be right, given the document the slot shows if it is alive. -/
def Refreshable (cfg : Config) (shown : Option Document) (doc : Document) (now : UInt64) : Prop :=
  match cfg.deferredUntil doc now with
  | some _ => ∀ o, shown = some o → SpelledOut cfg o
  | none => cfg.ShadowsAgree doc ∧ ∀ o, shown = some o → KeepsSources cfg o doc

/-- **Refreshing.** A diff against the document a live slot shows, or anything when the slot is empty, writes every
bit in settling order and ends with what the new document shows alone. -/
theorem diffDocument_refreshes
    (hup : isUpsert = true → ∃ o, old = some o ∧ ∀ t, before t = true ↔ cfg.Shows o t)
    (hfresh : isUpsert = false → ∀ t, before t = false)
    (hput : Refreshable cfg (if isUpsert then old else none) doc now) (t : Target) :
    Settle.Settling t.preferred (bitWrites t slot (diffDocument slot old doc cfg isUpsert now)) ∧
      (bitWrites t slot (diffDocument slot old doc cfg isUpsert now)).getLast?.getD (before t) =
        cfg.shownBit slot doc now t := by
  unfold Refreshable at hput
  cases h : cfg.deferredUntil doc now with
  | some activateAt =>
    rw [h] at hput
    refine ⟨settling_deferred h, ?_⟩
    rw [← (settling_deferred h).settle_eq, shownBit_of_deferred h]
    refine settle_deferred h (fun hu => ?_) hfresh
    obtain ⟨o, ho, hbefore⟩ := hup hu
    exact ⟨o, ho, hbefore, hput o (by rw [if_pos hu, ho])⟩
  | none =>
    rw [h] at hput
    obtain ⟨hagree, hkeep⟩ := hput
    refine ⟨settling_visible h hagree, ?_⟩
    rw [← (settling_visible h hagree).settle_eq, Bool.eq_iff_iff, shownBit_iff h]
    refine settle_visible_iff h (fun hu => ?_) hfresh
    obtain ⟨o, ho, hbefore⟩ := hup hu
    exact ⟨o, ho, hbefore, hkeep o (by rw [if_pos hu, ho])⟩

end Refresh

end Bitdex
