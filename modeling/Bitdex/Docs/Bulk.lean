import Bitdex.Docs.Store

/-!
# `Docs.Bulk` — the two bulk writers of the document store

A dump writes documents past the store (`shard_store_doc.rs`). The `ShardStoreBulkWriter` keeps tuples of a field and
a value in memory and merges them into the shard snapshots when flushed; the `StreamingDocWriter` appends ops to the
shard files, which a reader sees after `finalize`. Both leave out values that equal the schema default.

`effective` is the document of a slot once all the writer holds is in the files. Every call is one of a few kinds of
write to it (`effective_next`), and `Meets` says for each kind when the fields it writes are read back and the others
stay. Outside it a value that goes back to the default leaves no trace, a `Create` drops the other fields, a `Merge`
unites lists of integers, and a buffered null is read as an empty list.

Of a failing disk only a flush that cannot write a shard is modelled.
-/

namespace Bitdex

open LastWrite DocFields List AList Prod DocStoreV3 DocFiles
open Option (bind_some getD_some map_some none_or some.inj)

/-! ## One field of a document -/

/-- A list of integers as a set, any other value as it is. -/
def PackedValue.asSet : PackedValue → Finset Int64 ⊕ PackedValue
  | .mi ns => .inl ns.toFinset
  | v => .inr v

namespace DocFields

/-- No field stands in the document twice. -/
def Distinct (fields : DocFields) : Prop := (fields.map fst).Nodup

variable {fields ws : DocFields} {f g : UInt16} {v : PackedValue} {change : PackedValue → PackedValue}

/-- The values of a field; there can be several. -/
def valuesAt (fields : DocFields) (f : UInt16) : List PackedValue :=
  fields.filterMap fun p => if p.1 = f then some p.2 else none

theorem valuesAt_cons (p : UInt16 × PackedValue) :
    valuesAt (p :: fields) g = if p.1 = g then p.2 :: fields.valuesAt g else fields.valuesAt g := by
  split <;> simp_all [valuesAt]

theorem valuesAt_clear : (fields.clear f).valuesAt g = if g = f then [] else fields.valuesAt g := by
  induction fields with
  | nil => exact (ite_self _).symm
  | cons p fields ih => grind [clear, valuesAt_cons]

theorem valuesAt_upsert : (fields.upsert f change v).valuesAt g =
      if f = g then (fields.valuesAt g).head?.elim v change :: (fields.valuesAt g).tail else fields.valuesAt g := by
  induction fields with
  | nil => exact valuesAt_cons (f, v)
  | cons p fields ih => grind [upsert, valuesAt_cons]

theorem value_cons (p : UInt16 × PackedValue) :
    value (p :: fields) g = (fields.value g).or (if p.1 = g then some p.2 else none) := last_cons

theorem value_of_notMem (h : g ∉ fields.map fst) : fields.value g = none := by
  refine last_eq_none_iff.mpr fun p hp => if_neg ?_
  rintro rfl
  exact h (mem_map_of_mem hp)

theorem notMem_of_value (h : fields.value g = none) : g ∉ fields.map fst := by
  intro hmem
  obtain ⟨p, hp, rfl⟩ := mem_map.mp hmem
  have hnone := last_eq_none_iff.mp h p hp
  rw [if_pos rfl] at hnone
  cases hnone

theorem mem_of_value (h : fields.value f = some v) : (f, v) ∈ fields := by
  obtain ⟨p, hp, hw⟩ := mem_of_last_eq_some h
  split at hw
  · next hp1 =>
    rw [← hp1, ← some.inj hw]
    exact hp
  · cases hw

theorem value_of_mem (hd : fields.Distinct) (h : (f, v) ∈ fields) : fields.value f = some v := by
  refine last_eq_some_of_agree h (if_pos rfl) fun p hp w hw => ?_
  split at hw
  · next hp1 =>
    have heq : p = (f, v) := inj_on_of_nodup_map hd hp h hp1
    rw [← some.inj hw, heq]
  · cases hw

theorem value_upsert_ne (h : g ≠ f) : (fields.upsert f change v).value g = fields.value g :=
  congrArg getLast? (valuesAt_upsert.trans (if_neg (Ne.symm h)))

theorem valuesAt_of_distinct (hd : fields.Distinct) : fields.valuesAt f = (fields.value f).toList := by
  induction fields with
  | nil => rfl
  | cons p fields ih =>
    obtain ⟨hnot, hrest⟩ := nodup_cons.mp hd
    rw [valuesAt_cons, value_cons, ih hrest]
    split
    · next hp => rw [value_of_notMem (hp ▸ hnot)]; rfl
    · rw [Option.or_none]

theorem value_upsert_self (hd : fields.Distinct) :
    (fields.upsert f change v).value f = some ((fields.value f).elim v change) := by
  show ((fields.upsert f change v).valuesAt f).getLast? = _
  rw [valuesAt_upsert, if_pos rfl, valuesAt_of_distinct hd]
  cases fields.value f <;> rfl

theorem map_fst_upsert : (fields.upsert f change v).map fst =
      if f ∈ fields.map fst then fields.map fst else fields.map fst ++ [f] := by
  induction fields with
  | nil => rfl
  | cons p fields ih =>
    rw [upsert]
    by_cases hp : p.1 = f
    · simp [hp]
    · rw [if_neg hp, map_cons, ih]
      simp only [map_cons, mem_cons, Ne.symm hp, false_or]
      split
      · rfl
      · rfl

theorem Distinct.upsert (hd : fields.Distinct) : (fields.upsert f change v).Distinct := by
  rw [Distinct, map_fst_upsert]
  split
  · exact hd
  · next hnot =>
    refine nodup_append.mpr ⟨hd, nodup_singleton f, ?_⟩
    rintro a ha b hb rfl
    exact hnot (mem_singleton.mp hb ▸ ha)

theorem Distinct.of_upsert (hd : (fields.upsert f change v).Distinct) : fields.Distinct := by
  rw [Distinct, map_fst_upsert] at hd
  split at hd
  · exact hd
  · exact (nodup_append.mp hd).1

theorem value_clear : (fields.clear f).value g = if g = f then none else fields.value g :=
  (congrArg getLast? valuesAt_clear).trans (apply_ite getLast? _ _ _)

theorem Distinct.clear (hd : fields.Distinct) : (fields.clear f).Distinct :=
  List.Nodup.sublist (filter_sublist.map fst) hd

/-! ### One field after the other -/

/-- A step that writes one field and leaves the others alone. -/
structure FieldStep (step : DocFields → UInt16 × PackedValue → DocFields)
    (upd : PackedValue → Option PackedValue → Option PackedValue) : Prop where
  other : ∀ (fields : DocFields) p g, g ≠ p.1 → (step fields p).value g = fields.value g
  self : ∀ (fields : DocFields) p, fields.Distinct → (step fields p).value p.1 = upd p.2 (fields.value p.1)
  distinct : ∀ (fields : DocFields) p, fields.Distinct → (step fields p).Distinct

variable {step : DocFields → UInt16 × PackedValue → DocFields}
  {upd : PackedValue → Option PackedValue → Option PackedValue}

theorem FieldStep.value_of_notMem (h : FieldStep step upd) (hg : g ∉ ws.map fst) :
    (ws.foldl step fields).value g = fields.value g := by
  refine foldl_view (·.value g) (fun p hp fields => h.other fields p g ?_) fields
  rintro rfl
  exact hg (mem_map_of_mem hp)

theorem FieldStep.value_of_mem (h : FieldStep step upd) (hws : ws.Distinct) (hd : fields.Distinct)
    (hmem : (f, v) ∈ ws) : (ws.foldl step fields).value f = upd v (fields.value f) := by
  induction ws generalizing fields with
  | nil => cases hmem
  | cons p ws ih =>
    obtain ⟨hnot, hrest⟩ := nodup_cons.mp hws
    rw [foldl_cons]
    rcases mem_cons.mp hmem with rfl | hmem
    · rw [h.value_of_notMem hnot]
      exact h.self fields (f, v) hd
    · have hne : f ≠ p.1 := by
        rintro rfl
        exact hnot (mem_map.mpr ⟨_, hmem, rfl⟩)
      rw [ih hrest (h.distinct fields p hd) hmem, h.other fields p f hne]

/-- A buffered tuple: the value replaces what is there, null included. -/
def overlayField (fields : DocFields) (p : UInt16 × PackedValue) : DocFields := fields.upsert p.1 (fun _ => p.2) p.2

/-- Buffered values over stored ones. -/
def overlay (fields buffered : DocFields) : DocFields := buffered.foldl overlayField fields

theorem fieldStep_overlayField : FieldStep overlayField fun v _ => some v where
  other _ _ _ hg := value_upsert_ne hg
  self fields p hd := by
    rw [overlayField, value_upsert_self hd]
    cases fields.value p.1 <;> rfl
  distinct _ _ hd := hd.upsert

theorem Distinct.of_overlay (hd : (fields.overlay ws).Distinct) : fields.Distinct := by
  induction ws generalizing fields with
  | nil => exact hd
  | cons p ws ih => exact (ih hd).of_upsert

theorem fieldStep_set : FieldStep (fun fields p => fields.set p.1 p.2) fun v _ => v.assign where
  other fields p g hg := by
    obtain ⟨f, v⟩ := p
    cases v with
    | null => exact value_clear.trans (if_neg hg)
    | _ => exact value_upsert_ne hg
  self fields p hd := by
    obtain ⟨f, v⟩ := p
    cases v with
    | null => exact value_clear.trans (if_pos rfl)
    | _ =>
      refine (value_upsert_self hd).trans ?_
      cases fields.value f <;> rfl
  distinct fields p hd := by
    obtain ⟨f, v⟩ := p
    cases v with
    | null => exact hd.clear
    | _ => exact hd.upsert

/-- What a merge makes of a value. -/
def mergedValue (v : PackedValue) (old : Option PackedValue) : Option PackedValue :=
  match v, old with
  | .null, _ => none
  | .mi incoming, some (.mi existing) => some (.mi (union existing incoming))
  | v, _ => some v

theorem fieldStep_mergeField : FieldStep mergeField mergedValue where
  other fields p g hg := by
    obtain ⟨f, v⟩ := p
    cases v with
    | null => exact value_clear.trans (if_neg hg)
    | _ => exact value_upsert_ne hg
  self fields p hd := by
    obtain ⟨f, v⟩ := p
    cases v with
    | null => exact value_clear.trans (if_pos rfl)
    | _ =>
      refine (value_upsert_self hd).trans ?_
      cases fields.value f with
      | none => rfl
      | some old => cases old <;> rfl
  distinct fields p hd := by
    obtain ⟨f, v⟩ := p
    cases v with
    | null => exact hd.clear
    | _ => exact hd.upsert

/-! ### Merges in any order -/

/-- The values of a field, lists of integers as sets. -/
def sets (fields : DocFields) (f : UInt16) : List (Finset Int64 ⊕ PackedValue) :=
  (fields.valuesAt f).map PackedValue.asSet

/-- What a merge makes of the values of its field. -/
def mergeSets : List (Finset Int64 ⊕ PackedValue) → PackedValue → List (Finset Int64 ⊕ PackedValue)
  | _, .null => []
  | .inl s :: rest, .mi ns => .inl (s ∪ ns.toFinset) :: rest
  | sets, v => v.asSet :: sets.tail

theorem toFinset_union (ms ns : List Int64) : (union ms ns).toFinset = ms.toFinset ∪ ns.toFinset := by
  rw [union]
  induction ns generalizing ms with
  | nil => simp
  | cons n ns ih =>
    rw [foldl_cons, ih]
    split
    · next hn => simp [hn]
    · simp

theorem sets_mergeField (p : UInt16 × PackedValue) :
    (mergeField fields p).sets f = if p.1 = f then mergeSets (fields.sets f) p.2 else fields.sets f := by
  obtain ⟨g, v⟩ := p
  by_cases hg : f = g
  · subst hg
    cases hvalues : fields.valuesAt f with
    | nil => cases v <;> simp [mergeField, sets, valuesAt_clear, valuesAt_upsert, mergeSets, hvalues]
    | cons old rest =>
      cases v <;> cases old <;>
        simp [mergeField, sets, valuesAt_clear, valuesAt_upsert, mergeSets, hvalues, PackedValue.asSet, toFinset_union]
  · cases v <;> simp [mergeField, sets, valuesAt_clear, valuesAt_upsert, hg, Ne.symm hg]

/-- **Merges, seen from one field**: only the values given to it count. -/
theorem sets_foldl_mergeField :
    (ws.foldl mergeField fields).sets f = (ws.valuesAt f).foldl mergeSets (fields.sets f) := by
  induction ws generalizing fields with
  | nil => rfl
  | cons p ws ih =>
    rw [foldl_cons, ih, sets_mergeField, valuesAt_cons]
    split
    · rfl
    · rfl

/-- Every field is given lists of integers only, or one value everywhere. -/
def Uniform (ws : DocFields) : Prop := ∀ f, (∀ v ∈ ws.valuesAt f, ∃ ns, v = .mi ns) ∨ ∃ w, ∀ v ∈ ws.valuesAt f, v = w

theorem Uniform.absorbed (h : ws.Uniform) : Absorbed mergeSets (· ∈ ws.valuesAt f) where
  comm v w hv hw sets := by
    rcases h f with hlists | ⟨u, hsame⟩
    · obtain ⟨ms, rfl⟩ := hlists v hv
      obtain ⟨ns, rfl⟩ := hlists w hw
      rcases sets with _ | ⟨s | _, rest⟩ <;> simp [mergeSets, PackedValue.asSet, Finset.union_comm ms.toFinset]
    · rw [hsame v hv, hsame w hw]
  idem v _ sets := by
    rcases sets with _ | ⟨s | _, rest⟩ <;> cases v <;> simp [mergeSets, PackedValue.asSet]

end DocFields

/-- **Merges of a document can be applied in any order and repeated**, if every field is given lists of integers only
or one value everywhere: each field then depends only on which ops there are. -/
theorem DocOp.merge_any_order {ops ops' : List DocFields} (slot : UInt32) (doc : DocFields) (f : UInt16)
    (huniform : Uniform ops.flatten) (hmem : ∀ fields, fields ∈ ops ↔ fields ∈ ops') :
    ((ops.map (merge slot)).foldl (fun doc op => op.applyTo doc) (some doc)).map (·.sets f) =
      ((ops'.map (merge slot)).foldl (fun doc op => op.applyTo doc) (some doc)).map (·.sets f) := by
  have hfold : ∀ (ops : List DocFields) (doc : DocFields),
      (ops.map (merge slot)).foldl (fun doc op => op.applyTo doc) (some doc) =
        some (ops.flatten.foldl mergeField doc) := by
    intro ops
    induction ops with
    | nil => exact fun _ => rfl
    | cons fields ops ih =>
      intro doc
      rw [flatten_cons, foldl_append]
      exact ih _
  rw [hfold, hfold, map_some, map_some, sets_foldl_mergeField, sets_foldl_mergeField]
  refine congrArg some (huniform.absorbed.foldl_eq (fun _ => id) ?_ _)
  simp [valuesAt, hmem]

/-- Two lists and a null, the other way round and repeated. -/
theorem DocOp.merge_any_order_repeated :
    let ops : List DocFields := [[(1, .mi [2]), (3, .null)], [(1, .mi [4, 2])]]
    let doc : DocFields := [(3, .i 5)]
    ((ops.map (merge 0)).foldl (fun doc op => op.applyTo doc) (some doc)).map (·.sets 1) =
      (((ops.reverse ++ ops).map (merge 0)).foldl (fun doc op => op.applyTo doc) (some doc)).map (·.sets 1) := by
  refine merge_any_order 0 _ 1 (fun f => ?_) (by simp)
  by_cases hf : 1 = f
  · subst hf
    exact .inl (by simp [valuesAt])
  · exact .inr ⟨.null, by simp [valuesAt, hf]⟩

/-- The values that are not left out. -/
def DocStoreV3.kept (s : DocStoreV3) (fields : DocFields) : DocFields := fields.filter fun p => !s.elided p.1 p.2

/-- The tuples whose bytes are a value. -/
def decoded (tuples : List (UInt16 × Option PackedValue)) : DocFields := tuples.filterMap fun t => t.2.map (t.1, ·)

/-! ## The buffering writer -/

/-- The documents it holds, by shard and slot. -/
structure ShardStoreBulkWriter where
  buffers : HashMap UInt32 (HashMap UInt32 DocFields)

namespace ShardStoreBulkWriter

variable (w : ShardStoreBulkWriter)

/-- What is buffered for a slot. -/
def buffered (x : UInt32) : Option DocFields := ((w.buffers.lookup (slotToShard x)).getD ∅).lookup x

/-- Change what is held for a slot. -/
def hold (slot : UInt32) (change : DocFields → DocFields) : ShardStoreBulkWriter :=
  let shard := (w.buffers.lookup (slotToShard slot)).getD ∅
  ⟨w.buffers.insert (slotToShard slot) (shard.insert slot (change ((shard.lookup slot).getD [])))⟩

/-- Buffer one tuple. -/
def appendTupleRaw (s : DocStoreV3) (slot : UInt32) (field : UInt16) (value : Option PackedValue) :
    ShardStoreBulkWriter :=
  match value with
  | none => w
  | some v => if s.elided field v then w else w.hold slot (· ++ [(field, v)])

def appendTuplesRaw (s : DocStoreV3) (slot : UInt32) (tuples : List (UInt16 × Option PackedValue)) :
    ShardStoreBulkWriter :=
  if tuples.isEmpty then w else w.hold slot (· ++ s.kept (decoded tuples))

/-- One document of `write_batch_encoded`: it takes the place of what was held for the slot. -/
def writeEncoded (slot : UInt32) (pairs : DocFields) : ShardStoreBulkWriter := w.hold slot fun _ => pairs

/-- Merge a buffer into a document. -/
def mergeSlot (snapshot : DocSnapshot) (slot : UInt32) (fields : DocFields) : DocSnapshot :=
  snapshot.insert slot (((snapshot.lookup slot).getD []).overlay fields)

/-- The documents of a shard, merged into its snapshot. -/
def mergeShard (snapshot : DocSnapshot) (data : HashMap UInt32 DocFields) : DocSnapshot :=
  data.entries.foldl (fun snapshot e => mergeSlot snapshot e.1 e.2) snapshot

/-- One shard of a flush. The first shard that cannot be written ends it; its data is held on to. -/
def flushShard (fails : UInt32 → Bool) (st : ShardStoreBulkWriter × DocFiles × Bool) (key : UInt32) :
    ShardStoreBulkWriter × DocFiles × Bool :=
  let data := (st.1.buffers.lookup key).getD ∅
  if st.2.2 || data.entries.isEmpty then st
  else if fails key then (st.1, st.2.1, true)
  else (⟨st.1.buffers.insert key ∅⟩, st.2.1.writeSnapshot key (mergeShard ((st.2.1.read key).getD ∅) data), false)

/-- The writer, the files and whether the flush failed. -/
def flushToShardstore (fails : UInt32 → Bool) (files : DocFiles) : ShardStoreBulkWriter × DocFiles × Bool :=
  w.buffers.keys.foldl (flushShard fails) (w, files, false)

/-- The document of a slot once it has been flushed. -/
def effective (files : DocFiles) (x : UInt32) : Option DocFields :=
  (w.buffered x).elim (files.doc x) fun b => some (((files.doc x).getD []).overlay b)

variable {w} {slot x : UInt32} {change : DocFields → DocFields} {files : DocFiles} {fails : UInt32 → Bool}
  {keys : List UInt32} {st : ShardStoreBulkWriter × DocFiles × Bool}

theorem buffered_hold :
    (w.hold slot change).buffered x = if slot = x then some (change ((w.buffered x).getD [])) else w.buffered x := by
  rw [buffered, hold]
  by_cases hx : slot = x
  · subst hx
    rw [if_pos rfl, lookup_insert, getD_some, lookup_insert]
    rfl
  · rw [if_neg hx]
    by_cases hshard : slotToShard x = slotToShard slot
    · rw [hshard, lookup_insert, getD_some, lookup_insert_ne (Ne.symm hx), buffered, hshard]
    · rw [lookup_insert_ne hshard, buffered]

theorem effective_hold : (w.hold slot change).effective files x =
      if some slot = some x then some (((files.doc x).getD []).overlay (change ((w.buffered x).getD [])))
      else w.effective files x := by
  rw [effective, buffered_hold]
  simp only [Option.some.injEq]
  split
  · rfl
  · rfl

/-- What is held with more tuples behind it. -/
theorem overlay_buffered_append (more : DocFields) : ((files.doc x).getD []).overlay ((w.buffered x).getD [] ++ more) =
      ((w.effective files x).getD []).overlay more := by
  rw [effective]
  cases w.buffered x with
  | none => rfl
  | some b => exact foldl_append

theorem lookup_mergeShard (snapshot : DocSnapshot) (data : HashMap UInt32 DocFields) :
    (mergeShard snapshot data).lookup x =
      (data.lookup x).elim (snapshot.lookup x) fun b => some (((snapshot.lookup x).getD []).overlay b) :=
  view_foldl (fun (snapshot : DocSnapshot) x => snapshot.lookup x)
    (fun _ b doc => some ((doc.getD []).overlay b)) fun _ _ _ _ => lookup_insert_eq_ite

/-- **A flush moves documents and does not change them**, shard by shard. -/
theorem effective_flushShard (key : UInt32) :
    (flushShard fails st key).1.effective (flushShard fails st key).2.1 x = st.1.effective st.2.1 x := by
  rw [flushShard]
  split
  · rfl
  · split
    · rfl
    · by_cases hkey : slotToShard x = key
      · subst hkey
        have hnone : buffered ⟨st.1.buffers.insert (slotToShard x) ∅⟩ x = none := by
          rw [buffered, lookup_insert]
          rfl
        rw [effective, hnone]
        show (DocFiles.writeSnapshot _ _ _).doc x = _
        rw [DocFiles.doc, DocFiles.read, DocFiles.writeSnapshot, Function.update_self]
        show (mergeShard _ _).lookup x = _
        rw [lookup_mergeShard, effective, DocFiles.doc]
        cases DocFiles.read st.2.1 (slotToShard x) with
        | none | some snapshot => rfl
      · have hbuffered : buffered ⟨st.1.buffers.insert key ∅⟩ x = st.1.buffered x := by
          rw [buffered, lookup_insert_ne hkey, buffered]
        have hdoc : DocFiles.doc (st.2.1.writeSnapshot key
            (mergeShard ((st.2.1.read key).getD ∅) ((st.1.buffers.lookup key).getD ∅))) x = st.2.1.doc x := by
          rw [DocFiles.doc, DocFiles.read, DocFiles.writeSnapshot, Function.update_of_ne hkey, DocFiles.doc,
            DocFiles.read]
        rw [effective, hbuffered, hdoc, effective]

theorem effective_foldl_flushShard :
    (keys.foldl (flushShard fails) st).1.effective (keys.foldl (flushShard fails) st).2.1 x = st.1.effective st.2.1 x :=
  foldl_view (fun st : ShardStoreBulkWriter × DocFiles × Bool => st.1.effective st.2.1 x)
    (fun key _ _ => effective_flushShard key) st

/-- Where no shard fails, the shards that are looked at are empty afterwards. -/
theorem buffered_foldl_flushShard (hok : st.2.2 = false) (hx : slotToShard x ∈ keys ∨ st.1.buffered x = none) :
    (keys.foldl (flushShard fun _ => false) st).1.buffered x = none := by
  induction keys generalizing st with
  | nil => exact hx.resolve_left not_mem_nil
  | cons key keys ih =>
    rw [mem_cons, or_assoc] at hx
    have hstep : (flushShard (fun _ => false) st key).2.2 = false ∧ (slotToShard x = key ∨ st.1.buffered x = none →
          (flushShard (fun _ => false) st key).1.buffered x = none) := by
      rw [flushShard, hok, Bool.false_or]
      by_cases hempty : ((st.1.buffers.lookup key).getD ∅).entries.isEmpty = true
      · rw [if_pos hempty]
        refine ⟨hok, fun h => h.elim (fun hkey => ?_) id⟩
        subst hkey
        have hnil := isEmpty_iff.mp hempty
        rw [buffered, AList.lookup, hnil]
        rfl
      · rw [if_neg hempty, if_neg Bool.false_ne_true]
        refine ⟨rfl, fun h => ?_⟩
        rw [buffered]
        by_cases hkey : slotToShard x = key
        · rw [hkey, lookup_insert]
          rfl
        · rw [lookup_insert_ne hkey]
          exact h.resolve_left hkey
    refine ih hstep.1 ?_
    rcases hx with hkey | hmem | hnone
    · exact .inr (hstep.2 (.inl hkey))
    · exact .inl hmem
    · exact .inr (hstep.2 (.inr hnone))

/-- **A flush that does not fail** leaves the documents in the files. -/
theorem doc_flushToShardstore : (w.flushToShardstore (fun _ => false) files).2.1.doc x = w.effective files x := by
  have heffective : (w.flushToShardstore (fun _ => false) files).1.effective _ x = w.effective files x :=
    effective_foldl_flushShard
  have hnone : (w.flushToShardstore (fun _ => false) files).1.buffered x = none := by
    refine buffered_foldl_flushShard rfl ?_
    by_cases hmem : slotToShard x ∈ w.buffers.keys
    · exact .inl hmem
    · refine .inr ?_
      show ((w.buffers.lookup (slotToShard x)).getD ∅).lookup x = none
      rw [lookup_eq_none.mpr hmem]
      rfl
  rw [← heffective, effective]
  show _ = ((w.flushToShardstore (fun _ => false) files).1.buffered x).elim _ _
  rw [hnone]
  rfl

end ShardStoreBulkWriter

/-! ## The streaming writer -/

/-- The ops that it has written behind the shard files and not yet finalized. -/
structure StreamingDocWriter where
  pending : List DocOp

namespace StreamingDocWriter

variable (w : StreamingDocWriter)

/-- Queue an op. -/
def writeOp (op : DocOp) : StreamingDocWriter := ⟨w.pending ++ [op]⟩

/-- Queue a document. -/
def writeDoc (s : DocStoreV3) (slot : UInt32) (fields : DocFields) : StreamingDocWriter :=
  if (s.kept fields).isEmpty then w else w.writeOp (.create slot (s.kept fields))

/-- Queue a merge. -/
def writeMergeDoc (s : DocStoreV3) (slot : UInt32) (fields : DocFields) : StreamingDocWriter :=
  if (s.kept fields).isEmpty then w else w.writeOp (.merge slot (s.kept fields))

def writeField (s : DocStoreV3) (slot : UInt32) (field : UInt16) (value : PackedValue) : StreamingDocWriter :=
  if s.elided field value then w else w.writeOp (.set slot field value)

def appendTuplesRaw (s : DocStoreV3) (slot : UInt32) (tuples : List (UInt16 × Option PackedValue)) :
    StreamingDocWriter := w.writeDoc s slot (decoded tuples)

def appendTuplesMerge (s : DocStoreV3) (slot : UInt32) (tuples : List (UInt16 × Option PackedValue)) :
    StreamingDocWriter := w.writeMergeDoc s slot (decoded tuples)

/-- The fields of an encoded `Merge`; none is left out. -/
def appendMergePayload (slot : UInt32) (fields : DocFields) : StreamingDocWriter := w.writeOp (.merge slot fields)

def appendTupleRaw (s : DocStoreV3) (slot : UInt32) (field : UInt16) (value : Option PackedValue) :
    StreamingDocWriter :=
  match value with
  | none => w
  | some v => w.writeField s slot field v

/-- Append what is queued. -/
def finalize (files : DocFiles) : StreamingDocWriter × DocFiles := (⟨[]⟩, files.appendBatch w.pending)

/-- The document of a slot once the writer is finalized. -/
def effective (files : DocFiles) (x : UInt32) : Option DocFields := DocFiles.replayed w.pending x (files.doc x)

variable {w} {files : DocFiles} {x : UInt32}

theorem effective_writeOp (op : DocOp) : (w.writeOp op).effective files x =
      if some op.slot = some x then op.applyTo (w.effective files x) else w.effective files x := by
  simp only [Option.some.injEq]
  exact replayed_concat w.pending op x (files.doc x)

theorem effective_finalize : (w.finalize files).1.effective (w.finalize files).2 x = w.effective files x :=
  doc_appendBatch files w.pending x

end StreamingDocWriter

/-! ## A load with either writer -/

/-- Either bulk writer. -/
inductive DocBulkWriter where
  | shardStore (w : ShardStoreBulkWriter)
  | streaming (w : StreamingDocWriter)

/-- The store that the writer was prepared from, with its files as they are now. -/
structure BulkLoad where
  store : DocStoreV3
  writer : DocBulkWriter

/-- The calls: the first two for both writers, `writeEncoded` and `flush` for the buffering one, the rest for the
streaming one. -/
inductive BulkCall where
  | appendTupleRaw (slot : UInt32) (field : UInt16) (value : Option PackedValue)
  | appendTuplesRaw (slot : UInt32) (tuples : List (UInt16 × Option PackedValue))
  | writeEncoded (slot : UInt32) (pairs : DocFields)
  | flush (fails : UInt32 → Bool)
  | writeDoc (slot : UInt32) (fields : DocFields)
  | writeMergeDoc (slot : UInt32) (fields : DocFields)
  | writeField (slot : UInt32) (field : UInt16) (value : PackedValue)
  | appendTuplesMerge (slot : UInt32) (tuples : List (UInt16 × Option PackedValue))
  | appendMergePayload (slot : UInt32) (fields : DocFields)
  | finalize

/-- The ways in which a call writes fields to the document of its slot. -/
inductive WriteKind where
  /-- Buffered tuples; `touch` if the document is created without a field. -/
  | tuples (touch : Bool)
  /-- A buffered document in the place of what was buffered. -/
  | encoded
  | create
  | set
  | merge
  /-- A merge that leaves no value out. -/
  | payload
deriving DecidableEq

namespace BulkCall

/-- The slot a call writes. -/
def slot? : BulkCall → Option UInt32
  | appendTupleRaw slot _ _ => some slot
  | appendTuplesRaw slot _ => some slot
  | writeEncoded slot _ => some slot
  | writeDoc slot _ => some slot
  | writeMergeDoc slot _ => some slot
  | writeField slot _ _ => some slot
  | appendTuplesMerge slot _ => some slot
  | appendMergePayload slot _ => some slot
  | flush _ => none
  | finalize => none

/-- The fields a call writes. -/
def fields : BulkCall → DocFields
  | appendTupleRaw _ field value => (value.map (field, ·)).toList
  | appendTuplesRaw _ tuples => decoded tuples
  | writeEncoded _ pairs => pairs
  | writeDoc _ fields => fields
  | writeMergeDoc _ fields => fields
  | writeField _ field value => [(field, value)]
  | appendTuplesMerge _ tuples => decoded tuples
  | appendMergePayload _ fields => fields
  | flush _ => []
  | finalize => []

/-- How a call writes. -/
def kind : DocBulkWriter → BulkCall → WriteKind
  | .shardStore _, appendTupleRaw _ _ _ => .tuples false
  | .shardStore _, appendTuplesRaw _ tuples => .tuples !tuples.isEmpty
  | .streaming _, appendTupleRaw _ _ _ => .set
  | .streaming _, appendTuplesRaw _ _ => .create
  | _, writeEncoded _ _ => .encoded
  | _, writeDoc _ _ => .create
  | _, writeField _ _ _ => .set
  | _, appendMergePayload _ _ => .payload
  | _, _ => .merge

/-- The last value that the calls write to a field of a slot. -/
def lastValue (x : UInt32) (f : UInt16) (calls : List BulkCall) : Option PackedValue :=
  last (fun call => if call.slot? = some x then call.fields.value f else none) calls

end BulkCall

namespace BulkLoad

variable (st : BulkLoad)

/-- The document once all is written. -/
def effective (x : UInt32) : Option DocFields :=
  match st.writer with
  | .shardStore w => w.effective st.store.files x
  | .streaming w => w.effective st.store.files x

/-- What the writer holds for a slot outside the files. -/
def buffered (x : UInt32) : Option DocFields :=
  match st.writer with
  | .shardStore w => w.buffered x
  | .streaming _ => none

def withFiles (files : DocFiles) (writer : DocBulkWriter) : BulkLoad := ⟨{ st.store with files := files }, writer⟩

/-- One call; a writer without that method takes no step. -/
def next (call : BulkCall) : Option BulkLoad :=
  match st.writer, call with
  | .shardStore w, .appendTupleRaw slot field value =>
    some ⟨st.store, .shardStore (w.appendTupleRaw st.store slot field value)⟩
  | .shardStore w, .appendTuplesRaw slot tuples =>
    some ⟨st.store, .shardStore (w.appendTuplesRaw st.store slot tuples)⟩
  | .shardStore w, .writeEncoded slot pairs => some ⟨st.store, .shardStore (w.writeEncoded slot pairs)⟩
  | .shardStore w, .flush fails =>
    let flushed := w.flushToShardstore fails st.store.files
    some (st.withFiles flushed.2.1 (.shardStore flushed.1))
  | .streaming w, .appendTupleRaw slot field value =>
    some ⟨st.store, .streaming (w.appendTupleRaw st.store slot field value)⟩
  | .streaming w, .appendTuplesRaw slot tuples =>
    some ⟨st.store, .streaming (w.appendTuplesRaw st.store slot tuples)⟩
  | .streaming w, .writeDoc slot fields => some ⟨st.store, .streaming (w.writeDoc st.store slot fields)⟩
  | .streaming w, .writeMergeDoc slot fields => some ⟨st.store, .streaming (w.writeMergeDoc st.store slot fields)⟩
  | .streaming w, .writeField slot field value =>
    some ⟨st.store, .streaming (w.writeField st.store slot field value)⟩
  | .streaming w, .appendTuplesMerge slot tuples =>
    some ⟨st.store, .streaming (w.appendTuplesMerge st.store slot tuples)⟩
  | .streaming w, .appendMergePayload slot fields =>
    some ⟨st.store, .streaming (w.appendMergePayload slot fields)⟩
  | .streaming w, .finalize =>
    let finalized := w.finalize st.store.files
    some (st.withFiles finalized.2 (.streaming finalized.1))
  | _, _ => none

/-- The load after a last flush that does not fail, or a last `finalize`. -/
def finish : BulkLoad :=
  match st.writer with
  | .shardStore w =>
    let flushed := w.flushToShardstore (fun _ => false) st.store.files
    st.withFiles flushed.2.1 (.shardStore flushed.1)
  | .streaming w =>
    let finalized := w.finalize st.store.files
    st.withFiles finalized.2 (.streaming finalized.1)

theorem doc_finish (x : UInt32) : st.finish.store.files.doc x = st.effective x := by
  obtain ⟨s, writer⟩ := st
  cases writer with
  | shardStore w => exact ShardStoreBulkWriter.doc_flushToShardstore
  | streaming w => exact doc_appendBatch s.files w.pending x

end BulkLoad

/-! ## What a call does to the document -/

namespace WriteKind

variable (s : DocStoreV3) (kind : WriteKind)

/-- Whether values that equal their default are left out. -/
def elides : WriteKind → Bool
  | encoded => false
  | payload => false
  | _ => true

/-- Whether the document is written even without a field. -/
def touches : WriteKind → Bool
  | tuples touch => touch
  | encoded => true
  | payload => true
  | _ => false

/-- The values a kind of write keeps. -/
def keptFields (ws : DocFields) : DocFields := if kind.elides then s.kept ws else ws

/-- Nothing is left to write. -/
def skips (ws : DocFields) : Bool := (kind.keptFields s ws).isEmpty && !kind.touches

/-- The document that the fields are written to. -/
def start (base doc : Option DocFields) : DocFields :=
  match kind with
  | create => []
  | encoded => base.getD []
  | _ => doc.getD []

/-- The document after a write. -/
def write (start kept : DocFields) : DocFields :=
  match kind with
  | create => kept
  | tuples _ => start.overlay kept
  | encoded => start.overlay kept
  | set => kept.foldl (fun fields p => fields.set p.1 p.2) start
  | merge => kept.foldl mergeField start
  | payload => kept.foldl mergeField start

/-- The document after the call, from the one in the files and the effective one. -/
def effect (base : Option DocFields) (ws : DocFields) (doc : Option DocFields) : Option DocFields :=
  if kind.skips s ws then doc else some (kind.write (kind.start base doc) (kind.keptFields s ws))

theorem effect_of_elides {kind : WriteKind} (h : kind.elides = true) (base : Option DocFields) (ws : DocFields)
    (doc : Option DocFields) :
    kind.effect s base ws doc =
      if (s.kept ws).isEmpty && !kind.touches then doc else some (kind.write (kind.start base doc) (s.kept ws)) := by
  rw [effect, skips, keptFields, if_pos h]

theorem effect_of_touches {kind : WriteKind} (h : kind.touches = true) (base : Option DocFields) (ws : DocFields)
    (doc : Option DocFields) :
    kind.effect s base ws doc = some (kind.write (kind.start base doc) (kind.keptFields s ws)) := by
  rw [effect, skips, h, Bool.not_true, Bool.and_false, if_neg Bool.false_ne_true]

/-- What a call of the kind makes of a value. -/
def upd (v : PackedValue) (old : Option PackedValue) : Option PackedValue :=
  match kind with
  | set => v.assign
  | merge => mergedValue v old
  | payload => mergedValue v old
  | _ => some v

variable {kind} {start kept : DocFields} {f : UInt16} {v : PackedValue}

theorem value_write_of_mem (hkept : kept.Distinct) (hstart : start.Distinct) (h : (f, v) ∈ kept) :
    (kind.write start kept).value f = kind.upd v (start.value f) := by
  cases kind with
  | create => exact value_of_mem hkept h
  | tuples _ | encoded => exact fieldStep_overlayField.value_of_mem hkept hstart h
  | set => exact fieldStep_set.value_of_mem hkept hstart h
  | merge | payload => exact fieldStep_mergeField.value_of_mem hkept hstart h

theorem value_write_of_notMem (base doc : Option DocFields) (h : f ∉ kept.map fst) :
    (kind.write (kind.start base doc) kept).value f = (kind.start base doc).value f := by
  cases kind with
  | create => exact value_of_notMem h
  | tuples _ | encoded => exact fieldStep_overlayField.value_of_notMem h
  | set => exact fieldStep_set.value_of_notMem h
  | merge | payload => exact fieldStep_mergeField.value_of_notMem h

end WriteKind

namespace BulkLoad

variable {st st' : BulkLoad} {call : BulkCall} {x slot : UInt32} {s : DocStoreV3} {field : UInt16} {v : PackedValue}
  {w : ShardStoreBulkWriter}

/-- Tuples that are added to what is held for a slot. -/
theorem effective_hold_append (more : DocFields) : (w.hold slot (· ++ more)).effective s.files x =
      if some slot = some x then some (((w.effective s.files x).getD []).overlay more) else w.effective s.files x := by
  rw [ShardStoreBulkWriter.effective_hold, ShardStoreBulkWriter.overlay_buffered_append]

theorem kept_singleton : s.kept [(field, v)] = if s.elided field v then [] else [(field, v)] := by
  rw [kept, filter_singleton]
  cases s.elided field v <;> rfl

/-- A call of the streaming writer that leaves out defaults and, if anything is left, writes one op. -/
theorem effective_writeKept {w : StreamingDocWriter} {kind : WriteKind} {ws : DocFields} {op : DocOp}
    (helides : kind.elides = true) (htouches : kind.touches = false) (hslot : op.slot = slot)
    (happly : ∀ doc, op.applyTo doc = some (kind.write (kind.start (s.files.doc x) doc) (s.kept ws))) :
    (if (s.kept ws).isEmpty then w else w.writeOp op).effective s.files x =
      if some slot = some x then kind.effect s (s.files.doc x) ws (w.effective s.files x)
      else w.effective s.files x := by
  rw [WriteKind.effect_of_elides s helides, htouches, Bool.not_false]
  cases (s.kept ws).isEmpty with
  | true => exact (ite_self _).symm
  | false =>
    show (w.writeOp op).effective s.files x = _
    rw [StreamingDocWriter.effective_writeOp, hslot, happly]
    rfl

theorem effective_writeField {w : StreamingDocWriter} : (w.writeField s slot field v).effective s.files x =
      if some slot = some x then WriteKind.set.effect s (s.files.doc x) [(field, v)] (w.effective s.files x)
      else w.effective s.files x := by
  rw [StreamingDocWriter.writeField, WriteKind.effect_of_elides s rfl, kept_singleton]
  cases s.elided field v with
  | true => exact (ite_self _).symm
  | false => exact StreamingDocWriter.effective_writeOp (.set slot field v)

theorem effective_appendTupleRaw :
    (w.appendTupleRaw s slot field (some v)).effective s.files x = if some slot = some x then
        (WriteKind.tuples false).effect s (s.files.doc x) [(field, v)] (w.effective s.files x)
      else w.effective s.files x := by
  rw [ShardStoreBulkWriter.appendTupleRaw, WriteKind.effect_of_elides s rfl, kept_singleton]
  cases s.elided field v with
  | true => exact (ite_self _).symm
  | false => exact effective_hold_append [(field, v)]

theorem effective_appendTuplesRaw {tuples : List (UInt16 × Option PackedValue)} :
    (w.appendTuplesRaw s slot tuples).effective s.files x = if some slot = some x then
        (WriteKind.tuples !tuples.isEmpty).effect s (s.files.doc x) (decoded tuples) (w.effective s.files x)
      else w.effective s.files x := by
  cases tuples with
  | nil => exact (ite_self _).symm
  | cons t tuples =>
    rw [WriteKind.effect_of_touches s rfl]
    exact effective_hold_append (s.kept (decoded (t :: tuples)))

/-- **Every call is a write of its kind to the document of its slot**, and changes no other document, dictionary or
default. -/
theorem effective_next (h : st.next call = some st') :
    st'.store.dict = st.store.dict ∧ st'.store.fieldDefaults = st.store.fieldDefaults ∧ st'.effective x =
        if call.slot? = some x then
          (call.kind st.writer).effect st.store (st.store.files.doc x) call.fields (st.effective x)
        else st.effective x := by
  obtain ⟨s, writer⟩ := st
  cases writer with
  | shardStore w =>
    cases call with
    | appendTupleRaw slot field value =>
      obtain rfl := some.inj h
      cases value with
      | none => exact ⟨rfl, rfl, (ite_self _).symm⟩
      | some v => exact ⟨rfl, rfl, effective_appendTupleRaw⟩
    | appendTuplesRaw slot tuples =>
      obtain rfl := some.inj h
      exact ⟨rfl, rfl, effective_appendTuplesRaw⟩
    | writeEncoded slot pairs =>
      obtain rfl := some.inj h
      rw [WriteKind.effect_of_touches s rfl]
      exact ⟨rfl, rfl, ShardStoreBulkWriter.effective_hold⟩
    | flush fails =>
      obtain rfl := some.inj h
      exact ⟨rfl, rfl, ShardStoreBulkWriter.effective_foldl_flushShard⟩
    | _ => cases h
  | streaming w =>
    cases call with
    | appendTupleRaw slot field value =>
      obtain rfl := some.inj h
      cases value with
      | none => exact ⟨rfl, rfl, (ite_self _).symm⟩
      | some v => exact ⟨rfl, rfl, effective_writeField⟩
    | appendTuplesRaw slot tuples | writeDoc slot fields | writeMergeDoc slot fields
    | appendTuplesMerge slot tuples =>
      obtain rfl := some.inj h
      exact ⟨rfl, rfl, effective_writeKept rfl rfl rfl fun _ => rfl⟩
    | writeField slot field value =>
      obtain rfl := some.inj h
      exact ⟨rfl, rfl, effective_writeField⟩
    | appendMergePayload slot fields =>
      obtain rfl := some.inj h
      rw [WriteKind.effect_of_touches s rfl]
      exact ⟨rfl, rfl, StreamingDocWriter.effective_writeOp (.merge slot fields)⟩
    | finalize =>
      obtain rfl := some.inj h
      exact ⟨rfl, rfl, StreamingDocWriter.effective_finalize⟩
    | _ => cases h

end BulkLoad

/-! ## When the fields of a call are read back -/

/-- The value of a field in a document, if there is one. -/
def valueOf (doc : Option DocFields) (f : UInt16) : Option PackedValue := doc.bind (·.value f)

/-- What a read shows of a field. -/
def DocStoreV3.shown (s : DocStoreV3) (doc : Option DocFields) (f : UInt16) : Option FieldValue :=
  doc.bind fun fields => ((fields.value f).or (s.fieldDefaults.lookup f)).map packedToFieldValue

/-- What a read is to show once a value has been written: nothing for null. -/
def PackedValue.shownAs : PackedValue → Option FieldValue
  | .null => none
  | v => some (packedToFieldValue v)

namespace WriteKind

/-- Whether a null clears the field. -/
def clearsNull : WriteKind → Bool
  | set => true
  | merge => true
  | payload => true
  | _ => false

/-- Whether lists of integers are united. -/
def unites : WriteKind → Bool
  | merge => true
  | payload => true
  | _ => false

/-- **The condition on a written field.** A value left out is shown by its default, the slot has a document, and the
document has no value of the field or a new one takes its place. A null clears the field, which has no default. A list
of integers is not united with others. -/
def FieldMeets (s : DocStoreV3) (kind : WriteKind) (doc : Option DocFields) (ws : DocFields) (f : UInt16)
    (v : PackedValue) : Prop :=
  if (kind.elides && s.elided f v) = true then
    v.shownAs = (s.fieldDefaults.lookup f).map packedToFieldValue ∧
      (doc.isSome = true ∨ kind.skips s ws = false) ∧
      (valueOf doc f = none ∨ (kind = .create ∧ kind.skips s ws = false))
  else match v with
    | .null => kind.clearsNull = true ∧ s.fieldDefaults.lookup f = none
    | .mi vs => kind.unites = true → ∀ us, valueOf doc f = some (.mi us) → union us vs = vs
    | _ => True

/-- **The condition on a field not written.** A new document loses only values that their default shows, and a
buffered one only what was not buffered. -/
def OtherMeets (s : DocStoreV3) (kind : WriteKind) (buffered doc : Option DocFields) (ws : DocFields) (f : UInt16) :
    Prop :=
  match kind with
  | .create => kind.skips s ws = false → ∀ v, valueOf doc f = some v →
      some (packedToFieldValue v) = (s.fieldDefaults.lookup f).map packedToFieldValue
  | .encoded => valueOf buffered f = none
  | _ => True

/-- The condition on a write of some fields. -/
structure Meets (s : DocStoreV3) (kind : WriteKind) (buffered doc : Option DocFields) (ws : DocFields) : Prop where
  distinct : ws.Distinct
  document : (doc.getD []).Distinct
  fields : ∀ p ∈ ws, kind.FieldMeets s doc ws p.1 p.2
  others : ∀ f, f ∉ ws.map fst → kind.OtherMeets s buffered doc ws f

variable {s : DocStoreV3} {kind : WriteKind} {base buffered doc : Option DocFields} {ws : DocFields} {f : UInt16}
  {v : PackedValue}

theorem mem_keptFields {p : UInt16 × PackedValue} :
    p ∈ kind.keptFields s ws ↔ p ∈ ws ∧ (kind.elides && s.elided p.1 p.2) = false := by
  rw [keptFields]
  cases kind.elides with
  | true => simp [kept]
  | false => simp

theorem distinct_keptFields (h : ws.Distinct) : (kind.keptFields s ws).Distinct := by
  rw [keptFields]
  split
  · exact List.Nodup.sublist (filter_sublist.map fst) h
  · exact h

theorem value_getD (doc : Option DocFields) (f : UInt16) : (doc.getD []).value f = valueOf doc f := by
  cases doc <;> rfl

/-- The buffered document on top of the one in the files is the effective one. -/
def Overlays (kind : WriteKind) (base buffered doc : Option DocFields) : Prop :=
  kind = .encoded → doc = buffered.elim base fun b => some ((base.getD []).overlay b)

theorem Meets.distinct_start (h : kind.Meets s buffered doc ws) (hover : kind.Overlays base buffered doc) :
    (kind.start base doc).Distinct := by
  cases kind with
  | create => exact nodup_nil
  | encoded =>
    have hdoc := h.document
    rw [hover rfl] at hdoc
    cases buffered with
    | none => exact hdoc
    | some b => exact Distinct.of_overlay hdoc
  | _ => exact h.document

/-- A value that is written, and united with nothing, is shown. -/
theorem shown_upd {old dflt : Option PackedValue} (hnull : v ≠ .null)
    (hmi : ∀ vs, v = .mi vs → kind.unites = true → ∀ us, old = some (.mi us) → union us vs = vs) :
    ((kind.upd v old).or dflt).map packedToFieldValue = v.shownAs := by
  have hmerged : kind.unites = true → mergedValue v old = some v := by
    intro hunites
    cases v with
    | null => exact absurd rfl hnull
    | mi vs =>
      cases old with
      | none => rfl
      | some old =>
        cases old with
        | mi us => exact congrArg (some ∘ PackedValue.mi) (hmi vs rfl hunites us rfl)
        | _ => rfl
    | _ => rfl
  have hupd : kind.upd v old = some v := by
    cases kind with
    | merge | payload => exact hmerged rfl
    | set =>
      cases v with
      | null => exact absurd rfl hnull
      | _ => rfl
    | _ => rfl
  rw [hupd, Option.some_or]
  cases v with
  | null => exact absurd rfl hnull
  | _ => rfl

theorem shown_upd_null {old dflt : Option PackedValue} (hkind : kind.clearsNull = true) (hdflt : dflt = none) :
    ((kind.upd .null old).or dflt).map packedToFieldValue = PackedValue.null.shownAs := by
  rw [hdflt]
  cases kind with
  | set | merge | payload => rfl
  | _ => cases hkind

/-- **A field that is written** is shown afterwards. -/
theorem Meets.shown_of_mem (h : kind.Meets s buffered doc ws) (hover : kind.Overlays base buffered doc)
    (hmem : (f, v) ∈ ws) :
    (kind.effect s base ws doc).isSome = true ∧ s.shown (kind.effect s base ws doc) f = v.shownAs := by
  have hfield := h.fields (f, v) hmem
  unfold FieldMeets at hfield
  by_cases helided : (kind.elides && s.elided f v) = true
  · rw [if_pos helided] at hfield
    obtain ⟨hdefault, hexists, hvalue⟩ := hfield
    -- the field is not among the written ones
    have hnot : f ∉ (kind.keptFields s ws).map fst := by
      intro hkept
      obtain ⟨p, hp, rfl⟩ := mem_map.mp hkept
      obtain ⟨hpws, hpkept⟩ := mem_keptFields.mp hp
      have heq : p = (p.1, v) := inj_on_of_nodup_map h.distinct hpws hmem rfl
      rw [heq] at hpkept
      rw [helided] at hpkept
      cases hpkept
    cases hskips : kind.skips s ws with
    | true =>
      rw [hskips] at hexists hvalue
      have hsome := hexists.resolve_right (by simp)
      have hnone := hvalue.resolve_right (by simp)
      rw [effect, if_pos hskips]
      refine ⟨hsome, ?_⟩
      obtain ⟨fields, rfl⟩ := Option.isSome_iff_exists.mp hsome
      rw [shown, bind_some, show fields.value f = none from hnone, none_or, hdefault]
    | false =>
      have hstart : (kind.start base doc).value f = none := by
        cases kind with
        | create => rfl
        | encoded => cases helided
        | _ =>
          refine (value_getD doc f).trans (hvalue.resolve_right ?_)
          rintro ⟨hcreate, -⟩
          cases hcreate
      rw [effect, hskips, if_neg Bool.false_ne_true]
      refine ⟨rfl, ?_⟩
      rw [shown, bind_some, value_write_of_notMem base doc hnot, hstart, none_or, hdefault]
  · rw [if_neg helided] at hfield
    have hkept : (f, v) ∈ kind.keptFields s ws := mem_keptFields.mpr ⟨hmem, by simpa using helided⟩
    have hskips : kind.skips s ws = false := by
      rw [skips]
      cases hws : kind.keptFields s ws with
      | nil =>
        rw [hws] at hkept
        cases hkept
      | cons p ws => rfl
    rw [effect, hskips, if_neg Bool.false_ne_true]
    refine ⟨rfl, ?_⟩
    rw [shown, bind_some,
      value_write_of_mem (distinct_keptFields h.distinct) (h.distinct_start hover) hkept]
    cases v with
    | null => exact shown_upd_null hfield.1 hfield.2
    | mi vs =>
      refine shown_upd (fun hnull => by cases hnull) fun ws hws hunites us hus => ?_
      obtain rfl := PackedValue.mi.inj hws
      have hdoc : (kind.start base doc).value f = valueOf doc f := by
        cases kind with
        | merge | payload => exact value_getD doc f
        | _ => cases hunites
      exact hfield hunites us (hdoc.symm.trans hus)
    | _ => exact shown_upd (fun hnull => by cases hnull) fun ws hws => by cases hws

/-- **A field that is not written** is shown as before. -/
theorem Meets.shown_of_notMem (h : kind.Meets s buffered doc ws) (hover : kind.Overlays base buffered doc)
    (hdoc : doc.isSome = true) (hf : f ∉ ws.map fst) :
    (kind.effect s base ws doc).isSome = true ∧ s.shown (kind.effect s base ws doc) f = s.shown doc f := by
  rw [effect]
  cases hskips : kind.skips s ws with
  | true => exact ⟨hdoc, rfl⟩
  | false =>
    have hnot : f ∉ (kind.keptFields s ws).map fst := by
      intro hkept
      obtain ⟨p, hp, rfl⟩ := mem_map.mp hkept
      exact hf (mem_map_of_mem (mem_keptFields.mp hp).1)
    refine ⟨rfl, ?_⟩
    obtain ⟨fields, rfl⟩ := Option.isSome_iff_exists.mp hdoc
    rw [if_neg Bool.false_ne_true, shown, bind_some, value_write_of_notMem base (some fields) hnot,
      shown, bind_some]
    have hother := h.others f hf
    cases kind with
    | create =>
      show (s.fieldDefaults.lookup f).map packedToFieldValue = _
      cases hv : fields.value f with
      | none => rfl
      | some v => exact (hother hskips v hv).symm
    | encoded =>
      have hfields := hover rfl
      cases buffered with
      | none =>
        obtain rfl : some fields = base := hfields
        rfl
      | some b =>
        -- the document in the files has the field as it is shown now
        obtain rfl := some.inj hfields
        have hb : f ∉ b.map fst := notMem_of_value hother
        rw [overlay, fieldStep_overlayField.value_of_notMem hb]
        rfl
    | _ => rfl

end WriteKind

namespace BulkLoad

variable {st₀ st st' : BulkLoad} {call : BulkCall} {calls : List BulkCall} {x : UInt32} {f : UInt16} {v : PackedValue}

/-- **The condition on a call**, from the document of the slot before it. -/
def Meets (x : UInt32) (st : BulkLoad) (call : BulkCall) : Prop :=
  call.slot? = some x →
    (call.kind st.writer).Meets st.store (st.buffered x) (st.effective x) call.fields

theorem overlays_of_next (h : st.next call = some st') :
    (call.kind st.writer).Overlays (st.store.files.doc x) (st.buffered x) (st.effective x) := by
  intro hkind
  obtain ⟨s, writer⟩ := st
  cases writer with
  | shardStore w => rfl
  | streaming w =>
    cases call with
    | writeEncoded slot pairs => cases h
    | _ => cases hkind

theorem lastValue_concat : BulkCall.lastValue x f (calls ++ [call]) =
      (if call.slot? = some x then call.fields.value f else none).or (BulkCall.lastValue x f calls) := last_concat

/-- The fields written last so far are shown. -/
def Shown (x : UInt32) (calls : List BulkCall) (st : BulkLoad) : Prop :=
  ∀ f v, BulkCall.lastValue x f calls = some v →
    (st.effective x).isSome = true ∧ st.store.shown (st.effective x) f = v.shownAs

/-- **One call** keeps that. -/
theorem Shown.next (hshown : Shown x calls st) (hmeets : Meets x st call) (h : st.next call = some st') :
    Shown x (calls ++ [call]) st' := by
  intro f v hlast
  obtain ⟨-, hdefaults, heffective⟩ := effective_next (x := x) h
  have hstore : ∀ doc, st'.store.shown doc f = st.store.shown doc f := by
    intro doc
    rw [shown, hdefaults, shown]
  rw [lastValue_concat] at hlast
  rw [hstore, heffective]
  by_cases hslot : call.slot? = some x
  · rw [if_pos hslot] at hlast ⊢
    have hm := hmeets hslot
    cases hvalue : call.fields.value f with
    | some w =>
      rw [hvalue] at hlast
      obtain rfl := some.inj hlast
      exact hm.shown_of_mem (overlays_of_next h) (mem_of_value hvalue)
    | none =>
      rw [hvalue] at hlast
      obtain ⟨hsome, heq⟩ := hshown f v hlast
      rw [← heq]
      exact hm.shown_of_notMem (overlays_of_next h) hsome (notMem_of_value hvalue)
  · rw [if_neg hslot] at hlast ⊢
    exact hshown f v hlast

/-- **In every run whose calls all meet the condition, the last value written to a field is read back** once the
writer is flushed or finalized. -/
theorem last_write_wins {name : String}
    (h : Reaches (fun st call st' => BulkLoad.next st call = some st') (Meets x) st₀ calls st)
    (hlast : BulkCall.lastValue x f calls = some v) (hname : st₀.store.dict.fieldIndex name = some f) :
    (st.finish.store.get x).bind (·.fields.lookup name) = v.shownAs := by
  have hrun : st.store.dict = st₀.store.dict ∧ Shown x calls st := by
    refine Reaches.invariant (fun calls st => st.store.dict = st₀.store.dict ∧ Shown x calls st) ⟨rfl, ?_⟩ ?_ h
    · intro f v hnone
      cases hnone
    · rintro calls st call st' ⟨hdict, hshown⟩ hmeets hnext
      exact ⟨(effective_next (x := x) hnext).1.trans hdict, hshown.next hmeets hnext⟩
  obtain ⟨hdict, hshown⟩ := hrun
  have hstore : st.finish.store.dict = st.store.dict ∧ st.finish.store.fieldDefaults = st.store.fieldDefaults := by
    obtain ⟨s, writer⟩ := st
    cases writer <;> exact ⟨rfl, rfl⟩
  have hindex : st.finish.store.dict.fieldIndex name = some f := by rw [hstore.1, hdict, hname]
  rw [DocStoreV3.get, doc_finish, ← (hshown f v hlast).2]
  cases st.effective x with
  | none => rfl
  | some fields =>
    refine (DocStoreV3.lookup_fieldsToStoredDoc hindex fields).trans ?_
    rw [hstore.2]
    rfl

/-! ### A field with a default and one without -/

section Samples

/-- The field `n` has the default 0; `tags` has none. -/
def loadStore : DocStoreV3 :=
  ⟨fun _ => none, ⟨["n", "tags"], by decide, by decide⟩, (∅ : HashMap UInt16 PackedValue).insert 0 (.i 0), 1⟩

/-- What is read under `n` of document 0 after the calls. -/
def countAfter (writer : DocBulkWriter) (calls : List BulkCall) : Option (Option FieldValue) :=
  (calls.foldlM BulkLoad.next ⟨loadStore, writer⟩).map fun st => DocStoreV3.readCount st.finish.store 0

/-- The value 7 is overwritten with the default 0 and read back as 7, with either writer. With two `write_doc` calls
a field of the first is gone. -/
theorem overwrite_with_default_lost :
    countAfter (.shardStore ⟨∅⟩) [.appendTupleRaw 0 0 (some (.i 7)), .flush fun _ => false,
        .appendTupleRaw 0 0 (some (.i 0))] = some (some (.single (.integer 7))) ∧
      countAfter (.streaming ⟨[]⟩) [.writeField 0 0 (.i 7), .writeField 0 0 (.i 0)] =
        some (some (.single (.integer 7))) ∧
      countAfter (.streaming ⟨[]⟩) [.writeDoc 0 [(0, .i 7)], .writeDoc 0 [(1, .mi [3])]] =
        some (some (.single (.integer 0))) := by
  decide +kernel

/-- The later of two values is read back, with a flush between them. -/
theorem last_write_wins_flushed : ∃ st, [BulkCall.appendTupleRaw 0 0 (some (.i 7)), .flush fun _ => false,
        .appendTuplesRaw 0 [(0, some (.i 9)), (1, some (.mi [3]))]].foldlM BulkLoad.next
          ⟨loadStore, .shardStore ⟨∅⟩⟩ = some st ∧
      (st.finish.store.get 0).bind (·.fields.lookup "n") = some (.single (.integer 9)) := by
  have hrun : Computed BulkLoad.next (Meets 0) ⟨loadStore, .shardStore ⟨∅⟩⟩
      [BulkCall.appendTupleRaw 0 0 (some (.i 7)), .flush fun _ => false,
        .appendTuplesRaw 0 [(0, some (.i 9)), (1, some (.mi [3]))]] := by
    refine .of_along ⟨fun _ => ?_, ?_⟩
    · refine ⟨nodup_singleton _, nodup_nil, forall_mem_singleton.mpr ?_, fun _ _ => trivial⟩
      exact (if_neg (by decide +kernel)).mpr trivial
    rintro _ ⟨⟩
    refine ⟨fun hslot => ?_, ?_⟩
    · cases hslot
    rintro _ ⟨⟩
    refine ⟨fun _ => ?_, fun _ _ => trivial⟩
    · refine ⟨?_, ?_, forall_mem_cons.mpr ⟨?_, forall_mem_singleton.mpr ?_⟩, fun _ _ => trivial⟩
      · show List.Nodup [0, 1]
        decide
      · exact nodup_singleton 0
      · exact (if_neg (by decide +kernel)).mpr trivial
      · refine (if_neg (by decide +kernel)).mpr ?_
        intro hunites
        cases hunites
  have hname : loadStore.dict.fieldIndex "n" = some 0 := by decide
  exact ⟨_, rfl, last_write_wins (f := 0) (v := .i 9) (hrun _ rfl) rfl hname⟩

end Samples

end BulkLoad

end Bitdex
