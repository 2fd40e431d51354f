import Bitdex.Store.Ops
import Bitdex.Write.Batch

/-!
# `Store.Bitmaps` — the stores of a data directory and the log of a batch

The bitmaps of an index are kept in shard files (`shard_store_bitmap.rs`): one for the alive set, one per filter field
and bucket of values, one per sort field. Beside them stand the slot counter and the deferred activations
(`shard_store_meta.rs`). A store is what reading its shards gives (`Store.Shard`).

The log of a bucket holds all sets of a batch before its clears, while memory takes the removes first. `Target.logged`
is the write that wins on disk, as `Target.preferred` wins in memory; they differ for filter bitmaps.
-/

namespace Bitdex

open KeyedOp List Bitmap WriteBatch

/-! ## Batches of sets and clears in a log -/

namespace KeyedOp

variable {κ κ' α : Type}

/-- The op on a bitmap whose key is a part of a longer one. -/
def mapKey (g : κ → κ') : KeyedOp κ → KeyedOp κ'
  | setBit key bit => setBit (g key) bit
  | clearBit key bit => clearBit (g key) bit
  | batchSet key bits => batchSet (g key) bits
  | batchClear key bits => batchClear (g key) bits

variable [DecidableEq κ] {m : Postings κ UInt32} {l : List α} {key : α → κ} {bits : α → List UInt32}
  {k : κ} {x : UInt32}

theorem mem_ids_batchSet {k' : κ} {bs : List UInt32} :
    x ∈ (apply m (.batchSet k' bs)).ids k ↔ x ∈ m.ids k ∨ (k' = k ∧ x ∈ bs) := by
  rw [iff_comm, ← decide_eq_true_iff (p := x ∈ (apply m _).ids k), mem_apply, write]
  by_cases hw : k' = k ∧ x ∈ bs <;> simp [hw, key, bits, isSet]

theorem mem_ids_batchClear {k' : κ} {bs : List UInt32} :
    x ∈ (apply m (.batchClear k' bs)).ids k ↔ x ∈ m.ids k ∧ ¬(k' = k ∧ x ∈ bs) := by
  rw [iff_comm, ← decide_eq_true_iff (p := x ∈ (apply m _).ids k), mem_apply, write]
  by_cases hw : k' = k ∧ x ∈ bs <;> simp [hw, key, bits, isSet]

theorem mem_ids_foldl_batchSet : x ∈ (l.foldl (fun m a => apply m (.batchSet (key a) (bits a))) m).ids k ↔
      x ∈ m.ids k ∨ ∃ a ∈ l, key a = k ∧ x ∈ bits a :=
  foldl_or_iff (x ∈ Postings.ids · k) (by intros; exact mem_ids_batchSet)

theorem mem_ids_foldl_batchClear : x ∈ (l.foldl (fun m a => apply m (.batchClear (key a) (bits a))) m).ids k ↔
      x ∈ m.ids k ∧ ¬∃ a ∈ l, key a = k ∧ x ∈ bits a := by
  refine (foldl_and_iff (x ∈ Postings.ids · k) (by intros; exact mem_ids_batchClear)).trans ?_
  simp

end KeyedOp

/-! ## The stores -/

/-- What the shard of the alive set reads as, if there is one. -/
abbrev AliveBitmapStore := Option Bitmap

/-- The shard a filter value lies in: its field and eight bits of the value. -/
structure FilterBucketKey where
  field : String
  bucket : UInt8
deriving DecidableEq

namespace FilterBucketKey

/-- The bucket of a value. -/
def fromValue (field : String) (value : UInt64) : FilterBucketKey := ⟨field, ((value >>> 8) &&& 0xFF).toUInt8⟩

/-- The shard of a group's value. -/
def ofGroup (g : FilterGroupKey) : FilterBucketKey := fromValue g.field g.value

end FilterBucketKey

/-- The bitmaps of all bucket shards, found by field and value, as every value has one bucket. -/
structure FilterBitmapStore where
  values : Postings FilterGroupKey UInt32

namespace FilterBitmapStore

variable (fs : FilterBitmapStore)

/-- Append to the log of one bucket. -/
def appendOps (key : FilterBucketKey) (ops : List FilterOp) : FilterBitmapStore :=
  ⟨ops.foldl (fun m op => apply m (op.mapKey (⟨key.field, ·⟩))) fs.values⟩

/-- All values of a field, from all its buckets. -/
def loadField (field : String) : HashMap UInt64 Bitmap :=
  fs.values.rename (fun g => if g.field = field then some g.value else none) <| by
    rintro ⟨f₁, v₁⟩ ⟨f₂, v₂⟩ v h₁ h₂
    simp only [Option.ite_none_right_eq_some, Option.some.injEq] at h₁ h₂
    rw [h₁.1, h₁.2, h₂.1, h₂.2]

/-- The requested values that the field's buckets have. -/
def loadFieldValues (field : String) (values : List UInt64) : HashMap UInt64 Bitmap :=
  (fs.loadField field).filterMap fun value bitmap => if value ∈ values then some bitmap else none

theorem lookup_loadField (field : String) (value : UInt64) :
    (fs.loadField field).lookup value = fs.values.lookup ⟨field, value⟩ := by
  apply AList.lookup_rename
  rintro ⟨f, v⟩
  simp

theorem lookup_loadFieldValues {values : List UInt64} {value : UInt64} (h : value ∈ values) (field : String) :
    (fs.loadFieldValues field values).lookup value = fs.values.lookup ⟨field, value⟩ := by
  rw [loadFieldValues, AList.lookup_filterMap, lookup_loadField]
  simp [h]

end FilterBitmapStore

/-- A shard of the older layout, one per layer. -/
structure SortLayerShardKey where
  field : String
  bitPosition : UInt8
deriving DecidableEq

/-- The packed shards, one per field, and the shards of the older layout. -/
structure SortBitmapStore where
  packed : HashMap String (Postings UInt8 UInt32)
  layers : HashMap SortLayerShardKey Bitmap

namespace SortBitmapStore

variable (ss : SortBitmapStore)

/-- A layer in the older layout. A bit position is cut to eight bits. -/
def legacyLayer (field : String) (bit : Nat) : Option Bitmap := ss.layers.lookup ⟨field, UInt8.ofNat bit⟩

/-- The layers of a field. A packed shard hides the older layout. -/
def loadSortLayers (field : String) (bits : Nat) : Option (List Bitmap) :=
  match ss.packed.lookup field with
  | some snap => some ((range bits).map fun bit => snap.ids (UInt8.ofNat bit))
  | none =>
    let layers := (range bits).map (ss.legacyLayer field)
    if layers.any Option.isSome then some (layers.map (·.getD ∅)) else none

/-- The packed shard that ops are appended to. If there is none it is created from the older layout. -/
def packedShard (field : String) (numBits : Nat) : Postings UInt8 UInt32 :=
  match ss.packed.lookup field with
  | some snap => snap
  | none =>
    Postings.addAll ∅ ((range numBits).map fun bit =>
      (UInt8.ofNat bit, (ss.legacyLayer field bit).getD ∅))

/-- Append to the packed shard. -/
def appendPackedSortOps (field : String) (numBits : Nat) (ops : List SortLayerOp) : SortBitmapStore :=
  if ops = [] then ss
  else { ss with packed := ss.packed.insert field (ops.foldl apply (ss.packedShard field numBits)) }

/-- One layer as it is loaded. -/
def layer (field : String) (bit : Nat) : Bitmap :=
  match ss.packed.lookup field with
  | some snap => snap.ids (UInt8.ofNat bit)
  | none => (ss.legacyLayer field bit).getD ∅

variable {field : String} {numBits bits bit : Nat} {ops : List SortLayerOp}

theorem getElem?_loadSortLayers {layers : List Bitmap} (h : ss.loadSortLayers field bits = some layers) (bit : Nat) :
    layers[bit]? = if bit < bits then some (ss.layer field bit) else none := by
  rw [loadSortLayers] at h
  rw [layer]
  cases hpacked : ss.packed.lookup field with
  | some snap =>
    rw [hpacked] at h
    cases h
    by_cases hb : bit < bits <;> simp [hb]
  | none =>
    rw [hpacked] at h
    simp only [Option.ite_none_right_eq_some, Option.some.injEq] at h
    obtain ⟨-, rfl⟩ := h
    by_cases hb : bit < bits <;> simp [hb]

theorem layer_eq_empty (h : ss.loadSortLayers field bits = none) (hb : bit < bits) : ss.layer field bit = ∅ := by
  rw [loadSortLayers] at h
  rw [layer]
  cases hpacked : ss.packed.lookup field with
  | some snap =>
    rw [hpacked] at h
    cases h
  | none =>
    rw [hpacked] at h
    -- no layer was found, this one neither
    have hnone : ss.legacyLayer field bit = none := by
      simp only [ite_eq_right_iff, reduceCtorEq, imp_false, any_map, any_eq_true, mem_range,
        Function.comp_apply, not_exists, not_and, Bool.not_eq_true, Option.isSome_eq_false_iff,
        Option.isNone_iff_eq_none] at h
      exact h bit hb
    rw [hnone]
    rfl

theorem getD_loadSortLayers (h : bit < bits) :
    (((ss.loadSortLayers field bits).getD [])[bit]?).getD ∅ = ss.layer field bit := by
  cases hload : ss.loadSortLayers field bits with
  | none =>
    rw [ss.layer_eq_empty hload h]
    rfl
  | some layers => rw [Option.getD_some, ss.getElem?_loadSortLayers hload, if_pos h, Option.getD_some]

theorem ids_packedShard (h : bit < numBits) :
    (ss.packedShard field numBits).ids (UInt8.ofNat bit) = ss.layer field bit := by
  rw [packedShard, layer]
  cases ss.packed.lookup field with
  | some snap => rfl
  | none =>
    ext x
    simp only [Postings.mem_ids_addAll, Postings.ids_empty, Finset.notMem_empty, mem_map, mem_range, false_or]
    constructor
    · rintro ⟨_, ⟨bit', -, rfl⟩, hkey, hx⟩
      -- layers that share a cut position are read from one shard
      rw [legacyLayer, show UInt8.ofNat bit' = UInt8.ofNat bit from hkey] at hx
      exact hx
    · intro hx
      exact ⟨_, ⟨bit, h, rfl⟩, rfl, hx⟩

theorem layer_appendPackedSortOps (hbit : bit < numBits) : (ss.appendPackedSortOps field numBits ops).layer field bit =
      (ops.foldl apply (ss.packedShard field numBits)).ids (UInt8.ofNat bit) := by
  rw [appendPackedSortOps]
  by_cases hops : ops = []
  · subst hops
    rw [if_pos rfl, foldl_nil, ids_packedShard ss hbit]
  · rw [if_neg hops, layer, AList.lookup_insert]

theorem layer_appendPackedSortOps_ne {f : String} (hf : f ≠ field) :
    (ss.appendPackedSortOps field numBits ops).layer f bit = ss.layer f bit := by
  rw [appendPackedSortOps]
  split
  · rfl
  · rw [layer, AList.lookup_insert_ne hf]
    rfl

end SortBitmapStore

/-! ## What a cycle logs for its batch -/

namespace WriteBatch

variable (b : WriteBatch)

/-- Log the alive bits of a batch. -/
def logAlive (store : AliveBitmapStore) : AliveBitmapStore :=
  let set := if b.aliveInserts = ∅ then store
    else some (applyTo (store.getD ∅) (.batchSet () (iter b.aliveInserts)))
  if b.aliveRemoves = ∅ then set
  else some (applyTo (set.getD ∅) (.batchClear () (iter b.aliveRemoves)))

/-- The buckets that the batch writes to. -/
def buckets : List FilterBucketKey := ((b.filterInserts.keys ++ b.filterRemoves.keys).map .ofGroup).dedup

/-- The ops for one bucket: every insert of the batch, then every remove. -/
def bucketOps (key : FilterBucketKey) : List FilterOp :=
  (b.filterInserts.entries.filter fun e => decide (FilterBucketKey.ofGroup e.1 = key)).map
      (fun e => .batchSet e.1.value (iter e.2)) ++
    (b.filterRemoves.entries.filter fun e => decide (FilterBucketKey.ofGroup e.1 = key)).map
      (fun e => .batchClear e.1.value (iter e.2))

/-- Log the filter bits of a batch. -/
def logFilters (store : FilterBitmapStore) : FilterBitmapStore :=
  b.buckets.foldl (fun store key => store.appendOps key (b.bucketOps key)) store

/-- The sort fields that the batch writes to. -/
def sortNames : List String := ((b.sortClears.keys ++ b.sortSets.keys).map (·.field)).dedup

/-- The ops for one sort field: every clear of the batch, then every set. -/
def sortOps (field : String) : List SortLayerOp :=
  (b.sortClears.entries.filter fun e => decide (e.1.field = field)).map
      (fun e => .batchClear (UInt8.ofNat e.1.bitLayer) (iter e.2)) ++
    (b.sortSets.entries.filter fun e => decide (e.1.field = field)).map
      (fun e => .batchSet (UInt8.ofNat e.1.bitLayer) (iter e.2))

/-- Log the sort bits of a batch. -/
def logSorts (numBits : String → Nat) (store : SortBitmapStore) : SortBitmapStore :=
  b.sortNames.foldl (fun store field => store.appendPackedSortOps field (numBits field) (b.sortOps field))
    store

/-- The layers written fit the eight bits of a position. -/
def LayersFit : Prop := ∀ g, (g ∈ b.sortSets ∨ g ∈ b.sortClears) → g.bitLayer < 256

variable {b} {x : UInt32}

theorem mem_logAlive {store : AliveBitmapStore} :
    x ∈ (b.logAlive store).getD ∅ ↔ x ∉ b.aliveRemoves ∧ (x ∈ b.aliveInserts ∨ x ∈ store.getD ∅) := by
  have hset : x ∈ (if b.aliveInserts = ∅ then store
      else some (applyTo (store.getD ∅) (.batchSet () (iter b.aliveInserts)))).getD ∅ ↔
      x ∈ b.aliveInserts ∨ x ∈ store.getD ∅ := by
    split
    · rename_i hempty
      simp [hempty]
    · simp [applyTo, isSet, bits, or_comm]
  rw [logAlive, ← hset]
  by_cases hempty : b.aliveRemoves = ∅
  · simp [hempty]
  · simp [hempty, applyTo, isSet, bits, and_comm]

/-- The log of one bucket. -/
theorem mem_appendOps_bucketOps {store : FilterBitmapStore} {key : FilterBucketKey} {g : FilterGroupKey} :
    x ∈ (store.appendOps key (b.bucketOps key)).values.ids g ↔
      (x ∈ store.values.ids g ∨ (FilterBucketKey.ofGroup g = key ∧ x ∈ b.filterInserts.ids g)) ∧
        ¬(FilterBucketKey.ofGroup g = key ∧ x ∈ b.filterRemoves.ids g) := by
  have hsame : ∀ (groups : Postings FilterGroupKey UInt32),
      (∃ e ∈ groups.entries.filter fun e => decide (FilterBucketKey.ofGroup e.1 = key),
          (⟨key.field, e.1.value⟩ : FilterGroupKey) = g ∧ x ∈ iter e.2) ↔
        FilterBucketKey.ofGroup g = key ∧ x ∈ groups.ids g := by
    intro groups
    simp only [mem_filter, decide_eq_true_eq, mem_iter, Postings.mem_ids_iff_entries]
    constructor
    · rintro ⟨e, ⟨he, rfl⟩, rfl, hx⟩
      exact ⟨rfl, e, he, rfl, hx⟩
    · rintro ⟨rfl, e, he, rfl, hx⟩
      exact ⟨e, ⟨he, rfl⟩, rfl, hx⟩
  rw [FilterBitmapStore.appendOps, bucketOps, foldl_append, foldl_map, foldl_map]
  simp only [mapKey, mem_ids_foldl_batchClear, mem_ids_foldl_batchSet, hsame]

theorem ids_logFilters (store : FilterBitmapStore) (g : FilterGroupKey) :
    (b.logFilters store).values.ids g = (store.values.ids g ∪ b.filterInserts.ids g) \ b.filterRemoves.ids g := by
  have hvisit := Postings.foldl_visit (k := FilterBucketKey.ofGroup g)
    (f := fun (store : FilterBitmapStore) key => store.appendOps key (b.bucketOps key))
    (p := fun store => store.values.ids g)
    (u := fun s => (s ∪ b.filterInserts.ids g) \ b.filterRemoves.ids g)
    (by intro s; ext x; simp; tauto)
    (by intro store; ext x; simp [mem_appendOps_bucketOps])
    (by intro store key hkey; ext x; simp [mem_appendOps_bucketOps, Ne.symm hkey]) b.buckets store
  rw [logFilters, hvisit]
  split
  · rfl
  · rename_i hnot
    -- a bucket that is not visited has no group of the batch
    have hnone : g ∉ b.filterInserts ∧ g ∉ b.filterRemoves := by
      simp only [buckets, mem_dedup, mem_map, mem_append, not_exists, not_and] at hnot
      exact ⟨fun hg => hnot g (.inl hg) rfl, fun hg => hnot g (.inr hg) rfl⟩
    simp [Postings.ids_of_notMem hnone.1, Postings.ids_of_notMem hnone.2]

theorem ofNat_bitLayer_inj {bit bit' : Nat} (h : bit < 256) (h' : bit' < 256) :
    UInt8.ofNat bit = UInt8.ofNat bit' ↔ bit = bit' := by
  rw [← UInt8.toNat_inj, UInt8.toNat_ofNat_of_lt' h, UInt8.toNat_ofNat_of_lt' h']

/-- The log of one sort field. -/
theorem mem_sortOps (hfit : b.LayersFit) {m : Postings UInt8 UInt32} {field : String} {bit : Nat} (hbit : bit < 256) :
    x ∈ ((b.sortOps field).foldl apply m).ids (UInt8.ofNat bit) ↔ x ∈ b.sortSets.ids ⟨field, bit⟩ ∨
        (x ∈ m.ids (UInt8.ofNat bit) ∧ x ∉ b.sortClears.ids ⟨field, bit⟩) := by
  have hsame : ∀ (groups : Postings SortGroupKey UInt32), (∀ g ∈ groups, g.bitLayer < 256) →
      ((∃ e ∈ groups.entries.filter fun e => decide (e.1.field = field),
          UInt8.ofNat e.1.bitLayer = UInt8.ofNat bit ∧ x ∈ iter e.2) ↔
        x ∈ groups.ids ⟨field, bit⟩) := by
    intro groups hgroups
    simp only [mem_filter, decide_eq_true_eq, mem_iter, Postings.mem_ids_iff_entries]
    constructor
    · rintro ⟨e, ⟨he, rfl⟩, hpos, hx⟩
      have hlt : e.1.bitLayer < 256 := hgroups e.1 (mem_map_of_mem he)
      rw [← (ofNat_bitLayer_inj hlt hbit).mp hpos]
      exact ⟨e, he, rfl, hx⟩
    · rintro ⟨e, he, hkey, hx⟩
      exact ⟨e, ⟨he, by rw [hkey]⟩, by rw [hkey], hx⟩
  rw [sortOps, foldl_append, foldl_map, foldl_map, mem_ids_foldl_batchSet, mem_ids_foldl_batchClear,
    hsame _ fun g hg => hfit g (.inl hg), hsame _ fun g hg => hfit g (.inr hg), or_comm]

theorem layer_logSorts (hfit : b.LayersFit) {numBits : String → Nat} (store : SortBitmapStore) {f : String}
    {bit : Nat} (hbit : bit < 256) (hnum : bit < numBits f) : (b.logSorts numBits store).layer f bit =
      b.sortSets.ids ⟨f, bit⟩ ∪ (store.layer f bit \ b.sortClears.ids ⟨f, bit⟩) := by
  have hvisit := Postings.foldl_visit (k := f)
    (f := fun (store : SortBitmapStore) field =>
      store.appendPackedSortOps field (numBits field) (b.sortOps field))
    (p := fun store => store.layer f bit)
    (u := fun s => b.sortSets.ids ⟨f, bit⟩ ∪ (s \ b.sortClears.ids ⟨f, bit⟩))
    (by intro s; ext x; simp; tauto)
    (by
      intro store
      ext x
      rw [store.layer_appendPackedSortOps hnum, mem_sortOps hfit hbit, store.ids_packedShard hnum]
      simp)
    (fun store name hname => store.layer_appendPackedSortOps_ne (Ne.symm hname)) b.sortNames store
  rw [logSorts, hvisit]
  split
  · rfl
  · rename_i hnot
    have hnone : (⟨f, bit⟩ : SortGroupKey) ∉ b.sortClears ∧ (⟨f, bit⟩ : SortGroupKey) ∉ b.sortSets := by
      simp only [sortNames, mem_dedup, mem_map, mem_append, not_exists, not_and] at hnot
      exact ⟨fun hg => hnot _ (.inl hg) rfl, fun hg => hnot _ (.inr hg) rfl⟩
    simp [Postings.ids_of_notMem hnone.1, Postings.ids_of_notMem hnone.2]

end WriteBatch

/-! ## The directory -/

/-- A data directory. -/
structure DataDir where
  alive : AliveBitmapStore
  filters : FilterBitmapStore
  sorts : SortBitmapStore
  slotCounter : Option UInt32
  deferredAlive : Option (List (UInt64 × List UInt32))

/-- The write that wins in the log of one batch. -/
def Target.logged : Target → Bool
  | .filter _ _ => false
  | .sort _ _ => true
  | .alive => false

namespace DataDir

variable (dir : DataDir)

/-- A directory without files. -/
def empty : DataDir := ⟨none, ⟨∅⟩, ⟨∅, ∅⟩, none, none⟩

/-- Append the ops of a batch to the shards it touches. `numBits` is the configured width of a sort
field. -/
def logBatch (numBits : String → Nat) (b : WriteBatch) : DataDir :=
  { dir with
    alive := b.logAlive dir.alive
    filters := b.logFilters dir.filters
    sorts := b.logSorts numBits dir.sorts }

/-- The bitmap that loading gives for a target. -/
def holders : Target → Bitmap
  | .filter field value => dir.filters.values.ids ⟨field, value⟩
  | .sort field bitLayer => dir.sorts.layer field bitLayer
  | .alive => dir.alive.getD ∅

/-- A layer of a field that is `numBits` wide, and fits the positions of a shard. -/
def Stores (numBits : String → Nat) : Target → Prop
  | .sort field bitLayer => bitLayer < 256 ∧ bitLayer < numBits field
  | _ => True

variable {dir}

/-- **The log of a batch.** The bits on disk after the ops of a batch have been appended. -/
theorem mem_holders_logBatch {numBits : String → Nat} {b : WriteBatch} (hfit : b.LayersFit) {t : Target}
    (ht : Stores numBits t) {x : UInt32} :
    x ∈ (dir.logBatch numBits b).holders t ↔ if x ∈ b.group t t.logged then t.logged = true
      else if x ∈ b.group t (!t.logged) then t.logged = false
      else x ∈ dir.holders t := by
  cases t with
  | filter field value =>
    show x ∈ (b.logFilters dir.filters).values.ids ⟨field, value⟩ ↔ _
    rw [ids_logFilters, Finset.mem_sdiff]
    simp only [Target.logged, group, holders, Bool.not_false]
    grind
  | sort field bitLayer =>
    show x ∈ (b.logSorts numBits dir.sorts).layer field bitLayer ↔ _
    rw [layer_logSorts hfit dir.sorts ht.1 ht.2, Finset.mem_union]
    simp only [Target.logged, group, holders, Bool.not_true]
    grind
  | alive =>
    show x ∈ (b.logAlive dir.alive).getD ∅ ↔ _
    rw [mem_logAlive]
    simp only [Target.logged, group, holders, Bool.not_false]
    grind

end DataDir

end Bitdex
