import Bitdex.Query

/-!
# `Store.Dictionary` — string keys across crashes

A field of low cardinality stores an integer for each of its strings (`dictionary.rs`). Keys are minted in memory, by
`get_or_insert`, and go into documents and bitmaps that other threads write to disk. The dictionary itself is saved
separately, as a snapshot, by several callers, each of which may fail. After a crash it is the saved one, and its next
key is one above the largest key in it.

So a key on disk keeps its string only if the dictionary on disk has it before and goes on having it. Keys are minted
in ascending order, so every snapshot is an initial part of the dictionary (`Initial`). `saved_or_dirty` is about the
dirty flag, which a save clears at its end. One field is modelled.
-/

namespace Bitdex

open Host AList List Option Function

/-- A dictionary as it is written to a file. -/
structure DictionarySnapshot where
  forward : HashMap String Int64
  originals : HashMap String String

/-- A dictionary that assigns keys: lowercase strings with their keys and first casing, the next key, and whether an
entry was added since the last save. -/
structure MintingDictionary extends FieldDictionary where
  originals : HashMap String String
  nextKey : Int64
  dirty : Bool

/-! ## Functions of a dictionary -/

/-- A running maximum of keys. -/
def maxInto (m : Int64) (e : Sigma fun _ : String => Int64) : Int64 := if e.2 > m then e.2 else m

namespace DictionarySnapshot

/-- The largest key, from 0 on. -/
def maxKey (snap : DictionarySnapshot) : Int64 := snap.forward.entries.foldl maxInto 0

/-- The largest value, or 0 if there is none. -/
def maxValue (snap : DictionarySnapshot) : Int64 :=
  match snap.forward.entries with
  | [] => 0
  | e :: es => es.foldl maxInto e.2

end DictionarySnapshot

namespace MintingDictionary

/-- Keys start at 1; 0 stands for an unknown string. -/
def new : MintingDictionary := ⟨⟨∅⟩, ∅, 1, false⟩

/-- A dictionary that is loaded. -/
def fromSnapshot (snap : DictionarySnapshot) : MintingDictionary :=
  ⟨⟨snap.forward⟩, snap.originals, snap.maxKey + 1, false⟩

/-- What a save writes. -/
def snapshot (d : MintingDictionary) : DictionarySnapshot := ⟨d.map, d.originals⟩

/-- Look up a key or mint one. -/
def getOrInsert [Host] (d : MintingDictionary) (value : String) : MintingDictionary × Int64 :=
  let lower := toLowercase value
  match d.map.lookup lower with
  | some key => (d, key)
  | none =>
    (⟨⟨d.map.insert lower d.nextKey⟩,
      if (d.originals.lookup lower).isSome then d.originals else d.originals.insert lower value,
      d.nextKey + 1, true⟩, d.nextKey)

end MintingDictionary

/-- The snapshot that `load_dictionaries` takes: of two, the one with the larger value. -/
def chooseSnapshot : Option DictionarySnapshot → Option DictionarySnapshot → Option DictionarySnapshot
  | some c, some l => if l.maxValue > c.maxValue then some l else some c
  | some c, none => some c
  | none, some l => some l
  | none, none => none

/-! ## The system -/

/-- The two places where dictionaries are saved. -/
inductive DictionaryFile where
  | canonical
  | legacy
deriving DecidableEq

/-- A call that saves the dictionary, between its steps. `clears` if it clears the dirty flag at the end. -/
inductive SaveStage where
  | idle
  | taken (snap : DictionarySnapshot) (file : DictionaryFile) (clears : Bool)
  | written

/-- The dictionary, its files and the saves. -/
structure DictionaryState where
  memory : MintingDictionary
  canonical : Option DictionarySnapshot
  legacy : Option DictionarySnapshot
  saving : Nat → SaveStage
  /-- The keys that were handed out since the start of the process, with their lowercase strings. -/
  used : List (Int64 × String)
  /-- The keys in documents and bitmap shards on disk, with the strings they were handed out for. -/
  stored : List (Int64 × String)

/-- Minting, saves and crashes. -/
inductive DictionaryEvent where
  | getOrInsert (value : String)
  /-- A call takes its snapshot: `persist_dirty_dictionaries` (canonical file, clears the flag, only if it is set),
  `save_dictionaries` (canonical file) or the save of `save_and_unload` (legacy file). -/
  | take (call : Nat) (file : DictionaryFile) (clears : Bool)
  | save (call : Nat) (succeeds : Bool)
  | clearDirty (call : Nat)
  /-- Data with a key reaches the disk. -/
  | store (key : Int64) (lower : String)
  /-- The process dies and starts again. -/
  | crash

namespace DictionaryState

/-- An index without files. -/
def fresh : DictionaryState := ⟨.new, none, none, fun _ => .idle, [], []⟩

variable (st : DictionaryState)

/-- The snapshot that a reload finds. -/
def onDisk : Option DictionarySnapshot := chooseSnapshot st.canonical st.legacy

/-- Write one of the two files. -/
def writeFile (file : DictionaryFile) (snap : DictionarySnapshot) : DictionaryState :=
  match file with
  | .canonical => { st with canonical := some snap }
  | .legacy => { st with legacy := some snap }

def setStage (call : Nat) (stage : SaveStage) : DictionaryState :=
  { st with saving := update st.saving call stage }

/-- What a restart loads. -/
def reload : DictionaryState :=
  { st with
    memory := st.onDisk.elim .new .fromSnapshot
    saving := fun _ => .idle
    used := [] }

/-- One step; events that are not possible in the state give none. -/
def next [Host] (st : DictionaryState) (event : DictionaryEvent) : Option DictionaryState :=
  match event with
  | .getOrInsert value =>
    let minted := st.memory.getOrInsert value
    some { st with memory := minted.1, used := st.used ++ [(minted.2, toLowercase value)] }
  | .take call file clears =>
    match st.saving call with
    | .idle =>
      if clears && !st.memory.dirty then some st
      else some (st.setStage call (.taken st.memory.snapshot file clears))
    | _ => none
  | .save call succeeds =>
    match st.saving call with
    | .taken snap file clears =>
      if succeeds then some ((st.writeFile file snap).setStage call (if clears then .written else .idle))
      else some (st.setStage call .idle)
    | _ => none
  | .clearDirty call =>
    match st.saving call with
    | .written => some ({ st with memory := { st.memory with dirty := false } }.setStage call .idle)
    | _ => none
  | .store key lower =>
    if (key, lower) ∈ st.used then some { st with stored := st.stored ++ [(key, lower)] } else none
  | .crash => some st.reload

end DictionaryState

/-! ## Largest keys -/

theorem foldl_maxInto (es : List (Sigma fun _ : String => Int64)) (m : Int64) :
    m.toInt ≤ (es.foldl maxInto m).toInt ∧ (∀ e ∈ es, e.2.toInt ≤ (es.foldl maxInto m).toInt) ∧
      (es.foldl maxInto m = m ∨ ∃ e ∈ es, e.2 = es.foldl maxInto m) := by
  induction es generalizing m with
  | nil => exact ⟨le_refl _, fun e he => absurd he not_mem_nil, .inl rfl⟩
  | cons e es ih =>
    rw [foldl_cons]
    obtain ⟨hstart, hall, hfrom⟩ := ih (maxInto m e)
    have hstep : m.toInt ≤ (maxInto m e).toInt ∧ e.2.toInt ≤ (maxInto m e).toInt ∧
        (maxInto m e = m ∨ maxInto m e = e.2) := by
      rw [maxInto]
      split
      · next hlt =>
        have := Int64.lt_iff_toInt_lt.mp hlt
        exact ⟨by omega, le_refl _, .inr rfl⟩
      · next hge =>
        have : ¬m.toInt < e.2.toInt := fun hlt => hge (Int64.lt_iff_toInt_lt.mpr hlt)
        exact ⟨le_refl _, by omega, .inl rfl⟩
    refine ⟨hstep.1.trans hstart, forall_mem_cons.mpr ⟨hstep.2.1.trans hstart, hall⟩, ?_⟩
    rcases hfrom with hfrom | ⟨e', he', heq⟩
    · rw [hfrom]
      exact hstep.2.2.imp id fun heq => ⟨e, mem_cons_self, heq.symm⟩
    · exact .inr ⟨e', mem_cons_of_mem e he', heq⟩

namespace DictionarySnapshot

variable {snap : DictionarySnapshot} {s : String} {k : Int64}

theorem le_maxKey (h : snap.forward.lookup s = some k) : k.toInt ≤ snap.maxKey.toInt :=
  (foldl_maxInto snap.forward.entries 0).2.1 ⟨s, k⟩ (mem_lookup_iff.mp h)

theorem maxKey_eq_zero_or_mem (snap : DictionarySnapshot) :
    snap.maxKey = 0 ∨ ∃ s, snap.forward.lookup s = some snap.maxKey := by
  refine (foldl_maxInto snap.forward.entries 0).2.2.imp id ?_
  rintro ⟨⟨s, k⟩, he, heq⟩
  refine ⟨s, ?_⟩
  rw [maxKey, ← heq]
  exact mem_lookup_iff.mpr he

/-- Where all keys are positive the loader compares the largest keys. -/
theorem maxValue_eq_maxKey (hpos : ∀ s k, snap.forward.lookup s = some k → 0 < k.toInt) :
    snap.maxValue = snap.maxKey := by
  rw [maxValue, maxKey]
  have hentries : ∀ e ∈ snap.forward.entries, 0 < e.2.toInt := fun e he => hpos e.1 e.2 (mem_lookup_iff.mpr he)
  cases hes : snap.forward.entries with
  | nil => rfl
  | cons e es =>
    rw [hes] at hentries
    have he := hentries e mem_cons_self
    rw [← Int64.toInt_zero] at he
    -- the first step from 0 takes the first key
    rw [foldl_cons, maxInto, if_pos (Int64.lt_iff_toInt_lt.mpr he)]

end DictionarySnapshot

variable {c l : Option DictionarySnapshot} {snap : DictionarySnapshot} {d : MintingDictionary}

theorem eq_or_eq_of_chooseSnapshot (h : chooseSnapshot c l = some snap) : c = some snap ∨ l = some snap := by
  revert h
  fun_cases chooseSnapshot c l <;> simp +contextual

theorem le_chooseSnapshot (h : c = some snap ∨ l = some snap) :
    ∃ disk, chooseSnapshot c l = some disk ∧ snap.maxValue.toInt ≤ disk.maxValue.toInt := by
  fun_cases chooseSnapshot c l <;> grind [Int64.lt_iff_toInt_lt]

/-! ## Initial parts -/

/-- **A snapshot is an initial part of a dictionary**: it has the dictionary's keys up to some largest one. -/
structure Initial (snap : DictionarySnapshot) (map : HashMap String Int64) : Prop where
  subset : ∀ s k, snap.forward.lookup s = some k → map.lookup s = some k
  upTo : ∀ s k, map.lookup s = some k → k.toInt ≤ snap.maxKey.toInt → snap.forward.lookup s = some k

/-- A dictionary whose keys are positive, distinct and below the next key. -/
structure WellKeyed (d : MintingDictionary) : Prop where
  bounds : ∀ s k, d.map.lookup s = some k → 0 < k.toInt ∧ k.toInt < d.nextKey.toInt
  injective : ∀ s s' k, d.map.lookup s = some k → d.map.lookup s' = some k → s = s'
  next : 0 < d.nextKey.toInt

namespace Initial

variable {snap' : DictionarySnapshot} {map : HashMap String Int64}

theorem of_snapshot (d : MintingDictionary) : Initial d.snapshot d.map := ⟨fun _ _ h => h, fun _ _ h _ => h⟩

theorem maxKey_lt (h : Initial snap d.map) (hd : WellKeyed d) : snap.maxKey.toInt < d.nextKey.toInt := by
  rcases snap.maxKey_eq_zero_or_mem with hzero | ⟨s, hs⟩
  · rw [hzero]
    exact hd.next
  · exact (hd.bounds s _ (h.subset s _ hs)).2

/-- Of two initial parts, the one with the larger key has the other as an initial part. -/
theorem within (h : Initial snap map) (h' : Initial snap' map) (hle : snap'.maxKey.toInt ≤ snap.maxKey.toInt) :
    Initial snap' snap.forward where
  subset s k hs := h.upTo s k (h'.subset s k hs) ((DictionarySnapshot.le_maxKey hs).trans hle)
  upTo s k hs hk := h'.upTo s k (h.subset s k hs) hk

end Initial

theorem wellKeyed_new : WellKeyed .new where
  bounds _ _ h := by cases h
  injective _ _ _ h := by cases h
  next := by decide

theorem toInt_add_one {a : Int64} (h : a.toInt < 2 ^ 63 - 1) : (a + 1).toInt = a.toInt + 1 := by
  have hlow := Int64.le_toInt a
  rw [Int64.toInt_add, Int64.toInt_one]
  rw [Int.bmod_eq_of_le (by omega) (by omega)]

/-- A dictionary loaded from an initial part of a well-keyed one is well-keyed. -/
theorem wellKeyed_fromSnapshot (hd : WellKeyed d) (h : Initial snap d.map) : WellKeyed (.fromSnapshot snap) := by
  have hlt := h.maxKey_lt hd
  have hmax := Int64.toInt_lt d.nextKey
  have hzero : (0 : Int) ≤ snap.maxKey.toInt := by
    rcases snap.maxKey_eq_zero_or_mem with hzero | ⟨s, hs⟩
    · rw [hzero]
      decide
    · exact (hd.bounds s _ (h.subset s _ hs)).1.le
  have hnext : (MintingDictionary.fromSnapshot snap).nextKey.toInt = snap.maxKey.toInt + 1 := toInt_add_one (by omega)
  refine ⟨fun s k hs => ?_, fun s s' k hs hs' => ?_, by omega⟩
  · have hle := DictionarySnapshot.le_maxKey hs
    exact ⟨(hd.bounds s k (h.subset s k hs)).1, by omega⟩
  · exact hd.injective s s' k (h.subset s k hs) (h.subset s' k hs')

/-- **Minting** keeps a dictionary well-keyed and its initial parts initial, as long as the next key does not
overflow. Known strings keep their keys, and the string gets the key returned. -/
theorem getOrInsert_spec [Host] (hd : WellKeyed d) {value : String}
    (hroom : d.map.lookup (toLowercase value) = none → d.nextKey.toInt < 2 ^ 63 - 1) :
    WellKeyed (d.getOrInsert value).1 ∧ (∀ snap, Initial snap d.map → Initial snap (d.getOrInsert value).1.map) ∧
      (∀ s k, d.map.lookup s = some k → (d.getOrInsert value).1.map.lookup s = some k) ∧
      (d.getOrInsert value).1.map.lookup (toLowercase value) = some (d.getOrInsert value).2 := by
  rw [MintingDictionary.getOrInsert]
  generalize toLowercase value = lower at hroom ⊢
  cases hfound : d.map.lookup lower with
  | some key => exact ⟨hd, fun _ h => h, fun _ _ h => h, hfound⟩
  | none =>
    have hnext : (d.nextKey + 1).toInt = d.nextKey.toInt + 1 := toInt_add_one (hroom hfound)
    have hne : ∀ s k, d.map.lookup s = some k → s ≠ lower := by
      rintro s k hs rfl
      rw [hfound] at hs
      cases hs
    have hkept : ∀ s k, d.map.lookup s = some k → (d.map.insert lower d.nextKey).lookup s = some k :=
      fun s k hs => lookup_insert_eq_some.mpr (.inr ⟨hne s k hs, hs⟩)
    refine ⟨⟨?_, ?_, ?_⟩, ?_, hkept, lookup_insert _⟩
    · intro s k hs
      show 0 < k.toInt ∧ k.toInt < (d.nextKey + 1).toInt
      rw [hnext]
      rcases lookup_insert_eq_some.mp hs with ⟨-, rfl⟩ | ⟨-, hs⟩
      · exact ⟨hd.next, by omega⟩
      · have hbounds := hd.bounds s k hs
        exact ⟨hbounds.1, by omega⟩
    · intro s s' k hs hs'
      rcases lookup_insert_eq_some.mp hs with ⟨rfl, rfl⟩ | ⟨-, hs⟩
      · rcases lookup_insert_eq_some.mp hs' with ⟨rfl, -⟩ | ⟨-, hs'⟩
        · rfl
        · exact absurd (hd.bounds s' _ hs').2 (lt_irrefl _)
      · rcases lookup_insert_eq_some.mp hs' with ⟨-, rfl⟩ | ⟨-, hs'⟩
        · exact absurd (hd.bounds s _ hs).2 (lt_irrefl _)
        · exact hd.injective s s' k hs hs'
    · show 0 < (d.nextKey + 1).toInt
      rw [hnext]
      have := hd.next
      omega
    · intro snap hsnap
      refine ⟨fun s k hs => hkept s k (hsnap.subset s k hs), fun s k hs hk => ?_⟩
      rcases lookup_insert_eq_some.mp hs with ⟨-, rfl⟩ | ⟨-, hs⟩
      · exact absurd hk (by have := hsnap.maxKey_lt hd; omega)
      · exact hsnap.upTo s k hs hk

namespace DictionaryState

variable {st st' : DictionaryState}

/-- **The condition on a step.** The next key does not overflow. Data with a key reaches the disk after the dictionary
on disk has it. A snapshot saved is not older than the one on disk. -/
def Meets [Host] (st : DictionaryState) (event : DictionaryEvent) : Prop :=
  match event with
  | .getOrInsert value =>
    st.memory.map.lookup (toLowercase value) = none → st.memory.nextKey.toInt < 2 ^ 63 - 1
  | .store key lower => st.onDisk.bind (·.forward.lookup lower) = some key
  | .save call _ => ∀ snap file clears, st.saving call = .taken snap file clears →
      ∀ disk, st.onDisk = some disk → disk.maxKey ≤ snap.maxKey
  | _ => True

/-- Every snapshot, saved or about to be, is an initial part of the dictionary; keys handed out have their strings,
those in data on disk also in the dictionary on disk. -/
structure Coherent (st : DictionaryState) : Prop where
  keyed : WellKeyed st.memory
  canonical : ∀ snap, st.canonical = some snap → Initial snap st.memory.map
  legacy : ∀ snap, st.legacy = some snap → Initial snap st.memory.map
  saving : ∀ call snap file clears, st.saving call = .taken snap file clears → Initial snap st.memory.map
  used : ∀ p ∈ st.used, st.memory.map.lookup p.2 = some p.1
  stored : ∀ p ∈ st.stored, st.onDisk.bind (·.forward.lookup p.2) = some p.1

/-- The snapshot on disk is one of the files, and its largest key is the largest of all. -/
theorem onDisk_spec (hc : ∀ snap, st.canonical = some snap → Initial snap st.memory.map)
    (hl : ∀ snap, st.legacy = some snap → Initial snap st.memory.map) (hd : WellKeyed st.memory) :
    (∀ disk, st.onDisk = some disk → Initial disk st.memory.map) ∧
      ∀ snap, st.canonical = some snap ∨ st.legacy = some snap →
        ∃ disk, st.onDisk = some disk ∧ snap.maxKey.toInt ≤ disk.maxKey.toInt := by
  have hvalue : ∀ snap, Initial snap st.memory.map → snap.maxValue = snap.maxKey := fun snap h =>
    DictionarySnapshot.maxValue_eq_maxKey fun s k hs => (hd.bounds s k (h.subset s k hs)).1
  have hfiles : ∀ snap, st.canonical = some snap ∨ st.legacy = some snap → Initial snap st.memory.map :=
    fun snap h => h.elim (hc snap) (hl snap)
  refine ⟨fun disk h => hfiles disk (eq_or_eq_of_chooseSnapshot h), fun snap h => ?_⟩
  obtain ⟨disk, hdisk, hle⟩ := le_chooseSnapshot h
  rw [hvalue snap (hfiles snap h), hvalue disk (hfiles disk (eq_or_eq_of_chooseSnapshot hdisk))] at hle
  exact ⟨disk, hdisk, hle⟩

theorem coherent_fresh : Coherent fresh where
  keyed := wellKeyed_new
  canonical _ h := by cases h
  legacy _ h := by cases h
  saving _ _ _ _ h := by cases h
  used _ h := by cases h
  stored _ h := by cases h

namespace Coherent

/-- Keys in data on disk have their strings in memory too. -/
theorem stored_memory (h : Coherent st) {p : Int64 × String} (hp : p ∈ st.stored) :
    st.memory.map.lookup p.2 = some p.1 := by
  obtain ⟨disk, hdisk, hlookup⟩ := bind_eq_some_iff.mp (h.stored p hp)
  exact ((onDisk_spec h.canonical h.legacy h.keyed).1 disk hdisk).subset p.2 p.1 hlookup

theorem getOrInsert [Host] (h : Coherent st) {value : String}
    (hroom : st.memory.map.lookup (toLowercase value) = none → st.memory.nextKey.toInt < 2 ^ 63 - 1) :
    Coherent { st with
      memory := (st.memory.getOrInsert value).1
      used := st.used ++ [((st.memory.getOrInsert value).2, toLowercase value)] } := by
  obtain ⟨hkeyed, hinitial, hkept, hnew⟩ := getOrInsert_spec h.keyed hroom
  refine ⟨hkeyed, fun snap hs => hinitial snap (h.canonical snap hs), fun snap hs => hinitial snap (h.legacy snap hs),
    fun call snap file clears hs => hinitial snap (h.saving call snap file clears hs), fun p hp => ?_, h.stored⟩
  rcases mem_append.mp hp with hp | hp
  · exact hkept p.2 p.1 (h.used p hp)
  · rw [mem_singleton.mp hp]
    exact hnew

/-- A call that goes on without touching the files or the keys. -/
theorem setStage (h : Coherent st) {call : Nat} {stage : SaveStage}
    (hstage : ∀ snap file clears, stage = .taken snap file clears → Initial snap st.memory.map) :
    Coherent (st.setStage call stage) := by
  refine ⟨h.keyed, h.canonical, h.legacy, fun call' snap file clears hs => ?_, h.used, h.stored⟩
  change update st.saving call stage call' = _ at hs
  by_cases hcall : call' = call
  · subst hcall
    rw [update_self] at hs
    exact hstage snap file clears hs
  · rw [update_of_ne hcall] at hs
    exact h.saving call' snap file clears hs

/-- Other files, one of which holds a snapshot that is not older than the one on disk. -/
theorem files (h : Coherent st) (hnewer : ∀ disk, st.onDisk = some disk → disk.maxKey ≤ snap.maxKey)
    (hc : ∀ snap', c = some snap' → Initial snap' st.memory.map)
    (hl : ∀ snap', l = some snap' → Initial snap' st.memory.map) (hmember : c = some snap ∨ l = some snap) :
    Coherent { st with canonical := c, legacy := l } := by
  obtain ⟨hdisk, hlargest⟩ := @onDisk_spec { st with canonical := c, legacy := l } hc hl h.keyed
  refine ⟨h.keyed, hc, hl, h.saving, h.used, fun p hp => ?_⟩
  -- the new snapshot on disk goes at least as far as the old one
  obtain ⟨old, hold, hlookup⟩ := bind_eq_some_iff.mp (h.stored p hp)
  obtain ⟨new, hnew, hle⟩ := hlargest snap hmember
  have hold_le := Int64.le_iff_toInt_le.mp (hnewer old hold)
  have hkey := DictionarySnapshot.le_maxKey hlookup
  rw [hnew]
  exact (hdisk new hnew).upTo p.2 p.1 (h.stored_memory hp) (by omega)

/-- **Saving** a snapshot that is not older than the one on disk. -/
theorem writeFile (h : Coherent st) (hsnap : Initial snap st.memory.map)
    (hnewer : ∀ disk, st.onDisk = some disk → disk.maxKey ≤ snap.maxKey) (file : DictionaryFile) :
    Coherent (st.writeFile file snap) := by
  have hnew : ∀ snap', some snap = some snap' → Initial snap' st.memory.map := fun _ hs => some.inj hs ▸ hsnap
  cases file with
  | canonical => exact h.files hnewer hnew h.legacy (.inl rfl)
  | legacy => exact h.files hnewer h.canonical hnew (.inr rfl)

/-- **A crash** loses what is not on disk. -/
theorem reload (h : Coherent st) : Coherent st.reload := by
  obtain ⟨hinitial, hlargest⟩ := onDisk_spec h.canonical h.legacy h.keyed
  have hmemory : WellKeyed st.reload.memory ∧
      (∀ snap, st.canonical = some snap ∨ st.legacy = some snap → Initial snap st.memory.map →
        Initial snap st.reload.memory.map) := by
    rw [DictionaryState.reload]
    cases hdisk : st.onDisk with
    | none =>
      refine ⟨wellKeyed_new, fun snap hs _ => ?_⟩
      obtain ⟨disk, hsome, -⟩ := hlargest snap hs
      rw [hdisk] at hsome
      cases hsome
    | some disk =>
      refine ⟨wellKeyed_fromSnapshot h.keyed (hinitial disk hdisk), fun snap hs hsnap => ?_⟩
      obtain ⟨disk', hsome, hle⟩ := hlargest snap hs
      rw [hdisk] at hsome
      obtain rfl := some.inj hsome
      exact (hinitial disk hdisk).within hsnap hle
  refine ⟨hmemory.1, fun snap hs => hmemory.2 snap (.inl hs) (h.canonical snap hs),
    fun snap hs => hmemory.2 snap (.inr hs) (h.legacy snap hs), ?_, ?_, h.stored⟩
  · intro call snap file clears hs
    cases hs
  · intro p hp
    cases hp

/-- **One step.** -/
theorem next [Host] {event : DictionaryEvent} (h : Coherent st) (hmeets : Meets st event)
    (hnext : st.next event = some st') : Coherent st' := by
  cases event with
  | getOrInsert value =>
    obtain rfl := some.inj hnext
    exact h.getOrInsert hmeets
  | take call file clears =>
    rw [DictionaryState.next] at hnext
    split at hnext
    · split at hnext
      · obtain rfl := some.inj hnext
        exact h
      · obtain rfl := some.inj hnext
        refine h.setStage fun snap file' clears' hs => ?_
        obtain ⟨rfl, -, -⟩ := SaveStage.taken.inj hs
        exact Initial.of_snapshot st.memory
    · cases hnext
  | save call succeeds =>
    rw [DictionaryState.next] at hnext
    split at hnext
    · next snap file clears hstage =>
      have hsnap := h.saving call snap file clears hstage
      split at hnext
      · obtain rfl := some.inj hnext
        refine (h.writeFile hsnap (hmeets snap file clears hstage) file).setStage fun snap' file' clears' hs => ?_
        split at hs <;> cases hs
      · obtain rfl := some.inj hnext
        refine h.setStage fun snap' file' clears' hs => ?_
        cases hs
    · cases hnext
  | clearDirty call =>
    rw [DictionaryState.next] at hnext
    split at hnext
    · obtain rfl := some.inj hnext
      have hclear : Coherent { st with memory := { st.memory with dirty := false } } :=
        ⟨⟨h.keyed.bounds, h.keyed.injective, h.keyed.next⟩, h.canonical, h.legacy, h.saving, h.used, h.stored⟩
      refine hclear.setStage fun snap' file' clears' hs => ?_
      cases hs
    · cases hnext
  | store key lower =>
    rw [DictionaryState.next] at hnext
    split at hnext
    · obtain rfl := some.inj hnext
      refine ⟨h.keyed, h.canonical, h.legacy, h.saving, h.used, fun p hp => ?_⟩
      rcases mem_append.mp hp with hp | hp
      · exact h.stored p hp
      · rw [mem_singleton.mp hp]
        exact hmeets
    · cases hnext
  | crash =>
    obtain rfl := some.inj hnext
    exact h.reload

end Coherent

/-- **In every run whose steps meet the condition, a key in data on disk is given to no other string**, in any state.
-/
theorem keys_stable [Host] {events : List DictionaryEvent}
    (h : Reaches (fun st event st' => DictionaryState.next st event = some st') Meets fresh events st)
    {key : Int64} {lower : String} (hstored : (key, lower) ∈ st.stored) {value : String}
    (hkey : (st.memory.getOrInsert value).2 = key) : toLowercase value = lower := by
  have hcoherent : Coherent st :=
    Reaches.invariant (fun _ st => Coherent st) coherent_fresh (fun _ _ _ _ h hm hs => h.next hm hs) h
  have hlookup := hcoherent.stored_memory hstored
  rw [MintingDictionary.getOrInsert] at hkey
  cases hfound : st.memory.map.lookup (toLowercase value) with
  | some found =>
    rw [hfound] at hkey
    obtain rfl : found = key := hkey
    exact hcoherent.keyed.injective _ _ found hfound hlookup
  | none =>
    -- a new key is above all that were given out
    rw [hfound] at hkey
    obtain rfl : st.memory.nextKey = key := hkey
    exact absurd (hcoherent.keyed.bounds lower _ hlookup).2 (lt_irrefl _)

end DictionaryState

/-! ### A crash before and after the save -/

namespace DictionaryState

attribute [local instance] ascii

/-- The key that a string gets after some events, with the data on disk. -/
def keyAfter (events : List DictionaryEvent) (value : String) : Option (Int64 × List (Int64 × String)) :=
  (events.foldlM DictionaryState.next fresh).map fun st => ((st.memory.getOrInsert value).2, st.stored)

/-- The key of `sdxl` reaches the disk before the dictionary does; after the crash `flux` gets the same key. So it
does where a call that took its snapshot early saves it last. -/
theorem key_given_twice :
    keyAfter [.getOrInsert "SDXL", .store 1 "sdxl", .take 0 .canonical true, .save 0 false, .crash] "Flux" =
        some (1, [(1, "sdxl")]) ∧
      keyAfter [.getOrInsert "SD", .take 0 .canonical true, .getOrInsert "SDXL", .take 1 .canonical true, .save 1 true,
        .store 2 "sdxl", .save 0 true, .crash] "Flux" = some (2, [(2, "sdxl")]) := by
  decide +kernel

instance decidableMeets (st : DictionaryState) : (event : DictionaryEvent) → Decidable (Meets st event)
  | .getOrInsert value => inferInstanceAs (Decidable (st.memory.map.lookup (toLowercase value) = none → _))
  | .store key lower => inferInstanceAs (Decidable (st.onDisk.bind (·.forward.lookup lower) = some key))
  | .save call _ =>
    -- only a call that has taken its snapshot saves one
    match hcall : st.saving call with
    | .idle | .written => isTrue fun _ _ _ hs => by rw [hcall] at hs; cases hs
    | .taken snap file clears => decidable_of_iff (∀ disk, st.onDisk = some disk → disk.maxKey ≤ snap.maxKey)
      ⟨fun h _ _ _ hs => by rw [hcall] at hs; cases hs; exact h, fun h => h snap file clears hcall⟩
  | .take _ _ _ | .clearDirty _ | .crash => isTrue trivial

/-- A key that is saved before its data keeps its string through a crash. -/
theorem keys_stable_saved_first :
    ∃ st, [DictionaryEvent.getOrInsert "SDXL", .take 0 .canonical true, .save 0 true, .clearDirty 0, .store 1 "sdxl",
        .crash].foldlM DictionaryState.next fresh = some st ∧
      (1, "sdxl") ∈ st.stored ∧ (st.memory.getOrInsert "Flux").2 ≠ 1 := by
  have hrun : Computed DictionaryState.next Meets fresh [.getOrInsert "SDXL", .take 0 .canonical true, .save 0 true,
      .clearDirty 0, .store 1 "sdxl", .crash] :=
    .of_along (by decide +kernel)
  obtain ⟨st, hst, hmem⟩ : ∃ st, [DictionaryEvent.getOrInsert "SDXL", .take 0 .canonical true, .save 0 true,
      .clearDirty 0, .store 1 "sdxl", .crash].foldlM DictionaryState.next fresh = some st ∧
      (1, "sdxl") ∈ st.stored := by decide +kernel
  refine ⟨st, hst, hmem, fun hkey => ?_⟩
  have hlower : toLowercase "Flux" = "sdxl" := keys_stable (hrun st hst) hmem hkey
  exact absurd hlower (by decide +kernel)

end DictionaryState

/-! ## Keys minted during a save

Here the steps of the two functions are taken apart: `get_or_insert` inserts a key and then sets the flag, and
`persist_dirty_dictionaries` checks the flag, takes a snapshot, saves it and clears the flag. A key that is minted
between the snapshot and the clearing is in neither place. -/

deriving instance DecidableEq for DictionarySnapshot

/-- How far a call of `persist_dirty_dictionaries` has come. -/
inductive PersistStage where
  | idle
  | checked
  | taken (snap : DictionarySnapshot)
  | saved
deriving DecidableEq

/-- The dictionary, its file, the threads that have inserted a key and not set the flag, and the calls. -/
structure DictionaryThreads where
  memory : MintingDictionary
  file : Option DictionarySnapshot
  marking : Finset Nat
  calls : Nat → PersistStage

/-- The steps of the two functions. -/
inductive ThreadStep where
  | insert (thread : Nat) (value : String)
  | mark (thread : Nat)
  | check (call : Nat)
  | take (call : Nat)
  | save (call : Nat) (succeeds : Bool)
  | clear (call : Nat)

namespace DictionaryThreads

/-- A process that has loaded its file. -/
def start (file : Option DictionarySnapshot) : DictionaryThreads :=
  ⟨file.elim .new .fromSnapshot, file, ∅, fun _ => .idle⟩

variable (st : DictionaryThreads)

def goTo (call : Nat) (stage : PersistStage) : DictionaryThreads :=
  { st with calls := update st.calls call stage }

/-- One step; a thread in the middle of a call takes that call's next step. -/
def next [Host] (st : DictionaryThreads) : ThreadStep → Option DictionaryThreads
  | .insert thread value =>
    if thread ∈ st.marking then none
    else if (st.memory.map.lookup (toLowercase value)).isSome then some st
    else some { st with
      memory := { (st.memory.getOrInsert value).1 with dirty := st.memory.dirty }
      marking := insert thread st.marking }
  | .mark thread =>
    if thread ∈ st.marking then
      some { st with memory := { st.memory with dirty := true }, marking := st.marking.erase thread }
    else none
  | .check call =>
    if st.calls call = .idle then some (if st.memory.dirty then st.goTo call .checked else st) else none
  | .take call =>
    if st.calls call = .checked then some (st.goTo call (.taken st.memory.snapshot)) else none
  | .save call succeeds =>
    match st.calls call with
    | .taken snap => some (if succeeds then { st with file := some snap }.goTo call .saved else st.goTo call .idle)
    | _ => none
  | .clear call =>
    if st.calls call = .saved then
      some ({ st with memory := { st.memory with dirty := false } }.goTo call .idle)
    else none

/-- Every key is in the file. -/
def Saved : Prop := ∀ s k, st.memory.map.lookup s = some k → st.file.bind (·.forward.lookup s) = some k

/-- **The condition on a step.** A new key is inserted while no call is between its snapshot and its end. -/
def Meets [Host] (st : DictionaryThreads) : ThreadStep → Prop
  | .insert _ value => (st.memory.map.lookup (toLowercase value)).isSome ∨
      ∀ call, st.calls call = .idle ∨ st.calls call = .checked
  | _ => True

/-- What a call has in its hands is still the whole dictionary. -/
def StageOk : PersistStage → Prop
  | .taken snap => snap.forward = st.memory.map
  | .saved => st.Saved
  | _ => True

/-- What is not in the file is flagged, or about to be. -/
structure Inv : Prop where
  calls : ∀ call, st.StageOk (st.calls call)
  covered : st.memory.dirty = true ∨ st.marking ≠ ∅ ∨ st.Saved

variable {st st' : DictionaryThreads} {step : ThreadStep}

theorem Inv.goTo (h : st.Inv) {call : Nat} {stage : PersistStage} (hstage : st.StageOk stage) :
    (st.goTo call stage).Inv :=
  ⟨(forall_update_iff st.calls fun _ => st.StageOk).mpr ⟨hstage, fun call' _ => h.calls call'⟩, h.covered⟩

/-- **One step.** -/
theorem Inv.next [Host] (h : st.Inv) (hmeets : st.Meets step) (hs : st.next step = some st') : st'.Inv := by
  cases step with
  | insert thread value =>
    obtain ⟨-, hs⟩ := ite_none_left_eq_some.mp hs
    split at hs
    · obtain rfl := some.inj hs
      exact h
    · next hnew =>
      obtain rfl := some.inj hs
      refine ⟨fun call => ?_, .inr (.inl (Finset.insert_ne_empty _ _))⟩
      show StageOk _ (st.calls call)
      rcases hmeets.resolve_left hnew call with hq | hq <;> rw [hq] <;> trivial
  | mark thread =>
    obtain ⟨-, rfl⟩ := ite_some_none_eq_some.mp hs
    exact ⟨h.calls, .inl rfl⟩
  | check call =>
    obtain ⟨-, rfl⟩ := ite_some_none_eq_some.mp hs
    split
    · exact h.goTo trivial
    · exact h
  | take call =>
    obtain ⟨-, rfl⟩ := ite_some_none_eq_some.mp hs
    exact h.goTo rfl
  | save call succeeds =>
    rw [DictionaryThreads.next] at hs
    split at hs
    · next snap hstage =>
      obtain rfl := some.inj hs
      have hsnap : st.StageOk (.taken snap) := hstage ▸ h.calls call
      have hall : Saved { st with file := some snap } := fun s k hk => (congrArg (·.lookup s) hsnap).trans hk
      split
      · refine Inv.goTo ⟨fun call' => ?_, .inr (.inr hall)⟩ hall
        have hcall := h.calls call'
        show StageOk _ (st.calls call')
        cases hc : st.calls call' with
        | saved => exact hall
        | _ => rw [hc] at hcall; exact hcall
      · exact h.goTo trivial
    · cases hs
  | clear call =>
    obtain ⟨hstage, rfl⟩ := ite_some_none_eq_some.mp hs
    have hall : st.StageOk .saved := hstage ▸ h.calls call
    have hclear : Inv { st with memory := { st.memory with dirty := false } } := ⟨h.calls, .inr (.inr hall)⟩
    exact hclear.goTo trivial

/-- **In every run whose steps meet the condition, every key is in the file or the flag is set** once the threads that
inserted keys have set it. -/
theorem saved_or_dirty [Host] {file : Option DictionarySnapshot} {steps : List ThreadStep}
    (h : Reaches (fun st step st' => DictionaryThreads.next st step = some st') Meets (start file) steps st)
    (hmarked : st.marking = ∅) : st.memory.dirty = true ∨ st.Saved := by
  have hstart : (start file).Inv := by
    refine ⟨fun _ => trivial, .inr (.inr fun s k hk => ?_)⟩
    cases file with
    | none => cases hk
    | some snap => exact hk
  have hinv : st.Inv := Reaches.invariant (fun _ st => st.Inv) hstart (fun _ _ _ _ h hm hs => h.next hm hs) h
  exact hinv.covered.imp_right fun hor => hor.resolve_left fun hne => hne hmarked

attribute [local instance] ascii

/-- The key of `sdxl` is minted behind the snapshot and flagged before the flag is cleared. -/
theorem minted_key_unsaved :
    ∃ st, [ThreadStep.insert 0 "SD", .mark 0, .check 1, .take 1, .insert 0 "SDXL", .mark 0, .save 1 true,
        .clear 1].foldlM DictionaryThreads.next (start none) = some st ∧
      st.marking = ∅ ∧ st.calls 1 = .idle ∧ st.memory.dirty = false ∧
      st.memory.map.lookup "sdxl" = some 2 ∧ st.file.bind (·.forward.lookup "sdxl") = none := by
  decide +kernel

/-- A key that is minted before the snapshot is saved. -/
theorem saved_or_dirty_before :
    ∃ st, [ThreadStep.insert 0 "SD", .mark 0, .check 1, .take 1, .save 1 true, .clear 1].foldlM
        DictionaryThreads.next (start none) = some st ∧ (st.memory.dirty = true ∨ st.Saved) := by
  have hrun : Computed DictionaryThreads.next Meets (start none)
      [.insert 0 "SD", .mark 0, .check 1, .take 1, .save 1 true, .clear 1] :=
    .of_along ⟨.inr fun _ => .inl rfl, fun _ _ => .of_forall (by simp [Meets])⟩
  exact ⟨_, rfl, saved_or_dirty (hrun _ rfl) (by decide +kernel)⟩

end DictionaryThreads

end Bitdex
