import Bitdex.Buckets.Diffs

/-!
# `Buckets.Clock` — bucket windows as the clock moves

A refresh looks only at the members between the cutoff of the last refresh and the new one, both snapped to the
refresh interval. That finds all that have aged out because no member lies below the last cutoff (`refreshes_exact`):
a slot enters a bucket by the cutoff of its own time, without snapping.
-/

namespace Bitdex

open List Option

namespace RangeBucket

/-- The last cutoff is no later than one of now, and no member lies below it. -/
structure Current (ts : UInt32 → Nat) (now : Nat) (b : RangeBucket) : Prop where
  cutoff : b.lastCutoff ≤ now - b.durationSecs
  members : ∀ slot ∈ b.bitmap, b.lastCutoff ≤ ts slot

/-- What a check makes of a bucket: if it is due, the members from the new cutoff on are kept. -/
structure Refreshed (ts : UInt32 → Nat) (now : Nat) (b b' : RangeBucket) : Prop where
  duration : b'.durationSecs = b.durationSecs
  cutoff : b'.lastCutoff = if b.needsRefresh now then b.cutoffAt now else b.lastCutoff
  mem : ∀ slot, slot ∈ b'.bitmap ↔ slot ∈ b.bitmap ∧ (b.needsRefresh now = true → b.cutoffAt now ≤ ts slot)

variable {b b' : RangeBucket} {ts : UInt32 → Nat} {now : Nat}

theorem cutoffAt_le : b.cutoffAt now ≤ now - b.durationSecs := by
  unfold cutoffAt snapCutoff
  split
  · exact Nat.le_refl _
  · exact Nat.div_mul_le_self _ _

theorem Current.insertCovered (h : b.Current ts now) (slot : UInt32) :
    (b.insertCovered slot (ts slot) now).Current ts now := by
  unfold RangeBucket.insertCovered
  split
  · next hcovers =>
    refine ⟨h.cutoff, fun x hx => ?_⟩
    rcases Finset.mem_insert.mp hx with rfl | hx
    · exact h.cutoff.trans (of_decide_eq_true hcovers).1
    · exact h.members x hx
  · exact h

theorem Current.refreshed (h : b.Current ts now) (hclock : now < 2 ^ 32) :
    Refreshed ts now b (if b.needsRefresh now then b.refresh ts now else b) := by
  split
  · next hdue =>
    refine ⟨rfl, (if_pos hdue).symm, fun slot => ?_⟩
    have hbound : now - b.durationSecs < 2 ^ 32 := (Nat.sub_le _ _).trans_lt hclock
    have hnew := Nat.mod_eq_of_lt (cutoffAt_le.trans_lt hbound)
    have hold := Nat.mod_eq_of_lt (h.cutoff.trans_lt hbound)
    rw [refresh, subtractExpired, refreshDiff]
    split
    · -- the cutoff stays or moves back, and every member is above the old one
      next hback => simpa [hdue] using fun hslot => hback.trans (h.members slot hslot)
    · simp only [map_some, getD_some, Finset.mem_sdiff, mem_expiredBetween, hnew, hold, not_and, not_lt,
        hdue, true_imp_iff]
      exact and_congr_right fun hslot => ⟨fun hkept => hkept hslot (h.members slot hslot), fun hge _ _ => hge⟩
  · next hdue => exact ⟨rfl, (if_neg hdue).symm, fun slot => by simp [hdue]⟩

theorem Refreshed.current (hr : Refreshed ts now b b') (h : b.Current ts now) : b'.Current ts now where
  cutoff := by
    rw [hr.cutoff, hr.duration]
    split
    · exact cutoffAt_le
    · exact h.cutoff
  members slot hslot := by
    obtain ⟨hold, hkept⟩ := (hr.mem slot).mp hslot
    rw [hr.cutoff]
    split
    · next hdue => exact hkept hdue
    · exact h.members slot hold

end RangeBucket

/-- The buckets, with the sort values of the slots and the clock. -/
structure BucketClock where
  manager : BucketManager
  values : UInt32 → UInt32
  now : Nat

/-- A slot enters with its sort value as timestamp. -/
inductive ClockEvent where
  | insertSlot (slot : UInt32)
  | removeSlot (slot : UInt32)
  | setValue (slot value : UInt32)
  | refresh
  | setRefreshInterval (name : String) (intervalSecs : Nat)
  | tick (now : Nat)

namespace BucketClock

variable (s : BucketClock)

/-- The timestamp of a slot. -/
def ts (slot : UInt32) : Nat := (s.values slot).toNat

/-- The buckets that are due are refreshed. -/
def refresh : BucketClock :=
  { s with manager := s.manager.mapBuckets fun b => if b.needsRefresh s.now then b.refresh s.ts s.now else b }

/-- One event. -/
def next : ClockEvent → Option BucketClock
  | .insertSlot slot => some { s with manager := s.manager.mapBuckets (·.insertCovered slot (s.ts slot) s.now) }
  | .removeSlot slot => some { s with manager := s.manager.mapBuckets (·.removeSlot slot) }
  | .setValue slot value =>
    -- the value of a member changes between its removal and its insertion
    if ∃ e ∈ s.manager.buckets, slot ∈ e.2.bitmap then none
    else some { s with values := Function.update s.values slot value }
  | .refresh => some s.refresh
  | .setRefreshInterval name secs =>
    some { s with manager := s.manager.modifyBucket name fun b => { b with refreshIntervalSecs := secs } }
  | .tick now => if s.now ≤ now ∧ now < 2 ^ 32 then some { s with now := now } else none

/-- What every state reached satisfies. -/
structure Inv : Prop where
  clock : s.now < 2 ^ 32
  current : ∀ e ∈ s.manager.buckets, e.2.Current s.ts s.now

variable {s} {s' s₀ : BucketClock} {events : List ClockEvent}

theorem Inv.step (h : s.Inv) {ev : ClockEvent} (hs : s.next ev = some s') : s'.Inv := by
  cases ev with
  | insertSlot slot =>
    cases hs
    exact ⟨h.clock, forall_mem_map.mpr fun e he => (h.current e he).insertCovered slot⟩
  | removeSlot slot =>
    cases hs
    refine ⟨h.clock, forall_mem_map.mpr fun e he => ⟨(h.current e he).cutoff, fun x hx => ?_⟩⟩
    exact (h.current e he).members x (Finset.mem_of_mem_erase hx)
  | setValue slot value =>
    obtain ⟨hout, ⟨⟩⟩ := ite_none_left_eq_some.mp hs
    refine ⟨h.clock, fun e he => ⟨(h.current e he).cutoff, fun x hx => ?_⟩⟩
    have hne : x ≠ slot := fun heq => hout ⟨e, he, heq ▸ hx⟩
    simpa [ts, hne] using (h.current e he).members x hx
  | refresh =>
    cases hs
    refine ⟨h.clock, forall_mem_map.mpr fun e he => ?_⟩
    exact ((h.current e he).refreshed h.clock).current (h.current e he)
  | setRefreshInterval name secs =>
    cases hs
    refine ⟨h.clock, forall_mem_map.mpr fun e he => ?_⟩
    split
    · exact ⟨(h.current e he).cutoff, (h.current e he).members⟩
    · exact h.current e he
  | tick now =>
    obtain ⟨hnow, ⟨⟩⟩ := ite_none_right_eq_some.mp hs
    refine ⟨hnow.2, fun e he => ⟨(h.current e he).cutoff.trans ?_, (h.current e he).members⟩⟩
    exact Nat.sub_le_sub_right hnow.1 _

/-- **Refreshes keep the window.** In every state reached from empty buckets no member lies below its bucket's last
cutoff, and a refresh keeps of every due bucket exactly the members from the new cutoff on. -/
theorem refreshes_exact (hempty : ∀ e ∈ s₀.manager.buckets, ∃ duration interval, e.2 = .new duration interval)
    (hclock : s₀.now < 2 ^ 32) (h : Reaches (fun s ev s' => s.next ev = some s') (fun _ _ => True) s₀ events s)
    (name : String) : (∀ b, s.manager.getBucket name = some b → ∀ slot ∈ b.bitmap, b.lastCutoff ≤ s.ts slot) ∧
      Option.Rel (RangeBucket.Refreshed s.ts s.now) (s.manager.getBucket name)
        (s.refresh.manager.getBucket name) := by
  have hinv : s.Inv := by
    refine h.invariant (fun _ s => s.Inv) ⟨hclock, fun e he => ?_⟩ fun _ _ _ _ hinv _ hs => hinv.step hs
    obtain ⟨duration, interval, hnew⟩ := hempty e he
    rw [hnew]
    exact ⟨Nat.zero_le _, fun slot _ => Nat.zero_le _⟩
  have hcurrent : ∀ b, s.manager.getBucket name = some b → b.Current s.ts s.now := by
    intro b hb
    obtain ⟨front, back, hsplit, -⟩ := lookup_eq_some_iff.mp hb
    exact hinv.current (name, b) (hsplit ▸ mem_append_right front mem_cons_self)
  refine ⟨fun b hb => (hcurrent b hb).members, ?_⟩
  rw [refresh, BucketManager.getBucket_mapBuckets]
  cases hb : s.manager.getBucket name with
  | none => exact .none
  | some b => exact .some ((hcurrent b hb).refreshed hinv.clock)

/-- A bucket of 10 seconds at second 100. -/
def tenSecondClock : BucketClock := ⟨⟨"t", "v", [("10s", .new 10 4)]⟩, fun _ => 0, 100⟩

/-- Slots of seconds 95 and 99 enter, and the first has aged out at second 106. -/
theorem refreshes_exact_aged : ∃ s, Reaches (fun s ev s' => next s ev = some s') (fun _ _ => True) tenSecondClock
        [.setValue 1 95, .setValue 2 99, .insertSlot 1, .insertSlot 2, .refresh, .tick 106] s ∧
      ((s.manager.getBucket "10s").map (·.bitmap) = some {1, 2} ∧
        (s.refresh.manager.getBucket "10s").map (·.bitmap) = some {2}) ∧
      Option.Rel (RangeBucket.Refreshed s.ts s.now) (s.manager.getBucket "10s")
        (s.refresh.manager.getBucket "10s") := by
  refine (Computed.of_true.exists_end (P := fun s => (s.manager.getBucket "10s").map (·.bitmap) = some {1, 2} ∧
    (s.refresh.manager.getBucket "10s").map (·.bitmap) = some {2}) (by decide)).imp fun s h => ⟨h.1, h.2, ?_⟩
  exact (refreshes_exact (by simp [tenSecondClock]) (by decide) h.1 "10s").2

end BucketClock

end Bitdex
