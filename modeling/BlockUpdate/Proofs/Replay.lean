import BlockUpdate.Proofs.History

/-!
# Replaying new data

A session that resumes writes new data again from its beginning and skips everything else. On the
way its image is that of no moment of the history: a byte that some `new` wrote is as the last
such command left it, which need not be what a later command made of it.

- `Session.NewAt`, `Session.Streams`: the lines that write new data to a byte.
- `Session.Replaying`: how far a machine got on its way to one of the history.
- **`Replaying.pass`**, **`Replaying.stream`**: a line that is passed over, and one that is
  streamed again.
- **`Replaying.image_eq_iff`**: when the image at the end is that of the history.
- **`History.undisturbed`**: it is, if no command writes to blocks of an earlier `new`.
-/

namespace BlockUpdate

namespace Session

open SessionOptions

variable {P : Primitives} {o : SessionOptions} {place : Place} {commands : List String}

/-! ## New data by line -/

/-- A line writes new data to a byte. -/
def NewAt (commands : List String) (k i : Nat) : Prop :=
  ∃ c, instruction? commands k = some c ∧ c.verb = .new ∧ c.Targets i

/-- Of the first `k` lines, the last one that writes new data to a byte. -/
def Streams (commands : List String) (k j i : Nat) : Prop :=
  j < k ∧ NewAt commands j i ∧ ∀ l, j < l → l < k → ¬ NewAt commands l i

/-- Of the first `k` lines that something is true of, one is the last. -/
theorem exists_last {p : Nat → Prop} {k j : Nat} (hj : j < k) (h : p j) :
    ∃ l < k, p l ∧ ∀ l', l < l' → l' < k → ¬ p l' := by
  induction k with
  | zero => omega
  | succ k ih =>
    by_cases hk : p k
    · exact ⟨k, Nat.lt_succ_self k, hk, fun l _ _ => by omega⟩
    · rcases Nat.lt_succ_iff_lt_or_eq.mp hj with hj | rfl
      · obtain ⟨l, hl, hlast, hnone⟩ := ih hj
        refine ⟨l, by omega, hlast, fun l' hl' hk' => ?_⟩
        rcases Nat.lt_succ_iff_lt_or_eq.mp hk' with hk' | rfl
        · exact hnone l' hl' hk'
        · exact hk
      · exact absurd h hk

theorem exists_streams {k j i : Nat} (hj : j < k) (hnew : NewAt commands j i) :
    ∃ l, Streams commands k l i := exists_last (p := (NewAt commands · i)) hj hnew

theorem Streams.of_succ {k j i : Nat} (h : Streams commands (k + 1) j i)
    (hk : ¬ NewAt commands k i) : Streams commands k j i := by
  obtain ⟨hj, hnew, hlast⟩ := h
  refine ⟨?_, hnew, fun l hl hk => hlast l hl (by omega)⟩
  rcases Nat.lt_succ_iff_lt_or_eq.mp hj with hj | rfl
  · exact hj
  · exact absurd hnew hk

/-! ## On the way -/

/-- On its way to the machine before line `goal` a machine has come to line `k`. Apart from its
device and its new data it follows that machine already. -/
structure Replaying (slack : Slack) (o : SessionOptions) (place : Place) (commands : List String)
    (machine : Nat → Machine) (goal k : Nat) (n : Machine) : Prop where
  follows : (machine goal).Follows slack (o.stashAt place)
    { n with device := (machine goal).device, newData := (machine goal).newData }
  newData : n.newData = (machine k).newData
  faults : n.device.faults = (machine goal).device.faults
  endless : n.device.endless = (machine goal).device.endless
  discards : n.device.discards = (machine goal).device.discards
  size : n.device.image.size = (machine goal).device.image.size
  /-- What no new data was written to is as it will be. -/
  kept : ∀ i, (∀ j < goal, ¬ NewAt commands j i) →
    n.device.image.byte i = (machine goal).device.image.byte i
  /-- What new data was written to is as its last command left it. -/
  streamed : ∀ i j, Streams commands k j i →
    n.device.image.byte i = (machine (j + 1)).device.image.byte i

/-- What was streamed is not written again before line `goal`. -/
def Undisturbed (commands : List String) (machine : Nat → Machine) (goal : Nat) : Prop :=
  ∀ i j, Streams commands goal j i →
    (machine (j + 1)).device.image.byte i = (machine goal).device.image.byte i

/-- No command writes to a block of an earlier `new`, unless it is a `new` itself. -/
def NewDataStays (commands : List String) : Prop :=
  ∀ j k c c' set set' block, j < k → instruction? commands j = some c → c.verb = .new →
    instruction? commands k = some c' → c'.verb ≠ .new → c.target? = some set →
    c'.target? = some set' → ¬ (set.HasBlock block ∧ set'.HasBlock block)

section Replaying

variable {count : Nat} {machine : Nat → Machine}
  (h : History P o place commands count machine) {slack : Slack} {goal k : Nat} {n : Machine}

include h

/-- **Where the new data stays, nothing disturbs it.** -/
theorem History.undisturbed (hstays : NewDataStays commands) (hgoal : goal ≤ count) :
    Undisturbed commands machine goal := by
  rintro i j ⟨hj, ⟨c, hc, hverb, set, hset, hi⟩, hlast⟩
  refine ((h.within_of_le (Nat.succ_le_of_lt hj) hgoal).byte ?_).symm
  rintro ⟨l, hjl, hl, c', hc', set', hset', hi'⟩
  by_cases hverb' : c'.verb = .new
  · exact hlast l hjl hl ⟨c', hc', hverb', set', hset', hi'⟩
  · rw [BlockSet.hasByte_iff_hasBlock] at hi hi'
    exact hstays j l c c' set set' _ hjl hc hverb hc' hverb' hset hset' ⟨hi, hi'⟩

/-- **A line that is passed over** brings the machine further, unless it has new data. -/
theorem Replaying.pass (hr : Replaying slack o place commands machine goal k n) (hk : k < count)
    (hline : ∀ c, instruction? commands k = some c → c.verb ≠ .new) :
    Replaying slack o place commands machine goal (k + 1) n :=
  { hr with
    newData := hr.newData.trans (h.newData_succ hk hline).symm
    streamed := fun i j hs => hr.streamed i j <| hs.of_succ fun ⟨c, hc, hverb, _⟩ =>
      hline c hc hverb }

/-- **New data is streamed again** from where the feed is in the history. -/
theorem Replaying.stream (hr : Replaying slack o place commands machine goal k n)
    (hk : k < goal) (hgoal : goal ≤ count) {c : Command} (hc : instruction? commands k = some c)
    (hverb : c.verb = .new) :
    Machine.Repeats (c.run P) (Replaying slack o place commands machine goal (k + 1)) n := by
  obtain ⟨m₁, hrun, hmachine⟩ := h.step_of_instruction? (by omega) hc
  have hcommand : c.run P = c.writeNewData := by rw [Command.run, hverb]
  rw [marked, if_pos hverb] at hmachine
  rw [hcommand] at hrun ⊢
  obtain ⟨set, feed, feed', ws, hset, hfeed, hfill, rfl, hdoes⟩ :=
    Command.writeNewData_eq_ok (h.live_at (by omega)) hrun
  have hcovered : ∀ i, Write.Covered ws i ↔ NewAt commands k i := by
    intro i
    rw [hfill i]
    have htarget : c.target? = some set :=
      Command.target?_of_position (by rw [Command.targetPosition?, hverb]) hset
    constructor
    · exact fun hi => ⟨c, hc, hverb, set, htarget, hi⟩
    · rintro ⟨c', hc', -, set', hset', hi⟩
      rw [hc] at hc'
      cases hc'
      rw [htarget] at hset'
      cases hset'
      exact hi
  have himage : (machine (k + 1)).device.image = (machine k).device.image.overwrite ws := by
    rw [hmachine]
    rfl
  have hsize : Write.reach ws ≤ (machine goal).device.image.size := by
    have := (h.within_of_le (Nat.succ_le_of_lt hk) hgoal).size_le
    rw [himage, Bytes.size_overwrite] at this
    omega
  have hdiscards : n.device.discards = (machine k).device.discards :=
    hr.discards.trans (h.within_of_le (Nat.le_of_lt hk) hgoal).discards
  refine .of_does (hdoes n hdiscards hr.follows.live' (hr.newData.trans hfeed)) ?_
  refine ⟨hr.follows.counted (machine goal).written _, ?_, hr.faults, hr.endless, hr.discards,
    ?_, ?_, ?_⟩
  · rw [hmachine]
  · show (n.device.image.overwrite ws).size = _
    rw [Bytes.size_overwrite, hr.size]
    omega
  · intro i hi
    show (n.device.image.overwrite ws).byte i = _
    rw [Bytes.byte_overwrite_of_not_covered _ fun h => hi k hk ((hcovered i).mp h)]
    exact hr.kept i hi
  · intro i j hs
    show (n.device.image.overwrite ws).byte i = _
    by_cases hi : NewAt commands k i
    · obtain rfl : j = k := by
        obtain ⟨hj, -, hlast⟩ := hs
        by_contra hne
        exact hlast k (by omega) (Nat.lt_succ_self k) hi
      rw [himage]
      exact Bytes.byte_overwrite_of_covered _ _ ((hcovered i).mpr hi)
    · rw [Bytes.byte_overwrite_of_not_covered _ fun h => hi ((hcovered i).mp h)]
      exact hr.streamed i j (hs.of_succ hi)

omit h

/-- **When the image at the end is that of the history.** -/
theorem Replaying.image_eq_iff (hr : Replaying slack o place commands machine goal goal n) :
    n.device.image = (machine goal).device.image ↔ Undisturbed commands machine goal := by
  constructor
  · intro himage i j hs
    rw [← hr.streamed i j hs, himage]
  · intro hundisturbed
    refine Bytes.ext_byte hr.size fun i => ?_
    by_cases hnew : ∃ j < goal, NewAt commands j i
    · obtain ⟨j, hj, hnew⟩ := hnew
      obtain ⟨l, hs⟩ := exists_streams hj hnew
      rw [hr.streamed i l hs, hundisturbed i l hs]
    · exact hr.kept i fun j hj hij => hnew ⟨j, hj, hij⟩

/-- At the end a machine follows. -/
theorem Replaying.finish (hr : Replaying slack o place commands machine goal goal n)
    (hundisturbed : Undisturbed commands machine goal) :
    (machine goal).Follows slack (o.stashAt place) n :=
  { hr.follows with
    reads := ⟨hr.image_eq_iff.mpr hundisturbed, hr.endless, hr.faults, hr.discards⟩
    newData := hr.newData }

/-- A machine that follows is at the end. -/
theorem Replaying.of_follows (hfollows : (machine goal).Follows slack (o.stashAt place) n)
    (hundisturbed : Undisturbed commands machine goal) :
    Replaying slack o place commands machine goal goal n where
  follows := { hfollows with
    reads := .refl _
    newData := rfl }
  newData := hfollows.newData
  faults := hfollows.reads.faults
  endless := hfollows.reads.endless
  discards := hfollows.reads.discards
  size := by rw [hfollows.reads.image]
  kept i _ := by rw [hfollows.reads.image]
  streamed i j hs := by rw [hfollows.reads.image, hundisturbed i j hs]

end Replaying

end Session

end BlockUpdate
