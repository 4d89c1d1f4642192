import BlockUpdate.Proofs.Members
import BlockUpdate.Proofs.Receivers
import Mathlib.Data.List.Induction

/-!
# The protocol of an adapter

An adapter is opened, written to, flushed and closed, and nothing keeps its user from doing so in
another order: it may be opened twice, closed in the middle of a stream, or used when it is not
open. What an operation answers depends on the operations before it only through two things: whether
the adapter is open, and how much it handed over since it was opened.

- `Adapter.Operation`, `Adapter.Event`, `Adapter.trace`: operations in any order, in front of a
  receiver that takes everything, and what each of them answered and handed over.
- `Adapter.OpenAfter`: an opening is the last thing that happened, writes aside.
- `Adapter.Orderly`: the protocol.
- `Adapter.Counts`: an adapter whose states tell whether it is open and how much it handed over;
  **`Counts.orderly`**: such an adapter follows the protocol.
- `counts_ofEncoder`, `counts_lz4Legacy`: in front of a compressor and in the legacy framing.
- **`Adapter.orderly_trace`**: all three adapters follow the protocol.
-/

namespace BlockUpdate

/-- A receiver that takes everything. -/
def Receiver.accepting {σ : Type} (next : σ → Bytes → σ) : Receiver σ :=
  fun s piece => (.ok (), next s piece)

/-- A receiver that takes everything is handed all pieces, and the output ends as it would. -/
theorem Emission.deliver_accepting {σ α : Type} (next : σ → Bytes → σ) (e : Emission α) (s : σ) :
    e.deliver (noting (Receiver.accepting next)) (s, []) =
      (e.outcome, e.pieces.foldl next s, taken e.pieces) := by
  let note : σ × List Call → Bytes → σ × List Call :=
    fun r piece => (next r.1 piece, r.2 ++ [⟨piece, .ok ()⟩])
  have hpieces : ∀ (pieces : List Bytes) (s : σ) (calls : List Call),
      pieces.foldl note (s, calls) = (pieces.foldl next s, calls ++ taken pieces) := by
    intro pieces
    induction pieces with
    | nil =>
      intro s calls
      rw [taken, List.map_nil, List.append_nil]
      rfl
    | cons piece rest ih =>
      intro s calls
      rw [List.foldl_cons, ih, List.append_assoc]
      rfl
  have htotal : ∀ r piece, noting (Receiver.accepting next) r piece = (.ok (), note r piece) :=
    fun _ _ => rfl
  rw [deliver_total htotal, hpieces, List.nil_append]

namespace Adapter

open Emit (Emits)

/-! ## Operations and what comes of them -/

/-- An operation of an adapter. -/
inductive Operation
  | opening
  | writing (data : Bytes)
  | flushing
  | closing

/-- Whether an operation is for open adapters only. -/
def Operation.NeedsOpen : Operation → Prop
  | .writing _ | .flushing => True
  | .opening | .closing => False

/-- Performs an operation. The answer is a number if it was to flush. -/
def perform (A : Adapter) (s : A.State) : Operation → Emit (Option Nat × A.State)
  | .opening => return (none, A.opened s)
  | .writing data => do return (none, ← A.write s data)
  | .flushing => do
    let (size, s) ← A.flush s
    return (some size, s)
  | .closing => return (none, A.close s)

/-- An operation, its answer, and the pieces that the receiver was handed. -/
structure Event where
  operation : Operation
  answer : Except PatchError (Option Nat)
  handed : List Bytes

/-- The number of bytes that the receiver was handed. -/
def Event.size (e : Event) : Nat := (Bytes.join e.handed).size

/-- What happens when operations are performed one after the other, also after one that fails, in
front of a receiver that takes everything. -/
def trace {σ : Type} (A : Adapter) (next : σ → Bytes → σ) :
    List Operation → A.State → σ → List Event
  | [], _, _ => []
  | op :: rest, s, r =>
    let (answer, r, calls) :=
      (A.perform s op).emission.deliver (Emission.noting (Receiver.accepting next)) (r, [])
    let s := match answer with
      | .ok (_, s) => s
      | .error _ => s
    ⟨op, answer.map (·.1), calls.map (·.piece)⟩ :: A.trace next rest s r

/-! ## The protocol -/

/-- The adapter is open after some events: it was opened, and neither flushed nor closed since. -/
def OpenAfter (events : List Event) : Prop :=
  ∃ earlier opening since, events = earlier ++ opening :: since ∧
    opening.operation = .opening ∧
    ∀ e ∈ since, e.operation ≠ .flushing ∧ e.operation ≠ .closing

/-- The number of bytes that events handed over. -/
def handedSize (events : List Event) : Nat := (events.map Event.size).sum

/-- The protocol of an adapter that errors call by a name, as what one event says about those before
it. -/
structure Follows (name : String) (before : List Event) (e : Event) : Prop where
  /-- Writing and flushing fail exactly if the adapter is not open, and nothing else fails. -/
  refused : (∃ err, e.answer = .error err) ↔ e.operation.NeedsOpen ∧ ¬ OpenAfter before
  /-- What fails says so, and hands over nothing. -/
  blamed : ∀ err, e.answer = .error err →
    err.message = "codec error: " ++ (name ++ " adapter used before open") ∧ e.handed = []
  /-- Flushing gives the number of bytes that were handed over since the adapter was last opened. -/
  counted : ∀ answer, e.operation = .flushing → e.answer = .ok answer →
    ∃ earlier opening since, before = earlier ++ opening :: since ∧
      opening.operation = .opening ∧ (∀ e' ∈ since, e'.operation ≠ .opening) ∧
      answer = some (handedSize (opening :: since) + e.size)

/-- Operations that were all performed, each event following the protocol. -/
structure Orderly (name : String) (ops : List Operation) (events : List Event) : Prop where
  performed : events.map (·.operation) = ops
  follows : ∀ before e after, events = before ++ e :: after → Follows name before e

/-! ## Accounts -/

/-- The account of an adapter: how much it handed over since it was opened, if it is open. -/
def Event.advance (account : Option Nat) (e : Event) : Option Nat :=
  match e.operation with
  | .opening => some 0
  | .writing _ => account.map (· + e.size)
  | .flushing | .closing => none

/-- The account after some events. -/
def account (events : List Event) : Option Nat := events.foldl Event.advance none

theorem account_append_singleton (events : List Event) (e : Event) :
    account (events ++ [e]) = e.advance (account events) := List.foldl_concat ..

theorem handedSize_append_singleton (events : List Event) (e : Event) :
    handedSize (events ++ [e]) = handedSize events + e.size := by
  rw [handedSize, List.map_append, List.sum_append]
  rfl

/-- Events that hand nothing over when the adapter is opened. -/
def QuietOpenings (events : List Event) : Prop :=
  ∀ e ∈ events, e.operation = .opening → e.handed = []

/-- **What an account says.** Since the last opening there were only writes, and it is the sum of
what they handed over. -/
theorem account_eq_some {events : List Event} (hquiet : QuietOpenings events) {n : Nat}
    (h : account events = some n) :
    ∃ earlier opening since, events = earlier ++ opening :: since ∧
      opening.operation = .opening ∧ (∀ e ∈ since, ∃ data, e.operation = .writing data) ∧
      n = handedSize (opening :: since) := by
  induction events using List.reverseRecOn generalizing n with
  | nil => cases h
  | append_singleton events e ih =>
    rw [account_append_singleton, Event.advance] at h
    split at h
    · rename_i hopening
      obtain rfl := Option.some.inj h
      refine ⟨events, e, [], rfl, hopening, by simp, ?_⟩
      have hhanded := hquiet e (by simp) hopening
      rw [handedSize, List.map_singleton, List.sum_singleton, Event.size, hhanded]
      rfl
    · rename_i data hwriting
      obtain ⟨m, hm, rfl⟩ := Option.map_eq_some_iff.mp h
      obtain ⟨earlier, opening, since, rfl, hopening, hsince, rfl⟩ :=
        ih (fun e he => hquiet e (List.mem_append_left _ he)) hm
      refine ⟨earlier, opening, since ++ [e], by simp, hopening, fun e' he' => ?_, ?_⟩
      · rcases List.mem_append.mp he' with he' | he'
        · exact hsince e' he'
        · exact ⟨data, List.mem_singleton.mp he' ▸ hwriting⟩
      · rw [← List.cons_append, handedSize_append_singleton]
    all_goals cases h

/-- An adapter that was opened, and neither flushed nor closed since, has an account. -/
theorem account_ne_none {events : List Event} (h : OpenAfter events) : account events ≠ none := by
  obtain ⟨earlier, opening, since, rfl, hopening, hsince⟩ := h
  induction since using List.reverseRecOn with
  | nil =>
    rw [account_append_singleton, Event.advance, hopening]
    exact Option.some_ne_none 0
  | append_singleton since e ih =>
    have hstill := ih fun e' he' => hsince e' (List.mem_append_left _ he')
    obtain ⟨hflush, hclose⟩ := hsince e (by simp)
    rw [← List.cons_append, ← List.append_assoc, account_append_singleton, Event.advance]
    split
    · exact Option.some_ne_none 0
    · rwa [Ne, Option.map_eq_none_iff]
    · exact absurd ‹_› hflush
    · exact absurd ‹_› hclose

/-- **An adapter is open** exactly if it has an account. -/
theorem openAfter_iff {events : List Event} (hquiet : QuietOpenings events) :
    OpenAfter events ↔ account events ≠ none := by
  constructor
  · exact account_ne_none
  · intro h
    obtain ⟨n, hn⟩ := Option.ne_none_iff_exists'.mp h
    obtain ⟨earlier, opening, since, hevents, hopening, hsince, -⟩ := account_eq_some hquiet hn
    refine ⟨earlier, opening, since, hevents, hopening, fun e he => ?_⟩
    obtain ⟨data, hdata⟩ := hsince e he
    rw [hdata]
    exact ⟨Operation.noConfusion, Operation.noConfusion⟩

/-! ## Adapters that count -/

/-- An adapter, called by a name in errors, whose states tell its account. -/
structure Counts (name : String) (A : Adapter) (count? : A.State → Option Nat) : Prop where
  initial : count? A.initial = none
  opened : ∀ s, count? (A.opened s) = some 0
  closed : ∀ s, count? (A.close s) = none
  write_of_none : ∀ s data, count? s = none → A.write s data = throw (.codec (.notOpen name))
  write_of_some : ∀ s data n, count? s = some n →
    ∃ s' handed, Emits (A.write s data) s' handed ∧ count? s' = some (n + handed.size)
  flush_of_none : ∀ s, count? s = none → A.flush s = throw (.codec (.notOpen name))
  flush_of_some : ∀ s n, count? s = some n →
    ∃ s' handed, Emits (A.flush s) (n + handed.size, s') handed ∧ count? s' = none

section

variable {A : Adapter} {name : String} {count? : A.State → Option Nat} {σ : Type}
  {next : σ → Bytes → σ}

/-- What one event of a counting adapter says, when its account was `n` before. -/
structure Event.Recorded (name : String) (n : Option Nat) (e : Event) : Prop where
  refused : (∃ err, e.answer = .error err) ↔ e.operation.NeedsOpen ∧ n = none
  blamed : ∀ err, e.answer = .error err → err = .codec (.notOpen name) ∧ e.handed = []
  counted : ∀ answer, e.operation = .flushing → e.answer = .ok answer →
    answer = n.map (· + e.size)
  quiet : e.operation = .opening → e.handed = []

/-- An event that succeeds. -/
theorem Event.recorded_of_ok {op : Operation} {n answer : Option Nat} {handed : List Bytes}
    (hopen : op.NeedsOpen → n ≠ none)
    (hcounted : op = .flushing → answer = n.map (· + (Bytes.join handed).size))
    (hquiet : op = .opening → handed = []) :
    Event.Recorded name n ⟨op, .ok answer, handed⟩ where
  refused := by
    constructor
    · rintro ⟨err, h⟩
      cases h
    · rintro ⟨hneeds, hnone⟩
      exact absurd hnone (hopen hneeds)
  blamed := by
    intro err h
    cases h
  counted := by
    intro answer' hflush h
    obtain rfl := Except.ok.inj h
    exact hcounted hflush
  quiet := hquiet

/-- An event that is refused. -/
theorem Event.recorded_of_refused {op : Operation} (hneeds : op.NeedsOpen) :
    Event.Recorded name none ⟨op, .error (.codec (.notOpen name)), []⟩ where
  refused := by
    constructor
    · exact fun _ => ⟨hneeds, rfl⟩
    · exact fun _ => ⟨_, rfl⟩
  blamed := by
    rintro err h
    cases h
    exact ⟨rfl, rfl⟩
  counted := by
    intro answer _ h
    cases h
  quiet := fun _ => rfl

/-- The head of a trace, and the state that the rest starts in. -/
theorem trace_cons (op : Operation) (rest : List Operation) (s : A.State) (r : σ) :
    A.trace next (op :: rest) s r =
      ⟨op, (A.perform s op).emission.outcome.map (·.1), (A.perform s op).emission.pieces⟩ ::
        A.trace next rest
          (match (A.perform s op).emission.outcome with
            | .ok (_, s') => s'
            | .error _ => s)
          ((A.perform s op).emission.pieces.foldl next r) := by
  have hpieces : ∀ pieces : List Bytes, (Emission.taken pieces).map (·.piece) = pieces := by
    intro pieces
    rw [Emission.taken, List.map_map]
    exact List.map_id pieces
  rw [trace, Emission.deliver_accepting]
  simp only [hpieces]

/-- **One step**: what is recorded, and that the states go on telling the account. -/
theorem Counts.step (h : Counts name A count?) (next : σ → Bytes → σ) (op : Operation)
    (rest : List Operation) (s : A.State) (r : σ) :
    ∃ e s' r', A.trace next (op :: rest) s r = e :: A.trace next rest s' r' ∧
      e.Recorded name (count? s) ∧ count? s' = e.advance (count? s) := by
  rw [trace_cons]
  refine ⟨_, _, _, rfl, ?_⟩
  cases op with
  | opening =>
    have hrun : (A.perform s .opening).emission = ⟨[], .ok (none, A.opened s)⟩ :=
      Emit.emission_pure _
    rw [hrun]
    exact ⟨Event.recorded_of_ok (fun hneeds => hneeds.elim) nofun fun _ => rfl, h.opened s⟩
  | closing =>
    have hrun : (A.perform s .closing).emission = ⟨[], .ok (none, A.close s)⟩ :=
      Emit.emission_pure _
    rw [hrun]
    exact ⟨Event.recorded_of_ok (fun hneeds => hneeds.elim) nofun fun _ => rfl, h.closed s⟩
  | writing data =>
    rcases hcount : count? s with _ | n
    · have hrun : (A.perform s (.writing data)).emission =
          ⟨[], .error (.codec (.notOpen name))⟩ := by
        rw [perform, h.write_of_none s data hcount]
        exact Emit.emission_throw _
      rw [hrun]
      exact ⟨Event.recorded_of_refused trivial, hcount⟩
    · obtain ⟨s', handed, hwrite, hcount'⟩ := h.write_of_some s data n hcount
      have hrun : Emits (A.perform s (.writing data)) (none, s') handed :=
        hwrite.bind_pure (.pure _)
      rw [hrun.outcome]
      refine ⟨Event.recorded_of_ok (fun _ => Option.some_ne_none n) nofun nofun, ?_⟩
      show count? s' = some (n + (A.perform s (.writing data)).emission.bytes.size)
      rw [hrun.bytes, hcount']
  | flushing =>
    rcases hcount : count? s with _ | n
    · have hrun : (A.perform s .flushing).emission = ⟨[], .error (.codec (.notOpen name))⟩ := by
        rw [perform, h.flush_of_none s hcount]
        exact Emit.emission_throw _
      rw [hrun]
      exact ⟨Event.recorded_of_refused trivial, hcount⟩
    · obtain ⟨s', handed, hflush, hcount'⟩ := h.flush_of_some s n hcount
      have hrun : Emits (A.perform s .flushing) (some (n + handed.size), s') handed :=
        hflush.bind_pure (.pure _)
      rw [hrun.outcome]
      refine ⟨Event.recorded_of_ok (fun _ => Option.some_ne_none n) (fun _ => ?_) nofun, hcount'⟩
      show some (n + handed.size) = some (n + (A.perform s .flushing).emission.bytes.size)
      rw [hrun.bytes]

/-- **The whole trace**: each event is recorded under the account of those before it. -/
theorem Counts.recorded (h : Counts name A count?) (ops : List Operation) {s : A.State}
    {past : List Event} (hs : count? s = account past) (r : σ) :
    ∀ before e after, A.trace next ops s r = before ++ e :: after →
      e.Recorded name (account (past ++ before)) := by
  induction ops generalizing s past r with
  | nil =>
    intro before e after htrace
    simp [trace] at htrace
  | cons op rest ih =>
    intro before e after htrace
    obtain ⟨first, s', r', hhead, hrecorded, hs'⟩ := h.step next op rest s r
    rw [hhead] at htrace
    rw [hs] at hrecorded hs'
    cases before with
    | nil =>
      obtain ⟨rfl, -⟩ := List.cons.inj htrace
      rwa [List.append_nil]
    | cons first' before =>
      obtain ⟨rfl, htail⟩ := List.cons.inj htrace
      have hpast : count? s' = account (past ++ [first]) := by
        rw [hs', account_append_singleton]
      rw [← List.singleton_append, ← List.append_assoc]
      exact ih hpast r' before e after htail

theorem map_operation_trace (A : Adapter) (next : σ → Bytes → σ) (ops : List Operation)
    (s : A.State) (r : σ) : (A.trace next ops s r).map (·.operation) = ops := by
  induction ops generalizing s r with
  | nil => rfl
  | cons op rest ih => rw [trace_cons, List.map_cons, ih]

/-- **An adapter that counts follows the protocol.** -/
theorem Counts.orderly (h : Counts name A count?) (ops : List Operation) (r : σ) :
    Orderly name ops (A.trace next ops A.initial r) := by
  have hall : ∀ before e after, A.trace next ops A.initial r = before ++ e :: after →
      e.Recorded name (account before) := by
    have hinitial : count? A.initial = account [] := h.initial
    exact h.recorded ops hinitial r
  refine ⟨A.map_operation_trace next ops A.initial r, ?_⟩
  intro before e after htrace
  have hquiet : QuietOpenings before := by
    intro e' he' hopening
    obtain ⟨front, back, rfl⟩ := List.append_of_mem he'
    rw [List.append_assoc] at htrace
    exact (hall front e' _ htrace).quiet hopening
  have hrecorded := hall before e after htrace
  constructor
  · rw [hrecorded.refused, openAfter_iff hquiet, not_not]
  · intro err herr
    obtain ⟨rfl, hhanded⟩ := hrecorded.blamed err herr
    exact ⟨rfl, hhanded⟩
  · intro answer hflush hanswer
    have haccount : account before ≠ none := by
      intro hnone
      obtain ⟨err, herr⟩ := hrecorded.refused.mpr ⟨by rw [hflush]; trivial, hnone⟩
      rw [hanswer] at herr
      cases herr
    obtain ⟨n, hn⟩ := Option.ne_none_iff_exists'.mp haccount
    obtain ⟨earlier, opening, since, hbefore, hopening, hsince, rfl⟩ := account_eq_some hquiet hn
    refine ⟨earlier, opening, since, hbefore, hopening, fun e' he' => ?_, ?_⟩
    · obtain ⟨data, hdata⟩ := hsince e' he'
      rw [hdata]
      exact Operation.noConfusion
    · rw [hrecorded.counted answer hflush hanswer, hn]
      rfl

end

/-! ## The three adapters -/

/-- In front of a compressor, an adapter is open while it has the compressor's state. -/
theorem counts_ofEncoder (name : String) (E : Encoder) :
    Counts name (ofEncoder name E) fun s => s.stream.map fun _ => s.emitted where
  initial := rfl
  opened _ := rfl
  closed _ := rfl
  write_of_none := by
    rintro ⟨stream, emitted⟩ data h
    obtain rfl : stream = none := Option.map_eq_none_iff.mp h
    rfl
  write_of_some := by
    rintro ⟨stream, emitted⟩ data n h
    obtain ⟨⟨s, pending⟩, hstream, hemitted⟩ := Option.map_eq_some_iff.mp h
    obtain rfl : stream = some (s, pending) := hstream
    obtain rfl : emitted = n := hemitted
    obtain ⟨handed, pending', hwrite, -⟩ := write_ofEncoder name E s pending emitted data
    exact ⟨_, handed, hwrite, rfl⟩
  flush_of_none := by
    rintro ⟨stream, emitted⟩ h
    obtain rfl : stream = none := Option.map_eq_none_iff.mp h
    rfl
  flush_of_some := by
    rintro ⟨stream, emitted⟩ n h
    obtain ⟨⟨s, pending⟩, hstream, hemitted⟩ := Option.map_eq_some_iff.mp h
    obtain rfl : stream = some (s, pending) := hstream
    obtain rfl : emitted = n := hemitted
    exact ⟨_, pending ++ E.finish s, (drain_emits _).bind_pure (.pure _), rfl⟩

/-- The legacy adapter notes whether it is open. -/
theorem counts_lz4Legacy (P : Primitives) :
    Counts "lz4 legacy" (lz4Legacy P) fun s => if s.isOpen then some s.emitted else none where
  initial := rfl
  opened _ := rfl
  closed _ := rfl
  write_of_none := by
    rintro ⟨pending, input, emitted, isOpen⟩ data h
    cases isOpen with
    | true => cases h
    | false => rfl
  write_of_some := by
    rintro ⟨pending, input, emitted, isOpen⟩ data n h
    cases isOpen with
    | false => cases h
    | true =>
      obtain rfl : emitted = n := Option.some.inj h
      rcases hblocks : legacyBlocks P (input ++ data) pending with ⟨input', pending'⟩
      dsimp only [lz4Legacy]
      rw [if_neg (not_not_intro rfl), hblocks]
      by_cases hmuch : drainThreshold ≤ pending'.size
      · refine ⟨⟨ByteArray.empty, input', emitted + pending'.size, true⟩, pending', ?_, rfl⟩
        dsimp only
        rw [if_pos hmuch]
        exact (drain_emits _).bind_pure (.pure _)
      · refine ⟨⟨pending', input', emitted, true⟩, ByteArray.empty, ?_, rfl⟩
        dsimp only
        rw [if_neg hmuch]
        exact .pure _
  flush_of_none := by
    rintro ⟨pending, input, emitted, isOpen⟩ h
    cases isOpen with
    | true => cases h
    | false => rfl
  flush_of_some := by
    rintro ⟨pending, input, emitted, isOpen⟩ n h
    cases isOpen with
    | false => cases h
    | true =>
      obtain rfl : emitted = n := Option.some.inj h
      exact ⟨_, _, (drain_emits _).bind_pure (.pure _), rfl⟩

/-- **The protocol of the adapters.** In front of a receiver that takes everything, and whatever
operations come in whatever order: writing and flushing fail exactly while the adapter is not open,
and then hand over nothing; and flushing gives the number of bytes that were handed over since the
adapter was last opened. -/
theorem orderly_trace (P : Primitives) (params : DeflateParams) (lz4Params : Lz4Params)
    {σ : Type} (next : σ → Bytes → σ) (received : σ) (ops : List Operation) :
    Orderly "deflate" ops
      ((deflate P params).trace next ops (deflate P params).initial received) ∧
    Orderly "lz4" ops
      ((lz4Frame P lz4Params).trace next ops (lz4Frame P lz4Params).initial received) ∧
    Orderly "lz4 legacy" ops
      ((lz4Legacy P).trace next ops (lz4Legacy P).initial received) :=
  ⟨(counts_ofEncoder "deflate" (P.deflater params)).orderly ops received,
    (counts_ofEncoder "lz4" (P.lz4er lz4Params)).orderly ops received,
    (counts_lz4Legacy P).orderly ops received⟩

end Adapter

end BlockUpdate
