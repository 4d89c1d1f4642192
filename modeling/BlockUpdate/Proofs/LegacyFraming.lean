import BlockUpdate.Proofs.Members
import BlockUpdate.Standard

/-!
# The legacy framing, however it is written

The legacy adapter keeps two buffers: input that does not fill a block yet, and output that was not
handed over yet. Input arrives in writes of any size, blocks are cut off it by their own size, and
output leaves by its own threshold, so that the three have nothing to do with each other. What comes
out is a function of the data all the same.

- `Adapter.cut`: the full blocks of data and what is left behind them. **`Adapter.cut_append`**:
  cutting may stop anywhere and go on with what was left.
- `Adapter.blocksOf`: all blocks of data, the last one of which may be short.
- `Adapter.Framed`: the states of the adapter between two writes, when output leaves at any time.
  **`Adapter.Framed.buffers`** says what both buffers hold in every such state.
- `Adapter.Framed.write`, `Adapter.Framed.writeAll`, `Adapter.Framed.flush`: the operations of the
  adapter stay within these states, and end in a member of the blocks of the data.
- **`Adapter.session_lz4Legacy`**: opened in any state, written to in any pieces and flushed, the
  adapter hands over one and the same member, gives its size, and the member expands to the data.
-/

namespace BlockUpdate

namespace Adapter

open Emit (Emits)
open Member (legacyBlock)

variable {P : Primitives} {data handed : Bytes}

/-! ## Blocks of data -/

/-- The full blocks of `n` bytes at the front of data, and what is left behind them. -/
def cut (n : Nat) (data : Bytes) : List Bytes × Bytes :=
  if 0 < n ∧ n ≤ data.size then
    let (blocks, rest) := cut n (data.dropFirst n)
    (data.takeFirst n :: blocks, rest)
  else ([], data)
termination_by data.size
decreasing_by
  rw [Bytes.size_dropFirst]
  omega

/-- The blocks of data: all full but the last, which is there only if something is left. -/
def blocksOf (data : Bytes) : List Bytes :=
  let (blocks, rest) := cut legacyBlock data
  blocks ++ if rest.size = 0 then [] else [rest]

section

variable {n : Nat}

theorem cut_of_le (hn : 0 < n) (h : n ≤ data.size) {blocks : List Bytes} {rest : Bytes}
    (hcut : cut n (data.dropFirst n) = (blocks, rest)) :
    cut n data = (data.takeFirst n :: blocks, rest) := by
  rw [cut, if_pos ⟨hn, h⟩, hcut]

theorem cut_of_lt (h : data.size < n) : cut n data = ([], data) := by
  rw [cut, if_neg (by omega)]

/-- Nothing is lost. -/
theorem join_cut (n : Nat) (data : Bytes) :
    Bytes.join (cut n data).1 ++ (cut n data).2 = data := by
  fun_induction cut n data with
  | case1 data hfull blocks rest hcut ih =>
    rw [hcut] at ih
    rw [Bytes.join_cons, ByteArray.append_assoc, ih, Bytes.takeFirst_append_dropFirst]
  | case2 data hless => exact ByteArray.empty_append

/-- Less than a block is left. -/
theorem size_cut (hn : 0 < n) (data : Bytes) : (cut n data).2.size < n := by
  fun_induction cut n data with
  | case1 data hfull blocks rest hcut ih =>
    rw [hcut] at ih
    exact ih
  | case2 data hless =>
    dsimp only
    omega

theorem size_of_mem_cut {block : Bytes} (h : block ∈ (cut n data).1) : block.size = n := by
  fun_induction cut n data with
  | case1 data hfull blocks rest hcut ih =>
    rw [hcut] at ih
    rcases List.mem_cons.mp h with rfl | h
    · rw [Bytes.size_takeFirst]
      omega
    · exact ih h
  | case2 data hless => cases h

/-- **Cutting may stop anywhere** and go on with what was left. -/
theorem cut_append (hn : 0 < n) (data more : Bytes) :
    cut n (data ++ more) =
      ((cut n data).1 ++ (cut n ((cut n data).2 ++ more)).1,
        (cut n ((cut n data).2 ++ more)).2) := by
  fun_induction cut n data with
  | case1 data hfull blocks rest hcut ih =>
    have hlong : n ≤ (data ++ more).size := by
      rw [ByteArray.size_append]
      omega
    rw [hcut, ← Bytes.dropFirst_append_of_ge hfull.2] at ih
    rw [cut_of_le hn hlong ih, Bytes.takeFirst_append_of_ge hfull.2]
    rfl
  | case2 data hless => rfl

end

theorem legacyBlock_pos : 0 < legacyBlock := by decide

theorem blocksOf_eq (data : Bytes) :
    blocksOf data = (cut legacyBlock data).1 ++
      if (cut legacyBlock data).2.size = 0 then [] else [(cut legacyBlock data).2] := rfl

theorem join_blocksOf (data : Bytes) : Bytes.join (blocksOf data) = data := by
  have hlast : ∀ rest : Bytes, Bytes.join (if rest.size = 0 then [] else [rest]) = rest := by
    intro rest
    split
    · exact (ByteArray.size_eq_zero_iff.mp ‹_›).symm
    · rw [Bytes.join_cons, Bytes.join_nil, ByteArray.append_empty]
  rw [blocksOf_eq, Bytes.join_append, hlast, join_cut]

theorem small_blocksOf (data : Bytes) : Small (blocksOf data) := by
  intro block hblock
  rw [blocksOf_eq] at hblock
  rcases List.mem_append.mp hblock with hblock | hblock
  · exact Nat.le_of_eq (size_of_mem_cut hblock)
  · split at hblock
    · cases hblock
    · rw [List.mem_singleton.mp hblock]
      exact Nat.le_of_lt (size_cut legacyBlock_pos data)

/-- The adapter takes its blocks off the input in this way. -/
theorem legacyBlocks_eq (P : Primitives) (input pending : Bytes) :
    legacyBlocks P input pending =
      ((cut legacyBlock input).2,
        pending ++ Bytes.join ((cut legacyBlock input).1.map (legacyRecord P))) := by
  fun_induction legacyBlocks P input pending with
  | case1 input pending hfull ih =>
    rcases hcut : cut legacyBlock (input.dropFirst legacyBlock) with ⟨blocks, rest⟩
    rw [hcut] at ih
    rw [ih, cut_of_le legacyBlock_pos hfull hcut, List.map_cons, Bytes.join_cons,
      ByteArray.append_assoc]
  | case2 input pending hless =>
    rw [cut_of_lt (Nat.not_le.mp hless), List.map_nil, Bytes.join_nil, ByteArray.append_empty]

/-! ## The buffers -/

/-- The states that the open adapter goes through: what was written to it, what it handed over, and
what it holds. Output may leave at any time. -/
inductive Framed (P : Primitives) : Bytes → Bytes → LegacyState → Prop
  | opened (before : LegacyState) :
    Framed P ByteArray.empty ByteArray.empty ((lz4Legacy P).opened before)
  | took {data handed : Bytes} {a : LegacyState} (h : Framed P data handed a) (piece : Bytes) :
    Framed P (data ++ piece) handed
      ⟨(legacyBlocks P (a.input ++ piece) a.pending).2,
        (legacyBlocks P (a.input ++ piece) a.pending).1, a.emitted, a.isOpen⟩
  | drained {data handed : Bytes} {a : LegacyState} (h : Framed P data handed a) :
    Framed P data (handed ++ a.pending)
      ⟨ByteArray.empty, a.input, a.emitted + a.pending.size, a.isOpen⟩

/-- What the buffers hold after `data` was written and `handed` was handed over. -/
structure Buffers (P : Primitives) (data handed : Bytes) (a : LegacyState) : Prop where
  isOpen : a.isOpen = true
  emitted : a.emitted = handed.size
  /-- The input is what is left behind the full blocks. -/
  input : a.input = (cut legacyBlock data).2
  /-- Handed over or pending are the records of the full blocks. -/
  output : handed ++ a.pending = legacyMember P (cut legacyBlock data).1

namespace Framed

variable {a : LegacyState}

/-- **What both buffers hold**, by the steps that lead to a state. -/
theorem buffers (h : Framed P data handed a) : Buffers P data handed a := by
  induction h with
  | opened before =>
    have hcut : cut legacyBlock ByteArray.empty = ([], ByteArray.empty) :=
      cut_of_lt legacyBlock_pos
    refine ⟨rfl, rfl, ?_, ?_⟩
    · rw [hcut]
      rfl
    · rw [hcut, legacyMember, List.map_nil, Bytes.join_nil, ByteArray.append_empty]
      exact ByteArray.empty_append
  | @took data handed a h piece ih =>
    refine ⟨ih.isOpen, ih.emitted, ?_, ?_⟩
    · rw [legacyBlocks_eq, ih.input, cut_append legacyBlock_pos data piece]
    · rw [legacyBlocks_eq, ih.input, cut_append legacyBlock_pos data piece]
      dsimp only
      rw [← ByteArray.append_assoc, ih.output, legacyMember, legacyMember, List.map_append,
        Bytes.join_append, ByteArray.append_assoc]
  | @drained data handed a h ih =>
    refine ⟨ih.isOpen, ?_, ih.input, ?_⟩
    · dsimp only
      rw [ih.emitted, ByteArray.size_append]
    · dsimp only
      rw [ByteArray.append_empty, ih.output]

/-- One write takes the piece, and hands over what is pending if that is enough. -/
theorem write (h : Framed P data handed a) (piece : Bytes) :
    ∃ more a', Emits ((lz4Legacy P).write a piece) a' more ∧
      Framed P (data ++ piece) (handed ++ more) a' := by
  have hopen := h.buffers.isOpen
  have htook := h.took piece
  dsimp only [lz4Legacy]
  rw [if_neg (not_not_intro hopen)]
  by_cases hmuch : drainThreshold ≤ (legacyBlocks P (a.input ++ piece) a.pending).2.size
  · refine ⟨_, _, ?_, htook.drained⟩
    rw [if_pos hmuch, hopen]
    exact (drain_emits _).bind_pure (.pure _)
  · refine ⟨ByteArray.empty, _, ?_, by rwa [ByteArray.append_empty]⟩
    rw [if_neg hmuch, hopen]
    exact .pure _

theorem writeAll (h : Framed P data handed a) (pieces : List Bytes) :
    ∃ more a', Emits ((lz4Legacy P).writeAll pieces a) a' more ∧
      Framed P (data ++ Bytes.join pieces) (handed ++ more) a' := by
  induction pieces generalizing data handed a with
  | nil =>
    refine ⟨ByteArray.empty, a, .pure a, ?_⟩
    rwa [Bytes.join_nil, ByteArray.append_empty, ByteArray.append_empty]
  | cons piece rest ih =>
    obtain ⟨more₁, a₁, hwrite, h₁⟩ := h.write piece
    obtain ⟨more₂, a₂, hrest, h₂⟩ := ih h₁
    refine ⟨more₁ ++ more₂, a₂, hwrite.bind hrest, ?_⟩
    rwa [Bytes.join_cons, ← ByteArray.append_assoc, ← ByteArray.append_assoc]

/-- Whatever was handed over by then, flushing hands over what is missing of the member. -/
theorem flush (h : Framed P data handed a) :
    ∃ rest a', Emits ((lz4Legacy P).flush a) ((legacyMember P (blocksOf data)).size, a') rest ∧
      handed ++ rest = legacyMember P (blocksOf data) := by
  obtain ⟨hopen, hemitted, hinput, houtput⟩ := h.buffers
  have hlast : (if a.input.size = 0 then ByteArray.empty else legacyRecord P a.input) =
      Bytes.join ((if (cut legacyBlock data).2.size = 0 then []
        else [(cut legacyBlock data).2]).map (legacyRecord P)) := by
    rw [hinput]
    split
    · rfl
    · rw [List.map_singleton, Bytes.join_cons, Bytes.join_nil, ByteArray.append_empty]
  have hmember : handed ++ (a.pending ++
      if a.input.size = 0 then ByteArray.empty else legacyRecord P a.input) =
        legacyMember P (blocksOf data) := by
    rw [hlast, ← ByteArray.append_assoc, houtput, legacyMember, legacyMember, blocksOf_eq,
      List.map_append, Bytes.join_append, ByteArray.append_assoc]
  refine ⟨_, ⟨ByteArray.empty, ByteArray.empty, (legacyMember P (blocksOf data)).size, false⟩, ?_,
    hmember⟩
  dsimp only [lz4Legacy]
  rw [if_neg (not_not_intro hopen), ← hmember, hemitted, ByteArray.size_append (a := handed)]
  exact (drain_emits _).bind_pure (.pure _)

end Framed

/-- **In the legacy framing**, a member of the blocks of the data comes out. -/
theorem packs_lz4Legacy (P : Primitives) (pieces : List Bytes) :
    (lz4Legacy P).Packs pieces (legacyMember P (blocksOf (Bytes.join pieces))) := by
  obtain ⟨handed, a, hwrite, ha⟩ := (Framed.opened (P := P) (lz4Legacy P).initial).writeAll pieces
  rw [ByteArray.empty_append, ByteArray.empty_append] at ha
  obtain ⟨rest, a', hflush, hmember⟩ := ha.flush
  exact ⟨handed, a, rest, a', hwrite, hflush, hmember⟩

/-! ## Sessions -/

/-- Opens an adapter in the given state, writes pieces, and flushes it; gives the size that the
adapter tells. -/
def session (A : Adapter) (before : A.State) (pieces : List Bytes) : Emit Nat := do
  let s ← A.writeAll pieces (A.opened before)
  let (size, _) ← A.flush s
  return size

/-- Whatever state it is opened in and whatever pieces the data is written in, **the legacy
adapter** hands over one and the same member and gives its size; and the member expands to the
data. -/
theorem session_lz4Legacy (hlaw : Member.BlockLaw P) (params : Lz4Params)
    (hlegacy : params.isLegacy = true) (data : Bytes) :
    (∀ (before : LegacyState) (pieces : List Bytes), Bytes.join pieces = data →
      ((lz4Legacy P).session before pieces).emission.bytes = legacyMember P (blocksOf data) ∧
        ((lz4Legacy P).session before pieces).emission.outcome =
          .ok (legacyMember P (blocksOf data)).size) ∧
    Member.unlz4Exact P params (legacyMember P (blocksOf data)) data.size = .ok data := by
  refine ⟨fun before pieces hpieces => ?_, ?_⟩
  · obtain ⟨handed, s, rest, s', hwrite, hflush, hmember⟩ := packs_lz4Legacy P pieces
    have hemits : Emits ((lz4Legacy P).session before pieces)
        (legacyMember P (blocksOf (Bytes.join pieces))).size (handed ++ rest) :=
      hwrite.bind (hflush.bind_pure (.pure _))
    rw [hmember, hpieces] at hemits
    exact ⟨hemits.bytes, hemits.outcome⟩
  · have hexpands : Member.unlz4 P params (legacyMember P (blocksOf data)) none = .ok data := by
      rw [Member.unlz4, if_pos hlegacy, Member.unlz4_legacyMember hlaw (small_blocksOf data),
        join_blocksOf]
    exact Member.Container.expandExact_of_expand (.lz4 params) hexpands

/-- Three bytes and the block that they are compressed to. -/
def blockSample : List Sample := [⟨[97, 98, 99], [48, 97, 98, 99]⟩]

/-- Primitives with that block. -/
def blockPrimitives : Primitives :=
  { Primitives.standard with
    unlz4Block := fun _ packed => some (Sample.decode blockSample packed).bytes
    lz4Block := Sample.encode blockSample }

/-- An adapter that was left with something in both buffers. -/
def leftOver : LegacyState := ⟨Bytes.ofText "xy", Bytes.ofText "z", 7, false⟩

/-- The member of the three bytes, which are written one by one and two. -/
theorem session_lz4Legacy_abc :
    Member.BlockLaw blockPrimitives ∧ Lz4Params.legacy.isLegacy = true ∧
      ((lz4Legacy blockPrimitives).session leftOver
        [Bytes.ofText "a", Bytes.ofText "bc"]).emission.bytes =
          Bytes.ofList [2, 33, 76, 24, 4, 0, 0, 0, 48, 97, 98, 99] ∧
      ((lz4Legacy blockPrimitives).session leftOver
        [Bytes.ofText "a", Bytes.ofText "bc"]).emission.outcome = .ok 12 ∧
      Member.unlz4Exact blockPrimitives .legacy
        (Bytes.ofList [2, 33, 76, 24, 4, 0, 0, 0, 48, 97, 98, 99]) 3 =
          .ok (Bytes.ofText "abc") := by
  have hlaw : Member.BlockLaw blockPrimitives :=
    Member.blockLaw_of_samples (by decide) (by decide) rfl rfl
  have hblocks : legacyMember blockPrimitives (blocksOf (Bytes.ofText "abc")) =
      Bytes.ofList [2, 33, 76, 24, 4, 0, 0, 0, 48, 97, 98, 99] := by
    have hshort : (Bytes.ofText "abc").size < legacyBlock := by decide
    rw [blocksOf_eq, cut_of_lt hshort]
    rfl
  obtain ⟨hwritten, hexpands⟩ :=
    session_lz4Legacy hlaw .legacy rfl (Bytes.ofText "abc")
  rw [hblocks] at hwritten hexpands
  obtain ⟨hbytes, houtcome⟩ := hwritten leftOver [Bytes.ofText "a", Bytes.ofText "bc"] rfl
  exact ⟨hlaw, rfl, hbytes, houtcome, hexpands⟩

end Adapter

end BlockUpdate
