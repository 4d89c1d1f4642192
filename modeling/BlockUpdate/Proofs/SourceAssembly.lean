import BlockUpdate.Proofs.AgreementCommands

/-!
# Sources in words

The size of a source is computed from a number of blocks that its command declares, and that number
may be any that a word can hold. Whether the size can be held as well is looked at by no one. So a
source is assembled as it should be if its sizes fit a word, or if they are checked, and otherwise
it may be a buffer that is too short for its blocks.

- `Compiled.load_eq`: a source whose sizes fit is the one that is assembled with numbers.
- `Compiled.load_eq_or_overflow`: with checks there is no other.
- **`Source.load_assembled`**: what a source contains, however the program is built.
- **`Source.load_enormous`**: a source without a byte, for more blocks than a word counts bytes.
-/

namespace BlockUpdate

namespace Compiled

variable {b : Build} {c : Command} {position : Nat}

/-- A source whose sizes fit is the one that is assembled with numbers. -/
theorem load_eq (hfits : Source.SizesFit c position) (d : Device) (s : Stash) (t : FileTree) :
    load b c position d s t = unchecked (Source.load c position d s t) :=
  (checks_load c position d s t).resolve_right fun h => h.1 hfits

/-- With checks, a source is that one, or it has a size that does not fit. -/
theorem load_eq_or_overflow (c : Command) (position : Nat) (d : Device) (s : Stash) (t : FileTree) :
    load .checked c position d s t = unchecked (Source.load c position d s t) ∨
      load .checked c position d s t = .error .overflow :=
  (checks_load c position d s t).imp_right fun h => h.2 rfl

end Compiled

namespace Source

variable {b : Build} {c : Command} {position : Nat} {d : Device}

/-- **The blocks of a source**, in a build with checks, and in any build if the sizes of the source
fit a word. A source has the declared size, and each block in it is the one of the last assignment to
its position, or zeros if there is none. An assignment outside of it is an error, which is one of the
command as long as the sizes fit. -/
theorem load_assembled (hfits : b = .checked ∨ SizesFit c position) (hendless : d.endless = false)
    (hread : ∀ first range, c.arg (position + 1) = .ok first → blockSetOf first = .ok range →
      ∃ data, range.read? d = some data) (s : Stash) (t : FileTree) :
    (∀ src, Compiled.load b c position d s t = .ok src →
      c.number position = .ok src.blocks ∧ src.data.size = src.blocks * blockSize ∧
      ∀ p < src.blocks, src.data.block p =
        (lastAt (assignments c position d.image s t) p).getD (Bytes.zeros blockSize)) ∧
    ∀ blocks, c.number position = .ok blocks →
      (∃ a ∈ assignments c position d.image s t, blocks ≤ a.1) →
      ∃ halt, Compiled.load b c position d s t = .error halt ∧
        (SizesFit c position → ∃ e, halt = .failed e) := by
  obtain ⟨hassigned, houtside⟩ := load_assigned (s := s) (t := t) hendless hread
  -- either way there is a source only if there is one with numbers
  have hagree : Compiled.load b c position d s t = Compiled.unchecked (load c position d s t) ∨
      Compiled.load b c position d s t = .error .overflow ∧ ¬ SizesFit c position := by
    by_cases hsizes : SizesFit c position
    · exact .inl (Compiled.load_eq hsizes d s t)
    · rw [hfits.resolve_right hsizes]
      exact (Compiled.load_eq_or_overflow c position d s t).imp_right fun h => ⟨h, hsizes⟩
  rcases hagree with hagree | ⟨hoverflow, hlarge⟩
  · rw [hagree]
    refine ⟨fun src h => hassigned src (mapError_eq_ok.mp h), fun blocks hblocks hout => ?_⟩
    obtain ⟨e, he⟩ := houtside blocks hblocks hout
    rw [he]
    exact ⟨.failed e, rfl, fun _ => ⟨e, rfl⟩⟩
  · rw [hoverflow]
    exact ⟨nofun, fun _ _ _ => ⟨.overflow, rfl, fun h => absurd h hlarge⟩⟩

/-- Blocks of the device at two places, a piece over one of them, and a piece that is missing. -/
theorem load_assembled_overlap :
    let c : Command := ⟨.move, ["4", "2,1,3", "4,3,4,0,1", "aa:2,0,2", "bb:2,2,3"], "", 0⟩
    let d := Device.file (Bytes.uniform [7, 8, 9])
    let s : Stash := ⟨⟨["s"]⟩, true⟩
    let t : FileTree := ⟨[(["s"], .directory), (["s", "aa"], .file (Bytes.uniform [5, 6]))]⟩
    ∃ src, Compiled.load .wrapping c 0 d s t = .ok src ∧
      src.data.block 0 = (Bytes.uniform [5, 6]).block 0 ∧
      src.data.block 2 = Bytes.zeros blockSize ∧
      src.data.block 3 = (Bytes.uniform [7, 8, 9]).block 1 := by
  intro c d s t
  have hrange : blockSetOf "2,1,3" = .ok ⟨[⟨1, 2⟩], 2⟩ := rfl
  have hlocations : blockSetOf "4,3,4,0,1" = .ok ⟨[⟨3, 1⟩, ⟨0, 1⟩], 2⟩ := rfl
  have hread : (⟨[⟨1, 2⟩], 2⟩ : BlockSet).read? d =
      some (Bytes.uniform (BlockSet.pick [⟨1, 2⟩] [7, 8, 9])) :=
    BlockSet.read?_uniform ⟨rfl, rfl⟩ rfl (by decide) (by decide)
  have hsited : s.Sited t ["s"] := ⟨⟨by cbv, rfl, rfl⟩, rfl, rfl⟩
  have hstart : addDevice c d _ _ (Bytes.uniform [0, 0, 0, 0]) = _ := addDevice_uniform
    (BlockSet.readInto_of_read? (blockSetOf_eq_ok hrange) hread) hlocations rfl (by decide)
    (by decide)
  have hfound : s.load? t "aa" (2 * blockSize) = .ok (some (Bytes.uniform [5, 6])) :=
    (Stash.load?_eq_some hsited).mpr ⟨⟨by decide, by decide⟩, rfl, Bytes.size_uniform _⟩
  have hmissing : s.load? t "bb" (1 * blockSize) = .ok none :=
    Stash.load?_of_get?_eq_none hsited ⟨by decide, by decide⟩ (by decide) _
  have hscatter := @scatterRanges_uniform [⟨0, 2⟩] [5, 6] [9, 0, 0, 8] 0 (by decide) (by decide)
  have haa : addPiece c s t (Bytes.uniform [9, 0, 0, 8]) "aa:2,0,2" =
      .ok (Bytes.uniform [5, 6, 0, 8]) :=
    addPiece_eq_ok.mpr ⟨"aa", "2,0,2", ⟨[⟨0, 2⟩], 2⟩, _, rfl, rfl, hfound,
      scatter_eq_ok.mpr hscatter⟩
  have hbb : addPiece c s t (Bytes.uniform [5, 6, 0, 8]) "bb:2,2,3" =
      .ok (Bytes.uniform [5, 6, 0, 8]) :=
    addPiece_eq_ok.mpr ⟨"bb", "2,2,3", ⟨[⟨2, 1⟩], 1⟩, none, rfl, rfl, hmissing, rfl⟩
  have hload : load c 0 d s t = .ok ⟨Bytes.uniform [5, 6, 0, 8], 4, some ⟨[⟨1, 2⟩], 2⟩⟩ := by
    refine load_eq_ok.mpr ⟨4, "2,1,3", rfl, rfl, .inr ⟨by decide, ⟨[⟨1, 2⟩], 2⟩,
      (Bytes.uniform [9, 0, 0, 8], 2), _, rfl, hrange, by decide, ?_, ?_⟩⟩
    · rw [Bytes.zeros_eq_uniform]
      exact hstart
    · exact except_bind_eq_ok.mpr ⟨_, haa, except_bind_eq_ok.mpr ⟨_, hbb, rfl⟩⟩
  have hdevice : ∀ first range, c.arg 1 = .ok first → blockSetOf first = .ok range →
      ∃ data, range.read? d = some data := by
    intro first range hfirst hset
    obtain rfl : "2,1,3" = first := Except.ok.inj hfirst
    rw [← Except.ok.inj (hrange.symm.trans hset)]
    exact ⟨_, hread⟩
  have hassign : assignments c 0 d.image s t = [(3, d.image.block 1), (0, d.image.block 2),
      (0, (Bytes.uniform [5, 6]).block 0), (1, (Bytes.uniform [5, 6]).block 1)] := by
    have hfirst : pieceAssignments s t "aa:2,0,2" = located ⟨[⟨0, 2⟩], 2⟩ _ :=
      pieceAssignments_of_load? (by rfl : Blank.splitFirst? ':' "aa:2,0,2" = some ("aa", "2,0,2"))
        rfl hfound
    have hsecond : pieceAssignments s t "bb:2,2,3" = located ⟨[⟨2, 1⟩], 1⟩ _ :=
      pieceAssignments_of_load? (by rfl : Blank.splitFirst? ':' "bb:2,2,3" = some ("bb", "2,2,3"))
        rfl hmissing
    have hpieces : pieces c 0 = ["aa:2,0,2", "bb:2,2,3"] := rfl
    rw [assignments, rangeAssignments_of_range rfl hrange, hpieces, List.flatMap_cons,
      List.flatMap_cons, hfirst, hsecond]
    rfl
  have hfits : SizesFit c 0 := by
    refine ⟨fun blocks hblocks => ?_, fun piece hpiece id text locations hsplit hset => ?_⟩
    · obtain rfl : 4 = blocks := Except.ok.inj hblocks
      decide
    · rcases List.mem_pair.mp hpiece with rfl | rfl
      · obtain ⟨rfl, rfl⟩ : "aa" = id ∧ "2,0,2" = text := Prod.mk.inj (Option.some.inj hsplit)
        obtain rfl : ⟨[⟨0, 2⟩], 2⟩ = locations := Except.ok.inj hset
        decide
      · obtain ⟨rfl, rfl⟩ : "bb" = id ∧ "2,2,3" = text := Prod.mk.inj (Option.some.inj hsplit)
        obtain rfl : ⟨[⟨2, 1⟩], 1⟩ = locations := Except.ok.inj hset
        decide
  have hwords : Compiled.load .wrapping c 0 d s t = .ok _ :=
    (Compiled.load_eq hfits d s t).trans (by rw [hload]; rfl)
  obtain ⟨hall, -⟩ := load_assembled (b := .wrapping) (.inr hfits) (d := d) rfl hdevice s t
  obtain ⟨-, -, hblock⟩ := hall _ hwords
  rw [hassign] at hblock
  exact ⟨_, hwords, hblock 0 (by decide), hblock 2 (by decide), hblock 3 (by decide)⟩

/-- A source of `2 ^ 52` blocks, none of which is assigned. -/
def enormous : Command := ⟨.move, ["4503599627370496", "-"], "", 0⟩

/-- **A source without a byte.** The size of these blocks is `2 ^ 64`, of which no bit is left in a
word. With checks there is no source. -/
theorem load_enormous :
    let d := Device.file ByteArray.empty
    let s : Stash := ⟨⟨["s"]⟩, true⟩
    enormous.number 0 = .ok (2 ^ 52) ∧
      (∃ src, Compiled.load .wrapping enormous 0 d s ⟨[]⟩ = .ok src ∧ src.blocks = 2 ^ 52 ∧
        src.data.size = 0) ∧
      Compiled.load .checked enormous 0 d s ⟨[]⟩ = .error .overflow := by
  intro d s
  have hnumber : enormous.number 0 = .ok (2 ^ 52) := by decide +kernel
  have hsize : 2 ^ 52 * blockSize = Decimal.limit64 := by decide
  refine ⟨hnumber, ⟨⟨ByteArray.empty, 2 ^ 52, none⟩, ?_, rfl, rfl⟩, ?_⟩
  · rw [Compiled.load, hnumber]
    show (Compiled.size .wrapping (2 ^ 52 * blockSize) >>= fun _ => _) = _
    rw [hsize]
    rfl
  · exact Compiled.load_of_le hnumber hsize.ge d s ⟨[]⟩

end Source

end BlockUpdate
