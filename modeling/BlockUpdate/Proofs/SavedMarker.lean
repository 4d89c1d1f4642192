import BlockUpdate.Proofs.InterruptedSteps
import BlockUpdate.Proofs.MarkerFile

/-!
# A marker that was saved

The marker of a command goes through its file unchanged, whatever characters are on the line, and
in the script that it comes from it is found at the position of its command, also if other lines
are the same.

- `RetryMarker.outcome_save`, `load_of_locate`: saving a marker, and what is loaded from its file.
- **`RetryMarker.skips_of_saved`**: a session that goes on from a marker skips the commands up to
  the marked one, but for those that take new data.
-/

namespace BlockUpdate

namespace Command

/-- A command keeps its line without the blanks around it, and the position of the line. -/
theorem line_of_parse {index : Nat} {line : String} {c : Command}
    (h : parse index line = .ok (some c)) : c.line = Blank.trim line ∧ c.index = index := by
  rw [parse] at h
  split at h
  · cases h
  · dsimp only at h
    split_ifs at h
    obtain rfl := Option.some.inj (Except.ok.inj h)
    exact ⟨rfl, rfl⟩

end Command

namespace RetryMarker

variable {t : FileTree} {p : Path} {place : Place}

/-- What is loaded from a file where its path leads. -/
theorem load_of_locate (hp : t.locate p = .ok place) {data : Bytes}
    (hfile : t.get? place = some (.file data)) :
    load t p =
      if data.size = 0 then .ok none
      else match decode data with
        | some m => .ok (some m)
        | none => .error .malformed := by
  refine load_of_read ?_
  rw [FileTree.read, FileTree.node_of_locate hp hfile]
  rfl

theorem load_of_encode (hp : t.locate p = .ok place) {m : RetryMarker}
    (hm : m.index < Decimal.limit64) (hfile : t.get? place = some (.file m.encode)) :
    load t p = .ok (some m) := by
  rw [load_of_locate hp hfile, if_neg (Nat.ne_of_gt m.size_encode_pos), decode_encode hm]

/-- **A marker can be saved** where its path leads, unless that is a directory. -/
theorem outcome_save (hp : t.locate p = .ok place) (hplain : t.get? place ≠ some .directory)
    (m : RetryMarker) : outcome (m.save p) t = (.ok (), t.written place m.encode) := by
  rw [save, outcome_fileMapError, FileM.overwrite_of_locate hp hplain]
  rfl

end RetryMarker

namespace RetrySkip

theorem skips_iff (last : Nat) (c : Command) :
    skips ⟨some last⟩ c = true ↔ c.index ≤ last ∧ c.verb ≠ .new := by
  simp [skips]

end RetrySkip

namespace RetryMarker

/-- **The marker of any command of a script** can be saved, is loaded as it was, and makes a session
skip exactly those commands of the script that stand at its position or before and do not take new
data. -/
theorem skips_of_saved {t : FileTree} {p : Path} {place : Place} (hp : t.locate p = .ok place)
    (hplain : t.get? place ≠ some .directory) {lines : List String} {marked : Nat} {line : String}
    {c : Command} (hline : lines[marked]? = some line)
    (hparse : Command.parse marked line = .ok (some c)) (hmarked : marked < Decimal.limit64) :
    ∃ t', outcome ((ofCommand c).save p) t = (.ok (), t') ∧
      load t' p = .ok (some (ofCommand c)) ∧
      ∀ (k : Nat) (line' : String) (c' : Command), lines[k]? = some line' →
        Command.parse k line' = .ok (some c') →
          ((RetrySkip.resolve (some (ofCommand c)) lines).skips c' = true ↔
            k ≤ marked ∧ c'.verb ≠ .new) := by
  obtain ⟨htext, hindex⟩ := Command.line_of_parse hparse
  have hlimit : (ofCommand c).index < Decimal.limit64 := by
    rw [ofCommand, hindex]
    exact hmarked
  have hself : RetrySkip.resolve (some (ofCommand c)) lines = ⟨some marked⟩ := by
    rw [ofCommand, htext, hindex]
    exact RetrySkip.resolve_self hline
  have hwritten := FileTree.replaced_written hplain (ofCommand c).encode
  refine ⟨_, outcome_save hp hplain _, ?_, ?_⟩
  · exact load_of_encode (hwritten.locate hplain hp) hlimit hwritten.get?_self
  · intro k line' c' _ hparse'
    rw [hself, RetrySkip.skips_iff, (Command.line_of_parse hparse').2]

/-! ## A work directory -/

/-- A work directory with a marker file. -/
def markerTree (data : Bytes) : FileTree :=
  ⟨[(["w"], .directory), (["w", "p.retry.json"], .file data)]⟩

theorem get?_markerTree (data : Bytes) :
    (markerTree data).get? ["w", "p.retry.json"] = some (.file data) := by
  simp [markerTree, FileTree.get?, List.lookup_cons]

theorem locate_markerTree (data : Bytes) :
    (markerTree data).locate ⟨["w", "p.retry.json"]⟩ = .ok ["w", "p.retry.json"] := by
  have htop : (markerTree data).Leads [] [] := ⟨rfl, rfl, rfl⟩
  have hwork : (markerTree data).Leads ["w"] ["w"] :=
    htop.child ⟨by decide, by decide, by decide, by decide, by decide⟩ (by decide) rfl
  exact hwork.locate_of_le ⟨by decide, by decide, by decide, by decide, by decide⟩ rfl (by decide)

/-- A script that has one line twice, with other blanks around it. -/
def repeatedLines : List String :=
  ["zero 2,0,1", "new 2,0,1", "\u3000erase 2,0,1 \"\u00e9\\\"", "erase 2,0,1 \"\u00e9\\\"\t",
    "free 00"]

/-- The second of the two lines is marked, over the beginning of another marker: the first one and
the line in front are skipped, the new data is read again. -/
theorem skips_of_saved_repeatedLines :
    ∃ c, Command.parse 3 "erase 2,0,1 \"\u00e9\\\"\t" = .ok (some c) ∧ ∃ t',
      outcome ((ofCommand c).save ⟨["w", "p.retry.json"]⟩) (markerTree ⟨#[0x7b]⟩) = (.ok (), t') ∧
      load t' ⟨["w", "p.retry.json"]⟩ = .ok (some (ofCommand c)) ∧
      ∀ (k : Nat) (line' : String) (c' : Command), repeatedLines[k]? = some line' →
        Command.parse k line' = .ok (some c') →
          ((RetrySkip.resolve (some (ofCommand c)) repeatedLines).skips c' = true ↔
            k ≤ 3 ∧ c'.verb ≠ .new) := by
  have hparse : Command.parse 3 "erase 2,0,1 \"\u00e9\\\"\t" =
      .ok (some ⟨.erase, ["2,0,1", "\"\u00e9\\\""], "erase 2,0,1 \"\u00e9\\\"", 3⟩) := by decide
  have hplain : (markerTree ⟨#[0x7b]⟩).get? ["w", "p.retry.json"] ≠ some .directory := by
    rw [get?_markerTree]
    simp
  exact ⟨_, hparse, skips_of_saved (locate_markerTree _) hplain rfl hparse (by decide)⟩

end RetryMarker

end BlockUpdate
