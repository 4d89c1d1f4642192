import BlockUpdate.Proofs.JsonText
import BlockUpdate.Proofs.Places

/-!
# The marker file

- **`RetryMarker.decode_encode`**: a marker reads back from its file.
- `value?_encode`: the file is one JSON object.
- `load_of_file`, `load_of_noEntry`: what is loaded from a marker that was saved or removed.
- **`RetrySkip.resolve_self`**: in the script that it was saved for, a marker is found at its line.
-/

namespace BlockUpdate

namespace RetryMarker

open JsonText JsonValue

/-- The bytes of the file, spelled out. -/
theorem compact_eq (index : Nat) (line : String) :
    (JsonValue.ofFields [("index", .ofNat index), ("line", .ofText line)]).compact =
      0x7b :: 0x22 :: (JsonText.encode "index" ++ 0x22 :: 0x3a :: (digits index ++ 0x2c ::
        0x22 :: (JsonText.encode "line" ++ 0x22 :: 0x3a ::
          (0x22 :: (JsonText.encode line ++ 0x22 :: [0x7d]))))) := by
  have hopen : asciiBytes "\x7b" = [0x7b] := by decide
  have hclose : asciiBytes "\x7d" = [0x7d] := by decide
  have hcolon : asciiBytes ":" = [0x3a] := by decide
  have hcomma : asciiBytes "," = [0x2c] := by decide
  have hquote : ascii '"' = 0x22 := by decide
  simp [JsonValue.ofFields, ofNat_eq, ofText, compact, compactFields, separated, quoted, hopen,
    hclose, hcolon, hcomma, hquote, List.intercalate]

/-- The value that the file holds. -/
def document (m : RetryMarker) : JsonValue :=
  .object [(JsonText.encode "index", .number (digits m.index)),
    (JsonText.encode "line", .string (JsonText.encode m.line))]

theorem toList_encode (m : RetryMarker) :
    m.encode.data.toList =
      (JsonValue.ofFields [("index", .ofNat m.index), ("line", .ofText m.line)]).compact := by
  rw [RetryMarker.encode, Bytes.ofList]

/-- The file is one object, and nothing is left behind it. -/
theorem value?_encode (m : RetryMarker) {fuel : Nat} (h : 4 ≤ fuel) :
    value? fuel m.encode.data.toList = some (m.document, []) := by
  obtain ⟨fuel, rfl⟩ := Nat.exists_eq_add_of_le' h
  rw [toList_encode, compact_eq]
  exact value?_object (fields?_more (value?_digits (fuel + 1) m.index (.inl rfl) _)
    (fields?_last (value?_string fuel m.line [0x7d]) "line") "index")

theorem size_encode_pos (m : RetryMarker) : 0 < m.encode.size := by
  show 0 < m.encode.data.toList.length
  rw [toList_encode, compact_eq]
  exact Nat.succ_pos _

/-- **A marker reads back from its file.** -/
theorem decode_encode {m : RetryMarker} (h : m.index < Decimal.limit64) :
    decode m.encode = some m := by
  have hparse : JsonValue.parse m.encode = some m.document := by
    have hlength : 0 < m.encode.data.toList.length := m.size_encode_pos
    rw [JsonValue.parse, m.value?_encode (by omega)]
    rfl
  have hrecord : m.document.record? ["index", "line"] =
      some [.number (digits m.index), .string (JsonText.encode m.line)] := by
    simp [document, record?, entries?, JsonText.decode_encode, field?, List.filter]
  simp only [decode, hparse, hrecord, Option.bind_eq_bind, Option.bind_some, natural?_digits h,
    text?, JsonText.decode_encode]
  rfl

/-! ## Loading -/

variable {t : FileTree} {p : Path} {parts : List String} {place : Place} {name : String}

/-- What is loaded depends on what can be read. -/
theorem load_of_read {data : Bytes} (h : t.read p = .ok data) :
    load t p =
      if data.size = 0 then .ok none
      else match decode data with
        | some m => .ok (some m)
        | none => .error .malformed := by
  unfold load
  split
  · rename_i found hread
    obtain rfl := Except.ok.inj (h.symm.trans hread)
    rfl
  · rename_i hread
    cases h.symm.trans hread
  · rename_i hread
    cases h.symm.trans hread

/-- **A marker that was saved is loaded.** -/
theorem load_of_file (hleads : t.Leads parts place) (hname : PlainName name)
    (hp : p.parts = parts ++ [name]) (hsize : name.utf8ByteSize ≤ FileTree.maxName)
    {m : RetryMarker} (hm : m.index < Decimal.limit64)
    (hfile : t.get? (place ++ [name]) = some (.file m.encode)) : load t p = .ok (some m) := by
  have hread : t.read p = .ok m.encode := by
    rw [FileTree.read, FileM.node_of_get? hleads hname hp hsize hfile]
    rfl
  rw [load_of_read hread, if_neg (Nat.ne_of_gt m.size_encode_pos), decode_encode hm]

/-- No marker is loaded where there is none. -/
theorem load_of_noEntry (h : t.node p = .error (.errno Errno.noEntry)) : load t p = .ok none := by
  rw [load, FileTree.read, h]
  rfl

end RetryMarker

namespace RetrySkip

/-- **In its own script a marker is found at its line.** -/
theorem resolve_self {lines : List String} {index : Nat} {line : String}
    (h : lines[index]? = some line) :
    resolve (some ⟨index, Blank.trim line⟩) lines = ⟨some index⟩ := by
  simp [resolve, h]

end RetrySkip

end BlockUpdate
