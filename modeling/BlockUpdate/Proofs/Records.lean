import BlockUpdate.Package.Record
import BlockUpdate.Proofs.Fields
import BlockUpdate.Proofs.JsonText

/-!
# Records that are read are records that were written

The reader and the writer of records know one layout. What a reader takes is stated as an
equivalence, so that one lemma gives both directions: a record that stands ahead is read, and what
is read stood ahead.

- `RecordReader.Ahead`: what a reader still has to read.
- **`RecordReader.read_eq_ok`**: a record is read exactly when its bytes are ahead; they are the raw
  bytes of what was read, and the reader moves on by their number.
- `Record.number_eq_ok`, `Record.text_eq_ok`, `Record.expect_eq_ok`: what a value has to be.
-/

namespace BlockUpdate

theorem Utf8.decode_eq_ok {b : Bytes} {text : String} :
    decode b = .ok text ↔ b = Bytes.ofText text := by
  constructor
  · intro h
    rw [decode] at h
    split at h
    case h_2 => cases h
    case h_1 found hfound =>
      cases h
      rw [String.fromUTF8?] at hfound
      split at hfound
      · cases hfound
        rfl
      · cases hfound
  · rintro rfl
    exact decode_ofText text

theorem Bytes.size_ofText (text : String) : (ofText text).size = text.utf8ByteSize :=
  String.size_toByteArray

namespace LittleEndian

theorem decode_eq_iff {b : Bytes} {width n : Nat} (hsize : b.size = width) :
    decode b = n ↔ n < 256 ^ width ∧ b = encode width n := by
  constructor
  · rintro rfl
    rw [← hsize]
    exact ⟨decode_lt b, (encode_decode rfl).symm⟩
  · rintro ⟨hn, rfl⟩
    exact decode_encode hn

end LittleEndian

namespace Record

variable {r r' : Record} {form : RecordForm} {b : Bytes} {width n tag : Nat} {s : String}

theorem encode_eq_ok : encode form r = .ok b ↔ r.value.size < 256 ^ form.lengthBytes ∧
    b = LittleEndian.encode 2 r.tag ++
      (LittleEndian.encode form.lengthBytes r.value.size ++ r.value) := by
  rw [encode, ByteArray.append_assoc]
  split
  · next h => simp [h, eq_comm]
  · next h => simp [h]

theorem expect_eq_ok : r.expect tag = .ok r' ↔ r.tag = tag ∧ r' = r := by
  rw [expect]
  split
  · next h => simp [h, eq_comm]
  · next h => simp [h]

/-- A value holds a number when it is the bytes of it. -/
theorem number_eq_ok : r.number width = .ok n ↔
    n < 256 ^ width ∧ r.value = LittleEndian.encode width n := by
  rw [number]
  split
  · next h => rw [Except.ok.injEq, LittleEndian.decode_eq_iff h]
  · next h =>
    refine ⟨(by cases ·), fun ⟨_, hvalue⟩ => ?_⟩
    exact absurd (hvalue ▸ LittleEndian.size_encode width n) h

theorem text_eq_ok : r.text = .ok s ↔ r.value = Bytes.ofText s := by
  rw [text, mapError_eq_ok, Utf8.decode_eq_ok]

end Record

namespace RecordReader

variable {r r' : RecordReader} {form : RecordForm} {ahead rest : Bytes} {record : ReadRecord}
  {tag n : Nat}

/-- What a reader still has to read. -/
def Ahead (r : RecordReader) (rest : Bytes) : Prop :=
  ∃ front : Bytes, r.data = front ++ rest ∧ front.size = r.position

/-- The reader further on. -/
def skip (r : RecordReader) (n : Nat) : RecordReader := { r with position := r.position + n }

theorem ahead_start (data : Bytes) : Ahead { data } data :=
  ⟨ByteArray.empty, ByteArray.empty_append.symm, rfl⟩

theorem Ahead.skip {x : Bytes} (h : r.Ahead (x ++ rest)) : (r.skip x.size).Ahead rest := by
  obtain ⟨front, hdata, hsize⟩ := h
  refine ⟨front ++ x, ?_, ?_⟩
  · rw [RecordReader.skip, hdata, ByteArray.append_assoc]
  · rw [ByteArray.size_append, hsize, RecordReader.skip]

theorem skip_skip (r : RecordReader) (m n : Nat) : (r.skip m).skip n = r.skip (m + n) := by
  simp only [RecordReader.skip, Nat.add_assoc]

/-- A window is read exactly when it is ahead. -/
theorem Ahead.slice?_eq_some (h : r.Ahead ahead) {w : Bytes} :
    r.data.slice? r.position n = some w ↔ w.size = n ∧ ∃ rest, ahead = w ++ rest := by
  obtain ⟨front, hdata, hsize⟩ := h
  constructor
  · intro hslice
    refine ⟨Bytes.size_of_slice? hslice, r.data.dropFirst (r.position + n), ?_⟩
    rw [Bytes.slice?] at hslice
    split at hslice
    · next hfits =>
      cases hslice
      rw [Bytes.extract_append_dropFirst r.data (Nat.le_add_right ..) hfits,
        Bytes.dropFirst_of_append hdata hsize]
    · cases hslice
  · rintro ⟨rfl, rest, rfl⟩
    exact Bytes.slice?_append hdata hsize

theorem Ahead.read? {w : Bytes} (h : r.Ahead (w ++ rest)) (hsize : w.size = n) :
    LittleEndian.read? r.data r.position n = some (LittleEndian.decode w) := by
  rw [LittleEndian.read?, h.slice?_eq_some.mpr ⟨hsize, rest, rfl⟩, Option.map_some]

/-- Tag, length and value that are ahead are read as a record. -/
theorem Ahead.read {t l value : Bytes} (h : r.Ahead (t ++ (l ++ value) ++ rest)) (ht : t.size = 2)
    (hl : l.size = form.lengthBytes) (hvalue : LittleEndian.decode l = value.size) :
    r.read form = .ok (⟨⟨LittleEndian.decode t, value⟩, t ++ (l ++ value)⟩,
      r.skip (t ++ (l ++ value)).size) := by
  have hsize : (t ++ (l ++ value)).size = form.headerSize + value.size := by
    simp only [ByteArray.size_append, ht, hl, RecordForm.headerSize]
    omega
  have hraw := h.slice?_eq_some.mpr ⟨hsize, rest, rfl⟩
  rw [ByteArray.append_assoc] at h
  have htag := h.read? ht
  have hnext := h.skip
  rw [ByteArray.append_assoc, ht] at hnext
  have hlength : LittleEndian.read? r.data (r.position + 2) form.lengthBytes =
      some value.size := hvalue ▸ hnext.read? hl
  have hdrop : (t ++ (l ++ value)).dropFirst form.headerSize = value := by
    rw [← ByteArray.append_assoc]
    refine Bytes.dropFirst_of_append rfl ?_
    rw [ByteArray.size_append, ht, hl, RecordForm.headerSize]
  rw [RecordReader.read, htag, hlength]
  simp only [hraw, hdrop]
  rw [hsize, RecordReader.skip]

theorem exists_of_read (h : r.read form = .ok (record, r')) :
    ∃ length, LittleEndian.read? r.data (r.position + 2) form.lengthBytes = some length ∧
      r.data.slice? r.position (form.headerSize + length) = some record.raw := by
  rw [RecordReader.read] at h
  split at h
  · next tag length _ hlength =>
    simp only at h
    split at h
    · next raw hraw =>
      cases h
      exact ⟨length, hlength, hraw⟩
    · cases h
  · cases h

/-- **A record is read exactly when it is ahead.** -/
theorem read_eq_ok (h : r.Ahead ahead) : r.read form = .ok (record, r') ↔
    ∃ rest, ahead = record.raw ++ rest ∧ record.tag < 256 ^ 2 ∧
      Record.encode form record.toRecord = .ok record.raw ∧ r' = r.skip record.raw.size := by
  constructor
  · intro hread
    obtain ⟨length, hlength, hslice⟩ := exists_of_read hread
    obtain ⟨hsize, rest, rfl⟩ := h.slice?_eq_some.mp hslice
    -- the raw bytes are tag, length and value, which is just as long as the length says
    obtain ⟨t, l, value, hraw, ht, hl⟩ : ∃ t l value, record.raw = t ++ (l ++ value) ∧
        t.size = 2 ∧ l.size = form.lengthBytes := by
      refine ⟨record.raw.takeFirst 2, (record.raw.dropFirst 2).takeFirst form.lengthBytes,
        (record.raw.dropFirst 2).dropFirst form.lengthBytes, ?_, ?_, ?_⟩
      · rw [Bytes.takeFirst_append_dropFirst, Bytes.takeFirst_append_dropFirst]
      · rw [Bytes.size_takeFirst, hsize, RecordForm.headerSize]
        omega
      · rw [Bytes.size_takeFirst, Bytes.size_dropFirst, hsize, RecordForm.headerSize]
        omega
    rw [hraw] at h hsize
    have hvalue : LittleEndian.decode l = value.size := by
      have hnext := (ByteArray.append_assoc ▸ h : r.Ahead (t ++ (l ++ value ++ rest))).skip
      rw [ByteArray.append_assoc, ht] at hnext
      obtain rfl : LittleEndian.decode l = length :=
        Option.some.inj ((hnext.read? hl).symm.trans hlength)
      simp only [ByteArray.size_append, ht, hl, RecordForm.headerSize] at hsize
      omega
    cases (h.read ht hl hvalue).symm.trans hread
    obtain ⟨htag, ht'⟩ := (LittleEndian.decode_eq_iff ht).mp rfl
    obtain ⟨hvalue', hl'⟩ := (LittleEndian.decode_eq_iff hl).mp hvalue
    refine ⟨rest, rfl, htag, Record.encode_eq_ok.mpr ⟨hvalue', ?_⟩, rfl⟩
    rw [← ht', ← hl']
  · rintro ⟨rest, rfl, htag, hencode, rfl⟩
    obtain ⟨hvalue, hraw⟩ := Record.encode_eq_ok.mp hencode
    rw [hraw] at h
    rw [h.read (LittleEndian.size_encode ..) (LittleEndian.size_encode ..)
      (LittleEndian.decode_encode hvalue), ← hraw, LittleEndian.decode_encode htag]

end RecordReader

end BlockUpdate
