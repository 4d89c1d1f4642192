import BlockUpdate.Proofs.Records

/-!
# Records one after the other

A reader keeps its place between calls and a writer keeps what it wrote, so what a sequence of calls
does is said of the state that each of them leaves, failed calls included.

- `RecordReader.next`, `Record.put`: a call of a reader, which looks at the header before it takes
  the whole record, and a call of a writer. `RecordReader.outcome_next` and `Record.outcome_put` say
  that they do what `RecordReader.read` and `Record.encode` do.
- `RecordReader.Called`: what a call does, by how it ends. **`RecordReader.called_next`**: every
  call does this.
- `RecordReader.calls`, `Record.puts`: calls one after the other.
- **`RecordReader.unread_calls`**: the records that were read are the front of the input, without a
  gap. **`RecordReader.calls_written`**: what was written is read.
- **`RecordReader.calls_partition`**: both directions, for sequences of calls.
-/

namespace BlockUpdate

/-! ## Calls -/

namespace RecordReader

/-- The header of the given size that is next; looks without moving on. -/
def header (size : Nat) : ExceptT RecordFault (StateM RecordReader) Bytes := do
  let r ← get
  let some header := r.data.slice? r.position size
    | throw (.truncatedHeader r.position)
  return header

/-- Takes the next record, whose header and value have the given sizes. -/
def take (headerSize valueSize : Nat) : ExceptT RecordFault (StateM RecordReader) ReadRecord := do
  let r ← get
  let needed := headerSize + valueSize
  let some raw := r.data.slice? r.position needed
    | throw (.truncatedValue r.position needed r.remaining)
  set { r with position := r.position + needed }
  return ⟨⟨LittleEndian.decode (raw.takeFirst 2), raw.dropFirst headerSize⟩, raw⟩

/-- A call for the next record. -/
def next (form : RecordForm) : ExceptT RecordFault (StateM RecordReader) ReadRecord := do
  let header ← header form.headerSize
  take form.headerSize (LittleEndian.decode (header.dropFirst 2))

/-- Calls for records of the given forms, one after the other; one that fails does not end them. -/
def calls : List RecordForm → RecordReader → List (Except RecordFault ReadRecord) × RecordReader
  | [], r => ([], r)
  | form :: forms, r =>
    let (answer, r) := outcome (next form) r
    let (answers, r) := calls forms r
    (answer :: answers, r)

/-- What was not read yet. -/
def unread (r : RecordReader) : Bytes := r.data.dropFirst r.position

end RecordReader

namespace Record

/-- Writes a record behind what was written, if its value is short enough for the form. -/
def put (form : RecordForm) (r : Record) : ExceptT RecordFault (StateM Bytes) Unit := do
  if 256 ^ form.lengthBytes ≤ r.value.size then
    throw (.tooLong r.value.size (8 * form.lengthBytes))
  modify (· ++ LittleEndian.encode 2 r.tag)
  modify (· ++ LittleEndian.encode form.lengthBytes r.value.size)
  modify (· ++ r.value)

/-- Writes records one after the other, each in its form. -/
def puts (items : List (RecordForm × Record)) : ExceptT RecordFault (StateM Bytes) Unit :=
  items.forM fun item => item.2.put item.1

end Record

/-- One more than the largest size of a value. -/
def RecordForm.valueLimit : RecordForm → Nat
  | .short => 2 ^ 16
  | .long => 2 ^ 32

theorem RecordForm.valueLimit_eq (form : RecordForm) :
    form.valueLimit = 256 ^ form.lengthBytes := by
  cases form <;> rfl

/-! ## A call does what the function does -/

namespace Record

variable {r : Record} {form : RecordForm} {bytes : Bytes}

theorem outcome_put (form : RecordForm) (r : Record) (out : Bytes) :
    outcome (r.put form) out =
      match encode form r with
      | .ok bytes => (.ok (), out ++ bytes)
      | .error e => (.error e, out) := by
  rw [put, encode]
  by_cases h : r.value.size < 256 ^ form.lengthBytes
  · rw [if_pos h, if_neg (by omega)]
    simp only [outcome_bind, outcome_modify, ByteArray.append_assoc]
  · rw [if_neg h, if_pos (by omega)]
    rfl

theorem outcome_put_of_encode (h : encode form r = .ok bytes) (out : Bytes) :
    outcome (r.put form) out = (.ok (), out ++ bytes) := by
  rw [outcome_put, h]

theorem outcome_put_long (h : form.valueLimit ≤ r.value.size) (out : Bytes) :
    outcome (r.put form) out = (.error (.tooLong r.value.size (8 * form.lengthBytes)), out) := by
  rw [form.valueLimit_eq] at h
  rw [outcome_put, encode, if_neg (by omega)]

end Record

namespace RecordReader

variable {r r' : RecordReader} {form : RecordForm} {record : ReadRecord} {ahead : Bytes}
  {fault : RecordFault}

theorem outcome_header (size : Nat) (r : RecordReader) :
    outcome (header size) r =
      match r.data.slice? r.position size with
      | some found => (.ok found, r)
      | none => (.error (.truncatedHeader r.position), r) := by
  rw [header, outcome_get_bind]
  cases r.data.slice? r.position size <;> rfl

theorem outcome_take (headerSize valueSize : Nat) (r : RecordReader) :
    outcome (take headerSize valueSize) r =
      match r.data.slice? r.position (headerSize + valueSize) with
      | some raw =>
        (.ok ⟨⟨LittleEndian.decode (raw.takeFirst 2), raw.dropFirst headerSize⟩, raw⟩,
          r.skip (headerSize + valueSize))
      | none =>
        (.error (.truncatedValue r.position (headerSize + valueSize) r.remaining), r) := by
  rw [take, outcome_get_bind]
  dsimp only
  cases r.data.slice? r.position (headerSize + valueSize) <;> rfl

/-- **A call reads a record and moves on, or does nothing.** -/
theorem outcome_next (form : RecordForm) (r : RecordReader) :
    outcome (next form) r =
      match r.read form with
      | .ok (record, r') => (.ok record, r')
      | .error e => (.error e, r) := by
  have hlength : 2 + form.lengthBytes = form.headerSize := rfl
  rw [next, outcome_bind, outcome_header, read, LittleEndian.read?, LittleEndian.read?]
  by_cases hheader : r.position + form.headerSize ≤ r.data.size
  · -- the header is there, and the tag and the length are its parts
    have hfound : r.data.slice? r.position form.headerSize =
        some (r.data.extract r.position (r.position + form.headerSize)) := if_pos hheader
    have htag : r.data.slice? r.position 2 =
        some (r.data.extract r.position (r.position + 2)) := if_pos (by omega)
    have hsize : r.data.slice? (r.position + 2) form.lengthBytes =
        some (Bytes.dropFirst (r.data.extract r.position (r.position + form.headerSize)) 2) := by
      rw [Bytes.slice?, if_pos (by omega), Bytes.dropFirst, ByteArray.extract_extract,
        ByteArray.size_extract]
      congr 2
      omega
    rw [hfound, htag, hsize]
    simp only [Option.map_some]
    rw [outcome_take]
    generalize LittleEndian.decode _ = length
    cases hraw : r.data.slice? r.position (form.headerSize + length) with
    | none => rfl
    | some raw =>
      have hfront : raw.takeFirst 2 = r.data.extract r.position (r.position + 2) := by
        rw [Bytes.slice?] at hraw
        split at hraw
        · cases hraw
          rw [Bytes.takeFirst, ByteArray.extract_extract]
          congr 1
          omega
        · cases hraw
      simp only [hfront, skip]
  · have hfound : r.data.slice? r.position form.headerSize = none := if_neg hheader
    have hsize : r.data.slice? (r.position + 2) form.lengthBytes = none := if_neg (by omega)
    rw [hfound, hsize]
    cases r.data.slice? r.position 2 <;> rfl

/-! ## One call -/

/-- What a call does, by how it ends: it takes the record that is next, or it stays where it is
since no record is next. -/
inductive Called (form : RecordForm) (r : RecordReader) :
    Except RecordFault ReadRecord → RecordReader → Prop
  | taken {record : ReadRecord} {r' : RecordReader} (data : r'.data = r.data)
      (raw : r.unread = record.raw ++ r'.unread)
      (moved : r'.position = r.position + record.raw.size)
      (rewritten : ∀ out,
        outcome (record.toRecord.put form) out = (.ok (), out ++ record.raw)) :
      Called form r (.ok record) r'
  | refused {fault : RecordFault} (noneNext : ∀ (record : Record) (bytes rest : Bytes),
      record.tag < 2 ^ 16 → Record.encode form record = .ok bytes → r.unread ≠ bytes ++ rest) :
      Called form r (.error fault) r

theorem ahead_unread (h : r.position ≤ r.data.size) : r.Ahead r.unread :=
  ⟨r.data.takeFirst r.position, (Bytes.takeFirst_append_dropFirst ..).symm, by
    rw [Bytes.size_takeFirst]
    omega⟩

theorem Ahead.unread_eq (h : r.Ahead ahead) : r.unread = ahead := by
  obtain ⟨front, hdata, hsize⟩ := h
  exact Bytes.dropFirst_of_append hdata hsize

/-- **Every call takes the next record or does nothing.** -/
theorem called_next (h : r.position ≤ r.data.size) (form : RecordForm) :
    Called form r (outcome (next form) r).1 (outcome (next form) r).2 := by
  have hahead := ahead_unread h
  rw [outcome_next]
  rcases hread : r.read form with fault | ⟨record, r'⟩
  · refine .refused fun record bytes rest htag hencode hnext => ?_
    have hok : r.read form = .ok (⟨record, bytes⟩, r.skip bytes.size) :=
      (read_eq_ok hahead).mpr ⟨rest, hnext, htag, hencode, rfl⟩
    rw [hread] at hok
    cases hok
  · obtain ⟨rest, hunread, -, hencode, rfl⟩ := (read_eq_ok hahead).mp hread
    rw [hunread] at hahead
    refine .taken rfl ?_ rfl (Record.outcome_put_of_encode hencode)
    rw [hahead.skip.unread_eq]
    exact hunread

/-! ## Sequences of calls -/

theorem calls_cons (form : RecordForm) (forms : List RecordForm) (r : RecordReader) :
    calls (form :: forms) r =
      ((outcome (next form) r).1 :: (calls forms (outcome (next form) r).2).1,
        (calls forms (outcome (next form) r).2).2) := rfl

/-- The bytes of the records that calls have taken. -/
def takenBytes (answers : List (Except RecordFault ReadRecord)) : Bytes :=
  Bytes.join (answers.filterMap fun answer => answer.toOption.map (·.raw))

theorem takenBytes_ok (record : ReadRecord) (answers : List (Except RecordFault ReadRecord)) :
    takenBytes (.ok record :: answers) = record.raw ++ takenBytes answers := Bytes.join_cons ..

/-- What a sequence of calls leaves of the reader. -/
structure Advanced (r r' : RecordReader) (bytes : Bytes) : Prop where
  data : r'.data = r.data
  position : r'.position = r.position + bytes.size
  inside : r'.position ≤ r'.data.size
  unread : r.unread = bytes ++ r'.unread

/-- **The records that were taken are the next bytes**, all of them in order, whatever calls fail in
between. -/
theorem unread_calls (forms : List RecordForm) (h : r.position ≤ r.data.size) :
    Advanced r (calls forms r).2 (takenBytes (calls forms r).1) := by
  induction forms generalizing r with
  | nil => exact ⟨rfl, rfl, h, ByteArray.empty_append.symm⟩
  | cons form forms ih =>
    rw [calls_cons]
    have hcall := called_next h form
    generalize outcome (next form) r = ended at hcall
    obtain ⟨answer, r'⟩ := ended
    dsimp only at hcall ⊢
    cases hcall with
    | taken hdata hraw hmoved =>
      rename_i record
      have hinside : r'.position ≤ r'.data.size := by
        have hsize := congrArg ByteArray.size hraw
        simp only [unread, ByteArray.size_append, Bytes.size_dropFirst, hdata] at hsize
        rw [hdata]
        omega
      have hrest := ih hinside
      rw [takenBytes_ok]
      refine ⟨hrest.data.trans hdata, ?_, hrest.inside, ?_⟩
      · rw [hrest.position, hmoved, ByteArray.size_append, Nat.add_assoc]
      · rw [hraw, hrest.unread, ByteArray.append_assoc]
    | refused => exact ih h

/-! ## What was written is read -/

theorem outcome_puts_cons (item : RecordForm × Record) (items : List (RecordForm × Record)) :
    Record.puts (item :: items) = (item.2.put item.1 >>= fun _ => Record.puts items) := rfl

/-- **Written records are read again**, and the reader then stands behind them, whatever stood
before or stands behind. -/
theorem calls_written (items : List (RecordForm × Record))
    (hfits : ∀ item ∈ items, item.2.tag < 2 ^ 16 ∧ item.2.value.size < item.1.valueLimit) :
    ∃ bytes, (∀ out, outcome (Record.puts items) out = (.ok (), out ++ bytes)) ∧
      ∀ (r : RecordReader) (rest : Bytes), r.Ahead (bytes ++ rest) →
        (calls (items.map (·.1)) r).1.map (·.map (·.toRecord)) =
          items.map (fun item => .ok item.2) ∧
        (calls (items.map (·.1)) r).2 = r.skip bytes.size := by
  induction items with
  | nil =>
    refine ⟨ByteArray.empty, fun out => ?_, fun r rest _ => ⟨rfl, rfl⟩⟩
    rw [ByteArray.append_empty]
    rfl
  | cons item items ih =>
    obtain ⟨⟨htag, hsize⟩, hothers⟩ := List.forall_mem_cons.mp hfits
    rw [RecordForm.valueLimit_eq] at hsize
    obtain ⟨bytes, hputs, hcalls⟩ := ih hothers
    obtain ⟨first, hfirst⟩ : ∃ first, Record.encode item.1 item.2 = .ok first :=
      ⟨_, Record.encode_eq_ok.mpr ⟨hsize, rfl⟩⟩
    refine ⟨first ++ bytes, fun out => ?_, fun r rest hr => ?_⟩
    · rw [outcome_puts_cons, outcome_bind_of_ok (Record.outcome_put_of_encode hfirst out), hputs,
        ByteArray.append_assoc]
    · rw [ByteArray.append_assoc] at hr
      have hread : r.read item.1 = .ok (⟨item.2, first⟩, r.skip first.size) :=
        (read_eq_ok hr).mpr ⟨bytes ++ rest, rfl, htag, hfirst, rfl⟩
      obtain ⟨hanswers, hplace⟩ := hcalls _ rest hr.skip
      rw [List.map_cons, calls_cons, outcome_next, hread]
      refine ⟨?_, ?_⟩
      · rw [List.map_cons, List.map_cons, hanswers]
        rfl
      · rw [hplace, skip_skip, ByteArray.size_append]

/-- **Reading partitions the input and inverts writing.** After any calls, what was taken is the
front of the input up to the position, and a further call takes the bytes of the next record, which
the writer would write for it, or stays where it is. Records that fit are written, and calls for
their forms return them and leave nothing; of a value that is too long nothing is written. -/
theorem calls_partition :
    (∀ (data : Bytes) (forms : List RecordForm),
      Advanced { data } (calls forms { data }).2 (takenBytes (calls forms { data }).1) ∧
      ∀ form, Called form (calls forms { data }).2 (outcome (next form) (calls forms { data }).2).1
        (outcome (next form) (calls forms { data }).2).2) ∧
    (∀ items : List (RecordForm × Record),
      (∀ item ∈ items, item.2.tag < 2 ^ 16 ∧ item.2.value.size < item.1.valueLimit) →
      ∃ bytes, outcome (Record.puts items) ByteArray.empty = (.ok (), bytes) ∧
        (calls (items.map (·.1)) { data := bytes }).1.map (·.map (·.toRecord)) =
          items.map (fun item => .ok item.2) ∧
        (calls (items.map (·.1)) { data := bytes }).2 = { data := bytes, position := bytes.size }) ∧
    ∀ (form : RecordForm) (record : Record) (out : Bytes), form.valueLimit ≤ record.value.size →
      outcome (record.put form) out =
        (.error (.tooLong record.value.size (8 * form.lengthBytes)), out) := by
  refine ⟨fun data forms => ?_, fun items hfits => ?_, fun form record out h =>
    Record.outcome_put_long h out⟩
  · have hadvanced := unread_calls forms (r := { data }) (Nat.zero_le _)
    exact ⟨hadvanced, called_next hadvanced.inside⟩
  · obtain ⟨bytes, hputs, hcalls⟩ := calls_written items hfits
    have hstart : Ahead { data := bytes } (bytes ++ ByteArray.empty) := by
      rw [ByteArray.append_empty]
      exact ahead_start bytes
    obtain ⟨hanswers, hplace⟩ := hcalls _ _ hstart
    refine ⟨bytes, ?_, hanswers, ?_⟩
    · rw [hputs, ByteArray.empty_append]
    · rw [hplace, skip, Nat.zero_add]

/-- A record of each form. -/
def sampleRecords : List (RecordForm × Record) :=
  [(.short, ⟨1, LittleEndian.encode 2 3⟩), (.long, ⟨5, Bytes.replicate 70 9⟩)]

theorem fits_sampleRecords :
    ∀ item ∈ sampleRecords, item.2.tag < 2 ^ 16 ∧ item.2.value.size < item.1.valueLimit := by
  simp [sampleRecords, RecordForm.valueLimit]

/-- The two records are written and read, and a value that is too long for the first form is not
written. -/
theorem calls_partition_sample :
    (∀ item ∈ sampleRecords, item.2.tag < 2 ^ 16 ∧ item.2.value.size < item.1.valueLimit) ∧
    (∃ bytes, outcome (Record.puts sampleRecords) ByteArray.empty = (.ok (), bytes) ∧
      (calls [.short, .long] { data := bytes }).1.map (·.map (·.toRecord)) =
        [.ok ⟨1, LittleEndian.encode 2 3⟩, .ok ⟨5, Bytes.replicate 70 9⟩] ∧
      (calls [.short, .long] { data := bytes }).2 = { data := bytes, position := bytes.size }) ∧
    RecordForm.short.valueLimit ≤ (Bytes.zeros 70000).size ∧
    outcome (Record.put .short ⟨2, Bytes.zeros 70000⟩) ByteArray.empty =
      (.error (.tooLong (Bytes.zeros 70000).size 16), ByteArray.empty) := by
  have hlong : RecordForm.short.valueLimit ≤ (Bytes.zeros 70000).size := by
    rw [Bytes.size_zeros]
    decide
  exact ⟨fits_sampleRecords, calls_partition.2.1 sampleRecords fits_sampleRecords, hlong,
    calls_partition.2.2 .short ⟨2, Bytes.zeros 70000⟩ ByteArray.empty hlong⟩

end RecordReader

end BlockUpdate
