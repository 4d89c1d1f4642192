import BlockUpdate.Proofs.JsonText
import BlockUpdate.Script.Record

/-!
# The record file

- `JsonValue.Reads`: a text is read as a value, whatever follows it.
- **`JsonValue.reads_object`**: so is the form of an object with one field a line.
- **`PartitionRecord.parse_encode`**: the file of a record is the object that was written.
- **`PartitionRecord.updated_of_decode`**: a partition that the file says is updated was recorded as
  updated.
-/

namespace BlockUpdate

namespace JsonValue

open JsonText

/-! ## Values on several lines -/

/-- A text is read as a value, whatever follows it, with so much fuel or more. -/
def Reads (value : JsonValue) (text : List UInt8) (need : Nat) : Prop :=
  ∀ fuel rest, need ≤ fuel → value? fuel (text ++ rest) = some (value, rest)

theorem skipBlanks_append {blanks : List UInt8} (h : ∀ b ∈ blanks, isBlank b = true)
    (rest : List UInt8) : skipBlanks (blanks ++ rest) = skipBlanks rest :=
  List.dropWhile_append_of_pos h

theorem isBlank_of_mem_newLine {depth : Nat} {b : UInt8} (hb : b ∈ newLine depth) :
    isBlank b = true := by
  rw [newLine, List.mem_append, List.mem_replicate] at hb
  rcases hb with hb | ⟨-, rfl⟩
  · obtain rfl : b = 0x0a := List.mem_singleton.mp hb
    decide
  · decide

/-- The blank in front of a value is passed over. -/
theorem value?_space (fuel : Nat) (input : List UInt8) :
    value? fuel (0x20 :: input) = value? fuel input := by
  have hskip : skipBlanks (0x20 :: input) = skipBlanks input := by
    show skipBlanks ([0x20] ++ input) = skipBlanks input
    exact skipBlanks_append (List.forall_mem_singleton.mpr rfl) input
  cases fuel with
  | zero => rfl
  | succ fuel => rw [value?, value?, hskip]

theorem reads_ofText (text : String) (depth : Nat) :
    Reads (.ofText text) (prettyAt depth (.ofText text)) 1 := by
  intro fuel rest hfuel
  obtain ⟨fuel, rfl⟩ : ∃ n, fuel = n + 1 := ⟨fuel - 1, by omega⟩
  have hquote : ascii '"' = 0x22 := by decide
  simpa [ofText, prettyAt, quoted, hquote] using value?_string fuel text rest

theorem reads_bool (b : Bool) (depth : Nat) : Reads (.bool b) (prettyAt depth (.bool b)) 1 := by
  intro fuel rest hfuel
  obtain ⟨fuel, rfl⟩ : ∃ n, fuel = n + 1 := ⟨fuel - 1, by omega⟩
  cases b with
  | true =>
    have hword : word? "true" (0x74 :: 0x72 :: 0x75 :: 0x65 :: rest) = some rest := by
      simp [word?, asciiBytes, ascii]
    show value? (fuel + 1) (0x74 :: 0x72 :: 0x75 :: 0x65 :: rest) = _
    rw [value?, skipBlanks_cons (by decide)]
    simp [hword]
  | false =>
    have hword : word? "false" (0x66 :: 0x61 :: 0x6c :: 0x73 :: 0x65 :: rest) = some rest := by
      simp [word?, asciiBytes, ascii]
    show value? (fuel + 1) (0x66 :: 0x61 :: 0x6c :: 0x73 :: 0x65 :: rest) = _
    rw [value?, skipBlanks_cons (by decide)]
    simp [hword]

/-- The form of a field. -/
def fieldText (depth : Nat) (field : String × JsonValue) : List UInt8 :=
  quoted (encode field.1) ++ asciiBytes ": " ++ prettyAt depth field.2

theorem prettyFields_eq (depth : Nat) (fields : List (String × JsonValue)) :
    prettyFields depth (fields.map fun (key, value) => (encode key, value)) =
      fields.map (fieldText depth) := by
  induction fields with
  | nil => rfl
  | cons field rest ih =>
    rw [List.map_cons, prettyFields, ih]
    rfl

theorem fieldText_append (depth : Nat) (field : String × JsonValue) (after : List UInt8) :
    fieldText depth field ++ after = 0x22 :: (encode field.1 ++ 0x22 :: 0x3a ::
      (0x20 :: (prettyAt depth field.2 ++ after))) := by
  have hquote : ascii '"' = 0x22 := by decide
  have hcolon : asciiBytes ": " = [0x3a, 0x20] := by decide
  simp [fieldText, quoted, hquote, hcolon]

variable {depth need : Nat} {fields : List (String × JsonValue)}

/-- **Fields on lines of their own** are read up to the end of their object. -/
theorem fields?_lines (hne : fields ≠ [])
    (hreads : ∀ field ∈ fields, Reads field.2 (prettyAt (depth + 1) field.2) need)
    {blanks : List UInt8} (hblanks : ∀ b ∈ blanks, isBlank b = true) {fuel : Nat}
    (hfuel : need + fields.length ≤ fuel) (rest : List UInt8) :
    fields? fuel (blanks ++ (separated (asciiBytes "," ++ newLine (depth + 1))
        (fields.map (fieldText (depth + 1))) ++ (newLine depth ++ 0x7d :: rest))) =
      some (fields.map fun (key, value) => (encode key, value), rest) := by
  induction fields generalizing blanks fuel with
  | nil => exact absurd rfl hne
  | cons field others ih =>
    rw [List.length_cons] at hfuel
    obtain ⟨fuel, rfl⟩ : ∃ n, fuel = n + 1 := ⟨fuel - 1, by omega⟩
    have hvalue : ∀ after, value? fuel (0x20 :: (prettyAt (depth + 1) field.2 ++ after)) =
        some (field.2, after) := fun after => by
      rw [value?_space]
      exact hreads field List.mem_cons_self fuel after (by omega)
    -- blanks in front of a field are passed over
    have htext : ∀ after, skipBlanks (blanks ++ (fieldText (depth + 1) field ++ after)) =
        0x22 :: (encode field.1 ++ 0x22 :: 0x3a ::
          (0x20 :: (prettyAt (depth + 1) field.2 ++ after))) := fun after => by
      rw [skipBlanks_append hblanks, fieldText_append, skipBlanks_cons (by decide)]
    cases others with
    | nil =>
      have hend : skipBlanks (newLine depth ++ 0x7d :: rest) = 0x7d :: rest := by
        rw [skipBlanks_append fun b => isBlank_of_mem_newLine, skipBlanks_cons (by decide)]
      have hlast := fields?_of_end (htext _) (hvalue _) hend
      rw [List.map_singleton, separated, List.intercalate_singleton]
      exact hlast
    | cons next others =>
      have hline : ∀ b ∈ newLine (depth + 1), isBlank b = true := fun b => isBlank_of_mem_newLine
      have hfuel' : need + (next :: others).length ≤ fuel := by omega
      have hrest := ih (List.cons_ne_nil _ _)
        (fun f hf => hreads f (List.mem_cons_of_mem _ hf)) hline hfuel'
      have hcomma : ∀ after, skipBlanks (0x2c :: after) = 0x2c :: after :=
        skipBlanks_cons (by decide)
      have hmore := fields?_of_comma (htext _) (hvalue _) (hcomma _) hrest
      have hseparator : asciiBytes "," = [0x2c] := by decide
      rw [List.map_cons, List.map_cons, separated, List.intercalate_cons_cons, ← List.map_cons,
        List.append_assoc, List.append_assoc, List.append_assoc, hseparator]
      exact hmore

/-- Fields begin with the quote of the first key. -/
theorem separated_fields (depth : Nat) (hne : fields ≠ []) (separator after : List UInt8) :
    ∃ input, separated separator (fields.map (fieldText depth)) ++ after = 0x22 :: input := by
  obtain ⟨field, others, rfl⟩ := List.exists_cons_of_ne_nil hne
  cases others with
  | nil =>
    rw [List.map_singleton, separated, List.intercalate_singleton]
    exact ⟨_, fieldText_append depth field after⟩
  | cons next others =>
    rw [List.map_cons, List.map_cons, separated, List.intercalate_cons_cons, List.append_assoc,
      List.append_assoc]
    exact ⟨_, fieldText_append depth field _⟩

/-- **An object with one field a line** is read back. -/
theorem reads_object (hreads : ∀ field ∈ fields, Reads field.2 (prettyAt (depth + 1) field.2) need) :
    Reads (.ofFields fields) (prettyAt depth (.ofFields fields)) (need + fields.length + 1) := by
  intro fuel rest hfuel
  obtain ⟨fuel, rfl⟩ : ∃ n, fuel = n + 1 := ⟨fuel - 1, by omega⟩
  rw [ofFields, prettyAt, prettyFields_eq, block]
  by_cases hne : fields = []
  · subst hne
    show value? (fuel + 1) (0x7b :: 0x7d :: rest) = _
    rw [value?, skipBlanks_cons (by decide)]
    simp [skipBlanks_cons (b := 0x7d) (by decide)]
  · have hopen : asciiBytes "\x7b" = [0x7b] := by decide
    have hclose : asciiBytes "\x7d" = [0x7d] := by decide
    have hnone : ∀ b ∈ ([] : List UInt8), isBlank b = true := by simp
    have hfuel' : need + fields.length ≤ fuel := by omega
    have hlines := fields?_lines hne hreads hnone hfuel' rest
    obtain ⟨input, hinput⟩ := separated_fields (depth + 1) hne
      (asciiBytes "," ++ newLine (depth + 1)) (newLine depth ++ 0x7d :: rest)
    rw [List.nil_append, hinput] at hlines
    have hskip : skipBlanks (newLine (depth + 1) ++ 0x22 :: input) = 0x22 :: input := by
      rw [skipBlanks_append fun b => isBlank_of_mem_newLine, skipBlanks_cons (by decide)]
    rw [if_neg (by simpa using hne), hopen, hclose]
    simpa [← hinput] using value?_of_fields hskip hlines

/-- Every part of several takes its place. -/
theorem length_separated (separator : List UInt8) (parts : List (List UInt8)) :
    (parts.map List.length).sum ≤ (separated separator parts).length := by
  rw [separated]
  induction parts with
  | nil => exact Nat.le_refl _
  | cons part rest ih =>
    cases rest with
    | nil => simp
    | cons next rest =>
      rw [List.intercalate_cons_cons, List.map_cons, List.sum_cons, List.length_append,
        List.length_append]
      omega

/-- The form of an object is longer than there are fields. -/
theorem length_le_prettyAt (depth : Nat) (fields : List (String × JsonValue)) :
    2 * fields.length + 2 ≤ (prettyAt depth (.ofFields fields)).length := by
  have hfield : ∀ field : String × JsonValue, 2 ≤ (fieldText (depth + 1) field).length := by
    intro field
    rw [fieldText, quoted, List.length_append, List.length_append, List.length_append]
    simp
    omega
  have hparts : 2 * fields.length ≤ ((fields.map (fieldText (depth + 1))).map List.length).sum := by
    induction fields with
    | nil => simp
    | cons field rest ih =>
      have := hfield field
      simp only [List.map_cons, List.sum_cons, List.length_cons]
      omega
  have hopen : (asciiBytes "\x7b").length = 1 := by decide
  have hclose : (asciiBytes "\x7d").length = 1 := by decide
  have hseparated := length_separated (asciiBytes "," ++ newLine (depth + 1))
    (fields.map (fieldText (depth + 1)))
  rw [ofFields, prettyAt, prettyFields_eq, block]
  split_ifs with hempty
  · have hnone : fields = [] := by simpa using hempty
    rw [List.length_append, hopen, hclose, hnone]
    simp
  · simp only [List.length_append, hopen, hclose]
    omega

end JsonValue

namespace PartitionRecord

open JsonText JsonValue

variable {entries found : List (String × PartitionStatus)} {name : String}
  {status : PartitionStatus}

/-! ## The contents of the file -/

/-- A status is read back from the lines that it is written on. -/
theorem reads_statusValue (s : PartitionStatus) (depth : Nat) :
    Reads (statusValue s) (prettyAt depth (statusValue s)) 4 := by
  refine reads_object fun field hfield => ?_
  simp only [List.mem_cons, List.not_mem_nil, or_false] at hfield
  rcases hfield with rfl | rfl
  · exact reads_bool s.updated (depth + 1)
  · exact reads_ofText s.time.text (depth + 1)

/-- **The file of a record** is the object that was written. -/
theorem parse_encode (entries : List (String × PartitionStatus)) :
    JsonValue.parse (encode entries) =
      some (.ofFields (entries.map fun (name, s) => (name, statusValue s))) := by
  let fields := entries.map fun (name, s) => (name, statusValue s)
  have hreads : Reads (.ofFields fields) (prettyAt 0 (.ofFields fields)) (4 + fields.length + 1) := by
    refine reads_object fun field hfield => ?_
    obtain ⟨entry, -, rfl⟩ := List.mem_map.mp hfield
    exact reads_statusValue entry.2 1
  have hlist : (encode entries).data.toList = prettyAt 0 (.ofFields fields) := by
    rw [encode, Bytes.ofList]
    rfl
  have hlength := length_le_prettyAt 0 fields
  have hread := hreads (2 * (prettyAt 0 (.ofFields fields)).length + 2) [] (by omega)
  rw [List.append_nil] at hread
  rw [JsonValue.parse, hlist]
  simp only [hread, bind, Option.bind]
  rfl

/-! ## What it says -/

/-- The keys of an object that was written are read back. -/
theorem entries?_ofFields (fields : List (String × JsonValue)) :
    (JsonValue.ofFields fields).entries? = some fields := by
  rw [ofFields, entries?]
  induction fields with
  | nil => rfl
  | cons field rest ih =>
    rw [List.map_cons, List.mapM_cons, ih]
    simp only [JsonText.decode_encode]
    rfl

/-- A status is what was written, as far as its time can be read. -/
theorem decodeStatus_statusValue (s : PartitionStatus) :
    decodeStatus (statusValue s) = (Timestamp.parse s.time.text).map fun time => ⟨s.updated, time⟩ := by
  have hrecord : (statusValue s).record? ["updated", "updated_at"] =
      some [.bool s.updated, .ofText s.time.text] := by
    have hentries := entries?_ofFields [("updated", .bool s.updated), ("updated_at", .ofText s.time.text)]
    rw [statusValue, ofFields, record?]
    rw [ofFields] at hentries
    rw [hentries]
    simp [field?, List.filter]
  have htext : (JsonValue.ofText s.time.text).text? = some s.time.text := JsonText.decode_encode _
  simp only [decodeStatus, hrecord, Option.bind_eq_bind, Option.bind_some, bool?, htext]
  rcases Timestamp.parse s.time.text with _ | _ <;> rfl

theorem mem_insert {entry : String × PartitionStatus} (h : entry ∈ insert name status entries) :
    entry = (name, status) ∨ entry ∈ entries := by
  induction entries with
  | nil => exact .inl (List.mem_singleton.mp h)
  | cons head rest ih =>
    rw [insert] at h
    split_ifs at h
    · exact List.mem_cons.mp h
    · rcases List.mem_cons.mp h with h | h
      · exact .inl h
      · exact .inr (List.mem_cons_of_mem _ h)
    · rcases List.mem_cons.mp h with h | h
      · exact .inr (h ▸ List.mem_cons_self)
      · exact (ih h).imp_right (List.mem_cons_of_mem _)

/-- **A partition that the file says is updated** was recorded as updated. -/
theorem updated_of_decode (h : decode (encode entries) = some found)
    (hmem : (name, status) ∈ found) (hupdated : status.updated = true) :
    ∃ recorded, (name, recorded) ∈ entries ∧ recorded.updated = true := by
  have hfold : ∀ (entries start : List (String × PartitionStatus)),
      (entries.map fun (name, s) => (name, statusValue s)).foldlM
        (fun entries (name, value) => do return insert name (← decodeStatus value) entries) start =
          some found →
      (name, status) ∈ start ∨ ∃ recorded, (name, recorded) ∈ entries ∧ recorded.updated = true := by
    intro entries
    induction entries with
    | nil =>
      intro start h
      exact .inl (Option.some.inj h ▸ hmem)
    | cons entry rest ih =>
      intro start h
      rw [List.map_cons, List.foldlM_cons] at h
      simp only [decodeStatus_statusValue] at h
      rcases htime : Timestamp.parse entry.2.time.text with _ | time <;> rw [htime] at h
      · cases h
      · rcases ih _ h with hstart | ⟨recorded, hrecorded, hflag⟩
        · rcases mem_insert hstart with heq | hstart
          · obtain ⟨rfl, rfl⟩ := Prod.ext_iff.mp heq
            exact .inr ⟨entry.2, List.mem_cons_self, hupdated⟩
          · exact .inl hstart
        · exact .inr ⟨recorded, List.mem_cons_of_mem _ hrecorded, hflag⟩
  rw [decode, parse_encode] at h
  simp only [Option.bind_eq_bind, Option.bind_some, entries?_ofFields] at h
  exact (hfold entries [] h).resolve_left List.not_mem_nil

end PartitionRecord

end BlockUpdate
