import BlockUpdate.Text.Json.Reader
import Mathlib.Data.List.Basic
import Mathlib.Data.List.TakeDrop
import Mathlib.Tactic.SplitIfs

/-!
# Written JSON reads back

- `Utf8.decode_ofText`: the bytes of a text are decoded to it.
- **`JsonText.decode_encode`**: the escaped form of a text denotes the text.
- `JsonValue.stringFrom_encode`, `JsonValue.number?_digits`: the reader takes back just what was
  written, whatever follows.
- **`JsonValue.natural?_ofNat`**: so do numbers below the limit.
-/

namespace BlockUpdate

/-- **The bytes of a text** are read as the text. -/
theorem Utf8.decode_ofText (text : String) : decode (Bytes.ofText text) = .ok text := by
  have hvalid : String.fromUTF8? text.toByteArray = some text := by
    rw [String.fromUTF8?, dif_pos text.isValidUTF8]
    rfl
  show decode text.toByteArray = _
  rw [decode, hvalid]

namespace JsonText

/-! ## Characters -/

/-- Whether a byte stands for itself in a string. -/
def Plain (b : UInt8) : Prop := ¬ b < 0x20 ∧ b ≠ 0x22 ∧ b ≠ 0x5c

theorem unescape_plain {b : UInt8} (h : Plain b) (rest : List UInt8) :
    unescape (b :: rest) = (unescape rest).map (b :: ·) := by
  rw [unescape.eq_def]
  split
  · rename_i heq
    cases heq
  · rename_i heq
    exact absurd (List.cons.inj heq).1 h.2.2
  · rename_i heq
    exact absurd (List.cons.inj heq).1 h.2.2
  · rename_i c rest' _ _ heq
    obtain ⟨rfl, rfl⟩ := List.cons.inj heq
    rw [if_neg h.2.2]
    rcases unescape rest with _ | _ <;> rfl

theorem unescape_plain_append {bs : List UInt8} (h : ∀ b ∈ bs, Plain b) (rest : List UInt8) :
    unescape (bs ++ rest) = (unescape rest).map (bs ++ ·) := by
  induction bs with
  | nil => simp
  | cons b bs ih =>
    rw [List.cons_append, unescape_plain (h b List.mem_cons_self),
      ih fun b' hb' => h b' (List.mem_cons_of_mem b hb'), Option.map_map]
    rfl

theorem unescape_short {b c : UInt8} (hb : b ≠ 0x75) (hc : shortEscape? b = some c)
    (rest : List UInt8) :
    unescape (0x5c :: b :: rest) = (unescape rest).map (c :: ·) := by
  rw [unescape.eq_def]
  split
  · rename_i heq
    cases heq
  · rename_i heq
    exact absurd (List.cons.inj (List.cons.inj heq).2).1 hb
  · rename_i b' rest' _ heq
    obtain ⟨rfl, rfl⟩ := List.cons.inj (List.cons.inj heq).2
    rw [hc]
    rcases unescape rest with _ | _ <;> rfl
  · rename_i b' rest' _ hno heq
    obtain ⟨rfl, rfl⟩ := List.cons.inj heq
    exact absurd rfl (hno b rest rfl)

/-- The bytes of a character that needs no escape stand for themselves. -/
theorem plain_utf8EncodeChar {c : Char} (hspace : ¬ c.toNat < 0x20) (hquote : c ≠ '"')
    (hslash : c ≠ '\\') : ∀ b ∈ String.utf8EncodeChar c, Plain b := by
  have hne : c.toNat ≠ 34 ∧ c.toNat ≠ 92 :=
    ⟨fun h => hquote (Char.toNat_inj.mp h), fun h => hslash (Char.toNat_inj.mp h)⟩
  have key : ∀ n : Nat, n < 256 → 32 ≤ n → n ≠ 34 → n ≠ 92 → Plain (UInt8.ofNat n) := by
    intro n hn hspace hquote hslash
    have htoNat : (UInt8.ofNat n).toNat = n := UInt8.toNat_ofNat_of_lt' hn
    refine ⟨fun h => ?_, fun h => ?_, fun h => ?_⟩
    · have := UInt8.lt_iff_toNat_lt.mp h
      rw [htoNat] at this
      exact absurd this (by simpa using hspace)
    · have := congrArg UInt8.toNat h
      rw [htoNat] at this
      exact hquote this
    · have := congrArg UInt8.toNat h
      rw [htoNat] at this
      exact hslash this
  have hval : c.val.toNat = c.toNat := rfl
  intro b hb
  rw [String.utf8EncodeChar, hval] at hb
  split_ifs at hb <;> simp only [List.mem_cons, List.not_mem_nil, or_false] at hb
  · subst hb
    exact key _ (by omega) (by omega) hne.1 hne.2
  · rcases hb with rfl | rfl <;> exact key _ (by omega) (by omega) (by omega) (by omega)
  · rcases hb with rfl | rfl | rfl <;> exact key _ (by omega) (by omega) (by omega) (by omega)
  · rcases hb with rfl | rfl | rfl | rfl <;>
      exact key _ (by omega) (by omega) (by omega) (by omega)

/-- The four digits of a control character. -/
theorem hex4?_control : ∀ {n : Nat}, n < 0x20 →
    hex4? (ascii '0') (ascii '0') (hexDigit (n / 16)) (hexDigit (n % 16)) = some n := by decide

theorem unescape_control {a b c d : UInt8} {n : Nat} (h : hex4? a b c d = some n) (hn : n < 0x20)
    (rest : List UInt8) :
    unescape (0x5c :: 0x75 :: a :: b :: c :: d :: rest) =
      (unescape rest).map (String.utf8EncodeChar (Char.ofNat n) ++ ·) := by
  have hlow : ¬ (0xdc00 ≤ n ∧ n ≤ 0xdfff) := by omega
  have hhigh : ¬ (0xd800 ≤ n ∧ n ≤ 0xdbff) := by omega
  rw [unescape, h]
  show (if _ then _ else if _ then _ else _ : Option (List UInt8)) = _
  rw [if_neg hlow, if_neg hhigh]
  rcases unescape rest with _ | _ <;> rfl

/-- **An escaped character denotes the character**, whatever follows. -/
theorem unescape_encodeChar (c : Char) (rest : List UInt8) :
    unescape (encodeChar c ++ rest) = (unescape rest).map (String.utf8EncodeChar c ++ ·) := by
  rw [encodeChar.eq_def]
  split
  iterate 7 exact unescape_short (by decide) (by decide) rest
  rename_i hquote hslash _ _ _ _ _
  split_ifs with hcontrol
  · have hdigits := unescape_control (hex4?_control hcontrol) hcontrol rest
    rwa [Char.ofNat_toNat] at hdigits
  · exact unescape_plain_append (plain_utf8EncodeChar hcontrol hquote hslash) rest

/-- The escaped form of a text denotes its UTF-8 form. -/
theorem unescape_encode (text : String) :
    unescape (encode text) = some (text.toList.flatMap String.utf8EncodeChar) := by
  rw [encode]
  induction text.toList with
  | nil => rfl
  | cons c cs ih =>
    rw [List.flatMap_cons, unescape_encodeChar, ih]
    rfl

/-- **The escaped form of a text denotes the text.** -/
theorem decode_encode (text : String) : decode (encode text) = some text := by
  have hbytes : Bytes.ofList (text.toList.flatMap String.utf8EncodeChar) = text.toByteArray := by
    rw [← String.utf8Encode_toList]
    refine ByteArray.ext ?_
    simp [List.utf8Encode, Bytes.ofList]
  rw [decode, unescape_encode]
  show (Utf8.decode (Bytes.ofList _)).toOption = _
  rw [hbytes, show Utf8.decode text.toByteArray = .ok text from Utf8.decode_ofText text]
  rfl

end JsonText

namespace JsonValue

open JsonText

/-! ## Strings -/

theorem stringFrom_plain {b : UInt8} (h : Plain b) (rest taken : List UInt8) :
    stringFrom (b :: rest) taken = stringFrom rest (b :: taken) := by
  rw [stringFrom.eq_def]
  split
  · rename_i heq
    cases heq
  · rename_i heq
    exact absurd (List.cons.inj heq).1 h.2.1
  · rename_i heq
    exact absurd (List.cons.inj heq).1 h.2.2
  · rename_i heq
    exact absurd (List.cons.inj heq).1 h.2.2
  · rename_i b' rest' _ _ _ heq
    obtain ⟨rfl, rfl⟩ := List.cons.inj heq
    rw [if_neg]
    rintro (hspace | hslash)
    · exact h.1 hspace
    · exact h.2.2 hslash

theorem stringFrom_plain_append {bs : List UInt8} (h : ∀ b ∈ bs, Plain b)
    (rest taken : List UInt8) :
    stringFrom (bs ++ rest) taken = stringFrom rest (bs.reverse ++ taken) := by
  induction bs generalizing taken with
  | nil => rfl
  | cons b bs ih =>
    rw [List.cons_append, stringFrom_plain (h b List.mem_cons_self),
      ih fun b' hb' => h b' (List.mem_cons_of_mem b hb'), List.reverse_cons, List.append_assoc]
    rfl

theorem stringFrom_short {b : UInt8} (hb : b ≠ 0x75) (h : (shortEscape? b).isSome = true)
    (rest taken : List UInt8) :
    stringFrom (0x5c :: b :: rest) taken = stringFrom rest (b :: 0x5c :: taken) := by
  rw [stringFrom.eq_def]
  split
  · rename_i heq
    cases heq
  · rename_i heq
    exact absurd (List.cons.inj heq).1 (by decide)
  · rename_i heq
    exact absurd (List.cons.inj (List.cons.inj heq).2).1 hb
  · rename_i b' rest' _ _ heq
    obtain ⟨rfl, rfl⟩ := List.cons.inj (List.cons.inj heq).2
    rw [if_pos h]
  · rename_i hno heq
    obtain ⟨rfl, rfl⟩ := List.cons.inj heq
    exact absurd rfl (hno b rest rfl)

/-- The reader takes back an escaped character, whatever follows. -/
theorem stringFrom_encodeChar (c : Char) (rest taken : List UInt8) :
    stringFrom (encodeChar c ++ rest) taken =
      stringFrom rest ((encodeChar c).reverse ++ taken) := by
  rw [encodeChar.eq_def]
  split
  iterate 7 exact stringFrom_short (by decide) (by decide) rest taken
  rename_i hquote hslash _ _ _ _ _
  split_ifs with hcontrol
  · show stringFrom (0x5c :: 0x75 :: _ :: _ :: _ :: _ :: rest) taken = _
    rw [stringFrom, hex4?_control hcontrol]
    rfl
  · exact stringFrom_plain_append (plain_utf8EncodeChar hcontrol hquote hslash) rest taken

/-- **The reader takes back an escaped text** up to its closing quote. -/
theorem stringFrom_encode (text : String) (rest : List UInt8) :
    stringFrom (encode text ++ 0x22 :: rest) [] = some (encode text, rest) := by
  have key : ∀ (cs : List Char) (taken : List UInt8),
      stringFrom (cs.flatMap encodeChar ++ 0x22 :: rest) taken =
        some (taken.reverse ++ cs.flatMap encodeChar, rest) := by
    intro cs
    induction cs with
    | nil =>
      intro taken
      simp [stringFrom]
    | cons c cs ih =>
      intro taken
      rw [List.flatMap_cons, List.append_assoc, stringFrom_encodeChar, ih]
      simp
  rw [encode, key]
  rfl

/-! ## Numbers -/

/-- The digits of a number as bytes. -/
def digits (n : Nat) : List UInt8 := (Nat.toDigits 10 n).map ascii

theorem ofNat_eq (n : Nat) : ofNat n = .number (digits n) := by
  rw [ofNat, asciiBytes, Nat.toString_eq_ofList_toDigits, String.toList_ofList]
  rfl

/-- A digit is a byte that reads back. -/
theorem digit_cases {c : Char} (h : c.isDigit = true) :
    isDigit (ascii c) = true ∧ Char.ofNat (ascii c).toNat = c := by
  obtain ⟨hlow, hhigh⟩ : 48 ≤ c.toNat ∧ c.toNat ≤ 57 := by
    simpa [Char.isDigit, UInt32.le_iff_toNat_le] using h
  have htoNat : (ascii c).toNat = c.toNat :=
    UInt8.toNat_ofNat_of_lt' (Nat.lt_of_le_of_lt hhigh (by decide))
  rw [isDigit, htoNat, Char.ofNat_toNat]
  simp [hlow, hhigh]

theorem isDigit_of_mem_digits {n : Nat} {b : UInt8} (h : b ∈ digits n) : isDigit b = true := by
  obtain ⟨c, hc, rfl⟩ := List.mem_map.mp h
  exact (digit_cases (Nat.isDigit_of_mem_toDigits (by decide) (by decide) hc)).1

theorem digitChar_ne_zero : ∀ {n : Nat}, n < 10 → 0 < n → n.digitChar ≠ '0' := by decide

/-- Only zero is written with a zero in front. -/
theorem head?_toDigits (n : Nat) (h : 0 < n) : (Nat.toDigits 10 n).head? ≠ some '0' := by
  by_cases hsmall : n < 10
  · rw [Nat.toDigits_of_lt_base hsmall, List.head?_cons]
    exact fun heq => digitChar_ne_zero hsmall h (Option.some.inj heq)
  · have hrest := head?_toDigits (n / 10) (by omega)
    rw [Nat.toDigits_of_base_le (by decide) (by omega),
      List.head?_append_of_ne_nil _ Nat.toDigits_ne_nil]
    exact hrest

theorem digits_ne_nil (n : Nat) : digits n ≠ [] := by
  rw [digits]
  exact fun h => Nat.toDigits_ne_nil (List.map_eq_nil_iff.mp h)

/-- The first of several digits is no zero. -/
theorem not_leading_zero (n : Nat) : ¬ ((digits n).length ≠ 1 ∧ (digits n).head? = some 0x30) := by
  rintro ⟨hlength, hhead⟩
  rcases Nat.eq_zero_or_pos n with rfl | hpos
  · exact hlength (by decide)
  · rw [digits, List.head?_map] at hhead
    rcases hfirst : (Nat.toDigits 10 n).head? with _ | c
    · rw [hfirst] at hhead
      cases hhead
    · rw [hfirst] at hhead
      have hmem : c ∈ Nat.toDigits 10 n := List.mem_of_head? hfirst
      have hback := (digit_cases (Nat.isDigit_of_mem_toDigits (by decide) (by decide) hmem)).2
      have hzero : ascii c = 0x30 := Option.some.inj hhead
      rw [hzero] at hback
      exact head?_toDigits n hpos (by rw [hfirst, ← hback]; rfl)

/-- **The reader takes back a number** if what follows it does not go on with it. -/
theorem number?_digits (n : Nat) {b : UInt8} (hb : b = 0x2c ∨ b = 0x7d) (rest : List UInt8) :
    number? (digits n ++ b :: rest) = some (.number (digits n), b :: rest) := by
  have hspan : (digits n ++ b :: rest).span isDigit = (digits n, b :: rest) := by
    have hstop : isDigit b = false := by
      rcases hb with rfl | rfl <;> decide
    rw [List.span_eq_takeWhile_dropWhile,
      List.takeWhile_append_of_pos (fun b' hb' => isDigit_of_mem_digits hb'),
      List.dropWhile_append_of_pos (fun b' hb' => isDigit_of_mem_digits hb')]
    simp [hstop]
  have hinteger : integer? (digits n ++ b :: rest) = some (digits n, b :: rest) := by
    obtain ⟨first, others, hdigits⟩ := List.exists_cons_of_ne_nil (digits_ne_nil n)
    have hfound : digits? (digits n ++ b :: rest) = some (digits n, b :: rest) := by
      rw [digits?, hspan, hdigits]
    rw [integer?, hfound]
    exact if_neg (not_leading_zero n)
  have hsign : ∀ rest', digits n ++ b :: rest = 0x2d :: rest' → False := by
    intro rest' heq
    obtain ⟨first, others, hdigits⟩ := List.exists_cons_of_ne_nil (digits_ne_nil n)
    have hfirst : isDigit first = true := isDigit_of_mem_digits (hdigits ▸ List.mem_cons_self)
    rw [hdigits] at heq
    rw [(List.cons.inj heq).1] at hfirst
    cases hfirst
  rw [number?]
  case x => exact hsign
  rw [hinteger]
  rcases hb with rfl | rfl
  · show some (JsonValue.number ([] ++ digits n ++ [] ++ []), _) = _
    simp
  · show some (JsonValue.number ([] ++ digits n ++ [] ++ []), _) = _
    simp

/-- Digits below the limit add up to their number. -/
theorem parseDigits_toDigits {limit : Nat} (n : Nat) (h : n < limit) :
    Decimal.parseDigits limit (Nat.toDigits 10 n) 0 = .ok n := by
  have hdigit : ∀ {m : Nat}, m < 10 → m.digitChar.isDigit = true ∧ m.digitChar.toNat - 48 = m := by
    decide
  have happend : ∀ (xs : List Char) (c : Char) (a m : Nat),
      Decimal.parseDigits limit xs a = .ok m → c.isDigit = true →
      10 * m + (c.toNat - 48) < limit →
      Decimal.parseDigits limit (xs ++ [c]) a = .ok (10 * m + (c.toNat - 48)) := by
    intro xs c
    induction xs with
    | nil =>
      intro a m hm hc hlt
      cases hm
      rw [List.nil_append, Decimal.parseDigits, if_pos hc]
      exact if_pos hlt
    | cons x xs ih =>
      intro a m hm hc hlt
      simp only [List.cons_append, Decimal.parseDigits] at hm ⊢
      by_cases hx : x.isDigit = true
      · by_cases hnext : 10 * a + (x.toNat - 48) < limit
        · rw [if_pos hx, if_pos hnext] at hm ⊢
          exact ih _ m hm hc hlt
        · rw [if_pos hx, if_neg hnext] at hm
          cases hm
      · rw [if_neg hx] at hm
        cases hm
  by_cases hsmall : n < 10
  · rw [Nat.toDigits_of_lt_base hsmall]
    have := happend [] n.digitChar 0 0 rfl (hdigit hsmall).1
    rw [(hdigit hsmall).2] at this
    simpa using this (by omega)
  · rw [Nat.toDigits_of_base_le (by decide) (by omega)]
    have hlast := hdigit (m := n % 10) (by omega)
    have := happend _ (n % 10).digitChar 0 _ (parseDigits_toDigits (n / 10) (by omega)) hlast.1
    rw [hlast.2] at this
    rw [this (by omega)]
    congr 1
    omega

/-- **A number below the limit reads back.** -/
theorem natural?_digits {limit n : Nat} (h : n < limit) :
    natural? limit (.number (digits n)) = some n := by
  have hchars : (digits n).map (fun b => Char.ofNat b.toNat) = Nat.toDigits 10 n := by
    rw [digits, List.map_map]
    refine (List.map_congr_left fun c hc => ?_).trans (List.map_id _)
    exact (digit_cases (Nat.isDigit_of_mem_toDigits (by decide) (by decide) hc)).2
  rw [natural?, hchars, parseDigits_toDigits n h]
  rfl

/-! ## Values and fields -/

theorem skipBlanks_cons {b : UInt8} (h : isBlank b = false) (rest : List UInt8) :
    skipBlanks (b :: rest) = b :: rest := by
  rw [skipBlanks, List.dropWhile_cons, h]
  rfl

theorem value?_string (fuel : Nat) (text : String) (rest : List UInt8) :
    value? (fuel + 1) (0x22 :: (encode text ++ 0x22 :: rest)) =
      some (.string (encode text), rest) := by
  rw [value?, skipBlanks_cons (by decide)]
  show (stringFrom (encode text ++ 0x22 :: rest) [] >>= fun found =>
    pure (JsonValue.string found.1, found.2)) = _
  rw [stringFrom_encode]
  rfl

theorem value?_digits (fuel n : Nat) {b : UInt8} (hb : b = 0x2c ∨ b = 0x7d)
    (rest : List UInt8) :
    value? (fuel + 1) (digits n ++ b :: rest) = some (.number (digits n), b :: rest) := by
  have hnumber := number?_digits n hb rest
  obtain ⟨first, others, hdigits⟩ := List.exists_cons_of_ne_nil (digits_ne_nil n)
  have hfirst : isDigit first = true := isDigit_of_mem_digits (hdigits ▸ List.mem_cons_self)
  have hother : ∀ {c : UInt8}, isDigit c = false → first ≠ c := by
    rintro c hc rfl
    rw [hfirst] at hc
    cases hc
  have hblank : isBlank first = false := by
    simp [isBlank, hother (c := 0x20) (by decide), hother (c := 0x0a) (by decide),
      hother (c := 0x09) (by decide), hother (c := 0x0d) (by decide)]
  rw [hdigits] at hnumber ⊢
  rw [List.cons_append] at hnumber ⊢
  rw [value?, skipBlanks_cons hblank]
  show (if _ then _ else if _ then _ else if _ then _ else if _ then _ else if _ then _ else
    if _ then _ else _ : Option (JsonValue × List UInt8)) = _
  rw [if_neg (hother (by decide)), if_neg (hother (by decide)), if_neg (hother (by decide)),
    if_neg (hother (by decide)), if_neg (hother (by decide)), if_neg (hother (by decide)), hnumber]

section Fields

variable {fuel : Nat} {text input after rest rest' : List UInt8} {value : JsonValue}
  {fields : List (List UInt8 × JsonValue)}

/-- The last field of an object, with blanks before it and before the end. -/
theorem fields?_of_end {key : String}
    (htext : skipBlanks text = 0x22 :: (encode key ++ 0x22 :: 0x3a :: input))
    (hvalue : value? fuel input = some (value, after)) (hend : skipBlanks after = 0x7d :: rest) :
    fields? (fuel + 1) text = some ([(encode key, value)], rest) := by
  have hcolon : skipBlanks (0x3a :: input) = 0x3a :: input := skipBlanks_cons (by decide) input
  rw [fields?, htext]
  simp only [stringFrom_encode, bind, Option.bind, hcolon, hvalue, hend, pure]

/-- A field before others, with blanks before it and before the comma. -/
theorem fields?_of_comma {key : String}
    (htext : skipBlanks text = 0x22 :: (encode key ++ 0x22 :: 0x3a :: input))
    (hvalue : value? fuel input = some (value, after)) (hcomma : skipBlanks after = 0x2c :: rest)
    (hrest : fields? fuel rest = some (fields, rest')) :
    fields? (fuel + 1) text = some ((encode key, value) :: fields, rest') := by
  have hcolon : skipBlanks (0x3a :: input) = 0x3a :: input := skipBlanks_cons (by decide) input
  rw [fields?, htext]
  simp only [stringFrom_encode, bind, Option.bind, hcolon, hvalue, hcomma, hrest, pure]

/-- An object of fields, with blanks before the first. -/
theorem value?_of_fields (htext : skipBlanks text = 0x22 :: input)
    (h : fields? fuel (0x22 :: input) = some (fields, rest)) :
    value? (fuel + 1) (0x7b :: text) = some (.object fields, rest) := by
  rw [value?, skipBlanks_cons (by decide)]
  have hopens : ¬ ((0x7b : UInt8) = 0x22) ∧ ¬ ((0x7b : UInt8) = 0x5b) := by decide
  simp only [htext, hopens, bind, Option.bind, pure, if_true, if_false]
  split
  · rename_i hempty
    simp at hempty
  · rw [h]

/-- The last field of an object. -/
theorem fields?_last (h : value? fuel input = some (value, 0x7d :: rest)) (key : String) :
    fields? (fuel + 1) (0x22 :: (encode key ++ 0x22 :: 0x3a :: input)) =
      some ([(encode key, value)], rest) :=
  fields?_of_end (skipBlanks_cons (by decide) _) h (skipBlanks_cons (by decide) _)

/-- A field before others. -/
theorem fields?_more (h : value? fuel input = some (value, 0x2c :: rest))
    (hrest : fields? fuel rest = some (fields, rest')) (key : String) :
    fields? (fuel + 1) (0x22 :: (encode key ++ 0x22 :: 0x3a :: input)) =
      some ((encode key, value) :: fields, rest') :=
  fields?_of_comma (skipBlanks_cons (by decide) _) h (skipBlanks_cons (by decide) _) hrest

/-- An object of fields. -/
theorem value?_object (h : fields? fuel (0x22 :: input) = some (fields, rest)) :
    value? (fuel + 1) (0x7b :: 0x22 :: input) = some (.object fields, rest) :=
  value?_of_fields (skipBlanks_cons (by decide) _) h

end Fields

end JsonValue

end BlockUpdate
