import BlockUpdate.Proofs.JsonText

/-!
# Documents that are cut off

The reader goes through its input from the front and never looks back, so what it has taken stays
taken when more input follows. Only a number can go on where the input ended; strings, arrays and
objects bring their own end. A document that ends with a closing brace can therefore not be cut
short: what is left of it is no document.

- `JsonValue.stringFrom_append`, `number?_append`: strings and numbers with more behind them.
- `JsonValue.Extends`, **`JsonValue.extends_of`**: the same of values, items and fields.
- **`JsonValue.parse_eq_none_of_cut`**: an object that fills its document cannot be read from a
  shorter one.
-/

namespace BlockUpdate.JsonValue

variable {input behind rest more taken found : List UInt8} {value : JsonValue} {b : UInt8}

/-! ## Tokens -/

theorem skipBlanks_more (h : skipBlanks input = b :: rest) (more : List UInt8) :
    skipBlanks (input ++ more) = b :: (rest ++ more) := by
  rw [skipBlanks, List.dropWhile_append, ← skipBlanks, h]
  rfl

theorem word?_append {word : String} (h : word? word input = some rest) (more : List UInt8) :
    word? word (input ++ more) = some (rest ++ more) := by
  unfold word? at h ⊢
  dsimp only at h ⊢
  split_ifs at h with hfound
  obtain ⟨tail, rfl⟩ := List.isPrefixOf_iff_prefix.mp hfound
  obtain rfl := Option.some.inj h
  rw [List.append_assoc, if_pos (List.isPrefixOf_iff_prefix.mpr ⟨tail ++ more, rfl⟩)]
  simp

/-- **A string** ends with its quote, whatever follows. -/
theorem stringFrom_append (h : stringFrom input taken = some (found, rest)) (more : List UInt8) :
    stringFrom (input ++ more) taken = some (found, rest ++ more) := by
  fun_induction stringFrom input taken with
  | case1 => cases h
  | case2 rest' taken =>
    obtain ⟨rfl, rfl⟩ := Prod.mk.inj (Option.some.inj h)
    rw [List.cons_append, stringFrom]
  | case3 a b c d rest' taken hhex ih =>
    simp only [List.cons_append]
    rw [stringFrom, if_pos hhex]
    exact ih h
  | case4 => cases h
  | case5 b rest' taken _ hshort ih =>
    have hb : b ≠ 0x75 := by
      rintro rfl
      exact absurd hshort (by decide)
    simp only [List.cons_append]
    rw [stringFrom_short hb hshort]
    exact ih h
  | case6 => cases h
  | case7 => cases h
  | case8 b rest' taken hquote _ _ hplain ih =>
    rw [not_or] at hplain
    rw [List.cons_append, stringFrom_plain ⟨hplain.1, hquote, hplain.2⟩]
    exact ih h

/-! ## Numbers -/

theorem span_append {p : UInt8 → Bool} (h : input.span p = (found, rest)) (hrest : rest ≠ [])
    (more : List UInt8) : (input ++ more).span p = (found, rest ++ more) := by
  rw [List.span_eq_takeWhile_dropWhile] at h ⊢
  obtain ⟨rfl, rfl⟩ := Prod.mk.inj h
  have hsplit := List.takeWhile_append_dropWhile (p := p) (l := input)
  have hshort : (input.takeWhile p).length ≠ input.length := by
    intro hall
    have hlength := congrArg List.length hsplit
    rw [List.length_append, hall] at hlength
    exact hrest (List.length_eq_zero_iff.mp (by omega))
  rw [List.takeWhile_append, if_neg hshort, List.dropWhile_append, if_neg (by simpa using hrest)]

theorem digits?_append (h : digits? input = some (found, rest)) (hrest : rest ≠ [])
    (more : List UInt8) : digits? (input ++ more) = some (found, rest ++ more) := by
  unfold digits? at h ⊢
  rcases hspan : input.span isDigit with ⟨digits, behind⟩
  rw [hspan] at h
  cases digits with
  | nil => cases h
  | cons digit digits =>
    obtain ⟨rfl, rfl⟩ := Prod.mk.inj (Option.some.inj h)
    rw [span_append hspan hrest]

theorem integer?_append (h : integer? input = some (found, rest)) (hrest : rest ≠ [])
    (more : List UInt8) : integer? (input ++ more) = some (found, rest ++ more) := by
  unfold integer? at h ⊢
  obtain ⟨⟨digits, behind⟩, hdigits, h⟩ := Option.bind_eq_some_iff.mp h
  dsimp only at h
  split_ifs at h with hzero
  · cases h
  · obtain ⟨rfl, rfl⟩ := Prod.mk.inj (Option.some.inj h)
    rw [digits?_append hdigits hrest]
    exact if_neg hzero

theorem fraction?_append (h : fraction? input = some (found, rest)) (hrest : rest ≠ [])
    (more : List UInt8) :
    fraction? (input ++ more) = some (found, rest ++ more) ∧ input ≠ [] := by
  unfold fraction? at h
  split at h
  · rename_i behind
    obtain ⟨⟨digits, behind'⟩, hdigits, h⟩ := Option.bind_eq_some_iff.mp h
    obtain ⟨rfl, rfl⟩ := Prod.mk.inj (Option.some.inj h)
    refine ⟨?_, List.cons_ne_nil _ _⟩
    rw [List.cons_append, fraction?, digits?_append hdigits hrest]
    rfl
  · rename_i hpoint
    obtain ⟨rfl, rfl⟩ := Prod.mk.inj (Option.some.inj h)
    refine ⟨?_, hrest⟩
    obtain ⟨first, others, rfl⟩ := List.exists_cons_of_ne_nil hrest
    rw [List.cons_append, fraction?]
    rintro others' heq
    exact hpoint others (by rw [(List.cons.inj heq).1])

theorem exponent?_signed {e c : UInt8} (he : e = 0x65 ∨ e = 0x45) (hc : c = 0x2b ∨ c = 0x2d)
    (rest : List UInt8) :
    exponent? (e :: c :: rest) = (digits? rest).map fun d => (e :: c :: d.1, d.2) := by
  rcases hc with rfl | rfl <;>
  · simp only [exponent?, if_pos he, List.cons_append, List.nil_append]
    rcases digits? rest with _ | ⟨digits, behind⟩ <;> rfl

theorem exponent?_unsigned {e c : UInt8} (he : e = 0x65 ∨ e = 0x45) (hplus : c ≠ 0x2b)
    (hminus : c ≠ 0x2d) (rest : List UInt8) :
    exponent? (e :: c :: rest) = (digits? (c :: rest)).map fun d => (e :: d.1, d.2) := by
  simp only [exponent?, if_pos he]
  split
  · rename_i heq
    exact absurd (List.cons.inj heq).1 hplus
  · rename_i heq
    exact absurd (List.cons.inj heq).1 hminus
  · rcases digits? (c :: rest) with _ | ⟨digits, behind⟩ <;> rfl

/-- Digits that are not all of what was read. -/
theorem map_digits?_append (f : List UInt8 → List UInt8)
    (h : ((digits? input).map fun d => (f d.1, d.2)) = some (found, rest)) (hrest : rest ≠ [])
    (more : List UInt8) :
    ((digits? (input ++ more)).map fun d => (f d.1, d.2)) = some (found, rest ++ more) := by
  obtain ⟨⟨digits, _⟩, hdigits, hfound⟩ := Option.map_eq_some_iff.mp h
  obtain ⟨rfl, rfl⟩ := Prod.mk.inj hfound
  rw [digits?_append hdigits hrest]
  rfl

theorem exponent?_append (h : exponent? input = some (found, rest)) (hrest : rest ≠ [])
    (more : List UInt8) :
    exponent? (input ++ more) = some (found, rest ++ more) ∧ input ≠ [] := by
  match input, h with
  | [], h =>
    obtain ⟨rfl, rfl⟩ := Prod.mk.inj (Option.some.inj h)
    exact absurd rfl hrest
  | e :: behind, h =>
    refine ⟨?_, List.cons_ne_nil _ _⟩
    by_cases he : e = 0x65 ∨ e = 0x45
    · match behind, h with
      | [], h =>
        simp only [exponent?, if_pos he] at h
        cases h
      | c :: behind, h =>
        -- the sign is taken before the digits, which alone decide where the number ends
        by_cases hc : c = 0x2b ∨ c = 0x2d
        · rw [exponent?_signed he hc] at h
          rw [List.cons_append, List.cons_append, exponent?_signed he hc]
          exact map_digits?_append (e :: c :: ·) h hrest more
        · rw [not_or] at hc
          rw [exponent?_unsigned he hc.1 hc.2] at h
          rw [List.cons_append, List.cons_append, exponent?_unsigned he hc.1 hc.2]
          exact map_digits?_append (e :: ·) h hrest more
    · simp only [List.cons_append, exponent?, if_neg he] at h ⊢
      obtain ⟨rfl, rfl⟩ := Prod.mk.inj (Option.some.inj h)
      rfl

/-- The parts of a number behind its sign. -/
def magnitude? (sign input : List UInt8) : Option (JsonValue × List UInt8) := do
  let (integer, rest) ← integer? input
  let (fraction, rest) ← fraction? rest
  let (exponent, rest) ← exponent? rest
  return (.number (sign ++ integer ++ fraction ++ exponent), rest)

theorem number?_unsigned {c : UInt8} (hminus : c ≠ 0x2d) (rest : List UInt8) :
    number? (c :: rest) = magnitude? [] (c :: rest) := by
  unfold number?
  split
  rename_i heq
  split at heq
  · rename_i hfirst
    exact absurd (List.cons.inj hfirst).1 hminus
  · obtain ⟨rfl, rfl⟩ := Prod.mk.inj heq
    rfl

theorem magnitude?_append {sign : List UInt8} (h : magnitude? sign input = some (value, rest))
    (hrest : rest ≠ []) (more : List UInt8) :
    magnitude? sign (input ++ more) = some (value, rest ++ more) := by
  unfold magnitude? at h ⊢
  obtain ⟨⟨integer, behind⟩, hinteger, h⟩ := Option.bind_eq_some_iff.mp h
  obtain ⟨⟨fraction, behind'⟩, hfraction, h⟩ := Option.bind_eq_some_iff.mp h
  obtain ⟨⟨exponent, behind''⟩, hexponent, h⟩ := Option.bind_eq_some_iff.mp h
  obtain ⟨rfl, rfl⟩ := Prod.mk.inj (Option.some.inj h)
  -- each part has input left behind it, because the part after it does
  obtain ⟨hexponent, hleft⟩ := exponent?_append hexponent hrest more
  obtain ⟨hfraction, hleft'⟩ := fraction?_append hfraction hleft more
  rw [integer?_append hinteger hleft' more]
  simp only [hfraction, hexponent, bind, Option.bind, pure]

/-- **A number** that ends before the input does ends there whatever follows. -/
theorem number?_append (h : number? input = some (value, rest)) (hrest : rest ≠ [])
    (more : List UInt8) : number? (input ++ more) = some (value, rest ++ more) := by
  cases input with
  | nil => cases h
  | cons c behind =>
    rw [List.cons_append]
    by_cases hminus : c = 0x2d
    · subst hminus
      exact magnitude?_append h hrest more
    · rw [number?_unsigned hminus] at h ⊢
      exact magnitude?_append h hrest more

/-! ## Values -/

/-- What a reader with some fuel takes from an input it takes from a longer one as well. A value
needs its end in sight: bytes behind it, or its own closing brace. -/
structure Extends (fuel : Nat) : Prop where
  value : ∀ {fuel'} {input rest : List UInt8} {value : JsonValue}, fuel ≤ fuel' →
    value? fuel input = some (value, rest) →
    (rest ≠ [] ∨ ∃ inner, skipBlanks input = 0x7b :: inner) →
    ∀ more, value? fuel' (input ++ more) = some (value, rest ++ more)
  items : ∀ {fuel'} {input rest : List UInt8} {items : List JsonValue}, fuel ≤ fuel' →
    items? fuel input = some (items, rest) →
    ∀ more, items? fuel' (input ++ more) = some (items, rest ++ more)
  fields : ∀ {fuel'} {input rest : List UInt8} {fields : List (List UInt8 × JsonValue)},
    fuel ≤ fuel' → fields? fuel input = some (fields, rest) →
    ∀ more, fields? fuel' (input ++ more) = some (fields, rest ++ more)

theorem extends_zero : Extends 0 where
  value := fun _ h _ _ => by simp [value?] at h
  items := fun _ h _ => by simp [items?] at h
  fields := fun _ h _ => by simp [fields?] at h

theorem ne_nil_of_skipBlanks (h : skipBlanks rest = b :: found) : rest ≠ [] := by
  rintro rfl
  cases h

theorem value?_nil (fuel : Nat) : value? fuel [] = none := by
  cases fuel with
  | zero => rw [value?]
  | succ fuel => rw [value?, skipBlanks, List.dropWhile_nil]

theorem items?_nil (fuel : Nat) : items? fuel [] = none := by
  cases fuel with
  | zero => rw [items?]
  | succ fuel =>
    rw [items?, value?_nil]
    rfl

theorem fields?_nil (fuel : Nat) : fields? fuel [] = none := by
  cases fuel with
  | zero => rw [fields?]
  | succ fuel =>
    rw [fields?]
    rfl

section Step

variable {fuel fuel' : Nat}

/-- What a value that opens with a bracket is read as, by what stands behind the bracket. -/
theorem value?_array (h : skipBlanks input = 0x5b :: behind) (fuel : Nat) :
    value? (fuel + 1) input =
      match skipBlanks behind with
      | 0x5d :: rest => some (.array [], rest)
      | inner => do
        let (items, rest) ← items? fuel inner
        return (.array items, rest) := by
  rw [value?, h]
  rfl

/-- The same of a brace. -/
theorem value?_brace (h : skipBlanks input = 0x7b :: behind) (fuel : Nat) :
    value? (fuel + 1) input =
      match skipBlanks behind with
      | 0x7d :: rest => some (.object [], rest)
      | inner => do
        let (fields, rest) ← fields? fuel inner
        return (.object fields, rest) := by
  rw [value?, h]
  rfl

theorem Extends.array_succ (hfuel : Extends fuel) (hle : fuel ≤ fuel')
    (hskip : skipBlanks input = 0x5b :: behind)
    (h : value? (fuel + 1) input = some (value, rest)) (more : List UInt8) :
    value? (fuel' + 1) (input ++ more) = some (value, rest ++ more) := by
  rw [value?_array hskip] at h
  rw [value?_array (skipBlanks_more hskip more)]
  split at h
  · rename_i hclose
    obtain ⟨rfl, rfl⟩ := Prod.mk.inj (Option.some.inj h)
    rw [skipBlanks_more hclose]
    rfl
  · rename_i hopen
    obtain ⟨⟨items, _⟩, hitems, h⟩ := Option.bind_eq_some_iff.mp h
    obtain ⟨rfl, rfl⟩ := Prod.mk.inj (Option.some.inj h)
    cases hfirst : skipBlanks behind with
    | nil =>
      rw [hfirst, items?_nil] at hitems
      cases hitems
    | cons c others =>
      rw [hfirst] at hitems hopen
      have hmore := hfuel.items hle hitems more
      rw [skipBlanks_more hfirst]
      split
      · rename_i heq
        exact absurd (by rw [(List.cons.inj heq).1]) (hopen others)
      · rw [← List.cons_append, hmore]
        rfl

theorem Extends.object_succ (hfuel : Extends fuel) (hle : fuel ≤ fuel')
    (hskip : skipBlanks input = 0x7b :: behind)
    (h : value? (fuel + 1) input = some (value, rest)) (more : List UInt8) :
    value? (fuel' + 1) (input ++ more) = some (value, rest ++ more) := by
  rw [value?_brace hskip] at h
  rw [value?_brace (skipBlanks_more hskip more)]
  split at h
  · rename_i hclose
    obtain ⟨rfl, rfl⟩ := Prod.mk.inj (Option.some.inj h)
    rw [skipBlanks_more hclose]
    rfl
  · rename_i hopen
    obtain ⟨⟨fields, _⟩, hfields, h⟩ := Option.bind_eq_some_iff.mp h
    obtain ⟨rfl, rfl⟩ := Prod.mk.inj (Option.some.inj h)
    cases hfirst : skipBlanks behind with
    | nil =>
      rw [hfirst, fields?_nil] at hfields
      cases hfields
    | cons c others =>
      rw [hfirst] at hfields hopen
      have hmore := hfuel.fields hle hfields more
      rw [skipBlanks_more hfirst]
      split
      · rename_i heq
        exact absurd (by rw [(List.cons.inj heq).1]) (hopen others)
      · rw [← List.cons_append, hmore]
        rfl

/-- A value goes by its first byte. -/
theorem Extends.value_succ (hfuel : Extends fuel) (hle : fuel ≤ fuel')
    (h : value? (fuel + 1) input = some (value, rest))
    (hend : rest ≠ [] ∨ ∃ inner, skipBlanks input = 0x7b :: inner) (more : List UInt8) :
    value? (fuel' + 1) (input ++ more) = some (value, rest ++ more) := by
  cases hskip : skipBlanks input with
  | nil =>
    rw [value?, hskip] at h
    cases h
  | cons b behind =>
    by_cases hbracket : b = 0x5b
    · exact hfuel.array_succ hle (hbracket ▸ hskip) h more
    by_cases hbrace : b = 0x7b
    · exact hfuel.object_succ hle (hbrace ▸ hskip) h more
    have hrest : rest ≠ [] := by
      rcases hend with hrest | ⟨inner, heq⟩
      · exact hrest
      · exact absurd (List.cons.inj (hskip.symm.trans heq)).1 hbrace
    rw [value?, hskip] at h
    rw [value?, skipBlanks_more hskip]
    simp only [if_neg hbracket, if_neg hbrace] at h ⊢
    split_ifs at h ⊢ with hquote hnull htrue hfalse
    · obtain ⟨⟨escaped, _⟩, hstring, h⟩ := Option.bind_eq_some_iff.mp h
      obtain ⟨rfl, rfl⟩ := Prod.mk.inj (Option.some.inj h)
      simp only [stringFrom_append hstring more, bind, Option.bind, pure]
    iterate 3
      obtain ⟨_, hword, h⟩ := Option.bind_eq_some_iff.mp h
      obtain ⟨rfl, rfl⟩ := Prod.mk.inj (Option.some.inj h)
      rw [← List.cons_append, word?_append hword]
      rfl
    exact number?_append h hrest more

theorem Extends.items_succ (hfuel : Extends fuel) (hle : fuel ≤ fuel') {items : List JsonValue}
    (h : items? (fuel + 1) input = some (items, rest)) (more : List UInt8) :
    items? (fuel' + 1) (input ++ more) = some (items, rest ++ more) := by
  rw [items?] at h ⊢
  obtain ⟨⟨item, behind⟩, hitem, h⟩ := Option.bind_eq_some_iff.mp h
  dsimp only at h
  split at h
  · rename_i hskip
    obtain ⟨rfl, rfl⟩ := Prod.mk.inj (Option.some.inj h)
    have hitem' := hfuel.value hle hitem (.inl (ne_nil_of_skipBlanks hskip)) more
    simp only [hitem', skipBlanks_more hskip, bind, Option.bind, pure]
  · rename_i hskip
    obtain ⟨⟨others, _⟩, hothers, h⟩ := Option.bind_eq_some_iff.mp h
    obtain ⟨rfl, rfl⟩ := Prod.mk.inj (Option.some.inj h)
    have hitem' := hfuel.value hle hitem (.inl (ne_nil_of_skipBlanks hskip)) more
    simp only [hitem', skipBlanks_more hskip, hfuel.items hle hothers more, bind, Option.bind,
      pure]
  · cases h

theorem Extends.fields_succ (hfuel : Extends fuel) (hle : fuel ≤ fuel')
    {fields : List (List UInt8 × JsonValue)}
    (h : fields? (fuel + 1) input = some (fields, rest)) (more : List UInt8) :
    fields? (fuel' + 1) (input ++ more) = some (fields, rest ++ more) := by
  rw [fields?] at h ⊢
  split at h
  · rename_i hquote
    obtain ⟨⟨key, behind⟩, hkey, h⟩ := Option.bind_eq_some_iff.mp h
    dsimp only at h
    split at h
    · rename_i hcolon
      obtain ⟨⟨item, behind'⟩, hitem, h⟩ := Option.bind_eq_some_iff.mp h
      dsimp only at h
      simp only [skipBlanks_more hquote, stringFrom_append hkey more, skipBlanks_more hcolon, bind,
        Option.bind]
      -- a value in an object has a comma or a brace behind it
      split at h
      · rename_i hskip
        obtain ⟨rfl, rfl⟩ := Prod.mk.inj (Option.some.inj h)
        have hitem' := hfuel.value hle hitem (.inl (ne_nil_of_skipBlanks hskip)) more
        simp only [hitem', skipBlanks_more hskip, pure]
      · rename_i hskip
        obtain ⟨⟨others, _⟩, hothers, h⟩ := Option.bind_eq_some_iff.mp h
        obtain ⟨rfl, rfl⟩ := Prod.mk.inj (Option.some.inj h)
        have hitem' := hfuel.value hle hitem (.inl (ne_nil_of_skipBlanks hskip)) more
        simp only [hitem', skipBlanks_more hskip, hfuel.fields hle hothers more, pure]
      · cases h
    · cases h
  · cases h

end Step

theorem extends_of (fuel : Nat) : Extends fuel := by
  induction fuel with
  | zero => exact extends_zero
  | succ fuel ih =>
    constructor
    · intro fuel' _ _ _ hle
      obtain ⟨fuel', rfl⟩ := Nat.exists_eq_add_of_lt hle
      exact ih.value_succ (Nat.le_add_right fuel fuel')
    · intro fuel' _ _ _ hle
      obtain ⟨fuel', rfl⟩ := Nat.exists_eq_add_of_lt hle
      exact ih.items_succ (Nat.le_add_right fuel fuel')
    · intro fuel' _ _ _ hle
      obtain ⟨fuel', rfl⟩ := Nat.exists_eq_add_of_lt hle
      exact ih.fields_succ (Nat.le_add_right fuel fuel')

/-! ## Documents -/

/-- **A document that is an object and no more cannot be read once it is cut off.** -/
theorem parse_eq_none_of_cut {data : Bytes} {n : Nat} (hdata : data.data.toList = 0x7b :: input)
    (hwhole : ∀ fuel, n ≤ fuel → value? fuel (data.data.toList ++ more) = some (value, []))
    (hmore : more ≠ []) : parse data = none := by
  rw [parse]
  refine Option.bind_eq_none_iff.mpr ?_
  rintro ⟨found, rest⟩ hfound
  -- what was found in the part would be found in the whole, with the end that was cut off left over
  have hall := (extends_of _).value (Nat.le_max_left _ n) hfound
    (.inr ⟨input, by rw [hdata]; exact skipBlanks_cons (by decide) input⟩) more
  have heq := hall.symm.trans (hwhole _ (Nat.le_max_right _ n))
  exact absurd (List.append_eq_nil_iff.mp (Prod.mk.inj (Option.some.inj heq)).2).2 hmore

end BlockUpdate.JsonValue
