import BlockUpdate.Text.Decimal
import BlockUpdate.Text.Json.Escape

/-!
# JSON values

Numbers and strings are kept as they are written and decoded only where their value is wanted: a
malformed text in a field that nobody reads does no harm.

- `JsonValue.text?`, `natural?`, `bool?`: the values of single tokens.
- `JsonValue.entries?`: the keys and values of a map.
- `JsonValue.record?`: the fields of a record, by name or by position.
- `JsonValue.compact`, `JsonValue.pretty`: the two written forms.
-/

namespace BlockUpdate

/-- A JSON value. -/
inductive JsonValue
  | null
  | bool (b : Bool)
  /-- A number as it is written. -/
  | number (written : List UInt8)
  /-- A string by what stands between its quotes. -/
  | string (escaped : List UInt8)
  | array (items : List JsonValue)
  | object (fields : List (List UInt8 × JsonValue))

namespace JsonValue

/-! ## Making values -/

/-- A string. -/
def ofText (text : String) : JsonValue := .string (JsonText.encode text)

/-- The bytes of an ASCII text. -/
def asciiBytes (text : String) : List UInt8 := text.toList.map JsonText.ascii

/-- A natural number. -/
def ofNat (n : Nat) : JsonValue := .number (asciiBytes (toString n))

/-- An object. -/
def ofFields (fields : List (String × JsonValue)) : JsonValue :=
  .object (fields.map fun (key, value) => (JsonText.encode key, value))

/-! ## Decoding values -/

/-- The text of a string. -/
def text? : JsonValue → Option String
  | .string escaped => JsonText.decode escaped
  | _ => none

/-- A number below a limit that is written with digits alone. -/
def natural? (limit : Nat) : JsonValue → Option Nat
  | .number written =>
    (Decimal.parseDigits limit (written.map fun b => Char.ofNat b.toNat) 0).toOption
  | _ => none

def bool? : JsonValue → Option Bool
  | .bool b => some b
  | _ => none

/-- The keys and values of an object, in order. -/
def entries? : JsonValue → Option (List (String × JsonValue))
  | .object fields => fields.mapM fun (key, value) => do return (← JsonText.decode key, value)
  | _ => none

/-- The only value of a key. -/
def field? (entries : List (String × JsonValue)) (name : String) : Option JsonValue :=
  match entries.filter (·.1 == name) with
  | [(_, value)] => some value
  | _ => none

/-- The values of a record's fields. An object has each of them once, and perhaps others that are
passed over; an array has just these, in order. -/
def record? (names : List String) : JsonValue → Option (List JsonValue)
  | .array items => if items.length = names.length then some items else none
  | .object fields => do
    let entries ← entries? (.object fields)
    names.mapM (field? entries)
  | _ => none

/-! ## Writing values -/

/-- A string in quotes. -/
def quoted (escaped : List UInt8) : List UInt8 :=
  JsonText.ascii '"' :: escaped ++ [JsonText.ascii '"']

/-- Texts with a separator between them. -/
def separated (separator : List UInt8) (parts : List (List UInt8)) : List UInt8 :=
  separator.intercalate parts

mutual

/-- The form without blanks. -/
def compact : JsonValue → List UInt8
  | .null => asciiBytes "null"
  | .bool b => asciiBytes (toString b)
  | .number written => written
  | .string escaped => quoted escaped
  | .array items =>
    asciiBytes "[" ++ separated (asciiBytes ",") (compactItems items) ++ asciiBytes "]"
  | .object fields =>
    asciiBytes "\x7b" ++ separated (asciiBytes ",") (compactFields fields) ++ asciiBytes "\x7d"

/-- The forms of items. -/
def compactItems : List JsonValue → List (List UInt8)
  | [] => []
  | item :: rest => compact item :: compactItems rest

/-- The forms of keys and values. -/
def compactFields : List (List UInt8 × JsonValue) → List (List UInt8)
  | [] => []
  | (key, value) :: rest => (quoted key ++ asciiBytes ":" ++ compact value) :: compactFields rest

end

/-- A line end and the indentation of a depth. -/
def newLine (depth : Nat) : List UInt8 := asciiBytes "\n" ++ List.replicate (2 * depth) 0x20

/-- Parts between brackets, each on a line of its own. -/
def block (depth : Nat) (before after : String) (parts : List (List UInt8)) : List UInt8 :=
  if parts.isEmpty then asciiBytes before ++ asciiBytes after
  else
    asciiBytes before ++ newLine (depth + 1) ++
      separated (asciiBytes "," ++ newLine (depth + 1)) parts ++ newLine depth ++ asciiBytes after

mutual

/-- The form with one item or field a line, at a depth. -/
def prettyAt (depth : Nat) : JsonValue → List UInt8
  | .array items => block depth "[" "]" (prettyItems (depth + 1) items)
  | .object fields => block depth "\x7b" "\x7d" (prettyFields (depth + 1) fields)
  | .null => asciiBytes "null"
  | .bool b => asciiBytes (toString b)
  | .number written => written
  | .string escaped => quoted escaped

/-- The forms of items. -/
def prettyItems (depth : Nat) : List JsonValue → List (List UInt8)
  | [] => []
  | item :: rest => prettyAt depth item :: prettyItems depth rest

/-- The forms of keys and values. -/
def prettyFields (depth : Nat) : List (List UInt8 × JsonValue) → List (List UInt8)
  | [] => []
  | (key, value) :: rest =>
    (quoted key ++ asciiBytes ": " ++ prettyAt depth value) :: prettyFields depth rest

end

/-- The form with one item or field a line. -/
def pretty (value : JsonValue) : List UInt8 := prettyAt 0 value

end JsonValue

end BlockUpdate
