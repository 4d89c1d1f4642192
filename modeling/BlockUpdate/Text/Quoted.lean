import BlockUpdate.Text.Printable

/-!
# Quoted text

The form in which messages show text that came from an input: in double quotes, with quotes,
backslashes and unprintable characters escaped, so that the reader sees where it starts and ends.
-/

namespace BlockUpdate.Quoted

/-- The hexadecimal digits of a number, without leading zeros. -/
def hexDigits (n : Nat) : String := String.ofList (Nat.toDigits 16 n)

/-- How one character is shown. -/
def escape (c : Char) : String :=
  match c with
  | '"' => "\\\""
  | '\\' => "\\\\"
  | '\n' => "\\n"
  | '\r' => "\\r"
  | '\t' => "\\t"
  | '\x00' => "\\0"
  | _ =>
    if Printable.isHidden c then "\\u\x7b" ++ hexDigits c.toNat ++ "\x7d" else String.singleton c

/-- A text in quotes. -/
def encode (text : String) : String :=
  "\"" ++ String.join (text.toList.map escape) ++ "\""

/-- A character in single quotes. -/
def encodeChar (c : Char) : String :=
  "'" ++ (if c = '"' then "\"" else if c = '\'' then "\\'" else escape c) ++ "'"

end BlockUpdate.Quoted
