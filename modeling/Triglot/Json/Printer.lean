import Triglot.Json.Basic
import Triglot.Text.Shown

/-! The two written forms of a value: on one line without blanks, and over lines with an indentation
of two. -/
namespace Triglot.Json

/-- Characters below the space are escaped, the usual ones by letter. -/
def escapeChar (c : Char) : List Char :=
  if c = '"' then ['\\', '"']
  else if c = '\\' then ['\\', '\\']
  else if c = '\n' then ['\\', 'n']
  else if c = '\r' then ['\\', 'r']
  else if c = '\t' then ['\\', 't']
  else if c = '\x08' then ['\\', 'b']
  else if c = '\x0c' then ['\\', 'f']
  else if c.toNat < 32 then
    ['\\', 'u', '0', '0', Text.hexDigit (c.toNat / 16), Text.hexDigit (c.toNat % 16)]
  else [c]

def quoted (s : String) : String :=
  String.ofList ('"' :: s.toList.flatMap escapeChar ++ ['"'])

def numberText : JsonNumber → String
  | .whole n => toString n
  | .real x => NumberLayout.signed.render x

mutual

/-- The text on one line. -/
def compact : Json → String
  | .null => "null"
  | .bool true => "true"
  | .bool false => "false"
  | .number n => numberText n
  | .string s => quoted s
  | .array items => "[" ++ compactItems items ++ "]"
  | .object entries => "\x7b" ++ compactEntries entries ++ "\x7d"

def compactItems : List Json → String
  | [] => ""
  | [v] => compact v
  | v :: vs => compact v ++ "," ++ compactItems vs

def compactEntries : List (String × Json) → String
  | [] => ""
  | [(k, v)] => quoted k ++ ":" ++ compact v
  | (k, v) :: es => quoted k ++ ":" ++ compact v ++ "," ++ compactEntries es

end

def indentation (level : Nat) : String := String.ofList (List.replicate (2 * level) ' ')

mutual

/-- The text over lines, for a value that starts on a line of the given level. -/
def prettyAt (level : Nat) : Json → String
  | .array [] => "[]"
  | .array (v :: vs) =>
    "[\n" ++ prettyItems (level + 1) (v :: vs) ++ "\n" ++ indentation level ++ "]"
  | .object [] => "\x7b\x7d"
  | .object (e :: es) =>
    "\x7b\n" ++ prettyEntries (level + 1) (e :: es) ++ "\n" ++ indentation level ++ "\x7d"
  | .null => "null"
  | .bool true => "true"
  | .bool false => "false"
  | .number n => numberText n
  | .string s => quoted s

def prettyItems (level : Nat) : List Json → String
  | [] => ""
  | [v] => indentation level ++ prettyAt level v
  | v :: vs => indentation level ++ prettyAt level v ++ ",\n" ++ prettyItems level vs

def prettyEntries (level : Nat) : List (String × Json) → String
  | [] => ""
  | [(k, v)] => indentation level ++ quoted k ++ ": " ++ prettyAt level v
  | (k, v) :: es =>
    indentation level ++ quoted k ++ ": " ++ prettyAt level v ++ ",\n" ++ prettyEntries level es

end

def pretty (v : Json) : String := prettyAt 0 v

end Triglot.Json
