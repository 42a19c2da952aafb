import Triglot.Text.Basic
import Triglot.Text.VisibleTable

/-! How a message shows a character or a text inside quotes: the quote, the backslash and whatever
has no visible form are written as escapes. -/
namespace Triglot.Text

def hexDigit (n : Nat) : Char :=
  if n < 10 then Char.ofNat (48 + n) else Char.ofNat (87 + n)

/-- Lower-case hexadecimal digits without leading zeros. -/
def hexDigits (n : Nat) : List Char :=
  if n < 16 then [hexDigit n] else hexDigits (n / 16) ++ [hexDigit (n % 16)]
termination_by n

/-- One character between quotes `quote`. -/
def shownChar (quote c : Char) : List Char :=
  if c = '\x00' then ['\\', '0']
  else if c = '\t' then ['\\', 't']
  else if c = '\r' then ['\\', 'r']
  else if c = '\n' then ['\\', 'n']
  else if c = '\\' || c = quote then ['\\', c]
  else if inRanges graphemeExtendRanges c || inRanges invisibleRanges c then
    ['\\', 'u', '\x7b'] ++ hexDigits c.toNat ++ ['\x7d']
  else [c]

/-- A text in double quotes. -/
def shown (s : String) : String :=
  String.ofList ('"' :: s.toList.flatMap (shownChar '"') ++ ['"'])

/-- A character in single quotes. -/
def shownQuote (c : Char) : String :=
  String.ofList ('\'' :: shownChar '\'' c ++ ['\''])

end Triglot.Text
