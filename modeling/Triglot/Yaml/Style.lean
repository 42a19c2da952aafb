import Triglot.Text.Shown
import Triglot.Yaml.Plain

/-! The style in which a text is written: without quotes if it reads back as itself, else in the
plainest form that holds all of its characters. -/
namespace Triglot.Yaml

def isBreak (c : Char) : Bool :=
  c = '\n' || c = '\r' || c = '\u0085' || c = '\u2028' || c = '\u2029'

/-- A blank, a break or the end of the text. -/
def endsWord (c : Option Char) : Bool :=
  match c with
  | none => true
  | some c => c = ' ' || c = '\t' || c = '\x00' || isBreak c

/-- Characters that are written as they are. -/
def isPrintable (c : Char) : Bool :=
  let n := c.toNat
  n = 0x0A || (0x20 ≤ n && n ≤ 0x7E) || (0xA0 ≤ n && n ≤ 0xD7FF) ||
    (0xE000 ≤ n && n ≤ 0xFFFD && n != 0xFEFF) || 0x10000 ≤ n

inductive Style where
  | plain
  | single
  | double
  | literal
deriving DecidableEq, Repr

namespace Style

/-- Whether two neighbours satisfy a relation. -/
def anyPair (p : Char → Char → Bool) : List Char → Bool
  | a :: b :: rest => p a b || anyPair p (b :: rest)
  | _ => false

def opensIndicator (cs : List Char) : Bool :=
  match cs with
  | [] => false
  | c :: rest =>
    "#,[]\x7b\x7d&*!|>'\"%@`".toList.contains c ||
      (['?', ':', '-'].contains c && endsWord rest.head?)

/-- A colon before the end of a word, or a number sign after a blank. -/
def hasInnerIndicator : List Char → Bool
  | a :: b :: rest =>
    (b = ':' && endsWord rest.head?) || (b = '#' && endsWord (some a)) ||
      hasInnerIndicator (b :: rest)
  | _ => false

def opensMarker (cs : List Char) : Bool :=
  cs.take 3 == ['-', '-', '-'] || cs.take 3 == ['.', '.', '.']

def spaceBreak (cs : List Char) : Bool := anyPair (fun a b => a = ' ' && isBreak b) cs

def breakSpace (cs : List Char) : Bool := anyPair (fun a b => isBreak a && b = ' ') cs

def allowsPlain (cs : List Char) : Bool :=
  cs.head? != some ' ' && cs.getLast? != some ' ' && !cs.any isBreak && cs.all isPrintable &&
    !opensMarker cs && !opensIndicator cs && !hasInnerIndicator cs

def allowsSingle (cs : List Char) : Bool :=
  !breakSpace cs && !spaceBreak cs && cs.all isPrintable

def allowsLiteral (cs : List Char) : Bool :=
  cs.getLast? != some ' ' && !spaceBreak cs && cs.all isPrintable

/-- Whether a text without quotes would be read as something else. -/
def needsQuotes (s : String) : Bool :=
  Plain.read s != .text || Plain.hasLeadingZero s.toList

/-- The style of a text. -/
def of (s : String) : Style :=
  let cs := s.toList
  if cs.contains '\n' then
    if allowsLiteral cs then .literal else .double
  else if !needsQuotes s && allowsPlain cs then .plain
  else if allowsSingle cs then .single
  else .double

end Style

/-- The escape of a character between double quotes. -/
def escapeChar (c : Char) : List Char :=
  let letters : List (Char × Char) :=
    [('\x00', '0'), ('\x07', 'a'), ('\x08', 'b'), ('\t', 't'), ('\n', 'n'), ('\x0b', 'v'),
     ('\x0c', 'f'), ('\r', 'r'), ('\x1b', 'e'), ('"', '"'), ('\\', '\\'), ('\u0085', 'N'),
     ('\u00a0', '_'), ('\u2028', 'L'), ('\u2029', 'P')]
  let padded (width : Nat) : List Char :=
    let digits := (Nat.toDigits 16 c.toNat).map Char.toUpper
    List.replicate (width - digits.length) '0' ++ digits
  if isPrintable c && !isBreak c && c != '"' && c != '\\' then [c]
  else match letters.lookup c with
    | some letter => ['\\', letter]
    | none =>
      if c.toNat ≤ 0xFF then '\\' :: 'x' :: padded 2
      else if c.toNat ≤ 0xFFFF then '\\' :: 'u' :: padded 4
      else '\\' :: 'U' :: padded 8

def spaces (n : Nat) : List Char := List.replicate n ' '

/-- Between single quotes: a quote is doubled, and a line after a break is indented. -/
def singleChars (indent : Nat) : (afterBreak : Bool) → List Char → List Char
  | afterBreak, [] => if afterBreak then spaces indent else []
  | afterBreak, c :: cs =>
    if isBreak c then c :: singleChars indent true cs
    else
      (if afterBreak then spaces indent else []) ++
        (if c = '\'' then ['\'', '\''] else [c]) ++ singleChars indent false cs

/-- The lines of a literal block, each with the indentation unless it is empty. -/
def literalChars (indent : Nat) : (afterBreak : Bool) → List Char → List Char
  | _, [] => []
  | afterBreak, c :: cs =>
    if isBreak c then c :: literalChars indent true cs
    else (if afterBreak then spaces indent else []) ++ c :: literalChars indent false cs

/-- The header of a literal block: an indentation if the text does not show it, and what to do with
the breaks at the end. -/
def literalHeader (cs : List Char) : List Char :=
  let opensBlank := match cs with
    | c :: _ => c = ' ' || isBreak c
    | [] => false
  let chomp := match cs.reverse with
    | last :: rest =>
      if !isBreak last then ['-']
      else match rest with
        | [] => ['+']
        | before :: _ => if isBreak before then ['+'] else []
    | [] => ['-']
  '|' :: (if opensBlank then ['2'] else []) ++ chomp

/-- A text as a scalar whose further lines have an indentation. -/
def scalarChars (indent : Nat) (s : String) : List Char :=
  let cs := s.toList
  match Style.of s with
  | .plain => cs
  | .single => '\'' :: singleChars indent false cs ++ ['\'']
  | .double => '"' :: cs.flatMap escapeChar ++ ['"']
  | .literal => literalHeader cs ++ '\n' :: literalChars indent true cs

end Triglot.Yaml
