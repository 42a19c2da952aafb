import Triglot.Text.Shown

/-! Semantic versions: three numbers, then perhaps a pre-release and build metadata. -/
namespace Triglot.Version

/-- The parts of a version. -/
inductive Part where
  | major
  | minor
  | patch
  | prerelease
  | build
deriving DecidableEq, Repr

def Part.text : Part → String
  | .major => "major version number"
  | .minor => "minor version number"
  | .patch => "patch version number"
  | .prerelease => "pre-release identifier"
  | .build => "build metadata"

inductive Fault where
  | empty
  | ended (part : Part)
  | unexpected (part : Part) (c : Char)
  | unexpectedAfter (part : Part) (c : Char)
  | leadingZero (part : Part)
  | tooLarge (part : Part)
  | emptySegment (part : Part)
deriving DecidableEq, Repr

def Fault.message : Fault → String
  | .empty => "empty string, expected a semver version"
  | .ended p => "unexpected end of input while parsing " ++ p.text
  | .unexpected p c => "unexpected character " ++ Text.shownQuote c ++ " while parsing " ++ p.text
  | .unexpectedAfter p c => "unexpected character " ++ Text.shownQuote c ++ " after " ++ p.text
  | .leadingZero p => "invalid leading zero in " ++ p.text
  | .tooLarge p => "value of " ++ p.text ++ " exceeds u64::MAX"
  | .emptySegment p => "empty identifier segment in " ++ p.text

def isDigit (c : Char) : Bool := '0' ≤ c && c ≤ '9'

def isLetter (c : Char) : Bool := ('A' ≤ c && c ≤ 'Z') || ('a' ≤ c && c ≤ 'z') || c == '-'

/-- Checks digits from the left: a number has no leading zero and fits 64 bits. -/
def checkDigits (part : Part) (value : Nat) (first : Bool) : List Char → Except Fault Unit
  | [] => .ok ()
  | d :: ds =>
    if value = 0 && !first then .error (.leadingZero part)
    else
      let n := value * 10 + (d.toNat - 48)
      if UInt64.size ≤ n then .error (.tooLarge part) else checkDigits part n false ds

/-- A number, and what follows it. -/
def number (part : Part) (cs : List Char) : Except Fault (List Char) := do
  let ds := cs.takeWhile isDigit
  checkDigits part 0 true ds
  if ds.isEmpty then
    match cs with
    | [] => .error (.ended part)
    | c :: _ => .error (.unexpected part c)
  else pure (cs.dropWhile isDigit)

/-- The point after a number. -/
def point (part : Part) : List Char → Except Fault (List Char)
  | [] => .error (.ended part)
  | c :: cs => if c = '.' then .ok cs else .error (.unexpectedAfter part c)

/-- One segment of identifiers. -/
def checkSegment (part : Part) (segment : List Char) : Except Fault Unit :=
  if segment.isEmpty then .error (.emptySegment part)
  else if part = .prerelease && segment.all isDigit && 1 < segment.length &&
      segment.head? == some '0' then .error (.leadingZero part)
  else .ok ()

/-- Segments divided by points, and what follows them. -/
def segments (part : Part) (cs : List Char) : Except Fault (List Char) := do
  let run := cs.takeWhile fun c => isDigit c || isLetter c || c == '.'
  (Text.pieces '.' run).forM (checkSegment part)
  pure (cs.drop run.length)

/-- Reads identifiers behind their mark, if the mark is there; the part reached is kept for later
complaints. -/
def marked (mark : Char) (part reached : Part) (cs : List Char) :
    Except Fault (Part × List Char) :=
  match cs with
  | c :: rest => if c = mark then (segments part rest).map fun r => (part, r) else .ok (reached, cs)
  | [] => .ok (reached, [])

/-- Accepts a semantic version, or tells the first fault. -/
def check (s : String) : Except Fault Unit :=
  if s.isEmpty then .error .empty
  else do
    let cs ← number .major s.toList
    let cs ← point .major cs
    let cs ← number .minor cs
    let cs ← point .minor cs
    let cs ← number .patch cs
    let (reached, cs) ← marked '-' .prerelease .patch cs
    let (reached, cs) ← marked '+' .build reached cs
    match cs with
    | [] => pure ()
    | c :: _ => .error (.unexpectedAfter reached c)

end Triglot.Version
