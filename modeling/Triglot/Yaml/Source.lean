import Triglot.Yaml.Style

/-! Characters still to be read, with their place, and the reasons for which a text is no document. -/
namespace Triglot.Yaml

inductive Problem where
  | controlCharacter
  | unexpectedCharacter
  | directive
  | tabIndentation
  | missingColon
  | blockEntry
  | mappingKey
  | mappingValue
  | anchorName
  | tag
  | blockHeader
  | escape
  | unclosedQuote
  | documentMarker
  | flowColon
  | missingContent
  | missingEntry
  | undefinedTagHandle
  | incompatibleVersion
  | severalDocuments
  | unknownAnchor
  | keyNotScalar
  | taggedValue
  | numberOutOfRange
  | tooDeep
  | tooManyRepetitions
deriving DecidableEq, Repr

def Problem.message : Problem → String
  | .controlCharacter => "control characters are not allowed"
  | .unexpectedCharacter => "found character that cannot start any token"
  | .directive => "found a malformed directive"
  | .tabIndentation => "found a tab character that violates indentation"
  | .missingColon => "could not find expected ':'"
  | .blockEntry => "block sequence entries are not allowed in this context"
  | .mappingKey => "mapping keys are not allowed in this context"
  | .mappingValue => "mapping values are not allowed in this context"
  | .anchorName => "did not find expected alphabetic or numeric character"
  | .tag => "found a malformed tag"
  | .blockHeader => "found a malformed block scalar header"
  | .escape => "found a malformed escape"
  | .unclosedQuote => "found unexpected end of stream in a quoted scalar"
  | .documentMarker => "found unexpected document indicator"
  | .flowColon => "found unexpected ':'"
  | .missingContent => "did not find expected node content"
  | .missingEntry => "did not find the expected end of a collection"
  | .undefinedTagHandle => "found undefined tag handle"
  | .incompatibleVersion => "found incompatible YAML document"
  | .severalDocuments => "more than one document"
  | .unknownAnchor => "unknown anchor"
  | .keyNotScalar => "found a key that is no scalar"
  | .taggedValue => "found a value that does not fit its tag"
  | .numberOutOfRange => "number out of range"
  | .tooDeep => "recursion limit exceeded"
  | .tooManyRepetitions => "repetition limit exceeded"

/-- A place: characters before it, lines before it, characters before it on its line. -/
structure Mark where
  index : Nat := 0
  line : Nat := 0
  column : Nat := 0
deriving DecidableEq, Repr, Inhabited

namespace Mark

def skip (m : Mark) (n : Nat) : Mark := { m with index := m.index + n, column := m.column + n }

def next (m : Mark) : Mark := m.skip 1

def nextLine (m : Mark) : Mark := { index := m.index + 1, line := m.line + 1, column := 0 }

/-- The end of a text counts as the start of a line. -/
def lineStart (m : Mark) : Mark :=
  if m.column = 0 then m else { m with line := m.line + 1, column := 0 }

end Mark

/-- A problem, and the place where the reader met it. The limits of a whole document have none. -/
structure Fault where
  problem : Problem
  mark : Option Mark := none
deriving DecidableEq, Repr

def Fault.near (problem : Problem) (m : Mark) : Fault := ⟨problem, some m⟩

structure Source where
  rest : List Char
  mark : Mark
deriving DecidableEq, Repr

namespace Source

def skip (s : Source) (n : Nat) : Source := ⟨s.rest.drop n, s.mark.skip n⟩

/-- The longest start of the line whose characters satisfy a test. -/
def span (p : Char → Bool) (s : Source) : List Char × Source :=
  let taken := s.rest.takeWhile p
  (taken, ⟨s.rest.dropWhile p, s.mark.skip taken.length⟩)

def skipWhile (p : Char → Bool) (s : Source) : Source := (s.span p).2

/-- Past a break, if there is one. -/
def skipBreak (s : Source) : Source :=
  match s.rest with
  | c :: cs => if isBreak c then ⟨cs, s.mark.nextLine⟩ else s
  | [] => s

end Source

def isBlank (c : Char) : Bool := c = ' ' || c = '\t'

/-- Letters, digits, the underscore and the hyphen. -/
def isNameChar (c : Char) : Bool :=
  Literal.isDigit c || ('a' ≤ c && c ≤ 'z') || ('A' ≤ c && c ≤ 'Z') || c = '_' || c = '-'

/-- Whether a line starts with a marker of a document. -/
def startsMarker (cs : List Char) : Bool := Style.opensMarker cs && endsWord (cs.drop 3).head?

/-- Past blanks and a comment; only a break or the end may follow. -/
def skipToBreak (problem : Problem) (s : Source) : Except Fault Source :=
  let s := s.skipWhile isBlank
  let s := if s.rest.head? = some '#' then s.skipWhile (!isBreak ·) else s
  match s.rest with
  | [] => .ok s
  | c :: _ => if isBreak c then .ok s.skipBreak else .error (.near problem s.mark)

/-- Characters that may stand in a document. -/
def isAllowed (c : Char) : Bool := c = '\t' || c = '\r' || c = '\u0085' || isPrintable c

/-- Line ends of one or two characters as a line feed. -/
def foldLineEnds : List Char → List Char
  | '\r' :: '\n' :: cs => '\n' :: foldLineEnds cs
  | c :: cs => (if c = '\r' || c = '\u0085' then '\n' else c) :: foldLineEnds cs
  | [] => []

/-- The characters of a text, without a mark of the byte order before them. They are looked at before
the first place is left. -/
def Source.ofString (text : String) : Except Fault Source :=
  let cs := match text.toList with
    | '\ufeff' :: cs => cs
    | cs => cs
  if cs.all isAllowed then .ok ⟨foldLineEnds cs, {}⟩ else .error (.near .controlCharacter {})

end Triglot.Yaml
