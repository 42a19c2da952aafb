import Triglot.Yaml.Scalar

/-! The tokens of a document. Block structure follows from indentation, and a key is known only when
its colon is met, so tokens are placed before earlier ones. -/
namespace Triglot.Yaml

inductive Token where
  | versionDirective (major minor : Nat)
  | tagDirective (handle start : String)
  | documentStart
  | documentEnd
  | blockSequenceStart
  | blockMappingStart
  | blockEnd
  | flowSequenceStart
  | flowSequenceEnd
  | flowMappingStart
  | flowMappingEnd
  | blockEntry
  | flowEntry
  | key
  | value
  | link (name : String)
  | anchor (name : String)
  | tag (handle suffix : String)
  | scalar (text : String) (plain : Bool)
deriving DecidableEq, Repr

/-- A token that may turn out to start a key: its number and its place. A required one stands where
only a key can stand. -/
structure SimpleKey where
  required : Bool
  number : Nat
  mark : Mark
deriving DecidableEq, Repr

structure Scanner where
  source : Source
  /-- The indentations of the open block collections, the innermost first. -/
  indents : List Nat := []
  keyAllowed : Bool := true
  simpleKey : Option SimpleKey := none
  /-- The possible keys around the open flow collections, the innermost first. -/
  outerKeys : List (Option SimpleKey) := []
  /-- The tokens so far with their places, the latest first. -/
  tokens : List (Token × Mark) := []
deriving Repr

namespace Scanner

def inFlow (s : Scanner) : Bool := !s.outerKeys.isEmpty

def push (s : Scanner) (m : Mark) (t : Token) : Scanner := { s with tokens := (t, m) :: s.tokens }

/-- Places a token before the one of a number. -/
def insert (s : Scanner) (number : Nat) (m : Mark) (t : Token) : Scanner :=
  let later := s.tokens.length - number
  { s with tokens := s.tokens.take later ++ (t, m) :: s.tokens.drop later }

def column (s : Scanner) : Nat := s.source.mark.column

/-- Closes the block collections that are indented by more. -/
def closeAbove (column : Option Nat) (m : Mark) :
    List Nat → List (Token × Mark) → List Nat × List (Token × Mark)
  | [], ts => ([], ts)
  | i :: is, ts =>
    if column.all (· < i) then closeAbove column m is ((.blockEnd, m) :: ts) else (i :: is, ts)

/-- Back to an indentation; without one, out of all block collections. -/
def unroll (s : Scanner) (column : Option Nat) : Scanner :=
  if s.inFlow then s
  else
    let (indents, tokens) := closeAbove column s.source.mark s.indents s.tokens
    { s with indents, tokens }

/-- Whether a column is inside the innermost block collection. -/
def isDeeper (s : Scanner) (column : Nat) : Bool :=
  !s.inFlow && s.indents.head?.all (· < column)

/-- Opens a block collection at a place whose column is inside the current one. -/
def roll (s : Scanner) (m : Mark) (number : Option Nat) (t : Token) : Scanner :=
  if s.isDeeper m.column then
    let s := { s with indents := m.column :: s.indents }
    match number with
    | some n => s.insert n m t
    | none => s.push m t
  else s

/-- Forgets the possible key. -/
def dropKey (s : Scanner) : Except Fault Scanner :=
  if s.simpleKey.any (·.required) then .error (.near .missingColon s.source.mark)
  else .ok { s with simpleKey := none }

/-- Notes that the next token may start a key. -/
def saveKey (s : Scanner) : Except Fault Scanner :=
  if s.keyAllowed then do
    let required := !s.inFlow && s.indents.head? == some s.column
    let t ← s.dropKey
    pure { t with simpleKey := some ⟨required, s.tokens.length, s.source.mark⟩ }
  else .ok s

/-- The greatest length of a key that has no mark. -/
def greatestKeyLength : Nat := 1024

/-- A key that is not on the line of the mark, or is too long, is none. -/
def SimpleKey.isStale (m : Mark) (k : SimpleKey) : Bool :=
  k.mark.line < m.line || k.mark.index + greatestKeyLength < m.index

def freshKey (m : Mark) (k : Option SimpleKey) : Except Fault (Option SimpleKey) :=
  match k with
  | none => .ok none
  | some k =>
    if SimpleKey.isStale m k then
      if k.required then .error (.near .missingColon m) else .ok none
    else .ok (some k)

def dropStaleKeys (s : Scanner) : Except Fault Scanner := do
  let m := s.source.mark
  pure { s with
    simpleKey := ← freshKey m s.simpleKey
    outerKeys := ← s.outerKeys.mapM (freshKey m) }

/-- Past blanks, comments and breaks. A tab is no blank where a key can start, and after a break a key
can start. -/
def skipGap (inFlow : Bool) : (inComment keyAllowed : Bool) → List Char → Mark → Source × Bool
  | _, keyAllowed, [], m => (⟨[], m⟩, keyAllowed)
  | inComment, keyAllowed, c :: cs, m =>
    if isBreak c then skipGap inFlow false (keyAllowed || !inFlow) cs m.nextLine
    else if inComment || c = ' ' || (c = '\t' && (inFlow || !keyAllowed)) then
      skipGap inFlow inComment keyAllowed cs m.next
    else if c = '#' then skipGap inFlow true keyAllowed cs m.next
    else (⟨c :: cs, m⟩, keyAllowed)

/-- To the start of the next token. -/
def advance (s : Scanner) : Except Fault Scanner := do
  let (source, keyAllowed) := skipGap s.inFlow false s.keyAllowed s.source.rest s.source.mark
  let s ← dropStaleKeys { s with source, keyAllowed }
  pure (s.unroll (some s.column))

/-! Directives, anchors and tags. -/

/-- A version number of at most nine digits. -/
def versionNumber (src : Source) : Except Fault (Nat × Source) :=
  let (digits, after) := src.span Literal.isDigit
  match Literal.natural? 10 digits with
  | some n => if digits.length ≤ 9 then .ok (n, after) else .error (.near .directive (src.mark.skip 9))
  | none => .error (.near .directive src.mark)

/-- A handle: an exclamation mark, and maybe a name and another mark. -/
def tagHandle (src : Source) : Option (List Char × Source) :=
  match src.rest with
  | '!' :: _ =>
    let (name, src) := (src.skip 1).span isNameChar
    match src.rest with
    | '!' :: _ => some ('!' :: name ++ ['!'], src.skip 1)
    | _ => some ('!' :: name, src)
  | _ => none

/-- Characters of a tag; some of them only between angle brackets or in a directive. -/
def isTagChar (verbatim : Bool) (c : Char) : Bool :=
  isNameChar c || ";/?:@&=+$.!~*'()".toList.contains c ||
    (verbatim && [',', '[', ']'].contains c)

/-- The byte of two digits after a percent sign. -/
def escapedByte? : List Char → Option (Nat × List Char)
  | '%' :: a :: b :: cs => (Literal.natural? 16 [a, b]).map fun n => (n, cs)
  | _ => none

/-- Some bytes that continue a character. -/
def continuation? : (count : Nat) → Nat → List Char → Option (Nat × List Char)
  | 0, n, cs => some (n, cs)
  | count + 1, n, cs => do
    let (b, cs) ← escapedByte? cs
    if 0x80 ≤ b && b < 0xC0 then continuation? count (64 * n + (b - 0x80)) cs else none

/-- A character by the bytes of its encoding. -/
def escapedChar? (cs : List Char) : Option (Char × List Char) := do
  let (b, rest) ← escapedByte? cs
  let (n, rest) ←
    if b < 0x80 then some (b, rest)
    else if 0xC0 ≤ b && b < 0xE0 then continuation? 1 (b - 0xC0) rest
    else if 0xE0 ≤ b && b < 0xF0 then continuation? 2 (b - 0xE0) rest
    else if 0xF0 ≤ b && b < 0xF8 then continuation? 3 (b - 0xF0) rest
    else none
  pure (Char.ofNat n, rest)

/-- The characters of a tag, in reverse. -/
def tagText (verbatim : Bool) : (fuel : Nat) → (read : List Char) → Source →
    Except Fault (List Char × Source)
  | 0, read, src => .ok (read, src)
  | fuel + 1, read, src =>
    match src.rest with
    | [] => .ok (read, src)
    | c :: _ =>
      if c = '%' then
        match escapedChar? src.rest with
        | some (d, rest) =>
          tagText verbatim fuel (d :: read) (src.skip (src.rest.length - rest.length))
        | none => .error (.near .tag src.mark)
      else if isTagChar verbatim c then tagText verbatim fuel (c :: read) (src.skip 1)
      else .ok (read, src)

/-- The characters of a tag after those of a start that belongs to it. -/
def tagSuffix (verbatim : Bool) (start : List Char) (src : Source) :
    Except Fault (String × Source) := do
  let (read, src') ← tagText verbatim (src.rest.length + 1) (start.drop 1).reverse src
  if start.isEmpty && src'.rest.length = src.rest.length then .error (.near .tag src.mark)
  else pure (String.ofList read.reverse, src')

def startsBlank (src : Source) : Bool := src.rest.head?.any isBlank

def directive (src : Source) : Except Fault (Token × Source) := do
  let (name, src) := (src.skip 1).span isNameChar
  if name.isEmpty || !endsWord src.rest.head? then .error (.near .directive src.mark)
  else
    let value := src.skipWhile isBlank
    let (token, src) ← (match String.ofList name with
      | "YAML" => do
        let (major, src) ← versionNumber value
        if src.rest.head? != some '.' then .error (.near .directive src.mark)
        else
          let (minor, src) ← versionNumber (src.skip 1)
          pure (Token.versionDirective major minor, src)
      | "TAG" =>
        match tagHandle value with
        | none => .error (.near .directive value.mark)
        | some (handle, src) => do
          if handle.getLast? != some '!' || !startsBlank src then
            .error (.near .directive src.mark)
          else
            let (start, src) ← tagSuffix true [] (src.skipWhile isBlank)
            if endsWord src.rest.head? then
              pure (Token.tagDirective (String.ofList handle) start, src)
            else .error (.near .directive src.mark)
      | _ => .error (.near .directive src.mark))
    pure (token, ← skipToBreak .directive src)

/-- The name after an indicator. -/
def anchorName (src : Source) : Except Fault (String × Source) :=
  let (name, src) := (src.skip 1).span isNameChar
  let ends := match src.rest.head? with
    | some c => endsWord (some c) || "?:,]\x7d%@`".toList.contains c
    | none => true
  if name.isEmpty || !ends then .error (.near .anchorName src.mark)
  else .ok (String.ofList name, src)

/-- A tag between angle brackets. -/
def verbatimTag (src : Source) : Except Fault (Token × Source) := do
  let (suffix, src) ← tagSuffix true [] (src.skip 2)
  if src.rest.head? = some '>' then pure (.tag "" suffix, src.skip 1)
  else .error (.near .tag src.mark)

/-- A tag with a handle; the single mark stands for itself. -/
def shortTag (src : Source) : Except Fault (Token × Source) :=
  match tagHandle src with
  | none => .error (.near .tag src.mark)
  | some (handle, rest) =>
    if 1 < handle.length && handle.getLast? = some '!' then do
      let (suffix, rest) ← tagSuffix false [] rest
      pure (.tag (String.ofList handle) suffix, rest)
    else do
      let (suffix, rest) ← tagSuffix false handle rest
      pure (if suffix.isEmpty then .tag "" "!" else .tag "!" suffix, rest)

def tagToken (inFlow : Bool) (src : Source) : Except Fault (Token × Source) := do
  let (token, src) ← if src.rest[1]? = some '<' then verbatimTag src else shortTag src
  if endsWord src.rest.head? || (inFlow && src.rest.head? = some ',') then pure (token, src)
  else .error (.near .tag src.mark)

/-! One step for each kind of token. -/

/-- Out of the block collections, for what stands between documents. -/
def leaveBlocks (s : Scanner) : Except Fault Scanner := do
  let s ← (s.unroll none).dropKey
  pure { s with keyAllowed := false }

def fetchDirective (s : Scanner) : Except Fault Scanner := do
  let s ← s.leaveBlocks
  let (t, source) ← directive s.source
  pure ({ s with source }.push s.source.mark t)

def fetchMarker (s : Scanner) (t : Token) : Except Fault Scanner := do
  let s ← s.leaveBlocks
  pure ({ s with source := s.source.skip 3 }.push s.source.mark t)

def fetchFlowStart (s : Scanner) (t : Token) : Except Fault Scanner := do
  let s ← s.saveKey
  pure ({ s with
    outerKeys := s.simpleKey :: s.outerKeys, simpleKey := none, keyAllowed := true
    source := s.source.skip 1 }.push s.source.mark t)

def fetchFlowEnd (s : Scanner) (t : Token) : Except Fault Scanner := do
  let s ← s.dropKey
  let s := { s with keyAllowed := false, source := s.source.skip 1 }.push s.source.mark t
  pure (match s.outerKeys with
    | k :: ks => { s with simpleKey := k, outerKeys := ks }
    | [] => s)

def fetchFlowEntry (s : Scanner) : Except Fault Scanner := do
  let s ← s.dropKey
  pure ({ s with keyAllowed := true, source := s.source.skip 1 }.push s.source.mark .flowEntry)

def fetchBlockEntry (s : Scanner) : Except Fault Scanner := do
  if !s.inFlow && !s.keyAllowed then .error (.near .blockEntry s.source.mark)
  else
    let s ← (s.roll s.source.mark none .blockSequenceStart).dropKey
    pure ({ s with keyAllowed := true, source := s.source.skip 1 }.push s.source.mark .blockEntry)

def fetchKey (s : Scanner) : Except Fault Scanner := do
  if !s.inFlow && !s.keyAllowed then .error (.near .mappingKey s.source.mark)
  else
    let s ← (s.roll s.source.mark none .blockMappingStart).dropKey
    pure ({ s with keyAllowed := !s.inFlow, source := s.source.skip 1 }.push s.source.mark .key)

/-- A colon makes a key of what may be one. -/
def fetchValue (s : Scanner) : Except Fault Scanner :=
  let finish (s : Scanner) : Scanner :=
    { s with source := s.source.skip 1 }.push s.source.mark .value
  match s.simpleKey with
  | some k =>
    let s := (s.insert k.number k.mark .key).roll k.mark (some k.number) .blockMappingStart
    .ok (finish { s with simpleKey := none, keyAllowed := false })
  | none =>
    if !s.inFlow && !s.keyAllowed then .error (.near .mappingValue s.source.mark)
    else
      let s := s.roll s.source.mark none .blockMappingStart
      .ok (finish { s with keyAllowed := !s.inFlow })

def fetchAnchor (s : Scanner) (token : String → Token) : Except Fault Scanner := do
  let s ← s.saveKey
  let (name, source) ← anchorName s.source
  pure ({ s with keyAllowed := false, source }.push s.source.mark (token name))

def fetchTag (s : Scanner) : Except Fault Scanner := do
  let s ← s.saveKey
  let (t, source) ← tagToken s.inFlow s.source
  pure ({ s with keyAllowed := false, source }.push s.source.mark t)

def fetchBlockScalar (s : Scanner) (literal : Bool) : Except Fault Scanner := do
  let s ← s.dropKey
  let (text, source) ← blockScalar literal s.indents.head? (s.source.skip 1)
  pure ({ s with keyAllowed := true, source }.push s.source.mark (.scalar text false))

def fetchQuoted (s : Scanner) (read : List Char → Mark → Except Fault (String × Source)) :
    Except Fault Scanner := do
  let s ← s.saveKey
  let start := s.source.skip 1
  let (text, source) ← read start.rest start.mark
  pure ({ s with keyAllowed := false, source }.push s.source.mark (.scalar text false))

def fetchPlain (s : Scanner) : Except Fault Scanner := do
  let s ← s.saveKey
  let indent := (s.indents.head?.map (· + 1)).getD 0
  let p ← plainScalar s.inFlow indent {} [] s.source.rest s.source.mark
  pure ({ s with keyAllowed := p.broken, source := p.source }.push s.source.mark
    (.scalar p.text true))

/-- Whether a plain scalar can start with a character before another one. -/
def startsPlain (inFlow : Bool) (c : Char) (next : Option Char) : Bool :=
  (!endsWord (some c) && !"-?:,[]\x7b\x7d#&*!|>'\"%@`".toList.contains c) ||
    (c = '-' && !next.any isBlank) ||
    (!inFlow && (c = '?' || c = ':') && !endsWord next)

/-- The next token, at its first character. -/
def fetch (s : Scanner) (c : Char) (cs : List Char) : Except Fault Scanner :=
  let next := cs.head?
  if s.column = 0 && c = '%' then s.fetchDirective
  else if s.column = 0 && startsMarker (c :: cs) then
    s.fetchMarker (if c = '-' then .documentStart else .documentEnd)
  else if c = '[' then s.fetchFlowStart .flowSequenceStart
  else if c = '\x7b' then s.fetchFlowStart .flowMappingStart
  else if c = ']' then s.fetchFlowEnd .flowSequenceEnd
  else if c = '\x7d' then s.fetchFlowEnd .flowMappingEnd
  else if c = ',' then s.fetchFlowEntry
  else if c = '-' && endsWord next then s.fetchBlockEntry
  else if c = '?' && (s.inFlow || endsWord next) then s.fetchKey
  else if c = ':' && (s.inFlow || endsWord next) then s.fetchValue
  else if c = '*' then s.fetchAnchor .link
  else if c = '&' then s.fetchAnchor .anchor
  else if c = '!' then s.fetchTag
  else if c = '|' && !s.inFlow then s.fetchBlockScalar true
  else if c = '>' && !s.inFlow then s.fetchBlockScalar false
  else if c = '\'' then s.fetchQuoted (singleScalar {} [])
  else if c = '"' then s.fetchQuoted (doubleScalar {} [])
  else if startsPlain s.inFlow c next then s.fetchPlain
  else .error (.near .unexpectedCharacter s.source.mark)

/-- All tokens, and the place behind them; each one takes a character at least. -/
def run : (fuel : Nat) → Scanner → Except Fault (List (Token × Mark) × Mark)
  | 0, s => .ok (s.tokens.reverse, s.source.mark)
  | fuel + 1, s => do
    let s ← s.advance
    match s.source.rest with
    | [] =>
      let finish := s.source.mark.lineStart
      let s ← ({ s with source := ⟨[], finish⟩ }.unroll none).dropKey
      pure (s.tokens.reverse, finish)
    | c :: cs => run fuel (← s.fetch c cs)

end Scanner

/-- The tokens of a text, and the place behind them. -/
def Token.scan (text : String) : Except Fault (List (Token × Mark) × Mark) := do
  let source ← Source.ofString text
  Scanner.run (source.rest.length + 1) { source }

end Triglot.Yaml
