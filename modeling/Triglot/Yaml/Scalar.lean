import Triglot.Yaml.Source

/-! The text of a scalar in each style. Lines are folded: one break is a space, and of several the
first does not count. -/
namespace Triglot.Yaml

/-- Blanks and breaks between two words, the latest first. -/
structure Gap where
  blanks : List Char := []
  first : Option Char := none
  further : List Char := []
  broken : Bool := false
deriving DecidableEq, Repr

namespace Gap

def isEmpty (g : Gap) : Bool := g.blanks.isEmpty && !g.broken

def blank (g : Gap) (c : Char) : Gap := if g.broken then g else { g with blanks := c :: g.blanks }

def lineBreak (g : Gap) (c : Char) : Gap :=
  if g.broken then { g with further := c :: g.further }
  else { blanks := [], first := some c, further := [], broken := true }

/-- A break that counts for nothing by itself. -/
def escaped : Gap := { broken := true }

/-- What a gap stands for, in reverse. -/
def folded (g : Gap) : List Char :=
  if !g.broken then g.blanks
  else match g.first with
    | some '\n' => if g.further.isEmpty then [' '] else g.further
    | first => g.further ++ first.toList

end Gap

/-- A scalar and whether its last gap has a break. -/
structure PlainScan where
  text : String
  source : Source
  broken : Bool
deriving DecidableEq, Repr

def isFlowIndicator (c : Char) : Bool := [',', '[', ']', '\x7b', '\x7d'].contains c

/-- A scalar without quotes. Its lines have at least the given indentation. -/
def plainScalar (inFlow : Bool) (indent : Nat) (gap : Gap) (read : List Char) :
    List Char → Mark → Except Fault PlainScan
  | [], m => .ok ⟨String.ofList read.reverse, ⟨[], m⟩, gap.broken⟩
  | c :: cs, m =>
    let done : Except Fault PlainScan := .ok ⟨String.ofList read.reverse, ⟨c :: cs, m⟩, gap.broken⟩
    if isBlank c then
      if gap.broken && m.column < indent && c = '\t' then
        .error (.near .tabIndentation m)
      else plainScalar inFlow indent (gap.blank c) read cs m.next
    else if isBreak c then plainScalar inFlow indent (gap.lineBreak c) read cs m.nextLine
    else if !gap.isEmpty && ((!inFlow && m.column < indent) || c = '#') then done
    else if m.column = 0 && startsMarker (c :: cs) then done
    else if inFlow && c = ':' && (cs.head?.any fun d => d = '?' || isFlowIndicator d) then
      .error (.near .flowColon m)
    else if (c = ':' && endsWord cs.head?) || (inFlow && isFlowIndicator c) then done
    else plainScalar inFlow indent {} (c :: (gap.folded ++ read)) cs m.next

/-- What follows the opening quote up to the closing one, where a quote is doubled. -/
def singleScalar (gap : Gap) (read : List Char) :
    List Char → Mark → Except Fault (String × Source)
  | [], m => .error (.near .unclosedQuote m)
  | c :: cs, m =>
    if m.column = 0 && startsMarker (c :: cs) then .error (.near .documentMarker m)
    else if isBlank c then singleScalar (gap.blank c) read cs m.next
    else if isBreak c then singleScalar (gap.lineBreak c) read cs m.nextLine
    else if c = '\'' then
      match cs with
      | '\'' :: cs => singleScalar {} ('\'' :: (gap.folded ++ read)) cs (m.skip 2)
      | _ => .ok (String.ofList (gap.folded ++ read).reverse, ⟨cs, m.next⟩)
    else singleScalar {} (c :: (gap.folded ++ read)) cs m.next

/-- The escapes of one letter. -/
def letterEscapes : List (Char × Char) :=
  [('0', '\x00'), ('a', '\x07'), ('b', '\x08'), ('t', '\t'), ('\t', '\t'), ('n', '\n'),
   ('v', '\x0b'), ('f', '\x0c'), ('r', '\r'), ('e', '\x1b'), (' ', ' '), ('"', '"'), ('/', '/'),
   ('\\', '\\'), ('N', '\u0085'), ('_', '\u00a0'), ('L', '\u2028'), ('P', '\u2029')]

/-- The number of digits after a letter. -/
def codeLengths : List (Char × Nat) := [('x', 2), ('u', 4), ('U', 8)]

def codeChar? (n : Nat) : Option Char := if n.isValidChar then some (Char.ofNat n) else none

/-- The character of an escape by its letter, with the number of characters read after the letter. -/
def readEscape (letter : Char) (cs : List Char) : Option (Char × Nat) :=
  match letterEscapes.lookup letter with
  | some c => some (c, 0)
  | none => do
    let n ← codeLengths.lookup letter
    let digits := cs.take n
    if digits.length < n then none
    else pure (← codeChar? (← Literal.natural? 16 digits), n)

/-- What follows the opening double quote up to the closing one. -/
def doubleScalar (gap : Gap) (read : List Char) (cs : List Char) (m : Mark) :
    Except Fault (String × Source) :=
  match cs with
  | [] => .error (.near .unclosedQuote m)
  | c :: cs =>
    let joined := gap.folded ++ read
    if m.column = 0 && startsMarker (c :: cs) then .error (.near .documentMarker m)
    else if isBlank c then doubleScalar (gap.blank c) read cs m.next
    else if isBreak c then doubleScalar (gap.lineBreak c) read cs m.nextLine
    else if c = '"' then .ok (String.ofList joined.reverse, ⟨cs, m.next⟩)
    else if c = '\\' then
      match cs with
      | [] => .error (.near .escape m)
      | letter :: cs =>
        if isBreak letter then doubleScalar .escaped joined cs m.nextLine
        else match readEscape letter cs with
          | some (c, n) => doubleScalar {} (c :: joined) (cs.drop n) (m.skip (n + 2))
          | none =>
            -- The digits of a number are missed behind its letter.
            .error (.near .escape (if (codeLengths.lookup letter).isSome then m.skip 2 else m))
    else doubleScalar {} (c :: joined) cs m.next
termination_by cs.length
decreasing_by all_goals simp only [List.length_cons, List.length_drop]; omega

/-- What is done with the breaks at the end of a block. -/
inductive Chomping where
  | strip
  | clip
  | keep
deriving DecidableEq, Repr

def chomping? : Char → Option Chomping
  | '-' => some .strip
  | '+' => some .keep
  | _ => none

/-- The digit for an indentation; zero is none. -/
def indentation? (c : Char) : Option Nat :=
  if '1' ≤ c && c ≤ '9' then some (c.toNat - 48) else none

/-- The two marks after the indicator of a block, in either order. -/
def blockMarks (s : Source) : Except Fault (Chomping × Option Nat × Source) :=
  match s.rest with
  | c :: cs =>
    match chomping? c with
    | some chomping =>
      match cs with
      | '0' :: _ => .error (.near .blockHeader s.mark.next)
      | d :: _ =>
        match indentation? d with
        | some n => .ok (chomping, some n, s.skip 2)
        | none => .ok (chomping, none, s.skip 1)
      | [] => .ok (chomping, none, s.skip 1)
    | none =>
      if c = '0' then .error (.near .blockHeader s.mark)
      else match indentation? c with
        | none => .ok (.clip, none, s)
        | some n =>
          match cs.head?.bind chomping? with
          | some chomping => .ok (chomping, some n, s.skip 2)
          | none => .ok (.clip, some n, s.skip 1)
  | [] => .ok (.clip, none, s)

/-- Indentation and empty lines before a line of a block. Without a known indentation all spaces are
read; `widest` is the greatest column that they reach. -/
structure BlockGap where
  breaks : List Char
  widest : Nat
  source : Source
deriving DecidableEq, Repr

def blockGap (indent : Option Nat) (breaks : List Char) (widest : Nat) :
    List Char → Mark → Except Fault BlockGap
  | [], m => .ok ⟨breaks, max widest m.column, ⟨[], m⟩⟩
  | c :: cs, m =>
    let inside := indent.all (m.column < ·)
    if c = ' ' && inside then blockGap indent breaks widest cs m.next
    else if c = '\t' && inside then .error (.near .tabIndentation m)
    else if isBreak c then blockGap indent (c :: breaks) (max widest m.column) cs m.nextLine
    else .ok ⟨breaks, max widest m.column, ⟨c :: cs, m⟩⟩

/-- A block that has been read: its text, the break after it, and further breaks, all in reverse. -/
structure BlockRead where
  text : List Char := []
  first : List Char := []
  further : List Char := []
  openedBlank : Bool := false
deriving DecidableEq, Repr

/-- The breaks before a line. Between two lines of a folded block that do not start with a blank, one
break is a space. -/
def BlockRead.joined (b : BlockRead) (literal opensBlank : Bool) : List Char :=
  if !literal && b.first = ['\n'] && !b.openedBlank && !opensBlank then
    if b.further.isEmpty then [' '] else b.further
  else b.further ++ b.first

def BlockRead.chomped (b : BlockRead) : Chomping → List Char
  | .strip => b.text
  | .clip => b.first ++ b.text
  | .keep => b.further ++ b.first ++ b.text

/-- The lines of a block, for as long as they have its indentation. -/
def blockLines (literal : Bool) (indent : Nat) :
    (fuel : Nat) → BlockRead → Source → Except Fault (BlockRead × Source)
  | 0, b, s => .ok (b, s)
  | fuel + 1, b, s =>
    match s.rest with
    | [] => .ok (b, s)
    | c :: _ =>
      if s.mark.column != indent then .ok (b, s)
      else do
        let (line, after) := s.span (!isBreak ·)
        let next := after.skipBreak
        let gap ← blockGap (some indent) [] 0 next.rest next.mark
        blockLines literal indent fuel
          { text := line.reverse ++ (b.joined literal (isBlank c) ++ b.text)
            first := (after.rest.head?).toList
            further := gap.breaks
            openedBlank := isBlank c } gap.source

/-- A block after its indicator, inside a collection of the given indentation. -/
def blockScalar (literal : Bool) (parent : Option Nat) (s : Source) :
    Except Fault (String × Source) := do
  let (chomping, increment, s) ← blockMarks s
  let s ← skipToBreak .blockHeader s
  let known := increment.map ((parent.getD 0) + ·)
  let gap ← blockGap known [] 0 s.rest s.mark
  let indent := known.getD (max gap.widest (max ((parent.map (· + 1)).getD 0) 1))
  let (b, s) ← blockLines literal indent (gap.source.rest.length + 1)
    { further := gap.breaks } gap.source
  pure (String.ofList (b.chomped chomping).reverse, s)

end Triglot.Yaml
