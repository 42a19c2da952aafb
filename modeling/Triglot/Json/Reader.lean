import Triglot.Json.Basic

/-! Reading the data-exchange format. The reader stops at the first fault and tells its cause and its
place, counted in lines and bytes. -/
namespace Triglot.Json

inductive Fault where
  | endOfValue
  | endOfList
  | endOfObject
  | endOfString
  | expectedValue
  | expectedWord
  | expectedColon
  | expectedListEnd
  | expectedObjectEnd
  | keyNotString
  | trailingComma
  | trailingText
  | badNumber
  | numberRange
  | badEscape
  | loneSurrogate
  | endOfHexEscape
  | controlCharacter
  | depthLimit
deriving DecidableEq, Repr

def Fault.message : Fault → String
  | .endOfValue => "EOF while parsing a value"
  | .endOfList => "EOF while parsing a list"
  | .endOfObject => "EOF while parsing an object"
  | .endOfString => "EOF while parsing a string"
  | .expectedValue => "expected value"
  | .expectedWord => "expected ident"
  | .expectedColon => "expected `:`"
  | .expectedListEnd => "expected `,` or `]`"
  | .expectedObjectEnd => "expected `,` or `\x7d`"
  | .keyNotString => "key must be a string"
  | .trailingComma => "trailing comma"
  | .trailingText => "trailing characters"
  | .badNumber => "invalid number"
  | .numberRange => "number out of range"
  | .badEscape => "invalid escape"
  | .loneSurrogate => "lone leading surrogate in hex escape"
  | .endOfHexEscape => "unexpected end of hex escape"
  | .controlCharacter => "control character (\\u0000-\\u001F) found while parsing a string"
  | .depthLimit => "recursion limit exceeded"

/-- A place in a text: a line from one, and the bytes passed on it. -/
structure Place where
  line : Nat
  column : Nat
deriving DecidableEq, Repr

structure ReadError where
  fault : Fault
  place : Place
deriving DecidableEq, Repr

def ReadError.message (e : ReadError) : String :=
  s!"{e.fault.message} at line {e.place.line} column {e.place.column}"

/-- What is left to read, and where it starts. -/
structure Cursor where
  rest : List Char
  place : Place

namespace Cursor

def ofString (s : String) : Cursor := ⟨s.toList, ⟨1, 0⟩⟩

def placeAfter (c : Char) (p : Place) : Place :=
  if c = '\n' then ⟨p.line + 1, 0⟩ else ⟨p.line, p.column + c.utf8Size⟩

/-- One character on. -/
def next (k : Cursor) : Cursor :=
  match k.rest with
  | [] => k
  | c :: cs => ⟨cs, placeAfter c k.place⟩

/-- The place one byte on, where a fault of the coming character is told. -/
def peekPlace (k : Cursor) : Place :=
  match k.rest with
  | [] => k.place
  | c :: _ => if c = '\n' then ⟨k.place.line + 1, 0⟩ else ⟨k.place.line, k.place.column + 1⟩

/-- A fault at the place reached. -/
def fail {α : Type} (k : Cursor) (f : Fault) : Except ReadError α := .error ⟨f, k.place⟩

/-- A fault of the coming character. -/
def failPeek {α : Type} (k : Cursor) (f : Fault) : Except ReadError α := .error ⟨f, k.peekPlace⟩

def skipFrom (p : Place) : List Char → Cursor
  | [] => ⟨[], p⟩
  | c :: cs =>
    if c = ' ' || c = '\n' || c = '\t' || c = '\r' then skipFrom (placeAfter c p) cs
    else ⟨c :: cs, p⟩

def skipBlanks (k : Cursor) : Cursor := skipFrom k.place k.rest

end Cursor

/-- Reads the remaining letters of a word such as `true`. -/
def readWord : List Char → Cursor → Except ReadError Cursor
  | [], k => .ok k
  | w :: ws, k =>
    match k.rest with
    | [] => k.fail .endOfValue
    | c :: _ => if c = w then readWord ws k.next else k.next.fail .expectedWord

def hexValue? (c : Char) : Option Nat :=
  if '0' ≤ c ∧ c ≤ '9' then some (c.toNat - 48)
  else if 'a' ≤ c ∧ c ≤ 'f' then some (c.toNat - 87)
  else if 'A' ≤ c ∧ c ≤ 'F' then some (c.toNat - 55)
  else none

/-- The place `n` bytes on, or the end of the text. -/
def bytesOn (n : Nat) : List Char → Place → Place
  | [], p => p
  | c :: cs, p =>
    if n = 0 then p
    else if c.utf8Size ≤ n then bytesOn (n - c.utf8Size) cs (Cursor.placeAfter c p)
    else ⟨p.line, p.column + n⟩

def byteCount (cs : List Char) : Nat := cs.foldr (fun c n => c.utf8Size + n) 0

/-- Four hexadecimal digits. A fault is told four bytes on, or at the end of the text. -/
def readHex (k : Cursor) : Except ReadError (Nat × Cursor) :=
  let ended := bytesOn 4 k.rest k.place
  if byteCount k.rest < 4 then .error ⟨.endOfString, ended⟩
  else match k.rest with
    | a :: b :: c :: d :: rest =>
      match hexValue? a, hexValue? b, hexValue? c, hexValue? d with
      | some a, some b, some c, some d => .ok (((a * 16 + b) * 16 + c) * 16 + d, ⟨rest, ended⟩)
      | _, _, _, _ => .error ⟨.badEscape, ended⟩
    | _ => .error ⟨.badEscape, ended⟩

/-- A required character of a surrogate pair. -/
def readPairMark (mark : Char) (k : Cursor) : Except ReadError Cursor :=
  match k.rest with
  | [] => k.fail .endOfString
  | c :: _ => if c = mark then .ok k.next else k.next.fail .endOfHexEscape

/-- The character of an escape by number, after its `u`. -/
def readNumberEscape (k : Cursor) : Except ReadError (Char × Cursor) := do
  let (n, k) ← readHex k
  if 0xDC00 ≤ n && n ≤ 0xDFFF then k.fail .loneSurrogate
  else if n < 0xD800 || 0xDBFF < n then pure (Char.ofNat n, k)
  else
    let k ← readPairMark '\\' k
    let k ← readPairMark 'u' k
    let (m, k) ← readHex k
    if m < 0xDC00 || 0xDFFF < m then k.fail .loneSurrogate
    else pure (Char.ofNat ((n - 0xD800) * 1024 + (m - 0xDC00) + 0x10000), k)

/-- The character of an escape, after its backslash. -/
def readEscape (k : Cursor) : Except ReadError (Char × Cursor) :=
  match k.rest with
  | [] => k.fail .endOfString
  | c :: _ =>
    let k := k.next
    if c = '"' || c = '\\' || c = '/' then .ok (c, k)
    else if c = 'b' then .ok ('\x08', k)
    else if c = 'f' then .ok ('\x0c', k)
    else if c = 'n' then .ok ('\n', k)
    else if c = 'r' then .ok ('\r', k)
    else if c = 't' then .ok ('\t', k)
    else if c = 'u' then readNumberEscape k
    else k.fail .badEscape

/-- The rest of a string after its opening quote; `read` holds what is read, last first. -/
def readString : (fuel : Nat) → (read : List Char) → Cursor → Except ReadError (String × Cursor)
  | 0, _, k => k.fail .endOfString
  | fuel + 1, read, k =>
    match k.rest with
    | [] => k.fail .endOfString
    | c :: _ =>
      if c = '"' then .ok (String.ofList read.reverse, k.next)
      else if c = '\\' then do
        let (d, k) ← readEscape k.next
        readString fuel (d :: read) k
      else if c.toNat < 32 then k.next.fail .controlCharacter
      else readString fuel (c :: read) k.next

def isDigit (c : Char) : Bool := '0' ≤ c && c ≤ '9'

def digitValue (c : Char) : Nat := c.toNat - 48

/-- The digits that come next, and the place after them. -/
def takeDigits (k : Cursor) : List Char × Cursor :=
  let ds := k.rest.takeWhile isDigit
  (ds, ⟨k.rest.dropWhile isDigit, ⟨k.place.line, k.place.column + ds.length⟩⟩)

def greatestWord : Nat := UInt64.size - 1

/-- Appends digits while the significand fits 64 bits, and tells how many were taken. -/
def gather : List Char → Nat → Nat → Nat × Nat
  | [], significand, taken => (significand, taken)
  | d :: ds, significand, taken =>
    let n := significand * 10 + digitValue d
    if greatestWord < n then (significand, taken) else gather ds n (taken + 1)

def powerOfTen (k : Nat) : Binary64 := (Binary64.ofDecimal? false 1 k).getD (.zero false)

/-- A significand scaled by a power of ten with one rounding each for the significand, the power and
their product; a power below `1e-308` is taken in steps. -/
def scaleTen : (fuel : Nat) → Binary64 → Int → Option Binary64
  | 0, x, _ => some x
  | fuel + 1, x, e =>
    if e.natAbs ≤ 308 then
      if 0 ≤ e then x.mul? (powerOfTen e.natAbs) else x.div? (powerOfTen e.natAbs)
    else if x.isZero then some x
    else if 0 ≤ e then none
    else match x.div? (powerOfTen 308) with
      | some y => scaleTen fuel y (e + 308)
      | none => none

def realOf (negative : Bool) (significand : Nat) (exponent : Int) (k : Cursor) :
    Except ReadError (JsonNumber × Cursor) :=
  match scaleTen 8 (Binary64.ofInt significand) exponent with
  | some x => .ok (.real (if negative then x.neg else x), k)
  | none => k.fail .numberRange

/-- Clamped to 32 bits. -/
def clampExponent (e : Int) : Int := max Int32.minValue.toInt (min Int32.maxValue.toInt e)

/-- The value of exponent digits; `none` with the place of the digit that exceeds 32 bits. -/
def exponentValue : List Char → Nat → Cursor → Option Nat × Cursor
  | [], n, k => (some n, k)
  | d :: ds, n, k =>
    let n' := n * 10 + digitValue d
    if Int32.maxValue.toInt < n' then (none, k.next) else exponentValue ds n' k.next

/-- The part of a number from its exponent mark on. -/
def readExponent (negative : Bool) (significand : Nat) (start : Int) (k : Cursor) :
    Except ReadError (JsonNumber × Cursor) :=
  let k := k.next
  let lowered := k.rest.head? = some '-'
  let k := if lowered || k.rest.head? = some '+' then k.next else k
  match k.rest with
  | [] => k.fail .endOfValue
  | c :: _ =>
    if isDigit c then
      let digits := takeDigits k
      match exponentValue digits.1 0 k with
      | (some e, k) =>
        realOf negative significand (clampExponent (if lowered then start - e else start + e)) k
      | (none, at') =>
        if significand ≠ 0 && !lowered then at'.fail .numberRange
        else .ok (.real (.zero negative), digits.2)
    else k.next.fail .badNumber

def startsExponent (k : Cursor) : Bool :=
  k.rest.head? = some 'e' || k.rest.head? = some 'E'

/-- The part of a number from its point on. -/
def readFraction (negative : Bool) (significand : Nat) (start : Int) (k : Cursor) :
    Except ReadError (JsonNumber × Cursor) :=
  let (ds, k) := takeDigits k.next
  if ds.isEmpty then
    k.failPeek (if k.rest.isEmpty then .endOfValue else .badNumber)
  else
    let (significand, taken) := gather ds significand 0
    let e := start - taken
    if startsExponent k then readExponent negative significand e k
    else realOf negative significand e k

/-- A number without fraction and exponent. -/
def wholeOf (negative : Bool) (significand : Nat) (dropped : Nat) (k : Cursor) :
    Except ReadError (JsonNumber × Cursor) :=
  if dropped ≠ 0 then realOf negative significand dropped k
  else if !negative then .ok (.whole significand, k)
  else if significand = 0 || UInt64.size / 2 < significand then
    .ok (.real (Binary64.ofInt significand).neg, k)
  else .ok (.whole (-significand), k)

/-- A number after its sign. -/
def readNumber (negative : Bool) (k : Cursor) : Except ReadError (JsonNumber × Cursor) :=
  match k.rest with
  | [] => k.fail .endOfValue
  | c :: cs =>
    if !isDigit c then k.next.fail .badNumber
    else if c = '0' && (cs.head?.map isDigit).getD false then k.next.failPeek .badNumber
    else
      let (ds, k) := takeDigits k
      let (significand, taken) := gather ds 0 0
      let dropped := ds.length - taken
      if k.rest.head? = some '.' then readFraction negative significand dropped k
      else if startsExponent k then readExponent negative significand dropped k
      else wholeOf negative significand dropped k

mutual

/-- One value. `depth` counts the containers that may still be opened, and one more. -/
def readValue : (fuel depth : Nat) → Cursor → Except ReadError (Json × Cursor)
  | 0, _, k => k.fail .depthLimit
  | fuel + 1, depth, k =>
    let k := k.skipBlanks
    match k.rest with
    | [] => k.failPeek .endOfValue
    | c :: _ =>
      if c = 'n' then (readWord ['u', 'l', 'l'] k.next).map fun k => (.null, k)
      else if c = 't' then (readWord ['r', 'u', 'e'] k.next).map fun k => (.bool true, k)
      else if c = 'f' then (readWord ['a', 'l', 's', 'e'] k.next).map fun k => (.bool false, k)
      else if c = '-' then (readNumber true k.next).map fun r => (.number r.1, r.2)
      else if isDigit c then (readNumber false k).map fun r => (.number r.1, r.2)
      else if c = '"' then
        (readString (k.rest.length + 1) [] k.next).map fun r => (.string r.1, r.2)
      else if c = '[' then
        if depth ≤ 1 then k.failPeek .depthLimit
        else (readItems fuel (depth - 1) true [] k.next).map fun r => (.array r.1, r.2)
      else if c = '\x7b' then
        if depth ≤ 1 then k.failPeek .depthLimit
        else (readEntries fuel (depth - 1) true [] k.next).map fun r => (.object r.1, r.2)
      else k.failPeek .expectedValue

/-- The items of a list up to its end; `read` holds those read, last first. -/
def readItems : (fuel depth : Nat) → (first : Bool) → (read : List Json) → Cursor →
    Except ReadError (List Json × Cursor)
  | 0, _, _, _, k => k.fail .depthLimit
  | fuel + 1, depth, first, read, k =>
    let k := k.skipBlanks
    match k.rest with
    | [] => k.failPeek .endOfList
    | c :: _ =>
      if c = ']' then .ok (read.reverse, k.next)
      else if first then do
        let (v, k) ← readValue fuel depth k
        readItems fuel depth false (v :: read) k
      else if c = ',' then
        let k := k.next.skipBlanks
        match k.rest with
        | [] => k.failPeek .endOfValue
        | d :: _ =>
          if d = ']' then k.failPeek .trailingComma
          else do
            let (v, k) ← readValue fuel depth k
            readItems fuel depth false (v :: read) k
      else k.failPeek .expectedListEnd

/-- The entries of an object up to its end, in sorted order. -/
def readEntries : (fuel depth : Nat) → (first : Bool) → (read : List (String × Json)) → Cursor →
    Except ReadError (List (String × Json) × Cursor)
  | 0, _, _, _, k => k.fail .depthLimit
  | fuel + 1, depth, first, read, k =>
    let k := k.skipBlanks
    match k.rest with
    | [] => k.failPeek .endOfObject
    | c :: _ =>
      if c = '\x7d' then .ok (read, k.next)
      else if first then
        if c = '"' then readEntry fuel depth read k else k.failPeek .keyNotString
      else if c = ',' then
        let k := k.next.skipBlanks
        match k.rest with
        | [] => k.failPeek .endOfValue
        | d :: _ =>
          if d = '"' then readEntry fuel depth read k
          else if d = '\x7d' then k.failPeek .trailingComma
          else k.failPeek .keyNotString
      else k.failPeek .expectedObjectEnd

/-- One entry, from the quote of its key, and those after it. -/
def readEntry : (fuel depth : Nat) → (read : List (String × Json)) → Cursor →
    Except ReadError (List (String × Json) × Cursor)
  | 0, _, _, k => k.fail .depthLimit
  | fuel + 1, depth, read, k => do
    let (key, k) ← readString (k.rest.length + 1) [] k.next
    let k := k.skipBlanks
    match k.rest with
    | [] => k.failPeek .endOfObject
    | c :: _ =>
      if c = ':' then do
        let (v, k) ← readValue fuel depth k.next
        readEntries fuel depth false (insertEntry key v read) k
      else k.failPeek .expectedColon

end

/-- At most this many containers stand inside each other. -/
def greatestDepth : Nat := 127

/-- Reads a whole text. -/
def parse (s : String) : Except ReadError Json := do
  let (v, k) ← readValue (3 * s.toList.length + 3) (greatestDepth + 1) (Cursor.ofString s)
  let k := k.skipBlanks
  match k.rest with
  | [] => pure v
  | _ :: _ => k.failPeek .trailingText

end Triglot.Json
