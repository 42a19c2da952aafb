import Triglot.Yaml.Token

/-! The tree of a document. Each node has the place where it starts, and a link to an anchored node
keeps the number of the anchor. -/
namespace Triglot.Yaml

inductive Node where
  | scalar (mark : Mark) (anchor : Option Nat) (tag : Option String) (text : String) (plain : Bool)
  | sequence (mark : Mark) (anchor : Option Nat) (tag : Option String) (items : List Node)
  | mapping (mark : Mark) (anchor : Option Nat) (tag : Option String) (entries : List (Node × Node))
  | link (mark : Mark) (anchor : Nat)
deriving Repr, Inhabited

namespace Node

/-- What stands where nothing is written. -/
def empty (m : Mark) : Node := .scalar m none none "" true

def mark : Node → Mark
  | .scalar m .. | .sequence m .. | .mapping m .. | .link m _ => m

mutual

/-- The number of marks in the tree: one for a leaf, two for a collection. -/
def size : Node → Nat
  | .scalar .. => 1
  | .link .. => 1
  | .sequence _ _ _ items => itemsSize items + 2
  | .mapping _ _ _ entries => entriesSize entries + 2

def itemsSize : List Node → Nat
  | [] => 0
  | n :: ns => size n + itemsSize ns

def entriesSize : List (Node × Node) → Nat
  | [] => 0
  | (k, v) :: es => size k + size v + entriesSize es

end

mutual

/-- The anchored nodes in the order in which they start. -/
def anchored (node : Node) : List (Nat × Node) :=
  match node with
  | .scalar m a tag text plain => (a.map fun i => (i, .scalar m a tag text plain)).toList
  | .link .. => []
  | .sequence m a tag items =>
    (a.map fun i => (i, .sequence m a tag items)).toList ++ itemsAnchored items
  | .mapping m a tag entries =>
    (a.map fun i => (i, .mapping m a tag entries)).toList ++ entriesAnchored entries

def itemsAnchored : List Node → List (Nat × Node)
  | [] => []
  | n :: ns => anchored n ++ itemsAnchored ns

def entriesAnchored : List (Node × Node) → List (Nat × Node)
  | [] => []
  | (k, v) :: es => anchored k ++ anchored v ++ entriesAnchored es

end

end Node

/-- Tokens still to be read, with the place behind them and the number of each anchor name. -/
structure Stream where
  tokens : List (Token × Mark)
  finish : Mark
  anchors : List (String × Nat) := []
  handles : List (String × String) := []
deriving Repr

namespace Stream

def peek (s : Stream) : Option Token := s.tokens.head?.map Prod.fst

/-- The place of the next token. -/
def mark (s : Stream) : Mark := (s.tokens.head?.map Prod.snd).getD s.finish

def next (s : Stream) : Stream := { s with tokens := s.tokens.drop 1 }

/-- A number for an anchor: that of names so far. A name that comes again is moved to its new
number. -/
def name (s : Stream) (anchor : String) : Nat × Stream :=
  let number := s.anchors.length
  let moved := s.anchors.map fun a => if a.1 = anchor then (anchor, number) else a
  let anchors :=
    if s.anchors.any (·.1 == anchor) then moved else s.anchors ++ [(anchor, number)]
  (number, { s with anchors })

/-- The full tag of a handle and a suffix. -/
def fullTag (s : Stream) (handle suffix : String) : Except Fault String :=
  if handle.isEmpty then .ok suffix
  else match s.handles.lookup handle with
    | some start => .ok (start ++ suffix)
    | none => .error (.near .undefinedTagHandle s.mark)

/-- Anchor and tag before a node, in either order, and where they start. -/
structure Properties where
  mark : Mark
  anchor : Option Nat := none
  tag : Option String := none
deriving DecidableEq, Repr

def readTag (s : Stream) : Except Fault (Option String × Stream) :=
  match s.peek with
  | some (.tag handle suffix) => do pure (some (← s.fullTag handle suffix), s.next)
  | _ => .ok (none, s)

/-- The properties of a node. -/
def properties (s : Stream) : Except Fault (Properties × Stream) := do
  let mark := s.mark
  let anchored (name : Option String) (tag : Option String) (s : Stream) : Properties × Stream :=
    match name with
    | some name =>
      let (number, s) := s.name name
      (⟨mark, some number, tag⟩, s)
    | none => (⟨mark, none, tag⟩, s)
  match s.peek with
  | some (.anchor name) =>
    let (tag, s) ← readTag s.next
    pure (anchored (some name) tag s)
  | some (.tag _ _) =>
    let (tag, s) ← readTag s
    match s.peek with
    | some (.anchor name) => pure (anchored (some name) tag s.next)
    | _ => pure (anchored none tag s)
  | _ => pure (⟨mark, none, none⟩, s)

end Stream

/-- Whether nothing is written before a token. -/
def endsEntry (ends : List Token) (s : Stream) : Bool :=
  match s.peek with
  | some t => ends.contains t
  | none => false

/-- Nothing, which may have properties. -/
def emptyNode (p : Stream.Properties) (s : Stream) : Except Fault (Node × Stream) :=
  if p.anchor.isSome || p.tag.isSome then .ok (.scalar p.mark p.anchor p.tag "" true, s)
  else .error (.near .missingContent s.mark)

mutual

/-- A node; block collections only where they are allowed. -/
def readNode : (fuel : Nat) → (block indentless : Bool) → Stream → Except Fault (Node × Stream)
  | 0, _, _, s => .error (.near .missingContent s.mark)
  | fuel + 1, block, indentless, s =>
    match s.peek with
    | some (.link name) =>
      match s.anchors.lookup name with
      | some number => .ok (.link s.mark number, s.next)
      | none => .error (.near .unknownAnchor s.mark)
    | _ => do
      let (p, s) ← s.properties
      match s.peek with
      | some .blockEntry =>
        if indentless then do
          let (items, s) ← readIndentless fuel s
          pure (.sequence p.mark p.anchor p.tag items, s)
        else emptyNode p s
      | some (.scalar text plain) =>
        let tag := if p.tag = some "!" then none else p.tag
        pure (.scalar p.mark p.anchor tag text plain, s.next)
      | some .flowSequenceStart =>
        let (items, s) ← readFlowSequence fuel true s.next
        pure (.sequence p.mark p.anchor p.tag items, s)
      | some .flowMappingStart =>
        let (entries, s) ← readFlowMapping fuel true s.next
        pure (.mapping p.mark p.anchor p.tag entries, s)
      | some .blockSequenceStart =>
        if block then do
          let (items, s) ← readBlockSequence fuel s.next
          pure (.sequence p.mark p.anchor p.tag items, s)
        else emptyNode p s
      | some .blockMappingStart =>
        if block then do
          let (entries, s) ← readBlockMapping fuel s.next
          pure (.mapping p.mark p.anchor p.tag entries, s)
        else emptyNode p s
      | _ => emptyNode p s

/-- A node unless one of some tokens follows. -/
def readUnless : (fuel : Nat) → (ends : List Token) → (block indentless : Bool) → Stream →
    Except Fault (Node × Stream)
  | 0, _, _, _, s => .error (.near .missingContent s.mark)
  | fuel + 1, ends, block, indentless, s =>
    if endsEntry ends s then .ok (.empty s.mark, s) else readNode fuel block indentless s

def readBlockSequence : (fuel : Nat) → Stream → Except Fault (List Node × Stream)
  | 0, s => .error (.near .missingContent s.mark)
  | fuel + 1, s =>
    match s.peek with
    | some .blockEntry => do
      let (n, s) ← readUnless fuel [.blockEntry, .blockEnd] true false s.next
      let (ns, s) ← readBlockSequence fuel s
      pure (n :: ns, s)
    | some .blockEnd => .ok ([], s.next)
    | _ => .error (.near .missingEntry s.mark)

/-- A sequence that is not indented more than the key before it. -/
def readIndentless : (fuel : Nat) → Stream → Except Fault (List Node × Stream)
  | 0, s => .error (.near .missingContent s.mark)
  | fuel + 1, s =>
    match s.peek with
    | some .blockEntry => do
      let (n, s) ← readUnless fuel [.blockEntry, .key, .value, .blockEnd] true false s.next
      let (ns, s) ← readIndentless fuel s
      pure (n :: ns, s)
    | _ => .ok ([], s)

def readBlockMapping : (fuel : Nat) → Stream → Except Fault (List (Node × Node) × Stream)
  | 0, s => .error (.near .missingContent s.mark)
  | fuel + 1, s =>
    match s.peek with
    | some .key => do
      let ends := [.key, .value, .blockEnd]
      let (k, s) ← readUnless fuel ends true true s.next
      let (v, s) ← (match s.peek with
        | some .value => readUnless fuel ends true true s.next
        | _ => .ok (.empty s.mark, s))
      let (es, s) ← readBlockMapping fuel s
      pure ((k, v) :: es, s)
    | some .blockEnd => .ok ([], s.next)
    | _ => .error (.near .missingEntry s.mark)

/-- The items of a flow sequence. A key makes a mapping of one entry. -/
def readFlowSequence : (fuel : Nat) → (first : Bool) → Stream → Except Fault (List Node × Stream)
  | 0, _, s => .error (.near .missingContent s.mark)
  | fuel + 1, first, s =>
    if s.peek = some .flowSequenceEnd then .ok ([], s.next)
    else if !first && s.peek != some .flowEntry then .error (.near .missingEntry s.mark)
    else do
      let s := if first then s else s.next
      match s.peek with
      | some .flowSequenceEnd => pure ([], s.next)
      | some .key =>
        let start := s.mark
        let (entry, s) ← readPair fuel s.next
        let (ns, s) ← readFlowSequence fuel false s
        pure (.mapping start none none [entry] :: ns, s)
      | _ =>
        let (n, s) ← readNode fuel false false s
        let (ns, s) ← readFlowSequence fuel false s
        pure (n :: ns, s)

/-- The entry of a mapping inside a flow sequence. A key of nothing takes the next token with it. -/
def readPair : (fuel : Nat) → Stream → Except Fault ((Node × Node) × Stream)
  | 0, s => .error (.near .missingContent s.mark)
  | fuel + 1, s => do
    let (k, s) ← if endsEntry [.value, .flowEntry, .flowSequenceEnd] s then pure (.empty s.mark, s.next)
      else readNode fuel false false s
    let (v, s) ← (match s.peek with
      | some .value => readUnless fuel [.flowEntry, .flowSequenceEnd] false false s.next
      | _ => .ok (.empty s.mark, s))
    pure ((k, v), s)

def readFlowMapping : (fuel : Nat) → (first : Bool) → Stream →
    Except Fault (List (Node × Node) × Stream)
  | 0, _, s => .error (.near .missingContent s.mark)
  | fuel + 1, first, s =>
    if s.peek = some .flowMappingEnd then .ok ([], s.next)
    else if !first && s.peek != some .flowEntry then .error (.near .missingEntry s.mark)
    else do
      let s := if first then s else s.next
      match s.peek with
      | some .flowMappingEnd => pure ([], s.next)
      | some .key =>
        let (k, s) ← readUnless fuel [.value, .flowEntry, .flowMappingEnd] false false s.next
        let (v, s) ← (match s.peek with
          | some .value => readUnless fuel [.flowEntry, .flowMappingEnd] false false s.next
          | _ => .ok (.empty s.mark, s))
        let (es, s) ← readFlowMapping fuel false s
        pure ((k, v) :: es, s)
      | _ =>
        let (k, s) ← readNode fuel false false s
        let (es, s) ← readFlowMapping fuel false s
        pure ((k, .empty k.mark) :: es, s)

end

/-- The directives before a document: one version at most, and each handle once. -/
def readDirectives (version : Bool) (handles : List (String × String)) :
    List (Token × Mark) → Except Fault (Bool × List (String × String) × List (Token × Mark))
  | (.versionDirective major minor, m) :: ts =>
    if version || major != 1 || (minor != 1 && minor != 2) then
      .error (.near .incompatibleVersion m)
    else readDirectives true handles ts
  | (.tagDirective handle start, m) :: ts =>
    if handles.any (·.1 == handle) then .error (.near .directive m)
    else readDirectives version (handles ++ [(handle, start)]) ts
  | ts => .ok (version, handles, ts)

/-- Handles that need no directive. -/
def defaultHandles : List (String × String) := [("!", "!"), ("!!", "tag:yaml.org,2002:")]

/-- The content of a document that starts with a marker may be nothing. -/
def readDocument (ts : List (Token × Mark)) (finish : Mark) : Except Fault (Node × Stream) := do
  let (version, handles, ts) ← readDirectives false [] ts
  let fuel := 2 * ts.length + 4
  let handles' := handles ++ defaultHandles
  match ts with
  | (.documentStart, _) :: ts =>
    let s : Stream := { tokens := ts, finish, handles := handles' }
    match s.peek with
    | none | some .documentStart | some .documentEnd | some (.versionDirective _ _)
    | some (.tagDirective _ _) => pure (.empty s.mark, s)
    | _ => readNode fuel true false s
  | ts =>
    let s : Stream := { tokens := ts, finish, handles := handles' }
    if version || !handles.isEmpty then .error (.near .directive s.mark)
    else readNode fuel true false s

/-- The one document of a text; none at all is nothing. -/
def Node.parse (text : String) : Except Fault Node := do
  match ← Token.scan text with
  | ([], finish) => pure (.empty finish)
  | (ts, finish) =>
    let (node, s) ← readDocument ts finish
    if s.tokens.all (·.1 == .documentEnd) then pure node else .error ⟨.severalDocuments, none⟩

end Triglot.Yaml
