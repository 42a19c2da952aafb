import Triglot.Entries
import Triglot.Graphql.Basic
import Triglot.Namespace.Scope
import Triglot.Text.Case
import Triglot.TypeGraph

/-! The types that stand for maps: an entry for each pairing of a key and a value, and a wrapper for
each nested map. An arena collects them over one document. -/
namespace Triglot.Graphql

/-- A record of a key and a value, in both directions, with the map it stands for. -/
structure EntryType where
  name : String
  key : String
  value : TypeRef
  valueInput : TypeRef
  described : String
deriving DecidableEq, Repr

/-- A record that holds a nested map as a list; the entry is empty until it is known. -/
structure Wrapper where
  name : String
  entry : String
deriving DecidableEq, Repr

structure Arena where
  usage : UsageMap := ⟨[], [], []⟩
  /-- The entries under their names. -/
  named : List (String × EntryType) := []
  /-- The name of the entry for each key and value as they are written. -/
  pairings : List ((String × String) × String) := []
  wrappers : List Wrapper := []
  /-- The wrapper of each signature, the latest first. -/
  signatures : List (String × Nat) := []
  unknownUsed : Bool := false
  reported : List (String × String) := []
  warnings : List Diagnostic := []

namespace Arena

/-- The entries in the order in which they were made. -/
def entries (a : Arena) : List EntryType := a.named.map Prod.snd

def hasName (a : Arena) (name : String) : Bool := (a.named.lookup name).isSome

/-- A name that no entry has: the base, or the base with the least number from two. -/
def freeName (a : Arena) (base : String) : String :=
  ((base :: (List.range a.named.length).map fun i => base ++ toString (i + 2)).find?
    fun n => !a.hasName n).getD base

/-- Keeps an entry unless its pairing has one, and tells the name. -/
def intern (a : Arena) (e : EntryType) : String × Arena :=
  let pairing := (e.key, e.value.text)
  match a.pairings.lookup pairing with
  | some name => (name, a)
  | none =>
    let name := a.freeName e.name
    (name, { a with
      named := putEntry name { e with name } a.named
      pairings := putEntry pairing name a.pairings })

/-- The wrapper that a signature has. -/
def wrapperFor (a : Arena) (signature : String) : Option String :=
  (a.signatures.lookup signature).bind fun i => (a.wrappers[i]?).map Wrapper.name

def wrapperName (index : Nat) : String := "MapWrapper" ++ toString index

/-- A new wrapper for a signature, told by its index. -/
def allocate (a : Arena) (signature : String) : Nat × Arena :=
  let index := a.wrappers.length
  (index, { a with
    wrappers := a.wrappers ++ [⟨wrapperName index, ""⟩]
    signatures := (signature, index) :: a.signatures })

/-- Sets the entry of a wrapper. -/
def complete (a : Arena) (index : Nat) (entry : String) : Arena :=
  { a with wrappers := a.wrappers.modify index fun w => { w with entry } }

/-- Notes a value that only the placeholder stands for; each shape is reported once a namespace. -/
def unknownValue (a : Arena) (shape ns : String) : Arena :=
  if a.reported.contains (shape, ns) then { a with unknownUsed := true }
  else
    { a with
      unknownUsed := true
      reported := (shape, ns) :: a.reported
      warnings := a.warnings ++ [Triglot.unknownValue shape ns] }

def takeWarnings (a : Arena) : List Diagnostic × Arena := (a.warnings, { a with warnings := [] })

end Arena

def placeholderName : String := "UnknownValue"

/-- The spellings of a map value: in both directions, and inside the name of an entry. -/
structure Spelling where
  output : TypeRef
  input : TypeRef
  label : String
deriving DecidableEq, Repr

namespace Spelling

def same (name : String) : Spelling := ⟨.named name, .named name, name⟩

def placeholder : Spelling := same placeholderName

def list (s : Spelling) : Spelling := ⟨.list s.output, .list s.input, s.label ++ "List"⟩

end Spelling

/-- Whether a symbol also has an input form. -/
def hasInput (usage : UsageMap) (s : Symbol) : Bool :=
  match s.kind with
  | .type => usage.needsInput s.ns s.name
  | .union => true
  | .enum => false

/-- The name of a symbol in a direction. -/
def directedName (scope : Scope) (usage : UsageMap) (d : Direction) (s : Symbol) : String :=
  match d with
  | .output => scope.write s
  | .input => if hasInput usage s then inputName (scope.write s) else scope.write s

def declaredSpelling (scope : Scope) (usage : UsageMap) (s : Symbol) : Spelling :=
  ⟨.named (directedName scope usage .output s), .named (directedName scope usage .input s),
    scope.write s⟩

/-- A value that is a name. -/
def namedSpelling (scope : Scope) (name : String) (a : Arena) : Spelling × Arena :=
  match Scalar.ofName? name with
  | some s => (.same (scalarText s), a)
  | none =>
    match scope.resolve name with
    | .ok symbol => (declaredSpelling scope a.usage symbol, a)
    | .error _ => (.placeholder, a.unknownValue name scope.ns)

/-- The element of a list value; lists and maps inside it have no spelling. -/
def elementSpelling (scope : Scope) (items : TypeExpr) (a : Arena) : Spelling × Arena :=
  match items with
  | .named name _ => namedSpelling scope name a
  | t => (.placeholder, a.unknownValue t.signature scope.ns)

/-- The spelling of a map key. -/
def keyText (key : String) : String :=
  match Scalar.ofName? key with
  | some s => scalarText s
  | none => "String"

/-- The entry for a map whose value has a spelling. -/
def entryFor (key : String) (value : TypeExpr) (s : Spelling) : EntryType where
  name := Text.upperFirst (keyText key) ++ Text.upperFirst s.label ++ "Entry"
  key := keyText key
  value := s.output
  valueInput := s.input
  described := "map<" ++ key ++ ", " ++ value.signature ++ ">"

/-- The spelling of a map value. A nested map becomes a wrapper, one for each signature; it is known
before its own entry is made. -/
def valueSpelling (scope : Scope) : TypeExpr → Arena → Spelling × Arena
  | .named name _, a => namedSpelling scope name a
  | .array items _, a =>
    let (s, a) := elementSpelling scope items a
    (s.list, a)
  | .map key value o, a =>
    let signature := (TypeExpr.map key value o).signature
    let wrapped (name : String) : Spelling := ⟨.named name, .named (inputName name), name⟩
    match a.wrapperFor signature with
    | some name => (wrapped name, a)
    | none =>
      let (index, a) := a.allocate signature
      let (s, a) := valueSpelling scope value a
      let (entry, a) := a.intern (entryFor key value s)
      (wrapped (Arena.wrapperName index), a.complete index entry)

/-- The name of the entry type of a map. -/
def synthesizeMap (scope : Scope) (key : String) (value : TypeExpr) (a : Arena) : String × Arena :=
  let (s, a) := valueSpelling scope value a
  a.intern (entryFor key value s)

end Triglot.Graphql
