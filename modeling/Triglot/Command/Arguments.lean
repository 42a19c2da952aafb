import Triglot.Model.Target
import Triglot.Text.Basic

/-! The command line: a subcommand with its options, read from left to right. -/
namespace Triglot

inductive Command where
  | generate (path : String) (out : Option String) (targets : List Target) (splitProto : Bool)
  | validate (path : String)
  | check (path : String)
  | schema (settings : Bool)
deriving DecidableEq, Repr

/-- What a command line asks for. -/
inductive Request where
  | run (command : Command)
  | version (program : String)
  | help
  | unusable
deriving DecidableEq, Repr

def programName : String := "idlmux"

inductive Subcommand where
  | generate
  | validate
  | check
  | schema
deriving DecidableEq, Repr

namespace Subcommand

def name : Subcommand → String
  | .generate => "generate"
  | .validate => "validate"
  | .check => "check"
  | .schema => "schema"

def all : List Subcommand := [.generate, .validate, .check, .schema]

def ofName? (name : String) : Option Subcommand := all.find? (·.name == name)

end Subcommand

/-- What an argument that starts with a hyphen asks for. -/
inductive Switch where
  | verbose
  | version
  | help
  | out
  | target
  | splitProto
  | settings
deriving DecidableEq, Repr

namespace Switch

def takesValue : Switch → Bool
  | .out | .target => true
  | _ => false

def common : List (String × Switch) :=
  [("verbose", .verbose), ("version", .version), ("help", .help)]

/-- The options of a subcommand by their long names. -/
def long : Subcommand → List (String × Switch)
  | .generate => [("out", .out), ("target", .target), ("split-proto", .splitProto)] ++ common
  | .schema => ("config", .settings) :: common
  | _ => common

def commonShort : List (Char × Switch) := [('v', .verbose), ('V', .version), ('h', .help)]

def short : Subcommand → List (Char × Switch)
  | .generate => [('o', .out), ('t', .target)] ++ commonShort
  | _ => commonShort

end Switch

/-- The options of a subcommand that have been read. -/
structure Parsed where
  path : Option String := none
  out : Option String := none
  targets : List Target := []
  splitProto : Bool := false
  settings : Bool := false
deriving DecidableEq, Repr

namespace Parsed

/-- The command of a subcommand; the path is the current directory unless given. -/
def command (p : Parsed) : Subcommand → Command
  | .generate => .generate (p.path.getD ".") p.out p.targets p.splitProto
  | .validate => .validate (p.path.getD ".")
  | .check => .check (p.path.getD ".")
  | .schema => .schema p.settings

/-- Takes a path, which is not empty and stands once. -/
def positional (p : Parsed) (sub : Subcommand) (text : String) : Except Request Parsed :=
  if sub = .schema || p.path.isSome || text.isEmpty then .error .unusable
  else .ok { p with path := some text }

/-- Takes an option without a value. -/
def flag (p : Parsed) (sub : Subcommand) : Switch → Except Request Parsed
  | .verbose => .ok p
  | .version => .error (.version (programName ++ "-" ++ sub.name))
  | .help => .error .help
  | .splitProto => if p.splitProto then .error .unusable else .ok { p with splitProto := true }
  | .settings => if p.settings then .error .unusable else .ok { p with settings := true }
  | .out | .target => .error .unusable

/-- Takes an option with its value. -/
def option (p : Parsed) (o : Switch) (text : String) : Except Request Parsed :=
  match o with
  | .out => if p.out.isSome || text.isEmpty then .error .unusable else .ok { p with out := some text }
  | .target =>
    match Target.parse text with
    | .ok t => .ok { p with targets := p.targets ++ [t] }
    | .error _ => .error .unusable
  | _ => .error .unusable

/-- Takes short options that stand together; the last one may wait for its value. -/
def cluster (sub : Subcommand) (p : Parsed) : List Char → Except Request (Parsed × Option Switch)
  | [] => .ok (p, none)
  | c :: cs =>
    match (Switch.short sub).lookup c with
    | none => .error .unusable
    | some o =>
      if o.takesValue then
        match cs with
        | [] => .ok (p, some o)
        | '=' :: value => (p.option o (String.ofList value)).map (·, none)
        | value => (p.option o (String.ofList value)).map (·, none)
      else do cluster sub (← p.flag sub o) cs

/-- Takes one argument; an option at its end may wait for its value. -/
def argument (sub : Subcommand) (p : Parsed) (text : String) :
    Except Request (Parsed × Option Switch) :=
  match text.toList with
  | '-' :: '-' :: cs =>
    let (name, value) := match Text.cutFirst '=' cs with
      | some (name, value) => (name, some (String.ofList value))
      | none => (cs, none)
    match (Switch.long sub).lookup (String.ofList name), value with
    | none, _ => .error .unusable
    | some o, some v => if o.takesValue then (p.option o v).map (·, none) else .error .unusable
    | some o, none => if o.takesValue then .ok (p, some o) else (p.flag sub o).map (·, none)
  | '-' :: c :: cs => cluster sub p (c :: cs)
  | _ => (p.positional sub text).map (·, none)

end Parsed

/-- An argument that can only be an option. -/
def looksLikeOption (text : String) : Bool := Text.startsWith text "-" && text != "-"

/-- The arguments after a subcommand. After two hyphens there are only paths. -/
def readArguments (sub : Subcommand) (p : Parsed) (waiting : Option Switch) :
    List String → Except Request Parsed
  | [] => if waiting.isSome then .error .unusable else .ok p
  | a :: as =>
    match waiting with
    | some o =>
      if looksLikeOption a then .error .unusable
      else do readArguments sub (← p.option o a) none as
    | none =>
      if a = "--" then as.foldlM (fun p a => p.positional sub a) p
      else do
        let (p, waiting) ← p.argument sub a
        readArguments sub p waiting as

/-- Short options before the subcommand. -/
def readShort : List Char → Option Request
  | [] => none
  | c :: cs =>
    match Switch.commonShort.lookup c with
    | some .verbose => readShort cs
    | some .version => some (.version programName)
    | some .help => some .help
    | _ => some .unusable

/-- Help is given for the program and for each subcommand. -/
def helpFor : List String → Request
  | [] => .help
  | a :: _ => if a = "help" || (Subcommand.ofName? a).isSome then .help else .unusable

/-- What the arguments of the program ask for. -/
def Request.ofArguments : List String → Request
  | [] => .unusable
  | a :: as =>
    match a.toList with
    | '-' :: '-' :: name =>
      match Switch.common.lookup (String.ofList name) with
      | some .verbose => ofArguments as
      | some .version => .version programName
      | some .help => .help
      | _ => .unusable
    | '-' :: c :: cs => (readShort (c :: cs)).getD (ofArguments as)
    | _ =>
      if a = "help" then helpFor as
      else match Subcommand.ofName? a with
        | none => .unusable
        | some sub =>
          match readArguments sub {} none as with
          | .ok p => .run (p.command sub)
          | .error r => r

end Triglot
