import Triglot.Text.Basic
import Triglot.Workspace.Path

/-! Files and directories as a tree, and the ways in which paths lead through it. -/
namespace Triglot

/-- A file without a text holds bytes that encode none. The children of a directory are sorted. -/
inductive Tree where
  | file (text : Option String)
  | directory (children : List (String × Tree))
deriving Inhabited, Repr

namespace Tree

def empty : Tree := .directory []

def children : Tree → List (String × Tree)
  | .file _ => []
  | .directory cs => cs

def isDirectory : Tree → Bool
  | .file _ => false
  | .directory _ => true

def isFile (t : Tree) : Bool := !t.isDirectory

/-- Places a child in sorted order, over one of the same name. -/
def insertChild (name : String) (child : Tree) : List (String × Tree) → List (String × Tree)
  | [] => [(name, child)]
  | (n, c) :: rest =>
    if name < n then (name, child) :: (n, c) :: rest
    else if name = n then (name, child) :: rest
    else (n, c) :: insertChild name child rest

def get? (t : Tree) : List String → Option Tree
  | [] => some t
  | name :: names => (t.children.lookup name).bind fun c => c.get? names

/-- Sets the entry at a place; directories on the way are made. -/
def set (t : Tree) (names : List String) (entry : Tree) : Tree :=
  match names with
  | [] => entry
  | name :: names =>
    let child := (t.children.lookup name).getD .empty
    .directory (insertChild name (child.set names entry) t.children)

mutual

/-- All files below an entry, depth first, each with its path. -/
def walk (path : String) : Tree → List (String × Option String)
  | .file text => [(path, text)]
  | .directory cs => walkChildren path cs

def walkChildren (path : String) : List (String × Tree) → List (String × Option String)
  | [] => []
  | (name, t) :: rest => walk (Path.join path name) t ++ walkChildren path rest

end

def files (t : Tree) : List (String × Option String) := t.walk ""

/-- The files of a tree that an earlier tree lacks or has with another text. -/
def changes (after before : Tree) : List (String × String) :=
  after.files.filterMap fun (path, text) =>
    match text with
    | none => none
    | some t => if before.files.lookup path = some (some t) then none else some (path, t)

end Tree

/-- Why a file operation fails. -/
inductive FileError where
  | notFound
  | alreadyExists
  | notDirectory
  | isDirectory
deriving DecidableEq, Repr

def FileError.message : FileError → String
  | .notFound => "No such file or directory (os error 2)"
  | .alreadyExists => "File exists (os error 17)"
  | .notDirectory => "Not a directory (os error 20)"
  | .isDirectory => "Is a directory (os error 21)"

/-- A tree from the root, and the directory from which relative paths lead. -/
structure FileSystem where
  root : Tree
  current : List String
deriving Repr

namespace FileSystem

/-- Nothing but the current directory and what leads to it. -/
def bare (current : List String) : FileSystem := ⟨Tree.empty.set current .empty, current⟩

/-- The names of a path, with empty ones. -/
def names (path : String) : List String := (Text.pieces '/' path.toList).map String.ofList

/-- Where a path starts. -/
def start (fs : FileSystem) (path : String) : List String :=
  if Text.startsWith path "/" then [] else fs.current

/-- Follows names from a place. Every place on the way is a directory. -/
def follow (root : Tree) (here : List String) : List String → Option (List String)
  | [] => some here
  | name :: rest =>
    match root.get? here with
    | some (.directory cs) =>
      if name = "" || name = "." then follow root here rest
      else if name = ".." then follow root here.dropLast rest
      else if cs.any (·.1 == name) then follow root (here ++ [name]) rest
      else none
    | _ => none

/-- The place of an entry. -/
def locate? (fs : FileSystem) (path : String) : Option (List String) :=
  if path.isEmpty then none else follow fs.root (fs.start path) (names path)

def get? (fs : FileSystem) (path : String) : Option Tree :=
  (fs.locate? path).bind fs.root.get?

def isFile (fs : FileSystem) (path : String) : Bool := (fs.get? path).any (·.isFile)

def isDirectory (fs : FileSystem) (path : String) : Bool := (fs.get? path).any (·.isDirectory)

/-- The path from the root to a place. -/
def absolute (place : List String) : String :=
  match place with
  | [] => "/"
  | names => String.join (names.map ("/" ++ ·))

/-- The path of an entry from the root, or the path itself if there is none. -/
def display (fs : FileSystem) (path : String) : String :=
  ((fs.locate? path).map absolute).getD path

/-- Makes the directories that lead along names. -/
def makeAlong (root : Tree) (here : List String) : List String → Except FileError Tree
  | [] => .ok root
  | name :: rest =>
    if name = "" || name = "." then makeAlong root here rest
    else if name = ".." then makeAlong root here.dropLast rest
    else
      let place := here ++ [name]
      match root.get? place with
      | some (.directory _) => makeAlong root place rest
      | some (.file _) => .error (if rest.isEmpty then .alreadyExists else .notDirectory)
      | none => makeAlong (root.set place .empty) place rest

def makeDirectories (fs : FileSystem) (path : String) : Except FileError FileSystem := do
  pure { fs with root := ← makeAlong fs.root (fs.start path) (names path) }

/-- Puts a file at a path, with the directories that lead to it. -/
def place (fs : FileSystem) (path : String) (text : Option String) : FileSystem :=
  let names := (names path).filter fun n => n != "" && n != "."
  { fs with root := fs.root.set (fs.start path ++ names) (.file text) }

/-- Writes a text to the last name of a path, in a directory that exists. A path that ends in a
slash or in points can only be that of a directory. -/
def writeFile (fs : FileSystem) (path text : String) : Except FileError FileSystem :=
  let all := names path
  let named := (all.reverse.dropWhile (· == "")).reverse
  let name := named.getLast?.getD "."
  match follow fs.root (fs.start path) named.dropLast with
  | none => .error .notFound
  | some here =>
    if path.isEmpty then .error .notFound
    else if (fs.root.get? here).any (·.isFile) then .error .notDirectory
    else if named.length < all.length || name = "." || name = ".." ||
        (fs.root.get? (here ++ [name])).any (·.isDirectory) then .error .isDirectory
    else .ok { fs with root := fs.root.set (here ++ [name]) (.file (some text)) }

/-- Writes files below a directory, and the directories that they need. What was written before a
failure stays. -/
def writeAll (directory : String) :
    List (String × String) → FileSystem → FileSystem × Option FileError
  | [], fs => (fs, none)
  | (path, text) :: rest, fs =>
    let full := Path.join directory path
    match fs.makeDirectories (Path.parent full) with
    | .error e => (fs, some e)
    | .ok fs =>
      match fs.writeFile full text with
      | .error e => (fs, some e)
      | .ok fs => writeAll directory rest fs

end FileSystem

end Triglot
