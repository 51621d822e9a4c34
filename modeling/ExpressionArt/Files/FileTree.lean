import ExpressionArt.Files.Path
import ExpressionArt.Picture.Basic

/-!
# File trees

Directories and files below a directory that is there from the start. Files hold text or a
picture. Each operation either changes the tree or fails, as a real file system would.
-/

namespace ExpressionArt

inductive FileContent where
  | text (s : String)
  | picture (p : Picture)

inductive FileNode where
  | directory
  | file (content : FileContent)

namespace FileNode

def isDirectory : FileNode → Bool
  | .directory => true
  | .file _ => false

end FileNode

/-- What is at each place. -/
abbrev FileTree := List (Place × FileNode)

inductive FileFault where
  | missing
  | exists
  | notDirectory
  | isDirectory
  | nameTooLong
  /-- The path holds a null character. -/
  | embeddedNull
deriving DecidableEq, Repr

namespace FileFault

/-- The number of a fault that the file system reports. -/
def number? : FileFault → Option Nat
  | .missing => some 2
  | .exists => some 17
  | .notDirectory => some 20
  | .isDirectory => some 21
  | .nameTooLong => some 36
  | .embeddedNull => none

def description : FileFault → String
  | .missing => "No such file or directory"
  | .exists => "File exists"
  | .notDirectory => "Not a directory"
  | .isDirectory => "Is a directory"
  | .nameTooLong => "File name too long"
  | .embeddedNull => "embedded null byte"

end FileFault

structure FileError where
  fault : FileFault
  path : String
deriving DecidableEq, Repr

def FileError.message (e : FileError) : String :=
  match e.fault.number? with
  | some n => s!"[Errno {n}] {e.fault.description}: {quoted e.path}"
  | none => e.fault.description

/-- A change of a file tree that may fail; what was changed before the failure stays. -/
abbrev FileAction (α : Type) := ExceptT FileError (StateM FileTree) α

/-- A name in a directory has at most this many bytes. -/
def maxNameBytes : Nat := 255

/-- A path has at most this many bytes. -/
def maxPathBytes : Nat := 4095

namespace FileTree

/-- What is at a place. The start, the root and what is above the start are directories. -/
def find? (t : FileTree) (place : Place) : Option FileNode :=
  if place.isOutside then some .directory else t.lookup place

def put (t : FileTree) (place : Place) (node : FileNode) : FileTree :=
  if t.any (·.1 == place) then t.map fun e => if e.1 = place then (place, node) else e
  else t ++ [(place, node)]

/-- The place that steps lead to from a place. All but the last must lead to directories. -/
def walk (t : FileTree) (place : Place) : List String → Except FileFault Place
  | [] => .ok place
  | s :: ss =>
    match t.find? place with
    | none => .error .missing
    | some (.file _) => .error .notDirectory
    | some .directory =>
      if maxNameBytes < s.utf8ByteSize then .error .nameTooLong
      else walk t (place.step s) ss

/-- The place of a path. No place has an empty path. -/
def locate (t : FileTree) (path : String) : Except FileFault Place :=
  if Path.hasNull path then .error .embeddedNull
  else if path.isEmpty then .error .missing
  else if maxPathBytes < path.utf8ByteSize then .error .nameTooLong
  else t.walk (Place.start path) (Path.steps path)

/-- What a path leads to. A slash at the end asks for a directory. -/
def node? (t : FileTree) (path : String) : Option FileNode :=
  match t.locate path with
  | .error _ => none
  | .ok place => (t.find? place).filter fun n => n.isDirectory || !path.endsWith "/"

def isDirectory (t : FileTree) (path : String) : Bool := (t.node? path).any FileNode.isDirectory

/-- The directories, or the files, below the start: sorted paths with what is there. -/
def listing (t : FileTree) (directories : Bool) : List (String × FileNode) :=
  let found := t.filter fun (place, n) => place.isBelow && n.isDirectory == directories
  (found.map fun (place, n) => (place.path, n)).mergeSort fun a b => a.1 ≤ b.1

def makeDirectory (path : String) : FileAction Unit := do
  let t : FileTree ← get
  match t.locate path with
  | .error fault => throw ⟨fault, path⟩
  | .ok place =>
    if (t.find? place).isSome then throw ⟨.exists, path⟩
    else set (t.put place .directory)

/-- Makes a directory with those above it. One that is there already is no failure. The count
bounds the directories above. -/
def makeDirectoriesWithin : Nat → String → FileAction Unit
  | 0, _ => return
  | n + 1, path => do
    let (head, tail) :=
      match Path.split path with
      | (head, "") => Path.split head
      | parts => parts
    let t : FileTree ← get
    let below := head ≠ "" ∧ tail ≠ "" ∧ (t.node? head).isNone
    if below then
      tryCatch (makeDirectoriesWithin n head) fun e =>
        if e.fault = .exists then return else throw e
    if below ∧ tail = "." then return
    tryCatch (makeDirectory path) fun e => do
      let t : FileTree ← get
      if t.isDirectory path then return else throw e

def makeDirectories (path : String) : FileAction Unit :=
  makeDirectoriesWithin (path.length + 1) path

/-- Writes a file, in place of what it held. -/
def write (path : String) (content : FileContent) : FileAction Unit := do
  let t : FileTree ← get
  match t.locate path with
  | .error fault => throw ⟨fault, path⟩
  | .ok place =>
    if path.endsWith "/" ∨ (t.find? place).any FileNode.isDirectory then
      throw ⟨.isDirectory, path⟩
    else set (t.put place (.file content))

end FileTree

end ExpressionArt
