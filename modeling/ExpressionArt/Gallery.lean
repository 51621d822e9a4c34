import ExpressionArt.Events.Sink
import ExpressionArt.Files.FileTree
import ExpressionArt.Timing.Stages

/-!
# Galleries

Navigation through the pictures of all seeds by a running index. A step moves the index and
draws the picture of the new index alone, so every position can be visited again. Each frame may
be saved to a directory, and an event tells of it.
-/

namespace ExpressionArt

/-- A picture with what it was drawn from. -/
structure Frame where
  index : Int
  picture : Picture
  expression : Expr (Option Operation)

/-- The text shown next to a picture. -/
def Frame.label (f : Frame) : String := toString f.index

/-- Saves the picture of a frame, with the directories above it. -/
def Frame.save (f : Frame) (path : String) : FileAction Unit := do
  let dir := Path.directory path
  if dir ≠ "" then FileTree.makeDirectories dir
  FileTree.write path (.picture f.picture)

structure Gallery where
  size : Size
  generator : Generator
  /-- Where frames are saved; nowhere if it is empty. -/
  outputDir : String
  surroundings : Surroundings

/-- What a visit changes. -/
structure GalleryState where
  index : Value
  /-- Where events go; no events arise without a sink. -/
  sinks : List Sink
  lines : List Line := []
  files : FileTree := []
  profile : Profile := {}

inductive GalleryError where
  | draw (e : DrawError)
  | file (e : FileError)
  | closed (e : ClosedLog)
  /-- A jump to what is no integer. -/
  | notInteger (v : Value)
  /-- The index cannot be counted up or down. -/
  | notCountable

def GalleryError.message : GalleryError → String
  | .draw e => e.message
  | .file e => e.message
  | .closed e => e.message
  | .notInteger v => s!"index must be an integer, got {v.shown}"
  | .notCountable => "index cannot be counted"

/-- A visit may fail; what it changed before stays. -/
abbrev Visit (α : Type) := ExceptT GalleryError (StateM GalleryState) α

inductive Move where
  | current
  | next
  | previous
  | jump (index : Value)
  | render (index : Value)

/-- An index counted up or down. Truth values count as zero and one. -/
def Value.shift (offset : Int) : Value → Option Value
  | .int n => some (.int (n + offset))
  | .bool b => some (.int ((if b then 1 else 0) + offset))
  | .float x => some (.float (x + Float.ofInt offset))
  | _ => none

namespace Gallery

/-- Runs timed drawing in the gallery's profile. -/
def drawing {α : Type} (d : Timed DrawError α) : Visit α := do
  let s ← get
  let (result, profile) := d.run s.profile
  set { s with profile }
  match result with
  | .ok a => return a
  | .error e => throw (.draw e)

/-- Runs a file action in the gallery's files. -/
def filing {α : Type} (a : FileAction α) : Visit α := do
  let s ← get
  let (result, files) := a.run s.files
  set { s with files }
  match result with
  | .ok a => return a
  | .error e => throw (.file e)

/-- The event that tells of a frame. -/
def event (g : Gallery) (f : Frame) (text : String) (path : Option String) : Event where
  type := "render"
  data := [("seed", .int f.index), ("label", .text f.label),
    ("width", .int g.size.width), ("height", .int g.size.height),
    ("depth", .int f.expression.depth), ("node_count", .int f.expression.size),
    ("expression", .text text), ("duration", .float 0),
    ("image_path", (path.map Value.text).getD .absent)]

/-- Sends an event to the sinks. -/
def announce (g : Gallery) (e : Event) : Visit Unit := do
  let s ← get
  let d := deliver g.surroundings e s.sinks
  set { s with sinks := d.sinks, lines := s.lines ++ d.lines }
  match d.failure with
  | none => return
  | some e => throw (.closed e)

/-- The path of the frame of an index. -/
def framePath (g : Gallery) (index : Int) : String := Path.join g.outputDir s!"{index}.png"

/-- Saves a frame, if frames are saved, and says where. -/
def keep (g : Gallery) (f : Frame) : Visit (Option String) := do
  if g.outputDir = "" then return none
  else
    filing (f.save (g.framePath f.index))
    return some (g.framePath f.index)

/-- Tells of a frame, if anyone listens. -/
def report (g : Gallery) (f : Frame) (path : Option String) : Visit Unit := do
  if (← get).sinks.isEmpty then return
  else
    match f.expression.text with
    | .ok text => g.announce (g.event f text path)
    | .error e => throw (.draw (.wording e))

/-- Draws the picture of an index, whatever the running index is. -/
def render (g : Gallery) (index : Value) : Visit Frame := do
  let seed ← drawing (untimed ((seedOf index).mapError .seed))
  let (expression, picture) ← drawing (g.generator.drawSeedTimed seed g.size)
  let frame : Frame := ⟨seed, picture, expression⟩
  g.report frame (← g.keep frame)
  return frame

/-- Draws the picture of the running index. -/
def current (g : Gallery) : Visit Frame := do g.render (← get).index

/-- Moves the running index, then draws. The index stays moved also when drawing fails. -/
def shift (g : Gallery) (offset : Int) : Visit Frame := do
  match (← get).index.shift offset with
  | none => throw .notCountable
  | some index =>
    modify ({ · with index })
    g.current

/-- Moves the running index to an integer, then draws. Anything else is refused. -/
def jump (g : Gallery) (index : Value) : Visit Frame := do
  match index.int? with
  | none => throw (.notInteger index)
  | some n =>
    modify ({ · with index := .int n })
    g.current

def go (g : Gallery) : Move → Visit Frame
  | .current => g.current
  | .next => g.shift 1
  | .previous => g.shift (-1)
  | .jump v => g.jump v
  | .render v => g.render v

end Gallery

end ExpressionArt
