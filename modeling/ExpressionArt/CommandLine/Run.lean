import ExpressionArt.CommandLine.Options
import ExpressionArt.Gallery

/-!
# Runs

A run renders consecutive seeds to files: it checks its options, makes its directories, opens
a CSV log, walks a gallery forwards or backwards, and says how it went. Faults that are found
before the first picture end the run with a usage error; a fault of a picture ends it with a
status of one.
-/

namespace ExpressionArt

/-- What breaks a run off without a word to the user. -/
inductive Breakdown where
  /-- The log could not be set up. -/
  | file (e : FileError)
  /-- An option is empty that has to hold something. -/
  | emptyOption (name : String)
  /-- There is no such device. -/
  | unknownDevice (name : String)
deriving DecidableEq, Repr

def Breakdown.message : Breakdown → String
  | .file e => e.message
  | .emptyOption name => s!"{name} is empty"
  | .unknownDevice name => s!"no device is named {name}"

inductive Ending where
  | finished (status : Nat)
  | usage (message : String)
  | helpRequested
  | broken (e : Breakdown)
deriving DecidableEq, Repr

/-- The exit status, which tells success, a fault of the run and a usage error apart. -/
def Ending.status : Ending → Nat
  | .finished status => status
  | .helpRequested => 0
  | .broken _ => 1
  | .usage _ => 2

structure Outcome where
  ending : Ending
  output : String
  files : FileTree

namespace Run

/-- A directory that was chosen, or else another one. An empty choice is none. -/
def chosen (choice : Option (Given String)) (other : String) : String :=
  match choice with
  | some (.value dir) => if dir.isEmpty then other else dir
  | some .empty | none => other

/-- Where the log of a run goes. -/
def logDirectory (o : Options) (now : Moment) : String :=
  chosen o.logDir (Path.join "logs" now.runName)

def imageDirectory (o : Options) (now : Moment) : String :=
  chosen o.outputDir (Path.join (logDirectory o now) "images")

def csvPath (o : Options) (now : Moment) : String := Path.join (logDirectory o now) "renders.csv"

/-- A number as an option holds it. An empty option holds an empty list of numbers. -/
def held : Given Int → Value
  | .value n => .int n
  | .empty => .list []

/-- The moves that show each of a number of pictures once. -/
def moves (o : Options) (count : Int) : List Move :=
  .current :: List.replicate (count.toNat - 1) (if o.reverse then .previous else .next)

/-- Devices are numbered below this. -/
def deviceNumbers : Nat := Nat.pow 2 31

/-- A device is the processor, with or without a number. A number has no zeros in front. -/
def isProcessor (device : String) : Bool :=
  match device.toList with
  | ['c', 'p', 'u'] => true
  | ['c', 'p', 'u', ':', '0'] => true
  | 'c' :: 'p' :: 'u' :: ':' :: d :: ds =>
    d != '0' && (d :: ds).all Char.isDigit &&
      decide ((d :: ds).foldl (fun n c => 10 * n + (c.toNat - '0'.toNat)) 0 < deviceNumbers)
  | _ => false

/-- The device of a run is looked at, and pictures are the same on all. -/
def checkDevice (device : Given String) : Except Ending Unit :=
  match device with
  | .empty => .error (.broken (.emptyOption "--device"))
  | .value name => if isProcessor name then .ok () else .error (.broken (.unknownDevice name))

/-- The generator of a run, or how the run ends without one. -/
def generator (o : Options) : Except Ending Generator := do
  checkDevice o.device
  match o.maxDepth with
  | .empty => .error (.broken (.emptyOption "--max_depth"))
  | .value maxDepth =>
    (Generator.make .default Vocabulary.vector maxDepth defaultEpsilon).mapError (.usage ·.message)

/-- The gallery of a run, or how the run ends without one. -/
def gallery (o : Options) (now : Moment) : Except Ending Gallery := do
  let generator ← generator o
  let size ← (Size.ofValues (held o.width) (held o.height)).mapError (.usage ·.message)
  return {
    size, generator
    outputDir := imageDirectory o now
    surroundings := { now, threshold := if o.verbose then .debug else 30 } }

/-- The line that shows the expression of a frame, if it is asked for. -/
def frameLine (o : Options) (f : Frame) : String :=
  match o.showExpression, f.expression.text with
  | true, .ok text => s!"{f.label}: {text}\n"
  | _, _ => ""

/-- Makes the moves one after the other until one fails. The output is what they printed. -/
def walk (g : Gallery) (o : Options) :
    List Move → GalleryState → String × Option GalleryError × GalleryState
  | [], s => ("", none, s)
  | m :: ms, s =>
    match (g.go m).run s with
    | (.ok f, s) =>
      let (output, failure, s) := walk g o ms s
      (frameLine o f ++ output, failure, s)
    | (.error e, s) => ("", some e, s)

/-- The text of a number that an option holds. -/
def shown (n : Given Int) : String := (held n).plain

def opening (o : Options) (now : Moment) : String :=
  s!"Rendering {shown o.count} image(s) of {shown o.width}x{shown o.height} " ++
    s!"starting at index {shown o.seed}.\n" ++
    s!"Images will be saved in: {imageDirectory o now}\n"

/-- The last line about the pictures, and the status. -/
def closing (failure : Option GalleryError) (s : GalleryState) : String × Nat :=
  match failure with
  | none => ("Rendering finished successfully.\n", 0)
  | some e =>
    (s!"An error occurred while rendering index {s.index.plain}: {e.message}\n", 1)

/-- The text of the first CSV log among some sinks. -/
def csvText (sinks : List Sink) : String :=
  (sinks.findSome? fun s =>
    match s with
    | .csv log => some log.text
    | _ => none).getD ""

/-- Walks the gallery over files in which the log has been opened. -/
def perform (g : Gallery) (o : Options) (count : Int) (now : Moment) (files : FileTree) :
    Outcome :=
  let log := CsvLog.create (csvPath o now) [] ["render"]
  let start : GalleryState := {
    index := held o.seed, files
    sinks := [.csv log, .console {}]
    profile := { enabled := o.timeIt } }
  let (shown, failure, s) := walk g o (moves o count) start
  let (last, status) := closing failure s
  let written := (FileTree.write (csvPath o now) (.text (csvText (closeAll s.sinks)))).run s.files
  let report := if o.timeIt then s.profile.timings.report ++ "\n" else ""
  ⟨.finished status, opening o now ++ shown ++ last ++ report, written.2⟩

/-- A run over options, of which the count has been checked. -/
def ofCount (o : Options) (count : Int) (now : Moment) (files : FileTree) : Outcome :=
  match (FileTree.makeDirectories (logDirectory o now)).run files with
  | (.error e, files) => ⟨.broken (.file e), "", files⟩
  | (.ok _, files) =>
    match gallery o now with
    | .error ending => ⟨ending, "", files⟩
    | .ok g =>
      match (FileTree.write (csvPath o now) (.text (Csv.table [renderColumns]))).run files with
      | (.error e, files) => ⟨.broken (.file e), "", files⟩
      | (.ok _, files) => perform g o count now files

/-- A run over options. -/
def ofOptions (o : Options) (now : Moment) (files : FileTree) : Outcome :=
  match o.count with
  | .empty => ⟨.broken (.emptyOption "--count"), "", files⟩
  | .value count =>
    if count ≤ 0 then ⟨.usage "--count must be positive", "", files⟩
    else ofCount o count now files

/-- A run of the command line at a moment, over some files. -/
def ofArguments (args : List String) (now : Moment) (files : FileTree) : Outcome :=
  match Options.ofArguments args with
  | .error .helpRequested => ⟨.helpRequested, "", files⟩
  | .error e => ⟨.usage e.message, "", files⟩
  | .ok o => ofOptions o now files

end Run

end ExpressionArt
