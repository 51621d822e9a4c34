import ExpressionArt.Generator
import ExpressionArt.Text.Integer

/-!
# Options

The options of a run and how arguments name them. A long option may be cut to a prefix that no
other option shares, and may carry its value behind an equals sign; a later value replaces an
earlier one. Two dashes behind an equals sign are no value: they leave the option empty. Arguments
are told apart first, all of them, and only then read from left to right.
-/

namespace ExpressionArt

/-- What an option was given: a value, or nothing at all. -/
inductive Given (α : Type) where
  | value (a : α)
  | empty
deriving DecidableEq, Repr

structure Options where
  seed : Given Int := .value 0
  count : Given Int := .value 1
  reverse : Bool := false
  width : Given Int := .value 256
  height : Given Int := .value 256
  maxDepth : Given Int := .value defaultMaxDepth
  outputDir : Option (Given String) := none
  logDir : Option (Given String) := none
  device : Given String := .value "cpu"
  showExpression : Bool := false
  timeIt : Bool := false
  verbose : Bool := false
deriving DecidableEq, Repr

/-- What an option does with its value. A switch has none. -/
inductive Setting where
  | integer (set : Given Int → Options → Options)
  | text (set : Given String → Options → Options)
  | switch (set : Options → Options)
  | help

structure OptionSpec where
  name : String
  setting : Setting

namespace OptionSpec

/-- All options, in the order in which messages list them. -/
def all : List OptionSpec := [
  ⟨"--help", .help⟩,
  ⟨"--seed", .integer fun n o => { o with seed := n }⟩,
  ⟨"--count", .integer fun n o => { o with count := n }⟩,
  ⟨"--reverse", .switch fun o => { o with reverse := true }⟩,
  ⟨"--width", .integer fun n o => { o with width := n }⟩,
  ⟨"--height", .integer fun n o => { o with height := n }⟩,
  ⟨"--max_depth", .integer fun n o => { o with maxDepth := n }⟩,
  ⟨"--output_dir", .text fun s o => { o with outputDir := some s }⟩,
  ⟨"--log_dir", .text fun s o => { o with logDir := some s }⟩,
  ⟨"--device", .text fun s o => { o with device := s }⟩,
  ⟨"--show_expression", .switch fun o => { o with showExpression := true }⟩,
  ⟨"--time_it", .switch fun o => { o with timeIt := true }⟩,
  ⟨"--verbose", .switch fun o => { o with verbose := true }⟩]

/-- The option for help, which also has a short name. -/
def help : OptionSpec := ⟨"--help", .help⟩

/-- The line of an overview that shows an option. -/
def overview (spec : OptionSpec) : String :=
  match spec.setting with
  | .integer _ => s!"  {spec.name} NUMBER\n"
  | .text _ => s!"  {spec.name} TEXT\n"
  | .switch _ | .help => s!"  {spec.name}\n"

/-- How messages name an option. -/
def shown (spec : OptionSpec) : String :=
  match spec.setting with
  | .help => "-h/--help"
  | _ => spec.name

end OptionSpec

/-- Why arguments are refused, or that help was asked for. -/
inductive UsageError where
  | ambiguous (given : String) (names : List String)
  | missingValue (option : String)
  | invalidInteger (option text : String)
  | unexpectedValue (option text : String)
  | unrecognized (arguments : List String)
  | helpRequested
deriving DecidableEq, Repr

def UsageError.message : UsageError → String
  | .ambiguous given names => s!"ambiguous option: {given} could match " ++ ", ".intercalate names
  | .missingValue option => s!"argument {option}: expected one argument"
  | .invalidInteger option text => s!"argument {option}: invalid int value: {quoted text}"
  | .unexpectedValue option text =>
    s!"argument {option}: ignored explicit argument {quoted text}"
  | .unrecognized args => "unrecognized arguments: " ++ " ".intercalate args
  | .helpRequested => "help"

/-- What an argument is: an option, perhaps with its value, or a value, or neither. -/
inductive Argument where
  | option (spec : OptionSpec) (value : Option String)
  | value (text : String)
  | unknown (text : String)

namespace Argument

/-- Whether a text reads as a negative number, which is a value. -/
def isNegativeNumber (text : String) : Bool :=
  match text.toList with
  | '-' :: cs =>
    let cs := if cs.getLast? = some '\n' then cs.dropLast else cs
    let isDigit := fun c => (digitValue? c).isSome
    match cs.dropWhile isDigit with
    | [] => !cs.isEmpty
    | '.' :: rest => !rest.isEmpty && rest.all isDigit
    | _ => false
  | _ => false

/-- A text cut at its first equals sign. -/
def cutAtEquals (text : String) : String × Option String :=
  let cs := text.toList
  let name := String.ofList (cs.takeWhile (· ≠ '='))
  match cs.dropWhile (· ≠ '=') with
  | [] => (name, none)
  | _ :: rest => (name, some (String.ofList rest))

/-- The options of a whole name. Help has a short name too. -/
def named (name : String) : List OptionSpec :=
  OptionSpec.all.filter fun spec => spec.name = name ∨ (name = "-h" ∧ spec.name = "--help")

/-- What is left of the letters behind the short name of help, which may be repeated. -/
def behindHelp (letters : String) : Option String :=
  let rest := letters.dropWhile (· = 'h')
  if rest.isEmpty then none else some rest.toString

/-- The options that a text names, each with its value: by its whole name or by a prefix. -/
def matching (text : String) : List (OptionSpec × Option String) :=
  let (name, given) := cutAtEquals text
  match named text, named name with
  | spec :: _, _ => [(spec, none)]
  | [], spec :: _ =>
    [(spec, if name = "-h" ∧ given ≠ some "" then given.bind behindHelp else given)]
  | [], [] =>
    if text.startsWith "--" then
      (OptionSpec.all.filter (·.name.startsWith name)).map fun spec => (spec, given)
    else if text.startsWith "-h" then [(.help, behindHelp (text.drop 1).toString)]
    else []

def ofText (text : String) : Except UsageError Argument :=
  if !text.startsWith "-" || text = "-" then .ok (.value text)
  else
    match matching text with
    | [(spec, given)] => .ok (.option spec given)
    | [] =>
      if isNegativeNumber text || text.contains ' ' then .ok (.value text) else .ok (.unknown text)
    | specs => .error (.ambiguous text (specs.map (·.1.name)))

/-- Tells all arguments apart. Behind two dashes everything is a value. -/
def ofTexts : List String → Except UsageError (List Argument)
  | [] => .ok []
  | "--" :: texts => .ok (.unknown "--" :: texts.map .value)
  | text :: texts => do
    let a ← ofText text
    let as ← ofTexts texts
    .ok (a :: as)

end Argument

namespace Options

/-- The text that leaves an option empty. As an argument of its own it is never a value. -/
def noValue : String := "--"

/-- An option given a text as its value. -/
def assign (spec : OptionSpec) (text : String) (o : Options) : Except UsageError Options :=
  match spec.setting with
  | .integer set =>
    if text = noValue then .ok (set .empty o)
    else
      match readInteger? text with
      | some n => .ok (set (.value n) o)
      | none => .error (.invalidInteger spec.shown text)
  | .text set => .ok (set (if text = noValue then .empty else .value text) o)
  | .switch _ | .help => .error (.unexpectedValue spec.shown text)

/-- Reads arguments from left to right into options; what has no use is collected. -/
def read (o : Options) (unused : List String) : List Argument → Except UsageError Options
  | [] => if unused.isEmpty then .ok o else .error (.unrecognized unused)
  | .value text :: rest => read o (unused ++ [text]) rest
  | .unknown text :: rest => read o (unused ++ [text]) rest
  | .option spec (some text) :: rest =>
    match assign spec text o with
    | .ok o => read o unused rest
    | .error e => .error e
  | .option spec none :: rest =>
    match spec.setting, rest with
    | .switch set, rest => read (set o) unused rest
    | .help, _ => .error .helpRequested
    | _, .value text :: rest =>
      match assign spec text o with
      | .ok o => read o unused rest
      | .error e => .error e
    | _, _ => .error (.missingValue spec.shown)

/-- The options that arguments ask for. -/
def ofArguments (args : List String) : Except UsageError Options := do
  read {} [] (← Argument.ofTexts args)

end Options

end ExpressionArt
