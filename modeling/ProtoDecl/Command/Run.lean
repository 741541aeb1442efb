import ProtoDecl.Command.Plan
import ProtoDecl.Number.Integer
import ProtoDecl.Settings.Read

/-!
# The command line

The conventions of the program: arguments as `request` reads them, settings in YAML, and listings in
JSON.  With them, `run` is what the program does in a directory.

Arguments are switches, the name of a command, and its input.

* A switch has a long name behind two dashes, and most have a short one behind one dash.
* Several short switches may share a dash.
* A value follows its switch, as the next argument, behind an equals sign or right behind a short
  name.  It may not look like a switch, unless it is attached.
* Behind two dashes alone nothing is a switch.
* A switch stands at most once on either side of the name of the command.

`parse` gives no result where the arguments make no sense, and `request` refuses them.  Help and
version are given as soon as they are asked for, whatever follows.
-/

namespace ProtoDecl.Command

/-! ## Texts about the program -/

/-- How the program is used. -/
def usage : String :=
  String.join (
    ["Usage: proto2ts [-v] <COMMAND>", "", "Commands:",
      "  compile <INPUT> [-o <OUTPUT>] [--indent <INDENT>] [-c <CONFIG>]",
      "  tokens <INPUT>",
      "  ast <INPUT>",
      "  descriptor <INPUT> -o <OUTPUT> [--name <NAME>]"].map fun line => line ++ "\n")

/-- The name and the version of the program. -/
def versionLine : String :=
  "proto2ts 0.1.0\n"

/-! ## Switches -/

/-- What a switch does. -/
inductive Effect where
  /-- Ends the reading of arguments. -/
  | stop (request : Request)
  /-- Turns something on. -/
  | turnOn
  /-- Takes a value that passes a test. -/
  | take (accepts : String → Bool)

/-- A switch of the command line. -/
structure Switch where
  long : String
  short : Option Char := none
  effect : Effect

/-- Whether a text names a file. -/
def isPath (text : String) : Bool :=
  !text.isEmpty

/-- The number that an argument denotes. -/
def count? (text : String) : Option Nat :=
  let digits := (Text.dropStart? ['+'] text.toList).getD text.toList
  (Number.natural? digits).filter fun n => n < UInt64.size

/-- Asks for help. -/
def helpSwitch : Switch :=
  { long := "help", short := some 'h', effect := .stop (.inform usage) }

/-- Asks for more messages. -/
def verboseSwitch : Switch :=
  { long := "verbose", short := some 'v', effect := .turnOn }

/-- Asks for the version. -/
def versionSwitch : Switch :=
  { long := "version", short := some 'V', effect := .stop (.inform versionLine) }

/-- Names the output file. -/
def outputSwitch : Switch :=
  { long := "output", short := some 'o', effect := .take isPath }

/-- Sets the indentation. -/
def indentSwitch : Switch :=
  { long := "indent", effect := .take fun text => (count? text).isSome }

/-- Names the file with settings. -/
def settingsSwitch : Switch :=
  { long := "config", short := some 'c', effect := .take isPath }

/-- Sets the name in a descriptor. -/
def nameSwitch : Switch :=
  { long := "name", effect := .take fun _ => true }

/-! ## Reading arguments -/

/-- The arguments read so far. -/
structure Given where
  /-- The switches by their long names; one that takes no value has an empty one. -/
  switches : List (String × String) := []
  inputs : List String := []

namespace Given

/-- Adds a switch that was not given yet. -/
def add (g : Given) (s : Switch) (value : String) : Option Given :=
  if (g.switches.lookup s.long).isSome then none
  else some { g with switches := g.switches ++ [(s.long, value)] }

/-- Adds a switch with a value that it accepts. -/
def addValue (g : Given) (s : Switch) (value : String) : Option Given :=
  match s.effect with
  | .take accepts => if accepts value then g.add s value else none
  | _ => none

/-- Adds an input file, if no more than `limit` are given. -/
def addInput (g : Given) (limit : Nat) (path : String) : Option Given :=
  if g.inputs.length < limit && isPath path then some { g with inputs := g.inputs ++ [path] }
  else none

/-- Whether a switch was given. -/
def has (g : Given) (s : Switch) : Bool :=
  (g.switches.lookup s.long).isSome

/-- The value of a switch. -/
def value? (g : Given) (s : Switch) : Option String :=
  g.switches.lookup s.long

end Given

/-- How far the reading of arguments has come. -/
inductive Progress where
  /-- Nothing more is to be read. -/
  | stopped (request : Request)
  /-- The next argument is to be read, as the value of a switch that waits for one. -/
  | reading (given : Given) (waiting : Option Switch)

/-- Whether an argument looks like a switch. -/
def isSwitch (text : String) : Bool :=
  match text.toList with
  | '-' :: _ :: _ => true
  | _ => false

/-- Reads an argument behind two dashes. -/
def readLong (switches : List Switch) (g : Given) (body : List Char) : Option Progress := do
  let name := String.ofList (body.takeWhile fun c => c != '=')
  let value := (body.dropWhile fun c => c != '=').tail?.map String.ofList
  let s ← switches.find? fun s => s.long = name
  match s.effect, value with
  | .stop request, none => return .stopped request
  | .turnOn, none => return .reading (← g.add s "") none
  | .take _, none => return .reading g (some s)
  | .take _, some text => return .reading (← g.addValue s text) none
  | _, some _ => none

/-- Reads an argument behind one dash: switches by their short names, the last of which may have its
value attached. -/
def readShort (switches : List Switch) (g : Given) : List Char → Option Progress
  | [] => some (.reading g none)
  | c :: rest =>
    match switches.find? fun s => s.short = some c with
    | none => none
    | some s =>
      match s.effect with
      | .stop request => some (.stopped request)
      | .turnOn => (g.add s "").bind fun g => readShort switches g rest
      | .take _ =>
        if rest.isEmpty then some (.reading g (some s))
        else
          let text := (Text.dropStart? ['='] rest).getD rest
          (g.addValue s (String.ofList text)).map fun g => .reading g none

/-- Reads an argument that looks like a switch. -/
def readSwitch (switches : List Switch) (g : Given) (text : String) : Option Progress :=
  match Text.dropStart? ['-', '-'] text.toList with
  | some body => readLong switches g body
  | none => readShort switches g (text.toList.drop 1)

/-- Reads arguments.  At most `limit` of them are input files. -/
def scan (switches : List Switch) (limit : Nat) :
    (waiting : Option Switch) → (plain : Bool) → Given → List String → Option Progress
  | some _, _, _, [] => none
  | none, _, g, [] => some (.reading g none)
  | some s, plain, g, text :: rest =>
    if isSwitch text then none
    else (g.addValue s text).bind fun g => scan switches limit none plain g rest
  | none, plain, g, text :: rest =>
    if plain || !isSwitch text then
      (g.addInput limit text).bind fun g => scan switches limit none plain g rest
    else if text = "--" then scan switches limit none true g rest
    else
      match readSwitch switches g text with
      | none => none
      | some (.stopped request) => some (.stopped request)
      | some (.reading g waiting) => scan switches limit waiting plain g rest

/-! ## Commands -/

/-- A command, its switches, and the action that its arguments describe. -/
structure Form where
  name : String
  switches : List Switch
  action? : (input : String) → Given → Option Action

/-- The commands. -/
def forms : List Form :=
  [{ name := "compile"
     switches := [outputSwitch, indentSwitch, settingsSwitch]
     action? := fun input g => some (.compile input (g.value? outputSwitch)
       ((g.value? indentSwitch).bind count?) (g.value? settingsSwitch)) },
   { name := "tokens", switches := [], action? := fun input _ => some (.tokens input) },
   { name := "ast", switches := [], action? := fun input _ => some (.tree input) },
   { name := "descriptor"
     switches := [outputSwitch, nameSwitch]
     action? := fun input g => (g.value? outputSwitch).map fun output =>
       .descriptor input output (g.value? nameSwitch) }]

/-- Reads the arguments behind the name of a command. -/
def parseForm (form : Form) (verbose : Bool) (arguments : List String) : Option Request := do
  match ← scan (helpSwitch :: verboseSwitch :: form.switches) 1 none false {} arguments with
  | .stopped request => return request
  | .reading g _ =>
    let action ← form.action? (← g.inputs.head?) g
    return .perform action (verbose || g.has verboseSwitch)

/-- Whether the arguments behind the word "help" name a command or nothing. -/
def isTopic : List String → Bool
  | [] => true
  | [name] => name = "help" || forms.any fun form => form.name = name
  | _ => false

/-- What arguments ask for. -/
def parse (arguments : List String) : Option Request := do
  let front := arguments.takeWhile isSwitch
  match ← scan [helpSwitch, verboseSwitch, versionSwitch] 0 none false {} front with
  | .stopped request => return request
  | .reading g _ =>
    if front.contains "--" then none
    match arguments.dropWhile isSwitch with
    | [] => none
    | name :: rest =>
      if name = "help" then if isTopic rest then return .inform usage else none
      let form ← forms.find? fun form => form.name = name
      parseForm form (g.has verboseSwitch) rest

/-- What arguments ask for, or that they make no sense. -/
def request (arguments : List String) : Request :=
  (parse arguments).getD (.refuse usage)

/-! ## The program -/

/-- The conventions of the program. -/
def conventions : Conventions where
  request := request
  settings text :=
    match Settings.ofText? text with
    | some settings => .ok settings
    | none => .error "malformed settings"
  listing := Listing.Json.pretty 0

/-- Runs the program in a directory. -/
def run (arguments : List String) (d : Directory) : Output × Directory :=
  conventions.run arguments d

end ProtoDecl.Command
