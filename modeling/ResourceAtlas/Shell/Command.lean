import ResourceAtlas.Shell.Arguments

/-!
# Commands

The command line inspects a resource graph or serves it. `ofArguments` reads a command; no command
is not an error.
-/

namespace ResourceAtlas.Shell

/-- Where schema and data come from, as far as a command line says. -/
structure Choice where
  /-- The schema reference. -/
  schema : Option String
  /-- The data file. -/
  data : Option String
  /-- The scheme. -/
  scheme : Option String
  deriving DecidableEq, Repr

/-- A command that inspects a resource graph. -/
inductive Inspection
  /-- Show how an address is read. -/
  | lex (uri : String)
  /-- Read a resource. -/
  | read (uri : String) (limit : Option Int) (source : Choice)
  /-- List entry points and templates. -/
  | resources (source : Choice)
  /-- Suggest how an address may go on. -/
  | complete (partialUri : String) (source : Choice)
  deriving DecidableEq, Repr

/-- A command. -/
inductive Command
  /-- Inspect. -/
  | inspect (i : Inspection)
  /-- Serve. -/
  | serve (transport : String) (source : Choice)
  deriving DecidableEq, Repr

/-- The option that asks for help. -/
def helpFlag : Flag := ⟨["-h", "--help"], "help", .help⟩

/-- What stands before a command. -/
def outerForm : Form := ⟨[helpFlag, ⟨["-v", "--verbose"], "verbose", .mark⟩], .tail⟩

/-- The options that say where schema and data come from. -/
def sourceFlags : List Flag :=
  [⟨["--schema"], "schema", .text⟩, ⟨["--data"], "data", .text⟩, ⟨["--scheme"], "scheme", .text⟩]

/-- A form with a number of operands and options beside the one for help. -/
def formWith (count : Nat) (flags : List Flag) : Form :=
  ⟨helpFlag :: flags, .exactly count⟩

/-- The ways in which a service can be reached. -/
def transports : List String := ["stdio", "http"]

/-- The forms of the commands. -/
def forms : Keyed Form :=
  [("lex", formWith 1 []),
    ("read", formWith 1 (⟨["--limit"], "limit", .integer⟩ :: sourceFlags)),
    ("resources", formWith 0 sourceFlags),
    ("complete", formWith 1 sourceFlags),
    ("serve", formWith 0 ([⟨["--transport"], "transport", .word transports⟩,
      ⟨["--host"], "host", .text⟩, ⟨["--port"], "port", .integer⟩] ++ sourceFlags))]

/-- The source that arguments choose. An empty text chooses nothing. -/
def choiceOf (g : Given) : Choice :=
  let chosen (key : String) := (Keyed.get? key g.settings).filter fun text => !text.isEmpty
  ⟨chosen "schema", chosen "data", chosen "scheme"⟩

/-- The integer of a setting. -/
def integerSetting (g : Given) (key : String) : Option Int := do
  let text ← Keyed.get? key g.settings
  (Number.Numeral.readInt text.toList).toOption

/-- The command of a name with what its arguments gave. -/
def ofGiven (name : String) (g : Given) : Command :=
  let source := choiceOf g
  let operand := g.operands.headD ""
  match name with
  | "lex" => .inspect (.lex operand)
  | "read" => .inspect (.read operand (integerSetting g "limit") source)
  | "resources" => .inspect (.resources source)
  | "complete" => .inspect (.complete operand source)
  | _ => .serve ((Keyed.get? "transport" g.settings).getD "stdio") source

/-- The command of a name with its arguments. -/
def ofName (name : String) (texts : List String) : Except Stop (Command × List String) :=
  match Keyed.get? name forms with
  | none => .error .misuse
  | some form => (form.read texts).map fun g => (ofGiven name g, g.extras)

/-- The command that arguments give. Nothing may be left over. -/
def ofArguments (texts : List String) : Except Stop (Option Command) := do
  let outer ← outerForm.read texts
  match outer.operands with
  | [] => if outer.extras.isEmpty then .ok none else .error .misuse
  | name :: rest => do
    let (command, extras) ← ofName name rest
    if (outer.extras ++ extras).isEmpty then .ok (some command) else .error .misuse

/-- How the program is used. -/
def usage : String :=
  "usage: resource-graph [-h] [-v] \x7blex,read,resources,complete,serve\x7d ...\n\n" ++
  "Resource Graph CLI\n\n" ++
  "positional arguments:\n" ++
  "  \x7blex,read,resources,complete,serve\x7d\n" ++
  "                        Available commands\n" ++
  "    lex                 Lex a URI into segments\n" ++
  "    read                Resolve and print a resource\n" ++
  "    resources           List resources and URI templates\n" ++
  "    complete            Suggest continuations of a partial URI\n" ++
  "    serve               Run a server\n\n" ++
  "options:\n" ++
  "  -h, --help            show this help message and exit\n" ++
  "  -v, --verbose         Enable verbose logging\n"

end ResourceAtlas.Shell
