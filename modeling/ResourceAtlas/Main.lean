import ResourceAtlas.Shell.Inspect
import ResourceAtlas.Service.Rpc

/-!
# The command line

The program reads its arguments, its variables and its data file, carries the command out and prints
what comes of it. It brings no schema along: a program with schemas of its own passes them as
modules to `ResourceAtlas.Shell`.
-/

namespace ResourceAtlas.Shell

open Service

/-- The variables that a service looks at. -/
def variableNames : List String :=
  ["RESOURCE_GRAPH_SCHEME", "RESOURCE_GRAPH_SCHEMA", "RESOURCE_GRAPH_DATA",
    "RESOURCE_GRAPH_DEFAULT_LIMIT", "RESOURCE_GRAPH_MAX_LIMIT", "MCP_TRANSPORT", "MCP_PORT",
    "MCP_HOST", "MCP_AUTH_TOKEN", "MCP_REQUIRE_AUTH", "MCP_LOG_LEVEL"]

/-- The variables that are set. -/
def readVariables : IO Variables := do
  let found ← variableNames.mapM fun name => do
    let value ← IO.getEnv name
    pure (value.map fun v => (name, v))
  pure (found.filterMap id)

/-- The text of a file, if it can be read. -/
def readText? (path : String) : IO (Option String) := do
  try
    let text ← IO.FS.readFile path
    pure (some text)
  catch _ => pure none

/-- The surroundings of a command with the source that it chooses. -/
def surroundings (choice : Choice) : IO Surroundings := do
  let vars ← readVariables
  match (choice.settings vars).data with
  | none => pure ⟨vars, .empty, [], fun _ => none⟩
  | some path => do
    let text ← readText? path
    pure ⟨vars, .empty, [], fun p => if p == path then text else none⟩

/-- The source that an inspection chooses. -/
def sourceOf : Inspection → Choice
  | .lex _ => ⟨none, none, none⟩
  | .read _ _ source => source
  | .resources source => source
  | .complete _ source => source

/-- Print what a command prints. -/
def finish (printed : Printed) : IO UInt32 := do
  IO.print printed.output
  IO.eprint printed.errors
  pure printed.code.toUInt32

/-- Tell what broke off. -/
def breakOff (f : Fault) : IO UInt32 := do
  IO.eprintln f.message
  pure 1

/-- Answer messages, one to a line, until there are no more. -/
partial def serveLines (server : Server) (d : Desk) : IO Unit := do
  let line ← (← IO.getStdin).getLine
  if line.isEmpty then pure ()
  else
    let (answer, d) := answerMessage server line none d
    match answer.bind fun reply => (reply.map Reply.value).mapM Json.compact with
    | .ok (some text) => do
      IO.println text
      (← IO.getStdout).flush
    | .ok none => pure ()
    | .error f => IO.eprintln f.message
    serveLines server d

/-- Serve over the standard streams. -/
def serve (choice : Choice) : IO UInt32 := do
  let around ← surroundings choice
  let settings := { ServerSettings.usual with logLevel := "WARNING" }
  match choice.desk around, Server.setUp settings (limits around.environment) with
  | .ok d, .ok server => do
    serveLines server.start d
    pure 0
  | .error f, _ => breakOff f
  | _, .error f => breakOff f

/-- Carry a command out. -/
def carryOut : Command → IO UInt32
  | .inspect i => do
    match i.run (← surroundings (sourceOf i)) with
    | .ok printed => finish printed
    | .error f => breakOff f
  | .serve transport source =>
    if transport = "stdio" then serve source
    else do
      IO.eprintln ("The transport " ++ transport ++ " needs a host of its own")
      pure 1

/-- Carry out what arguments ask for. -/
def runArguments (arguments : List String) : IO UInt32 := do
  match ofArguments arguments with
  | .ok (some command) => carryOut command
  | .ok none => finish Printed.guidance
  | .error stop => do
    IO.print usage
    pure stop.status.toUInt32

end ResourceAtlas.Shell

/-- The program. -/
def main (arguments : List String) : IO UInt32 :=
  ResourceAtlas.Shell.runArguments arguments
