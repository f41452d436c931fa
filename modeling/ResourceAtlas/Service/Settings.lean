import ResourceAtlas.Resource.Read
import ResourceAtlas.Text.Case

/-!
# Settings

What a service is told by its surroundings: named variables give the limits of pages, the server and
the source of data. A variable that is not there leaves the usual setting.
-/

namespace ResourceAtlas.Service

open Number Text

/-- Named variables. -/
abbrev Variables := Keyed String

/-- The value of a variable, or a usual one. -/
def variableOr (vars : Variables) (name usual : String) : String :=
  (Keyed.get? name vars).getD usual

/-- The integer that a text writes. -/
def integerOf (text : String) : Outcome Int :=
  match Numeral.readInt text.toList with
  | .ok n => .ok n
  | .error refusal => .error (Address.refusalFault text.toList refusal)

/-- The integer of a variable. -/
def integerVariable (vars : Variables) (name : String) (usual : Int) : Outcome Int :=
  match Keyed.get? name vars with
  | none => .ok usual
  | some text => integerOf text

/-- The limits of pages. -/
def limits (vars : Variables) : Outcome Resource.Limits := do
  let standard ← integerVariable vars "RESOURCE_GRAPH_DEFAULT_LIMIT" Resource.Limits.usual.standard
  let greatest ← integerVariable vars "RESOURCE_GRAPH_MAX_LIMIT" Resource.Limits.usual.greatest
  .ok ⟨standard, greatest⟩

/-- The settings of a server. -/
structure ServerSettings where
  /-- The way in which messages come. -/
  transport : String
  /-- The number under which callers find the server on its host, if one is set. -/
  socket : Option Int
  /-- The host. -/
  host : String
  /-- The token that a caller has to show, if one is set. -/
  token : Option String
  /-- Whether callers have to show the token. -/
  requireToken : Bool
  /-- The name of the level of the log. -/
  logLevel : String
  /-- The name that the server gives itself. -/
  name : String
  deriving DecidableEq, Repr

/-- The settings of a server unless others are given. -/
def ServerSettings.usual : ServerSettings :=
  ⟨"stdio", none, "localhost", none, false, "INFO", "resource-graph-api"⟩

/-- The settings of a server from variables. A socket number that is empty is not set. -/
def serverSettings (vars : Variables) : Outcome ServerSettings := do
  let usual := ServerSettings.usual
  let socket ← match Keyed.get? "MCP_PORT" vars with
    | none => .ok none
    | some text => if text.isEmpty then .ok none else (integerOf text).map some
  .ok { usual with
    transport := variableOr vars "MCP_TRANSPORT" usual.transport
    socket := socket
    host := variableOr vars "MCP_HOST" usual.host
    token := Keyed.get? "MCP_AUTH_TOKEN" vars
    requireToken := Case.lower (variableOr vars "MCP_REQUIRE_AUTH" "false").toList == "true".toList
    logLevel := variableOr vars "MCP_LOG_LEVEL" usual.logLevel }

/-- The settings of the source of data. -/
structure SourceSettings where
  /-- The scheme. -/
  scheme : String
  /-- Where the schema is, if it is set. -/
  schema : Option String
  /-- Where the data are, if it is set. -/
  data : Option String
  deriving DecidableEq, Repr

/-- The scheme of data unless another one is given. -/
def usualScheme : String := "data"

/-- A path in its plain form: no empty parts, and none that stay in place. Two slashes at the start
are kept, more of them count as one. -/
def plainPath (path : String) : String :=
  let cs := path.toList
  let slashes := (cs.takeWhile (· == '/')).length
  let root := if slashes = 2 then "//" else if 0 < slashes then "/" else ""
  let parts := (Split.every '/' cs).filter fun part => !part.isEmpty && part != ['.']
  let body := root ++ Split.join "/" (parts.map String.ofList)
  if body.isEmpty then "." else body

/-- A text, unless it is empty. -/
def nonempty? (text : Option String) : Option String :=
  text.filter fun s => !s.isEmpty

/-- The settings of the source of data from variables. -/
def sourceSettings (vars : Variables) : SourceSettings :=
  { scheme := variableOr vars "RESOURCE_GRAPH_SCHEME" usualScheme
    schema := nonempty? (Keyed.get? "RESOURCE_GRAPH_SCHEMA" vars)
    data := (nonempty? (Keyed.get? "RESOURCE_GRAPH_DATA" vars)).map plainPath }

end ResourceAtlas.Service
