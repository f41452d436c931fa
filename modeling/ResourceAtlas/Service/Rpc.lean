import ResourceAtlas.Json.Reader
import ResourceAtlas.Service.Desk
import ResourceAtlas.Service.Settings

/-!
# Remote procedure calls

A server answers messages, each a JSON object with a method, parameters and an identifier. Every
message gets one reply with that identifier, a result or an error; a notification gets none. A
server that requires a token answers nothing else before it is shown. Whatever breaks off while a
method is at work becomes an error of the reply.
-/

namespace ResourceAtlas.Service

open Text

/-- A server. -/
structure Server where
  /-- Its settings. -/
  settings : ServerSettings
  /-- The limits of pages. -/
  limits : Resource.Limits
  /-- Whether it has been started. -/
  running : Bool
  deriving DecidableEq, Repr

namespace Server

/-- The ways in which messages can come. -/
def transports : List String := ["stdio", "http"]

/-- The names of the levels of a log. -/
def logLevels : List String :=
  ["CRITICAL", "FATAL", "ERROR", "WARN", "WARNING", "INFO", "DEBUG", "NOTSET"]

/-- Set up a server. -/
def setUp (settings : ServerSettings) (limits : Outcome Resource.Limits) : Outcome Server :=
  if transports.contains settings.transport then do
    let limits ← limits
    let level := String.ofList (Case.upper settings.logLevel.toList)
    if logLevels.contains level then .ok ⟨settings, limits, false⟩
    else .error (.unknownLogLevel level)
  else .error (.unsupportedTransport settings.transport)

/-- Start a server. -/
def start (s : Server) : Server := { s with running := true }

/-- Stop a server. -/
def stop (s : Server) : Server := { s with running := false }

/-- Whether a caller may speak: no token is required, or the right one is shown. -/
def admits (s : Server) (token : Option String) : Bool :=
  !s.settings.requireToken || (s.settings.token.isSome && token == s.settings.token)

end Server

/-- The version of the protocol. -/
def protocolVersion : String := "2024-11-05"

/-- How many completions a reply holds at most. -/
def mostCompletions : Nat := 100

/-- An error of a reply. -/
structure RpcError where
  /-- The code. -/
  code : Int
  /-- The wording. -/
  message : String
  /-- Data about it, if there are any. -/
  data : Option Value
  deriving Repr

namespace RpcError

/-- The message is no JSON. -/
def parseError : RpcError := ⟨-32700, "Parse error", none⟩

/-- The message is no request. -/
def invalidRequest : RpcError := ⟨-32600, "Invalid request", none⟩

/-- No token, or a wrong one. -/
def authenticationRequired : RpcError := ⟨-32600, "Authentication required", none⟩

/-- There is no such method. -/
def methodNotFound (method : String) : RpcError := ⟨-32601, "Method not found: " ++ method, none⟩

/-- A parameter is missing or of the wrong kind. -/
def missingParameter (name : String) : RpcError :=
  ⟨-32602, "Missing '" ++ name ++ "' parameter", none⟩

/-- There is no such tool. -/
def unknownTool (name : String) : RpcError := ⟨-32602, "Unknown tool: " ++ name, none⟩

/-- A resource was not read. -/
def resourceNotFound (uri message : String) : RpcError :=
  ⟨-32002, message, some (.mapping [("uri", .text uri)])⟩

/-- A method broke off. -/
def ofFault (f : Fault) : RpcError := ⟨-32603, "Internal error: " ++ f.message, none⟩

/-- An error as data. -/
def value (e : RpcError) : Value :=
  .mapping ([("code", .int e.code), ("message", .text e.message)] ++
    match e.data with
    | some v => [("data", v)]
    | none => [])

end RpcError

/-- A reply to a message. -/
structure Reply where
  /-- The identifier of the message. -/
  id : Value
  /-- What the method answers. -/
  result : Except RpcError Value
  deriving Repr

/-- A reply as data. -/
def Reply.value (r : Reply) : Value :=
  let outcome := match r.result with
    | .ok v => ("result", v)
    | .error e => ("error", e.value)
  .mapping [("jsonrpc", .text "2.0"), ("id", r.id), outcome]

/-- What a method answers: its result or an error. A fault becomes an error. -/
abbrev MethodResult := Except RpcError Value

/-- The result of a task, its faults turned into errors. -/
def guarded (task : Task MethodResult) (d : Desk) : MethodResult × Desk :=
  match task d with
  | (.ok r, d) => (r, d)
  | (.error f, d) => (.error (.ofFault f), d)

/-- A parameter. Only a mapping has any. -/
def parameter (params : Value) (name : String) : Outcome Value :=
  match params with
  | .mapping entries => .ok ((Keyed.get? name entries).getD .null)
  | v => .error (.noAttribute v.fullKindName "get")

/-- Go on with a parameter that has to be a text. -/
def withText (params : Value) (name : String) (next : String → Task MethodResult) :
    Task MethodResult := fun d =>
  match parameter params name with
  | .error f => (.error f, d)
  | .ok (.text s) => next s d
  | .ok _ => (.ok (.error (.missingParameter name)), d)

/-- The answer to a first message. -/
def greet (s : Server) (params : Value) : Outcome Value := do
  let given ← parameter params "protocolVersion"
  let spoken := match params with
    | .mapping entries =>
      if Keyed.has "protocolVersion" entries then given else .text protocolVersion
    | _ => .text protocolVersion
  .ok (.mapping [("protocolVersion", spoken),
    ("capabilities", .mapping [("resources", .mapping []), ("tools", .mapping []),
      ("completions", .mapping [])]),
    ("serverInfo", .mapping [("name", .text s.settings.name), ("version", .text version)])])

/-- Read a resource. -/
def readMethod (s : Server) (uri : String) : Task MethodResult := fun d =>
  match Desk.read s.limits uri d with
  | (.error f, d) => (.error f, d)
  | (.ok report, d) =>
    match report.result with
    | .error message => (.ok (.error (.resourceNotFound uri message)), d)
    | .ok v => ((Json.compact v).map fun text => .ok (resourceContents uri text), d)

/-- Call a tool. -/
def toolMethod (params : Value) (name : String) : Task MethodResult := fun d =>
  match Tool.ofName? name with
  | none =>
    ((parameter params "arguments").map fun _ => .error (.unknownTool name), d)
  | some t =>
    match parameter params "arguments" with
    | .error f => (.error f, d)
    | .ok arguments =>
      match Desk.callTool t arguments d with
      | (.error f, d) => (.error f, d)
      | (.ok (.error problem), d) => (.ok (.ok (toolContent (toolFailure problem) true)), d)
      | (.ok (.ok v), d) => ((Json.compact v).map fun text => .ok (toolContent text false), d)

/-- The text to complete, if the parameters hold one. -/
def completedText? (argument : Value) : Option String :=
  match argument with
  | .mapping entries => (Keyed.get? "value" entries).bind Value.text?
  | _ => none

/-- Complete an address. -/
def completionMethod (params : Value) : Task MethodResult := fun d =>
  (do
    let argument ← parameter params "argument"
    match completedText? argument with
    | none => .ok (.error (.missingParameter "argument.value"))
    | some text => do
      let values := (← d.suggest text).map Completion.value
      .ok (.ok (.mapping [("completion", .mapping [
        ("values", .list ((values.take mostCompletions).map .text)),
        ("total", .int values.length),
        ("hasMore", .bool (decide (mostCompletions < values.length)))])])), d)

/-- An answer that needs nothing but the atlas. -/
def showing (name : String) (shape : Atlas → Outcome Value) : Task MethodResult := fun d =>
  ((shape d.atlas).map fun v => .ok (.mapping [(name, v)]), d)

/-- Do what a method asks. -/
def dispatch (s : Server) (method : String) (params : Value) : Task MethodResult :=
  if method = "initialize" then fun d => ((greet s params).map .ok, d)
  else if method = "ping" then fun d => (.ok (.ok (.mapping [])), d)
  else if method = "resources/list" then showing "resources" linkedEntriesValue
  else if method = "resources/templates/list" then showing "resourceTemplates" templatesValue
  else if method = "resources/read" then withText params "uri" (readMethod s)
  else if method = "tools/list" then showing "tools" fun _ => .ok toolsValue
  else if method = "tools/call" then withText params "name" (toolMethod params)
  else if method = "completion/complete" then completionMethod params
  else fun d => (.ok (.error (.methodNotFound method)), d)

/-- The beginning of the methods of notifications. -/
def notificationMark : String := "notifications/"

/-- A method without a reply. -/
def isNotification (id : Value) (method : String) : Bool :=
  id.isNull && notificationMark.toList.isPrefixOf method.toList

/-- Answer a request with its entries and its method. -/
def answerRequest (s : Server) (entries : Keyed Value) (method : String) :
    Desk → Option Reply × Desk := fun d =>
  let id := (Keyed.get? "id" entries).getD .null
  if isNotification id method then (none, d)
  else
    let given := (Keyed.get? "params" entries).getD .null
    let params := if given.isTruthy then given else .mapping []
    let (result, d) := guarded (dispatch s method params) d
    (some ⟨id, result⟩, d)

/-- A reply to something that is no request. -/
def refusedReply (e : RpcError) : Option Reply := some ⟨.null, .error e⟩

/-- Answer a message. -/
def answerMessage (s : Server) (message : String) (token : Option String) :
    Task (Option Reply) := fun d =>
  if !s.admits token then (.ok (refusedReply .authenticationRequired), d)
  else
    match Json.read message with
    | .error (.malformedData _) => (.ok (refusedReply .parseError), d)
    | .error f => (.error f, d)
    | .ok (.mapping entries) =>
      match Keyed.get? "method" entries with
      | some (.text method) =>
        let (reply, d) := answerRequest s entries method d
        (.ok reply, d)
      | _ => (.ok (refusedReply .invalidRequest), d)
    | .ok _ => (.ok (refusedReply .invalidRequest), d)

end ResourceAtlas.Service
