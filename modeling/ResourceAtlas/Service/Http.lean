import ResourceAtlas.Json.Octets
import ResourceAtlas.Service.Document
import ResourceAtlas.Service.Rpc

/-!
# Requests over HTTP

A request names a method and a path. A path has a method of its own; another method is refused, and
a path with slashes at its end is sent on to the one without. Resources, templates and tools are
shown as JSON documents, a read that fails and a tool that does not exist are not found, and a tool
that fails is a bad request. Every request is recorded under its method and path when it has been
answered.
-/

namespace ResourceAtlas.Service.Http

open Number Text

/-- A request. -/
structure Request where
  /-- The method. -/
  method : String
  /-- The path. -/
  path : String
  /-- The parameters of the query in order. -/
  query : List (String × String)
  /-- The body. -/
  body : String
  /-- The headers. -/
  headers : List (String × String)
  deriving DecidableEq, Repr

/-- What an answer carries. -/
inductive Payload
  /-- Nothing that this library answers for. -/
  | nothing
  /-- A document. -/
  | document (v : Value)
  /-- A summary of the ledger. -/
  | summary (s : Ledger.Summary)
  /-- Measurements of the process, by their names. -/
  | measurements (names : List String)

/-- An answer. -/
structure Response where
  /-- The status. -/
  status : Nat
  /-- What it carries. -/
  payload : Payload

namespace Response

/-- An answer without a document. -/
def bare (status : Nat) : Response := ⟨status, .nothing⟩

/-- An answer with a document. -/
def document (status : Nat) (entries : Keyed Value) : Response :=
  ⟨status, .document (.mapping entries)⟩

/-- What was asked for. -/
def ok (entries : Keyed Value) : Response := document 200 entries

/-- Something that is not there. -/
def notFound (path detail : String) : Response :=
  document 404 [("error", .text "Not Found"), ("detail", .text detail), ("path", .text path)]

/-- A request that cannot be carried out. -/
def badRequest (detail : String) : Response :=
  document 400 [("error", .text "Bad Request"), ("detail", .text detail)]

/-- A request of the wrong form. -/
def malformed : Response := bare 422

/-- A method that a path does not have. -/
def methodNotAllowed : Response := bare 405

/-- A notice that the request was taken and needs no answer. -/
def accepted : Response := bare 202

/-- A notice that the answer is at the same path without slashes at its end. -/
def elsewhere : Response := bare 307

end Response

/-- What a path leads to. -/
inductive Route
  /-- How the service is. -/
  | health
  /-- The entry points. -/
  | resources
  /-- The templates. -/
  | templates
  /-- Reading a resource. -/
  | read
  /-- The tools. -/
  | tools
  /-- Running a tool. -/
  | runTool (name : String)
  /-- Remote procedure calls. -/
  | calls
  /-- A summary of the ledger. -/
  | performance
  /-- Measurements of the process. -/
  | system
  /-- Emptying the ledger. -/
  | reset
  /-- A page about the service itself. -/
  | page
  deriving DecidableEq, Repr

namespace Route

/-- The methods of a route. -/
def methods : Route → List String
  | runTool _ => ["POST"]
  | calls => ["POST"]
  | reset => ["POST"]
  | page => ["GET", "HEAD"]
  | _ => ["GET"]

/-- The paths of the routes, but for those of the tools. -/
def fixed : List (String × Route) :=
  [("/health", health), ("/resources", resources), ("/resources/templates", templates),
    ("/resources/read", read), ("/tools", tools), ("/mcp", calls),
    ("/metrics/performance", performance), ("/metrics/system", system), ("/metrics/reset", reset),
    ("/openapi.json", page), ("/docs", page), ("/docs/oauth2-redirect", page), ("/redoc", page)]

/-- What stands before the name of a tool. -/
def toolsLead : List Char := "/tools/".toList

/-- The tool that a path names: one part after the lead. -/
def toolName? (path : List Char) : Option String :=
  if toolsLead.isPrefixOf path then
    let name := path.drop toolsLead.length
    if name.isEmpty || name.contains '/' then none else some (String.ofList name)
  else none

/-- The route of a path. A line feed at the end of a fixed path counts for nothing. -/
def ofPath? (path : List Char) : Option Route :=
  match Keyed.get? (String.ofList (Digit.dropFinalLineFeed path)) fixed with
  | some route => some route
  | none => (toolName? path).map runTool

end Route

/-- A path without the slashes at its end. -/
def trimmed (path : List Char) : List Char :=
  (path.reverse.dropWhile (· == '/')).reverse

/-- What a path comes to: a route, another path that has one, or nothing. -/
inductive Aim
  /-- A route. -/
  | route (r : Route)
  /-- The path without slashes at its end. -/
  | elsewhere
  /-- Nothing. -/
  | nowhere
  deriving DecidableEq, Repr

/-- What a path comes to. -/
def aim (path : List Char) : Aim :=
  match Route.ofPath? path with
  | some r => .route r
  | none => if (Route.ofPath? (trimmed path)).isSome then .elsewhere else .nowhere

/-- An answer with a document, unless it holds numbers that JSON lacks. -/
def sealed (r : Response) : Outcome Response :=
  match r.payload with
  | .document v => (Document.check v).map fun _ => r
  | _ => .ok r

/-- A text with every octet of it read as a character. -/
def octetwise (text : String) : String :=
  String.ofList ((Utf8.encode text.toList).map fun b => Char.ofNat b.toNat)

/-- The value of a header, whatever the case of its name. -/
def header? (r : Request) (name : String) : Option String :=
  (r.headers.find? fun h => Case.lower h.1.toList == name.toList).map fun h => octetwise h.2

/-- What stands before a token in a header. -/
def tokenLead : List Char := "bearer ".toList

/-- The token that a request shows. -/
def token? (r : Request) : Option String :=
  match header? r "authorization" with
  | none => none
  | some text =>
    if tokenLead.isPrefixOf (Case.lower text.toList) then
      some (String.ofList (text.toList.drop tokenLead.length))
    else none

/-- The last parameter of a name. -/
def parameter? (r : Request) (name : String) : Option String :=
  (r.query.reverse.find? fun p => p.1 == name).map (·.2)

/-- The arguments in the body of a request. -/
inductive Arguments
  /-- Arguments. -/
  | given (v : Value)
  /-- A body that is of the wrong form. -/
  | malformed
  /-- A body that cannot be read at all. -/
  | unreadable

/-- The arguments that a text writes. Nothing stands for none. -/
def argumentsOf (text : List Char) : Arguments :=
  match Json.read (String.ofList text) with
  | .ok .null => .given (.mapping [])
  | .ok (.mapping entries) => .given (.mapping entries)
  | .ok _ => .malformed
  | .error (.malformedData _) => .malformed
  | .error _ => .unreadable

/-- The arguments in a body. Without a body there are none. -/
def arguments (body : String) : Arguments :=
  if body.isEmpty then .given (.mapping [])
  else
    match Json.textOf? (Utf8.encode body.toList) with
    | some text => argumentsOf text
    | none => .unreadable

/-- How the service is. -/
def healthEntries (d : Desk) : Keyed Value :=
  [("status", .text "healthy"), ("version", .text version),
    ("schemes", .list (d.atlas.registry.names.map .text))]

/-- Read a resource under the limits of the surroundings. -/
def readRoute (vars : Variables) (r : Request) (path : String) : Task Response := fun d =>
  match limits vars, parameter? r "uri" with
  | .error f, _ => (.error f, d)
  | .ok _, none => (.ok .malformed, d)
  | .ok limits, some uri =>
    match Desk.read limits uri d with
    | (.error f, d) => (.error f, d)
    | (.ok report, d) =>
      match report.result with
      | .error text => (.ok (.notFound path text), d)
      | .ok v => ((Document.carry v).map fun data => .ok [("uri", .text uri),
          ("mimeType", .text Resource.mediaType), ("data", data)], d)

/-- Run the tool of a name. -/
def toolRoute (name path : String) (r : Request) : Task Response := fun d =>
  match arguments r.body with
  | .malformed => (.ok .malformed, d)
  | .unreadable => (.ok (.badRequest "There was an error parsing the body"), d)
  | .given v =>
    match Tool.ofName? name with
    | none => (.ok (.notFound path ("Unknown tool: " ++ name)), d)
    | some t =>
      match Desk.callTool t v d with
      | (.error f, d) => (.error f, d)
      | (.ok (.error problem), d) => (.ok (.badRequest problem.message), d)
      | (.ok (.ok v), d) =>
        ((Document.carry v).map fun result => .ok [("tool", .text name), ("result", result)], d)

/-- The server that the surroundings describe. -/
def serverOf (vars : Variables) : Outcome Server := do
  let limits ← limits vars
  let settings ← serverSettings vars
  Server.setUp { settings with transport := "http" } (.ok limits)

/-- Answer a remote procedure call. -/
def callRoute (vars : Variables) (r : Request) : Task Response := fun d =>
  match serverOf vars with
  | .error f => (.error f, d)
  | .ok server =>
    match answerMessage server r.body (token? r) d with
    | (.error f, d) => (.error f, d)
    | (.ok none, d) => (.ok .accepted, d)
    | (.ok (some reply), d) => (.ok ⟨200, .document reply.value⟩, d)

/-- The names of the measurements of the process. -/
def measured : List String :=
  ["uptime_seconds", "memory_usage_mb", "cpu_usage_percent", "threads"]

/-- Follow a route. -/
def follow (vars : Variables) (r : Request) (path : String) : Route → Task Response
  | .health => fun d => (.ok (.ok (healthEntries d)), d)
  | .resources => fun d => ((entriesValue d.atlas).map fun v => .ok [("resources", v)], d)
  | .templates => fun d => ((templatesValue d.atlas).map fun v => .ok [("resourceTemplates", v)], d)
  | .read => readRoute vars r path
  | .tools => fun d => (.ok (.ok [("tools", toolsValue)]), d)
  | .runTool name => toolRoute name path r
  | .calls => callRoute vars r
  | .performance => fun d => (.ok ⟨200, .summary d.ledger.summary⟩, d)
  | .system => fun d => (.ok ⟨200, .measurements measured⟩, d)
  | .reset => fun d =>
    (.ok (.ok [("message", .text "All metrics have been reset")]),
      { d with ledger := d.ledger.reset })
  | .page => fun d => (.ok (.bare 200), d)

/-- A character of a path as it is shown: marks that a path does not hold are percent-encoded, tabs
and line breaks are left out. -/
def shownChar (c : Char) : List Char :=
  if c = '?' || c = '#' || c = '\\' then (Utf8.encodeChar c).flatMap Percent.encodeOctet
  else if c = '\t' || c = '\n' || c = '\r' then []
  else [c]

/-- A path as it is shown, which starts with a slash. -/
def shownPath (path : List Char) : String :=
  let rooted := if path.head? = some '/' then path else '/' :: path
  String.ofList (rooted.flatMap shownChar)

/-- The answer to a request whose path comes to an aim. -/
def respond (vars : Variables) (r : Request) (shown : String) : Aim → Task Response
  | .nowhere => fun d => (.ok (.notFound shown "Not Found"), d)
  | .elsewhere => fun d => (.ok .elsewhere, d)
  | .route route =>
    if route.methods.contains r.method then follow vars r shown route
    else fun d => (.ok .methodNotAllowed, d)

/-- Record a request with its answer. -/
def recorded (r : Request) (shown : String) (response : Response) : Task Response := fun d =>
  match d.ledger.recordRequest (r.method ++ " " ++ shown) noTime response.status with
  | .error f => (.error f, d)
  | .ok ledger => (.ok response, { d with ledger := ledger })

/-- Answer a request. -/
def answer (vars : Variables) (r : Request) : Task Response := fun d =>
  let path := r.path.toList
  let shown := shownPath path
  let (response, d) := respond vars r shown (aim path) d
  match response.bind sealed with
  | .error f => (.error f, d)
  | .ok response => recorded r shown response d

end ResourceAtlas.Service.Http
