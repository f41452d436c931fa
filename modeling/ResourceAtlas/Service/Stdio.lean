import ResourceAtlas.Service.Desk

/-!
# Replies over the standard streams

A client on the standard streams sends requests that are already taken apart. A failed read breaks
off; a failed tool call is an answer that says so. The address to read is a link, and its normal
form is read. The arguments of a known tool are held against the form that the tool announces
before it is called.
-/

namespace ResourceAtlas.Service.Stdio

open Text

/-- A request over the standard streams. -/
inductive Request
  /-- Which resources there are. -/
  | listResources
  /-- Which forms of addresses there are. -/
  | listTemplates
  /-- Which tools there are. -/
  | listTools
  /-- Read a resource. -/
  | readResource (uri : String)
  /-- Call a tool. -/
  | callTool (name : String) (arguments : Value)
  deriving Repr

/-- Whether a value is of the kind that a word names. Words that name no kind admit everything. -/
def isOfKind (kind : String) (v : Value) : Bool :=
  if kind = "string" then v.text?.isSome
  else if kind = "object" then v.mapping?.isSome
  else true

/-- What is wrong with the kind of an argument, if something is. -/
def kindComplaint? (arguments : Keyed Value) (p : Tool.Parameter) : Option (Outcome String) := do
  let kind ← p.kind
  let v ← Keyed.get? p.name arguments
  if isOfKind kind v then none
  else some ((writable v.quoted?).map fun shown =>
    shown ++ " is not of type " ++ Quoted.string kind)

/-- What is wrong with the arguments of a tool, if something is: the first one that is missing, else
the one of the wrong kind that has the greatest name. -/
def complaint? (t : Tool) (arguments : Keyed Value) : Option (Outcome String) :=
  match t.required.find? fun name => !Keyed.has name arguments with
  | some name => some (.ok (Quoted.string name ++ " is a required property"))
  | none =>
    let named := t.parameters.mergeSort fun p q => decide (q.name ≤ p.name)
    named.findSome? (kindComplaint? arguments)

/-- An answer that tells of a failed call. -/
def failure (text : String) : Value := toolContent text true

/-- The answer of a tool as the content of a message. -/
def toolAnswer (verdict : Verdict Value) : Outcome Value :=
  match verdict with
  | .error problem => .ok (failure (toolFailure problem))
  | .ok v => (Json.compact v).map fun text => toolContent text false

/-- Faults of a call become answers that tell of them. -/
def told (answer : Outcome Value) : Outcome Value :=
  match answer with
  | .ok v => .ok v
  | .error f => .ok (failure f.message)

/-- Call a tool whose arguments have the announced form. -/
def callChecked (t : Tool) (arguments : Keyed Value) : Task Value := fun d =>
  match complaint? t arguments with
  | some complaint =>
    (told (complaint.map fun text => failure ("Input validation error: " ++ text)), d)
  | none =>
    let (answer, d) := Desk.callTool t (.mapping arguments) d
    (told (answer.bind toolAnswer), d)

/-- Call the tool of a name. -/
def callTool (name : String) (arguments : Value) : Task Value := fun d =>
  match Tool.ofName? name with
  | none => (.ok (failure ("Unknown tool: " ++ name)), d)
  | some t => callChecked t (arguments.mapping?.getD []) d

/-- Read the resource of a link. -/
def readLink (limits : Resource.Limits) (uri : String) : Task Value := fun d =>
  match Desk.read limits uri d with
  | (.error f, d) => (.error f, d)
  | (.ok report, d) =>
    match report.result with
    | .error text => (.error (.failedRead text), d)
    | .ok v => ((Json.compact v).map fun text => resourceContents uri text, d)

/-- Read the resource of an address. -/
def readResource (limits : Resource.Limits) (uri : String) : Task Value := fun d =>
  match linkOf uri with
  | .error f => (.error f, d)
  | .ok link => readLink limits link d

/-- An answer that needs nothing but the atlas. -/
def showing (name : String) (shape : Atlas → Outcome Value) : Task Value := fun d =>
  ((shape d.atlas).map fun v => .mapping [(name, v)], d)

/-- The reply to a request. -/
def answer (limits : Resource.Limits) : Request → Task Value
  | .listResources => showing "resources" linkedEntriesValue
  | .listTemplates => showing "resourceTemplates" templatesValue
  | .listTools => showing "tools" fun _ => .ok toolsValue
  | .readResource uri => readResource limits uri
  | .callTool name arguments => callTool name arguments

end ResourceAtlas.Service.Stdio
