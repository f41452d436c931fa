import ResourceAtlas.Completion
import ResourceAtlas.Ledger
import ResourceAtlas.Link.Normal
import ResourceAtlas.Resource.Listing
import ResourceAtlas.Tool

/-!
# The desk

A desk holds what all callers share: the atlas, the documents and the ledger. Reads and tool calls
that come over the desk are recorded. A task answers and leaves a desk behind, also when it breaks
off. Callers that speak in links are told addresses in the normal form of links.
-/

namespace ResourceAtlas.Service

/-- The version of the service. -/
def version : String := "0.1.0"

/-- What all callers share. -/
structure Desk where
  /-- The schemas and the schemes. -/
  atlas : Atlas
  /-- The documents. -/
  store : Store
  /-- The ledger. -/
  ledger : Ledger
  deriving Inhabited

/-- A computation over a desk. -/
abbrev Task (α : Type) := Desk → Outcome α × Desk

/-- How long the service takes is not looked at. -/
def noTime : Value := .float .zero

namespace Desk

/-- A desk without schemes. -/
def empty : Desk := ⟨.empty, .empty, .empty 100⟩

/-- Do something with the documents of a desk. -/
def act {α : Type} (action : Atlas → Action α) : Task α := fun d =>
  let (r, store) := action d.atlas d.store
  (r, { d with store := store })

/-- Record a read. -/
def record (event : ReadEvent) : Task Unit := fun d =>
  match d.ledger.recordRead event with
  | .error f => (.error f, d)
  | .ok ledger => (.ok (), { d with ledger := ledger })

/-- Read a resource and record the read. -/
def read (limits : Resource.Limits) (uri : String) : Task Resource.Report := fun d =>
  match Resource.read d.atlas d.store limits uri with
  | .error f => (.error f, d)
  | .ok report =>
    let event : ReadEvent := ⟨uri, report.succeeded, noTime, report.error?, report.isPage⟩
    let (recorded, d) := record event d
    (recorded.map fun _ => report, d)

/-- Call a tool and record the call. -/
def callTool (t : Tool) (arguments : Value) : Task (Verdict Value) := fun d =>
  match act (fun a => t.call a arguments) d with
  | (.error f, d) => (.error f, d)
  | (.ok verdict, d) =>
    (.ok verdict, { d with ledger := d.ledger.recordTool t.name verdict.isOk })

/-- Suggest how an address may go on. -/
def suggest (d : Desk) (uri : String) : Outcome (List Completion) :=
  Completion.suggest d.atlas d.store uri Completion.usualMembers

/-- Register a scheme over data of its own. -/
def register (scheme : String) (schema : Schema.NodeId) (data : Value) : Task Unit := fun d =>
  let (id, store) := d.store.add data
  match d.atlas.registry.register scheme ⟨id, schema⟩ with
  | .error f => (.error f, d)
  | .ok registry =>
    (.ok (), { d with store := store, atlas := { d.atlas with registry := registry } })

end Desk

/-- The wording of a problem that a tool answers; an empty one is replaced. -/
def toolFailure (p : Problem) : String :=
  if p.message.isEmpty then "Tool failed" else p.message

/-- A text as the content of a message. -/
def textContent (text : String) : Value :=
  .mapping [("type", .text "text"), ("text", .text text)]

/-- The answer of a tool as the content of a message. -/
def toolContent (text : String) (isError : Bool) : Value :=
  .mapping [("content", .list [textContent text]), ("isError", .bool isError)]

/-- All entry points as data. -/
def entriesValue (a : Atlas) : Outcome Value :=
  (Resource.entries a).map fun all => .list (all.map Resource.Entry.value)

/-- An address in the normal form of links. -/
def linkOf (uri : String) : Outcome String :=
  match Link.normal uri with
  | .ok normal => .ok normal
  | .error reason => .error (.malformedLink reason)

/-- An entry point with its address in the normal form of links. -/
def linkedEntry (entry : Resource.Entry) : Outcome Resource.Entry :=
  (linkOf entry.uri).map fun uri => { entry with uri := uri }

/-- All entry points as data, with their addresses in the normal form of links. -/
def linkedEntriesValue (a : Atlas) : Outcome Value := do
  let all ← Resource.entries a
  let linked ← all.mapM linkedEntry
  .ok (.list (linked.map Resource.Entry.value))

/-- All templates as data. -/
def templatesValue (a : Atlas) : Outcome Value :=
  (Resource.templates a).map fun all => .list (all.map Resource.Template.value)

/-- All tools as data. -/
def toolsValue : Value :=
  .list (Tool.all.map Tool.value)

/-- A resource that was read, as the content of a message. -/
def resourceContents (uri text : String) : Value :=
  .mapping [("contents", .list [.mapping [("uri", .text uri),
    ("mimeType", .text Resource.mediaType), ("text", .text text)]])]

end ResourceAtlas.Service
