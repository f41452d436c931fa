import ResourceAtlas.Specifier.Call

/-!
# Tools

A tool changes documents by address: it looks for the arguments that it needs, resolves the
addresses among them, asks the node for the method, and answers with a small mapping or a problem.
-/

namespace ResourceAtlas

open Schema

/-- A tool. -/
inductive Tool
  /-- Assign a property. -/
  | set
  /-- Add a member. -/
  | make
  /-- Move a member. -/
  | move
  /-- Remove a member. -/
  | delete
  deriving DecidableEq, Repr

namespace Tool

/-- All tools in the order in which they are listed. -/
def all : List Tool := [set, make, move, delete]

/-- The name of a tool. -/
def name : Tool → String
  | set => "set"
  | make => "make"
  | move => "move"
  | delete => "delete"

/-- The tool of a name. -/
def ofName? (s : String) : Option Tool :=
  all.find? fun t => t.name == s

/-- A text about a tool. -/
def description : Tool → String
  | set => "Assign a new value to the property addressed by a URI."
  | make => "Create a new item in the collection addressed by a URI."
  | move => "Move an item into another collection."
  | delete => "Delete the item addressed by a URI."

/-- An argument of a tool. -/
structure Parameter where
  /-- The name. -/
  name : String
  /-- The word for its kind, if it has to be of one. -/
  kind : Option String
  /-- A text about it. -/
  description : String
  /-- Whether it has to be given. -/
  required : Bool
  deriving DecidableEq, Repr

/-- The arguments of a tool. -/
def parameters : Tool → List Parameter
  | set => [⟨"uri", some "string", "Property URI", true⟩, ⟨"value", none, "New value", true⟩]
  | make => [⟨"collection", some "string", "Collection URI", true⟩,
      ⟨"properties", some "object", "Initial properties", false⟩]
  | move => [⟨"item", some "string", "Item URI", true⟩,
      ⟨"destination", some "string", "Collection URI", true⟩]
  | delete => [⟨"item", some "string", "Item URI", true⟩]

/-- The names of the arguments that have to be given. -/
def required (t : Tool) : List String :=
  (t.parameters.filter Parameter.required).map Parameter.name

/-- An argument as data. -/
def Parameter.value (p : Parameter) : Value :=
  let kind := match p.kind with
    | some k => [("type", Value.text k)]
    | none => []
  .mapping (kind ++ [("description", .text p.description)])

/-- The form of a tool's arguments as data. -/
def inputForm (t : Tool) : Value :=
  .mapping [("type", .text "object"),
    ("properties", .mapping (t.parameters.map fun p => (p.name, p.value))),
    ("required", .list (t.required.map .text))]

/-- A tool as data. -/
def value (t : Tool) : Value :=
  .mapping [("name", .text t.name), ("description", .text t.description),
    ("inputSchema", t.inputForm)]

/-- The address that an argument gives. -/
def addressOf (v : Value) : Outcome String :=
  match v with
  | .text s => .ok s
  | .bytes _ => .error (.misuse "a bytes-like object is required, not 'str'")
  | v => .error (.noAttribute v.fullKindName "partition")

/-- The specifier of an address whose node has a method. -/
def resolveWith (a : Atlas) (address : Value) (method : String) : Outcome (Verdict Specifier) := do
  let uri ← addressOf address
  match ← a.resolve uri with
  | .error problem => .ok (.error problem)
  | .ok spec =>
    if spec.node.hasMethod method then .ok (.ok spec)
    else .ok (.error (.unsupported uri method))

/-- Whether an argument is given. Members of a sequence and parts of a text count as given, though
nothing can be read from them. -/
def isGiven (arguments : Value) (name : String) : Outcome Bool :=
  match arguments with
  | .mapping entries => .ok (Keyed.has name entries)
  | .table entries => .ok (Keyed.has name (Value.textEntries entries))
  | .text s => .ok (Text.Split.contains name.toList s.toList)
  | .bytes _ => .error (.misuse "a bytes-like object is required, not 'str'")
  | v =>
    match v.sequence? with
    | some items => .ok (items.any fun item => Value.equal item (.text name))
    | none => .error (.misuse ("argument of type '" ++ v.fullKindName ++ "' is not iterable"))

/-- The arguments that are missing. -/
def missing (t : Tool) (arguments : Value) : Outcome (List String) :=
  t.required.filterM fun name => (isGiven arguments name).map (!·)

/-- The value of an argument. -/
def argument (arguments : Keyed Value) (name : String) : Value :=
  (Keyed.get? name arguments).getD .null

/-- Go on with a specifier, or leave things as they are. -/
def onSpecifier {α : Type} (found : Outcome (Verdict Specifier))
    (next : Specifier → Action (Verdict α)) : Action (Verdict α) := fun s =>
  match found with
  | .error f => (.error f, s)
  | .ok (.error problem) => (.ok (.error problem), s)
  | .ok (.ok spec) => next spec s

/-- Shape the answer of an action. -/
def answering {α : Type} (shape : α → Outcome Value) (change : Action (Verdict α)) :
    Action (Verdict Value) := fun s =>
  match change s with
  | (.error f, t) => (.error f, t)
  | (.ok (.error problem), t) => (.ok (.error problem), t)
  | (.ok (.ok x), t) => ((shape x).map .ok, t)

/-- What a method of a node does when it is called. -/
def callAddress (a : Atlas) (spec : Specifier) (name : String) (arguments : List Value) :
    Action (Verdict String) := fun s =>
  match spec.call a name arguments s with
  | (.ok (.address v), t) => (.ok v, t)
  | (.ok _, t) => (.error Specifier.notCallable, t)
  | (.error f, t) => (.error f, t)

/-- What a method of a node that leads to a new location does when it is called. -/
def callLocation (change : Action Answer) : Action (Verdict Specifier) := fun s =>
  match change s with
  | (.ok (.location v), t) => (.ok v, t)
  | (.ok _, t) => (.error Specifier.notCallable, t)
  | (.error f, t) => (.error f, t)

/-- A mapping with the address of a specifier under a key, after other entries. -/
def withUri (entries : Keyed Value) (spec : Specifier) : Outcome Value :=
  spec.uri.map fun uri => .mapping (entries ++ [("uri", .text uri)])

/-- The properties of a new member. -/
def propertiesOf (v : Value) : Outcome Value :=
  if v.isTruthy then (entriesOf v).map Value.ofPairs else .ok (.mapping [])

/-- Run a tool whose arguments are there. -/
def run (a : Atlas) (arguments : Keyed Value) : Tool → Action (Verdict Value)
  | set =>
    let new := argument arguments "value"
    onSpecifier (resolveWith a (argument arguments "uri") "set") fun spec =>
      answering (fun uri => .ok (.mapping [("uri", .text uri), ("value", new)]))
        (callAddress a spec "set" [new])
  | make =>
    onSpecifier (resolveWith a (argument arguments "collection") "create") fun spec s =>
      match propertiesOf (argument arguments "properties") with
      | .error f => (.error f, s)
      | .ok properties =>
        answering (withUri []) (callLocation (spec.call a "create" [properties])) s
  | move =>
    let item := argument arguments "item"
    onSpecifier (resolveWith a item "move") fun spec =>
      onSpecifier (do
          let uri ← addressOf (argument arguments "destination")
          a.resolve uri) fun destination =>
        answering (withUri [("from", item)]) (callLocation (spec.callMove a destination))
  | delete =>
    onSpecifier (resolveWith a (argument arguments "item") "delete") fun spec =>
      answering (fun uri => .ok (.mapping [("deleted", .text uri)]))
        (callAddress a spec "delete" [])

/-- The entries of arguments. -/
def argumentEntries (v : Value) : Outcome (Keyed Value) :=
  match v with
  | .mapping entries => .ok entries
  | .table entries => .ok (Value.textEntries entries)
  | .text _ => .error (.misuse "string indices must be integers, not 'str'")
  | v => .error (.position v.fullKindName "str")

/-- Run a tool. Anything that counts as nothing stands for no arguments. -/
def call (a : Atlas) (t : Tool) (given : Value) : Action (Verdict Value) := fun s =>
  let arguments := if given.isTruthy then given else .mapping []
  match t.missing arguments with
  | .error f => (.error f, s)
  | .ok (name :: names) => (.ok (.error (.missingArguments (name :: names))), s)
  | .ok [] =>
    match argumentEntries arguments with
    | .error f => (.error f, s)
    | .ok entries => t.run a entries s

/-- Run the tool of a name. -/
def callNamed (a : Atlas) (name : String) (arguments : Value) : Action (Verdict Value) := fun s =>
  match ofName? name with
  | some t => t.call a arguments s
  | none => (.error (.missingKey name), s)

end Tool

end ResourceAtlas
