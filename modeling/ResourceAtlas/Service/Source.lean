import ResourceAtlas.Json.Reader
import ResourceAtlas.Service.Desk
import ResourceAtlas.Service.Settings

/-!
# The source of schema and data

A service starts from a schema that a reference names and from a data file. The reference names a
module and what is bound in it; modules hold no other modules. Without a reference the registry
stays empty, and without a file the data are an empty mapping. The registry takes no more schemes
afterwards.
-/

namespace ResourceAtlas.Service

open Schema Text

/-- What a module binds to a name. -/
inductive Binding
  /-- A schema node. -/
  | node (id : NodeId)
  /-- Something else. -/
  | other
  deriving DecidableEq, Repr

/-- The modules that references can name, with what they bind. -/
abbrev Modules := Keyed (Keyed Binding)

/-- The contents of files by their paths. -/
abbrev Files := String → Option String

/-- A module and a name that is bound in it. -/
structure Reference where
  /-- The module. -/
  moduleName : String
  /-- The name. -/
  name : String
  deriving DecidableEq, Repr

/-- The reference that a text writes: both parts around the first colon are there. -/
def Reference.ofText? (text : String) : Option Reference :=
  match Split.atFirst ':' text.toList with
  | some (c :: cs, d :: ds) => some ⟨String.ofList (c :: cs), String.ofList (d :: ds)⟩
  | _ => none

/-- What a module binds. -/
def moduleNamed (modules : Modules) (name : String) : Outcome (Keyed Binding) :=
  match (Split.every '.' name.toList).map String.ofList with
  | "" :: _ :: _ => .error (.relativeModule name)
  | first :: inner =>
    match Keyed.get? first modules, inner with
    | none, _ => .error (.missingModule first)
    | some bindings, [] => .ok bindings
    | some _, next :: _ => .error (.moduleInModule (first ++ "." ++ next) first)
  | [] => .error (.missingModule name)

/-- The schema node of a reference. -/
def loadSchema (modules : Modules) (text : String) : Outcome NodeId :=
  match Reference.ofText? text with
  | none => .error (.schemaReference text)
  | some reference => do
    let bindings ← moduleNamed modules reference.moduleName
    match Keyed.get? reference.name bindings with
    | some (.node id) => .ok id
    | _ => .error (.notSchemaNode text)

/-- A text in which every line ends with a line feed alone. -/
def unixLines : List Char → List Char
  | '\r' :: '\n' :: rest => '\n' :: unixLines rest
  | '\r' :: rest => '\n' :: unixLines rest
  | c :: rest => c :: unixLines rest
  | [] => []

/-- Whether a path only stays where it is or goes up, which always leads to a directory. -/
def isUpward (path : String) : Bool :=
  (Split.every '/' path.toList).all fun part =>
    part.isEmpty || part == ['.'] || part == ['.', '.']

/-- How many octets a part of a path can have. -/
def longestPart : Nat := 255

/-- How many octets a path can have. -/
def longestPath : Nat := 4095

/-- Whether a path is too long, or its first part that leads to a name is. -/
def isOverlong (path : String) : Bool :=
  let parts := (Split.every '/' path.toList).filter fun part =>
    !part.isEmpty && part != ['.'] && part != ['.', '.']
  decide (longestPath < path.utf8ByteSize) ||
    decide (longestPart < (Utf8.encode (parts.headD [])).length)

/-- The fault of a path without a file. A path with a zero character names nothing at all. -/
def pathFault (path : String) : Fault :=
  if path.contains (Char.ofNat 0) then .computation "embedded null byte"
  else if isOverlong path then .overlongPath path
  else if isUpward path then .directory path
  else .missingFile path

/-- The data in the file of a path. -/
def loadData (files : Files) (path : Option String) : Outcome Value :=
  match path with
  | none => .ok (.mapping [])
  | some path =>
    match files path with
    | some text => Json.read (String.ofList (unixLines text.toList))
    | none => .error (pathFault path)

/-- What a service has around it. -/
structure Surroundings where
  /-- The variables. -/
  environment : Variables
  /-- The nodes of the schemas. -/
  catalog : Catalog
  /-- The modules. -/
  modules : Modules
  /-- The files. -/
  files : Files

namespace Surroundings

/-- The registration of the scheme that settings describe. -/
def fill (around : Surroundings) (settings : SourceSettings) : Outcome Desk :=
  let bare : Desk := { Desk.empty with atlas := ⟨around.catalog, .empty⟩ }
  match settings.schema with
  | none => .ok bare
  | some text => do
    let schema ← loadSchema around.modules text
    let data ← loadData around.files settings.data
    match Desk.register settings.scheme schema data bare with
    | (.ok (), d) => .ok d
    | (.error f, _) => .error f

/-- A desk over the schema and the data that settings describe. -/
def desk (around : Surroundings) (settings : SourceSettings) : Outcome Desk :=
  (around.fill settings).map fun d =>
    { d with atlas := { d.atlas with registry := d.atlas.registry.freeze } }

end Surroundings

end ResourceAtlas.Service
