import ResourceAtlas.Query.Selection
import ResourceAtlas.Schema.Node

/-!
# Specifiers

A specifier is a cursor with the node that governs its location. Nothing is read until its value is
asked for. `resolveWithin` makes the value: leaves read the data, gatherings hold the values of
their children and pass over those that break off, collections hold references to their members. Its
first argument bounds how deep gatherings lie inside each other; `Specifier.resolve` gives it the
size of the catalog twice over, which a schema exceeds only if gatherings hold each other in a
circle.
-/

namespace ResourceAtlas

open Query Schema

/-- A location with the node that governs it. -/
structure Specifier where
  /-- The location. -/
  cursor : Cursor
  /-- The node. -/
  node : Node
  /-- Whether changes can look up new addresses. -/
  registered : Bool
  deriving Repr

/-- Go from a location to a child of its node, and to the node that governs it there. A namespace
keeps its own node, and a computed way leads to the node of its target. -/
def stepInto (catalog : Catalog) (cursor : Cursor) (key : String) (child : Node) :
    Outcome (Cursor × Node) :=
  let motion : Motion := match child.navigation with
    | some (.aliased backing) => .aliased backing key
    | some .namespaced => .namespaced key
    | none => if child.isNamespace then .namespaced key else .property key
  match child.isNamespace, child.landing with
  | false, some landing =>
    (Motion.applyAll cursor landing.motions).map fun c => (c, catalog.node landing.target)
  | _, _ => (motion.apply cursor).map fun c => (c, child)

/-- The stand-in for the value of a location: its address alone. -/
def reference (cursor : Cursor) : Outcome Value :=
  cursor.uri.map fun uri => .mapping [("uri", .text uri)]

/-- The references to members at indices. -/
def references (cursor : Cursor) : List Nat → Outcome (List Value)
  | [] => .ok []
  | i :: rest => do
    let r ← reference (cursor.atIndex (.int i))
    let more ← references cursor rest
    .ok (r :: more)

/-- The members of a sequence, or the fault of there being none. -/
def membersOf (wanted : Expectation) (v : Value) : Outcome (List Value) :=
  match v.sequence? with
  | some items => .ok items
  | none => .error (.mismatch wanted v.kindName)

/-- What makes the value of a location under a node. -/
abbrev Resolver := Node → Cursor → Outcome Value

/-- The value that a child of a gathering contributes. -/
def childValue (catalog : Catalog) (resolve : Resolver) (cursor : Cursor) (key : String)
    (id : NodeId) : Outcome Value := do
  let child := catalog.node id
  let (there, node) ← stepInto catalog cursor key child
  if child.isLazy then reference there else resolve node there

/-- The values of children under their keys. A child that breaks off is passed over. -/
def gather (catalog : Catalog) (resolve : Resolver) (cursor : Cursor) :
    List (String × NodeId) → Outcome (Keyed Value)
  | [] => .ok []
  | (key, id) :: rest =>
    match childValue catalog resolve cursor key id with
    | .ok v => do
      let more ← gather catalog resolve cursor rest
      .ok ((key, v) :: more)
    | .error _ => do
      let _ ← cursor.uri
      gather catalog resolve cursor rest

/-- The value of a field of a member, for a query that fills it in. -/
def fieldValue (catalog : Catalog) (resolve : Resolver) (item : Node) (member : Cursor)
    (name : String) : Outcome Value := do
  match Keyed.get? name (← item.below catalog) with
  | none => .error (.missingKey name)
  | some id =>
    let (there, node) ← stepInto catalog member name (catalog.node id)
    resolve node there

/-- The fields to fill in that are children of a node. A field that can change names none and breaks
off. -/
def fieldsBelow (children : Keyed NodeId) : List Value → Outcome (List String)
  | [] => .ok []
  | field :: rest => do
    let key ← field.asKey
    let more ← fieldsBelow children rest
    .ok (match key with
      | .text name => if Keyed.has name children then name :: more else more
      | _ => more)

/-- The members that a query selects, with their indices. -/
def selectMembers (state : State) (items : List Value) : Outcome (List (Value × Nat)) :=
  state.select (fun pair name => Value.fieldOf name pair.1) items.zipIdx

/-- The entries of a mapping. -/
def entriesOrNone (v : Value) : Keyed Value :=
  v.mapping?.getD []

/-- The references that a query answers, with the fields that it fills in. -/
def selectedReferences (catalog : Catalog) (resolve : Resolver) (node : Node) (cursor : Cursor)
    (data : Value) : Outcome (List Value) := do
  let items ← membersOf .candidates data
  let state := cursor.query
  let selected ← selectMembers state items
  let shown ← references cursor (selected.map (·.2))
  match ← node.itemNode? catalog with
  | none => .ok shown
  | some item =>
    let fields ← if state.expand.isEmpty then .ok []
      else do fieldsBelow (← item.below catalog) state.expand
    let member (i : Nat) : Cursor := cursor.atIndex (.int ((selected.map (·.2)).getD i 0))
    let resolveField (i : Nat) (name : String) : Outcome Value :=
      fieldValue catalog resolve item (member i) name
    .ok ((expandItems (shown.map entriesOrNone) fields resolveField).map .mapping)

/-- The value of a location under a node. -/
def resolveWithin (catalog : Catalog) (s : Store) : Nat → Resolver
  | 0, _, _ => .error .tooDeep
  | depth + 1, node, cursor =>
    match node.resolution with
    | .plain => cursor.raw s
    | .checked v => do
      let data ← cursor.raw s
      v.check data
    | .computed t => do
      let data ← cursor.raw s
      t.apply data
    | .gathered => do
      let children ← node.below catalog
      (gather catalog (resolveWithin catalog s depth) cursor children).map .mapping
    | .members => do
      let data ← cursor.raw s
      let items ← membersOf .members data
      (references cursor (List.range items.length)).map .list
    | .selected => do
      let data ← cursor.raw s
      (selectedReferences catalog (resolveWithin catalog s depth) node cursor data).map .list

/-- How deep values may lie inside each other. -/
def Schema.Catalog.depth (catalog : Catalog) : Nat :=
  2 * catalog.size + 4

namespace Specifier

/-- Another location for the same purpose. -/
def derive (spec : Specifier) (cursor : Cursor) (node : Node) : Specifier :=
  ⟨cursor, node, spec.registered⟩

/-- The address. -/
def uri (spec : Specifier) : Outcome String :=
  spec.cursor.uri

/-- The value. -/
def resolve (catalog : Catalog) (s : Store) (spec : Specifier) : Outcome Value :=
  resolveWithin catalog s catalog.depth spec.node spec.cursor

/-- Whether there is anything at the location. Data that cannot be read are not there. -/
def isPresent (s : Store) (spec : Specifier) : Bool :=
  spec.node.alwaysExists ||
    match spec.cursor.raw s with
    | .ok v => !v.isNull
    | .error _ => false

/-- The address alone, as data. -/
def toReference (spec : Specifier) : Outcome Value :=
  reference spec.cursor

/-- The location around, of which nothing else is known; a root has none. -/
def parent? (spec : Specifier) : Outcome (Option Specifier) := do
  let there ← Motion.parent.apply spec.cursor
  .ok (if there.isOutside then none else some (spec.derive there passthrough))

/-- The child under a key. -/
def child (catalog : Catalog) (spec : Specifier) (key : String) : Outcome Specifier := do
  match Keyed.get? key (← spec.node.below catalog) with
  | none => .error (.missingKey key)
  | some id =>
    let (there, node) ← stepInto catalog spec.cursor key (catalog.node id)
    .ok (spec.derive there node)

/-- The names that every specifier has. -/
def builtins : List String :=
  ["resolve", "exists", "uri", "to_json", "parent", "keys"]

/-- All names that a specifier answers to: its own, its methods and its children. -/
def keys (catalog : Catalog) (spec : Specifier) : Outcome (List String) := do
  let children ← spec.node.keys catalog
  .ok ((Keyed.keys spec.node.methods ++ children).foldl
    (fun names name => if names.contains name then names else names ++ [name]) builtins)

/-- A specifier in short. -/
def text (spec : Specifier) : Outcome String :=
  spec.uri.map fun uri => "Specifier(" ++ Text.Quoted.string uri ++ ", " ++ spec.node.text ++ ")"

end Specifier

end ResourceAtlas
