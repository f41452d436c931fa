import ResourceAtlas.Schema.Validator
import ResourceAtlas.Store.Edit

/-!
# Schema nodes

A node describes a kind of location: how its value is made from the data, how it is reached, what
lies below it, and which methods it offers. Nodes stand in a catalog and name each other by number,
so a schema may lead back into itself. Where a schema names a node that is defined nowhere, whatever
asks for that node breaks off, and nothing else does. Nothing that derives a node from another one
changes the other one.
-/

namespace ResourceAtlas.Schema

open Text

/-- The number of a node in a catalog. -/
abbrev NodeId := Nat

/-- How a node refers to another one. -/
inductive NodeRef
  /-- The node of a number. -/
  | node (id : NodeId)
  /-- A name that is defined nowhere. -/
  | undefined (name : String)
  deriving DecidableEq, Repr, Inhabited

/-- The node that is referred to. -/
def NodeRef.find : NodeRef → Outcome NodeId
  | node id => .ok id
  | undefined name => .error (.missingKey name)

/-- A pure function on data. -/
inductive Transform
  /-- The first five characters of a text. -/
  | prefix5
  /-- A list of the data alone. -/
  | wrap
  /-- Whether there are no data. -/
  | isNull
  /-- Always give up. -/
  | fail
  deriving DecidableEq, Repr, Inhabited

/-- Apply a transform. -/
def Transform.apply (v : Value) : Transform → Outcome Value
  | prefix5 =>
    match v with
    | .null => .ok (.text "")
    | .text s => .ok (.text (String.ofList (s.toList.take 5)))
    | _ => .error (.computation "prefix5 needs text")
  | wrap => .ok (.list [v])
  | isNull => .ok (.bool v.isNull)
  | fail => .error (.computation "computed failed")

/-- How the value of a location is made. -/
inductive Resolution
  /-- The data as they are. -/
  | plain
  /-- The data that a validator admits. -/
  | checked (v : Validator)
  /-- What a transform makes of the data. -/
  | computed (t : Transform)
  /-- The values of the children, under their keys. -/
  | gathered
  /-- References to all members. -/
  | members
  /-- References to the members that the query selects. -/
  | selected
  deriving DecidableEq, Repr, Inhabited

/-- The kind of a node. -/
inductive Kind
  /-- A leaf. -/
  | scalar
  /-- A gathering of children. -/
  | object
  /-- A sequence of members. -/
  | collection
  /-- A leaf that is transformed. -/
  | computed
  /-- A grouping that the data do not have. -/
  | namespaced
  /-- A collection that honours queries. -/
  | query
  deriving DecidableEq, Repr, Inhabited

/-- The word for a kind. -/
def Kind.name : Kind → String
  | scalar => "scalar"
  | object => "object"
  | collection => "collection"
  | computed => "computed"
  | namespaced => "namespace"
  | query => "query"

/-- Kinds whose value is a sequence of references. -/
def Kind.isCollection : Kind → Bool
  | collection => true
  | query => true
  | _ => false

/-- A handler that takes the place of a change and always answers the same. -/
inductive Handler
  /-- Success with an address. -/
  | succeeds (text : String)
  /-- A problem. -/
  | fails (text : String)
  deriving DecidableEq, Repr

/-- The answer of a handler. -/
def Handler.answer : Handler → Verdict String
  | succeeds text => .ok text
  | fails text => .error (.reported text)

/-- What a specifier of a node can be asked to do. -/
inductive Method
  /-- Select a member by position. -/
  | byIndex (item : NodeRef)
  /-- Select a member by name. -/
  | byName (item : NodeRef)
  /-- Select a member by identifier. -/
  | byId (item : NodeRef)
  /-- Filter. -/
  | whose
  /-- Order. -/
  | sortBy
  /-- Cut a window. -/
  | paginate
  /-- Fill in fields. -/
  | expand
  /-- Assign a value. -/
  | set
  /-- Move to another collection. -/
  | move (handler : Option Handler)
  /-- Remove from the collection. -/
  | delete (handler : Option Handler)
  /-- Add a member. -/
  | create (handler : Option Handler)
  deriving DecidableEq, Repr

/-- How a location is reached from the one above it, where that is not by its key. -/
inductive Navigation
  /-- By another key. -/
  | aliased (backing : String)
  /-- By staying. -/
  | namespaced
  deriving DecidableEq, Repr

/-- A computed way to another location, described by a node of its own. -/
structure Landing where
  /-- The moves from the location above. -/
  motions : List Motion
  /-- The node of the location that they lead to. -/
  target : NodeId
  deriving Repr

/-- A description of a kind of location. -/
structure Node where
  /-- The kind. -/
  kind : Kind
  /-- How a value is made. -/
  resolution : Resolution
  /-- How the location is reached, if not by its key. -/
  navigation : Option Navigation
  /-- Whether a gathering shows a reference only. -/
  isLazy : Bool
  /-- The children under their keys. -/
  children : Outcome (Keyed NodeId)
  /-- The methods under their names. -/
  methods : Keyed Method
  /-- The node of every member. -/
  item : Option NodeRef
  /-- The computed way to the location, if there is one. -/
  landing : Option Landing
  /-- The node whose children a namespace groups. -/
  groups : Option NodeId
  /-- The key in the data, if it differs from the key in addresses. -/
  backing : Option String
  /-- Whether the location exists whatever the data are. -/
  alwaysExists : Bool
  /-- A text about it. -/
  description : Option String
  deriving Repr

/-- A node of a kind with nothing to it but how a value is made. -/
def Node.plain (kind : Kind) (resolution : Resolution) : Node where
  kind := kind
  resolution := resolution
  navigation := none
  isLazy := false
  children := .ok []
  methods := []
  item := none
  landing := none
  groups := none
  backing := none
  alwaysExists := false
  description := none

/-- The node of a location of which nothing is known: its value is the data. -/
def passthrough : Node := Node.plain .scalar .plain

instance : Inhabited Node := ⟨passthrough⟩

/-- All nodes of the schemas. -/
structure Catalog where
  /-- The nodes by their numbers. -/
  nodes : Array Node
  deriving Repr, Inhabited

namespace Catalog

/-- A catalog without nodes. -/
def empty : Catalog := ⟨#[]⟩

/-- The node of a number. -/
def node (c : Catalog) (id : NodeId) : Node :=
  c.nodes.getD id passthrough

/-- How many nodes there are. -/
def size (c : Catalog) : Nat := c.nodes.size

end Catalog

namespace Node

/-- The children that lie below a location: a namespace has those of the node it groups. -/
def below (c : Catalog) (n : Node) : Outcome (Keyed NodeId) :=
  match n.groups with
  | some id => (c.node id).children
  | none => n.children

/-- The keys of the children that lie below. -/
def keys (c : Catalog) (n : Node) : Outcome (List String) :=
  (n.below c).map Keyed.keys

/-- Whether a node has a method. -/
def hasMethod (n : Node) (name : String) : Bool :=
  Keyed.has name n.methods

/-- A grouping that the data do not have. -/
def isNamespace (n : Node) : Bool :=
  n.groups.isSome

/-- The node of every member, if there is one. -/
def itemNode? (c : Catalog) (n : Node) : Outcome (Option Node) :=
  match n.item with
  | some item => item.find.map fun id => some (c.node id)
  | none => .ok none

/-- The node of every member; without one, nothing is known of the members. -/
def itemNode (c : Catalog) (n : Node) : Outcome Node :=
  (n.itemNode? c).map fun item => item.getD passthrough

/-- The names of the methods that select a member, with the address form of each, the preferred one
first. -/
def accessors : List (String × MemberKey) :=
  [("by_id", "id"), ("by_name", "name"), ("by_index", "index")]

/-- The forms in which a member can be addressed, the preferred one first. -/
def memberKeys (n : Node) : List MemberKey :=
  (accessors.filter fun a => n.hasMethod a.1).map (·.2)

/-- The methods that ask a query. -/
def queryMethods : Keyed Method :=
  [("whose", .whose), ("sort_by", .sortBy), ("paginate", .paginate), ("expand", .expand)]

/-- The form of a collection that honours queries. -/
def queryable (n : Node) : Node :=
  if n.kind = .query then n
  else { n with
    resolution := .selected
    kind := .query
    methods := Keyed.merge n.methods queryMethods }

/-- The form of a collection whose members are shown as bare references. -/
def referencesOnly (n : Node) : Node :=
  { n with item := none }

/-- The form of a node that a gathering shows as a reference. -/
def delayed (n : Node) : Node :=
  { n with isLazy := true }

/-- The form of a node that lies under another key in the data. -/
def aliasing (backing : String) (n : Node) : Node :=
  { n with navigation := some (.aliased backing), backing := some backing }

/-- The form of a node with a text about it. -/
def described (text : String) (n : Node) : Node :=
  { n with description := some text }

/-- The form of a node with one more method. -/
def withMethod (name : String) (m : Method) (n : Node) : Node :=
  { n with methods := Keyed.put name m n.methods }

/-- The form of a node that is reached by a computed way. -/
def reachedBy (motions : List Motion) (target : NodeId) (n : Node) : Node :=
  { n with landing := some ⟨motions, target⟩ }

/-- A grouping of the children of a node. -/
def grouping (target : NodeId) (n : Node) : Node :=
  { Node.plain .namespaced .gathered with
    navigation := some .namespaced
    groups := some target
    alwaysExists := true
    description := n.description }

/-- A gathering of children. -/
def gathering (children : Keyed NodeId) : Node :=
  { Node.plain .object .gathered with children := .ok children }

/-- A leaf, with or without a validator. -/
def leaf : Option Validator → Node
  | none => passthrough
  | some v => Node.plain .scalar (.checked v)

/-- Quoted names between brackets. -/
def quotedList (names : List String) : String :=
  "[" ++ Split.join ", " (names.map Quoted.string) ++ "]"

/-- A node in short. -/
def text (n : Node) : String :=
  let byBacking := match n.backing with
    | none => []
    | some a => if a.isEmpty then [] else ["alias=" ++ Quoted.string a]
  let methods := if n.methods.isEmpty then []
    else ["methods=" ++ quotedList ((Keyed.keys n.methods).mergeSort fun a b => decide (a ≤ b))]
  let extras := byBacking ++ (if n.isLazy then ["lazy"] else []) ++
    (if n.landing.isSome then ["computed_nav"] else []) ++ methods
  let tail := if extras.isEmpty then "" else " " ++ Split.join " " extras
  "<SchemaNode " ++ n.kind.name ++ tail ++ ">"

end Node

end ResourceAtlas.Schema
