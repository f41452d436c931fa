import ResourceAtlas.Schema.Node

/-!
# Blueprints

A blueprint is an expression that describes a node. `Workshop.build` makes the node and puts it
into a growing catalog. Definitions give names to nodes, and a name stands for that very node. The
children of a deferred gathering are built last, so they may name later definitions; the item of a
collection may do so too, and of two definitions of a name it means the later one. Where such a name
is defined nowhere the node is built all the same and breaks off when it is asked for what is
missing.
-/

namespace ResourceAtlas.Schema

/-- An expression for a node. -/
inductive Blueprint
  /-- A defined node. -/
  | named (name : String)
  /-- A leaf. -/
  | leaf (v : Option Validator)
  /-- A gathering. -/
  | gathering (children : List (String × Blueprint))
  /-- A gathering whose children are built last. -/
  | deferred (children : List (String × Blueprint))
  /-- A collection with the words for its accessors. -/
  | collection (item : Blueprint) (accessors : List String)
  /-- A leaf that is transformed. -/
  | computed (t : Transform)
  /-- The aliased form of a node. -/
  | aliased (base : Blueprint) (backing : String)
  /-- The form of a node that is shown as a reference. -/
  | delayed (base : Blueprint)
  /-- A grouping of the children of a node. -/
  | grouping (base : Blueprint)
  /-- The form of a node with a text about it. -/
  | described (base : Blueprint) (text : String)
  /-- The form of a collection that honours queries. -/
  | queryable (base : Blueprint)
  /-- The form of a collection that shows bare references. -/
  | referencesOnly (base : Blueprint)
  /-- The form of a node that is reached by a computed way. -/
  | reached (base : Blueprint) (motions : List Motion)
  /-- The form of a node with more children. -/
  | extended (base : Blueprint) (children : List (String × Blueprint))
  /-- The form of a node with one more method. -/
  | equipped (base : Blueprint) (name : String) (m : Method)
  deriving Repr, Inhabited

mutual

/-- How many expressions a blueprint holds. -/
def Blueprint.size : Blueprint → Nat
  | .gathering children => sizeAll children + 1
  | .deferred children => sizeAll children + 1
  | .collection item _ => item.size + 1
  | .aliased base _ => base.size + 1
  | .delayed base => base.size + 1
  | .grouping base => base.size + 1
  | .described base _ => base.size + 1
  | .queryable base => base.size + 1
  | .referencesOnly base => base.size + 1
  | .reached base _ => base.size + 1
  | .extended base children => base.size + sizeAll children + 1
  | .equipped base _ _ => base.size + 1
  | _ => 1

/-- How many expressions keyed blueprints hold. -/
def Blueprint.sizeAll : List (String × Blueprint) → Nat
  | [] => 0
  | (_, b) :: rest => b.size + sizeAll rest

end

/-- Children that are built when they are needed. -/
structure Pending where
  /-- Their blueprints. -/
  parts : List (String × Blueprint)
  /-- Their nodes or why there are none, once they are built. -/
  built : Option (Outcome (Keyed NodeId))

/-- A node in the making: its children may still be pending. -/
structure Draft where
  /-- The node. -/
  node : Node
  /-- The pending children that take the place of the node's own. -/
  pending : Option Nat
  deriving Inhabited

/-- A catalog in the making. -/
structure Workshop where
  /-- The nodes so far. -/
  drafts : Array Draft
  /-- The children that are or were pending. -/
  pending : Array Pending
  /-- The defined nodes. -/
  names : Keyed NodeId
  /-- The nodes that names are known to stand for before they are defined. -/
  foreseen : Keyed NodeId
  /-- How deep blueprints may lie inside each other. -/
  depth : Nat

/-- A step of building. -/
abbrev Building (α : Type) := StateT Workshop Outcome α

namespace Workshop

/-- A workshop without nodes. -/
def empty : Workshop := ⟨#[], #[], [], [], 0⟩

/-- Put a node into the catalog. -/
def put (d : Draft) : Building NodeId := fun w =>
  .ok (w.drafts.size, { w with drafts := w.drafts.push d })

/-- The draft of a node. -/
def draft (id : NodeId) : Building Draft := fun w =>
  .ok (w.drafts.getD id ⟨passthrough, none⟩, w)

/-- Put a form of a node into the catalog. -/
def derive (id : NodeId) (f : Node → Node) : Building NodeId := do
  let d ← draft id
  put { d with node := f d.node }

/-- The node of a name. -/
def lookup (name : String) : Building NodeId := fun w =>
  match Keyed.get? name w.names with
  | some id => .ok (id, w)
  | none => .error (.missingKey name)

/-- The node of a name that may be defined later. -/
def foresee (name : String) : Building NodeRef := fun w =>
  match Keyed.get? name w.foreseen with
  | some id => .ok (.node id, w)
  | none => .ok (.undefined name, w)

/-- Keep children back. -/
def postpone (parts : List (String × Blueprint)) : Building Nat := fun w =>
  .ok (w.pending.size, { w with pending := w.pending.push ⟨parts, none⟩ })

/-- The pending children of a number. -/
def pendingAt (i : Nat) : Building Pending := fun w =>
  .ok (w.pending.getD i ⟨[], some (.ok [])⟩, w)

/-- Note the nodes of pending children, or why there are none. -/
def settle (i : Nat) (built : Outcome (Keyed NodeId)) : Building Unit := fun w =>
  .ok ((), { w with pending := w.pending.modify i fun p => { p with built := some built } })

/-- The accessor that a word names, as a name and a method. -/
def accessor? (item : NodeRef) (word : String) : Option (String × Method) :=
  if word = "index" then some ("by_index", .byIndex item)
  else if word = "name" then some ("by_name", .byName item)
  else if word = "id" then some ("by_id", .byId item)
  else none

/-- The words for accessors in the order in which their methods stand. -/
def accessorWords : List String := ["index", "name", "id"]

/-- A collection of a node's members. The first word that names no accessor is refused. -/
def collectionOf (item : NodeRef) (words : List String) : Outcome Node :=
  match words.find? fun word => (accessor? item word).isNone with
  | some word => .error (.unknownAccessor word)
  | none =>
    let chosen := accessorWords.filter fun word => words.contains word
    .ok { Node.plain .collection .members with
      item := some item
      methods := Keyed.merge (chosen.filterMap (accessor? item)) Node.queryMethods }

/-- The word for the node that an extension starts from. No child of an extension has it as key. -/
def baseWord : String := "base"

/-- The fault of an extension in which a child is named like what is extended. -/
def twoBases : Fault :=
  .misuse ("extend() got multiple values for argument '" ++ baseWord ++ "'")

/-- Build keyed blueprints with a function for one. -/
def buildEach (build : Blueprint → Building NodeId) :
    List (String × Blueprint) → Building (List (String × NodeId))
  | [] => pure []
  | (key, b) :: rest => do
    let id ← build b
    let more ← buildEach build rest
    pure ((key, id) :: more)

/-- The children of a draft, built if they are pending. -/
def childrenOf (build : Blueprint → Building NodeId) (d : Draft) : Building (Keyed NodeId) :=
  match d.pending with
  | none => fun w => d.node.children.map fun children => (children, w)
  | some i => do
    let p ← pendingAt i
    match p.built with
    | some children => fun w => children.map fun children => (children, w)
    | none => do
      let children ← buildEach build p.parts
      settle i (.ok (Keyed.ofList children))
      pure (Keyed.ofList children)

/-- Build the node of a blueprint. -/
def buildWithin : Nat → Blueprint → Building NodeId
  | 0, _ => throw .tooDeep
  | depth + 1, b =>
    let build := buildWithin depth
    match b with
    | .named name => lookup name
    | .leaf v => put ⟨Node.leaf v, none⟩
    | .gathering children => do
      let children ← buildEach build children
      put ⟨Node.gathering (Keyed.ofList children), none⟩
    | .deferred children => do
      let i ← postpone children
      put ⟨Node.gathering [], some i⟩
    | .collection item words => do
      let item ← match item with
        | .named name => foresee name
        | item => NodeRef.node <$> build item
      let node ← collectionOf item words
      put ⟨node, none⟩
    | .computed t => put ⟨Node.plain .computed (.computed t), none⟩
    | .aliased base backing => do derive (← build base) (Node.aliasing backing)
    | .delayed base => do derive (← build base) Node.delayed
    | .grouping base => do
      let target ← build base
      let d ← draft target
      put ⟨Node.grouping target d.node, none⟩
    | .described base text => do derive (← build base) (Node.described text)
    | .queryable base => do
      let id ← build base
      let d ← draft id
      if d.node.kind = .query then pure id else derive id Node.queryable
    | .referencesOnly base => do derive (← build base) Node.referencesOnly
    | .reached base motions => do
      let target ← build base
      derive target (Node.reachedBy motions target)
    | .extended base children => do
      let id ← build base
      let more ← buildEach build children
      if Keyed.has baseWord more then throw twoBases
      let d ← draft id
      let own ← childrenOf build d
      put ⟨{ d.node with children := .ok (Keyed.merge own more) }, none⟩
    | .equipped base name m => do derive (← build base) (Node.withMethod name m)

/-- Build the node of a blueprint. -/
def build (b : Blueprint) : Building NodeId := fun w =>
  let depth := w.depth + b.size
  buildWithin depth b { w with depth := depth }

/-- Build a definition and note its name. -/
def define (name : String) (b : Blueprint) : Building Unit := do
  let id ← build b
  modify fun w => { w with names := Keyed.put name id w.names }

/-- Build definitions in order. -/
def defineAll : List (String × Blueprint) → Building Unit
  | [] => pure ()
  | (name, b) :: rest => do
    define name b
    defineAll rest

/-- Build pending children, or note why there are none. -/
def buildPending (i : Nat) : Building Unit := fun w =>
  match childrenOf (buildWithin w.depth) ⟨passthrough, some i⟩ w with
  | .ok (_, w) => .ok ((), w)
  | .error f => settle i (.error f) w

/-- Build all pending children from a number on. Children may leave others pending. -/
def settleFrom : Nat → Nat → Building Unit
  | 0, _ => pure ()
  | fuel + 1, i => fun w =>
    if i < w.pending.size then
      (do
        buildPending i
        settleFrom fuel (i + 1)) w
    else .ok ((), w)

/-- Build all pending children. -/
def settleAll : Building Unit := fun w =>
  settleFrom (w.depth + 1) 0 w

/-- A workshop with definitions. They are built twice: the first time to learn which node each name
stands for in the end, so that the second time a collection may name a later definition. -/
def ofDefinitions (definitions : List (String × Blueprint)) : Outcome Workshop := do
  let (_, first) ← defineAll definitions empty
  let (_, second) ← defineAll definitions { empty with foreseen := first.names }
  .ok second

/-- The node of a draft, with the children that were pending. -/
def finished (w : Workshop) (d : Draft) : Node :=
  match d.pending with
  | none => d.node
  | some i => { d.node with children := ((w.pending[i]?).bind Pending.built).getD (.ok []) }

/-- The catalog of a workshop. -/
def catalog (w : Workshop) : Catalog :=
  ⟨w.drafts.map w.finished⟩

/-- Build a blueprint with all pending children. -/
def buildWhole (w : Workshop) (b : Blueprint) : Outcome (NodeId × Workshop) := do
  let (id, w) ← build b w
  let (_, w) ← settleAll w
  .ok (id, w)

end Workshop

end ResourceAtlas.Schema
