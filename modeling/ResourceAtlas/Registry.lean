import ResourceAtlas.Address.Lexer
import ResourceAtlas.Specifier.Basic

/-!
# Registered schemes and the resolution of addresses

A registry names, for every scheme, the document behind it and the node of its root. `resolve` walks
the segments of an address from there, one move to a segment: into a declared child, else to the
member that the head names; then the segment's qualifier is applied. What leads nowhere is a
problem that names the first such segment.
-/

namespace ResourceAtlas

open Address Query Schema

/-- A scheme with what lies behind it. -/
structure Registration where
  /-- The document. -/
  document : DocumentId
  /-- The node of the root. -/
  schema : NodeId
  deriving DecidableEq, Repr

/-- The registered schemes. -/
structure Registry where
  /-- The schemes in the order in which they were first registered. -/
  schemes : Keyed Registration
  /-- Whether no more schemes are taken. -/
  frozen : Bool
  deriving Repr, Inhabited

namespace Registry

/-- A registry without schemes. -/
def empty : Registry := ⟨[], false⟩

/-- Register a scheme, or replace it. -/
def register (r : Registry) (scheme : String) (what : Registration) : Outcome Registry :=
  if r.frozen then .error (.frozen scheme)
  else .ok { r with schemes := Keyed.put scheme what r.schemes }

/-- Take no more schemes. -/
def freeze (r : Registry) : Registry :=
  { r with frozen := true }

/-- The names of the schemes. -/
def names (r : Registry) : List String :=
  Keyed.keys r.schemes

end Registry

/-- The catalog of nodes with the schemes that start from it. -/
structure Atlas where
  /-- The nodes. -/
  catalog : Catalog
  /-- The schemes. -/
  registry : Registry
  deriving Repr, Inhabited

namespace Atlas

/-- An atlas without nodes and schemes. -/
def empty : Atlas := ⟨.empty, .empty⟩

/-- A location on the way through an address. -/
structure Standing where
  /-- The location. -/
  cursor : Cursor
  /-- The node that governs it. -/
  node : Node
  deriving Repr

/-- The name under which a cursor is asked to take a request first, if the request asks anything. -/
def askedFirst? (r : Request) : Option String :=
  if !r.filters.isEmpty then some "with_filter"
  else if r.order.isSome then some "with_sort"
  else if r.window.isSome then some "with_pagination"
  else if !r.expand.isEmpty then some "with_expand"
  else none

/-- Ask a request of the location. -/
def ask (here : Standing) (request : Request) : Outcome Standing := do
  let cursor ← match askedFirst? request with
    | some name => here.cursor.within name
    | none => .ok here.cursor
  .ok ⟨cursor.withQuery (request.apply cursor.query), here.node.queryable⟩

/-- Move to a member of the location. -/
def select (a : Atlas) (here : Standing) (motion : Motion) : Outcome Standing := do
  let cursor ← motion.apply here.cursor
  let member ← here.node.itemNode a.catalog
  .ok ⟨cursor, member⟩

/-- Apply a qualifier to the location that a head led to. -/
def qualify (a : Atlas) (here : Standing) (head : String) :
    Qualifier → Outcome (Verdict Standing)
  | .index n =>
    if here.node.hasMethod "by_index" then (a.select here (.index (.int n))).map .ok
    else .ok (.error (.noIndexAccess head))
  | .id n =>
    if here.node.hasMethod "by_id" then (a.select here (.id (.int n))).map .ok
    else .ok (.error (.noIdAccess head))
  | .query request => (ask here request).map .ok

/-- Enter a declared child. A qualifier on a namespace is a problem, and so is a way that breaks
off. -/
def enter (a : Atlas) (here : Standing) (segment : Segment) (child : Node) : Verdict Standing :=
  if child.isNamespace && segment.qualifier.isSome then
    .error (.namespaceQualified segment.head)
  else
    match stepInto a.catalog here.cursor segment.head child with
    | .ok (cursor, node) => .ok ⟨cursor, node⟩
    | .error f => .error (.navigationFailed segment.head f.message)

/-- Move by the head of a segment. -/
def moveByHead (a : Atlas) (here : Standing) (segment : Segment) :
    Outcome (Verdict Standing) := do
  let children ← here.node.below a.catalog
  match Keyed.get? segment.head children with
  | some id => .ok (a.enter here segment (a.catalog.node id))
  | none =>
    let wanted := Value.text segment.head
    if here.node.hasMethod "by_name" then (a.select here (.name wanted)).map .ok
    else if here.node.hasMethod "by_id" then (a.select here (.id wanted)).map .ok
    else .ok (.error (.unknownSegment segment.head (Keyed.keys children)))

/-- Move by a segment. -/
def moveBy (a : Atlas) (here : Standing) (segment : Segment) : Outcome (Verdict Standing) := do
  match ← a.moveByHead here segment, segment.qualifier with
  | .ok there, some q => a.qualify there segment.head q
  | verdict, _ => .ok verdict

/-- Move by segments in turn. -/
def walk (a : Atlas) (here : Standing) : List Segment → Outcome (Verdict Standing)
  | [] => .ok (.ok here)
  | segment :: rest => do
    match ← a.moveBy here segment with
    | .ok there => a.walk there rest
    | .error problem => .ok (.error problem)

/-- The specifier of a location. -/
def locate (a : Atlas) (location : Location) : Outcome (Verdict Specifier) :=
  match Keyed.get? location.scheme a.registry.schemes with
  | none => .ok (.error (.unknownScheme location.scheme a.registry.names))
  | some what => do
    let root : Standing := ⟨.atRoot what.document location.scheme, a.catalog.node what.schema⟩
    let verdict ← a.walk root location.segments
    .ok (verdict.map fun there => ⟨there.cursor, there.node, true⟩)

/-- The specifier of an address. -/
def resolve (a : Atlas) (uri : String) : Outcome (Verdict Specifier) := do
  match ← Address.read uri with
  | .error problem => .ok (.error problem)
  | .ok location => a.locate location

end Atlas

end ResourceAtlas
