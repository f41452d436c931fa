import ResourceAtlas.Registry
import ResourceAtlas.Resource.Read

/-!
# Listing resources and address templates

The entry points of a scheme are the children of its root. Templates tell how members of collections
are addressed: one for every accessor, and one for queries. Every node is visited at most once in
a scheme, so a schema that leads back into itself is listed to the end.
-/

namespace ResourceAtlas.Resource

open Schema

/-- An entry point of a scheme. -/
structure Entry where
  /-- The address. -/
  uri : String
  /-- The key. -/
  name : String
  /-- A text about it. -/
  description : String
  deriving DecidableEq, Repr

/-- A form of addresses. -/
structure Template where
  /-- The address, with names in braces where something is to be filled in. -/
  uriTemplate : String
  /-- A name for the form. -/
  name : String
  /-- A text about it. -/
  description : String
  deriving DecidableEq, Repr

/-- An entry point as data. -/
def Entry.value (e : Entry) : Value :=
  .mapping [("uri", .text e.uri), ("name", .text e.name), ("description", .text e.description),
    ("mimeType", .text mediaType)]

/-- A form of addresses as data. -/
def Template.value (t : Template) : Value :=
  .mapping [("uriTemplate", .text t.uriTemplate), ("name", .text t.name),
    ("description", .text t.description), ("mimeType", .text mediaType)]

/-- The address of a scheme's root. -/
def rootUri (scheme : String) : String := scheme ++ "://"

/-- The address of a key below an address. -/
def below (base key : String) : String :=
  if Address.endsAtRoot base.toList then base ++ key else base ++ "/" ++ key

/-- The word for a kind with a capital letter. -/
def kindTitle : Kind → String
  | .scalar => "Scalar"
  | .object => "Object"
  | .collection => "Collection"
  | .computed => "Computed"
  | .namespaced => "Namespace"
  | .query => "Query"

/-- The text about a child: its own, or one made of its kind and its key. -/
def describe (key : String) (n : Node) : String :=
  match n.description with
  | some text => if text.isEmpty then kindTitle n.kind ++ " '" ++ key ++ "'" else text
  | none => kindTitle n.kind ++ " '" ++ key ++ "'"

/-- The entry points of a scheme. -/
def schemeEntries (c : Catalog) (scheme : String) (what : Registration) :
    Outcome (List Entry) := do
  let children ← (c.node what.schema).below c
  .ok (children.map fun child =>
    ⟨below (rootUri scheme) child.1, child.1, describe child.1 (c.node child.2)⟩)

/-- What a function makes of every scheme, in order. -/
def overSchemes {α : Type} (f : String → Registration → Outcome (List α)) :
    Keyed Registration → Outcome (List α)
  | [] => .ok []
  | (scheme, what) :: rest => do
    let here ← f scheme what
    let more ← overSchemes f rest
    .ok (here ++ more)

/-- The entry points of all schemes. -/
def entries (a : Atlas) : Outcome (List Entry) :=
  overSchemes (schemeEntries a.catalog) a.registry.schemes

/-- The templates of a collection, with the address that its members lie below. -/
def collectionTemplates (uri key : String) (n : Node) : List Template × Option String :=
  let form (present : Bool) (tail name word : String) : List Template :=
    if present then
      [⟨uri ++ tail, key ++ " by " ++ name, "Item of '" ++ key ++ "' by " ++ word⟩]
    else []
  let byIndex := n.hasMethod "by_index"
  let byId := n.hasMethod "by_id"
  let byName := n.hasMethod "by_name"
  let member := if byName then some "/\x7bname\x7d" else if byId then some "/\x7bid\x7d"
    else if byIndex then some "[\x7bindex\x7d]" else none
  let query : Template := ⟨uri ++ "?\x7bfilter\x7d", key ++ " query",
    "Filter, sort and paginate '" ++ key ++ "' (field=value, field.op=value, " ++
      "sort=field.asc|desc, limit=n, offset=n, expand=a,b)"⟩
  (form byIndex "[\x7bindex\x7d]" "index" "position" ++ form byId "/\x7bid\x7d" "id" "id" ++
    form byName "/\x7bname\x7d" "name" "name" ++ [query], member.map fun tail => uri ++ tail)

/-- Templates with the nodes that were visited for them. -/
structure Collected where
  /-- The nodes visited. -/
  seen : List NodeId
  /-- The templates in order. -/
  templates : List Template

/-- The node where a child lands: the target of its computed way, or itself. -/
def landingId (c : Catalog) (id : NodeId) : NodeId :=
  match (c.node id).landing with
  | some landing => landing.target
  | none => id

/-- Collect the templates of a child under a key with a function for the nodes below. -/
def collectChild (c : Catalog) (collect : NodeId → String → Collected → Outcome Collected)
    (base : String) (out : Collected) (child : String × NodeId) : Outcome Collected := do
  let uri := below base child.1
  let id := landingId c child.2
  let n := c.node id
  if n.kind.isCollection then
    let (templates, member) := collectionTemplates uri child.1 n
    let out := { out with templates := out.templates ++ templates }
    match n.item with
    | none => .ok out
    | some item =>
      let item ← item.find
      match member with
      | some memberBase => collect item memberBase out
      | none => .ok out
  else
    let children ← n.below c
    if children.isEmpty then .ok out else collect id uri out

/-- Collect the templates below a node that was not visited before. The first argument bounds the
nodes on the way down; there are no more than the catalog holds. -/
def collect (c : Catalog) : Nat → NodeId → String → Collected → Outcome Collected
  | 0, _, _, out => .ok out
  | fuel + 1, id, base, out =>
    if out.seen.contains id then .ok out
    else do
      let children ← (c.node id).below c
      children.foldlM (collectChild c (collect c fuel) base) { out with seen := id :: out.seen }

/-- The templates of a scheme. -/
def schemeTemplates (c : Catalog) (scheme : String) (what : Registration) :
    Outcome (List Template) :=
  (collect c (c.size + 2) what.schema (rootUri scheme) ⟨[], []⟩).map Collected.templates

/-- The templates of all schemes. -/
def templates (a : Atlas) : Outcome (List Template) :=
  overSchemes (schemeTemplates a.catalog) a.registry.schemes

end ResourceAtlas.Resource
