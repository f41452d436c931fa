import ResourceAtlas.Registry
import ResourceAtlas.Resource.Read

/-!
# Completing addresses

An address that is typed in part is resolved up to its last whole segment, and what may follow is
suggested: schemes, children, members of a collection, or the parts of a query. Where nothing can be
resolved, nothing is suggested.
-/

namespace ResourceAtlas

open Query Schema Text

/-- A suggestion. -/
structure Completion where
  /-- The whole address that takes the place of the partial one. -/
  value : String
  /-- The piece that is completed. -/
  label : String
  /-- The kind of piece. -/
  description : String
  deriving DecidableEq, Repr

namespace Completion

/-- A text starts with another one. -/
def starts (word text : String) : Bool :=
  word.toList.isPrefixOf text.toList

/-- A text starts with another one, both in lower case. -/
def startsAnyCase (word text : String) : Bool :=
  (Case.lower word.toList).isPrefixOf (Case.lower text.toList)

/-- A text cut at its first separator; without one, it comes first and nothing after it. -/
def cutFirst (sep : Char) (text : List Char) : String × Bool × String :=
  match Split.atFirst sep text with
  | some (before, after) => (String.ofList before, true, String.ofList after)
  | none => (String.ofList text, false, "")

/-- A text cut at its last separator; without one, it comes last and nothing before it. -/
def cutLast (sep : Char) (text : List Char) : String × Bool × String :=
  match Split.atLast sep text with
  | some (before, after) => (String.ofList before, true, String.ofList after)
  | none => ("", false, String.ofList text)

/-- A separator, if it is there. -/
def mark (sep : String) (present : Bool) : String :=
  if present then sep else ""

/-- The beginning of an index in brackets: each bracket may be missing. -/
def isIndexFragment (fragment : List Char) : Bool :=
  let body := if fragment.head? = some '[' then fragment.drop 1 else fragment
  let rest := body.dropWhile Digit.isDigit
  rest.isEmpty || rest == [']']

/-- The schemes that start with a text. -/
def ofSchemes (names : List String) (partialText : String) : List Completion :=
  (names.filter (starts partialText)).map fun name => ⟨name ++ "://", name, "Scheme"⟩

/-- The suggestion of a child. -/
def ofChild (c : Catalog) (lead key : String) (child : Node) : Outcome Completion := do
  if child.kind.isCollection then .ok ⟨lead ++ key ++ "/", key, "Collection"⟩
  else if child.isNamespace then .ok ⟨lead ++ key ++ "/", key, "Navigable"⟩
  else
    let keys ← child.keys c
    .ok (if keys.isEmpty then ⟨lead ++ key, key, "Property"⟩
      else ⟨lead ++ key ++ "/", key, "Navigable"⟩)

/-- The suggestions of children whose keys start with a fragment. -/
def ofChildren (c : Catalog) (lead fragment : String) (n : Node) : Outcome (List Completion) := do
  let children ← n.below c
  (children.filter fun child => startsAnyCase fragment child.1).mapM fun child =>
    ofChild c lead child.1 (c.node child.2)

/-- The suggestion of a member by name. -/
def ofName (collection fragment : String) (item : Value) : Outcome (List Completion) := do
  let name := item.field "name"
  if name.isNull then .ok []
  else do
    let text ← writable name.string?
    .ok (if startsAnyCase fragment text then
        [⟨collection ++ "/" ++ Percent.encodeString text, text, "By name"⟩]
      else [])

/-- The suggestion of a member by identifier. -/
def ofId (collection fragment : String) (item : Value) : Outcome (List Completion) := do
  let identifier := item.field "id"
  if identifier.isNull then .ok []
  else do
    let text ← writable identifier.string?
    .ok (if starts fragment text then [⟨collection ++ "/" ++ text, text, "By id"⟩] else [])

/-- The suggestion of a member in the form that its collection prefers. -/
def ofMember (keys : List MemberKey) (collection fragment : String) (item : Value) :
    Outcome (List Completion) :=
  if keys.contains "name" then ofName collection fragment item
  else if keys.contains "id" then ofId collection fragment item
  else .ok []

/-- The suggestions of members in order. -/
def ofMembers (keys : List MemberKey) (collection fragment : String) :
    List Value → Outcome (List Completion)
  | [] => .ok []
  | item :: rest => do
    let here ← ofMember keys collection fragment item
    let more ← ofMembers keys collection fragment rest
    .ok (here ++ more)

/-- What may follow the address of a collection. -/
def inCollection (s : Store) (spec : Specifier) (collection fragment : String) (most : Int) :
    Outcome (List Completion) := do
  let keys := spec.node.memberKeys
  let data ← spec.cursor.raw s
  let members := Value.slice (Resource.listMembers data) 0 most
  let found ← ofMembers keys collection fragment members
  let index := if keys.contains "index" && isIndexFragment fragment.toList then
    [(⟨collection ++ "[0]", "[index]", "By index"⟩ : Completion)] else []
  let query := if fragment.isEmpty then
    [(⟨collection ++ "?", "?", "Filter, sort or paginate"⟩ : Completion)] else []
  .ok (found ++ index ++ query)

/-- What may follow the path of an address. -/
def inPath (a : Atlas) (s : Store) (scheme : String) (path : List Char) (most : Int) :
    Outcome (List Completion) := do
  let (before, slash, fragment) := cutLast '/' path
  let parent := scheme ++ "://" ++ before
  match ← a.resolve parent with
  | .error _ => .ok []
  | .ok spec =>
    if spec.node.kind.isCollection then inCollection s spec parent fragment most
    else ofChildren a.catalog (parent ++ mark "/" slash) fragment spec.node

/-- The words of a query, with texts about them. -/
def queryWords : List (String × String) :=
  [("sort", "Sort by a field"), ("limit", "Maximum items per page"), ("offset", "Items to skip"),
    ("expand", "Resolve lazy fields inline")]

/-- The operators that are suggested. -/
def operatorNames : List String :=
  [Operator.contains, .startsWith, .gt, .lt].map Operator.name

/-- The directions of an order, with texts about them. -/
def directionWords : List (String × String) :=
  [(Direction.ascending.name, "Ascending"), (Direction.descending.name, "Descending")]

/-- What may follow the key of a query part that has no value yet. -/
def inQueryKey (stem last : String) (fields : List String) : List Completion :=
  match cutFirst '.' last.toList with
  | (field, true, operator) =>
    (operatorNames.filter (starts operator)).map fun name =>
      ⟨stem ++ field ++ "." ++ name ++ "=", name, name ++ " filter"⟩
  | (_, false, _) =>
    ((queryWords.filter fun w => starts last w.1).map fun w => ⟨stem ++ w.1 ++ "=", w.1, w.2⟩) ++
      (fields.filter (starts last)).map fun name =>
        ⟨stem ++ name ++ "=", name, "Filter by " ++ name⟩

/-- What may follow in the value of a query part. -/
def inQueryValue (stem key value : String) (fields lazyFields : List String) : List Completion :=
  if key = "sort" then
    match cutFirst '.' value.toList with
    | (field, false, _) =>
      (fields.filter (starts field)).map fun name =>
        ⟨stem ++ "sort=" ++ name ++ ".", name, "Sort by " ++ name⟩
    | (field, true, direction) =>
      (directionWords.filter fun w => starts direction w.1).map fun w =>
        ⟨stem ++ "sort=" ++ field ++ "." ++ w.1, w.1, w.2⟩
  else if key = "expand" then
    (lazyFields.filter (starts value)).map fun name =>
      ⟨stem ++ "expand=" ++ name, name, "Lazy field"⟩
  else []

/-- What may follow in the query of an address. -/
def inQuery (a : Atlas) (scheme base : String) (query : List Char) : Outcome (List Completion) := do
  let address := scheme ++ "://" ++ base
  match ← a.resolve address with
  | .error _ => .ok []
  | .ok spec =>
    if !spec.node.kind.isCollection then .ok []
    else
      let item ← spec.node.itemNode? a.catalog
      let children ← match item with
        | some item => item.below a.catalog
        | none => .ok []
      let fields := (children.filter fun c => !(a.catalog.node c.2).kind.isCollection).map (·.1)
      let lazyFields := (children.filter fun c => (a.catalog.node c.2).isLazy).map (·.1)
      let (head, ampersand, last) := cutLast '&' query
      let stem := address ++ "?" ++ head ++ mark "&" ampersand
      .ok (match cutFirst '=' last.toList with
        | (_, false, _) => inQueryKey stem last fields
        | (key, true, value) => inQueryValue stem key value fields lazyFields)

/-- How many members are looked at unless another number is given. -/
def usualMembers : Int := 10

/-- Suggest how an address may go on. -/
def suggest (a : Atlas) (s : Store) (partialUri : String) (most : Int) :
    Outcome (List Completion) :=
  match Split.atWord "://".toList partialUri.toList with
  | none => .ok (ofSchemes a.registry.names partialUri)
  | some (scheme, path) =>
    match Split.atFirst '?' path with
    | some (base, query) => inQuery a (String.ofList scheme) (String.ofList base) query
    | none => inPath a s (String.ofList scheme) path most

end Completion

end ResourceAtlas
