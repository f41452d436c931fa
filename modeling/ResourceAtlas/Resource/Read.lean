import ResourceAtlas.Json.Writer
import ResourceAtlas.Registry

/-!
# Reading resources

A read resolves an address and shapes the value for transport. Collections are cut to windows: one
that holds more members than the limit, or that is asked for with an offset, is answered as a page
that says how many members there are and where the next page is. Fields are filled in on that
page only. Neither a bad address nor data that break off are faults of a read.
-/

namespace ResourceAtlas.Resource

open Query

/-- The limits of pages. -/
structure Limits where
  /-- The size of a page when the request names none. -/
  standard : Int
  /-- The greatest size of a page that a request can name. -/
  greatest : Int
  deriving DecidableEq, Repr

/-- The limits that hold unless others are given. -/
def Limits.usual : Limits := ⟨20, 100⟩

/-- The kind of text that a resource is transported as. -/
def mediaType : String := "application/json"

/-- The outcome of a read. -/
structure Report where
  /-- The address that was read. -/
  uri : String
  /-- The data, or the wording of what went wrong. -/
  result : Except String Value
  deriving Repr

/-- Whether a report brings data. -/
def Report.succeeded (r : Report) : Bool :=
  match r.result with
  | .ok _ => true
  | .error _ => false

/-- The wording of what went wrong, if something did. -/
def Report.error? (r : Report) : Option String :=
  match r.result with
  | .ok _ => none
  | .error text => some text

/-- The text of a report: its data in JSON, or the wording of what went wrong. -/
def Report.text (r : Report) : Outcome String :=
  match r.result with
  | .ok v => Json.compact v
  | .error text => .ok text

/-- The key under which a page tells of itself. -/
def pageKey : String := "_pagination"

/-- Whether data are a page. -/
def isPage (v : Value) : Bool :=
  match v.mapping? with
  | some entries => Keyed.has pageKey entries
  | none => false

/-- Whether a report brings a page. -/
def Report.isPage (r : Report) : Bool :=
  match r.result with
  | .ok v => Resource.isPage v
  | .error _ => false

/-- The start and the length of a stretch, as amounts. -/
structure Stretch where
  /-- How many members come before. -/
  offset : Value
  /-- How many members belong to it. -/
  limit : Value
  deriving Repr

/-- Where a stretch ends. -/
def Stretch.last (s : Stretch) : Outcome Value :=
  s.offset.amountSum s.limit

/-- The members of a stretch. -/
def Stretch.cut {α : Type} (s : Stretch) (items : List α) : Outcome (List α) := do
  let last ← s.last
  Value.stretch items s.offset (some last)

/-- The amount of a bound other than zero. -/
def given? (b : Option Bound) : Option Value :=
  (b.filter Bound.isNonzero).map Bound.value

/-- The stretch that a query asks for under limits. A limit of zero asks for none. -/
def stretchOf (limits : Limits) (w : Option Window) : Stretch :=
  let offset := (w.bind fun w => given? w.offset).getD (.int 0)
  match w.bind fun w => given? w.limit with
  | none => ⟨offset, .int limits.standard⟩
  | some limit => ⟨offset, limit.amountMin (.int limits.greatest)⟩

/-- The window of a stretch. -/
def Stretch.window (s : Stretch) : Outcome Window :=
  Window.make s.limit s.offset

/-- A cursor asked for a stretch. -/
def Stretch.ask (s : Stretch) (c : Cursor) : Outcome Cursor :=
  s.window.map fun w => c.withQuery (c.query.withWindow (some w))

/-- The members of a list; other data have none. -/
def listMembers (v : Value) : List Value :=
  v.list?.getD []

/-- A page as data. -/
def pageValue (total : Nat) (s : Stretch) (next : Option String) (items : List Value) : Value :=
  .mapping [
    (pageKey, .mapping [("total", .int total), ("returned", .int items.length),
      ("offset", s.offset), ("limit", s.limit),
      ("next", match next with
        | some uri => .text uri
        | none => .null)]),
    ("items", .list items)]

/-- The members on the page of a stretch: cut from the references, or resolved with the fields that
the query fills in. -/
def pageItems (a : Atlas) (s : Store) (spec : Specifier) (unpaged : Cursor) (stretch : Stretch)
    (references : List Value) : Outcome (List Value) :=
  if unpaged.query.expand.isEmpty then stretch.cut references
  else do
    let there ← stretch.ask unpaged
    let page ← (spec.derive there spec.node).resolve a.catalog s
    .ok (listMembers page)

/-- The address of the page after a stretch, if there are members left. -/
def nextPage (unpaged : Cursor) (stretch : Stretch) (total : Nat) : Outcome (Option String) := do
  let last ← stretch.last
  if last.amountLt (.int total) then
    let there ← Stretch.ask ⟨last, stretch.limit⟩ unpaged
    there.uri.map some
  else .ok none

/-- Whether a stretch holds all of a number of members. -/
def Stretch.holdsAll (s : Stretch) (total : Nat) : Bool :=
  Value.amountLe (.int total) s.limit && s.offset.equal (.int 0)

/-- The value of a collection, cut to a page where that is needed. -/
def windowed (a : Atlas) (s : Store) (limits : Limits) (spec : Specifier) : Outcome Value := do
  let cursor ← spec.cursor.within "query_state"
  let stretch := stretchOf limits cursor.query.window
  let unpaged := cursor.withQuery (cursor.query.withWindow none)
  let all ← (spec.derive unpaged spec.node.referencesOnly).resolve a.catalog s
  let references := listMembers all
  let total := references.length
  let items ← pageItems a s spec unpaged stretch references
  if stretch.holdsAll total then .ok (.list items)
  else do
    let next ← nextPage unpaged stretch total
    .ok (pageValue total stretch next items)

/-- The value of a location, cut to a page if it is a collection. -/
def valueOf (a : Atlas) (s : Store) (limits : Limits) (spec : Specifier) : Outcome Value :=
  if spec.node.kind.isCollection then windowed a s limits spec
  else spec.resolve a.catalog s

/-- Add the canonical address to a mapping that was read by another one. -/
def withCanonical (uri canonical : String) (v : Value) : Value :=
  if isPage v || canonical = uri then v else v.withEntry "_uri" (.text canonical)

/-- Read the resource of an address. -/
def read (a : Atlas) (s : Store) (limits : Limits) (uri : String) : Outcome Report := do
  match ← a.resolve uri with
  | .error problem => .ok ⟨uri, .error ("URI resolution failed: " ++ problem.message)⟩
  | .ok spec =>
    match valueOf a s limits spec with
    | .error f => .ok ⟨uri, .error ("Resolution error: " ++ f.message)⟩
    | .ok v => do
      let canonical ← spec.uri
      .ok ⟨uri, .ok (withCanonical uri canonical v)⟩

end ResourceAtlas.Resource
