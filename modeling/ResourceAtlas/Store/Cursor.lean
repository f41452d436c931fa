import ResourceAtlas.Address.Step
import ResourceAtlas.Query.Change
import ResourceAtlas.Store.Documents

/-!
# Cursors

A cursor stands at one location of a document. It remembers how it was reached and not what lay
there, so every read sees the document as it is. Its address may differ from the way through the
document: a namespace adds a step to the address only, and an alias replaces the key. A cursor may
also stand outside all documents, above a root: there it has no address, holds nothing and leads
nowhere, and whatever is asked of it breaks off.
-/

namespace ResourceAtlas

open Address Query Store

/-- How a location is selected in the value around it. -/
inductive Selector
  /-- The value under a key. -/
  | property (key : String)
  /-- The value around it itself. -/
  | same
  /-- The member at a position. -/
  | index (position : Value)
  /-- The first member of a name. -/
  | name (wanted : Value)
  /-- The first member of an identifier. -/
  | id (wanted : Value)
  deriving Repr

/-- Where a cursor that does not follow another one reads. -/
inductive Source
  /-- In a document. -/
  | document (d : DocumentId)
  /-- In a value of its own. -/
  | literal (v : Value)
  deriving Repr

/-- A location with its address and the query asked of it. -/
inductive Cursor
  /-- The root of a document. -/
  | root (document : DocumentId) (scheme : String) (query : State)
  /-- A value bound to an address. -/
  | bound (parent : Cursor) (source : Source) (steps : List Step) (query : State)
  /-- A location inside another one. -/
  | child (parent : Cursor) (selector : Selector) (step : Step) (query : State)
  /-- Above the root of a document. -/
  | outside
  deriving Repr

/-- An identifier fits a wanted one: equal, or of the same text. Nothing fits no identifier. -/
def sameIdentifier (candidate wanted : Value) : Outcome Bool :=
  if candidate.isNull then .ok false
  else if candidate.equal wanted then .ok true
  else do
    let s ← writable candidate.string?
    let t ← writable wanted.string?
    .ok (s == t)

/-- The index of the first member whose value under a key fits a wanted one. -/
def findMember (key : String) (wanted : Value) : List Value → Outcome (Option Nat)
  | [] => .ok none
  | item :: rest => do
    let fits ← sameIdentifier (item.member key) wanted
    if fits then .ok (some 0)
    else (findMember key wanted rest).map fun found => found.map (· + 1)

/-- The index that a position gives in a sequence, if it is inside. -/
def findPosition (position : Value) (kind : String) (count : Nat) : Outcome (Option Nat) :=
  match position with
  | .int n => .ok (if 0 ≤ n ∧ n < count then some n.toNat else none)
  | .bool b => .ok (if b.toNat < count then some b.toNat else none)
  | .float x => if !x.ltInt 0 && x.ltInt count then .error (.position kind "float") else .ok none
  | v => .error (.misuse
      ("'<=' not supported between instances of 'int' and '" ++ v.fullKindName ++ "'"))

namespace Selector

/-- The place that a selector selects in a value; a namespace selects none. -/
def place? (around : Value) : Selector → Outcome (Option Place)
  | property key =>
    match around.mapping? with
    | some entries => .ok (if Keyed.has key entries then some (.key key) else none)
    | none => .ok none
  | same => .ok none
  | index position =>
    match around.sequence? with
    | some items => (findPosition position around.fullKindName items.length).map (·.map Place.index)
    | none => .ok none
  | name wanted =>
    match around.sequence? with
    | some items => (findMember "name" wanted items).map (·.map Place.index)
    | none => .ok none
  | id wanted =>
    match around.sequence? with
    | some items => (findMember "id" wanted items).map (·.map Place.index)
    | none => .ok none

/-- A selector that selects a member of a sequence. -/
def isMember : Selector → Bool
  | index _ => true
  | name _ => true
  | id _ => true
  | _ => false

end Selector

/-- The value that a source holds. -/
def Source.value (s : Store) : Source → Value
  | document d => s.document d
  | literal v => v

/-- Where a value lies: a source and the path into it. -/
structure Position where
  /-- The source. -/
  source : Source
  /-- The path. -/
  path : List Place
  deriving Repr

/-- The value at a position. -/
def Position.read (s : Store) (p : Position) : Value :=
  (at? (p.source.value s) p.path).getD .null

/-- Change the value at a position. A value of a cursor's own is not kept. -/
def Position.modify (s : Store) (p : Position) (f : Value → Value) : Store :=
  match p.source with
  | .document d => s.modify d p.path f
  | .literal _ => s

/-- A position inside another one. -/
def Position.inside (p : Position) (place : Place) : Position :=
  ⟨p.source, p.path ++ [place]⟩

namespace Cursor

/-- The cursor at the root of a document. -/
def atRoot (document : DocumentId) (scheme : String) : Cursor :=
  root document scheme .empty

/-- The fault of asking something of a cursor that stands outside. -/
def absent (name : String) : Fault :=
  .noAttribute "RootMarker" name

/-- Whether a cursor stands outside. -/
def isOutside : Cursor → Bool
  | outside => true
  | _ => false

/-- A cursor for something that is asked of it by name, unless it stands outside. -/
def within (name : String) (c : Cursor) : Outcome Cursor :=
  if c.isOutside then .error (absent name) else .ok c

/-- The query asked of a location. -/
def query : Cursor → State
  | root _ _ q => q
  | bound _ _ _ q => q
  | child _ _ _ q => q
  | outside => .empty

/-- The same location with another query. -/
def withQuery (q : State) : Cursor → Cursor
  | root d scheme _ => root d scheme q
  | bound p source steps _ => bound p source steps q
  | child p selector step _ => child p selector step q
  | outside => outside

/-- The steps of the address. -/
def steps : Cursor → List Step
  | root _ scheme _ => [.root scheme]
  | bound _ _ steps _ => steps
  | child parent _ step _ => parent.steps ++ [step]
  | outside => []

/-- The address with its query. -/
def uri (c : Cursor) : Outcome String := do
  let c ← c.within "canonical_uri"
  addressText c.steps c.query

/-- The location around this one. -/
def parent : Cursor → Cursor
  | root _ _ _ => outside
  | bound parent _ _ _ => parent
  | child parent _ _ _ => parent
  | outside => outside

/-- Where the location lies, if there is a value there. -/
def position? (s : Store) : Cursor → Outcome (Option Position)
  | root d _ _ => .ok (some ⟨.document d, []⟩)
  | bound _ source _ _ => .ok (some ⟨source, []⟩)
  | outside => .error (absent "_raw")
  | child parent selector _ _ => do
    let around ← parent.position? s
    match around with
    | none => .ok none
    | some p =>
      match selector with
      | .same => .ok (some p)
      | selector => do
        let place ← selector.place? (p.read s)
        .ok (place.map p.inside)

/-- The value at the location, nothing where there is none. -/
def raw (s : Store) (c : Cursor) : Outcome Value := do
  let position ← c.position? s
  .ok (match position with
    | none => .null
    | some p => p.read s)

/-- The same location, where values of a cursor's own have become documents. What is changed there
from now on stays changed. -/
def settle (c : Cursor) (s : Store) : Cursor × Store :=
  match c with
  | bound parent (.literal v) steps q =>
    let (parent, s) := parent.settle s
    let (d, s) := s.add v
    (bound parent (.document d) steps q, s)
  | bound parent source steps q =>
    let (parent, s) := parent.settle s
    (bound parent source steps q, s)
  | child parent selector step q =>
    let (parent, s) := parent.settle s
    (child parent selector step q, s)
  | c => (c, s)

/-- Go to a property. -/
def property (key : String) (c : Cursor) : Cursor :=
  child c (.property key) (.prop key) .empty

/-- Go to a property that the address calls otherwise. -/
def aliased (backing address : String) (c : Cursor) : Cursor :=
  child c (.property backing) (.prop address) .empty

/-- Stay, with one more name in the address. -/
def namespaced (address : String) (c : Cursor) : Cursor :=
  child c .same (.prop address) .empty

/-- Go to the member at a position. -/
def atIndex (position : Value) (c : Cursor) : Cursor :=
  child c (.index position) (.index position) .empty

/-- Go to the first member of a name. -/
def named (wanted : Value) (c : Cursor) : Cursor :=
  child c (.name wanted) (.name wanted) .empty

/-- Go to the first member of an identifier. -/
def identified (wanted : Value) (c : Cursor) : Cursor :=
  child c (.id wanted) (.id wanted) .empty

end Cursor

/-- The name under which a cursor is asked to take a change to its query. -/
def Query.Change.asked : Change → String
  | .filter _ => "with_filter"
  | .sort _ _ => "with_sort"
  | .unsort => "with_sort"
  | .window _ _ => "with_pagination"
  | .unwindow => "with_pagination"
  | .expand _ => "with_expand"

/-- One move of a cursor. -/
inductive Motion
  /-- To a property. -/
  | property (key : String)
  /-- To a property that the address calls otherwise. -/
  | aliased (backing address : String)
  /-- Nowhere, with one more name in the address. -/
  | namespaced (address : String)
  /-- To the member at a position. -/
  | index (position : Value)
  /-- To the first member of a name. -/
  | name (wanted : Value)
  /-- To the first member of an identifier. -/
  | id (wanted : Value)
  /-- To a value bound to an address. -/
  | bind (source : Source) (steps : List Step)
  /-- Nowhere, with a change to the query. -/
  | change (c : Change)
  /-- To the location around. -/
  | parent
  /-- Nowhere: give up. -/
  | fail (text : String)
  deriving Repr

/-- The name under which a cursor is asked to make a move; giving up needs no cursor. -/
def Motion.asked? : Motion → Option String
  | property _ => some "navigate_property"
  | aliased _ _ => some "navigate_property_aliased"
  | namespaced _ => some "navigate_namespace"
  | index _ => some "navigate_index"
  | name _ => some "navigate_name"
  | id _ => some "navigate_id"
  | bind _ _ => some "from_value"
  | change ch => some ch.asked
  | parent => some "parent"
  | fail _ => none

/-- Where a cursor inside a document stands after a move. -/
def Motion.applyInside (c : Cursor) : Motion → Outcome Cursor
  | property key => .ok (c.property key)
  | aliased backing address => .ok (c.aliased backing address)
  | namespaced address => .ok (c.namespaced address)
  | index position => .ok (c.atIndex position)
  | name wanted => .ok (c.named wanted)
  | id wanted => .ok (c.identified wanted)
  | bind source steps => .ok (.bound c source steps .empty)
  | change ch => (ch.apply c.query).map fun q => c.withQuery q
  | parent => .ok c.parent
  | fail text => .error (.navigation text)

/-- Where a cursor stands after a move. From outside there is none. -/
def Motion.apply (c : Cursor) (m : Motion) : Outcome Cursor :=
  match c.isOutside, m.asked? with
  | true, some wanted => .error (Cursor.absent wanted)
  | _, _ => m.applyInside c

/-- Where a cursor stands after moves in turn. -/
def Motion.applyAll (c : Cursor) : List Motion → Outcome Cursor
  | [] => .ok c
  | m :: rest => do
    let c ← m.apply c
    applyAll c rest

end ResourceAtlas
