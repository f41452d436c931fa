import ResourceAtlas.Store.Cursor

/-!
# Changing documents at a cursor

Four changes: assign a property, insert a member, remove a member, move a member. The last three
answer with an address or with a problem, and a problem leaves the store as it was. The query of a
cursor has no part in a change.
-/

namespace ResourceAtlas

open Address Query Store Text

/-- A way to address a member of a collection. -/
abbrev MemberKey := String

/-- All ways to address a member, the preferred one first. -/
def memberKeys : List MemberKey := ["id", "name", "index"]

/-- The least identifier that is given to a member without one. -/
def firstGeneratedId : Int := 1000

/-- The integer identifier of a member, if it has one. -/
def integerId? (item : Value) : Option Int :=
  match item.member "id" with
  | .int n => some n
  | _ => none

/-- An identifier above all integer identifiers of the members. -/
def nextId (items : List Value) : Int :=
  items.foldl (fun highest item =>
    match integerId? item with
    | some n => max highest n
    | none => highest) (firstGeneratedId - 1) + 1

/-- The address text up to the query. -/
def withoutQuery (uri : String) : String :=
  match Split.atFirst '?' uri.toList with
  | some (before, _) => String.ofList before
  | none => uri

/-- The piece of an address that a member's value under a key gives. A name that reads as an integer
gives none. -/
def memberPiece (item : Value) (key : MemberKey) : Outcome (Option String) :=
  let v := item.member key
  if v.isNull then .ok none
  else do
    let s ← writable v.string?
    .ok (if key = "name" && Digit.isInteger s.toList then none else some (Percent.encodeString s))

/-- The address of a member at an index, by the first key that gives one. -/
def memberUri (collection : String) (item : Value) (index : Nat) :
    List MemberKey → Outcome (Option String)
  | [] => .ok none
  | key :: rest =>
    let base := withoutQuery collection
    if key = "index" then .ok (some (base ++ "%5B" ++ toString index ++ "%5D"))
    else do
      match ← memberPiece item key with
      | some piece => .ok (some (base ++ "/" ++ piece))
      | none => memberUri collection item index rest

/-- The key and the value of a pair that is to become an entry. -/
def entryOf (index : Nat) (v : Value) : Outcome (Value × Value) :=
  match v.iterated? with
  | some [key, value] => do
    let key ← key.asKey
    .ok (key, value)
  | some items =>
    .error (.computation ("dictionary update sequence element #" ++ toString index ++
      " has length " ++ toString items.length ++ "; 2 is required"))
  | none =>
    .error (.misuse ("cannot convert dictionary update sequence element #" ++ toString index ++
      " to a sequence"))

/-- Entries with those of pairs, counted from an index, put after them in turn. -/
def putEntries (index : Nat) (entries : List (Value × Value)) :
    List Value → Outcome (List (Value × Value))
  | [] => .ok entries
  | v :: rest => do
    let (key, new) ← entryOf index v
    putEntries (index + 1) (Value.putPair key new entries) rest

/-- The entries that given properties stand for. -/
def entriesOf (properties : Value) : Outcome (List (Value × Value)) :=
  match properties.pairs? with
  | some entries => .ok entries
  | none => do
    let items ← properties.iterated
    putEntries 0 [] items

namespace Cursor

/-- Where the value around a location lies. -/
def around? (s : Store) : Cursor → Outcome (Option Position)
  | child parent _ _ _ => parent.position? s
  | _ => .ok none

/-- The value around a location. -/
def around (s : Store) : Cursor → Outcome Value
  | child parent _ _ _ => parent.raw s
  | bound parent _ _ _ => parent.raw s
  | _ => .ok .null

/-- The key that a location is assigned under, if it is a property. -/
def propertyKey? : Cursor → Option String
  | child _ (.property key) _ _ => some key
  | _ => none

/-- Assign a property. What holds it has to be a mapping. The address is looked at afterwards once
more, so the assignment stands even when the address cannot be written. -/
def assign (c : Cursor) (new : Value) : Action Unit := fun s =>
  match (c.within "assign").bind fun c => c.around s with
  | .error f => (.error f, s)
  | .ok holder =>
    let refused : Outcome Unit := do
      let uri ← c.uri
      .error (.notAssignable uri)
    match c.propertyKey?, holder.mapping? with
    | some key, some _ =>
      match c.around? s with
      | .ok (some p) => (c.uri.map fun _ => (), p.modify s fun v => v.withEntry key new)
      | _ => (refused, s)
    | _, _ => (refused, s)

/-- A member of a list, found and ready to be taken out. -/
structure Member where
  /-- The member. -/
  item : Value
  /-- Where the list lies. -/
  list : Position
  /-- The index in the list. -/
  index : Nat
  deriving Repr

/-- Whether a location is a member of a collection. -/
def isMember : Cursor → Bool
  | child _ selector _ _ => selector.isMember
  | _ => false

/-- Find the member at a location. -/
def member (c : Cursor) (s : Store) : Outcome (Verdict Member) := do
  let missing : Outcome (Verdict Member) := c.uri.map fun uri => .error (.itemNotFound uri)
  if c.isMember then
    let item ← c.raw s
    let holder ← c.around s
    match item.isNull, holder, ← c.around? s, ← c.position? s with
    | false, .list _, some list, some here =>
      match here.path.getLast? with
      | some (.index i) => .ok (.ok ⟨item, list, i⟩)
      | _ => missing
    | _, _, _, _ => missing
  else c.uri.map fun uri => .error (.notMember uri)

/-- Take a member out of its list. -/
def Member.erase (m : Member) (s : Store) : Store :=
  m.list.modify s (eraseMember m.index)

/-- A change that is known before it is made: the address to answer and the store to leave. -/
abbrev Plan := Outcome (Verdict (String × Store))

/-- Make a planned change. -/
def Plan.run (plan : Plan) : Action (Verdict String) := fun s =>
  match plan with
  | .error f => (.error f, s)
  | .ok (.error problem) => (.ok (.error problem), s)
  | .ok (.ok (uri, t)) => (.ok (.ok uri), t)

/-- Plan to remove the member at a location. The answer is its address. -/
def planRemove (c : Cursor) (s : Store) : Plan := do
  let c ← c.within "remove"
  let uri ← c.uri
  match ← c.member s with
  | .error problem => .ok (.error problem)
  | .ok m => .ok (.ok (uri, m.erase s))

/-- Remove the member at a location. -/
def remove (c : Cursor) : Action (Verdict String) := fun s =>
  Plan.run (c.planRemove s) s

/-- Two positions are one place of one document. -/
def samePosition (p q : Position) : Bool :=
  match p.source, q.source with
  | .document d, .document e => d == e && p.path == q.path
  | _, _ => false

/-- Plan to move a member to the end of the list at a destination. The member is put there before
it is taken out, so a list inside the member itself goes with it. -/
def planRelocate (c destination : Cursor) (keys : List MemberKey) (s : Store) : Plan := do
  let c ← c.within "relocate"
  let target ← destination.raw s
  match target, ← destination.position? s with
  | .list items, some there => do
    let collection ← destination.uri
    let item ← c.raw s
    match ← memberUri collection item items.length keys with
    | none => .ok (.error (.noAddressInto collection))
    | some _ =>
      match ← c.member s with
      | .error problem => .ok (.error problem)
      | .ok m => do
        let last := if samePosition m.list there then items.length - 1 else items.length
        let uri ← memberUri collection m.item last keys
        .ok (.ok (uri.getD "", m.erase (there.modify s (appendMember m.item))))
  | _, _ => .ok (.error .destinationNotCollection)

/-- Move a member to the end of the list at a destination. -/
def relocate (c destination : Cursor) (keys : List MemberKey) : Action (Verdict String) := fun s =>
  Plan.run (c.planRelocate destination keys s) s

/-- Plan to add a member with given properties, and an identifier if they lack one. -/
def planInsert (c : Cursor) (properties : Value) (keys : List MemberKey) (s : Store) : Plan := do
  let c ← c.within "insert"
  let target ← c.raw s
  let collection ← c.uri
  match target, ← c.position? s with
  | .list items, some here => do
    let entries ← entriesOf properties
    let given := Value.ofPairs entries
    let item := if Keyed.has "id" (Value.textEntries entries) then given
      else given.withEntry "id" (.int (nextId items))
    match ← memberUri collection item items.length keys with
    | none => .ok (.error (.noAddressForNew collection))
    | some uri => .ok (.ok (uri, here.modify s (appendMember item)))
  | _, _ => .ok (.error (.notCreatable collection))

/-- Add a member with given properties. -/
def insert (c : Cursor) (properties : Value) (keys : List MemberKey) : Action (Verdict String) :=
  fun s => Plan.run (c.planInsert properties keys s) s

end Cursor

end ResourceAtlas
