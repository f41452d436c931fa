import ResourceAtlas.Value.Pairs

/-!
# Places inside a value

A place is a key of a mapping or an index into a sequence, and a path is places one inside the
other. `at?` reads the value at a path and `modifyAt` changes that value and nothing beside it.
-/

namespace ResourceAtlas.Store

/-- Where a value lies directly inside another one. -/
inductive Place
  /-- Under a key of a mapping. -/
  | key (name : String)
  /-- At an index of a sequence. -/
  | index (i : Nat)
  deriving DecidableEq, Repr

/-- The value at a place. -/
def Place.read? (v : Value) : Place → Option Value
  | key name =>
    match v with
    | .mapping entries => Keyed.get? name entries
    | .table entries => Keyed.get? name (Value.textEntries entries)
    | _ => none
  | index i =>
    match v with
    | .list items => items[i]?
    | .tuple items => items[i]?
    | _ => none

/-- Change the value under a key that is present. -/
def modifyKey (f : Value → Value) (name : String) : Keyed Value → Keyed Value
  | [] => []
  | (k, v) :: rest => if k = name then (k, f v) :: rest else (k, v) :: modifyKey f name rest

/-- Change the value under a text among keys of any kind. -/
def modifyTextKey (f : Value → Value) (name : String) (entries : List (Value × Value)) :
    List (Value × Value) :=
  entries.map fun e =>
    match e.1 with
    | .text k => if k = name then (e.1, f e.2) else e
    | _ => e

/-- Change the value at a place, if there is one. -/
def Place.modify (f : Value → Value) (v : Value) : Place → Value
  | key name =>
    match v with
    | .mapping entries => .mapping (modifyKey f name entries)
    | .table entries => .table (modifyTextKey f name entries)
    | v => v
  | index i =>
    match v with
    | .list items => .list (items.modify i f)
    | .tuple items => .tuple (items.modify i f)
    | v => v

/-- The value at a path. -/
def at? (v : Value) : List Place → Option Value
  | [] => some v
  | p :: rest => (p.read? v).bind fun w => at? w rest

/-- Change the value at a path, if there is one. -/
def modifyAt (f : Value → Value) : List Place → Value → Value
  | [], v => f v
  | p :: rest, v => p.modify (modifyAt f rest) v

/-- Take the member at an index out of a list. -/
def eraseMember (i : Nat) : Value → Value
  | .list items => .list (items.eraseIdx i)
  | v => v

/-- Add a member to the end of a list. -/
def appendMember (new : Value) : Value → Value
  | .list items => .list (items ++ [new])
  | v => v

end ResourceAtlas.Store
