import ResourceAtlas.Fault
import ResourceAtlas.Value.Order

/-!
# Entries under keys of any kind

A mapping can hold any key that does not change: texts, numbers, dates, and tuples of such keys.
Keys that are equal are one key, so that 1, 1.0 and the truth value count as the same. `ofPairs`
makes a mapping of pairs and keeps to texts as keys where all keys are texts.
-/

namespace ResourceAtlas.Value

mutual

/-- The first part of a value that can change, for which the value is no key. -/
def changeable? : Value → Option Value
  | list items => some (list items)
  | mapping entries => some (mapping entries)
  | table entries => some (table entries)
  | record entries => some (record entries)
  | tuple items => anyChangeable? items
  | _ => none

/-- The first part of values that can change. -/
def anyChangeable? : List Value → Option Value
  | [] => none
  | v :: rest =>
    match changeable? v with
    | some part => some part
    | none => anyChangeable? rest

end

/-- A value as a key. -/
def asKey (v : Value) : Outcome Value :=
  match v.changeable? with
  | some part => .error (.misuse ("unhashable type: '" ++ part.fullKindName ++ "'"))
  | none => .ok v

/-- The value under a key. -/
def getPair? (key : Value) (entries : List (Value × Value)) : Option Value :=
  (entries.find? fun e => equal e.1 key).map (·.2)

/-- Put a value under a key: in its place if the key is present, else at the end. -/
def putPair (key new : Value) : List (Value × Value) → List (Value × Value)
  | [] => [(key, new)]
  | (k, v) :: rest =>
    if equal k key then (k, new) :: rest else (k, v) :: putPair key new rest

/-- The entries of a mapping with their keys as values. -/
def pairs? : Value → Option (List (Value × Value))
  | mapping entries => some (entries.map fun e => (text e.1, e.2))
  | table entries => some entries
  | _ => none

/-- The mapping of entries. -/
def ofPairs (entries : List (Value × Value)) : Value :=
  if entries.all fun e => e.1.text?.isSome then mapping (textEntries entries) else table entries

/-- Put a value under a key of a mapping. Anything else stays as it is. -/
def withEntry (v : Value) (key : String) (new : Value) : Value :=
  match v with
  | mapping entries => mapping (Keyed.put key new entries)
  | table entries => table (putPair (text key) new entries)
  | v => v

/-- What a value gives one by one: the members of a sequence, the characters of a text, the numbers
of octets, the keys of a mapping. -/
def iterated? : Value → Option (List Value)
  | list items => some items
  | tuple items => some items
  | text s => some (s.toList.map fun c => text (String.singleton c))
  | bytes octets => some (octets.map fun o => int o.toNat)
  | mapping entries => some (entries.map fun e => text e.1)
  | table entries => some (entries.map (·.1))
  | _ => none

/-- What a value gives one by one, or the fault of giving nothing. -/
def iterated (v : Value) : Outcome (List Value) :=
  match v.iterated? with
  | some items => .ok items
  | none => .error (.misuse ("'" ++ v.fullKindName ++ "' object is not iterable"))

/-- The field of an item under a name of any kind. A name that is no text can only be a key. -/
def fieldOf (name item : Value) : Outcome Value :=
  match name, item.pairs? with
  | text s, _ => .ok (item.field s)
  | v, some entries => do
    let key ← v.asKey
    .ok ((getPair? key entries).getD null).computed
  | v, none =>
    .error (.misuse ("attribute name must be string, not '" ++ v.fullKindName ++ "'"))

end ResourceAtlas.Value
