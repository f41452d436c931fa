import ResourceAtlas.Calendar.Moment
import ResourceAtlas.Keyed
import ResourceAtlas.Number.Binary64

/-!
# Values

The data that documents hold, that queries compare and that reads answer. A mapping is read by key,
and so is a table, a mapping with keys other than texts; a record is read by attribute and is no
mapping; a deferred value is computed when it is asked for. Lists can be changed in place, tuples
cannot.
-/

namespace ResourceAtlas

open Calendar Number

/-- A piece of data. -/
inductive Value
  /-- Nothing. -/
  | null
  /-- A truth value. -/
  | bool (b : Bool)
  /-- An integer of any size. -/
  | int (n : Int)
  /-- A binary floating-point number. -/
  | float (x : Binary64)
  /-- A text. -/
  | text (s : String)
  /-- A string of octets. -/
  | bytes (octets : List UInt8)
  /-- A sequence that can grow and shrink. -/
  | list (items : List Value)
  /-- A sequence that is fixed. -/
  | tuple (items : List Value)
  /-- Values under keys that are texts. -/
  | mapping (entries : List (String × Value))
  /-- Values under keys of which at least one is no text. -/
  | table (entries : List (Value × Value))
  /-- A day. -/
  | date (d : Date)
  /-- A moment. -/
  | moment (m : Moment)
  /-- A value computed when it is asked for. -/
  | deferred (v : Value)
  /-- Values under attribute names. -/
  | record (entries : List (String × Value))
  deriving Repr, Inhabited

namespace Value

/-- The name of the kind of a value, as messages give it. -/
def kindName : Value → String
  | null => "NoneType"
  | bool _ => "bool"
  | int _ => "int"
  | float _ => "float"
  | text _ => "str"
  | bytes _ => "bytes"
  | list _ => "list"
  | tuple _ => "tuple"
  | mapping _ => "dict"
  | table _ => "dict"
  | date _ => "date"
  | moment _ => "datetime"
  | deferred _ => "function"
  | record _ => "SimpleNamespace"

/-- The name of the kind of a value with the family that it belongs to, as messages about operations
give it. -/
def fullKindName : Value → String
  | date _ => "datetime.date"
  | moment _ => "datetime.datetime"
  | record _ => "types.SimpleNamespace"
  | v => v.kindName

/-- Whether a value is nothing. -/
def isNull : Value → Bool
  | null => true
  | _ => false

/-- The members of a list or a tuple. -/
def sequence? : Value → Option (List Value)
  | list items => some items
  | tuple items => some items
  | _ => none

/-- The members of a list. -/
def list? : Value → Option (List Value)
  | list items => some items
  | _ => none

/-- The entries whose keys are texts. -/
def textEntries (entries : List (Value × Value)) : Keyed Value :=
  entries.filterMap fun e =>
    match e.1 with
    | text key => some (key, e.2)
    | _ => none

/-- The entries of a mapping whose keys are texts. -/
def mapping? : Value → Option (Keyed Value)
  | mapping entries => some entries
  | table entries => some (textEntries entries)
  | _ => none

/-- The characters of a text. -/
def text? : Value → Option String
  | text s => some s
  | _ => none

/-- The integer that an integer or a truth value counts as. -/
def index? : Value → Option Int
  | int n => some n
  | bool b => some (if b then 1 else 0)
  | _ => none

/-- A value that stands for true where a truth value is wanted. -/
def isTruthy : Value → Bool
  | null => false
  | bool b => b
  | int n => n != 0
  | float x => x.isNonzero
  | text s => !s.isEmpty
  | bytes b => !b.isEmpty
  | list items => !items.isEmpty
  | tuple items => !items.isEmpty
  | mapping entries => !entries.isEmpty
  | table entries => !entries.isEmpty
  | _ => true

/-- The value under a key of a mapping, nothing where there is none. -/
def member (key : String) (v : Value) : Value :=
  match v.mapping? with
  | some entries => (Keyed.get? key entries).getD null
  | none => null

/-- What a deferred value comes to when it is computed, once; any other value is itself. -/
def computed : Value → Value
  | deferred v => v
  | v => v

/-- The field of an item: by key in a mapping, by attribute in a record; a deferred value is
computed. -/
def field (name : String) (item : Value) : Value :=
  match item with
  | record entries => ((Keyed.get? name entries).getD null).computed
  | item => (item.member name).computed

end Value

end ResourceAtlas
