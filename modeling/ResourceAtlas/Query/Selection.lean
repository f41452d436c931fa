import ResourceAtlas.Query.State
import ResourceAtlas.Sorting.Runs
import ResourceAtlas.Value.Pairs

/-!
# Selecting members

`State.select` keeps the members on which every predicate holds, orders them, and cuts the window
out. Values are ordered naturally where their kinds allow it and by their texts otherwise, with
nothing before everything; members that neither precede each other keep their places.
-/

namespace ResourceAtlas.Query

/-- The order of two field values. -/
def compareValues (a b : Value) : Outcome Ordering :=
  if a.isNull || b.isNull then
    .ok (compare (!a.isNull).toNat (!b.isNull).toNat)
  else
    match Value.less? a b, Value.less? b a with
    | some below, some above =>
      .ok (if above then if below then .eq else .gt else if below then .lt else .eq)
    | _, _ => do
      let s ← writable a.string?
      let t ← writable b.string?
      .ok (compare s t)

/-- The members in order, or in the opposite order with equal members kept in place. -/
def sortToward {α : Type} (precedes : α → α → Outcome Bool) (direction : Direction)
    (items : List α) : Outcome (List α) :=
  match direction with
  | .ascending => Sorting.sortMembers precedes items
  | .descending => (Sorting.sortMembers precedes items.reverse).map List.reverse

/-- The members inside a window. -/
def Window.cut {α : Type} (w : Window) (items : List α) : Outcome (List α) := do
  let offset := ((w.offset.filter Bound.isNonzero).map Bound.value).getD (.int 0)
  match w.limit with
  | none => Value.stretch items offset none
  | some limit => do
    let last ← Value.amountSum offset limit.value
    Value.stretch items offset (some last)

/-- Whether every predicate holds on a member, tried in order until one does not. -/
def holdsAll {α : Type} (valueOf : α → Value → Outcome Value) (item : α) :
    Keyed Predicate → Outcome Bool
  | [] => .ok true
  | (name, p) :: rest => do
    let field ← valueOf item (.text name)
    let holds ← p.test field
    if holds then holdsAll valueOf item rest else .ok false

/-- The members on which every predicate holds. -/
def keepMatching {α : Type} (valueOf : α → Value → Outcome Value) (filter : Keyed Predicate) :
    List α → Outcome (List α)
  | [] => .ok []
  | item :: rest => do
    let holds ← holdsAll valueOf item filter
    let kept ← keepMatching valueOf filter rest
    .ok (if holds then item :: kept else kept)

/-- Filter, order and cut members whose fields a function reads. -/
def State.select {α : Type} (valueOf : α → Value → Outcome Value) (s : State) (items : List α) :
    Outcome (List α) := do
  let kept ← keepMatching valueOf s.filter items
  let sorted ← match s.sort with
    | none => .ok kept
    | some order =>
      let precedes := fun a b => do
        let v ← valueOf a order.field
        let w ← valueOf b order.field
        let o ← compareValues v w
        .ok (o == .lt)
      sortToward precedes order.direction kept
  match s.window with
  | none => .ok sorted
  | some w => w.cut sorted

/-- Filter, order and cut items. -/
def State.apply (s : State) (items : List Value) : Outcome (List Value) :=
  s.select (fun item name => Value.fieldOf name item) items

/-- Put resolved fields into a reference. A field that does not resolve is left out. -/
def expandItem (fields : List String) (resolve : String → Outcome Value) (item : Keyed Value) :
    Keyed Value :=
  fields.foldl (fun acc name =>
    match resolve name with
    | .ok v => acc.put name v
    | .error _ => acc) item

/-- Put resolved fields into every reference of a list. -/
def expandItems (results : List (Keyed Value)) (fields : List String)
    (resolve : Nat → String → Outcome Value) : List (Keyed Value) :=
  results.mapIdx fun i item => expandItem fields (resolve i) item

end ResourceAtlas.Query
