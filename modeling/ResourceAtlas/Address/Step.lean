import ResourceAtlas.Query.State
import ResourceAtlas.Text.Percent

/-!
# Address steps and their text

An address is a list of steps from the root of a scheme. `stepsText` writes it in its canonical
form: names and identifiers are percent-coded and parted by slashes, a position stands between coded
brackets right after the step before it. `addressText` adds the query of a state.
-/

namespace ResourceAtlas.Address

open Query Text

/-- One step of an address. -/
inductive Step
  /-- The root of a scheme. -/
  | root (scheme : String)
  /-- A property by its name. -/
  | prop (name : String)
  /-- A member by its position. -/
  | index (position : Value)
  /-- A member by its name. -/
  | name (wanted : Value)
  /-- A member by its identifier. -/
  | id (wanted : Value)
  deriving Repr, Inhabited

/-- What parts a scheme from the steps. -/
def schemeMark : List Char := "://".toList

/-- Whether a text ends where the steps of a scheme begin. -/
def endsAtRoot (text : List Char) : Bool :=
  schemeMark.reverse.isPrefixOf text.reverse

/-- Add a piece to an address text: after a slash, unless it is the first one. -/
def appendPiece (text piece : List Char) : List Char :=
  if endsAtRoot text then text ++ piece else text ++ '/' :: piece

/-- Add a step to an address text. The root starts the text anew. -/
def Step.append (text : List Char) : Step → Outcome (List Char)
  | root scheme => .ok (scheme.toList ++ schemeMark)
  | prop key => .ok (appendPiece text (Percent.encode key.toList))
  | index position => do
    let s ← writable position.string?
    .ok (text ++ "%5B".toList ++ s.toList ++ "%5D".toList)
  | name wanted => do
    let s ← writable wanted.string?
    .ok (appendPiece text (Percent.encode s.toList))
  | id wanted => do
    let s ← writable wanted.string?
    .ok (appendPiece text (Percent.encode s.toList))

/-- The text of steps, written on from a text before them. -/
def stepsTextFrom : List Char → List Step → Outcome (List Char)
  | text, [] => .ok text
  | text, s :: rest => do
    let text ← s.append text
    stepsTextFrom text rest

/-- The text of an address without a query. -/
def stepsText (steps : List Step) : Outcome String :=
  (stepsTextFrom [] steps).map String.ofList

/-- The text of an address with the query of a state, if that asks anything. -/
def addressText (steps : List Step) (state : State) : Outcome String := do
  let base ← stepsText steps
  let query ← state.text
  .ok (if query.isEmpty then base else base ++ "?" ++ query)

end ResourceAtlas.Address
