import ResourceAtlas.Shell.Command
import ResourceAtlas.Service.Source

/-!
# Inspecting a resource graph

Every inspection prints a text and ends with a status. An address that leads nowhere is reported on
the error stream; what breaks off is not caught here.
-/

namespace ResourceAtlas.Shell

open Service

/-- What a command prints, and the status that it ends with. -/
structure Printed where
  /-- The status. -/
  code : Nat
  /-- What goes to standard output. -/
  output : String
  /-- What goes to the error stream. -/
  errors : String
  deriving DecidableEq, Repr

namespace Printed

/-- A text for standard output. -/
def text (output : String) : Printed := ⟨0, output, ""⟩

/-- A report that something went wrong. -/
def failure (report : String) : Printed := ⟨1, "", "✗ " ++ report ++ "\n"⟩

/-- A value for standard output. -/
def value (v : Value) : Outcome Printed :=
  (Json.indented v).map fun shown => text (shown ++ "\n")

/-- How the program is used, for want of a command. -/
def guidance : Printed := ⟨1, usage, ""⟩

end Printed

/-- A condition as data. -/
def filterValue (f : Address.Clause) : Value :=
  .mapping [("field", .text f.field), ("op", .text f.operator.name), ("value", .text f.operand)]

/-- A count as data. -/
def countValue (count : Option Nat) : Value :=
  match count with
  | some n => .int n
  | none => .null

/-- An order as data. -/
def orderValue (order : Option Address.OrderClause) : Value :=
  match order with
  | some o => .mapping [("field", .text o.field), ("direction", .text o.direction.name)]
  | none => .null

/-- A qualifier as data. -/
def qualifierValue : Address.Qualifier → Value
  | .index n => .mapping [("value", .int n), ("kind", .text "index")]
  | .id n => .mapping [("value", .int n), ("kind", .text "id")]
  | .query r => .mapping [("filters", .list (r.filters.map filterValue)),
      ("sort", orderValue r.order), ("limit", countValue r.limit), ("offset", countValue r.offset),
      ("expand", .list (r.expand.map .text)), ("kind", .text "query")]

/-- A segment as data. -/
def segmentValue (s : Address.Segment) : Value :=
  .mapping [("head", .text s.head), ("qualifier", match s.qualifier with
    | some q => qualifierValue q
    | none => .null)]

/-- An address as data. -/
def locationValue (l : Address.Location) : Value :=
  .mapping [("scheme", .text l.scheme), ("segments", .list (l.segments.map segmentValue))]

/-- A suggestion on a line of its own. -/
def completionLine (c : Completion) : String :=
  c.value ++ "\t" ++ c.description ++ "\n"

/-- The source that the surroundings and a choice give; the choice goes first. -/
def Choice.settings (c : Choice) (vars : Variables) : SourceSettings :=
  let given := sourceSettings vars
  { scheme := c.scheme.getD given.scheme
    schema := c.schema <|> given.schema
    data := (c.data.map plainPath) <|> given.data }

/-- The desk of a choice. -/
def Choice.desk (c : Choice) (around : Surroundings) : Outcome Desk :=
  around.desk (c.settings around.environment)

/-- Limits with another standard size, if one is given. -/
def limitsWith (limit : Option Int) (limits : Resource.Limits) : Resource.Limits :=
  { limits with standard := limit.getD limits.standard }

/-- Inspect. -/
def Inspection.run (around : Surroundings) : Inspection → Outcome Printed
  | lex uri => do
    match ← Address.read uri with
    | .error problem => .ok (.failure problem.message)
    | .ok location => Printed.value (locationValue location)
  | read uri limit source => do
    let d ← source.desk around
    let limits ← limits around.environment
    let report ← Resource.read d.atlas d.store (limitsWith limit limits) uri
    match report.result with
    | .error text => .ok (.failure text)
    | .ok v => Printed.value v
  | resources source => do
    let d ← source.desk around
    let entries ← entriesValue d.atlas
    let templates ← templatesValue d.atlas
    Printed.value (.mapping [("resources", entries), ("resourceTemplates", templates)])
  | complete partialUri source => do
    let d ← source.desk around
    let suggestions ← d.suggest partialUri
    .ok (.text (String.join (suggestions.map completionLine)))

/-- The status that a command line ends with when it is not carried out. -/
def Stop.status : Stop → Nat
  | help => 0
  | misuse => 2

end ResourceAtlas.Shell
