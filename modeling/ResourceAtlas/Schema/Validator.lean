import ResourceAtlas.Calendar.Reading
import ResourceAtlas.Fault
import ResourceAtlas.Value.Basic

/-!
# Validators

A validator passes data of one kind on, perhaps in another form, and refuses all other data.
-/

namespace ResourceAtlas.Schema

open Calendar

/-- The data that a leaf of the schema admits. -/
inductive Validator
  /-- A text. -/
  | text
  /-- A number. -/
  | number
  /-- A truth value. -/
  | boolean
  /-- A date or a moment, or the text of one; passed on as text. -/
  | date
  /-- A sequence of texts; passed on as a list. -/
  | textList
  /-- Nothing, or what another validator admits. -/
  | optional (inner : Validator)
  deriving DecidableEq, Repr, Inhabited

/-- The fault of data of another kind than expected. -/
def refusal (wanted : Expectation) (v : Value) : Outcome Value :=
  .error (.mismatch wanted v.kindName)

/-- The members of a sequence, all of them texts. -/
def textMembers : List Value → Outcome (List Value)
  | [] => .ok []
  | .text s :: rest => (textMembers rest).map (.text s :: ·)
  | v :: _ => .error (.mismatch .text v.kindName)

/-- The text of the date or moment that data stand for. -/
def isoText? : Value → Option String
  | .date d => some d.isoText
  | .moment m => some m.isoText
  | .text s => (Reading.read? s.toList).map Moment.isoText
  | _ => none

/-- Admit data or refuse them. -/
def Validator.check (v : Value) : Validator → Outcome Value
  | text =>
    match v with
    | .text _ => .ok v
    | _ => refusal .text v
  | number =>
    match v with
    | .int _ => .ok v
    | .float _ => .ok v
    | _ => refusal .number v
  | boolean =>
    match v with
    | .bool _ => .ok v
    | _ => refusal .boolean v
  | date =>
    match isoText? v with
    | some s => .ok (.text s)
    | none => refusal .date v
  | textList =>
    match v.sequence? with
    | some items => (textMembers items).map .list
    | none => refusal .textList v
  | optional inner => if v.isNull then .ok .null else inner.check v

end ResourceAtlas.Schema
