import ResourceAtlas.Proofs.Outcome
import ResourceAtlas.Specifier.Call

/-!
# Assigning a property

Writing an address breaks off where an integer is too long, where a field to fill in is no text, and
above the root of a document, but never because a location takes no value. So an assignment that is
refused was refused before anything was changed.
-/

namespace ResourceAtlas

open Address Query

/-- The ways in which writing an address breaks off. -/
inductive Fault.OfWriting : Fault → Prop
  /-- There is no address above a root. -/
  | outside (kind name : String) : OfWriting (.noAttribute kind name)
  /-- An integer is too long. -/
  | tooLong : OfWriting .integerTooLong
  /-- A field to fill in is no text. -/
  | misuse (text : String) : OfWriting (.misuse text)

/-- A value has no text if an integer in it is too long. -/
theorem breaksWith_writable (s : Option String) : BreaksWith (writable s) Fault.OfWriting := by
  cases s with
  | none => exact .error .tooLong
  | some s => exact .ok s

namespace Query

/-- Writing an operand breaks off as writing a value does. -/
theorem Operator.breaksWith_operandText (op : Operator) (v : Value) :
    BreaksWith (op.operandText v) Fault.OfWriting := by
  have hnumber : BreaksWith (numberText v) Fault.OfWriting := by
    unfold numberText
    split
    · split
      · exact breaksWith_writable _
      · exact .ok _
    · exact breaksWith_writable _
  cases op with
  | gt => exact hnumber
  | lt => exact hnumber
  | _ => exact (breaksWith_writable _).map _

namespace State

/-- Writing a bound breaks off as writing a value does. -/
theorem breaksWith_boundText (name : String) (b : Option Bound) :
    BreaksWith (boundText name b) Fault.OfWriting := by
  cases b with
  | none => exact .ok _
  | some b => exact (breaksWith_writable _).bind fun _ => .ok _

/-- Naming the fields to fill in breaks off where one is no text. -/
theorem breaksWith_fieldTexts (fields : List Value) (index : Nat) :
    BreaksWith (fieldTexts index fields) Fault.OfWriting := by
  induction fields generalizing index with
  | nil => exact .ok _
  | cons v rest ih =>
    cases v with
    | text name => exact (ih (index + 1)).map _
    | _ => exact .error (.misuse _)

/-- Writing a query breaks off in no other way. -/
theorem breaksWith_text (state : State) : BreaksWith state.text Fault.OfWriting := by
  refine BreaksWith.bind ?_ fun _ => .ok _
  refine BreaksWith.bind (BreaksWith.mapM (fun e => ?_) _) fun filters => ?_
  · refine (e.2.operator.breaksWith_operandText _).bind fun operand => ?_
    split <;> exact .ok _
  have hexpand : BreaksWith (expandText state.expand) Fault.OfWriting := by
    unfold expandText
    split
    · exact .ok _
    · exact (breaksWith_fieldTexts _ _).map _
  refine BreaksWith.bind ?_ fun sort => ?_
  · cases state.sort with
    | none => exact .ok _
    | some o => exact (breaksWith_writable _).bind fun _ => .ok _
  · cases state.window with
    | none => exact hexpand.bind fun _ => .ok _
    | some w =>
      exact (breaksWith_boundText _ _).bind fun _ => (breaksWith_boundText _ _).bind fun _ =>
        hexpand.bind fun _ => .ok _

end State

end Query

/-- Writing the steps of an address breaks off as writing a value does. -/
theorem Address.breaksWith_stepsTextFrom (steps : List Step) (text : List Char) :
    BreaksWith (stepsTextFrom text steps) Fault.OfWriting := by
  induction steps generalizing text with
  | nil => exact .ok _
  | cons step rest ih =>
    refine BreaksWith.bind ?_ ih
    cases step with
    | root scheme => exact .ok _
    | prop name => exact .ok _
    | _ => exact (breaksWith_writable _).bind fun _ => .ok _

namespace Cursor

/-- Writing an address breaks off in no other way. -/
theorem breaksWith_uri (c : Cursor) : BreaksWith c.uri Fault.OfWriting := by
  refine BreaksWith.bind ?_ fun c => ?_
  · unfold within
    split
    · exact .error (.outside _ _)
    · exact .ok _
  · exact ((breaksWith_stepsTextFrom _ _).map _).bind fun _ =>
      c.query.breaksWith_text.bind fun _ => .ok _

/-- An assignment that is refused changes nothing. -/
theorem assign_refused {c : Cursor} {new : Value} {s t : Store} {uri : String}
    (h : c.assign new s = (.error (.notAssignable uri), t)) : t = s := by
  unfold assign at h
  split at h
  · exact (Prod.mk.inj h).2.symm
  · dsimp only at h
    split at h
    · split at h
      · -- The assignment was made, so that only writing the address can have broken off.
        obtain ⟨hwritten, -⟩ := Prod.mk.inj h
        have hof := (c.breaksWith_uri.map fun _ => ()) _ hwritten
        exact (nomatch hof)
      · exact (Prod.mk.inj h).2.symm
    · exact (Prod.mk.inj h).2.symm

end Cursor

/-- Setting a value that fails changes nothing. -/
theorem Specifier.set_problem {spec : Specifier} {new : Value} {s t : Store} {problem : Problem}
    (h : spec.set new s = (.ok (.error problem), t)) : t = s := by
  unfold set at h
  split at h
  · next uri u hassign =>
    obtain ⟨-, rfl⟩ := Prod.mk.inj h
    exact Cursor.assign_refused hassign
  · exact (nomatch h)
  · obtain ⟨huri, -⟩ := Prod.mk.inj h
    obtain ⟨uri, -, hok⟩ := map_eq_ok.mp huri
    exact (nomatch hok)

end ResourceAtlas
