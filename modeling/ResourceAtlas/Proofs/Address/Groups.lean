import Mathlib.Data.List.Chain
import ResourceAtlas.Proofs.Address.Step
import ResourceAtlas.Proofs.Outcome

/-!
# Addresses built group by group

A group of steps is a text, written as a property, a name or an identifier, and perhaps an integer
behind it, written as a position or an identifier. Each group becomes one segment of the address: the
text becomes the head and the integer the qualifier, whatever characters the text has and however the
groups before it end.
-/

namespace ResourceAtlas.Address

open Number Text

/-- How the text of a group is written. -/
inductive Group.Form
  /-- As a property. -/
  | property
  /-- As the name of a member. -/
  | name
  /-- As the identifier of a member. -/
  | id
  deriving DecidableEq, Repr

/-- The integer behind the text of a group. -/
inductive Group.Number
  /-- A position. -/
  | index (n : Int)
  /-- An identifier. -/
  | id (n : Int)
  deriving DecidableEq, Repr

/-- Steps that make one segment. -/
structure Group where
  /-- How the text is written. -/
  form : Group.Form
  /-- The text. -/
  text : String
  /-- The integer behind it, if there is one. -/
  number : Option Group.Number
  deriving DecidableEq, Repr

namespace Group

/-- The step that writes a text. -/
def Form.step (text : String) : Form → Step
  | property => .prop text
  | name => .name (.text text)
  | id => .id (.text text)

namespace Number

/-- The integer itself. -/
def value : Number → Int
  | index n => n
  | id n => n

/-- The step that writes the integer. -/
def step : Number → Step
  | index n => .index (.int n)
  | id n => .id (.int n)

/-- The qualifier that the integer becomes. -/
def qualifier : Number → Qualifier
  | index n => .index n
  | id n => .id n

end Number

/-- The steps of a group. -/
def steps (g : Group) : List Step :=
  g.form.step g.text :: (g.number.map Number.step).toList

/-- The segment that a group becomes. -/
def segment (g : Group) : Segment :=
  ⟨g.text, g.number.map Number.qualifier⟩

/-- A group whose text has characters, none of which opens a bracket or a query, and whose integer has
no more digits than can be written. -/
structure Clear (g : Group) : Prop where
  /-- The text has characters. -/
  nonempty : g.text ≠ ""
  /-- No bracket opens in it. -/
  unopened : '[' ∉ g.text.toList
  /-- No query starts in it. -/
  unasked : '?' ∉ g.text.toList
  /-- The integer can be written. -/
  short : ∀ n, g.number = some n → n.value.natAbs < 10 ^ Numeral.maxDigits

/-- A group may follow another one: its text is no integer, or an integer stands between them. -/
def MayFollow (g next : Group) : Prop :=
  g.number = none → Digit.isInteger next.text.toList = false

variable {scheme : String} {segments : List Segment} {g : Group} {groups : List Group}

/-- A text is written as the head of a segment, whatever it is the text of. -/
theorem Form.spells (form : Form) (text : String) : (form.step text).Spells text := by
  cases form with
  | property => exact spells_prop text
  | name => exact spells_name text
  | id => exact spells_id text

/-- The segment of a clear group can be written. -/
theorem Clear.writable (h : g.Clear) : g.segment.Writable := by
  refine ⟨h.nonempty, h.unopened, h.unasked, fun n hn => ?_, fun n hn => ?_⟩ <;>
    · obtain ⟨number, hnumber, hqualifier⟩ := Option.map_eq_some_iff.mp hn
      have hshort := h.short number hnumber
      cases number <;> cases hqualifier
      exact (Numeral.intText?_isSome_iff n).mpr hshort

/-- The segment of a group asks no query. -/
theorem isStep_segment (g : Group) : g.segment.IsStep := by
  intro r hr
  obtain ⟨number, -, hqualifier⟩ := Option.map_eq_some_iff.mp hr
  cases number <;> exact (nomatch hqualifier)

/-- The text of a group is written as a segment without qualifier. -/
theorem append_text (g : Group) (hw : ∀ s ∈ segments, s.Writable) :
    (g.form.step g.text).append (canonicalText scheme segments) =
      .ok (canonicalText scheme (segments ++ [⟨g.text, none⟩])) := by
  rw [g.form.spells g.text]
  exact congrArg Except.ok (appendPiece_canonicalText hw (List.append_nil _).symm)

/-- A group behind written segments is written as one more segment. -/
theorem Clear.stepsTextFrom_steps (h : g.Clear) (hw : ∀ s ∈ segments, s.Writable) :
    stepsTextFrom (canonicalText scheme segments) g.steps =
      .ok (canonicalText scheme (segments ++ [g.segment])) := by
  have htext := @append_text scheme segments g hw
  obtain ⟨form, text, number⟩ := g
  refine bind_eq_ok.mpr ⟨_, htext, ?_⟩
  cases number with
  | none => rfl
  | some number =>
    have hshort := (Numeral.intText?_isSome_iff _).mpr (h.short number rfl)
    refine bind_eq_ok.mpr ⟨_, ?_, rfl⟩
    cases number with
    | index n => exact append_index hshort
    | id n =>
      refine append_id (fun s hs => ?_) hshort
      rcases List.mem_append.mp hs with hmem | hlast
      · exact hw s hmem
      · obtain rfl := List.mem_singleton.mp hlast
        exact ⟨h.nonempty, h.unopened, h.unasked, fun _ hn => (nomatch hn), fun _ hn => (nomatch hn)⟩

/-- Groups behind written segments are written as as many more segments, by induction on the groups. -/
theorem stepsTextFrom_groups (h : ∀ g ∈ groups, g.Clear) (hw : ∀ s ∈ segments, s.Writable) :
    stepsTextFrom (canonicalText scheme segments) (groups.flatMap steps) =
      .ok (canonicalText scheme (segments ++ groups.map segment)) := by
  induction groups generalizing segments with
  | nil => rw [List.map_nil, List.append_nil]; rfl
  | cons g rest ih =>
    have hg := h g List.mem_cons_self
    have hmore : ∀ s ∈ segments ++ [g.segment], s.Writable := by
      intro s hs
      rcases List.mem_append.mp hs with hmem | hlast
      · exact hw s hmem
      · exact List.mem_singleton.mp hlast ▸ hg.writable
    have hrest := ih (fun next hnext => h next (List.mem_cons_of_mem g hnext)) hmore
    rw [List.append_assoc] at hrest
    rw [List.flatMap_cons, stepsTextFrom_append, hg.stepsTextFrom_steps hw]
    exact hrest

/-- Groups that may follow each other become segments whose heads stay heads. -/
theorem unfolded_of_mayFollow (h : groups.IsChain MayFollow) {bare : Bool}
    (hfirst : ∀ g ∈ groups.head?, bare = true → Digit.isInteger g.text.toList = false) :
    Unfolded bare (groups.map segment) := by
  induction groups generalizing bare with
  | nil => trivial
  | cons g rest ih =>
    obtain ⟨hnext, hrest⟩ := List.isChain_cons.mp h
    refine ⟨hfirst g rfl, ih hrest fun next hmem hbare => hnext next hmem ?_⟩
    exact Option.map_eq_none_iff.mp (Option.isNone_iff_eq_none.mp hbare)

/-- The address that is built from clear groups is read as their segments. -/
theorem read_groups (hne : scheme ≠ "") (hmark : ¬ schemeMark <:+: scheme.toList)
    (hclear : ∀ g ∈ groups, g.Clear) (hfollow : groups.IsChain MayFollow) :
    ∃ text, stepsText (.root scheme :: groups.flatMap steps) = .ok text ∧
      read text = .ok (.ok ⟨scheme, groups.map segment⟩) := by
  have hroot : canonicalText scheme [] = scheme.toList ++ schemeMark := List.append_nil _
  have hsteps := @stepsTextFrom_groups scheme [] groups hclear
    fun s hs => absurd hs List.not_mem_nil
  rw [List.nil_append, hroot] at hsteps
  refine ⟨String.ofList (canonicalText scheme (groups.map segment)), ?_, ?_⟩
  · exact map_eq_ok.mpr ⟨_, bind_eq_ok.mpr ⟨_, rfl, hsteps⟩, rfl⟩
  · refine read_canonicalText (readableScheme_of_unmarked hne hmark) ⟨?_, ?_, ?_⟩
    · intro s hs
      obtain ⟨g, hg, rfl⟩ := List.mem_map.mp hs
      exact (hclear g hg).writable
    · intro s hs
      obtain ⟨g, -, rfl⟩ := List.mem_map.mp hs
      exact g.isStep_segment
    · exact unfolded_of_mayFollow hfollow fun g _ hbare => absurd hbare Bool.false_ne_true

/-- Shelves, the one but last of them, the box of a name with a slash and a bracket in it, and the note
of an integer text behind its identifier. -/
theorem read_groups_shelves :
    ∃ text, stepsText [.root "s", .prop "shelves", .index (.int (-1)), .name (.text "a/b] é"),
        .id (.int 7), .id (.text "12")] = .ok text ∧
      read text = .ok (.ok ⟨"s", [⟨"shelves", some (.index (-1))⟩, ⟨"a/b] é", some (.id 7)⟩,
        ⟨"12", none⟩]⟩) := by
  refine @read_groups "s" [⟨.property, "shelves", some (.index (-1))⟩,
    ⟨.name, "a/b] é", some (.id 7)⟩, ⟨.id, "12", none⟩] (by decide) (by decide) ?_ ?_
  · intro g hg
    simp only [List.mem_cons, List.not_mem_nil, or_false] at hg
    rcases hg with rfl | rfl | rfl <;>
      · refine ⟨by decide, by decide, by decide, fun n hn => ?_⟩
        cases hn <;> exact Nat.lt_of_lt_of_le (by decide : _ < 10 ^ 1)
          (Nat.pow_le_pow_right (by decide) (by decide))
  · simp [MayFollow]

end Group

end ResourceAtlas.Address
