import ResourceAtlas.Proofs.Query.Written
import ResourceAtlas.Proofs.Registry.Guided

/-!
# Which locations have an address

The address of a location can be written if its steps and all that is asked there can be. What was read from
an address can be written again, so every segment leads from a location with an address to one with an
address, where it takes no computed way. Where computed ways do so too, every location has one that an
address leads to.
-/

namespace ResourceAtlas

open Address Number Query Schema

/-- A location whose address can be written. -/
def Cursor.Addressed (c : Cursor) : Prop :=
  ∃ own, c.uri = .ok own

namespace Cursor

/-- The address can be written of a location inside a document of which the steps can be written, and all
that is asked there. -/
theorem addressed_iff {c : Cursor} : c.Addressed ↔
    c.isOutside = false ∧ (∃ text, stepsTextFrom [] c.steps = .ok text) ∧ c.query.Writable := by
  constructor
  · rintro ⟨own, hown⟩
    obtain ⟨inside, hwithin, hown⟩ := bind_eq_ok.mp hown
    obtain ⟨hin, rfl⟩ := within_ok_iff.mp hwithin
    obtain ⟨base, hbase, hown⟩ := bind_eq_ok.mp hown
    obtain ⟨query, hquery, -⟩ := bind_eq_ok.mp hown
    obtain ⟨text, htext, -⟩ := map_eq_ok.mp hbase
    exact ⟨hin, ⟨text, htext⟩, State.writable_iff.mpr ⟨query, hquery⟩⟩
  · rintro ⟨hin, ⟨text, htext⟩, hquery⟩
    obtain ⟨query, hquery⟩ := State.writable_iff.mp hquery
    exact ⟨_, Atlas.uri_of_text hin htext query hquery⟩

/-- A location with an address is inside a document. -/
theorem Addressed.inside {c : Cursor} (h : c.Addressed) : c.isOutside = false :=
  (addressed_iff.mp h).1

/-- The address of a location inside goes on with a step that can be written. -/
theorem Addressed.entered {c : Cursor} (h : c.Addressed) (selector : Selector) {step : Step}
    (hstep : ∀ text, ∃ next, step.append text = .ok next) : (c.entered selector step).Addressed := by
  obtain ⟨-, ⟨text, htext⟩, -⟩ := addressed_iff.mp h
  obtain ⟨next, hnext⟩ := hstep text
  exact addressed_iff.mpr ⟨rfl, ⟨next, stepsTextFrom_concat htext hnext⟩, State.writable_empty⟩

/-- The address ends with whatever can be written that is asked of the location. -/
theorem Addressed.withQuery {c : Cursor} (h : c.Addressed) {q : State} (hq : q.Writable) :
    (c.withQuery q).Addressed := by
  obtain ⟨hin, hsteps, -⟩ := addressed_iff.mp h
  refine addressed_iff.mpr ⟨?_, ?_, ?_⟩
  · rw [isOutside_withQuery]
    exact hin
  · rw [← (near_withQuery c q).steps]
    exact hsteps
  · rw [query_withQuery hin]
    exact hq

end Cursor

/-- A member that is selected by a value with a text can be written. -/
theorem Address.Step.exists_append {v : Value} (hv : v.string?.isSome) {step : Step}
    (hstep : step = .index v ∨ step = .name v ∨ step = .id v) (text : List Char) :
    ∃ next, step.append text = .ok next := by
  obtain ⟨given, hgiven⟩ := Option.isSome_iff_exists.mp hv
  have hwritten : writable v.string? = .ok given := by rw [hgiven]; rfl
  rcases hstep with rfl | rfl | rfl
  all_goals exact ⟨_, bind_eq_ok.mpr ⟨given, hwritten, rfl⟩⟩

/-- An integer that can be written has a text. -/
theorem Value.isSome_string?_int {n : Int} (h : (Numeral.intText? n).isSome) :
    (Value.int n).string?.isSome := by
  show ((Numeral.intText? n).map String.ofList).isSome = true
  rw [Option.isSome_map]
  exact h

/-- A segment that was read leads from locations with an address to locations with an address. -/
theorem Address.Segment.Lexed.preserves_addressed {s : Segment} (hs : s.Lexed) :
    s.Preserves Cursor.Addressed where
  enter step hadds c selector hc := by
    refine hc.entered selector fun text => ?_
    cases hadds with
    | prop => exact ⟨_, rfl⟩
    | name => exact Step.exists_append (v := .text s.head) rfl (.inr (.inl rfl)) text
    | identified => exact Step.exists_append (v := .text s.head) rfl (.inr (.inr rfl)) text
    | index h => exact Step.exists_append (Value.isSome_string?_int (hs.index _ h)) (.inl rfl) text
    | id h => exact Step.exists_append (Value.isSome_string?_int (hs.id _ h)) (.inr (.inr rfl)) text
  ask r hr c hc := hc.withQuery ((hs.query r hr).writable (Cursor.addressed_iff.mp hc).2.2)

/-- Whether a move leads from every location with an address to another one: further, by what can be
written. -/
def Motion.isWritable : Motion → Bool
  | .property _ => true
  | .aliased _ _ => true
  | .namespaced _ => true
  | .index position => position.string?.isSome
  | .name wanted => wanted.string?.isSome
  | .id wanted => wanted.string?.isSome
  | .bind _ steps => (stepsTextFrom [] steps).toOption.isSome
  | _ => false

/-- A move by what can be written leads to a location with an address. -/
theorem Motion.addressed_apply {m : Motion} (hm : m.isWritable = true) {c there : Cursor}
    (hc : c.Addressed) (h : m.apply c = .ok there) : there.Addressed := by
  rw [Motion.apply_inside hc.inside] at h
  cases m with
  | property key => exact Except.ok.inj h ▸ hc.entered (.property key) fun _ => ⟨_, rfl⟩
  | aliased backing address => exact Except.ok.inj h ▸ hc.entered (.property backing) fun _ => ⟨_, rfl⟩
  | namespaced address => exact Except.ok.inj h ▸ hc.entered .same fun _ => ⟨_, rfl⟩
  | index v => exact Except.ok.inj h ▸ hc.entered (.index v) (Step.exists_append hm (.inl rfl))
  | name v => exact Except.ok.inj h ▸ hc.entered (.name v) (Step.exists_append hm (.inr (.inl rfl)))
  | id v => exact Except.ok.inj h ▸ hc.entered (.id v) (Step.exists_append hm (.inr (.inr rfl)))
  | bind source steps =>
    obtain ⟨text, htext⟩ := Option.isSome_iff_exists.mp hm
    have hsteps : stepsTextFrom [] steps = .ok text := by
      cases hs : stepsTextFrom [] steps with
      | error f =>
        rw [hs] at htext
        exact (nomatch htext)
      | ok found =>
        rw [hs] at htext
        exact congrArg Except.ok (Option.some.inj htext)
    exact Except.ok.inj h ▸ Cursor.addressed_iff.mpr ⟨rfl, ⟨text, hsteps⟩, State.writable_empty⟩
  | _ => exact absurd hm Bool.false_ne_true

/-- Moves by what can be written lead to a location with an address. -/
theorem Motion.addressed_applyAll {motions : List Motion} (hm : ∀ m ∈ motions, m.isWritable = true)
    {c there : Cursor} (hc : c.Addressed) (h : Motion.applyAll c motions = .ok there) :
    there.Addressed := by
  induction motions generalizing c with
  | nil => exact Except.ok.inj h ▸ hc
  | cons m rest ih =>
    obtain ⟨mid, hmid, h⟩ := bind_eq_ok.mp h
    exact ih (fun m' hm' => hm m' (List.mem_cons_of_mem m hm'))
      (m.addressed_apply (hm m List.mem_cons_self) hc hmid) h

namespace Atlas

variable {a : Atlas}

/-- Computed ways that move by what can be written keep addresses. -/
theorem waysKeep_addressed (h : ∀ id, ∀ m ∈ ((a.catalog.node id).landing.map Landing.motions).getD [],
    m.isWritable = true) : a.WaysKeep Cursor.Addressed := by
  intro here _ hhere _ _ e _ landing hlanding c hc
  have hmotions := h e.2
  rw [hlanding] at hmotions
  exact Motion.addressed_applyAll hmotions hhere hc

/-- Where computed ways keep addresses, every location has one that an address leads to. -/
theorem exists_uri_of_resolve (hways : a.WaysKeep Cursor.Addressed) {uri : String} {spec : Specifier}
    (h : a.resolve uri = .ok (.ok spec)) : ∃ own, spec.uri = .ok own := by
  obtain ⟨l, hread, hlocate⟩ := resolve_ok h
  obtain ⟨what, there, hwhat, hwalk, rfl⟩ := locate_ok hlocate
  obtain ⟨-, -, hlexed, -⟩ := parts_of_read hread
  have hreached : a.Reached (a.start l.scheme what) :=
    ⟨l.scheme, what, [], Keyed.mem_of_get? hwhat, rfl⟩
  have hroot : (a.start l.scheme what).cursor.Addressed :=
    Cursor.addressed_iff.mpr ⟨rfl, ⟨_, start_text l.scheme what⟩, State.writable_empty⟩
  exact hways.walk (fun s hs => (hlexed s hs).preserves_addressed) hreached hroot hwalk

/-- What a segment preserves, its head keeps where it takes no computed way. -/
theorem HeadMove.preserved {p : Cursor → Prop} {here there : Standing} {segment : Segment}
    (hs : segment.Preserves p) (hp : p here.cursor) (h : a.HeadMove here segment.head there) :
    p there.cursor := by
  cases h with
  | child => exact hs.enter _ .prop _ _ hp
  | name => exact hs.enter _ .name _ _ hp
  | id => exact hs.enter _ .identified _ _ hp

/-- What a segment preserves it keeps where it takes no computed way. -/
theorem SegmentMove.preserved {p : Cursor → Prop} {here there : Standing} {segment : Segment}
    (hs : segment.Preserves p) (hp : p here.cursor) (h : a.SegmentMove here segment there) :
    p there.cursor := by
  cases h with
  | bare hm => exact hm.preserved hs hp
  | index hm => exact hs.enter _ (.index rfl) _ _ (hm.preserved hs hp)
  | id hm => exact hs.enter _ (.id rfl) _ _ (hm.preserved hs hp)
  | query hm => exact hs.ask _ rfl _ (hm.preserved hs hp)

/-- What segments preserve, a walk along them keeps that takes no computed way. -/
theorem walk_preserved {p : Cursor → Prop} {here there : Standing} {segments : List Segment}
    (hd : a.Straight here segments) (hs : ∀ s ∈ segments, s.Preserves p) (hp : p here.cursor)
    (h : a.walk here segments = .ok (.ok there)) : p there.cursor := by
  induction segments generalizing here with
  | nil => exact Except.ok.inj (Except.ok.inj h) ▸ hp
  | cons s rest ih =>
    obtain ⟨mid, hmid, hrest⟩ := walk_cons_ok h
    have hmove := (segmentMove_of_moveBy hd.1 hmid).2.1
    exact ih (hd.2 mid hmid) (fun s' hs' => hs s' (List.mem_cons_of_mem s hs'))
      (hmove.preserved (hs s List.mem_cons_self) hp) hrest

/-- Where an address leads by no computed way there is a location with an address. -/
theorem addressed_of_locate {uri : String} {l : Location} {spec : Specifier}
    (hread : Address.read uri = .ok (.ok l))
    (hd : ∀ what, Keyed.get? l.scheme a.registry.schemes = some what →
      a.Straight (a.start l.scheme what) l.segments)
    (h : a.locate l = .ok (.ok spec)) : spec.cursor.Addressed := by
  obtain ⟨what, there, hwhat, hwalk, rfl⟩ := locate_ok h
  obtain ⟨-, -, hlexed, -⟩ := parts_of_read hread
  have hroot : (a.start l.scheme what).cursor.Addressed :=
    Cursor.addressed_iff.mpr ⟨rfl, ⟨_, start_text l.scheme what⟩, State.writable_empty⟩
  exact walk_preserved (hd what hwhat) (fun s hs => (hlexed s hs).preserves_addressed) hroot hwalk

end Atlas

end ResourceAtlas
