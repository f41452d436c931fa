import ResourceAtlas.Proofs.Store.Exchange

/-!
# Names that only the address has

A namespace adds a name to the address and goes nowhere in the document, and an alias takes the place
of a key in the address alone. So a way along the bare keys leads to what the way with these names
leads to, for every read and every change, and the address has no trace of the keys behind aliases.
-/

namespace ResourceAtlas

open Address Store

namespace Motion

/-- The moves through a document that a move comes down to. -/
def bare : Motion → List Motion
  | namespaced _ => []
  | aliased backing _ => [property backing]
  | m => [m]

/-- Two moves add the same to an address: they are one, or aliases of one name. -/
inductive SameName : Motion → Motion → Prop
  /-- They are one. -/
  | refl (m : Motion) : SameName m m
  /-- They are aliases of one name. -/
  | aliased (backing backing' address : String) :
    SameName (aliased backing address) (aliased backing' address)

/-- Moves in two parts are made one part after the other. -/
theorem applyAll_append (c : Cursor) (before after : List Motion) :
    applyAll c (before ++ after) = (applyAll c before).bind fun c => applyAll c after := by
  induction before generalizing c with
  | nil => rfl
  | cons m rest ih =>
    rw [List.cons_append, applyAll, applyAll]
    cases m.apply c with
    | error f => rfl
    | ok next => exact ih next

end Motion

/-- Whether the text of a step can be written does not depend on the text before it. -/
theorem Address.Step.exists_append_iff (step : Step) (text text' : List Char) :
    (∃ next, step.append text = .ok next) ↔ ∃ next, step.append text' = .ok next := by
  cases step with
  | root scheme => exact Iff.rfl
  | prop name => exact iff_of_true ⟨_, rfl⟩ ⟨_, rfl⟩
  | _ =>
    simp only [Step.append, bind_eq_ok]
    constructor
    · rintro ⟨_, s, hs, -⟩
      exact ⟨_, s, hs, rfl⟩
    · rintro ⟨_, s, hs, -⟩
      exact ⟨_, s, hs, rfl⟩

/-- Steps can be written exactly if those before the last one can be and the last one can be. -/
theorem Address.exists_stepsText_concat (steps : List Step) (step : Step) :
    (∃ text, stepsTextFrom [] (steps ++ [step]) = .ok text) ↔
      (∃ text, stepsTextFrom [] steps = .ok text) ∧ ∃ next, step.append [] = .ok next := by
  constructor
  · rintro ⟨text, htext⟩
    rw [stepsTextFrom_append] at htext
    obtain ⟨before, hbefore, hlast⟩ := bind_eq_ok.mp htext
    obtain ⟨next, hnext, -⟩ := bind_eq_ok.mp hlast
    exact ⟨⟨before, hbefore⟩, (step.exists_append_iff before []).mp ⟨next, hnext⟩⟩
  · rintro ⟨⟨before, hbefore⟩, hstep⟩
    obtain ⟨next, hnext⟩ := (step.exists_append_iff [] before).mp hstep
    exact ⟨next, stepsTextFrom_concat hbefore hnext⟩

namespace Cursor

/-- Two locations inside documents that lie at one place, of which nothing is asked. -/
structure SameSpot (c e : Cursor) : Prop where
  /-- One is inside a document. -/
  inside : c.isOutside = false
  /-- So is the other. -/
  inside' : e.isOutside = false
  /-- They lie at one place of every store. -/
  position : ∀ s, c.position? s = e.position? s
  /-- The steps of one can be written exactly if those of the other can be. -/
  written : (∃ text, stepsTextFrom [] c.steps = .ok text) ↔
    ∃ text, stepsTextFrom [] e.steps = .ok text
  /-- Nothing is asked of one. -/
  query : c.query = .empty
  /-- Nothing is asked of the other. -/
  query' : e.query = .empty

variable {c e : Cursor}

namespace SameSpot

/-- One of them has an address exactly if the other has. -/
theorem addressed_iff (h : c.SameSpot e) : c.Addressed ↔ e.Addressed := by
  rw [Cursor.addressed_iff, Cursor.addressed_iff, h.inside, h.inside', h.written, h.query, h.query']

/-- What is selected alike inside both lies at one place, whichever names the addresses have for it. -/
theorem entered (h : c.SameSpot e) (selector : Selector) {step step' : Step}
    (hstep : (∃ next, step.append [] = .ok next) ↔ ∃ next, step'.append [] = .ok next) :
    (c.entered selector step).SameSpot (e.entered selector step') := by
  refine ⟨rfl, rfl, fun s => ?_, ?_, rfl, rfl⟩
  · rw [Cursor.entered, Cursor.entered, position?, position?, h.position s]
  · show (∃ text, stepsTextFrom [] (c.steps ++ [step]) = .ok text) ↔
      ∃ text, stepsTextFrom [] (e.steps ++ [step']) = .ok text
    rw [exists_stepsText_concat, exists_stepsText_concat, h.written, hstep]

/-- A name that only the address of one has leaves it at the place of the other. -/
theorem namespaced (h : c.SameSpot e) (address : String) : (c.namespaced address).SameSpot e := by
  refine ⟨rfl, h.inside', fun s => ?_, ?_, rfl, h.query'⟩
  · rw [← h.position s, Cursor.namespaced, position?]
    cases c.position? s with
    | error f => rfl
    | ok around => cases around <;> rfl
  · show (∃ text, stepsTextFrom [] (c.steps ++ [.prop address]) = .ok text) ↔ _
    rw [exists_stepsText_concat, h.written]
    exact and_iff_left ⟨_, rfl⟩

/-- A value bound to an address lies at one place, wherever it is bound. -/
theorem bound (source : Source) (steps : List Step) :
    (Cursor.bound c source steps .empty).SameSpot (.bound e source steps .empty) :=
  ⟨rfl, rfl, fun _ => rfl, Iff.rfl, rfl, rfl⟩

/-- A move further from one leads where the bare moves from the other lead. -/
theorem apply (h : c.SameSpot e) {m : Motion} (hm : m.descends = true) :
    ∃ c' e', m.apply c = .ok c' ∧ Motion.applyAll e m.bare = .ok e' ∧ c'.SameSpot e' ∧
      ((∀ address, m ≠ .namespaced address) → c'.Exchangeable e') := by
  have hbare : ∀ m e', m.applyInside e = .ok e' → Motion.applyAll e [m] = .ok e' := by
    intro m e' he
    exact bind_eq_ok.mpr ⟨e', (Motion.apply_inside h.inside' m).trans he, rfl⟩
  rw [Motion.apply_inside h.inside]
  cases m with
  | namespaced address =>
    exact ⟨_, e, rfl, rfl, h.namespaced address, fun hno => absurd rfl (hno address)⟩
  | property key =>
    exact ⟨_, _, rfl, hbare _ _ rfl, h.entered (.property key) Iff.rfl,
      fun _ => .child h.position _ _ _ _ _⟩
  | aliased backing address =>
    exact ⟨_, _, rfl, hbare (.property backing) _ rfl,
      h.entered (.property backing) (iff_of_true ⟨_, rfl⟩ ⟨_, rfl⟩),
      fun _ => .child h.position _ _ _ _ _⟩
  | index v =>
    exact ⟨_, _, rfl, hbare _ _ rfl, h.entered (.index v) Iff.rfl,
      fun _ => .child h.position _ _ _ _ _⟩
  | name v =>
    exact ⟨_, _, rfl, hbare _ _ rfl, h.entered (.name v) Iff.rfl,
      fun _ => .child h.position _ _ _ _ _⟩
  | id v =>
    exact ⟨_, _, rfl, hbare _ _ rfl, h.entered (.id v) Iff.rfl,
      fun _ => .child h.position _ _ _ _ _⟩
  | bind source steps =>
    refine ⟨_, _, rfl, hbare _ _ rfl, .bound source steps, fun _ => ?_⟩
    refine ⟨rfl, fun _ => rfl, fun _ => rfl, fun s => ?_, rfl, rfl⟩
    show c.raw s = e.raw s
    unfold raw
    rw [h.position s]
  | _ => exact absurd hm Bool.false_ne_true

/-- Moves further from one lead where their bare moves from the other lead. -/
theorem applyAll (h : c.SameSpot e) {way : List Motion} (hway : ∀ m ∈ way, m.descends = true) :
    ∃ c' e', Motion.applyAll c way = .ok c' ∧ Motion.applyAll e (way.flatMap Motion.bare) = .ok e' ∧
      c'.SameSpot e' := by
  induction way generalizing c e with
  | nil => exact ⟨c, e, rfl, rfl, h⟩
  | cons m rest ih =>
    obtain ⟨c₁, e₁, hc₁, he₁, h₁, -⟩ := h.apply (hway m List.mem_cons_self)
    obtain ⟨c', e', hc', he', h'⟩ := ih h₁ fun m' hm' => hway m' (List.mem_cons_of_mem m hm')
    refine ⟨c', e', bind_eq_ok.mpr ⟨c₁, hc₁, hc'⟩, ?_, h'⟩
    rw [List.flatMap_cons, Motion.applyAll_append]
    exact bind_eq_ok.mpr ⟨e₁, he₁, he'⟩

/-- Where the last of the moves adds no mere name, the locations stand for each other in a change. -/
theorem exchangeable (h : c.SameSpot e) (hce : c.Exchangeable e) {way : List Motion}
    (hway : ∀ m ∈ way, m.descends = true)
    (hlast : ∀ address, way.getLast? ≠ some (.namespaced address)) {c' e' : Cursor}
    (hc' : Motion.applyAll c way = .ok c')
    (he' : Motion.applyAll e (way.flatMap Motion.bare) = .ok e') : c'.Exchangeable e' := by
  rcases List.eq_nil_or_concat' way with rfl | ⟨before, last, rfl⟩
  · obtain rfl := Except.ok.inj hc'
    obtain rfl := Except.ok.inj he'
    exact hce
  · obtain ⟨c₁, e₁, hc₁, he₁, h₁⟩ := h.applyAll fun m hm => hway m (List.mem_append_left [last] hm)
    obtain ⟨c₂, e₂, hc₂, he₂, -, hexchange⟩ :=
      h₁.apply (hway last (List.mem_append_right before List.mem_cons_self))
    rw [Motion.applyAll_append, hc₁] at hc'
    rw [List.flatMap_append, List.flatMap_singleton, Motion.applyAll_append, he₁] at he'
    have hc₂' : Motion.applyAll c₁ [last] = .ok c₂ := bind_eq_ok.mpr ⟨c₂, hc₂, rfl⟩
    obtain rfl := Except.ok.inj (hc₂'.symm.trans hc')
    obtain rfl := Except.ok.inj (he₂.symm.trans he')
    refine hexchange fun address hname => hlast address ?_
    rw [List.getLast?_concat, hname]

end SameSpot

/-- Two locations inside documents under one address. -/
structure SameAddress (c d : Cursor) : Prop where
  /-- One is inside a document. -/
  inside : c.isOutside = false
  /-- So is the other. -/
  inside' : d.isOutside = false
  /-- The steps of the address are the same. -/
  steps : c.steps = d.steps
  /-- The same is asked of both. -/
  query : c.query = d.query

namespace SameAddress

variable {d : Cursor}

/-- The text of the address is the same. -/
theorem uri_eq (h : c.SameAddress d) : c.uri = d.uri := by
  rw [uri_inside h.inside, uri_inside h.inside', h.steps, h.query]

/-- Moves that add the same lead to one address. -/
theorem apply (h : c.SameAddress d) {m m' : Motion} (hm : m.descends = true) (hsame : m.SameName m') :
    ∃ c' d', m.apply c = .ok c' ∧ m'.apply d = .ok d' ∧ c'.SameAddress d' := by
  have hentered : ∀ selector selector' step,
      (c.entered selector step).SameAddress (d.entered selector' step) := by
    intro selector selector' step
    refine ⟨rfl, rfl, ?_, rfl⟩
    rw [Cursor.entered, Cursor.entered, Cursor.steps, Cursor.steps, h.steps]
  rw [Motion.apply_inside h.inside, Motion.apply_inside h.inside']
  cases hsame with
  | aliased backing backing' address =>
    exact ⟨_, _, rfl, rfl, hentered (.property backing) (.property backing') (.prop address)⟩
  | refl =>
    cases m with
    | bind source steps => exact ⟨_, _, rfl, rfl, rfl, rfl, rfl, rfl⟩
    | change ch => exact absurd hm Bool.false_ne_true
    | parent => exact absurd hm Bool.false_ne_true
    | fail text => exact absurd hm Bool.false_ne_true
    | _ => exact ⟨_, _, rfl, rfl, hentered _ _ _⟩

/-- So do ways of which every move adds the same. -/
theorem applyAll (h : c.SameAddress d) {way way' : List Motion}
    (hsame : List.Forall₂ Motion.SameName way way') (hway : ∀ m ∈ way, m.descends = true) :
    ∃ c' d', Motion.applyAll c way = .ok c' ∧ Motion.applyAll d way' = .ok d' ∧
      c'.SameAddress d' := by
  induction hsame generalizing c d with
  | nil => exact ⟨c, d, rfl, rfl, h⟩
  | cons hm _ ih =>
    obtain ⟨c₁, d₁, hc₁, hd₁, h₁⟩ := h.apply (hway _ List.mem_cons_self) hm
    obtain ⟨c', d', hc', hd', h'⟩ := ih h₁ fun m' hm' => hway m' (List.mem_cons_of_mem _ hm')
    exact ⟨c', d', bind_eq_ok.mpr ⟨c₁, hc₁, hc'⟩, bind_eq_ok.mpr ⟨d₁, hd₁, hd'⟩, h'⟩

end SameAddress

/-- The way from a root with names that only the address has and the way along the bare keys lead to one
place: whatever the documents hold, the same is read there, and unless the last move adds a mere name,
an assignment, a removal and a move of a member, or to there, have one effect. The address does not
change with the keys behind the aliases. -/
theorem bare_transparent (d : DocumentId) (scheme : String) {way : List Motion}
    (hway : ∀ m ∈ way, m.descends = true) :
    ∃ c e, Motion.applyAll (atRoot d scheme) way = .ok c ∧
      Motion.applyAll (atRoot d scheme) (way.flatMap Motion.bare) = .ok e ∧
      (∀ s, c.raw s = e.raw s) ∧
      ((∀ address, way.getLast? ≠ some (.namespaced address)) →
        (∀ new s, (c.assign new s).2 = (e.assign new s).2 ∧
          ((c.assign new s).1 = .ok () ↔ (e.assign new s).1 = .ok ())) ∧
        (∀ s, SameEffect (c.remove s) (e.remove s)) ∧
        (∀ destination keys s,
          SameReport (c.relocate destination keys s) (e.relocate destination keys s)) ∧
        ∀ item keys s, SameEffect (relocate item c keys s) (relocate item e keys s)) ∧
      ∀ way', List.Forall₂ Motion.SameName way way' →
        ∃ c', Motion.applyAll (atRoot d scheme) way' = .ok c' ∧ c'.uri = c.uri := by
  have hroot : (atRoot d scheme).SameSpot (atRoot d scheme) :=
    ⟨rfl, rfl, fun _ => rfl, Iff.rfl, rfl, rfl⟩
  obtain ⟨c, e, hc, he, hspot⟩ := hroot.applyAll hway
  refine ⟨c, e, hc, he, fun s => ?_, fun hlast => ?_, fun way' hsame => ?_⟩
  · unfold raw
    rw [hspot.position s]
  · have hce : c.Exchangeable e := hroot.exchangeable (.refl _) hway hlast hc he
    have hw := hspot.addressed_iff
    exact ⟨hce.assign hw, hce.remove hw,
      fun destination keys s =>
        hce.relocate_report (.refl destination) Iff.rfl
          (fun u v hu hv => congrArg _ (Except.ok.inj (hu.symm.trans hv))) keys s,
      fun item keys s => (Exchangeable.refl item).relocate hce hw keys s⟩
  · have haddress : (atRoot d scheme).SameAddress (atRoot d scheme) := ⟨rfl, rfl, rfl, rfl⟩
    obtain ⟨c₁, c', hc₁, hc', hsteps⟩ := haddress.applyAll hsame hway
    obtain rfl := Except.ok.inj (hc₁.symm.trans hc)
    exact ⟨c', hc', hsteps.uri_eq.symm⟩

/-- The name of the first folder, with names on the way that only the address has. What is assigned there
is read along the bare keys. -/
theorem bare_transparent_folders :
    (∀ m ∈ [Motion.namespaced "v1", .aliased "folders" "shelves", .index (.int 0), .namespaced "info",
      .property "name"], m.descends = true) ∧
    ∃ c e, Motion.applyAll (atRoot 0 "s") [.namespaced "v1", .aliased "folders" "shelves",
        .index (.int 0), .namespaced "info", .property "name"] = .ok c ∧
      Motion.applyAll (atRoot 0 "s") [.property "folders", .index (.int 0), .property "name"] = .ok e ∧
      c.uri = .ok "s://v1/shelves%5B0%5D/info/name" ∧ e.uri = .ok "s://folders%5B0%5D/name" ∧
      c.raw (Atlas.folderStore [Atlas.folder "A" []]) = .ok (.text "A") ∧
      e.raw (Atlas.folderStore [Atlas.folder "A" []]) = .ok (.text "A") ∧
      (c.assign (.text "B") (Atlas.folderStore [Atlas.folder "A" []])).2 =
        (e.assign (.text "B") (Atlas.folderStore [Atlas.folder "A" []])).2 ∧
      e.raw (c.assign (.text "B") (Atlas.folderStore [Atlas.folder "A" []])).2 = .ok (.text "B") := by
  have hway : ∀ m ∈ [Motion.namespaced "v1", .aliased "folders" "shelves", .index (.int 0),
      .namespaced "info", .property "name"], m.descends = true := by
    simp [Motion.descends]
  obtain ⟨c, e, hc, he, hraw, hchange, -⟩ := bare_transparent 0 "s" hway
  obtain ⟨hassign, -⟩ := hchange fun address h => (nomatch h)
  obtain rfl := Except.ok.inj hc
  obtain rfl := Except.ok.inj he
  have hread : raw (Atlas.folderStore [Atlas.folder "A" []])
      (property "name" (namespaced "info" (atIndex (.int 0)
        (aliased "folders" "shelves" (namespaced "v1" (atRoot 0 "s")))))) = .ok (.text "A") := rfl
  refine ⟨hway, _, _, rfl, rfl, by decide +kernel, by decide +kernel, hread, ?_, (hassign _ _).1, ?_⟩
  · exact (hraw _).symm.trans hread
  · rw [(hassign _ _).1]
    rfl

end Cursor

end ResourceAtlas
