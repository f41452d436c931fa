import ResourceAtlas.Fault

/-!
# Computations that give a result

A computation in steps gives a result exactly if every step does, and breaks off with what one of
them breaks off with.
-/

namespace ResourceAtlas

variable {ε α β : Type}

/-- A step and the steps after it give a result exactly if the step does and the others do from
there. -/
theorem bind_eq_ok {x : Except ε α} {next : α → Except ε β} {b : β} :
    (x >>= next) = .ok b ↔ ∃ a, x = .ok a ∧ next a = .ok b := by
  cases x with
  | error f => exact ⟨fun h => (nomatch h), fun ⟨a, h, _⟩ => (nomatch h)⟩
  | ok a => exact ⟨fun h => ⟨a, rfl, h⟩, fun ⟨_, h, h'⟩ => Except.ok.inj h ▸ h'⟩

/-- Behind a step that gives a result stand the steps after it, from that result. -/
theorem ok_bind (a : α) (next : α → Except ε β) : (.ok a >>= next) = next a :=
  rfl

/-- What is made of a result is made exactly if there is one. -/
theorem exists_bind_ok_iff {x : Except ε α} {f : α → β} :
    (∃ b, (x >>= fun a => .ok (f a)) = .ok b) ↔ ∃ a, x = .ok a :=
  ⟨fun ⟨_, h⟩ => (bind_eq_ok.mp h).imp fun _ => And.left,
    fun ⟨a, h⟩ => ⟨f a, bind_eq_ok.mpr ⟨a, h, rfl⟩⟩⟩

/-- A step and the steps after it break off exactly if the step does, or the others do from there. -/
theorem bind_eq_error {x : Except ε α} {next : α → Except ε β} {f : ε} :
    (x >>= next) = .error f ↔ x = .error f ∨ ∃ a, x = .ok a ∧ next a = .error f := by
  cases x with
  | error fault =>
    refine ⟨fun h => .inl (congrArg Except.error (Except.error.inj h)), ?_⟩
    rintro (h | ⟨a, h, -⟩)
    · exact congrArg Except.error (Except.error.inj h)
    · exact (nomatch h)
  | ok a =>
    refine ⟨fun h => .inr ⟨a, rfl, h⟩, ?_⟩
    rintro (h | ⟨b, h, hb⟩)
    · exact (nomatch h)
    · exact Except.ok.inj h ▸ hb

/-- Steps that go on alike from what a step gives are one behind it. -/
theorem bind_congr_ok {x : Except ε α} {next next' : α → Except ε β}
    (h : ∀ a, x = .ok a → next a = next' a) : x >>= next = x >>= next' := by
  cases x with
  | error f => rfl
  | ok a => exact h a rfl

/-- A step whose result is changed gives a result exactly if the step does. -/
theorem map_eq_ok {x : Except ε α} {f : α → β} {b : β} :
    x.map f = .ok b ↔ ∃ a, x = .ok a ∧ f a = b := by
  cases x with
  | error f => exact ⟨fun h => (nomatch h), fun ⟨a, h, _⟩ => (nomatch h)⟩
  | ok a => exact ⟨fun h => ⟨a, rfl, Except.ok.inj h⟩,
      fun ⟨_, h, h'⟩ => Except.ok.inj h ▸ congrArg Except.ok h'⟩

/-- What a run over a list answered, each of its elements answered for one of the list's. -/
theorem exists_of_mem_mapM {f : α → Except ε β} {l : List α} {answers : List β}
    (h : l.mapM f = .ok answers) {b : β} (hb : b ∈ answers) : ∃ x ∈ l, f x = .ok b := by
  induction l generalizing answers with
  | nil =>
    obtain rfl := Except.ok.inj h
    exact absurd hb List.not_mem_nil
  | cons x l ih =>
    rw [List.mapM_cons] at h
    obtain ⟨first, hfirst, h⟩ := bind_eq_ok.mp h
    obtain ⟨more, hmore, h⟩ := bind_eq_ok.mp h
    obtain rfl := Except.ok.inj h
    rcases List.mem_cons.mp hb with rfl | hb
    · exact ⟨x, List.mem_cons_self, hfirst⟩
    · obtain ⟨y, hy, hanswer⟩ := ih hmore hb
      exact ⟨y, List.mem_cons_of_mem x hy, hanswer⟩

/-- What every step along a list keeps, all of them keep. -/
theorem foldlM_keeps {p : β → Prop} {f : β → α → Except ε β} {l : List α}
    (hf : ∀ x ∈ l, ∀ b b', p b → f b x = .ok b' → p b') {b b' : β} (hb : p b)
    (h : l.foldlM f b = .ok b') : p b' := by
  induction l generalizing b with
  | nil => exact Except.ok.inj h ▸ hb
  | cons x l ih =>
    rw [List.foldlM_cons] at h
    obtain ⟨mid, hmid, hrest⟩ := bind_eq_ok.mp h
    have hnext := hf x List.mem_cons_self b mid hb hmid
    exact ih (fun y hy => hf y (List.mem_cons_of_mem x hy)) hnext hrest

/-- Steps along a list give a result if every one of them does. -/
theorem foldlM_ok {f : β → α → Except ε β} {l : List α} (hf : ∀ x ∈ l, ∀ b, ∃ b', f b x = .ok b')
    (b : β) : ∃ b', l.foldlM f b = .ok b' := by
  induction l generalizing b with
  | nil => exact ⟨b, rfl⟩
  | cons x l ih =>
    obtain ⟨mid, hmid⟩ := hf x List.mem_cons_self b
    obtain ⟨b', hb'⟩ := ih (fun y hy => hf y (List.mem_cons_of_mem x hy)) mid
    exact ⟨b', by rw [List.foldlM_cons]; exact bind_eq_ok.mpr ⟨mid, hmid, hb'⟩⟩

/-- A computation breaks off in given ways only. -/
def BreaksWith (x : Except ε α) (only : ε → Prop) : Prop :=
  ∀ f, x = .error f → only f

namespace BreaksWith

variable {only : ε → Prop}

/-- A result is no break. -/
theorem ok (a : α) : BreaksWith (.ok a) only :=
  fun _ h => (nomatch h)

/-- A break of a given way. -/
theorem error {f : ε} (h : only f) : BreaksWith (.error f : Except ε α) only :=
  fun _ hf => Except.error.inj hf ▸ h

/-- Steps break off as each of them does. -/
theorem bind {x : Except ε α} {next : α → Except ε β} (hx : BreaksWith x only)
    (hnext : ∀ a, BreaksWith (next a) only) : BreaksWith (x >>= next) only := by
  cases x with
  | error f => exact fun _ hf => hx _ (congrArg Except.error (Except.error.inj hf))
  | ok a => exact hnext a

/-- A step whose result is changed breaks off as it did. -/
theorem map {x : Except ε α} (hx : BreaksWith x only) (f : α → β) :
    BreaksWith (x.map f) only := by
  cases x with
  | error f => exact fun _ hf => hx _ (congrArg Except.error (Except.error.inj hf))
  | ok a => exact .ok _

/-- Steps along a list break off as each of them does. -/
theorem mapM {f : α → Except ε β} (hf : ∀ a, BreaksWith (f a) only) (l : List α) :
    BreaksWith (l.mapM f) only := by
  induction l with
  | nil => exact .ok _
  | cons a l ih =>
    rw [List.mapM_cons]
    exact (hf a).bind fun b => ih.bind fun bs => .ok _

end BreaksWith

/-- Two computations agree: they break off alike, or give related results. -/
inductive Agree (r : α → β → Prop) : Except ε α → Except ε β → Prop
  /-- Both break off with the same. -/
  | error (f : ε) : Agree r (.error f) (.error f)
  /-- Both give results, which are related. -/
  | ok {a : α} {b : β} (h : r a b) : Agree r (.ok a) (.ok b)

namespace Agree

variable {γ δ : Type} {r : α → β → Prop} {q : γ → δ → Prop} {x : Except ε α} {y : Except ε β}

/-- A computation agrees with itself. -/
theorem refl {r : α → α → Prop} (hr : ∀ a, r a a) (x : Except ε α) : Agree r x x := by
  cases x with
  | error f => exact .error f
  | ok a => exact .ok (hr a)

/-- Computations that agree go on to agree. -/
theorem bind (h : Agree r x y) {f : α → Except ε γ} {g : β → Except ε δ}
    (hnext : ∀ a b, r a b → Agree q (f a) (g b)) : Agree q (x >>= f) (y >>= g) := by
  cases h with
  | error f => exact .error f
  | ok h => exact hnext _ _ h

/-- Computations that agree still do when their results are changed. -/
theorem map (h : Agree r x y) {f : α → γ} {g : β → δ} (hnext : ∀ a b, r a b → q (f a) (g b)) :
    Agree q (x.map f) (y.map g) := by
  cases h with
  | error f => exact .error f
  | ok h => exact .ok (hnext _ _ h)

/-- Computations that agree give one result if they go on to give one. -/
theorem bind_eq (h : Agree r x y) {f : α → Except ε γ} {g : β → Except ε γ}
    (hnext : ∀ a b, r a b → f a = g b) : x >>= f = y >>= g := by
  cases h with
  | error f => rfl
  | ok h => exact hnext _ _ h

end Agree

end ResourceAtlas
