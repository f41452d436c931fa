import ResourceAtlas.Json.Reader
import ResourceAtlas.Proofs.Outcome

/-!
# Which texts break off the reading of JSON

A text that is no JSON is reported as such. Reading it breaks off otherwise for two reasons only: a run of
more digits than integers are read with, or more opening brackets than containers may lie inside each
other. Every reader passes over a text from its start, so what one meets lies in the text that it was given.
-/

namespace ResourceAtlas.Json

open Number Text

/-- A bracket that opens a container. -/
def isOpening (c : Char) : Bool :=
  c == '[' || c == '\x7b'

/-- What a text has to hold for a reason not to read it. -/
def Malformed.Fits (levels : Nat) (text : List Char) : Malformed → Prop
  | .at _ _ => True
  | .tooManyDigits n =>
    Numeral.maxDigits < n ∧ ∃ run, run <:+: text ∧ run.length = n ∧ ∀ c ∈ run, isDigit c = true
  | .tooDeep _ => levels < text.countP isOpening

/-- A reader passes over the start of a text, or names a reason that fits the text. -/
def Passes (levels : Nat) (r : Rest) {α : Type} : Except Malformed (α × Rest) → Prop
  | .ok p => p.2.text <:+ r.text
  | .error e => e.Fits levels r.text

/-- A reason that fits the rest of a text fits the text. -/
theorem Malformed.Fits.mono {levels : Nat} {text whole : List Char} (hs : text <:+ whole) {e : Malformed}
    (h : e.Fits levels text) : e.Fits levels whole := by
  cases e with
  | «at» message position => trivial
  | tooManyDigits n =>
    obtain ⟨hn, run, hrun, hlength, hdigits⟩ := h
    exact ⟨hn, run, hrun.trans hs.isInfix, hlength, hdigits⟩
  | tooDeep container => exact Nat.lt_of_lt_of_le h (hs.sublist.countP_le)

/-- Passing over characters leaves a rest of the text. -/
theorem suffix_drop (r : Rest) (count : Nat) : (r.drop count).text <:+ r.text :=
  List.drop_suffix count r.text

/-- Passing over blanks leaves a rest of the text. -/
theorem suffix_skipBlanks (r : Rest) : (skipBlanks r).text <:+ r.text :=
  suffix_drop r _

namespace Passes

variable {levels : Nat} {r rest : Rest} {α β : Type}

/-- What passes over the rest of a text passes over the text. -/
theorem mono (hs : rest.text <:+ r.text) {x : Except Malformed (α × Rest)} (h : Passes levels rest x) :
    Passes levels r x := by
  cases x with
  | ok p => exact List.IsSuffix.trans h hs
  | error e => exact Malformed.Fits.mono hs h

/-- Readers pass over a text in turn. -/
theorem bind {x : Except Malformed (α × Rest)} (hx : Passes levels r x)
    {next : α × Rest → Except Malformed (β × Rest)}
    (hnext : ∀ a rest, Passes levels rest (next (a, rest))) : Passes levels r (x >>= next) := by
  cases x with
  | ok p => exact (hnext p.1 p.2).mono hx
  | error e => exact hx

/-- A reader passes over a text whatever its value is made into. -/
theorem map {x : Except Malformed (α × Rest)} (hx : Passes levels r x) (f : α → β) :
    Passes levels r (x.map fun p => (f p.1, p.2)) := by
  cases x with
  | ok p => exact hx
  | error e => exact hx

/-- A reader goes on after a character that has to come. -/
theorem expect (c : Char) (message : String) {next : Rest → Except Malformed (α × Rest)}
    (hnext : ∀ rest, Passes levels rest (next rest)) :
    Passes levels r (expect c message r >>= next) := by
  unfold Json.expect
  split
  · exact (hnext _).mono (suffix_drop r 1)
  · trivial

/-- What lies inside a container lies inside one more. -/
theorem deeper {c : Char} {tail : List Char} (ht : r.text = c :: tail) (hc : isOpening c = true)
    (hs : rest.text <:+ tail) {x : Except Malformed (α × Rest)}
    (h : Passes (levels - 1) rest x) : Passes levels r x := by
  have hrest : rest.text <:+ r.text := ht ▸ hs.trans (List.suffix_cons c tail)
  cases x with
  | ok p => exact List.IsSuffix.trans h hrest
  | error e =>
    cases e with
    | «at» message position => trivial
    | tooManyDigits n =>
      have hfits : (Malformed.tooManyDigits n).Fits levels rest.text := h
      exact hfits.mono hrest
    | tooDeep container =>
      have hinside : levels - 1 < tail.countP isOpening :=
        Nat.lt_of_lt_of_le h hs.sublist.countP_le
      have hcount : r.text.countP isOpening = tail.countP isOpening + 1 := by
        rw [ht, List.countP_cons_of_pos hc]
      show levels < r.text.countP isOpening
      omega

end Passes

/-- A code unit is read or reported at a place. -/
theorem passes_escapedUnit (levels : Nat) (r : Rest) : Passes levels r (readEscapedUnit r) := by
  unfold readEscapedUnit
  split
  · next e he =>
    unfold readUnit at he
    split at he
    · exact (nomatch he)
    · obtain rfl := Except.error.inj he
      trivial
  · dsimp only
    split
    · split
      · split
        · trivial
        · split
          · exact (suffix_drop _ 6).trans (suffix_drop r 5)
          · exact suffix_drop r 5
      · exact suffix_drop r 5
    · exact suffix_drop r 5

/-- The characters of a text are read or reported at a place. -/
theorem passes_readCharacters (levels start fuel : Nat) (before : List Char) (r : Rest) :
    Passes levels r (readCharacters start fuel before r) := by
  induction fuel generalizing before r with
  | zero => trivial
  | succ fuel ih =>
    rw [readCharacters]
    split
    · trivial
    · exact suffix_drop r 1
    · trivial
    · have hunit := passes_escapedUnit levels (r.drop 1)
      split
      · next e he =>
        rw [he] at hunit
        exact Malformed.Fits.mono (suffix_drop r 1) hunit
      · next c rest hc =>
        rw [hc] at hunit
        exact (ih (c :: before) rest).mono (List.IsSuffix.trans hunit (suffix_drop r 1))
    · split
      · exact (ih _ _).mono (suffix_drop r 2)
      · trivial
    · split
      · trivial
      · exact (ih _ _).mono (suffix_drop r 1)

/-- The digits of a whole number are digits at the start of the text. -/
theorem wholeDigits_run (text : List Char) :
    wholeDigits text <+: text ∧ ∀ c ∈ wholeDigits text, isDigit c = true := by
  unfold wholeDigits
  split
  · next rest =>
    refine ⟨⟨rest, rfl⟩, fun c hc => ?_⟩
    obtain rfl := List.mem_singleton.mp hc
    decide
  · exact ⟨List.takeWhile_prefix _, List.all_eq_true.mp List.all_takeWhile⟩

/-- A number is read unless it has too many digits. -/
theorem passes_readNumber (levels : Nat) (r : Rest) : Passes levels r (readNumber r) := by
  unfold readNumber
  generalize r.text.take (if r.text.head? = some '-' then 1 else 0) = sign
  dsimp only
  split
  · trivial
  · split
    · split
      · next hlong =>
        obtain ⟨hstart, hdigits⟩ := wholeDigits_run (r.text.drop sign.length)
        exact ⟨hlong, _, hstart.isInfix.trans (List.drop_suffix _ _).isInfix, rfl, hdigits⟩
      · exact suffix_drop r _
    · exact suffix_drop r _

/-- A container is empty, or holds what is read inside it, unless it lies too deep. -/
theorem passes_container {levels : Nat} {r : Rest} {c : Char} {tail : List Char}
    (ht : r.text = c :: tail) (hc : isOpening c = true) (container : String) (closing : Char)
    (empty : Value) {inside : Except Malformed (Value × Rest)}
    (hinside : Passes (levels - 1) (skipBlanks (r.drop 1)) inside) :
    Passes levels r
      (if levels = 0 then .error (.tooDeep container)
      else if (skipBlanks (r.drop 1)).text.head? = some closing then
        .ok (empty, (skipBlanks (r.drop 1)).drop 1)
      else inside) := by
  split
  · next hl =>
    show levels < r.text.countP isOpening
    rw [hl, ht, List.countP_cons_of_pos hc]
    exact Nat.succ_pos _
  · split
    · exact (suffix_drop _ 1).trans ((suffix_skipBlanks _).trans (suffix_drop r 1))
    · refine hinside.deeper ht hc ?_
      have htail : (r.drop 1).text = tail := by
        show r.text.drop 1 = tail
        rw [ht]
        rfl
      exact htail ▸ suffix_skipBlanks (r.drop 1)

/-- Values, members and entries pass over a text, by induction on the fuel. -/
theorem passes_readers (fuel : Nat) :
    (∀ levels r, Passes levels r (readValue fuel levels r)) ∧
      (∀ levels before r, Passes levels r (readMembers fuel levels before r)) ∧
      ∀ levels before r, Passes levels r (readEntries fuel levels before r) := by
  induction fuel with
  | zero => exact ⟨fun _ _ => trivial, fun _ _ _ => trivial, fun _ _ _ => trivial⟩
  | succ fuel ih =>
    obtain ⟨hvalue, hmembers, hentries⟩ := ih
    refine ⟨fun levels r => ?_, fun levels before r => ?_, fun levels before r => ?_⟩
    · rw [readValue]
      split
      · trivial
      · exact ((passes_readCharacters levels _ _ _ _).map _).mono (suffix_drop r 1)
      · next tail ht => exact passes_container ht rfl _ _ _ ((hmembers _ _ _).map _)
      · next tail ht => exact passes_container ht rfl _ _ _ ((hentries _ _ _).map _)
      · split
        · exact suffix_drop r _
        · exact passes_readNumber levels r
    · rw [readMembers]
      refine (hvalue levels r).bind fun v rest => ?_
      dsimp only
      split
      · exact (suffix_drop _ 1).trans (suffix_skipBlanks rest)
      · exact (Passes.expect _ _ fun rest => (hmembers levels _ _).mono (suffix_skipBlanks rest)).mono
          (suffix_skipBlanks rest)
    · rw [readEntries]
      refine Passes.expect _ _ fun rest => ?_
      refine (passes_readCharacters levels _ _ _ _).bind fun key rest => ?_
      dsimp only
      refine (Passes.expect _ _ fun rest => ?_).mono (suffix_skipBlanks rest)
      refine ((hvalue levels _).bind fun v rest => ?_).mono (suffix_skipBlanks rest)
      dsimp only
      split
      · exact (suffix_drop _ 1).trans (suffix_skipBlanks rest)
      · exact (Passes.expect _ _ fun rest => (hentries levels _ _).mono (suffix_skipBlanks rest)).mono
          (suffix_skipBlanks rest)

/-- A reason not to read a whole text fits the text. -/
theorem fits_of_readWhole {text : List Char} {e : Malformed} (h : readWhole text = .error e) :
    e.Fits deepest text := by
  have hvalue := (passes_readers (2 * text.length + 2)).1 deepest (skipBlanks ⟨0, text⟩)
  unfold readWhole at h
  simp only [bind, Except.bind] at h
  split at h
  · obtain rfl := Except.error.inj h
    trivial
  · cases hread : readValue (2 * text.length + 2) deepest (skipBlanks ⟨0, text⟩) with
    | error e' =>
      rw [hread] at h hvalue
      obtain rfl := Except.error.inj h
      exact Malformed.Fits.mono (suffix_skipBlanks ⟨0, text⟩) hvalue
    | ok p =>
      rw [hread] at h
      dsimp only at h
      split at h
      · exact (nomatch h)
      · obtain rfl := Except.error.inj h
        trivial

/-- A text has a run of a number of digits. -/
def HasRun (s : String) (n : Nat) : Prop :=
  ∃ run, run <:+: s.toList ∧ run.length = n ∧ ∀ c ∈ run, isDigit c = true

/-- A text that is not read is no JSON, or it has a run of too many digits or too many opening brackets. -/
theorem read_error {s : String} {f : Fault} (h : read s = .error f) :
    (∃ text, f = .malformedData text) ∨
      (∃ n, f = .tooManyDigits n ∧ Numeral.maxDigits < n ∧ HasRun s n) ∨
        ∃ container, f = .nestedTooDeep container ∧ deepest < s.toList.countP isOpening := by
  unfold read at h
  split at h
  · exact (nomatch h)
  · exact .inl ⟨_, (Except.error.inj h).symm⟩
  · next n hn =>
    obtain ⟨hlong, hrun⟩ := fits_of_readWhole hn
    exact .inr (.inl ⟨n, (Except.error.inj h).symm, hlong, hrun⟩)
  · next container hc =>
    exact .inr (.inr ⟨container, (Except.error.inj h).symm, fits_of_readWhole hc⟩)

end ResourceAtlas.Json
