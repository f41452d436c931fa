import ResourceAtlas.Proofs.Address.Lexed
import ResourceAtlas.Proofs.Outcome

/-!
# Which addresses break off their reading

A malformed address is reported. Reading one breaks off for a single reason: an identifier, a position or
a count has more digits than integers are read with. Every reader passes over a text from its start, so
that integer stands in the address, perhaps percent-coded.
-/

namespace ResourceAtlas.Address

open Number Text

/-- A part of a text stands for an integer of so many digits. -/
def HasInteger (text : List Char) (n : Nat) : Prop :=
  ∃ part, part <:+: text ∧ Digit.isInteger (Percent.decode part) = true ∧
    (Digit.dropFinalLineFeed (Digit.dropMinus (Percent.decode part))).length = n

/-- A fault of reading a text that holds an integer of too many digits. -/
def Overlong (text : List Char) (f : Fault) : Prop :=
  ∃ n, f = .tooManyDigits n ∧ Numeral.maxDigits < n ∧ HasInteger text n

/-- A fault that a reader of a text stops with: a count that is reported, or an integer of too many
digits. -/
def Stops (text : List Char) (f : Fault) : Prop :=
  (∃ problem, f = .malformedQuery problem) ∨ Overlong text f

/-- What stands in a part of a text stands in the text. -/
theorem Overlong.mono {part text : List Char} (hpart : part <:+: text) {f : Fault}
    (h : Overlong part f) : Overlong text f := by
  obtain ⟨n, hf, hn, inner, hinner, hint⟩ := h
  exact ⟨n, hf, hn, inner, hinner.trans hpart, hint⟩

/-- What stops in a part of a text stops in the text. -/
theorem Stops.mono {part text : List Char} (hpart : part <:+: text) {f : Fault}
    (h : Stops part f) : Stops text f :=
  h.imp_right fun ho => ho.mono hpart

/-- What stops in parts of a text stops in the text. -/
theorem stops_mono {α : Type} {part text : List Char} (hpart : part <:+: text) {x : Outcome α}
    (h : BreaksWith x (Stops part)) : BreaksWith x (Stops text) :=
  fun f hf => (h f hf).mono hpart

/-- The first of the parts between separators starts the text, and the others stand in it. -/
theorem every_infix (sep : Char) (text : List Char) :
    ∃ part parts, Split.every sep text = part :: parts ∧ part <+: text ∧ ∀ p ∈ parts, p <:+: text := by
  induction text with
  | nil => exact ⟨[], [], rfl, List.prefix_rfl, fun p hp => absurd hp List.not_mem_nil⟩
  | cons c rest ih =>
    obtain ⟨part, parts, heq, hfirst, hothers⟩ := ih
    have hrest : rest <:+: c :: rest := (List.suffix_cons c rest).isInfix
    rw [Split.every]
    split
    · refine ⟨[], _, rfl, List.nil_prefix, fun p hp => ?_⟩
      rw [heq] at hp
      rcases List.mem_cons.mp hp with rfl | hp
      · exact hfirst.isInfix.trans hrest
      · exact (hothers p hp).trans hrest
    · rw [heq]
      exact ⟨c :: part, parts, rfl, List.cons_prefix_cons.mpr ⟨rfl, hfirst⟩,
        fun p hp => (hothers p hp).trans hrest⟩

/-- What follows the first separator ends the text. -/
theorem atFirst_suffix {sep : Char} {text before after : List Char}
    (h : Split.atFirst sep text = some (before, after)) : after <:+ text := by
  induction text generalizing before with
  | nil => exact (nomatch h)
  | cons c rest ih =>
    rw [Split.atFirst] at h
    split at h
    · obtain ⟨-, rfl⟩ := Prod.mk.inj (Option.some.inj h)
      exact List.suffix_cons c rest
    · obtain ⟨⟨mid, tail⟩, hmid, heq⟩ := Option.map_eq_some_iff.mp h
      obtain ⟨-, rfl⟩ := Prod.mk.inj heq
      exact (ih hmid).trans (List.suffix_cons c rest)

/-- An integer that a part of a text stands for is read unless it has too many digits. -/
theorem readInteger_breaks {part text : List Char} (hpart : part <:+: text)
    (hint : Digit.isInteger (Percent.decode part) = true) :
    BreaksWith (readInteger (Percent.decode part)) (Overlong text) := by
  intro f hf
  unfold readInteger Numeral.integerValue at hf
  dsimp only at hf
  split at hf
  · exact (nomatch hf)
  · next refusal hrefusal =>
    split at hrefusal
    · next hlong =>
      obtain rfl := Except.error.inj hrefusal
      exact ⟨_, (Except.error.inj hf).symm, hlong, part, hpart, hint, rfl⟩
    · exact (nomatch hrefusal)

/-- A count is read or reported unless it has too many digits. -/
theorem readCount_stops (name : String) (part : List Char) :
    BreaksWith (readCount name (Percent.decode part)) (Stops part) := by
  unfold readCount
  split
  · next hint =>
    refine BreaksWith.bind (fun f hf => .inr (readInteger_breaks List.infix_rfl hint f hf)) fun n => ?_
    split
    · exact .error (.inl ⟨_, rfl⟩)
    · exact .ok _
  · exact .error (.inl ⟨_, rfl⟩)

/-- What a key and a value ask is read unless the value is a count that stops the reader. -/
theorem Request.add_stops (r : Request) (key part : List Char) :
    BreaksWith (r.add key (Percent.decode part)) (Stops part) := by
  unfold Request.add
  split
  · exact .ok _
  · split
    · exact (readCount_stops "limit" part).bind fun n => .ok _
    · split
      · exact (readCount_stops "offset" part).bind fun n => .ok _
      · split
        · exact .ok _
        · exact .ok _

/-- Parts of a query text stop where a count in one of them does. -/
theorem Request.addParts_stops {text : List Char} {parts : List (List Char)}
    (hparts : ∀ part ∈ parts, part <:+: text) (r : Request) :
    BreaksWith (r.addParts parts) (Stops text) := by
  induction parts generalizing r with
  | nil => exact .ok r
  | cons part rest ih =>
    refine BreaksWith.bind ?_ (ih fun p hp => hparts p (List.mem_cons_of_mem part hp))
    have hpart := hparts part List.mem_cons_self
    unfold Request.addPart
    split
    · exact .ok r
    · next key value hvalue =>
      exact stops_mono ((atFirst_suffix hvalue).isInfix.trans hpart) (r.add_stops _ value)

/-- A query text is read or reported unless a count in it has too many digits. -/
theorem readRequest_stops (text : List Char) : BreaksWith (readRequest text) (Stops text) := by
  obtain ⟨part, parts, heq, hfirst, hothers⟩ := every_infix '&' text
  refine Request.addParts_stops (fun p hp => ?_) .empty
  rw [heq] at hp
  rcases List.mem_cons.mp hp with rfl | hp
  · exact hfirst.isInfix
  · exact hothers p hp

/-- Passing over characters leaves the end of the text. -/
theorem drop_suffix (r : Remainder) (count : Nat) : (r.drop count).text <:+ r.text :=
  List.drop_suffix count r.text

/-- A bracket is read unless the position in it has too many digits. -/
theorem readBracket_stops (r : Remainder) : BreaksWith (readBracket r) (Stops r.text) := by
  unfold readBracket
  split
  · exact .ok _
  · next opening hopening =>
    dsimp only
    split
    · exact .ok _
    · next before after hclose =>
      split
      · next hint =>
        have hinner : (r.drop opening).text.take before.length <:+: r.text :=
          (List.take_prefix _ _).isInfix.trans (drop_suffix r opening).isInfix
        exact BreaksWith.bind (fun f hf => .inr (readInteger_breaks hinner hint f hf)) fun n => .ok _
      · exact .ok _

/-- What a bracket leaves ends the text. -/
theorem suffix_of_readBracket {r : Remainder} {b : Bracket} (h : readBracket r = .ok b) :
    b.rest.text <:+ r.text := by
  cases readBracket_eq_ok.mp h with
  | none => exact List.suffix_rfl
  | opened => exact drop_suffix r _
  | position => exact drop_suffix r _
  | named => exact drop_suffix r _

/-- A query is read or reported unless a count in it has too many digits. -/
theorem readQuery_stops (r : Remainder) : BreaksWith (readQuery r) (Stops r.text) := by
  unfold readQuery
  split
  · exact .ok _
  · next mark hmark =>
    have hquery : (r.text.drop mark).takeWhile (· != '/') <:+: r.text :=
      (List.takeWhile_prefix _).isInfix.trans (List.drop_suffix mark r.text).isInfix
    exact (stops_mono hquery (readRequest_stops _)).map _

/-- What a query leaves ends the text. -/
theorem suffix_of_readQuery {r rest : Remainder} {request : Option Request}
    (h : readQuery r = .ok (request, rest)) : rest.text <:+ r.text := by
  unfold readQuery at h
  split at h
  · obtain ⟨-, rfl⟩ := Prod.mk.inj (Except.ok.inj h)
    exact List.suffix_rfl
  · obtain ⟨q, -, heq⟩ := map_eq_ok.mp h
    obtain ⟨-, rfl⟩ := Prod.mk.inj heq
    exact drop_suffix r _

/-- A segment stops where its bracket or its query does. -/
theorem readSegment_stops (head : List Char) (r : Remainder) :
    BreaksWith (readSegment head r) (Stops r.text) := by
  unfold readSegment
  cases hb : readBracket r with
  | error f => exact .error (readBracket_stops r f hb)
  | ok b =>
    have hquery := stops_mono (suffix_of_readBracket hb).isInfix (readQuery_stops b.rest)
    exact hquery.bind fun found => .ok _

/-- What a segment leaves ends the text. -/
theorem suffix_of_readSegment {head : List Char} {r rest : Remainder} {s : Segment}
    (h : readSegment head r = .ok (s, rest)) : rest.text <:+ r.text := by
  obtain ⟨b, request, hb, hq, -⟩ := readSegment_eq_ok.mp h
  exact (suffix_of_readQuery hq).trans (suffix_of_readBracket hb)

/-- The next segment stops where an identifier, a position or a count does. -/
theorem readNext_stops (before : List Segment) (r : Remainder) :
    BreaksWith (readNext before r) (Stops r.text) := by
  unfold readNext
  dsimp only
  split
  · next last others hfold =>
    split at hfold
    · next hint =>
      have hhead := (List.take_prefix (headLength r.text) r.text).isInfix
      exact BreaksWith.bind (fun f hf => .inr (readInteger_breaks hhead hint f hf)) fun n => .ok _
    · exact (nomatch hfold)
  · have hsegment := readSegment_stops (Percent.decode (r.text.take (headLength r.text)))
      (r.drop (headLength r.text))
    exact (stops_mono (drop_suffix r _).isInfix hsegment).bind fun found => .ok _

/-- What the next segment leaves ends the text. -/
theorem suffix_of_readNext {before found : List Segment} {r rest : Remainder}
    (h : readNext before r = .ok (found, rest)) : rest.text <:+ r.text := by
  cases readNext_eq_ok.mp h with
  | identifier => exact drop_suffix r _
  | segment _ hs => exact (suffix_of_readSegment hs).trans (drop_suffix r _)

/-- A run of the lexer stops where one of its steps does. -/
theorem readSegments_stops (before : List Segment) (r : Remainder) :
    BreaksWith (readSegments before r) (Stops r.text) := by
  induction before, r using readSegments.induct with
  | case1 before r hr =>
    rw [readSegments_nil before hr]
    exact .ok _
  | case2 before r tail hr ih =>
    rw [readSegments_drop hr]
    exact stops_mono (drop_suffix r 1).isInfix ih
  | case3 before r c tail hr hc f hn =>
    rw [readSegments_next hr hc, hn]
    exact .error (readNext_stops before r f hn)
  | case4 before r c tail hr hc next rest hn ih =>
    rw [readSegments_next hr hc, hn]
    exact stops_mono (suffix_of_readNext hn).isInfix ih

/-- What follows a word ends the text. -/
theorem atWord_suffix {word text before after : List Char}
    (h : Split.atWord word text = some (before, after)) : after <:+ text := by
  rw [Split.eq_of_atWord h]
  exact List.suffix_append _ after

/-- **Addresses are read or reported.** Reading an address breaks off only where an integer in it has too
many digits. -/
theorem read_breaks (uri : String) : BreaksWith (read uri) (Overlong uri.toList) := by
  unfold read
  split
  · exact .ok _
  · exact .ok _
  · next scheme path hne hat =>
    intro f hf
    split at hf
    · exact (nomatch hf)
    · exact (nomatch hf)
    · next fault hreported hfault =>
      obtain rfl := Except.error.inj hf
      rcases readSegments_stops [] (.ofText path) _ hfault with ⟨problem, rfl⟩ | hoverlong
      · exact absurd rfl (hreported problem)
      · exact hoverlong.mono (atWord_suffix hat).isInfix

end ResourceAtlas.Address
