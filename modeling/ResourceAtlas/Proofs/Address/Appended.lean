import ResourceAtlas.Proofs.Address.Behind
import ResourceAtlas.Proofs.Address.Named

/-!
# Texts behind an address

What is put behind an address after a slash is read behind its segments. A text that is put there as it is
must not have a mark at which a head may end; a slash at its end makes no difference.
-/

namespace ResourceAtlas.Address

open Number Text

variable {uri x : String} {l : Location} {before all : List Segment} {text more rest : List Char}

/-- A text in which no mark stands at which a head may end. -/
def Unmarked (text : List Char) : Prop :=
  ∀ c ∈ text, c ∉ headMarks

/-- Nothing, or a slash at the end. -/
def AtEnd (rest : List Char) : Prop :=
  rest = [] ∨ rest = ['/']

/-- The end, and a slash before it, end a segment. -/
theorem AtEnd.endsSegment (h : AtEnd rest) : EndsSegment rest :=
  h.imp_right fun hslash => ⟨[], hslash⟩

/-- At the end the segments are those that were read. -/
theorem readSegments_atEnd {r : Remainder} (h : AtEnd r.text) (before : List Segment) :
    readSegments before r = .ok before.reverse := by
  rcases h with hnil | hslash
  · exact readSegments_nil before hnil
  · rw [readSegments_drop hslash]
    refine readSegments_nil before ?_
    rw [Remainder.text_drop, hslash]
    rfl

/-- An unmarked text is read behind segments as a text is that is written there. -/
theorem readSegments_unmarked (hx : Unmarked x.toList) (hrest : AtEnd rest) (before : List Segment) :
    readSegments before (.ofText (x.toList ++ rest)) = (Piece.text x).readBehind before.reverse := by
  rw [Piece.readBehind, List.reverse_reverse]
  by_cases hempty : x = ""
  · subst hempty
    rw [if_pos rfl]
    exact readSegments_atEnd hrest before
  · obtain ⟨c, tail, hcons⟩ :=
      List.exists_cons_of_ne_nil fun hnil => hempty (String.toList_eq_nil_iff.mp hnil)
    have hslash : c ≠ '/' := fun heq =>
      hx c (hcons ▸ List.mem_cons_self) (heq ▸ List.mem_cons_self)
    have htext : (Remainder.ofText (x.toList ++ rest)).text = c :: (tail ++ rest) := by
      rw [text_ofText, hcons, List.cons_append]
    have hdecode : Percent.decode x.toList = x.toList :=
      Percent.decode_eq_self fun hmem => hx '%' hmem (by decide)
    -- The upper form of what is left may be longer, but no bracket opens there.
    obtain ⟨after, hafter⟩ : ∃ after, (Remainder.ofText (x.toList ++ rest)).drop x.toList.length =
      after := ⟨_, rfl⟩
    have hleft : after.text = rest := by
      rw [← hafter, Remainder.text_drop, text_ofText, List.drop_left]
    have hend : AtEnd after.text := hleft ▸ hrest
    have hlength := headLength_of_unmarked hx hrest.endsSegment.stopsHead
    rw [if_neg hempty, readSegments_next htext hslash, readNext_of_head hlength hafter, hdecode,
      readSegment_of_ends _ hend.endsSegment, String.ofList_toList]
    cases (if Digit.isInteger x.toList = true then unqualified? before else none) with
    | some last =>
      cases readInteger x.toList with
      | error f => rfl
      | ok n =>
        dsimp only [Except.map, Except.bind]
        rw [readSegments_atEnd hend, List.reverse_cons]
    | none =>
      dsimp only [Except.map, Except.bind]
      rw [readSegments_atEnd hend, List.reverse_cons]

/-- A text that becomes no identifier is a segment of its own behind segments. -/
theorem readBehind_text {found : List Segment} (hne : x ≠ "")
    (hint : isBare found.reverse = true → Digit.isInteger x.toList = false) :
    (Piece.text x).readBehind found = .ok (found ++ [⟨x, none⟩]) := by
  rw [Piece.readBehind, if_neg hne, folded_eq_none hint]

/-- A written integer is the identifier of a bare segment before it. -/
theorem readBehind_integer (before : List Segment) (head : String) {n : Int}
    (hn : Numeral.intText? n = some x.toList) :
    (Piece.text x).readBehind (before ++ [⟨head, none⟩]) = .ok (before ++ [⟨head, some (.id n)⟩]) := by
  have hne : x ≠ "" := fun hempty => Numeral.intText_ne_nil hn (String.toList_eq_nil_iff.mpr hempty)
  rw [Piece.readBehind, if_neg hne, if_pos (Numeral.isInteger_intText hn), List.reverse_concat]
  dsimp only [unqualified?]
  rw [readInteger_intText hn, List.reverse_reverse]
  rfl

/-- A written integer is unmarked. -/
theorem unmarked_intText {n : Int} (hn : Numeral.intText? n = some text) : Unmarked text := by
  have hreserved : ∀ c ∈ headMarks, Percent.isUnreserved c = false := forall_mem_of_all (by decide)
  intro c hc hmark
  have hclear := Numeral.isUnreserved_of_mem_intText hn hc
  rw [hreserved c hmark] at hclear
  exact Bool.false_ne_true hclear

/-- No bracket closes in a text without closing brackets and percent signs. -/
theorem unclosed_of_not_mem (hclose : ']' ∉ text) (hcoded : '%' ∉ text) : Unclosed text := by
  intro opening
  rcases closingFor_cases opening with hclosing | hclosing <;> rw [hclosing]
  · exact Split.atWord_eq_none (Case.not_mem_upper (by decide) hclose)
  · exact Split.atWord_eq_none (Case.not_mem_upper (by decide) hcoded)

/-- No bracket closes in a text that is put behind an address as it is, if none closes in the text. -/
theorem unclosed_unmarked (hx : Unmarked text) (hclose : ']' ∉ text) (hrest : AtEnd rest) :
    Unclosed ('/' :: (text ++ rest)) := by
  have hnot : ∀ c, c ≠ '/' → c ∉ text → c ∉ '/' :: (text ++ rest) := by
    intro c hc htext hmem
    rcases List.mem_cons.mp hmem with heq | hmem
    · exact hc heq
    · rcases List.mem_append.mp hmem with hmem | hmem
      · exact htext hmem
      · rcases hrest with rfl | rfl
        · exact absurd hmem List.not_mem_nil
        · exact hc (List.mem_singleton.mp hmem)
  exact unclosed_of_not_mem (hnot ']' (by decide) hclose)
    (hnot '%' (by decide) fun hmem => hx '%' hmem (by decide))

/-- No bracket closes in a coded text behind an address, if none closes in the text. -/
theorem unclosed_encode (hclose : ']' ∉ text) : Unclosed ('/' :: Percent.encode text) := by
  intro opening
  rcases closingFor_cases opening with hclosing | hclosing <;> rw [hclosing]
  · refine Split.atWord_eq_none (Case.not_mem_upper (by decide) fun hmem => ?_)
    rcases List.mem_cons.mp hmem with heq | hmem
    · exact absurd heq (by decide)
    · exact Percent.not_mem_encode (by decide) (by decide) text hmem
  · have hslash := @Split.atWord_skip '%' "5D".toList ['/'] (by decide)
      (Case.upper (Percent.encode text))
    have hnone := atWord_encode hclose []
    rw [List.append_nil] at hnone
    rw [← List.singleton_append, upper_append, show Case.upper ['/'] = ['/'] from rfl]
    refine hslash.trans ?_
    rw [show '%' :: "5D".toList = "%5D".toList from rfl, hnone]
    rfl

/-- No bracket opens in a text with more behind it; or the text is level, and what is behind closes no bracket
that was taken into a head. -/
def JoinsAt (text more : List Char) (found : List Segment) : Prop :=
  Unopened (text ++ more) ∨
    Level text ∧ ((∀ s ∈ found, '[' ∉ s.head.toList) ∨ Unjoined more text)

/-- An address is read with more behind it as its segments and, behind those, as more is read. -/
theorem read_onto (hread : Address.read uri = .ok (.ok l)) (hmore : EndsSegment more)
    (hjoins : ∀ path, uri.toList = l.scheme.toList ++ schemeMark ++ path → JoinsAt path more l.segments)
    (hall : readSegments l.segments.reverse (.ofText more) = .ok all) :
    Address.read (String.ofList (uri.toList ++ more)) = .ok (.ok ⟨l.scheme, all⟩) := by
  obtain ⟨hscheme, path, huri, hpath⟩ := path_of_read hread
  rw [huri, List.append_assoc]
  refine read_of_segments hscheme ?_
  rcases hjoins path huri with hno | ⟨hlevel, hopen⟩
  · exact readSegments_onto (.inr hno) hmore hpath (.inr (.inr hno.eachCloses)) hall
  · exact readSegments_onto (.inl hlevel) hmore hpath hopen hall

end ResourceAtlas.Address
