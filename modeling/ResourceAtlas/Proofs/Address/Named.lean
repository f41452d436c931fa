import ResourceAtlas.Proofs.Address.Ahead
import ResourceAtlas.Proofs.Address.Bracketed

/-!
# Coded names behind an address

The lexer looks for brackets and question marks before it decodes, in the coded form as well. So a coded
name is read as one head only if no query starts in it, and if all its brackets are taken into the head:
one that is left open up to the end, or one around something other than an integer that closes at the end.
-/

namespace ResourceAtlas.Address

open Number Text

variable {front inside stop rest text : List Char} {head : String} {before : List Segment}

/-- A text in which no bracket opens and no query starts. -/
def Undivided (text : List Char) : Prop :=
  '[' ∉ text ∧ '?' ∉ text

/-- A name that becomes one head behind a bare segment. -/
inductive WholeName : List Char → Prop
  /-- No bracket opens in it, no query starts, and it is no integer. -/
  | plain {text : List Char} (htext : Undivided text) (hint : Digit.isInteger text = false) :
      WholeName text
  /-- One bracket opens in it and stays open. -/
  | opened {front inside : List Char} (hfront : Undivided front)
      (hint : Digit.isInteger front = false) (hinside : Undivided inside) (hclose : ']' ∉ inside) :
      WholeName (front ++ '[' :: inside)
  /-- A bracket around something other than an integer closes at its end. -/
  | closed {front inside : List Char} (hfront : Undivided front)
      (hint : Digit.isInteger front = false) (hclose : ']' ∉ inside)
      (hinside : Digit.isInteger inside = false) :
      WholeName (front ++ '[' :: (inside ++ [']']))

/-- A name that becomes one head behind segments, as a whole name does behind a bare one. -/
inductive WholeBehind (before : List Segment) : List Char → Prop
  /-- No bracket opens in it, no query starts, and it becomes no identifier. -/
  | plain {text : List Char} (htext : Undivided text)
      (hint : isBare before = true → Digit.isInteger text = false) : WholeBehind before text
  /-- One bracket opens in it and stays open. -/
  | opened {front inside : List Char} (hfront : Undivided front)
      (hint : isBare before = true → Digit.isInteger front = false) (hinside : Undivided inside)
      (hclose : ']' ∉ inside) : WholeBehind before (front ++ '[' :: inside)
  /-- A bracket around something other than an integer closes at its end. -/
  | closed {front inside : List Char} (hfront : Undivided front)
      (hint : isBare before = true → Digit.isInteger front = false) (hclose : ']' ∉ inside)
      (hinside : Digit.isInteger inside = false) :
      WholeBehind before (front ++ '[' :: (inside ++ [']']))

/-- A whole name becomes one head behind any segments. -/
theorem WholeName.behind (h : WholeName text) (before : List Segment) : WholeBehind before text := by
  cases h with
  | plain htext hint => exact .plain htext fun _ => hint
  | opened hfront hint hinside hclose => exact .opened hfront (fun _ => hint) hinside hclose
  | closed hfront hint hclose hinside => exact .closed hfront (fun _ => hint) hclose hinside

/-- A text without characters, or one that starts where a bracket opens or a query starts. -/
inductive AtMark : List Char → Prop
  /-- There are no characters. -/
  | nil : AtMark []
  /-- A bracket opens. -/
  | opening (rest : List Char) : AtMark ('[' :: rest)
  /-- A query starts. -/
  | question (rest : List Char) : AtMark ('?' :: rest)

/-- A text is what stands before the first mark in it, and what follows. -/
theorem exists_undivided (text : List Char) :
    ∃ front stop, text = front ++ stop ∧ Undivided front ∧ AtMark stop := by
  induction text with
  | nil => exact ⟨[], [], rfl, ⟨List.not_mem_nil, List.not_mem_nil⟩, .nil⟩
  | cons c text ih =>
    by_cases hopen : c = '['
    · exact ⟨[], c :: text, rfl, ⟨List.not_mem_nil, List.not_mem_nil⟩, hopen ▸ .opening text⟩
    by_cases hask : c = '?'
    · exact ⟨[], c :: text, rfl, ⟨List.not_mem_nil, List.not_mem_nil⟩, hask ▸ .question text⟩
    obtain ⟨front, stop, rfl, hfront, hstop⟩ := ih
    exact ⟨c :: front, stop, rfl, ⟨List.not_mem_cons_of_ne_of_not_mem (Ne.symm hopen) hfront.1,
      List.not_mem_cons_of_ne_of_not_mem (Ne.symm hask) hfront.2⟩, hstop⟩

/-- What stands at a mark ends a head, in its coded form. -/
theorem AtMark.stopsHead (h : AtMark stop) : StopsHead (Percent.encode stop) := by
  cases h with
  | nil => exact .inl rfl
  | opening => exact .inr rfl
  | question => exact .inr rfl

/-- Two texts are coded one after the other. -/
theorem encode_append (s t : List Char) :
    Percent.encode (s ++ t) = Percent.encode s ++ Percent.encode t :=
  List.flatMap_append

/-- A coded text is passed over. -/
theorem drop_ofText_encode (text rest : List Char) :
    (Remainder.ofText (Percent.encode (text ++ rest))).drop (Percent.encode text).length =
      .ofText (Percent.encode rest) := by
  rw [encode_append]
  exact drop_ofText (isAscii_encode text) (Percent.encode rest)

/-- An octet in hexadecimal digits is its own upper form. -/
theorem upper_encodeOctet (b : UInt8) :
    Case.upper (Percent.encodeOctet b) = Percent.encodeOctet b := by
  have hdigit : ∀ n < 16, Case.upperChar (Percent.hexDigit n) = [Percent.hexDigit n] := by decide
  have hb : b.toNat < 256 := b.toNat_lt
  rw [Percent.encodeOctet, Case.upper, List.flatMap_cons, List.flatMap_cons, List.flatMap_singleton,
    hdigit _ (by omega), hdigit _ (by omega)]
  rfl

/-- What closes a coded bracket is not found in an octet other than its own. -/
theorem atWord_encodeOctet {b : UInt8} (h : b.toNat ≠ 0x5D) (text : List Char) :
    Split.atWord "%5D".toList (Percent.encodeOctet b ++ text) =
      (Split.atWord "%5D".toList text).map fun parts =>
        (Percent.encodeOctet b ++ parts.1, parts.2) := by
  have hb : b.toNat < 256 := b.toNat_lt
  have hhigh := Percent.isUnreserved_hexDigit (n := b.toNat / 16) (by omega)
  have hlow := Percent.isUnreserved_hexDigit (n := b.toNat % 16) (by omega)
  have hno : ¬ "%5D".toList.isPrefixOf (Percent.encodeOctet b ++ text) = true := by
    intro hprefix
    obtain ⟨tail, htail⟩ := List.isPrefixOf_iff_prefix.mp hprefix
    obtain ⟨hfirst, hsecond, -⟩ : '5' = Percent.hexDigit (b.toNat / 16) ∧
        'D' = Percent.hexDigit (b.toNat % 16) ∧ tail = text := by
      simpa [Percent.encodeOctet] using htail
    have h1 := hexDigit_value (v := 5) (by omega) hfirst.symm rfl
    have h2 := hexDigit_value (v := 13) (by omega) hsecond.symm rfl
    omega
  have hskip := @Split.atWord_skip '%' "5D".toList
    [Percent.hexDigit (b.toNat / 16), Percent.hexDigit (b.toNat % 16)] (by
      intro hmem
      simp only [List.mem_cons, List.not_mem_nil, or_false] at hmem
      rcases hmem with hmem | hmem
      · exact Percent.ne_percent_of_isUnreserved hhigh hmem.symm
      · exact Percent.ne_percent_of_isUnreserved hlow hmem.symm) text
  rw [Percent.encodeOctet, List.cons_append] at hno ⊢
  rw [Split.atWord, if_neg hno, show "%5D".toList = '%' :: "5D".toList from rfl, hskip, Option.map_map]
  rfl

/-- What closes a coded bracket is not found in the coded form of another character. -/
theorem atWord_encodeChar {c : Char} (h : c ≠ ']') (text : List Char) :
    Split.atWord "%5D".toList (Case.upper (Percent.encodeChar c) ++ text) =
      (Split.atWord "%5D".toList text).map fun parts =>
        (Case.upper (Percent.encodeChar c) ++ parts.1, parts.2) := by
  unfold Percent.encodeChar
  split
  · next hc =>
    refine Split.atWord_skip (Case.not_mem_upper (by decide) fun hmem => ?_) text
    exact Percent.ne_percent_of_isUnreserved hc (List.mem_singleton.mp hmem).symm
  · have hoctet : ∀ b ∈ Utf8.encodeChar c, b.toNat ≠ 0x5D := by
      intro b hb heq
      have hc := Utf8.encodeChar_of_mem_ascii hb (by omega)
      exact h (Char.toNat_inj.mp (hc.symm.trans heq))
    revert hoctet
    generalize Utf8.encodeChar c = octets
    intro hoctet
    induction octets with
    | nil =>
      rw [List.flatMap_nil, show Case.upper [] = [] from rfl, List.nil_append]
      cases Split.atWord "%5D".toList text <;> rfl
    | cons b octets ih =>
      rw [List.flatMap_cons, upper_append, upper_encodeOctet, List.append_assoc,
        atWord_encodeOctet (hoctet b List.mem_cons_self),
        ih fun d hd => hoctet d (List.mem_cons_of_mem b hd), Option.map_map]
      rfl

/-- What closes a coded bracket is found in the coded form of a text where a bracket closes in that. -/
theorem atWord_encode (h : ']' ∉ inside) (text : List Char) :
    Split.atWord "%5D".toList (Case.upper (Percent.encode inside) ++ text) =
      (Split.atWord "%5D".toList text).map fun parts =>
        (Case.upper (Percent.encode inside) ++ parts.1, parts.2) := by
  induction inside with
  | nil =>
    rw [show Case.upper (Percent.encode []) = [] from rfl, List.nil_append]
    cases Split.atWord "%5D".toList text <;> rfl
  | cons c inside ih =>
    rw [List.mem_cons, not_or] at h
    have hcode : Percent.encode (c :: inside) = Percent.encodeChar c ++ Percent.encode inside :=
      List.flatMap_cons
    rw [hcode, upper_append, List.append_assoc, atWord_encodeChar (Ne.symm h.1), ih h.2, Option.map_map]
    congr 1
    funext parts
    rw [Function.comp_apply, List.append_assoc]

/-- A coded bracket opens before what is inside. -/
theorem opening_encode (text : List Char) :
    openingLength? (Remainder.ofText (Percent.encode ('[' :: text))).text = some 3 ∧
      (Remainder.ofText (Percent.encode ('[' :: text))).drop 3 = .ofText (Percent.encode text) :=
  ⟨rfl, drop_ofText_encode ['['] text⟩

/-- A coded bracket that does not close belongs to the head, with what follows up to the next mark. -/
theorem readBracket_unclosed (hinside : Undivided inside) (hclose : ']' ∉ inside ++ stop)
    (hstop : StopsHead (Percent.encode stop)) :
    readBracket (.ofText (Percent.encode ('[' :: (inside ++ stop)))) =
      .ok ⟨'[' :: inside, none, .ofText (Percent.encode stop)⟩ := by
  have hat : Split.atWord (closingFor 3)
      (Remainder.ofText (Percent.encode (inside ++ stop))).upper = none := by
    have hnone := atWord_encode hclose []
    rw [List.append_nil] at hnone
    exact hnone
  have hlength : headLength (Percent.encode (inside ++ stop)) = (Percent.encode inside).length := by
    rw [encode_append]
    exact headLength_encode hinside.1 hinside.2 hstop
  have hcount : 3 + (Percent.encode inside).length = (Percent.encode ('[' :: inside)).length := by
    rw [show Percent.encode ('[' :: inside) = "%5B".toList ++ Percent.encode inside from rfl,
      List.length_append]
    rfl
  obtain ⟨hopening, hdrop⟩ := opening_encode (inside ++ stop)
  rw [readBracket_eq_ok.mpr (.opened hopening (hdrop ▸ hat)), hdrop, text_ofText, text_ofText, hlength,
    hcount, ← List.cons_append, drop_ofText_encode, encode_append, List.take_left,
    Percent.decode_encode]

/-- A coded bracket that closes holds a position, or belongs to the head. -/
theorem readBracket_closed (hclose : ']' ∉ inside) (rest : List Char) :
    readBracket (.ofText (Percent.encode ('[' :: (inside ++ ']' :: rest)))) =
      if Digit.isInteger inside then
        (readInteger inside).map fun n => ⟨[], some n, .ofText (Percent.encode rest)⟩
      else .ok ⟨'[' :: inside ++ [']'], none, .ofText (Percent.encode rest)⟩ := by
  have hat : Split.atWord (closingFor 3)
      (Remainder.ofText (Percent.encode (inside ++ ']' :: rest))).upper =
        some (Case.upper (Percent.encode inside), Case.upper (Percent.encode rest)) := by
    have hfound := Split.atWord_prefix '%' "5D".toList (Case.upper (Percent.encode rest))
    rw [Remainder.ofText, encode_append, upper_append, show closingFor 3 = "%5D".toList from rfl,
      atWord_encode hclose, show Case.upper (Percent.encode (']' :: rest)) =
        '%' :: "5D".toList ++ Case.upper (Percent.encode rest) from rfl,
      show "%5D".toList = '%' :: "5D".toList from rfl, hfound, Option.map_some, List.append_nil]
  have hupper : (Case.upper (Percent.encode inside)).length = (Percent.encode inside).length :=
    upper_length (isAscii_encode inside)
  have hinner : Percent.decode ((Percent.encode (inside ++ ']' :: rest)).take
      (Percent.encode inside).length) = inside := by
    rw [encode_append, List.take_left, Percent.decode_encode]
  have hcount : 3 + (Percent.encode inside).length + (closingFor 3).length =
      (Percent.encode ('[' :: (inside ++ [']']))).length := by
    rw [show Percent.encode ('[' :: (inside ++ [']'])) =
      "%5B".toList ++ Percent.encode (inside ++ [']']) from rfl, encode_append, List.length_append,
      List.length_append, ← Nat.add_assoc]
    rfl
  have hrest : (Remainder.ofText (Percent.encode ('[' :: (inside ++ ']' :: rest)))).drop
      (3 + (Percent.encode inside).length + (closingFor 3).length) = .ofText (Percent.encode rest) := by
    rw [hcount, ← drop_ofText_encode ('[' :: (inside ++ [']'])) rest, List.cons_append,
      List.append_assoc, List.singleton_append]
  obtain ⟨hopening, hdrop⟩ := opening_encode (inside ++ ']' :: rest)
  unfold readBracket
  rw [hopening]
  dsimp only
  rw [hdrop, hat]
  dsimp only
  rw [hupper, text_ofText, hinner, hrest]
  split
  · cases readInteger inside <;> rfl
  · rfl

/-- A head with a bracket that gives no position ends where no query follows. -/
theorem readSegment_of_bracket {r : Remainder} {more : List Char}
    (hb : readBracket r = .ok ⟨more, none, .ofText rest⟩) (hrest : questionLength? rest = none)
    (head : List Char) :
    readSegment head r = .ok (⟨String.ofList (head ++ more), none⟩, .ofText rest) := by
  have hq : readQuery (.ofText rest) = .ok (none, .ofText rest) := by
    unfold readQuery
    rw [text_ofText, hrest]
  unfold readSegment
  rw [hb]
  simp only [bind, Except.bind]
  rw [hq]
  rfl

/-- What stands before the first mark of a coded name is read as a head, unless it is an integer that
follows a bare segment. -/
theorem readNext_front (hfront : Undivided front) (hstop : StopsHead (Percent.encode stop))
    (before : List Segment) :
    readNext before (.ofText (Percent.encode (front ++ stop))) =
      match if Digit.isInteger front then unqualified? before else none with
      | some (last, others) => (readInteger front).map fun n =>
          (⟨last, some (.id n)⟩ :: others, Remainder.ofText (Percent.encode stop))
      | none => (readSegment front (.ofText (Percent.encode stop))).map fun found =>
          (found.1 :: before, found.2) := by
  have hnext := @readNext_encode (String.ofList front)
    (by rw [String.toList_ofList]; exact hfront.1) (by rw [String.toList_ofList]; exact hfront.2)
    _ hstop before
  rw [String.toList_ofList, ← encode_append] at hnext
  exact hnext

/-- A name that becomes one head behind segments is read as one there. -/
theorem WholeBehind.readNext_eq (h : WholeBehind before text) :
    readNext before (.ofText (Percent.encode text)) =
      .ok (⟨String.ofList text, none⟩ :: before, .ofText []) := by
  have hnext : ∀ {front stop more : List Char}, Undivided front →
      (isBare before = true → Digit.isInteger front = false) → StopsHead (Percent.encode stop) →
      readBracket (.ofText (Percent.encode stop)) = .ok ⟨more, none, .ofText []⟩ →
      readNext before (.ofText (Percent.encode (front ++ stop))) =
        .ok (⟨String.ofList (front ++ more), none⟩ :: before, .ofText []) := by
    intro front stop more hfront hint hstop hbracket
    rw [readNext_front hfront hstop, folded_eq_none hint, readSegment_of_bracket hbracket rfl]
    rfl
  cases h with
  | plain htext hint =>
    have hplain := @hnext text [] [] htext hint (.inl rfl) rfl
    rwa [List.append_nil] at hplain
  | @opened front inside hfront hint hinside hclose =>
    have hbracket := @readBracket_unclosed inside [] hinside
      (by rw [List.append_nil]; exact hclose) (.inl rfl)
    rw [List.append_nil] at hbracket
    exact hnext hfront hint (.inr rfl) hbracket
  | @closed front inside hfront hint hclose hinside =>
    have hbracket := readBracket_closed hclose []
    rw [hinside, if_neg Bool.false_ne_true] at hbracket
    exact hnext hfront hint (.inr rfl) hbracket

/-- A name that is not whole is read as a shorter head first. -/
theorem head_ne_of_readSegment (hfront : Undivided front) (hint : Digit.isInteger front = false)
    (hno : ¬ WholeName (front ++ stop)) (hstop : AtMark stop) {found : Segment × Remainder}
    (h : readSegment front (.ofText (Percent.encode stop)) = .ok found) :
    found.1.head.toList ≠ front ++ stop := by
  have hhead : ∀ {bracket : Bracket}, readBracket (.ofText (Percent.encode stop)) = .ok bracket →
      bracket.more ≠ stop → found.1.head.toList ≠ front ++ stop := by
    intro bracket hbracket hne
    rw [head_of_readSegment hbracket h, String.toList_ofList]
    exact fun heq => hne (List.append_cancel_left heq)
  cases hstop with
  | nil =>
    rw [List.append_nil] at hno
    exact absurd (.plain hfront hint) hno
  | question query => exact @hhead ⟨[], none, _⟩ rfl (List.cons_ne_nil _ _).symm
  | opening inside =>
    by_cases hclose : ']' ∈ inside
    · obtain ⟨inner, rest, rfl, hinner⟩ := List.eq_append_cons_of_mem hclose
      have hbracket := readBracket_closed hinner rest
      split at hbracket
      · obtain ⟨bracket, hok, -⟩ := bind_eq_ok.mp h
        obtain ⟨n, -, rfl⟩ := map_eq_ok.mp (hbracket.symm.trans hok)
        exact hhead hok (List.cons_ne_nil _ _).symm
      · next hinteger =>
        refine hhead hbracket fun heq => ?_
        have hrest : rest = [] := by simpa using heq
        subst hrest
        exact hno (.closed hfront hint hinner (Bool.eq_false_iff.mpr hinteger))
    · obtain ⟨inner, stop, rfl, hinner, hstop⟩ := exists_undivided inside
      refine hhead (readBracket_unclosed hinner hclose hstop.stopsHead) fun heq => ?_
      have hrest : stop = [] := by simpa using heq
      subst hrest
      rw [List.append_nil] at hno hclose
      exact hno (.opened hfront hint hinner hclose)

/-- A name that becomes one head behind segments is a segment of its own there. -/
theorem WholeBehind.readSegments_eq (h : WholeBehind before text) (hne : text ≠ []) :
    readSegments before (.ofText ('/' :: Percent.encode text)) =
      .ok (before.reverse ++ [⟨String.ofList text, none⟩]) := by
  obtain ⟨c, tail, htext, hc⟩ := encode_cons hne []
  rw [List.append_nil] at htext
  rw [readSegments_slash, readSegments_next htext hc, h.readNext_eq]
  refine (readSegments_nil _ rfl).trans ?_
  rw [List.reverse_cons]

/-- A whole name is a segment of its own behind any segments. -/
theorem WholeName.readSegments_eq (h : WholeName text) (hne : text ≠ []) (before : List Segment) :
    readSegments before (.ofText ('/' :: Percent.encode text)) =
      .ok (before.reverse ++ [⟨String.ofList text, none⟩]) :=
  (h.behind before).readSegments_eq hne

/-- Behind a bare segment a name that is not whole becomes an identifier first, or another head. -/
theorem readSegments_of_not_wholeName (hno : ¬ WholeName text) (hne : text ≠ [])
    {found : List Segment}
    (h : readSegments (⟨head, none⟩ :: before) (.ofText ('/' :: Percent.encode text)) = .ok found) :
    (∃ n more, found = before.reverse ++ ⟨head, some (.id n)⟩ :: more) ∨
      ∃ name qualifier more, name.toList ≠ text ∧
        found = before.reverse ++ ⟨head, none⟩ :: ⟨name, qualifier⟩ :: more := by
  obtain ⟨c, tail, htext, hc⟩ := encode_cons hne []
  rw [List.append_nil] at htext
  rw [readSegments_slash, readSegments_next htext hc] at h
  obtain ⟨next, hnext, hrun⟩ := bind_eq_ok.mp h
  obtain ⟨front, stop, rfl, hfront, hstop⟩ := exists_undivided text
  rw [readNext_front hfront hstop.stopsHead] at hnext
  cases hint : Digit.isInteger front with
  | true =>
    rw [hint, if_pos rfl] at hnext
    obtain ⟨n, -, rfl⟩ := map_eq_ok.mp hnext
    -- The identifier takes the place of a qualifier, so nothing behind it changes the segment.
    have hbehind := @readSegments_append [] (⟨head, some (.id n)⟩ :: before)
      (.ofText (Percent.encode stop)) fun _ hbare => (nomatch hbare)
    obtain ⟨more, -, rfl⟩ := map_eq_ok.mp (hbehind.symm.trans hrun)
    exact .inl ⟨n, more, by rw [List.reverse_cons, List.append_assoc, List.singleton_append]⟩
  | false =>
    rw [hint, if_neg Bool.false_ne_true] at hnext
    obtain ⟨⟨s, rest⟩, hs, rfl⟩ := map_eq_ok.mp hnext
    have hhead := head_ne_of_readSegment hfront hint hno hstop hs
    have hbehind := @readSegments_append [s] (⟨head, none⟩ :: before) rest fun hnil =>
      absurd hnil (List.cons_ne_nil _ _)
    obtain ⟨more, hmore, rfl⟩ := map_eq_ok.mp (hbehind.symm.trans hrun)
    have hheads := readSegments_heads [s] rest hmore
    match more, hheads with
    | [], hheads => exact absurd (List.prefix_nil.mp hheads) (List.cons_ne_nil _ _)
    | ⟨name, qualifier⟩ :: more, hheads =>
      refine .inr ⟨name, qualifier, more, ?_, ?_⟩
      · obtain ⟨hname, -⟩ := List.cons_prefix_cons.mp hheads
        rw [show name = s.head from hname.symm]
        exact hhead
      · rw [List.reverse_cons, List.append_assoc, List.singleton_append]

end ResourceAtlas.Address
