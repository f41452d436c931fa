import ResourceAtlas.Proofs.Address.Onward

/-!
# A path with more behind it

What was read of a path stays read when more is put behind it, if that ends a head: the last head of the
path goes on with it as it does with the end of the path, and behind a slash the rest is read on its own.
The upper form must not be longer than the path for that, unless no bracket opens, and no bracket may be
left in a head where one behind it could close it.
-/

namespace ResourceAtlas.Address

open Number Text

/-- Every character of a text has an upper form of one character. -/
def Level (text : List Char) : Prop :=
  ∀ c ∈ text, (Case.upperChar c).length = 1

variable {text stop more : List Char}

/-- A part of a level text is level. -/
theorem Level.mono (h : Level text) {part : List Char} (hpart : part <:+: text) : Level part :=
  fun c hc => h c (hpart.subset hc)

/-- What is passed over in a level text is passed over together with its upper form. -/
theorem Level.drop_ofText (h : Level text) {count : Nat} (hcount : count ≤ text.length)
    (more : List Char) :
    (Remainder.ofText (text ++ more)).drop count = .ofText (text.drop count ++ more) := by
  have hlevel := upper_length_of_each (h.mono (List.take_prefix count text).isInfix)
  have hdrop := drop_ofText_of_length hlevel (text.drop count ++ more)
  rw [← List.append_assoc, List.take_append_drop, List.length_take, Nat.min_eq_left hcount] at hdrop
  exact hdrop

/-- What is passed over in a level text leaves the rest of it with its upper form. -/
theorem Level.drop_ofText_self (h : Level text) {count : Nat} (hcount : count ≤ text.length) :
    (Remainder.ofText text).drop count = .ofText (text.drop count) := by
  have hdrop := h.drop_ofText hcount []
  rw [List.append_nil, List.append_nil] at hdrop
  exact hdrop

/-- What ends a head is the end, or starts with a mark. -/
theorem StopsHead.nil_or_cons (h : StopsHead stop) :
    stop = [] ∨ ∃ c tail, stop = c :: tail ∧ c ∈ headMarks := by
  rcases h with rfl | h
  · exact .inl rfl
  · cases stop with
    | nil => exact .inl rfl
    | cons c tail =>
      refine .inr ⟨c, tail, rfl, ?_⟩
      by_contra hno
      rw [endsHead_of_not_mem hno] at h
      exact Bool.false_ne_true h

/-- What ends a head behind a text makes no bracket of it. -/
theorem openingLength?_stop (hne : text ≠ []) (h : StopsHead stop) :
    openingLength? (text ++ stop) = openingLength? text := by
  rcases h.nil_or_cons with rfl | ⟨c, tail, rfl, hc⟩
  · rw [List.append_nil]
  · simp only [headMarks, List.mem_cons, List.not_mem_nil, or_false] at hc
    match text with
    | [d] => rcases hc with rfl | rfl | rfl | rfl <;> unfold openingLength? <;> split <;> simp_all
    | [d, e] => rcases hc with rfl | rfl | rfl | rfl <;> unfold openingLength? <;> split <;> simp_all
    | d :: e :: f :: text => unfold openingLength?; split <;> split <;> simp_all

/-- What ends a head behind a text makes no question mark of it. -/
theorem questionLength?_stop (hne : text ≠ []) (h : StopsHead stop) :
    questionLength? (text ++ stop) = questionLength? text := by
  rcases h.nil_or_cons with rfl | ⟨c, tail, rfl, hc⟩
  · rw [List.append_nil]
  · simp only [headMarks, List.mem_cons, List.not_mem_nil, or_false] at hc
    match text with
    | [d] => rcases hc with rfl | rfl | rfl | rfl <;> unfold questionLength? <;> split <;> simp_all
    | [d, e] => rcases hc with rfl | rfl | rfl | rfl <;> unfold questionLength? <;> split <;> simp_all
    | d :: e :: f :: text => unfold questionLength?; split <;> split <;> simp_all

/-- What ends a head behind a text ends none in it. -/
theorem endsHead_stop (hne : text ≠ []) (h : StopsHead stop) :
    endsHead (text ++ stop) = endsHead text := by
  obtain ⟨c, rest, rfl⟩ := List.exists_cons_of_ne_nil hne
  unfold endsHead
  rw [openingLength?_stop hne h, questionLength?_stop hne h]
  rfl

/-- A bracket that opens at the start of a text opens there with more behind it. -/
theorem openingLength?_append {opening : Nat} (h : openingLength? text = some opening)
    (more : List Char) : openingLength? (text ++ more) = some opening := by
  unfold openingLength? at h
  split at h
  · exact h
  · exact h
  · exact h
  · exact (nomatch h)

/-- Where a head ends before a text, it ends with more behind that as well. -/
theorem endsHead_append (h : endsHead text = true) (more : List Char) :
    endsHead (text ++ more) = true := by
  have hopen : (openingLength? text).isSome → (openingLength? (text ++ more)).isSome := by
    intro hsome
    obtain ⟨opening, hopening⟩ := Option.isSome_iff_exists.mp hsome
    rw [openingLength?_append hopening]
    rfl
  unfold endsHead at h ⊢
  rw [Bool.or_eq_true, Bool.or_eq_true, beq_iff_eq] at h ⊢
  refine h.imp (.imp (fun hslash => ?_) hopen) fun hask => questionLength?_append hask more
  cases text with
  | nil => exact (nomatch hslash)
  | cons c rest => exact hslash

/-- A head is as long before whatever ends it. -/
theorem headLength_stop_iff (h : StopsHead stop) :
    headLength (text ++ stop) = text.length ↔ headLength text = text.length := by
  induction text with
  | nil => exact iff_of_true h.headLength_eq rfl
  | cons c text ih =>
    have hends : endsHead (c :: (text ++ stop)) = endsHead (c :: text) :=
      endsHead_stop (List.cons_ne_nil c text) h
    rw [List.cons_append, headLength, headLength, hends, List.length_cons]
    split
    · rfl
    · rw [Nat.add_right_cancel_iff, Nat.add_right_cancel_iff, ih]

/-- A head is no longer than its text. -/
theorem headLength_le (text : List Char) : headLength text ≤ text.length := by
  induction text with
  | nil => exact Nat.le_refl 0
  | cons c text ih =>
    rw [headLength]
    split
    · exact Nat.zero_le _
    · exact Nat.succ_le_succ ih

/-- What follows a head ends it. -/
theorem stopsHead_drop_headLength (text : List Char) : StopsHead (text.drop (headLength text)) := by
  induction text with
  | nil => exact .inl rfl
  | cons c text ih =>
    rw [headLength]
    split
    · next hends => exact .inr hends
    · exact ih

/-- A head that does not take all of a text is as long with more behind that. -/
theorem headLength_append (h : headLength text < text.length) (more : List Char) :
    headLength (text ++ more) = headLength text := by
  have hstops := stopsHead_drop_headLength text
  have hne : text.drop (headLength text) ≠ [] := by
    rw [ne_eq, List.drop_eq_nil_iff]
    exact Nat.not_le.mpr h
  have hmore : StopsHead (text.drop (headLength text) ++ more) :=
    .inr (endsHead_append (hstops.resolve_left hne) more)
  have hlength : (text.take (headLength text)).length = headLength text := by
    rw [List.length_take, Nat.min_eq_left h.le]
  have hself := (@headLength_stop_iff (text.take (headLength text)) _ hstops).mp (by
    rw [List.take_append_drop, hlength])
  have hall := (headLength_stop_iff hmore).mpr hself
  rw [← List.append_assoc, List.take_append_drop, hlength] at hall
  exact hall

/-- What is left of a text at first is the text. -/
theorem text_ofText (text : List Char) : (Remainder.ofText text).text = text := rfl

/-- What opens a bracket is a part of the text. -/
theorem openingLength?_le {opening : Nat} (h : openingLength? text = some opening) :
    opening ≤ text.length := by
  unfold openingLength? at h
  split at h <;> simp only [Option.some.injEq, reduceCtorEq] at h <;>
    simp only [List.length_cons] <;> omega

/-- What starts a query is a part of the text. -/
theorem questionLength?_le {mark : Nat} (h : questionLength? text = some mark) :
    mark ≤ text.length := by
  unfold questionLength? at h
  split at h <;> simp only [Option.some.injEq, reduceCtorEq] at h <;>
    simp only [List.length_cons] <;> omega

/-- What is found in the upper form of a level text lies inside the text, and is found there with more
behind it. -/
theorem atWord_ahead (hlevel : Level text) {word before after : List Char}
    (h : Split.atWord word (Case.upper text) = some (before, after)) :
    before.length + word.length ≤ text.length ∧ ∀ more,
      Split.atWord word (Case.upper (text ++ more)) = some (before, after ++ Case.upper more) := by
  have hupper := Split.eq_of_atWord h
  constructor
  · have hlength := congrArg List.length hupper
    rw [upper_length_of_each hlevel] at hlength
    rw [hlength, List.length_append, List.length_append]
    exact Nat.le_add_right _ _
  · intro more
    have hreplace := Split.atWord_replace h (after ++ Case.upper more)
    rwa [← List.append_assoc, ← hupper, ← upper_append] at hreplace

/-- A head in a text is as long with more behind it that ends heads. -/
theorem headLength_append_stop (h : StopsHead stop) :
    headLength (text ++ stop) = headLength text := by
  rcases Nat.lt_or_eq_of_le (headLength_le text) with hshort | hall
  · exact headLength_append hshort stop
  · rw [hall]
    exact (headLength_stop_iff h).mpr hall

/-- No bracket opens in a text. -/
def Unopened (text : List Char) : Prop :=
  ∀ rest, rest <:+ text → openingLength? rest = none

/-- No bracket that was left open before a text closes in it. -/
def Unclosed (text : List Char) : Prop :=
  ∀ opening, Split.atWord (closingFor opening) (Case.upper text) = none

/-- Every bracket that opens in a text closes in it. -/
def EachCloses (text : List Char) : Prop :=
  ∀ rest opening, rest <:+ text → openingLength? rest = some opening →
    Split.atWord (closingFor opening) (Case.upper (rest.drop opening)) ≠ none

/-- No bracket opens in a later part of a text in which none does. -/
theorem Unopened.mono (h : Unopened text) {part : List Char} (hpart : part <:+ text) : Unopened part :=
  fun rest hrest => h rest (hrest.trans hpart)

/-- Where no bracket opens, each one closes. -/
theorem Unopened.eachCloses (h : Unopened (text ++ more)) : EachCloses text := by
  rintro rest opening ⟨front, rfl⟩ hopening
  have hnone := h (rest ++ more) ⟨front, (List.append_assoc _ _ _).symm⟩
  rw [openingLength?_append hopening] at hnone
  exact (nomatch hnone)

/-- No bracket that is left open in a text closes in what is behind it. -/
def Unjoined (more text : List Char) : Prop :=
  Unclosed more ∨ EachCloses text

/-- What is behind a text closes no bracket of a later part of it. -/
theorem Unjoined.drop (h : Unjoined more text) (count : Nat) : Unjoined more (text.drop count) :=
  h.imp_right fun hcloses rest opening hrest =>
    hcloses rest opening (hrest.trans (List.drop_suffix count text))

/-- Passing over characters in turn passes over all of them. -/
theorem Remainder.drop_drop (r : Remainder) (n m : Nat) : (r.drop n).drop m = r.drop (n + m) := by
  simp only [Remainder.drop, List.drop_drop]

/-- A remainder and one with more behind it: the upper forms go on alike, or no bracket opens. -/
inductive Onto (more : List Char) : Remainder → Remainder → Prop
  /-- The text is level. -/
  | level {text : List Char} (h : Level text) : Onto more (.ofText text) (.ofText (text ++ more))
  /-- No bracket opens, so the upper forms are not looked at. -/
  | unopened {r r' : Remainder} (htext : r'.text = r.text ++ more) (h : Unopened r'.text) :
      Onto more r r'

namespace Onto

variable {r r' : Remainder}

/-- The text of the longer remainder. -/
theorem text_eq (h : Onto more r r') : r'.text = r.text ++ more := by
  cases h with
  | level => rfl
  | unopened htext => exact htext

/-- The same characters of both are passed over. -/
theorem drop (h : Onto more r r') {count : Nat} (hcount : count ≤ r.text.length) :
    Onto more (r.drop count) (r'.drop count) := by
  cases h with
  | level hlevel =>
    rw [text_ofText] at hcount
    rw [hlevel.drop_ofText_self hcount, hlevel.drop_ofText hcount]
    exact .level (hlevel.mono (List.drop_suffix _ _).isInfix)
  | unopened htext hno =>
    refine .unopened ?_ (hno.mono (List.drop_suffix _ _))
    rw [Remainder.text_drop, Remainder.text_drop, htext, List.drop_append_of_le_length hcount]

/-- What is behind a remainder starts no bracket. -/
theorem openingLength?_eq (h : Onto more r r') (hstop : StopsHead more)
    (hgoes : r.text ≠ [] ∨ EndsSegment more) : openingLength? r'.text = openingLength? r.text := by
  rw [h.text_eq]
  by_cases hne : r.text = []
  · rw [hne, List.nil_append, (hgoes.resolve_left (not_not_intro hne)).openingLength?_eq]
    rfl
  · exact openingLength?_stop hne hstop

/-- Where a bracket opens the text is level. -/
theorem level_of_opening (h : Onto more r r') (hstop : StopsHead more)
    (hgoes : r.text ≠ [] ∨ EndsSegment more) {opening : Nat}
    (hopening : openingLength? r.text = some opening) :
    ∃ text, Level text ∧ r = .ofText text ∧ r' = .ofText (text ++ more) := by
  have hthere := (h.openingLength?_eq hstop hgoes).trans hopening
  cases h with
  | level hlevel => exact ⟨_, hlevel, rfl, rfl⟩
  | unopened _ hno => cases (hno _ List.suffix_rfl).symm.trans hthere

/-- What is behind a remainder starts no query. -/
theorem questionLength?_eq (h : Onto more r r') (hstop : StopsHead more)
    (hgoes : r.text ≠ [] ∨ EndsSegment more) : questionLength? r'.text = questionLength? r.text := by
  rw [h.text_eq]
  by_cases hne : r.text = []
  · rw [hne, List.nil_append, (hgoes.resolve_left (not_not_intro hne)).questionLength?_eq]
    rfl
  · exact questionLength?_stop hne hstop

end Onto

/-- What closes a bracket is one character, or starts with a percent sign. -/
theorem closingFor_cases (opening : Nat) :
    closingFor opening = [']'] ∨ closingFor opening = "%5D".toList := by
  unfold closingFor
  split
  · exact .inl rfl
  · exact .inr rfl

/-- A bracket that is left open in a text stays open with more behind it. -/
theorem Unclosed.atWord_append {opening : Nat} (h : Unclosed more) (hstop : StopsHead more)
    (hno : Split.atWord (closingFor opening) (Case.upper text) = none) :
    Split.atWord (closingFor opening) (Case.upper (text ++ more)) = none := by
  have hfirst : ∀ d, (Case.upper more).head? = some d → d ∉ "5D".toList := by
    rcases hstop.nil_or_cons with rfl | ⟨c, tail, rfl, hc⟩
    · exact nofun
    · intro d hd
      simp only [headMarks, List.mem_cons, List.not_mem_nil, or_false] at hc
      rcases hc with rfl | rfl | rfl | rfl <;>
        exact Option.some.inj (show some _ = some d from hd) ▸ (by decide)
  have hmore := h opening
  rw [upper_append]
  rcases closingFor_cases opening with hclosing | hclosing <;> rw [hclosing] at hno hmore ⊢
  · exact Split.atWord_append_eq_none hno hmore fun _ _ => List.not_mem_nil
  · exact Split.atWord_append_eq_none hno hmore hfirst

/-- A bracket that closes in the upper form of a level text closes there with more behind it, around the
same text. -/
theorem Level.closed_onto {text : List Char} (hlevel : Level text) {opening : Nat} (hle : opening ≤ text.length)
    {before after : List Char}
    (hat : Split.atWord (closingFor opening) ((Remainder.ofText text).drop opening).upper =
      some (before, after)) (more : List Char) :
    opening + before.length + (closingFor opening).length ≤ text.length ∧
      (∃ after', Split.atWord (closingFor opening)
        ((Remainder.ofText (text ++ more)).drop opening).upper = some (before, after')) ∧
      ((Remainder.ofText (text ++ more)).drop opening).text.take before.length =
        ((Remainder.ofText text).drop opening).text.take before.length := by
  rw [hlevel.drop_ofText_self hle] at hat ⊢
  rw [hlevel.drop_ofText hle]
  -- The upper form of a level text is as long as the text.
  obtain ⟨hlength, hmoreat⟩ :=
    atWord_ahead (hlevel.mono (List.drop_suffix opening text).isInfix) hat
  rw [List.length_drop] at hlength
  refine ⟨by omega, ⟨_, hmoreat more⟩, ?_⟩
  exact List.take_append_of_le_length (by rw [List.length_drop]; omega)

/-- A bracket is the same with more behind it, unless it is left open and closes there. -/
theorem readBracket_onto {r r' : Remainder} (h : Onto more r r') (hstop : StopsHead more) {b : Bracket}
    (hb : readBracket r = .ok b) (hgoes : r.text ≠ [] ∨ EndsSegment more)
    (hopen : '[' ∉ b.more ∨ Unjoined more r.text) :
    ∃ count ≤ r.text.length, b.rest = r.drop count ∧
      readBracket r' = .ok ⟨b.more, b.position, r'.drop count⟩ := by
  have hthere := h.openingLength?_eq hstop hgoes
  cases readBracket_eq_ok.mp hb with
  | none hopening =>
    exact ⟨0, Nat.zero_le _, rfl, readBracket_eq_ok.mpr (.none (hthere.trans hopening))⟩
  | @opened opening hopening hat =>
    have hunclosed := hopen.resolve_left
      (not_not_intro (open_mem_decode hopening (Nat.le_add_right _ _)))
    obtain ⟨text, hlevel, rfl, rfl⟩ := h.level_of_opening hstop hgoes hopening
    have hle : opening ≤ text.length := openingLength?_le hopening
    rw [hlevel.drop_ofText_self hle] at hat ⊢
    have hcloses := hunclosed.resolve_right
      fun hcloses => hcloses text opening List.suffix_rfl hopening hat
    have hcount : opening + headLength (text.drop opening) ≤ text.length := by
      have hhead := headLength_le (text.drop opening)
      rw [List.length_drop] at hhead
      omega
    refine ⟨_, hcount, rfl, ?_⟩
    have hdrop := hlevel.drop_ofText hle more
    rw [readBracket_eq_ok.mpr (.opened (hthere.trans hopening)
      (hdrop ▸ hcloses.atWord_append hstop hat)), hdrop]
    simp only [text_ofText]
    rw [headLength_append_stop hstop, List.take_append_of_le_length hcount]
  | position hopening hat hint hn =>
    obtain ⟨text, hlevel, rfl, rfl⟩ := h.level_of_opening hstop hgoes hopening
    obtain ⟨hcount, ⟨after', hat'⟩, hinner⟩ := hlevel.closed_onto (openingLength?_le hopening) hat more
    rw [← hinner] at hint hn
    exact ⟨_, hcount, rfl,
      readBracket_eq_ok.mpr (.position (hthere.trans hopening) hat' hint hn)⟩
  | named hopening hat hint =>
    obtain ⟨text, hlevel, rfl, rfl⟩ := h.level_of_opening hstop hgoes hopening
    obtain ⟨hcount, ⟨after', hat'⟩, hinner⟩ := hlevel.closed_onto (openingLength?_le hopening) hat more
    refine ⟨_, hcount, rfl, ?_⟩
    rw [← hinner] at hint ⊢
    exact readBracket_eq_ok.mpr (.named (hthere.trans hopening) hat' hint)

/-- A query is the same with more behind it, unless it takes the rest of the text and more could go on
with it. -/
theorem readQuery_onto {r r' rest : Remainder} (h : Onto more r r') (hstop : StopsHead more)
    {request : Option Request} (hq : readQuery r = .ok (request, rest))
    (hgoes : rest.text ≠ [] ∨ EndsSegment more) :
    ∃ count ≤ r.text.length, rest = r.drop count ∧
      readQuery r' = .ok (request, r'.drop count) := by
  have hshorter := (readQuery_length hq).1
  have hbefore : r.text ≠ [] ∨ EndsSegment more := hgoes.imp_left fun hne hnil =>
    hne (List.length_eq_zero_iff.mp (by rw [hnil] at hshorter; exact Nat.le_zero.mp hshorter))
  have hmark := h.questionLength?_eq hstop hbefore
  unfold readQuery at hq
  split at hq
  · next hnone =>
    obtain ⟨rfl, rfl⟩ := Prod.mk.inj (Except.ok.inj hq)
    refine ⟨0, Nat.zero_le _, rfl, ?_⟩
    unfold readQuery
    rw [hmark, hnone]
    rfl
  · next mark hsome =>
    obtain ⟨found, hfound, heq⟩ := map_eq_ok.mp hq
    obtain ⟨rfl, rfl⟩ := Prod.mk.inj heq
    have hpositive := (questionLength?_le hsome)
    have hcount : mark + ((r.text.drop mark).takeWhile (· != '/')).length ≤ r.text.length := by
      have htake := (List.takeWhile_prefix (· != '/') (l := r.text.drop mark)).length_le
      rw [List.length_drop] at htake
      omega
    have htake : ((r.text ++ more).drop mark).takeWhile (· != '/') =
        (r.text.drop mark).takeWhile (· != '/') := by
      rw [List.drop_append_of_le_length hpositive, List.takeWhile_append]
      split
      · next hall =>
        rcases hgoes with hne | hends
        · refine absurd ?_ hne
          rw [Remainder.text_drop, List.drop_eq_nil_iff, hall, List.length_drop]
          omega
        · have hnone : more.takeWhile (· != '/') = [] := by
            rcases hends with rfl | ⟨tail, rfl⟩ <;> rfl
          rw [hnone, List.append_nil]
          exact (List.takeWhile_prefix _).eq_of_length hall |>.symm
      · rfl
    refine ⟨_, hcount, rfl, ?_⟩
    unfold readQuery
    rw [hmark, hsome]
    dsimp only
    rw [h.text_eq, htake, hfound]
    rfl

/-- A segment is the same with more behind it. -/
theorem readSegment_onto {r r' rest : Remainder} (h : Onto more r r') (hstop : StopsHead more)
    {head : List Char} {s : Segment} (hs : readSegment head r = .ok (s, rest))
    (hgoes : rest.text ≠ [] ∨ EndsSegment more)
    (hopen : '[' ∉ s.head.toList ∨ Unjoined more r.text) :
    ∃ count ≤ r.text.length, rest = r.drop count ∧
      readSegment head r' = .ok (s, r'.drop count) := by
  obtain ⟨b, request, hb, hq, rfl⟩ := readSegment_eq_ok.mp hs
  have hopenmore : '[' ∉ b.more ∨ Unjoined more r.text := hopen.imp_left fun hno hmem =>
    hno (by rw [String.toList_ofList]; exact List.mem_append_right _ hmem)
  have hshorter : rest.text.length ≤ r.text.length :=
    ((readQuery_length hq).1).trans (readBracket_length hb).1
  have hbefore : r.text ≠ [] ∨ EndsSegment more := hgoes.imp_left fun hne hnil =>
    hne (List.length_eq_zero_iff.mp (by rw [hnil] at hshorter; exact Nat.le_zero.mp hshorter))
  obtain ⟨first, hfirst, hrest, hbracket⟩ := readBracket_onto h hstop hb hbefore hopenmore
  rw [hrest] at hq
  obtain ⟨second, hsecond, rfl, hquery⟩ := readQuery_onto (h.drop hfirst) hstop hq hgoes
  rw [Remainder.text_drop, List.length_drop] at hsecond
  refine ⟨first + second, by omega, Remainder.drop_drop r first second, ?_⟩
  rw [Remainder.drop_drop] at hquery
  exact readSegment_eq_ok.mpr ⟨_, request, hbracket, hquery, rfl⟩

/-- A step is the same with more behind it. -/
theorem readNext_onto {r r' rest : Remainder} (h : Onto more r r') (hstop : StopsHead more)
    {before found : List Segment} (hn : readNext before r = .ok (found, rest))
    (hgoes : rest.text ≠ [] ∨ EndsSegment more)
    (hopen : (∀ s ∈ found, '[' ∉ s.head.toList) ∨ Unjoined more r.text) :
    ∃ count ≤ r.text.length, rest = r.drop count ∧
      readNext before r' = .ok (found, r'.drop count) := by
  have hle := headLength_le r.text
  have hlength : headLength r'.text = headLength r.text := by
    rw [h.text_eq, headLength_append_stop hstop]
  have hhead : r'.text.take (headLength r'.text) = r.text.take (headLength r.text) := by
    rw [hlength, h.text_eq, List.take_append_of_le_length hle]
  cases readNext_eq_ok.mp hn with
  | identifier hbefore hint hnumber =>
    refine ⟨_, hle, rfl, ?_⟩
    rw [← hhead] at hint hnumber
    rw [← hlength]
    exact readNext_eq_ok.mpr (.identifier hbefore hint hnumber)
  | @segment s _ hfold hs =>
    obtain ⟨count, hcount, rfl, hsegment⟩ := readSegment_onto (h.drop hle) hstop hs hgoes
      (hopen.imp (fun hno => hno s List.mem_cons_self) fun hno => hno.drop _)
    rw [Remainder.text_drop, List.length_drop] at hcount
    refine ⟨headLength r.text + count, by omega, Remainder.drop_drop _ _ _, ?_⟩
    rw [← hhead] at hfold hsegment
    rw [Remainder.drop_drop, ← hlength] at hsegment
    rw [← hlength]
    exact readNext_eq_ok.mpr (.segment hfold hsegment)

/-- A bracket that gives nothing is none. -/
theorem eq_of_readBracket {r : Remainder} {b : Bracket} (h : readBracket r = .ok b)
    (hmore : '[' ∉ b.more) (hposition : b.position = none) : b = ⟨[], none, r⟩ := by
  cases readBracket_eq_ok.mp h with
  | none => rfl
  | opened hopening => exact absurd (open_mem_decode hopening (Nat.le_add_right _ _)) hmore
  | position => exact (nomatch hposition)
  | named => exact absurd List.mem_cons_self hmore

/-- A segment without a qualifier and an opening bracket in its head is the head alone. -/
theorem eq_of_readSegment {name : List Char} {head : String} {r rest : Remainder}
    (h : readSegment name r = .ok (⟨head, none⟩, rest)) (hopen : '[' ∉ head.toList) :
    head.toList = name ∧ rest = r := by
  obtain ⟨b, request, hb, hq, hs⟩ := readSegment_eq_ok.mp h
  obtain ⟨rfl, hqualifier⟩ := Segment.mk.inj hs
  rw [String.toList_ofList, List.mem_append, not_or] at hopen
  cases request with
  | some q => exact (nomatch hqualifier)
  | none =>
    obtain rfl := eq_of_readBracket hb hopen.2 (Option.map_eq_none_iff.mp hqualifier.symm)
    rw [String.toList_ofList, List.append_nil]
    refine ⟨rfl, ?_⟩
    unfold readQuery at hq
    split at hq
    · exact (Prod.mk.inj (Except.ok.inj hq)).2.symm
    · obtain ⟨q, -, heq⟩ := map_eq_ok.mp hq
      exact (nomatch (Prod.mk.inj heq).1)

/-- A last step that leaves a bare segment took all of the text as its head. -/
theorem readNext_last (hlevel : Level text) {before others : List Segment} {head : String}
    {rest : Remainder} (h : readNext before (.ofText text) = .ok (⟨head, none⟩ :: others, rest))
    (hopen : '[' ∉ head.toList) (hrest : rest.text = []) :
    others = before ∧ head.toList = Percent.decode text ∧ headLength text = text.length ∧
      (if Digit.isInteger (Percent.decode text) then unqualified? before else none) = none := by
  have hle := headLength_le text
  cases readNext_eq_ok.mp h with
  | segment hfold hs =>
    rw [text_ofText] at hfold hs
    rw [hlevel.drop_ofText_self hle] at hs
    obtain ⟨hhead, rfl⟩ := eq_of_readSegment hs hopen
    rw [text_ofText, List.drop_eq_nil_iff] at hrest
    have hall : headLength text = text.length := Nat.le_antisymm hle hrest
    rw [hall, List.take_length] at hhead hfold
    exact ⟨rfl, hhead, hall, hfold⟩

/-- A path that ends in a bare segment is read with more behind it as its segments, of which the last head
goes on with what is behind. -/
theorem readSegments_ahead {text : List Char} (hlevel : Level text) (hne : text ≠ [])
    (hend : text.getLast? ≠ some '/') {before found : List Segment} {head : String}
    (h : readSegments before (.ofText text) = .ok (found ++ [⟨head, none⟩]))
    (hopen : ∀ s ∈ found ++ [⟨head, none⟩], '[' ∉ s.head.toList) (hmore : StopsHead more) :
    readSegments before (.ofText (text ++ more)) =
      (readSegment head.toList (.ofText more)).bind fun next =>
        readSegments (next.1 :: found.reverse) next.2 := by
  -- Every step passes over a character; the last one takes the rest of the path as its head.
  induction hlength : text.length using Nat.strong_induction_on generalizing before text with
  | _ length ih =>
    subst hlength
    obtain ⟨c, tail, rfl⟩ := List.exists_cons_of_ne_nil hne
    by_cases hc : c = '/'
    · subst hc
      have htail : tail ≠ [] := fun hnil => hend (hnil ▸ rfl)
      rw [readSegments_slash] at h
      rw [List.cons_append, readSegments_slash]
      refine ih _ (Nat.lt_succ_self _) (hlevel.mono (List.suffix_cons _ _).isInfix) htail ?_ h rfl
      rwa [List.getLast?_cons_of_ne_nil htail] at hend
    · rw [@readSegments_next _ _ c tail rfl hc] at h
      obtain ⟨⟨segments, rest⟩, hnext, hrun⟩ := bind_eq_ok.mp h
      have hheads := readSegments_heads segments rest hrun
      have hsegments : ∀ s ∈ segments, '[' ∉ s.head.toList := by
        intro s hs
        have hmem := hheads.subset (List.mem_map_of_mem (List.mem_reverse.mpr hs))
        obtain ⟨t, ht, heq⟩ := List.mem_map.mp hmem
        exact heq ▸ hopen t ht
      by_cases hrest : rest.text = []
      · rw [readSegments_nil _ hrest] at hrun
        obtain rfl : segments = ⟨head, none⟩ :: found.reverse := by
          rw [← List.reverse_concat, ← Except.ok.inj hrun, List.reverse_reverse]
        obtain ⟨rfl, hhead, hall, hfold⟩ :=
          readNext_last hlevel hnext (hsegments _ List.mem_cons_self) hrest
        have hdrop := hlevel.drop_ofText (Nat.le_refl _) more
        rw [List.drop_length, List.nil_append] at hdrop
        rw [@readSegments_next _ _ c (tail ++ more) rfl hc,
          readNext_of_head ((headLength_stop_iff hmore).mpr hall) hdrop, hfold, ← hhead]
        cases readSegment head.toList (.ofText more) <;> rfl
      · obtain ⟨count, hcount, rfl, hahead⟩ :=
          readNext_onto (.level hlevel) hmore hnext (.inl hrest) (.inl hsegments)
        have hshorter := readNext_length rfl hc hnext
        have hsuffix : (c :: tail).drop count <:+ c :: tail := List.drop_suffix _ _
        rw [text_ofText] at hcount
        rw [@readSegments_next _ _ c (tail ++ more) rfl hc, hahead, hlevel.drop_ofText hcount]
        rw [hlevel.drop_ofText_self hcount] at hrun hrest hshorter
        rw [text_ofText] at hrest
        refine ih _ hshorter (hlevel.mono hsuffix.isInfix) hrest ?_ hrun rfl
        obtain ⟨front, hfront⟩ := hsuffix
        rwa [← hfront, List.getLast?_append_of_ne_nil _ hrest] at hend

/-- What was read of a text stays read when a slash and more are put behind it: the rest is read behind the
segments that were found. -/
theorem exists_readSegments_onto {r r' : Remainder} (h : Onto more r r') (hmore : EndsSegment more)
    {before found : List Segment} (hread : readSegments before r = .ok found)
    (hopen : (∀ s ∈ found, '[' ∉ s.head.toList) ∨ Unjoined more r.text) :
    ∃ rest : Remainder, rest.text = more ∧ (rest = .ofText more ∨ Unopened more) ∧
      readSegments before r' = readSegments found.reverse rest := by
  -- Every step passes over the same characters of both.
  induction hlength : r.text.length using Nat.strong_induction_on generalizing before r r' with
  | _ length ih =>
    subst hlength
    cases htext : r.text with
    | nil =>
      rw [readSegments_nil _ htext] at hread
      obtain rfl := Except.ok.inj hread
      have hrest : r'.text = more := by rw [h.text_eq, htext, List.nil_append]
      refine ⟨r', hrest, ?_, by rw [List.reverse_reverse]⟩
      cases h with
      | @level text =>
        rw [text_ofText] at htext
        exact .inl (by rw [htext, List.nil_append])
      | unopened _ hno => exact .inr (hrest ▸ hno)
    | cons c tail =>
      have htext' : r'.text = c :: (tail ++ more) := by rw [h.text_eq, htext, List.cons_append]
      by_cases hc : c = '/'
      · subst hc
        rw [readSegments_drop htext] at hread
        rw [readSegments_drop htext']
        refine ih _ ?_ (h.drop (by rw [htext]; exact Nat.succ_pos _)) hread
          (hopen.imp_right fun hno => hno.drop 1) rfl
        rw [Remainder.text_drop, htext]
        exact Nat.lt_succ_self _
      · rw [readSegments_next htext hc] at hread
        obtain ⟨⟨segments, rest⟩, hnext, hrun⟩ := bind_eq_ok.mp hread
        have hsegments : (∀ s ∈ segments, '[' ∉ s.head.toList) ∨ Unjoined more r.text := by
          refine hopen.imp_left fun hno s hs => ?_
          have hmem := (readSegments_heads segments rest hrun).subset
            (List.mem_map_of_mem (List.mem_reverse.mpr hs))
          obtain ⟨t, ht, heq⟩ := List.mem_map.mp hmem
          exact heq ▸ hno t ht
        obtain ⟨count, hcount, rfl, hahead⟩ :=
          readNext_onto h hmore.stopsHead hnext (.inr hmore) hsegments
        rw [readSegments_next htext' hc, hahead]
        exact ih _ (readNext_length htext hc hnext) (h.drop hcount) hrun
          (hopen.imp_right fun hno => hno.drop count) rfl

/-- A path is read with more behind it as its segments and, behind those, as the rest is read. -/
theorem readSegments_onto {text : List Char} (h : Level text ∨ Unopened (text ++ more))
    (hmore : EndsSegment more) {before found all : List Segment}
    (hread : readSegments before (.ofText text) = .ok found)
    (hopen : (∀ s ∈ found, '[' ∉ s.head.toList) ∨ Unjoined more text)
    (hall : readSegments found.reverse (.ofText more) = .ok all) :
    readSegments before (.ofText (text ++ more)) = .ok all := by
  have honto : Onto more (.ofText text) (.ofText (text ++ more)) :=
    h.elim Onto.level fun hno => .unopened rfl hno
  obtain ⟨rest, hrest, hupper, hrun⟩ := exists_readSegments_onto honto hmore hread hopen
  rw [hrun]
  rcases hupper with rfl | hno
  · exact hall
  · -- Where no bracket opens, the upper form of the rest makes no difference.
    have hsame : Onto [] (.ofText more) rest :=
      .unopened (by rw [hrest, List.append_nil]; rfl) (hrest ▸ hno)
    have hclosed : Unclosed [] := fun opening => by
      rcases closingFor_cases opening with hclosing | hclosing <;> rw [hclosing] <;> rfl
    obtain ⟨last, hlast, -, hend⟩ := exists_readSegments_onto hsame (.inl rfl) hall (.inr (.inl hclosed))
    rw [hend, readSegments_nil _ hlast, List.reverse_reverse]

/-- An address that ends in a head, which goes on with more behind it. -/
structure EndsInHead (uri scheme : String) (before : List Segment) (head : String) : Prop where
  /-- It is read as segments of which the last one has no qualifier. -/
  read : Address.read uri = .ok (.ok ⟨scheme, before ++ [⟨head, none⟩]⟩)
  /-- No bracket opens in a head. -/
  unopened : ∀ s ∈ before ++ [⟨head, none⟩], '[' ∉ s.head.toList
  /-- Its path is as long in upper case, character by character. -/
  level : ∀ path, uri.toList = scheme.toList ++ schemeMark ++ path → Level path
  /-- No slash stands behind the head. -/
  unslashed : uri.toList.getLast? ≠ some '/'

/-- What an address is read as, from what its path is read as. -/
def located (scheme : String) : Outcome (List Segment) → Outcome (Verdict Location)
  | .ok found => .ok (.ok ⟨scheme, found⟩)
  | .error (.malformedQuery problem) => .ok (.error problem)
  | .error f => .error f

/-- An address is read as a location exactly if its path is read as the segments of that. -/
theorem located_eq_ok {scheme : String} {x : Outcome (List Segment)} {l : Location} :
    located scheme x = .ok (.ok l) ↔ ∃ found, x = .ok found ∧ l = ⟨scheme, found⟩ := by
  cases x with
  | ok found =>
    constructor
    · intro h
      exact ⟨found, rfl, (Except.ok.inj (Except.ok.inj h)).symm⟩
    · rintro ⟨_, hfound, rfl⟩
      rw [Except.ok.inj hfound]
      rfl
  | error f =>
    constructor
    · intro h
      cases f <;> exact (nomatch h)
    · rintro ⟨_, hfound, -⟩
      exact (nomatch hfound)

/-- An address is read as its path is. -/
theorem read_path_located {scheme : String} (hs : ReadableScheme scheme) (path : List Char) :
    read (String.ofList (scheme.toList ++ schemeMark ++ path)) = located scheme (segments path) := by
  rw [read_path hs]
  cases segments path with
  | ok found => rfl
  | error f => cases f <;> rfl

/-- An address that ends in a head is read with more behind it as its segments, of which the last head
goes on with what is behind. -/
theorem EndsInHead.read_append {uri scheme head : String} {before : List Segment}
    (h : EndsInHead uri scheme before head) (hmore : StopsHead more) :
    Address.read (String.ofList (uri.toList ++ more)) =
      located scheme ((readSegment head.toList (.ofText more)).bind fun next =>
        readSegments (next.1 :: before.reverse) next.2) := by
  obtain ⟨hscheme, path, huri, hsegments⟩ := path_of_read h.read
  have hpath : path ≠ [] := by
    rintro rfl
    rw [segments, readSegments_nil [] rfl] at hsegments
    exact List.cons_ne_nil _ _ (List.append_eq_nil_iff.mp (Except.ok.inj hsegments).symm).2
  have hend := h.unslashed
  rw [huri, List.getLast?_append_of_ne_nil _ hpath] at hend
  rw [huri, List.append_assoc, read_path_located hscheme, segments,
    readSegments_ahead (h.level path huri) hpath hend hsegments h.unopened hmore]

/-- A text in the basic range is level. -/
theorem IsAscii.level (h : IsAscii text) : Level text :=
  fun c hc => upperChar_length (h c hc)

/-- The canonical text of segments is in the basic range. -/
theorem isAscii_pathText {segments : List Segment} (hw : ∀ s ∈ segments, s.Writable) :
    IsAscii (pathText segments) := by
  have hdigits : ∀ {n : Int}, (Numeral.intText? n).isSome → IsAscii (intText n) := fun hn c hc =>
    Percent.ascii_of_isUnreserved (Numeral.isUnreserved_of_mem_intText (intText?_eq hn) hc)
  have hqualifier : ∀ s ∈ segments, IsAscii (qualifierText s.qualifier) := by
    intro s hs c hc
    obtain ⟨head, qualifier⟩ := s
    cases qualifier with
    | none => exact absurd hc List.not_mem_nil
    | some q =>
      cases q with
      | query r => exact absurd hc List.not_mem_nil
      | id n =>
        rcases List.mem_cons.mp hc with rfl | hc
        · decide
        · exact hdigits ((hw _ hs).id n rfl) c hc
      | index n =>
        have hopening : IsAscii "%5B".toList := by decide
        have hclosing : IsAscii "%5D".toList := by decide
        rcases List.mem_append.mp hc with hc | hc
        · rcases List.mem_append.mp hc with hc | hc
          · exact hopening c hc
          · exact hdigits ((hw _ hs).index n rfl) c hc
        · exact hclosing c hc
  intro c hc
  obtain ⟨s, hs, hc⟩ := List.mem_flatMap.mp hc
  rcases List.mem_cons.mp hc with rfl | hc
  · decide
  · rcases List.mem_append.mp hc with hc | hc
    · exact isAscii_encode s.head.toList c hc
    · exact hqualifier s hs c hc

/-- The canonical address of a bare last segment ends in its head. -/
theorem endsInHead_canonicalText {scheme head : String} {before : List Segment}
    (hs : ReadableScheme scheme) (hw : Writable (before ++ [⟨head, none⟩])) :
    EndsInHead (String.ofList (canonicalText scheme (before ++ [⟨head, none⟩]))) scheme before head
    where
  read := read_canonicalText hs hw
  unopened := fun s hmem => (hw.each s hmem).unopened
  level := by
    intro path hpath
    rw [String.toList_ofList, canonicalText] at hpath
    rw [← List.append_cancel_left hpath]
    exact (isAscii_pathText hw.each).level.mono (List.tail_suffix _).isInfix
  unslashed := by
    have hhead := hw.each _ (List.mem_append_right before List.mem_cons_self)
    obtain ⟨start, last, hlast, hne, hslash⟩ := segmentText_eq_append hhead
    rw [String.toList_ofList, canonicalText_concat, hlast]
    intro hend
    have hmem : '/' ∈ last := by
      split at hend
      · rw [← List.append_assoc, List.getLast?_append_of_ne_nil _ hne] at hend
        exact List.mem_of_getLast? hend
      · rw [← List.cons_append, ← List.append_assoc, List.getLast?_append_of_ne_nil _ hne] at hend
        exact List.mem_of_getLast? hend
    exact hslash hmem

/-- The spellings of a question mark: as it is, or coded in letters of one case. -/
def questionMarks : List (List Char) :=
  ["?".toList, "%3F".toList, "%3f".toList]

section Question

variable {mark : List Char} (hmark : mark ∈ questionMarks) (query : List Char)

include hmark

/-- A question mark of any spelling is one, and opens no bracket. -/
theorem questionLength?_mark :
    openingLength? (mark ++ query) = none ∧ questionLength? (mark ++ query) = some mark.length := by
  simp only [questionMarks, List.mem_cons, List.not_mem_nil, or_false] at hmark
  rcases hmark with rfl | rfl | rfl <;> exact ⟨rfl, rfl⟩

/-- A question mark ends a head. -/
theorem stopsHead_mark : StopsHead (mark ++ query) := by
  refine .inr ?_
  unfold endsHead
  rw [(questionLength?_mark hmark query).2]
  exact Bool.or_true _

/-- There is no bracket before a question mark. -/
theorem readBracket_mark :
    readBracket (.ofText (mark ++ query)) = .ok ⟨[], none, .ofText (mark ++ query)⟩ := by
  exact readBracket_eq_ok.mpr (.none (questionLength?_mark hmark query).1)

/-- What stands behind a question mark is a query up to a slash. -/
theorem readQuery_mark :
    readQuery (.ofText (mark ++ query)) = (readRequest (query.takeWhile (· != '/'))).map fun r =>
      (some r, (Remainder.ofText (mark ++ query)).drop
        (mark.length + (query.takeWhile (· != '/')).length)) := by
  unfold readQuery
  rw [text_ofText, (questionLength?_mark hmark query).2]
  dsimp only
  rw [List.drop_left]

/-- A question mark of any spelling starts a query, which the end of the text ends. -/
theorem readSegment_mark (hslash : '/' ∉ query) (head : List Char) :
    ∃ after : Remainder, after.text = [] ∧ readSegment head (.ofText (mark ++ query)) =
      (readRequest query).map fun r => (asked (String.ofList head) r, after) := by
  have htake : query.takeWhile (· != '/') = query := by
    rw [List.takeWhile_eq_self_iff]
    intro c hc
    rw [bne_iff_ne]
    rintro rfl
    exact hslash hc
  have hquery := readQuery_mark hmark query
  rw [htake] at hquery
  refine ⟨(Remainder.ofText (mark ++ query)).drop (mark.length + query.length), ?_, ?_⟩
  · rw [Remainder.text_drop, text_ofText, ← List.length_append, List.drop_length]
  · unfold readSegment
    rw [readBracket_mark hmark]
    simp only [bind, Except.bind]
    rw [hquery]
    cases readRequest query with
    | error f => rfl
    | ok r => simp only [Except.map, List.append_nil, asked]

/-- A position before a question mark is lost. -/
theorem readSegment_position_mark {b : List Char × List Char} (hb : b ∈ brackets) {n : Int}
    {digits : List Char} (hn : Numeral.intText? n = some digits) (head : List Char) :
    readSegment head (.ofText (b.1 ++ (digits ++ (b.2 ++ (mark ++ query))))) =
      readSegment head (.ofText (mark ++ query)) := by
  unfold readSegment
  rw [readBracket_between (isBracket_of_mem hb) (isSigned_intText hn) (Numeral.isInteger_intText hn),
    readInteger_intText hn, readBracket_mark hmark]
  simp only [bind, Except.bind, Except.map]
  rw [readQuery_mark hmark]
  cases readRequest (query.takeWhile (· != '/')) <;> rfl

end Question

end ResourceAtlas.Address
