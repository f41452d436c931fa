import ResourceAtlas.Proofs.Address.QueryText
import ResourceAtlas.Proofs.Address.Written

/-!
# What the lexer guarantees

Whatever address was read, its integers and counts can be written again, a head without an opening
bracket has no question mark, and no such head is an integer that should have become an identifier.
One step of the lexer keeps these facts, so all of its runs do.
-/

namespace ResourceAtlas.Address

open Number Query Text

/-- What holds of every segment that was read. -/
structure Segment.Lexed (s : Segment) : Prop where
  /-- A question mark in the head comes behind an opening bracket. -/
  unasked : '[' ∉ s.head.toList → '?' ∉ s.head.toList
  /-- A position can be written. -/
  index : ∀ n, s.qualifier = some (.index n) → (Numeral.intText? n).isSome
  /-- An identifier can be written. -/
  id : ∀ n, s.qualifier = some (.id n) → (Numeral.intText? n).isSome
  /-- The counts of a query can be written. -/
  query : ∀ r, s.qualifier = some (.query r) → r.Countable

/-- No segment, nearest first, has an integer as its head after a bare one, unless a bracket opens
in the head. -/
def Settled : List Segment → Prop
  | [] => True
  | s :: before =>
    ('[' ∉ s.head.toList → isBare before = true → Digit.isInteger s.head.toList = false) ∧
      Settled before

/-- An integer that was read can be written. -/
theorem intText?_of_readInteger {text : List Char} {n : Int} (h : readInteger text = .ok n) :
    (Numeral.intText? n).isSome := by
  unfold readInteger at h
  split at h
  · next m hm =>
    obtain rfl := Except.ok.inj h
    exact Numeral.intText?_of_integerValue hm
  · exact absurd h (by simp)

/-- A count that was read can be written. -/
theorem writableCount_of_readCount {name : String} {text : List Char} {n : Nat}
    (h : readCount name text = .ok n) : WritableCount n := by
  unfold readCount at h
  split at h
  · obtain ⟨m, hr, h⟩ := bind_eq_ok.mp h
    split at h
    · exact (nomatch h)
    · obtain rfl := Except.ok.inj h
      rw [WritableCount, Int.toNat_of_nonneg (by omega)]
      exact intText?_of_readInteger hr
  · exact absurd h (by simp)

/-- A key and a value keep the counts of a request such that they can be written. -/
theorem Request.Countable.add {r r' : Request} (hr : r.Countable) {key value : List Char}
    (h : r.add key value = .ok r') : r'.Countable := by
  unfold Request.add at h
  split at h
  · obtain rfl := Except.ok.inj h
    exact ⟨hr.limit, hr.offset⟩
  · split at h
    · obtain ⟨n, hn, h⟩ := bind_eq_ok.mp h
      obtain rfl := Except.ok.inj h
      refine ⟨fun m hm => ?_, hr.offset⟩
      obtain rfl := Option.some.inj hm
      exact writableCount_of_readCount hn
    · split at h
      · obtain ⟨n, hn, h⟩ := bind_eq_ok.mp h
        obtain rfl := Except.ok.inj h
        refine ⟨hr.limit, fun m hm => ?_⟩
        obtain rfl := Option.some.inj hm
        exact writableCount_of_readCount hn
      · split at h
        · obtain rfl := Except.ok.inj h
          exact ⟨hr.limit, hr.offset⟩
        · obtain rfl := Except.ok.inj h
          exact ⟨hr.limit, hr.offset⟩

/-- Parts keep the counts of a request such that they can be written. -/
theorem Request.Countable.addParts {parts : List (List Char)} {r r' : Request} (hr : r.Countable)
    (h : r.addParts parts = .ok r') : r'.Countable := by
  induction parts generalizing r with
  | nil =>
    obtain rfl := Except.ok.inj h
    exact hr
  | cons part parts ih =>
    rw [Request.addParts] at h
    obtain ⟨next, hp, h⟩ := bind_eq_ok.mp h
    refine ih ?_ h
    unfold Request.addPart at hp
    split at hp
    · obtain rfl := Except.ok.inj hp
      exact hr
    · exact hr.add hp

/-- The counts of a query that was read can be written. -/
theorem countable_of_readRequest {text : List Char} {r : Request} (h : readRequest text = .ok r) :
    r.Countable := by
  have hempty : Request.empty.Countable :=
    ⟨fun n hn => absurd hn (by simp [Request.empty]), fun n hn => absurd hn (by simp [Request.empty])⟩
  exact hempty.addParts h

/-- Only the digit three has the value three. -/
theorem eq_of_hexValue?_three {c : Char} (h : Percent.hexValue? c = some 3) : c = '3' := by
  apply Char.toNat_inj.mp
  have h3 : '3'.toNat = 0x33 := rfl
  unfold Percent.hexValue? at h
  dsimp only at h
  split_ifs at h
  all_goals
    have := Option.some.inj h
    omega

/-- Only the letter F has the value fifteen. -/
theorem eq_of_hexValue?_fifteen {c : Char} (h : Percent.hexValue? c = some 15) :
    c = 'F' ∨ c = 'f' := by
  have hF : 'F'.toNat = 0x46 := rfl
  have hf : 'f'.toNat = 0x66 := rfl
  unfold Percent.hexValue? at h
  dsimp only at h
  split_ifs at h
  · have := Option.some.inj h
    omega
  · have := Option.some.inj h
    exact .inl (Char.toNat_inj.mp (by omega))
  · have := Option.some.inj h
    exact .inr (Char.toNat_inj.mp (by omega))

/-- A hexadecimal digit is worth less than sixteen. -/
theorem hexValue?_lt {c : Char} {v : Nat} (h : Percent.hexValue? c = some v) : v < 16 := by
  unfold Percent.hexValue? at h
  dsimp only at h
  split_ifs at h
  all_goals
    have := Option.some.inj h
    omega

/-- The octet of a question mark is written by its own two digits alone. -/
theorem digits_of_question {high low : Char} {b : UInt8} (h : Percent.octet? high low = some b)
    (hb : b.toNat = 0x3F) : high = '3' ∧ (low = 'F' ∨ low = 'f') := by
  unfold Percent.octet? at h
  split at h
  · next hv lv hh hl =>
    have hlt := hexValue?_lt hh
    have llt := hexValue?_lt hl
    obtain rfl := Option.some.inj h
    rw [Utf8.toNat_octet (by omega)] at hb
    have h3 : hv = 3 := by omega
    have h15 : lv = 15 := by omega
    subst h3 h15
    exact ⟨eq_of_hexValue?_three hh, eq_of_hexValue?_fifteen hl⟩
  · exact absurd h (by simp)

/-- A text in which no query starts writes no octet of a question mark. -/
theorem question_not_mem_octets {text : List Char}
    (h : ∀ s, s <:+ text → questionLength? s = none) : (0x3F : UInt8) ∉ Percent.octets text := by
  induction text using Percent.octets.induct with
  | case1 => exact List.not_mem_nil
  | case2 high low rest b hb ih =>
    rw [Percent.octets, hb]
    rintro hmem
    rcases List.mem_cons.mp hmem with heq | hmem
    · obtain ⟨rfl, hlow⟩ := digits_of_question hb (by rw [← heq]; rfl)
      have hself := h _ List.suffix_rfl
      rcases hlow with rfl | rfl <;> exact absurd hself (by simp [questionLength?])
    · refine ih (fun s hs => h s (hs.trans ?_)) hmem
      exact ⟨['%', high, low], rfl⟩
  | case3 high low rest hnone ih =>
    rw [Percent.octets, hnone]
    rintro hmem
    rcases List.mem_append.mp hmem with hmem | hmem
    · exact absurd hmem (by decide)
    · exact ih (fun s hs => h s (hs.trans (List.suffix_cons _ _))) hmem
  | case4 c rest hother ih =>
    rw [Percent.octets.eq_3 c rest hother]
    rintro hmem
    rcases List.mem_append.mp hmem with hmem | hmem
    · have hc := Utf8.encodeChar_of_mem_ascii hmem (by decide)
      obtain rfl : '?' = c := Char.toNat_inj.mp hc
      exact absurd (h _ List.suffix_rfl) (by simp [questionLength?])
    · exact ih (fun s hs => h s (hs.trans (List.suffix_cons _ _))) hmem

/-- A text in which no query starts stands for no text with a question mark. -/
theorem question_not_mem_decode {text : List Char}
    (h : ∀ s, s <:+ text → questionLength? s = none) : '?' ∉ Percent.decode text :=
  fun hmem => question_not_mem_octets h
    (Utf8.octet_mem_of_mem_decode (c := '?') (by decide) (by decide) _ hmem)

/-- A query that starts in a text starts as well where more text follows. -/
theorem questionLength?_append {text : List Char} (h : (questionLength? text).isSome)
    (more : List Char) : (questionLength? (text ++ more)).isSome := by
  unfold questionLength? at h
  split at h
  · rfl
  · rfl
  · rfl
  · exact absurd h Bool.false_ne_true

/-- Inside a head no query starts. -/
theorem questionLength?_of_suffix_head {text s : List Char}
    (h : s <:+ text.take (headLength text)) : questionLength? s = none := by
  induction text generalizing s with
  | nil =>
    rw [List.take_nil, List.suffix_nil] at h
    rw [h]
    rfl
  | cons c text ih =>
    rw [headLength] at h
    split at h
    · rw [List.take_zero, List.suffix_nil] at h
      rw [h]
      rfl
    · next hend =>
      rw [List.take_succ_cons, List.suffix_cons_iff] at h
      rcases h with rfl | h
      · by_contra hsome
        apply hend
        have happ := questionLength?_append (Option.isSome_iff_ne_none.mpr hsome)
          (text.drop (headLength text))
        rw [List.cons_append, List.take_append_drop] at happ
        rw [endsHead, happ, Bool.or_true]
      · exact ih h

/-- A head has no question mark. -/
theorem question_not_mem_head (text : List Char) :
    '?' ∉ Percent.decode (text.take (headLength text)) :=
  question_not_mem_decode fun _ h => questionLength?_of_suffix_head h

/-- A text that starts with an opening bracket stands for one that does. -/
theorem open_mem_decode {text : List Char} {opening count : Nat}
    (h : openingLength? text = some opening) (hc : opening ≤ count) :
    '[' ∈ Percent.decode (text.take count) := by
  have hread : ∀ rest, Utf8.decode (0x5B :: rest) = '[' :: Utf8.decode rest :=
    fun rest => Utf8.decode_ascii (c := '[') (by decide) rest
  unfold openingLength? at h
  split at h
  · next rest =>
    obtain rfl := Option.some.inj h
    obtain ⟨k, rfl⟩ := Nat.exists_eq_add_of_le hc
    rw [Nat.add_comm, List.take_succ_cons, Percent.decode, Percent.octets_cons (by decide),
      show Utf8.encodeChar '[' = [0x5B] from rfl, List.singleton_append, hread]
    exact List.mem_cons_self
  · next rest =>
    obtain rfl := Option.some.inj h
    obtain ⟨k, rfl⟩ := Nat.exists_eq_add_of_le hc
    rw [Nat.add_comm, List.take_succ_cons, List.take_succ_cons, List.take_succ_cons,
      Percent.decode, Percent.octets, show Percent.octet? '5' 'B' = some 0x5B from rfl, hread]
    exact List.mem_cons_self
  · next rest =>
    obtain rfl := Option.some.inj h
    obtain ⟨k, rfl⟩ := Nat.exists_eq_add_of_le hc
    rw [Nat.add_comm, List.take_succ_cons, List.take_succ_cons, List.take_succ_cons,
      Percent.decode, Percent.octets, show Percent.octet? '5' 'b' = some 0x5B from rfl, hread]
    exact List.mem_cons_self
  · exact absurd h (by simp)

/-- A bracket adds nothing to the head or an opening bracket, and its position can be written. -/
theorem readBracket_lexed {r : Remainder} {b : Bracket} (h : readBracket r = .ok b) :
    (b.more = [] ∨ '[' ∈ b.more) ∧
      ∀ n, b.position = some n → (Numeral.intText? n).isSome := by
  cases readBracket_eq_ok.mp h with
  | none => exact ⟨.inl rfl, fun n hn => (nomatch hn)⟩
  | opened hopening =>
    exact ⟨.inr (open_mem_decode hopening (Nat.le_add_right _ _)), fun n hn => (nomatch hn)⟩
  | position _ _ _ hn =>
    refine ⟨.inl rfl, fun m hm => ?_⟩
    obtain rfl := Option.some.inj hm
    exact intText?_of_readInteger hn
  | named => exact ⟨.inr List.mem_cons_self, fun n hn => (nomatch hn)⟩

/-- The counts of a query that was read can be written. -/
theorem readQuery_lexed {r rest : Remainder} {request : Option Request}
    (h : readQuery r = .ok (request, rest)) : ∀ q, request = some q → q.Countable := by
  unfold readQuery at h
  split at h
  · obtain ⟨rfl, -⟩ := Prod.mk.inj (Except.ok.inj h)
    exact fun q hq => absurd hq (by simp)
  · next mark hmark =>
    obtain ⟨q, hr, h⟩ := map_eq_ok.mp h
    obtain ⟨rfl, -⟩ := Prod.mk.inj h
    intro p hp
    obtain rfl := Option.some.inj hp
    exact countable_of_readRequest hr

/-- A segment that was read holds the head that it was read for, perhaps with a bracket behind. -/
theorem readSegment_lexed {head : List Char} {r rest : Remainder} {s : Segment}
    (hask : '?' ∉ head) (h : readSegment head r = .ok (s, rest)) :
    s.Lexed ∧ ('[' ∉ s.head.toList → s.head.toList = head) := by
  obtain ⟨b, request, hb, hq, rfl⟩ := readSegment_eq_ok.mp h
  obtain ⟨hmore, hposition⟩ := readBracket_lexed hb
  have hrequest := readQuery_lexed hq
  have hhead : '[' ∉ (String.ofList (head ++ b.more)).toList →
      (String.ofList (head ++ b.more)).toList = head := by
    rw [String.toList_ofList]
    intro hno
    rcases hmore with hnil | hmem
    · rw [hnil, List.append_nil]
    · exact absurd (List.mem_append_right head hmem) hno
  have hqualifier : ∀ qualifier : Qualifier,
      (request.map .query).or (b.position.map .index) = some qualifier →
        (∃ q, request = some q ∧ .query q = qualifier) ∨
          ∃ n, b.position = some n ∧ .index n = qualifier := fun qualifier hfound => by
    rcases Option.or_eq_some_iff.mp hfound with hfound | ⟨-, hfound⟩
    · exact .inl (Option.map_eq_some_iff.mp hfound)
    · exact .inr (Option.map_eq_some_iff.mp hfound)
  refine ⟨⟨fun hno => by rw [hhead hno]; exact hask, fun n hn => ?_, fun n hn => ?_,
    fun q hn => ?_⟩, hhead⟩
  · rcases hqualifier _ hn with ⟨p, -, heq⟩ | ⟨m, hm, heq⟩
    · exact (nomatch heq)
    · exact hposition n (hm.trans (congrArg some (Qualifier.index.inj heq)))
  · rcases hqualifier _ hn with ⟨p, -, heq⟩ | ⟨m, -, heq⟩ <;> exact (nomatch heq)
  · rcases hqualifier _ hn with ⟨p, hp, heq⟩ | ⟨m, -, heq⟩
    · exact hrequest q (hp.trans (congrArg some (Qualifier.query.inj heq)))
    · exact (nomatch heq)

/-- The head of the last segment is that of the one that lacks a qualifier. -/
theorem eq_of_unqualified? {before others : List Segment} {last : String}
    (h : unqualified? before = some (last, others)) : before = ⟨last, none⟩ :: others := by
  unfold unqualified? at h
  split at h
  · obtain ⟨rfl, rfl⟩ := Prod.mk.inj (Option.some.inj h)
    rfl
  · exact absurd h (by simp)

/-- What one step of the lexer reads behind segments, and what it leaves. -/
inductive NextAt (before : List Segment) (r : Remainder) : List Segment → Remainder → Prop
  /-- An integer becomes the identifier of a last segment that has no qualifier. -/
  | identifier {last : String} {others : List Segment} {n : Int}
      (hbefore : before = ⟨last, none⟩ :: others)
      (hint : Digit.isInteger (Percent.decode (r.text.take (headLength r.text))) = true)
      (hn : readInteger (Percent.decode (r.text.take (headLength r.text))) = .ok n) :
      NextAt before r (⟨last, some (.id n)⟩ :: others) (r.drop (headLength r.text))
  /-- Any other head starts a segment. -/
  | segment {s : Segment} {rest : Remainder}
      (hhead : (if Digit.isInteger (Percent.decode (r.text.take (headLength r.text))) then
        unqualified? before else none) = none)
      (hs : readSegment (Percent.decode (r.text.take (headLength r.text)))
        (r.drop (headLength r.text)) = .ok (s, rest)) :
      NextAt before r (s :: before) rest

/-- One step of the lexer reads in one of these ways. -/
theorem readNext_eq_ok {before found : List Segment} {r rest : Remainder} :
    readNext before r = .ok (found, rest) ↔ NextAt before r found rest := by
  unfold readNext
  dsimp only
  constructor
  · intro h
    split at h
    · next last others hfold =>
      split at hfold
      · next hint =>
        obtain ⟨n, hn, h⟩ := bind_eq_ok.mp h
        obtain ⟨rfl, rfl⟩ := Prod.mk.inj (Except.ok.inj h)
        exact .identifier (eq_of_unqualified? hfold) hint hn
      · exact (nomatch hfold)
    · next hfold =>
      obtain ⟨⟨s, after⟩, hs, h⟩ := bind_eq_ok.mp h
      obtain ⟨rfl, rfl⟩ := Prod.mk.inj (Except.ok.inj h)
      exact .segment hfold hs
  · intro h
    cases h with
    | identifier hbefore hint hn =>
      subst hbefore
      rw [if_pos hint]
      exact bind_eq_ok.mpr ⟨_, hn, rfl⟩
    | segment hhead hs =>
      rw [hhead]
      exact bind_eq_ok.mpr ⟨_, hs, rfl⟩

/-- One step of the lexer keeps what it guarantees. -/
theorem readNext_lexed {before found : List Segment} {r rest : Remainder}
    (hall : ∀ s ∈ before, s.Lexed) (hsettled : Settled before)
    (h : readNext before r = .ok (found, rest)) : (∀ s ∈ found, s.Lexed) ∧ Settled found := by
  cases readNext_eq_ok.mp h with
  | @identifier last others n hbefore _ hn =>
    subst hbefore
    have hlast := hall _ List.mem_cons_self
    refine ⟨fun s hs => ?_, hsettled⟩
    rcases List.mem_cons.mp hs with rfl | hs
    · refine ⟨hlast.unasked, fun m hm => absurd hm (by simp), fun m hm => ?_,
        fun q hq => absurd hq (by simp)⟩
      obtain rfl := Qualifier.id.inj (Option.some.inj hm)
      exact intText?_of_readInteger hn
    · exact hall s (List.mem_cons_of_mem _ hs)
  | segment hfold hs =>
    obtain ⟨hlexed, hhead⟩ := readSegment_lexed (question_not_mem_head r.text) hs
    refine ⟨fun t ht => ?_, fun hno hbare => ?_, hsettled⟩
    · rcases List.mem_cons.mp ht with rfl | ht
      · exact hlexed
      · exact hall t ht
    · rw [hhead hno]
      by_contra hint
      rw [Bool.not_eq_false] at hint
      rw [if_pos hint] at hfold
      rw [isBare, hfold] at hbare
      exact Bool.false_ne_true hbare

/-- A run of the lexer keeps what it guarantees. -/
theorem readSegments_lexed (before : List Segment) (r : Remainder) {found : List Segment}
    (hall : ∀ s ∈ before, s.Lexed) (hsettled : Settled before)
    (h : readSegments before r = .ok found) : (∀ s ∈ found, s.Lexed) ∧ Settled found.reverse := by
  induction before, r using readSegments.induct with
  | case1 before r hr =>
    rw [readSegments_nil before hr] at h
    obtain rfl := Except.ok.inj h
    rw [List.reverse_reverse]
    exact ⟨fun s hs => hall s (List.mem_reverse.mp hs), hsettled⟩
  | case2 before r tail hr ih =>
    rw [readSegments_drop hr] at h
    exact ih hall hsettled h
  | case3 before r c tail hr hc f hn =>
    rw [readSegments_next hr hc, hn] at h
    exact (nomatch h)
  | case4 before r c tail hr hc next rest hn ih =>
    rw [readSegments_next hr hc, hn] at h
    obtain ⟨hnext, hsettled⟩ := readNext_lexed hall hsettled hn
    exact ih hnext hsettled h

/-- What holds of segments, nearest first, holds of those that were read before the last ones. -/
theorem Settled.of_append {more before : List Segment} (h : Settled (more ++ before)) :
    Settled before := by
  induction more with
  | nil => exact h
  | cons t more ih => exact ih h.2

/-- Heads without brackets are no integers that should have become identifiers. -/
theorem unfolded_of_settled {segments before : List Segment}
    (hopen : ∀ s ∈ segments, '[' ∉ s.head.toList)
    (h : Settled (segments.reverse ++ before)) : Unfolded (isBare before) segments := by
  induction segments generalizing before with
  | nil => trivial
  | cons s segments ih =>
    rw [List.reverse_cons, List.append_assoc, List.singleton_append] at h
    have hrest := ih (fun t ht => hopen t (List.mem_cons_of_mem s ht)) h
    rw [isBare_cons] at hrest
    exact ⟨h.of_append.1 (hopen s List.mem_cons_self), hrest⟩

/-- The segments of a path are as the lexer guarantees. -/
theorem segments_lexed {path : List Char} {found : List Segment} (h : segments path = .ok found) :
    (∀ s ∈ found, s.Lexed) ∧ Settled found.reverse :=
  readSegments_lexed [] (.ofText path) (fun _ hs => absurd hs List.not_mem_nil) trivial h

/-- What reading an address found: a scheme that ends at the first mark, and segments. -/
theorem parts_of_read {address : String} {location : Location}
    (h : read address = .ok (.ok location)) :
    location.scheme ≠ "" ∧
      (∃ path, Split.atWord "://".toList address.toList = some (location.scheme.toList, path)) ∧
      (∀ s ∈ location.segments, s.Lexed) ∧ Settled location.segments.reverse := by
  unfold read at h
  split at h
  · exact absurd h (by simp)
  · exact absurd h (by simp)
  · next scheme path hne hat =>
    split at h
    · next found hfound =>
      obtain rfl := Except.ok.inj (Except.ok.inj h)
      refine ⟨fun hempty => ?_, ⟨path, ?_⟩, segments_lexed hfound⟩
      · rw [String.ofList_eq_empty_iff] at hempty
        exact hne hempty
      · have hscheme : (String.ofList scheme).toList = scheme := String.toList_ofList
        rw [hscheme]
        exact hat
    · exact absurd h (by simp)
    · exact absurd h (by simp)

end ResourceAtlas.Address
