import ResourceAtlas.Proofs.Json.Reading
import ResourceAtlas.Service.Rpc

/-!
# Every message is answered once

A server replies to a message with one envelope, which has the identifier of the request and either a result
or an error; only a notification has no reply. Whatever breaks off while a method is at work ends in the
envelope. A message breaks the server off exactly if its caller is admitted and its text breaks off the
reading of JSON, for a run of too many digits or for too many opening brackets.
-/

namespace ResourceAtlas.Service

open Json Number

/-- A message in which a method is asked for: a mapping with a text as its method. -/
def Asks (message : String) (entries : Keyed Value) (method : String) : Prop :=
  Json.read message = .ok (.mapping entries) ∧ Keyed.get? "method" entries = some (.text method)

/-- The identifier in the entries of a message; none is as good as nothing. -/
def identifierIn (entries : Keyed Value) : Value :=
  (Keyed.get? "id" entries).getD .null

/-- A message that only notifies: the method is that of a notification, and there is no identifier. -/
def Notifies (message : String) : Prop :=
  ∃ entries method, Asks message entries method ∧ notificationMark.toList <+: method.toList ∧
    (identifierIn entries).isNull = true

/-- A reply has the form of an envelope: its version, an identifier, and a result or an error but not
both. -/
def Envelope (id v : Value) : Prop :=
  ∃ entries, v = .mapping entries ∧ Keyed.get? "jsonrpc" entries = some (.text "2.0") ∧
    Keyed.get? "id" entries = some id ∧
    Keyed.has "result" entries = !Keyed.has "error" entries

/-- The identifier that a reply bears: that of the request, if the caller is admitted and there is
one. -/
def BearsIdentifier (s : Server) (token : Option String) (message : String) (id : Value) : Prop :=
  (∀ entries method, s.admits token = true → Asks message entries method → id = identifierIn entries) ∧
    ((s.admits token = false ∨ ∀ entries method, ¬ Asks message entries method) → id = .null)

variable {s : Server} {message : String} {token : Option String} {d : Desk}

/-- Every reply is an envelope. -/
theorem Reply.envelope (r : Reply) : Envelope r.id r.value := by
  obtain ⟨id, result⟩ := r
  cases result with
  | ok v => exact ⟨_, rfl, rfl, rfl, rfl⟩
  | error e => exact ⟨_, rfl, rfl, rfl, rfl⟩

/-- A method without a reply is that of a notification, and comes without an identifier. -/
theorem isNotification_iff (id : Value) (method : String) :
    isNotification id method = true ↔
      notificationMark.toList <+: method.toList ∧ id.isNull = true := by
  unfold isNotification
  rw [Bool.and_eq_true, List.isPrefixOf_iff_prefix]
  exact And.comm

/-- A message asks for one method with one mapping. -/
theorem Asks.unique {entries entries' : Keyed Value} {method method' : String}
    (h : Asks message entries method) (h' : Asks message entries' method') :
    entries = entries' ∧ method = method' := by
  obtain rfl := Value.mapping.inj (Except.ok.inj (h.1.symm.trans h'.1))
  exact ⟨rfl, Value.text.inj (Option.some.inj (h.2.symm.trans h'.2))⟩

/-- A message that asks for a method notifies if the method is that of a notification and there is no
identifier. -/
theorem Asks.notifies_iff {entries : Keyed Value} {method : String} (h : Asks message entries method) :
    Notifies message ↔ isNotification (identifierIn entries) method = true := by
  rw [isNotification_iff]
  constructor
  · rintro ⟨entries', method', h', hmark, hid⟩
    obtain ⟨rfl, rfl⟩ := h.unique h'
    exact ⟨hmark, hid⟩
  · rintro ⟨hmark, hid⟩
    exact ⟨entries, method, h, hmark, hid⟩

/-- What answering a message comes to. -/
inductive Answers (s : Server) (message : String) (token : Option String) (d : Desk) :
    Outcome (Option Reply) × Desk → Prop
  /-- The caller is not admitted. -/
  | refused (h : s.admits token = false) :
      Answers s message token d (.ok (refusedReply .authenticationRequired), d)
  /-- Reading the message breaks off. -/
  | broken {f : Fault} (h : s.admits token = true) (hr : Json.read message = .error f)
      (hf : ∀ text, f ≠ .malformedData text) : Answers s message token d (.error f, d)
  /-- The message is no JSON, or asks for no method. -/
  | unasked {e : RpcError} (h : s.admits token = true)
      (hr : ∀ f, Json.read message = .error f → ∃ text, f = .malformedData text)
      (ha : ∀ entries method, ¬ Asks message entries method) :
      Answers s message token d (.ok (refusedReply e), d)
  /-- The message only notifies. -/
  | notified (h : s.admits token = true) (hn : Notifies message) :
      Answers s message token d (.ok none, d)
  /-- The message is a request. -/
  | replied {entries : Keyed Value} {method : String} {result : Except RpcError Value} {d' : Desk}
      (h : s.admits token = true) (ha : Asks message entries method) (hn : ¬ Notifies message) :
      Answers s message token d (.ok (some ⟨identifierIn entries, result⟩), d')

/-- Answering a message comes to one of these. -/
theorem answers_answerMessage (s : Server) (message : String) (token : Option String) (d : Desk) :
    Answers s message token d (answerMessage s message token d) := by
  unfold answerMessage
  cases h : s.admits token with
  | false => exact .refused h
  | true =>
    rw [Bool.not_true, if_neg Bool.false_ne_true]
    split
    · next text hr =>
      refine .unasked h (fun f hf => ⟨text, ?_⟩) fun entries method ha => (nomatch hr.symm.trans ha.1)
      exact (Except.error.inj (hr.symm.trans hf)).symm
    · next f hf hr => exact .broken h hr fun text heq => hf text heq
    · next entries hr =>
      have hok : ∀ f, Json.read message = .error f → ∃ text, f = .malformedData text :=
        fun f hf => (nomatch hr.symm.trans hf)
      split
      · next method hm =>
        have ha : Asks message entries method := ⟨hr, hm⟩
        unfold answerRequest
        dsimp only
        cases hn : isNotification (identifierIn entries) method with
        | true =>
          rw [show (Keyed.get? "id" entries).getD .null = identifierIn entries from rfl, hn]
          exact .notified h (ha.notifies_iff.mpr hn)
        | false =>
          rw [show (Keyed.get? "id" entries).getD .null = identifierIn entries from rfl, hn]
          refine .replied h ha fun hno => ?_
          exact absurd (hn.symm.trans (ha.notifies_iff.mp hno)) Bool.false_ne_true
      · next hno =>
        refine .unasked h hok fun entries' method ha => ?_
        obtain rfl := Value.mapping.inj (Except.ok.inj (hr.symm.trans ha.1))
        exact hno method ha.2
    · next v hv hr =>
      refine .unasked h (fun f hf => (nomatch hr.symm.trans hf)) fun entries method ha => ?_
      exact hv entries (Except.ok.inj (hr.symm.trans ha.1))

namespace Answers

variable {p : Outcome (Option Reply) × Desk} (h : Answers s message token d p)
include h

/-- Answering breaks off exactly if the caller is admitted and reading the message breaks off. -/
theorem error_iff (f : Fault) : p.1 = .error f ↔
    s.admits token = true ∧ Json.read message = .error f ∧ ∀ text, f ≠ .malformedData text := by
  constructor
  · intro hp
    cases h with
    | broken hadmits hr hf =>
      obtain rfl := Except.error.inj hp
      exact ⟨hadmits, hr, hf⟩
    | _ => exact (nomatch hp)
  · rintro ⟨hadmits, hr, hf⟩
    cases h with
    | refused hrefused => exact absurd (hrefused.symm.trans hadmits) Bool.false_ne_true
    | broken _ hr' _ => exact congrArg Except.error (Except.error.inj (hr'.symm.trans hr))
    | unasked _ hok _ =>
      obtain ⟨text, htext⟩ := hok f hr
      exact absurd htext (hf text)
    | notified _ hn =>
      obtain ⟨entries, method, ha, -⟩ := hn
      exact (nomatch hr.symm.trans ha.1)
    | replied _ ha _ => exact (nomatch hr.symm.trans ha.1)

/-- There is no reply exactly if the caller is admitted and the message only notifies. -/
theorem none_iff : p.1 = .ok none ↔ s.admits token = true ∧ Notifies message := by
  constructor
  · intro hp
    cases h with
    | notified hadmits hn => exact ⟨hadmits, hn⟩
    | broken => exact (nomatch hp)
    | _ => exact (nomatch Except.ok.inj hp)
  · rintro ⟨hadmits, hn⟩
    obtain ⟨entries, method, ha, -⟩ := id hn
    cases h with
    | refused hrefused => exact absurd (hrefused.symm.trans hadmits) Bool.false_ne_true
    | broken _ hr _ => exact (nomatch hr.symm.trans ha.1)
    | unasked _ _ hno => exact absurd ha (hno entries method)
    | notified => rfl
    | replied _ _ hno => exact absurd hn hno

/-- A reply bears the identifier of the request, and none where there is no request. -/
theorem identifier {reply : Reply} (hp : p.1 = .ok (some reply)) :
    BearsIdentifier s token message reply.id := by
  cases h with
  | broken => exact (nomatch hp)
  | notified => exact (nomatch Except.ok.inj hp)
  | refused hrefused =>
    obtain rfl := Option.some.inj (Except.ok.inj hp)
    exact ⟨fun _ _ hadmits => absurd (hrefused.symm.trans hadmits) Bool.false_ne_true, fun _ => rfl⟩
  | unasked _ _ hno =>
    obtain rfl := Option.some.inj (Except.ok.inj hp)
    exact ⟨fun entries method _ ha => absurd ha (hno entries method), fun _ => rfl⟩
  | replied hadmits ha _ =>
    obtain rfl := Option.some.inj (Except.ok.inj hp)
    refine ⟨fun entries method _ ha' => congrArg identifierIn (ha.unique ha').1, ?_⟩
    rintro (hrefused | hno)
    · exact absurd (hrefused.symm.trans hadmits) Bool.false_ne_true
    · exact absurd ha (hno _ _)

/-- What is refused leaves the desk as it was. -/
theorem desk_eq (hrefused : s.admits token = false) : p.2 = d := by
  cases h with
  | replied hadmits => exact absurd (hrefused.symm.trans hadmits) Bool.false_ne_true
  | _ => rfl

end Answers

/-- **Every message is answered once.** Answering breaks off exactly if the caller is admitted and reading
the message breaks off, which takes a run of too many digits or too many opening brackets. There is no reply
exactly to what only notifies, and every reply is an envelope that bears the identifier of the request. What
is refused leaves the desk as it was. -/
theorem answerMessage_answered (s : Server) (message : String) (token : Option String) (d : Desk) :
    (∀ f, (answerMessage s message token d).1 = .error f ↔
      s.admits token = true ∧ Json.read message = .error f ∧ ∀ text, f ≠ .malformedData text) ∧
    (∀ f, (answerMessage s message token d).1 = .error f →
      (∃ n, Numeral.maxDigits < n ∧ HasRun message n) ∨
        deepest < message.toList.countP isOpening) ∧
    ((answerMessage s message token d).1 = .ok none ↔ s.admits token = true ∧ Notifies message) ∧
    (∀ reply, (answerMessage s message token d).1 = .ok (some reply) →
      Envelope reply.id reply.value ∧ BearsIdentifier s token message reply.id) ∧
    (s.admits token = false → (answerMessage s message token d).2 = d) := by
  have h := answers_answerMessage s message token d
  refine ⟨h.error_iff, fun f hf => ?_, h.none_iff, fun reply hp => ⟨reply.envelope, h.identifier hp⟩,
    h.desk_eq⟩
  obtain ⟨-, hr, hdata⟩ := (h.error_iff f).mp hf
  rcases Json.read_error hr with ⟨text, htext⟩ | ⟨n, -, hlong, hrun⟩ | ⟨container, -, hdeep⟩
  · exact absurd htext (hdata text)
  · exact .inl ⟨n, hlong, hrun⟩
  · exact .inr hdeep

/-- A request with an identifier of so many digits, all of them ones. -/
def numbered (count : Nat) : String :=
  String.ofList (['\x7b', '"', 'i', 'd', '"', ':'] ++ List.replicate count '1' ++
    ',' :: "\"method\":\"ping\"\x7d".toList)

/-- A number of too many digits is not read. -/
theorem readNumber_overlong {n : Nat} (h : Numeral.maxDigits < n + 1) (position : Nat)
    (rest : List Char) : readNumber ⟨position, List.replicate (n + 1) '1' ++ ',' :: rest⟩ =
      .error (.tooManyDigits (n + 1)) := by
  have hwhole : wholeDigits (List.replicate (n + 1) '1' ++ ',' :: rest) = List.replicate (n + 1) '1' := by
    have hdigits : ∀ c ∈ List.replicate (n + 1) '1', isDigit c = true := by
      intro c hc
      rw [List.eq_of_mem_replicate hc]
      rfl
    have hrun : (List.replicate (n + 1) '1' ++ ',' :: rest).takeWhile isDigit =
        List.replicate (n + 1) '1' := by
      rw [List.takeWhile_append_of_pos hdigits, List.takeWhile_cons_of_neg (by decide), List.append_nil]
    exact hrun
  have hbehind : (List.replicate (n + 1) '1' ++ ',' :: rest).drop
      (List.replicate (n + 1) '1').length = ',' :: rest := List.drop_left
  have hsign : (List.replicate (n + 1) '1' ++ ',' :: rest).take
      (if (List.replicate (n + 1) '1' ++ ',' :: rest).head? = some '-' then 1 else 0) = [] := rfl
  have hsome : (List.replicate (n + 1) '1').isEmpty = false := rfl
  unfold readNumber
  dsimp only
  rw [hsign]
  simp only [List.length_nil, List.drop_zero, List.nil_append, hwhole, hbehind, hsome]
  rw [List.length_replicate]
  simp [fraction, exponent, h]

/-- An identifier that is not read breaks off the reading of its entries. -/
theorem readEntries_id {digits : List Char} {e : Malformed}
    (h : ∀ position, readNumber ⟨position, '1' :: digits⟩ = .error e) (fuel levels position : Nat)
    (before : Keyed Value) : readEntries (fuel + 2) levels before
      ⟨position, '"' :: 'i' :: 'd' :: '"' :: ':' :: '1' :: digits⟩ = .error e := by
  have hquote : expect '"' "Expecting property name enclosed in double quotes"
      ⟨position, '"' :: 'i' :: 'd' :: '"' :: ':' :: '1' :: digits⟩ =
        .ok ⟨position + 1, 'i' :: 'd' :: '"' :: ':' :: '1' :: digits⟩ := rfl
  have hkey : readText ⟨position + 1, 'i' :: 'd' :: '"' :: ':' :: '1' :: digits⟩ =
      .ok ("id", ⟨position + 4, ':' :: '1' :: digits⟩) := rfl
  have hcolon : expect ':' "Expecting ':' delimiter"
      (skipBlanks ⟨position + 4, ':' :: '1' :: digits⟩) = .ok ⟨position + 5, '1' :: digits⟩ := rfl
  have hvalue : readValue (fuel + 1) levels (skipBlanks ⟨position + 5, '1' :: digits⟩) =
      readNumber ⟨position + 5, '1' :: digits⟩ := rfl
  rw [readEntries, hquote]
  simp only [bind, Except.bind]
  rw [hkey]
  dsimp only
  rw [hcolon]
  dsimp only
  rw [hvalue, h]

/-- A request with an identifier of too many digits is not read. -/
theorem read_numbered {n : Nat} (h : Numeral.maxDigits < n + 1) :
    Json.read (numbered (n + 1)) = .error (.tooManyDigits (n + 1)) := by
  have hnumber := readNumber_overlong h
  generalize htail : List.replicate n '1' ++ ',' :: "\"method\":\"ping\"\x7d".toList = digits
  have htext : (numbered (n + 1)).toList =
      '\x7b' :: '"' :: 'i' :: 'd' :: '"' :: ':' :: '1' :: digits := by
    rw [numbered, String.toList_ofList, ← htail, List.replicate_succ, List.append_assoc]
    simp only [List.cons_append, List.nil_append]
  have hentries : ∀ fuel, readEntries (fuel + 2) (deepest - 1) []
      ⟨1, '"' :: 'i' :: 'd' :: '"' :: ':' :: '1' :: digits⟩ = .error (.tooManyDigits (n + 1)) := by
    refine fun fuel => readEntries_id (fun position => ?_) fuel _ 1 []
    rw [← htail]
    exact hnumber position _
  have hwhole : ∀ fuel, readValue (fuel + 3) deepest
      (skipBlanks ⟨0, '\x7b' :: '"' :: 'i' :: 'd' :: '"' :: ':' :: '1' :: digits⟩) =
        .error (.tooManyDigits (n + 1)) := by
    intro fuel
    have hopen : readValue (fuel + 3) deepest
        (skipBlanks ⟨0, '\x7b' :: '"' :: 'i' :: 'd' :: '"' :: ':' :: '1' :: digits⟩) =
          (readEntries (fuel + 2) (deepest - 1) []
            ⟨1, '"' :: 'i' :: 'd' :: '"' :: ':' :: '1' :: digits⟩).map fun p => (.mapping p.1, p.2) := rfl
    rw [hopen, hentries]
    rfl
  unfold Json.read readWhole
  rw [htext]
  obtain ⟨fuel, hfuel⟩ : ∃ fuel, 2 * ('\x7b' :: '"' :: 'i' :: 'd' :: '"' :: ':' :: '1' :: digits).length + 2 =
      fuel + 3 := ⟨2 * digits.length + 13, by simp only [List.length_cons]; omega⟩
  rw [hfuel, hwhole]
  rfl

/-- A request with an identifier of too many digits gets no reply, not even an error. -/
theorem answerMessage_unanswered :
    (answerMessage ⟨.usual, .usual, true⟩ (numbered 4301) none Desk.empty).1 =
      .error (.tooManyDigits 4301) :=
  ((answers_answerMessage _ _ none _).error_iff _).mpr
    ⟨rfl, read_numbered (by decide), fun _ h => (nomatch h)⟩

end ResourceAtlas.Service
