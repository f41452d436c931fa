import ResourceAtlas.Proofs.Text.Utf8
import ResourceAtlas.Text.Percent

/-!
# Percent coding reads back what it writes

A coded text stands for the octets of the text, so decoding undoes coding. A coded text is made of
unreserved characters and percent signs alone: nothing that parts an address or a query is in it.
-/

namespace ResourceAtlas.Text.Percent

/-- A character that a coded text may hold. -/
def IsCoded (c : Char) : Prop :=
  isUnreserved c = true ∨ c = '%'

/-- The digit of a number below sixteen has that value. -/
theorem hexValue?_hexDigit {n : Nat} (h : n < 16) : hexValue? (hexDigit n) = some n := by
  have hall : ∀ n < 16, hexValue? (hexDigit n) = some n := by decide
  exact hall n h

/-- Hexadecimal digits are unreserved. -/
theorem isUnreserved_hexDigit {n : Nat} (h : n < 16) : isUnreserved (hexDigit n) = true := by
  have hall : ∀ n < 16, isUnreserved (hexDigit n) = true := by decide
  exact hall n h

/-- The two digits of an octet write it. -/
theorem octet?_digits (b : UInt8) :
    octet? (hexDigit (b.toNat / 16)) (hexDigit (b.toNat % 16)) = some b := by
  have hb : b.toNat < 256 := b.toNat_lt
  rw [octet?, hexValue?_hexDigit (by omega), hexValue?_hexDigit (by omega)]
  dsimp only
  rw [Nat.div_add_mod, UInt8.ofNat_toNat]

/-- The three characters of an octet stand for it. -/
theorem octets_encodeOctet (b : UInt8) (rest : List Char) :
    octets (encodeOctet b ++ rest) = b :: octets rest := by
  rw [encodeOctet, List.cons_append, List.cons_append, List.cons_append, List.nil_append, octets,
    octet?_digits]

/-- The coded form of octets stands for them. -/
theorem octets_encodeOctets (os : List UInt8) (rest : List Char) :
    octets (os.flatMap encodeOctet ++ rest) = os ++ octets rest := by
  induction os with
  | nil => rfl
  | cons b os ih =>
    rw [List.flatMap_cons, List.append_assoc, octets_encodeOctet, ih, List.cons_append]

/-- A character other than the percent sign stands for its own octets. -/
theorem octets_cons {c : Char} (h : c ≠ '%') (rest : List Char) :
    octets (c :: rest) = Utf8.encodeChar c ++ octets rest := by
  rw [octets]
  intro _ _ _ hc
  exact absurd hc h

/-- An unreserved character is not the percent sign. -/
theorem ne_percent_of_isUnreserved {c : Char} (h : isUnreserved c = true) : c ≠ '%' := by
  rintro rfl
  exact absurd h (by decide)

/-- The coded form of a character stands for its octets. -/
theorem octets_encodeChar (c : Char) (rest : List Char) :
    octets (encodeChar c ++ rest) = Utf8.encodeChar c ++ octets rest := by
  unfold encodeChar
  split
  · next h => rw [List.singleton_append, octets_cons (ne_percent_of_isUnreserved h)]
  · rw [octets_encodeOctets]

/-- The coded form of a text stands for its octets. -/
theorem octets_encode (text : List Char) : octets (encode text) = Utf8.encode text := by
  induction text with
  | nil => rfl
  | cons c text ih =>
    rw [encode, List.flatMap_cons, octets_encodeChar, Utf8.encode, List.flatMap_cons]
    exact congrArg (Utf8.encodeChar c ++ ·) ih

/-- Decoding undoes coding. -/
theorem decode_encode (text : List Char) : decode (encode text) = text := by
  rw [decode, octets_encode, Utf8.decode_encode]

/-- A text without percent signs stands for itself before any other. -/
theorem decode_append {text : List Char} (h : '%' ∉ text) (rest : List Char) :
    decode (text ++ rest) = text ++ decode rest := by
  induction text with
  | nil => rfl
  | cons c text ih =>
    rw [List.mem_cons, not_or] at h
    have hrest : Utf8.decode (octets (text ++ rest)) = text ++ decode rest := ih h.2
    rw [List.cons_append, decode, octets_cons (Ne.symm h.1), Utf8.decode_encodeChar, hrest,
      List.cons_append]

/-- A text without percent signs is decoded to itself. -/
theorem decode_eq_self {text : List Char} (h : '%' ∉ text) : decode text = text := by
  have happend := decode_append h []
  rw [List.append_nil, show decode [] = [] from by rw [decode, octets, Utf8.decode],
    List.append_nil] at happend
  exact happend

/-- A text of unreserved characters is its own coded form. -/
theorem encode_eq_self {text : List Char} (h : ∀ c ∈ text, isUnreserved c = true) :
    encode text = text := by
  induction text with
  | nil => rfl
  | cons c text ih =>
    rw [encode, List.flatMap_cons, encodeChar, if_pos (h c List.mem_cons_self),
      List.singleton_append]
    exact congrArg (c :: ·) (ih fun d hd => h d (List.mem_cons_of_mem c hd))

/-- The characters that stand for an octet are unreserved but for the percent sign. -/
theorem isCoded_of_mem_encodeOctet {b : UInt8} {c : Char} (h : c ∈ encodeOctet b) : IsCoded c := by
  have hb : b.toNat < 256 := b.toNat_lt
  simp only [encodeOctet, List.mem_cons, List.not_mem_nil, or_false] at h
  rcases h with rfl | rfl | rfl
  · exact .inr rfl
  · exact .inl (isUnreserved_hexDigit (by omega))
  · exact .inl (isUnreserved_hexDigit (by omega))

/-- A coded text holds unreserved characters and percent signs alone. -/
theorem isCoded_of_mem_encode {text : List Char} {c : Char} (h : c ∈ encode text) : IsCoded c := by
  rw [encode, List.mem_flatMap] at h
  obtain ⟨d, -, hc⟩ := h
  unfold encodeChar at hc
  split at hc
  · next hd =>
    rw [List.mem_singleton.mp hc]
    exact .inl hd
  · obtain ⟨b, -, hb⟩ := List.mem_flatMap.mp hc
    exact isCoded_of_mem_encodeOctet hb

/-- A character that coded texts do not hold. -/
theorem not_mem_encode {c : Char} (h : isUnreserved c = false) (hp : c ≠ '%') (text : List Char) :
    c ∉ encode text := by
  intro hc
  rcases isCoded_of_mem_encode hc with hu | hu
  · rw [h] at hu
    exact absurd hu Bool.false_ne_true
  · exact hp hu

/-- Unreserved characters are ASCII. -/
theorem ascii_of_isUnreserved {c : Char} (h : isUnreserved c = true) : c.toNat < 0x80 := by
  simp only [isUnreserved, Bool.or_eq_true, Bool.and_eq_true, decide_eq_true_eq, beq_iff_eq] at h
  have h_ : '_'.toNat = 95 := rfl
  have hdot : '.'.toNat = 46 := rfl
  have hminus : '-'.toNat = 45 := rfl
  have htilde : '~'.toNat = 126 := rfl
  rcases h with (((((h | h) | h) | rfl) | rfl) | rfl) | rfl <;> omega

/-- Coded texts are ASCII. -/
theorem ascii_of_isCoded {c : Char} (h : IsCoded c) : c.toNat < 0x80 := by
  rcases h with h | rfl
  · exact ascii_of_isUnreserved h
  · decide

/-- The coded form of a text is empty only for the empty text. -/
theorem encode_ne_nil {text : List Char} (h : text ≠ []) : encode text ≠ [] := by
  intro hnil
  have hback := decode_encode text
  rw [hnil, decode, octets, Utf8.decode] at hback
  exact h hback.symm

end ResourceAtlas.Text.Percent
