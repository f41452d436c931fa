import ResourceAtlas.Text.Percent

/-!
# Characters that a part of a link cannot hold

Every part of a link has characters that it cannot hold and writes as percent-encoded octets.
Controls and what lies beyond the basic alphabet belong to them in every part. A percent sign never
does, so a part that is encoded already stays as it is.
-/

namespace ResourceAtlas.Link.Coding

open Text

/-- A control, or a character beyond the basic alphabet. -/
def isForeign (c : Char) : Bool :=
  c.toNat < 0x20 || 0x7E < c.toNat

/-- A character that no fragment holds. -/
def outsideFragment (c : Char) : Bool :=
  isForeign c || [' ', '"', '<', '>', '`'].contains c

/-- A character that no query holds. -/
def outsideQuery (c : Char) : Bool :=
  isForeign c || [' ', '"', '#', '<', '>'].contains c

/-- A character that no path holds. -/
def outsidePath (c : Char) : Bool :=
  outsideFragment c || ['#', '?', '\x7b', '\x7d'].contains c

/-- A character that no name and no password of a user holds. -/
def outsideUser (c : Char) : Bool :=
  outsidePath c || ['/', ':', ';', '=', '@', '[', '\\', ']', '^', '|'].contains c

/-- A text with the characters of a class as percent-encoded octets. -/
def encode (outside : Char → Bool) (text : List Char) : List Char :=
  text.flatMap fun c =>
    if outside c then (Utf8.encodeChar c).flatMap Percent.encodeOctet else [c]

/-- Without characters of the class nothing is encoded. -/
theorem encode_eq_self {outside : Char → Bool} {text : List Char}
    (h : ∀ c ∈ text, outside c = false) : encode outside text = text := by
  induction text with
  | nil => rfl
  | cons c rest ih =>
    have here := h c List.mem_cons_self
    have there := ih fun d member => h d (List.mem_cons_of_mem c member)
    simp only [encode, List.flatMap_cons, here] at there ⊢
    simp [there]

end ResourceAtlas.Link.Coding
