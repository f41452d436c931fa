import ResourceAtlas.Proofs.Address.Ahead

/-!
# Paths in parts

A path is read part by part. What stands before a slash and what stands behind it are read on their own,
if every bracket that opens before the slash closes there and no integer behind it becomes the identifier
of the last segment before it. Whatever path is read, such an integer never stays a segment of its own.
-/

namespace ResourceAtlas.Address

open Number Text

variable {text rest : List Char} {found more : List Segment}

/-- A bracket that opens at the start of a text does so in one of the spellings. -/
theorem exists_bracket_of_openingLength? {opening : Nat} (h : openingLength? text = some opening) :
    ∃ b ∈ brackets, b.1 <+: text := by
  unfold openingLength? at h
  split at h
  · exact ⟨_, List.mem_cons_self, _, rfl⟩
  · exact ⟨("%5B".toList, "%5D".toList), by decide, _, rfl⟩
  · exact ⟨("%5b".toList, "%5d".toList), by decide, _, rfl⟩
  · exact (nomatch h)

/-- No bracket opens in a text in which no spelling of one stands. -/
theorem unopened_of_brackets (h : ∀ b ∈ brackets, ¬ b.1 <:+: text) : Unopened text := by
  intro part hpart
  by_contra hopen
  obtain ⟨opening, hopening⟩ := Option.ne_none_iff_exists'.mp hopen
  obtain ⟨b, hb, hstart⟩ := exists_bracket_of_openingLength? hopening
  exact h b hb (hstart.isInfix.trans hpart.isInfix)

/-- A path is read at a slash as what stands before it and what stands behind it. -/
theorem segments_slash (hlevel : Level text) (hcloses : EachCloses text)
    (hread : segments text = .ok found) (hmore : segments rest = .ok more)
    (hfirst : isBare found.reverse = true → Digit.isInteger (firstHead rest) = false) :
    segments (text ++ '/' :: rest) = .ok (found ++ more) := by
  have hrest : readSegments found.reverse (.ofText ('/' :: rest)) = .ok (found ++ more) := by
    have happend := @readSegments_append [] found.reverse (.ofText rest) fun _ => hfirst
    rw [List.nil_append, List.reverse_reverse] at happend
    rw [readSegments_slash, happend, show readSegments [] (.ofText rest) = .ok more from hmore]
    rfl
  exact readSegments_onto (.inl hlevel) (.inr ⟨rest, rfl⟩) hread (.inr (.inr hcloses)) hrest

/-- A segment that follows one without a qualifier has no integer as its head. -/
theorem isInteger_of_settled (h : Settled found.reverse) {s t : Segment} (hst : [s, t] <:+: found)
    (hs : s.qualifier = none) : Digit.isInteger t.head.toList = false := by
  obtain ⟨before, after, rfl⟩ := hst
  rw [List.reverse_append, List.reverse_append] at h
  have hpair : Settled (t :: s :: before.reverse) := h.of_append
  by_contra hint
  -- An integer has no bracket, so its head is the text that could have become an identifier.
  have hopen : '[' ∉ t.head.toList := fun hmem =>
    absurd (Numeral.mem_of_isInteger (Bool.of_not_eq_false hint) hmem) (by decide)
  exact hint (hpair.1 hopen (by rw [isBare_cons, hs]; rfl))

/-- **Reading is compositional at slashes.** A path is read at a slash as what stands before it, an ASCII
text in which no bracket opens in any spelling, and as what stands behind it, any text whose first head is
no integer. In whatever is read, no segment with an integer as its head directly follows a segment without
a qualifier. -/
theorem segments_compositional :
    (∀ p q found more, IsAscii p → (∀ b ∈ brackets, ¬ b.1 <:+: p) → segments p = .ok found →
      segments q = .ok more → Digit.isInteger (firstHead q) = false →
        segments (p ++ '/' :: q) = .ok (found ++ more)) ∧
      (∀ path found, segments path = .ok found → ∀ s t, [s, t] <:+: found → s.qualifier = none →
        Digit.isInteger t.head.toList = false) ∧
      ∀ address l, read address = .ok (.ok l) → ∀ s t, [s, t] <:+: l.segments →
        s.qualifier = none → Digit.isInteger t.head.toList = false := by
  refine ⟨fun p q found more hascii hbrackets hp hq hfirst => ?_,
    fun path found hread s t hst hs => isInteger_of_settled (segments_lexed hread).2 hst hs,
    fun address l hread s t hst hs => isInteger_of_settled (parts_of_read hread).2.2.2 hst hs⟩
  have hunopened := unopened_of_brackets hbrackets
  rw [← List.append_nil p] at hunopened
  exact segments_slash hascii.level hunopened.eachCloses hp hq fun _ => hfirst

/-- A folder by its identifier and a coded name in it, and behind a slash the first of its notes with an
integer that stays a segment of its own. -/
theorem segments_compositional_notes :
    segments ("folders/7/a%20b".toList ++ '/' :: "/notes%5b0%5d/3".toList) =
        .ok [⟨"folders", some (.id 7)⟩, ⟨"a b", none⟩, ⟨"notes", some (.index 0)⟩, ⟨"3", none⟩] ∧
      Digit.isInteger "notes".toList = false ∧ Digit.isInteger "[1x]".toList = false := by
  have hjoined := segments_compositional.1 "folders/7/a%20b".toList "/notes%5b0%5d/3".toList
    [⟨"folders", some (.id 7)⟩, ⟨"a b", none⟩] [⟨"notes", some (.index 0)⟩, ⟨"3", none⟩] (by decide)
    (by decide) (by decide +kernel) (by decide +kernel) (by decide +kernel)
  refine ⟨hjoined, ?_, ?_⟩
  · exact segments_compositional.2.1 _ _ hjoined ⟨"a b", none⟩ ⟨"notes", some (.index 0)⟩
      ⟨[⟨"folders", some (.id 7)⟩], [⟨"3", none⟩], rfl⟩ rfl
  · exact segments_compositional.2.2 "s://a/[1x]" ⟨"s", [⟨"a", none⟩, ⟨"[1x]", none⟩]⟩
      (by decide +kernel) ⟨"a", none⟩ ⟨"[1x]", none⟩ List.infix_rfl rfl

end ResourceAtlas.Address
