import ResourceAtlas.Proofs.Registry.Onward
import ResourceAtlas.Proofs.Store.Steady

/-!
# Addresses that stay where they are

A walk along heads without brackets seeks nothing with a bracket, so that a change of the list at its
end does not move it. The address of that list with an identifier behind it leads to the member of
that identifier, and so does the address that is reported for it.
-/

namespace ResourceAtlas.Atlas

open Address Number Query Schema Text

variable {a : Atlas} {here there mid : Standing}

/-- A head without brackets seeks none. -/
theorem HeadMove.unbracketed {head : String} (h : a.HeadMove here head there)
    (hc : here.cursor.Unbracketed) (hhead : '[' ∉ head.toList) : there.cursor.Unbracketed := by
  cases h with
  | child =>
    refine ⟨hc, ?_⟩
    unfold childSelector
    split
    · trivial
    · trivial
    · split <;> trivial
  | name => exact ⟨hc, .text hhead⟩
  | id => exact ⟨hc, .text hhead⟩

/-- A segment with a head without brackets seeks none. -/
theorem SegmentMove.unbracketed {segment : Segment} (h : a.SegmentMove here segment there)
    (hc : here.cursor.Unbracketed) (hhead : '[' ∉ segment.head.toList) :
    there.cursor.Unbracketed := by
  cases h with
  | bare hm => exact hm.unbracketed hc hhead
  | index hm => exact ⟨hm.unbracketed hc hhead, trivial⟩
  | id hm => exact ⟨hm.unbracketed hc hhead, .int _⟩
  | query hm => exact (hm.unbracketed hc hhead).withQuery _

/-- A walk along heads without brackets seeks none. -/
theorem walk_unbracketed {segments : List Segment} (hd : a.Straight here segments)
    (hc : here.cursor.Unbracketed) (hheads : ∀ s ∈ segments, '[' ∉ s.head.toList)
    (h : a.walk here segments = .ok (.ok there)) : there.cursor.Unbracketed := by
  induction segments generalizing here with
  | nil =>
    obtain rfl := Except.ok.inj (Except.ok.inj h)
    exact hc
  | cons s rest ih =>
    obtain ⟨mid, hm, hrest⟩ := walk_cons_ok h
    have hmid := (segmentMove_of_moveBy hd.1 hm).2.1.unbracketed hc (hheads s List.mem_cons_self)
    exact ih (hd.2 mid hm) hmid (fun t ht => hheads t (List.mem_cons_of_mem s ht)) hrest

/-- The text of an integer behind segments of which the last is bare becomes its identifier. -/
theorem readBehind_int {found before : List Segment} {head x : String} {n : Int}
    (hbare : unqualified? found.reverse = some (head, before))
    (hx : Numeral.intText? n = some x.toList) :
    (Piece.text x).readBehind found = .ok (before.reverse ++ [⟨head, some (.id n)⟩]) := by
  have hne : x ≠ "" := by
    rintro rfl
    exact Numeral.intText_ne_nil hx rfl
  have hn : readInteger x.toList = .ok n := by
    rw [readInteger, Numeral.integerValue_intText hx]
  unfold Piece.readBehind
  dsimp only
  rw [if_neg hne, if_pos (Numeral.isInteger_intText hx), hbare]
  dsimp only
  rw [hn]
  rfl

/-- The text of an integer is a plain piece. -/
theorem plain_int {x : String} {n : Int} (hx : Numeral.intText? n = some x.toList) :
    (Piece.text x).Plain := by
  constructor <;> exact fun hmem => absurd (Numeral.isDigit_or_minus_of_mem_intText hx hmem) (by decide)

/-- The member of an identifier of a location. -/
def memberOfId (mid : Standing) (member : Node) (n : Int) : Specifier :=
  ⟨mid.cursor.identified (.int n), member, true⟩

/-- Members of different identifiers are at different locations. -/
theorem memberOfId_inj {member : Node} {m n : Int}
    (h : memberOfId mid member m = memberOfId mid member n) : m = n := by
  injection h with hcursor
  injection hcursor with _ hselector
  injection hselector with hwanted
  exact Value.int.inj hwanted

/-- The address of segments that end in a bare one, with an identifier behind it, leads to the member of
that identifier where they lead, if members are selected by identifiers there. The member's own
address leads there, too. -/
theorem resolve_identified {scheme : String} (hscheme : ReadableScheme scheme) {what : Registration}
    (hwhat : Keyed.get? scheme a.registry.schemes = some what) {found before : List Segment}
    {head : String} (hw : Writable found) (hbare : unqualified? found.reverse = some (head, before))
    (hd : a.Straight (a.start scheme what) found)
    (hmid : a.walk (a.start scheme what) found = .ok (.ok mid)) (hno : mid.node.isNamespace = false)
    (hid : mid.node.hasMethod "by_id" = true) {member : Node}
    (hmember : mid.node.itemNode a.catalog = .ok member) {n : Int} {x : String}
    (hx : Numeral.intText? n = some x.toList) :
    a.resolve (String.ofList (canonicalText scheme found ++ (Piece.text x).write)) =
        .ok (.ok (memberOfId mid member n)) ∧
      ∃ uri, (memberOfId mid member n).uri = .ok uri ∧
        a.resolve uri = .ok (.ok (memberOfId mid member n)) := by
  have hread := readBehind_int hbare hx
  have hconcat := eq_concat_of_unqualified? hbare
  have hextended : Writable (before.reverse ++ [⟨head, some (.id n)⟩]) :=
    writable_readBehind hw (plain_int hx) (fun i hi => (nomatch hi)) hread
  have hin := walk_inside hd rfl hmid
  have hwalk : a.walk (a.start scheme what) (before.reverse ++ [⟨head, some (.id n)⟩]) =
      .ok (.ok ⟨mid.cursor.identified (.int n), member⟩) := by
    rw [walk_qualify (hconcat ▸ hmid) hno, qualify, if_pos hid, select_eq hin rfl hmember]
    rfl
  have hstraight : a.Straight (a.start scheme what) (before.reverse ++ [⟨head, some (.id n)⟩]) := by
    rw [hconcat] at hd
    obtain ⟨hbefore, hlast⟩ := straight_concat_iff.mp hd
    exact straight_concat_iff.mpr ⟨hbefore, hlast⟩
  have hlocate : a.locate ⟨scheme, before.reverse ++ [⟨head, some (.id n)⟩]⟩ =
      .ok (.ok (memberOfId mid member n)) := by
    unfold locate
    rw [hwhat]
    exact bind_eq_ok.mpr ⟨_, hwalk, rfl⟩
  refine ⟨?_, ?_⟩
  · have hbehind := read_behind hscheme hw (plain_int hx)
    rw [hread] at hbehind
    exact (resolve_of_read hbehind).trans hlocate
  · obtain ⟨htext, hinside, hquery⟩ :=
      walk_canonical hstraight hextended.each hextended.steps hwalk
    have huri := uri_of_text hinside htext "" (by rw [hquery]; rfl)
    rw [if_pos rfl] at huri
    exact ⟨_, huri, (resolve_of_read (read_canonicalText hscheme hextended)).trans hlocate⟩

end ResourceAtlas.Atlas
