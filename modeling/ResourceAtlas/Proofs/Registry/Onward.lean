import ResourceAtlas.Proofs.Registry.Stem
import ResourceAtlas.Proofs.Schema.Faithful
import ResourceAtlas.Proofs.Store.Piece

/-!
# The address of a new member leads somewhere

The piece of a member's address is made by a key by which its collection selects members. Behind the
address of the collection such a piece is no problem: it leads to a location, unless it stands for a
position and the address ends in a segment that has a qualifier, or at the root.
-/

namespace ResourceAtlas

open Address Query Schema Text

/-- A key that addresses the members of a node is that of a method that selects one. -/
theorem Schema.Node.accessor_of_memberKeys {n : Node} {key : MemberKey} (h : key ∈ n.memberKeys) :
    ∃ name, (name, key) ∈ accessors ∧ n.hasMethod name = true := by
  obtain ⟨⟨name, key⟩, hmem, rfl⟩ := List.mem_map.mp h
  obtain ⟨haccessor, hmethod⟩ := List.mem_filter.mp hmem
  exact ⟨name, haccessor, hmethod⟩

/-- The method of a node whose members are addressed by position. -/
theorem Schema.Node.hasMethod_of_index {n : Node} (h : "index" ∈ n.memberKeys) :
    n.hasMethod "by_index" = true := by
  obtain ⟨name, hmem, hmethod⟩ := n.accessor_of_memberKeys h
  simp only [accessors, List.mem_cons, List.not_mem_nil, or_false, Prod.mk.injEq] at hmem
  rcases hmem with ⟨-, hkey⟩ | ⟨-, hkey⟩ | ⟨rfl, -⟩
  · exact absurd hkey (by decide)
  · exact absurd hkey (by decide)
  · exact hmethod

/-- The method of a node whose members are addressed by a value of theirs. -/
theorem Schema.Node.hasMethod_of_key {n : Node} {key : MemberKey} (h : key ∈ n.memberKeys)
    (hkey : key ≠ "index") :
    (key = "id" ∧ n.hasMethod "by_id" = true) ∨ (key = "name" ∧ n.hasMethod "by_name" = true) := by
  obtain ⟨name, hmem, hmethod⟩ := n.accessor_of_memberKeys h
  simp only [accessors, List.mem_cons, List.not_mem_nil, or_false, Prod.mk.injEq] at hmem
  rcases hmem with ⟨rfl, rfl⟩ | ⟨rfl, rfl⟩ | ⟨-, hindex⟩
  · exact .inl ⟨rfl, hmethod⟩
  · exact .inr ⟨rfl, hmethod⟩
  · exact absurd hindex hkey

/-- A node that selects members is no namespace, if no namespace selects one. -/
theorem Schema.Node.SelectsOwn.of_memberKeys {n : Node} (h : n.SelectsOwn) {key : MemberKey}
    (hkey : key ∈ n.memberKeys) : n.isNamespace = false := by
  obtain ⟨name, hmem, hmethod⟩ := n.accessor_of_memberKeys hkey
  exact h name (List.mem_map_of_mem hmem) hmethod

namespace Atlas

variable {a : Atlas} {here mid : Standing}

/-- A qualifier of a last segment is applied to where the segment leads without it, if that is no
namespace. -/
theorem walk_qualify {before : List Segment} {head : String}
    (hmid : a.walk here (before ++ [⟨head, none⟩]) = .ok (.ok mid))
    (hno : mid.node.isNamespace = false) (q : Qualifier) :
    a.walk here (before ++ [⟨head, some q⟩]) = a.qualify mid head q := by
  obtain ⟨stop, hstop, hlast⟩ := walk_concat_ok hmid
  rw [moveBy_bare] at hlast
  rw [walk_concat hstop, moveBy, moveByHead_any hlast hno]
  rfl

/-- A head leads from a location inside a document to a declared child or to a member, if members are
selected by name or by identifier. -/
theorem moveBy_found {head : String} {verdict : Verdict Standing} (hd : a.StraightBy mid head)
    (hin : mid.cursor.isOutside = false)
    (hmethod : mid.node.hasMethod "by_name" = true ∨ mid.node.hasMethod "by_id" = true)
    (h : a.moveBy mid ⟨head, none⟩ = .ok verdict) : ∃ there, verdict = .ok there := by
  have hselect : ∀ {motion : Motion},
      (a.select mid motion).map (Except.ok : Standing → Verdict Standing) = .ok verdict →
        ∃ there, verdict = .ok there := by
    intro motion h
    obtain ⟨there, -, rfl⟩ := map_eq_ok.mp h
    exact ⟨there, rfl⟩
  rw [moveBy_bare] at h
  obtain ⟨children, hb, -⟩ := bind_eq_ok.mp h
  cases hk : Keyed.get? head children with
  | some id =>
    rw [moveByHead_child hb hk, enter, stepInto_inside a.catalog (hd children id hb hk) hin,
      Option.isSome_none, Bool.and_false, if_neg Bool.false_ne_true] at h
    exact ⟨_, (Except.ok.inj h).symm⟩
  | none =>
    rw [moveByHead_member hb hk] at h
    split at h
    · exact hselect h
    · next hname =>
      rw [if_pos (hmethod.resolve_left hname)] at h
      exact hselect h

/-- A piece that the keys of a collection give leads somewhere behind the segments of the collection,
unless it is a position and the last segment has a qualifier. -/
theorem walk_behind_found {found extended : List Segment} {piece : Piece} {item : Value} {index : Nat}
    (hd : ∀ head, a.StraightBy mid head) (hown : mid.node.SelectsOwn)
    (hin : mid.cursor.isOutside = false) (hmid : a.walk here found = .ok (.ok mid))
    (hpiece : pieceOf item index mid.node.memberKeys = .ok (some piece))
    (hbare : ∀ i, piece = .position i → isBare found.reverse = true)
    (hread : piece.readBehind found = .ok extended) {verdict : Verdict Standing}
    (h : a.walk here extended = .ok verdict) : ∃ there, verdict = .ok there := by
  have hselect : ∀ {motion : Motion} {refused : Problem} {name : String},
      mid.node.hasMethod name = true →
      (if mid.node.hasMethod name then
          (a.select mid motion).map (Except.ok : Standing → Verdict Standing)
        else .ok (.error refused)) = .ok verdict → ∃ there, verdict = .ok there := by
    intro motion refused name hmethod h
    rw [if_pos hmethod] at h
    obtain ⟨there, -, rfl⟩ := map_eq_ok.mp h
    exact ⟨there, rfl⟩
  obtain ⟨key, hmem, hkey⟩ := pieceOf_ok hpiece
  have hno := hown.of_memberKeys hmem
  cases Piece.extends_of_readBehind hread with
  | position _ =>
    cases hkey with
    | position =>
      rw [walk_qualify hmid hno] at h
      exact hselect (mid.node.hasMethod_of_index hmem) h
  | alone hqualified _ =>
    rw [hbare _ rfl] at hqualified
    exact absurd hqualified.symm Bool.false_ne_true
  | nothing => exact ⟨mid, Except.ok.inj (h.symm.trans hmid)⟩
  | folded _ hint _ =>
    cases hkey with
    | text hkey _ hname =>
      -- A name that reads as an integer is no piece, so the piece is an identifier.
      have hid : mid.node.hasMethod "by_id" = true := by
        rcases mid.node.hasMethod_of_key hmem hkey with ⟨-, hid⟩ | ⟨hkey, -⟩
        · exact hid
        · rw [hname hkey] at hint
          exact absurd hint Bool.false_ne_true
      rw [walk_qualify hmid hno] at h
      exact hselect hid h
  | @text _ x _ _ =>
    cases hkey with
    | text hkey _ _ =>
      rw [walk_concat hmid] at h
      exact moveBy_found (hd x) hin
        ((mid.node.hasMethod_of_key hmem hkey).elim (fun h => .inr h.2) fun h => .inl h.2) h

/-- The address of a collection with a plain piece behind it that its keys give is no problem, unless
the piece is a position and the last segment of the address has a qualifier. -/
theorem resolve_behind_found {scheme : String} (hscheme : ReadableScheme scheme)
    {what : Registration} (hwhat : Keyed.get? scheme a.registry.schemes = some what)
    {found : List Segment} (hw : Writable found)
    (hmid : a.walk (a.start scheme what) found = .ok (.ok mid))
    (hd : ∀ head, a.StraightBy mid head) (hown : mid.node.SelectsOwn)
    (hin : mid.cursor.isOutside = false) {piece : Piece} (hplain : piece.Plain) {item : Value}
    {index : Nat} (hpiece : pieceOf item index mid.node.memberKeys = .ok (some piece))
    (hbare : ∀ i, piece = .position i → isBare found.reverse = true) (problem : Problem) :
    a.resolve (String.ofList (canonicalText scheme found ++ piece.write)) ≠ .ok (.error problem) := by
  intro h
  unfold resolve at h
  rw [read_behind hscheme hw hplain] at h
  cases hread : piece.readBehind found with
  | error f =>
    rw [hread] at h
    exact (nomatch h)
  | ok extended =>
    rw [hread] at h
    change a.locate ⟨scheme, extended⟩ = _ at h
    unfold locate at h
    rw [hwhat] at h
    obtain ⟨verdict, hwalk, h⟩ := bind_eq_ok.mp h
    obtain ⟨there, rfl⟩ := walk_behind_found hd hown hin hmid hpiece hbare hread hwalk
    exact (nomatch h)

end Atlas

end ResourceAtlas
