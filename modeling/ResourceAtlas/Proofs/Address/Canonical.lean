import ResourceAtlas.Address.Step
import ResourceAtlas.Proofs.Address.Lexed

/-!
# Canonical addresses read back

The canonical text of a location is read as that location. A query behind it is read as the query of
the last segment, where it takes the place of a position; behind the root of a scheme it becomes a
segment of its own, with an empty head.
-/

namespace ResourceAtlas.Address

open Number Query Text

/-- A scheme that an address can start with: it ends where the first mark stands. -/
def ReadableScheme (scheme : String) : Prop :=
  scheme ≠ "" ∧ ∃ text path, Split.atWord schemeMark text = some (scheme.toList, path)

/-- A scheme with characters in which no mark stands is one that an address can start with. -/
theorem readableScheme_of_unmarked {scheme : String} (hne : scheme ≠ "")
    (h : ¬ schemeMark <:+: scheme.toList) : ReadableScheme scheme := by
  refine ⟨hne, scheme.toList ++ schemeMark, [], ?_⟩
  clear hne
  generalize scheme.toList = text at h ⊢
  induction text with
  | nil => rfl
  | cons c text ih =>
    have hrest := ih fun hinfix => h (List.infix_cons hinfix)
    have hno : ¬ "://".toList.isPrefixOf (c :: (text ++ "://".toList)) = true := by
      intro hp
      rw [List.isPrefixOf_iff_prefix] at hp
      -- The mark neither lies in the scheme nor begins in it, since no two ends of it are alike.
      match text, hp with
      | [], hp => exact absurd (List.cons_prefix_cons.mp (List.cons_prefix_cons.mp hp).2).1 (by decide)
      | [d], hp =>
        have hthird := (List.cons_prefix_cons.mp (List.cons_prefix_cons.mp hp).2).2
        exact absurd (List.cons_prefix_cons.mp hthird).1 (by decide)
      | d :: e :: text, hp =>
        refine h (List.IsPrefix.isInfix (List.prefix_of_prefix_length_le hp
          (List.prefix_append (c :: d :: e :: text) schemeMark) ?_))
        simp [schemeMark]
    rw [List.cons_append, schemeMark, Split.atWord, if_neg hno, ← schemeMark, hrest]
    rfl

/-- The canonical text of segments in a scheme. -/
def canonicalText (scheme : String) (segments : List Segment) : List Char :=
  scheme.toList ++ schemeMark ++ (pathText segments).tail

/-- The slash before the first segment makes no difference. -/
theorem segments_tail (found : List Segment) (rest : List Char) :
    segments ((pathText found).tail ++ rest) =
      readSegments [] (.ofText (pathText found ++ rest)) := by
  cases found with
  | nil => rfl
  | cons s found =>
    have hpath : pathText (s :: found) = '/' :: (segmentText s ++ pathText found) :=
      List.flatMap_cons
    rw [hpath, List.cons_append, readSegments_slash]
    rfl

/-- An address is read as its path is. -/
theorem read_path {scheme : String} (hs : ReadableScheme scheme) (path : List Char) :
    read (String.ofList (scheme.toList ++ schemeMark ++ path)) =
      match segments path with
      | .ok found => .ok (.ok ⟨scheme, found⟩)
      | .error (.malformedQuery problem) => .ok (.error problem)
      | .error f => .error f := by
  obtain ⟨hne, text, other, hat⟩ := hs
  have hcut : Split.atWord "://".toList (scheme.toList ++ schemeMark ++ path) =
      some (scheme.toList, path) := Split.atWord_replace hat path
  have htext : (String.ofList (scheme.toList ++ schemeMark ++ path)).toList =
      scheme.toList ++ schemeMark ++ path := String.toList_ofList
  unfold read
  rw [htext, hcut]
  split
  · next heq => exact absurd heq (by simp)
  · next heq =>
    have hnil := congrArg Prod.fst (Option.some.inj heq)
    exact absurd (String.toList_eq_nil_iff.mp hnil) hne
  · next s p hnil heq =>
    obtain ⟨rfl, rfl⟩ := Prod.mk.inj (Option.some.inj heq)
    have hname : String.ofList scheme.toList = scheme := String.ofList_toList
    cases segments path with
    | ok found =>
      dsimp only
      rw [hname]
    | error f => cases f <;> rfl

/-- An address whose path is read as segments is read as their location. -/
theorem read_of_segments {scheme : String} (hs : ReadableScheme scheme) {path : List Char}
    {found : List Segment} (h : segments path = .ok found) :
    read (String.ofList (scheme.toList ++ schemeMark ++ path)) = .ok (.ok ⟨scheme, found⟩) := by
  rw [read_path hs, h]

/-- A location that is read has the segments of the path. -/
theorem segments_of_read {scheme : String} (hs : ReadableScheme scheme) {path : List Char}
    {l : Location}
    (h : read (String.ofList (scheme.toList ++ schemeMark ++ path)) = .ok (.ok l)) :
    l.scheme = scheme ∧ segments path = .ok l.segments := by
  rw [read_path hs] at h
  cases hpath : segments path with
  | ok found =>
    rw [hpath] at h
    obtain rfl := Except.ok.inj (Except.ok.inj h)
    exact ⟨rfl, rfl⟩
  | error f =>
    rw [hpath] at h
    cases f <;> exact (nomatch h)

/-- An address that is read has a scheme and a path, which is read as the segments. -/
theorem path_of_read {uri : String} {l : Location} (h : read uri = .ok (.ok l)) :
    ReadableScheme l.scheme ∧ ∃ path, uri.toList = l.scheme.toList ++ schemeMark ++ path ∧
      segments path = .ok l.segments := by
  obtain ⟨hne, ⟨path, hat⟩, -, -⟩ := parts_of_read h
  have hscheme : ReadableScheme l.scheme := ⟨hne, uri.toList, path, hat⟩
  have huri : uri.toList = l.scheme.toList ++ schemeMark ++ path := Split.eq_of_atWord hat
  rw [← String.ofList_toList (s := uri), huri] at h
  exact ⟨hscheme, path, huri, (segments_of_read hscheme h).2⟩

/-- Segments that can be written and are read back as they stand. -/
structure Writable (segments : List Segment) : Prop where
  /-- Each segment can be written. -/
  each : ∀ s ∈ segments, s.Writable
  /-- No segment asks a query. -/
  steps : ∀ s ∈ segments, s.IsStep
  /-- No head becomes an identifier. -/
  unfolded : Unfolded false segments

/-- The canonical text of segments is read as those segments. -/
theorem read_canonicalText {scheme : String} (hs : ReadableScheme scheme)
    {found : List Segment} (hw : Writable found) :
    read (String.ofList (canonicalText scheme found)) = .ok (.ok ⟨scheme, found⟩) := by
  refine read_of_segments hs ?_
  have hread := @readSegments_pathText found hw.each hw.steps [] hw.unfolded [] (.inl rfl)
  rw [← List.append_nil (pathText found).tail, segments_tail, hread,
    readSegments_nil _ (r := .ofText []) rfl, List.append_nil, List.reverse_reverse]

/-- A segment that a query can be written behind: without a qualifier, or with a position. -/
def Segment.IsOpen (s : Segment) : Prop :=
  s.qualifier = none ∨ ∃ n, s.qualifier = some (.index n)

/-- A query behind a written segment is that segment's query. -/
theorem readSegments_asked {s : Segment} (hs : s.Writable) (ho : s.IsOpen) {before : List Segment}
    (hfold : isBare before = true → Digit.isInteger s.head.toList = false) {query : List Char}
    (hslash : '/' ∉ query) {r : Request} (hr : readRequest query = .ok r) :
    readSegments before (.ofText ('/' :: segmentText s ++ '?' :: query)) =
      .ok (asked s.head r :: before).reverse := by
  have hhead : s.head.toList ≠ [] := fun hnil => hs.nonempty (String.toList_eq_nil_iff.mp hnil)
  obtain ⟨head, qualifier⟩ := s
  dsimp only at hhead hfold
  rw [List.cons_append, readSegments_slash, segmentText, List.append_assoc]
  obtain ⟨c, tail, htext, hc⟩ := encode_cons hhead (qualifierText qualifier ++ '?' :: query)
  rw [readSegments_next htext hc]
  rcases ho with hnone | ⟨n, hindex⟩
  · obtain rfl : qualifier = none := hnone
    rw [qualifierText, List.nil_append, readNext_head hs.unopened hs.unasked hfold (.inr rfl),
      readSegment_query _ hslash hr, String.ofList_toList, Except.map, Except.bind,
      readSegments_nil _ (text_afterQuery query)]
  · obtain rfl : qualifier = some (.index n) := hindex
    have hn := intText?_eq (hs.index n rfl)
    rw [qualifierText, readNext_head hs.unopened hs.unasked hfold (.inr rfl),
      readSegment_indexText_query _ hn hslash hr, String.ofList_toList, Except.map, Except.bind,
      readSegments_nil _ (text_afterQuery query)]

/-- A query behind written segments is the query of the last one. -/
theorem readSegments_pathText_asked {segments : List Segment} {s : Segment}
    (hw : ∀ t ∈ segments ++ [s], t.Writable) (hq : ∀ t ∈ segments, t.IsStep) (ho : s.IsOpen)
    {before : List Segment} (hfold : Unfolded (isBare before) (segments ++ [s]))
    {query : List Char} (hslash : '/' ∉ query) {r : Request} (hr : readRequest query = .ok r) :
    readSegments before (.ofText (pathText (segments ++ [s]) ++ '?' :: query)) =
      .ok (before.reverse ++ segments ++ [asked s.head r]) := by
  induction segments generalizing before with
  | nil =>
    have hpath : pathText ([] ++ [s]) = '/' :: segmentText s := List.append_nil _
    rw [hpath, readSegments_asked (hw s List.mem_cons_self) ho hfold.1 hslash hr,
      List.reverse_cons, List.append_nil]
  | cons t segments ih =>
    have hpath : pathText (t :: segments ++ [s]) =
        '/' :: segmentText t ++ pathText (segments ++ [s]) := List.flatMap_cons
    have hends : EndsSegment (pathText (segments ++ [s]) ++ '?' :: query) := by
      cases segments with
      | nil => exact .inr ⟨_, rfl⟩
      | cons u more => exact .inr ⟨_, rfl⟩
    rw [hpath, List.append_assoc,
      readSegments_segmentText (hw t List.mem_cons_self) (hq t List.mem_cons_self) hfold.1
        (hends.endsBefore t),
      ih (fun u hu => hw u (List.mem_cons_of_mem t hu)) (fun u hu => hq u (List.mem_cons_of_mem t hu))
        (by rw [isBare_cons]; exact hfold.2),
      List.reverse_cons, List.append_assoc, List.append_assoc, List.append_assoc]
    rfl

/-- The canonical text of segments with a query behind it is read as those segments with the query
on the last one. -/
theorem read_canonicalText_asked {scheme : String} (hs : ReadableScheme scheme)
    {segments : List Segment} {s : Segment} (hw : Writable (segments ++ [s])) (ho : s.IsOpen)
    {query : List Char} (hslash : '/' ∉ query) {r : Request} (hr : readRequest query = .ok r) :
    read (String.ofList (canonicalText scheme (segments ++ [s]) ++ '?' :: query)) =
      .ok (.ok ⟨scheme, segments ++ [asked s.head r]⟩) := by
  rw [canonicalText, List.append_assoc]
  refine read_of_segments hs ?_
  have hread := @readSegments_pathText_asked segments s hw.each
    (fun t ht => hw.steps t (List.mem_append_left [s] ht)) ho [] hw.unfolded query hslash r hr
  rw [segments_tail, hread]
  rfl

/-- A query behind the root of a scheme is read as a segment without a head. -/
theorem read_root_asked {scheme : String} (hs : ReadableScheme scheme) {query : List Char}
    (hslash : '/' ∉ query) {r : Request} (hr : readRequest query = .ok r) :
    read (String.ofList (canonicalText scheme [] ++ '?' :: query)) =
      .ok (.ok ⟨scheme, [asked "" r]⟩) := by
  have htail : canonicalText scheme [] = scheme.toList ++ schemeMark := List.append_nil _
  rw [htail]
  refine read_of_segments hs ?_
  have hnext := @readNext_head "" (by decide) (by decide) []
    (fun h => absurd h Bool.false_ne_true) ('?' :: query) (.inr rfl)
  rw [show Percent.encode "".toList ++ '?' :: query = '?' :: query from rfl,
    readSegment_query _ hslash hr] at hnext
  rw [segments, readSegments_next (r := .ofText ('?' :: query)) rfl (by decide), hnext, Except.map,
    Except.bind, readSegments_nil _ (text_afterQuery query)]
  rfl

end ResourceAtlas.Address
