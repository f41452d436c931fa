import ResourceAtlas.Completion
import ResourceAtlas.Proofs.Outcome
import ResourceAtlas.Proofs.Registry.Onward

/-!
# What is suggested

Some suggestions are addresses of their own: those of a child, and those of a member by its name or its
identifier. All that such a suggestion can be is said once here: it is made of the address up to its last
slash, which resolves, and of the key of a child that lies below there, or of the name or the identifier of
a member.
-/

namespace ResourceAtlas.Completion

open Address Query Schema Text

variable {a : Atlas} {s : Store} {c : Completion} {found : List Completion}

/-- The kinds of children. -/
def childKinds : List String := ["Property", "Navigable", "Collection"]

/-- The kinds of suggestions that are addresses of their own. -/
def placeKinds : List String := childKinds ++ ["By name", "By id"]

/-- An address up to the last slash of its path. -/
def stem (scheme path : List Char) : String :=
  String.ofList scheme ++ "://" ++ (cutLast '/' path).1

/-- A label is the text of the value that a member has under a key, and all members before it have values
with texts there. -/
def Labelled (s : Store) (list : Cursor) (key label : String) : Prop :=
  ∃ (items : List Value) (i : Nat) (item : Value), list.raw s = .ok (.list items) ∧
    items[i]? = some item ∧ (item.field key).isNull = false ∧ (item.field key).string? = some label ∧
    ∀ j < i, ∀ other : Value, items[j]? = some other → ((other.field key).string?).isSome

/-- A suggestion of a place behind an address that leads to a location. -/
inductive OfPlace (a : Atlas) (s : Store) (spec : Specifier) (stem : String) (slash : Bool) :
    Completion → Prop
  /-- A child, as a whole segment or as the last one. -/
  | child {children : Keyed NodeId} {key tail kind : String} {id : NodeId}
      (hbelow : spec.node.below a.catalog = .ok children) (hchild : (key, id) ∈ children)
      (htail : tail = "" ∨ tail = "/") (hkind : kind ∈ childKinds) :
      OfPlace a s spec stem slash ⟨stem ++ mark "/" slash ++ key ++ tail, key, kind⟩
  /-- A member by its name, which is coded. -/
  | name {label : String} (hname : spec.node.hasMethod "by_name" = true)
      (hlabel : Labelled s spec.cursor "name" label) :
      OfPlace a s spec stem slash ⟨stem ++ "/" ++ Percent.encodeString label, label, "By name"⟩
  /-- A member by its identifier, which is not. -/
  | id {label : String} (hname : spec.node.hasMethod "by_name" = false)
      (hid : spec.node.hasMethod "by_id" = true) (hlabel : Labelled s spec.cursor "id" label) :
      OfPlace a s spec stem slash ⟨stem ++ "/" ++ label, label, "By id"⟩

section Children

/-- A child is suggested with or without a slash behind it. -/
theorem ofChild_ok {catalog : Catalog} {lead key : String} {child : Node}
    (h : ofChild catalog lead key child = .ok c) :
    ∃ tail kind, (tail = "" ∨ tail = "/") ∧ kind ∈ childKinds ∧ c = ⟨lead ++ key ++ tail, key, kind⟩ := by
  unfold ofChild at h
  split at h
  · exact ⟨"/", "Collection", .inr rfl, by decide, (Except.ok.inj h).symm⟩
  split at h
  · exact ⟨"/", "Navigable", .inr rfl, by decide, (Except.ok.inj h).symm⟩
  obtain ⟨keys, -, h⟩ := bind_eq_ok.mp h
  obtain rfl := Except.ok.inj h
  split
  · exact ⟨"", "Property", .inl rfl, by decide, by rw [String.append_empty]⟩
  · exact ⟨"/", "Navigable", .inr rfl, by decide, rfl⟩

/-- What is suggested for children is a child. -/
theorem ofChildren_ok {spec : Specifier} {stem fragment : String} {slash : Bool}
    (h : ofChildren a.catalog (stem ++ mark "/" slash) fragment spec.node = .ok found) (hc : c ∈ found) :
    OfPlace a s spec stem slash c := by
  obtain ⟨children, hbelow, h⟩ := bind_eq_ok.mp h
  obtain ⟨⟨key, id⟩, hmem, hchild⟩ := exists_of_mem_mapM h hc
  obtain ⟨tail, kind, htail, hkind, rfl⟩ := ofChild_ok hchild
  exact .child hbelow (List.mem_of_mem_filter hmem) htail hkind

end Children

section Members

variable {keys : List MemberKey} {collection fragment : String} {item : Value}

/-- The key under which a collection is completed, if its members have names or identifiers. -/
def chosenKey? (keys : List MemberKey) : Option String :=
  if keys.contains "name" then some "name"
  else if keys.contains "id" then some "id"
  else none

/-- The suggestion of a member under a key. -/
def ofLabel (collection key label : String) : Completion :=
  if key = "name" then ⟨collection ++ "/" ++ Percent.encodeString label, label, "By name"⟩
  else ⟨collection ++ "/" ++ label, label, "By id"⟩

/-- What is suggested for a value is made of its text, which it has. -/
theorem ofText_ok {v : Value} {fits : String → Bool} {suggestion : String → Completion}
    (h : (if v.isNull then .ok [] else (writable v.string?).bind fun text =>
      .ok (if fits text then [suggestion text] else [])) = (.ok found : Outcome (List Completion))) :
    (v.string?).isSome ∧ ∀ c ∈ found, v.isNull = false ∧
      ∃ text, v.string? = some text ∧ c = suggestion text := by
  cases hnull : v.isNull with
  | true =>
    rw [hnull, if_pos rfl] at h
    obtain rfl := Except.ok.inj h
    have htext : (v.string?).isSome := by
      cases v <;> first | rfl | exact (nomatch hnull)
    exact ⟨htext, fun c hc => absurd hc List.not_mem_nil⟩
  | false =>
    rw [hnull, if_neg Bool.false_ne_true] at h
    cases htext : v.string? with
    | none =>
      rw [htext] at h
      exact (nomatch h)
    | some text =>
      rw [htext] at h
      obtain rfl := Except.ok.inj h
      refine ⟨rfl, fun c hc => ⟨rfl, text, rfl, ?_⟩⟩
      split at hc
      · exact List.mem_singleton.mp hc
      · exact absurd hc List.not_mem_nil

/-- What is suggested for a member is made of the text of its value under the key of the collection. -/
theorem ofMember_ok (h : ofMember keys collection fragment item = .ok found) :
    (chosenKey? keys = none → found = []) ∧ ∀ key, chosenKey? keys = some key →
      ((item.field key).string?).isSome ∧ ∀ c ∈ found, (item.field key).isNull = false ∧
        ∃ label, (item.field key).string? = some label ∧ c = ofLabel collection key label := by
  unfold ofMember at h
  unfold chosenKey?
  split at h
  · next hname =>
    rw [if_pos hname]
    refine ⟨fun hnone => (nomatch hnone), fun key hkey => ?_⟩
    obtain rfl := Option.some.inj hkey
    exact ofText_ok h
  · next hname =>
    rw [if_neg hname]
    split at h
    · next hid =>
      rw [if_pos hid]
      refine ⟨fun hnone => (nomatch hnone), fun key hkey => ?_⟩
      obtain rfl := Option.some.inj hkey
      exact ofText_ok h
    · next hid =>
      rw [if_neg hid]
      exact ⟨fun _ => (Except.ok.inj h).symm, fun key hkey => (nomatch hkey)⟩

/-- What is suggested for members is suggested for one of them, and something was found for all before
it, by induction along the members. -/
theorem ofMembers_ok {items : List Value} (h : ofMembers keys collection fragment items = .ok found)
    (hc : c ∈ found) :
    ∃ (i : Nat) (item : Value) (here : List Completion), items[i]? = some item ∧
      ofMember keys collection fragment item = .ok here ∧ c ∈ here ∧
      ∀ j < i, ∀ other : Value, items[j]? = some other →
        ∃ there, ofMember keys collection fragment other = .ok there := by
  induction items generalizing found with
  | nil =>
    obtain rfl := Except.ok.inj h
    exact absurd hc List.not_mem_nil
  | cons first items ih =>
    obtain ⟨here, hhere, h⟩ := bind_eq_ok.mp h
    obtain ⟨more, hmore, h⟩ := bind_eq_ok.mp h
    obtain rfl := Except.ok.inj h
    rcases List.mem_append.mp hc with hc | hc
    · exact ⟨0, first, here, rfl, hhere, hc, fun j hj => absurd hj (Nat.not_lt_zero j)⟩
    · obtain ⟨i, item, there, hitem, hthere, hc, hbefore⟩ := ih hmore hc
      refine ⟨i + 1, item, there, hitem, hthere, hc, fun j hj other hother => ?_⟩
      cases j with
      | zero =>
        obtain rfl := Option.some.inj hother
        exact ⟨here, hhere⟩
      | succ j => exact hbefore j (Nat.lt_of_succ_lt_succ hj) other hother

/-- The members from the first one on are the first members. -/
theorem slice_zero (items : List Value) (last : Int) :
    Value.slice items 0 last = items.take (Value.clampIndex items.length last) := by
  have hzero : Value.clampIndex items.length 0 = 0 := by
    unfold Value.clampIndex
    simp
  unfold Value.slice
  rw [hzero, List.drop_zero]

/-- What is suggested for the first members of a location has the text of a member's value under the key
of the collection as its label. -/
theorem labelled_of_ofMembers {list : Cursor} {data : Value} {most : Int}
    (hdata : list.raw s = .ok data) (h : ofMembers keys collection fragment
      (Value.slice (Resource.listMembers data) 0 most) = .ok found) (hc : c ∈ found) :
    ∃ key label, chosenKey? keys = some key ∧ c = ofLabel collection key label ∧
      Labelled s list key label := by
  obtain ⟨i, item, here, hitem, hhere, hc, hbefore⟩ := ofMembers_ok h hc
  obtain ⟨hnone, hsome⟩ := ofMember_ok hhere
  cases hkey : chosenKey? keys with
  | none =>
    rw [hnone hkey] at hc
    exact absurd hc List.not_mem_nil
  | some key =>
    obtain ⟨-, hfound⟩ := hsome key hkey
    obtain ⟨hnull, label, hlabel, rfl⟩ := hfound c hc
    refine ⟨key, label, rfl, rfl, ?_⟩
    rw [slice_zero] at hitem hbefore
    obtain ⟨items, rfl⟩ : ∃ items, data = .list items := by
      cases data <;> first | exact ⟨_, rfl⟩ | exact (nomatch (List.take_nil ▸ hitem))
    obtain ⟨count, hcount⟩ : ∃ count, Value.clampIndex items.length most = count := ⟨_, rfl⟩
    rw [show Resource.listMembers (.list items) = items from rfl, hcount] at hitem hbefore
    have hshort : i < count := by
      have hlength := (List.getElem?_eq_some_iff.mp hitem).1
      rw [List.length_take] at hlength
      omega
    have htake : ∀ j ≤ i, (items.take count)[j]? = items[j]? := fun j hj =>
      List.getElem?_take_of_lt (Nat.lt_of_le_of_lt hj hshort)
    rw [htake i (Nat.le_refl i)] at hitem
    refine ⟨items, i, item, hdata, hitem, hnull, hlabel, fun j hj other hother => ?_⟩
    obtain ⟨there, hthere⟩ := hbefore j hj other ((htake j (Nat.le_of_lt hj)).trans hother)
    exact ((ofMember_ok hthere).2 key hkey).1

/-- The key under which the members of a node are completed is one that selects them. -/
theorem chosenKey?_memberKeys (n : Node) : chosenKey? n.memberKeys =
    if n.hasMethod "by_name" then some "name"
    else if n.hasMethod "by_id" then some "id" else none := by
  unfold chosenKey? Node.memberKeys Node.accessors
  cases hname : n.hasMethod "by_name" <;> cases hid : n.hasMethod "by_id" <;>
    cases hindex : n.hasMethod "by_index" <;> simp [hname, hid, hindex]

/-- What is suggested for a collection is a member, unless it is a position or a query. -/
theorem inCollection_ok {spec : Specifier} {stem : String} {most : Int} (slash : Bool)
    (h : inCollection s spec stem fragment most = .ok found) (hc : c ∈ found)
    (hkind : c.description ∈ placeKinds) : OfPlace a s spec stem slash c := by
  obtain ⟨data, hdata, h⟩ := bind_eq_ok.mp h
  obtain ⟨members, hmembers, h⟩ := bind_eq_ok.mp h
  obtain rfl := Except.ok.inj h
  have hother : ∀ {p : Bool} {x : Completion}, x.description ∉ placeKinds →
      c ∉ if p then [x] else [] := by
    intro p x hx hmem
    cases p with
    | true => exact hx (List.mem_singleton.mp hmem ▸ hkind)
    | false => exact absurd hmem List.not_mem_nil
  have hmember : c ∈ members := by
    rcases List.mem_append.mp hc with hc | hc
    · exact (List.mem_append.mp hc).resolve_right (hother (by decide : "By index" ∉ placeKinds))
    · exact absurd hc (hother (by decide : "Filter, sort or paginate" ∉ placeKinds))
  obtain ⟨key, label, hkey, rfl, hlabel⟩ := labelled_of_ofMembers hdata hmembers hmember
  rw [chosenKey?_memberKeys] at hkey
  split at hkey
  · next hname =>
    obtain rfl := Option.some.inj hkey
    exact .name hname hlabel
  · next hname =>
    split at hkey
    · next hid =>
      obtain rfl := Option.some.inj hkey
      exact .id (Bool.eq_false_iff.mpr hname) hid hlabel
    · exact (nomatch hkey)

end Members

section Query

/-- No kind of places starts with another letter than these. -/
theorem not_place_of_letter {front : String} {letter : Char} (h : front.toList.head? = some letter)
    (hletter : some letter ∉ ['P', 'N', 'C', 'B'].map some) (text : String) :
    front ++ text ∉ placeKinds := by
  have hkinds : ∀ kind ∈ placeKinds, kind.toList.head? ∈ ['P', 'N', 'C', 'B'].map some := by decide
  intro hmem
  have hhead := hkinds _ hmem
  rw [String.toList_append, List.head?_append, h, Option.some_or] at hhead
  exact hletter hhead

/-- A suggestion for the key of a query part is no place. -/
theorem not_place_of_inQueryKey {stem last : String} {fields : List String}
    (hc : c ∈ inQueryKey stem last fields) : c.description ∉ placeKinds := by
  unfold inQueryKey at hc
  split at hc
  · obtain ⟨name, hname, rfl⟩ := List.mem_map.mp hc
    have hnames : ∀ name ∈ operatorNames, name ++ " filter" ∉ placeKinds := by decide
    exact hnames name (List.mem_of_mem_filter hname)
  · rcases List.mem_append.mp hc with hc | hc
    · obtain ⟨word, hword, rfl⟩ := List.mem_map.mp hc
      have hwords : ∀ word ∈ queryWords, word.2 ∉ placeKinds := by decide
      exact hwords word (List.mem_of_mem_filter hword)
    · obtain ⟨name, -, rfl⟩ := List.mem_map.mp hc
      exact @not_place_of_letter "Filter by " 'F' rfl (by decide) name

/-- A suggestion for the value of a query part is no place. -/
theorem not_place_of_inQueryValue {stem key value : String} {fields lazyFields : List String}
    (hc : c ∈ inQueryValue stem key value fields lazyFields) : c.description ∉ placeKinds := by
  unfold inQueryValue at hc
  split at hc
  · split at hc
    · obtain ⟨name, -, rfl⟩ := List.mem_map.mp hc
      exact @not_place_of_letter "Sort by " 'S' rfl (by decide) name
    · obtain ⟨word, hword, rfl⟩ := List.mem_map.mp hc
      have hwords : ∀ word ∈ directionWords, word.2 ∉ placeKinds := by decide
      exact hwords word (List.mem_of_mem_filter hword)
  · split at hc
    · obtain ⟨name, -, rfl⟩ := List.mem_map.mp hc
      exact (by decide : "Lazy field" ∉ placeKinds)
    · exact absurd hc List.not_mem_nil

/-- A suggestion in the query of an address is no place. -/
theorem not_place_of_inQuery {scheme base : String} {query : List Char}
    (h : inQuery a scheme base query = .ok found) (hc : c ∈ found) : c.description ∉ placeKinds := by
  obtain ⟨verdict, -, h⟩ := bind_eq_ok.mp h
  cases verdict with
  | error problem =>
    obtain rfl := Except.ok.inj h
    exact absurd hc List.not_mem_nil
  | ok spec =>
    dsimp only at h
    split at h
    · obtain rfl := Except.ok.inj h
      exact absurd hc List.not_mem_nil
    · obtain ⟨item, -, h⟩ := bind_eq_ok.mp h
      cases item <;>
        · obtain ⟨children, -, h⟩ := bind_eq_ok.mp h
          obtain rfl := Except.ok.inj h
          split at hc
          · exact not_place_of_inQueryKey hc
          · exact not_place_of_inQueryValue hc

end Query

/-- A suggestion of a place is that of a child or a member of the location to which the address leads up to
its last slash. -/
theorem ofPlace_of_suggest {partialUri : String} {most : Int} {scheme path : List Char}
    (hcut : Split.atWord "://".toList partialUri.toList = some (scheme, path))
    (h : suggest a s partialUri most = .ok found) (hc : c ∈ found)
    (hkind : c.description ∈ placeKinds) :
    ∃ spec, a.resolve (stem scheme path) = .ok (.ok spec) ∧
      OfPlace a s spec (stem scheme path) (cutLast '/' path).2.1 c := by
  unfold suggest at h
  rw [hcut] at h
  dsimp only at h
  split at h
  · exact absurd hkind (not_place_of_inQuery h hc)
  · obtain ⟨verdict, hverdict, h⟩ := bind_eq_ok.mp h
    cases verdict with
    | error problem =>
      obtain rfl := Except.ok.inj h
      exact absurd hc List.not_mem_nil
    | ok spec =>
      refine ⟨spec, hverdict, ?_⟩
      dsimp only at h
      split at h
      · exact inCollection_ok _ h hc hkind
      · exact ofChildren_ok h hc

end ResourceAtlas.Completion
