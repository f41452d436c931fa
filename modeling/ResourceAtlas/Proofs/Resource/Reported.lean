import ResourceAtlas.Proofs.Address.Overlong
import ResourceAtlas.Proofs.Registry.Addressed
import ResourceAtlas.Proofs.Registry.Interchange
import ResourceAtlas.Proofs.Registry.Reported
import ResourceAtlas.Proofs.Specifier.Bounded

/-!
# What a read does not report

Problems of an address are reported, and so are data that break off. Two things are not: an integer of too
many digits in the address, which breaks off its reading, and a location that was read but whose own address
cannot be written. Only a computed way leads to such a location.
-/

namespace ResourceAtlas.Resource

open Address Atlas Number Query Schema Text

variable {a : Atlas} {s : Store} {limits : Limits}

/-- A read breaks off exactly if resolving the address does, or if the address of what was read cannot be
written. -/
theorem read_error_iff {uri : String} {f : Fault} : read a s limits uri = .error f ↔
    a.resolve uri = .error f ∨ ∃ spec v, a.resolve uri = .ok (.ok spec) ∧
      valueOf a s limits spec = .ok v ∧ spec.uri = .error f := by
  unfold read
  rw [bind_eq_error]
  refine or_congr_right ⟨?_, ?_⟩
  · rintro ⟨verdict, hfound, h⟩
    cases verdict with
    | error problem => exact (nomatch h)
    | ok spec =>
      dsimp only at h
      cases hv : valueOf a s limits spec with
      | error fault =>
        rw [hv] at h
        exact (nomatch h)
      | ok v =>
        rw [hv] at h
        rcases bind_eq_error.mp h with huri | ⟨own, -, h⟩
        · exact ⟨spec, v, hfound, hv, huri⟩
        · exact (nomatch h)
  · rintro ⟨spec, v, hspec, hv, huri⟩
    refine ⟨.ok spec, hspec, ?_⟩
    dsimp only
    rw [hv]
    exact bind_eq_error.mpr (.inl huri)

/-- **Problems of addresses are reported.** Reading an address breaks off only where an integer in it has too
many digits. Where every name of the schemas is defined and computed ways arrive inside documents, resolving
it breaks off exactly where reading it does, and a read of its resource breaks off exactly there, or where
the value was made of a location whose own address cannot be written. If computed ways keep addresses that
can be written, there is no such location. -/
theorem read_reported (hc : Defined a.catalog) (hways : a.WaysKeep Cursor.Inside)
    (s : Store) (limits : Limits) (uri : String) :
    (∀ f, Address.read uri = .error f →
      ∃ n, f = .tooManyDigits n ∧ Numeral.maxDigits < n ∧ HasInteger uri.toList n) ∧
    (∀ f, a.resolve uri = .error f ↔ Address.read uri = .error f) ∧
    (∀ f, read a s limits uri = .error f ↔ Address.read uri = .error f ∨
      ∃ spec v, a.resolve uri = .ok (.ok spec) ∧ valueOf a s limits spec = .ok v ∧
        spec.uri = .error f) ∧
    (a.WaysKeep Cursor.Addressed →
      ∀ f, read a s limits uri = .error f ↔ Address.read uri = .error f) := by
  have hresolve : ∀ f, a.resolve uri = .error f ↔ Address.read uri = .error f :=
    fun f => Atlas.resolve_error_iff hc hways
  have hread : ∀ f, read a s limits uri = .error f ↔ Address.read uri = .error f ∨
      ∃ spec v, a.resolve uri = .ok (.ok spec) ∧ valueOf a s limits spec = .ok v ∧
        spec.uri = .error f :=
    fun f => read_error_iff.trans (or_congr_left (hresolve f))
  refine ⟨read_breaks uri, hresolve, hread, fun haddressed f => ?_⟩
  rw [hread f]
  refine or_iff_left ?_
  rintro ⟨spec, v, hspec, -, huri⟩
  obtain ⟨own, hown⟩ := Atlas.exists_uri_of_resolve haddressed hspec
  exact (nomatch hown.symm.trans huri)

/-- A node whose children were built and whose members have a node that is there. -/
def IsDefined (n : Node) : Prop :=
  n.children.toOption.isSome = true ∧ ∀ ref ∈ n.item, ref.find.toOption.isSome = true

instance (n : Node) : Decidable (IsDefined n) :=
  inferInstanceAs (Decidable (_ ∧ _))

/-- A catalog of defined nodes is defined. -/
theorem defined_of_nodes {nodes : List Node} (h : ∀ n ∈ nodes, IsDefined n) :
    Defined ⟨nodes.toArray⟩ := by
  have hok : ∀ {α : Type} {x : Outcome α}, x.toOption.isSome = true → ∃ v, x = .ok v := by
    intro α x hx
    cases x with
    | error f => exact (nomatch hx)
    | ok v => exact ⟨v, rfl⟩
  have hnode : ∀ id, IsDefined (Catalog.node ⟨nodes.toArray⟩ id) := Catalog.forall_node (by decide) h
  exact ⟨fun id => hok (hnode id).1, fun id ref href => hok ((hnode id).2 ref href)⟩

/-- The names of the archive are defined. -/
theorem defined_archive : Defined archive.catalog :=
  defined_of_nodes (by decide)

/-- The computed way of the archive leads inside documents, by what can be written. -/
theorem waysKeep_archive :
    archive.WaysKeep Cursor.Inside ∧ archive.WaysKeep Cursor.Addressed := by
  refine ⟨Atlas.LeadsInside.waysKeep (Atlas.leadsInside_of_descends ?_), Atlas.waysKeep_addressed ?_⟩
  · exact Catalog.forall_node (p := Node.Descends) (by decide) (by decide)
  · exact Catalog.forall_node (p := fun n => ∀ m ∈ (n.landing.map Landing.motions).getD [],
      m.isWritable = true) (by decide) (by decide +kernel)

/-- A read over the computed way of the archive is answered, though there is no such folder. -/
theorem read_reported_archive :
    Defined archive.catalog ∧ archive.WaysKeep Cursor.Inside ∧
      archive.WaysKeep Cursor.Addressed ∧
      ∃ report, read archive (folderStore []) .usual "s://folders%5B7%5D/first" = .ok report := by
  obtain ⟨hinside, haddressed⟩ := waysKeep_archive
  refine ⟨defined_archive, hinside, haddressed, ?_⟩
  have hread : (Address.read "s://folders%5B7%5D/first").toOption.isSome = true := by decide +kernel
  obtain ⟨-, -, -, hreport⟩ := read_reported defined_archive hinside (folderStore []) .usual
    "s://folders%5B7%5D/first"
  cases hfound : read archive (folderStore []) .usual "s://folders%5B7%5D/first" with
  | error f =>
    rw [(hreport haddressed f).mp hfound] at hread
    exact (nomatch hread)
  | ok report => exact ⟨report, rfl⟩

/-- The names of folders are defined, and no computed way leads to them. -/
theorem defined_folders : Defined (folders folderAccessors).catalog ∧
    (folders folderAccessors).WaysKeep Cursor.Inside := by
  refine ⟨defined_of_nodes (by decide), fun _ _ _ _ _ e _ landing hlanding => ?_⟩
  exact absurd (hlanding.symm.trans (folders_direct _ e.2)) (Option.some_ne_none landing)

/-- The address of a folder with an identifier of one digit more than is read is not even reported. -/
theorem read_unreported_overlong : ∃ f,
    Address.read (uriBehind "s://folders"
      ('/' :: decimal ((10 ^ Numeral.maxDigits : Nat) : Int)) []) = .error f ∧
    (folders folderAccessors).resolve (uriBehind "s://folders"
      ('/' :: decimal ((10 ^ Numeral.maxDigits : Nat) : Int)) []) = .error f ∧
    read (folders folderAccessors) (folderStore []) .usual (uriBehind "s://folders"
      ('/' :: decimal ((10 ^ Numeral.maxDigits : Nat) : Int)) []) = .error f := by
  obtain ⟨hread, -⟩ := resolve_foldersAt folderAccessors
  have hl : [(⟨"folders", none⟩ : Segment)] = [] ++ [⟨"folders", none⟩] := rfl
  have hbreaks := resolve_overlong (a := folders folderAccessors) hread clear_folders
    (by decide +kernel) hl le_rfl (.inl rfl)
  obtain ⟨hdefined, hways⟩ := defined_folders
  exact ⟨_, (resolve_error_iff hdefined hways).mp hbreaks, hbreaks, read_error_iff.mpr (.inl hbreaks)⟩

end ResourceAtlas.Resource
