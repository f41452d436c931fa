import ResourceAtlas.Proofs.Registry.Canonical
import ResourceAtlas.Proofs.Store.Move
import ResourceAtlas.Tool

/-!
# What the move tool keeps

A call of the move tool that succeeds resolves two addresses and moves the member at one of them to the
end of the list at the other. It loses nothing exactly if that list lies in a document and outside the
member.
-/

namespace ResourceAtlas

open Address Atlas Schema Store Text

variable {a : Atlas} {s t : Store}

/-- A change that succeeded where its address was looked up. -/
theorem Specifier.followed_ok {spec : Specifier} {before : Outcome Unit}
    {change : Action (Verdict String)} {handle : Specifier}
    (h : spec.followed a before change s = (.ok (.ok handle), t)) :
    ∃ uri, change s = (.ok (.ok uri), t) ∧ spec.lookUp a uri = .ok (.ok handle) := by
  unfold followed at h
  cases hc : change s with
  | mk result u =>
    rw [hc] at h
    cases result with
    | error f => exact (nomatch h)
    | ok verdict =>
      cases verdict with
      | error problem => exact (nomatch h)
      | ok uri =>
        obtain ⟨hresult, rfl⟩ := Prod.mk.inj h
        obtain ⟨-, -, hlook⟩ := bind_eq_ok.mp hresult
        exact ⟨uri, rfl, hlook⟩

/-- What an address leads to is what it resolves to. -/
theorem Specifier.lookUp_ok {spec handle : Specifier} {uri : String}
    (h : spec.lookUp a uri = .ok (.ok handle)) : a.resolve uri = .ok (.ok handle) := by
  unfold lookUp at h
  by_cases hregistered : spec.registered = true
  · rw [if_pos hregistered] at h
    exact h
  · rw [if_neg hregistered] at h
    exact (nomatch h)

/-- A planned change that was made. -/
theorem Cursor.Plan.run_ok {plan : Cursor.Plan} {uri : String}
    (h : plan.run s = (.ok (.ok uri), t)) : plan = .ok (.ok (uri, t)) := by
  unfold run at h
  split at h
  · exact (nomatch h)
  · exact (nomatch h)
  · obtain ⟨hresult, rfl⟩ := Prod.mk.inj h
    obtain rfl := Except.ok.inj (Except.ok.inj hresult)
    rfl

/-- A move without a handler that succeeded was planned, and its address leads to the handle. -/
theorem Specifier.move_ok {spec destination handle : Specifier}
    (h : spec.move a none destination s = (.ok (.ok handle), t)) :
    ∃ uri m there, Cursor.Planned spec.cursor destination.cursor destination.node.memberKeys s uri t
      m there ∧ spec.lookUp a uri = .ok (.ok handle) := by
  obtain ⟨uri, hchange, hlook⟩ := followed_ok h
  obtain ⟨m, there, hplanned⟩ := Cursor.planRelocate_ok (Cursor.Plan.run_ok hchange)
  exact ⟨uri, m, there, hplanned, hlook⟩

/-- Calling the move of a node without a handler is moving. -/
theorem Specifier.callMove_eq {spec : Specifier}
    (h : Keyed.get? "move" spec.node.methods = some (.move none)) (destination : Specifier) :
    spec.callMove a destination s =
      ((spec.move a none destination s).1.map .location, (spec.move a none destination s).2) := by
  have hget : spec.methodNamed a "move" = .ok (.move none) := by
    unfold methodNamed get
    rw [if_neg (by decide), h]
    rfl
  unfold callMove
  rw [hget]

namespace Tool

/-- What goes on with a specifier that succeeded found one. -/
theorem onSpecifier_ok {α : Type} {found : Outcome (Verdict Specifier)}
    {next : Specifier → Action (Verdict α)} {x : α}
    (h : onSpecifier found next s = (.ok (.ok x), t)) :
    ∃ spec, found = .ok (.ok spec) ∧ next spec s = (.ok (.ok x), t) := by
  unfold onSpecifier at h
  split at h
  · exact (nomatch h)
  · exact (nomatch h)
  · next spec => exact ⟨spec, rfl, h⟩

/-- An action whose answer was shaped. -/
theorem answering_ok {α : Type} {shape : α → Outcome Value} {change : Action (Verdict α)}
    {answer : Value} (h : answering shape change s = (.ok (.ok answer), t)) :
    ∃ x, change s = (.ok (.ok x), t) ∧ shape x = .ok answer := by
  unfold answering at h
  split at h
  · exact (nomatch h)
  · exact (nomatch h)
  · next x u hc =>
    obtain ⟨hshape, rfl⟩ := Prod.mk.inj h
    obtain ⟨v, hv, hanswer⟩ := map_eq_ok.mp hshape
    exact ⟨x, hc, Except.ok.inj hanswer ▸ hv⟩

/-- A call that led to a new location. -/
theorem callLocation_ok {change : Action Answer} {v : Verdict Specifier}
    (h : callLocation change s = (.ok v, t)) : change s = (.ok (.location v), t) := by
  unfold callLocation at h
  split at h
  · next w u hc =>
    obtain ⟨hv, rfl⟩ := Prod.mk.inj h
    obtain rfl := Except.ok.inj hv
    exact hc
  · exact (nomatch h)
  · exact (nomatch h)

/-- An argument that gives an address is a text. -/
theorem addressOf_ok {v : Value} {uri : String} (h : addressOf v = .ok uri) : v = .text uri := by
  cases v with
  | text s => exact congrArg Value.text (Except.ok.inj h)
  | _ => exact (nomatch h)

/-- What resolves for a method resolves. -/
theorem resolveWith_ok {v : Value} {method : String} {spec : Specifier}
    (h : resolveWith a v method = .ok (.ok spec)) :
    ∃ uri, v = .text uri ∧ a.resolve uri = .ok (.ok spec) := by
  obtain ⟨uri, huri, h⟩ := bind_eq_ok.mp h
  obtain ⟨verdict, hverdict, h⟩ := bind_eq_ok.mp h
  split at h
  · exact (nomatch h)
  · next found =>
    split at h
    · obtain rfl := Except.ok.inj (Except.ok.inj h)
      exact ⟨uri, addressOf_ok huri, hverdict⟩
    · exact (nomatch h)

/-- A call of the move tool that succeeds finds an item and a destination at two addresses, moves the
one to the other, and answers with the address of the handle that it got. -/
theorem call_move_ok {given answer : Value}
    (h : Tool.move.call a given s = (.ok (.ok answer), t)) :
    ∃ entries item destination spec place handle uri, argumentEntries given = .ok entries ∧
      argument entries "item" = .text item ∧ argument entries "destination" = .text destination ∧
      a.resolve item = .ok (.ok spec) ∧ a.resolve destination = .ok (.ok place) ∧
      spec.callMove a place s = (.ok (.location (.ok handle)), t) ∧ handle.uri = .ok uri ∧
      answer = .mapping [("from", .text item), ("uri", .text uri)] := by
  unfold call at h
  by_cases hgiven : given.isTruthy = true
  · rw [if_pos hgiven] at h
    dsimp only at h
    split at h
    · exact (nomatch h)
    · exact (nomatch h)
    · split at h
      · exact (nomatch h)
      · next entries hentries =>
        unfold run at h
        obtain ⟨spec, hspec, h⟩ := onSpecifier_ok h
        obtain ⟨place, hplace, h⟩ := onSpecifier_ok h
        obtain ⟨handle, hcall, hanswer⟩ := answering_ok h
        obtain ⟨item, hitem, hresolve⟩ := resolveWith_ok hspec
        obtain ⟨destination, hdestination, hthere⟩ := bind_eq_ok.mp hplace
        obtain ⟨uri, huri, rfl⟩ := map_eq_ok.mp hanswer
        refine ⟨entries, item, destination, spec, place, handle, uri, hentries, hitem,
          addressOf_ok hdestination, hresolve, hthere, callLocation_ok hcall, huri, ?_⟩
        rw [hitem]
        rfl
  · rw [if_neg hgiven] at h
    exact (nomatch h)

/-- A move by the tool that succeeds, of a member whose node has no handler of its own, finds the
member and the list at the destination, and plans the move. -/
theorem call_move_planned {given answer : Value} {entries : Keyed Value}
    {item destination : String} {spec place : Specifier}
    (hentries : argumentEntries given = .ok entries)
    (hitem : argument entries "item" = .text item)
    (hdestination : argument entries "destination" = .text destination)
    (hspec : a.resolve item = .ok (.ok spec)) (hplace : a.resolve destination = .ok (.ok place))
    (hdefault : Keyed.get? "move" spec.node.methods = some (.move none))
    (h : Tool.move.call a given s = (.ok (.ok answer), t)) :
    ∃ uri m there handle, Cursor.Planned spec.cursor place.cursor place.node.memberKeys s uri t m
      there ∧ spec.lookUp a uri = .ok (.ok handle) := by
  obtain ⟨entries', item', destination', spec', place', handle, uri, hentries', hitem',
    hdestination', hspec', hplace', hcall, -, -⟩ := call_move_ok h
  obtain rfl := Except.ok.inj (hentries.symm.trans hentries')
  obtain rfl := Value.text.inj (hitem.symm.trans hitem')
  obtain rfl := Value.text.inj (hdestination.symm.trans hdestination')
  obtain rfl := Except.ok.inj (Except.ok.inj (hspec.symm.trans hspec'))
  obtain rfl := Except.ok.inj (Except.ok.inj (hplace.symm.trans hplace'))
  rw [Specifier.callMove_eq hdefault] at hcall
  obtain ⟨hresult, hstore⟩ := Prod.mk.inj hcall
  obtain ⟨verdict, hverdict, hlocation⟩ := map_eq_ok.mp hresult
  obtain rfl := Answer.location.inj hlocation
  have hmove : spec.move a none place s = (.ok (.ok handle), t) := Prod.ext hverdict hstore
  obtain ⟨uri, m, there, hplanned, hlook⟩ := Specifier.move_ok hmove
  exact ⟨uri, m, there, handle, hplanned, hlook⟩

/-- A move by the tool that succeeds loses nothing exactly if the list at the destination lies in a
document and not in the member that is moved. -/
theorem call_move_nothingLost_iff {given answer : Value} {entries : Keyed Value}
    {item destination : String} {spec place : Specifier}
    (hentries : argumentEntries given = .ok entries)
    (hitem : argument entries "item" = .text item)
    (hdestination : argument entries "destination" = .text destination)
    (hspec : a.resolve item = .ok (.ok spec)) (hplace : a.resolve destination = .ok (.ok place))
    (hdefault : Keyed.get? "move" spec.node.methods = some (.move none))
    (h : Tool.move.call a given s = (.ok (.ok answer), t)) :
    ∃ m there, spec.cursor.member s = .ok (.ok m) ∧ place.cursor.position? s = .ok (some there) ∧
      (NothingLost s t m there ↔
        there.spot?.isSome ∧ ¬ there.Inside (m.list.inside (.index m.index))) := by
  obtain ⟨uri, m, there, -, hplanned, -⟩ := call_move_planned hentries hitem hdestination hspec
    hplace hdefault h
  exact ⟨m, there, hplanned.found, hplanned.position, nothingLost_iff hplanned⟩

/-- The arguments of a move. -/
def moveArguments (item destination : String) : Keyed Value :=
  [("item", .text item), ("destination", .text destination)]

/-- Whether a call succeeded. -/
def succeeded (result : Outcome (Verdict Value) × Store) : Bool :=
  match result with
  | (.ok (.ok _), _) => true
  | _ => false

/-- What succeeded has an answer and leaves a store. -/
theorem exists_of_succeeded {result : Outcome (Verdict Value) × Store}
    (h : succeeded result = true) : ∃ answer t, result = (.ok (.ok answer), t) := by
  match result, h with
  | (.ok (.ok answer), t), _ => exact ⟨answer, t, rfl⟩

/-- The folder at an index of the root. -/
def folderAt (i : Int) : Specifier :=
  ⟨((Cursor.atRoot 0 "s").property "folders").atIndex (.int i), indexedFolders.catalog.node 2, true⟩

/-- The folders in the folder at an index of the root. -/
def foldersAt (i : Int) : Specifier :=
  ⟨(((Cursor.atRoot 0 "s").property "folders").atIndex (.int i)).property "folders",
    indexedFolders.catalog.node 1, true⟩

/-- The first folder by its address. -/
theorem resolve_folder_zero : indexedFolders.resolve "s://folders[0]" = .ok (.ok (folderAt 0)) := by
  rw [resolve_of_read (l := ⟨"s", [⟨"folders", some (.index 0)⟩]⟩) (by decide +kernel)]
  rfl

/-- The folders in the first folder by their address. -/
theorem resolve_folders_zero :
    indexedFolders.resolve "s://folders[0]/folders" = .ok (.ok (foldersAt 0)) := by
  rw [resolve_of_read (l := ⟨"s", [⟨"folders", some (.index 0)⟩, ⟨"folders", none⟩]⟩)
    (by decide +kernel)]
  rfl

/-- The folders in the second folder by their address. -/
theorem resolve_folders_one :
    indexedFolders.resolve "s://folders[1]/folders" = .ok (.ok (foldersAt 1)) := by
  rw [resolve_of_read (l := ⟨"s", [⟨"folders", some (.index 1)⟩, ⟨"folders", none⟩]⟩)
    (by decide +kernel)]
  rfl

/-- A folder that is moved into the one after it is not lost. -/
theorem call_move_nothingLost_folders :
    ∃ answer t m there,
      Tool.move.call indexedFolders
        (.mapping (moveArguments "s://folders[0]" "s://folders[1]/folders"))
        (folderStore [folder "A" [], folder "B" []]) = (.ok (.ok answer), t) ∧
      (folderAt 0).cursor.member (folderStore [folder "A" [], folder "B" []]) = .ok (.ok m) ∧
      (foldersAt 1).cursor.position? (folderStore [folder "A" [], folder "B" []]) =
        .ok (some there) ∧
      NothingLost (folderStore [folder "A" [], folder "B" []]) t m there := by
  have hrun : succeeded (Tool.move.call indexedFolders
      (.mapping (moveArguments "s://folders[0]" "s://folders[1]/folders"))
      (folderStore [folder "A" [], folder "B" []])) = true := by
    decide +kernel
  obtain ⟨answer, t, h⟩ := exists_of_succeeded hrun
  obtain ⟨m, there, hm, hthere, hiff⟩ := call_move_nothingLost_iff rfl rfl rfl resolve_folder_zero
    resolve_folders_one rfl h
  refine ⟨answer, t, m, there, h, hm, hthere, hiff.mpr ?_⟩
  obtain rfl : (⟨folder "A" [], ⟨.document 0, [.key "folders"]⟩, 0⟩ : Cursor.Member) = m :=
    Except.ok.inj (Except.ok.inj hm)
  obtain rfl : (⟨.document 0, [.key "folders", .index 1, .key "folders"]⟩ : Position) = there :=
    Option.some.inj (Except.ok.inj hthere)
  refine ⟨rfl, fun ⟨q, r, hq, hr, habove⟩ => ?_⟩
  obtain rfl := Option.some.inj hq
  obtain rfl := Option.some.inj hr
  exact absurd habove (by decide)

/-- A folder that is moved into itself is lost. -/
theorem call_move_into_itself :
    ∃ answer t m there,
      Tool.move.call indexedFolders
        (.mapping (moveArguments "s://folders[0]" "s://folders[0]/folders"))
        (folderStore [folder "A" [folder "B" []]]) = (.ok (.ok answer), t) ∧
      (folderAt 0).cursor.member (folderStore [folder "A" [folder "B" []]]) = .ok (.ok m) ∧
      (foldersAt 0).cursor.position? (folderStore [folder "A" [folder "B" []]]) =
        .ok (some there) ∧
      ¬ NothingLost (folderStore [folder "A" [folder "B" []]]) t m there := by
  have hrun : succeeded (Tool.move.call indexedFolders
      (.mapping (moveArguments "s://folders[0]" "s://folders[0]/folders"))
      (folderStore [folder "A" [folder "B" []]])) = true := by
    decide +kernel
  obtain ⟨answer, t, h⟩ := exists_of_succeeded hrun
  obtain ⟨uri, m, there, -, hplanned, -⟩ := call_move_planned rfl rfl rfl resolve_folder_zero
    resolve_folders_zero rfl h
  refine ⟨answer, t, m, there, h, hplanned.found, hplanned.position, fun hkept => ?_⟩
  refine ((nothingLost_iff hplanned).mp hkept).2 ?_
  obtain rfl : (⟨folder "A" [folder "B" []], ⟨.document 0, [.key "folders"]⟩, 0⟩ : Cursor.Member) =
      m := Except.ok.inj (Except.ok.inj hplanned.found)
  obtain rfl : (⟨.document 0, [.key "folders", .index 0, .key "folders"]⟩ : Position) = there :=
    Option.some.inj (Except.ok.inj hplanned.position)
  exact ⟨_, _, rfl, rfl, by decide⟩

end Tool

end ResourceAtlas
