import ResourceAtlas.Proofs.Registry.ReadOnly
import ResourceAtlas.Proofs.Specifier.Bounded
import ResourceAtlas.Service.Rpc

/-!
# Runs over atlases that offer no changes

Where no node that the schemas lead to has a method that changes documents, no tool finds what it asks for.
Each tool call, read, completion and message then leaves the atlas and the documents of a desk as they are
and tells of no tool that did its work; so do all of them in turn.
-/

namespace ResourceAtlas

open Atlas Query Schema

namespace Tool

variable {a : Atlas} {α : Type}

/-- An action leaves every store as it is and does not do its work. -/
def Idle (action : Action (Verdict α)) : Prop :=
  ∀ s, (action s).2 = s ∧ ∀ answer, (action s).1 ≠ .ok (.ok answer)

/-- An action that breaks off at once is idle. -/
theorem idle_error (f : Fault) : Idle (fun s => (.error f, s) : Action (Verdict α)) :=
  fun _ => ⟨rfl, fun _ h => (nomatch h)⟩

/-- What needs a specifier is idle where none is found. -/
theorem idle_onSpecifier {found : Outcome (Verdict Specifier)} (h : ∀ spec, found ≠ .ok (.ok spec))
    (next : Specifier → Action (Verdict α)) : Idle (onSpecifier found next) := by
  intro s
  unfold onSpecifier
  split
  · exact ⟨rfl, fun _ heq => (nomatch heq)⟩
  · exact ⟨rfl, fun _ heq => (nomatch heq)⟩
  · next spec => exact absurd rfl (h spec)

/-- A read-only atlas has no specifier with a method that changes documents. -/
theorem resolveWith_readOnly (hr : a.ReadOnly) (address : Value) {method : String}
    (hm : method ∈ changingMethods) (spec : Specifier) :
    resolveWith a address method ≠ .ok (.ok spec) := by
  intro h
  obtain ⟨uri, -, h⟩ := bind_eq_ok.mp h
  obtain ⟨verdict, hverdict, h⟩ := bind_eq_ok.mp h
  cases verdict with
  | error problem => exact (nomatch h)
  | ok found =>
    dsimp only at h
    rw [hr.unchanging_of_resolve hverdict method hm] at h
    exact (nomatch h)

/-- Every tool is idle over a read-only atlas. -/
theorem idle_run (hr : a.ReadOnly) (arguments : Keyed Value) (t : Tool) : Idle (t.run a arguments) := by
  cases t with
  | set => exact idle_onSpecifier (resolveWith_readOnly hr _ (by decide)) _
  | make => exact idle_onSpecifier (resolveWith_readOnly hr _ (by decide)) _
  | move => exact idle_onSpecifier (resolveWith_readOnly hr _ (by decide)) _
  | delete => exact idle_onSpecifier (resolveWith_readOnly hr _ (by decide)) _

/-- Every call of a tool is idle over a read-only atlas, whatever it is given. -/
theorem idle_call (hr : a.ReadOnly) (t : Tool) (given : Value) : Idle (t.call a given) := by
  intro s
  unfold call
  dsimp only
  split
  · exact idle_error _ s
  · exact ⟨rfl, fun _ heq => (nomatch heq)⟩
  · split
    · exact idle_error _ s
    · exact idle_run hr _ t s

/-- So is every call by the name of a tool, or by another name. -/
theorem idle_callNamed (hr : a.ReadOnly) (name : String) (given : Value) :
    Idle (callNamed a name given) := by
  intro s
  unfold callNamed
  split
  · exact idle_call hr _ given s
  · exact idle_error _ s

end Tool

namespace Service

variable {d : Desk}

/-- What is asked of a desk. -/
inductive Event
  /-- A tool, by a name and with arguments of any kind. -/
  | tool (name : String) (arguments : Value)
  /-- A resource. -/
  | read (limits : Resource.Limits) (uri : String)
  /-- Suggestions of how an address may go on. -/
  | complete (uri : String) (most : Int)
  /-- A message to a server, with a token or without. -/
  | message (server : Server) (text : String) (token : Option String)

/-- What is answered. -/
inductive Response
  /-- The answer of a tool. -/
  | tool (answer : Outcome (Verdict Value))
  /-- The report of a read. -/
  | read (answer : Outcome Resource.Report)
  /-- Suggestions. -/
  | complete (answer : Outcome (List Completion))
  /-- The reply to a message. -/
  | message (answer : Outcome (Option Reply))

/-- Answer an event. -/
def Event.perform (d : Desk) : Event → Response × Desk
  | tool name arguments =>
    let (answer, d) := Desk.act (fun a => Tool.callNamed a name arguments) d
    (.tool answer, d)
  | read limits uri =>
    let (answer, d) := Desk.read limits uri d
    (.read answer, d)
  | complete uri most => (.complete (Completion.suggest d.atlas d.store uri most), d)
  | message server text token =>
    let (answer, d) := answerMessage server text token d
    (.message answer, d)

/-- Answer events in turn. -/
def performAll (d : Desk) : List Event → List Response × Desk
  | [] => ([], d)
  | e :: rest =>
    let (response, d) := e.perform d
    let (responses, d) := performAll d rest
    (response :: responses, d)

/-- A reply tells of a tool that did its work. -/
def Reply.Works (r : Reply) : Prop :=
  ∃ text, r.result = .ok (toolContent text false)

/-- A response tells of a tool that did its work. -/
def Response.Works : Response → Prop
  | tool answer => ∃ v, answer = .ok (.ok v)
  | message answer => ∃ reply, answer = .ok (some reply) ∧ reply.Works
  | _ => False

/-- Two desks have the same atlas and the same documents. -/
structure Desk.Alike (d d' : Desk) : Prop where
  /-- The atlas is the same. -/
  atlas : d'.atlas = d.atlas
  /-- The documents are the same. -/
  store : d'.store = d.store

namespace Desk.Alike

/-- A desk has its own atlas and documents. -/
theorem refl (d : Desk) : d.Alike d := ⟨rfl, rfl⟩

/-- What is the same twice in turn is the same. -/
theorem trans {d d' d'' : Desk} (h : d.Alike d') (h' : d'.Alike d'') : d.Alike d'' :=
  ⟨h'.atlas.trans h.atlas, h'.store.trans h.store⟩

end Desk.Alike

/-- Recording a read changes the ledger alone. -/
theorem alike_record (event : ReadEvent) (d : Desk) : d.Alike (Desk.record event d).2 := by
  unfold Desk.record
  split
  · exact .refl d
  · exact ⟨rfl, rfl⟩

/-- A read changes the ledger alone. -/
theorem alike_read (limits : Resource.Limits) (uri : String) (d : Desk) :
    d.Alike (Desk.read limits uri d).2 := by
  unfold Desk.read
  split
  · exact .refl d
  · exact alike_record _ d

/-- The result of a method, left with a desk, leaves documents as they are and tells of no tool that did
its work. -/
structure Harmless (d : Desk) (p : Outcome MethodResult × Desk) : Prop where
  /-- The documents are as they were. -/
  alike : d.Alike p.2
  /-- No tool did its work. -/
  idle : ∀ text, p.1 ≠ .ok (.ok (toolContent text false))

/-- The keys of what tells of a tool that did its work. -/
theorem keys_of_toolContent {entries : Keyed Value} {text : String} {isError : Bool}
    (h : Value.mapping entries = toolContent text isError) :
    Keyed.keys entries = ["content", "isError"] := by
  obtain rfl := Value.mapping.inj h
  rfl

/-- A method that gives a mapping with other keys, or breaks off, is harmless. -/
theorem harmless_mapping {d' : Desk} (h : d.Alike d') {x : Outcome MethodResult}
    (hx : ∀ v, x = .ok (.ok v) → ∃ entries, v = .mapping entries ∧
      Keyed.keys entries ≠ ["content", "isError"]) : Harmless d (x, d') := by
  refine ⟨h, fun text heq => ?_⟩
  obtain ⟨entries, hentries, hkeys⟩ := hx _ heq
  exact hkeys (keys_of_toolContent hentries.symm)

/-- What needs a parameter is harmless if what it goes on with is. -/
theorem harmless_withText {params : Value} {name : String} {next : String → Task MethodResult}
    (hnext : ∀ text, Harmless d (next text d)) : Harmless d (withText params name next d) := by
  unfold withText
  split
  · exact ⟨.refl d, fun _ h => (nomatch h)⟩
  · exact hnext _
  · exact ⟨.refl d, fun _ h => (nomatch h)⟩

/-- Reading a resource for a caller is harmless. -/
theorem harmless_readMethod (server : Server) (uri : String) (d : Desk) :
    Harmless d (readMethod server uri d) := by
  have halike := alike_read server.limits uri d
  unfold readMethod
  split
  · next f d' heq =>
    rw [heq] at halike
    exact ⟨halike, fun _ h => (nomatch h)⟩
  · next report d' heq =>
    rw [heq] at halike
    split
    · exact ⟨halike, fun _ h => (nomatch h)⟩
    · refine harmless_mapping halike fun v hv => ?_
      obtain ⟨text, -, htext⟩ := map_eq_ok.mp hv
      exact ⟨_, (Except.ok.inj htext).symm, by simp [Keyed.keys]⟩

/-- An action that is idle leaves a desk's documents as they are. -/
theorem alike_act (action : Atlas → Action (Verdict Value)) (h : Tool.Idle (action d.atlas)) :
    d.Alike (Desk.act action d).2 ∧ ∀ v, (Desk.act action d).1 ≠ .ok (.ok v) := by
  obtain ⟨hstore, hanswer⟩ := h d.store
  exact ⟨⟨rfl, hstore⟩, hanswer⟩

/-- A recorded call of a tool is idle over a read-only atlas. -/
theorem alike_callTool (hr : d.atlas.ReadOnly) (t : Tool) (arguments : Value) :
    d.Alike (Desk.callTool t arguments d).2 ∧
      ∀ v, (Desk.callTool t arguments d).1 ≠ .ok (.ok v) := by
  obtain ⟨halike, hanswer⟩ := alike_act (d := d) (fun a => t.call a arguments)
    (Tool.idle_call hr t arguments)
  unfold Desk.callTool
  split
  · next f d' heq =>
    rw [heq] at halike
    exact ⟨halike, fun _ h => (nomatch h)⟩
  · next verdict d' heq =>
    rw [heq] at halike hanswer
    exact ⟨⟨halike.atlas, halike.store⟩, hanswer⟩

/-- Calling a tool for a caller is harmless over a read-only atlas. -/
theorem harmless_toolMethod (hr : d.atlas.ReadOnly) (params : Value) (name : String) :
    Harmless d (toolMethod params name d) := by
  unfold toolMethod
  split
  · refine ⟨.refl d, fun text h => ?_⟩
    obtain ⟨_, -, h⟩ := map_eq_ok.mp h
    exact (nomatch h)
  · next t _ =>
    split
    · exact ⟨.refl d, fun _ h => (nomatch h)⟩
    · next arguments _ =>
      obtain ⟨halike, hanswer⟩ := alike_callTool hr t arguments
      split
      · next f d' heq =>
        rw [heq] at halike
        exact ⟨halike, fun _ h => (nomatch h)⟩
      · next problem d' heq =>
        rw [heq] at halike
        refine ⟨halike, fun text h => ?_⟩
        have hcontent := Value.mapping.inj (Except.ok.inj (Except.ok.inj h))
        exact absurd hcontent (by simp)
      · next v d' heq =>
        rw [heq] at hanswer
        exact absurd rfl (hanswer v)

/-- Completing an address for a caller is harmless. -/
theorem harmless_completionMethod (params : Value) (d : Desk) :
    Harmless d (completionMethod params d) := by
  refine harmless_mapping (.refl d) fun v hv => ?_
  obtain ⟨argument, -, hv⟩ := bind_eq_ok.mp hv
  split at hv
  · exact (nomatch hv)
  · obtain ⟨found, -, hv⟩ := bind_eq_ok.mp hv
    exact ⟨_, (Except.ok.inj (Except.ok.inj hv)).symm, by simp [Keyed.keys]⟩

/-- Showing what the atlas holds is harmless. -/
theorem harmless_showing (name : String) (shape : Atlas → Outcome Value) (d : Desk) :
    Harmless d (showing name shape d) := by
  refine harmless_mapping (.refl d) fun v hv => ?_
  obtain ⟨shown, -, hv⟩ := map_eq_ok.mp hv
  exact ⟨_, (Except.ok.inj hv).symm, by simp [Keyed.keys]⟩

/-- Greeting a caller is harmless. -/
theorem harmless_greet (server : Server) (params : Value) (d : Desk) :
    Harmless d ((greet server params).map .ok, d) := by
  refine harmless_mapping (.refl d) fun v hv => ?_
  obtain ⟨shown, hshown, hv⟩ := map_eq_ok.mp hv
  obtain ⟨given, -, hshown⟩ := bind_eq_ok.mp hshown
  obtain rfl := Except.ok.inj hv
  exact ⟨_, (Except.ok.inj hshown).symm, by simp [Keyed.keys]⟩

/-- Every method is harmless over a read-only atlas. -/
theorem harmless_dispatch (hr : d.atlas.ReadOnly) (server : Server) (method : String) (params : Value) :
    Harmless d (dispatch server method params d) := by
  unfold dispatch
  split_ifs
  · exact harmless_greet server params d
  · refine harmless_mapping (.refl d) fun v hv => ⟨[], ?_, by decide⟩
    exact (Except.ok.inj (Except.ok.inj hv)).symm
  · exact harmless_showing _ _ d
  · exact harmless_showing _ _ d
  · exact harmless_withText fun uri => harmless_readMethod server uri d
  · exact harmless_showing _ _ d
  · exact harmless_withText fun name => harmless_toolMethod hr params name
  · exact harmless_completionMethod params d
  · exact ⟨.refl d, fun _ h => (nomatch h)⟩

/-- A harmless method whose faults become errors leaves documents as they are and tells of no tool that did
its work. -/
theorem alike_guarded {task : Task MethodResult} (h : Harmless d (task d)) :
    d.Alike (guarded task d).2 ∧ ∀ text, (guarded task d).1 ≠ .ok (toolContent text false) := by
  obtain ⟨halike, hidle⟩ := h
  unfold guarded
  split
  · next result d' heq =>
    rw [heq] at halike hidle
    exact ⟨halike, fun text hresult => hidle text (congrArg Except.ok hresult)⟩
  · next f d' heq =>
    rw [heq] at halike
    exact ⟨halike, fun _ hresult => (nomatch hresult)⟩

/-- Answering a request leaves the documents of a read-only atlas as they are. -/
theorem alike_answerRequest (hr : d.atlas.ReadOnly) (server : Server) (entries : Keyed Value)
    (method : String) : d.Alike (answerRequest server entries method d).2 ∧
      ∀ reply, (answerRequest server entries method d).1 = some reply → ¬ reply.Works := by
  unfold answerRequest
  dsimp only
  split
  · exact ⟨.refl d, fun _ h => (nomatch h)⟩
  · obtain ⟨halike, hidle⟩ := alike_guarded (harmless_dispatch hr server method
      (if ((Keyed.get? "params" entries).getD .null).isTruthy then
        (Keyed.get? "params" entries).getD .null else .mapping []))
    refine ⟨halike, ?_⟩
    rintro reply h ⟨text, htext⟩
    obtain rfl := Option.some.inj h
    exact hidle text htext

/-- Answering a message leaves the documents of a read-only atlas as they are. -/
theorem alike_answerMessage (hr : d.atlas.ReadOnly) (server : Server) (text : String)
    (token : Option String) : d.Alike (answerMessage server text token d).2 ∧
      ∀ reply, (answerMessage server text token d).1 = .ok (some reply) → ¬ reply.Works := by
  have hrefused : ∀ {e : RpcError} {reply : Reply},
      (.ok (refusedReply e) : Outcome (Option Reply)) = .ok (some reply) → ¬ reply.Works := by
    rintro e reply h ⟨content, hcontent⟩
    obtain rfl := Option.some.inj (Except.ok.inj h)
    exact (nomatch hcontent)
  unfold answerMessage
  split
  · exact ⟨.refl d, fun _ => hrefused⟩
  · split
    · exact ⟨.refl d, fun _ => hrefused⟩
    · exact ⟨.refl d, fun _ h => (nomatch h)⟩
    · split
      · obtain ⟨halike, hidle⟩ := alike_answerRequest hr server _ _
        exact ⟨halike, fun reply h => hidle reply (Except.ok.inj h)⟩
      · exact ⟨.refl d, fun _ => hrefused⟩
    · exact ⟨.refl d, fun _ => hrefused⟩

/-- Every event leaves the documents of a read-only atlas as they are, and no response tells of a tool that
did its work. -/
theorem Event.alike_perform (hr : d.atlas.ReadOnly) (e : Event) :
    d.Alike (e.perform d).2 ∧ ¬ (e.perform d).1.Works := by
  cases e with
  | tool name arguments =>
    obtain ⟨halike, hidle⟩ := alike_act (d := d) (fun a => Tool.callNamed a name arguments)
      (Tool.idle_callNamed hr name arguments)
    exact ⟨halike, fun ⟨v, hv⟩ => hidle v hv⟩
  | read limits uri => exact ⟨alike_read limits uri d, id⟩
  | complete uri most => exact ⟨.refl d, id⟩
  | message server text token =>
    obtain ⟨halike, hidle⟩ := alike_answerMessage hr server text token
    exact ⟨halike, fun ⟨reply, hreply, hworks⟩ => hidle reply hreply hworks⟩

/-- A desk over the archive with one folder. -/
def archiveDesk : Desk where
  atlas := archive
  store := ⟨#[.mapping [("folders", .list [.mapping [("name", .text "A"), ("folders", .list [])]])]]⟩
  ledger := .empty 100

/-- Attempts to rename a folder and to remove it, with a read between them. -/
def archiveEvents : List Event := [
  .tool "set" (.mapping [("uri", .text "s://folders[0]/name"), ("value", .text "B")]),
  .read .usual "s://folders",
  .message ⟨.usual, .usual, true⟩
    ("\x7b\"id\":1,\"method\":\"tools/call\",\"params\":\x7b\"name\":\"delete\"," ++
      "\"arguments\":\x7b\"item\":\"s://folders[0]\"\x7d\x7d\x7d") none]

end Service

end ResourceAtlas
