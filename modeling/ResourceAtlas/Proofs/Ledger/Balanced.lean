import Mathlib.Data.Bool.Count
import Mathlib.Data.List.DropRight
import ResourceAtlas.Ledger
import ResourceAtlas.Proofs.Ledger.Tallied
import ResourceAtlas.Proofs.Outcome
import ResourceAtlas.Proofs.Query.Tested

/-!
# The ledger balances

Reads, tool calls and requests are recorded in any order, with resets in between. The summary tells of what
was recorded since the last reset and of nothing else: every count is the number of the events that it
counts, the last failed reads stand in their order, and the busiest routes are the first ones of a ranking
of all routes. What a ledger tells after one more event follows from what it told before it.
-/

namespace ResourceAtlas

/-- A number that a floating-point number can stand for. -/
def Value.IsTime (v : Value) : Prop :=
  match v.numeric? with
  | some (.whole n) => ¬ Query.Immense (.int n)
  | some (.real _) => True
  | none => False

/-- A failed read whose data broke off: the wording of what went wrong starts with the words for that. -/
def ReadEvent.BrokeOff (e : ReadEvent) : Prop :=
  e.ok = false ∧ ∃ text ∈ e.error, "Resolution error".toList <+: text.toList

instance (e : ReadEvent) : Decidable e.BrokeOff :=
  inferInstanceAs (Decidable (_ ∧ _))

/-- What is remembered of reads that failed. -/
def failuresOf (reads : List ReadEvent) : List Failure :=
  (reads.filter fun e => !e.ok).map fun e => ⟨e.uri, e.error⟩

/-- The counts of reads are those of a list of them. -/
structure ReadCounts.Counts (c : ReadCounts) (reads : List ReadEvent) : Prop where
  /-- All reads are counted. -/
  total : c.total = reads.length
  /-- A read brought data, led nowhere or broke off. -/
  sum : c.total = c.succeeded + c.uriFailures + c.resolutionErrors
  /-- The reads that brought data. -/
  succeeded : c.succeeded = reads.countP fun e => e.ok
  /-- The failed reads whose data broke off. -/
  resolutionErrors : c.resolutionErrors = reads.countP fun e => decide e.BrokeOff
  /-- The reads that brought a page. -/
  paginated : c.paginated = reads.countP fun e => e.ok && e.paginated

/-- The counts of a tool's calls are those of a list of them, each with whether it did its work. -/
def ToolCounts.Counts (calls : List Bool) (c : ToolCounts) : Prop :=
  c.succeeded = calls.count true ∧ c.failed = calls.count false

/-- The counts of a route's requests are those of a list of them, each with the status of its answer. -/
def RouteCounts.Counts (statuses : List Int) (c : RouteCounts) : Prop :=
  c.requests = statuses.length ∧ c.errors = statuses.countP fun status => decide (400 ≤ status)

namespace Ledger

/-- What happens to a ledger. -/
inductive Event
  /-- A read is recorded. -/
  | read (e : ReadEvent)
  /-- A call of a tool is recorded, with whether it did its work. -/
  | tool (name : String) (ok : Bool)
  /-- A request of a route is recorded, with its time and the status of its answer. -/
  | request (route : String) (time : Value) (status : Int)
  /-- Everything is forgotten. -/
  | reset

namespace Event

/-- The read that is recorded. -/
@[simp]
def read? : Event → Option ReadEvent
  | read e => some e
  | _ => none

/-- The call that is recorded, under its tool. -/
@[simp]
def call? : Event → Option (String × Bool)
  | tool name ok => some (name, ok)
  | _ => none

/-- The request that is recorded, under its route. -/
@[simp]
def request? : Event → Option (String × Int)
  | request route _ status => some (route, status)
  | _ => none

/-- Everything is forgotten. -/
@[simp]
def isReset : Event → Bool
  | reset => true
  | _ => false

/-- The time of an event is a number, if the event has one. -/
def Timed : Event → Prop
  | read e => e.time.IsTime
  | request _ time _ => time.IsTime
  | _ => True

end Event

/-- Let an event happen to a ledger. -/
def record (l : Ledger) : Event → Outcome Ledger
  | .read e => l.recordRead e
  | .tool name ok => .ok (l.recordTool name ok)
  | .request route time status => l.recordRequest route time status
  | .reset => .ok l.reset

/-- Let events happen to a ledger in turn. -/
def recordAll (l : Ledger) (events : List Event) : Outcome Ledger :=
  events.foldlM record l

/-- The events behind the last reset. -/
def sinceReset (events : List Event) : List Event :=
  events.rtakeWhile fun e => !e.isReset

/-- The reads among events. -/
def readsOf (events : List Event) : List ReadEvent :=
  events.filterMap Event.read?

/-- The calls among events, under their tools. -/
def callsOf (events : List Event) : Keyed Bool :=
  events.filterMap Event.call?

/-- The requests among events, under their routes. -/
def requestsOf (events : List Event) : Keyed Int :=
  events.filterMap Event.request?

/-- A route comes ahead of another one: it has more requests, or as many and its first one came before the
other's first one. -/
def Ahead (requests : Keyed Int) (a b : String) : Prop :=
  (requests.under b).length < (requests.under a).length ∨
    (requests.under a).length = (requests.under b).length ∧
      requests.keys.idxOf a < requests.keys.idxOf b

/-- A summary tells of events and of nothing else. -/
structure Summary.Balances (s : Summary) (history : Nat) (events : List Event) : Prop where
  /-- The reads are counted. -/
  reads : s.reads.Counts (readsOf events)
  /-- The last failed reads stand in their order, as many as are shown and remembered. -/
  recentFailures : s.recentFailures = (failuresOf (readsOf events)).rtake (min 20 history)
  /-- The tools are those that were called, each of them once. -/
  keys_tools : s.tools.keys.Nodup ∧ ∀ name, name ∈ s.tools.keys ↔ name ∈ (callsOf events).keys
  /-- The calls of a tool did their work or failed. -/
  tools : ∀ e ∈ s.tools, e.2.succeeded + e.2.failed = ((callsOf events).under e.1).length ∧
    e.2.succeeded = ((callsOf events).under e.1).count true
  /-- All requests are counted. -/
  totalRequests : s.totalRequests = (requestsOf events).length
  /-- The routes are the first ten of all that were asked, ranked. -/
  ranking : ∃ ranking : List String,
    (∀ route, route ∈ ranking ↔ route ∈ (requestsOf events).keys) ∧
      ranking.Pairwise (Ahead (requestsOf events)) ∧ s.routes.map (·.route) = ranking.take 10
  /-- The requests of a route and those that were answered with an error are counted. -/
  routes : ∀ r ∈ s.routes, r.requests = ((requestsOf events).under r.route).length ∧
    r.errors = ((requestsOf events).under r.route).countP fun status => decide (400 ≤ status)

/-- A ledger tells of reads, calls and requests. -/
structure Tells (history : Nat) (reads : List ReadEvent) (calls : Keyed Bool) (requests : Keyed Int)
    (l : Ledger) : Prop where
  /-- As many failed reads are remembered as at first. -/
  history_eq : l.history = history
  /-- The reads are counted. -/
  counts : l.reads.Counts reads
  /-- The last failed reads are remembered. -/
  failures : l.failures = (failuresOf reads).rtake history
  /-- The calls are counted by tools. -/
  tools : Keyed.Tallies ToolCounts.Counts calls l.tools
  /-- The requests are counted by routes. -/
  routes : Keyed.Tallies RouteCounts.Counts requests l.routes
  /-- The routes have all requests between them. -/
  total : l.routes.foldr (fun e total => e.2.requests + total) 0 = requests.length

section Recording

variable {l l' : Ledger} {e : Event} {events : List Event} {history : Nat}

/-- What is reckoned with a time is reckoned exactly if the time is a number that a floating-point number
can stand for. -/
theorem exists_reckoned_iff {α : Type} (sign : String) (v : Value)
    (reckoned : Duration → Number.Binary64 → α) :
    (∃ a, (do
        let d ← Duration.ofValue sign v
        let x ← d.toReal
        .ok (reckoned d x) : Outcome α) = .ok a) ↔ v.IsTime := by
  unfold Duration.ofValue Value.IsTime
  cases v.numeric? with
  | none => exact ⟨fun ⟨_, h⟩ => (nomatch h), False.elim⟩
  | some number =>
    cases number with
    | real x => exact iff_of_true ⟨_, rfl⟩ trivial
    | whole n =>
      rcases Query.realOf_cases n with ⟨himmense, hreal⟩ | ⟨himmense, x, hreal⟩
      · refine iff_of_false (fun ⟨a, h⟩ => ?_) (not_not_intro himmense)
        obtain ⟨d, hd, h⟩ := bind_eq_ok.mp h
        obtain ⟨x, hx, -⟩ := bind_eq_ok.mp h
        rw [← Except.ok.inj hd, Duration.toReal, hreal] at hx
        exact nomatch hx
      · exact iff_of_true ⟨_, bind_eq_ok.mpr ⟨_, rfl, bind_eq_ok.mpr ⟨x, hreal, rfl⟩⟩⟩ himmense

/-- An event is recorded exactly if its time is a number. -/
theorem exists_record_iff : (∃ l', l.record e = .ok l') ↔ e.Timed := by
  cases e with
  | read e => exact exists_bind_ok_iff.trans (exists_reckoned_iff "+" e.time _)
  | tool name ok => exact iff_of_true ⟨_, rfl⟩ trivial
  | request route time status => exact exists_bind_ok_iff.trans (exists_reckoned_iff "+=" time _)
  | reset => exact iff_of_true ⟨_, rfl⟩ trivial

/-- Events are recorded exactly if the times of all are numbers. -/
theorem exists_recordAll_iff : (∃ l', l.recordAll events = .ok l') ↔ ∀ e ∈ events, e.Timed := by
  constructor
  · induction events generalizing l with
    | nil => exact fun _ e he => absurd he List.not_mem_nil
    | cons e events ih =>
      rintro ⟨l', h⟩
      rw [recordAll, List.foldlM_cons] at h
      obtain ⟨mid, hmid, hrest⟩ := bind_eq_ok.mp h
      exact List.forall_mem_cons.mpr ⟨exists_record_iff.mp ⟨mid, hmid⟩, ih ⟨l', hrest⟩⟩
  · exact fun h => foldlM_ok (fun e he _ => exists_record_iff.mpr (h e he)) l

end Recording

/-- One more member is counted if it is to be. -/
theorem countP_concat {α : Type} (p : α → Bool) (items : List α) (x : α) :
    (items ++ [x]).countP p = items.countP p + (p x).toNat := by
  rw [List.countP_append, List.countP_singleton]
  cases p x <;> rfl

/-- The last members of the last members and one more are the last ones of all. -/
theorem rtake_concat {α : Type} (items : List α) (count : Nat) (x : α) :
    (items.rtake count ++ [x]).rtake count = (items ++ [x]).rtake count := by
  cases count with
  | zero => rw [List.rtake_zero, List.rtake_zero]
  | succ count =>
    rw [List.rtake_concat_succ, List.rtake_concat_succ, List.rtake_eq_reverse_take_reverse,
      List.rtake_eq_reverse_take_reverse, List.rtake_eq_reverse_take_reverse, List.reverse_reverse,
      List.take_take, Nat.min_eq_left (Nat.le_succ count)]

/-- The last ones of the last members of a list. -/
theorem rtake_rtake {α : Type} (items : List α) (m n : Nat) :
    (items.rtake m).rtake n = items.rtake (min n m) := by
  rw [List.rtake_eq_reverse_take_reverse, List.rtake_eq_reverse_take_reverse,
    List.rtake_eq_reverse_take_reverse, List.reverse_reverse, List.take_take]

/-- The failed reads, with one more read. -/
theorem failuresOf_concat (reads : List ReadEvent) (e : ReadEvent) :
    failuresOf (reads ++ [e]) = failuresOf reads ++ if e.ok then [] else [⟨e.uri, e.error⟩] := by
  rw [failuresOf, List.filter_append, List.map_append]
  cases hok : e.ok <;> simp [failuresOf, hok]

/-- The last elements of a list as the library has them. -/
theorem lastOf_eq_rtake {α : Type} (count : Nat) (items : List α) :
    lastOf count items = items.rtake count :=
  rfl

/-- A failed read broke off as its wording says. -/
theorem decide_brokeOff (e : ReadEvent) :
    decide e.BrokeOff = (!e.ok && isResolutionError e.error) := by
  have hwords : isResolutionError e.error = true ↔
      ∃ text ∈ e.error, "Resolution error".toList <+: text.toList := by
    unfold isResolutionError
    cases e.error with
    | none => exact iff_of_false nofun fun ⟨_, h, _⟩ => (nomatch h)
    | some text =>
      rw [List.isPrefixOf_iff_prefix]
      exact ⟨fun h => ⟨text, rfl, h⟩, fun ⟨_, hmem, h⟩ => Option.some.inj hmem ▸ h⟩
  rw [Bool.eq_iff_iff, decide_eq_true_eq, ReadEvent.BrokeOff, Bool.and_eq_true, Bool.not_eq_true', hwords]

/-- One more read is counted. -/
theorem counts_add {c c' : ReadCounts} {reads : List ReadEvent} {e : ReadEvent} (h : c.Counts reads)
    (hadd : ReadCounts.add c e = .ok c') : c'.Counts (reads ++ [e]) := by
  obtain ⟨d, -, hadd⟩ := bind_eq_ok.mp hadd
  obtain ⟨x, -, hadd⟩ := bind_eq_ok.mp hadd
  obtain rfl := Except.ok.inj hadd
  constructor
  · rw [List.length_append, ← h.total]
    rfl
  · -- Whether the read brought data and how its wording starts say which one of the three counts grows.
    have hsum := h.sum
    dsimp only
    cases e.ok <;> cases isResolutionError e.error <;> simp only [Bool.toNat, Bool.not_false,
      Bool.not_true, Bool.and_true, Bool.and_false, cond_true, cond_false] <;> omega
  · rw [countP_concat, ← h.succeeded]
  · rw [countP_concat, ← h.resolutionErrors, decide_brokeOff]
  · rw [countP_concat, ← h.paginated]

/-- One more request is counted. -/
theorem counts_addRequest {c c' : RouteCounts} {statuses : List Int} {time : Value} {status : Int}
    (h : c.Counts statuses) (hadd : RouteCounts.add c time status = .ok c') :
    c'.Counts (statuses ++ [status]) ∧ c'.requests = c.requests + 1 := by
  obtain ⟨d, -, hadd⟩ := bind_eq_ok.mp hadd
  obtain ⟨x, -, hadd⟩ := bind_eq_ok.mp hadd
  obtain rfl := Except.ok.inj hadd
  refine ⟨⟨?_, ?_⟩, rfl⟩
  · rw [List.length_append, ← h.1]
    rfl
  · rw [countP_concat, ← h.2]

/-- A route has no fewer requests than another one. -/
def noFewer (a b : String × RouteCounts) : Bool :=
  decide (b.2.requests ≤ a.2.requests)

/-- Having no fewer requests is transitive. -/
theorem noFewer_trans (a b c : String × RouteCounts) (hab : noFewer a b = true)
    (hbc : noFewer b c = true) : noFewer a c = true := by
  rw [noFewer, decide_eq_true_eq] at hab hbc ⊢
  exact Nat.le_trans hbc hab

/-- Of two routes one has no fewer requests. -/
theorem noFewer_total (a b : String × RouteCounts) : (noFewer a b || noFewer b a) = true := by
  rw [Bool.or_eq_true, noFewer, noFewer, decide_eq_true_eq, decide_eq_true_eq]
  exact Nat.le_total _ _

namespace Tells

variable {history : Nat} {reads : List ReadEvent} {calls : Keyed Bool} {requests : Keyed Int}
  {l l' : Ledger}

/-- An empty ledger tells of nothing. -/
theorem empty (history : Nat) : Tells history [] [] [] (Ledger.empty history) where
  history_eq := rfl
  counts := ⟨rfl, rfl, rfl, rfl, rfl⟩
  failures := (List.rtake_nil _).symm
  tools := .nil
  routes := .nil
  total := rfl

/-- A ledger in which a read is recorded tells of it. -/
theorem recordRead (h : Tells history reads calls requests l) {e : ReadEvent}
    (hrecord : l.recordRead e = .ok l') : Tells history (reads ++ [e]) calls requests l' := by
  obtain ⟨c, hc, hl⟩ := bind_eq_ok.mp hrecord
  obtain rfl := Except.ok.inj hl
  refine { h with counts := counts_add h.counts hc, failures := ?_ }
  dsimp only
  rw [failuresOf_concat, h.failures, h.history_eq]
  split
  · rw [List.append_nil]
  · exact rtake_concat _ _ _

/-- A ledger in which a call is recorded tells of it. -/
theorem recordTool (h : Tells history reads calls requests l) (name : String) (ok : Bool) :
    Tells history reads (calls ++ [(name, ok)]) requests (l.recordTool name ok) := by
  obtain ⟨hsucceeded, hfailed⟩ := h.tools.getD ⟨0, 0⟩ ⟨rfl, rfl⟩ name
  refine { h with tools := h.tools.put name ⟨?_, ?_⟩ }
  · rw [List.count_append, ← hsucceeded]
    cases ok <;> rfl
  · rw [List.count_append, ← hfailed]
    cases ok <;> rfl

/-- A ledger in which a request is recorded tells of it. -/
theorem recordRequest (h : Tells history reads calls requests l) {route : String} {time : Value}
    {status : Int} (hrecord : l.recordRequest route time status = .ok l') :
    Tells history reads calls (requests ++ [(route, status)]) l' := by
  obtain ⟨c, hc, hl⟩ := bind_eq_ok.mp hrecord
  obtain rfl := Except.ok.inj hl
  have hadd := counts_addRequest (h.routes.getD noRequests ⟨rfl, rfl⟩ route) hc
  refine { h with routes := h.routes.put route hadd.1, total := ?_ }
  have hsum := Keyed.sum_put RouteCounts.requests noRequests rfl route c l.routes
  rw [h.total, hadd.2, ← Nat.add_assoc, Nat.add_right_comm] at hsum
  rw [List.length_append, List.length_singleton]
  exact Nat.add_right_cancel hsum

/-- The routes of a ledger, busiest first, are ranked. -/
theorem ranked (h : Tells history reads calls requests l) :
    ((l.routes.mergeSort noFewer).map (·.1)).Pairwise (Ahead requests) := by
  -- The entries stand in the order of first requests, and the sort keeps it between as many requests.
  have hsorted := pairwise_mergeSort_alike noFewer_trans noFewer_total
    (List.pairwise_map.mp h.routes.ordered)
  rw [List.pairwise_map]
  refine hsorted.imp_of_mem fun {a b} ha hb ⟨hle, hfirst⟩ => ?_
  rw [List.mem_mergeSort] at ha hb
  rw [noFewer, decide_eq_true_eq] at hle hfirst
  rw [Ahead, ← (h.routes.each_mem ha).1, ← (h.routes.each_mem hb).1]
  rcases Nat.lt_or_eq_of_le hle with hlt | heq
  · exact .inl hlt
  · exact .inr ⟨heq.symm, hfirst heq.ge⟩

/-- The summary of a ledger that tells of events balances. -/
theorem balances {events : List Event}
    (h : Tells history (readsOf events) (callsOf events) (requestsOf events) l) :
    l.summary.Balances history events where
  reads := h.counts
  recentFailures := by
    show lastOf shownFailures l.failures = _
    rw [lastOf_eq_rtake, h.failures, rtake_rtake]
    rfl
  keys_tools := ⟨h.tools.nodup, h.tools.mem_keys⟩
  tools e he := by
    obtain ⟨hsucceeded, hfailed⟩ := h.tools.each_mem he
    refine ⟨?_, hsucceeded⟩
    rw [hsucceeded, hfailed]
    exact List.count_true_add_count_false _
  totalRequests := h.total
  ranking := by
    refine ⟨(l.routes.mergeSort noFewer).map (·.1), fun route => ?_, h.ranked, ?_⟩
    · rw [← h.routes.mem_keys]
      exact ((List.mergeSort_perm _ _).map _).mem_iff
    · show (l.busiest.map routeSummary).map _ = _
      rw [List.map_map, ← List.map_take]
      rfl
  routes r hr := by
    obtain ⟨entry, hentry, rfl⟩ := List.mem_map.mp hr
    exact h.routes.each_mem (List.mem_mergeSort.mp (List.mem_of_mem_take hentry))

end Tells

/-- What one more event is, it is behind what the others are. -/
theorem filterMap_concat {α β : Type} (f : α → Option β) (items : List α) (x : α) :
    (items ++ [x]).filterMap f = items.filterMap f ++ (f x).toList := by
  rw [List.filterMap_append]
  cases hx : f x <;> simp [hx]

section Onward

variable (events : List Event) (e : Event)

/-- The events behind the last reset, with one more event. -/
@[simp]
theorem sinceReset_concat :
    sinceReset (events ++ [e]) = if e.isReset then [] else sinceReset events ++ [e] := by
  unfold sinceReset
  rw [List.rtakeWhile_concat]
  cases e.isReset <;> rfl

/-- The reads, with one more event. -/
@[simp]
theorem readsOf_concat : readsOf (events ++ [e]) = readsOf events ++ e.read?.toList :=
  filterMap_concat Event.read? events e

/-- The calls, with one more event. -/
@[simp]
theorem callsOf_concat : callsOf (events ++ [e]) = callsOf events ++ e.call?.toList :=
  filterMap_concat Event.call? events e

/-- The requests, with one more event. -/
@[simp]
theorem requestsOf_concat : requestsOf (events ++ [e]) = requestsOf events ++ e.request?.toList :=
  filterMap_concat Event.request? events e

end Onward

/-- A ledger in which one more event is recorded tells of the events behind the last reset. -/
theorem tells_record {history : Nat} {events : List Event} {e : Event} {l l' : Ledger}
    (h : Tells history (readsOf (sinceReset events)) (callsOf (sinceReset events))
      (requestsOf (sinceReset events)) l) (hrecord : l.record e = .ok l') :
    Tells history (readsOf (sinceReset (events ++ [e]))) (callsOf (sinceReset (events ++ [e])))
      (requestsOf (sinceReset (events ++ [e]))) l' := by
  cases e with
  | read e => simpa using h.recordRead hrecord
  | tool name ok =>
    obtain rfl := Except.ok.inj hrecord
    simpa using h.recordTool name ok
  | request route time status => simpa using h.recordRequest hrecord
  | reset =>
    obtain rfl := Except.ok.inj hrecord
    rw [sinceReset_concat]
    exact h.history_eq ▸ Tells.empty l.history

/-- A ledger in which events were recorded tells of those behind the last reset. -/
theorem tells_recordAll {history : Nat} {events : List Event} {l : Ledger}
    (h : (empty history).recordAll events = .ok l) :
    Tells history (readsOf (sinceReset events)) (callsOf (sinceReset events))
      (requestsOf (sinceReset events)) l := by
  -- The last event is split off, because a reset makes the events before it not count.
  induction events using List.reverseRecOn generalizing l with
  | nil => exact Except.ok.inj h ▸ Tells.empty history
  | append_singleton events e ih =>
    rw [recordAll, List.foldlM_append] at h
    obtain ⟨before, hbefore, h⟩ := bind_eq_ok.mp h
    obtain ⟨last, hlast, h⟩ := bind_eq_ok.mp (List.foldlM_cons.symm.trans h)
    obtain rfl := Except.ok.inj h
    exact tells_record (ih hbefore) hlast

/-- A ledger balances: whatever is recorded in one that was empty at first, its summary tells of the events
behind the last reset, with as many failed reads as it remembers and a summary shows. -/
theorem summary_balances (history : Nat) {events : List Event} (h : ∀ e ∈ events, e.Timed) :
    ∃ start l, withHistory history = .ok start ∧ start.recordAll events = .ok l ∧
      l.summary.Balances history (sinceReset events) := by
  obtain ⟨l, hl⟩ := exists_recordAll_iff.mpr h
  exact ⟨empty history, l, if_neg (Int.natCast_nonneg history).not_gt, hl, (tells_recordAll hl).balances⟩

/-- Three reads fail in a ledger that remembers two of them, a tool is called twice, and of three routes two
are asked as often. -/
theorem summary_balances_session :
    ∃ start l, withHistory (2 : Nat) = .ok start ∧
      start.recordAll [.read ⟨"/users[1]", true, .float .zero, none, false⟩, .reset,
        .read ⟨"/users[", false, .float .zero, some "Unclosed bracket", false⟩,
        .request "/schema" (.float .zero) 200, .tool "read" true, .tool "read" false,
        .read ⟨"/notes", false, .float .zero, some "Resolution error: no such store", true⟩,
        .request "/resource" (.float .zero) 404, .request "/health" (.float .zero) 200,
        .request "/resource" (.float .zero) 500,
        .read ⟨"/tags", false, .float .zero, none, false⟩] = .ok l ∧
      l.summary.Balances 2 [
        .read ⟨"/users[", false, .float .zero, some "Unclosed bracket", false⟩,
        .request "/schema" (.float .zero) 200, .tool "read" true, .tool "read" false,
        .read ⟨"/notes", false, .float .zero, some "Resolution error: no such store", true⟩,
        .request "/resource" (.float .zero) 404, .request "/health" (.float .zero) 200,
        .request "/resource" (.float .zero) 500,
        .read ⟨"/tags", false, .float .zero, none, false⟩] :=
  summary_balances 2 (by simp [Event.Timed, Value.IsTime, Value.numeric?])

end Ledger

end ResourceAtlas
