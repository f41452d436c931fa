import ResourceAtlas.Value.Amount

/-!
# The ledger of reads, tool calls and requests

A ledger counts what is recorded in it and remembers the last failed reads. Times are integers or
floating-point numbers of seconds; means are kept up as floating-point numbers, and a summary
shows milliseconds to two places.
-/

namespace ResourceAtlas

open Number

/-- A time in seconds. -/
inductive Duration
  /-- A whole number. -/
  | whole (n : Int)
  /-- A floating-point number. -/
  | real (x : Binary64)
  deriving DecidableEq, Repr

namespace Duration

/-- The time that a value gives to be added up with a sign. -/
def ofValue (sign : String) (v : Value) : Outcome Duration :=
  match v.numeric? with
  | some (.whole n) => .ok (whole n)
  | some (.real x) => .ok (real x)
  | none => .error (.misuse
      ("unsupported operand type(s) for " ++ sign ++ ": 'float' and '" ++ v.fullKindName ++ "'"))

/-- A time as a floating-point number. -/
def toReal : Duration → Outcome Binary64
  | whole n => Value.realOf n
  | real x => .ok x

/-- The first time is below the second. -/
def lt : Duration → Duration → Bool
  | whole m, whole n => decide (m < n)
  | whole m, real y => y.intLt m
  | real x, whole n => x.ltInt n
  | real x, real y => x.lt y

/-- The greater of two times; the first one where neither is above the other. -/
def greater (a b : Duration) : Duration :=
  if a.lt b then b else a

/-- A floating-point number of seconds in milliseconds, to two places. -/
def realMilliseconds (x : Binary64) : Binary64 :=
  (x.mul (.ofInt 1000)).roundPlaces 2

/-- A time in milliseconds, to two places. -/
def milliseconds : Duration → Duration
  | whole n => whole (n * 1000)
  | real x => real (realMilliseconds x)

end Duration

/-- Counts of reads. -/
structure ReadCounts where
  /-- All reads. -/
  total : Nat
  /-- Reads that brought data. -/
  succeeded : Nat
  /-- Reads whose address led nowhere. -/
  uriFailures : Nat
  /-- Reads whose data broke off. -/
  resolutionErrors : Nat
  /-- Reads that brought a page. -/
  paginated : Nat
  /-- The mean time. -/
  meanTime : Binary64
  deriving DecidableEq, Repr

/-- Counts of the requests of a route. -/
structure RouteCounts where
  /-- All requests. -/
  requests : Nat
  /-- Requests that were answered with an error. -/
  errors : Nat
  /-- The time of all requests. -/
  elapsed : Binary64
  /-- The greatest time. -/
  slowest : Duration
  deriving DecidableEq, Repr

/-- Counts of the calls of a tool. -/
structure ToolCounts where
  /-- Calls that did their work. -/
  succeeded : Nat
  /-- Calls that answered a problem. -/
  failed : Nat
  deriving DecidableEq, Repr

/-- A failed read. -/
structure Failure where
  /-- The address. -/
  uri : String
  /-- The wording of what went wrong, if it was given. -/
  error : Option String
  deriving DecidableEq, Repr

/-- What has been recorded. -/
structure Ledger where
  /-- The reads. -/
  reads : ReadCounts
  /-- The requests by routes, in the order of first requests. -/
  routes : Keyed RouteCounts
  /-- The tool calls by tools, in the order of first calls. -/
  tools : Keyed ToolCounts
  /-- The last failed reads. -/
  failures : List Failure
  /-- How many failed reads are remembered. -/
  history : Nat
  deriving DecidableEq, Repr

/-- A read to record. -/
structure ReadEvent where
  /-- The address. -/
  uri : String
  /-- Whether it brought data. -/
  ok : Bool
  /-- The time that it took. -/
  time : Value
  /-- The wording of what went wrong, if it was given. -/
  error : Option String
  /-- Whether it brought a page. -/
  paginated : Bool
  deriving Repr

namespace Ledger

/-- Counts of no reads. -/
def noReads : ReadCounts := ⟨0, 0, 0, 0, 0, .zero⟩

/-- Counts of no requests. -/
def noRequests : RouteCounts := ⟨0, 0, .zero, .real .zero⟩

/-- A ledger in which nothing is recorded. -/
def empty (history : Nat) : Ledger := ⟨noReads, [], [], [], history⟩

/-- An empty ledger that remembers a number of failed reads. -/
def withHistory (history : Int) : Outcome Ledger :=
  if history < 0 then .error .negativeHistory else .ok (empty history.toNat)

instance : Inhabited Ledger := ⟨empty 100⟩

/-- The wording of data that broke off starts with these words. -/
def resolutionWords : String := "Resolution error"

/-- A failed read was one whose data broke off. -/
def isResolutionError (error : Option String) : Bool :=
  match error with
  | some text => resolutionWords.toList.isPrefixOf text.toList
  | none => false

/-- The last elements of a list. -/
def lastOf {α : Type} (count : Nat) (items : List α) : List α :=
  items.drop (items.length - count)

/-- The counts after a read. -/
def ReadCounts.add (c : ReadCounts) (e : ReadEvent) : Outcome ReadCounts := do
  let total := c.total + 1
  let broken := isResolutionError e.error
  let time ← (← Duration.ofValue "+" e.time).toReal
  .ok { total := total
        succeeded := c.succeeded + e.ok.toNat
        uriFailures := c.uriFailures + (!e.ok && !broken).toNat
        resolutionErrors := c.resolutionErrors + (!e.ok && broken).toNat
        paginated := c.paginated + (e.ok && e.paginated).toNat
        meanTime := ((c.meanTime.mul (.ofInt c.total)).add time).divNat total }

/-- Record a read. -/
def recordRead (l : Ledger) (e : ReadEvent) : Outcome Ledger := do
  let reads ← ReadCounts.add l.reads e
  let failures := if e.ok then l.failures
    else lastOf l.history (l.failures ++ [⟨e.uri, e.error⟩])
  .ok { l with reads := reads, failures := failures }

/-- Record a tool call. -/
def recordTool (l : Ledger) (name : String) (ok : Bool) : Ledger :=
  let c := (Keyed.get? name l.tools).getD ⟨0, 0⟩
  { l with tools := Keyed.put name ⟨c.succeeded + ok.toNat, c.failed + (!ok).toNat⟩ l.tools }

/-- The counts after a request. -/
def RouteCounts.add (c : RouteCounts) (time : Value) (status : Int) : Outcome RouteCounts := do
  let time ← Duration.ofValue "+=" time
  let x ← time.toReal
  .ok { requests := c.requests + 1
        errors := c.errors + (decide (400 ≤ status)).toNat
        elapsed := c.elapsed.add x
        slowest := c.slowest.greater time }

/-- Record a request of a route. -/
def recordRequest (l : Ledger) (route : String) (time : Value) (status : Int) :
    Outcome Ledger := do
  let c := (Keyed.get? route l.routes).getD noRequests
  let counts ← RouteCounts.add c time status
  .ok { l with routes := Keyed.put route counts l.routes }

/-- Forget everything that is recorded. -/
def reset (l : Ledger) : Ledger :=
  empty l.history

/-- What a summary tells of a route. -/
structure RouteSummary where
  /-- The route. -/
  route : String
  /-- All requests. -/
  requests : Nat
  /-- Requests that were answered with an error. -/
  errors : Nat
  /-- The mean time in milliseconds. -/
  mean : Binary64
  /-- The greatest time in milliseconds. -/
  slowest : Duration
  deriving DecidableEq, Repr

/-- What a summary tells. -/
structure Summary where
  /-- The counts of reads. -/
  reads : ReadCounts
  /-- The mean time of a read in milliseconds. -/
  meanRead : Binary64
  /-- The last failed reads. -/
  recentFailures : List Failure
  /-- The counts of tool calls. -/
  tools : Keyed ToolCounts
  /-- The number of requests. -/
  totalRequests : Nat
  /-- The busiest routes, the busiest first. -/
  routes : List RouteSummary
  deriving DecidableEq, Repr

/-- How many failed reads a summary tells of. -/
def shownFailures : Nat := 20

/-- How many routes a summary tells of. -/
def shownRoutes : Nat := 10

/-- The mean time of a request in milliseconds. -/
def RouteCounts.mean (c : RouteCounts) : Binary64 :=
  if c.requests = 0 then .zero else Duration.realMilliseconds (c.elapsed.divNat c.requests)

/-- What a summary tells of a route with its counts. -/
def routeSummary (entry : String × RouteCounts) : RouteSummary :=
  ⟨entry.1, entry.2.requests, entry.2.errors, RouteCounts.mean entry.2,
    entry.2.slowest.milliseconds⟩

/-- The routes with the most requests; of two with as many, the one that was asked first. -/
def busiest (l : Ledger) : List (String × RouteCounts) :=
  (l.routes.mergeSort fun a b => decide (b.2.requests ≤ a.2.requests)).take shownRoutes

/-- A summary of what is recorded. -/
def summary (l : Ledger) : Summary :=
  { reads := l.reads
    meanRead := Duration.realMilliseconds l.reads.meanTime
    recentFailures := lastOf shownFailures l.failures
    tools := l.tools
    totalRequests := l.routes.foldr (fun e total => e.2.requests + total) 0
    routes := l.busiest.map routeSummary }

end Ledger

end ResourceAtlas
