import ResourceAtlas.Link.Host
import ResourceAtlas.Link.Path

/-!
# The normal form of a link

A link has a scheme, perhaps a host with a user before and a port behind it, a path, a query and a
fragment. Its normal form has a lower-case scheme, no dots among the segments of its path, and every
character that a part cannot hold as percent-encoded octets. The schemes that everyone knows have
rules of their own: they want a host, take a backslash for a slash, and leave out their usual port.
-/

namespace ResourceAtlas.Link

open Text

/-- What the rules for a link depend on. -/
inductive Family
  /-- Links to a host, with the number of the usual port. -/
  | hosted (usualPort : Nat)
  /-- Links to files. -/
  | file
  /-- All other links. -/
  | general
  deriving DecidableEq, Repr

/-- The families of the schemes that everyone knows. -/
def wellKnown : List (List Char × Family) :=
  [("http".toList, .hosted 80), ("https".toList, .hosted 443), ("ws".toList, .hosted 80),
    ("wss".toList, .hosted 443), ("ftp".toList, .hosted 21), ("file".toList, .file)]

/-- The family of a scheme. -/
def Family.ofScheme (scheme : List Char) : Family :=
  (wellKnown.lookup scheme).getD .general

/-- A letter of the basic alphabet. -/
def isLetter (c : Char) : Bool := c.isAlpha

/-- A character that a scheme holds. -/
def isOfScheme (c : Char) : Bool :=
  c.isAlphanum || c == '+' || c == '-' || c == '.'

/-- A text without blanks and controls at both ends, and without line breaks and tabs. -/
def stripped (text : List Char) : List Char :=
  let isBlank (c : Char) : Bool := c.toNat ≤ 0x20
  let body := ((text.dropWhile isBlank).reverse.dropWhile isBlank).reverse
  body.filter fun c => c != '\t' && c != '\n' && c != '\r'

/-- The scheme before a colon, in lower case, and what follows. -/
def scheme? (text : List Char) : Option (List Char × List Char) :=
  match Split.atFirst ':' text with
  | some (c :: cs, rest) =>
    if isLetter c && cs.all isOfScheme then some ((c :: cs).map Char.toLower, rest) else none
  | _ => none

/-- A character that starts a query or a fragment. -/
def startsTail (c : Char) : Bool := c == '?' || c == '#'

/-- The normal form of a query and a fragment with their marks. -/
def tailText (f : Family) (tail : List Char) : String :=
  let apart (c : Char) : Bool := Coding.outsideQuery c || (f != .general && c == '\'')
  let query := tail.takeWhile (· != '#')
  let fragment := tail.dropWhile (· != '#')
  let mark (text : List Char) := String.ofList (text.take 1)
  mark query ++ String.ofList (Coding.encode apart (query.drop 1)) ++
    mark fragment ++ String.ofList (Coding.encode Coding.outsideFragment (fragment.drop 1))

/-- The normal form of a user with a password. -/
def userText (user : List Char) : String :=
  let coded (text : List Char) := String.ofList (Coding.encode Coding.outsideUser text)
  let written := match Split.atFirst ':' user with
    | some (name, password) =>
      coded name ++ (if password.isEmpty then "" else ":" ++ coded password)
    | none => coded user
  if written.isEmpty then "" else written ++ "@"

/-- The user before the last sign of an authority, and what follows it. -/
def cutUser (authority : List Char) : Option (List Char) × List Char :=
  match Split.atLast '@' authority with
  | some (user, rest) => (some user, rest)
  | none => (none, authority)

/-- The host before the first colon outside brackets, and what follows. -/
def cutHost (inside : Bool) : List Char → List Char × List Char
  | [] => ([], [])
  | c :: rest =>
    if c = ':' && !inside then ([], c :: rest)
    else
      let (host, port) := cutHost (if c = '[' then true else if c = ']' then false else inside) rest
      (c :: host, port)

/-- The greatest number of a port. -/
def greatestPort : Nat := 65535

/-- The normal form of a port with its colon, and what follows it. -/
def portText (f : Family) : List Char → Except Refusal (String × List Char)
  | ':' :: text =>
    let digits := text.takeWhile Char.isDigit
    let rest := text.dropWhile Char.isDigit
    let n := (Numeric.digitsIn 10 digits).getD 0
    if greatestPort < n || !(rest.isEmpty || rest.head? = some '\\') then .error .badPort
    else .ok (if digits.isEmpty || f = .hosted n then "" else ":" ++ toString n, rest)
  | rest => .ok ("", rest)

/-- The normal form of a host; only links of the general family may have none. -/
def hostText (f : Family) (bare : Bool) (host : List Char) : Except Refusal String :=
  if f != .general then if host.isEmpty then .error .noHost else Host.domain host
  else if host.isEmpty then if bare then .ok "" else .error .noHost
  else Host.name host

/-- The normal form of a path that follows a host. -/
def pathText (f : Family) (path : List Char) : String :=
  if path.isEmpty then if f = .general then "" else "/"
  else Path.normal (if path.head? = some '/' then path.drop 1 else path)

/-- The normal form of a host with a user, a port and a path. -/
def authorityText (f : Family) (text : List Char) (tailed : Bool) : Except Refusal String := do
  let authority := text.takeWhile (· != '/')
  let path := text.dropWhile (· != '/')
  let (user, place) := cutUser authority
  if user == some [] && place.isEmpty && (!path.isEmpty || tailed) then throw .noHost
  let who := userText (user.getD [])
  let (host, rest) := cutHost false place
  let name ← hostText f (who.isEmpty && rest.isEmpty) host
  let (port, rest) ← portText f rest
  .ok ("//" ++ who ++ name ++ port ++ pathText f (rest ++ path))

/-- The normal form of the host and the path of a link to a file. -/
def fileText (text : List Char) : Except Refusal String := do
  let lead := text.takeWhile (· == '/')
  let (host, path) := if lead.length < 2 then ([], text)
    else ((text.drop 2).takeWhile (· != '/'), (text.drop 2).dropWhile (· != '/'))
  let name ← if host.isEmpty then .ok "" else Host.domain host
  let kept := Path.normal (if path.head? = some '/' then path.drop 1 else path)
  .ok ("//" ++ (if name = "localhost" then "" else name) ++ "/" ++
    String.ofList (kept.toList.dropWhile (· == '/')))

/-- The normal form of a path without a host: it does not start like one. -/
def bareText (path : List Char) : String :=
  let kept := Path.normal path
  if "//".toList.isPrefixOf kept.toList then "/." ++ kept else kept

/-- The normal form of what follows the scheme, up to the query. -/
def bodyText (f : Family) (text : List Char) (tailed : Bool) : Except Refusal String :=
  let straight := text.map fun c => if c = '\\' then '/' else c
  match f, text with
  | .hosted _, _ => authorityText f (straight.dropWhile (· == '/')) tailed
  | .file, _ => fileText straight
  | .general, '/' :: '/' :: rest => authorityText f rest tailed
  | .general, '/' :: rest => .ok (bareText rest)
  | .general, _ => .ok (String.ofList (Coding.encode Coding.isForeign text))

/-- The normal form of a link. -/
def normal (given : String) : Except Refusal String :=
  if given.isEmpty then .error .empty
  else
    match scheme? (stripped given.toList) with
    | none => .error .relative
    | some (scheme, rest) => do
      let f := Family.ofScheme scheme
      let tail := rest.dropWhile fun c => !startsTail c
      let body ← bodyText f (rest.takeWhile fun c => !startsTail c) !tail.isEmpty
      .ok (String.ofList scheme ++ ":" ++ body ++ tailText f tail)

end ResourceAtlas.Link
