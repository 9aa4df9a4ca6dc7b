import TaintScan.Uri.Basic
import TaintScan.Uri.Drive

namespace TaintScan.Uri

def isSchemeChar (c : Char) : Bool := c.isAlphanum || c == '+' || c == '-' || c == '.'

def splitScheme (cs : List Char) : Option (String × List Char) :=
  match cs.span fun c => isSchemeChar c || isBreak c with
  | (scheme, ':' :: rest) =>
    let scheme := unbroken scheme
    if scheme.head?.any Char.isAlpha then some (String.ofList (Text.lowerCase scheme), rest)
    else none
  | _ => none

def isSlash (kind : SchemeKind) (c : Char) : Bool := c == '/' || (kind.isSpecial && c == '\\')

def endsPath (c : Char) : Bool := c == '?' || c == '#'

def endsAuthority (kind : SchemeKind) (c : Char) : Bool := isSlash kind c || endsPath c

def readParts (kind : SchemeKind) (cs : List Char) : Option (List Char) × Option (List Char) :=
  let reserved := if kind.isSpecial then reservedInSpecialQuery else reservedInQuery
  match cs with
  | '?' :: rest =>
    let (query, behind) := rest.span (· != '#')
    (some (Percent.encode reserved query), match behind with
      | _ :: fragment => some (Percent.encode reservedInFragment fragment)
      | [] => none)
  | '#' :: rest => (none, some (Percent.encode reservedInFragment rest))
  | _ => (none, none)

def readSegments (kind : SchemeKind) (cs : List Char) : List Segment :=
  (Text.pieces (isSlash kind) cs).map (Percent.encode reservedInPath)

def dropSlash (kind : SchemeKind) (cs : List Char) : List Char :=
  match cs with
  | c :: rest => if isSlash kind c then rest else c :: rest
  | [] => []

/-- The URI of a scheme and authority with the path, query and fragment of a text. The path is
followed from a place. -/
def withPath (scheme : String) (authority : Option Authority) (place : List Segment)
    (cs : List Char) : Uri :=
  let kind := SchemeKind.ofScheme scheme
  let (path, rest) := cs.span fun c => !endsPath c
  let segments := Segment.follow place (readSegments kind path)
  let (query, fragment) := readParts kind rest
  ⟨scheme, authority, .rooted segments, query, fragment⟩

/-- The URI of a scheme and authority with a path from the top. Only the path of a web URI is never
empty. -/
def fromTop (scheme : String) (authority : Authority) (cs : List Char) : Uri :=
  let kind := SchemeKind.ofScheme scheme
  if kind.isSpecial || cs.head?.any (fun c => !endsPath c) then
    withPath scheme authority [] (dropSlash kind cs)
  else
    let (query, fragment) := readParts kind cs
    ⟨scheme, authority, .rooted [], query, fragment⟩

variable [Idna]

def splitUser (kind : SchemeKind) (cs : List Char) : Option (List Char × List Char) :=
  let (text, rest) := cs.span fun c => !endsAuthority kind c
  match text.reverse.span (· != '@') with
  | (behind, _ :: before) => some (before.reverse, behind.reverse ++ rest)
  | (_, []) => none

def readUser (cs : List Char) : User :=
  let (name, password) := cs.span (· != ':')
  ⟨Percent.encode reservedInUser name, Percent.encode reservedInUser (password.drop 1)⟩

def takeUser (kind : SchemeKind) (cs : List Char) : Except Fault (User × List Char) :=
  match splitUser kind cs with
  | none => .ok (.nobody, cs)
  | some ([], rest) =>
    if rest.head?.any (endsAuthority kind) then .error .emptyHost else .ok (.nobody, rest)
  | some (user, rest) => .ok (readUser user, rest)

def spanHost (kind : SchemeKind) (bracketed : Bool) : List Char → List Char × List Char
  | [] => ([], [])
  | c :: rest =>
    if endsAuthority kind c || (c == ':' && !bracketed) then ([], c :: rest)
    else
      let (host, behind) := spanHost kind (c == '[' || (bracketed && c != ']')) rest
      (c :: host, behind)

def takeHost (kind : SchemeKind) (cs : List Char) : Except Fault (Host × List Char) :=
  let (host, rest) := spanHost kind false cs
  if kind.isSpecial then
    if host.isEmpty then .error .emptyHost
    else (Host.readDomain host).map fun h => (h, rest)
  else (Host.readPlain host).map fun h => (h, rest)

def endsPort (c : Char) : Bool := c == '/' || c == '\\' || endsPath c

def takePort (scheme : String) (cs : List Char) : Except Fault (Option Nat × List Char) :=
  match cs with
  | ':' :: cs =>
    let (digits, rest) := cs.span Char.isDigit
    let port := Nat.ofDigitChars 10 digits 0
    if 65535 < port then .error .port
    else if rest.head?.any (fun c => !endsPort c) then .error .port
    else if digits.isEmpty || some port = defaultPort? scheme then .ok (none, rest)
    else .ok (some port, rest)
  | cs => .ok (none, cs)

def takeAuthority (scheme : String) (cs : List Char) : Except Fault (Authority × List Char) := do
  let kind := SchemeKind.ofScheme scheme
  let (user, cs) ← takeUser kind cs
  let (host, cs) ← takeHost kind cs
  if host = Host.none && cs.head? == some ':' then .error .emptyHost
  let (port, cs) ← takePort scheme cs
  if host = Host.none && !user.isNobody then .error .emptyHost
  return (⟨user, host, port⟩, cs)

def readServed (scheme : String) (cs : List Char) : Except Fault Uri := do
  let (authority, cs) ← takeAuthority scheme cs
  return fromTop scheme authority cs

/-- The URI of a file whose path, with its breaks, is followed from a place. A drive letter makes
the host void. -/
def fileUri (host : Host) (place : List Segment) (cs : List Char) : Uri :=
  let (path, rest) := cs.span fun c => !endsPath c
  let place := FilePlace.follow ⟨place, false⟩ (Text.pieces (isSlash .file) path)
  let (query, fragment) := readParts .file (unbroken rest)
  ⟨"file", some ⟨.nobody, if place.namesDrive then .none else host, none⟩,
    .rooted (Segment.dropEmptyFront place.segments), query, fragment⟩

def readFileHost (cs : List Char) : Except Fault Host :=
  if cs.isEmpty then .ok .none
  else (Host.readDomain cs).map fun h => if h = .name "localhost".toList then .none else h

def behindSlash? (cs : List Char) : Option (List Char) :=
  match cs.dropWhile isBreak with
  | c :: rest => if isSlash .file c then some rest else none
  | [] => none

def dropFileSlash (cs : List Char) : List Char := (behindSlash? cs).getD cs

/-- The file of a host and the text behind the host. Without a host the slash in front stays, and
with it an empty segment. -/
def hostedFile (host : Host) (cs : List Char) : Uri :=
  if host = Host.none && (behindSlash? cs).isSome then fileUri .none [[]] (dropFileSlash cs)
  else fileUri host [] (dropFileSlash cs)

def readFile (cs : List Char) : Except Fault Uri :=
  match (behindSlash? cs).bind behindSlash? with
  | some rest =>
    let (text, behind) := rest.span fun c => !endsAuthority .file c
    let host := unbroken text
    if Segment.isDriveLetter host then .ok (fileUri .none [] rest)
    else (readFileHost host).map fun h => hostedFile h behind
  | none => .ok (fileUri .none [] (dropFileSlash cs))

def readOther (scheme : String) (cs : List Char) : Except Fault Uri :=
  match cs with
  | '/' :: '/' :: rest => readServed scheme rest
  | '/' :: rest => .ok (withPath scheme none [] rest)
  | cs =>
    let (path, rest) := cs.span fun c => !endsPath c
    let (query, fragment) := readParts .other rest
    .ok ⟨scheme, none, .plain (Percent.encode isControl path), query, fragment⟩

def readWithScheme (scheme : String) (cs : List Char) : Except Fault Uri :=
  match SchemeKind.ofScheme scheme with
  | .web => readServed scheme ((unbroken cs).dropWhile (isSlash .web))
  | .file => readFile cs
  | .other => readOther scheme (unbroken cs)

def read (text : String) : Except Fault Uri :=
  match splitScheme (unpadded text.toList) with
  | some (scheme, rest) => readWithScheme scheme rest
  | none => .error .noBase

def placeOf (u : Uri) : List Segment :=
  match u.path with
  | .rooted segments => segments.dropLast
  | .plain _ => []

/-- The text behind the slashes in front of an authority. Two slashes of their own are all; among
backslashes every one counts. -/
def dropSlashes (cs : List Char) : List Char :=
  match cs with
  | '/' :: '/' :: rest => rest
  | cs => cs.dropWhile (isSlash .web)

def slashCount (cs : List Char) : Nat := (cs.takeWhile (isSlash .web)).length

def joinRelative (base : Uri) (cs : List Char) : Except Fault Uri :=
  match cs with
  | [] => .ok { base with fragment := none }
  | '?' :: rest =>
    let (query, fragment) := readParts .web ('?' :: rest)
    .ok { base with query, fragment }
  | '#' :: rest => .ok { base with fragment := (readParts .web ('#' :: rest)).2 }
  | cs =>
    match slashCount cs with
    | 0 => .ok (withPath base.scheme base.authority base.placeOf cs)
    | 1 => .ok (withPath base.scheme base.authority [] (cs.drop 1))
    | _ => readServed base.scheme (dropSlashes cs)

/-- Reads a reference against a web URI. A reference with the scheme of the base and fewer than two
slashes is relative all the same. -/
def join (base : Uri) (text : String) : Except Fault Uri :=
  let cs := unpadded text.toList
  match splitScheme cs with
  | some (scheme, rest) =>
    if scheme = base.scheme ∧ slashCount (unbroken rest) < 2 then joinRelative base (unbroken rest)
    else readWithScheme scheme rest
  | none => joinRelative base (unbroken cs)

end TaintScan.Uri
