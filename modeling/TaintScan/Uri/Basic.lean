import TaintScan.Uri.Host
import TaintScan.Uri.Segments

namespace TaintScan

namespace Uri

inductive SchemeKind
  | web
  | file
  | other
deriving DecidableEq

namespace SchemeKind

def ofScheme (scheme : String) : SchemeKind :=
  if scheme = "file" then .file
  else if ["http", "https", "ws", "wss", "ftp"].contains scheme then .web
  else .other

def isSpecial (kind : SchemeKind) : Bool := kind != .other

end SchemeKind

def defaultPort? (scheme : String) : Option Nat :=
  if scheme = "http" ∨ scheme = "ws" then some 80
  else if scheme = "https" ∨ scheme = "wss" then some 443
  else if scheme = "ftp" then some 21
  else none

structure User where
  name : List Char
  password : List Char
deriving DecidableEq

namespace User

def nobody : User := ⟨[], []⟩

def isNobody (u : User) : Bool := u.name.isEmpty && u.password.isEmpty

def chars (u : User) : List Char :=
  if u.isNobody then []
  else u.name ++ (if u.password.isEmpty then [] else ':' :: u.password) ++ ['@']

end User

structure Authority where
  user : User
  host : Host
  port : Option Nat
deriving DecidableEq

namespace Authority

def here : Authority := ⟨.nobody, .none, none⟩

def chars (a : Authority) : List Char :=
  a.user.chars ++ a.host.chars ++ match a.port with
    | some port => ':' :: Text.natural port
    | none => []

end Authority

inductive Path
  | plain (text : List Char)
  | rooted (segments : List Segment)
deriving DecidableEq

namespace Path

def chars : Path → List Char
  | plain text => text
  | rooted segments => Segment.chars segments

end Path

end Uri

structure Uri where
  scheme : String
  authority : Option Uri.Authority
  path : Uri.Path
  query : Option (List Char)
  fragment : Option (List Char)
deriving DecidableEq

namespace Uri

def pathGuard (u : Uri) : List Char :=
  match u.authority, u.path with
  | none, .rooted ([] :: _ :: _) => ['/', '.']
  | _, _ => []

def partChars (mark : Char) : Option (List Char) → List Char
  | some text => mark :: text
  | none => []

def chars (u : Uri) : List Char :=
  u.scheme.toList ++ ':' :: (match u.authority with
    | some a => '/' :: '/' :: a.chars
    | none => []) ++ u.pathGuard ++ u.path.chars ++ partChars '?' u.query ++
      partChars '#' u.fragment

def text (u : Uri) : String := String.ofList u.chars

def host? (u : Uri) : Option Host :=
  u.authority.bind fun a => if a.host = Host.none then none else some a.host

def hostText? (u : Uri) : Option String := u.host?.map fun h => String.ofList h.chars

def pathText (u : Uri) : String := String.ofList u.path.chars

end Uri

end TaintScan
