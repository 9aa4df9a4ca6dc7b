import TaintScan.Uri.Address
import TaintScan.Uri.Label
import TaintScan.Uri.Percent

namespace TaintScan.Uri

inductive Fault
  | emptyHost
  | domainName
  | port
  | ipv4
  | ipv6
  | hostCharacter
  | noBase
deriving DecidableEq

namespace Fault

def message : Fault → String
  | emptyHost => "empty host"
  | domainName => "invalid international domain name"
  | port => "invalid port number"
  | ipv4 => "invalid IPv4 address"
  | ipv6 => "invalid IPv6 address"
  | hostCharacter => "invalid domain character"
  | noBase => "relative URL without a base"

end Fault

inductive Host
  | name (text : List Char)
  | ipv4 (address : Ipv4)
  | ipv6 (address : Ipv6)
deriving DecidableEq

namespace Host

def none : Host := name []

def chars : Host → List Char
  | name text => text
  | ipv4 address => address.chars
  | ipv6 address => '[' :: address.chars ++ [']']

def isForbidden (c : Char) : Bool :=
  ['\x00', '\t', '\n', '\r', ' ', '#', '/', ':', '<', '>', '?', '@', '[', '\\', ']', '^', '|'].contains c

def isForbiddenInDomain (c : Char) : Bool :=
  isForbidden c || isControl c || c == '%' || 0x80 ≤ c.toNat

def readBracketed (cs : List Char) : Except Fault Host :=
  if cs.getLast? == some ']' then
    match Ipv6.read? cs.dropLast with
    | some address => .ok (.ipv6 address)
    | .none => .error .ipv6
  else .error .ipv6

end Host

/-- How a host name of letters beyond ASCII is written in ASCII. A name that may not stand in a URI is
written in no way. -/
class Idna where
  toAscii? : List Char → Option (List Char)
  allowed : ∀ {name ascii}, toAscii? name = some ascii → ∀ c ∈ ascii, Host.isForbiddenInDomain c = false
  lowered : ∀ {name ascii}, toAscii? name = some ascii → Text.lowerCase ascii = ascii

abbrev Idna.plain : Idna := ⟨fun _ => none, nofun, nofun⟩

namespace Host

def inAscii? [Idna] (name : List Char) : Option (List Char) :=
  if name.all fun c => c.toNat < 0x80 then
    let domain := Text.lowerCase name
    if domain.any isForbiddenInDomain || !Label.areValid (Text.pieces (· == '.') domain) then .none
    else some domain
  else Idna.toAscii? name

def ofDomain (domain : List Char) : Except Fault Host :=
  if domain.isEmpty then .error .emptyHost
  else if Ipv4.endsInNumber domain then
    match Ipv4.read? domain with
    | some address => .ok (.ipv4 address)
    | .none => .error .ipv4
  else .ok (.name domain)

def readDomain [Idna] (cs : List Char) : Except Fault Host :=
  match cs with
  | '[' :: rest => readBracketed rest
  | cs =>
    match (Text.ofBytes? (Percent.decode cs)).bind inAscii? with
    | some domain => ofDomain domain
    | .none => .error .domainName

def readPlain (cs : List Char) : Except Fault Host :=
  match cs with
  | '[' :: rest => readBracketed rest
  | cs =>
    if cs.any isForbidden then .error .hostCharacter
    else .ok (.name (Percent.encode isControl cs))

end Host

end TaintScan.Uri
