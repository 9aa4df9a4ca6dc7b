import TaintScan.OrderedMap
import TaintScan.Text.Ascii

namespace TaintScan

inductive Node
  | element (name : String) (attributes : OrderedMap String String) (children : List Node)
  | text (content : String)
  | data (content : String)
deriving Inhabited

structure Element where
  name : String
  attributes : OrderedMap String String
  children : List Node
deriving Inhabited

namespace Node

def element? : Node → Option Element
  | element name attributes children => some ⟨name, attributes, children⟩
  | _ => none

def content? : Node → Option String
  | element _ _ _ => none
  | text s => some s
  | data s => some s

mutual

def size : Node → Nat
  | element _ _ children => 1 + sizeOfAll children
  | text _ => 1
  | data _ => 1

def sizeOfAll : List Node → Nat
  | [] => 0
  | n :: rest => size n + sizeOfAll rest

end

mutual

def elementsIn : Node → List Element
  | element name attributes children => ⟨name, attributes, children⟩ :: elementsInAll children
  | text _ => []
  | data _ => []

def elementsInAll : List Node → List Element
  | [] => []
  | n :: rest => elementsIn n ++ elementsInAll rest

end

end Node

namespace Element

def toNode (e : Element) : Node := .element e.name e.attributes e.children

def isNamed (e : Element) (name : String) : Bool := Text.sameIgnoringCase e.name name

def attr? (e : Element) (name : String) : Option String :=
  (e.attributes.entries.find? fun a => Text.sameIgnoringCase a.1 name).map Prod.snd

def childElements (e : Element) : List Element := e.children.filterMap Node.element?

def ownText (e : Element) : String := String.join (e.children.filterMap Node.content?)

def holdsData (e : Element) : Bool := e.isNamed "script" || e.isNamed "style"

def find? (e : Element) (condition : Element → Bool) : Option Element :=
  e.toNode.elementsIn.find? condition

def startTag (e : Element) : String :=
  "<" ++ e.name ++
    String.join (e.attributes.entries.map fun a => " " ++ a.1 ++ "=\"" ++ a.2 ++ "\"") ++ ">"

end Element

structure Output where
  nodes : List Node
deriving Inhabited

namespace Output

def elements (o : Output) : List Element := o.nodes.filterMap Node.element?

end Output

end TaintScan
