import TaintScan.Error
import TaintScan.Markup.Attributes
import TaintScan.Markup.Entity
import TaintScan.Output.Tree
import TaintScan.Text.Blank

namespace TaintScan.Output

open Markup (Event RawAttribute Tag)

abbrev Opened := Element

structure Builder where
  opened : List Opened
  top : List Node

namespace Builder

def start : Builder := ⟨[], []⟩

def attach (b : Builder) (n : Node) : Builder :=
  match b.opened with
  | [] => { b with top := b.top ++ [n] }
  | e :: rest => { b with opened := { e with children := e.children ++ [n] } :: rest }

def push (b : Builder) (e : Element) : Builder := { b with opened := e :: b.opened }

def pop (b : Builder) : Builder :=
  match b.opened with
  | [] => b
  | e :: rest => attach { b with opened := rest } e.toNode

def popMany : Nat → Builder → Builder
  | 0, b => b
  | n + 1, b => popMany n b.pop

def close (b : Builder) (name : String) : Builder :=
  match b.opened.findIdx? fun e => e.isNamed name with
  | some depth => popMany (depth + 1) b
  | none => b

def finish (b : Builder) : Output := ⟨(popMany b.opened.length b).top⟩

end Builder

/-- A text with its references replaced, or as it is written when one is unknown. -/
def decoded (raw : List Char) : String := String.ofList ((Markup.unescape raw).getD raw)

def elementOf (tag : Tag) : Except Error Element :=
  match tag.attributes true with
  | .error fault => .error (.output (.attributes fault))
  | .ok attributes =>
    .ok ⟨String.ofList tag.name,
      .ofEntries (attributes.map fun a => (String.ofList a.key, decoded a.value)), []⟩

def voidElements : List String := [
  "area", "base", "br", "col", "embed", "hr", "img", "input", "link", "meta", "param", "source",
  "track", "wbr"]

def isVoid (e : Element) : Bool := voidElements.any e.isNamed

def textNode? (parent : Option Element) (raw : List Char) : Option Node :=
  let content := decoded raw
  if content.toList.all Text.isBlank then none
  else if parent.any Element.holdsData then some (.data content)
  else some (.text content)

def buildEvent (b : Builder) (e : Event) : Except Error Builder :=
  match e with
  | .start tag =>
    (elementOf tag).map fun e => if isVoid e then b.attach e.toNode else b.push e
  | .empty tag => (elementOf tag).map fun e => b.attach e.toNode
  | .close name => .ok (b.close (String.ofList name))
  | .text raw =>
    .ok (match textNode? b.opened.head? raw with
      | some n => b.attach n
      | none => b)
  | .cdata raw => .ok (b.attach (.data (String.ofList raw)))
  | _ => .ok b

def build (b : Builder) : List Event → Except Error Builder
  | [] => .ok b
  | e :: rest =>
    match buildEvent b e with
    | .ok b => build b rest
    | .error error => .error error

def parse (text : String) : Except Error Output :=
  let reading := Markup.read text.toList
  match build .start reading.events with
  | .error error => .error error
  | .ok b =>
    match reading.fault with
    | some (position, fault) => .error (.output (.markup position fault))
    | none => .ok b.finish

end TaintScan.Output
