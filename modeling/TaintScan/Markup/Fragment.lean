import TaintScan.Markup.Attributes
import TaintScan.Markup.Entity

namespace TaintScan.Markup

/-- Checks an event where the given elements are open, innermost first; answers what is open behind
it. End tags must match, references must be known, empty elements must have proper attributes, and
there are no declarations, instructions and document types. -/
def checkEvent (opened : List (List Char)) : Event → Option (List (List Char))
  | .start tag => some (tag.name :: opened)
  | .close name =>
    match opened with
    | [] => none
    | innermost :: rest => if innermost = name then some rest else none
  | .text raw => if (unescape raw).isSome then some opened else none
  | .empty tag =>
    match tag.attributes false with
    | .ok _ => some opened
    | .error _ => none
  | .cdata _ => some opened
  | .comment => some opened
  | .instruction => none
  | .declaration => none
  | .doctype => none

def checkEvents (opened : List (List Char)) : List Event → Option (List (List Char))
  | [] => some opened
  | e :: rest => (checkEvent opened e).bind fun opened => checkEvents opened rest

def isBalanced (cs : List Char) : Bool :=
  let reading := read cs
  reading.fault.isNone && checkEvents [] reading.events == some []

def enclosed (fragment : List Char) : List Char :=
  "<fragment>".toList ++ fragment ++ "</fragment>".toList

def isFragment (text : String) : Bool := isBalanced (enclosed text.toList)

end TaintScan.Markup
