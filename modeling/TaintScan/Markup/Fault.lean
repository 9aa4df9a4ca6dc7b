import TaintScan.Text.Number

namespace TaintScan.Markup

inductive Construct
  | bang
  | cdata
  | comment
  | doctype
  | instruction
  | element
deriving DecidableEq

namespace Construct

def text : Construct → String
  | bang => "Bang"
  | cdata => "CData"
  | comment => "Comment"
  | doctype => "DOCTYPE"
  | instruction => "XmlDecl"
  | element => "Element"

end Construct

inductive Fault
  | unexpectedEnd (inside : Construct)
  | strayBang (symbol : Char)
  | emptyDoctype
deriving DecidableEq

namespace Fault

def message : Fault → String
  | unexpectedEnd inside => "Unexpected EOF during reading " ++ inside.text
  | strayBang symbol =>
    "Only Comment (`--`), CDATA (`[CDATA[`) and DOCTYPE (`DOCTYPE`) nodes can start with a '!', " ++
      "but symbol `" ++ symbol.toString ++ "` found"
  | emptyDoctype => "DOCTYPE declaration must not be empty"

end Fault

inductive AttributeFault
  | missingEquals (position : Nat)
  | missingValue (position : Nat)
  | unquotedValue (position : Nat)
  | missingQuote (position : Nat) (quote : Char)
  | duplicated (position previous : Nat)
deriving DecidableEq

namespace AttributeFault

def located (position : Nat) (text : String) : String :=
  "position " ++ String.ofList (Text.natural position) ++ ": " ++ text

def message : AttributeFault → String
  | missingEquals p => located p "attribute key must be directly followed by `=` or space"
  | missingValue p => located p "`=` must be followed by an attribute value"
  | unquotedValue p => located p "attribute value must be enclosed in `\"` or `'`"
  | missingQuote p quote =>
    located p ("missing closing quote `" ++ quote.toString ++ "` in attribute value")
  | duplicated p previous =>
    located p ("duplicated attribute, previous declaration at position " ++
      String.ofList (Text.natural previous))

end AttributeFault

end TaintScan.Markup
