import TaintScan.Json.Numeral

namespace TaintScan.Json

/-- The kinds of problem in a JSON text: it ends too early, it is malformed, or it is well formed
and does not hold what is asked for. -/
inductive Fault
  | ended
  | malformed
  | unfit
deriving DecidableEq, Inhabited, Repr

/-- A JSON text, possibly cut short. A string whose escapes name no text holds none. `broken`
stands where the text stops being JSON; the fault depends on whether the place is read as a value,
skipped, or read as a name, which takes strings alone and looks at the first character of all else.
An array or object that is not closed has a fault for an ending. -/
inductive Tree
  | null
  | bool (value : Bool)
  | number (value : Numeral)
  | string (text : Option String)
  | array (items : List Tree) (ending : Option Fault)
  | object (members : List (Tree × Tree)) (ending : Option Fault)
  | broken (read skipped named : Fault)
deriving Inhabited

namespace Tree

mutual

def skipFault : Tree → Option Fault
  | null => none
  | bool _ => none
  | number _ => none
  | string _ => none
  | array items ending => (skipFaultItems items).or ending
  | object members ending => (skipFaultMembers members).or ending
  | broken _ skipped _ => some skipped

def skipFaultItems : List Tree → Option Fault
  | [] => none
  | item :: rest => (skipFault item).or (skipFaultItems rest)

def skipFaultMembers : List (Tree × Tree) → Option Fault
  | [] => none
  | (key, value) :: rest =>
    (keyFault key).or ((skipFault value).or (skipFaultMembers rest))

def keyFault : Tree → Option Fault
  | string _ => none
  | broken _ skipped _ => some skipped
  | _ => some .malformed

end

end Tree

end TaintScan.Json
