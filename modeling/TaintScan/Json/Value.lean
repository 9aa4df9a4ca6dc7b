import TaintScan.Json.Numeral
import TaintScan.Text.Ascii

namespace TaintScan.Json

inductive Value
  | null
  | bool (value : Bool)
  | number (value : Numeral)
  | string (text : String)
  | array (items : List Value)
  | object (members : List (String × Value))
deriving Inhabited

namespace Value

def int (n : Int) : Value := .number (.ofInt n)

def float (f : Float) : Value := .number (.ofFloat f)

def nat (n : Nat) : Value := .int n

def ofOption (f : α → Value) : Option α → Value
  | some a => f a
  | none => .null

def optionalMember (name : String) (f : α → Value) : Option α → List (String × Value)
  | some a => [(name, f a)]
  | none => []

def listMember (name : String) (f : α → Value) : List α → List (String × Value)
  | [] => []
  | items => [(name, .array (items.map f))]

end Value

def escapeChar (c : Char) : List Char :=
  if c == '"' then ['\\', '"']
  else if c == '\\' then ['\\', '\\']
  else if c == '\x08' then ['\\', 'b']
  else if c == '\x0c' then ['\\', 'f']
  else if c == '\n' then ['\\', 'n']
  else if c == '\r' then ['\\', 'r']
  else if c == '\t' then ['\\', 't']
  else if c.toNat < 0x20 then
    ['\\', 'u', '0', '0', Text.hexDigit (c.toNat / 16), Text.hexDigit (c.toNat % 16)]
  else [c]

def quoted (text : String) : List Char := '"' :: text.toList.flatMap escapeChar ++ ['"']

namespace Value

mutual

def compact : Value → List Char
  | null => "null".toList
  | bool true => "true".toList
  | bool false => "false".toList
  | number n => n.chars
  | string s => quoted s
  | array items => '[' :: compactItems items ++ [']']
  | object members => '{' :: compactMembers members ++ ['}']

def compactItems : List Value → List Char
  | [] => []
  | [item] => item.compact
  | item :: rest => item.compact ++ ',' :: compactItems rest

def compactMembers : List (String × Value) → List Char
  | [] => []
  | [(name, value)] => quoted name ++ ':' :: value.compact
  | (name, value) :: rest => quoted name ++ ':' :: value.compact ++ ',' :: compactMembers rest

end

def newLine (level : Nat) : List Char := '\n' :: List.replicate (2 * level) ' '

mutual

def indented (level : Nat) : Value → List Char
  | null => "null".toList
  | bool true => "true".toList
  | bool false => "false".toList
  | number n => n.chars
  | string s => quoted s
  | array [] => ['[', ']']
  | array items => '[' :: indentedItems (level + 1) items ++ newLine level ++ [']']
  | object [] => ['{', '}']
  | object members => '{' :: indentedMembers (level + 1) members ++ newLine level ++ ['}']

def indentedItems (level : Nat) : List Value → List Char
  | [] => []
  | [item] => newLine level ++ item.indented level
  | item :: rest => newLine level ++ item.indented level ++ ',' :: indentedItems level rest

def indentedMembers (level : Nat) : List (String × Value) → List Char
  | [] => []
  | [(name, value)] => newLine level ++ quoted name ++ ':' :: ' ' :: value.indented level
  | (name, value) :: rest =>
    newLine level ++ quoted name ++ ':' :: ' ' :: value.indented level ++
      ',' :: indentedMembers level rest

end

def pretty (v : Value) : String := String.ofList (v.indented 0)

mutual

def depth : Value → Nat
  | array items => depthItems items + 1
  | object members => depthMembers members + 1
  | _ => 0

def depthItems : List Value → Nat
  | [] => 0
  | item :: rest => max item.depth (depthItems rest)

def depthMembers : List (String × Value) → Nat
  | [] => 0
  | (_, value) :: rest => max value.depth (depthMembers rest)

end

end Value

end TaintScan.Json
