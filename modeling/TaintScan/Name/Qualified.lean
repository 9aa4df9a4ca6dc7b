import TaintScan.Name.Basic

namespace TaintScan

structure QualifiedName where
  space : Option String
  localName : String
deriving DecidableEq, Inhabited

inductive NameFault
  | unterminated (text : String)
  | invalidLocal (text : String)
  | stated (text : String)
deriving DecidableEq

namespace NameFault

def message : NameFault → String
  | unterminated text => "Unterminated namespace in '" ++ text ++ "'"
  | invalidLocal text => "Invalid local name in '" ++ text ++ "'"
  | stated text => text

end NameFault

namespace QualifiedName

def plain (name : String) : QualifiedName := ⟨none, name⟩

def inSpace (space name : String) : QualifiedName := ⟨some space, name⟩

def clark (q : QualifiedName) : String :=
  match q.space with
  | some space => "\x7b" ++ space ++ "\x7d" ++ q.localName
  | none => q.localName

/-- The parts of a Clark form before the local name is looked at. Braces without a namespace
stand for none. -/
def splitClark? (cs : List Char) : Option QualifiedName :=
  match cs with
  | '{' :: rest =>
    match rest.span (· != '}') with
    | (_, []) => none
    | ([], _ :: name) => some (plain (String.ofList name))
    | (space, _ :: name) => some (inSpace (String.ofList space) (String.ofList name))
  | _ => some (plain (String.ofList cs))

def ofClark (text : String) : Except NameFault QualifiedName :=
  match splitClark? text.toList with
  | none => .error (.unterminated text)
  | some q =>
    if Name.isUncoloned q.localName.toList then .ok q else .error (.invalidLocal text)

end QualifiedName

end TaintScan
