import TaintScan.Scan.Transform
import TaintScan.Text.Replace

namespace TaintScan

structure Template where
  cuts : List (String × String)
  unescapes : Bool
  required : Option String
  text : String
  failsOn : Option String
  crashesOn : Option String
  hangsOn : Option String
  cancelsOn : Option String
deriving DecidableEq

namespace Template

def between (first last text : List Char) : List Char :=
  match Text.splitAtFirst first text with
  | none => []
  | some (_, behind) =>
    match Text.splitAtFirst last behind with
    | some (inner, _) => inner
    | none => []

/-- The references of markup and what they stand for, in the order they are replaced. -/
def references : List (List Char × List Char) := [
  ("&lt;".toList, ['<']), ("&gt;".toList, ['>']), ("&quot;".toList, ['"']),
  ("&apos;".toList, ['\x27']), ("&amp;".toList, ['&'])]

def plain (text : List Char) : List Char :=
  references.foldl (fun text r => Text.replaceAll r.1 r.2 text) text

def cut (t : Template) (document : List Char) (marks : String × String) : List Char :=
  let piece := between marks.1.toList marks.2.toList document
  let piece := if t.unescapes then plain piece else piece
  if t.required.all fun r => r.toList.isPrefixOf piece then piece else []

def numbered (letter : List Char) (values : List (List Char)) : List (List Char × List Char) :=
  values.zipIdx.map fun (value, i) => (letter ++ Text.natural i, value)

def names (t : Template) (d : Document) : List (List Char × List Char) :=
  numbered [] (t.cuts.map (t.cut d.xml.toList)) ++ [("xml".toList, d.xml.toList)] ++
    numbered ['p'] (d.parameters.entries.map fun e => e.2.toList) ++
    numbered ['f'] (d.functionResults.entries.map fun e => e.2.toList)

def nameAt (text : List Char) : Option (List Char) :=
  match text.span (· != '\x7d') with
  | (name, _ :: _) => some name
  | (_, []) => none

/-- A text after a number of characters to leave out, with each name in braces replaced by what it
stands for. A brace that begins no name is a character like others. -/
def fill (names : List (List Char × List Char)) : Nat → List Char → List Char
  | _, [] => []
  | skip + 1, _ :: rest => fill names skip rest
  | 0, c :: rest =>
    match if c == '\x7b' then nameAt rest else none with
    | none => c :: fill names 0 rest
    | some name =>
      match names.lookup name with
      | some value => value ++ fill names (name.length + 1) rest
      | none => c :: fill names 0 rest

def holds (document : String) (text : Option String) : Bool :=
  text.any fun t => Text.contains document t

def apply (t : Template) (d : Document) (stylesheet : String) : Except TransformFailure String :=
  if holds d.xml t.failsOn then .error ⟨"XTDE0850: refused", some stylesheet, some d.xml⟩
  else .ok (String.ofList (fill (t.names d) 0 t.text.toList))

def answer (t : Template) (d : Document) (stylesheet : String) : TransformOutcome :=
  match t.apply d stylesheet with
  | .ok text => .output text
  | .error failure => .failed failure

def transformer (t : Template) : Transformer := fun d stylesheet =>
  let outcome :=
    if holds d.xml t.crashesOn then .crashed "stopped"
    else if holds d.xml t.hangsOn then .late
    else t.answer d stylesheet
  ⟨outcome, holds d.xml t.cancelsOn⟩

def textTransformer (t : Template) : Transformer := fun d stylesheet =>
  ⟨t.answer { d with parameters := .empty, functionResults := .empty } stylesheet, false⟩

end Template

end TaintScan
