import TaintScan.Markup.Entity
import TaintScan.Taint.Synthesis

namespace TaintScan

structure Document where
  xml : String
  functionResults : OrderedMap QualifiedName String
  parameters : OrderedMap QualifiedName String
  ledger : Ledger

namespace Document

structure Piece where
  text : List Char
  values : List Descriptor

def Piece.append (p q : Piece) : Piece := ⟨p.text ++ q.text, p.values ++ q.values⟩

instance : Append Piece := ⟨Piece.append⟩

def Piece.plain (text : List Char) : Piece := ⟨text, []⟩

def declaration : List Char := "<?xml version=\"1.0\" encoding=\"UTF-8\"?>".toList

variable (ctx : Synthesis.Context)

def writeAttribute (r : ScalarRule) : Except Error Piece := do
  let attr ← ctx.schema.attributeDecl r.target
  let d ← Synthesis.describe ctx r.toValueRule
  return ⟨' ' :: attr.name.toList ++ '=' :: '"' :: Markup.escape d.value.toList ++ ['"'], [d]⟩

def writeAttributes : List ScalarRule → Except Error Piece
  | [] => .ok (.plain [])
  | r :: rest => do
    let first ← writeAttribute ctx r
    let others ← writeAttributes rest
    return first ++ others

def rawText (mode : RawMode) (value : List Char) : List Char :=
  match mode with
  | .full => value
  | .restricted => Markup.escape value

mutual

def writeContent : ContentRule → Except Error Piece
  | .element _ reference attributes content => do
    let declared ← ctx.schema.elementReference reference
    let name := declared.name.toList
    let written ← writeAttributes ctx attributes
    if content.isEmpty then
      return .plain ('<' :: name) ++ written ++ .plain ['/', '>']
    else
      let inner ← writeAll content
      return .plain ('<' :: name) ++ written ++ .plain ['>'] ++ inner ++
        .plain ('<' :: '/' :: name ++ ['>'])
  | .data r => do
    let d ← Synthesis.describe ctx r.toValueRule
    return ⟨Markup.escape d.value.toList, [d]⟩
  | .raw r mode => do
    let d ← Synthesis.describe ctx (r.toRawRule mode)
    return ⟨rawText mode d.value.toList, [d]⟩

def writeAll : List ContentRule → Except Error Piece
  | [] => .ok (.plain [])
  | c :: rest => do
    let first ← writeContent c
    let others ← writeAll rest
    return first ++ others

end

structure Bindings where
  named : OrderedMap QualifiedName String
  values : List Descriptor

/-- The values of rules under the names of their objects. A later value of a name replaces an
earlier one. -/
def bindAll (nameOf : ObjectId → Except Error QualifiedName) :
    Bindings → List ScalarRule → Except Error Bindings
  | b, [] => .ok b
  | b, r :: rest => do
    let name ← nameOf r.target
    let d ← Synthesis.describe ctx r.toValueRule
    bindAll nameOf ⟨b.named.insert name d.value, b.values ++ [d]⟩ rest

def checkPlan (schema : Schema) (plan : Plan) : Except Error Unit :=
  if plan.stylesheet = schema.stylesheet ∧ plan.version = schema.version then .ok ()
  else .error (.schema (.foreignPlan ⟨plan.stylesheet, plan.version⟩ schema.key))

def render (schema : Schema) (marker : Marker) (settings : ValueSettings) (limits : Limits)
    (plan : Plan) : Except Error Document := do
  checkPlan schema plan
  let ctx : Synthesis.Context := ⟨schema, marker, settings, plan.valueSeed⟩
  let root ← writeContent ctx plan.root.toContent
  let functions ← bindAll ctx (fun id => FunctionDecl.name <$> schema.function id) ⟨.empty, []⟩
    plan.functions
  let parameters ← bindAll ctx (fun id => ParameterDecl.name <$> schema.parameter id) ⟨.empty, []⟩
    plan.parameters
  let text := declaration ++ root.text
  limits.checkDocumentSize (Text.byteCount text)
  return {
    xml := String.ofList text
    functionResults := functions.named
    parameters := parameters.named
    ledger := .ofList (root.values ++ functions.values ++ parameters.values) }

end Document

end TaintScan
