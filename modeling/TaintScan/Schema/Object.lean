import TaintScan.Error
import TaintScan.Schema.Basic

namespace TaintScan

/-- An object of a schema; an attribute together with the type that owns it. -/
inductive SchemaObject
  | elementType (type : ElementType)
  | attributeDecl (owner : ElementType) (attr : AttributeDecl)
  | elementReference (reference : ElementReference)
  | function (function : FunctionDecl)
  | parameter (parameter : ParameterDecl)
deriving DecidableEq, Inhabited

namespace SchemaObject

def id : SchemaObject → ObjectId
  | elementType t => t.id
  | attributeDecl _ a => a.id
  | elementReference r => r.id
  | function f => f.id
  | parameter p => p.id

def kind : SchemaObject → ObjectKind
  | elementType _ => .elementType
  | attributeDecl _ _ => .attributeDecl
  | elementReference _ => .elementReference
  | function _ => .function
  | parameter _ => .parameter

def name : SchemaObject → String
  | elementType t => t.name
  | attributeDecl owner a => owner.name ++ "/@" ++ a.name
  | elementReference r => r.name
  | function f => f.name.clark ++ "()"
  | parameter p => "$" ++ p.name.clark

/-- The constraint on one value of the object, if it carries values at all. -/
def valueConstraint? : SchemaObject → Option DataConstraint
  | elementType t =>
    match t.contentType with
    | .data => some t.data
    | .mixed => some .anyText
    | .empty => none
    | .element => none
  | attributeDecl _ a => some a.constraint
  | elementReference _ => none
  | function f => some f.resultType.itemConstraint
  | parameter p => some p.paramType.itemConstraint

def isUserModifiable : SchemaObject → Bool
  | elementType t => t.userModifiable.getD true
  | attributeDecl _ a => a.userModifiable
  | _ => true

end SchemaObject

namespace Schema

def key (s : Schema) : SchemaKey := ⟨s.stylesheet, s.version⟩

def objectsOf (t : ElementType) : List SchemaObject :=
  .elementType t :: t.attributes.map (.attributeDecl t) ++ t.elements.map .elementReference

def objects (s : Schema) : List SchemaObject :=
  s.elementTypes.flatMap objectsOf ++ s.rootElements.map .elementReference ++
    s.functions.map .function ++ s.parameters.map .parameter

def firstRepeated (seen : List ObjectId) : List ObjectId → Option ObjectId
  | [] => none
  | id :: rest => if seen.contains id then some id else firstRepeated (id :: seen) rest

def checkIds (s : Schema) : Except Error Unit :=
  match firstRepeated [] (s.objects.map SchemaObject.id) with
  | some id => .error (.schema (.duplicateId id))
  | none => .ok ()

def object (s : Schema) (id : ObjectId) : Except Error SchemaObject :=
  match s.checkIds with
  | .error e => .error e
  | .ok () =>
    match s.objects.find? fun o => o.id == id with
    | some o => .ok o
    | none => .error (.unknownObject id)

def ofKind (s : Schema) (id : ObjectId) (expected : ObjectKind)
    (select : SchemaObject → Option α) : Except Error α :=
  match s.object id with
  | .error e => .error e
  | .ok o =>
    match select o with
    | some a => .ok a
    | none => .error (.wrongKind id o.kind expected)

def elementType (s : Schema) (id : ObjectId) : Except Error ElementType :=
  s.ofKind id .elementType fun
    | .elementType t => some t
    | _ => none

def elementReference (s : Schema) (id : ObjectId) : Except Error ElementReference :=
  s.ofKind id .elementReference fun
    | .elementReference r => some r
    | _ => none

def attributeDecl (s : Schema) (id : ObjectId) : Except Error AttributeDecl :=
  s.ofKind id .attributeDecl fun
    | .attributeDecl _ a => some a
    | _ => none

def function (s : Schema) (id : ObjectId) : Except Error FunctionDecl :=
  s.ofKind id .function fun
    | .function f => some f
    | _ => none

def parameter (s : Schema) (id : ObjectId) : Except Error ParameterDecl :=
  s.ofKind id .parameter fun
    | .parameter p => some p
    | _ => none

def referencedType (s : Schema) (r : ElementReference) : Except Error ElementType :=
  s.elementType r.elementType

def references (s : Schema) : List ElementReference :=
  s.rootElements ++ s.elementTypes.flatMap ElementType.elements

def checkReference (s : Schema) (r : ElementReference) : Except Error Unit :=
  if Name.isQualified r.name.toList then (s.referencedType r).map fun _ => ()
  else .error (.schema (.referenceName r.id r.name))

def checkAttribute (owner : ElementType) (a : AttributeDecl) : Except Error Unit :=
  if Name.isQualified a.name.toList then .ok ()
  else .error (.schema (.attributeName a.id owner.name a.name))

def check (s : Schema) : Except Error Unit := do
  s.checkIds
  s.references.forM s.checkReference
  s.elementTypes.forM fun t => t.attributes.forM (checkAttribute t)

def build (s : Schema) : Except Error Schema :=
  if s.rootElements.isEmpty then .error (.schema (.noRoots s.stylesheet))
  else s.check.map fun _ => s

def toJson (s : Schema) : Json.Value := .object [
  ("stylesheet_uri", .string s.stylesheet),
  ("version", .nat s.version.toNat),
  ("element_types", .array (s.elementTypes.map ElementType.toJson)),
  ("root_elements", .array (s.rootElements.map ElementReference.toJson)),
  ("extension_functions", .array (s.functions.map FunctionDecl.toJson)),
  ("stylesheet_parameters", .array (s.parameters.map ParameterDecl.toJson))]

def decoder : Json.Decoder Schema :=
  .record ["stylesheet_uri", "version", "element_types", "root_elements", "extension_functions",
      "stylesheet_parameters"]
    fun fields => Schema.mk
      <$> fields.need "stylesheet_uri" .text
      <*> fields.need "version" .uint32
      <*> fields.need "element_types" (.list ElementType.decoder)
      <*> fields.need "root_elements" (.list ElementReference.decoder)
      <*> fields.list "extension_functions" FunctionDecl.decoder
      <*> fields.list "stylesheet_parameters" ParameterDecl.decoder

def checked (read : Except Json.Fault Schema) : Except Error Schema :=
  match read with
  | .error fault => .error (.json fault)
  | .ok s => s.check.map fun _ => s

def ofJsonText (text : String) : Except Error Schema := checked (decoder.ofText text)

def ofJsonTree (tree : Json.Tree) : Except Error Schema := checked (decoder.ofTree tree)

def jsonText (s : Schema) : String := s.toJson.pretty

end Schema

end TaintScan
