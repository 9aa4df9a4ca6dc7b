import TaintScan.Id
import TaintScan.Name.Qualified
import TaintScan.Schema.Constraint

namespace TaintScan

inductive ContentType
  | empty
  | data
  | element
  | mixed
deriving DecidableEq, Inhabited

namespace ContentType

def text : ContentType → String
  | empty => "EMPTY"
  | data => "DATA"
  | element => "ELEMENT"
  | mixed => "MIXED"

def all : List ContentType := [empty, data, element, mixed]

def toJson (t : ContentType) : Json.Value := .string t.text

def decoder : Json.Decoder ContentType := .choice (all.map fun t => (t.text, t))

end ContentType

inductive Arrangement
  | sequence
  | all
  | choice
deriving DecidableEq, Inhabited

namespace Arrangement

def text : Arrangement → String
  | sequence => "sequence"
  | all => "all"
  | choice => "choice"

def jsonName : Arrangement → String
  | sequence => "SEQUENCE"
  | all => "ALL"
  | choice => "CHOICE"

def toJson (a : Arrangement) : Json.Value := .string a.jsonName

def decoder : Json.Decoder Arrangement :=
  .choice ([sequence, all, choice].map fun a => (a.jsonName, a))

end Arrangement

structure ElementReference where
  id : ObjectId
  name : String
  elementType : ObjectId
  minOccurs : UInt32
  maxOccurs : Option UInt32
deriving DecidableEq, Inhabited

namespace ElementReference

def exactlyOnce (id : ObjectId) (name : String) (elementType : ObjectId) : ElementReference :=
  ⟨id, name, elementType, 1, some 1⟩

def withOccurs (r : ElementReference) (least : UInt32) (most : Option UInt32) : ElementReference :=
  { r with minOccurs := least, maxOccurs := most }

def toJson (r : ElementReference) : Json.Value := .object (
  [("id", r.id.toJson), ("name", .string r.name), ("element_type", r.elementType.toJson),
    ("min_occurs", .nat r.minOccurs.toNat)] ++
  Json.Value.optionalMember "max_occurs" (fun n => .nat n.toNat) r.maxOccurs)

def decoder : Json.Decoder ElementReference :=
  .record ["id", "name", "element_type", "min_occurs", "max_occurs"]
    fun fields => ElementReference.mk
      <$> fields.need "id" ObjectId.decoder
      <*> fields.need "name" .text
      <*> fields.need "element_type" ObjectId.decoder
      <*> fields.get "min_occurs" .uint32 (some 0)
      <*> fields.find? "max_occurs" .uint32

end ElementReference

structure AttributeDecl where
  id : ObjectId
  name : String
  constraint : DataConstraint
  isOptional : Bool
  userModifiable : Bool
deriving DecidableEq, Inhabited

namespace AttributeDecl

def mandatory (id : ObjectId) (name : String) (constraint : DataConstraint) : AttributeDecl :=
  ⟨id, name, constraint, false, true⟩

def toJson (a : AttributeDecl) : Json.Value := .object [
  ("id", a.id.toJson), ("name", .string a.name), ("constraint", a.constraint.toJson),
  ("optional", .bool a.isOptional), ("user_modifiable", .bool a.userModifiable)]

def decoder : Json.Decoder AttributeDecl :=
  .record ["id", "name", "constraint", "optional", "user_modifiable"]
    fun fields => AttributeDecl.mk
      <$> fields.need "id" ObjectId.decoder
      <*> fields.need "name" .text
      <*> fields.get "constraint" DataConstraint.decoder (some .anyText)
      <*> fields.get "optional" .boolean (some false)
      <*> fields.get "user_modifiable" .boolean (some true)

end AttributeDecl

structure ElementType where
  id : ObjectId
  name : String
  contentType : ContentType
  data : DataConstraint
  arrangement : Arrangement
  elements : List ElementReference
  attributes : List AttributeDecl
  userModifiable : Option Bool
deriving DecidableEq, Inhabited

namespace ElementType

def ofContent (id : ObjectId) (name : String) (content : ContentType) : ElementType :=
  ⟨id, name, content, .anyText, .sequence, [], [], none⟩

def empty (id : ObjectId) (name : String) : ElementType := ofContent id name .empty

def ofData (id : ObjectId) (name : String) (constraint : DataConstraint) : ElementType :=
  { ofContent id name .data with data := constraint }

def ofElements (id : ObjectId) (name : String) (arrangement : Arrangement) : ElementType :=
  { ofContent id name .element with arrangement := arrangement }

def mixed (id : ObjectId) (name : String) : ElementType := ofContent id name .mixed

def withChild (t : ElementType) (r : ElementReference) : ElementType :=
  { t with elements := t.elements ++ [r] }

def withAttribute (t : ElementType) (a : AttributeDecl) : ElementType :=
  { t with attributes := t.attributes ++ [a] }

def withUserModifiable (t : ElementType) (reachable : Bool) : ElementType :=
  { t with userModifiable := some reachable }

def reference (t : ElementType) (id : ObjectId) (name : String) : ElementReference :=
  .exactlyOnce id name t.id

def toJson (t : ElementType) : Json.Value := .object (
  [("id", t.id.toJson), ("name", .string t.name), ("content_type", t.contentType.toJson),
    ("data", t.data.toJson), ("arrangement", t.arrangement.toJson)] ++
  Json.Value.listMember "elements" ElementReference.toJson t.elements ++
  Json.Value.listMember "attributes" AttributeDecl.toJson t.attributes ++
  Json.Value.optionalMember "user_modifiable" .bool t.userModifiable)

def decoder : Json.Decoder ElementType :=
  .record ["id", "name", "content_type", "data", "arrangement", "elements", "attributes",
      "user_modifiable"]
    fun fields => ElementType.mk
      <$> fields.need "id" ObjectId.decoder
      <*> fields.need "name" .text
      <*> fields.need "content_type" ContentType.decoder
      <*> fields.get "data" DataConstraint.decoder (some .anyText)
      <*> fields.get "arrangement" Arrangement.decoder (some .sequence)
      <*> fields.list "elements" ElementReference.decoder
      <*> fields.list "attributes" AttributeDecl.decoder
      <*> fields.find? "user_modifiable" .boolean

end ElementType

namespace QualifiedName

def toJson (q : QualifiedName) : Json.Value := .object (
  Json.Value.optionalMember "namespace" .string q.space ++ [("local_name", .string q.localName)])

def decoder : Json.Decoder QualifiedName :=
  .record ["namespace", "local_name"] fun fields => QualifiedName.mk
    <$> fields.find? "namespace" .text
    <*> fields.need "local_name" .text

end QualifiedName

structure FunctionDecl where
  id : ObjectId
  name : QualifiedName
  arguments : List SequenceType
  resultType : SequenceType
deriving DecidableEq, Inhabited

namespace FunctionDecl

def toJson (f : FunctionDecl) : Json.Value := .object (
  [("id", f.id.toJson), ("name", f.name.toJson)] ++
  Json.Value.listMember "arguments" SequenceType.toJson f.arguments ++
  [("result_type", f.resultType.toJson)])

def decoder : Json.Decoder FunctionDecl :=
  .record ["id", "name", "arguments", "result_type"] fun fields => FunctionDecl.mk
    <$> fields.need "id" ObjectId.decoder
    <*> fields.need "name" QualifiedName.decoder
    <*> fields.list "arguments" SequenceType.decoder
    <*> fields.need "result_type" SequenceType.decoder

end FunctionDecl

structure ParameterDecl where
  id : ObjectId
  name : QualifiedName
  paramType : SequenceType
deriving DecidableEq, Inhabited

namespace ParameterDecl

def toJson (p : ParameterDecl) : Json.Value := .object
  [("id", p.id.toJson), ("name", p.name.toJson), ("param_type", p.paramType.toJson)]

def decoder : Json.Decoder ParameterDecl :=
  .record ["id", "name", "param_type"] fun fields => ParameterDecl.mk
    <$> fields.need "id" ObjectId.decoder
    <*> fields.need "name" QualifiedName.decoder
    <*> fields.need "param_type" SequenceType.decoder

end ParameterDecl

structure Schema where
  stylesheet : String
  version : UInt32
  elementTypes : List ElementType
  rootElements : List ElementReference
  functions : List FunctionDecl
  parameters : List ParameterDecl
deriving DecidableEq, Inhabited

end TaintScan
