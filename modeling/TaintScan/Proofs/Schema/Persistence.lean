import TaintScan.Proofs.Json.Decoding
import TaintScan.Proofs.Outcome
import TaintScan.Schema.Object

namespace TaintScan

open Json (Value Decoder Fields)
open Json.Value (present ofList?)

theorem ObjectId.decoder_reads (id : ObjectId) : ObjectId.decoder.Reads id.toJson id :=
  Decoder.textAs_reads (ObjectId.ofText?_text id)

theorem RuleId.decoder_reads (id : RuleId) : RuleId.decoder.Reads id.toJson id :=
  Decoder.textAs_reads (RuleId.ofText?_text id)

theorem DataType.decoder_reads (t : DataType) : DataType.decoder.Reads t.toJson t :=
  Decoder.choice_reads (by cases t <;> rfl)

theorem Occurrence.decoder_reads (o : Occurrence) : Occurrence.decoder.Reads o.toJson o :=
  Decoder.choice_reads (by cases o <;> rfl)

theorem ContentType.decoder_reads (t : ContentType) : ContentType.decoder.Reads t.toJson t :=
  Decoder.choice_reads (by cases t <;> rfl)

theorem Arrangement.decoder_reads (a : Arrangement) : Arrangement.decoder.Reads a.toJson a :=
  Decoder.choice_reads (by cases a <;> rfl)

namespace DataConstraint

def slots (c : DataConstraint) : List (String × Option Value) := [
  ("data_type", some c.dataType.toJson),
  ("max_length", c.maxLength.map fun n => .nat n.toNat),
  ("min_value", c.minValue.map fun n => .int n.toInt),
  ("max_value", c.maxValue.map fun n => .int n.toInt),
  ("discrete_values", ofList? .string c.discreteValues),
  ("fixed_values", some (.bool c.fixedValues))]

theorem toJson_eq (c : DataConstraint) : c.toJson = .object (present c.slots) := by
  simp [toJson, slots]

theorem depth_toJson (c : DataConstraint) : c.toJson.depth ≤ 2 := by
  rw [toJson_eq, Value.depth_present_le]
  simp [slots, DataType.toJson]

theorem decoder_reads (c : DataConstraint) : DataConstraint.decoder.Reads c.toJson c := by
  rw [toJson_eq]
  refine Decoder.record_reads c.slots (by simp [slots]) fun fields hold => ?_
  have dataType := hold.get "data_type" (by simp [slots]) c.dataType.decoder_reads (some .string)
  have length := hold.find? "max_length" c.maxLength (by simp [slots]) Decoder.uint64_reads nofun
  have least := hold.find? "min_value" c.minValue (by simp [slots]) Decoder.int64_reads nofun
  have most := hold.find? "max_value" c.maxValue (by simp [slots]) Decoder.int64_reads nofun
  have values := hold.list "discrete_values" c.discreteValues (by simp [slots])
    fun s _ => Decoder.text_reads s
  have fixed := hold.get "fixed_values" (by simp [slots]) (Decoder.boolean_reads c.fixedValues)
    (some false)
  have read := (dataType.map mk).seq length |>.seq least |>.seq most |>.seq values |>.seq fixed
  exact read.congr (by simp [slots])

end DataConstraint

namespace SequenceType

def slots (t : SequenceType) : List (String × Option Value) := [
  ("item_type", some t.itemType.toJson),
  ("occurrence", some t.occurrence.toJson)]

theorem toJson_eq (t : SequenceType) : t.toJson = .object (present t.slots) := rfl

theorem depth_toJson (t : SequenceType) : t.toJson.depth ≤ 1 := by
  rw [toJson_eq, Value.depth_present_le]
  simp [slots, DataType.toJson, Occurrence.toJson]

theorem decoder_reads (t : SequenceType) : SequenceType.decoder.Reads t.toJson t := by
  rw [toJson_eq]
  refine Decoder.record_reads t.slots (by simp [slots]) fun fields hold => ?_
  have item := hold.need "item_type" (by simp [slots]) t.itemType.decoder_reads
  have occurrence := hold.get "occurrence" (by simp [slots]) t.occurrence.decoder_reads
    (some .exactlyOne)
  exact ((item.map mk).seq occurrence).congr (by simp [slots])

end SequenceType

namespace ElementReference

def slots (r : ElementReference) : List (String × Option Value) := [
  ("id", some r.id.toJson),
  ("name", some (.string r.name)),
  ("element_type", some r.elementType.toJson),
  ("min_occurs", some (.nat r.minOccurs.toNat)),
  ("max_occurs", r.maxOccurs.map fun n => .nat n.toNat)]

theorem toJson_eq (r : ElementReference) : r.toJson = .object (present r.slots) := by
  simp [toJson, slots]

theorem depth_toJson (r : ElementReference) : r.toJson.depth ≤ 1 := by
  rw [toJson_eq, Value.depth_present_le]
  simp [slots, ObjectId.toJson]

theorem decoder_reads (r : ElementReference) : ElementReference.decoder.Reads r.toJson r := by
  rw [toJson_eq]
  refine Decoder.record_reads r.slots (by simp [slots]) fun fields hold => ?_
  have id := hold.need "id" (by simp [slots]) r.id.decoder_reads
  have name := hold.need "name" (by simp [slots]) (Decoder.text_reads r.name)
  have leads := hold.need "element_type" (by simp [slots]) r.elementType.decoder_reads
  have least := hold.get "min_occurs" (by simp [slots]) (Decoder.uint32_reads r.minOccurs) (some 0)
  have most := hold.find? "max_occurs" r.maxOccurs (by simp [slots]) Decoder.uint32_reads nofun
  have read := (id.map mk).seq name |>.seq leads |>.seq least |>.seq most
  exact read.congr (by simp [slots])

end ElementReference

namespace AttributeDecl

def slots (a : AttributeDecl) : List (String × Option Value) := [
  ("id", some a.id.toJson),
  ("name", some (.string a.name)),
  ("constraint", some a.constraint.toJson),
  ("optional", some (.bool a.isOptional)),
  ("user_modifiable", some (.bool a.userModifiable))]

theorem toJson_eq (a : AttributeDecl) : a.toJson = .object (present a.slots) := rfl

theorem depth_toJson (a : AttributeDecl) : a.toJson.depth ≤ 3 := by
  rw [toJson_eq, Value.depth_present_le]
  simp [slots, ObjectId.toJson, a.constraint.depth_toJson]

theorem decoder_reads (a : AttributeDecl) : AttributeDecl.decoder.Reads a.toJson a := by
  rw [toJson_eq]
  refine Decoder.record_reads a.slots (by simp [slots]) fun fields hold => ?_
  have id := hold.need "id" (by simp [slots]) a.id.decoder_reads
  have name := hold.need "name" (by simp [slots]) (Decoder.text_reads a.name)
  have constraint := hold.get "constraint" (by simp [slots]) a.constraint.decoder_reads
    (some .anyText)
  have choice := hold.get "optional" (by simp [slots]) (Decoder.boolean_reads a.isOptional)
    (some false)
  have reachable := hold.get "user_modifiable" (by simp [slots])
    (Decoder.boolean_reads a.userModifiable) (some true)
  have read := (id.map mk).seq name |>.seq constraint |>.seq choice |>.seq reachable
  exact read.congr (by simp [slots])

end AttributeDecl

namespace ElementType

def slots (t : ElementType) : List (String × Option Value) := [
  ("id", some t.id.toJson),
  ("name", some (.string t.name)),
  ("content_type", some t.contentType.toJson),
  ("data", some t.data.toJson),
  ("arrangement", some t.arrangement.toJson),
  ("elements", ofList? ElementReference.toJson t.elements),
  ("attributes", ofList? AttributeDecl.toJson t.attributes),
  ("user_modifiable", t.userModifiable.map .bool)]

theorem toJson_eq (t : ElementType) : t.toJson = .object (present t.slots) := by
  simp [toJson, slots]

theorem depth_toJson (t : ElementType) : t.toJson.depth ≤ 5 := by
  have data : t.data.toJson.depth ≤ 4 := Nat.le_trans t.data.depth_toJson (by decide)
  have elements (r : ElementReference) : r.toJson.depth ≤ 3 := Nat.le_trans r.depth_toJson (by decide)
  rw [toJson_eq, Value.depth_present_le]
  simp [slots, ObjectId.toJson, ContentType.toJson, Arrangement.toJson, data, elements,
    AttributeDecl.depth_toJson]

theorem decoder_reads (t : ElementType) : ElementType.decoder.Reads t.toJson t := by
  rw [toJson_eq]
  refine Decoder.record_reads t.slots (by simp [slots]) fun fields hold => ?_
  have id := hold.need "id" (by simp [slots]) t.id.decoder_reads
  have name := hold.need "name" (by simp [slots]) (Decoder.text_reads t.name)
  have content := hold.need "content_type" (by simp [slots]) t.contentType.decoder_reads
  have data := hold.get "data" (by simp [slots]) t.data.decoder_reads (some .anyText)
  have arrangement := hold.get "arrangement" (by simp [slots]) t.arrangement.decoder_reads
    (some .sequence)
  have elements := hold.list "elements" t.elements (by simp [slots]) fun r _ => r.decoder_reads
  have attributes := hold.list "attributes" t.attributes (by simp [slots])
    fun a _ => a.decoder_reads
  have reachable := hold.find? "user_modifiable" t.userModifiable (by simp [slots])
    Decoder.boolean_reads nofun
  have read := (id.map mk).seq name |>.seq content |>.seq data |>.seq arrangement |>.seq elements
    |>.seq attributes |>.seq reachable
  exact read.congr (by simp [slots, and_assoc])

end ElementType

namespace QualifiedName

def slots (q : QualifiedName) : List (String × Option Value) := [
  ("namespace", q.space.map .string),
  ("local_name", some (.string q.localName))]

theorem toJson_eq (q : QualifiedName) : q.toJson = .object (present q.slots) := by
  simp [toJson, slots]

theorem depth_toJson (q : QualifiedName) : q.toJson.depth ≤ 1 := by
  rw [toJson_eq, Value.depth_present_le]
  simp [slots]

theorem decoder_reads (q : QualifiedName) : QualifiedName.decoder.Reads q.toJson q := by
  rw [toJson_eq]
  refine Decoder.record_reads q.slots (by simp [slots]) fun fields hold => ?_
  have space := hold.find? "namespace" q.space (by simp [slots]) Decoder.text_reads nofun
  have name := hold.need "local_name" (by simp [slots]) (Decoder.text_reads q.localName)
  exact ((space.map mk).seq name).congr (by simp [slots])

end QualifiedName

namespace FunctionDecl

def slots (f : FunctionDecl) : List (String × Option Value) := [
  ("id", some f.id.toJson),
  ("name", some f.name.toJson),
  ("arguments", ofList? SequenceType.toJson f.arguments),
  ("result_type", some f.resultType.toJson)]

theorem toJson_eq (f : FunctionDecl) : f.toJson = .object (present f.slots) := by
  simp [toJson, slots]

theorem depth_toJson (f : FunctionDecl) : f.toJson.depth ≤ 3 := by
  have name : f.name.toJson.depth ≤ 2 := Nat.le_trans f.name.depth_toJson (by decide)
  have result : f.resultType.toJson.depth ≤ 2 := Nat.le_trans f.resultType.depth_toJson (by decide)
  rw [toJson_eq, Value.depth_present_le]
  simp [slots, ObjectId.toJson, name, result, SequenceType.depth_toJson]

theorem decoder_reads (f : FunctionDecl) : FunctionDecl.decoder.Reads f.toJson f := by
  rw [toJson_eq]
  refine Decoder.record_reads f.slots (by simp [slots]) fun fields hold => ?_
  have id := hold.need "id" (by simp [slots]) f.id.decoder_reads
  have name := hold.need "name" (by simp [slots]) f.name.decoder_reads
  have arguments := hold.list "arguments" f.arguments (by simp [slots]) fun t _ => t.decoder_reads
  have result := hold.need "result_type" (by simp [slots]) f.resultType.decoder_reads
  have read := (id.map mk).seq name |>.seq arguments |>.seq result
  exact read.congr (by simp [slots, and_assoc])

end FunctionDecl

namespace ParameterDecl

def slots (p : ParameterDecl) : List (String × Option Value) := [
  ("id", some p.id.toJson),
  ("name", some p.name.toJson),
  ("param_type", some p.paramType.toJson)]

theorem toJson_eq (p : ParameterDecl) : p.toJson = .object (present p.slots) := rfl

theorem depth_toJson (p : ParameterDecl) : p.toJson.depth ≤ 2 := by
  rw [toJson_eq, Value.depth_present_le]
  simp [slots, ObjectId.toJson, p.name.depth_toJson, p.paramType.depth_toJson]

theorem decoder_reads (p : ParameterDecl) : ParameterDecl.decoder.Reads p.toJson p := by
  rw [toJson_eq]
  refine Decoder.record_reads p.slots (by simp [slots]) fun fields hold => ?_
  have id := hold.need "id" (by simp [slots]) p.id.decoder_reads
  have name := hold.need "name" (by simp [slots]) p.name.decoder_reads
  have type := hold.need "param_type" (by simp [slots]) p.paramType.decoder_reads
  exact (((id.map mk).seq name).seq type).congr (by simp [slots, and_assoc])

end ParameterDecl

namespace Schema

/-- The lists of element types and of roots are written even when they are empty. -/
def slots (s : Schema) : List (String × Option Value) := [
  ("stylesheet_uri", some (.string s.stylesheet)),
  ("version", some (.nat s.version.toNat)),
  ("element_types", some (.array (s.elementTypes.map ElementType.toJson))),
  ("root_elements", some (.array (s.rootElements.map ElementReference.toJson))),
  ("extension_functions", some (.array (s.functions.map FunctionDecl.toJson))),
  ("stylesheet_parameters", some (.array (s.parameters.map ParameterDecl.toJson)))]

theorem toJson_eq (s : Schema) : s.toJson = .object (present s.slots) := rfl

theorem depth_toJson (s : Schema) : s.toJson.depth ≤ 7 := by
  have roots (r : ElementReference) : r.toJson.depth ≤ 5 := Nat.le_trans r.depth_toJson (by decide)
  have functions (f : FunctionDecl) : f.toJson.depth ≤ 5 := Nat.le_trans f.depth_toJson (by decide)
  have parameters (p : ParameterDecl) : p.toJson.depth ≤ 5 := Nat.le_trans p.depth_toJson (by decide)
  rw [toJson_eq, Value.depth_present_le]
  simp [slots, ElementType.depth_toJson, roots, functions, parameters]

theorem decoder_reads (s : Schema) : Schema.decoder.Reads s.toJson s := by
  rw [toJson_eq]
  refine Decoder.record_reads s.slots (by simp [slots]) fun fields hold => ?_
  have stylesheet := hold.need "stylesheet_uri" (by simp [slots]) (Decoder.text_reads s.stylesheet)
  have version := hold.need "version" (by simp [slots]) (Decoder.uint32_reads s.version)
  have types := hold.need "element_types" (by simp [slots])
    (Decoder.list_reads fun t (_ : t ∈ s.elementTypes) => t.decoder_reads)
  have roots := hold.need "root_elements" (by simp [slots])
    (Decoder.list_reads fun r (_ : r ∈ s.rootElements) => r.decoder_reads)
  have functions := hold.get "extension_functions" (by simp [slots])
    (Decoder.list_reads fun f (_ : f ∈ s.functions) => f.decoder_reads) (some [])
  have parameters := hold.get "stylesheet_parameters" (by simp [slots])
    (Decoder.list_reads fun p (_ : p ∈ s.parameters) => p.decoder_reads) (some [])
  have read := (stylesheet.map mk).seq version |>.seq types |>.seq roots |>.seq functions
    |>.seq parameters
  exact read.congr (by simp [slots, and_assoc])

theorem ofJsonText_eq (s : Schema) : ofJsonText s.jsonText = s.check.map fun _ => s := by
  have fits : s.toJson.depth ≤ Json.nestingLimit := Nat.le_trans s.depth_toJson (by decide)
  have read := s.decoder_reads.ofText
  rw [if_pos fits] at read
  rw [ofJsonText, jsonText, read]
  rfl

theorem check_of_ofJsonText {text : String} {s : Schema} (read : ofJsonText text = .ok s) :
    s.check = .ok () := by
  unfold ofJsonText checked at read
  split at read
  · cases read
  · rcases Outcome.map_eq_ok.mp read with ⟨⟨⟩, passed, rfl⟩
    exact passed

/-- A checked schema is read back from its text, and so is written again as the same text. -/
theorem reloads_of_check {s : Schema} (checked : s.check = .ok ()) :
    ofJsonText s.jsonText = .ok s ∧ (ofJsonText s.jsonText).map jsonText = .ok s.jsonText := by
  have read : ofJsonText s.jsonText = .ok s := by
    rw [ofJsonText_eq, checked]
    rfl
  refine ⟨read, ?_⟩
  rw [read]
  rfl

/-- Strings that need every escape, bounds at the ends of their ranges, a type that contains
itself, and fields that are there or left out. -/
def hostileSchema : Schema where
  stylesheet := "file:///\"\\\x08\x0c\n\r\t\x00\x1f\x7f/é\u2028😀.xsl"
  version := 4294967295
  elementTypes := [
    { ElementType.mixed ⟨⟨1⟩⟩ "part" with
      data := { DataConstraint.ofType .string with
        maxLength := some 18446744073709551615
        discreteValues := ["", "\"", "\\u0000"] }
      elements := [.withOccurs (.exactlyOnce ⟨⟨2⟩⟩ "part" ⟨⟨1⟩⟩) 0 none]
      attributes := [
        ⟨⟨⟨3⟩⟩, "size", .withRange (.ofType .integer) (some Int64.minValue) (some Int64.maxValue),
          true, false⟩]
      userModifiable := some false }]
  rootElements := [.exactlyOnce ⟨⟨4⟩⟩ "part" ⟨⟨1⟩⟩]
  functions := [⟨⟨⟨5⟩⟩, ⟨some "urn:\n", "now"⟩, [.one .boolean, ⟨.other, .zeroOrMore⟩], .one .string⟩]
  parameters := [⟨⟨⟨6⟩⟩, ⟨none, "\x01"⟩, ⟨.integer, .oneOrMore⟩⟩]

theorem reloads_of_check_hostile : ofJsonText hostileSchema.jsonText = .ok hostileSchema ∧
    (ofJsonText hostileSchema.jsonText).map jsonText = .ok hostileSchema.jsonText := by
  have checked : hostileSchema.check = .ok () := rfl
  exact reloads_of_check checked

end Schema

end TaintScan
