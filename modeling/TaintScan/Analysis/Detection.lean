import TaintScan.Id
import TaintScan.Output.Path
import TaintScan.Plan.Modify

namespace TaintScan

structure Payload where
  object : ObjectId
  path : NodePath
  attributeName : Option String
  marker : String
  replacement : String
  inputSample : String
  outputSample : String
  baselineAttributes : List String
deriving DecidableEq

namespace Payload

def toJson (p : Payload) : Json.Value := .object (
  [("schema_object", p.object.toJson), ("path", p.path.toJson)] ++
  Json.Value.optionalMember "attribute" .string p.attributeName ++
  [("marker", .string p.marker), ("replacement", .string p.replacement),
    ("input_sample", .string p.inputSample), ("output_sample", .string p.outputSample)] ++
  Json.Value.listMember "baseline_attributes" .string p.baselineAttributes)

def decoder : Json.Decoder Payload :=
  .record ["schema_object", "path", "attribute", "marker", "replacement", "input_sample",
      "output_sample", "baseline_attributes"]
    fun fields => Payload.mk
      <$> fields.need "schema_object" ObjectId.decoder
      <*> fields.need "path" NodePath.decoder
      <*> fields.find? "attribute" .text
      <*> fields.need "marker" .text
      <*> fields.need "replacement" .text
      <*> fields.need "input_sample" .text
      <*> fields.need "output_sample" .text
      <*> fields.list "baseline_attributes" .text

end Payload

structure Detection where
  analyzerRule : String
  rule : RuleId
  payload : Payload
deriving DecidableEq

namespace Detection

def apply (d : Detection) (plan : Plan) : Except Error Plan :=
  plan.modify d.rule d.payload.object d.payload.replacement

def toJson (d : Detection) : Json.Value := .object [
  ("analyzer_rule", .string d.analyzerRule), ("generation_rule", d.rule.toJson),
  ("payload", d.payload.toJson)]

def decoder : Json.Decoder Detection :=
  .record ["analyzer_rule", "generation_rule", "payload"] fun fields => Detection.mk
    <$> fields.need "analyzer_rule" .text
    <*> fields.need "generation_rule" RuleId.decoder
    <*> fields.need "payload" Payload.decoder

end Detection

inductive Verification
  | confirmed (sample : String)
  | refuted (reason : String)
deriving DecidableEq

namespace Verification

def isConfirmed : Verification → Bool
  | confirmed _ => true
  | refuted _ => false

end Verification

structure Finding where
  analyzerRule : String
  object : ObjectId
  path : NodePath
  inputSample : String
  detectedSample : String
  outputSample : String
deriving DecidableEq

namespace Finding

def toJson (f : Finding) : Json.Value := .object [
  ("rule_id", .string f.analyzerRule), ("schema_object", f.object.toJson),
  ("path", f.path.toJson), ("input_sample", .string f.inputSample),
  ("original_sample", .string f.detectedSample), ("output_sample", .string f.outputSample)]

end Finding

end TaintScan
