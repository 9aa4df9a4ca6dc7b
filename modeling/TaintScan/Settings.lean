import TaintScan.Limits
import TaintScan.Plan.Persisted
import TaintScan.Random.Draw
import TaintScan.Text.Ascii

namespace TaintScan

open Json (Decoder Value)

structure GenerationSettings where
  limits : Limits
  optionalAttributeProbability : Float
  rawContentProbability : Float

namespace GenerationSettings

def standard : GenerationSettings := ⟨.standard, 0.5, 0.5⟩

instance : Inhabited GenerationSettings := ⟨standard⟩

def withOptionalAttributeProbability (g : GenerationSettings) (p : Float) : GenerationSettings :=
  { g with optionalAttributeProbability := Random.clampProbability p }

def withRawContentProbability (g : GenerationSettings) (p : Float) : GenerationSettings :=
  { g with rawContentProbability := Random.clampProbability p }

def toJson (g : GenerationSettings) : Value := .object [
  ("limits", g.limits.toJson),
  ("optional_attribute_probability", .float g.optionalAttributeProbability),
  ("raw_content_probability", .float g.rawContentProbability)]

def decoder : Decoder GenerationSettings :=
  .record ["limits", "optional_attribute_probability", "raw_content_probability"]
    fun fields => GenerationSettings.mk
      <$> fields.get "limits" Limits.decoder (some standard.limits)
      <*> fields.get "optional_attribute_probability" .float
        (some standard.optionalAttributeProbability)
      <*> fields.get "raw_content_probability" .float (some standard.rawContentProbability)

end GenerationSettings

structure ValueSettings where
  freshValueProbability : Float
  integerMin : Int64
  integerMax : Int64
  randomSuffixLength : UInt64

namespace ValueSettings

def standard : ValueSettings := ⟨0.75, -2147483648, 2147483647, 6⟩

instance : Inhabited ValueSettings := ⟨standard⟩

def withFreshValueProbability (v : ValueSettings) (p : Float) : ValueSettings :=
  { v with freshValueProbability := Random.clampProbability p }

def withIntegerRange (v : ValueSettings) (a b : Int64) : ValueSettings :=
  { v with integerMin := min a b, integerMax := max a b }

def toJson (v : ValueSettings) : Value := .object [
  ("fresh_value_probability", .float v.freshValueProbability),
  ("integer_min", .int v.integerMin.toInt),
  ("integer_max", .int v.integerMax.toInt),
  ("random_suffix_length", .nat v.randomSuffixLength.toNat)]

def decoder : Decoder ValueSettings :=
  .record ["fresh_value_probability", "integer_min", "integer_max", "random_suffix_length"]
    fun fields => ValueSettings.mk
      <$> fields.get "fresh_value_probability" .float (some standard.freshValueProbability)
      <*> fields.get "integer_min" .int64 (some standard.integerMin)
      <*> fields.get "integer_max" .int64 (some standard.integerMax)
      <*> fields.get "random_suffix_length" .uint64 (some standard.randomSuffixLength)

end ValueSettings

structure AnalyzerSettings where
  urlAttributes : List String
  attackAttribute : String
  attackElement : String
  sampleLength : UInt64
deriving DecidableEq

namespace AnalyzerSettings

def commonUrlAttributes : List String := [
  "action", "background", "cite", "codebase", "data", "formaction", "href", "longdesc", "lowsrc",
  "manifest", "poster", "src", "usemap", "xlink:href"]

def standard : AnalyzerSettings := ⟨commonUrlAttributes, "style", "script", 80⟩

instance : Inhabited AnalyzerSettings := ⟨standard⟩

def isUrlAttribute (a : AnalyzerSettings) (name : String) : Bool :=
  a.urlAttributes.any fun known => Text.sameIgnoringCase known name

def toJson (a : AnalyzerSettings) : Value := .object [
  ("url_attributes", .array (a.urlAttributes.map .string)),
  ("attack_attribute_name", .string a.attackAttribute),
  ("attack_element_name", .string a.attackElement),
  ("sample_length", .nat a.sampleLength.toNat)]

def decoder : Decoder AnalyzerSettings :=
  .record ["url_attributes", "attack_attribute_name", "attack_element_name", "sample_length"]
    fun fields => AnalyzerSettings.mk
      <$> fields.get "url_attributes" (.list .text) (some standard.urlAttributes)
      <*> fields.get "attack_attribute_name" .text (some standard.attackAttribute)
      <*> fields.get "attack_element_name" .text (some standard.attackElement)
      <*> fields.get "sample_length" .uint64 (some standard.sampleLength)

end AnalyzerSettings

structure ScanSettings where
  seed : UInt64
  iterations : UInt64
  transformTimeout : UInt64
  maxConcurrentConfirmations : UInt64
  contentMode : RawMode
  generation : GenerationSettings
  values : ValueSettings
  analyzer : AnalyzerSettings

namespace ScanSettings

def standard : ScanSettings := ⟨0, 100, 10000, 4, .full, .standard, .standard, .standard⟩

instance : Inhabited ScanSettings := ⟨standard⟩

def limits (s : ScanSettings) : Limits := s.generation.limits

def checkProbability (name : String) (p : Float) : Except Error Unit :=
  if 0 ≤ p && p ≤ 1 then .ok () else .error (.setting (.probability name p))

def check (s : ScanSettings) : Except Error Unit := do
  if s.maxConcurrentConfirmations = 0 then .error (.setting .noConcurrency)
  if s.transformTimeout = 0 then .error (.setting .noTimeout)
  checkProbability "optional_attribute_probability" s.generation.optionalAttributeProbability
  checkProbability "raw_content_probability" s.generation.rawContentProbability
  checkProbability "fresh_value_probability" s.values.freshValueProbability

def toJson (s : ScanSettings) : Value := .object [
  ("seed", .nat s.seed.toNat),
  ("iterations", .nat s.iterations.toNat),
  ("transform_timeout_ms", .nat s.transformTimeout.toNat),
  ("max_concurrent_confirmations", .nat s.maxConcurrentConfirmations.toNat),
  ("content_mode", s.contentMode.toJson),
  ("generator", s.generation.toJson),
  ("values", s.values.toJson),
  ("analyzer", s.analyzer.toJson)]

def decoder : Decoder ScanSettings :=
  .record ["seed", "iterations", "transform_timeout_ms", "max_concurrent_confirmations",
      "content_mode", "generator", "values", "analyzer"]
    fun fields => ScanSettings.mk
      <$> fields.get "seed" .uint64 (some standard.seed)
      <*> fields.get "iterations" .uint64 (some standard.iterations)
      <*> fields.get "transform_timeout_ms" .uint64 (some standard.transformTimeout)
      <*> fields.get "max_concurrent_confirmations" .uint64
        (some standard.maxConcurrentConfirmations)
      <*> fields.get "content_mode" RawMode.decoder (some standard.contentMode)
      <*> fields.get "generator" GenerationSettings.decoder (some standard.generation)
      <*> fields.get "values" ValueSettings.decoder (some standard.values)
      <*> fields.get "analyzer" AnalyzerSettings.decoder (some standard.analyzer)

def checked (read : Except Json.Fault ScanSettings) : Except Error ScanSettings :=
  match read with
  | .error fault => .error (.json fault)
  | .ok s => s.check.map fun _ => s

def ofJsonText (text : String) : Except Error ScanSettings := checked (decoder.ofText text)

def ofJsonTree (tree : Json.Tree) : Except Error ScanSettings := checked (decoder.ofTree tree)

def ofFile (file : Option String) : Except Error ScanSettings :=
  match file with
  | some text => ofJsonText text
  | none => .error (.file .notFound)

end ScanSettings

end TaintScan
