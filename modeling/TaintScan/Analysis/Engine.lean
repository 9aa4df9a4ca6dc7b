import TaintScan.Analysis.Verify
import TaintScan.Schema.Object
import TaintScan.Taint.Ledger
import TaintScan.Taint.Marker

namespace TaintScan

structure Engine where
  rules : List Rule
  settings : AnalyzerSettings
  distinct : rules.Nodup

namespace Engine

def empty (settings : AnalyzerSettings) : Engine := ⟨[], settings, .nil⟩

def choosing (settings : AnalyzerSettings) (wanted : Rule → Bool) : Engine :=
  ⟨Rule.all.filter wanted, settings, List.Pairwise.filter _ (by decide)⟩

def standard (settings : AnalyzerSettings) : Engine := ⟨Rule.all, settings, by decide⟩

def register (e : Engine) (r : Rule) : Except Error Engine :=
  if h : r ∈ e.rules then .error (.setting (.registered r.id))
  else .ok ⟨e.rules ++ [r], e.settings, List.nodup_append.mpr
    ⟨e.distinct, List.pairwise_singleton _ r, fun _ ha _ hb heq =>
      h (List.mem_singleton.mp hb ▸ heq ▸ ha)⟩⟩

def rule (e : Engine) (id : String) : Except Error Rule :=
  match e.rules.find? fun r => r.id == id with
  | some r => .ok r
  | none => .error (.unknownAnalyzerRule id)

structure Context where
  schema : Schema
  ledger : Ledger
  marker : Marker
  settings : AnalyzerSettings

namespace Context

def isReachable (ctx : Context) (d : Descriptor) : Bool :=
  match ctx.schema.object d.object with
  | .ok object => object.isUserModifiable
  | .error _ => false

def trackedIn (ctx : Context) (text : String) : List Descriptor :=
  (ctx.ledger.findIn text).filter ctx.isReachable

/-- The marker a rule injects for a value: stem, code of the rule, short identity of the generation
rule. -/
def injectedMarker (ctx : Context) (r : Rule) (d : Descriptor) : String :=
  ctx.marker.stem ++ r.code ++ d.rule.short

def detection (ctx : Context) (r : Rule) (s : Site) (d : Descriptor) : Detection :=
  let marker := ctx.injectedMarker r d
  { analyzerRule := r.id
    rule := d.rule
    payload := {
      object := d.object
      path := s.path
      attributeName := s.attrName?
      marker := r.expectation marker ctx.settings
      replacement := r.replacement marker ctx.settings
      inputSample := d.value
      outputSample := s.sample ctx.settings.sampleLength.toNat
      baselineAttributes := s.element.attributes.keys } }

def attacks (ctx : Context) (r : Rule) (s : Site) : Bool :=
  r.category = s.category && r.isApplicable s ctx.settings

def detect (ctx : Context) (r : Rule) (s : Site) : List Detection :=
  match r.probe s with
  | some text => (ctx.trackedIn text).map (ctx.detection r s)
  | none => []

def detectAt (ctx : Context) (rules : List Rule) (s : Site) : List Detection :=
  (rules.filter fun r => ctx.attacks r s).flatMap fun r => ctx.detect r s

end Context

def firstOfEach [DecidableEq κ] (key : α → κ) (seen : List κ) : List α → List α
  | [] => []
  | a :: rest =>
    if key a ∈ seen then firstOfEach key seen rest
    else a :: firstOfEach key (key a :: seen) rest

def keyOf (d : Detection) : String × RuleId := (d.analyzerRule, d.rule)

def analyze (e : Engine) (o : Output) (schema : Schema) (ledger : Ledger) (marker : Marker) :
    List Detection :=
  let ctx : Context := ⟨schema, ledger, marker, e.settings⟩
  firstOfEach keyOf [] (o.sites.flatMap (ctx.detectAt e.rules))

def verify [Uri.Idna] (e : Engine) (d : Detection) (o : Output) : Except Error Verification :=
  match e.rule d.analyzerRule with
  | .ok r => .ok (r.verify d.payload o)
  | .error error => .error error

end Engine

end TaintScan
