import TaintScan.Markup.Fragment
import TaintScan.Plan.Basic
import TaintScan.Schema.Object
import TaintScan.Settings
import TaintScan.Taint.Ledger
import TaintScan.Taint.Selection

namespace TaintScan.Synthesis

open TaintScan.Random (Source Draw Trial)

structure Context where
  schema : Schema
  marker : Marker
  settings : ValueSettings
  seed : UInt64

def templates : List (String × String) := [
  ("<b>", "</b>"), ("<i>", "</i>"), ("<em>", "</em>"), ("<span>", "</span>"), ("<br/>", ""),
  ("", "<br/>")]

def fillerWords : List String := ["lorem", "ipsum", "dolor", "sit", "amet"]

/-- A value may be given to an object: the constraint accepts it, and full raw content is a
fragment. -/
def acceptsValue (c : DataConstraint) (mode : Option RawMode) (value : String) : Bool :=
  c.accepts value && (mode != some .full || Markup.isFragment value)

/-- How many random characters follow the stem, enough for a token. -/
def suffixLength (marker : Marker) (settings : ValueSettings) : Nat :=
  max settings.randomSuffixLength.toNat (marker.minLength - marker.stem.length)

def trackedText (marker : Marker) (settings : ValueSettings) (most : Option UInt64) :
    Trial (List Char) := do
  let suffix ← Marker.drawSuffix (suffixLength marker settings)
  let whole := marker.stem.toList ++ suffix
  return match most with
    | some n => whole.take n.toNat
    | none => whole

def integerHigh (settings : ValueSettings) (c : DataConstraint) : Int64 :=
  c.maxValue.getD (max settings.integerMax (c.minValue.getD Int64.minValue))

def integerLow (settings : ValueSettings) (c : DataConstraint) : Int64 :=
  c.minValue.getD (min settings.integerMin (integerHigh settings c))

def drawInteger (settings : ValueSettings) (c : DataConstraint) : Draw Int :=
  let low := (integerLow settings c).toInt
  let high := (integerHigh settings c).toInt
  if high ≤ low then return low else Random.between .wide low high

def drawItem [Inhabited α] (items : List α) : Draw α := do
  let i ← Random.below .wide items.length
  return items.getD i default

def drawMarkup (marker : Marker) (settings : ValueSettings) : Trial (List Char) := do
  let token ← trackedText marker settings none
  let template ← liftM (drawItem templates)
  let word ← liftM (drawItem fillerWords)
  return word.toList ++ ' ' :: template.1.toList ++ token ++ template.2.toList

def drawText (marker : Marker) (settings : ValueSettings) : Trial (List Char) := do
  let token ← trackedText marker settings none
  let word ← liftM (drawItem fillerWords)
  return word.toList ++ ' ' :: token

def drawChars (marker : Marker) (settings : ValueSettings) (most : Option UInt64) :
    Option RawMode → Trial (List Char)
  | some .full => drawMarkup marker settings
  | some .restricted => drawText marker settings
  | none => trackedText marker settings most

def drawFresh (marker : Marker) (settings : ValueSettings) (c : DataConstraint)
    (mode : Option RawMode) : Trial String :=
  match c.dataType with
  | .boolean => liftM (drawItem ["true", "false"])
  | .integer => (fun n => String.ofList (Text.integer n)) <$> liftM (drawInteger settings c)
  | .string | .other => String.ofList <$> drawChars marker settings c.maxLength mode

def usableValues (c : DataConstraint) (mode : Option RawMode) : List String :=
  c.discreteValues.filter (acceptsValue c mode)

def drawDiscrete? (settings : ValueSettings) (c : DataConstraint) (mode : Option RawMode) :
    Trial (Option String) := do
  if c.hasFixedSet then Random.choose? (usableValues c mode)
  else if c.hasInterestingSet then
    if ← Random.chance settings.freshValueProbability then return none
    else Random.choose? (usableValues c mode)
  else return none

def drawValue (marker : Marker) (settings : ValueSettings) (c : DataConstraint)
    (mode : Option RawMode) : Trial String := do
  match ← drawDiscrete? settings c mode with
  | some value => return value
  | none => drawFresh marker settings c mode

/-- The requested value of a rule, if it may be given to its object. -/
def usableRequest? (c : DataConstraint) (rule : ValueRule) : Option String :=
  rule.requested.filter (acceptsValue c rule.mode)

/-- Every rule draws from a source of its own, so plans that differ in one requested value differ in one
value. -/
def sourceOf (ctx : Context) (rule : ValueRule) : Source := .ofSeed (ctx.seed ^^^ rule.id.fold)

def descriptorOf (ctx : Context) (rule : ValueRule) (value : String) (requested : Bool) :
    Descriptor :=
  ⟨rule.target, rule.id, value, requested, ctx.marker.tokenIn value⟩

def madeUp (ctx : Context) (rule : ValueRule) (c : DataConstraint) : Except Breakdown String :=
  (drawValue ctx.marker ctx.settings c rule.mode (sourceOf ctx rule)).1

def describeUnder (ctx : Context) (rule : ValueRule) (c : DataConstraint) :
    Except Error Descriptor :=
  match usableRequest? c rule with
  | some value => .ok (descriptorOf ctx rule value true)
  | none =>
    match madeUp ctx rule c with
    | .ok value => .ok (descriptorOf ctx rule value false)
    | .error cause => .error (.breakdown cause)

/-- The value of a rule with its provenance. It fails when the target is no object of the schema, or
one that carries no value. -/
def describe (ctx : Context) (rule : ValueRule) : Except Error Descriptor :=
  match ctx.schema.object rule.target with
  | .error e => .error e
  | .ok object =>
    match object.valueConstraint? with
    | none => .error (.illegalState (.about (.valueless object.kind) rule.id rule.target))
    | some c => describeUnder ctx rule c

end TaintScan.Synthesis
