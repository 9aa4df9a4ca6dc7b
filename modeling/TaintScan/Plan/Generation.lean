import TaintScan.Schema.Object
import TaintScan.Settings

namespace TaintScan.Plan

open TaintScan.Random (Source Draw Trial)

structure Growth where
  source : Source
  count : Nat

abbrev Grow (α : Type) := StateT Growth (Except Error) α

namespace Grow

def draw (d : Draw α) : Grow α := fun g =>
  let (a, source) := d g.source
  .ok (a, { g with source := source })

def attempt (d : Trial α) : Grow α := fun g =>
  match d g.source with
  | (.ok a, source) => .ok (a, { g with source := source })
  | (.error cause, _) => .error (.breakdown cause)

def ruleId : Grow RuleId := draw (RuleId.mk <$> Random.uuid)

def countElement : Grow Unit := fun g => .ok ((), { g with count := g.count + 1 })

def mayExpand (limits : Limits) : Grow Bool := fun g => .ok (limits.allowsExpansion g.count, g)

end Grow

inductive RootChoice
  | uniform
  | fixed (index : Nat)

namespace RootChoice

def pick (choice : RootChoice) (roots : List ElementReference) : Draw (Option ElementReference) :=
  match choice with
  | uniform => Random.choose? roots
  | fixed index => return roots[index]?

end RootChoice

variable (schema : Schema) (settings : GenerationSettings) (mode : RawMode)

def growAttributes : List AttributeDecl → Grow (List ScalarRule)
  | [] => return []
  | a :: rest => do
    let included ←
      if a.isOptional then Grow.attempt (Random.chance settings.optionalAttributeProbability)
      else pure true
    if included then
      let id ← Grow.ruleId
      let rules ← growAttributes rest
      return .fresh id a.id :: rules
    else growAttributes rest

def repeatReferences : List ElementReference → Draw (List ElementReference)
  | [] => return []
  | r :: rest => do
    let most := settings.limits.occurrenceUpperBound r.minOccurs r.maxOccurs
    let count ← Random.between .narrow r.minOccurs.toNat most.toNat
    let others ← repeatReferences rest
    return List.replicate count.toNat r ++ others

def arrangeChildren (t : ElementType) : Draw (List ElementReference) :=
  match t.arrangement with
  | .sequence => repeatReferences settings t.elements
  | .all => do
    let planned ← repeatReferences settings t.elements
    Random.shuffle planned
  | .choice => do
    let chosen ← Random.choose? t.elements
    return chosen.toList

def expandAll (expand : ElementReference → Grow ContentRule) :
    List ElementReference → Grow (List ContentRule)
  | [] => return []
  | r :: rest => do
    if ← Grow.mayExpand settings.limits then
      let child ← expand r
      let others ← expandAll expand rest
      return child :: others
    else return []

def growChildren (expand : ElementReference → Grow ContentRule) (t : ElementType) :
    Grow (List ContentRule) := do
  if ← Grow.mayExpand settings.limits then
    let planned ← Grow.draw (arrangeChildren settings t)
    expandAll settings expand planned
  else return []

def growRaw (t : ElementType) : Grow ContentRule := do
  let id ← Grow.ruleId
  return .raw (.fresh id t.id) mode

def fillGaps (t : ElementType) : List Bool → List ContentRule → Grow (List ContentRule)
  | [], _ => return []
  | gap :: gaps, children => do
    let filling ← if gap then List.singleton <$> growRaw mode t else pure []
    let rest ← fillGaps t gaps children.tail
    return filling ++ children.head?.toList ++ rest

def chooseGaps (count : Nat) : Trial (List Bool) := do
  let gaps ← Random.times count (Random.chance settings.rawContentProbability)
  if gaps.any id then return gaps
  else
    let forced ← Random.below .wide count
    return (List.range count).map (· == forced)

def growMixed (expand : ElementReference → Grow ContentRule) (t : ElementType) :
    Grow (List ContentRule) := do
  if t.elements.isEmpty then
    let raw ← growRaw mode t
    return [raw]
  else
    let children ← growChildren settings expand t
    let gaps ← Grow.attempt (chooseGaps settings (children.length + 1))
    fillGaps mode t gaps children

def growContent (expand : ElementReference → Grow ContentRule) (t : ElementType) :
    Grow (List ContentRule) :=
  match t.contentType with
  | .empty => return []
  | .data => do
    let id ← Grow.ruleId
    return [.data (.fresh id t.id)]
  | .element => growChildren settings expand t
  | .mixed => growMixed settings mode expand t

/-- The rule of one element and everything below it. The depth is bounded by the number of
elements still allowed, so the budget is never used up when it starts above the ceiling. -/
def growElement : Nat → ElementReference → Grow ElementRule
  | budget, reference => do
    Grow.countElement
    match schema.referencedType reference with
    | .error e => throw e
    | .ok t =>
      let id ← Grow.ruleId
      let attributes ← growAttributes settings t.attributes
      let content ← match budget with
        | 0 => pure []
        | budget + 1 =>
          growContent settings mode (fun r => ElementRule.toContent <$> growElement budget r) t
      return ⟨id, reference.id, attributes, content⟩

def growRules : List ObjectId → Grow (List ScalarRule)
  | [] => return []
  | object :: rest => do
    let id ← Grow.ruleId
    let rules ← growRules rest
    return .fresh id object :: rules

def grow (choice : RootChoice) : Grow Plan := do
  let seed ← Grow.draw Random.word64
  match ← Grow.draw (choice.pick schema.rootElements) with
  | none => throw (.schema (.noRoots schema.stylesheet))
  | some reference =>
    let root ← growElement schema settings mode (settings.limits.maxElements.toNat + 1) reference
    let functions ← growRules (schema.functions.map FunctionDecl.id)
    let parameters ← growRules (schema.parameters.map ParameterDecl.id)
    return ⟨schema.stylesheet, schema.version, seed, root, functions, parameters, .empty⟩

def generate (choice : RootChoice) (source : Source) : Except Error (Plan × Source) :=
  match grow schema settings mode choice ⟨source, 0⟩ with
  | .ok (plan, growth) => .ok (plan, growth.source)
  | .error e => .error e

def generateMany (choice : RootChoice) : Nat → Source → List (Except Error Plan)
  | 0, _ => []
  | n + 1, source =>
    match generate schema settings mode choice source with
    | .ok (plan, source) => .ok plan :: generateMany choice n source
    | .error e => .error e :: generateMany choice n source

end TaintScan.Plan
