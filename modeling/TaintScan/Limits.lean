import TaintScan.Error

namespace TaintScan

structure Limits where
  maxElements : UInt64
  maxUnboundedOccurrences : UInt32
  maxDocumentSize : UInt64
  maxOutputSize : UInt64
deriving DecidableEq

namespace Limits

def standard : Limits := ⟨200, 3, 10485760, 52428800⟩

instance : Inhabited Limits := ⟨standard⟩

def strict : Limits := ⟨50, 2, 1048576, 5242880⟩

def permissive : Limits := ⟨5000, 10, 104857600, 524288000⟩

def allowsExpansion (limits : Limits) (count : Nat) : Bool := count < limits.maxElements.toNat

def occurrenceUpperBound (limits : Limits) (least : UInt32) (most : Option UInt32) : UInt32 :=
  match most with
  | some most => max most least
  | none => max least limits.maxUnboundedOccurrences

def checkDocumentSize (limits : Limits) (size : Nat) : Except Error Unit :=
  if limits.maxDocumentSize.toNat < size then
    .error (.limit (.document size limits.maxDocumentSize.toNat))
  else .ok ()

def checkOutputSize (limits : Limits) (size : Nat) : Except Error Unit :=
  if limits.maxOutputSize.toNat < size then
    .error (.limit (.output size limits.maxOutputSize.toNat))
  else .ok ()

def toJson (limits : Limits) : Json.Value := .object [
  ("max_elements", .nat limits.maxElements.toNat),
  ("max_unbounded_occurrences", .nat limits.maxUnboundedOccurrences.toNat),
  ("max_document_size", .nat limits.maxDocumentSize.toNat),
  ("max_output_size", .nat limits.maxOutputSize.toNat)]

def decoder : Json.Decoder Limits :=
  .record ["max_elements", "max_unbounded_occurrences", "max_document_size", "max_output_size"]
    fun fields => Limits.mk
      <$> fields.get "max_elements" .uint64 (some standard.maxElements)
      <*> fields.get "max_unbounded_occurrences" .uint32 (some standard.maxUnboundedOccurrences)
      <*> fields.get "max_document_size" .uint64 (some standard.maxDocumentSize)
      <*> fields.get "max_output_size" .uint64 (some standard.maxOutputSize)

end Limits

end TaintScan
