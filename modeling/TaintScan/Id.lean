import TaintScan.Uuid
import TaintScan.Json.Decode

namespace TaintScan

structure ObjectId where
  uuid : Uuid
deriving DecidableEq, Inhabited, Hashable

structure RuleId where
  uuid : Uuid
deriving DecidableEq, Inhabited, Hashable

namespace ObjectId

def text (id : ObjectId) : String := id.uuid.text

def ofText? (s : String) : Option ObjectId := (Uuid.ofText? s).map ObjectId.mk

def toJson (id : ObjectId) : Json.Value := .string id.text

def decoder : Json.Decoder ObjectId := .textAs ofText?

end ObjectId

namespace RuleId

def nil : RuleId := ⟨Uuid.nil⟩

def text (id : RuleId) : String := id.uuid.text

def short (id : RuleId) : String := id.uuid.short

def fold (id : RuleId) : UInt64 := id.uuid.fold

def ofText? (s : String) : Option RuleId := (Uuid.ofText? s).map RuleId.mk

def toJson (id : RuleId) : Json.Value := .string id.text

def decoder : Json.Decoder RuleId := .textAs ofText?

end RuleId

end TaintScan
