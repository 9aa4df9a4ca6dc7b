namespace TaintScan

inductive ObjectKind
  | elementType
  | attributeDecl
  | elementReference
  | function
  | parameter
deriving DecidableEq

namespace ObjectKind

def text : ObjectKind → String
  | elementType => "element type"
  | attributeDecl => "attribute"
  | elementReference => "element reference"
  | function => "extension function"
  | parameter => "stylesheet parameter"

end ObjectKind

end TaintScan
