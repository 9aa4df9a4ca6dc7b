namespace TaintScan.Text

def excerpt (bound : Nat) (text : String) : String :=
  let cs := text.toList
  if cs.length ≤ bound then text else String.ofList (cs.take bound ++ ['.', '.', '.'])

end TaintScan.Text
