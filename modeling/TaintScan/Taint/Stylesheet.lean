import TaintScan.Location
import TaintScan.Taint.Selection

namespace TaintScan.Marker.Selection

def forStylesheet [Uri.Idna] (s : Selection) (limits : Limits) (files : Files) (uri : String) :
    Except Error Marker :=
  match Location.ofText files uri with
  | .inline _ => .error (.resource (.unlocated uri))
  | location => (location.load limits files).bind s.forText

end TaintScan.Marker.Selection
