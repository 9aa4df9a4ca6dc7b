import TaintScan.Analysis.Detection
import TaintScan.Analysis.Site
import TaintScan.Settings
import TaintScan.Text.Blank

namespace TaintScan

inductive Rule
  | attributeName
  | elementName
  | unescapedText
  | eventHandler
  | scriptBlock
  | styleAttribute
  | styleBlock
  | stylesheetLink
  | urlAttribute
deriving DecidableEq

namespace Rule

def all : List Rule := [
  .attributeName, .elementName, .unescapedText, .eventHandler, .scriptBlock, .styleAttribute,
  .styleBlock, .stylesheetLink, .urlAttribute]

def id : Rule → String
  | attributeName => "A.1"
  | elementName => "E.1"
  | unescapedText => "E.3"
  | eventHandler => "H.1"
  | scriptBlock => "J.1"
  | styleAttribute => "S.1"
  | styleBlock => "S.2"
  | stylesheetLink => "S.3"
  | urlAttribute => "U.1"

def ofId? (s : String) : Option Rule := all.find? fun r => r.id == s

theorem mem_all (r : Rule) : r ∈ all := by cases r <;> decide

theorem id_injective {r s : Rule} (h : r.id = s.id) : r = s := by
  cases r <;> cases s <;> first | rfl | (revert h; decide)

def description : Rule → String
  | attributeName => "Attribute name built from input"
  | elementName => "Element name built from input"
  | unescapedText => "Text written with output escaping disabled"
  | eventHandler => "Input inside an event handler attribute"
  | scriptBlock => "Input inside a script block"
  | styleAttribute => "Input inside a style attribute"
  | styleBlock => "Input inside a style block"
  | stylesheetLink => "Input controls a stylesheet link"
  | urlAttribute => "Input controls a URL attribute"

def category : Rule → SiteCategory
  | attributeName => .attr
  | elementName => .element
  | unescapedText => .text
  | eventHandler => .attr
  | scriptBlock => .data
  | styleAttribute => .attr
  | styleBlock => .data
  | stylesheetLink => .attr
  | urlAttribute => .attr

/-- A character that is a letter of the English alphabet when its case is folded. Two characters
beyond ASCII are: the long s and the sign of the kelvin. -/
def foldsToLetter (c : Char) : Bool := c.isAlpha || c == '\u017F' || c == '\u212A'

def isHandlerName (name : String) : Bool :=
  match name.toList with
  | o :: n :: c :: rest =>
    o.toLower == 'o' && n.toLower == 'n' && (c :: rest).all foldsToLetter
  | _ => false

def linksStylesheet (e : Element) : Bool :=
  e.isNamed "link" && (e.attr? "rel").any fun rel =>
    (Text.words rel.toList).any fun word =>
      Text.sameIgnoringCase (String.ofList word) "stylesheet"

def isApplicable (r : Rule) (s : Site) (settings : AnalyzerSettings) : Bool :=
  match r, s.content with
  | attributeName, .attr _ _ => true
  | elementName, .tag => true
  | unescapedText, .text _ => true
  | eventHandler, .attr name _ => isHandlerName name
  | scriptBlock, .data _ => s.element.isNamed "script"
  | styleAttribute, .attr name _ => Text.sameIgnoringCase name "style"
  | styleBlock, .data _ => s.element.isNamed "style"
  | stylesheetLink, .attr name _ =>
    Text.sameIgnoringCase name "href" && linksStylesheet s.element
  | urlAttribute, .attr name _ => settings.isUrlAttribute name
  | _, _ => false

def probe (r : Rule) (s : Site) : Option String :=
  match r with
  | attributeName => s.attrName?
  | elementName => s.tagName?
  | unescapedText => s.ownText?
  | eventHandler => s.attrValue?
  | scriptBlock => s.ownText?
  | styleAttribute => s.attrValue?
  | styleBlock => s.ownText?
  | stylesheetLink => s.attrValue?
  | urlAttribute => s.attrValue?

def replacement (r : Rule) (marker : String) (settings : AnalyzerSettings) : String :=
  match r with
  | attributeName => settings.attackAttribute
  | elementName => settings.attackElement
  | unescapedText => "<" ++ marker ++ "></" ++ marker ++ ">"
  | eventHandler => "');" ++ marker ++ "();//"
  | scriptBlock => "';" ++ marker ++ "();//"
  | styleAttribute => "x;background:url(" ++ marker ++ ")"
  | styleBlock => "\x7d" ++ marker ++ "\x7bbackground:url(" ++ marker ++ ")\x7d"
  | stylesheetLink => "//" ++ marker ++ ".invalid/x.css"
  | urlAttribute => "javascript:" ++ marker ++ "()"

def expectation (r : Rule) (marker : String) (settings : AnalyzerSettings) : String :=
  match r with
  | attributeName => settings.attackAttribute
  | elementName => settings.attackElement
  | _ => marker

def code (r : Rule) : String :=
  String.ofList (Text.lowerCase (r.id.toList.filter Char.isAlphanum))

end Rule

end TaintScan
