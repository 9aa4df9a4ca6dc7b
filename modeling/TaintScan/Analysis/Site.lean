import TaintScan.Output.Path
import TaintScan.Text.Excerpt

namespace TaintScan

inductive SiteCategory
  | element
  | attr
  | text
  | data
deriving DecidableEq

namespace SiteCategory

def name : SiteCategory → String
  | element => "element"
  | attr => "attribute"
  | text => "text"
  | data => "data"

end SiteCategory

/-- What stands at a site: the tag of an element, one of its attributes, or a child that is no
element. -/
inductive SiteContent
  | tag
  | attr (name value : String)
  | text (content : String)
  | data (content : String)
deriving DecidableEq

structure Site where
  path : NodePath
  element : Element
  content : SiteContent

namespace Site

def category (s : Site) : SiteCategory :=
  match s.content with
  | .tag => .element
  | .attr _ _ => .attr
  | .text _ => .text
  | .data _ => .data

def tagName? (s : Site) : Option String :=
  match s.content with
  | .tag => some s.element.name
  | _ => none

def attrName? (s : Site) : Option String :=
  match s.content with
  | .attr name _ => some name
  | _ => none

def attrValue? (s : Site) : Option String :=
  match s.content with
  | .attr _ value => some value
  | _ => none

def ownText? (s : Site) : Option String :=
  match s.content with
  | .text content => some content
  | .data content => some content
  | _ => none

def attributeText (name value : String) : String := name ++ "=\"" ++ value ++ "\""

def sample (s : Site) (bound : Nat) : String :=
  Text.excerpt bound (match s.content with
    | .tag => s.element.startTag
    | .attr name value => attributeText name value
    | .text content => content
    | .data content => content)

def ofTag (path : NodePath) (e : Element) : List Site :=
  ⟨path, e, .tag⟩ :: e.attributes.entries.map fun a => ⟨path, e, .attr a.1 a.2⟩

end Site

mutual

def Node.sites (path : NodePath) : Node → List Site
  | .element name attributes children =>
    Site.ofTag path ⟨name, attributes, children⟩ ++
      Node.childSites path ⟨name, attributes, children⟩ 0 children
  | .text _ => []
  | .data _ => []

def Node.childSites (path : NodePath) (parent : Element) (index : Nat) : List Node → List Site
  | [] => []
  | .element name attributes children :: rest =>
    Node.sites (path.child index) (.element name attributes children) ++
      Node.childSites path parent (index + 1) rest
  | .text content :: rest => ⟨path, parent, .text content⟩ :: Node.childSites path parent index rest
  | .data content :: rest => ⟨path, parent, .data content⟩ :: Node.childSites path parent index rest

end

namespace Output

def sitesFrom (index : Nat) : List Element → List Site
  | [] => []
  | e :: rest => e.toNode.sites (NodePath.root.child index) ++ sitesFrom (index + 1) rest

def sites (o : Output) : List Site := sitesFrom 0 o.elements

end Output

end TaintScan
