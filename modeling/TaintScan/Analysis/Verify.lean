import TaintScan.Analysis.Rule
import TaintScan.Uri.Reader

namespace TaintScan.Verification

def sampleBound : Nat := 120

def confirm (sample : String) : Verification := .confirmed (Text.excerpt sampleBound sample)

def quote (s : String) : String := "'" ++ s ++ "'"

def atElement (p : Payload) (o : Output) (check : Element → Verification) : Verification :=
  match p.path.resolve o with
  | some e => check e
  | none => .refuted ("No element at " ++ p.path.text ++ " in the confirmation output")

def atAttribute (e : Element) (name : String) (check : String → Verification) : Verification :=
  match e.attr? name with
  | some value => check value
  | none => .refuted (quote name ++ " is missing")

def inAttribute (p : Payload) (o : Output) (name : String) : Verification :=
  atElement p o fun e => atAttribute e name fun value =>
    if Text.contains value p.replacement then confirm (Site.attributeText name value)
    else .refuted (quote name ++ " is altered or escaped")

def inData (p : Payload) (o : Output) (name : String) : Verification :=
  atElement p o fun e =>
    if e.isNamed name then
      if Text.contains e.ownText p.replacement then confirm e.ownText
      else .refuted "Injected code is altered or escaped"
    else .refuted ("Element is no longer " ++ quote name)

def newAttribute (p : Payload) (o : Output) : Verification :=
  atElement p o fun e =>
    if p.baselineAttributes.any fun known => Text.sameIgnoringCase known p.marker then
      .refuted (quote p.marker ++ " was already present")
    else if (e.attr? p.marker).isSome then confirm e.startTag
    else .refuted ("No new " ++ quote p.marker ++ " attribute")

def renamed (p : Payload) (o : Output) : Verification :=
  atElement p o fun e =>
    if e.isNamed p.marker then confirm e.startTag
    else .refuted ("Element is " ++ quote e.name)

def injectedElement (p : Payload) (o : Output) : Verification :=
  atElement p o fun e =>
    match (Node.elementsInAll e.children).find? fun inner => inner.isNamed p.marker with
    | some inner => confirm inner.startTag
    | none => .refuted "Injected markup was escaped"

def linkBase : Uri where
  scheme := "http"
  authority := some ⟨.nobody, .name "xsltxss.invalid".toList, none⟩
  path := .rooted [[]]
  query := none
  fragment := none

def expectedHost (p : Payload) : String := p.marker ++ ".invalid"

variable [Uri.Idna]

def redirected (p : Payload) (o : Output) : Verification :=
  atElement p o fun e => atAttribute e "href" fun href =>
    match linkBase.join (String.ofList (Text.trim href.toList)) with
    | .error fault => .refuted ("Unparseable href: " ++ fault.message)
    | .ok uri =>
      if uri.hostText? = some (expectedHost p) then confirm (Site.attributeText "href" href)
      else .refuted ("Stylesheet loads from " ++ uri.hostText?.getD "no host")

def runsScript (p : Payload) (name value : String) : Verification :=
  match Uri.read (String.ofList (Text.trim value.toList)) with
  | .error _ => .refuted "URL does not start with a scheme"
  | .ok uri =>
    if uri.scheme = "javascript" ∧ Text.contains uri.pathText p.marker then
      confirm (Site.attributeText name value)
    else .refuted ("URL scheme is " ++ quote uri.scheme)

def scriptUri (p : Payload) (o : Output) : Verification :=
  atElement p o fun e =>
    match p.attributeName with
    | some name => atAttribute e name (runsScript p name)
    | none => .refuted "No URL attribute recorded"

end TaintScan.Verification

namespace TaintScan.Rule

def verify [Uri.Idna] (r : Rule) (p : Payload) (o : Output) : Verification :=
  match r with
  | attributeName => Verification.newAttribute p o
  | elementName => Verification.renamed p o
  | unescapedText => Verification.injectedElement p o
  | eventHandler =>
    match p.attributeName with
    | some name => Verification.inAttribute p o name
    | none => .refuted "No handler attribute recorded"
  | scriptBlock => Verification.inData p o "script"
  | styleAttribute => Verification.inAttribute p o "style"
  | styleBlock => Verification.inData p o "style"
  | stylesheetLink => Verification.redirected p o
  | urlAttribute => Verification.scriptUri p o

end TaintScan.Rule
