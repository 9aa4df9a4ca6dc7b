import TaintScan.Markup.Fault
import TaintScan.Text.Ascii
import TaintScan.Text.Utf8

namespace TaintScan.Markup

def isSpace (c : Char) : Bool := c == ' ' || c == '\t' || c == '\n' || c == '\r'

structure Tag where
  name : List Char
  rest : List Char
deriving DecidableEq

def Tag.ofContent (content : List Char) : Tag :=
  ⟨content.takeWhile fun c => !isSpace c, content.dropWhile fun c => !isSpace c⟩

inductive Event
  | start (tag : Tag)
  | empty (tag : Tag)
  | close (name : List Char)
  | text (raw : List Char)
  | cdata (raw : List Char)
  | comment
  | instruction
  | declaration
  | doctype
deriving DecidableEq

inductive Step
  | finished
  | event (e : Event) (rest : List Char)
  | fault (consumed : Nat) (f : Fault)

def splitAt? (stop : Char) (cs : List Char) : Option (List Char × List Char) :=
  match cs.dropWhile (· != stop) with
  | [] => none
  | _ :: rest => some (cs.takeWhile (· != stop), rest)

/-- The first closing bracket in front of which the text satisfies a condition: that text in
reverse, and the text behind the bracket. -/
def splitAtClosing? (good : List Char → Bool) :
    List Char → List Char → Option (List Char × List Char)
  | _, [] => none
  | before, c :: rest =>
    if c == '>' && good before then some (before, rest)
    else splitAtClosing? good (c :: before) rest

def endsInPair (c : Char) (before : List Char) : Bool := before.take 2 == [c, c]

def commentEnds (before : List Char) : Bool := 5 ≤ Text.byteCount before && endsInPair '-' before

def doctypeEnds (before : List Char) : Bool :=
  before.countP (· == '<') == before.countP (· == '>')

def beginsWith (word : String) (cs : List Char) : Bool :=
  Text.lowerCase (cs.take word.length) == Text.lowerCase word.toList

def sectionEvent (construct : Construct) (content : List Char) : Except Fault Event :=
  match construct with
  | .cdata =>
    if beginsWith "![CDATA[" content then .ok (.cdata ((content.drop 8).dropLast.dropLast))
    else .error (.unexpectedEnd .cdata)
  | .comment =>
    if "!--".toList.isPrefixOf content then .ok .comment else .error (.unexpectedEnd .comment)
  | _ =>
    if beginsWith "!DOCTYPE" content then
      if (content.drop 8).all isSpace then .error .emptyDoctype else .ok .doctype
    else .error (.unexpectedEnd .doctype)

def readSection (construct : Construct) (good : List Char → Bool) (cs : List Char) : Step :=
  match splitAtClosing? good [] cs with
  | none => .fault 0 (.unexpectedEnd construct)
  | some (before, rest) =>
    match sectionEvent construct before.reverse with
    | .ok e => .event e rest
    | .error f => .fault (Text.byteCount before + 1) f

def firstByteSymbol (c : Char) : Char :=
  match String.utf8EncodeChar c with
  | b :: _ => Char.ofNat b.toNat
  | [] => c

def readBang (cs : List Char) : Step :=
  match cs with
  | _ :: '[' :: _ => readSection .cdata (endsInPair ']') cs
  | _ :: '-' :: _ => readSection .comment commentEnds cs
  | _ :: c :: _ =>
    if c == 'D' || c == 'd' then readSection .doctype doctypeEnds cs
    else .fault 0 (.strayBang (firstByteSymbol c))
  | _ => .fault 0 (.unexpectedEnd .bang)

def closingName (cs : List Char) : List Char :=
  if cs.all isSpace then cs else (cs.reverse.dropWhile isSpace).reverse

def readClose (cs : List Char) : Step :=
  match splitAt? '>' cs with
  | some (name, rest) => .event (.close (closingName name)) rest
  | none => .event (.close (closingName cs)) []

def isDeclaration (content : List Char) : Bool :=
  "?xml".toList.isPrefixOf content && 5 < content.length &&
    (match content.drop 4 with
      | c :: _ => isSpace c
      | [] => false)

def readInstruction (cs : List Char) : Step :=
  let (content, rest, extra) :=
    match splitAt? '>' cs with
    | some (content, rest) => (content, rest, 1)
    | none => (cs, [], 0)
  if 2 < content.length && content.getLast? == some '?' then
    .event (if isDeclaration content then .declaration else .instruction) rest
  else .fault extra (.unexpectedEnd .instruction)

def splitTag? : Option Char → List Char → Option (List Char × List Char)
  | _, [] => none
  | quote, c :: rest =>
    match quote with
    | some q => (splitTag? (if c == q then none else some q) rest).map fun (inside, rest) =>
        (c :: inside, rest)
    | none =>
      if c == '>' then some ([], rest)
      else
        (splitTag? (if c == '"' || c == '\x27' then some c else none) rest).map
          fun (inside, rest) => (c :: inside, rest)

def readTag (cs : List Char) : Step :=
  match splitTag? none cs with
  | none => .fault 0 (.unexpectedEnd .element)
  | some (content, rest) =>
    if content.getLast? == some '/' then .event (.empty (.ofContent content.dropLast)) rest
    else .event (.start (.ofContent content)) rest

def readMarkup (cs : List Char) : Step :=
  match cs with
  | [] => .finished
  | '!' :: _ => readBang cs
  | '/' :: rest => readClose rest
  | '?' :: _ => readInstruction cs
  | _ => readTag cs

def next (cs : List Char) : Step :=
  match cs with
  | [] => .finished
  | '<' :: rest =>
    match readMarkup rest with
    | .fault consumed f => .fault (consumed + 1) f
    | step => step
  | c :: rest => .event (.text (c :: rest.takeWhile (· != '<'))) (rest.dropWhile (· != '<'))

theorem length_splitAt? {stop : Char} {cs a b : List Char} (h : splitAt? stop cs = some (a, b)) :
    b.length ≤ cs.length := by
  have suffix := (List.dropWhile_suffix (l := cs) (· != stop)).length_le
  unfold splitAt? at h
  split at h
  · exact absurd h (by simp)
  · rename_i heq
    simp only [Option.some.injEq, Prod.mk.injEq] at h
    rw [heq, List.length_cons, h.2] at suffix
    omega

theorem length_splitAtClosing? {good : List Char → Bool} {before cs a b : List Char}
    (h : splitAtClosing? good before cs = some (a, b)) : b.length ≤ cs.length := by
  induction cs generalizing before with
  | nil => simp [splitAtClosing?] at h
  | cons c rest ih =>
    rw [splitAtClosing?] at h
    split at h
    · simp only [Option.some.injEq, Prod.mk.injEq] at h
      simp [← h.2]
    · exact Nat.le_succ_of_le (ih h)

theorem length_splitTag? {quote : Option Char} {cs a b : List Char}
    (h : splitTag? quote cs = some (a, b)) : b.length ≤ cs.length := by
  induction cs generalizing quote a with
  | nil => simp [splitTag?] at h
  | cons c rest ih =>
    cases quote with
    | some q =>
      simp only [splitTag?, Option.map_eq_some_iff, Prod.mk.injEq] at h
      obtain ⟨⟨inside, rest'⟩, hs, _, rfl⟩ := h
      exact Nat.le_succ_of_le (ih hs)
    | none =>
      simp only [splitTag?] at h
      split at h
      · simp only [Option.some.injEq, Prod.mk.injEq] at h
        simp [← h.2]
      · simp only [Option.map_eq_some_iff, Prod.mk.injEq] at h
        obtain ⟨⟨inside, rest'⟩, hs, _, rfl⟩ := h
        exact Nat.le_succ_of_le (ih hs)

theorem length_readSection {construct : Construct} {good : List Char → Bool} {cs rest : List Char}
    {e : Event} (h : readSection construct good cs = .event e rest) : rest.length ≤ cs.length := by
  unfold readSection at h
  split at h
  · simp at h
  · rename_i before rest' heq
    split at h
    · simp only [Step.event.injEq] at h
      exact h.2 ▸ length_splitAtClosing? heq
    · simp at h

theorem length_readBang {cs rest : List Char} {e : Event} (h : readBang cs = .event e rest) :
    rest.length ≤ cs.length := by
  unfold readBang at h
  split at h
  · exact length_readSection h
  · exact length_readSection h
  · split at h
    · exact length_readSection h
    · simp at h
  · simp at h

theorem length_readClose {cs rest : List Char} {e : Event} (h : readClose cs = .event e rest) :
    rest.length ≤ cs.length := by
  unfold readClose at h
  split at h
  · rename_i heq
    simp only [Step.event.injEq] at h
    exact h.2 ▸ length_splitAt? heq
  · simp only [Step.event.injEq] at h
    simp [← h.2]

theorem length_readInstruction {cs rest : List Char} {e : Event}
    (h : readInstruction cs = .event e rest) : rest.length ≤ cs.length := by
  unfold readInstruction at h
  cases hs : splitAt? '>' cs with
  | none =>
    simp only [hs] at h
    split at h
    · simp only [Step.event.injEq] at h
      simp [← h.2]
    · simp at h
  | some p =>
    simp only [hs] at h
    split at h
    · simp only [Step.event.injEq] at h
      exact h.2 ▸ length_splitAt? (a := p.1) (by simpa using hs)
    · simp at h

theorem length_readTag {cs rest : List Char} {e : Event} (h : readTag cs = .event e rest) :
    rest.length ≤ cs.length := by
  unfold readTag at h
  split at h
  · simp at h
  · rename_i heq
    have shorter := length_splitTag? heq
    split at h <;> (simp only [Step.event.injEq] at h; exact h.2 ▸ shorter)

theorem length_readMarkup {cs rest : List Char} {e : Event} (h : readMarkup cs = .event e rest) :
    rest.length ≤ cs.length := by
  unfold readMarkup at h
  split at h
  · simp at h
  · exact length_readBang h
  · exact Nat.le_succ_of_le (length_readClose h)
  · exact length_readInstruction h
  · exact length_readTag h

theorem length_next {cs rest : List Char} {e : Event} (h : next cs = .event e rest) :
    rest.length < cs.length := by
  unfold next at h
  split at h
  · simp at h
  · split at h
    · simp at h
    · exact Nat.lt_succ_of_le (length_readMarkup h)
  · simp only [Step.event.injEq] at h
    exact h.2 ▸ Nat.lt_succ_of_le (List.dropWhile_suffix _).length_le

structure Reading where
  events : List Event
  fault : Option (Nat × Fault)
deriving DecidableEq

def Reading.push (e : Event) (r : Reading) : Reading := ⟨e :: r.events, r.fault⟩

def readFrom (position : Nat) (cs : List Char) : Reading :=
  match _h : next cs with
  | .finished => ⟨[], none⟩
  | .fault consumed f => ⟨[], some (position + consumed, f)⟩
  | .event e rest =>
    (readFrom (position + (Text.byteCount cs - Text.byteCount rest)) rest).push e
termination_by cs.length
decreasing_by exact length_next ‹_›

def read (cs : List Char) : Reading :=
  match cs with
  | '\uFEFF' :: rest => readFrom 0 rest
  | _ => readFrom 0 cs

end TaintScan.Markup
