import TaintScan.Markup.Fragment
import TaintScan.Proofs.Markup.Tag

namespace TaintScan.Markup

def endTag (name : List Char) : List Char := '<' :: '/' :: (name ++ ['>'])

def Stops (reads : List Char → Step) (front : List Char) : Prop :=
  ∃ e rest, rest <:+ front ∧ ∀ tail, reads (front ++ tail) = .event e (rest ++ tail)

/-- There is no event, or it takes the end tag behind the front with it and is not that end tag. -/
def Overruns (name : List Char) (reads : List Char → Step) (front : List Char) : Prop :=
  (∃ e, reads (front ++ endTag name) = .event e [] ∧ e ≠ .close name) ∨
    ∃ consumed f, reads (front ++ endTag name) = .fault consumed f

section Splits

variable {front : List Char}

theorem splitAt?_cons (stop c : Char) (cs : List Char) : splitAt? stop (c :: cs) =
    if c = stop then some ([], cs) else (splitAt? stop cs).map fun found => (c :: found.1, found.2) := by
  by_cases same : c = stop
  · simp [splitAt?, same]
  · simp only [splitAt?, if_neg same, List.dropWhile_cons_of_pos (p := (· != stop)) (by simpa using same),
      List.takeWhile_cons_of_pos (p := (· != stop)) (by simpa using same)]
    cases cs.dropWhile (· != stop) <;> rfl

theorem splitAt?_append (stop : Char) (front : List Char) :
    (∃ inside rest, ∀ tail, splitAt? stop (front ++ tail) = some (inside, rest ++ tail)) ∨
    ∀ tail, splitAt? stop (front ++ tail) =
      (splitAt? stop tail).map fun found => (front ++ found.1, found.2) := by
  induction front with
  | nil => exact .inr fun tail => by simp
  | cons c front ih =>
    by_cases same : c = stop
    · exact .inl ⟨[], front, fun tail => by rw [List.cons_append, splitAt?_cons, if_pos same]⟩
    · rcases ih with ⟨inside, rest, found⟩ | goesOn
      · refine .inl ⟨c :: inside, rest, fun tail => ?_⟩
        rw [List.cons_append, splitAt?_cons, if_neg same, found]
        rfl
      · refine .inr fun tail => ?_
        rw [List.cons_append, splitAt?_cons, if_neg same, goesOn, Option.map_map]
        rfl

theorem splitAtClosing?_append (good : List Char → Bool) (front before : List Char) :
    (∃ inside rest, ∀ tail, splitAtClosing? good before (front ++ tail) = some (inside, rest ++ tail)) ∨
    ∀ tail, splitAtClosing? good before (front ++ tail) =
      splitAtClosing? good (front.reverse ++ before) tail := by
  induction front generalizing before with
  | nil => exact .inr fun tail => rfl
  | cons c front ih =>
    by_cases ends : (c == '>' && good before) = true
    · exact .inl ⟨before, front, fun tail => by rw [List.cons_append, splitAtClosing?, if_pos ends]⟩
    · rcases ih (c :: before) with ⟨inside, rest, found⟩ | goesOn
      · refine .inl ⟨inside, rest, fun tail => ?_⟩
        rw [List.cons_append, splitAtClosing?, if_neg ends, found]
      · refine .inr fun tail => ?_
        rw [List.cons_append, splitAtClosing?, if_neg ends, goesOn]
        simp

theorem splitTag?_append (front : List Char) (quote : Option Char) :
    (∃ inside rest, ∀ tail, splitTag? quote (front ++ tail) = some (inside, rest ++ tail)) ∨
    ∃ behind, ∀ tail, splitTag? quote (front ++ tail) =
      (splitTag? behind tail).map fun found => (front ++ found.1, found.2) := by
  induction front generalizing quote with
  | nil => exact .inr ⟨quote, fun tail => by simp⟩
  | cons c front ih =>
    have step (next : Option Char) (passes : ∀ tail, splitTag? quote (c :: tail) =
        (splitTag? next tail).map fun found => (c :: found.1, found.2)) :
        (∃ inside rest, ∀ tail, splitTag? quote (c :: front ++ tail) = some (inside, rest ++ tail)) ∨
        ∃ behind, ∀ tail, splitTag? quote (c :: front ++ tail) =
          (splitTag? behind tail).map fun found => (c :: front ++ found.1, found.2) := by
      rcases ih next with ⟨inside, rest, found⟩ | ⟨behind, goesOn⟩
      · exact .inl ⟨c :: inside, rest, fun tail => by rw [List.cons_append, passes, found]; rfl⟩
      · refine .inr ⟨behind, fun tail => ?_⟩
        rw [List.cons_append, passes, goesOn, Option.map_map]
        rfl
    cases quote with
    | some q => exact step _ fun tail => by rw [splitTag?]
    | none =>
      by_cases ends : (c == '>') = true
      · exact .inl ⟨[], front, fun tail => by rw [List.cons_append, splitTag?, if_pos ends]⟩
      · exact step _ fun tail => by rw [splitTag?, if_neg ends]

variable {cs inside rest : List Char}

theorem eq_of_splitAt? {stop : Char} (h : splitAt? stop cs = some (inside, rest)) :
    cs = inside ++ stop :: rest := by
  induction cs generalizing inside with
  | nil => cases h
  | cons c cs ih =>
    rw [splitAt?_cons] at h
    split at h
    · rename_i same
      cases h
      rw [same, List.nil_append]
    · obtain ⟨⟨within, behind⟩, found, same⟩ := Option.map_eq_some_iff.mp h
      cases same
      rw [ih found, List.cons_append]

theorem eq_of_splitAtClosing? {good : List Char → Bool} {before : List Char}
    (h : splitAtClosing? good before cs = some (inside, rest)) : ∃ within, cs = within ++ '>' :: rest := by
  induction cs generalizing before with
  | nil => cases h
  | cons c cs ih =>
    rw [splitAtClosing?] at h
    split at h
    · rename_i ends
      cases h
      have same : c = '>' := by simpa using (Bool.and_eq_true_iff.mp ends).1
      exact ⟨[], by rw [same, List.nil_append]⟩
    · obtain ⟨within, split⟩ := ih h
      exact ⟨c :: within, by rw [split, List.cons_append]⟩

theorem eq_of_splitTag? {quote : Option Char} (h : splitTag? quote cs = some (inside, rest)) :
    cs = inside ++ '>' :: rest := by
  induction cs generalizing quote inside with
  | nil => cases h
  | cons c cs ih =>
    cases quote with
    | some q =>
      obtain ⟨⟨within, behind⟩, found, same⟩ := Option.map_eq_some_iff.mp h
      cases same
      rw [ih found, List.cons_append]
    | none =>
      rw [splitTag?] at h
      split at h
      · rename_i ends
        cases h
        rw [show c = '>' by simpa using ends, List.nil_append]
      · obtain ⟨⟨within, behind⟩, found, same⟩ := Option.map_eq_some_iff.mp h
        cases same
        rw [ih found, List.cons_append]

theorem suffix_of_split {c : Char} (split : front ++ [] = inside ++ c :: (rest ++ [])) :
    rest <:+ front :=
  ⟨inside ++ [c], by simpa using split.symm⟩

end Splits

section Readers

variable {name : List Char}

theorem bare_endTag (solid : Name.Solid name) : ∀ c ∈ '<' :: '/' :: name, c ≠ '>' := by
  refine List.forall_mem_cons.mpr ⟨by decide, List.forall_mem_cons.mpr ⟨by decide, ?_⟩⟩
  exact fun c member => (unquoted_of_solid solid c member).1

theorem endTag_split (solid : Name.Solid name) {inside rest : List Char}
    (h : endTag name = inside ++ '>' :: rest) : rest = [] := by
  have whole : ('<' :: '/' :: name) ++ ['>'] = inside ++ '>' :: rest := h
  rcases List.eq_nil_or_concat rest with rfl | ⟨front, last, rfl⟩
  · rfl
  · rw [List.concat_eq_append, ← List.cons_append, ← List.append_assoc] at whole
    have inner := (List.append_inj' whole rfl).1
    exact absurd rfl (bare_endTag solid '>' (by rw [inner]; simp))

theorem splitAt?_endTag (solid : Name.Solid name) :
    splitAt? '>' (endTag name) = some ('<' :: '/' :: name, []) :=
  splitAt?_of_bare (bare_endTag solid)

theorem mem_closingName {c : Char} {cs : List Char} (member : c ∈ cs) (solid : isSpace c = false) :
    c ∈ closingName cs := by
  unfold closingName
  split
  · exact member
  · obtain ⟨front, back, rfl⟩ := List.append_of_mem member
    rw [List.mem_reverse, List.reverse_append, List.reverse_cons, List.append_assoc]
    rw [List.dropWhile_append]
    split
    · simp [solid]
    · simp

theorem readTag_front (solid : Name.Solid name) (front : List Char) :
    Stops readTag front ∨ Overruns name readTag front := by
  rcases splitTag?_append front none with ⟨inside, rest, found⟩ | ⟨behind, goesOn⟩
  · have behind := suffix_of_split (eq_of_splitTag? (found []))
    refine .inl ?_
    by_cases slash : (inside.getLast? == some '/') = true
    · exact ⟨.empty (.ofContent inside.dropLast), rest, behind, fun tail => by
        simp only [readTag, found tail, if_pos slash]⟩
    · exact ⟨.start (.ofContent inside), rest, behind, fun tail => by
        simp only [readTag, found tail, if_neg slash]⟩
  · refine .inr ?_
    unfold Overruns readTag
    rw [goesOn]
    cases found : splitTag? behind (endTag name) with
    | none => exact .inr ⟨_, _, rfl⟩
    | some p =>
      have finishes := endTag_split solid (eq_of_splitTag? found)
      refine .inl ?_
      simp only [Option.map_some, finishes]
      split
      · exact ⟨_, rfl, by simp⟩
      · exact ⟨_, rfl, by simp⟩

theorem sectionEvent_ne_close {construct : Construct} {content : List Char} {e : Event}
    (made : sectionEvent construct content = .ok e) : e ≠ .close name := by
  rintro rfl
  unfold sectionEvent at made
  repeat' split at made
  all_goals cases made

theorem readSection_front (solid : Name.Solid name) (construct : Construct)
    (good : List Char → Bool) (front : List Char) :
    Stops (readSection construct good) front ∨ Overruns name (readSection construct good) front := by
  rcases splitAtClosing?_append good front [] with ⟨inside, rest, found⟩ | goesOn
  · cases made : sectionEvent construct inside.reverse with
    | ok e =>
      obtain ⟨within, split⟩ := eq_of_splitAtClosing? (found [])
      refine .inl ⟨e, rest, suffix_of_split split, fun tail => ?_⟩
      simp only [readSection, found tail, made]
    | error f => exact .inr (.inr ⟨Text.byteCount inside + 1, f, by simp only [readSection, found, made]⟩)
  · refine .inr ?_
    unfold Overruns readSection
    rw [goesOn]
    split
    · exact .inr ⟨_, _, rfl⟩
    · rename_i before behind found
      obtain ⟨inside, split⟩ := eq_of_splitAtClosing? found
      obtain rfl := endTag_split solid split
      split
      · rename_i e made
        exact .inl ⟨e, rfl, sectionEvent_ne_close made⟩
      · exact .inr ⟨_, _, rfl⟩

theorem front_of_same {reads others : List Char → Step} {front : List Char}
    (same : ∀ tail, others (front ++ tail) = reads (front ++ tail))
    (known : Stops reads front ∨ Overruns name reads front) :
    Stops others front ∨ Overruns name others front := by
  rcases known with ⟨e, rest, behind, stops⟩ | overruns
  · exact .inl ⟨e, rest, behind, fun tail => by rw [same, stops]⟩
  · refine .inr ?_
    rw [Overruns, same]
    exact overruns

theorem readBang_front (solid : Name.Solid name) (front : List Char) :
    Stops readBang ('!' :: front) ∨ Overruns name readBang ('!' :: front) := by
  cases front with
  | nil => exact .inr (.inr ⟨_, _, rfl⟩)
  | cons c front =>
    -- The first two characters decide, and they are of the front.
    by_cases cdata : c = '['
    · subst cdata
      exact front_of_same (fun tail => rfl) (readSection_front solid .cdata _ _)
    by_cases comment : c = '-'
    · subst comment
      exact front_of_same (fun tail => rfl) (readSection_front solid .comment _ _)
    by_cases doctype : (c == 'D' || c == 'd') = true
    · refine front_of_same (fun tail => ?_) (readSection_front solid .doctype doctypeEnds _)
      simp [readBang, doctype]
    · exact .inr (.inr ⟨0, .strayBang (firstByteSymbol c), by simp [readBang, doctype]⟩)

theorem readClose_front (solid : Name.Solid name) (front : List Char) :
    Stops readClose front ∨ Overruns name readClose front := by
  rcases splitAt?_append '>' front with ⟨inside, rest, found⟩ | goesOn
  · refine .inl ⟨.close (closingName inside), rest, suffix_of_split (eq_of_splitAt? (found [])), ?_⟩
    exact fun tail => by simp only [readClose, found tail]
  · refine .inr (.inl ⟨.close (closingName (front ++ '<' :: '/' :: name)), ?_, fun same => ?_⟩)
    · simp only [readClose, goesOn, splitAt?_endTag solid, Option.map_some]
    · -- The name that is read holds the bracket that opens the end tag.
      have bracket : '<' ∈ closingName (front ++ '<' :: '/' :: name) :=
        mem_closingName (by simp) (by decide)
      rw [Event.close.inj same] at bracket
      exact Name.ne_of_isNameChar (solid.chars _ bracket) (by decide) rfl

theorem readInstruction_front (solid : Name.Solid name) (front : List Char) :
    Stops readInstruction front ∨ Overruns name readInstruction front := by
  rcases splitAt?_append '>' front with ⟨inside, rest, found⟩ | goesOn
  · by_cases ends : (2 < inside.length && inside.getLast? == some '?') = true
    · refine .inl ⟨if isDeclaration inside then .declaration else .instruction, rest,
        suffix_of_split (eq_of_splitAt? (found [])), fun tail => ?_⟩
      simp only [readInstruction, found tail, if_pos ends]
    · exact .inr (.inr ⟨1, .unexpectedEnd .instruction, by
        simp only [readInstruction, found, if_neg ends]⟩)
  · have last : (front ++ '<' :: '/' :: name).getLast? ≠ some '?' := by
      obtain ⟨begin, final, rfl⟩ := (List.eq_nil_or_concat name).resolve_left solid.nonempty
      have known := Name.ne_of_isNameChar (d := '?') (solid.chars final (by simp)) (by decide)
      rw [List.concat_eq_append, ← List.cons_append, ← List.cons_append, ← List.append_assoc,
        List.getLast?_concat]
      simpa using known
    refine .inr (.inr ⟨1, .unexpectedEnd .instruction, ?_⟩)
    simp only [readInstruction, goesOn, splitAt?_endTag solid, Option.map_some]
    rw [beq_eq_false_iff_ne.mpr last, Bool.and_false]
    rfl

theorem takeWhile_append_of_neg {p : Char → Bool} {c : Char} (ends : p c = false)
    (front tail : List Char) : (front ++ c :: tail).takeWhile p = front.takeWhile p := by
  induction front with
  | nil => simp [ends]
  | cons d front ih => simp only [List.cons_append, List.takeWhile_cons, ih]

theorem dropWhile_append_of_neg {p : Char → Bool} {c : Char} (ends : p c = false)
    (front tail : List Char) : (front ++ c :: tail).dropWhile p = front.dropWhile p ++ c :: tail := by
  induction front with
  | nil => simp [ends]
  | cons d front ih =>
    by_cases goesOn : p d = true
    · simpa [goesOn] using ih
    · simp [goesOn]

theorem readMarkup_front (solid : Name.Solid name) (front : List Char) :
    Stops readMarkup front ∨ Overruns name readMarkup front := by
  cases front with
  | nil => exact .inr ((readTag_front solid []).resolve_left fun ⟨_, _, _, stops⟩ => nomatch stops [])
  | cons c front =>
    by_cases bang : c = '!'
    · subst bang
      exact front_of_same (fun tail => rfl) (readBang_front solid front)
    by_cases slash : c = '/'
    · subst slash
      rcases readClose_front solid front with ⟨e, rest, behind, stops⟩ | overruns
      · exact .inl ⟨e, rest, behind.trans (List.suffix_cons '/' front), stops⟩
      · exact .inr overruns
    by_cases question : c = '?'
    · subst question
      exact front_of_same (fun tail => rfl) (readInstruction_front solid ('?' :: front))
    · refine front_of_same (fun tail => ?_) (readTag_front solid (c :: front))
      simp [readMarkup, bang, slash, question]

theorem next_front (solid : Name.Solid name) {front : List Char} (some : front ≠ []) :
    (∃ e rest, rest <:+ front ∧
      ∀ tail, next (front ++ '<' :: tail) = .event e (rest ++ '<' :: tail)) ∨
      Overruns name next front := by
  obtain ⟨c, front, rfl⟩ := List.exists_cons_of_ne_nil some
  by_cases bracket : c = '<'
  · subst bracket
    rcases readMarkup_front solid front with ⟨e, rest, behind, stops⟩ | overruns
    · refine .inl ⟨e, rest, behind.trans (List.suffix_cons '<' front), fun tail => ?_⟩
      exact next_of_readMarkup (stops _)
    · refine .inr ?_
      unfold Overruns
      rw [List.cons_append, next]
      rcases overruns with ⟨e, read, other⟩ | ⟨consumed, f, read⟩
      · exact .inl ⟨e, by rw [read], other⟩
      · exact .inr ⟨consumed + 1, f, by rw [read]⟩
  · refine .inl ⟨.text (c :: front.takeWhile (· != '<')), front.dropWhile (· != '<'), ?_, fun tail => ?_⟩
    · exact (List.dropWhile_suffix _).trans (List.suffix_cons c front)
    have ended : ('<' != '<') = false := by decide
    rw [List.cons_append, next_text bracket, takeWhile_append_of_neg (p := (· != '<')) ended,
      dropWhile_append_of_neg (p := (· != '<')) ended]

end Readers

/-- The events that are over within the front of a text, and what is left of the front. -/
inductive Passes : List Char → List Event → List Char → Prop
  | done {front : List Char} : Passes front [] front
  | event {front rest final : List Char} {e : Event} {es : List Event} (behind : rest <:+ front)
    (read : ∀ tail, next (front ++ '<' :: tail) = .event e (rest ++ '<' :: tail))
    (more : Passes rest es final) : Passes front (e :: es) final

theorem Passes.readFrom {front rest : List Char} {es : List Event} (h : Passes front es rest)
    (tail : List Char) (position : Nat) : ∃ behind, readFrom position (front ++ '<' :: tail) =
      ⟨es ++ (readFrom behind (rest ++ '<' :: tail)).events,
        (readFrom behind (rest ++ '<' :: tail)).fault⟩ := by
  induction h generalizing position with
  | done => exact ⟨position, rfl⟩
  | event _ read _ ih =>
    rw [readFrom_of_next (read tail)]
    obtain ⟨behind, same⟩ := ih _
    exact ⟨behind, by rw [same]; rfl⟩

theorem exists_passes {name : List Char} (solid : Name.Solid name) (front : List Char) :
    ∃ es rest, Passes front es rest ∧ (rest = [] ∨ Overruns name next rest) := by
  by_cases empty : front = []
  · exact ⟨[], front, .done, .inl empty⟩
  · rcases next_front solid empty with ⟨e, between, behind, read⟩ | overruns
    · have shorter : between.length < front.length := by
        simpa using length_next (read [])
      obtain ⟨es, rest, passes, ends⟩ := exists_passes solid between
      exact ⟨e :: es, rest, .event behind read passes, ends⟩
    · exact ⟨[], front, .done, .inr overruns⟩
termination_by front.length

section Close

variable {cs rest name : List Char}

theorem readSection_ne_close {construct : Construct} {good : List Char → Bool} :
    readSection construct good cs ≠ .event (.close name) rest := by
  intro read
  unfold readSection at read
  split at read
  · cases read
  · split at read
    · rename_i made
      cases read
      exact sectionEvent_ne_close made rfl
    · cases read

theorem readBang_ne_close : readBang cs ≠ .event (.close name) rest := by
  intro read
  unfold readBang at read
  split at read
  · exact readSection_ne_close read
  · exact readSection_ne_close read
  · split at read
    · exact readSection_ne_close read
    · cases read
  · cases read

theorem readInstruction_ne_close : readInstruction cs ≠ .event (.close name) rest := by
  have other (content : List Char) :
      (if isDeclaration content then Event.declaration else .instruction) ≠ .close name := by
    split
    · nofun
    · nofun
  intro read
  unfold readInstruction at read
  cases found : splitAt? '>' cs with
  | none =>
    simp only [found] at read
    split at read
    · exact other _ (Step.event.inj read).1
    · cases read
  | some p =>
    simp only [found] at read
    split at read
    · exact other _ (Step.event.inj read).1
    · cases read

theorem readTag_ne_close : readTag cs ≠ .event (.close name) rest := by
  intro read
  unfold readTag at read
  split at read
  · cases read
  · split at read
    · cases read
    · cases read

theorem exists_close (read : next cs = .event (.close name) rest) (more : rest ≠ []) :
    ∃ inside, name = closingName inside ∧ cs = '<' :: '/' :: (inside ++ '>' :: rest) := by
  unfold next at read
  split at read
  · cases read
  · rename_i cs
    have markup : readMarkup cs = .event (.close name) rest := by
      split at read
      · cases read
      · exact read
    unfold readMarkup at markup
    split at markup
    · cases markup
    · exact absurd markup readBang_ne_close
    · rename_i inner
      unfold readClose at markup
      split at markup
      · rename_i inside behind found
        cases markup
        exact ⟨inside, rfl, by rw [eq_of_splitAt? found]⟩
      · cases markup
        exact absurd rfl more
    · exact absurd markup readInstruction_ne_close
    · exact absurd markup readTag_ne_close
  · cases read

theorem prefix_of_closingName (cs : List Char) : closingName cs <+: cs := by
  unfold closingName
  split
  · exact List.prefix_rfl
  · rw [← List.reverse_suffix, List.reverse_reverse]
    exact List.dropWhile_suffix _

theorem Passes.infix_of_close {front : List Char} {es : List Event} (h : Passes front es rest)
    (member : .close name ∈ es) : '<' :: '/' :: name <:+: front := by
  induction h with
  | done => cases member
  | @event front rest _ _ _ behind read _ ih =>
    rcases List.mem_cons.mp member with same | member
    · subst same
      obtain ⟨inside, rfl, split⟩ := exists_close (read []) (by simp)
      have whole : front = '<' :: '/' :: (inside ++ '>' :: rest) :=
        List.append_cancel_right (split.trans (by simp))
      obtain ⟨more, begins⟩ := prefix_of_closingName inside
      refine ⟨[], more ++ '>' :: rest, ?_⟩
      rw [whole, List.nil_append, List.cons_append, List.cons_append, ← List.append_assoc, begins]
    · exact (ih member).trans behind.isInfix

end Close

end TaintScan.Markup
