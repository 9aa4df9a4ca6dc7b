import Mathlib.Data.List.Infix
import TaintScan.Proofs.Taint.Tracking

namespace TaintScan

namespace Marker

variable {m : Marker} {c : Char} {cs front back : List Char}

section Break

variable (breaks : Name.isMarkerChar c = false)
include breaks

theorem run_append_cons (front back : List Char) : run (front ++ c :: back) = run front := by
  have stops : (c :: back).takeWhile Name.isMarkerChar = [] :=
    List.takeWhile_cons_of_neg (by simp [breaks])
  rw [run, List.takeWhile_append, stops, List.append_nil]
  split
  · rename_i whole
    exact ((List.takeWhile_prefix _).eq_of_length whole).symm
  · rfl

theorem runIn_cons_of_break (back : List Char) : m.runIn (c :: back) = m.runIn back := by
  refine runIn_of_not_begins fun token => ?_
  rw [isMarkerChar_of_stem token.1] at breaks
  cases breaks

theorem runIn_append_cons (front back : List Char) :
    m.runIn (front ++ c :: back) = (m.runIn front).or (m.runIn back) := by
  induction front with
  | nil => rw [List.nil_append, runIn_cons_of_break breaks, runIn_nil, Option.none_or]
  | cons d rest ih =>
    have same : run (d :: (rest ++ c :: back)) = run (d :: rest) := run_append_cons breaks (d :: rest) back
    by_cases token : m.BeginsToken (d :: rest)
    · rw [List.cons_append, runIn_of_begins ((beginsToken_congr same).mpr token), runIn_of_begins token, same,
        Option.some_or]
    · have other : ¬ m.BeginsToken (d :: (rest ++ c :: back)) := fun begins =>
        token ((beginsToken_congr same).mp begins)
      rw [List.cons_append, runIn_of_not_begins other, runIn_of_not_begins token, ih]

end Break

theorem runIn_append_of_closed (closed : ∀ c ∈ front.getLast?, Name.isMarkerChar c = false)
    (back : List Char) : m.runIn (front ++ back) = (m.runIn front).or (m.runIn back) := by
  rcases List.eq_nil_or_concat front with rfl | ⟨rest, c, rfl⟩
  · rw [List.nil_append, runIn_nil, Option.none_or]
  · have breaks : Name.isMarkerChar c = false := closed c (by simp)
    rw [List.concat_eq_append, List.append_assoc, List.singleton_append, runIn_append_cons breaks,
      runIn_append_cons breaks, runIn_nil, Option.or_none]

theorem runIn_token_append (chars : ∀ c ∈ cs, Name.isMarkerChar c = true) (stands : m.stem.toList <+: cs)
    (long : m.minLength ≤ cs.length) (ends : ∀ c ∈ back.head?, Name.isMarkerChar c = false) :
    m.runIn (cs ++ back) = some cs := by
  have whole := runIn_of_chars chars stands long
  cases back with
  | nil => rw [List.append_nil, whole]
  | cons c rest => rw [runIn_append_cons (ends c rfl), whole, Option.some_or]

end Marker

namespace Synthesis

open TaintScan.Random (Always Source)

variable {ctx : Context} {m : Marker} {settings : ValueSettings} {c : DataConstraint} {r : ValueRule}

def templatesOf : RawMode → List (String × String)
  | .full => templates
  | .restricted => [("", "")]

theorem drawChars_raw (m : Marker) (settings : ValueSettings) (most : Option UInt64) (mode : RawMode)
    (source : Source) : ∃ word ∈ fillerWords, ∃ t ∈ templatesOf mode,
      (drawChars m settings most (some mode) source).1 =
        (trackedText m settings none source).1.map fun token =>
          word.toList ++ ' ' :: t.1.toList ++ token ++ t.2.toList := by
  cases mode with
  | full => exact drawMarkup_eq m settings source
  | restricted =>
    obtain ⟨word, member, shape⟩ := drawText_eq m settings source
    exact ⟨word, member, ("", ""), List.mem_singleton_self _, by simp [drawChars, shape]⟩

/-- The token of a text that may be of any length. -/
def tokenFrom (m : Marker) (settings : ValueSettings) (source : Source) : Except Breakdown String :=
  (trackedText m settings none source).1.map String.ofList

theorem drawValue_raw (type : c.dataType = .string ∨ c.dataType = .other)
    (unlisted : c.discreteValues = []) (mode : RawMode) (source : Source) :
    ∃ word ∈ fillerWords, ∃ t ∈ templatesOf mode, (drawValue m settings c (some mode) source).1 =
      (tokenFrom m settings source).map fun token => word ++ " " ++ t.1 ++ token ++ t.2 := by
  obtain ⟨word, member, t, around, shape⟩ := drawChars_raw m settings c.maxLength mode source
  refine ⟨word, member, t, around, ?_⟩
  rw [drawValue_of_unlisted unlisted, drawFresh_text type, Random.trial_map_apply, shape, tokenFrom]
  cases (trackedText m settings none source).1 with
  | error cause => rfl
  | ok token => exact congrArg Except.ok (String.toList_inj.mp (by simp))

/-- The run that passes for the token in the word and the tag in front of it. -/
def misreading? (m : Marker) (word opening : String) : Option String :=
  (m.tokenIn word).or (m.tokenIn opening)

theorem tokenIn_embedded {word token : String} {t : String × String} {mode : RawMode}
    (around : t ∈ templatesOf mode) (chars : ∀ c ∈ token.toList, Name.isMarkerChar c = true)
    (stands : m.stem.toList <+: token.toList) (long : m.minLength ≤ token.toList.length) :
    m.tokenIn (word ++ " " ++ t.1 ++ token ++ t.2) = some ((misreading? m word t.1).getD token) := by
  have edges : ∀ mode, ∀ t ∈ templatesOf mode, t.1.toList.getLast?.all (!Name.isMarkerChar ·) = true ∧
      t.2.toList.head?.all (!Name.isMarkerChar ·) = true := by
    intro mode
    cases mode <;> decide
  obtain ⟨closed, ends⟩ := edges mode t around
  simp only [Option.all_eq_true, Bool.not_eq_true'] at closed ends
  have parts : (word ++ " " ++ t.1 ++ token ++ t.2).toList =
      word.toList ++ ' ' :: (t.1.toList ++ (token.toList ++ t.2.toList)) := by
    simp
  rw [Marker.tokenIn_eq, parts, Marker.runIn_append_cons (by decide), Marker.runIn_append_of_closed closed,
    Marker.runIn_token_append chars stands long ends, misreading?, Marker.tokenIn_eq, Marker.tokenIn_eq]
  cases m.runIn word.toList with
  | some run => rfl
  | none =>
    cases m.runIn t.1.toList with
    | some run => rfl
    | none => simp

theorem tokenFrom_token {token : String} (made : tokenFrom m settings source = .ok token) :
    (∀ c ∈ token.toList, Name.isMarkerChar c = true) ∧ m.stem.toList <+: token.toList ∧
      m.minLength ≤ token.toList.length := by
  obtain ⟨text, drawn, rfl⟩ := Outcome.map_eq_ok.mp made
  obtain ⟨suffix, chars, long, shape⟩ := (trackedText_eq m settings none).of_eq_ok drawn
  rw [String.toList_ofList, shape]
  exact ⟨List.forall_mem_append.mpr ⟨m.stem_chars, chars⟩, List.prefix_append _ _, long⟩

theorem tokenFrom_cases (m : Marker) (settings : ValueSettings) (source : Source) :
    if Breakdown.mostBytes < suffixLength m settings then tokenFrom m settings source = .error .capacity
    else ∃ token, tokenFrom m settings source = .ok token := by
  have fits := @trackedText_fits m settings none
  rw [tokenFrom]
  cases drawn : (trackedText m settings none source).1 with
  | error cause =>
    obtain ⟨rfl, long⟩ := fits.of_eq_error drawn
    rw [if_pos long]
    rfl
  | ok text =>
    rw [if_neg (Nat.not_lt.mpr (fits.of_eq_ok drawn))]
    exact ⟨_, rfl⟩

def fillers (mode : RawMode) : List String := fillerWords ++ (templatesOf mode).map Prod.fst

/-- The stems with which a run that begins somewhere in a filler is long enough to pass for a token. -/
def confusable (mode : RawMode) : List (List Char) :=
  (fillers mode).flatMap fun filler => filler.toList.tails.flatMap fun tail =>
    (Marker.run tail).inits.filter fun stem =>
      !stem.isEmpty && stem.length + Marker.Selection.minSuffixLength ≤ (Marker.run tail).length

example : (confusable .full).map String.ofList =
    ["l", "lo", "o", "i", "ip", "p", "d", "do", "o", "a", "s"] := by decide

theorem not_confusable_iff (least : m.minLength = m.stem.length + Marker.Selection.minSuffixLength)
    (mode : RawMode) : m.stem.toList ∉ confusable mode ↔ ∀ filler ∈ fillers mode, m.tokenIn filler = none := by
  have begins : ∀ tail : List Char, m.BeginsToken tail ↔ m.stem.toList ∈ (Marker.run tail).inits.filter
      fun stem => !stem.isEmpty && stem.length + Marker.Selection.minSuffixLength ≤ (Marker.run tail).length := by
    intro tail
    have nonempty : m.stem.toList.isEmpty = false := by simpa using m.stem_ne_nil
    rw [List.mem_filter, List.mem_inits, Marker.stem_prefix_run_iff, Marker.BeginsToken, least, nonempty,
      String.length_toList]
    simp
  simp only [confusable, List.mem_flatMap, not_exists, not_and, List.mem_tails, ← begins]
  refine forall₂_congr fun filler _ => ?_
  rw [Marker.tokenIn_eq, Option.map_eq_none_iff, Marker.runIn_eq_none_iff_suffix]

theorem misreading?_eq_none_iff {word opening : String} : misreading? m word opening = none ↔
    m.tokenIn word = none ∧ m.tokenIn opening = none := Option.or_eq_none_iff

theorem forall_fillers_iff {P : String → Prop} (mode : RawMode) : (∀ filler ∈ fillers mode, P filler) ↔
    ∀ word ∈ fillerWords, ∀ t ∈ templatesOf mode, P word ∧ P t.1 := by
  obtain ⟨aWord, aWordIn⟩ := List.exists_mem_of_ne_nil fillerWords (by decide)
  obtain ⟨aTemplate, aTemplateIn⟩ := List.exists_mem_of_ne_nil (templatesOf mode) (by cases mode <;> decide)
  rw [fillers, List.forall_mem_append, List.forall_mem_map]
  constructor
  · exact fun ⟨words, openings⟩ word inside t around => ⟨words word inside, openings t around⟩
  · exact fun both => ⟨fun word inside => (both word inside aTemplate aTemplateIn).1,
      fun t around => (both aWord aWordIn t around).2⟩

theorem length_of_confusable (mode : RawMode) : ∀ stem ∈ confusable mode, stem.length < 3 := by
  cases mode <;> decide

/-- Raw content holds a token, and its marker is the run that is misread for it, or the token. -/
def Embeds (m : Marker) (mode : RawMode) (token value : String) (marker : Option String) : Prop :=
  ∃ word ∈ fillerWords, ∃ t ∈ templatesOf mode, value = word ++ " " ++ t.1 ++ token ++ t.2 ∧
    marker = some ((misreading? m word t.1).getD token)

theorem drawValue_embeds (m : Marker) (settings : ValueSettings)
    (type : c.dataType = .string ∨ c.dataType = .other) (unlisted : c.discreteValues = [])
    (mode : RawMode) (source : Source) :
    if Breakdown.mostBytes < suffixLength m settings then
      (drawValue m settings c (some mode) source).1 = .error .capacity
    else ∃ token value, tokenFrom m settings source = .ok token ∧
      (drawValue m settings c (some mode) source).1 = .ok value ∧
        Embeds m mode token value (m.tokenIn value) := by
  obtain ⟨word, inside, t, around, shape⟩ := @drawValue_raw m settings _ type unlisted mode source
  have outcome := tokenFrom_cases m settings source
  rw [shape]
  split
  · rename_i long
    rw [if_pos long] at outcome
    rw [outcome]
    rfl
  · rename_i room
    rw [if_neg room] at outcome
    obtain ⟨token, made⟩ := outcome
    obtain ⟨chars, stands, long⟩ := tokenFrom_token made
    rw [made]
    exact ⟨token, _, rfl, rfl, word, inside, t, around, rfl, tokenIn_embedded around chars stands long⟩

theorem Embeds.marker_eq {token value : String} {marker : Option String} {mode : RawMode}
    (h : Embeds m mode token value marker) (clear : ∀ filler ∈ fillers mode, m.tokenIn filler = none) :
    marker = some token := by
  obtain ⟨word, inside, t, around, -, rfl⟩ := h
  rw [misreading?_eq_none_iff.mpr ((forall_fillers_iff mode).mp clear word inside t around)]
  rfl

section Raw

variable {seed : UInt64} {length : Nat} {text : String}

/-- The marker of raw content is a run of its word or its opening tag if one passes for the token, and
else the token. None passes, whatever is drawn, exactly if the stem is not confusable, and no stem of
three characters or more is. -/
theorem raw_content_marker
    (chosen : ((Marker.Selection.ofSeed seed).withStemLength length).forText text = .ok ctx.marker)
    {object : SchemaObject} (known : ctx.schema.object r.target = .ok object)
    (constraint : object.valueConstraint? = some c) (type : c.dataType = .string ∨ c.dataType = .other)
    (unlisted : c.discreteValues = []) {mode : RawMode} (raw : r.mode = some mode)
    (unusable : usableRequest? c r = none) :
    (∀ source, if Breakdown.mostBytes < suffixLength ctx.marker ctx.settings then
        (drawValue ctx.marker ctx.settings c r.mode source).1 = .error .capacity
      else ∃ token value, tokenFrom ctx.marker ctx.settings source = .ok token ∧
        (drawValue ctx.marker ctx.settings c r.mode source).1 = .ok value ∧
          Embeds ctx.marker mode token value (ctx.marker.tokenIn value)) ∧
      (if Breakdown.mostBytes < suffixLength ctx.marker ctx.settings then
          describe ctx r = .error (.breakdown .capacity)
        else ∃ d token, describe ctx r = .ok d ∧ d.requested = false ∧
          tokenFrom ctx.marker ctx.settings (sourceOf ctx r) = .ok token ∧
          Embeds ctx.marker mode token d.value d.marker ∧
          (ctx.marker.stem.toList ∉ confusable mode → d.marker = some token)) ∧
      (ctx.marker.stem.toList ∉ confusable mode ↔
        ∀ word ∈ fillerWords, ∀ t ∈ templatesOf mode, misreading? ctx.marker word t.1 = none) ∧
      (3 ≤ length → ctx.marker.stem.toList ∉ confusable mode) := by
  have marked := Marker.Selection.isChosen_of_forText chosen
  have set : ((Marker.Selection.ofSeed seed).withStemLength length).stemLength = max length 1 := rfl
  have least : ctx.marker.minLength = ctx.marker.stem.length + Marker.Selection.minSuffixLength := by
    rw [marked.minLength, marked.length_stem, set]
    omega
  have clear := not_confusable_iff least mode
  have drawn := drawValue_embeds ctx.marker ctx.settings type unlisted mode
  rw [raw]
  refine ⟨drawn, ?_, ?_, ?_⟩
  · have own := drawn (sourceOf ctx r)
    rw [describe_of_unusable known constraint unusable, madeUp, raw]
    split
    · rename_i long
      rw [if_pos long] at own
      rw [own]
    · rename_i room
      rw [if_neg room] at own
      obtain ⟨token, value, token', value', embeds⟩ := own
      rw [value']
      exact ⟨_, token, rfl, rfl, token', embeds, fun other => embeds.marker_eq (clear.mp other)⟩
  · simp only [misreading?_eq_none_iff]
    exact clear.trans (forall_fillers_iff mode)
  · intro long other
    have short := length_of_confusable mode _ other
    rw [String.length_toList, marked.length_stem, set] at short
    omega

def noteSheet : String :=
  "<xsl:stylesheet version=\"1.0\" xmlns:xsl=\"http://www.w3.org/1999/XSL/Transform\"/>"

def noteContext (m : Marker) : Context :=
  ⟨noteSchema, m, { ValueSettings.standard with randomSuffixLength := 0 }, 36⟩

def noteRule : ValueRule := ⟨Document.trialRule 0, Document.trialObject 1, none, some .restricted⟩

theorem noteRule_object (m : Marker) :
    (noteContext m).schema.object noteRule.target = .ok (.elementType noteType) := rfl

theorem raw_content_marker_three_letters : ∃ m,
    ((Marker.Selection.ofSeed 160).withStemLength 3).forText noteSheet = .ok m ∧ m.stem = "fcn" ∧
      ∃ d token, describe (noteContext m) noteRule = .ok d ∧
        tokenFrom m (noteContext m).settings (sourceOf (noteContext m) noteRule) = .ok token ∧
        d.marker = some token := by
  have words : Random.ChaCha.block (Random.ChaCha.keyOfSeed 160) 0 =
      #v[3531151478, 908564449, 2153311659, 263565969, 3212847232, 1598050084, 3668487894, 2420773823,
        3302741117, 1800229657, 1772618982, 432663302, 1553720008, 1764586523, 613505407, 142820810] := by
    decide +kernel
  have free : Marker.Selection.isTaken noteSheet ['f', 'c', 'n'] = false := by decide
  obtain ⟨m, chosen, stem⟩ :=
    Marker.Selection.forText_of_block (s := (Marker.Selection.ofSeed 160).withStemLength 3) (by decide) words rfl free
  obtain ⟨-, outcome, -, other⟩ := raw_content_marker chosen
    (noteRule_object m) rfl (.inl rfl) rfl rfl rfl
  have least := (Marker.Selection.isChosen_of_forText chosen).minLength
  have room : ¬ Breakdown.mostBytes < suffixLength (noteContext m).marker (noteContext m).settings := by
    change ¬ Breakdown.mostBytes < max 0 (m.minLength - m.stem.length)
    rw [least, stem]
    decide
  rw [if_neg room] at outcome
  obtain ⟨d, token, described, -, made, -, clear⟩ := outcome
  exact ⟨m, chosen, stem, d, token, described, made, clear (other (by decide))⟩

def noteMarker : Marker := ⟨"d", 4, by decide, by decide⟩

theorem noteMarker_chosen :
    ((Marker.Selection.ofSeed 48).withStemLength 1).forText noteSheet = .ok noteMarker := by
  have words : Random.ChaCha.block (Random.ChaCha.keyOfSeed 48) 0 =
      #v[1221286762, 572183262, 3762240809, 4088233296, 2704722336, 1358976578, 3065931255, 927166836,
        886024211, 135138918, 2731377209, 3986986850, 1216703739, 3476617867, 833922223, 3600579192] := by
    decide +kernel
  have free : Marker.Selection.isTaken noteSheet ['d'] = false := by decide
  obtain ⟨m, chosen, stem⟩ :=
    Marker.Selection.forText_of_block (s := (Marker.Selection.ofSeed 48).withStemLength 1) (by decide) words rfl free
  have least := (Marker.Selection.isChosen_of_forText chosen).minLength
  obtain ⟨stem', least', safe, le⟩ := m
  obtain rfl : stem' = "d" := stem
  obtain rfl : least' = 4 := least
  exact chosen

theorem note_drawn :
    madeUp (noteContext noteMarker) noteRule .anyText = .ok "dolor d71e" ∧
    tokenFrom noteMarker (noteContext noteMarker).settings (sourceOf (noteContext noteMarker) noteRule) =
      .ok "d71e" := by
  have words : Random.ChaCha.block (Random.ChaCha.keyOfSeed 36) 0 =
      #v[1306031047, 4001744771, 336575319, 3263292225, 3919144906, 494103985, 1276402561, 1933816278,
        3888884861, 1263755913, 3525381249, 2936731568, 3142448154, 1924259942, 1145901845, 3665094135] := by
    decide +kernel
  have source : sourceOf (noteContext noteMarker) noteRule = Source.ofSeed 36 := rfl
  rw [madeUp, source, Source.ofSeed_eq words]
  exact ⟨rfl, rfl⟩

theorem raw_marker_not_always_token :
    ((Marker.Selection.ofSeed 48).withStemLength 1).forText noteSheet = .ok noteMarker ∧
      ∃ d, describe (noteContext noteMarker) noteRule = .ok d ∧ d.requested = false ∧
        d.value = "dolor d71e" ∧ d.marker = some "dolor" ∧
        tokenFrom noteMarker (noteContext noteMarker).settings
          (sourceOf (noteContext noteMarker) noteRule) = .ok "d71e" := by
  obtain ⟨made, token⟩ := note_drawn
  have described : describe (noteContext noteMarker) noteRule =
      .ok (descriptorOf (noteContext noteMarker) noteRule "dolor d71e" false) := by
    have unasked : usableRequest? .anyText noteRule = none := rfl
    rw [describe_of_unusable (noteRule_object noteMarker) rfl unasked, made]
  have begins : noteMarker.BeginsToken "dolor d71e".toList := by decide
  have misread : noteMarker.tokenIn "dolor d71e" = some "dolor" := by
    rw [Marker.tokenIn_eq, Marker.runIn_of_begins begins]
    decide
  exact ⟨noteMarker_chosen, _, described, rfl, rfl, misread, token⟩

end Raw

end Synthesis

end TaintScan
