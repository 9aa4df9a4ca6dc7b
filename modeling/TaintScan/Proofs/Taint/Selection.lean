import TaintScan.Proofs.Outcome
import TaintScan.Proofs.Taint.Drawing
import TaintScan.Taint.Selection

namespace TaintScan

namespace Text

def VariesCase : List Char → List Char → Prop :=
  List.Forall₂ fun c d => d = c ∨ c.isAlpha = true ∧ (d = c.toLower ∨ d = c.toUpper)

theorem lowerCase_of_variesCase {cs ds : List Char} (h : VariesCase cs ds) :
    lowerCase ds = lowerCase cs := by
  induction h with
  | nil => rfl
  | @cons c d cs ds this others ih =>
    have same : d.toLower = c.toLower := by
      rcases this with rfl | ⟨letter, cased⟩
      · rfl
      · have known : c.toLower.toLower = c.toLower ∧ c.toUpper.toLower = c.toLower :=
          ascii_induction (P := fun c => c.toLower.toLower = c.toLower ∧ c.toUpper.toLower = c.toLower)
            (by decide) (toNat_of_isAlpha letter)
        rcases cased with rfl | rfl
        · exact known.1
        · exact known.2
    exact congrArg₂ List.cons same ih

theorem lowerCase_infix {piece text : List Char} (h : piece <:+: text) :
    lowerCase piece <:+: lowerCase text := List.IsInfix.map Char.toLower h

end Text

namespace Marker

open TaintScan.Random (Always Source)

variable {m : Marker} {cs : List Char}

theorem lowerCase_stem (m : Marker) : Text.lowerCase m.stem.toList = m.stem.toList := by
  have kept : ∀ c ∈ m.stem.toList, c.toLower = c := fun c member =>
    Name.isMarkerChar_induction (P := fun c => c.toLower = c) (m.stem_chars c member) (by decide)
  exact (List.map_congr_left kept).trans (List.map_id _)

theorem stem_infix_of_runIn {t : List Char} (h : m.runIn cs = some t) : m.stem.toList <:+: cs := by
  obtain ⟨p, token, -⟩ := exists_of_runIn h
  exact token.1.isInfix.trans (List.drop_suffix p cs).isInfix

theorem tokenIn_eq_none_of_free {text piece variant : List Char}
    (free : ¬ m.stem.toList <:+: Text.lowerCase text) (inside : piece <:+: text)
    (varies : Text.VariesCase piece variant) : m.tokenIn (String.ofList variant) = none := by
  rw [tokenIn_eq, String.toList_ofList, Option.map_eq_none_iff]
  cases found : m.runIn variant with
  | none => rfl
  | some t =>
    have stands := Text.lowerCase_infix (stem_infix_of_runIn found)
    rw [lowerCase_stem, Text.lowerCase_of_variesCase varies] at stands
    exact absurd (stands.trans (Text.lowerCase_infix inside)) free

namespace Selection

variable {s : Selection} {text : String}

/-- The stems that are drawn one after another, if none is free. -/
def stems (s : Selection) (attempts : Nat) : List (List Char) :=
  (Random.times attempts (drawName s.stemLength) (Source.ofSeed s.seed)).1

/-- A stem occurs in a text, whatever the case of the letters there. -/
def isTaken (text : String) (stem : List Char) : Bool :=
  Text.occursIn stem (Text.lowerCase text.toList)

theorem drawName_safe (length : Nat) : Always (drawName length) fun stem =>
    Name.isMarkerSafe stem = true ∧ stem.length = max length 1 := by
  have letters : ∀ c ∈ firstChars, c.isLower = true :=
    List.all_eq_true.mp (by decide : firstChars.all Char.isLower = true)
  have signs : ∀ c ∈ laterChars, Name.isMarkerChar c = true :=
    List.all_eq_true.mp (by decide : laterChars.all Name.isMarkerChar = true)
  refine .bind (Synthesis.drawAt_mem (by decide) 'a') fun first member => ?_
  refine .bind (Random.times_all (Synthesis.drawAt_mem (by decide) 'a') (length - 1)) fun more known => ?_
  refine .pure ⟨?_, ?_⟩
  · rw [Name.isMarkerSafe, letters first member, Bool.true_and]
    exact List.all_eq_true.mpr fun c inside => signs c (known.2 c inside)
  · rw [List.length_cons, known.1]
    omega

theorem stems_safe (attempts : Nat) : ∀ stem ∈ s.stems attempts,
    Name.isMarkerSafe stem = true ∧ stem.length = max s.stemLength 1 :=
  (Random.times_all (drawName_safe s.stemLength) attempts _).2

theorem drawFree_eq_find? {length : Nat} (room : ¬ Breakdown.mostBytes < length) (text : List Char)
    (attempts : Nat) (source : Source) : (drawFree length text attempts source).1 =
      .ok ((Random.times attempts (drawName length) source).1.find? fun stem =>
        !Text.occursIn stem text) := by
  induction attempts generalizing source with
  | zero => rfl
  | succ attempts ih =>
    have turn : (drawFree length text (attempts + 1) source).1 =
        ((if Text.occursIn (drawName length source).1 text then drawFree length text attempts
          else return some (drawName length source).1) (drawName length source).2).1 := by
      rw [drawFree, drawStem, if_neg room]
      rfl
    rw [turn, Random.times_succ, List.find?_cons]
    cases Text.occursIn (drawName length source).1 text with
    | true => exact ih _
    | false => rfl

theorem drawFree_eq_capacity {length : Nat} (long : Breakdown.mostBytes < length) (text : List Char)
    (attempts : Nat) (source : Source) :
    (drawFree length text (attempts + 1) source).1 = .error .capacity := by
  rw [drawFree, drawStem, if_pos long]
  rfl

def answer (s : Selection) (attempts : Nat) : Option (List Char) → Except Error Marker
  | some stem => Marker.make (String.ofList stem) (s.stemLength + minSuffixLength)
  | none => .error (.value (.exhausted s.stemLength attempts))

theorem forText_eq_answer : @forText = fun s text =>
    if Breakdown.mostBytes < s.stemLength then .error (.breakdown .capacity)
    else s.answer maxAttempts ((s.stems maxAttempts).find? fun stem => !isTaken text stem) := by
  -- for any number of attempts: with the number at hand, stems would be drawn to compare terms
  obtain ⟨attempts, given⟩ : ∃ attempts, maxAttempts = attempts + 1 := ⟨_, rfl⟩
  delta forText
  rw [given]
  funext s text
  dsimp only
  by_cases long : Breakdown.mostBytes < s.stemLength
  · rw [if_pos long, drawFree_eq_capacity long]
  · rw [if_neg long, drawFree_eq_find? long]
    change _ = s.answer (attempts + 1) ((s.stems (attempts + 1)).find? fun stem =>
      !Text.occursIn stem (Text.lowerCase text.toList))
    rw [stems]
    cases (Random.times (attempts + 1) (drawName s.stemLength) (Source.ofSeed s.seed)).1.find?
      fun stem => !Text.occursIn stem (Text.lowerCase text.toList) with
    | none => rfl
    | some stem => rfl

theorem forText_eq (s : Selection) (text : String) : s.forText text =
    if Breakdown.mostBytes < s.stemLength then .error (.breakdown .capacity)
    else s.answer maxAttempts ((s.stems maxAttempts).find? fun stem => !isTaken text stem) :=
  congrFun (congrFun forText_eq_answer s) text

structure IsChosen (s : Selection) (text : String) (m : Marker) : Prop where
  room : s.stemLength ≤ Breakdown.mostBytes
  drawn : m.stem.toList ∈ s.stems maxAttempts
  free : isTaken text m.stem.toList = false
  minLength : m.minLength = s.stemLength + minSuffixLength

theorem IsChosen.length_stem (h : s.IsChosen text m) : m.stem.length = max s.stemLength 1 :=
  (stems_safe maxAttempts _ h.drawn).2

theorem IsChosen.not_infix (h : s.IsChosen text m) :
    ¬ m.stem.toList <:+: Text.lowerCase text.toList := by
  rw [← Text.occursIn_iff_infix]
  exact Bool.eq_false_iff.mp h.free

theorem forText_cases (s : Selection) (text : String) :
    (∃ m, s.forText text = .ok m ∧ s.IsChosen text m) ∨
      (s.forText text = .error (.value (.exhausted s.stemLength maxAttempts)) ∧
        s.stemLength ≤ Breakdown.mostBytes ∧ ∀ stem ∈ s.stems maxAttempts, isTaken text stem = true) ∨
      s.forText text = .error (.breakdown .capacity) ∧ Breakdown.mostBytes < s.stemLength := by
  rw [forText_eq]
  by_cases long : Breakdown.mostBytes < s.stemLength
  · exact .inr (.inr ⟨if_pos long, long⟩)
  rw [if_neg long]
  cases found : (s.stems maxAttempts).find? fun stem => !isTaken text stem with
  | none =>
    have taken := List.find?_eq_none.mp found
    exact .inr (.inl ⟨rfl, Nat.le_of_not_lt long, by simpa using taken⟩)
  | some stem =>
    have drawn := List.mem_of_find?_eq_some found
    have free : isTaken text stem = false := by simpa using List.find?_some found
    obtain ⟨safe, length⟩ := stems_safe maxAttempts stem drawn
    rw [← String.toList_ofList (l := stem)] at safe drawn free
    have least : max (s.stemLength + minSuffixLength) (String.ofList stem).length =
        s.stemLength + minSuffixLength := by
      rw [String.length_ofList, length, minSuffixLength]
      omega
    exact .inl ⟨_, dif_pos safe, Nat.le_of_not_lt long, drawn, free, least⟩

theorem isChosen_of_forText (h : s.forText text = .ok m) : s.IsChosen text m := by
  rcases forText_cases s text with ⟨m', chosen, known⟩ | ⟨failed, -⟩ | ⟨failed, -⟩
  · rwa [Except.ok.inj (h.symm.trans chosen)]
  · exact nomatch h.symm.trans failed
  · exact nomatch h.symm.trans failed

theorem stems_succ (s : Selection) (attempts : Nat) : ∃ others, s.stems (attempts + 1) =
    (drawName s.stemLength (Source.ofSeed s.seed)).1 :: others := by
  rw [stems, Random.times_succ]
  exact ⟨_, rfl⟩

theorem answer_some {stem : List Char} (safe : Name.isMarkerSafe stem = true) (attempts : Nat) :
    ∃ m, s.answer attempts (some stem) = .ok m ∧ m.stem = String.ofList stem := by
  rw [← String.toList_ofList (l := stem)] at safe
  exact ⟨_, dif_pos safe, rfl⟩

theorem forText_first {stem : List Char} (room : ¬ Breakdown.mostBytes < s.stemLength)
    (drawn : (drawName s.stemLength (Source.ofSeed s.seed)).1 = stem)
    (free : isTaken text stem = false) : ∃ m, s.forText text = .ok m ∧ m.stem = String.ofList stem := by
  have safe := (drawName_safe s.stemLength (Source.ofSeed s.seed)).1
  obtain ⟨others, stems⟩ := s.stems_succ 999
  have found : (s.stems maxAttempts).find? (fun stem => !isTaken text stem) = some stem := by
    rw [maxAttempts, stems, drawn]
    exact List.find?_cons_of_pos (by rw [free]; rfl)
  rw [forText_eq, if_neg room, found]
  exact answer_some (drawn ▸ safe) _

theorem forText_of_block {words : Random.ChaCha.State} {stem : List Char}
    (room : ¬ Breakdown.mostBytes < s.stemLength)
    (first : Random.ChaCha.block (Random.ChaCha.keyOfSeed s.seed) 0 = words)
    (drawn : (drawName s.stemLength (.ofBlock words (Random.ChaCha.stream s.seed))).1 = stem)
    (free : isTaken text stem = false) : ∃ m, s.forText text = .ok m ∧ m.stem = String.ofList stem := by
  rw [← Source.ofSeed_eq first] at drawn
  exact forText_first room drawn free

/-- The marker chosen for a text has a stem of the length that is set, and no token of it is in a piece
of the text, whatever the case of the letters there. There is none only if each drawn stem occurs, or
if no stem can be so long. -/
theorem forText_collision_free (s : Selection) (text : String) :
    (∀ m, s.forText text = .ok m →
      m.stem.length = max s.stemLength 1 ∧ Name.isMarkerSafe m.stem.toList = true ∧
        ∀ piece variant, piece <:+: text.toList → Text.VariesCase piece variant →
          m.tokenIn (String.ofList variant) = none) ∧
      (s.forText text = .error (.value (.exhausted s.stemLength maxAttempts)) ↔
        s.stemLength ≤ Breakdown.mostBytes ∧ ∀ stem ∈ s.stems maxAttempts, isTaken text stem = true) ∧
      (s.forText text = .error (.breakdown .capacity) ↔ Breakdown.mostBytes < s.stemLength) ∧
      ∀ e, s.forText text = .error e →
        e = .value (.exhausted s.stemLength maxAttempts) ∨ e = .breakdown .capacity := by
  refine ⟨fun m given => ?_, ?_⟩
  · have chosen := isChosen_of_forText given
    exact ⟨chosen.length_stem, m.safe, fun piece variant => tokenIn_eq_none_of_free chosen.not_infix⟩
  · rcases forText_cases s text with ⟨m, given, chosen⟩ | ⟨failed, room, taken⟩ | ⟨failed, long⟩
    · rw [given]
      refine ⟨iff_of_false nofun fun ⟨_, taken⟩ => ?_,
        iff_of_false nofun (Nat.not_lt.mpr chosen.room), nofun⟩
      exact absurd (chosen.free.symm.trans (taken _ chosen.drawn)) nofun
    · rw [failed]
      refine ⟨iff_of_true rfl ⟨room, taken⟩, iff_of_false nofun (Nat.not_lt.mpr room), ?_⟩
      rintro _ ⟨⟩
      exact .inl rfl
    · rw [failed]
      refine ⟨iff_of_false nofun fun short => absurd long (Nat.not_lt.mpr short.1),
        iff_of_true rfl long, ?_⟩
      rintro _ ⟨⟩
      exact .inr rfl

theorem forText_collision_free_last_letter : ∃ m,
    ((ofSeed 54).withStemLength 1).forText "ABCDEFGHIJKLMNOPQRSTUVWXY" = .ok m ∧ m.stem = "z" ∧
      m.stem.length = 1 ∧ "UVW".toList <:+: "ABCDEFGHIJKLMNOPQRSTUVWXY".toList ∧
        m.tokenIn (String.ofList ['u', 'V', 'w']) = none := by
  have words : Random.ChaCha.block (Random.ChaCha.keyOfSeed 54) 0 =
      #v[3067303986, 4177126669, 512167521, 2168534718, 297754600, 2698033214, 3106074688, 3515645207,
        1233497240, 1137833441, 222374070, 1186001538, 1224193719, 139340077, 3942254624, 2173868229] := by
    decide +kernel
  have free : isTaken "ABCDEFGHIJKLMNOPQRSTUVWXY" ['z'] = false := by decide
  obtain ⟨m, chosen, stem⟩ := forText_of_block (s := (ofSeed 54).withStemLength 1) (by decide) words rfl free
  have inside : "UVW".toList <:+: "ABCDEFGHIJKLMNOPQRSTUVWXY".toList :=
    ⟨"ABCDEFGHIJKLMNOPQRST".toList, "XY".toList, rfl⟩
  have varies : Text.VariesCase "UVW".toList ['u', 'V', 'w'] :=
    .cons (.inr (by decide)) (.cons (.inl rfl) (.cons (.inr (by decide)) .nil))
  obtain ⟨length, -, free⟩ := (forText_collision_free _ _).1 m chosen
  exact ⟨m, chosen, stem, length, inside, free _ _ inside varies⟩

end Selection

end Marker

end TaintScan
