import TaintScan.Proofs.Markup.Balance
import TaintScan.Proofs.Random.Trial
import TaintScan.Proofs.Taint.Search
import TaintScan.Taint.Synthesis

namespace TaintScan.Synthesis

open TaintScan.Random (Always Gives Settles Source Trial)

variable {marker : Marker} {settings : ValueSettings} {c : DataConstraint}

theorem drawAt_mem {α : Type} {items : List α} (nonempty : items ≠ []) (other : α) :
    Always (do
      let i ← Random.below .wide items.length
      return items.getD i other) (· ∈ items) := by
  have length : 0 < items.length := List.length_pos_iff.mpr nonempty
  refine .bind (Random.below_lt .wide length) fun i inside => .pure ?_
  rw [List.getD_eq_getElem?_getD, List.getElem?_eq_getElem inside]
  exact List.getElem_mem inside

theorem drawItem_mem {α : Type} [Inhabited α] {items : List α} (nonempty : items ≠ []) :
    Always (drawItem items) (· ∈ items) := drawAt_mem nonempty default

def Overflows (length : Nat) (cause : Breakdown) : Prop :=
  cause = .capacity ∧ Breakdown.mostBytes < length

theorem drawSuffix_chars (n : Nat) :
    Gives (Marker.drawSuffix n) (fun suffix => n ≤ Breakdown.mostBytes ∧ suffix.length = n ∧
      ∀ c ∈ suffix, Name.isMarkerChar c = true) (Overflows n) := by
  have safe : Marker.laterChars.all Name.isMarkerChar = true := by decide
  have drawn : Always (Marker.drawChar Marker.laterChars) (· ∈ Marker.laterChars) :=
    drawAt_mem (by decide) 'a'
  unfold Marker.drawSuffix
  by_cases long : Breakdown.mostBytes < n
  · rw [if_pos long]
    exact .throw ⟨rfl, long⟩
  · rw [if_neg long]
    refine .lift fun source => ?_
    obtain ⟨length, members⟩ := Random.times_all drawn n source
    exact ⟨Nat.le_of_not_lt long, length, fun c member => List.all_eq_true.mp safe c (members c member)⟩

theorem trackedText_token (most : Option UInt64) :
    Gives (trackedText marker settings most) (fun token =>
      (∀ c ∈ token, Name.isMarkerChar c = true) ∧ (∀ n ∈ most, token.length ≤ n.toNat) ∧
        (most = none → token ≠ [])) (Overflows (suffixLength marker settings)) := by
  refine .bind (drawSuffix_chars _) fun suffix ⟨_, _, chars⟩ => ?_
  have whole : ∀ c ∈ marker.stem.toList ++ suffix, Name.isMarkerChar c = true :=
    List.forall_mem_append.mpr ⟨marker.stem_chars, chars⟩
  cases most with
  | some n =>
    refine .pure ⟨fun c member => whole c (List.mem_of_mem_take member), ?_, nofun⟩
    rintro _ ⟨⟩
    exact List.length_take_le n.toNat _
  | none =>
    refine .pure ⟨whole, nofun, fun _ empty => ?_⟩
    exact marker.stem_ne_nil (List.append_eq_nil_iff.mp empty).1

theorem fillerWords_chars :
    ∀ w ∈ fillerWords, ∀ c ∈ w.toList, Name.isMarkerChar c = true := by
  have safe : ∀ w ∈ fillerWords, w.toList.all Name.isMarkerChar = true := by decide
  exact fun w member => List.all_eq_true.mp (safe w member)

def isTextChar (c : Char) : Bool := Name.isMarkerChar c || c == ' '

theorem isTextChar_of_isMarkerChar {c : Char} (h : Name.isMarkerChar c = true) :
    isTextChar c = true := by simp [isTextChar, h]

theorem drawText_eq (marker : Marker) (settings : ValueSettings) (source : Source) :
    ∃ word ∈ fillerWords, (drawText marker settings source).1 =
      (trackedText marker settings none source).1.map fun token => word.toList ++ ' ' :: token := by
  rw [drawText, Random.trial_bind_apply]
  obtain ⟨result, rest⟩ := trackedText marker settings none source
  cases result with
  | error cause => exact ⟨"lorem", by decide, rfl⟩
  | ok token => exact ⟨_, drawItem_mem (by decide) rest, rfl⟩

theorem drawText_chars :
    Gives (drawText marker settings) (fun text => ∀ c ∈ text, isTextChar c = true)
      (Overflows (suffixLength marker settings)) := by
  refine .bind (trackedText_token none) fun token ⟨chars, _, _⟩ => ?_
  refine .bind (.lift (drawItem_mem (by decide))) fun word member => .pure ?_
  have letters := fillerWords_chars word member
  refine List.forall_mem_append.mpr ⟨fun c inside => isTextChar_of_isMarkerChar (letters c inside), ?_⟩
  refine List.forall_mem_cons.mpr ⟨by decide, fun c inside => ?_⟩
  exact isTextChar_of_isMarkerChar (chars c inside)

section Markup

open Markup (Balances)

def Plain (text : List Char) : Prop := text ≠ [] ∧ ∀ c ∈ text, c ≠ '<' ∧ c ≠ '&'

theorem plain_of_chars {text : List Char} (nonempty : text ≠ [])
    (chars : ∀ c ∈ text, isTextChar c = true) : Plain text := by
  refine ⟨nonempty, fun c member => ⟨?_, ?_⟩⟩
  · rintro rfl
    exact absurd (chars _ member) (by decide)
  · rintro rfl
    exact absurd (chars _ member) (by decide)

theorem Plain.append {front back : List Char} (h : Plain front) (more : Plain back) :
    Plain (front ++ back) :=
  ⟨by simp [h.1], List.forall_mem_append.mpr ⟨h.2, more.2⟩⟩

def Encloses (t : String × String) : Prop :=
  ∀ {lead token rest : List Char} {opened : List (List Char)}, Plain lead → Plain token →
    rest.head? = some '<' → Balances opened rest →
      Balances opened (lead ++ t.1.toList ++ token ++ t.2.toList ++ rest)

def paired (name : String) : String × String := ("<" ++ name ++ ">", "</" ++ name ++ ">")

def bare (name : String) : String := "<" ++ name ++ "/>"

variable {name : String}

theorem encloses_paired (safe : Name.isMarkerSafe name.toList = true) : Encloses (paired name) := by
  intro lead token rest opened before inside tag h
  have whole : lead ++ (paired name).1.toList ++ token ++ (paired name).2.toList ++ rest =
      lead ++ '<' :: (name.toList ++ '>' ::
        (token ++ '<' :: '/' :: (name.toList ++ '>' :: rest))) := by simp [paired]
  rw [whole]
  have closed := (h.close safe).text rfl inside.1 inside.2
  exact (closed.start safe).text rfl before.1 before.2

theorem encloses_before (safe : Name.isMarkerSafe name.toList = true) : Encloses (bare name, "") := by
  intro lead token rest opened before inside tag h
  have whole : lead ++ (bare name).toList ++ token ++ "".toList ++ rest =
      lead ++ '<' :: (name.toList ++ '/' :: '>' :: (token ++ rest)) := by simp [bare]
  rw [whole]
  have token := h.text tag inside.1 inside.2
  exact (token.empty safe).text rfl before.1 before.2

theorem encloses_behind (safe : Name.isMarkerSafe name.toList = true) : Encloses ("", bare name) := by
  intro lead token rest opened before inside tag h
  have whole : lead ++ "".toList ++ token ++ (bare name).toList ++ rest =
      (lead ++ token) ++ '<' :: (name.toList ++ '/' :: '>' :: rest) := by simp [bare]
  have text := before.append inside
  rw [whole]
  exact (h.empty safe).text rfl text.1 text.2

theorem encloses_of_mem : ∀ t ∈ templates, Encloses t := by
  have listed : templates = [paired "b", paired "i", paired "em", paired "span", (bare "br", ""),
      ("", bare "br")] := by decide
  rw [listed]
  simp only [List.forall_mem_cons]
  exact ⟨encloses_paired (by decide), encloses_paired (by decide), encloses_paired (by decide),
    encloses_paired (by decide), encloses_before (by decide), encloses_behind (by decide), nofun⟩

theorem drawMarkup_eq (marker : Marker) (settings : ValueSettings) (source : Source) :
    ∃ word ∈ fillerWords, ∃ t ∈ templates, (drawMarkup marker settings source).1 =
      (trackedText marker settings none source).1.map fun token =>
        word.toList ++ ' ' :: t.1.toList ++ token ++ t.2.toList := by
  rw [drawMarkup, Random.trial_bind_apply]
  obtain ⟨result, rest⟩ := trackedText marker settings none source
  cases result with
  | error cause => exact ⟨"lorem", by decide, ("<b>", "</b>"), by decide, rfl⟩
  | ok token => exact ⟨_, drawItem_mem (by decide) _, _, drawItem_mem (by decide) rest, rfl⟩

theorem drawMarkup_shape : Gives (drawMarkup marker settings) (fun text =>
    ∃ lead token, ∃ t ∈ templates, Plain lead ∧ Plain token ∧
      text = lead ++ t.1.toList ++ token ++ t.2.toList) (Overflows (suffixLength marker settings)) := by
  refine .bind (trackedText_token none) fun token ⟨chars, _, nonempty⟩ => ?_
  refine .bind (.lift (drawItem_mem (by decide))) fun t chosen => ?_
  refine .bind (.lift (drawItem_mem (by decide))) fun word member => .pure ?_
  have inside : Plain token :=
    plain_of_chars (nonempty rfl) fun c member => isTextChar_of_isMarkerChar (chars c member)
  have before : Plain (word.toList ++ [' ']) := by
    have letters := fillerWords_chars word member
    refine plain_of_chars (by simp) (List.forall_mem_append.mpr ⟨fun c inside => ?_, ?_⟩)
    · exact isTextChar_of_isMarkerChar (letters c inside)
    · exact List.forall_mem_singleton.mpr (by decide)
  exact ⟨word.toList ++ [' '], token, t, chosen, before, inside, by simp⟩

theorem drawMarkup_fragment : Gives (drawMarkup marker settings)
    (fun text => Markup.isFragment (String.ofList text) = true)
    (Overflows (suffixLength marker settings)) := by
  refine drawMarkup_shape.mono (fun text framed => ?_) fun _ => id
  obtain ⟨lead, token, t, chosen, before, inside, rfl⟩ := framed
  apply Markup.isFragment_of_balances
  exact encloses_of_mem t chosen before inside (by decide) Markup.balances_closing

end Markup

section Integers

theorem min_le_right (a b : Int64) : min a b ≤ b := by
  have smaller : min a b = if a ≤ b then a else b := rfl
  rw [smaller]
  split
  · assumption
  · exact Int64.le_refl b

variable {least most : Int64}

theorem integerHigh_eq (h : c.maxValue = some most) : integerHigh settings c = most := by
  rw [integerHigh, h, Option.getD_some]

theorem integerLow_eq (h : c.minValue = some least) : integerLow settings c = least := by
  rw [integerLow, h, Option.getD_some]

theorem integerLow_le_integerHigh
    (possible : ∀ least ∈ c.minValue, ∀ most ∈ c.maxValue, least ≤ most)
    (bounded : c.maxValue = some most) : integerLow settings c ≤ most := by
  cases low : c.minValue with
  | none =>
    rw [integerLow, low, integerHigh_eq bounded, Option.getD_none]
    exact min_le_right settings.integerMin most
  | some least =>
    rw [integerLow_eq low]
    exact possible least low most bounded

theorem drawInteger_within
    (possible : ∀ least ∈ c.minValue, ∀ most ∈ c.maxValue, least ≤ most) :
    Always (drawInteger settings c) fun n => ∃ i : Int64, i.toInt = n ∧
      (∀ least ∈ c.minValue, least ≤ i) ∧ ∀ most ∈ c.maxValue, i ≤ most := by
  unfold drawInteger
  by_cases narrow : (integerHigh settings c).toInt ≤ (integerLow settings c).toInt
  · rw [if_pos narrow]
    refine .pure ⟨integerLow settings c, rfl, fun least low => ?_, fun most high => ?_⟩
    · rw [integerLow_eq low]
      exact Int64.le_refl least
    · exact integerLow_le_integerHigh possible high
  · rw [if_neg narrow]
    intro source
    obtain ⟨above, below⟩ :=
      Random.between_mem .wide (Int.le_of_lt (Int.not_le.mp narrow)) source
    have low := (integerLow settings c).le_toInt
    have high := (integerHigh settings c).toInt_lt
    have value := Int64.toInt_ofInt_of_le (Int.le_trans low above) (Int.lt_of_le_of_lt below high)
    refine ⟨_, value, fun least bounded => ?_, fun most bounded => ?_⟩
    · rw [Int64.le_iff_toInt_le, value]
      exact integerLow_eq bounded ▸ above
    · rw [Int64.le_iff_toInt_le, value]
      exact integerHigh_eq bounded ▸ below

end Integers

end TaintScan.Synthesis
