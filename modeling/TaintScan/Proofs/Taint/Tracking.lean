import Mathlib.Data.List.Infix
import TaintScan.Proofs.Document.Completeness
import TaintScan.Proofs.Taint.Breakdown
import TaintScan.Proofs.Taint.Selection

namespace TaintScan

namespace Marker

variable {m : Marker} {c : Char} {cs front back : List Char}

theorem stem_prefix_run_iff : m.stem.toList <+: run cs ↔ m.stem.toList <+: cs := by
  constructor
  · exact fun h => h.trans (List.takeWhile_prefix _)
  · rintro ⟨rest, rfl⟩
    rw [run, List.takeWhile_append_of_pos m.stem_chars]
    exact List.prefix_append _ _

theorem beginsToken_congr {ds : List Char} (h : run cs = run ds) :
    m.BeginsToken cs ↔ m.BeginsToken ds := by
  rw [BeginsToken, BeginsToken, ← stem_prefix_run_iff, h, stem_prefix_run_iff]

theorem runIn_eq_none_iff_suffix : m.runIn cs = none ↔ ∀ tail, tail <:+ cs → ¬ m.BeginsToken tail := by
  rw [runIn_eq_none_iff]
  constructor
  · intro absent tail behind
    rw [List.suffix_iff_eq_drop.mp behind]
    exact absent _
  · exact fun absent p => absent _ (List.drop_suffix p cs)

theorem run_of_chars (chars : ∀ c ∈ cs, Name.isMarkerChar c = true) : run cs = cs :=
  List.takeWhile_eq_self_iff.mpr chars

theorem runIn_of_chars (chars : ∀ c ∈ cs, Name.isMarkerChar c = true) (stands : m.stem.toList <+: cs)
    (long : m.minLength ≤ cs.length) : m.runIn cs = some cs := by
  have whole := run_of_chars chars
  have token : m.BeginsToken cs := ⟨stands, by rwa [whole]⟩
  rw [runIn_of_begins token, whole]

theorem runIn_of_length_lt (short : cs.length < m.minLength) : m.runIn cs = none := by
  refine runIn_eq_none_iff.mpr fun p token => ?_
  have run : (run (cs.drop p)).length ≤ (cs.drop p).length := (List.takeWhile_prefix _).length_le
  have rest : (cs.drop p).length ≤ cs.length := (List.drop_suffix p cs).length_le
  exact absurd (token.2.trans (run.trans rest)) (Nat.not_le_of_lt short)

end Marker

namespace Synthesis

open TaintScan.Random (Gives)

variable {ctx : Context} {m : Marker} {settings : ValueSettings} {c : DataConstraint}
  {mode : Option RawMode} {r : ValueRule}

def fitting (most : Option UInt64) (cs : List Char) : List Char :=
  match most with
  | some n => cs.take n.toNat
  | none => cs

theorem trackedText_eq (m : Marker) (settings : ValueSettings) (most : Option UInt64) :
    Gives (trackedText m settings most) (fun text => ∃ suffix,
      (∀ c ∈ suffix, Name.isMarkerChar c = true) ∧ m.minLength ≤ (m.stem.toList ++ suffix).length ∧
        text = fitting most (m.stem.toList ++ suffix)) (Overflows (suffixLength m settings)) := by
  refine .bind (drawSuffix_chars _) fun suffix known => .pure ⟨suffix, known.2.2, ?_, ?_⟩
  · rw [List.length_append, known.2.1, suffixLength, String.length_toList]
    omega
  · cases most with
    | none => rfl
    | some n => rfl

/-- A text begins with what fits of the stem, and it is a token as a whole when a token fits. -/
structure Tracks (m : Marker) (most : Option UInt64) (value : String) (token : Option String) : Prop where
  stem : fitting most m.stem.toList <+: value.toList
  short : ∀ n ∈ most, value.length ≤ n.toNat
  whole : (∀ n ∈ most, m.minLength ≤ n.toNat) → token = some value
  cut : ∀ n ∈ most, n.toNat < m.minLength → token = none

theorem fitting_prefix {front whole : List Char} (h : front <+: whole) (most : Option UInt64) :
    fitting most front <+: fitting most whole := by
  cases most with
  | none => exact h
  | some n =>
    obtain ⟨rest, rfl⟩ := h
    rw [fitting, fitting, List.take_append]
    exact List.prefix_append _ _

theorem length_fitting {most : Option UInt64} {cs : List Char} {least : Nat} (long : least ≤ cs.length)
    (fits : ∀ n ∈ most, least ≤ n.toNat) : least ≤ (fitting most cs).length := by
  cases most with
  | none => exact long
  | some n =>
    rw [fitting, List.length_take]
    exact Nat.le_min.mpr ⟨fits n rfl, long⟩

theorem fitting_eq_self {most : Option UInt64} {cs : List Char} (fits : ∀ n ∈ most, cs.length ≤ n.toNat) :
    fitting most cs = cs := by
  cases most with
  | none => rfl
  | some n => exact List.take_of_length_le (fits n rfl)

theorem trackedText_tracks (m : Marker) (settings : ValueSettings) (most : Option UInt64) :
    Gives (trackedText m settings most)
      (fun text => Tracks m most (String.ofList text) (m.tokenIn (String.ofList text)))
      (Overflows (suffixLength m settings)) := by
  refine ((trackedText_token most).and (trackedText_eq m settings most)).mono
    (fun text known => ?_) fun _ => id
  obtain ⟨⟨chars, short, -⟩, suffix, -, long, shape⟩ := known
  have stem := fitting_prefix (List.prefix_append m.stem.toList suffix) most
  rw [← shape] at stem
  refine ⟨?_, ?_, fun fits => ?_, fun n bound cut => ?_⟩
  · rwa [String.toList_ofList]
  · rwa [String.length_ofList]
  · have stands : m.stem.toList <+: text := by
      rwa [fitting_eq_self fun n bound => m.stem_le.trans (fits n bound)] at stem
    have room : m.minLength ≤ text.length := shape ▸ length_fitting long fits
    rw [Marker.tokenIn_eq, String.toList_ofList, Marker.runIn_of_chars chars stands room]
    rfl
  · have less : text.length < m.minLength := Nat.lt_of_le_of_lt (short n bound) cut
    rw [Marker.tokenIn_eq, String.toList_ofList, Marker.runIn_of_length_lt less]
    rfl

theorem drawFresh_text (type : c.dataType = .string ∨ c.dataType = .other) :
    drawFresh m settings c mode = String.ofList <$> drawChars m settings c.maxLength mode := by
  unfold drawFresh
  rcases type with type | type
  · rw [type]
  · rw [type]

/-- A text without a prescribed or suggested value is tracked exactly if it has room for a token,
whatever is drawn, and the ledger records the whole text as the token. Only a suffix that is too long
for any text keeps it from being made up. -/
theorem text_tracked (type : c.dataType = .string ∨ c.dataType = .other) (unlisted : c.discreteValues = []) :
    (∀ m settings, Gives (drawValue m settings c none)
      (fun value => Tracks m c.maxLength value (m.tokenIn value)) (Overflows (suffixLength m settings))) ∧
      ∀ (ctx : Context) (r : ValueRule) (object : SchemaObject), ctx.schema.object r.target = .ok object →
        object.valueConstraint? = some c → r.mode = none → usableRequest? c r = none →
          if Breakdown.mostBytes < suffixLength ctx.marker ctx.settings then
            describe ctx r = .error (.breakdown .capacity)
          else ∃ d, describe ctx r = .ok d ∧ d.requested = false ∧
            Tracks ctx.marker c.maxLength d.value d.marker := by
  have drawn : ∀ m settings, Gives (drawValue m settings c none)
      (fun value => Tracks m c.maxLength value (m.tokenIn value)) (Overflows (suffixLength m settings)) := by
    intro m settings
    rw [drawValue_of_unlisted unlisted, drawFresh_text type]
    exact .map (trackedText_tracks m settings c.maxLength) fun text known => known
  refine ⟨drawn, ?_⟩
  intro ctx r object known constraint plain unusable
  rw [describe_of_unusable known constraint unusable]
  cases made : madeUp ctx r c with
  | error cause =>
    obtain ⟨rfl, long⟩ := (breaks_of_unlisted type unlisted).mp (drawValue_eq_error_iff.mp made)
    rw [if_pos long]
  | ok value =>
    have room : ¬ Breakdown.mostBytes < suffixLength ctx.marker ctx.settings := fun long =>
      nomatch made.symm.trans (drawValue_eq_error_iff.mpr ((breaks_of_unlisted type unlisted).mpr ⟨rfl, long⟩))
    rw [if_neg room]
    rw [madeUp, plain] at made
    exact ⟨_, rfl, rfl, (drawn ctx.marker ctx.settings).of_eq_ok made⟩

section Trial

open Document (trialObject trialRule trialMarker)

def noteType : ElementType :=
  (ElementType.ofContent (trialObject 1) "note" .mixed).withAttribute
    (.mandatory (trialObject 2) "tag" (.withMaxLength .anyText 5))

def noteSchema : Schema :=
  ⟨"note.xsl", 1, [noteType], [noteType.reference (trialObject 3) "note"], [], []⟩

def tagContext : Context := ⟨noteSchema, trialMarker, .standard, 7⟩

def tagRule : ValueRule := ⟨trialRule 4, trialObject 2, some "longer", none⟩

theorem text_tracked_one_short : ∃ d, describe tagContext tagRule = .ok d ∧ d.requested = false ∧
    ['z', 'q'] <+: d.value.toList ∧ d.value.length ≤ 5 ∧ d.marker = none := by
  have known : tagContext.schema.object tagRule.target = .ok (.attributeDecl noteType
      (.mandatory (trialObject 2) "tag" (.withMaxLength .anyText 5))) := rfl
  obtain ⟨-, tracked⟩ := text_tracked (c := .withMaxLength .anyText 5) (.inl rfl) rfl
  have some := tracked tagContext tagRule _ known rfl rfl rfl
  rw [if_neg (by decide)] at some
  obtain ⟨d, described, fresh, tracks⟩ := some
  exact ⟨d, described, fresh, tracks.stem, tracks.short 5 rfl, tracks.cut 5 rfl (by decide)⟩

end Trial

end Synthesis

end TaintScan
