import TaintScan.Proofs.Analysis.DocumentOrder
import TaintScan.Proofs.Analysis.Provenance

namespace TaintScan.Engine

section FirstOfEach

variable {α κ : Type} [DecidableEq κ] {key : α → κ}

theorem firstOfEach_eq_eraseDupsBy (seen : List κ) (items : List α) :
    firstOfEach key seen items =
      (items.filter fun a => key a ∉ seen).eraseDupsBy fun a b => decide (key a = key b) := by
  -- What is kept now erases the later items of its key: there, the key is one of those seen.
  induction items generalizing seen with
  | nil => rfl
  | cons a rest ih =>
    rw [firstOfEach]
    by_cases known : key a ∈ seen
    · rw [if_pos known, ih, List.filter_cons_of_neg (by simpa using known)]
    · rw [if_neg known, ih, List.filter_cons_of_pos (by simpa using known), List.eraseDupsBy_cons,
        List.filter_filter]
      congr 3
      funext b
      by_cases same : key b = key a
      · simp [same]
      · simp [same]

theorem not_mem_of_mem_firstOfEach {seen : List κ} {items : List α} :
    ∀ a ∈ firstOfEach key seen items, key a ∉ seen := by
  induction items generalizing seen with
  | nil => exact nofun
  | cons first rest ih =>
    intro a member
    rw [firstOfEach] at member
    split at member
    · exact ih a member
    · rename_i fresh
      rcases List.mem_cons.mp member with rfl | member
      · exact fresh
      · exact fun known => ih a member (List.mem_cons_of_mem _ known)

theorem nodup_firstOfEach (seen : List κ) (items : List α) :
    ((firstOfEach key seen items).map key).Nodup := by
  induction items generalizing seen with
  | nil => exact List.nodup_nil
  | cons a rest ih =>
    rw [firstOfEach]
    split
    · exact ih seen
    · rw [List.map_cons, List.nodup_cons]
      refine ⟨fun member => ?_, ih _⟩
      obtain ⟨b, later, same⟩ := List.mem_map.mp member
      exact not_mem_of_mem_firstOfEach b later (same ▸ List.mem_cons_self)

theorem find?_firstOfEach {seen : List κ} {k : κ} (fresh : k ∉ seen) (items : List α) :
    (firstOfEach key seen items).find? (fun a => key a = k) =
      items.find? fun a => key a = k := by
  induction items generalizing seen with
  | nil => rfl
  | cons a rest ih =>
    rw [firstOfEach]
    by_cases known : key a ∈ seen
    · have other : key a ≠ k := fun same => fresh (same ▸ known)
      rw [if_pos known, ih fresh, List.find?_cons_of_neg (by simpa using other)]
    · rw [if_neg known]
      by_cases same : key a = k
      · rw [List.find?_cons_of_pos (by simpa using same), List.find?_cons_of_pos (by simpa using same)]
      · rw [List.find?_cons_of_neg (by simpa using same), List.find?_cons_of_neg (by simpa using same)]
        exact ih fun member => (List.mem_cons.mp member).elim (fun h => same h.symm) fresh

end FirstOfEach

namespace Context

variable {ctx : Context} {r : Rule} {s : Site} {v : Descriptor}

/-- A token occurs in the text that a rule looks at, and belongs to a value that attacker input can
reach. -/
structure Hits (ctx : Context) (r : Rule) (s : Site) (v : Descriptor) : Prop where
  seen : ∃ token text, v.marker = some token ∧ r.probe s = some text ∧ token.toList <:+: text.toList
  reached : ∃ object, ctx.schema.object v.object = .ok object ∧ object.isUserModifiable = true

theorem isReachable_iff : ctx.isReachable v = true ↔
    ∃ object, ctx.schema.object v.object = .ok object ∧ object.isUserModifiable = true := by
  unfold isReachable
  cases ctx.schema.object v.object <;> simp

theorem hits_iff : ctx.Hits r s v ↔
    (r.probe s).any v.isFoundIn = true ∧ ctx.isReachable v = true := by
  rw [isReachable_iff]
  constructor
  · rintro ⟨⟨token, text, marked, looked, inside⟩, reached⟩
    refine ⟨?_, reached⟩
    rw [looked]
    exact Descriptor.isFoundIn_iff.mpr ⟨token, marked, inside⟩
  · rintro ⟨seen, reached⟩
    cases looked : r.probe s with
    | none =>
      rw [looked] at seen
      cases seen
    | some text =>
      rw [looked] at seen
      obtain ⟨token, marked, inside⟩ := Descriptor.isFoundIn_iff.mp seen
      exact ⟨⟨token, text, marked, looked, inside⟩, reached⟩

instance : Decidable (ctx.Hits r s v) := decidable_of_iff _ hits_iff.symm

/-- What is to be detected at a site: by rule, and then in the order of the ledger. -/
def hitsAt (ctx : Context) (s : Site) : List Detection :=
  (Rule.all.filter fun r => r.category = s.category ∧ r.isApplicable s ctx.settings = true).flatMap
    fun r => (ctx.ledger.toList.filter fun v => ctx.Hits r s v).map (ctx.detection r s)

theorem detect_eq (ctx : Context) (r : Rule) (s : Site) :
    ctx.detect r s = (ctx.ledger.toList.filter fun v => ctx.Hits r s v).map (ctx.detection r s) := by
  unfold detect
  cases looked : r.probe s with
  | none =>
    have unseen : (ctx.ledger.toList.filter fun v => ctx.Hits r s v) = [] := by
      refine List.filter_eq_nil_iff.mpr fun v _ => ?_
      simp [hits_iff, looked]
    rw [unseen]
    rfl
  | some text =>
    simp only [trackedIn, Ledger.findIn, Ledger.tracked, List.filter_filter]
    congr 2
    funext v
    have tracked : v.isFoundIn text = true → v.isTracked = true :=
      fun found => (Descriptor.isFoundIn_iff.mp found).isTracked
    rw [Bool.eq_iff_iff, decide_eq_true_iff, hits_iff, looked, Bool.and_eq_true, Bool.and_eq_true]
    constructor
    · rintro ⟨reached, found, -⟩
      exact ⟨found, reached⟩
    · rintro ⟨found, reached⟩
      exact ⟨reached, found, tracked found⟩

theorem detectAt_eq (ctx : Context) (s : Site) : ctx.detectAt Rule.all s = ctx.hitsAt s := by
  unfold detectAt hitsAt
  congr 1
  · funext r
    exact ctx.detect_eq r s
  · congr 1
    funext r
    simp [attacks]

theorem mem_hitsAt {d : Detection} : d ∈ ctx.hitsAt s ↔ ∃ r v, r.category = s.category ∧
    r.isApplicable s ctx.settings = true ∧ v ∈ ctx.ledger.toList ∧ ctx.Hits r s v ∧
      ctx.detection r s v = d := by
  simp only [hitsAt, List.mem_flatMap, List.mem_map, List.mem_filter, decide_eq_true_eq]
  constructor
  · rintro ⟨r, ⟨-, category, applies⟩, v, ⟨listed, hit⟩, made⟩
    exact ⟨r, v, category, applies, listed, hit, made⟩
  · rintro ⟨r, v, category, applies, listed, hit, made⟩
    exact ⟨r, ⟨Rule.mem_all r, category, applies⟩, v, ⟨listed, hit⟩, made⟩

/-- A rule makes a detection from a value at a site of an output. -/
structure Makes (ctx : Context) (o : Output) (r : Rule) (s : Site) (v : Descriptor) (d : Detection) :
    Prop where
  site : s ∈ o.sites
  category : r.category = s.category
  applies : r.isApplicable s ctx.settings = true
  listed : v ∈ ctx.ledger.toList
  hit : ctx.Hits r s v
  made : ctx.detection r s v = d

end Context

variable (settings : AnalyzerSettings) (o : Output) (schema : Schema) (ledger : Ledger)
  (marker : Marker)

theorem analyze_standard : (standard settings).analyze o schema ledger marker =
    firstOfEach keyOf [] (o.sites.flatMap (Context.hitsAt ⟨schema, ledger, marker, settings⟩)) := by
  rw [analyze]
  congr 2
  funext s
  exact Context.detectAt_eq _ s

theorem exists_makes {settings : AnalyzerSettings} {o : Output} {schema : Schema} {ledger : Ledger}
    {marker : Marker} {d : Detection}
    (detected : d ∈ (standard settings).analyze o schema ledger marker) :
    ∃ r s v, Context.Makes ⟨schema, ledger, marker, settings⟩ o r s v d := by
  rw [analyze_standard] at detected
  obtain ⟨s, site, hit⟩ := List.mem_flatMap.mp (firstOfEach_subset d detected)
  obtain ⟨r, v, category, applies, listed, seen, made⟩ := Context.mem_hitsAt.mp hit
  exact ⟨r, s, v, site, category, applies, listed, seen, made⟩

/-- The detections are the first of each key among all that is to be detected in document order. -/
theorem analyze_eq_firstMatches :
    ∃ sites, Enumerates o.siteAt? sites ∧
      let hits := sites.flatMap (Context.hitsAt ⟨schema, ledger, marker, settings⟩)
      let found := (standard settings).analyze o schema ledger marker
      found = hits.eraseDupsBy (fun d d' => decide (keyOf d = keyOf d')) ∧
        (found.map keyOf).Nodup ∧
        (∀ d ∈ found, ∃ object, schema.object d.payload.object = .ok object ∧
          object.isUserModifiable = true) ∧
        ∀ d ∈ hits, ∃ first ∈ found, hits.find? (fun d' => keyOf d' = keyOf d) = some first := by
  refine ⟨o.sites, o.sites_enumerated, ?_⟩
  simp only [analyze_standard]
  refine ⟨?_, nodup_firstOfEach _ _, fun d member => ?_, fun d member => ?_⟩
  · rw [firstOfEach_eq_eraseDupsBy]
    simp
  · obtain ⟨s, -, hit⟩ := List.mem_flatMap.mp (firstOfEach_subset d member)
    obtain ⟨r, v, -, -, -, seen, rfl⟩ := Context.mem_hitsAt.mp hit
    exact seen.reached
  · cases found : (o.sites.flatMap (Context.hitsAt ⟨schema, ledger, marker, settings⟩)).find?
        (fun d' => keyOf d' = keyOf d) with
    | none =>
      have absent := List.find?_eq_none.mp found d member
      simp at absent
    | some first =>
      rw [← find?_firstOfEach (List.not_mem_nil (a := keyOf d))] at found
      exact ⟨first, List.mem_of_find?_eq_some found, rfl⟩

end TaintScan.Engine
