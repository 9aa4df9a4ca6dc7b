import TaintScan.Proofs.Markup.Entity
import TaintScan.Proofs.Markup.Tag

namespace TaintScan

inductive Mark
  | opening (name : String) (attributes : List (String × String))
  | alone (name : String) (attributes : List (String × String))
  | closing (name : String)
  | text (content : String)
deriving DecidableEq

namespace Mark

open Markup (Event RawAttribute Tag escape unescape)

/-- The attributes of a tag with the references in their values replaced, if all are known. -/
def attributesOf (lenient : Bool) (tag : Tag) : Option (List (String × String)) :=
  match tag.eachAttribute lenient with
  | .ok attributes => attributes.mapM fun a =>
    (unescape a.value).map fun value => (String.ofList a.key, String.ofList value)
  | .error _ => none

def ofEvent (lenient : Bool) : Event → Option Mark
  | .start tag => (attributesOf lenient tag).map (opening (String.ofList tag.name))
  | .empty tag => (attributesOf lenient tag).map (alone (String.ofList tag.name))
  | .close name => some (closing (String.ofList name))
  | .text raw => (unescape raw).map fun content => text (String.ofList content)
  | _ => none

def addText (content : String) : List Mark → List Mark
  | text behind :: rest => text (content ++ behind) :: rest
  | marks => if content = "" then marks else text content :: marks

/-- The marks with texts that follow one another as one run, and without empty texts. -/
def runs : List Mark → List Mark
  | [] => []
  | text content :: rest => addText content (runs rest)
  | opening name attributes :: rest => opening name attributes :: runs rest
  | alone name attributes :: rest => alone name attributes :: runs rest
  | closing name :: rest => closing name :: runs rest

theorem addText_empty (marks : List Mark) : addText "" marks = marks := by
  unfold addText
  split
  · rw [String.empty_append]
  · exact if_pos rfl

theorem addText_of_ne {content : String} {marks : List Mark} (nonempty : content ≠ "")
    (apart : ∀ behind rest, marks ≠ text behind :: rest) :
    addText content marks = text content :: marks := by
  unfold addText
  split
  · exact absurd rfl (apart _ _)
  · exact if_neg nonempty

def tag? : Mark → Option Mark
  | opening name attributes => some (opening name (attributes.map fun a => (a.1, "")))
  | alone name attributes => some (alone name (attributes.map fun a => (a.1, "")))
  | closing name => some (closing name)
  | text _ => none

/-- The tags among marks, without the values of attributes. -/
def skeleton (marks : List Mark) : List Mark := marks.filterMap tag?

theorem skeleton_append (front back : List Mark) :
    skeleton (front ++ back) = skeleton front ++ skeleton back := List.filterMap_append

theorem skeleton_opening (name : String) (attributes : List (String × String)) (rest : List Mark) :
    skeleton (opening name attributes :: rest) =
      opening name (attributes.map fun a => (a.1, "")) :: skeleton rest := rfl

theorem skeleton_addText (content : String) (marks : List Mark) :
    skeleton (addText content marks) = skeleton marks := by
  unfold addText
  split
  · rfl
  · split <;> rfl

theorem skeleton_runs (marks : List Mark) : skeleton (runs marks) = skeleton marks := by
  induction marks with
  | nil => rfl
  | cons m rest ih =>
    cases m with
    | text content => rw [runs, skeleton_addText, ih]; rfl
    | opening name attributes => exact congrArg (_ :: ·) ih
    | alone name attributes => exact congrArg (_ :: ·) ih
    | closing name => exact congrArg (_ :: ·) ih

def rawOf (a : String × String) : RawAttribute := ⟨a.1.toList, escape a.2.toList⟩

def writtenAttributes (attributes : List (String × String)) : List Char :=
  (attributes.map rawOf).flatMap RawAttribute.written

variable {attributes : List (String × String)}

theorem quotable_rawOf (solid : ∀ a ∈ attributes, Name.Solid a.1.toList) :
    ∀ raw ∈ attributes.map rawOf, raw.Quotable := by
  intro raw member
  obtain ⟨a, inside, rfl⟩ := List.mem_map.mp member
  exact ⟨solid a inside, fun c written => (Markup.ne_of_mem_escape c written).2.2.2⟩

theorem attributesOf_written (lenient : Bool) (name : List Char)
    (solid : ∀ a ∈ attributes, Name.Solid a.1.toList) :
    attributesOf lenient ⟨name, writtenAttributes attributes⟩ = some attributes := by
  have each := Markup.eachAttribute_tag lenient name (quotable_rawOf solid)
  have unescaped : (attributes.map rawOf).mapM (fun a => (unescape a.value).map fun value =>
      (String.ofList a.key, String.ofList value)) = some attributes := by
    clear each solid
    induction attributes with
    | nil => rfl
    | cons a rest ih =>
      rw [List.map_cons, List.mapM_cons, ih]
      simp [rawOf, Markup.unescape_escape]
  rw [attributesOf, writtenAttributes, each]
  exact unescaped

inductive Shows (lenient : Bool) : List Char → List Mark → Prop
  | finished : Shows lenient [] []
  | tag {cs rest e m marks} (read : Markup.next ('<' :: cs) = .event e rest)
      (known : ofEvent lenient e = some m) (unlike : ∀ content, m ≠ .text content)
      (behind : Shows lenient rest marks) : Shows lenient ('<' :: cs) (m :: marks)
  | text {c cs content marks} (plain : c ≠ '<')
      (known : unescape (c :: cs.takeWhile (· != '<')) = some content)
      (behind : Shows lenient (cs.dropWhile (· != '<')) marks) :
      Shows lenient (c :: cs) (.text (String.ofList content) :: marks)

namespace Shows

variable {lenient : Bool} {cs rest name : List Char} {marks : List Mark}

theorem read (h : Shows lenient cs marks) : ∃ events, events.mapM (ofEvent lenient) = some marks ∧
    ∀ position, Markup.readFrom position cs = ⟨events, none⟩ := by
  induction h with
  | finished =>
    refine ⟨[], rfl, fun position => ?_⟩
    rw [Markup.readFrom]
    rfl
  | @tag _ _ e _ _ read known unlike behind ih =>
    obtain ⟨events, shown, more⟩ := ih
    refine ⟨e :: events, by simp [known, shown], fun position => ?_⟩
    rw [Markup.readFrom_of_next read, more]
    rfl
  | @text c cs _ _ plain known behind ih =>
    obtain ⟨events, shown, more⟩ := ih
    refine ⟨.text (c :: cs.takeWhile (· != '<')) :: events, by simp [ofEvent, known, shown],
      fun position => ?_⟩
    rw [Markup.readFrom_of_next (Markup.next_text plain), more]
    rfl

theorem escape_before {value : String} (nonempty : value ≠ "") {content : List Char}
    (known : unescape (rest.takeWhile (· != '<')) = some content)
    (behind : Shows lenient (rest.dropWhile (· != '<')) marks) :
    Shows lenient (escape value.toList ++ rest)
      (.text (value ++ String.ofList content) :: marks) := by
  have plain : ∀ c ∈ escape value.toList, c ≠ '<' := fun c member =>
    (Markup.ne_of_mem_escape c member).1
  have joined := Markup.unescape_escape_append value.toList (rest.takeWhile (· != '<'))
  have whole : value ++ String.ofList content = String.ofList (value.toList ++ content) := by
    rw [String.ofList_append, String.ofList_toList]
  have written : escape value.toList ≠ [] := fun none =>
    nonempty (String.toList_eq_nil_iff.mp (Markup.escape_eq_nil.mp none))
  rw [whole]
  obtain ⟨c, more, split⟩ := List.exists_cons_of_ne_nil written
  rw [split] at plain joined ⊢
  obtain ⟨first, others⟩ := List.forall_mem_cons.mp plain
  have goesOn : ∀ d ∈ more, (d != '<') = true := fun d member => by simpa using others d member
  rw [List.cons_append] at joined ⊢
  refine .text first ?_ ?_
  · rw [List.takeWhile_append_of_pos goesOn, joined, known]
    rfl
  · rw [List.dropWhile_append_of_pos goesOn]
    exact behind

theorem escape_append (h : Shows lenient rest marks) (value : String) :
    Shows lenient (escape value.toList ++ rest) (addText value marks) := by
  by_cases empty : value = ""
  · rw [empty, addText_empty]
    exact h
  have nothing : unescape [] = some [] := by rw [unescape]
  -- At the end and in front of a tag the run ends with the value, in front of a text it goes on.
  cases h with
  | finished =>
    rw [addText_of_ne empty fun _ _ same => List.cons_ne_nil _ _ same.symm]
    have shown := @escape_before lenient [] [] value empty [] nothing .finished
    simpa using shown
  | @tag cs _ _ _ _ read known unlike behind =>
    rw [addText_of_ne empty fun content _ same => unlike content (List.cons.inj same).1]
    have shown := @escape_before lenient ('<' :: cs) _ value empty [] nothing
      (.tag read known unlike behind)
    simpa using shown
  | @text c cs content _ first known behind =>
    have goesOn : (c != '<') = true := by simpa using first
    refine escape_before empty ?_ ?_
    · rw [List.takeWhile_cons, goesOn]
      exact known
    · rw [List.dropWhile_cons, goesOn]
      exact behind

theorem opening (h : Shows lenient rest marks) (name : String) (solid : Name.Solid name.toList)
    (keys : ∀ a ∈ attributes, Name.Solid a.1.toList) :
    Shows lenient ('<' :: (name.toList ++ writtenAttributes attributes ++ '>' :: rest))
      (.opening name attributes :: marks) := by
  refine .tag (Markup.next_start solid (quotable_rawOf keys)) ?_ nofun h
  have known := attributesOf_written lenient name.toList keys
  rw [writtenAttributes] at known
  rw [ofEvent, known, String.ofList_toList]
  rfl

theorem alone (h : Shows lenient rest marks) (name : String) (solid : Name.Solid name.toList)
    (keys : ∀ a ∈ attributes, Name.Solid a.1.toList) :
    Shows lenient ('<' :: (name.toList ++ writtenAttributes attributes ++ '/' :: '>' :: rest))
      (.alone name attributes :: marks) := by
  refine .tag (Markup.next_empty solid (quotable_rawOf keys)) ?_ nofun h
  have known := attributesOf_written lenient name.toList keys
  rw [writtenAttributes] at known
  rw [ofEvent, known, String.ofList_toList]
  rfl

theorem closing (h : Shows lenient rest marks) (name : String) (solid : Name.Solid name.toList) :
    Shows lenient ('<' :: '/' :: (name.toList ++ '>' :: rest)) (.closing name :: marks) := by
  refine .tag (Markup.next_close solid) ?_ nofun h
  rw [ofEvent, String.ofList_toList]

end Shows

end Mark

end TaintScan
