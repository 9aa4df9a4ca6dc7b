import TaintScan.Uri.Reader
import TaintScan.Proofs.Outcome
import TaintScan.Proofs.Uri.Address
import TaintScan.Proofs.Uri.Encoding

namespace TaintScan.Uri

structure Served (c : Char) : Prop where
  ascii : c.toNat < 128
  padding : isPadding c = false
  ends : endsPort c = false
  user : c ≠ '@'

instance (c : Char) : Decidable (Served c) :=
  decidable_of_iff (c.toNat < 128 ∧ isPadding c = false ∧ endsPort c = false ∧ c ≠ '@')
    ⟨fun ⟨ascii, padding, ends, user⟩ => ⟨ascii, padding, ends, user⟩,
      fun ⟨ascii, padding, ends, user⟩ => ⟨ascii, padding, ends, user⟩⟩

theorem endsAuthority_of_endsPort (kind : SchemeKind) {c : Char} (goes : endsPort c = false) :
    endsAuthority kind c = false := by
  simp only [endsPort, Bool.or_eq_false_iff] at goes
  simp [endsAuthority, isSlash, goes]

theorem Served.inside {c : Char} (served : Served c) (kind : SchemeKind) :
    endsAuthority kind c = false ∧ c ≠ '@' :=
  ⟨endsAuthority_of_endsPort kind served.ends, served.user⟩

/-- A host name is how one of letters beyond ASCII is written. -/
def Idna.Writes [Idna] (ascii : List Char) : Prop :=
  ∃ name, (∃ c ∈ name, 0x80 ≤ c.toNat) ∧ Idna.toAscii? name = some ascii

namespace Host

def Labelled (kind : SchemeKind) : Host → Prop
  | name text => kind.isSpecial = true → Label.areValid (Text.pieces (· == '.') text) = true
  | ipv4 _ | ipv6 _ => True

instance (kind : SchemeKind) : (h : Host) → Decidable (h.Labelled kind)
  | name text => inferInstanceAs
      (Decidable (kind.isSpecial = true → Label.areValid (Text.pieces (· == '.') text) = true))
  | ipv4 _ | ipv6 _ => .isTrue trivial

variable {kind : SchemeKind} {h : Host} {cs : List Char}

theorem toNat_of_not_isForbiddenInDomain {c : Char} (allowed : isForbiddenInDomain c = false) :
    c.toNat < 128 := by
  simp only [isForbiddenInDomain, Bool.or_eq_false_iff, decide_eq_false_iff_not] at allowed
  exact Nat.not_le.mp allowed.2

theorem served_of_not_isForbiddenInDomain {c : Char} (allowed : isForbiddenInDomain c = false) :
    Served c ∧ c ≠ '%' ∧ c ≠ ':' ∧ c ≠ '[' :=
  Text.ascii_induction
    (P := fun c => isForbiddenInDomain c = false → Served c ∧ c ≠ '%' ∧ c ≠ ':' ∧ c ≠ '[')
    (by decide) (toNat_of_not_isForbiddenInDomain allowed) allowed

theorem served_of_not_isForbidden {c : Char} (ascii : c.toNat < 128) (control : isControl c = false)
    (allowed : isForbidden c = false) : Served c ∧ c ≠ ':' ∧ c ≠ '[' :=
  Text.ascii_induction
    (P := fun c => isControl c = false → isForbidden c = false → Served c ∧ c ≠ ':' ∧ c ≠ '[')
    (by decide) ascii control allowed

theorem readBracketed_chars (a : Ipv6) : readBracketed (a.chars ++ [']']) = .ok (.ipv6 a) := by
  rw [readBracketed, List.getLast?_concat, List.dropLast_concat, a.read?_chars]
  rfl

theorem areValid_ipv4 (a : Ipv4) : Label.areValid (Text.pieces (· == '.') a.chars) = true := by
  have unmarked (n : Nat) : Label.mark.isPrefixOf (Text.natural n) = false := by
    refine Bool.eq_false_iff.mpr fun front => ?_
    have letter : 'x' ∈ Text.natural n := (List.isPrefixOf_iff_prefix.mp front).subset (by decide)
    exact forall_mem_toDigits (P := (· ≠ 'x')) (by decide) (by decide) n 'x' letter rfl
  apply Label.areValid_of_no_mark
  simp only [a.pieces_chars, List.any_cons, List.any_nil, unmarked, Bool.or_false]

theorem labelled_of_other (other : kind.isSpecial = false) (h : Host) : h.Labelled kind := by
  cases h with
  | name text =>
    intro web
    rw [other] at web
    cases web
  | ipv4 | ipv6 => trivial

section Kept

variable [Idna]

inductive Canonical (kind : SchemeKind) : Host → Prop
  | domain {text : List Char} (web : kind.isSpecial = true) (nonempty : text ≠ [])
    (allowed : ∀ c ∈ text, isForbiddenInDomain c = false) (lowered : Text.lowerCase text = text)
    (labels : Label.areValid (Text.pieces (· == '.') text) = true ∨ Idna.Writes text)
    (unnumbered : Ipv4.endsInNumber text = false) : Canonical kind (.name text)
  | ipv4 (web : kind.isSpecial = true) (a : Ipv4) : Canonical kind (.ipv4 a)
  | ipv6 (a : Ipv6) : Canonical kind (.ipv6 a)
  | plain {text : List Char} (other : kind.isSpecial = false) (clean : Clean isControl text)
    (allowed : ∀ c ∈ text, isForbidden c = false) : Canonical kind (.name text)

theorem canonical_of_readBracketed (read : readBracketed cs = .ok h) : h.Canonical kind := by
  rw [readBracketed] at read
  split at read
  · split at read
    · cases read
      exact .ipv6 _
    · cases read
  · cases read

structure IsDomain (domain : List Char) : Prop where
  allowed : ∀ c ∈ domain, isForbiddenInDomain c = false
  lowered : Text.lowerCase domain = domain
  labels : Label.areValid (Text.pieces (· == '.') domain) = true ∨ Idna.Writes domain

theorem isDomain_of_inAscii? {domain : List Char} (known : inAscii? cs = some domain) : IsDomain domain := by
  unfold inAscii? at known
  split at known
  · simp only at known
    split at known
    · cases known
    · rename_i kept
      cases known
      rw [Bool.or_eq_true, not_or, Bool.not_eq_true, Bool.not_eq_true', Bool.not_eq_false,
        List.any_eq_false] at kept
      exact ⟨fun c member => Bool.eq_false_iff.mpr (kept.1 c member), Text.lowerCase_lowerCase _,
        .inl kept.2⟩
  · rename_i beyond
    obtain ⟨c, member, foreign⟩ := List.all_eq_false.mp (Bool.eq_false_iff.mpr beyond)
    have outside : 0x80 ≤ c.toNat := Nat.not_lt.mp fun low => foreign (decide_eq_true low)
    exact ⟨Idna.allowed known, Idna.lowered known, .inr ⟨cs, ⟨c, member, outside⟩, known⟩⟩

theorem canonical_of_ofDomain (web : kind.isSpecial = true) (domain : IsDomain cs)
    (read : ofDomain cs = .ok h) : h.Canonical kind := by
  rw [ofDomain] at read
  split at read
  · cases read
  rename_i nonempty
  split at read
  · split at read
    · cases read
      exact .ipv4 web _
    · cases read
  · rename_i unnumbered
    cases read
    exact .domain web (List.isEmpty_eq_false_iff.mp (Bool.eq_false_iff.mpr nonempty)) domain.allowed
      domain.lowered domain.labels (Bool.eq_false_iff.mpr unnumbered)

theorem canonical_of_readDomain (web : kind.isSpecial = true) (read : readDomain cs = .ok h) :
    h.Canonical kind := by
  unfold readDomain at read
  split at read
  · exact canonical_of_readBracketed read
  · split at read
    · rename_i domain known
      obtain ⟨name, -, ascii⟩ := Option.bind_eq_some_iff.mp known
      exact canonical_of_ofDomain web (isDomain_of_inAscii? ascii) read
    · cases read

theorem canonical_of_readPlain (other : kind.isSpecial = false) (read : readPlain cs = .ok h) :
    h.Canonical kind := by
  unfold readPlain at read
  split at read
  · exact canonical_of_readBracketed read
  · split at read
    · cases read
    · rename_i allowed
      cases read
      refine .plain other (Percent.clean_encode (by decide)) ?_
      refine Percent.forall_mem_encode (by decide) fun c member _ _ => ?_
      exact Bool.eq_false_iff.mpr (List.any_eq_false.mp (Bool.eq_false_iff.mpr allowed) c member)

theorem Canonical.served (canonical : h.Canonical kind) : ∀ c ∈ h.chars, Served c := by
  cases canonical with
  | domain _ _ allowed _ _ _ =>
    exact fun c member => (served_of_not_isForbiddenInDomain (allowed c member)).1
  | ipv4 _ a => exact a.forall_mem_chars (by decide) (by decide)
  | ipv6 a =>
    refine List.forall_mem_cons.mpr ⟨by decide, List.forall_mem_append.mpr ⟨?_, ?_⟩⟩
    · exact a.forall_mem_chars (by decide) (by decide)
    · exact List.forall_mem_singleton.mpr (by decide)
  | plain _ clean allowed =>
    exact fun c member =>
      (served_of_not_isForbidden (clean c member).1 (clean c member).2 (allowed c member)).1

theorem Canonical.ne_none (canonical : h.Canonical kind) (web : kind.isSpecial = true) : h.chars ≠ [] := by
  cases canonical with
  | domain _ nonempty _ _ _ _ => exact nonempty
  | ipv4 _ a => exact a.chars_ne_nil
  | ipv6 a => exact List.cons_ne_nil _ _
  | plain other _ _ =>
    rw [web] at other
    cases other

theorem Canonical.labelled_or_writes (canonical : h.Canonical kind) :
    h.Labelled kind ∨ ∃ ascii, h = .name ascii ∧ Idna.Writes ascii := by
  cases canonical with
  | @domain text _ _ _ _ labels _ => exact labels.imp (fun valid _ => valid) fun writes => ⟨text, rfl, writes⟩
  | ipv4 | ipv6 => exact .inl trivial
  | plain other _ _ => exact .inl (labelled_of_other other _)

theorem inAscii?_eq {text : List Char} (allowed : ∀ c ∈ text, isForbiddenInDomain c = false)
    (lowered : Text.lowerCase text = text) :
    inAscii? text = if Label.areValid (Text.pieces (· == '.') text) then some text else .none := by
  have ascii : text.all (fun c => c.toNat < 0x80) = true :=
    List.all_eq_true.mpr fun c member => decide_eq_true (toNat_of_not_isForbiddenInDomain (allowed c member))
  have none := List.any_eq_false.mpr fun c member => Bool.eq_false_iff.mp (allowed c member)
  rw [inAscii?, if_pos ascii]
  simp only [lowered, none]
  cases Label.areValid (Text.pieces (· == '.') text) <;> rfl

theorem readDomain_eq {text : List Char} (allowed : ∀ c ∈ text, isForbiddenInDomain c = false)
    (lowered : Text.lowerCase text = text) : readDomain text =
      if Label.areValid (Text.pieces (· == '.') text) then ofDomain text else .error .domainName := by
  have served := fun c member => served_of_not_isForbiddenInDomain (allowed c member)
  unfold readDomain
  split
  · exact absurd rfl (served '[' List.mem_cons_self).2.2.2
  · rw [Percent.decode_of_plain fun c member => (served c member).2.1, Text.ofBytes?_toBytes,
      Option.bind_some, inAscii?_eq allowed lowered]
    cases Label.areValid (Text.pieces (· == '.') text) <;> rfl

theorem Canonical.readDomain_chars (canonical : h.Canonical kind) (web : kind.isSpecial = true) :
    readDomain h.chars = if h.Labelled kind then .ok h else .error .domainName := by
  cases canonical with
  | @domain text _ nonempty allowed lowered labels unnumbered =>
    have named : ofDomain text = .ok (.name text) := by
      rw [ofDomain, List.isEmpty_eq_false_iff.mpr nonempty, unnumbered]
      rfl
    rw [chars, readDomain_eq allowed lowered, named]
    by_cases valid : Label.areValid (Text.pieces (· == '.') text) = true
    · have labelled : Labelled kind (.name text) := fun _ => valid
      rw [if_pos valid, if_pos labelled]
    · have unlabelled : ¬ Labelled kind (.name text) := fun labelled => valid (labelled web)
      rw [if_neg valid, if_neg unlabelled]
  | ipv4 _ a =>
    have allowed : ∀ c ∈ a.chars, isForbiddenInDomain c = false :=
      a.forall_mem_chars (by decide) (by decide)
    have lowered : Text.lowerCase a.chars = a.chars :=
      (List.map_congr_left (a.forall_mem_chars (P := fun c => c.toLower = c) (by decide) (by decide))).trans
        (List.map_id _)
    have labelled : Labelled kind (.ipv4 a) := trivial
    rw [chars, readDomain_eq allowed lowered, if_pos (areValid_ipv4 a), if_pos labelled, ofDomain,
      List.isEmpty_eq_false_iff.mpr a.chars_ne_nil, a.endsInNumber_chars, a.read?_chars]
    rfl
  | ipv6 a =>
    have labelled : Labelled kind (.ipv6 a) := trivial
    rw [if_pos labelled]
    exact readBracketed_chars a
  | plain other _ _ =>
    rw [web] at other
    cases other

theorem Canonical.readPlain_chars (canonical : h.Canonical kind) (other : kind.isSpecial = false) :
    readPlain h.chars = .ok h := by
  cases canonical with
  | domain web _ _ _ _ _ =>
    rw [other] at web
    cases web
  | ipv4 web a =>
    rw [other] at web
    cases web
  | ipv6 a => exact readBracketed_chars a
  | @plain text _ clean allowed =>
    have none := List.any_eq_false.mpr fun c member => Bool.eq_false_iff.mp (allowed c member)
    rw [chars]
    unfold readPlain
    split
    · exact absurd (allowed '[' List.mem_cons_self) (by decide)
    · rw [none, Percent.encode_of_clean clean]
      rfl

end Kept

end Host

section Authority

variable {kind : SchemeKind} {scheme : String} {rest : List Char}

theorem spanHost_name {name : List Char}
    (plain : ∀ c ∈ name, endsAuthority kind c = false ∧ c ≠ ':' ∧ c ≠ '[')
    (ends : ∀ c ∈ rest.head?, endsAuthority kind c = true ∨ c = ':') :
    spanHost kind false (name ++ rest) = (name, rest) := by
  induction name with
  | nil =>
    cases rest with
    | nil => rfl
    | cons c rest =>
      have stops : (endsAuthority kind c || (c == ':' && !false)) = true := by
        simpa using ends c rfl
      rw [List.nil_append, spanHost, if_pos stops]
  | cons c name ih =>
    rcases List.forall_mem_cons.mp plain with ⟨⟨inside, colon, bracket⟩, others⟩
    have goesOn : (endsAuthority kind c || (c == ':' && !false)) = false := by
      simp [inside, colon]
    have outside : (c == '[' || (false && c != ']')) = false := by simp [bracket]
    rw [List.cons_append, spanHost, goesOn, outside, ih others]
    rfl

theorem spanHost_bracketed {inner : List Char}
    (plain : ∀ c ∈ inner, endsAuthority kind c = false ∧ c ≠ ']') :
    spanHost kind true (inner ++ ']' :: rest) =
      (inner ++ ']' :: (spanHost kind false rest).1, (spanHost kind false rest).2) := by
  induction inner with
  | nil =>
    have goesOn : (endsAuthority kind ']' || (']' == ':' && !true)) = false := by cases kind <;> rfl
    rw [List.nil_append, spanHost, goesOn]
    rfl
  | cons c inner ih =>
    rcases List.forall_mem_cons.mp plain with ⟨⟨inside, bracket⟩, others⟩
    have goesOn : (endsAuthority kind c || (c == ':' && !true)) = false := by simp [inside]
    have within : (c == '[' || (true && c != ']')) = true := by simp [bracket]
    rw [List.cons_append, spanHost, goesOn, within, ih others]
    rfl

structure User.Canonical (u : User) : Prop where
  name : Clean reservedInUser u.name
  password : Clean reservedInUser u.password

theorem splitUser_unmarked {cs : List Char}
    (plain : ∀ c ∈ cs, endsAuthority kind c = false ∧ c ≠ '@')
    (ends : ∀ c ∈ rest.head?, endsAuthority kind c = true) : splitUser kind (cs ++ rest) = none := by
  have text := Text.span_append (fun c => !endsAuthority kind c) cs rest
    (fun c member => by rw [(plain c member).1]; rfl) (fun c member => by rw [ends c member]; rfl)
  have unmarked : cs.reverse.dropWhile (· != '@') = [] := by
    refine List.dropWhile_eq_nil_iff.mpr fun c member => ?_
    exact bne_iff_ne.mpr (plain c (List.mem_reverse.mp member)).2
  rw [splitUser, text]
  simp only [List.span_eq_takeWhile_dropWhile, unmarked]

theorem splitUser_at {front back : List Char}
    (before : ∀ c ∈ front, endsAuthority kind c = false)
    (behind : ∀ c ∈ back, endsAuthority kind c = false ∧ c ≠ '@')
    (ends : ∀ c ∈ rest.head?, endsAuthority kind c = true) :
    splitUser kind (front ++ '@' :: (back ++ rest)) = some (front, back ++ rest) := by
  have mark : endsAuthority kind '@' = false := by cases kind <;> rfl
  have inside : ∀ c ∈ front ++ '@' :: back, (!endsAuthority kind c) = true := by
    refine List.forall_mem_append.mpr ⟨fun c member => ?_, List.forall_mem_cons.mpr ⟨?_, fun c member => ?_⟩⟩
    · rw [before c member]
      rfl
    · rw [mark]
      rfl
    · rw [(behind c member).1]
      rfl
  have text := Text.span_append _ _ rest inside fun c member => by rw [ends c member]; rfl
  have reversed : (front ++ '@' :: back).reverse = back.reverse ++ '@' :: front.reverse := by simp
  have last := Text.span_append (· != '@') back.reverse ('@' :: front.reverse)
    (fun c member => bne_iff_ne.mpr (behind c (List.mem_reverse.mp member)).2)
    (fun c member => by cases member; rfl)
  rw [splitUser, ← List.cons_append, ← List.append_assoc, text]
  simp only [reversed, last, List.reverse_reverse]

def User.front (u : User) : List Char := u.name ++ if u.password.isEmpty then [] else ':' :: u.password

theorem User.front_eq_nil_iff (u : User) : u.front = [] ↔ u.isNobody = true := by
  rcases u with ⟨_ | ⟨c, name⟩, _ | ⟨d, password⟩⟩ <;> simp [front, isNobody]

theorem readUser_front {u : User} (canonical : u.Canonical) : readUser u.front = u := by
  have inside : ∀ c ∈ u.name, (c != ':') = true := fun c member => by
    refine bne_iff_ne.mpr ?_
    rintro rfl
    exact absurd (canonical.name _ member).2 (by decide)
  rcases u with ⟨name, password⟩
  cases password with
  | nil =>
    have parts := Text.span_append _ _ [] inside nofun
    rw [readUser, User.front]
    simp only [List.isEmpty_nil, if_true, parts, List.drop_nil,
      Percent.encode_of_clean canonical.name, Percent.encode_of_clean canonical.password]
  | cons c password =>
    have parts := Text.span_append _ _ (':' :: c :: password) inside fun d member => by
      cases member
      rfl
    rw [readUser, User.front]
    simp only [List.isEmpty_cons, Bool.false_eq_true, if_false, parts, List.drop_one, List.tail_cons,
      Percent.encode_of_clean canonical.name, Percent.encode_of_clean canonical.password]

theorem forall_mem_front {P : Char → Prop} {u : User} (canonical : u.Canonical) (colon : P ':')
    (all : ∀ n < 128, reservedInUser (Char.ofNat n) = false → P (Char.ofNat n)) :
    ∀ c ∈ u.front, P c := by
  have clean {cs : List Char} (clean : Clean reservedInUser cs) : ∀ c ∈ cs, P c := fun c member =>
    Text.ascii_induction (P := fun c => reservedInUser c = false → P c) all (clean c member).1
      (clean c member).2
  refine List.forall_mem_append.mpr ⟨clean canonical.name, ?_⟩
  split
  · exact nofun
  · exact List.forall_mem_cons.mpr ⟨colon, clean canonical.password⟩

theorem User.Canonical.takeUser (kind : SchemeKind) {u : User} (canonical : u.Canonical) {back : List Char}
    (behind : ∀ c ∈ back, endsAuthority kind c = false ∧ c ≠ '@')
    (ends : ∀ c ∈ rest.head?, endsAuthority kind c = true) :
    Uri.takeUser kind (u.chars ++ (back ++ rest)) = .ok (u, back ++ rest) := by
  by_cases absent : u.isNobody = true
  · have same : u = nobody := by
      rcases u with ⟨name, password⟩
      simpa [isNobody, nobody] using absent
    rw [chars, if_pos absent, List.nil_append, Uri.takeUser, splitUser_unmarked behind ends, same]
  · have before := forall_mem_front canonical (P := (endsPort · = false)) (by decide) (by decide)
    have split := splitUser_at (fun c member => endsAuthority_of_endsPort kind (before c member)) behind ends
    have written : u.chars ++ (back ++ rest) = u.front ++ '@' :: (back ++ rest) := by
      rw [chars, if_neg absent, List.append_assoc]
      rfl
    have named : u.front ≠ [] := mt u.front_eq_nil_iff.mp absent
    rw [written, Uri.takeUser, split]
    cases front : u.front with
    | nil => exact absurd front named
    | cons c more =>
      rw [← front]
      simp only [readUser_front canonical]

theorem canonical_readUser (cs : List Char) : (readUser cs).Canonical :=
  ⟨Percent.clean_encode (by decide), Percent.clean_encode (by decide)⟩

theorem canonical_of_takeUser {cs : List Char} {u : User} (taken : takeUser kind cs = .ok (u, rest)) :
    u.Canonical := by
  unfold takeUser at taken
  split at taken
  · cases taken
    exact ⟨nofun, nofun⟩
  · split at taken
    · cases taken
    · cases taken
      exact ⟨nofun, nofun⟩
  · cases taken
    exact canonical_readUser _

def portChars : Option Nat → List Char
  | some port => ':' :: Text.natural port
  | none => []

def Ends (rest : List Char) : Prop := ∀ c ∈ rest.head?, c = '/' ∨ endsPath c = true

theorem Ends.endsAuthority (ends : Ends rest) : ∀ c ∈ rest.head?, endsAuthority kind c = true := by
  intro c first
  rcases ends c first with rfl | ends
  · cases kind <;> rfl
  · rw [Uri.endsAuthority, ends, Bool.or_true]

theorem Ends.endsPort (ends : Ends rest) :
    ∀ c ∈ rest.head?, endsPort c = true ∧ c.isDigit = false ∧ c ≠ ':' := by
  intro c first
  rcases ends c first with rfl | ends
  · decide
  · rw [endsPath, Bool.or_eq_true, beq_iff_eq, beq_iff_eq] at ends
    rcases ends with rfl | rfl <;> decide

theorem takePort_chars {port : Option Nat} (small : ∀ p ∈ port, p ≤ 65535)
    (unusual : ∀ p ∈ port, some p ≠ defaultPort? scheme) (ends : Ends rest) :
    takePort scheme (portChars port ++ rest) = .ok (port, rest) := by
  cases port with
  | none =>
    rw [portChars, List.nil_append]
    unfold takePort
    split
    · exact absurd rfl (ends.endsPort ':' rfl).2.2
    · rfl
  | some p =>
    have digits := Text.span_append _ (Text.natural p) rest Text.isDigit_of_mem_natural
      fun c first => (ends.endsPort c first).2.1
    have value : Nat.ofDigitChars 10 (Text.natural p) 0 = p := Nat.ofDigitChars_ten_toDigits
    have nonempty : (Text.natural p).isEmpty = false := List.isEmpty_eq_false_iff.mpr Nat.toDigits_ne_nil
    have stops : rest.head?.any (fun c => !Uri.endsPort c) = false := by
      cases first : rest.head? with
      | none => rfl
      | some c => simp [(ends.endsPort c first).1]
    rw [portChars, List.cons_append, takePort, digits]
    simp only [value, nonempty, stops]
    rw [if_neg (Nat.not_lt.mpr (small p rfl)), if_neg Bool.false_ne_true, if_neg]
    simp [unusual p rfl]

theorem portChars_served (port : Option Nat) : ∀ c ∈ portChars port, Served c := by
  cases port with
  | none => exact nofun
  | some p => exact List.forall_mem_cons.mpr ⟨by decide, forall_mem_toDigits (by decide) (by decide) p⟩

theorem takePort_eq_ok {cs : List Char} {port : Option Nat} (taken : takePort scheme cs = .ok (port, rest)) :
    (∀ p ∈ port, p ≤ 65535) ∧ (∀ p ∈ port, some p ≠ defaultPort? scheme) ∧
      (cs.head? ≠ some ':' → port = none) := by
  unfold takePort at taken
  split at taken
  · simp only at taken
    split at taken
    · cases taken
    rename_i small
    split at taken
    · cases taken
    split at taken
    · cases taken
      exact ⟨nofun, nofun, fun _ => rfl⟩
    · rename_i usual
      cases taken
      rw [Bool.or_eq_true, decide_eq_true_iff, not_or] at usual
      refine ⟨fun p same => ?_, fun p same => ?_, fun other => absurd rfl other⟩
      · cases same
        exact Nat.not_lt.mp small
      · cases same
        exact usual.2
  · cases taken
    exact ⟨nofun, nofun, fun _ => rfl⟩

theorem Authority.chars_eq (a : Authority) :
    a.chars = a.user.chars ++ a.host.chars ++ portChars a.port := by
  rcases a with ⟨user, host, _ | port⟩ <;> rfl

variable [Idna]

theorem Host.Canonical.spanHost {h : Host} (canonical : h.Canonical kind)
    (ends : ∀ c ∈ rest.head?, endsAuthority kind c = true ∨ c = ':') :
    Uri.spanHost kind false (h.chars ++ rest) = (h.chars, rest) := by
  cases canonical with
  | domain _ _ allowed _ _ _ =>
    refine spanHost_name (fun c member => ?_) ends
    have served := Host.served_of_not_isForbiddenInDomain (allowed c member)
    exact ⟨(served.1.inside kind).1, served.2.2⟩
  | ipv4 _ a =>
    refine spanHost_name (fun c member => ?_) ends
    have served := a.forall_mem_chars (P := fun c => Served c ∧ c ≠ ':' ∧ c ≠ '[')
      (by decide) (by decide) c member
    exact ⟨(served.1.inside kind).1, served.2⟩
  | ipv6 a =>
    have opens : (endsAuthority kind '[' || ('[' == ':' && !false)) = false := by cases kind <;> rfl
    have inside : ∀ c ∈ a.chars, endsAuthority kind c = false ∧ c ≠ ']' := fun c member => by
      have served := a.forall_mem_chars (P := fun c => Served c ∧ c ≠ ']') (by decide) (by decide) c member
      exact ⟨(served.1.inside kind).1, served.2⟩
    have behind : Uri.spanHost kind false ([] ++ rest) = ([], rest) := spanHost_name nofun ends
    rw [Host.chars, List.cons_append, List.cons_append, List.append_assoc, List.singleton_append,
      Uri.spanHost, opens]
    rw [List.nil_append] at behind
    simp only [Bool.false_eq_true, if_false, beq_self_eq_true, Bool.true_or, spanHost_bracketed inside,
      behind]
  | plain _ clean allowed =>
    refine spanHost_name (fun c member => ?_) ends
    have served := Host.served_of_not_isForbidden (clean c member).1 (clean c member).2 (allowed c member)
    exact ⟨(served.1.inside kind).1, served.2⟩

theorem takeHost_chars {h : Host} (canonical : h.Canonical kind)
    (ends : ∀ c ∈ rest.head?, endsAuthority kind c = true ∨ c = ':') :
    takeHost kind (h.chars ++ rest) = if h.Labelled kind then .ok (h, rest) else .error .domainName := by
  rw [takeHost, canonical.spanHost ends]
  by_cases web : kind.isSpecial = true
  · simp only [if_pos web, canonical.readDomain_chars web]
    rw [List.isEmpty_eq_false_iff.mpr (canonical.ne_none web), if_neg Bool.false_ne_true]
    by_cases labelled : h.Labelled kind
    · rw [if_pos labelled, if_pos labelled]
      rfl
    · rw [if_neg labelled, if_neg labelled]
      rfl
  · have other := Bool.eq_false_iff.mpr web
    simp only [if_neg web, canonical.readPlain_chars other, if_pos (Host.labelled_of_other other h)]
    rfl

structure Authority.Canonical (scheme : String) (a : Authority) : Prop where
  user : a.user.Canonical
  host : a.host.Canonical (SchemeKind.ofScheme scheme)
  small : ∀ p ∈ a.port, p ≤ 65535
  unusual : ∀ p ∈ a.port, some p ≠ defaultPort? scheme
  hostless : a.host = .none → a.user.isNobody = true ∧ a.port = none

theorem Authority.Canonical.inside {a : Authority} (canonical : a.Canonical scheme) :
    ∀ c ∈ a.chars, isPadding c = false ∧ endsPort c = false := by
  rw [a.chars_eq]
  refine List.forall_mem_append.mpr
    ⟨List.forall_mem_append.mpr ⟨fun c member => ?_, fun c member => ?_⟩, fun c member => ?_⟩
  · unfold User.chars at member
    split at member
    · cases member
    rcases List.mem_append.mp member with member | member
    · exact forall_mem_front canonical.user (P := fun c => isPadding c = false ∧ endsPort c = false)
        (by decide) (by decide) c member
    · rw [List.mem_singleton.mp member]
      decide
  · exact ⟨(canonical.host.served c member).padding, (canonical.host.served c member).ends⟩
  · exact ⟨(portChars_served a.port c member).padding, (portChars_served a.port c member).ends⟩

theorem Authority.Canonical.takeAuthority {a : Authority} (canonical : a.Canonical scheme)
    (ends : Ends rest) : Uri.takeAuthority scheme (a.chars ++ rest) =
      if a.host.Labelled (SchemeKind.ofScheme scheme) then .ok (a, rest) else .error .domainName := by
  have written : a.chars ++ rest = a.user.chars ++ ((a.host.chars ++ portChars a.port) ++ rest) := by
    rw [a.chars_eq, List.append_assoc, List.append_assoc]
    exact congrArg _ (List.append_assoc _ _ _).symm
  have behindHost : ∀ c ∈ (portChars a.port ++ rest).head?,
      Uri.endsAuthority (SchemeKind.ofScheme scheme) c = true ∨ c = ':' := by
    cases a.port with
    | none => exact fun c first => .inl (ends.endsAuthority c first)
    | some p => exact fun c first => .inr (Option.some.inj first).symm
  have user := canonical.user.takeUser (SchemeKind.ofScheme scheme)
    (List.forall_mem_append.mpr ⟨fun c member => (canonical.host.served c member).inside _,
      fun c member => (portChars_served a.port c member).inside _⟩) ends.endsAuthority
  have host := takeHost_chars canonical.host behindHost
  have port := takePort_chars canonical.small canonical.unusual ends
  rw [← List.append_assoc] at host
  have hosted : (decide (a.host = Host.none) && (portChars a.port ++ rest).head? == some ':') = false := by
    rw [Bool.and_eq_false_imp, decide_eq_true_iff]
    intro none
    rw [(canonical.hostless none).2, portChars, List.nil_append, beq_eq_false_iff_ne]
    exact fun first => (ends.endsPort ':' first).2.2 rfl
  have known : (decide (a.host = Host.none) && !a.user.isNobody) = false := by
    rw [Bool.and_eq_false_imp, decide_eq_true_iff]
    intro none
    rw [(canonical.hostless none).1, Bool.not_true]
  rw [written]
  by_cases labelled : a.host.Labelled (SchemeKind.ofScheme scheme)
  · rw [if_pos labelled] at host ⊢
    simp only [Uri.takeAuthority, user, host, port, hosted, known, bind, Except.bind]
    rfl
  · rw [if_neg labelled] at host ⊢
    simp only [Uri.takeAuthority, user, host, bind, Except.bind]

theorem canonical_of_takeHost {cs : List Char} {h : Host} (taken : takeHost kind cs = .ok (h, rest)) :
    h.Canonical kind := by
  rw [takeHost] at taken
  simp only at taken
  split at taken
  · rename_i web
    split at taken
    · cases taken
    · rcases Outcome.map_eq_ok.mp taken with ⟨_, read, same⟩
      cases same
      exact Host.canonical_of_readDomain web read
  · rename_i other
    rcases Outcome.map_eq_ok.mp taken with ⟨_, read, same⟩
    cases same
    exact Host.canonical_of_readPlain (Bool.eq_false_iff.mpr other) read

theorem canonical_of_takeAuthority {cs : List Char} {a : Authority}
    (taken : takeAuthority scheme cs = .ok (a, rest)) : a.Canonical scheme := by
  simp only [takeAuthority, Outcome.bind_eq_ok] at taken
  rcases taken with ⟨⟨user, behindUser⟩, takenUser, ⟨host, behindHost⟩, takenHost, taken⟩
  split at taken
  · cases taken
  rename_i hosted
  rcases Outcome.bind_eq_ok.mp taken with ⟨⟨port, behindPort⟩, takenPort, taken⟩
  split at taken
  · cases taken
  rename_i known
  cases taken
  rcases takePort_eq_ok takenPort with ⟨small, unusual, portless⟩
  refine ⟨canonical_of_takeUser takenUser, canonical_of_takeHost takenHost, small, unusual, ?_⟩
  rintro (rfl : host = Host.none)
  simp only [decide_true, Bool.true_and, beq_iff_eq, Bool.not_eq_true', Bool.not_eq_false] at hosted known
  exact ⟨known, portless hosted⟩

end Authority

end TaintScan.Uri
