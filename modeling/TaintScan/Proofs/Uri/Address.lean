import Mathlib.Data.List.TakeDrop
import Mathlib.Data.List.TakeWhile
import TaintScan.Proofs.Text.Number
import TaintScan.Proofs.Text.Pieces
import TaintScan.Uri.Address

namespace TaintScan.Uri

theorem joinWith_cons (separator : Char) (part : List Char) (others : List (List Char)) :
    joinWith separator (part :: others) = part ++ others.flatMap (separator :: ·) := by
  induction others generalizing part with
  | nil => rw [joinWith, List.flatMap_nil, List.append_nil]
  | cons next others ih =>
    rw [joinWith, ih, List.flatMap_cons, List.cons_append]
    exact nofun

theorem pieces_joinWith {separator : Char} {parts : List (List Char)} (some : parts ≠ [])
    (whole : ∀ part ∈ parts, Text.Whole (· == separator) part) :
    Text.pieces (· == separator) (joinWith separator parts) = parts := by
  cases parts with
  | nil => exact absurd rfl some
  | cons part others =>
    rcases List.forall_mem_cons.mp whole with ⟨first, rest⟩
    rw [joinWith_cons]
    exact Text.pieces_flatMap first rest (beq_self_eq_true separator)

theorem numberIn?_append (base : Nat) (cs : List Char) (c : Char) :
    numberIn? base (cs ++ [c]) = (numberIn? base cs).bind fun n =>
      match Text.hexValue? c with
      | some d => if d < base then some (n * base + d) else none
      | none => none := by
  rw [numberIn?, numberIn?, List.foldlM_append]
  simp only [List.foldlM_cons, List.foldlM_nil, bind_pure]
  rfl

theorem hexValue?_digitChar : ∀ d < 16, Text.hexValue? (Nat.digitChar d) = some d := by decide

theorem numberIn?_toDigits {base : Nat} (least : 1 < base) (most : base ≤ 16) (n : Nat) :
    numberIn? base (Nat.toDigits base n) = some n := by
  induction n using Nat.strongRecOn with
  | ind n ih =>
    rw [Nat.toDigits_eq_if least]
    split
    · rename_i small
      have digit := hexValue?_digitChar n (by omega)
      have first := numberIn?_append base [] n.digitChar
      rw [List.nil_append, digit] at first
      simpa [numberIn?, small] using first
    · rename_i large
      have fewer : n / base < n := Nat.div_lt_self (by omega) least
      have last : n % base < base := Nat.mod_lt n (by omega)
      have digit := hexValue?_digitChar (n % base) (by omega)
      have value : n / base * base + n % base = n := Nat.div_add_mod' n base
      rw [numberIn?_append, ih _ fewer, Option.bind_some, digit]
      simp only [if_pos last, value]

theorem forall_mem_toDigits {base : Nat} (least : 1 < base) {P : Char → Prop}
    (digits : ∀ d < base, P (Nat.digitChar d)) (n : Nat) : ∀ c ∈ Nat.toDigits base n, P c := by
  induction n using Nat.strongRecOn with
  | ind n ih =>
    rw [Nat.toDigits_eq_if least]
    split
    · rename_i small
      exact List.forall_mem_singleton.mpr (digits n small)
    · have fewer : n / base < n := Nat.div_lt_self (by omega) least
      have last : n % base < base := Nat.mod_lt n (by omega)
      exact List.forall_mem_append.mpr
        ⟨ih _ fewer, List.forall_mem_singleton.mpr (digits _ last)⟩

theorem forall_mem_joinWith {separator : Char} {parts : List (List Char)} {P : Char → Prop}
    (between : P separator) (inside : ∀ part ∈ parts, ∀ c ∈ part, P c) :
    ∀ c ∈ joinWith separator parts, P c := by
  cases parts with
  | nil => exact nofun
  | cons part others =>
    rcases List.forall_mem_cons.mp inside with ⟨first, rest⟩
    rw [joinWith_cons]
    refine List.forall_mem_append.mpr ⟨first, fun c member => ?_⟩
    rcases List.mem_flatMap.mp member with ⟨piece, listed, within⟩
    rcases List.mem_cons.mp within with rfl | within
    · exact between
    · exact rest piece listed c within

namespace Ipv4

variable (a : Ipv4)

theorem number?_natural : ∀ n < 256, number? (Text.natural n) = some n := by decide +kernel

theorem octet_lt (i : Nat) : a.octet i < 256 := Nat.mod_lt _ (by decide)

theorem pieces_chars : Text.pieces (· == '.') a.chars =
    [Text.natural (a.octet 0), Text.natural (a.octet 1), Text.natural (a.octet 2),
      Text.natural (a.octet 3)] := by
  refine pieces_joinWith (List.cons_ne_nil _ _) fun part member c inside => ?_
  rcases List.mem_map.mp member with ⟨i, -, rfl⟩
  rw [beq_eq_false_iff_ne]
  exact forall_mem_toDigits (P := (· ≠ '.')) (by decide) (by decide) _ c inside

theorem parts_chars : parts a.chars =
    [Text.natural (a.octet 0), Text.natural (a.octet 1), Text.natural (a.octet 2),
      Text.natural (a.octet 3)] := by
  have last : (some (Text.natural (a.octet 3)) == some []) = false := by
    rw [beq_eq_false_iff_ne]
    exact fun same => Nat.toDigits_ne_nil (Option.some.inj same)
  rw [parts, pieces_chars]
  simp only [List.getLast?_cons_cons, List.getLast?_singleton, last, Bool.false_eq_true, if_false]

theorem endsInNumber_chars : endsInNumber a.chars = true := by
  have some : (Text.natural (a.octet 3)).isEmpty = false :=
    List.isEmpty_eq_false_iff.mpr Nat.toDigits_ne_nil
  have digits : (Text.natural (a.octet 3)).all Char.isDigit = true :=
    List.all_eq_true.mpr Text.isDigit_of_mem_natural
  rw [endsInNumber, parts_chars]
  simp only [List.getLast?_cons_cons, List.getLast?_singleton, some, digits]
  rfl

theorem address_eq : (((0 * 256 + a.octet 0) * 256 + a.octet 1) * 256 + a.octet 2) * 256 + a.octet 3 =
    a.address.toNat := by
  have first : a.octet 0 = a.address.toNat / 16777216 % 256 := rfl
  have second : a.octet 1 = a.address.toNat / 65536 % 256 := rfl
  have third : a.octet 2 = a.address.toNat / 256 % 256 := rfl
  have fourth : a.octet 3 = a.address.toNat / 1 % 256 := rfl
  have small : a.address.toNat < 4294967296 := a.address.toNat_lt
  generalize a.address.toNat = n at first second third fourth small ⊢
  omega

theorem ofNumbers?_octets :
    ofNumbers? [a.octet 0, a.octet 1, a.octet 2, a.octet 3] = some a := by
  have last : decide (Nat.pow 256 1 ≤ a.octet 3) = false :=
    decide_eq_false (Nat.not_le.mpr (a.octet_lt 3))
  have leading : [a.octet 0, a.octet 1, a.octet 2].any (255 < ·) = false := by
    have small (i : Nat) : decide (255 < a.octet i) = false :=
      decide_eq_false (Nat.not_lt.mpr (Nat.le_of_lt_succ (a.octet_lt i)))
    simp only [List.any_cons, List.any_nil, small, Bool.or_false]
  have value : [a.octet 0, a.octet 1, a.octet 2].foldl (fun n octet => n * 256 + octet) 0 *
      Nat.pow 256 1 + a.octet 3 = a.address.toNat := a.address_eq
  unfold ofNumbers?
  simp only [List.getLast?_cons_cons, List.getLast?_singleton, List.dropLast_cons_cons,
    List.dropLast_singleton, List.length_cons, List.length_nil]
  rw [show 4 - (0 + 1 + 1 + 1) = 1 from rfl, last, leading, value, UInt32.ofNat_toNat]
  rfl

theorem read?_chars : read? a.chars = some a := by
  rw [read?, parts_chars]
  have numbers : [Text.natural (a.octet 0), Text.natural (a.octet 1), Text.natural (a.octet 2),
      Text.natural (a.octet 3)].mapM number? = some [a.octet 0, a.octet 1, a.octet 2, a.octet 3] := by
    simp only [List.mapM_cons, List.mapM_nil, number?_natural _ (a.octet_lt _)]
    rfl
  rw [numbers, Option.bind_some, ofNumbers?_octets]

theorem forall_mem_chars {P : Char → Prop} (point : P '.') (digits : ∀ d < 10, P (Nat.digitChar d)) :
    ∀ c ∈ a.chars, P c := by
  refine forall_mem_joinWith point fun part member => ?_
  rcases List.mem_map.mp member with ⟨i, -, rfl⟩
  exact forall_mem_toDigits (by decide) digits _

theorem chars_ne_nil : a.chars ≠ [] := by
  have written : a.chars = Text.natural (a.octet 0) ++ _ := joinWith_cons _ _ _
  rw [written]
  exact List.append_ne_nil_of_left_ne_nil Nat.toDigits_ne_nil _

end Ipv4

namespace Ipv6

theorem toDigits_chars (p : UInt16) : ∀ c ∈ Nat.toDigits 16 p.toNat, c ≠ ':' ∧ c ≠ '.' :=
  forall_mem_toDigits (by decide) (by decide) _

theorem piece?_toDigits (p : UInt16) : piece? (Nat.toDigits 16 p.toNat) = some p := by
  have some : (Nat.toDigits 16 p.toNat).isEmpty = false :=
    List.isEmpty_eq_false_iff.mpr Nat.toDigits_ne_nil
  have short : (Nat.toDigits 16 p.toNat).length ≤ 4 :=
    (Nat.length_toDigits_le_iff (by decide) (by decide)).mpr p.toNat_lt
  rw [piece?, some, decide_eq_false (Nat.not_lt.mpr short), numberIn?_toDigits (by decide) (by decide)]
  exact congrArg Option.some p.ofNat_toNat

variable {pieces : List UInt16}

theorem run?_pieces (allowDotted : Bool) (pieces : List UInt16) :
    run? allowDotted (pieces.map fun p => Nat.toDigits 16 p.toNat) = some pieces := by
  induction pieces with
  | nil => rfl
  | cons p rest ih =>
    cases rest with
    | nil =>
      have undotted : (Nat.toDigits 16 p.toNat).contains '.' = false :=
        Bool.eq_false_iff.mpr fun dotted =>
          (toDigits_chars p '.' (List.contains_iff_mem.mp dotted)).2 rfl
      rw [List.map_singleton, run?, undotted, Bool.and_false, piece?_toDigits]
      rfl
    | cons q rest =>
      rw [List.map_cons, List.map_cons] at *
      rw [run?, piece?_toDigits, ih]
      · rfl
      · exact nofun

theorem pieces_plainChars (some : pieces ≠ []) : Text.pieces (· == ':') (plainChars pieces) =
    pieces.map fun p => Nat.toDigits 16 p.toNat := by
  refine pieces_joinWith (List.map_eq_nil_iff.not.mpr some) fun part member c inside => ?_
  rcases List.mem_map.mp member with ⟨p, -, rfl⟩
  exact beq_eq_false_iff_ne.mpr (toDigits_chars p c inside).1

theorem side?_plainChars (allowDotted : Bool) (pieces : List UInt16) :
    side? allowDotted (plainChars pieces) = some pieces := by
  cases pieces with
  | nil => rfl
  | cons p rest =>
    have some : (plainChars (p :: rest)).isEmpty = false := by
      rw [plainChars, List.map_cons, joinWith_cons, List.isEmpty_eq_false_iff]
      exact List.append_ne_nil_of_left_ne_nil Nat.toDigits_ne_nil _
    rw [side?, some, pieces_plainChars (List.cons_ne_nil p rest), run?_pieces]
    rfl

theorem splitAtFirst_append {front : List Char} (plain : ∀ c ∈ front, c ≠ ':') (back : List Char) :
    Text.splitAtFirst [':', ':'] (front ++ back) =
      (Text.splitAtFirst [':', ':'] back).map fun (before, after) => (front ++ before, after) := by
  induction front with
  | nil =>
    rw [List.nil_append]
    cases Text.splitAtFirst [':', ':'] back <;> rfl
  | cons c front ih =>
    rcases List.forall_mem_cons.mp plain with ⟨first, rest⟩
    have other : [':', ':'].isPrefixOf (c :: (front ++ back)) = false := by
      rw [List.isPrefixOf, beq_eq_false_iff_ne.mpr (Ne.symm first), Bool.false_and]
    rw [List.cons_append, Text.splitAtFirst, other, ih rest]
    cases Text.splitAtFirst [':', ':'] back <;> rfl

theorem splitAtFirst_colon {c : Char} (other : c ≠ ':') (rest : List Char) :
    Text.splitAtFirst [':', ':'] (':' :: c :: rest) =
      (Text.splitAtFirst [':', ':'] (c :: rest)).map fun (before, after) => (':' :: before, after) := by
  have single : [':', ':'].isPrefixOf (':' :: c :: rest) = false := by
    rw [List.isPrefixOf, List.isPrefixOf, beq_eq_false_iff_ne.mpr (Ne.symm other), Bool.false_and,
      Bool.and_false]
  rw [Text.splitAtFirst, single]
  rfl

theorem splitAtFirst_plainChars (pieces : List UInt16) (back : List Char) :
    Text.splitAtFirst [':', ':'] (plainChars pieces ++ back) =
      (Text.splitAtFirst [':', ':'] back).map fun (before, after) =>
        (plainChars pieces ++ before, after) := by
  induction pieces with
  | nil =>
    show Text.splitAtFirst [':', ':'] back = _
    cases Text.splitAtFirst [':', ':'] back <;> rfl
  | cons p rest ih =>
    have digits := fun c inside => (toDigits_chars p c inside).1
    cases rest with
    | nil => exact splitAtFirst_append digits back
    | cons q rest =>
      obtain ⟨c, more, first⟩ := List.exists_cons_of_ne_nil
        (Nat.toDigits_ne_nil (n := q.toNat) (b := 16))
      have digit := toDigits_chars q c (first ▸ List.mem_cons_self)
      have written :
          plainChars (p :: q :: rest) = Nat.toDigits 16 p.toNat ++ ':' :: plainChars (q :: rest) := rfl
      obtain ⟨tail, begins⟩ : ∃ tail, plainChars (q :: rest) = c :: tail := by
        rw [plainChars, List.map_cons, joinWith_cons, first]
        exact ⟨_, rfl⟩
      rw [written, List.append_assoc, splitAtFirst_append digits, List.cons_append]
      rw [begins] at ih ⊢
      rw [List.cons_append, splitAtFirst_colon digit.1, ← List.cons_append, ih]
      cases Text.splitAtFirst [':', ':'] back with
      | none => rfl
      | some parts => simp

theorem zerosFrom_longestZeros (pieces : List UInt16) :
    (longestZeros pieces).2 ≤ zerosFrom pieces (longestZeros pieces).1 := by
  have kept (places : List Nat) (best : Nat × Nat) (known : best.2 ≤ zerosFrom pieces best.1) :
      let found := places.foldl (fun best i =>
        if best.2 < zerosFrom pieces i then (i, zerosFrom pieces i) else best) best
      found.2 ≤ zerosFrom pieces found.1 := by
    induction places generalizing best with
    | nil => exact known
    | cons i rest ih =>
      rw [List.foldl_cons]
      apply ih
      split
      · exact Nat.le_refl _
      · exact known
  exact kept _ (0, 0) (Nat.zero_le _)

theorem drop_of_zerosFrom {start length : Nat} (zeros : length ≤ zerosFrom pieces start) :
    pieces.drop start = List.replicate length 0 ++ pieces.drop (start + length) := by
  have zeroed : (pieces.drop start).takeWhile (· == 0) <+: pieces.drop start := List.takeWhile_prefix _
  have front : (pieces.drop start).take length = List.replicate length 0 := by
    refine List.eq_replicate_iff.mpr ⟨?_, fun p member => ?_⟩
    · rw [List.length_take]
      exact Nat.min_eq_left (Nat.le_trans zeros zeroed.length_le)
    · have inside : p ∈ (pieces.drop start).takeWhile (· == 0) := by
        have shorter := List.prefix_of_prefix_length_le (List.take_prefix length _) zeroed
          (Nat.le_trans (List.length_take_le _ _) zeros)
        exact shorter.subset member
      exact eq_of_beq (List.mem_takeWhile_imp (p := (· == 0)) inside)
  rw [← front, ← List.drop_drop, List.take_append_drop]

theorem ofPieces?_toList (a : Ipv6) : ofPieces? a.pieces.toList = some a := by
  rw [ofPieces?, dif_pos a.pieces.length_toList]
  have same : a.pieces.toList.toArray = a.pieces.toArray := Array.toArray_toList
  cases a
  simp only [same]

theorem fillGap?_of_zeros (a : Ipv6) {start length : Nat} (least : 0 < length)
    (zeros : length ≤ zerosFrom a.pieces.toList start) :
    fillGap? (a.pieces.toList.take start) (a.pieces.toList.drop (start + length)) = some a := by
  have eight : a.pieces.toList.length = 8 := a.pieces.length_toList
  have behind := drop_of_zerosFrom zeros
  have within := congrArg List.length behind
  rw [List.length_append, List.length_replicate, List.length_drop, List.length_drop, eight] at within
  have before : (a.pieces.toList.take start).length = start := by
    rw [List.length_take, eight]
    omega
  have after : (a.pieces.toList.drop (start + length)).length = 8 - (start + length) := by
    rw [List.length_drop, eight]
  have gap : 8 - ((a.pieces.toList.take start).length + (a.pieces.toList.drop (start + length)).length) =
      length := by omega
  simp only [fillGap?, gap]
  rw [if_pos (by omega), List.append_assoc, ← behind, List.take_append_drop, ofPieces?_toList]

theorem read?_chars (a : Ipv6) : read? a.chars = some a := by
  have eight : a.pieces.toList.length = 8 := a.pieces.length_toList
  have zeros := zerosFrom_longestZeros a.pieces.toList
  rcases found : longestZeros a.pieces.toList with ⟨start, length⟩
  rw [found] at zeros
  simp only [chars, found]
  by_cases short : length < 2
  · have nonempty : a.pieces.toList ≠ [] := by
      rintro none
      rw [none] at eight
      cases eight
    have gapless : Text.splitAtFirst [':', ':'] (plainChars a.pieces.toList) = none := by
      have split := splitAtFirst_plainChars a.pieces.toList []
      rwa [List.append_nil] at split
    rw [if_pos short, read?, gapless]
    simp only [pieces_plainChars nonempty, run?_pieces, Option.bind_some, ofPieces?_toList]
  · have split := splitAtFirst_plainChars (a.pieces.toList.take start)
      (':' :: ':' :: plainChars (a.pieces.toList.drop (start + length)))
    have gap : Text.splitAtFirst [':', ':']
        (':' :: ':' :: plainChars (a.pieces.toList.drop (start + length))) =
          some ([], plainChars (a.pieces.toList.drop (start + length))) := rfl
    simp only [gap, Option.map_some, List.append_nil] at split
    rw [if_neg short, read?, split]
    simp only [side?_plainChars]
    exact fillGap?_of_zeros a (by omega) zeros

theorem forall_mem_plainChars {P : Char → Prop} (colon : P ':') (digits : ∀ d < 16, P (Nat.digitChar d))
    (pieces : List UInt16) : ∀ c ∈ plainChars pieces, P c := by
  refine forall_mem_joinWith colon fun part member c inside => ?_
  rcases List.mem_map.mp member with ⟨p, -, rfl⟩
  exact forall_mem_toDigits (by decide) digits _ c inside

theorem forall_mem_chars {P : Char → Prop} (colon : P ':') (digits : ∀ d < 16, P (Nat.digitChar d))
    (a : Ipv6) : ∀ c ∈ a.chars, P c := by
  simp only [chars]
  split
  · exact forall_mem_plainChars colon digits _
  · refine List.forall_mem_append.mpr ⟨forall_mem_plainChars colon digits _, ?_⟩
    exact List.forall_mem_cons.mpr ⟨colon, List.forall_mem_cons.mpr
      ⟨colon, forall_mem_plainChars colon digits _⟩⟩

end Ipv6

end TaintScan.Uri
