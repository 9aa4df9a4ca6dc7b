import Mathlib.Data.List.Basic
import TaintScan.Proofs.Name
import TaintScan.Proofs.Text.Utf8
import TaintScan.Uri.Percent

namespace TaintScan.Uri

variable {reserved : Char → Bool} {bytes : List UInt8} {cs : List Char} {P : Char → Prop}

def Clean (reserved : Char → Bool) (cs : List Char) : Prop :=
  ∀ c ∈ cs, c.toNat < 128 ∧ reserved c = false

-- The characters of the list are gone through, not all that there are.
instance (cs : List Char) : Decidable (Clean reserved cs) := @List.decidableBAll _ _ _ cs

structure Escapes (P : Char → Prop) : Prop where
  percent : P '%'
  digits : ∀ n < 16, P (Text.upperHexDigit n)

instance [DecidablePred P] : Decidable (Escapes P) :=
  decidable_of_iff (P '%' ∧ ∀ n < 16, P (Text.upperHexDigit n))
    ⟨fun h => ⟨h.1, h.2⟩, fun h => ⟨h.percent, h.digits⟩⟩

theorem utf8EncodeChar_ascii {c : Char} (ascii : c.toNat < 128) :
    String.utf8EncodeChar c = [UInt8.ofNat c.toNat] := by
  simp only [String.utf8EncodeChar, Char.toNat_val]
  rw [if_pos (Nat.le_of_lt_succ ascii)]

namespace Percent

theorem encodeByte_kept {b : UInt8} (low : b.toNat < 128) (free : reserved (Char.ofNat b.toNat) = false) :
    encodeByte reserved b = [Char.ofNat b.toNat] := by
  have ascii : b < 0x80 := UInt8.lt_iff_toNat_lt.mpr low
  simp only [encodeByte, free]
  rw [decide_eq_true ascii]
  rfl

theorem encodeByte_escaped {b : UInt8} (other : ¬ (b.toNat < 128 ∧ reserved (Char.ofNat b.toNat) = false)) :
    encodeByte reserved b =
      ['%', Text.upperHexDigit (b.toNat / 16), Text.upperHexDigit (b.toNat % 16)] := by
  refine if_neg fun kept => other ?_
  rw [Bool.and_eq_true, decide_eq_true_eq, UInt8.lt_iff_toNat_lt, Bool.not_eq_true'] at kept
  exact kept

theorem forall_mem_encodeBytes (escapes : Escapes P)
    (kept : ∀ b ∈ bytes, b.toNat < 128 → reserved (Char.ofNat b.toNat) = false → P (Char.ofNat b.toNat)) :
    ∀ c ∈ encodeBytes reserved bytes, P c := by
  intro c member
  rcases List.mem_flatMap.mp member with ⟨b, inside, part⟩
  have small := b.toNat_lt
  by_cases free : b.toNat < 128 ∧ reserved (Char.ofNat b.toNat) = false
  · rw [encodeByte_kept free.1 free.2] at part
    rw [List.mem_singleton.mp part]
    exact kept b inside free.1 free.2
  · rw [encodeByte_escaped free] at part
    simp only [List.mem_cons, List.not_mem_nil, or_false] at part
    rcases part with rfl | rfl | rfl
    · exact escapes.percent
    · exact escapes.digits _ (by omega)
    · exact escapes.digits _ (by omega)

theorem forall_mem_encode (escapes : Escapes P)
    (kept : ∀ c ∈ cs, c.toNat < 128 → reserved c = false → P c) : ∀ c ∈ encode reserved cs, P c := by
  refine forall_mem_encodeBytes escapes fun b member low free => ?_
  refine kept _ (Text.mem_of_mem_toBytes member low) ?_ free
  rwa [Text.toNat_ascii _ low]

theorem clean_encode (escapes : Escapes (reserved · = false)) : Clean reserved (encode reserved cs) := by
  intro c member
  refine ⟨?_, ?_⟩
  · exact forall_mem_encode (P := (·.toNat < 128)) (by decide) (fun c _ ascii _ => ascii) c member
  · exact forall_mem_encode escapes (fun c _ _ free => free) c member

theorem encode_of_clean (clean : Clean reserved cs) : encode reserved cs = cs := by
  induction cs with
  | nil => rfl
  | cons c rest ih =>
    obtain ⟨⟨ascii, free⟩, others⟩ := List.forall_mem_cons.mp clean
    have byte : (UInt8.ofNat c.toNat).toNat = c.toNat := Text.toNat_byte (by omega)
    have single : encodeByte reserved (UInt8.ofNat c.toNat) = [c] := by
      rw [encodeByte_kept (by rwa [byte]) (by rwa [byte, Char.ofNat_toNat]), byte, Char.ofNat_toNat]
    have tail : encodeBytes reserved (Text.toBytes rest) = rest := ih others
    rw [encode, Text.toBytes, List.flatMap_cons, utf8EncodeChar_ascii ascii, encodeBytes,
      List.flatMap_append, List.flatMap_singleton, single]
    exact congrArg (c :: ·) tail

theorem encode_append (front back : List Char) :
    encode reserved (front ++ back) = encode reserved front ++ encode reserved back := by
  rw [encode, Text.toBytes, List.flatMap_append, encodeBytes, List.flatMap_append]
  rfl

theorem encode_singleton_ne_nil (c : Char) : encode reserved [c] ≠ [] := by
  rw [encode, Text.toBytes, List.flatMap_singleton, encodeBytes]
  intro empty
  rcases List.exists_mem_of_ne_nil _ (String.utf8EncodeChar_ne_nil (c := c)) with ⟨b, member⟩
  have written := List.flatMap_eq_nil_iff.mp empty b member
  unfold encodeByte at written
  simp only at written
  split at written <;> cases written

theorem forall_mem_encode_singleton {c : Char} (escapes : Escapes P) (kept : P c) :
    ∀ d ∈ encode reserved [c], P d :=
  forall_mem_encode escapes fun d member _ _ => by rwa [List.mem_singleton.mp member]

theorem head?_encode (escapes : Escapes P) (first : ∀ c ∈ cs.head?, P c) :
    ∀ c ∈ (encode reserved cs).head?, P c := by
  cases cs with
  | nil => exact nofun
  | cons c rest =>
    intro d front
    rw [← List.singleton_append, encode_append,
      List.head?_append_of_ne_nil _ (encode_singleton_ne_nil c)] at front
    exact forall_mem_encode_singleton escapes (first c rfl) d (List.mem_of_head? front)

theorem getLast?_encode (escapes : Escapes P) (last : ∀ c ∈ cs.getLast?, P c) :
    ∀ c ∈ (encode reserved cs).getLast?, P c := by
  rcases List.eq_nil_or_concat cs with rfl | ⟨front, c, rfl⟩
  · exact nofun
  · intro d ending
    rw [List.concat_eq_append] at last ending
    rw [encode_append, List.getLast?_append_of_ne_nil _ (encode_singleton_ne_nil c)] at ending
    exact forall_mem_encode_singleton escapes (last c List.getLast?_concat) d (List.mem_of_getLast? ending)

theorem decode_cons_of_ne {c : Char} (other : c ≠ '%') (rest : List Char) :
    decode (c :: rest) = String.utf8EncodeChar c ++ decode rest := by
  rw [decode.eq_3]
  rintro a b tail rfl -
  exact other rfl

theorem decode_of_plain (plain : ∀ c ∈ cs, c ≠ '%') : decode cs = Text.toBytes cs := by
  induction cs with
  | nil => rfl
  | cons c rest ih =>
    obtain ⟨other, others⟩ := List.forall_mem_cons.mp plain
    rw [decode_cons_of_ne other, ih others, Text.toBytes, Text.toBytes, List.flatMap_cons]

theorem decode_encodeByte (percent : reserved '%' = true) (b : UInt8) (rest : List Char) :
    decode (encodeByte reserved b ++ rest) = b :: decode rest := by
  have small := b.toNat_lt
  by_cases free : b.toNat < 128 ∧ reserved (Char.ofNat b.toNat) = false
  · have other : Char.ofNat b.toNat ≠ '%' := by
      intro same
      rw [same, percent] at free
      cases free.2
    have value := Text.toNat_ascii _ free.1
    rw [encodeByte_kept free.1 free.2, List.singleton_append, decode_cons_of_ne other,
      utf8EncodeChar_ascii (by omega), value, UInt8.ofNat_toNat]
    rfl
  · have digit : ∀ n < 16, Text.hexValue? (Text.upperHexDigit n) = some n := by decide
    have whole : 16 * (b.toNat / 16) + b.toNat % 16 = b.toNat := Nat.div_add_mod _ _
    rw [encodeByte_escaped free]
    simp only [List.cons_append, List.nil_append]
    rw [decode, digit _ (by omega), digit _ (by omega)]
    simp only [whole, UInt8.ofNat_toNat]

theorem decode_encodeBytes (percent : reserved '%' = true) (bytes : List UInt8) :
    decode (encodeBytes reserved bytes) = bytes := by
  induction bytes with
  | nil => rfl
  | cons b rest ih =>
    have tail : decode (rest.flatMap (encodeByte reserved)) = rest := ih
    rw [encodeBytes, List.flatMap_cons, decode_encodeByte percent, tail]

end Percent

end TaintScan.Uri
