import TaintScan.Text.Utf8

namespace TaintScan.Text

variable {k n : Nat} {bytes rest : List UInt8}

theorem sequenceShape_two :
    ∀ k < 32, 2 ≤ k → sequenceShape (UInt8.ofNat (k + 192)) = some (1, 0x80, 0xBF) := by
  decide

theorem sequenceShape_three : ∀ k < 16, sequenceShape (UInt8.ofNat (k + 224)) =
    some (2, if k = 0 then 0xA0 else 0x80, if k = 13 then 0x9F else 0xBF) := by
  decide

theorem sequenceShape_four : ∀ k < 5, sequenceShape (UInt8.ofNat (k + 240)) =
    some (3, if k = 0 then 0x90 else 0x80, if k = 4 then 0x8F else 0xBF) := by
  decide

theorem toNat_byte (small : n < 256) : (UInt8.ofNat n).toNat = n := by
  rw [UInt8.toNat_ofNat', Nat.mod_eq_of_lt small]

theorem toNat_ascii : ∀ n < 128, (Char.ofNat n).toNat = n := by decide

theorem ofBytes_ascii (small : n < 128) :
    ofBytes (UInt8.ofNat n :: bytes) = Char.ofNat n :: ofBytes bytes := by
  have low : UInt8.ofNat n < 0x80 := by
    rw [UInt8.lt_iff_toNat_lt, toNat_byte (by omega)]
    exact small
  rw [ofBytes, if_pos low, toNat_byte (by omega)]

theorem ofBytes_lead {following value : Nat} {low high : UInt8} (beyond : 128 ≤ n) (small : n < 256)
    (shape : sequenceShape (UInt8.ofNat n) = some (following, low, high))
    (lead : n % Nat.pow 2 (6 - following) = k)
    (read : continueSequence following low high k bytes = (some value, rest)) :
    ofBytes (UInt8.ofNat n :: bytes) = Char.ofNat value :: ofBytes rest := by
  have high : ¬ UInt8.ofNat n < 0x80 := by
    rw [UInt8.lt_iff_toNat_lt, toNat_byte small]
    exact Nat.not_lt.mpr beyond
  rw [ofBytes, if_neg high, shape]
  simp only [leadBits, toNat_byte small, lead, read]

theorem continueSequence_cons {low high : UInt8} (need value : Nat) (bits : k < 64)
    (least : low.toNat ≤ k + 128) (most : k + 128 ≤ high.toNat) :
    continueSequence (need + 1) low high value (UInt8.ofNat (k + 128) :: bytes) =
      continueSequence need 0x80 0xBF (value * 64 + k) bytes := by
  have byte : (UInt8.ofNat (k + 128)).toNat = k + 128 := toNat_byte (by omega)
  have above : low ≤ UInt8.ofNat (k + 128) := by rwa [UInt8.le_iff_toNat_le, byte]
  have below : UInt8.ofNat (k + 128) ≤ high := by rwa [UInt8.le_iff_toNat_le, byte]
  have value : continuationBits (UInt8.ofNat (k + 128)) = k := by
    rw [continuationBits, byte]
    omega
  rw [continueSequence, decide_eq_true above, decide_eq_true below, value]
  rfl

theorem continueSequence_mod (need value v : Nat) :
    continueSequence (need + 1) 0x80 0xBF value (UInt8.ofNat (v % 64 + 128) :: bytes) =
      continueSequence need 0x80 0xBF (value * 64 + v % 64) bytes :=
  continueSequence_cons need value (Nat.mod_lt v (by decide)) (Nat.le_add_left _ _)
    (show v % 64 + 128 ≤ 191 by omega)

theorem continueSequence_last {v w : Nat} (value : Nat) (whole : value * 64 + v % 64 = w) :
    continueSequence 1 0x80 0xBF value (UInt8.ofNat (v % 64 + 128) :: bytes) = (some w, bytes) := by
  rw [continueSequence_mod, continueSequence, whole]

section Sequences

variable {v : Nat}

theorem ofBytes_two (least : 0x80 ≤ v) (most : v ≤ 0x7FF) :
    ofBytes (UInt8.ofNat (v / 64 % 32 + 192) :: UInt8.ofNat (v % 64 + 128) :: bytes) =
      Char.ofNat v :: ofBytes bytes := by
  have shape := sequenceShape_two (v / 64 % 32) (by omega) (by omega)
  have lead : (v / 64 % 32 + 192) % 32 = v / 64 % 32 := by omega
  exact ofBytes_lead (by omega) (by omega) shape lead (continueSequence_last _ (by omega))

theorem ofBytes_three (least : 0x800 ≤ v) (most : v ≤ 0xFFFF) (valid : v < 0xD800 ∨ 0xDFFF < v) :
    ofBytes (UInt8.ofNat (v / 4096 % 16 + 224) :: UInt8.ofNat (v / 64 % 64 + 128) ::
      UInt8.ofNat (v % 64 + 128) :: bytes) = Char.ofNat v :: ofBytes bytes := by
  have shape := sequenceShape_three (v / 4096 % 16) (by omega)
  have lead : (v / 4096 % 16 + 224) % 16 = v / 4096 % 16 := by omega
  have low : (if v / 4096 % 16 = 0 then 0xA0 else 0x80 : UInt8).toNat ≤ v / 64 % 64 + 128 := by
    split
    · show 160 ≤ _
      omega
    · exact Nat.le_add_left 128 _
  have high : v / 64 % 64 + 128 ≤ (if v / 4096 % 16 = 13 then 0x9F else 0xBF : UInt8).toNat := by
    split
    · show _ ≤ 159
      omega
    · show _ ≤ 191
      omega
  have second := @continueSequence_cons _ (UInt8.ofNat (v % 64 + 128) :: bytes) _ _ 1
    (v / 4096 % 16) (by omega) low high
  rw [continueSequence_last _ (show (v / 4096 % 16 * 64 + v / 64 % 64) * 64 + v % 64 = v by omega)] at second
  exact ofBytes_lead (by omega) (by omega) shape lead second

theorem ofBytes_four (least : 0x10000 ≤ v) (most : v < 0x110000) :
    ofBytes (UInt8.ofNat (v / 262144 % 8 + 240) :: UInt8.ofNat (v / 4096 % 64 + 128) ::
      UInt8.ofNat (v / 64 % 64 + 128) :: UInt8.ofNat (v % 64 + 128) :: bytes) =
        Char.ofNat v :: ofBytes bytes := by
  have shape := sequenceShape_four (v / 262144 % 8) (by omega)
  have lead : (v / 262144 % 8 + 240) % 8 = v / 262144 % 8 := by omega
  have low : (if v / 262144 % 8 = 0 then 0x90 else 0x80 : UInt8).toNat ≤ v / 4096 % 64 + 128 := by
    split
    · show 144 ≤ _
      omega
    · exact Nat.le_add_left 128 _
  have high : v / 4096 % 64 + 128 ≤ (if v / 262144 % 8 = 4 then 0x8F else 0xBF : UInt8).toNat := by
    split
    · show _ ≤ 143
      omega
    · show _ ≤ 191
      omega
  have second := @continueSequence_cons _
    (UInt8.ofNat (v / 64 % 64 + 128) :: UInt8.ofNat (v % 64 + 128) :: bytes) _ _ 2
    (v / 262144 % 8) (by omega) low high
  rw [continueSequence_mod, continueSequence_last _
    (show ((v / 262144 % 8 * 64 + v / 4096 % 64) * 64 + v / 64 % 64) * 64 + v % 64 = v by omega)] at second
  exact ofBytes_lead (by omega) (by omega) shape lead second

end Sequences

theorem ofBytes_encodeChar (c : Char) (bytes : List UInt8) :
    ofBytes (String.utf8EncodeChar c ++ bytes) = c :: ofBytes bytes := by
  have valid : c.toNat < 0xD800 ∨ 0xDFFF < c.toNat ∧ c.toNat < 0x110000 := c.valid
  have same : Char.ofNat c.toNat = c := Char.ofNat_toNat c
  rw [String.utf8EncodeChar, Char.toNat_val]
  generalize c.toNat = v at valid same
  rw [← same]
  split
  · exact ofBytes_ascii (by omega)
  split
  · exact ofBytes_two (by omega) (by omega)
  split
  · exact ofBytes_three (by omega) (by omega) (by omega)
  · exact ofBytes_four (by omega) (by omega)

theorem toNat_of_mem_encodeChar {c : Char} {b : UInt8} (member : b ∈ String.utf8EncodeChar c)
    (low : b.toNat < 128) : b.toNat = c.toNat := by
  rw [String.utf8EncodeChar, Char.toNat_val] at member
  generalize c.toNat = v at member
  have beyond {n : Nat} (least : 128 ≤ n) (most : n < 256) : b ≠ UInt8.ofNat n := by
    rintro rfl
    rw [toNat_byte most] at low
    omega
  split at member
  · rw [List.mem_singleton.mp member, toNat_byte (by omega)]
  exfalso
  split at member
  · rcases List.mem_cons.mp member with first | member
    · exact beyond (by omega) (by omega) first
    · exact beyond (by omega) (by omega) (List.mem_singleton.mp member)
  split at member
  · rcases List.mem_cons.mp member with first | member
    · exact beyond (by omega) (by omega) first
    rcases List.mem_cons.mp member with second | member
    · exact beyond (by omega) (by omega) second
    · exact beyond (by omega) (by omega) (List.mem_singleton.mp member)
  · rcases List.mem_cons.mp member with first | member
    · exact beyond (by omega) (by omega) first
    rcases List.mem_cons.mp member with second | member
    · exact beyond (by omega) (by omega) second
    rcases List.mem_cons.mp member with third | member
    · exact beyond (by omega) (by omega) third
    · exact beyond (by omega) (by omega) (List.mem_singleton.mp member)

theorem ofBytes_toBytes (cs : List Char) : ofBytes (toBytes cs) = cs := by
  induction cs with
  | nil => rw [toBytes, List.flatMap_nil, ofBytes]
  | cons c rest ih =>
    have tail : ofBytes (rest.flatMap String.utf8EncodeChar) = rest := ih
    rw [toBytes, List.flatMap_cons, ofBytes_encodeChar, tail]

theorem ofBytes?_toBytes (cs : List Char) : ofBytes? (toBytes cs) = some cs := by
  simp only [ofBytes?, ofBytes_toBytes, if_true]

theorem mem_of_mem_toBytes {cs : List Char} {b : UInt8} (member : b ∈ toBytes cs)
    (low : b.toNat < 128) : Char.ofNat b.toNat ∈ cs := by
  rcases List.mem_flatMap.mp member with ⟨c, inside, part⟩
  rwa [toNat_of_mem_encodeChar part low, Char.ofNat_toNat]

end TaintScan.Text
