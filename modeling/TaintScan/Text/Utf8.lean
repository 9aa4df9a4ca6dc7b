namespace TaintScan.Text

def byteCount (cs : List Char) : Nat := cs.foldl (fun n c => n + c.utf8Size) 0

theorem byteCount_eq (cs : List Char) : byteCount cs = (String.ofList cs).utf8ByteSize := by
  have counted : ∀ n, cs.foldl (fun n c => n + c.utf8Size) n = n + (String.ofList cs).utf8ByteSize := by
    induction cs with
    | nil => simp
    | cons c rest ih =>
      intro n
      have split : String.ofList (c :: rest) = String.singleton c ++ String.ofList rest := by
        rw [String.singleton_eq_ofList, ← String.ofList_append]
        rfl
      rw [List.foldl_cons, ih, split, String.utf8ByteSize_append, String.utf8ByteSize_singleton]
      omega
  rw [byteCount, counted, Nat.zero_add]

def toBytes (cs : List Char) : List UInt8 := cs.flatMap String.utf8EncodeChar

def sequenceShape (b : UInt8) : Option (Nat × UInt8 × UInt8) :=
  if 0xC2 ≤ b && b ≤ 0xDF then some (1, 0x80, 0xBF)
  else if b == 0xE0 then some (2, 0xA0, 0xBF)
  else if b == 0xED then some (2, 0x80, 0x9F)
  else if 0xE1 ≤ b && b ≤ 0xEF then some (2, 0x80, 0xBF)
  else if b == 0xF0 then some (3, 0x90, 0xBF)
  else if 0xF1 ≤ b && b ≤ 0xF3 then some (3, 0x80, 0xBF)
  else if b == 0xF4 then some (3, 0x80, 0x8F)
  else none

def continuationBits (b : UInt8) : Nat := b.toNat % 64

def continueSequence : Nat → UInt8 → UInt8 → Nat → List UInt8 → Option Nat × List UInt8
  | 0, _, _, value, bytes => (some value, bytes)
  | _ + 1, _, _, _, [] => (none, [])
  | need + 1, low, high, value, b :: bytes =>
    if low ≤ b && b ≤ high then
      continueSequence need 0x80 0xBF (value * 64 + continuationBits b) bytes
    else (none, b :: bytes)

def leadBits (following : Nat) (b : UInt8) : Nat := b.toNat % Nat.pow 2 (6 - following)

theorem length_continueSequence (need : Nat) (low high : UInt8) (value : Nat) (bytes : List UInt8) :
    (continueSequence need low high value bytes).2.length ≤ bytes.length := by
  induction need generalizing low high value bytes with
  | zero => simp [continueSequence]
  | succ need ih =>
    cases bytes with
    | nil => simp [continueSequence]
    | cons b bytes =>
      rw [continueSequence]
      split
      · exact Nat.le_trans (ih _ _ _ _) (by simp)
      · simp

def ofBytes : List UInt8 → List Char
  | [] => []
  | b :: bytes =>
    if b < 0x80 then Char.ofNat b.toNat :: ofBytes bytes
    else
      match sequenceShape b with
      | none => '\uFFFD' :: ofBytes bytes
      | some (following, low, high) =>
        let read := continueSequence following low high (leadBits following b) bytes
        match read.1 with
        | some value => Char.ofNat value :: ofBytes read.2
        | none => '\uFFFD' :: ofBytes read.2
termination_by bytes => bytes.length
decreasing_by
  all_goals first
    | (simp; done)
    | exact Nat.lt_succ_of_le (length_continueSequence _ _ _ _ _)

def ofBytes? (bytes : List UInt8) : Option (List Char) :=
  let text := ofBytes bytes
  if toBytes text = bytes then some text else none

end TaintScan.Text
