import K1K.Lib.Memory

/-!
# UTF-8

Well-formed byte sequences in the sense of the Unicode standard: no overlong
forms, no surrogates, nothing above the last code point.
-/

namespace K1K.Lib

def continues (low high : Nat) (byte : Byte) : Bool :=
  decide (low ≤ byte.toNat) && decide (byte.toNat ≤ high)

/-- The bounds on the second byte after a given first one, and how many bytes follow. -/
def utf8Lead (lead : Nat) : Option (Nat × Nat × Nat) :=
  if lead < 0xc2 then none
  else if lead ≤ 0xdf then some (1, 0x80, 0xbf)
  else if lead = 0xe0 then some (2, 0xa0, 0xbf)
  else if lead ≤ 0xec then some (2, 0x80, 0xbf)
  else if lead = 0xed then some (2, 0x80, 0x9f)
  else if lead ≤ 0xef then some (2, 0x80, 0xbf)
  else if lead = 0xf0 then some (3, 0x90, 0xbf)
  else if lead ≤ 0xf3 then some (3, 0x80, 0xbf)
  else if lead = 0xf4 then some (3, 0x80, 0x8f)
  else none

def utf8Push (code : Nat) (byte : Byte) : Nat := code * 64 + byte.toNat % 64

def decodeUtf8 : List Byte → Option (List Char)
  | [] => some []
  | lead :: rest =>
    if lead.toNat < 0x80 then (decodeUtf8 rest).map (Char.ofNat lead.toNat :: ·)
    else
      match utf8Lead lead.toNat, rest with
      | some (1, low, high), b :: rest =>
        if continues low high b then
          (decodeUtf8 rest).map (Char.ofNat (utf8Push (lead.toNat % 32) b) :: ·)
        else none
      | some (2, low, high), b :: c :: rest =>
        if continues low high b && continues 0x80 0xbf c then
          (decodeUtf8 rest).map (Char.ofNat (utf8Push (utf8Push (lead.toNat % 16) b) c) :: ·)
        else none
      | some (3, low, high), b :: c :: d :: rest =>
        if continues low high b && continues 0x80 0xbf c && continues 0x80 0xbf d then
          (decodeUtf8 rest).map
            (Char.ofNat (utf8Push (utf8Push (utf8Push (lead.toNat % 8) b) c) d) :: ·)
        else none
      | _, _ => none

theorem decodeUtf8_ascii {bytes : List Byte} (ascii : ∀ byte ∈ bytes, byte.toNat < 0x80) :
    decodeUtf8 bytes = some (bytes.map fun byte => Char.ofNat byte.toNat) := by
  induction bytes with
  | nil => rfl
  | cons lead rest ih =>
    rw [List.forall_mem_cons] at ascii
    unfold decodeUtf8
    rw [if_pos ascii.1, ih ascii.2, Option.map_some, List.map_cons]

def encodeUtf8 (text : List Char) : List Byte :=
  text.flatMap fun c => (String.utf8EncodeChar c).map UInt8.toBitVec

theorem encodeUtf8_ascii {text : List Char} (ascii : ∀ c ∈ text, c.toNat < 0x80) :
    encodeUtf8 text = text.map fun c => BitVec.ofNat 8 c.toNat := by
  induction text with
  | nil => rfl
  | cons c rest ih =>
    rw [List.forall_mem_cons] at ascii
    have single : String.utf8EncodeChar c = [UInt8.ofNat c.toNat] :=
      if_pos (Nat.le_of_lt_succ ascii.1)
    rw [List.map_cons, ← ih ascii.2, encodeUtf8, List.flatMap_cons, single]
    rfl

theorem decodeUtf8_encodeUtf8 {text : List Char} (ascii : ∀ c ∈ text, c.toNat < 0x80) :
    decodeUtf8 (encodeUtf8 text) = some text := by
  have back : ∀ c ∈ text, (BitVec.ofNat 8 c.toNat).toNat = c.toNat := by
    intro c mem
    have small := ascii c mem
    rw [BitVec.toNat_ofNat]
    omega
  have bytes : ∀ byte ∈ text.map (fun c => BitVec.ofNat 8 c.toNat), byte.toNat < 0x80 := by
    rintro _ mem
    obtain ⟨c, here, rfl⟩ := List.mem_map.mp mem
    rw [back c here]
    exact ascii c here
  rw [encodeUtf8_ascii ascii, decodeUtf8_ascii bytes, List.map_map]
  congr 1
  conv_rhs => rw [← List.map_id text]
  refine List.map_congr_left fun c mem => ?_
  rw [Function.comp_apply, back c mem, Char.ofNat_toNat]
  rfl

theorem ascii_of_encodeUtf8 {text : List Char}
    (bytes : ∀ byte ∈ encodeUtf8 text, byte.toNat < 0x80) : ∀ c ∈ text, c.toNat < 0x80 := by
  intro c mem
  by_contra large
  have leads : ∃ byte ∈ String.utf8EncodeChar c, 0x80 ≤ byte.toNat := by
    have beyond : ¬c.val.toNat ≤ 127 := by
      intro small
      exact large (Nat.lt_succ_of_le small)
    unfold String.utf8EncodeChar
    simp only [beyond, if_false]
    split
    next => exact ⟨_, List.mem_cons_self, by simp; omega⟩
    split
    next => exact ⟨_, List.mem_cons_self, by simp; omega⟩
    next => exact ⟨_, List.mem_cons_self, by simp; omega⟩
  obtain ⟨byte, lt, high⟩ := leads
  have low := bytes byte.toBitVec (List.mem_flatMap.mpr ⟨c, mem, List.mem_map.mpr ⟨byte, lt, rfl⟩⟩)
  exact absurd low (Nat.not_lt.mpr high)

end K1K.Lib
