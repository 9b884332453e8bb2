/-! Bytes as pairs of hexadecimal digits: what is written in lower case reads back. -/

namespace KeyReader.Hex

open List Option

def digit (value : Nat) : Char :=
  if value < 10 then Char.ofNat (48 + value) else Char.ofNat (87 + value)

/-- `char::to_digit(16)`. -/
def value (character : Char) : Option Nat :=
  let code := character.toNat
  if 48 ≤ code ∧ code ≤ 57 then some (code - 48)
  else if 97 ≤ code ∧ code ≤ 102 then some (code - 87)
  else if 65 ≤ code ∧ code ≤ 70 then some (code - 55)
  else none

/-- The format `{byte:02x}`. -/
def encodeByte (byte : UInt8) : List Char := [digit (byte.toNat / 16), digit (byte.toNat % 16)]

/-- `u8::from_str_radix` of two characters in base 16, which takes a leading plus sign. -/
def decodeByte (high low : Char) : Option UInt8 :=
  if high = '+' then (value low).map UInt8.ofNat
  else do
    let h ← value high
    let l ← value low
    some (UInt8.ofNat (16 * h + l))

def decodeBytes : List Char → Option (List UInt8)
  | [] => some []
  | [_] => none
  | high :: low :: rest => do
    let byte ← decodeByte high low
    let bytes ← decodeBytes rest
    some (byte :: bytes)

theorem value_digit : ∀ n < 16, value (digit n) = some n := by decide

theorem digit_ne_plus : ∀ n < 16, digit n ≠ '+' := by decide

theorem digit_ascii : ∀ n < 16, (digit n).toNat < 128 := by decide

theorem decodeByte_encodeByte (byte : UInt8) :
    decodeByte (digit (byte.toNat / 16)) (digit (byte.toNat % 16)) = some byte := by
  have hbyte : byte.toNat < 256 := byte.toNat_lt
  have hhigh : byte.toNat / 16 < 16 := by omega
  have hlow : byte.toNat % 16 < 16 := Nat.mod_lt _ (by omega)
  have hsum : 16 * (byte.toNat / 16) + byte.toNat % 16 = byte.toNat := Nat.div_add_mod _ _
  simp only [decodeByte, digit_ne_plus _ hhigh, if_false, value_digit _ hhigh, value_digit _ hlow,
    bind_eq_bind, bind_some, hsum, UInt8.ofNat_toNat]

section

variable (bytes : List UInt8)

theorem decodeBytes_encode : decodeBytes (bytes.flatMap encodeByte) = some bytes := by
  induction bytes with
  | nil => rfl
  | cons byte rest ih =>
    rw [flatMap_cons, encodeByte, cons_append, cons_append, nil_append]
    simp only [decodeBytes, decodeByte_encodeByte, ih, bind_eq_bind, bind_some]

theorem length_encode : (bytes.flatMap encodeByte).length = 2 * bytes.length := by
  induction bytes with
  | nil => rfl
  | cons byte rest ih =>
    simp only [flatMap_cons, length_append, ih, encodeByte, length_cons, length_nil]
    omega

theorem ascii_encode : ∀ c ∈ bytes.flatMap encodeByte, c.toNat < 128 := by
  intro c hc
  obtain ⟨byte, -, hc⟩ := mem_flatMap.mp hc
  have hbyte : byte.toNat < 256 := byte.toNat_lt
  simp only [encodeByte, mem_cons, not_mem_nil, or_false] at hc
  rcases hc with rfl | rfl <;> exact digit_ascii _ (by omega)

end

end KeyReader.Hex
