import KeyReader.Framing
import KeyReader.Json
import Mathlib.Data.List.Nodup

/-! A code for JSON values in bytes, each of which tells where it ends. -/

namespace KeyReader.JsonCode

open List Option

structure NumberCode (ν : Type) where
  encode : ν → List UInt8
  decode : List UInt8 → Option (ν × List UInt8)
  decode_encode : ∀ number rest, decode (encode number ++ rest) = some (number, rest)

variable {ν : Type}

def encodeString (text : String) : List UInt8 :=
  text.toUTF8.data.toList.flatMap (fun byte => [1, byte]) ++ [0]

/-- The bytes of a string, and what follows them. -/
def decodeBytes : List UInt8 → Option (List UInt8 × List UInt8)
  | 0 :: rest => some ([], rest)
  | 1 :: byte :: rest => (decodeBytes rest).map fun read => (byte :: read.1, read.2)
  | _ => none

def decodeString (bytes : List UInt8) : Option (String × List UInt8) := do
  let read ← decodeBytes bytes
  let text ← String.fromUTF8? ⟨read.1.toArray⟩
  some (text, read.2)

theorem decodeBytes_append (bytes rest : List UInt8) :
    decodeBytes (bytes.flatMap (fun byte => [1, byte]) ++ 0 :: rest) = some (bytes, rest) := by
  induction bytes with
  | nil => rfl
  | cons byte bytes ih =>
    rw [flatMap_cons, append_assoc, cons_append, cons_append, nil_append, decodeBytes, ih]
    rfl

theorem decodeString_append (text : String) (rest : List UInt8) :
    decodeString (encodeString text ++ rest) = some (text, rest) := by
  have hread : String.fromUTF8? ⟨text.toUTF8.data.toList.toArray⟩ = some text :=
    dif_pos text.isValidUTF8
  unfold decodeString encodeString
  rw [append_assoc, singleton_append, decodeBytes_append, bind_eq_bind, bind_some, hread]
  rfl

section
variable (code : NumberCode ν)

mutual

def encode : Json ν → List UInt8
  | .null => [0]
  | .bool value => [1, if value then 1 else 0]
  | .number value => 2 :: code.encode value
  | .string value => 3 :: encodeString value
  | .array values => 4 :: encodeValues values
  | .object fields => 5 :: encodeFields fields

def encodeValues : List (Json ν) → List UInt8
  | [] => [0]
  | value :: values => 1 :: (encode value ++ encodeValues values)

def encodeFields : List (String × Json ν) → List UInt8
  | [] => [0]
  | (key, value) :: fields => 1 :: (encodeString key ++ (encode value ++ encodeFields fields))

end

mutual

/-- A value and what follows it, with fuel for every byte. -/
def decode : Nat → List UInt8 → Option (Json ν × List UInt8)
  | _ + 1, 0 :: rest => some (.null, rest)
  | _ + 1, 1 :: value :: rest => some (.bool (value = 1), rest)
  | _ + 1, 2 :: rest => (code.decode rest).map fun read => (.number read.1, read.2)
  | _ + 1, 3 :: rest => (decodeString rest).map fun read => (.string read.1, read.2)
  | fuel + 1, 4 :: rest => (decodeValues fuel rest).map fun read => (.array read.1, read.2)
  | fuel + 1, 5 :: rest => (decodeFields fuel rest).map fun read => (.object read.1, read.2)
  | _, _ => none

def decodeValues : Nat → List UInt8 → Option (List (Json ν) × List UInt8)
  | _ + 1, 0 :: rest => some ([], rest)
  | fuel + 1, 1 :: rest => do
    let value ← decode fuel rest
    let values ← decodeValues fuel value.2
    some (value.1 :: values.1, values.2)
  | _, _ => none

def decodeFields : Nat → List UInt8 → Option (List (String × Json ν) × List UInt8)
  | _ + 1, 0 :: rest => some ([], rest)
  | fuel + 1, 1 :: rest => do
    let key ← decodeString rest
    let value ← decode fuel key.2
    let fields ← decodeFields fuel value.2
    some ((key.1, value.1) :: fields.1, fields.2)
  | _, _ => none

end

mutual

theorem decode_append {json : Json ν} {fuel : Nat} (rest : List UInt8)
    (h : (encode code json).length ≤ fuel) :
    decode code fuel (encode code json ++ rest) = some (json, rest) := by
  cases fuel with
  | zero => cases json <;> simp [encode] at h
  | succ fuel =>
    cases json with
    | null => rfl
    | bool value => cases value <;> rfl
    | number value =>
      rw [encode, cons_append, decode, code.decode_encode]
      rfl
    | string value =>
      rw [encode, cons_append, decode, decodeString_append]
      rfl
    | array values =>
      rw [encode, length_cons] at h
      rw [encode, cons_append, decode, decodeValues_append rest (by omega)]
      rfl
    | object fields =>
      rw [encode, length_cons] at h
      rw [encode, cons_append, decode, decodeFields_append rest (by omega)]
      rfl

theorem decodeValues_append {values : List (Json ν)} {fuel : Nat} (rest : List UInt8)
    (h : (encodeValues code values).length ≤ fuel) :
    decodeValues code fuel (encodeValues code values ++ rest) = some (values, rest) := by
  cases fuel with
  | zero => cases values <;> simp [encodeValues] at h
  | succ fuel =>
    match values with
    | [] => rfl
    | value :: values =>
      rw [encodeValues, length_cons, length_append] at h
      rw [encodeValues, cons_append, append_assoc, decodeValues,
        decode_append _ (by omega), bind_eq_bind, bind_some,
        decodeValues_append rest (by omega)]
      rfl

theorem decodeFields_append {fields : List (String × Json ν)} {fuel : Nat} (rest : List UInt8)
    (h : (encodeFields code fields).length ≤ fuel) :
    decodeFields code fuel (encodeFields code fields ++ rest) = some (fields, rest) := by
  cases fuel with
  | zero =>
    match fields with
    | [] => simp [encodeFields] at h
    | (_, _) :: _ => simp [encodeFields] at h
  | succ fuel =>
    match fields with
    | [] => rfl
    | (key, value) :: fields =>
      rw [encodeFields, length_cons, length_append, length_append] at h
      rw [encodeFields, cons_append, append_assoc, append_assoc, decodeFields,
        decodeString_append, bind_eq_bind, bind_some]
      rw [decode_append _ (by omega), bind_eq_bind, bind_some, decodeFields_append rest (by omega)]
      rfl

end

theorem encode_inj {json other : Json ν} (h : encode code json = encode code other) :
    json = other := by
  have hjson := decode_append code [] (Nat.le_refl (encode code json).length)
  rw [h, decode_append code [] le_rfl] at hjson
  exact ((Prod.mk.inj (some.inj hjson)).1).symm

/-- The text of a value in a table, and its code after a zero byte when it is not there. -/
def print (texts : List (Json ν × List UInt8)) (json : Json ν) : List UInt8 :=
  match texts.find? fun entry => encode code entry.1 = encode code json with
  | some entry => entry.2
  | none => 0 :: encode code json

def parse (texts : List (Json ν × List UInt8)) (bytes : List UInt8) : Option (Json ν) :=
  match texts.find? fun entry => entry.2 = bytes with
  | some entry => some entry.1
  | none =>
    match bytes with
    | 0 :: rest => (decode code rest.length rest).map (·.1)
    | _ => none

theorem parse_print {texts : List (Json ν × List UInt8)} (hnodup : (texts.map (·.2)).Nodup)
    (hhead : ∀ entry ∈ texts, entry.2.head? ≠ some 0) (json : Json ν) :
    parse code texts (print code texts json) = some json := by
  unfold print
  split
  · rename_i entry hentry
    have hfound := find?_some hentry
    have hjson := encode_inj code (of_decide_eq_true hfound)
    have hmem := mem_of_find?_eq_some hentry
    unfold parse
    split
    · rename_i other hother
      have hfound := find?_some hother
      have htext : other.2 = entry.2 := of_decide_eq_true hfound
      have hsame := inj_on_of_nodup_map hnodup (mem_of_find?_eq_some hother) hmem htext
      rw [hsame, hjson]
    · rename_i hnone
      have hfalse := find?_eq_none.mp hnone entry hmem
      exact absurd (decide_eq_true rfl) hfalse
  · unfold parse
    split
    · rename_i other hother
      have hfound := find?_some hother
      have htext : other.2 = 0 :: encode code json := of_decide_eq_true hfound
      have hfirst := hhead other (mem_of_find?_eq_some hother)
      rw [htext] at hfirst
      exact absurd rfl hfirst
    · have hdecode := decode_append code [] (Nat.le_refl (encode code json).length)
      rw [append_nil] at hdecode
      exact congrArg (Option.map (·.1)) hdecode

end

end KeyReader.JsonCode
