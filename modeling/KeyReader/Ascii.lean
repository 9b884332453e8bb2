import KeyReader.Utf8
import Mathlib.Data.List.DropRight

/-! Text compared and cut by ASCII characters. -/

namespace KeyReader.Ascii

open List

open KeyReader.Utf8 (isWhitespace)

section

variable (character : Char)

/-- The characters from `A` to `Z`. -/
def IsUpper : Prop :=
  character.val ≥ 'A'.val ∧ character.val ≤ 'Z'.val

theorem IsUpper.bounds {character : Char} (h : IsUpper character) :
    65 ≤ character.val.toNat ∧ character.val.toNat ≤ 90 :=
  ⟨UInt32.le_iff_toNat_le.mp h.1, UInt32.le_iff_toNat_le.mp h.2⟩

theorem toLower_of_not_isUpper {character : Char} (h : ¬ IsUpper character) :
    character.toLower = character :=
  dif_neg h

theorem IsUpper.toLower_val {character : Char} (h : IsUpper character) :
    character.toLower.val.toNat = character.val.toNat + 32 := by
  have hlower : character.toLower.val = character.val + 32 := congrArg Char.val (dif_pos h)
  have hbounds := h.bounds
  have hsmall : (32 : UInt32).toNat = 32 := by decide
  rw [hlower, UInt32.toNat_add, hsmall]
  omega

theorem toLower_toLower : character.toLower.toLower = character.toLower := by
  by_cases h : IsUpper character
  · apply toLower_of_not_isUpper
    intro hupper
    have hlow := h.bounds.1
    have hhigh := hupper.bounds.2
    rw [h.toLower_val] at hhigh
    omega
  · rw [toLower_of_not_isUpper h, toLower_of_not_isUpper h]

theorem toLower_eq_dot : character.toLower = '.' ↔ character = '.' := by
  constructor
  · intro h
    by_cases hupper : IsUpper character
    · have hval := hupper.toLower_val
      have hlow := hupper.bounds.1
      have hdot : ('.' : Char).val.toNat = 46 := by decide
      rw [h, hdot] at hval
      omega
    · rw [toLower_of_not_isUpper hupper] at h
      exact h
  · rintro rfl
    decide

/-- `str::to_ascii_lowercase`. -/
def lower (text : String) : String := String.ofList (text.toList.map Char.toLower)

/-- `str::eq_ignore_ascii_case`. -/
def eqIgnoreCase (left right : String) : Bool := lower left = lower right

/-- `str::trim`. -/
def trim (text : String) : String :=
  String.ofList ((text.toList.dropWhile isWhitespace).rdropWhile isWhitespace)

/-- `str::trim_end_matches` of one character. -/
def trimEnd (text : String) : String :=
  String.ofList (text.toList.rdropWhile (· = character))

/-- `str::split_once` at a character. -/
def splitOnce (text : String) : Option (String × String) :=
  if character ∈ text.toList then
    some (String.ofList (text.toList.takeWhile (· ≠ character)),
      String.ofList ((text.toList.dropWhile (· ≠ character)).drop 1))
  else none

end

/-- `str::starts_with`. -/
def startsWith (beginning text : String) : Bool := beginning.toList.isPrefixOf text.toList

/-- `str::ends_with`. -/
def endsWith (ending text : String) : Bool := ending.toList.isSuffixOf text.toList

theorem lower_idem (text : String) : lower (lower text) = lower text := by
  rw [lower, lower, String.toList_ofList, map_map]
  congr 1
  apply map_congr_left
  intro character _
  exact toLower_toLower character

theorem eqIgnoreCase_lower (left right : String) :
    eqIgnoreCase (lower left) right = eqIgnoreCase left right := by
  simp [eqIgnoreCase, lower_idem]

theorem trimEnd_idem (character : Char) (text : String) :
    trimEnd character (trimEnd character text) = trimEnd character text := by
  simp [trimEnd, rdropWhile_idempotent]

theorem trimEnd_dot_lower (text : String) : trimEnd '.' (lower text) = lower (trimEnd '.' text) := by
  simp only [trimEnd, lower, String.toList_ofList, List.rdropWhile]
  rw [← map_reverse, dropWhile_map, ← map_reverse]
  congr 4
  funext character
  simp [toLower_eq_dot]

end KeyReader.Ascii
