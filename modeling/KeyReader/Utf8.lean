import Mathlib.Data.List.Infix

/-! Texts as lists of characters, with offsets in the bytes of UTF-8 and the units of UTF-16. -/

namespace KeyReader.Utf8

open List

def byteLength : List Char → Nat
  | [] => 0
  | character :: text => character.utf8Size + byteLength text

@[simp] theorem byteLength_nil : byteLength [] = 0 := rfl

@[simp] theorem byteLength_cons (character : Char) (text : List Char) :
    byteLength (character :: text) = character.utf8Size + byteLength text := rfl

@[simp] theorem byteLength_append (text more : List Char) :
    byteLength (text ++ more) = byteLength text + byteLength more := by
  induction text with
  | nil => simp
  | cons character text ih =>
    rw [cons_append, byteLength_cons, byteLength_cons, ih, Nat.add_assoc]

theorem length_toUTF8_le (text : List Char) :
    (String.ofList text).toUTF8.data.toList.length ≤ 4 * text.length := by
  have hbytes : (String.ofList text).toUTF8.data.toList = text.flatMap String.utf8EncodeChar :=
    congrArg Array.toList data_toByteArray
  rw [hbytes]
  clear hbytes
  induction text with
  | nil => exact Nat.le_refl 0
  | cons character text ih =>
    have hsize := character.utf8Size_le_four
    rw [flatMap_cons, length_append, String.length_utf8EncodeChar, length_cons]
    omega

variable {text : List Char}

theorem byteLength_le_of_prefix {before : List Char} (h : before <+: text) :
    byteLength before ≤ byteLength text := by
  obtain ⟨after, rfl⟩ := h
  rw [byteLength_append]
  exact Nat.le_add_right ..

/-- The offset is one between characters. -/
def Boundary (text : List Char) (offset : Nat) : Prop :=
  ∃ before, before <+: text ∧ byteLength before = offset

theorem Boundary.zero (text : List Char) : Boundary text 0 := ⟨[], nil_prefix, rfl⟩

theorem Boundary.end (text : List Char) : Boundary text (byteLength text) :=
  ⟨text, prefix_rfl, rfl⟩

variable {offset : Nat}

theorem Boundary.le (h : Boundary text offset) : offset ≤ byteLength text := by
  obtain ⟨before, hprefix, rfl⟩ := h
  exact byteLength_le_of_prefix hprefix

theorem Boundary.append {before : List Char} (h : Boundary text offset) (after : List Char) :
    Boundary (before ++ text ++ after) (byteLength before + offset) := by
  obtain ⟨part, ⟨rest, rfl⟩, rfl⟩ := h
  exact ⟨before ++ part, ⟨rest ++ after, by simp⟩, byteLength_append ..⟩

def isCharBoundary : List Char → Nat → Bool
  | _, 0 => true
  | [], _ + 1 => false
  | character :: text, offset + 1 =>
    character.utf8Size ≤ offset + 1 && isCharBoundary text (offset + 1 - character.utf8Size)

theorem isCharBoundary_iff : isCharBoundary text offset ↔ Boundary text offset := by
  induction text generalizing offset with
  | nil =>
    cases offset with
    | zero => exact iff_of_true rfl (.zero [])
    | succ offset =>
      refine iff_of_false nofun fun h => ?_
      have hle := h.le
      rw [byteLength_nil] at hle
      omega
  | cons character text ih =>
    cases offset with
    | zero => exact iff_of_true rfl (.zero _)
    | succ offset =>
      rw [isCharBoundary, Bool.and_eq_true, decide_eq_true_eq, ih]
      constructor
      · rintro ⟨hle, before, hprefix, hlength⟩
        refine ⟨character :: before, cons_prefix_cons.mpr ⟨rfl, hprefix⟩, ?_⟩
        rw [byteLength_cons]
        omega
      · rintro ⟨before, hprefix, hlength⟩
        cases before with
        | nil => cases hlength
        | cons first before =>
          obtain ⟨rfl, hbefore⟩ := cons_prefix_cons.mp hprefix
          rw [byteLength_cons] at hlength
          exact ⟨by omega, before, hbefore, by omega⟩

/-- The boundary at an offset or the last one before it, step by step. -/
def floorBoundary (text : List Char) : Nat → Nat
  | 0 => 0
  | offset + 1 => if isCharBoundary text (offset + 1) then offset + 1 else floorBoundary text offset

theorem floorBoundary_boundary (text : List Char) (offset : Nat) :
    Boundary text (floorBoundary text offset) := by
  induction offset with
  | zero => exact .zero text
  | succ offset ih =>
    rw [floorBoundary]
    split
    · rename_i h
      exact isCharBoundary_iff.mp h
    · exact ih

theorem floorBoundary_eq (h : Boundary text offset) : floorBoundary text offset = offset := by
  cases offset with
  | zero => rfl
  | succ offset => rw [floorBoundary, if_pos (isCharBoundary_iff.mpr h)]

/-- The characters that end within so many bytes. -/
def takeBytes : Nat → List Char → List Char
  | _, [] => []
  | bytes, character :: text =>
    if character.utf8Size ≤ bytes then
      character :: takeBytes (bytes - character.utf8Size) text
    else []

/-- The other characters. -/
def dropBytes : Nat → List Char → List Char
  | _, [] => []
  | bytes, character :: text =>
    if character.utf8Size ≤ bytes then dropBytes (bytes - character.utf8Size) text
    else character :: text

/-- The text between two offsets. -/
def slice (text : List Char) (start finish : Nat) : List Char :=
  takeBytes (finish - start) (dropBytes start text)

theorem dropBytes_zero (text : List Char) : dropBytes 0 text = text := by
  cases text with
  | nil => rfl
  | cons character text =>
    have hpos := character.utf8Size_pos
    rw [dropBytes, if_neg (by omega)]

theorem takeBytes_zero (text : List Char) : takeBytes 0 text = [] := by
  cases text with
  | nil => rfl
  | cons character text =>
    have hpos := character.utf8Size_pos
    rw [takeBytes, if_neg (by omega)]

@[simp] theorem takeBytes_byteLength (before after : List Char) :
    takeBytes (byteLength before) (before ++ after) = before := by
  induction before with
  | nil => exact takeBytes_zero after
  | cons character before ih =>
    rw [cons_append, takeBytes, byteLength_cons, if_pos (Nat.le_add_right ..),
      Nat.add_sub_cancel_left, ih]

@[simp] theorem dropBytes_byteLength (before after : List Char) :
    dropBytes (byteLength before) (before ++ after) = after := by
  induction before with
  | nil => exact dropBytes_zero after
  | cons character before ih =>
    rw [cons_append, dropBytes, byteLength_cons, if_pos (Nat.le_add_right ..),
      Nat.add_sub_cancel_left, ih]

theorem slice_append (before middle after : List Char) :
    slice (before ++ middle ++ after) (byteLength before)
      (byteLength before + byteLength middle) = middle := by
  rw [slice, Nat.add_sub_cancel_left, append_assoc, dropBytes_byteLength, takeBytes_byteLength]

theorem Boundary.split {start finish : Nat} (hstart : Boundary text start)
    (hfinish : Boundary text finish) (hle : start ≤ finish) :
    ∃ before middle after, text = before ++ middle ++ after ∧ byteLength before = start ∧
      byteLength (before ++ middle) = finish := by
  obtain ⟨before, hbefore, rfl⟩ := hstart
  obtain ⟨upto, ⟨after, rfl⟩, rfl⟩ := hfinish
  have hprefix : before <+: upto := by
    rcases prefix_or_prefix_of_prefix hbefore (prefix_append upto after) with
      hprefix | ⟨more, rfl⟩
    · exact hprefix
    · rw [byteLength_append] at hle
      cases more with
      | nil => simp
      | cons character more =>
        have hpos := character.utf8Size_pos
        rw [byteLength_cons] at hle
        omega
  obtain ⟨middle, rfl⟩ := hprefix
  exact ⟨before, middle, after, rfl, rfl, rfl⟩

/-- The characters with the property `White_Space` of Unicode. -/
def isWhitespace (character : Char) : Bool :=
  let code := character.toNat
  (0x09 ≤ code && code ≤ 0x0D) || code = 0x20 || code = 0x85 || code = 0xA0 || code = 0x1680 ||
    (0x2000 ≤ code && code ≤ 0x200A) || code = 0x2028 || code = 0x2029 || code = 0x202F ||
    code = 0x205F || code = 0x3000

/-- The number of UTF-16 units of a character. -/
def lenUtf16 (character : Char) : Nat := if character.toNat < 0x10000 then 1 else 2

def offsetFromUtf16From : List Char → Nat → Nat → Nat → Nat
  | [], _, offset, _ => offset
  | character :: text, utf16, offset, target =>
    if target ≤ utf16 then offset
    else if target < utf16 + lenUtf16 character then offset
    else offsetFromUtf16From text (utf16 + lenUtf16 character) (offset + character.utf8Size) target

def offsetFromUtf16 (text : List Char) (target : Nat) : Nat :=
  offsetFromUtf16From text 0 0 target

theorem offsetFromUtf16_boundary (text : List Char) (target : Nat) :
    Boundary text (offsetFromUtf16 text target) := by
  suffices h : ∀ before utf16, Boundary (before ++ text)
      (offsetFromUtf16From text utf16 (byteLength before) target) from h [] 0
  induction text with
  | nil => exact fun before _ => ⟨before, prefix_append .., rfl⟩
  | cons character text ih =>
    intro before utf16
    rw [offsetFromUtf16From]
    split
    · exact ⟨before, prefix_append .., rfl⟩
    split
    · exact ⟨before, prefix_append .., rfl⟩
    have h := ih (before ++ [character]) (utf16 + lenUtf16 character)
    rwa [byteLength_append, byteLength_cons, byteLength_nil, Nat.add_zero, append_assoc] at h

end KeyReader.Utf8
