import KeyReader.Matching
import KeyReader.Utf8

/-! The query of a search: its normalization and the failure table of its normalized form. -/

namespace KeyReader.Search

open Matching Utf8 List Option

def maxNormalizedQueryChars : Nat := 256

/-- NUL and the soft hyphen are not part of any text. -/
def isIgnored (value : Char) : Bool :=
  value.toNat = 0 || value.toNat = 0xAD

class NormalizedAtom (T : Type) where
  normalizedValue : T → Char
  extendSourceTo : T → Nat → T

instance normalizedAtomChar : NormalizedAtom Char where
  normalizedValue value := value
  extendSourceTo value _ := value

/-- A normalized character with the characters of the page that it stands for. -/
structure SourceAtom where
  value : Char
  sourceStart : Nat
  sourceEnd : Nat

instance normalizedAtomSource : NormalizedAtom SourceAtom where
  normalizedValue atom := atom.value
  extendSourceTo atom source := { atom with sourceEnd := source }

inductive SearchQueryError
  | empty
  | tooLong
  deriving DecidableEq

structure SearchQuery where
  normalized : List Char
  failure : List Nat
  deriving DecidableEq

section normalization

-- The lower case of a character may have several characters.
variable (toLowercase : Char → List Char)

/-- White space is collapsed, and every other character is folded to lower case. -/
def appendNormalizedValue {T : Type} [NormalizedAtom T] (push : Char → Nat → Nat → T) (value : Char)
    (source : Nat) (output : List T) : List T :=
  if isIgnored value then output
  else if isWhitespace value then
    match output.getLast? with
    | none => output ++ [push ' ' source source]
    | some last =>
      if NormalizedAtom.normalizedValue last = ' ' then
        output.dropLast ++ [NormalizedAtom.extendSourceTo last source]
      else output ++ [push ' ' source source]
  else output ++ (toLowercase value).map fun lowercase => push lowercase source source

/-- One character of a query. -/
def appendNormalizedChar (normalized : List Char) (value : Char) : List Char :=
  appendNormalizedValue toLowercase (fun value _ _ => value) value 0 normalized

def appendNormalizedQuery : List Char → List Char → Except SearchQueryError (List Char)
  | [], normalized => .ok normalized
  | value :: query, normalized =>
    let normalized := appendNormalizedChar toLowercase normalized value
    if maxNormalizedQueryChars < normalized.length then .error .tooLong
    else appendNormalizedQuery query normalized

end normalization

/-- The loop in which a prefix of the query gives way to the longest one that it ends with, until
the next value fits.  Each turn shortens the prefix.  An index out of bounds is a panic: `none`. -/
def fallBack (normalized : List Char) (failure : List Nat) (value : Char) : Nat → Nat → Option Nat
  | turns, matched =>
    if matched = 0 then some 0
    else do
      let expected ← normalized[matched]?
      if value = expected then some matched
      else match turns with
        | 0 => none
        | turns + 1 => do
          let shorter ← failure[matched - 1]?
          fallBack normalized failure value turns shorter

section

variable (normalized : List Char)

/-- The prefix of the query that is matched after one more value. -/
def advance (failure : List Nat) (value : Char) (matched : Nat) :
    Option Nat := do
  let matched ← fallBack normalized failure value matched matched
  let expected ← normalized[matched]?
  some (if value = expected then matched + 1 else matched)

/-- The entries of the failure table from `index` on, where the values of the query from there on
are given. -/
def fillFailure (normalized : List Char) : List Char → Nat → List Nat → Nat → Option (List Nat)
  | [], _, failure, _ => some failure
  | value :: values, index, failure, matched => do
    let matched ← advance normalized failure value matched
    fillFailure normalized values (index + 1) (failure.set index matched) matched

def failureTable : Option (List Nat) :=
  fillFailure normalized (normalized.drop 1) 1 (List.replicate normalized.length 0) 0

/-- `SearchQuery::new`, which does not panic if there is a result. -/
def SearchQuery.new (toLowercase : Char → List Char) (query : List Char) :
    Option (Except SearchQueryError SearchQuery) :=
  match appendNormalizedQuery toLowercase query [] with
  | .error error => some (.error error)
  | .ok normalized =>
    if normalized.isEmpty then some (.error .empty)
    else (failureTable normalized).map fun failure => .ok { normalized, failure }

/-- The failure table is right for the first prefixes: it has the longest proper prefix that each
ends with. -/
def Correct (failure : List Nat) (upto : Nat) : Prop :=
  ∀ index < upto, failure[index]? = some (overlap normalized ((normalized.take (index + 1)).drop 1))

end

variable {normalized : List Char}

theorem le_border {matched shorter : Nat} (hmatched : matched ≤ normalized.length)
    (hlt : shorter < matched) (h : normalized.take shorter <:+ normalized.take matched) :
    shorter ≤ overlap normalized ((normalized.take matched).drop 1) := by
  refine le_overlap (by omega) (suffix_of_suffix_length_le h (drop_suffix ..) ?_)
  rw [length_drop, length_take, length_take]
  omega

theorem border_lt {matched : Nat} (hpos : 0 < matched) (hmatched : matched ≤ normalized.length) :
    overlap normalized ((normalized.take matched).drop 1) < matched := by
  have hle := overlap_le_length normalized ((normalized.take matched).drop 1)
  rw [length_drop, length_take] at hle
  omega

/-- The longest prefix that the matched one ends with and that the value continues, if any. -/
theorem fallBack_eq_some {failure : List Nat} {state : Nat} (value : Char)
    (hcorrect : Correct normalized failure state) (hstate : state < normalized.length) :
    ∀ turns matched, matched ≤ turns → matched ≤ state →
      normalized.take matched <:+ normalized.take state →
      (∀ other < normalized.length, normalized.take other <:+ normalized.take state →
        normalized[other]? = some value → other ≤ matched) →
      ∃ found ≤ state, fallBack normalized failure value turns matched = some found ∧
        normalized.take found <:+ normalized.take state ∧
        (∀ other < normalized.length, normalized.take other <:+ normalized.take state →
          normalized[other]? = some value → other ≤ found) ∧
        (found = 0 ∨ normalized[found]? = some value) := by
  intro turns
  induction turns with
  | zero =>
    intro matched hturns hle hsuffix hlongest
    obtain rfl := Nat.le_zero.mp hturns
    exact ⟨0, hle, by rw [fallBack, if_pos rfl], hsuffix, hlongest, .inl rfl⟩
  | succ turns ih =>
    intro matched hturns hle hsuffix hlongest
    by_cases hzero : matched = 0
    · exact ⟨matched, hle, by rw [fallBack, if_pos hzero, hzero], hsuffix, hlongest, .inl hzero⟩
    have hget := List.getElem?_eq_getElem (show matched < normalized.length by omega)
    by_cases hvalue : value = normalized[matched]
    · refine ⟨matched, hle, ?_, hsuffix, hlongest, .inr (hget.trans (congrArg some hvalue.symm))⟩
      rw [fallBack, if_neg hzero, hget, bind_eq_bind, bind_some, if_pos hvalue]
    · have hentry := hcorrect (matched - 1) (by omega)
      rw [Nat.sub_add_cancel (Nat.pos_of_ne_zero hzero)] at hentry
      have hlt := border_lt (Nat.pos_of_ne_zero hzero) (show matched ≤ normalized.length by omega)
      rw [fallBack, if_neg hzero, hget, bind_eq_bind, bind_some, if_neg hvalue]
      rw [hentry, bind_eq_bind, bind_some]
      refine ih _ (by omega) (by omega) ?_ ?_
      · exact ((overlap_suffix ..).trans (drop_suffix ..)).trans hsuffix
      · intro other hother hother' hnext
        have hle' := hlongest other hother hother' hnext
        have hne : other ≠ matched := by
          rintro rfl
          exact hvalue (some.inj (hnext.symm.trans hget))
        refine le_border (by omega) (by omega) (suffix_of_suffix_length_le hother' hsuffix ?_)
        rw [length_take, length_take]
        omega

theorem advance_eq_next {failure : List Nat} {state : Nat}
    (hcorrect : Correct normalized failure state) (hstate : state < normalized.length)
    (value : Char) : advance normalized failure value state =
      some (next normalized state value) := by
  obtain ⟨found, hle, hfound, hsuffix, hlongest, hstop⟩ :=
    fallBack_eq_some value hcorrect hstate state state Nat.le.refl Nat.le.refl
      suffix_rfl fun other hother hsuffix _ => by
        have hlength := hsuffix.length_le
        rw [length_take, length_take] at hlength
        omega
  have hget := List.getElem?_eq_getElem (show found < normalized.length by omega)
  rw [advance, hfound, bind_eq_bind, bind_some, hget, bind_eq_bind, bind_some]
  have hbelow : ∀ length < normalized.length,
      normalized.take (length + 1) <:+ normalized.take state ++ [value] →
        length ≤ found ∧ normalized[length]? = some value := by
    intro length hlength hsnoc
    obtain ⟨hsuffix, hvalue⟩ := (suffix_snoc_iff hlength).mp hsnoc
    exact ⟨hlongest length hlength hsuffix hvalue, hvalue⟩
  have hpattern := overlap_le normalized (normalized.take state ++ [value])
  have hnext := overlap_suffix normalized (normalized.take state ++ [value])
  congr 1
  unfold Matching.next
  by_cases hvalue : value = normalized[found]
  · rw [if_pos hvalue]
    apply Nat.le_antisymm
    · refine le_overlap (by omega) ((suffix_snoc_iff (by omega)).mpr ⟨hsuffix, ?_⟩)
      rw [hget, hvalue]
    · cases hcase : overlap normalized (normalized.take state ++ [value]) with
      | zero => omega
      | succ length =>
        rw [hcase] at hnext
        have hlength := (hbelow length (by omega) hnext).1
        omega
  · rw [if_neg hvalue]
    have hnone : normalized[found]? ≠ some value := fun heq =>
      hvalue (some.inj (heq.symm.trans hget))
    have hfound := hstop.resolve_right hnone
    subst hfound
    cases hcase : overlap normalized (normalized.take state ++ [value]) with
    | zero => rfl
    | succ length =>
      rw [hcase] at hnext
      obtain ⟨hlength, heq⟩ := hbelow length (by omega) hnext
      obtain rfl := Nat.le_zero.mp hlength
      exact absurd heq hnone

theorem fillFailure_correct (values : List Char) :
    ∀ index failure matched, values = normalized.drop index → 0 < index →
      index ≤ normalized.length → failure.length = normalized.length →
      Correct normalized failure index →
      matched = overlap normalized ((normalized.take index).drop 1) →
      ∃ filled, fillFailure normalized values index failure matched = some filled ∧
        Correct normalized filled normalized.length := by
  induction values with
  | nil =>
    intro index failure matched hvalues hpos hindex hlength hcorrect hmatched
    have hend := drop_eq_nil_iff.mp hvalues.symm
    refine ⟨failure, rfl, ?_⟩
    rwa [Nat.le_antisymm hindex hend] at hcorrect
  | cons value values ih =>
    intro index failure matched hvalues hpos hindex hlength hcorrect hmatched
    have hlt : index < normalized.length := by
      have hcount := congrArg List.length hvalues
      rw [length_cons, length_drop] at hcount
      omega
    rw [drop_eq_getElem_cons hlt] at hvalues
    obtain ⟨hvalue, hrest⟩ := List.cons.inj hvalues
    have hborder := border_lt hpos hindex
    have hbelow : Correct normalized failure matched :=
      fun other hother => hcorrect other (by omega)
    have hadvance := advance_eq_next hbelow (by omega) value
    have htake : (normalized.take (index + 1)).drop 1 =
        (normalized.take index).drop 1 ++ [value] := by
      rw [take_add_one, List.getElem?_eq_getElem hlt, hvalue, toList_some, drop_append_of_le_length]
      rw [length_take]
      omega
    have hnext : next normalized matched value =
        overlap normalized ((normalized.take (index + 1)).drop 1) := by
      rw [htake, overlap_snoc, hmatched]
    rw [fillFailure, hadvance, bind_eq_bind, bind_some]
    refine ih (index + 1) _ _ hrest (by omega) hlt (by rw [length_set, hlength]) ?_ hnext
    intro other hother
    rw [List.getElem?_set]
    split
    · rename_i heq
      subst heq
      rw [if_pos (by omega), hnext]
    · rename_i hne
      exact hcorrect other (by omega)

theorem failureTable_correct (hne : normalized ≠ []) :
    ∃ failure, failureTable normalized = some failure ∧
      Correct normalized failure normalized.length := by
  have hpos := length_pos_of_ne_nil hne
  have hnone : ∀ text : List Char, text.length ≤ 0 → overlap normalized text = 0 :=
    fun text htext => Nat.le_zero.mp ((overlap_le_length normalized text).trans htext)
  have hfirst : overlap normalized ((normalized.take 1).drop 1) = 0 := by
    apply hnone
    rw [length_drop, length_take]
    omega
  apply fillFailure_correct _ _ _ _ rfl Nat.one_pos hpos length_replicate ?_ hfirst.symm
  intro index hindex
  obtain rfl : index = 0 := by omega
  rw [hfirst, List.getElem?_replicate, if_pos hpos]

def normalize (toLowercase : Char → List Char) (text : List Char) : List Char :=
  text.foldl (appendNormalizedChar toLowercase) []

theorem appendNormalizedQuery_ok {toLowercase : Char → List Char} {query result : List Char}
    (h : appendNormalizedQuery toLowercase query normalized = .ok result) :
    result = query.foldl (appendNormalizedChar toLowercase) normalized := by
  induction query generalizing normalized with
  | nil => exact (Except.ok.inj h).symm
  | cons value query ih =>
    rw [appendNormalizedQuery] at h
    split at h
    · cases h
    · exact ih h

theorem SearchQuery.new_cases (toLowercase : Char → List Char) (text : List Char) :
    ∃ result, SearchQuery.new toLowercase text = some result ∧ ∀ query, result = .ok query →
      query.normalized = normalize toLowercase text ∧ query.normalized ≠ [] ∧
        Correct query.normalized query.failure query.normalized.length := by
  unfold SearchQuery.new
  cases hnormalized : appendNormalizedQuery toLowercase text [] with
  | error error => exact ⟨_, rfl, nofun⟩
  | ok normalized =>
    dsimp only
    split
    · exact ⟨_, rfl, nofun⟩
    · rename_i hempty
      have hne : normalized ≠ [] := fun heq => hempty (isEmpty_iff.mpr heq)
      obtain ⟨failure, hfailure, hcorrect⟩ := failureTable_correct hne
      refine ⟨.ok { normalized, failure }, by rw [hfailure]; rfl, ?_⟩
      intro query hquery
      cases hquery
      exact ⟨appendNormalizedQuery_ok hnormalized, hne, hcorrect⟩

end KeyReader.Search
