import KeyReader.Checked
import KeyReader.Splitting
import KeyReader.Utf8
import Mathlib.Algebra.Order.Ring.Nat
import Mathlib.Data.List.Perm.Subperm

/-! The groups of citations, such as `[20, 22-24]`: the parser of a group, and the grammar of the
groups with the numbers that they stand for. -/

namespace KeyReader.Scientific

open Splitting Utf8

def maxReferenceEntries : Nat := 1000

def maxGroupedCitationReferences : Nat := 32

/-- Why there are no numbers: an overflow of the arithmetic on `u32` is a panic. -/
inductive Refusal
  | noGroup
  | overflowed
  deriving DecidableEq

/-- The white space and punctuation around a citation. -/
def isOuter (character : Char) : Bool :=
  isWhitespace character || character = '.' || character = ':' || character = ',' ||
    character = ';' || character = '†' || character = '*'

def isSeparator (character : Char) : Bool := character = ',' || character = ';'

def isDash (character : Char) : Bool :=
  character = '-' || character = '–' || character = '—'

def trim (text : List Char) : List Char := trimMatches isWhitespace text

/-- `str::get` of a range of bytes. -/
def getBytes (text : List Char) (start finish : Nat) : Option (List Char) :=
  if start ≤ finish ∧ isCharBoundary text start ∧ isCharBoundary text finish then
    some (slice text start finish)
  else none

def decimal (digits : List Char) : Nat :=
  digits.foldl (fun value digit => value * 10 + (digit.toNat - 48)) 0

/-- `str::parse::<u32>`. -/
def parseU32 (text : List Char) : Option Nat :=
  let digits := match text with
    | '+' :: digits => digits
    | digits => digits
  if digits = [] ∨ !digits.all Char.isDigit ∨ 2 ^ 32 ≤ decimal digits then none
  else some (decimal digits)

def parseReferenceNumber (value : List Char) : Option Nat :=
  (parseU32 value).filter fun number => 0 < number ∧ number ≤ maxReferenceEntries

def orNoGroup {α : Type} : Option α → Except Refusal α
  | none => .error .noGroup
  | some value => .ok value

/-- The text within the brackets of a trimmed citation, or all of it. -/
def innerText (source : List Char) : Except Refusal (List Char) :=
  let first := source.head?
  let last := source.getLast?
  if first = some '[' ∧ last = some ']' ∨ first = some '(' ∧ last = some ')' then
    orNoGroup (getBytes source 1 (byteLength source - 1))
  else if first = some '[' ∨ first = some '(' ∨ last = some ']' ∨ last = some ')' then
    .error .noGroup
  else .ok source

/-- The characters of a group. -/
def isInner (character : Char) : Bool :=
  character.isDigit || isWhitespace character || isSeparator character || isDash character

def parseBounds (part : List Char) : Except Refusal (Nat × Nat) :=
  match (part.splitOnP isDash).map trim with
  | [single] => do
    let number ← orNoGroup (parseReferenceNumber single)
    .ok (number, number)
  | [start, finish] =>
    if start ≠ [] ∧ finish ≠ [] then do
      let start ← orNoGroup (parseReferenceNumber start)
      let finish ← orNoGroup (parseReferenceNumber finish)
      .ok (start, finish)
    else .error .noGroup
  | _ => .error .noGroup

/-- `end - start + 1` on `u32`. -/
def rangeLength (start finish : Nat) : Except Refusal Nat :=
  if start ≤ finish ∧ finish - start + 1 < 2 ^ 32 then .ok (finish - start + 1)
  else .error .overflowed

/-- The loop over the numbers of a range. -/
def pushNumbers : List Nat → List Nat → Except Refusal (List Nat)
  | [], numbers => .ok numbers
  | number :: range, numbers =>
    if number ∈ numbers then pushNumbers range numbers
    else
      let numbers := numbers ++ [number]
      if maxGroupedCitationReferences < numbers.length then .error .noGroup
      else pushNumbers range numbers

def pushRange (start finish : Nat) (numbers : List Nat) : Except Refusal (List Nat) :=
  if finish < start then .error .noGroup
  else do
    let length ← rangeLength start finish
    if maxGroupedCitationReferences < length then .error .noGroup
    else pushNumbers (List.range' start (finish + 1 - start)) numbers

/-- The loop over the parts of a group. -/
def pushParts : List (List Char) → List Nat → Except Refusal (List Nat)
  | [], numbers => .ok numbers
  | part :: parts, numbers => do
    let part := trim part
    if part = [] then throw .noGroup
    let (start, finish) ← parseBounds part
    let numbers ← pushRange start finish numbers
    pushParts parts numbers

def groupedCitationNumbers (source : List Char) : Except Refusal (List Nat) := do
  let source := trimMatches isOuter (trim source)
  let inner ← innerText source
  if inner = [] ∨ inner.any fun character => !isInner character then throw .noGroup
  let numbers ← pushParts (inner.splitOnP isSeparator) []
  if 2 ≤ numbers.length then .ok numbers else .error .noGroup

/-- White space around a token. -/
def Spaces (text : List Char) : Prop := ∀ character ∈ text, isWhitespace character = true

structure Numeral (digits : List Char) (number : Nat) : Prop where
  nonempty : digits ≠ []
  isDigit : ∀ character ∈ digits, character.isDigit = true
  value : decimal digits = number
  bounds : 1 ≤ number ∧ number ≤ maxReferenceEntries

inductive Item : List Char → Nat × Nat → Prop
  | single {before digits after : List Char} {number : Nat} (hbefore : Spaces before)
    (hdigits : Numeral digits number) (hafter : Spaces after) :
    Item (before ++ digits ++ after) (number, number)
  | range {before digits after before' digits' after' : List Char} {dash : Char}
    {start finish : Nat} (hbefore : Spaces before) (hstart : Numeral digits start)
    (hafter : Spaces after) (hdash : isDash dash = true) (hbefore' : Spaces before')
    (hfinish : Numeral digits' finish) (hafter' : Spaces after') (hle : start ≤ finish) :
    Item (before ++ digits ++ after ++ dash :: (before' ++ digits' ++ after')) (start, finish)

/-- Items with a comma or a semicolon between each two. -/
inductive Items : List Char → List (Nat × Nat) → Prop
  | last {text : List Char} {range : Nat × Nat} (hitem : Item text range) : Items text [range]
  | more {item text : List Char} {range : Nat × Nat} {separator : Char}
    {ranges : List (Nat × Nat)} (hitem : Item item range)
    (hseparator : isSeparator separator = true) (hrest : Items text ranges) :
    Items (item ++ separator :: text) (range :: ranges)

/-- A text by itself, or in one pair of brackets. -/
inductive Encloses : List Char → List Char → Prop
  | bare (inner : List Char) : Encloses inner inner
  | square (inner : List Char) : Encloses ('[' :: (inner ++ [']'])) inner
  | round (inner : List Char) : Encloses ('(' :: (inner ++ [')'])) inner

/-- The numbers of ranges, one range after the other. -/
def denoted (ranges : List (Nat × Nat)) : List Nat :=
  ranges.flatMap fun range => List.range' range.1 (range.2 + 1 - range.1)

/-- The items of a list, each at the place of its first appearance. -/
structure FirstAppearances (items numbers : List Nat) : Prop where
  mem_iff : ∀ number, number ∈ numbers ↔ number ∈ items
  ordered : numbers.Pairwise fun number later => items.idxOf number < items.idxOf later

structure Group (source : List Char) (numbers : List Nat) : Prop where
  text : ∃ body inner ranges, Trims isOuter source body ∧ Encloses body inner ∧ Items inner ranges ∧
    (∀ range ∈ ranges, range.2 + 1 - range.1 ≤ maxGroupedCitationReferences) ∧
    FirstAppearances (denoted ranges) numbers
  least : 2 ≤ numbers.length
  most : numbers.length ≤ maxGroupedCitationReferences

end KeyReader.Scientific

/-! The parser of a group of citations accepts exactly the texts of the grammar, and returns the
numbers that they stand for. -/

namespace KeyReader.Scientific

open Splitting Utf8 Checked List

variable {character : Char}

theorem isDigit_iff : character.isDigit = true ↔ 48 ≤ character.toNat ∧ character.toNat ≤ 57 := by
  rw [Char.isDigit, Bool.and_eq_true, decide_eq_true_eq, decide_eq_true_eq]
  rfl

theorem isWhitespace_of_isDigit (h : character.isDigit = true) :
    isWhitespace character = false := by
  obtain ⟨hle, hge⟩ := isDigit_iff.mp h
  simp only [isWhitespace, Bool.or_eq_false_iff, Bool.and_eq_false_iff, decide_eq_false_iff_not]
  omega

theorem isDash_cases (h : isDash character = true) :
    isWhitespace character = false ∧ isSeparator character = false ∧
      character.isDigit = false := by
  simp only [isDash, Bool.or_eq_true, decide_eq_true_eq] at h
  rcases h with (rfl | rfl) | rfl <;> decide

theorem isSeparator_cases (h : isSeparator character = true) :
    isWhitespace character = false ∧ isDash character = false ∧ character.isDigit = false := by
  simp only [isSeparator, Bool.or_eq_true, decide_eq_true_eq] at h
  rcases h with rfl | rfl <;> decide

theorem isDash_of_isDigit (h : character.isDigit = true) : isDash character = false := by
  rw [← Bool.not_eq_true]
  intro hdash
  exact Bool.false_ne_true ((isDash_cases hdash).2.2.symm.trans h)

theorem isDash_of_isWhitespace (h : isWhitespace character = true) : isDash character = false := by
  rw [← Bool.not_eq_true]
  intro hdash
  exact Bool.false_ne_true ((isDash_cases hdash).1.symm.trans h)

/-- The characters of an item. -/
def isToken (character : Char) : Bool :=
  character.isDigit || isWhitespace character || isDash character

theorem isSeparator_of_isToken (h : isToken character = true) : isSeparator character = false := by
  rw [← Bool.not_eq_true]
  intro hseparator
  obtain ⟨hspace, hdash, hdigit⟩ := isSeparator_cases hseparator
  simp [isToken, hspace, hdash, hdigit] at h

theorem isInner_of_isToken (h : isToken character = true) : isInner character = true := by
  simp only [isToken, isInner, Bool.or_eq_true] at h ⊢
  tauto

theorem isToken_of_isInner (h : isInner character = true)
    (hseparator : isSeparator character = false) : isToken character = true := by
  simp only [isToken, isInner, Bool.or_eq_true, hseparator, Bool.false_eq_true, or_false] at h ⊢
  tauto

variable {text : List Char}

theorem parseU32_eq (h : '+' ∉ text) : parseU32 text =
    if text = [] ∨ !text.all Char.isDigit ∨ 2 ^ 32 ≤ decimal text then none
    else some (decimal text) := by
  unfold parseU32
  dsimp only
  split
  · exact absurd mem_cons_self h
  · rfl

variable {digits : List Char} {number : Nat}

theorem parseReferenceNumber_iff (h : ∀ character ∈ digits, isToken character = true) :
    parseReferenceNumber digits = some number ↔ Numeral digits number := by
  have hplus : '+' ∉ digits := by
    intro hmem
    have hnot := h '+' hmem
    revert hnot
    decide
  rw [parseReferenceNumber, Option.filter_eq_some_iff, parseU32_eq hplus, decide_eq_true_eq]
  constructor
  · rintro ⟨hparse, hpos, hle⟩
    split at hparse
    · cases hparse
    · rename_i hnot
      simp only [not_or, not_le, Bool.not_eq_true, Bool.not_eq_false'] at hnot
      exact ⟨hnot.1, all_eq_true.mp hnot.2.1, Option.some.inj hparse, hpos, hle⟩
  · rintro ⟨hne, hdigits, rfl, hpos, hle⟩
    refine ⟨if_neg ?_, hpos, hle⟩
    simp only [not_or, not_le, Bool.not_eq_true, Bool.not_eq_false']
    refine ⟨hne, all_eq_true.mpr hdigits, ?_⟩
    unfold maxReferenceEntries at hle
    omega

theorem Numeral.token (h : Numeral digits number) :
    ∀ character ∈ digits, isToken character = true := by
  intro character hmem
  simp [isToken, h.isDigit character hmem]

theorem Spaces.token (h : Spaces text) : ∀ character ∈ text, isToken character = true := by
  intro character hmem
  simp [isToken, h character hmem]

theorem Numeral.trimmed (h : Numeral digits number) : Trimmed isWhitespace digits := by
  constructor
  · intro character hhead
    exact isWhitespace_of_isDigit (h.isDigit character (mem_of_head? hhead))
  · intro character hlast
    exact isWhitespace_of_isDigit (h.isDigit character (mem_of_getLast? hlast))

theorem Numeral.trim_eq {before after : List Char} (hbefore : Spaces before)
    (h : Numeral digits number) (hafter : Spaces after) :
    trim (before ++ digits ++ after) = digits :=
  Trims.eq ⟨⟨before, after, rfl, hbefore, hafter⟩, h.trimmed⟩

theorem exists_trim (text : List Char) : ∃ before after, text = before ++ trim text ++ after ∧
    Spaces before ∧ Spaces after :=
  (trimMatches_trims isWhitespace text).split

theorem Spaces.append {more : List Char} (h : Spaces text) (hmore : Spaces more) :
    Spaces (text ++ more) := by
  intro character hmem
  rcases mem_append.mp hmem with hmem | hmem
  · exact h character hmem
  · exact hmore character hmem

variable {range : Nat × Nat}

theorem Item.token (h : Item text range) : ∀ character ∈ text, isToken character = true := by
  intro character hmem
  cases h with
  | single hbefore hdigits hafter =>
    simp only [mem_append] at hmem
    rcases hmem with (hmem | hmem) | hmem
    · exact hbefore.token character hmem
    · exact hdigits.token character hmem
    · exact hafter.token character hmem
  | range hbefore hstart hafter hdash hbefore' hfinish hafter' hle =>
    simp only [mem_append, mem_cons] at hmem
    rcases hmem with ((hmem | hmem) | hmem) | rfl | (hmem | hmem) | hmem
    · exact hbefore.token character hmem
    · exact hstart.token character hmem
    · exact hafter.token character hmem
    · simp [isToken, hdash]
    · exact hbefore'.token character hmem
    · exact hfinish.token character hmem
    · exact hafter'.token character hmem

theorem Item.bounds (h : Item text range) :
    1 ≤ range.1 ∧ range.1 ≤ range.2 ∧ range.2 ≤ maxReferenceEntries := by
  cases h with
  | single hbefore hdigits hafter =>
    exact ⟨hdigits.bounds.1, Nat.le.refl, hdigits.bounds.2⟩
  | range hbefore hstart hafter hdash hbefore' hfinish hafter' hle =>
    exact ⟨hstart.bounds.1, hle, hfinish.bounds.2⟩

variable {α : Type}

theorem orNoGroup_eq_ok {result : Option α} {value : α} :
    orNoGroup result = .ok value ↔ result = some value := by
  cases result with
  | none | some found => simp [orNoGroup]

variable {finish start : Nat}

/-- Bounds that are in order are those of an item. -/
theorem item_of_parseBounds {part : List Char} (h : ∀ character ∈ part, isToken character = true)
    (hbounds : parseBounds (trim part) = .ok (start, finish)) (hle : start ≤ finish) :
    Item part (start, finish) := by
  obtain ⟨before, after, hpart, hbefore, hafter⟩ := exists_trim part
  have hpieces : ∀ {piece : List Char}, (∀ character ∈ piece, character ∈ trim part) →
      ∀ character ∈ trim piece, isToken character = true := by
    intro piece hpiece character hmem
    obtain ⟨before', after', heq, -, -⟩ := exists_trim piece
    have hmem' : character ∈ trim part := hpiece character (by rw [heq]; simp [hmem])
    apply h
    rw [hpart]
    simp [hmem']
  have hsplit := separated_splitOnP isDash (trim part)
  unfold parseBounds at hbounds
  generalize (trim part).splitOnP isDash = pieces at hsplit hbounds
  generalize trim part = text at hsplit hpart hpieces
  cases hsplit with
  | last hpiece =>
    simp only [map_cons, map_nil, bind_eq_ok, orNoGroup_eq_ok] at hbounds
    obtain ⟨number, hnumber, hresult⟩ := hbounds
    rw [parseReferenceNumber_iff (hpieces fun _ hmem => hmem)] at hnumber
    cases hresult
    obtain ⟨before', after', htext, hbefore', hafter'⟩ := exists_trim text
    have hitem := Item.single (hbefore.append hbefore') hnumber (hafter'.append hafter)
    rw [hpart, htext]
    simpa using hitem
  | @more first rest dash pieces hpiece hdash hrest =>
    cases hrest with
    | last hpiece' =>
      simp only [map_cons, map_nil] at hbounds
      split at hbounds
      · simp only [bind_eq_ok, orNoGroup_eq_ok] at hbounds
        obtain ⟨start', hstart, finish', hfinish, hresult⟩ := hbounds
        rw [parseReferenceNumber_iff (hpieces (by simp +contextual))] at hstart hfinish
        cases hresult
        obtain ⟨before₁, after₁, hfirst, hbefore₁, hafter₁⟩ := exists_trim first
        obtain ⟨before₂, after₂, hsecond, hbefore₂, hafter₂⟩ := exists_trim rest
        have hitem := Item.range (hbefore.append hbefore₁) hstart hafter₁ hdash hbefore₂ hfinish
          (hafter₂.append hafter) hle
        rw [hpart, hfirst, hsecond]
        simpa using hitem
      · cases hbounds
    | more _ _ hrest => cases hrest <;> simp at hbounds

/-- The bounds of an item are parsed. -/
theorem Item.parseBounds {part : List Char} (h : Item part (start, finish)) :
    trim part ≠ [] ∧ Scientific.parseBounds (trim part) = .ok (start, finish) := by
  have hnumeral : ∀ {digits : List Char} {number : Nat}, Numeral digits number →
      (∀ character ∈ digits, isDash character = false) ∧ trim digits = digits ∧
        parseReferenceNumber digits = some number := by
    intro digits number hdigits
    refine ⟨fun character hmem => isDash_of_isDigit (hdigits.isDigit character hmem), ?_,
      (parseReferenceNumber_iff hdigits.token).mpr hdigits⟩
    simpa using hdigits.trim_eq (forall_mem_nil _) (forall_mem_nil _)
  cases h with
  | single hbefore hdigits hafter =>
    obtain ⟨hdash, htrim, hparse⟩ := hnumeral hdigits
    rw [hdigits.trim_eq hbefore hafter]
    refine ⟨hdigits.nonempty, ?_⟩
    rw [Scientific.parseBounds, splitOnP_eq_singleton hdash, map_singleton, htrim]
    dsimp only
    rw [hparse]
    rfl
  | @range before digits after before' digits' after' dash _ _ hbefore hstart hafter hdash hbefore'
      hfinish hafter' hle =>
    obtain ⟨hnoDash, -, hparse⟩ := hnumeral hstart
    obtain ⟨hnoDash', -, hparse'⟩ := hnumeral hfinish
    have htrim : trim (before ++ digits ++ after ++ dash :: (before' ++ digits' ++ after')) =
        digits ++ after ++ dash :: (before' ++ digits') := by
      refine Trims.eq ⟨⟨before, after', by simp, hbefore, hafter'⟩, ?_, ?_⟩
      · intro character hhead
        obtain ⟨first, rest, rfl⟩ := exists_cons_of_ne_nil hstart.nonempty
        exact hstart.trimmed.head character hhead
      · intro character hlast
        obtain ⟨init, last, rfl⟩ := (eq_nil_or_concat' _).resolve_left hfinish.nonempty
        apply hfinish.trimmed.last character
        rw [← hlast]
        simp [List.getLast?_append, List.getLast?_cons]
    rw [htrim]
    refine ⟨by simp, ?_⟩
    have hspaces : ∀ {text : List Char}, Spaces text →
        ∀ character ∈ text, isDash character = false :=
      fun hspaces character hmem => isDash_of_isWhitespace (hspaces character hmem)
    rw [Scientific.parseBounds, splitOnP_append_cons _ _ hdash,
      splitOnP_eq_singleton, splitOnP_eq_singleton]
    · have hfirst : trim (digits ++ after) = digits := by
        simpa using hstart.trim_eq (forall_mem_nil _) hafter
      have hsecond : trim (before' ++ digits') = digits' := by
        simpa using hfinish.trim_eq hbefore' (forall_mem_nil _)
      rw [singleton_append, map_cons, map_singleton, hfirst, hsecond]
      dsimp only
      rw [if_pos ⟨hstart.nonempty, hfinish.nonempty⟩, hparse, hparse']
      rfl
    · intro character hmem
      rcases mem_append.mp hmem with hmem | hmem
      · exact hspaces hbefore' character hmem
      · exact hnoDash' character hmem
    · intro character hmem
      rcases mem_append.mp hmem with hmem | hmem
      · exact hnoDash character hmem
      · exact hspaces hafter character hmem

theorem FirstAppearances.nodup {items numbers : List Nat} (h : FirstAppearances items numbers) :
    numbers.Nodup :=
  h.ordered.imp fun hlt heq => by
    subst heq
    exact Nat.lt_irrefl _ hlt

theorem FirstAppearances.unique {items numbers others : List Nat}
    (h : FirstAppearances items numbers) (hother : FirstAppearances items others) :
    numbers = others := by
  have hperm : numbers.Perm others := (perm_ext_iff_of_nodup h.nodup hother.nodup).mpr
    fun number => (h.mem_iff number).trans (hother.mem_iff number).symm
  refine hperm.eq_of_pairwise ?_ h.ordered hother.ordered
  intro number other _ _ hlt hgt
  exact absurd hlt (Nat.lt_asymm hgt)

theorem FirstAppearances.nil : FirstAppearances [] [] := ⟨by simp, .nil⟩

theorem FirstAppearances.seen {items numbers : List Nat} (h : FirstAppearances items numbers)
    (hmem : number ∈ numbers) : FirstAppearances (items ++ [number]) numbers := by
  constructor
  · intro other
    rw [mem_append, mem_singleton, ← h.mem_iff]
    constructor
    · exact .inl
    · rintro (hother | rfl)
      · exact hother
      · exact hmem
  · refine h.ordered.imp_of_mem fun hfirst hlater hlt => ?_
    rwa [idxOf_append_of_mem ((h.mem_iff _).mp hfirst),
      idxOf_append_of_mem ((h.mem_iff _).mp hlater)]

theorem FirstAppearances.push {items numbers : List Nat} (h : FirstAppearances items numbers)
    (hnot : number ∉ numbers) : FirstAppearances (items ++ [number]) (numbers ++ [number]) := by
  have hnew : number ∉ items := fun hmem => hnot ((h.mem_iff number).mpr hmem)
  constructor
  · intro other
    rw [mem_append, mem_append, h.mem_iff]
  · refine pairwise_append.mpr ⟨?_, pairwise_singleton _ _, ?_⟩
    · refine h.ordered.imp_of_mem fun hfirst hlater hlt => ?_
      rwa [idxOf_append_of_mem ((h.mem_iff _).mp hfirst),
        idxOf_append_of_mem ((h.mem_iff _).mp hlater)]
    · intro other hother later hlater
      have hitem := (h.mem_iff other).mp hother
      rw [mem_singleton.mp hlater, idxOf_append_of_mem hitem, idxOf_append_of_notMem hnew]
      have hlt := idxOf_lt_length_of_mem hitem
      omega

theorem FirstAppearances.length_le {items more numbers others : List Nat}
    (h : FirstAppearances items numbers) (hother : FirstAppearances (items ++ more) others) :
    numbers.length ≤ others.length := by
  refine (subperm_of_subset h.nodup ?_).length_le
  intro number hmem
  exact (hother.mem_iff number).mpr (mem_append_left _ ((h.mem_iff number).mp hmem))

theorem exists_firstAppearances (items : List Nat) : ∃ numbers, FirstAppearances items numbers := by
  induction items using List.reverseRecOn with
  | nil => exact ⟨[], .nil⟩
  | append_singleton items number ih =>
    obtain ⟨numbers, h⟩ := ih
    by_cases hmem : number ∈ numbers
    · exact ⟨numbers, h.seen hmem⟩
    · exact ⟨_, h.push hmem⟩

variable {result : List Nat}

theorem pushNumbers_iff {range items numbers : List Nat} (h : FirstAppearances items numbers)
    (hlength : numbers.length ≤ maxGroupedCitationReferences) :
    pushNumbers range numbers = .ok result ↔ FirstAppearances (items ++ range) result ∧
        result.length ≤ maxGroupedCitationReferences := by
  induction range generalizing items numbers with
  | nil =>
    rw [pushNumbers, append_nil, Except.ok.injEq]
    constructor
    · rintro rfl
      exact ⟨h, hlength⟩
    · exact fun hresult => h.unique hresult.1
  | cons number range ih =>
    have hitems : items ++ number :: range = items ++ [number] ++ range := by simp
    rw [pushNumbers, hitems]
    split
    · rename_i hmem
      exact ih (h.seen hmem) hlength
    · rename_i hnot
      have hpush := h.push hnot
      dsimp only
      split
      · rename_i hfull
        refine iff_of_false nofun ?_
        rintro ⟨hresult, hle⟩
        have hlong := hpush.length_le hresult
        omega
      · rename_i hroom
        exact ih hpush (Nat.not_lt.mp hroom)

theorem pushRange_iff {items numbers : List Nat} (h : FirstAppearances items numbers)
    (hlength : numbers.length ≤ maxGroupedCitationReferences)
    (hfinish : finish ≤ maxReferenceEntries) : pushRange start finish numbers = .ok result ↔
      (start ≤ finish ∧ finish + 1 - start ≤ maxGroupedCitationReferences) ∧
        FirstAppearances (items ++ List.range' start (finish + 1 - start)) result ∧
          result.length ≤ maxGroupedCitationReferences := by
  unfold maxReferenceEntries at hfinish
  rw [pushRange]
  split
  · refine iff_of_false nofun ?_
    rintro ⟨⟨hle, -⟩, -⟩
    omega
  · rename_i hle
    have hok : rangeLength start finish = .ok (finish - start + 1) := if_pos ⟨by omega, by omega⟩
    rw [hok]
    show (if maxGroupedCitationReferences < finish - start + 1 then Except.error Refusal.noGroup
      else pushNumbers (List.range' start (finish + 1 - start)) numbers) = .ok result ↔ _
    split
    · refine iff_of_false nofun ?_
      rintro ⟨⟨-, hspan⟩, -⟩
      omega
    · rw [pushNumbers_iff h hlength]
      exact (and_iff_right ⟨by omega, by omega⟩).symm

theorem le_of_pushRange {numbers : List Nat} (h : pushRange start finish numbers = .ok result) :
    start ≤ finish := by
  unfold pushRange at h
  split at h
  · cases h
  · omega

theorem denoted_cons (range : Nat × Nat) (ranges : List (Nat × Nat)) : denoted (range :: ranges) =
    List.range' range.1 (range.2 + 1 - range.1) ++ denoted ranges := flatMap_cons

/-- The parts of a group are items with the numbers that are added. -/
theorem pushParts_iff {parts : List (List Char)}
    (hparts : ∀ part ∈ parts, ∀ character ∈ part, isToken character = true)
    {items numbers : List Nat} (h : FirstAppearances items numbers)
    (hlength : numbers.length ≤ maxGroupedCitationReferences) :
    pushParts parts numbers = .ok result ↔ ∃ ranges, List.Forall₂ Item parts ranges ∧
      (∀ range ∈ ranges, range.2 + 1 - range.1 ≤ maxGroupedCitationReferences) ∧
      FirstAppearances (items ++ denoted ranges) result ∧
      result.length ≤ maxGroupedCitationReferences := by
  induction parts generalizing items numbers with
  | nil =>
    rw [pushParts, Except.ok.injEq]
    constructor
    · rintro rfl
      exact ⟨[], .nil, by simp, by simpa [denoted] using h, hlength⟩
    · rintro ⟨ranges, hitems, -, hresult, -⟩
      cases hitems
      exact h.unique (by simpa [denoted] using hresult)
  | cons part parts ih =>
    obtain ⟨hpart, hrest⟩ := forall_mem_cons.mp hparts
    have ih := @ih hrest
    constructor
    · intro hok
      rw [pushParts] at hok
      split at hok
      · cases hok
      obtain ⟨⟨start, finish⟩, hbounds, hok⟩ := bind_eq_ok.mp hok
      obtain ⟨pushed, hpushed, hok⟩ := bind_eq_ok.mp hok
      have hitem := item_of_parseBounds hpart hbounds (le_of_pushRange hpushed)
      obtain ⟨⟨-, hspan⟩, hfound, hroom⟩ := (pushRange_iff h hlength hitem.bounds.2.2).mp hpushed
      obtain ⟨ranges, hitems, hspans, hresult, hle⟩ := (ih hfound hroom).mp hok
      refine ⟨(start, finish) :: ranges, .cons hitem hitems,
        forall_mem_cons.mpr ⟨hspan, hspans⟩, ?_, hle⟩
      rwa [denoted_cons, ← append_assoc]
    · rintro ⟨ranges, hitems, hspans, hresult, hle⟩
      cases hitems with
      | @cons _ range _ ranges hitem hitems =>
        obtain ⟨hspan, hspans⟩ := forall_mem_cons.mp hspans
        rw [denoted_cons, ← append_assoc] at hresult
        obtain ⟨pushed, hfound⟩ := exists_firstAppearances
          (items ++ List.range' range.1 (range.2 + 1 - range.1))
        have hroom := (hfound.length_le hresult).trans hle
        have hpushed := (pushRange_iff h hlength hitem.bounds.2.2).mpr
          ⟨⟨hitem.bounds.2.1, hspan⟩, hfound, hroom⟩
        obtain ⟨hne, hbounds⟩ := hitem.parseBounds
        rw [pushParts]
        rw [if_neg hne]
        refine bind_eq_ok.mpr ⟨range, hbounds, bind_eq_ok.mpr ⟨pushed, hpushed, ?_⟩⟩
        exact (ih hfound hroom).mpr ⟨ranges, hitems, hspans, hresult, hle⟩

variable {ranges : List (Nat × Nat)}

theorem items_iff : Items text ranges ↔ List.Forall₂ Item (text.splitOnP isSeparator) ranges := by
  constructor
  · intro h
    induction h with
    | last hitem =>
      rw [splitOnP_eq_singleton fun character hmem =>
        isSeparator_of_isToken (hitem.token character hmem)]
      exact .cons hitem .nil
    | more hitem hseparator hrest ih =>
      rw [splitOnP_append_cons _ _ hseparator, splitOnP_eq_singleton fun character hmem =>
        isSeparator_of_isToken (hitem.token character hmem)]
      exact .cons hitem ih
  · intro h
    have hsplit := separated_splitOnP isSeparator text
    generalize text.splitOnP isSeparator = pieces at hsplit h
    induction hsplit generalizing ranges with
    | last hpiece =>
      cases h with
      | cons hitem hrest =>
        cases hrest
        exact .last hitem
    | more hpiece hseparator hrest ih =>
      cases h with
      | cons hitem hitems => exact .more hitem hseparator (ih hitems)

theorem Items.inner (h : Items text ranges) : ∀ character ∈ text, isInner character = true := by
  induction h with
  | last hitem => exact fun character hmem => isInner_of_isToken (hitem.token character hmem)
  | more hitem hseparator hrest ih =>
    intro character hmem
    rw [mem_append, mem_cons] at hmem
    rcases hmem with hmem | rfl | hmem
    · exact isInner_of_isToken (hitem.token character hmem)
    · simp [isInner, hseparator]
    · exact ih character hmem

theorem Item.ne_nil (h : Item text range) : text ≠ [] := by
  cases h with
  | single hbefore hdigits hafter => simp [hdigits.nonempty]
  | range hbefore hstart hafter hdash hbefore' hfinish hafter' hle => simp

theorem Items.ne_nil (h : Items text ranges) : text ≠ [] := by
  cases h with
  | last hitem => exact hitem.ne_nil
  | more hitem hseparator hrest => simp

theorem exists_enclosed {source : List Char} {first last : Char} (hne : first ≠ last)
    (hfirst : source.head? = some first) (hlast : source.getLast? = some last) :
    ∃ inner, source = first :: (inner ++ [last]) := by
  cases source with
  | nil => cases hfirst
  | cons character rest =>
    cases hfirst
    cases eq_nil_or_concat' rest with
    | inl hnil =>
      subst hnil
      exact absurd (Option.some.inj hlast) hne
    | inr hconcat =>
      obtain ⟨inner, closing, rfl⟩ := hconcat
      rw [← cons_append, List.getLast?_concat] at hlast
      exact ⟨inner, by rw [Option.some.inj hlast]⟩

theorem getBytes_enclosed {first last : Char} (hfirst : first.utf8Size = 1)
    (hlast : last.utf8Size = 1) (inner : List Char) :
    getBytes (first :: (inner ++ [last])) 1 (byteLength (first :: (inner ++ [last])) - 1) =
      some inner := by
  have hlength : byteLength (first :: (inner ++ [last])) - 1 = 1 + byteLength inner := by
    simp only [byteLength_cons, byteLength_append, byteLength_nil, hfirst, hlast]
    omega
  have hbefore : byteLength [first] = 1 := by rw [byteLength_cons, hfirst, byteLength_nil]
  rw [hlength, getBytes, if_pos]
  · have hslice := slice_append [first] inner [last]
    rw [hbefore] at hslice
    exact congrArg some hslice
  · refine ⟨Nat.le_add_right .., isCharBoundary_iff.mpr ⟨[first], ?_, hbefore⟩,
      isCharBoundary_iff.mpr ⟨first :: inner, ?_, ?_⟩⟩
    · exact prefix_append [first] _
    · rw [← cons_append]
      exact prefix_append ..
    · rw [byteLength_cons, hfirst]

theorem innerText_iff {source inner : List Char}
    (hinner : ∀ character ∈ inner, isInner character = true) :
    innerText source = .ok inner ↔ Encloses source inner := by
  have hbracket : ∀ {character : Char}, character ∈ inner →
      character ≠ '[' ∧ character ≠ '(' ∧ character ≠ ']' ∧ character ≠ ')' := by
    intro character hmem
    have htoken := hinner character hmem
    refine ⟨?_, ?_, ?_, ?_⟩ <;> (rintro rfl; revert htoken; decide)
  constructor
  · intro h
    unfold innerText at h
    dsimp only at h
    split at h
    · rename_i hbrackets
      rw [orNoGroup_eq_ok] at h
      rcases hbrackets with ⟨hfirst, hlast⟩ | ⟨hfirst, hlast⟩
      · obtain ⟨text, rfl⟩ := exists_enclosed (by decide) hfirst hlast
        rw [getBytes_enclosed (by decide) (by decide)] at h
        rw [Option.some.inj h]
        exact .square inner
      · obtain ⟨text, rfl⟩ := exists_enclosed (by decide) hfirst hlast
        rw [getBytes_enclosed (by decide) (by decide)] at h
        rw [Option.some.inj h]
        exact .round inner
    split at h
    · cases h
    · rw [Except.ok.inj h]
      exact .bare inner
  · intro h
    unfold innerText
    cases h with
    | bare =>
      have hhead : ∀ {character : Char}, source.head? = some character → character ∈ source :=
        fun hhead => mem_of_head? hhead
      have hlast : ∀ {character : Char}, source.getLast? = some character → character ∈ source :=
        fun hlast => mem_of_getLast? hlast
      rw [if_neg, if_neg]
      · rintro (h | h | h | h)
        · exact (hbracket (hhead h)).1 rfl
        · exact (hbracket (hhead h)).2.1 rfl
        · exact (hbracket (hlast h)).2.2.1 rfl
        · exact (hbracket (hlast h)).2.2.2 rfl
      · rintro (⟨h, -⟩ | ⟨h, -⟩)
        · exact (hbracket (hhead h)).1 rfl
        · exact (hbracket (hhead h)).2.1 rfl
    | square =>
      rw [if_pos, getBytes_enclosed (by decide) (by decide)]
      · rfl
      · rw [← cons_append, List.getLast?_concat]
        exact .inl ⟨rfl, rfl⟩
    | round =>
      rw [if_pos, getBytes_enclosed (by decide) (by decide)]
      · rfl
      · rw [← cons_append, List.getLast?_concat]
        exact .inr ⟨rfl, rfl⟩

theorem bind_ne_overflowed {β : Type} {result : Except Refusal α} {f : α → Except Refusal β}
    (h : result ≠ .error .overflowed)
    (hf : ∀ value, result = .ok value → f value ≠ .error .overflowed) :
    (result >>= f) ≠ .error .overflowed := by
  cases result with
  | ok value => exact hf value rfl
  | error refusal =>
    intro heq
    exact h (congrArg Except.error (Except.error.inj heq))

theorem orNoGroup_ne_overflowed (result : Option α) : orNoGroup result ≠ .error .overflowed := by
  cases result with
  | none | some value =>
    intro h
    cases h

theorem le_of_parseReferenceNumber {value : List Char}
    (h : parseReferenceNumber value = some number) : number ≤ maxReferenceEntries :=
  (of_decide_eq_true (Option.filter_eq_some_iff.mp h).2).2

theorem parseBounds_bounded (part : List Char) : parseBounds part ≠ .error .overflowed ∧
    ∀ bounds, parseBounds part = .ok bounds → bounds.2 ≤ maxReferenceEntries := by
  have hnone : ∀ {α : Type}, (.error .noGroup : Except Refusal α) ≠ .error .overflowed := nofun
  unfold parseBounds
  split
  · refine ⟨bind_ne_overflowed (orNoGroup_ne_overflowed _) fun _ _ h => (by cases h), ?_⟩
    intro bounds h
    obtain ⟨number, hnumber, h⟩ := bind_eq_ok.mp h
    rw [← Except.ok.inj h]
    exact le_of_parseReferenceNumber (orNoGroup_eq_ok.mp hnumber)
  · split
    · refine ⟨bind_ne_overflowed (orNoGroup_ne_overflowed _) fun _ _ =>
        bind_ne_overflowed (orNoGroup_ne_overflowed _) fun _ _ h => (by cases h), ?_⟩
      intro bounds h
      obtain ⟨start, -, h⟩ := bind_eq_ok.mp h
      obtain ⟨finish, hfinish, h⟩ := bind_eq_ok.mp h
      rw [← Except.ok.inj h]
      exact le_of_parseReferenceNumber (orNoGroup_eq_ok.mp hfinish)
    · exact ⟨hnone, nofun⟩
  · exact ⟨hnone, nofun⟩

theorem pushNumbers_ne_overflowed (range numbers : List Nat) :
    pushNumbers range numbers ≠ .error .overflowed := by
  induction range generalizing numbers with
  | nil =>
    intro h
    cases h
  | cons number range ih =>
    rw [pushNumbers]
    split
    · exact ih numbers
    dsimp only
    split
    · intro h
      cases h
    · exact ih _

theorem pushParts_ne_overflowed (parts : List (List Char)) (numbers : List Nat) :
    pushParts parts numbers ≠ .error .overflowed := by
  induction parts generalizing numbers with
  | nil =>
    intro h
    cases h
  | cons part parts ih =>
    rw [pushParts]
    split
    · intro h
      cases h
    obtain ⟨hbounds, hbounded⟩ := parseBounds_bounded (trim part)
    refine bind_ne_overflowed hbounds fun bounds hok => ?_
    refine bind_ne_overflowed ?_ fun pushed _ => ih pushed
    have hfinish := hbounded bounds hok
    unfold maxReferenceEntries at hfinish
    unfold pushRange
    split
    · intro h
      cases h
    · have hlength : rangeLength bounds.1 bounds.2 = .ok (bounds.2 - bounds.1 + 1) :=
        if_pos ⟨by omega, by omega⟩
      rw [hlength]
      refine bind_ne_overflowed nofun fun length _ => ?_
      split
      · intro h
        cases h
      · exact pushNumbers_ne_overflowed _ _

theorem trims_trim (source : List Char) :
    Trims isOuter source (trimMatches isOuter (trim source)) := by
  obtain ⟨before, after, hsource, hbefore, hafter⟩ := exists_trim source
  obtain ⟨⟨before', after', htrim, hbefore', hafter'⟩, htrimmed⟩ :=
    trimMatches_trims isOuter (trim source)
  have houter : ∀ {text : List Char}, Spaces text → ∀ character ∈ text, isOuter character = true := by
    intro text hspaces character hmem
    simp [isOuter, hspaces character hmem]
  refine ⟨⟨before ++ before', after' ++ after, ?_, ?_, ?_⟩, htrimmed⟩
  · calc source = before ++ trim source ++ after := hsource
      _ = before ++ (before' ++ trimMatches isOuter (trim source) ++ after') ++ after :=
        congrArg (fun text => before ++ text ++ after) htrim
      _ = _ := by simp
  · intro character hmem
    rcases mem_append.mp hmem with hmem | hmem
    · exact houter hbefore character hmem
    · exact hbefore' character hmem
  · intro character hmem
    rcases mem_append.mp hmem with hmem | hmem
    · exact hafter' character hmem
    · exact houter hafter character hmem

theorem token_of_splitOnP {inner : List Char} (h : ∀ character ∈ inner, isInner character = true) :
    ∀ part ∈ inner.splitOnP isSeparator, ∀ character ∈ part, isToken character = true := by
  intro part hpart character hmem
  obtain ⟨hinner, hseparator⟩ := (separated_splitOnP isSeparator inner).mem hpart hmem
  exact isToken_of_isInner (h character hinner) hseparator

/-- The parser returns the numbers of exactly the groups of the grammar, without an overflow, and
the text within brackets is a slice at character boundaries. -/
theorem groupedCitationNumbers_iff (source : List Char) :
    (∀ numbers, groupedCitationNumbers source = .ok numbers ↔ Group source numbers) ∧
    groupedCitationNumbers source ≠ .error .overflowed ∧
    ∀ text inner, text = trimMatches isOuter (trim source) →
      text = '[' :: (inner ++ [']']) ∨ text = '(' :: (inner ++ [')']) →
      getBytes text 1 (byteLength text - 1) = some inner := by
  refine ⟨fun numbers => ⟨?_, ?_⟩, ?_, ?_⟩
  · intro hok
    unfold groupedCitationNumbers at hok
    obtain ⟨inner, hinner, hok⟩ := bind_eq_ok.mp hok
    split at hok
    · cases hok
    rename_i hnot
    obtain ⟨hne, hall⟩ := not_or.mp hnot
    have hcharacters : ∀ character ∈ inner, isInner character = true := by simpa using hall
    obtain ⟨pushed, hpushed, hok⟩ := bind_eq_ok.mp hok
    split at hok
    · rename_i hleast
      cases hok
      obtain ⟨ranges, hitems, hspans, hfound, hmost⟩ := (pushParts_iff
        (token_of_splitOnP hcharacters) .nil (Nat.zero_le _)).mp hpushed
      exact ⟨⟨_, inner, ranges, trims_trim source, (innerText_iff hcharacters).mp hinner,
        items_iff.mpr hitems, hspans, hfound⟩, hleast, hmost⟩
    · cases hok
  · rintro ⟨⟨body, inner, ranges, htrims, hencloses, hitems, hspans, hfound⟩, hleast, hmost⟩
    have hbody : trimMatches isOuter (trim source) = body :=
      (trims_trim source).eq.symm.trans htrims.eq
    have hpushed := (pushParts_iff (token_of_splitOnP hitems.inner) .nil (Nat.zero_le _)).mpr
      ⟨ranges, items_iff.mp hitems, hspans, hfound, hmost⟩
    unfold groupedCitationNumbers
    rw [hbody]
    refine bind_eq_ok.mpr ⟨inner, (innerText_iff hitems.inner).mpr hencloses, ?_⟩
    rw [if_neg (not_or.mpr ⟨hitems.ne_nil, by simpa using hitems.inner⟩)]
    exact bind_eq_ok.mpr ⟨numbers, hpushed, if_pos hleast⟩
  · unfold groupedCitationNumbers
    refine bind_ne_overflowed ?_ fun inner _ => ?_
    · unfold innerText
      dsimp only
      split
      · exact orNoGroup_ne_overflowed _
      split
      · intro h
        cases h
      · intro h
        cases h
    split
    · intro h
      cases h
    refine bind_ne_overflowed (pushParts_ne_overflowed _ _) fun pushed _ => ?_
    split
    · intro h
      cases h
    · intro h
      cases h
  · rintro text inner - (rfl | rfl)
    · exact getBytes_enclosed (by decide) (by decide) inner
    · exact getBytes_enclosed (by decide) (by decide) inner

example : groupedCitationNumbers ['(', '2', '0', ',', ' ', '2', '2', '–', '2', '4', ')', '.'] =
    .ok [20, 22, 23, 24] := by decide

end KeyReader.Scientific
