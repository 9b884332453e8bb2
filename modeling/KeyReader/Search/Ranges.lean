import KeyReader.Search.Matches
import KeyReader.Sorted

/-! The ranges of the matches of a page: they are in order, and two of them share a character only
where the lower case of the character has several scalars, of which one ends an occurrence and a
later one starts the next. -/

namespace KeyReader.Matching

open List

variable {α : Type} {pattern text : List α}

theorem occurs_take {position cut : Nat} : Occurs pattern (text.take cut) position ↔
      Occurs pattern text position ∧ (pattern = [] ∨ position + pattern.length ≤ cut) := by
  unfold Occurs
  rw [drop_take]
  constructor
  · intro h
    refine ⟨h.trans ( take_prefix _ _), ?_⟩
    have hlength := h.length_le
    rw [length_take] at hlength
    by_cases hpattern : pattern = []
    · exact .inl hpattern
    · have hpos := length_pos_of_ne_nil hpattern
      exact .inr (by omega)
  · rintro ⟨h, rfl | hle⟩
    · exact nil_prefix
    · rw [prefix_take_iff]
      exact ⟨h, by omega⟩

theorem Leftmost.take {positions : List Nat} (hpattern : pattern ≠ [])
    (h : Leftmost pattern text positions) (cut : Nat) : Leftmost pattern (text.take cut)
      (positions.filter fun position => position + pattern.length ≤ cut) := by
  constructor
  · intro position hmem
    obtain ⟨hposition, hle⟩ := mem_filter.mp hmem
    exact occurs_take.mpr ⟨h.occurs position hposition, .inr (of_decide_eq_true hle)⟩
  · exact h.apart.filter _
  · intro other hother
    obtain ⟨hoccurs, hle⟩ := occurs_take.mp hother
    obtain ⟨position, hposition, hbefore, hlt⟩ := h.greedy other hoccurs
    have hcut := hle.resolve_left hpattern
    exact ⟨position, mem_filter.mpr ⟨hposition, decide_eq_true (by omega)⟩, hbefore, hlt⟩

theorem Leftmost.take_getElem {positions : List Nat} (hpattern : pattern ≠ [])
    (h : Leftmost pattern text positions) {i : Nat} (hi : i < positions.length) :
    Leftmost pattern (text.take (positions[i] + pattern.length))
      (positions.take i ++ [positions[i]]) := by
  have hpos := length_pos_of_ne_nil hpattern
  have hfilter : ∀ cut, positions[i] + pattern.length = cut →
      (positions.filter fun position => position + pattern.length ≤ cut) =
        positions.take (i + 1) := by
    rintro cut rfl
    conv_lhs => arg 2; rw [← take_append_drop (i + 1) positions]
    rw [filter_append, filter_eq_self.mpr, filter_eq_nil_iff.mpr, append_nil]
    · intro position hposition
      obtain ⟨k, hk, rfl⟩ := getElem_of_mem hposition
      rw [length_drop] at hk
      have hle := pairwise_iff_getElem.mp h.apart i (i + 1 + k) (by omega) (by omega) (by omega)
      rw [getElem_drop, decide_eq_true_eq]
      omega
    · intro position hposition
      obtain ⟨k, hk, rfl⟩ := getElem_of_mem hposition
      rw [length_take] at hk
      rw [getElem_take, decide_eq_true_eq]
      rcases Nat.eq_or_lt_of_le (show k ≤ i by omega) with rfl | hlt
      · exact Nat.le.refl
      · have hle := pairwise_iff_getElem.mp h.apart k i (by omega) hi hlt
        omega
  have hleftmost := h.take hpattern (positions[i] + pattern.length)
  rwa [hfilter _ rfl, take_succ_eq_append_getElem hi] at hleftmost

end KeyReader.Matching

namespace KeyReader.Search

open Matching List

section page

variable {B : Type} {toLowercase : Char → List Char}

/-- The number of normalized scalars of the characters before an index. -/
def foldedBefore (toLowercase : Char → List Char) (text : List Char) (index : Nat) : Nat :=
  (normalize toLowercase (text.take index)).length

/-- The characters of a page up to some place have been normalized, and each scalar is counted at
the character that it starts with. -/
structure Sourced (toLowercase : Char → List Char) (text : List Char)
    (atoms : List SourceAtom) : Prop where
  values : atoms.map (·.value) = normalize toLowercase text
  apart : atoms.Pairwise fun atom later =>
    atom.sourceEnd < later.sourceStart ∨ atom.sourceStart = later.sourceStart
  ends : ∀ atom ∈ atoms, atom.sourceEnd < text.length
  starts : ∀ position atom, atoms[position]? = some atom → atom.sourceStart ≤ atom.sourceEnd ∧
    foldedBefore toLowercase text atom.sourceStart ≤ position ∧
    position < foldedBefore toLowercase text (atom.sourceStart + 1)

theorem appendNormalizedSource_cases (toLowercase : Char → List Char) (atoms : List SourceAtom)
    (character : TextChar B) (index : Nat) :
    (∃ more : List SourceAtom, (∀ atom ∈ more, atom.sourceStart = index ∧ atom.sourceEnd = index) ∧
      appendNormalizedSource toLowercase atoms character index = atoms ++ more) ∨
    ∃ before last, atoms = before ++ [last] ∧
      appendNormalizedSource toLowercase atoms character index =
        before ++ [{ last with sourceEnd := index }] := by
  have hspace : ∀ atom ∈ [SourceAtom.mk ' ' index index],
      atom.sourceStart = index ∧ atom.sourceEnd = index := by simp
  unfold appendNormalizedSource appendNormalizedValue
  split
  · exact .inl ⟨[], by simp, by simp⟩
  split
  · cases hlast : atoms.getLast? with
    | none => exact .inl ⟨_, hspace, rfl⟩
    | some last =>
      dsimp only
      split
      · obtain ⟨before, rfl⟩ := List.getLast?_eq_some_iff.mp hlast
        exact .inr ⟨before, last, rfl, by rw [dropLast_concat]; rfl⟩
      · exact .inl ⟨_, hspace, rfl⟩
  · exact .inl ⟨_, by simp, rfl⟩

variable {text : List Char}

theorem foldedBefore_append (more : List Char) {index : Nat} (h : index ≤ text.length) :
    foldedBefore toLowercase (text ++ more) index = foldedBefore toLowercase text index := by
  rw [foldedBefore, take_append_of_le_length h, foldedBefore]

variable {atoms : List SourceAtom}

theorem Sourced.length (h : Sourced toLowercase text atoms) :
    atoms.length = (normalize toLowercase text).length := by
  rw [← h.values, length_map]

theorem Sourced.step (h : Sourced toLowercase text atoms) (character : TextChar B) :
    Sourced toLowercase (text ++ [character.value])
      (appendNormalizedSource toLowercase atoms character text.length) := by
  have hvalues : (appendNormalizedSource toLowercase atoms character text.length).map (·.value) =
      normalize toLowercase (text ++ [character.value]) := by
    rw [value_appendNormalizedSource, h.values, normalize, normalize, foldl_append,
      foldl_cons, foldl_nil]
  have hcount := congrArg List.length hvalues
  rw [length_map] at hcount
  -- The scalars that were there keep their first character.
  have hold : ∀ position atom, atoms[position]? = some atom →
      foldedBefore toLowercase (text ++ [character.value]) atom.sourceStart ≤ position ∧
        position < foldedBefore toLowercase (text ++ [character.value]) (atom.sourceStart + 1) := by
    intro position atom hatom
    have hend := h.ends atom (mem_of_getElem? hatom)
    obtain ⟨hrange, hstarts⟩ := h.starts position atom hatom
    rw [foldedBefore_append _ (by omega), foldedBefore_append _ (by omega)]
    exact hstarts
  rcases appendNormalizedSource_cases toLowercase atoms character text.length
    with ⟨more, hmore, heq⟩ | ⟨before, last, rfl, heq⟩
  · rw [heq] at hvalues hcount ⊢
    refine ⟨hvalues, ?_, ?_, ?_⟩
    · refine pairwise_append.mpr ⟨h.apart, ?_, ?_⟩
      · refine pairwise_of_forall_mem_list fun atom hatom later hlater => .inr ?_
        rw [(hmore atom hatom).1, (hmore later hlater).1]
      · intro atom hatom later hlater
        rw [(hmore later hlater).1]
        exact .inl (h.ends atom hatom)
    · intro atom hatom
      rw [length_append, length_singleton]
      rcases mem_append.mp hatom with hatom | hatom
      · exact Nat.lt_succ_of_lt (h.ends atom hatom)
      · rw [(hmore atom hatom).2]
        exact Nat.lt_succ_self _
    · intro position atom hatom
      rcases Nat.lt_or_ge position atoms.length with hlt | hge
      · rw [List.getElem?_append_left hlt] at hatom
        exact ⟨(h.starts position atom hatom).1, hold position atom hatom⟩
      · have hlt := (List.getElem?_eq_some_iff.mp hatom).1
        rw [List.getElem?_append_right hge] at hatom
        obtain ⟨hstart, hend⟩ := hmore atom (mem_of_getElem? hatom)
        rw [hstart, hend, foldedBefore_append _ Nat.le.refl, foldedBefore, foldedBefore,
          take_length, take_of_length_le (by simp), ← hcount, ← h.length]
        exact ⟨Nat.le.refl, hge, hlt⟩
  · rw [heq] at hvalues hcount ⊢
    obtain ⟨hbefore, -, hapart⟩ := pairwise_append.mp h.apart
    refine ⟨hvalues, ?_, ?_, ?_⟩
    · refine pairwise_append.mpr ⟨hbefore, pairwise_singleton .., ?_⟩
      intro atom hatom later hlater
      rw [mem_singleton.mp hlater]
      exact hapart atom hatom last mem_cons_self
    · intro atom hatom
      rw [length_append, length_singleton]
      rcases mem_append.mp hatom with hatom | hatom
      · exact Nat.lt_succ_of_lt (h.ends atom (mem_append_left _ hatom))
      · rw [mem_singleton.mp hatom]
        exact Nat.lt_succ_self _
    · intro position atom hatom
      rcases Nat.lt_or_ge position before.length with hlt | hge
      · rw [List.getElem?_append_left hlt] at hatom
        have hatom' : (before ++ [last])[position]? = some atom := by
          rw [List.getElem?_append_left hlt, hatom]
        exact ⟨(h.starts position atom hatom').1, hold position atom hatom'⟩
      · rw [List.getElem?_append_right hge, List.getElem?_singleton] at hatom
        split at hatom
        · rename_i hzero
          have hatom' : (before ++ [last])[position]? = some last := by
            rw [List.getElem?_append_right hge, hzero, List.getElem?_cons_zero]
          have hlast := h.ends last (mem_append_right _ mem_cons_self)
          have hrange := (h.starts position last hatom').1
          cases hatom
          exact ⟨by show last.sourceStart ≤ text.length; omega, hold position last hatom'⟩
        · cases hatom

theorem pageAtoms_append (characters : List (TextChar B)) (character : TextChar B) :
    pageAtoms toLowercase (characters ++ [character]) =
      appendNormalizedSource toLowercase (pageAtoms toLowercase characters) character
        characters.length := by
  rw [pageAtoms, zipIdx_append, foldl_append, zipIdx_singleton, foldl_cons,
    foldl_nil, Nat.zero_add, pageAtoms]

theorem pageAtoms_sourced (toLowercase : Char → List Char) (characters : List (TextChar B)) :
    Sourced toLowercase (characters.map (·.value)) (pageAtoms toLowercase characters) := by
  induction characters using List.reverseRecOn with
  | nil => exact ⟨rfl, .nil, by simp [pageAtoms], by simp [pageAtoms]⟩
  | append_singleton characters character ih =>
    have hstep := ih.step character
    rw [length_map] at hstep
    rw [pageAtoms_append, map_append]
    exact hstep

theorem foldedBefore_mono (toLowercase : Char → List Char) (text : List Char) {index other : Nat}
    (h : index ≤ other) :
    foldedBefore toLowercase text index ≤ foldedBefore toLowercase text other := by
  have hstep : ∀ (normalized : List Char) (value : Char), normalized.length ≤
      (appendNormalizedChar toLowercase normalized value).length := by
    intro normalized value
    unfold appendNormalizedChar appendNormalizedValue
    split
    · exact Nat.le.refl
    split
    · cases hlast : normalized.getLast? with
      | none => simp
      | some last =>
        obtain ⟨before, rfl⟩ := List.getLast?_eq_some_iff.mp hlast
        dsimp only
        split <;> simp
    · simp
  have hfold : ∀ more normalized : List Char, normalized.length ≤
      (more.foldl (appendNormalizedChar toLowercase) normalized).length := by
    intro more
    induction more with
    | nil => exact fun _ => Nat.le.refl
    | cons value more ih => exact fun normalized => (hstep normalized value).trans (ih _)
  obtain ⟨more, hmore⟩ := take_prefix_take_left h (l := text)
  rw [foldedBefore, foldedBefore, ← hmore, normalize, normalize, foldl_append]
  exact hfold more _

/-- Two scalars of a normalized text stand for one character of the text. -/
def Shared (toLowercase : Char → List Char) (text : List Char) (scalar other : Nat) : Prop :=
  ∃ index, foldedBefore toLowercase text index ≤ scalar ∧
    other < foldedBefore toLowercase text (index + 1)

theorem Sourced.disjoint_iff (h : Sourced toLowercase text atoms) {scalar other : Nat}
    {atom later : SourceAtom} (hlt : scalar < other) (hatom : atoms[scalar]? = some atom)
    (hlater : atoms[other]? = some later) :
    atom.sourceEnd < later.sourceStart ↔ ¬Shared toLowercase text scalar other := by
  obtain ⟨hscalar, rfl⟩ := List.getElem?_eq_some_iff.mp hatom
  obtain ⟨hother, rfl⟩ := List.getElem?_eq_some_iff.mp hlater
  have hatomStarts := h.starts _ _ hatom
  have hlaterStarts := h.starts _ _ hlater
  have hapart := pairwise_iff_getElem.mp h.apart scalar other hscalar hother hlt
  constructor
  · rintro hend ⟨index, hfrom, hto⟩
    -- Both scalars start within the character, so they start with it.
    have hfirst : ¬atoms[scalar].sourceStart < index := by
      intro hindex
      have hle := foldedBefore_mono toLowercase text
        (show atoms[scalar].sourceStart + 1 ≤ index by omega)
      omega
    have hsecond : ¬index < atoms[other].sourceStart := by
      intro hindex
      have hle := foldedBefore_mono toLowercase text
        (show index + 1 ≤ atoms[other].sourceStart by omega)
      omega
    omega
  · intro hshared
    rcases hapart with hend | heq
    · exact hend
    · exact absurd ⟨_, hatomStarts.2.1, heq ▸ hlaterStarts.2.2⟩ hshared

/-- Among the scalars of one character of a page, an occurrence found in the text so far ends, and
the pattern occurs again after it.  The occurrence is not the last one to be reported. -/
def Splits (toLowercase : Char → List Char) (text pattern : List Char) (limit : Nat) : Prop :=
  ∃ index before last start, foldedBefore toLowercase text index < last + pattern.length ∧
    last + pattern.length ≤ start ∧
    start < foldedBefore toLowercase text (index + 1) ∧
    Leftmost pattern ((normalize toLowercase text).take (last + pattern.length))
      (before ++ [last]) ∧
    before.length + 1 < limit ∧
    Occurs pattern (normalize toLowercase text) start

theorem not_splits_iff {pattern : List Char} {positions : List Nat} {limit : Nat}
    (hpattern : pattern ≠ []) (h : Leftmost pattern (normalize toLowercase text) positions) :
    ¬Splits toLowercase text pattern limit ↔ (positions.take limit).Pairwise
      fun position later => ¬Shared toLowercase text (position + pattern.length - 1) later := by
  have hpos := length_pos_of_ne_nil hpattern
  have hbegins : ∀ cut, (positions.filter fun position => position + pattern.length ≤ cut) =
      positions.takeWhile fun position => position + pattern.length ≤ cut := by
    intro cut
    refine (Sorted.takeWhile_eq_filter h.apart fun position later hle hcut => ?_).symm
    have hcut := of_decide_eq_true hcut
    exact decide_eq_true (by omega)
  constructor
  · intro hsplits
    apply pairwise_iff_getElem.mpr
    rintro i j hi hj hij ⟨index, hfrom, hto⟩
    rw [length_take] at hi hj
    rw [getElem_take] at hfrom hto
    have hapart := pairwise_iff_getElem.mp h.apart i j (by omega) (by omega) hij
    exact hsplits ⟨index, positions.take i, positions[i], positions[j], by omega, hapart, hto,
      h.take_getElem hpattern (by omega), by rw [length_take]; omega,
      h.occurs _ (getElem_mem _)⟩
  · rintro hpairwise ⟨index, before, last, start, hfrom, hcut, hto, hleftmost, hlimit, hoccurs⟩
    have hfound := hleftmost.unique hpattern (h.take hpattern _)
    rw [hbegins] at hfound
    obtain ⟨rest, hrest⟩ := takeWhile_prefix (l := positions)
      fun position => decide (position + pattern.length ≤ last + pattern.length)
    rw [← hfound] at hrest
    obtain ⟨position, hposition, hle, hlt⟩ := h.greedy start hoccurs
    have hmem : position ∈ rest := by
      rw [← hrest] at hposition
      refine (mem_append.mp hposition).resolve_left fun hbefore => ?_
      rw [hfound] at hbefore
      have hend := mem_takeWhile_imp hbefore
      rw [decide_eq_true_eq] at hend
      omega
    cases rest with
    | nil => cases hmem
    | cons next rest =>
      rw [← hrest] at hpairwise
      have hnext : next ≤ position := by
        rw [← hrest] at h
        rcases mem_cons.mp hmem with rfl | hmem
        · exact Nat.le.refl
        · have hlater := (pairwise_cons.mp (pairwise_append.mp h.apart).2.1).1 _ hmem
          omega
      have htwo : [last, next] <:+: ((before ++ [last]) ++ next :: rest).take limit := by
        obtain ⟨extra, rfl⟩ := Nat.exists_eq_add_of_lt hlimit
        refine ⟨before, rest.take extra, ?_⟩
        have hlength : before.length + 1 + extra + 1 = (before ++ [last, next]).length + extra := by
          simp
          omega
        rw [hlength, show before ++ [last] ++ next :: rest = (before ++ [last, next]) ++ rest by simp,
          take_length_add_append]
      have hapart := (pairwise_cons.mp (hpairwise.sublist htwo.sublist)).1 next mem_cons_self
      exact hapart ⟨index, by omega, by omega⟩

/-- The ranges of matches are nonempty, in order and disjoint. -/
structure Separate (found : List (SearchMatch B)) : Prop where
  nonempty : ∀ occurrence ∈ found, occurrence.id.start ≤ occurrence.id.finish
  apart : found.Pairwise fun occurrence later => occurrence.id.finish < later.id.start

/-- The matches of a page are separate exactly when no character of the page is split between the end
of one occurrence and the start of another. -/
theorem searchPage_separate_iff (toLowercase : Char → List Char) (geometry : Geometry B)
    (shouldCancel : Nat → Bool) (page : Nat) (characters : List (TextChar B)) {text : List Char}
    {query : SearchQuery} (hquery : SearchQuery.new toLowercase text = some (.ok query))
    (resultLimit : Nat) {results : SearchPageResults B}
    (hresults : searchPage toLowercase geometry shouldCancel page characters query resultLimit =
      some (.complete results)) :
    Separate results.found ↔ ¬Splits toLowercase (characters.map (·.value)) query.normalized
      (min resultLimit maxSearchResults) := by
  obtain ⟨result, hresult, hcases⟩ := SearchQuery.new_cases toLowercase text
  cases hquery.symm.trans hresult
  obtain ⟨-, hne, hcorrect⟩ := hcases query rfl
  obtain ⟨-, hfound, -, hreported⟩ := complete_of_returns (search_returns toLowercase geometry
    shouldCancel page characters hne hcorrect resultLimit) hresults
  have hleftmost := scan_leftmost hne ((pageAtoms toLowercase characters).map (·.value))
  generalize scan query.normalized 0 0 ((pageAtoms toLowercase characters).map (·.value)) =
    positions at hfound hleftmost
  rw [value_pageAtoms] at hleftmost
  have hpos := length_pos_of_ne_nil hne
  have hsourced := pageAtoms_sourced toLowercase characters
  rw [not_splits_iff hne hleftmost]
  -- An occurrence lies within the normalized page.
  have hinside : ∀ position ∈ positions,
      position + query.normalized.length ≤ (pageAtoms toLowercase characters).length := by
    intro position hposition
    have hlength := (hleftmost.occurs position hposition).length_le
    rw [length_drop, ← hsourced.length] at hlength
    omega
  have hid : ∀ position ∈ positions, ∃ first last,
      (pageAtoms toLowercase characters)[position]? = some first ∧
      (pageAtoms toLowercase characters)[position + query.normalized.length - 1]? = some last ∧
      matchId page (pageAtoms toLowercase characters) query.normalized.length position =
        some ⟨page, first.sourceStart, last.sourceEnd⟩ := by
    intro position hposition
    have hle := hinside position hposition
    have hfirst := List.getElem?_eq_getElem
      (show position < (pageAtoms toLowercase characters).length by omega)
    have hlast := List.getElem?_eq_getElem (show position + query.normalized.length - 1 <
      (pageAtoms toLowercase characters).length by omega)
    refine ⟨_, _, hfirst, hlast, ?_⟩
    rw [matchId, hfirst, hlast]
    rfl
  have hnonempty : ∀ occurrence ∈ results.found, occurrence.id.start ≤ occurrence.id.finish := by
    intro occurrence hoccurrence
    obtain ⟨-, -, -, -, -, -, hle, -⟩ := hreported occurrence hoccurrence
    exact hle
  -- The order of the matches is that of the occurrences.
  have hpairs : (results.found.Pairwise fun occurrence later =>
      occurrence.id.finish < later.id.start) ↔
      (results.found.map (fun found => some found.id)).Pairwise fun occurrence later =>
        ∀ id ∈ occurrence, ∀ other ∈ later, id.finish < other.start := by
    rw [pairwise_map]
    simp
  have hapart : (results.found.Pairwise fun occurrence later =>
      occurrence.id.finish < later.id.start) ↔
      (positions.take (min resultLimit maxSearchResults)).Pairwise fun position later =>
        ¬Shared toLowercase (characters.map (·.value))
          (position + query.normalized.length - 1) later := by
    rw [hpairs, hfound, pairwise_map]
    have hordering := hleftmost.apart.sublist (take_sublist (min resultLimit maxSearchResults) _)
    constructor
    · intro hmatches
      refine ((hmatches.and hordering).imp_of_mem ?_)
      rintro position later hposition hlater ⟨hmatch, hle⟩
      obtain ⟨first, last, -, hlast, hsome⟩ := hid position (mem_of_mem_take hposition)
      obtain ⟨first', last', hfirst', -, hsome'⟩ := hid later (mem_of_mem_take hlater)
      exact (hsourced.disjoint_iff (by omega) hlast hfirst').mp (hmatch _ hsome _ hsome')
    · intro hshared
      refine ((hshared.and hordering).imp_of_mem ?_)
      rintro position later hposition hlater ⟨hnot, hle⟩ id hmem other hmem'
      obtain ⟨first, last, -, hlast, hsome⟩ := hid position (mem_of_mem_take hposition)
      obtain ⟨first', last', hfirst', -, hsome'⟩ := hid later (mem_of_mem_take hlater)
      rw [hsome] at hmem
      rw [hsome'] at hmem'
      rw [← Option.mem_some_iff.mp hmem, ← Option.mem_some_iff.mp hmem']
      exact (hsourced.disjoint_iff (by omega) hlast hfirst').mpr hnot
  rw [← hapart]
  exact ⟨fun h => h.apart, fun h => ⟨hnonempty, h⟩⟩

end page

/-- The lower case of the letters of ASCII and of the capital I with a dot, whose dot is a scalar of
its own. -/
def dottedLowercase (value : Char) : List Char :=
  if value.toNat = 0x130 then ['i', Char.ofNat 0x307] else asciiLowercase value

/-- A dot, the capital I with a dot, and an i: the query of a dot and an i occurs twice. -/
def dotted : List (TextChar Unit) :=
  [⟨Char.ofNat 0x307, none⟩, ⟨Char.ofNat 0x130, none⟩, ⟨'i', none⟩]

theorem searchPage_separate_shout : ∃ results,
    searchPage asciiLowercase noBounds (fun _ => false) 0 shout ⟨['a', 'a'], [0, 1]⟩ 2 =
      some (.complete results) ∧
    (Separate results.found ↔ ¬Splits asciiLowercase (shout.map (·.value)) ['a', 'a'] 2) := by
  obtain ⟨results, hresults⟩ : ∃ results,
      searchPage asciiLowercase noBounds (fun _ => false) 0 shout ⟨['a', 'a'], [0, 1]⟩ 2 =
        some (.complete results) := ⟨_, rfl⟩
  exact ⟨results, hresults, searchPage_separate_iff asciiLowercase noBounds (fun _ => false) 0 shout
    (show SearchQuery.new asciiLowercase ['A', 'a'] = some (.ok ⟨['a', 'a'], [0, 1]⟩) by
      decide) 2 hresults⟩

/-- The two matches share the capital letter. -/
theorem searchPage_dotted_shares : ∃ query results,
    SearchQuery.new dottedLowercase [Char.ofNat 0x307, 'i'] = some (.ok query) ∧
    searchPage dottedLowercase noBounds (fun _ => false) 0 dotted query 20000 =
      some (.complete results) ∧
    results.found.map (·.id) = [⟨0, 0, 1⟩, ⟨0, 1, 2⟩] ∧ ¬Separate results.found := by
  have hquery : SearchQuery.new dottedLowercase [Char.ofNat 0x307, 'i'] =
      some (.ok ⟨[Char.ofNat 0x307, 'i'], [0, 0]⟩) := by decide
  obtain ⟨results, hresults, hfound⟩ : ∃ results,
      searchPage dottedLowercase noBounds (fun _ => false) 0 dotted
        ⟨[Char.ofNat 0x307, 'i'], [0, 0]⟩ 20000 = some (.complete results) ∧
      results.found.map (·.id) = [⟨0, 0, 1⟩, ⟨0, 1, 2⟩] := ⟨_, rfl, rfl⟩
  refine ⟨_, results, hquery, hresults, hfound, fun hseparate => ?_⟩
  have hids : (results.found.map (·.id)).Pairwise fun id later => id.finish < later.start :=
    pairwise_map.mpr hseparate.apart
  rw [hfound] at hids
  revert hids
  decide

end KeyReader.Search
