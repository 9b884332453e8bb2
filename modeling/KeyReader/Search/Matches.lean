import KeyReader.Search.Page

/-! The matches of a page: a search that is not cancelled finds the leftmost occurrences of the
normalized query, up to the limit, and says whether there are more. -/

namespace KeyReader.Search

open Matching List Option

/-- A computation that does not panic, is cancelled only by a poll, and whose result satisfies `Q`. -/
def Returns {α : Type} (shouldCancel : Nat → Bool) (m : Polled α) (Q : α → Prop) : Prop :=
  ∀ polls, match m polls with
    | .ok (result, _) => Q result
    | .error .cancelled => ∃ poll, shouldCancel poll
    | .error .panicked => False

namespace Returns

variable {α β : Type} {shouldCancel : Nat → Bool} {Q : α → Prop} {R : β → Prop}

theorem mono {m : Polled α} {Q' : α → Prop} (h : Returns shouldCancel m Q)
    (himp : ∀ a, Q a → Q' a) : Returns shouldCancel m Q' := by
  intro polls
  have hresult := h polls
  cases hrun : m polls with
  | ok result =>
    rw [hrun] at hresult
    exact himp _ hresult
  | error halt =>
    rw [hrun] at hresult
    cases halt with
    | cancelled | panicked => exact hresult

theorem pure {a : α} (h : Q a) : Returns shouldCancel (pure a) Q := fun _ => h

theorem bind {m : Polled α} {f : α → Polled β} (hm : Returns shouldCancel m Q)
    (hf : ∀ a, Q a → Returns shouldCancel (f a) R) : Returns shouldCancel (m >>= f) R := by
  intro polls
  have hresult := hm polls
  have hbind : (m >>= f) polls = (m polls >>= fun run => f run.1 run.2) := rfl
  rw [hbind]
  cases hrun : m polls with
  | ok result =>
    rw [hrun] at hresult
    exact hf result.1 hresult result.2
  | error halt =>
    rw [hrun] at hresult
    cases halt with
    | cancelled | panicked => exact hresult

theorem poll : Returns shouldCancel (poll shouldCancel) fun _ => True := by
  intro polls
  unfold Search.poll
  split
  · rename_i h
    split at h
    · cases h
    · trivial
  · rename_i h
    split at h
    · rename_i hpoll
      exact ⟨polls, hpoll⟩
    · cases h
  · rename_i h
    split at h <;> cases h

theorem pollAt (index : Nat) : Returns shouldCancel (pollAt shouldCancel index) fun _ => True := by
  unfold Search.pollAt
  split
  · exact poll
  · exact pure trivial

theorem expect {value : Option α} {a : α} (h : value = some a) :
    Returns shouldCancel (expect value) (· = a) := by
  subst h
  exact pure rfl

end Returns

section page

variable {B : Type} {toLowercase : Char → List Char} {geometry : Geometry B}
  {shouldCancel : Nat → Bool}

def pageAtoms (toLowercase : Char → List Char) (characters : List (TextChar B)) :
    List SourceAtom :=
  characters.zipIdx.foldl (fun normalized character =>
    appendNormalizedSource toLowercase normalized character.1 character.2) []

variable (characters : List (TextChar B))

theorem normalizeFrom_returns (index : Nat) (normalized : List SourceAtom) :
    Returns shouldCancel (normalizeFrom toLowercase shouldCancel characters index normalized)
      (· = (characters.zipIdx index).foldl (fun normalized character =>
        appendNormalizedSource toLowercase normalized character.1 character.2) normalized) := by
  induction characters generalizing index normalized with
  | nil => exact .pure rfl
  | cons character characters ih =>
    rw [zipIdx_cons, foldl_cons]
    exact .bind (.pollAt index) fun _ _ => ih (index + 1) _

theorem value_appendNormalizedSource (normalized : List SourceAtom) (character : TextChar B)
    (index : Nat) :
    (appendNormalizedSource toLowercase normalized character index).map (·.value) =
      appendNormalizedChar toLowercase (normalized.map (·.value)) character.value := by
  unfold appendNormalizedSource appendNormalizedChar appendNormalizedValue
  split
  · rfl
  split
  · rw [List.getLast?_map]
    cases normalized.getLast? with
    | none => simp
    | some last =>
      simp only [map_some, NormalizedAtom.normalizedValue]
      split
      · simp [NormalizedAtom.extendSourceTo, map_dropLast]
      · simp
  · simp [Function.comp_def]

theorem value_pageAtoms : (pageAtoms toLowercase characters).map (·.value) =
      normalize toLowercase (characters.map (·.value)) := by
  suffices h : ∀ index (normalized : List SourceAtom),
      ((characters.zipIdx index).foldl (fun normalized character =>
        appendNormalizedSource toLowercase normalized character.1 character.2) normalized).map
          (·.value) = (characters.map (·.value)).foldl (appendNormalizedChar toLowercase)
            (normalized.map (·.value)) from h 0 []
  induction characters with
  | nil => exact fun _ _ => rfl
  | cons character characters ih =>
    intro index normalized
    rw [zipIdx_cons, foldl_cons, ih, value_appendNormalizedSource]
    rfl

/-- Normalized characters stand for parts of the first characters of a page, in their order. -/
structure Ordered (atoms : List SourceAtom) (count : Nat) : Prop where
  range : ∀ atom ∈ atoms, atom.sourceStart ≤ atom.sourceEnd ∧ atom.sourceEnd < count
  apart : atoms.Pairwise fun atom later => atom.sourceEnd ≤ later.sourceStart

variable {atoms : List SourceAtom} {index : Nat}

theorem Ordered.append {more : List SourceAtom} (h : Ordered atoms index)
    (hmore : ∀ atom ∈ more, atom.sourceStart = index ∧ atom.sourceEnd = index) :
    Ordered (atoms ++ more) (index + 1) := by
  constructor
  · intro atom hatom
    rcases mem_append.mp hatom with hatom | hatom
    · have hrange := h.range atom hatom
      omega
    · have heq := hmore atom hatom
      omega
  · refine pairwise_append.mpr ⟨h.apart, ?_, ?_⟩
    · refine pairwise_of_forall_mem_list fun atom hatom later hlater => ?_
      rw [(hmore atom hatom).2, (hmore later hlater).1]
    · intro atom hatom later hlater
      have hrange := h.range atom hatom
      rw [(hmore later hlater).1]
      omega

theorem Ordered.step (h : Ordered atoms index) (character : TextChar B) :
    Ordered (appendNormalizedSource toLowercase atoms character index) (index + 1) := by
  have hspace : Ordered (atoms ++ [⟨' ', index, index⟩]) (index + 1) := by
    refine h.append fun atom hatom => ?_
    rw [mem_singleton.mp hatom]
    exact ⟨rfl, rfl⟩
  unfold appendNormalizedSource appendNormalizedValue
  split
  · exact ⟨fun atom hatom => (h.range atom hatom).imp_right Nat.lt_succ_of_lt, h.apart⟩
  split
  · cases hlast : atoms.getLast? with
    | none => exact hspace
    | some last =>
      dsimp only
      split
      · obtain ⟨before, rfl⟩ := List.getLast?_eq_some_iff.mp hlast
        obtain ⟨hbefore, -, hapart⟩ := pairwise_append.mp h.apart
        rw [dropLast_concat]
        constructor
        · intro atom hatom
          rcases mem_append.mp hatom with hatom | hatom
          · have hrange := h.range atom (mem_append_left _ hatom)
            omega
          · have hrange := h.range last (mem_append_right _ mem_cons_self)
            rw [mem_singleton.mp hatom]
            show last.sourceStart ≤ index ∧ index < index + 1
            omega
        · refine pairwise_append.mpr ⟨hbefore, pairwise_singleton .., ?_⟩
          intro atom hatom later hlater
          rw [mem_singleton.mp hlater]
          exact hapart atom hatom last mem_cons_self
      · exact hspace
  · refine h.append fun atom hatom => ?_
    obtain ⟨lowercase, -, rfl⟩ := mem_map.mp hatom
    exact ⟨rfl, rfl⟩

theorem pageAtoms_ordered (toLowercase : Char → List Char) (characters : List (TextChar B)) :
    Ordered (pageAtoms toLowercase characters) characters.length := by
  suffices h : ∀ index (normalized : List SourceAtom), Ordered normalized index →
      Ordered ((characters.zipIdx index).foldl (fun normalized character =>
        appendNormalizedSource toLowercase normalized character.1 character.2) normalized)
        (index + characters.length) by
    have hordered := h 0 [] ⟨nofun, .nil⟩
    rwa [Nat.zero_add] at hordered
  induction characters with
  | nil => exact fun _ _ h => h
  | cons character characters ih =>
    intro index normalized h
    rw [zipIdx_cons, foldl_cons, length_cons, Nat.add_comm characters.length, ← Nat.add_assoc]
    exact ih (index + 1) _ (h.step character)

theorem highlightRuns_returns (start finish : Nat) :
    Returns shouldCancel (highlightRuns geometry shouldCancel characters start finish)
      fun _ => True := by
  have hmerge : ∀ (characters : List (TextChar B)) (offset : Nat) (runs : List B),
      Returns shouldCancel (mergeFrom geometry shouldCancel characters offset runs)
        fun _ => True := by
    intro characters
    induction characters with
    | nil => exact fun _ _ => .pure trivial
    | cons character characters ih =>
      exact fun offset runs => .bind (.pollAt offset) fun _ _ => ih (offset + 1) _
  unfold highlightRuns
  split
  · exact hmerge _ 0 []
  · exact .pure trivial

variable {characters : List (TextChar B)}

theorem preview_isSome {start finish : Nat} (hrange : start ≤ finish)
    (hfinish : finish < characters.length) :
    ∃ text, preview characters start finish = some text := by
  have hwindow : start - previewContextChars ≤
      min (finish + previewContextChars + 1) characters.length := by omega
  unfold preview
  rw [if_pos hwindow]
  exact ⟨_, rfl⟩

/-- The match at a position of the normalized characters. -/
def matchId (page : Nat) (atoms : List SourceAtom) (length position : Nat) :
    Option SearchMatchId := do
  let first ← atoms[position]?
  let last ← atoms[position + length - 1]?
  some ⟨page, first.sourceStart, last.sourceEnd⟩

theorem matchId_eq (page : Nat) {length : Nat} {first last : SourceAtom} (hlength : 0 < length)
    (hle : length ≤ index + 1) (hfirst : atoms[index + 1 - length]? = some first)
    (hlast : atoms[index]? = some last) : matchId page atoms length (index + 1 - length) =
      some ⟨page, first.sourceStart, last.sourceEnd⟩ := by
  have hindex : index + 1 - length + length - 1 = index := by omega
  rw [matchId, hfirst, hindex, bind_eq_bind, bind_some, hlast, bind_some]

theorem Ordered.start_le {count first last : Nat} {atom later : SourceAtom}
    (h : Ordered atoms count) (hle : first ≤ last) (hfirst : atoms[first]? = some atom)
    (hlast : atoms[last]? = some later) : atom.sourceStart ≤ later.sourceEnd := by
  obtain ⟨hfirstLt, rfl⟩ := List.getElem?_eq_some_iff.mp hfirst
  obtain ⟨hlastLt, rfl⟩ := List.getElem?_eq_some_iff.mp hlast
  have hrange := h.range _ (getElem_mem hlastLt)
  rcases Nat.eq_or_lt_of_le hle with rfl | hlt
  · exact hrange.1
  · have hrange' := h.range _ (getElem_mem hfirstLt)
    have hapart := pairwise_iff_getElem.mp h.apart first last hfirstLt hlastLt hlt
    omega

def Reported (characters : List (TextChar B)) (atoms : List SourceAtom)
    (occurrence : SearchMatch B) : Prop :=
  ∃ first ∈ atoms, ∃ last ∈ atoms, occurrence.id.start = first.sourceStart ∧
    occurrence.id.finish = last.sourceEnd ∧ occurrence.id.start ≤ occurrence.id.finish ∧
    preview characters occurrence.id.start occurrence.id.finish =
      some (occurrence.preview, occurrence.previewMatch)

variable {query : SearchQuery}

/-- The loop follows the search of the rest of the text, up to the limit. -/
theorem matchFrom_returns {page : Nat} {limit : Nat} (hne : query.normalized ≠ [])
    (hcorrect : Correct query.normalized query.failure query.normalized.length)
    (hordered : Ordered atoms characters.length) (rest : List SourceAtom) :
    ∀ index matched found, rest = atoms.drop index → matched ≤ index →
      matched < query.normalized.length → found.length ≤ limit →
      Returns shouldCancel
        (matchFrom geometry shouldCancel page characters query limit atoms rest index matched found)
        fun result => result.1.map (fun found => some found.id) =
            found.map (fun found => some found.id) ++
              ((scan query.normalized index matched (rest.map (·.value))).take
                (limit - found.length)).map (matchId page atoms query.normalized.length) ∧
          (result.2 ↔ limit < found.length +
            (scan query.normalized index matched (rest.map (·.value))).length) ∧
          ∀ occurrence ∈ result.1, occurrence ∈ found ∨ Reported characters atoms occurrence := by
  have hpos := length_pos_of_ne_nil hne
  induction rest with
  | nil =>
    intro index matched found hrest hindex hmatched hfound
    refine .pure ⟨by simp [scan], ?_, fun _ => .inl⟩
    show (false = true) ↔ limit < found.length + 0
    simp
    omega
  | cons atom rest ih =>
    intro index matched found hrest hindex hmatched hfound
    have hlt : index < atoms.length := by
      have hcount := congrArg List.length hrest
      rw [length_cons, length_drop] at hcount
      omega
    rw [drop_eq_getElem_cons hlt] at hrest
    obtain ⟨hatom, hrest⟩ := List.cons.inj hrest
    have hlast : atoms[index]? = some atom := by rw [List.getElem?_eq_getElem hlt, hatom]
    have hnext : next query.normalized matched atom.value ≤ matched + 1 := by
      have hle := overlap_le_length query.normalized (query.normalized.take matched ++ [atom.value])
      rw [length_append, length_take, length_singleton] at hle
      unfold Matching.next
      omega
    have hnext' := overlap_le query.normalized (query.normalized.take matched ++ [atom.value])
    have hadvance := advance_eq_next (fun other hother => hcorrect other (by omega)) hmatched
      atom.value
    rw [matchFrom, map_cons, scan]
    refine .bind (.pollAt index) fun _ _ => .bind (.expect hadvance) ?_
    rintro state rfl
    by_cases hfull : next query.normalized matched atom.value = query.normalized.length
    case neg =>
      rw [if_pos hfull, if_neg hfull]
      exact ih (index + 1) _ found hrest (by omega) (by omega) hfound
    have hle : query.normalized.length ≤ index + 1 := by omega
    have hfirst := List.getElem?_eq_getElem
      (show index + 1 - query.normalized.length < atoms.length by omega)
    have hid := matchId_eq page hpos hle hfirst hlast
    rw [if_neg (not_not.mpr hfull), if_pos hfull, if_pos hle]
    refine .bind (.expect hfirst) ?_
    rintro first rfl
    by_cases hlimit : found.length = limit
    case pos =>
      rw [if_pos hlimit]
      refine .pure ⟨?_, ?_, fun _ => .inl⟩
      · rw [hlimit, Nat.sub_self, take_zero, map_nil, append_nil]
      · rw [length_cons]
        exact iff_of_true rfl (by omega)
    rw [if_neg hlimit]
    have hrange := hordered.start_le (by omega) hfirst hlast
    have hend := (hordered.range atom (mem_of_getElem? hlast)).2
    obtain ⟨text, htext⟩ := preview_isSome hrange hend
    refine .bind (highlightRuns_returns characters _ _) fun runs _ => .bind (.expect htext) ?_
    rintro range rfl
    have hrec := ih (index + 1) 0 (found ++ [{
      id := ⟨page, atoms[index + 1 - query.normalized.length].sourceStart, atom.sourceEnd⟩
      preview := range.1, previewMatch := range.2, highlightRuns := runs }]) hrest (by omega) hpos
      (by rw [length_append, length_singleton]; omega)
    refine hrec.mono fun result hresult => ?_
    rw [length_append, length_singleton] at hresult
    obtain ⟨remaining, hremaining⟩ : ∃ remaining, limit - found.length = remaining + 1 :=
      ⟨limit - found.length - 1, by omega⟩
    have hsub : limit - (found.length + 1) = remaining := by omega
    rw [hsub, map_append, append_assoc] at hresult
    rw [hremaining, take_succ_cons, map_cons, hid, length_cons]
    refine ⟨hresult.1, hresult.2.1.trans (by omega), fun occurrence hoccurrence => ?_⟩
    rcases hresult.2.2 occurrence hoccurrence with hold | hreported
    · rcases mem_append.mp hold with hold | hnew
      · exact .inl hold
      · rw [mem_singleton.mp hnew]
        exact .inr ⟨_, mem_of_getElem? hfirst, _, mem_of_getElem? hlast, rfl, rfl, hrange, htext⟩
    · exact .inr hreported

theorem search_returns (toLowercase : Char → List Char) (geometry : Geometry B)
    (shouldCancel : Nat → Bool) (page : Nat) (characters : List (TextChar B))
    (hne : query.normalized ≠ [])
    (hcorrect : Correct query.normalized query.failure query.normalized.length) (resultLimit : Nat) :
    Returns shouldCancel
      (search toLowercase geometry shouldCancel page characters query resultLimit)
      fun results => results.page = page ∧ results.found.map (fun found => some found.id) =
          ((scan query.normalized 0 0 ((pageAtoms toLowercase characters).map (·.value))).take
            (min resultLimit maxSearchResults)).map
            (matchId page (pageAtoms toLowercase characters) query.normalized.length) ∧
        (results.truncated ↔ min resultLimit maxSearchResults < (scan query.normalized 0 0
            ((pageAtoms toLowercase characters).map (·.value))).length) ∧
        ∀ occurrence ∈ results.found,
          Reported characters (pageAtoms toLowercase characters) occurrence := by
  unfold search
  refine .bind .poll fun _ _ => .bind (normalizeFrom_returns characters 0 []) ?_
  rintro atoms rfl
  refine .bind .poll fun _ _ => .bind (matchFrom_returns hne hcorrect
    (pageAtoms_ordered toLowercase characters) _ 0 0 [] rfl Nat.le.refl
    (length_pos_of_ne_nil hne) (Nat.zero_le _)) fun found hfound => ?_
  refine .bind .poll fun _ _ => .pure ⟨rfl, ?_⟩
  rw [map_nil, nil_append, length_nil, Nat.zero_add] at hfound
  obtain ⟨hids, htruncated, hreported⟩ := hfound
  refine ⟨hids, htruncated, fun occurrence hoccurrence => ?_⟩
  exact (hreported occurrence hoccurrence).resolve_left not_mem_nil

theorem complete_of_returns {page : Nat} {resultLimit : Nat} {results : SearchPageResults B}
    {Q : SearchPageResults B → Prop}
    (h : Returns shouldCancel
      (search toLowercase geometry shouldCancel page characters query resultLimit) Q)
    (hresults : searchPage toLowercase geometry shouldCancel page characters query resultLimit =
      some (.complete results)) :
    Q results := by
  have hrun := h 0
  unfold searchPage at hresults
  cases houtcome : search toLowercase geometry shouldCancel page characters query resultLimit 0 with
  | ok outcome =>
    rw [houtcome] at hrun hresults
    obtain rfl := SearchPageOutcome.complete.inj (some.inj hresults)
    exact hrun
  | error halt =>
    rw [houtcome] at hresults
    cases halt <;> cases hresults

/-- A search is cancelled by a poll, or it finds the first of the leftmost occurrences of the
normalized query in the normalized page, and says whether there are more. -/
theorem searchPage_finds (toLowercase : Char → List Char) (geometry : Geometry B)
    (shouldCancel : Nat → Bool) (page : Nat) (characters : List (TextChar B)) {text : List Char}
    {query : SearchQuery} (hquery : SearchQuery.new toLowercase text = some (.ok query))
    (resultLimit : Nat) :
    (searchPage toLowercase geometry shouldCancel page characters query resultLimit =
        some .cancelled ∧ ∃ poll, shouldCancel poll) ∨
      ∃ results positions,
        searchPage toLowercase geometry shouldCancel page characters query resultLimit =
          some (.complete results) ∧
        results.page = page ∧
        Leftmost (normalize toLowercase text)
          (normalize toLowercase (characters.map (·.value))) positions ∧
        (∀ others, Leftmost (normalize toLowercase text)
          (normalize toLowercase (characters.map (·.value))) others → others = positions) ∧
        results.found.map (fun found => some found.id) =
          (positions.take (min resultLimit maxSearchResults)).map
            (matchId page (pageAtoms toLowercase characters) (normalize toLowercase text).length) ∧
        (results.truncated ↔ min resultLimit maxSearchResults < positions.length) := by
  obtain ⟨result, hresult, hcases⟩ := SearchQuery.new_cases toLowercase text
  cases hquery.symm.trans hresult
  obtain ⟨hnormalized, hne, hcorrect⟩ := hcases query rfl
  have hreturns := search_returns toLowercase geometry shouldCancel page characters hne hcorrect
    resultLimit
  have hleftmost := scan_leftmost hne ((pageAtoms toLowercase characters).map (·.value))
  rw [value_pageAtoms, hnormalized] at hleftmost
  rw [value_pageAtoms, hnormalized] at hreturns
  have hrun := hreturns 0
  unfold searchPage
  cases houtcome : search toLowercase geometry shouldCancel page characters query resultLimit 0 with
  | ok outcome =>
    rw [houtcome] at hrun
    obtain ⟨hpage, hids, htruncated, -⟩ := hrun
    refine .inr ⟨outcome.1, _, rfl, hpage, hleftmost, fun others hothers => ?_, hids, htruncated⟩
    exact hothers.unique (hnormalized ▸ hne) hleftmost
  | error halt =>
    rw [houtcome] at hrun
    cases halt with
    | cancelled => exact .inl ⟨rfl, hrun⟩
    | panicked => exact hrun.elim

end page

/-- The lower case of the letters of ASCII. -/
def asciiLowercase (value : Char) : List Char := [value.toLower]

/-- Bounds that are never drawn. -/
def noBounds : Geometry Unit := ⟨fun _ => none, fun _ _ => false, fun _ _ => ()⟩

/-- A page of two occurrences that overlap a third. -/
def shout : List (TextChar Unit) :=
  [⟨'a', none⟩, ⟨'A', none⟩, ⟨'a', none⟩, ⟨'A', none⟩]

theorem searchPage_finds_shout : ∃ results positions,
      searchPage asciiLowercase noBounds (fun _ => false) 0 shout ⟨['a', 'a'], [0, 1]⟩ 1 =
        some (.complete results) ∧
      Leftmost ['a', 'a'] ['a', 'a', 'a', 'a'] positions ∧
      (results.truncated ↔ 1 < positions.length) := by
  rcases searchPage_finds asciiLowercase noBounds (fun _ => false) 0 shout
    (show SearchQuery.new asciiLowercase ['A', 'a'] = some (.ok ⟨['a', 'a'], [0, 1]⟩) by
      decide) 1 with
    ⟨-, poll, hpoll⟩ | ⟨results, positions, hresults, -, hleftmost, -, -, htruncated⟩
  · cases hpoll
  · exact ⟨results, positions, hresults, hleftmost, htruncated⟩

end KeyReader.Search
