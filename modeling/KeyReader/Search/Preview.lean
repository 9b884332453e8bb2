import KeyReader.Search.Ranges

/-! The previews of matches: the range of a match in its preview is that of the text of the match,
except where the match ends in white space that is dropped again at the end of the preview, and an
ellipsis takes its place. -/

namespace KeyReader.Search

open Utf8 List Bool

def isVisible (value : Char) : Bool := !isIgnored value && !isWhitespace value

/-- A text as a preview shows it: ignored characters are left out, and white space is one space, or
none after a space. -/
def collapse : Bool → List Char → List Char
  | _, [] => []
  | afterSpace, value :: text =>
    if isIgnored value then collapse afterSpace text
    else if isWhitespace value then
      if afterSpace then collapse true text else ' ' :: collapse true text
    else value :: collapse false text

/-- The last character that is not ignored is white space. -/
def endsSpaced : Bool → List Char → Bool
  | afterSpace, [] => afterSpace
  | afterSpace, value :: text =>
    endsSpaced (if isIgnored value then afterSpace else isWhitespace value) text

theorem collapse_append (afterSpace : Bool) (text more : List Char) :
    collapse afterSpace (text ++ more) =
      collapse afterSpace text ++ collapse (endsSpaced afterSpace text) more := by
  induction text generalizing afterSpace with
  | nil => rfl
  | cons value text ih =>
    simp only [cons_append, collapse, endsSpaced]
    split
    · exact ih afterSpace
    split
    · rename_i hspace
      rw [ih, hspace]
      split <;> rfl
    · rename_i hspace
      rw [not_eq_true] at hspace
      rw [ih, hspace, cons_append]

theorem endsSpaced_append (afterSpace : Bool) (text more : List Char) :
    endsSpaced afterSpace (text ++ more) = endsSpaced (endsSpaced afterSpace text) more := by
  induction text generalizing afterSpace with
  | nil => rfl
  | cons value text ih => exact ih _

variable {afterSpace : Bool} {text : List Char} {value : Char}

theorem mem_collapse_of_visible (hmem : value ∈ text) (hvisible : isVisible value = true) :
    value ∈ collapse afterSpace text := by
  induction text generalizing afterSpace with
  | nil => cases hmem
  | cons first text ih =>
    rw [collapse]
    rcases mem_cons.mp hmem with rfl | hmem
    · simp only [isVisible, and_eq_true, not_eq_true'] at hvisible
      simp [hvisible.1, hvisible.2]
    split
    · exact ih hmem
    split
    · split
      · exact ih hmem
      · exact mem_cons_of_mem _ (ih hmem)
    · exact mem_cons_of_mem _ (ih hmem)

theorem visible_of_mem_collapse (hmem : value ∈ collapse afterSpace text) (hspace : value ≠ ' ') :
    value ∈ text ∧ isVisible value = true := by
  induction text generalizing afterSpace with
  | nil => cases hmem
  | cons first text ih =>
    have hrest : ∀ {afterSpace : Bool}, value ∈ collapse afterSpace text →
        value ∈ first :: text ∧ isVisible value = true :=
      fun h => ⟨mem_cons_of_mem _ (ih h).1, (ih h).2⟩
    rw [collapse] at hmem
    split at hmem
    · exact hrest hmem
    rename_i hignored
    split at hmem
    · split at hmem
      · exact hrest hmem
      · exact hrest ((mem_cons.mp hmem).resolve_left hspace)
    · rename_i hwhite
      rcases mem_cons.mp hmem with rfl | hmem
      · exact ⟨mem_cons_self, by simp [isVisible, hignored, hwhite]⟩
      · exact hrest hmem

theorem isVisible_ne_space (h : isVisible value = true) : value ≠ ' ' := by
  rintro rfl
  revert h
  decide

/-- The ways in which a collapsed text ends. -/
inductive Ending : List Char → Bool → Prop
  | empty : Ending [] true
  | visible (text : List Char) {value : Char} (hvalue : value ≠ ' ') :
    Ending (text ++ [value]) false
  | spaced (text : List Char) {value : Char} (hvalue : value ≠ ' ') :
    Ending (text ++ [value] ++ [' ']) true

theorem collapse_ending (text : List Char) : Ending (collapse true text) (endsSpaced true text) := by
  induction text using List.reverseRecOn with
  | nil => exact .empty
  | append_singleton text value ih =>
    rw [collapse_append, endsSpaced_append]
    generalize collapse true text = shown at ih ⊢
    generalize endsSpaced true text = spaced at ih ⊢
    simp only [collapse, endsSpaced]
    split
    · rw [append_nil]
      exact ih
    split
    · rename_i hwhite
      rw [hwhite]
      cases ih with
      | empty => exact .empty
      | visible text hvalue => exact .spaced text hvalue
      | spaced text hvalue =>
        rw [if_pos rfl, append_nil]
        exact .spaced text hvalue
    · rename_i hwhite
      rw [not_eq_true] at hwhite
      rw [hwhite]
      refine .visible _ ?_
      rintro rfl
      revert hwhite
      decide

theorem collapse_eq_nil_iff :
    collapse true text = [] ↔ ∀ value ∈ text, isVisible value = false := by
  constructor
  · intro h value hmem
    rw [← not_eq_true]
    intro hvisible
    have hshown : value ∈ collapse true text := mem_collapse_of_visible hmem hvisible
    rw [h] at hshown
    cases hshown
  · intro h
    have hending := collapse_ending text
    have hnone : ∀ value ∈ collapse true text, value = ' ' := by
      intro value hmem
      by_contra hne
      obtain ⟨hvalue, hvisible⟩ := visible_of_mem_collapse hmem hne
      exact false_ne_true ((h value hvalue).symm.trans hvisible)
    generalize collapse true text = shown at hending hnone
    generalize endsSpaced true text = spaced at hending
    cases hending with
    | empty => rfl
    | visible text hvalue | spaced text hvalue => exact absurd (hnone _ (by simp)) hvalue

structure Shows (text : List Char) (range : Nat × Nat) (shown : List Char) : Prop where
  ordered : range.1 ≤ range.2
  inside : range.2 ≤ byteLength text
  start : Boundary text range.1
  finish : Boundary text range.2
  slice : slice text range.1 range.2 = shown

theorem shows_append (before shown after : List Char) : Shows (before ++ shown ++ after)
      (byteLength before, byteLength before + byteLength shown) shown := by
  refine ⟨Nat.le_add_right .., ?_, ⟨before, ?_, rfl⟩, ⟨before ++ shown, ?_, ?_⟩, ?_⟩
  · simp only [byteLength_append]
    omega
  · rw [append_assoc]
    exact prefix_append ..
  · exact prefix_append ..
  · exact byteLength_append ..
  · exact slice_append before shown after

/-- A match as its preview shows it, between the text before it and the text after it: the white
space at its end is left out where nothing follows. -/
def shownMatch (before occurrence after : List Char) : List Char :=
  let shown := collapse (endsSpaced true before) occurrence
  if after.any isVisible then shown else shown.rdropWhile (· = ' ')

/-- The end of the preview: the range that was noted is cut to what is left of the text. -/
def clampRange (text : List Char) (start finish : Nat) : Nat × Nat :=
  let start := min start (byteLength text)
  (start, max start (min finish (byteLength text)))

theorem clampRange_shows (before shown after : List Char) :
    Shows (before ++ shown ++ after) (clampRange (before ++ shown ++ after) (byteLength before)
      (byteLength (before ++ shown))) shown := by
  have hclamp : clampRange (before ++ shown ++ after) (byteLength before)
      (byteLength (before ++ shown)) =
      (byteLength before, byteLength before + byteLength shown) := by
    simp only [clampRange, byteLength_append, Prod.mk.injEq]
    omega
  rw [hclamp]
  exact shows_append before shown after

variable {α : Type}

theorem rdropWhile_append_of_ne_nil {p : α → Bool} (text : List α) {more : List α}
    (h : more.rdropWhile p ≠ []) : (text ++ more).rdropWhile p = text ++ more.rdropWhile p := by
  induction more using List.reverseRecOn with
  | nil => exact absurd (rdropWhile_nil p) h
  | append_singleton more item ih =>
    by_cases hitem : p item = true
    · rw [rdropWhile_concat_pos p _ _ hitem] at h ⊢
      rw [← append_assoc, rdropWhile_concat_pos p _ _ hitem, ih h]
    · rw [← append_assoc, rdropWhile_concat_neg p _ _ hitem,
        rdropWhile_concat_neg p _ _ hitem, append_assoc]

theorem rdropWhile_append_of_eq_nil {p : α → Bool} (text : List α) {more : List α}
    (h : more.rdropWhile p = []) : (text ++ more).rdropWhile p = text.rdropWhile p := by
  induction more using List.reverseRecOn with
  | nil => rw [append_nil]
  | append_singleton more item ih =>
    have hitem : p item = true := rdropWhile_eq_nil_iff.mp h item (by simp)
    rw [rdropWhile_concat_pos p _ _ hitem] at h
    rw [← append_assoc, rdropWhile_concat_pos p _ _ hitem, ih h]

theorem rdropWhile_collapse_eq_nil_iff :
    (collapse afterSpace text).rdropWhile (· = ' ') = [] ↔ text.any isVisible = false := by
  rw [rdropWhile_eq_nil_iff, any_eq_false]
  constructor
  · intro h value hmem hvisible
    have hspace := h value (mem_collapse_of_visible hmem hvisible)
    exact isVisible_ne_space hvisible (of_decide_eq_true hspace)
  · intro h value hmem
    rw [decide_eq_true_eq]
    by_contra hne
    obtain ⟨hvalue, hvisible⟩ := visible_of_mem_collapse hmem hne
    exact h value hvalue hvisible

/-- The text of the preview before its end is marked. -/
def trimmedText (lead before occurrence after : List Char) : List Char :=
  (lead ++ collapse true (before ++ occurrence ++ after)).rdropWhile (· = ' ')

theorem shows_of_trimmed (lead before occurrence after more : List Char) {rest : List Char}
    (htrimmed : trimmedText lead before occurrence after =
      lead ++ collapse true before ++ collapse (endsSpaced true before) occurrence ++ rest) :
    Shows (trimmedText lead before occurrence after ++ more)
      (clampRange (trimmedText lead before occurrence after ++ more)
        (byteLength (lead ++ collapse true before))
        (byteLength (lead ++ collapse true (before ++ occurrence))))
      (collapse (endsSpaced true before) occurrence) := by
  rw [htrimmed, collapse_append, ← append_assoc, append_assoc _ rest]
  exact clampRange_shows _ _ _

theorem rdropWhile_suffix {before shown : List Char} (hvalue : value ≠ ' ')
    (h : before ++ shown = text ++ [value]) : shown.rdropWhile (· = ' ') = shown := by
  induction shown using List.reverseRecOn with
  | nil => exact rdropWhile_nil _
  | append_singleton shown last _ =>
    rw [← append_assoc] at h
    obtain ⟨-, hlast⟩ := append_inj' h rfl
    rw [singleton_inj.mp hlast]
    exact rdropWhile_concat_neg _ _ _ (by simpa using hvalue)

theorem not_boundary_ellipsis (text : List Char) :
    ¬Boundary (text ++ [ellipsis]) (byteLength text + 1) := by
  rintro ⟨before, hprefix, hlength⟩
  rcases prefix_concat_iff.mp hprefix with rfl | hprefix
  · have hsize : ellipsis.utf8Size = 3 := by decide
    rw [byteLength_append, byteLength_cons, hsize] at hlength
    simp at hlength
  · have hle := byteLength_le_of_prefix hprefix
    omega

theorem any_isVisible_iff (text : List Char) :
    text.any isVisible = true ↔ collapse true text ≠ [] := by
  rw [ne_eq, collapse_eq_nil_iff]
  simp

/-- The preview shows the match, unless the space at the end of the match is dropped before an
ellipsis is put in its place. -/
theorem trimmedText_shows_iff {lead before occurrence : List Char} (after : List Char) (marked : Bool)
    {first last : Char} {rest init : List Char} (hlead : lead = [] ∨ lead = [ellipsis])
    (hfirst : occurrence = first :: rest) (hfirstKept : isIgnored first = false)
    (hfirstSpace : isWhitespace first = true → endsSpaced true before = true →
      collapse true before = [])
    (hlast : occurrence = init ++ [last]) (hlastKept : isIgnored last = false) :
    Shows (trimmedText lead before occurrence after ++ if marked then [ellipsis] else [])
      (clampRange (trimmedText lead before occurrence after ++ if marked then [ellipsis] else [])
        (byteLength (lead ++ collapse true before))
        (byteLength (lead ++ collapse true (before ++ occurrence))))
      (shownMatch before occurrence after) ↔
    ¬(marked = true ∧ isWhitespace last = true ∧ (before ++ occurrence).any isVisible = true ∧
      after.any isVisible = false) := by
  have hsplit : collapse true (before ++ occurrence) =
      collapse true before ++ collapse (endsSpaced true before) occurrence := collapse_append ..
  have htrimmed : trimmedText lead before occurrence after =
      (lead ++ collapse true (before ++ occurrence) ++
        collapse (endsSpaced true (before ++ occurrence)) after).rdropWhile (· = ' ') := by
    rw [trimmedText, collapse_append true (before ++ occurrence), append_assoc]
  by_cases hafter : after.any isVisible = true
  · have hrest : (collapse (endsSpaced true (before ++ occurrence)) after).rdropWhile (· = ' ') ≠
        [] := by
      rw [ne_eq, rdropWhile_collapse_eq_nil_iff, hafter]
      decide
    rw [rdropWhile_append_of_ne_nil _ hrest, hsplit, ← append_assoc] at htrimmed
    rw [shownMatch, if_pos hafter]
    refine iff_of_true (shows_of_trimmed _ _ _ _ _ htrimmed) ?_
    rintro ⟨-, -, -, hnone⟩
    exact Bool.false_ne_true (hnone.symm.trans hafter)
  rw [Bool.not_eq_true] at hafter
  rw [rdropWhile_append_of_eq_nil _ (rdropWhile_collapse_eq_nil_iff.mpr hafter)] at htrimmed
  have hend : endsSpaced true (before ++ occurrence) = isWhitespace last := by
    rw [hlast, ← append_assoc, endsSpaced_append]
    simp [endsSpaced, hlastKept]
  have hseen := any_isVisible_iff (before ++ occurrence)
  have hending := collapse_ending (before ++ occurrence)
  rw [shownMatch, hafter, if_neg Bool.false_ne_true]
  have hshows := @shows_of_trimmed lead before occurrence after (if marked then [ellipsis] else [])
  rw [hend] at hending
  generalize hshown : collapse true (before ++ occurrence) = shown at *
  generalize isWhitespace last = spaced at *
  cases hending with
  | empty =>
    obtain ⟨hbefore, hoccurrence⟩ := append_eq_nil_iff.mp hsplit.symm
    rw [append_nil] at htrimmed
    have hkept : lead.rdropWhile (· = ' ') = lead := by
      rcases hlead with rfl | rfl
      · exact rdropWhile_nil _
      · decide
    refine iff_of_true ?_ fun h => hseen.mp h.2.2.1 rfl
    rw [hoccurrence, rdropWhile_nil]
    have hresult := @hshows [] (by rw [htrimmed, hkept, hbefore, hoccurrence]; simp)
    rwa [hoccurrence] at hresult
  | visible text hvalue =>
    rw [rdropWhile_suffix hvalue hsplit.symm]
    refine iff_of_true (@hshows [] ?_) fun h => Bool.false_ne_true h.2.1
    rw [htrimmed, ← append_assoc, rdropWhile_concat_neg _ _ _ (by simpa using hvalue),
      append_assoc, hsplit, append_nil, append_assoc]
  | spaced text hvalue =>
    have hne : collapse (endsSpaced true before) occurrence ≠ [] := by
      intro hnil
      rw [hnil, append_nil] at hsplit
      rw [hfirst, collapse, hfirstKept, if_neg Bool.false_ne_true] at hnil
      split at hnil
      · rename_i hwhite
        split at hnil
        · rename_i hspaced
          rw [hfirstSpace hwhite hspaced] at hsplit
          simp at hsplit
        · cases hnil
      · cases hnil
    obtain ⟨shown, space, hshown⟩ := (eq_nil_or_concat' _).resolve_left hne
    rw [hshown, ← append_assoc] at hsplit
    obtain ⟨htext, hspace⟩ := append_inj' hsplit rfl
    obtain rfl := singleton_inj.mp hspace
    have hkept : (collapse (endsSpaced true before) occurrence).rdropWhile (· = ' ') = shown := by
      rw [hshown, rdropWhile_concat_pos _ _ _ (by decide)]
      exact rdropWhile_suffix hvalue htext.symm
    have hcut : trimmedText lead before occurrence after = lead ++ collapse true before ++ shown := by
      rw [htrimmed, ← append_assoc, rdropWhile_concat_pos _ _ _ (by decide),
        ← append_assoc, rdropWhile_concat_neg _ _ _ (by simpa using hvalue),
        append_assoc lead, append_assoc lead, htext]
    rw [hkept, hcut, htext]
    cases marked with
    | false =>
      refine iff_of_true ?_ fun h => Bool.false_ne_true h.1
      have hshows := shows_append (lead ++ collapse true before) shown []
      rw [append_nil] at hshows
      simpa [clampRange, Nat.add_assoc] using hshows
    | true =>
      refine iff_of_false ?_ fun h => h ⟨rfl, rfl, hseen.mpr (by simp), rfl⟩
      intro hshows
      have hfinish := hshows.finish
      have hend : (clampRange (lead ++ collapse true before ++ shown ++ [ellipsis])
          (byteLength (lead ++ collapse true before))
          (byteLength (lead ++ (collapse true before ++ shown ++ [' '])))).2 =
          byteLength (lead ++ collapse true before ++ shown) + 1 := by
        have hsize : ellipsis.utf8Size = 3 := by decide
        have hspace : ' '.utf8Size = 1 := by decide
        simp only [clampRange, byteLength_append, byteLength_cons, byteLength_nil, hsize, hspace]
        omega
      rw [if_pos rfl] at hfinish
      rw [hend] at hfinish
      exact not_boundary_ellipsis _ hfinish

section loop

variable {B : Type} (start finish : Nat)

theorem previewChar_eq (state : PreviewState) (value : Char) (index : Nat) :
    previewChar start finish state value index =
      { result := state.result ++ collapse state.previousWhitespace [value]
        previousWhitespace := endsSpaced state.previousWhitespace [value]
        matchStart := if index = start then some (byteLength state.result) else state.matchStart
        matchEnd := if index = finish ∧ isIgnored value = false then
            some (byteLength (state.result ++ collapse state.previousWhitespace [value]))
          else state.matchEnd } := by
  obtain ⟨result, previous, matchStart, matchEnd⟩ := state
  simp only [previewChar, collapse, endsSpaced]
  cases hignored : isIgnored value with
  | true => grind
  | false =>
    cases hwhite : isWhitespace value with
    | true | false => grind

theorem previewFrom_append (characters more : List (TextChar B)) (index : Nat)
    (state : PreviewState) : previewFrom start finish (characters ++ more) index state =
      previewFrom start finish more (index + characters.length)
        (previewFrom start finish characters index state) := by
  induction characters generalizing index state with
  | nil => rfl
  | cons character characters ih =>
    rw [cons_append, previewFrom, ih, previewFrom, length_cons]
    congr 1
    omega

variable (characters : List (TextChar B))

theorem previewFrom_previousWhitespace (index : Nat) (state : PreviewState) :
    (previewFrom start finish characters index state).previousWhitespace =
      endsSpaced state.previousWhitespace (characters.map (·.value)) := by
  induction characters generalizing index state with
  | nil => rfl
  | cons character characters ih =>
    rw [previewFrom, ih, previewChar_eq]
    rfl

theorem previewFrom_result (index : Nat) (state : PreviewState) :
    (previewFrom start finish characters index state).result =
      state.result ++ collapse state.previousWhitespace (characters.map (·.value)) := by
  induction characters generalizing index state with
  | nil => rw [previewFrom, map_nil, collapse, append_nil]
  | cons character characters ih =>
    rw [previewFrom, ih, previewChar_eq, append_assoc]
    exact congrArg _ (collapse_append _ [character.value] _).symm

theorem previewFrom_matchStart_past {index : Nat} (state : PreviewState) (h : start < index) :
    (previewFrom start finish characters index state).matchStart = state.matchStart := by
  induction characters generalizing index state with
  | nil => rfl
  | cons character characters ih =>
    rw [previewFrom, ih _ (by omega), previewChar_eq, if_neg (by omega)]

theorem previewFrom_matchEnd_past {index : Nat} (state : PreviewState) (h : finish < index) :
    (previewFrom start finish characters index state).matchEnd = state.matchEnd := by
  induction characters generalizing index state with
  | nil => rfl
  | cons character characters ih =>
    rw [previewFrom, ih _ (by omega), previewChar_eq]
    exact if_neg fun hnoted => by omega

theorem previewFrom_matchStart (before rest : List (TextChar B)) (character : TextChar B)
    (index : Nat) (state : PreviewState) (h : index + before.length = start) :
    (previewFrom start finish (before ++ character :: rest) index state).matchStart =
      some (byteLength
        (state.result ++ collapse state.previousWhitespace (before.map (·.value)))) := by
  rw [previewFrom_append, previewFrom, previewFrom_matchStart_past _ _ _ _ (by omega),
    previewChar_eq, if_pos h, previewFrom_result]

theorem previewFrom_matchEnd (before rest : List (TextChar B)) (character : TextChar B)
    (index : Nat) (state : PreviewState) (h : index + before.length = finish)
    (hkept : isIgnored character.value = false) :
    (previewFrom start finish (before ++ character :: rest) index state).matchEnd =
      some (byteLength (state.result ++
        collapse state.previousWhitespace ((before ++ [character]).map (·.value)))) := by
  rw [previewFrom_append, previewFrom, previewFrom_matchEnd_past _ _ _ _ (by omega), previewChar_eq]
  refine (if_pos ⟨h, hkept⟩).trans ?_
  rw [previewFrom_result, previewFrom_previousWhitespace, append_assoc, ← collapse_append,
    map_append]
  rfl

end loop

section page

variable {B : Type} {toLowercase : Char → List Char}

theorem drop_take_split (items : List α) {first second third : Nat} (hsecond : first ≤ second)
    (hthird : second ≤ third) : (items.take third).drop first =
      (items.take second).drop first ++ (items.take third).drop second := by
  obtain ⟨more, rfl⟩ := Nat.exists_eq_add_of_le hsecond
  obtain ⟨rest, rfl⟩ := Nat.exists_eq_add_of_le hthird
  rw [drop_take, drop_take, drop_take, Nat.add_assoc, Nat.add_sub_cancel_left,
    Nat.add_sub_cancel_left, ← Nat.add_assoc, Nat.add_sub_cancel_left, take_add,
    drop_drop]

/-- The preview of a match as the text of its window and the range of the match there. -/
theorem preview_eq {characters : List (TextChar B)} {start finish : Nat} {first last : TextChar B}
    (hle : start ≤ finish) (hfirst : characters[start]? = some first)
    (hlast : characters[finish]? = some last) (hkept : isIgnored last.value = false) :
    preview characters start finish =
      let text := characters.map (·.value)
      let lead := if 0 < start - previewContextChars then [ellipsis] else []
      let before := (text.take start).drop (start - previewContextChars)
      let occurrence := (text.take (finish + 1)).drop start
      let after := (text.drop (finish + 1)).take previewContextChars
      let shown := trimmedText lead before occurrence after ++
        if finish + previewContextChars + 1 < text.length then [ellipsis] else []
      some (shown, clampRange shown (byteLength (lead ++ collapse true before))
        (byteLength (lead ++ collapse true (before ++ occurrence)))) := by
  obtain ⟨hstart, rfl⟩ := List.getElem?_eq_some_iff.mp hfirst
  obtain ⟨hfinish, rfl⟩ := List.getElem?_eq_some_iff.mp hlast
  have hwindow : start - previewContextChars ≤
      min (finish + previewContextChars + 1) characters.length := by omega
  -- The window in its three parts, the match by its first and by its last character.
  have hparts : (characters.take (min (finish + previewContextChars + 1) characters.length)).drop
      (start - previewContextChars) =
      ((characters.take (finish + 1)).drop (start - previewContextChars)) ++
        (characters.drop (finish + 1)).take previewContextChars := by
    rw [drop_take_split characters (show start - previewContextChars ≤ finish + 1 by omega)
      (by omega)]
    congr 1
    rw [drop_take, take_eq_take_iff, length_drop]
    omega
  have hupto : (characters.take (finish + 1)).drop (start - previewContextChars) =
      (characters.take start).drop (start - previewContextChars) ++
        (characters.take (finish + 1)).drop start :=
    drop_take_split characters (by omega) (by omega)
  have hcons : (characters.take (finish + 1)).drop start =
      characters[start] :: (characters.take (finish + 1)).drop (start + 1) := by
    rw [drop_eq_getElem_cons (by rw [length_take]; omega), getElem_take]
  have hconcat : (characters.take (finish + 1)).drop (start - previewContextChars) =
      (characters.take finish).drop (start - previewContextChars) ++ [characters[finish]] := by
    rw [take_succ_eq_append_getElem hfinish, drop_append_of_le_length (by rw [length_take]; omega)]
  have hmap : ∀ from_ upto, ((characters.take upto).drop from_).map (·.value) =
      ((characters.map (·.value)).take upto).drop from_ := by
    intro from_ upto
    rw [map_drop, map_take]
  generalize hlead : (if 0 < start - previewContextChars then [ellipsis] else []) = lead
  obtain ⟨state, hstate⟩ : ∃ state : PreviewState, state =
      { result := lead, previousWhitespace := true, matchStart := none, matchEnd := none } :=
    ⟨_, rfl⟩
  have hstartNoted := previewFrom_matchStart start finish
    ((characters.take start).drop (start - previewContextChars))
    ((characters.take (finish + 1)).drop (start + 1) ++
      (characters.drop (finish + 1)).take previewContextChars) characters[start]
    (start - previewContextChars) state
    (by rw [length_drop, length_take]; omega)
  rw [← cons_append, ← hcons, ← append_assoc, ← hupto, ← hparts] at hstartNoted
  have hendNoted := previewFrom_matchEnd start finish
    ((characters.take finish).drop (start - previewContextChars))
    ((characters.drop (finish + 1)).take previewContextChars) characters[finish]
    (start - previewContextChars) state
    (by rw [length_drop, length_take]; omega) hkept
  rw [append_cons, ← hconcat, ← hparts] at hendNoted
  have hresult := previewFrom_result start finish
    ((characters.take (min (finish + previewContextChars + 1) characters.length)).drop
      (start - previewContextChars)) (start - previewContextChars) state
  unfold preview
  dsimp only
  rw [if_pos hwindow, hlead, ← hstate, hresult, hstartNoted, hendNoted]
  subst hstate
  rw [hparts, hupto]
  simp only [map_append, hmap, map_take, map_drop, Option.getD_some, trimmedText, length_map]
  have hmarked : (min (finish + previewContextChars + 1) characters.length < characters.length) ↔
      finish + previewContextChars + 1 < characters.length := by omega
  simp only [hmarked]
  split
  · rfl
  · simp only [append_nil]
    rfl

/-- The scalars of a page begin and end with characters that are not ignored, and white space that
follows white space begins none. -/
structure Kept (text : List Char) (atoms : List SourceAtom) : Prop where
  first : ∀ atom ∈ atoms, ∃ value, text[atom.sourceStart]? = some value ∧ isIgnored value = false ∧
    (isWhitespace value = true → endsSpaced false (text.take atom.sourceStart) = false)
  last : ∀ atom ∈ atoms, ∃ value, text[atom.sourceEnd]? = some value ∧ isIgnored value = false
  space : endsSpaced false text = true → ∃ last, atoms.getLast? = some last ∧ last.value = ' '

variable {atoms : List SourceAtom}

theorem Kept.mono (h : Kept text atoms) (value : Char) :
    (∀ atom ∈ atoms, ∃ first, (text ++ [value])[atom.sourceStart]? = some first ∧
      isIgnored first = false ∧ (isWhitespace first = true →
        endsSpaced false ((text ++ [value]).take atom.sourceStart) = false)) ∧
    ∀ atom ∈ atoms, ∃ last, (text ++ [value])[atom.sourceEnd]? = some last ∧
      isIgnored last = false := by
  have hget : ∀ {index : Nat} {found : Char}, text[index]? = some found →
      (text ++ [value])[index]? = some found := by
    intro index found hfound
    rw [List.getElem?_append_left (List.getElem?_eq_some_iff.mp hfound).1, hfound]
  constructor
  · intro atom hatom
    obtain ⟨first, hfirst, hkept, hspace⟩ := h.first atom hatom
    have hlt := (List.getElem?_eq_some_iff.mp hfirst).1
    refine ⟨first, hget hfirst, hkept, ?_⟩
    rwa [take_append_of_le_length hlt.le]
  · intro atom hatom
    obtain ⟨last, hlast, hkept⟩ := h.last atom hatom
    exact ⟨last, hget hlast, hkept⟩

theorem Kept.append {more : List SourceAtom} (h : Kept text atoms) (hkept : isIgnored value = false)
    (hmore : ∀ atom ∈ more, atom.sourceStart = text.length ∧ atom.sourceEnd = text.length)
    (hspace : isWhitespace value = true → endsSpaced false text = false ∧ ∃ last, more.getLast? =
      some last ∧ last.value = ' ') :
    Kept (text ++ [value]) (atoms ++ more) := by
  have hnew : (text ++ [value])[text.length]? = some value := List.getElem?_concat_length
  constructor
  · intro atom hatom
    rcases mem_append.mp hatom with hatom | hatom
    · exact (h.mono value).1 atom hatom
    · rw [(hmore atom hatom).1]
      refine ⟨value, hnew, hkept, fun hwhite => ?_⟩
      rw [take_left]
      exact (hspace hwhite).1
  · intro atom hatom
    rcases mem_append.mp hatom with hatom | hatom
    · exact (h.mono value).2 atom hatom
    · rw [(hmore atom hatom).2]
      exact ⟨value, hnew, hkept⟩
  · intro hspaced
    rw [endsSpaced_append] at hspaced
    simp only [endsSpaced, hkept, false_eq_true, if_false] at hspaced
    obtain ⟨-, last, hlast, hvalue⟩ := hspace hspaced
    refine ⟨last, ?_, hvalue⟩
    rw [List.getLast?_append, hlast, Option.some_or]

theorem Kept.step (h : Kept text atoms) (toLowercase : Char → List Char) (character : TextChar B) :
    Kept (text ++ [character.value])
      (appendNormalizedSource toLowercase atoms character text.length) := by
  have hold := h.mono character.value
  have hspaced := endsSpaced_append false text [character.value]
  unfold appendNormalizedSource appendNormalizedValue
  split
  · rename_i hignored
    simp only [endsSpaced, hignored, if_true] at hspaced
    exact ⟨hold.1, hold.2, fun hend => h.space (hspaced.symm.trans hend)⟩
  rename_i hignored
  rw [not_eq_true] at hignored
  split
  · -- White space after a scalar that is no space follows no white space.
    have hpush : (∀ last, atoms.getLast? = some last → last.value ≠ ' ') →
        Kept (text ++ [character.value]) (atoms ++ [⟨' ', text.length, text.length⟩]) := by
      intro hlast
      refine h.append hignored (by simp) fun _ => ⟨?_, _, rfl, rfl⟩
      rw [← not_eq_true]
      intro hend
      obtain ⟨last, hsome, hvalue⟩ := h.space hend
      exact hlast last hsome hvalue
    cases hlast : atoms.getLast? with
    | none => exact hpush fun last hsome => by rw [hlast] at hsome; cases hsome
    | some last =>
      dsimp only
      split
      · rename_i hvalue
        obtain ⟨before, rfl⟩ := List.getLast?_eq_some_iff.mp hlast
        rw [dropLast_concat]
        constructor
        · intro atom hatom
          rcases mem_append.mp hatom with hatom | hatom
          · exact hold.1 atom (mem_append_left _ hatom)
          · rw [mem_singleton.mp hatom]
            exact hold.1 last (mem_append_right _ mem_cons_self)
        · intro atom hatom
          rcases mem_append.mp hatom with hatom | hatom
          · exact hold.2 atom (mem_append_left _ hatom)
          · rw [mem_singleton.mp hatom]
            exact ⟨_, List.getElem?_concat_length, hignored⟩
        · exact fun _ => ⟨_, List.getLast?_concat, hvalue⟩
      · rename_i hvalue
        refine hpush fun other hother => ?_
        rw [hlast] at hother
        rw [← Option.some.inj hother]
        exact hvalue
  · rename_i hwhite
    refine h.append hignored ?_ fun hspace => absurd hspace hwhite
    intro atom hatom
    obtain ⟨lowercase, -, rfl⟩ := mem_map.mp hatom
    exact ⟨rfl, rfl⟩

theorem pageAtoms_kept (toLowercase : Char → List Char) (characters : List (TextChar B)) :
    Kept (characters.map (·.value)) (pageAtoms toLowercase characters) := by
  induction characters using List.reverseRecOn with
  | nil => exact ⟨by simp [pageAtoms], by simp [pageAtoms], by simp [endsSpaced]⟩
  | append_singleton characters character ih =>
    have hstep := ih.step toLowercase character
    rw [length_map] at hstep
    rw [pageAtoms_append, map_append]
    exact hstep

theorem collapse_eq_nil_of_endsSpaced {spaced : Bool} (hend : endsSpaced true text = true)
    (hother : endsSpaced spaced text = false) : collapse true text = [] := by
  induction text generalizing spaced with
  | nil => rfl
  | cons value text ih =>
    rw [endsSpaced] at hend hother
    rw [collapse]
    split
    · rename_i hignored
      rw [if_pos hignored] at hend hother
      exact ih hend hother
    · rename_i hignored
      rw [if_neg hignored] at hend hother
      cases hother.symm.trans hend

def shownOccurrence (text : List Char) (start finish : Nat) : List Char :=
  shownMatch ((text.take start).drop (start - previewContextChars))
    ((text.take (finish + 1)).drop start) ((text.drop (finish + 1)).take previewContextChars)

/-- A match ends in white space, with something visible before it in the window, nothing visible
after it, and more of the page after the window. -/
def Overruns (text : List Char) (start finish : Nat) : Prop :=
  finish + previewContextChars + 1 < text.length ∧
  (∃ value, text[finish]? = some value ∧ isWhitespace value = true) ∧
  ((text.take (finish + 1)).drop (start - previewContextChars)).any isVisible = true ∧
  ((text.drop (finish + 1)).take previewContextChars).any isVisible = false

theorem preview_shows_iff {characters : List (TextChar B)} {start finish : Nat} {first last : Char}
    (hle : start ≤ finish) (hfirst : (characters.map (·.value))[start]? = some first)
    (hfirstKept : isIgnored first = false)
    (hfirstSpace : isWhitespace first = true →
      endsSpaced false ((characters.map (·.value)).take start) = false)
    (hlast : (characters.map (·.value))[finish]? = some last) (hlastKept : isIgnored last = false)
    {range : Nat × Nat} (hpreview : preview characters start finish = some (text, range)) :
    Shows text range (shownOccurrence (characters.map (·.value)) start finish) ↔
      ¬Overruns (characters.map (·.value)) start finish := by
  obtain ⟨character, hcharacter, hvalue⟩ : ∃ character, characters[finish]? = some character ∧
      character.value = last := by
    rw [List.getElem?_map] at hlast
    exact Option.map_eq_some_iff.mp hlast
  obtain ⟨opening, hopening, -⟩ : ∃ opening, characters[start]? = some opening ∧
      opening.value = first := by
    rw [List.getElem?_map] at hfirst
    exact Option.map_eq_some_iff.mp hfirst
  rw [preview_eq hle hopening hcharacter (hvalue ▸ hlastKept)] at hpreview
  cases hpreview
  generalize characters.map (·.value) = text at *
  obtain ⟨hstart, rfl⟩ := List.getElem?_eq_some_iff.mp hfirst
  obtain ⟨hfinish, rfl⟩ := List.getElem?_eq_some_iff.mp hlast
  have hcons : (text.take (finish + 1)).drop start =
      text[start] :: (text.take (finish + 1)).drop (start + 1) := by
    rw [drop_eq_getElem_cons (by rw [length_take]; omega), getElem_take]
  have hconcat : (text.take (finish + 1)).drop start =
      (text.take finish).drop start ++ [text[finish]] := by
    rw [take_succ_eq_append_getElem hfinish, drop_append_of_le_length (by rw [length_take]; omega)]
  have hupto := drop_take_split text (show start - previewContextChars ≤ start by omega)
    (show start ≤ finish + 1 by omega)
  have hbefore : isWhitespace text[start] = true →
      endsSpaced true ((text.take start).drop (start - previewContextChars)) = true →
      collapse true ((text.take start).drop (start - previewContextChars)) = [] := by
    intro hwhite hend
    have hother := hfirstSpace hwhite
    rw [← take_append_drop (start - previewContextChars) (text.take start),
      endsSpaced_append] at hother
    exact collapse_eq_nil_of_endsSpaced hend hother
  have hlead : (if 0 < start - previewContextChars then [ellipsis] else []) = [] ∨
      (if 0 < start - previewContextChars then [ellipsis] else []) = [ellipsis] := by
    split <;> simp
  have hshows := trimmedText_shows_iff ((text.drop (finish + 1)).take previewContextChars)
    (decide (finish + previewContextChars + 1 < text.length)) hlead hcons hfirstKept hbefore hconcat
    hlastKept
  rw [← hupto] at hshows ⊢
  simp only [decide_eq_true_eq] at hshows
  refine hshows.trans (not_congr ?_)
  constructor
  · rintro ⟨hmore, hwhite, hvisible, hnone⟩
    exact ⟨hmore, ⟨_, hlast, hwhite⟩, hvisible, hnone⟩
  · rintro ⟨hmore, ⟨value, hvalue, hwhite⟩, hvisible, hnone⟩
    cases hlast.symm.trans hvalue
    exact ⟨hmore, hwhite, hvisible, hnone⟩

/-- The range of a match in its preview is that of its text exactly when the match does not overrun
its preview. -/
theorem searchPage_previews_iff (toLowercase : Char → List Char) (geometry : Geometry B)
    (shouldCancel : Nat → Bool) (page : Nat) (characters : List (TextChar B)) {text : List Char}
    {query : SearchQuery} (hquery : SearchQuery.new toLowercase text = some (.ok query))
    (resultLimit : Nat) {results : SearchPageResults B}
    (hresults : searchPage toLowercase geometry shouldCancel page characters query resultLimit =
      some (.complete results)) {occurrence : SearchMatch B}
    (hoccurrence : occurrence ∈ results.found) :
    Shows occurrence.preview occurrence.previewMatch
        (shownOccurrence (characters.map (·.value)) occurrence.id.start occurrence.id.finish) ↔
      ¬Overruns (characters.map (·.value)) occurrence.id.start occurrence.id.finish := by
  obtain ⟨result, hresult, hcases⟩ := SearchQuery.new_cases toLowercase text
  cases hquery.symm.trans hresult
  obtain ⟨-, hne, hcorrect⟩ := hcases query rfl
  obtain ⟨-, -, -, hreported⟩ := complete_of_returns (search_returns toLowercase geometry
    shouldCancel page characters hne hcorrect resultLimit) hresults
  obtain ⟨first, hfirst, last, hlast, hstart, hfinish, hle, hpreview⟩ :=
    hreported occurrence hoccurrence
  have hkept := pageAtoms_kept toLowercase characters
  obtain ⟨opening, hopening, hopeningKept, hspace⟩ := hkept.first first hfirst
  obtain ⟨closing, hclosing, hclosingKept⟩ := hkept.last last hlast
  rw [← hstart] at hopening hspace
  rw [← hfinish] at hclosing
  exact preview_shows_iff hle hopening hopeningKept hspace hclosing hclosingKept hpreview

end page

/-- A page of a letter, a space, characters that are ignored, and another letter. -/
def muted : List (TextChar Unit) :=
  [⟨'a', none⟩, ⟨' ', none⟩] ++ List.replicate 28 ⟨Char.ofNat 0xAD, none⟩ ++ [⟨'b', none⟩]

theorem searchPage_previews_shout : ∃ results occurrence,
    searchPage asciiLowercase noBounds (fun _ => false) 0 shout ⟨['a', 'a'], [0, 1]⟩ 2 =
      some (.complete results) ∧
    occurrence ∈ results.found ∧ Shows occurrence.preview occurrence.previewMatch
      (shownOccurrence (shout.map (·.value)) occurrence.id.start occurrence.id.finish) := by
  obtain ⟨results, occurrence, hresults, hmem, hid⟩ : ∃ results occurrence,
      searchPage asciiLowercase noBounds (fun _ => false) 0 shout ⟨['a', 'a'], [0, 1]⟩ 2 =
        some (.complete results) ∧ occurrence ∈ results.found ∧ occurrence.id = ⟨0, 0, 1⟩ :=
    ⟨_, _, rfl, mem_cons_self, rfl⟩
  refine ⟨results, occurrence, hresults, hmem, (searchPage_previews_iff asciiLowercase noBounds
    (fun _ => false) 0 shout (show SearchQuery.new asciiLowercase ['A', 'a'] =
      some (.ok ⟨['a', 'a'], [0, 1]⟩) by decide) 2 hresults hmem).mpr ?_⟩
  rw [hid]
  rintro ⟨hmore, -⟩
  revert hmore
  decide

/-- The space of the match gives way to the ellipsis, in which the range ends. -/
theorem searchPage_muted_overruns : ∃ query results occurrence,
    SearchQuery.new asciiLowercase ['a', ' '] = some (.ok query) ∧
    searchPage asciiLowercase noBounds (fun _ => false) 0 muted query 20000 =
      some (.complete results) ∧
    occurrence ∈ results.found ∧ occurrence.preview = ['a', ellipsis] ∧
    occurrence.previewMatch = (0, 2) ∧ ¬Boundary occurrence.preview occurrence.previewMatch.2 := by
  have hquery : SearchQuery.new asciiLowercase ['a', ' '] =
      some (.ok ⟨['a', ' '], [0, 0]⟩) := by decide
  obtain ⟨results, occurrence, hresults, hmem, htext, hrange⟩ : ∃ results occurrence,
      searchPage asciiLowercase noBounds (fun _ => false) 0 muted ⟨['a', ' '], [0, 0]⟩ 20000 =
        some (.complete results) ∧ occurrence ∈ results.found ∧
      occurrence.preview = ['a', ellipsis] ∧ occurrence.previewMatch = (0, 2) :=
    ⟨_, _, rfl, mem_cons_self, rfl, rfl⟩
  refine ⟨_, results, occurrence, hquery, hresults, hmem, htext, hrange, ?_⟩
  rw [htext, hrange]
  exact not_boundary_ellipsis ['a']

end KeyReader.Search
