import KeyReader.Editor.Reading

/-! The Markdown of a styled text, line by line: what the writer with its cursor over the runs
computes. -/

namespace KeyReader.Editor

open Utf8 Runs List

variable {cursor : StyleRunCursor}

namespace Styled

def pieces : Styled → List (List Char × InlineStyle)
  | [] => []
  | (character, style) :: styled =>
    match pieces styled with
    | [] => [([character], style)]
    | (piece, next) :: more =>
      if style = next then (character :: piece, next) :: more
      else ([character], style) :: (piece, next) :: more

theorem pieces_cons (character : Char) (style : InlineStyle) (styled : Styled) :
    (∃ piece more, styled.pieces = (piece, style) :: more ∧
      pieces ((character, style) :: styled) = (character :: piece, style) :: more) ∨
    (pieces ((character, style) :: styled) = ([character], style) :: styled.pieces ∧
      ∀ next, styled.pieces.head? = some next → style ≠ next.2) := by
  rw [pieces]
  cases styled.pieces with
  | nil => exact .inr ⟨rfl, nofun⟩
  | cons first more =>
    obtain ⟨piece, next⟩ := first
    by_cases h : style = next
    · subst h
      exact .inl ⟨piece, more, rfl, if_pos rfl⟩
    · refine .inr ⟨if_neg h, fun other hother => ?_⟩
      cases hother
      exact h

variable (styled : Styled)

theorem flatMap_pieces : styled.pieces.flatMap (fun piece => uniform piece.1 piece.2) = styled := by
  induction styled with
  | nil => rfl
  | cons entry styled ih =>
    obtain ⟨character, style⟩ := entry
    rcases pieces_cons character style styled with ⟨piece, more, hpieces, heq⟩ | ⟨heq, -⟩
    · rw [hpieces] at ih
      rw [heq]
      exact congrArg ((character, style) :: ·) ih
    · rw [heq]
      exact congrArg ((character, style) :: ·) ih

theorem pieces_ne_nil : ∀ piece ∈ styled.pieces, piece.1 ≠ [] := by
  induction styled with
  | nil => exact forall_mem_nil _
  | cons entry styled ih =>
    obtain ⟨character, style⟩ := entry
    rcases pieces_cons character style styled with ⟨piece, more, hpieces, heq⟩ | ⟨heq, -⟩
    · rw [hpieces] at ih
      rw [heq]
      exact forall_mem_cons.mpr ⟨cons_ne_nil _ _, (forall_mem_cons.mp ih).2⟩
    · rw [heq]
      exact forall_mem_cons.mpr ⟨cons_ne_nil _ _, ih⟩

theorem pieces_chain : styled.pieces.IsChain fun piece next => piece.2 ≠ next.2 := by
  induction styled with
  | nil => exact .nil
  | cons entry styled ih =>
    obtain ⟨character, style⟩ := entry
    rcases pieces_cons character style styled with ⟨piece, more, hpieces, heq⟩ | ⟨heq, hother⟩
    · rw [hpieces] at ih
      rw [heq]
      cases more with
      | nil => exact .singleton _
      | cons second more =>
        obtain ⟨hne, hmore⟩ := isChain_cons_cons.mp ih
        exact isChain_cons_cons.mpr ⟨hne, hmore⟩
    · rw [heq]
      cases hpieces : pieces styled with
      | nil => exact .singleton _
      | cons first more =>
        rw [hpieces] at ih hother
        exact isChain_cons_cons.mpr ⟨hother first rfl, ih⟩

def runsFrom : List (List Char × InlineStyle) → Nat → List StyleRun
  | [], _ => []
  | (piece, style) :: more, offset =>
    ⟨offset, offset + byteLength piece, style⟩ :: runsFrom more (offset + byteLength piece)

theorem byteLength_pos {piece : List Char} (h : piece ≠ []) : 0 < byteLength piece := by
  obtain ⟨first, rest, rfl⟩ := exists_cons_of_ne_nil h
  exact Nat.lt_of_lt_of_le first.utf8Size_pos (Nat.le_add_right ..)

theorem width_uniform (piece : List Char) (style : InlineStyle) :
    width (uniform piece style).items = byteLength piece := by
  rw [width_items, text_uniform]

theorem walk_push_pieces {pieces : List (List Char × InlineStyle)}
    (hne : ∀ piece ∈ pieces, piece.1 ≠ [])
    (hchain : pieces.IsChain fun piece next => piece.2 ≠ next.2) (runs : List StyleRun)
    (offset : Nat) (hlast : ∀ last, runs.getLast? = some last → ∀ piece, pieces.head? = some piece →
      last.finish = offset → last.label ≠ piece.2) :
    walk push runs offset (items (pieces.flatMap fun piece => uniform piece.1 piece.2)) =
      runs ++ runsFrom pieces offset := by
  induction pieces generalizing runs offset with
  | nil => exact (append_nil runs).symm
  | cons piece more ih =>
    obtain ⟨piece, style⟩ := piece
    have hpos : 0 < byteLength piece := byteLength_pos (hne _ mem_cons_self)
    have hsame : ∀ item ∈ (uniform piece style).items, item.2 = style := by
      intro item hitem
      obtain ⟨entry, hentry, rfl⟩ := mem_map.mp hitem
      obtain ⟨character, -, rfl⟩ := mem_map.mp hentry
      rfl
    rw [flatMap_cons, items_append, walk_append, walk_push_same hsame, width_uniform]
    rcases push_cases runs style (show offset < offset + byteLength piece by omega) with
      ⟨before, last, rfl, hfinish, hlabel, -⟩ | ⟨-, hpush⟩
    · exact absurd hlabel (hlast last getLast?_concat _ rfl hfinish)
    · rw [hpush, ih (forall_mem_cons.mp hne).2 hchain.tail _ _, append_assoc]
      · rfl
      · intro last hlast next hnext _
        rw [getLast?_concat] at hlast
        cases hlast
        cases more with
        | nil => cases hnext
        | cons second more =>
          cases hnext
          exact (isChain_cons_cons.mp hchain).1

theorem walk_push_eq (offset : Nat) :
    walk push [] offset styled.items = runsFrom styled.pieces offset := by
  have hwalk := walk_push_pieces styled.pieces_ne_nil styled.pieces_chain [] offset nofun
  rwa [flatMap_pieces] at hwalk

theorem flatMap_runsFrom {β : Type} (f : List Char → InlineStyle → List β)
    (pieces : List (List Char × InlineStyle)) (before after : List Char) :
    (runsFrom pieces (byteLength before)).flatMap (fun run =>
        f (slice (before ++ (pieces.flatMap (·.1)) ++ after) run.start run.finish) run.label) =
      pieces.flatMap fun piece => f piece.1 piece.2 := by
  induction pieces generalizing before with
  | nil => rfl
  | cons piece more ih =>
    obtain ⟨piece, style⟩ := piece
    have htext : before ++ ((piece, style) :: more).flatMap (·.1) ++ after =
        before ++ piece ++ more.flatMap (·.1) ++ after := by
      simp only [flatMap_cons, append_assoc]
    have hrest := ih (before ++ piece)
    rw [byteLength_append] at hrest
    rw [htext, runsFrom, flatMap_cons, hrest, append_assoc (before ++ piece),
      slice_append, flatMap_cons]

theorem flatMap_pieces_text : styled.pieces.flatMap (·.1) = styled.text := by
  have htext := congrArg text styled.flatMap_pieces
  rw [text, map_flatMap] at htext
  rw [← htext]
  exact congrArg styled.pieces.flatMap (funext fun piece => (text_uniform piece.1 piece.2).symm)

/-- The part of a run in a range, pushed. -/
def clipPush (start finish : Nat) (kept : List StyleRun) (a b : Nat) (style : InlineStyle) :
    List StyleRun := push kept (max a start) (min b finish) style

theorem clipPush_splits (start finish : Nat) : Splits (clipPush start finish) := by
  intro kept a b c style hab hbc
  unfold clipPush
  rcases Nat.le_total b start with hb | hb
  · rw [push_of_le kept _ (show min b finish ≤ max a start by omega), Nat.max_eq_right hb,
      Nat.max_eq_right (show a ≤ start by omega)]
  rcases Nat.le_total b finish with hb' | hb'
  · rw [Nat.min_eq_left hb', Nat.max_eq_left hb]
    rcases Nat.le_total finish (max a start) with hout | hin
    · have hb'' : b = finish := by omega
      rw [push_of_le _ _ (show min c finish ≤ b by omega), hb'', Nat.min_eq_right (by omega)]
    · exact push_push _ _ (by omega) (by omega)
  · rw [Nat.min_eq_right hb', Nat.min_eq_right (show finish ≤ c by omega), Nat.max_eq_left hb,
      push_of_le _ _ hb']

theorem clipPush_paint (x y z : Styled) : (paint (x ++ y ++ z).items).foldl (fun kept run =>
        clipPush (byteLength x.text) (byteLength (x ++ y).text) kept run.start run.finish
          run.label) [] =
      runsFrom y.pieces (byteLength x.text) := by
  have hlength : byteLength (x ++ y).text = byteLength x.text + byteLength y.text := by
    rw [text_append, byteLength_append]
  rw [foldl_paint (clipPush_splits _ _) _ (wide_items _), items_append, walk_append,
    items_append, walk_append, Nat.zero_add, width_items, Nat.zero_add, width_append, width_items,
    width_items, ← hlength]
  have hbefore : walk (clipPush (byteLength x.text) (byteLength (x ++ y).text)) [] 0 x.items =
      [] := by
    refine (walk_congr ?_ []).trans (walk_const [] 0 x.items)
    intro kept a b style _ _ hb
    rw [width_items, Nat.zero_add] at hb
    exact push_of_le _ _ (by omega)
  have hwithin : walk (clipPush (byteLength x.text) (byteLength (x ++ y).text)) []
      (byteLength x.text) y.items = walk push [] (byteLength x.text) y.items := by
    apply walk_congr
    intro kept a b style ha _ hb
    rw [width_items, ← hlength] at hb
    rw [clipPush, Nat.max_eq_left ha, Nat.min_eq_left hb]
  have hafter : ∀ kept, walk (clipPush (byteLength x.text) (byteLength (x ++ y).text)) kept
      (byteLength (x ++ y).text) z.items = kept := by
    intro kept
    refine (walk_congr ?_ kept).trans (walk_const kept (byteLength (x ++ y).text) z.items)
    intro kept a b style ha _ _
    exact push_of_le _ _ (by omega)
  rw [hbefore, hwithin, hafter, walk_push_eq]

variable {last offset : Nat} {runs : List StyleRun}

theorem foldl_clipPush_beyond {start finish : Nat} (h : Tiled offset runs last)
    (hle : finish ≤ offset) (kept : List StyleRun) :
    runs.foldl (fun kept run => clipPush start finish kept run.start run.finish run.label) kept =
      kept := by
  induction runs generalizing offset kept with
  | nil => rfl
  | cons run runs ih =>
    obtain ⟨hstart, hlt, hrest⟩ := h
    rw [foldl_cons, clipPush, push_of_le _ _ (by omega)]
    exact ih hrest (by omega) kept

theorem foldl_clipPush_advanceTo (start finish : Nat) (runs : List StyleRun)
    (kept : List StyleRun) :
    (StyleRunCursor.advanceTo runs start).foldl (fun kept run =>
        clipPush start finish kept run.start run.finish run.label) kept =
      runs.foldl (fun kept run => clipPush start finish kept run.start run.finish run.label)
        kept := by
  unfold StyleRunCursor.advanceTo
  induction runs generalizing kept with
  | nil => rfl
  | cons run runs ih =>
    by_cases h : run.finish ≤ start
    · rw [dropWhile_cons_of_pos (by simpa using h), ih, foldl_cons, clipPush,
        push_of_le _ _ (by omega)]
    · rw [dropWhile_cons_of_neg (by simpa using h)]

/-- The parts that the cursor visits, and where it stops. -/
theorem overlapsBefore_eq (start finish : Nat) (h : Tiled offset runs last)
    (halternating : Alternating runs) (kept : List StyleRun)
    (hkept : kept = [] ∨ start < offset ∧
      (finish ≤ offset ∨ ∀ previous, kept.getLast? = some previous → ∀ run, runs.head? = some run →
      previous.label ≠ run.label)) :
    kept ++ (StyleRunCursor.overlapsBefore start finish runs).1 =
        runs.foldl (fun kept run => clipPush start finish kept run.start run.finish run.label)
          kept ∧
      (StyleRunCursor.overlapsBefore start finish runs).2 =
        StyleRunCursor.advanceTo runs finish := by
  induction runs generalizing offset kept with
  | nil => exact ⟨append_nil kept, rfl⟩
  | cons run runs ih =>
    by_cases hbeyond : finish ≤ run.start
    · rw [StyleRunCursor.overlapsBefore, if_pos hbeyond,
        foldl_clipPush_beyond h (h.1 ▸ hbeyond), StyleRunCursor.advanceTo,
        dropWhile_cons_of_neg]
      · exact ⟨append_nil kept, rfl⟩
      · rw [decide_eq_true_eq]
        have hlt := h.2.1
        have hstart := h.1
        omega
    obtain ⟨hstart, hlt, hrest⟩ := h
    -- the part of the first run is appended as a run of its own
    have hpush : clipPush start finish kept run.start run.finish run.label =
        kept ++ if max run.start start < min run.finish finish then
          [⟨max run.start start, min run.finish finish, run.label⟩] else [] := by
      split
      · rename_i hpart
        rcases push_cases kept run.label hpart with ⟨before, previous, rfl, -, hlabel, -⟩ |
          ⟨-, hpush⟩
        · rcases hkept with hnil | ⟨-, hout | hother⟩
          · exact absurd hnil (concat_ne_nil _ _)
          · omega
          · exact absurd hlabel (hother previous getLast?_concat run rfl)
        · exact hpush
      · rename_i hnone
        rw [append_nil]
        exact push_of_le _ _ (by omega)
    rw [StyleRunCursor.overlapsBefore, if_neg hbeyond, foldl_cons, hpush]
    by_cases hfinish : run.finish ≤ finish
    · rw [if_pos hfinish]
      have hnext := ih hrest halternating.tail (kept ++
        if max run.start start < min run.finish finish then
          [⟨max run.start start, min run.finish finish, run.label⟩] else []) ?_
      · rw [← hnext.1, hnext.2, append_assoc, StyleRunCursor.advanceTo,
          StyleRunCursor.advanceTo, dropWhile_cons_of_pos (by simpa using hfinish)]
        exact ⟨rfl, rfl⟩
      · split
        · refine .inr ⟨by omega, .inr fun previous hprevious next hnext => ?_⟩
          rw [getLast?_concat] at hprevious
          cases hprevious
          cases runs with
          | nil => cases hnext
          | cons second runs =>
            cases hnext
            exact (isChain_cons_cons.mp halternating).1
        · rcases hkept with rfl | ⟨hbefore, -⟩
          · exact .inl rfl
          · omega
    · rw [if_neg hfinish, foldl_clipPush_beyond hrest (by omega), StyleRunCursor.advanceTo,
        dropWhile_cons_of_neg (by simpa using hfinish)]
      exact ⟨rfl, rfl⟩

/-- A cursor that has passed no run which ends after an offset. -/
def InStep (cursor : StyleRunCursor) (runs : List StyleRun) (offset : Nat) : Prop :=
  ∀ later, offset ≤ later → cursor.advanceTo later = StyleRunCursor.advanceTo runs later

theorem InStep.mono {later : Nat} (h : InStep cursor runs offset) (hle : offset ≤ later) :
    InStep cursor runs later :=
  fun next hnext => h next (hle.trans hnext)

theorem InStep.advanceTo (h : InStep cursor runs offset) :
    InStep (cursor.advanceTo offset) runs offset := by
  intro later hlater
  rw [← h later hlater]
  exact Sorted.dropWhile_dropWhile (fun run hrun => decide_eq_true
    ((of_decide_eq_true hrun).trans hlater)) cursor

theorem advanceTo_tiled {start : Nat} (h : Tiled start runs last) (offset : Nat) :
    ∃ middle, Tiled middle (StyleRunCursor.advanceTo runs offset) last := by
  obtain ⟨before, hbefore⟩ := dropWhile_suffix (l := runs) (p := fun run => run.finish ≤ offset)
  rw [← hbefore] at h
  obtain ⟨middle, -, htiled⟩ := tiled_append.mp h
  exact ⟨middle, htiled⟩

theorem overlapsBefore_paint (x y z : Styled) :
    (StyleRunCursor.overlapsBefore (byteLength x.text) (byteLength (x ++ y).text)
      (StyleRunCursor.advanceTo (paint (x ++ y ++ z).items) (byteLength x.text))).1 =
        runsFrom y.pieces (byteLength x.text) ∧
    (StyleRunCursor.overlapsBefore (byteLength x.text) (byteLength (x ++ y).text)
      (StyleRunCursor.advanceTo (paint (x ++ y ++ z).items) (byteLength x.text))).2 =
        StyleRunCursor.advanceTo (paint (x ++ y ++ z).items) (byteLength (x ++ y).text) := by
  obtain ⟨middle, htiled⟩ := advanceTo_tiled (paint_tiled (x ++ y ++ z).items) (byteLength x.text)
  have halternating : Alternating
      (StyleRunCursor.advanceTo (paint (x ++ y ++ z).items) (byteLength x.text)) :=
    (paint_alternating _).suffix (dropWhile_suffix _)
  obtain ⟨hvisited, hcursor⟩ := overlapsBefore_eq (byteLength x.text)
    (byteLength (x ++ y).text) htiled halternating [] (.inl rfl)
  rw [foldl_clipPush_advanceTo, clipPush_paint, nil_append] at hvisited
  refine ⟨hvisited, hcursor.trans ?_⟩
  refine Sorted.dropWhile_dropWhile (fun run hrun => decide_eq_true ?_) _
  have hle := of_decide_eq_true hrun
  rw [text_append, byteLength_append]
  omega

theorem overlaps_paint (x y z : Styled)
    (h : InStep cursor (paint (x ++ y ++ z).items) (byteLength x.text)) :
    (cursor.overlaps (byteLength x.text) (byteLength (x ++ y).text)).1 =
        runsFrom y.pieces (byteLength x.text) ∧
      InStep (cursor.overlaps (byteLength x.text) (byteLength (x ++ y).text)).2
        (paint (x ++ y ++ z).items) (byteLength (x ++ y).text) := by
  have hlength : byteLength (x ++ y).text = byteLength x.text + byteLength y.text := by
    rw [text_append, byteLength_append]
  unfold StyleRunCursor.overlaps
  split
  · rename_i hle
    have hempty : y = [] := by
      cases y with
      | nil => rfl
      | cons entry y =>
        have hpos := byteLength_pos (cons_ne_nil entry.1 (text y))
        change byteLength (x ++ entry :: y).text = byteLength x.text +
          byteLength (entry.1 :: text y) at hlength
        omega
    subst hempty
    rw [append_nil] at h ⊢
    exact ⟨rfl, h⟩
  · rw [h _ Nat.le.refl]
    obtain ⟨hvisited, hcursor⟩ := overlapsBefore_paint x y z
    refine ⟨hvisited, fun later hlater => ?_⟩
    rw [hcursor]
    exact Sorted.dropWhile_dropWhile (fun run hrun => decide_eq_true
      ((of_decide_eq_true hrun).trans hlater)) _

/-- The style at the start of a part of a text is that of its first piece, which ends where the run
does or where the part does. -/
theorem styleExtentAt_paint {x y z : Styled} {piece : List Char} {style : InlineStyle}
    {more : List (List Char × InlineStyle)} (hy : y.pieces = (piece, style) :: more)
    (h : InStep cursor (paint (x ++ y ++ z).items) (byteLength x.text)) :
    ∃ extent, cursor.styleExtentAt (byteLength x.text) =
        ((style, extent), cursor.advanceTo (byteLength x.text)) ∧
      min extent (byteLength (x ++ y).text) = byteLength x.text + byteLength piece := by
  have hvisited := (overlapsBefore_paint x y z).1
  rw [hy, runsFrom] at hvisited
  have hpart : byteLength x.text < byteLength (x ++ y).text := by
    have hpos : 0 < byteLength piece :=
      byteLength_pos (y.pieces_ne_nil (piece, style) (hy ▸ mem_cons_self))
    have hlength : byteLength y.text = byteLength piece + byteLength (more.flatMap (·.1)) := by
      rw [← flatMap_pieces_text y, hy, flatMap_cons, byteLength_append]
    rw [text_append, byteLength_append]
    omega
  obtain ⟨middle, htiled⟩ := advanceTo_tiled (paint_tiled (x ++ y ++ z).items) (byteLength x.text)
  rw [StyleRunCursor.styleExtentAt, h _ Nat.le.refl]
  cases hruns : StyleRunCursor.advanceTo (paint (x ++ y ++ z).items) (byteLength x.text) with
  | nil =>
    rw [hruns, StyleRunCursor.overlapsBefore] at hvisited
    cases hvisited
  | cons run runs =>
    have hfinish : byteLength x.text < run.finish := by
      have hnot := head?_dropWhile_not (fun run : StyleRun => run.finish ≤ byteLength x.text)
        (paint (x ++ y ++ z).items)
      rw [StyleRunCursor.advanceTo] at hruns
      rw [hruns] at hnot
      simpa using hnot
    rw [hruns] at hvisited htiled
    have hrun := htiled.2.1
    have hstart := htiled.1
    rw [StyleRunCursor.overlapsBefore] at hvisited
    split at hvisited
    · cases hvisited
    dsimp only at hvisited
    rw [if_pos (show max run.start (byteLength x.text) <
      min run.finish (byteLength (x ++ y).text) by omega)] at hvisited
    have hfirst : (⟨max run.start (byteLength x.text), min run.finish (byteLength (x ++ y).text),
        run.label⟩ : StyleRun) =
          ⟨byteLength x.text, byteLength x.text + byteLength piece, style⟩ := by
      split at hvisited <;> exact (List.cons.inj hvisited).1
    injection hfirst with hmax hmin hlabel
    refine ⟨run.finish, ?_, hmin⟩
    dsimp only
    rw [if_pos ⟨by omega, hfinish⟩, hlabel]

/-- Whether a paragraph would be read as a list item. -/
def needsEscape (styled : Styled) : Bool :=
  match styled.pieces with
  | [] => false
  | (piece, style) :: _ =>
    style = .default && (['-', ' '].isPrefixOf piece || (looksNumberedPrefix piece).isSome)

/-- The Markdown of a text with styles. -/
def written (styled : Styled) : List Char :=
  styled.pieces.flatMap fun piece => encodeInline piece.1 piece.2

def writtenLine (kind : BlockKind) (styled : Styled) : List Char :=
  blockPrefix kind ++ (if kind = .paragraph && styled.needsEscape then ['\\'] else []) ++
    styled.written

theorem paragraphPrefixNeedsEscape_paint {x y z : Styled}
    (h : InStep cursor (paint (x ++ y ++ z).items) (byteLength x.text)) :
    ∃ style extent, cursor.styleExtentAt (byteLength x.text) =
        ((style, extent), cursor.advanceTo (byteLength x.text)) ∧
      paragraphPrefixNeedsEscape (x ++ y ++ z).text (byteLength x.text)
        (byteLength (x ++ y).text) style extent = y.needsEscape := by
  cases hy : y.pieces with
  | nil =>
    have hempty : y.text = [] := by rw [← flatMap_pieces_text, hy, flatMap_nil]
    have hend : byteLength (x ++ y).text = byteLength x.text := by
      rw [text_append, hempty, append_nil]
    have hextent : ∃ style extent, cursor.styleExtentAt (byteLength x.text) =
        ((style, extent), cursor.advanceTo (byteLength x.text)) := by
      unfold StyleRunCursor.styleExtentAt
      dsimp only
      split
      · exact ⟨_, _, rfl⟩
      · split <;> exact ⟨_, _, rfl⟩
    obtain ⟨style, extent, heq⟩ := hextent
    refine ⟨style, extent, heq, ?_⟩
    rw [paragraphPrefixNeedsEscape, hend, if_pos (.inl rfl), needsEscape, hy]
  | cons first more =>
    obtain ⟨piece, style⟩ := first
    obtain ⟨extent, heq, hextent⟩ := styleExtentAt_paint hy h
    refine ⟨style, extent, heq, ?_⟩
    have hpos : 0 < byteLength piece :=
      byteLength_pos (y.pieces_ne_nil (piece, style) (hy ▸ mem_cons_self))
    have htext : (x ++ y ++ z).text = x.text ++ piece ++ (more.flatMap (·.1) ++ z.text) := by
      rw [text_append, text_append, ← flatMap_pieces_text y, hy, flatMap_cons]
      simp only [append_assoc]
    rw [paragraphPrefixNeedsEscape, hextent, htext, slice_append, needsEscape, hy]
    dsimp only
    by_cases hdefault : style = .default
    · rw [if_neg (not_or.mpr ⟨by omega, not_not_intro hdefault⟩), decide_eq_true hdefault,
        Bool.true_and]
    · rw [if_pos (.inr hdefault), decide_eq_false hdefault, Bool.false_and]

theorem markdownFrom_line (x y z : Styled) (kind : BlockKind)
    (lines : List ((Nat × Nat) × BlockKind)) (later : Bool)
    (h : InStep cursor (paint (x ++ y ++ z).items) (byteLength x.text)) : ∃ next : StyleRunCursor,
      InStep next (paint (x ++ y ++ z).items) (byteLength (x ++ y).text) ∧
      markdownFrom (x ++ y ++ z).text
        (((byteLength x.text, byteLength (x ++ y).text), kind) :: lines) later cursor =
        (if later then ['\n'] else []) ++ writtenLine kind y ++
          markdownFrom (x ++ y ++ z).text lines true next := by
  obtain ⟨style, extent, heq, hescape⟩ := paragraphPrefixNeedsEscape_paint h
  obtain ⟨hvisited, hnext⟩ := overlaps_paint x y z h.advanceTo
  refine ⟨_, hnext, ?_⟩
  have htext : (x ++ y ++ z).text = x.text ++ y.pieces.flatMap (·.1) ++ z.text := by
    rw [text_append, text_append, flatMap_pieces_text]
  rw [markdownFrom, heq]
  dsimp only
  rw [hescape, hvisited, htext, flatMap_runsFrom encodeInline, ← htext]
  rfl

/-- The Markdown of the lines after the first one. -/
def writtenLater (lines : List (BlockKind × Styled)) : List Char :=
  lines.flatMap fun line => '\n' :: writtenLine line.1 line.2

end Styled

theorem lineRangesFrom_line {line : List Char} (h : '\n' ∉ line) (after : List Char)
    (index start : Nat) : lineRangesFrom (line ++ '\n' :: after) index start =
      (start, index + byteLength line) :: lineRangesFrom after (index + byteLength line + 1)
        (index + byteLength line + 1) := by
  induction line generalizing index with
  | nil => rw [nil_append, lineRangesFrom, if_pos rfl]; rfl
  | cons character line ih =>
    rw [mem_cons, not_or] at h
    rw [cons_append, lineRangesFrom, if_neg (Ne.symm h.1), ih h.2, byteLength_cons, Nat.add_assoc]

theorem lineRangesFrom_last {line : List Char} (h : '\n' ∉ line) (index start : Nat) :
    lineRangesFrom line index start = [(start, index + byteLength line)] := by
  induction line generalizing index with
  | nil => rfl
  | cons character line ih =>
    rw [mem_cons, not_or] at h
    rw [lineRangesFrom, if_neg (Ne.symm h.1), ih h.2, byteLength_cons, Nat.add_assoc]

namespace Styled

/-- The writer over the rest of the lines. -/
theorem markdownFrom_lines {line : BlockKind × Styled} {lines : List (BlockKind × Styled)}
    (h : ∀ other ∈ line :: lines, '\n' ∉ other.2.text) (x : Styled) (later : Bool)
    (hcursor : InStep cursor (paint (x ++ line.2 ++ laterLines lines).items) (byteLength x.text)) :
    markdownFrom (x ++ line.2 ++ laterLines lines).text
        ((lineRangesFrom (line.2 ++ laterLines lines).text (byteLength x.text)
          (byteLength x.text)).zip (line.1 :: lines.map (·.1))) later cursor =
      (if later then ['\n'] else []) ++ writtenLine line.1 line.2 ++ writtenLater lines := by
  induction lines generalizing line x later cursor with
  | nil =>
    obtain ⟨next, -, hwritten⟩ := markdownFrom_line x line.2 (laterLines []) line.1 [] later hcursor
    have htext : (line.2 ++ laterLines []).text = line.2.text := by
      rw [text_append]
      exact append_nil _
    rw [htext, lineRangesFrom_last (h line mem_cons_self), ← byteLength_append, ← text_append]
    exact hwritten
  | cons second lines ih =>
    have hlater : laterLines (second :: lines) =
        ('\n', .default) :: (second.2 ++ laterLines lines) := rfl
    have hsplit : x ++ line.2 ++ laterLines (second :: lines) =
        x ++ line.2 ++ [('\n', .default)] ++ second.2 ++ laterLines lines := by
      rw [hlater]
      simp only [append_assoc, cons_append, nil_append]
    have hsum : byteLength x.text + byteLength line.2.text = byteLength (x ++ line.2).text := by
      rw [text_append, byteLength_append]
    have hlength : byteLength (x ++ line.2 ++ [('\n', InlineStyle.default)]).text =
        byteLength (x ++ line.2).text + 1 := by
      rw [text_append (x ++ line.2), byteLength_append]
      rfl
    have htext : (line.2 ++ laterLines (second :: lines)).text =
        line.2.text ++ '\n' :: (second.2 ++ laterLines lines).text := by
      rw [text_append]
      rfl
    obtain ⟨next, hnext, hwritten⟩ := markdownFrom_line x line.2 (laterLines (second :: lines))
      line.1 ((lineRangesFrom (second.2 ++ laterLines lines).text
        (byteLength (x ++ line.2).text + 1)
        (byteLength (x ++ line.2).text + 1)).zip (second.1 :: lines.map (·.1)))
      later hcursor
    have hbreak : InStep next (paint (items (x ++ line.2 ++ [('\n', InlineStyle.default)] ++
        second.2 ++ laterLines lines)))
        (byteLength (x ++ line.2 ++ [('\n', InlineStyle.default)]).text) := by
      rw [← hsplit, hlength]
      exact hnext.mono (Nat.le_succ _)
    have hrest := ih (forall_mem_cons.mp h).2 (x ++ line.2 ++ [('\n', .default)]) true hbreak
    rw [← hsplit, hlength] at hrest
    rw [htext, lineRangesFrom_line (h line mem_cons_self), map_cons,
      zip_cons_cons, hsum, hwritten, hrest]
    simp only [if_true, writtenLater, flatMap_cons, append_assoc, cons_append, nil_append]

theorem markdownOf_lines {line : BlockKind × Styled} {lines : List (BlockKind × Styled)}
    (h : ∀ other ∈ line :: lines, '\n' ∉ other.2.text) :
    markdownOf (line.2 ++ laterLines lines).text (paint (line.2 ++ laterLines lines).items)
        (line.1 :: lines.map (·.1)) =
      writtenLine line.1 line.2 ++ writtenLater lines :=
  markdownFrom_lines h [] false fun _ _ => rfl

end Styled

end KeyReader.Editor
