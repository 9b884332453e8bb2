import KeyReader.Editor.Invariant

/-! The lines that a new line affects: those of the selection, and in one case a line below it. -/

namespace KeyReader.Editor

open Utf8 Transition RichTextBuffer List Option Bool

variable {buffer : RichTextBuffer}

namespace RichTextBuffer

/-- The first line of the selection, whichever of its ends is the greater one. -/
def firstLine (buffer : RichTextBuffer) : Nat :=
  lineAtOffset buffer.text (min buffer.selection.1 buffer.selection.2)

def lastLine (buffer : RichTextBuffer) : Nat :=
  lineAtOffset buffer.text (max buffer.selection.1 buffer.selection.2)

/-- The lines before the selection come first and the lines after it last, with the block kinds
that they had. -/
def KeepsOtherBlocks (buffer next : RichTextBuffer) : Prop :=
  buffer.blocks.take buffer.firstLine <+: next.blocks ∧
    buffer.blocks.drop (buffer.lastLine + 1) <:+ next.blocks

instance decidableKeepsOtherBlocks (buffer next : RichTextBuffer) :
    Decidable (KeepsOtherBlocks buffer next) := inferInstanceAs (Decidable (_ ∧ _))

/-- A line break takes the place of a selection that was made forwards over several lines and ends
where a heading ends, and the line as far below the selection as the selection is long is no
paragraph. -/
structure Misplaces (buffer : RichTextBuffer) : Prop where
  forwards : buffer.selectionReversed = false
  ordered : buffer.selection.1 < buffer.selection.2
  several : buffer.firstLine < buffer.lastLine
  heading : ∃ kind, buffer.blocks[buffer.lastLine]? = some kind ∧ isHeading kind
  atEnd : ∃ range, (lineRanges buffer.text)[buffer.lastLine]? = some range ∧
    buffer.selection.2 = range.2
  fits : (buffer.replaceRange buffer.selection ['\n']).isSome
  other : ∃ kind, buffer.blocks[buffer.lastLine + (buffer.lastLine - buffer.firstLine)]? =
    some kind ∧ kind ≠ .paragraph

theorem cursorOffset_line (buffer : RichTextBuffer) :
    buffer.firstLine ≤ lineAtOffset buffer.text buffer.cursorOffset ∧
      lineAtOffset buffer.text buffer.cursorOffset ≤ buffer.lastLine := by
  unfold cursorOffset
  split <;> exact ⟨lineAtOffset_mono _ (by omega), lineAtOffset_mono _ (by omega)⟩

theorem firstLine_ordered (h : buffer.selection.1 ≤ buffer.selection.2) :
    buffer.firstLine = lineAtOffset buffer.text buffer.selection.1 := by
  rw [firstLine, Nat.min_eq_left h]

theorem lastLine_ordered (h : buffer.selection.1 ≤ buffer.selection.2) :
    buffer.lastLine = lineAtOffset buffer.text buffer.selection.2 := by
  rw [lastLine, Nat.max_eq_right h]

end RichTextBuffer

/-- One block a line, and a selection between characters, in whichever order its ends are. -/
structure Lined (buffer : RichTextBuffer) : Prop where
  blocks : buffer.blocks.length = buffer.text.count '\n' + 1
  start : Boundary buffer.text buffer.selection.1
  finish : Boundary buffer.text buffer.selection.2

variable {inserted : Nat × Nat} {replaced : RichTextBuffer}

theorem replaceRange_lined {range : Nat × Nat} {replacement : List Char}
    (heq : buffer.replaceRange range replacement = some (inserted, replaced)) : Lined replaced := by
  obtain ⟨before, middle, after, -, -, -, htext, rfl, hselection, -, -, hblocks⟩ :=
    replaceRange_parts heq
  have hend : Boundary replaced.text
      (byteLength before + byteLength (normalizeNewlines replacement)) := by
    refine ⟨before ++ normalizeNewlines replacement, ?_, byteLength_append ..⟩
    rw [htext]
    exact prefix_append ..
  exact ⟨hblocks, hselection ▸ hend, hselection ▸ hend⟩

theorem replaceAndUnmark_lined (h : Lined buffer) (range : Nat × Nat) (replacement : List Char) :
    Lined (buffer.replaceAndUnmark range replacement).2 := by
  unfold replaceAndUnmark
  split
  · exact h
  · rename_i heq
    obtain ⟨hblocks, hstart, hfinish⟩ := replaceRange_lined heq
    exact ⟨hblocks, hstart, hfinish⟩

theorem withBlock_lined (h : Lined buffer) (lines : Nat × Nat) (kind : BlockKind) :
    Lined (buffer.withBlock lines kind).2 := by
  unfold withBlock
  dsimp only
  split
  · rename_i hfits
    exact ⟨(markdownFitsWithLimit_iff.mp hfits).1, h.start, h.finish⟩
  · exact h

theorem toggleInline_lined (h : Lined buffer) (flag : InlineFlag) :
    Lined (buffer.toggleInline flag).2 := by
  unfold toggleInline
  dsimp only
  split
  · exact ⟨h.blocks, h.start, h.finish⟩
  · split
    · exact ⟨h.blocks, h.start, h.finish⟩
    · exact h

variable {next : RichTextBuffer} {returned : Bool}

theorem insertNewline_cases (h : buffer.insertNewline = some (returned, next)) : (next = buffer ∧
      (isEmptyRange buffer.selection ∨ buffer.replaceRange buffer.selection ['\n'] = none)) ∨
    (isEmptyRange buffer.selection ∧ next.text = buffer.text ∧ next.selection = buffer.selection ∧
      next.blocks = buffer.blocks.set (lineAtOffset buffer.text buffer.cursorOffset) .paragraph) ∨
    ∃ range kind inserted replaced,
      (lineRanges buffer.text)[lineAtOffset buffer.text buffer.cursorOffset]? = some range ∧
      buffer.blocks[lineAtOffset buffer.text buffer.cursorOffset]? = some kind ∧
      buffer.replaceRange buffer.selection ['\n'] = some (inserted, replaced) ∧
      next.text = replaced.text ∧ next.selection = replaced.selection ∧
      next.blocks = if isHeading kind ∧ buffer.cursorOffset = range.2 then
          replaced.blocks.set (lineAtOffset buffer.text buffer.cursorOffset + 1) .paragraph
        else replaced.blocks := by
  rw [insertNewline] at h
  obtain ⟨range, hrange, h⟩ := bind_eq_some_iff.mp h
  obtain ⟨kind, hkind, h⟩ := bind_eq_some_iff.mp h
  dsimp only at h
  split at h
  · rename_i hitem
    have hempty := (and_eq_true_iff.mp (and_eq_true_iff.mp hitem).1).1
    split at h
    · obtain ⟨-, rfl⟩ := Prod.mk.inj (some.inj h)
      exact .inr (.inl ⟨hempty, rfl, rfl, rfl⟩)
    · exact .inl ⟨(Prod.mk.inj (some.inj h)).2.symm, .inl hempty⟩
  · split at h
    · rename_i hnone
      exact .inl ⟨(Prod.mk.inj (some.inj h)).2.symm, .inr hnone⟩
    · rename_i inserted replaced hreplaced
      obtain ⟨-, rfl⟩ := Prod.mk.inj (some.inj h)
      refine .inr (.inr ⟨range, kind, inserted, replaced, hrange, hkind, hreplaced, rfl, rfl, ?_⟩)
      simp only [and_eq_true, decide_eq_true_eq]

theorem insertNewline_lined (h : Lined buffer) (heq : buffer.insertNewline = some (returned, next)) :
    Lined next := by
  rcases insertNewline_cases heq with ⟨rfl, -⟩ | ⟨-, htext, hselection, hblocks⟩ |
    ⟨range, kind, inserted, replaced, -, -, hreplaced, htext, hselection, hblocks⟩
  · exact h
  · refine ⟨?_, ?_, ?_⟩
    · rw [hblocks, htext, length_set, h.blocks]
    · rw [htext, hselection]
      exact h.start
    · rw [htext, hselection]
      exact h.finish
  · have hlined := replaceRange_lined hreplaced
    refine ⟨?_, ?_, ?_⟩
    · rw [hblocks, htext]
      split
      · rw [length_set, hlined.blocks]
      · exact hlined.blocks
    · rw [htext, hselection]
      exact hlined.start
    · rw [htext, hselection]
      exact hlined.finish

theorem replaceAndMarkUtf16_lined (h : Lined buffer) (range : Option (Nat × Nat))
    (newText : List Char) (newSelection : Option (Nat × Nat)) :
    Lined (buffer.replaceAndMarkUtf16 range newText newSelection).2 := by
  unfold replaceAndMarkUtf16
  split
  · exact h
  rename_i inserted replaced heq
  obtain ⟨before, middle, after, -, -, -, htext, rfl, -, -, -, hblocks⟩ := replaceRange_parts heq
  have hlined := replaceRange_lined heq
  have hin : ∀ offset, Boundary (normalizeNewlines newText) offset →
      Boundary replaced.text (byteLength before + offset) :=
    fun offset hoffset => htext ▸ hoffset.append after
  dsimp only
  split
  · exact ⟨hlined.blocks, hlined.start, hlined.finish⟩
  · have hslice : slice replaced.text (byteLength before)
        (byteLength before + byteLength (normalizeNewlines newText)) =
          normalizeNewlines newText := by
      rw [htext, slice_append]
    rw [hslice]
    exact ⟨hblocks, hin _ (offsetFromUtf16_boundary ..), hin _ (offsetFromUtf16_boundary ..)⟩

theorem perform_lined {operation : Operation} {result : Bool × RichTextBuffer} (h : Lined buffer)
    (heq : buffer.perform operation = some result) : Lined result.2 := by
  cases operation with
  | setSelection range reversed =>
    cases heq
    have hends := InText.of_ends (floorCharBoundary_boundary buffer.text range.1)
      (floorCharBoundary_boundary buffer.text range.2)
    exact ⟨h.blocks, hends.start, hends.finish⟩
  | moveTo offset =>
    cases heq
    exact ⟨h.blocks, floorCharBoundary_boundary .., floorCharBoundary_boundary ..⟩
  | selectTo offset =>
    cases heq
    have hanchor : Boundary buffer.text
        (if buffer.selectionReversed then buffer.selection.2 else buffer.selection.1) := by
      split
      · exact h.finish
      · exact h.start
    have hends := InText.of_ends hanchor (floorCharBoundary_boundary buffer.text offset)
    exact ⟨h.blocks, hends.start, hends.finish⟩
  | selectAll =>
    cases heq
    exact ⟨h.blocks, .zero _, .end _⟩
  | clearMarkedRange =>
    cases heq
    exact ⟨h.blocks, h.start, h.finish⟩
  | replaceSelection replacement | backspace | deleteForward =>
    cases heq
    exact replaceAndUnmark_lined h ..
  | toggleInline flag =>
    cases heq
    exact toggleInline_lined h flag
  | toggleBlock target | setBlock target =>
    obtain ⟨kinds, -, heq⟩ := bind_eq_some_iff.mp heq
    cases heq
    exact withBlock_lined h ..
  | insertNewline => exact insertNewline_lined h heq
  | replaceTextUtf16 range newText =>
    cases heq
    exact replaceAndUnmark_lined h ..
  | replaceAndMarkUtf16 range newText newSelection =>
    cases heq
    exact replaceAndMarkUtf16_lined h ..

theorem run_lined {start : RichTextBuffer} {operations : List Operation}
    (hstart : Constructed start) (hrun : run step start operations = some buffer) :
    Lined buffer := by
  have hkept := hstart.kept
  have hlined : Lined start := ⟨hkept.blocks, hkept.selection.start, hkept.selection.finish⟩
  have hstep : ∀ buffer operation next, Lined buffer → True →
      step buffer operation = some next → Lined next := by
    intro buffer operation next h _ hstep
    obtain ⟨result, hperform, rfl⟩ := map_eq_some_iff.mp hstep
    exact perform_lined h hperform
  exact run_preserves hstep hlined (.of_forall (fun _ _ => trivial) start operations) hrun

/-- Blocks in which two for a line break stand for those of some lines. -/
def withBreak (blocks : List BlockKind) (first last : Nat) (kind : BlockKind) : List BlockKind :=
  blocks.take first ++ [kind, kind] ++ blocks.drop (last + 1)

variable {blocks : List BlockKind} {first : Nat}

theorem withBreak_keeps {start last : Nat} (kind : BlockKind) (hfirst : first ≤ start) :
    blocks.take first <+: withBreak blocks start last kind ∧
      blocks.drop (last + 1) <:+ withBreak blocks start last kind := by
  refine ⟨?_, suffix_append ..⟩
  refine (take_prefix_take_left hfirst).trans ?_
  rw [withBreak, append_assoc]
  exact prefix_append ..

variable {line : Nat}

theorem take_prefix_set {next : List BlockKind} (h : blocks.take first <+: next)
    (hline : first ≤ line) (kind : BlockKind) : blocks.take first <+: next.set line kind := by
  obtain ⟨rest, rfl⟩ := h
  have hlength : (blocks.take first).length ≤ line := by
    rw [length_take]
    omega
  rw [set_append_right _ _ hlength]
  exact prefix_append ..

theorem suffix_set {tail next : List BlockKind} (h : tail <:+ next)
    (hline : line + tail.length < next.length) (kind : BlockKind) :
    tail <:+ next.set line kind := by
  obtain ⟨before, rfl⟩ := h
  rw [length_append] at hline
  rw [set_append_left _ _ (by omega)]
  exact suffix_append ..

theorem suffix_set_iff (before tail : List BlockKind) (line : Nat) (kind : BlockKind) :
    tail <:+ (before ++ tail).set (before.length + line) kind ↔
      ¬∃ other, tail[line]? = some other ∧ other ≠ kind := by
  rw [set_append_right _ _ (Nat.le_add_right ..), Nat.add_sub_cancel_left]
  constructor
  · rintro h ⟨other, hother, hne⟩
    have heq := (suffix_of_suffix_length_le h (suffix_append ..)
      (by rw [length_set])).eq_of_length (by rw [length_set])
    have hset : (tail.set line kind)[line]? = some kind := by
      rw [List.getElem?_set_self (List.getElem?_eq_some_iff.mp hother).1]
    rw [← heq, hother] at hset
    exact hne (some.inj hset)
  · intro h
    have heq : tail.set line kind = tail := by
      cases hother : tail[line]? with
      | none => exact set_eq_of_length_le (getElem?_eq_none_iff.mp hother)
      | some other =>
        have hsame : other = kind := by_contra fun hne => h ⟨other, hother, hne⟩
        obtain ⟨hlt, rfl⟩ := List.getElem?_eq_some_iff.mp hother
        rw [← hsame, set_getElem_self]
    rw [heq]
    exact suffix_append ..

theorem RichTextBuffer.Misplaces.not_empty (h : Misplaces buffer) :
    ¬isEmptyRange buffer.selection = true := by
  have hordered := h.ordered
  rw [isEmptyRange, decide_eq_true_eq]
  omega

theorem RichTextBuffer.Misplaces.cursor (h : Misplaces buffer) :
    buffer.cursorOffset = buffer.selection.2 ∧
      lineAtOffset buffer.text buffer.cursorOffset = buffer.lastLine := by
  have hcursor : buffer.cursorOffset = buffer.selection.2 :=
    if_neg (by rw [h.forwards]; exact false_ne_true)
  exact ⟨hcursor, by rw [hcursor, lastLine_ordered (Nat.le_of_lt h.ordered)]⟩

theorem replaceRange_break (h : Lined buffer)
    (heq : buffer.replaceRange buffer.selection ['\n'] = some (inserted, replaced)) :
    ∃ kind, replaced.blocks = withBreak buffer.blocks
      (lineAtOffset buffer.text buffer.selection.1) buffer.lastLine kind := by
  obtain ⟨before, middle, after, -, hstart, hfinish, -, -, -, -, hblocks, -⟩ :=
    replaceRange_parts heq
  rw [floorCharBoundary_eq h.start] at hstart hfinish
  rw [floorCharBoundary_eq h.finish, Nat.max_comm] at hfinish
  rw [← hstart, ← hfinish] at hblocks
  exact ⟨_, hblocks⟩

theorem setBreak_keeps {start last : Nat} {kind : BlockKind} (hfirst : first ≤ start)
    (hstart : start < blocks.length) (hline : first ≤ line) (hnew : line ≤ start + 1) :
    blocks.take first <+: (withBreak blocks start last kind).set line .paragraph ∧
      blocks.drop (last + 1) <:+ (withBreak blocks start last kind).set line .paragraph := by
  obtain ⟨htake, hsuffix⟩ := withBreak_keeps kind hfirst
  refine ⟨take_prefix_set htake hline _, suffix_set hsuffix ?_ _⟩
  simp only [withBreak, length_append, length_take, length_cons, length_nil]
  omega

/-- A new line leaves the lines outside the selection unless it takes the place of several lines
and sets the block of a line that it did not add. -/
theorem insertNewline_keeps_iff (h : Lined buffer)
    (heq : buffer.insertNewline = some (returned, next)) :
    KeepsOtherBlocks buffer next ↔ ¬Misplaces buffer := by
  have hcursor := cursorOffset_line buffer
  rcases insertNewline_cases heq with ⟨rfl, hrejected⟩ | ⟨hempty, -, -, hblocks⟩ |
    ⟨range, kind, inserted, replaced, hrange, hkind, hreplaced, -, -, hblocks⟩
  · refine iff_of_true ⟨ take_prefix .., drop_suffix ..⟩ fun hmisplaces => ?_
    rcases hrejected with hempty | hnone
    · exact hmisplaces.not_empty hempty
    · have hfits := hmisplaces.fits
      rw [hnone] at hfits
      cases hfits
  · refine iff_of_true ?_ fun hmisplaces => hmisplaces.not_empty hempty
    rw [KeepsOtherBlocks, hblocks]
    refine ⟨take_prefix_set ( take_prefix ..) hcursor.1 _, ?_⟩
    by_cases hlast : buffer.lastLine < buffer.blocks.length
    · refine suffix_set (drop_suffix ..) ?_ _
      rw [length_drop]
      omega
    · rw [drop_eq_nil_of_le (by omega)]
      exact nil_suffix
  have hline := lineAtOffset_le buffer.text buffer.selection.1
  have hlength := h.blocks
  have hstart : lineAtOffset buffer.text buffer.selection.1 < buffer.blocks.length := by omega
  have hfirst : buffer.firstLine ≤ lineAtOffset buffer.text buffer.selection.1 :=
    lineAtOffset_mono _ (Nat.min_le_left ..)
  obtain ⟨inherited, hbreak⟩ := replaceRange_break h hreplaced
  rw [KeepsOtherBlocks, hblocks, hbreak]
  by_cases hheading : isHeading kind ∧ buffer.cursorOffset = range.2
  case neg =>
    rw [if_neg hheading]
    refine iff_of_true (withBreak_keeps _ hfirst) fun hmisplaces => hheading ?_
    obtain ⟨hcursor, hlast⟩ := hmisplaces.cursor
    obtain ⟨other, hother, hkind'⟩ := hmisplaces.heading
    obtain ⟨line, hline, hend⟩ := hmisplaces.atEnd
    rw [hlast] at hrange hkind
    rw [hrange] at hline
    rw [hkind] at hother
    cases hline
    cases hother
    exact ⟨hkind', hcursor.trans hend⟩
  rw [if_pos hheading]
  by_cases hinside : lineAtOffset buffer.text buffer.cursorOffset ≤
      lineAtOffset buffer.text buffer.selection.1
  · -- the line that is set is the new one
    refine iff_of_true (setBreak_keeps hfirst hstart (by omega) (by omega)) fun hmisplaces => ?_
    have hseveral := hmisplaces.several
    rw [← hmisplaces.cursor.2, firstLine_ordered (Nat.le_of_lt hmisplaces.ordered)] at hseveral
    omega
  · -- the line that is set is one below the selection, if there is one
    have hforwards : buffer.selectionReversed = false := by
      cases hreversed : buffer.selectionReversed with
      | false => rfl
      | true =>
        rw [cursorOffset, hreversed] at hinside
        exact absurd Nat.le.refl hinside
    have hcursor : buffer.cursorOffset = buffer.selection.2 :=
      if_neg (by rw [hforwards]; exact false_ne_true)
    have hordered : buffer.selection.1 < buffer.selection.2 := by
      refine Nat.lt_of_not_le fun hle => hinside ?_
      rw [hcursor]
      exact lineAtOffset_mono _ hle
    have hfirstLine := firstLine_ordered (Nat.le_of_lt hordered)
    have hlastLine := lastLine_ordered (Nat.le_of_lt hordered)
    rw [← hcursor] at hlastLine
    rw [← hfirstLine, ← hlastLine] at hinside
    rw [← hlastLine] at hrange hkind
    rw [← hlastLine, ← hfirstLine]
    have hlength' : (buffer.blocks.take buffer.firstLine ++ [inherited, inherited]).length =
        buffer.firstLine + 2 := by
      rw [length_append, length_take, Nat.min_eq_left (by omega)]
      rfl
    have htail := suffix_set_iff (buffer.blocks.take buffer.firstLine ++ [inherited, inherited])
      (buffer.blocks.drop (buffer.lastLine + 1)) (buffer.lastLine - buffer.firstLine - 1) .paragraph
    rw [hlength', getElem?_drop,
      show buffer.firstLine + 2 + (buffer.lastLine - buffer.firstLine - 1) =
        buffer.lastLine + 1 by omega,
      show buffer.lastLine + 1 + (buffer.lastLine - buffer.firstLine - 1) =
        buffer.lastLine + (buffer.lastLine - buffer.firstLine) by omega] at htail
    have htake : buffer.blocks.take buffer.firstLine <+: (withBreak buffer.blocks
        buffer.firstLine buffer.lastLine inherited).set (buffer.lastLine + 1) .paragraph :=
      take_prefix_set (withBreak_keeps inherited Nat.le.refl).1 (by omega) _
    constructor
    · rintro ⟨-, hsuffix⟩ hmisplaces
      exact htail.mp hsuffix hmisplaces.other
    · intro hkeeps
      refine ⟨htake, htail.mpr fun hother => hkeeps ?_⟩
      exact ⟨hforwards, hordered, by omega, ⟨kind, hkind, hheading.1⟩,
        ⟨range, hrange, hcursor.symm.trans hheading.2⟩, by rw [hreplaced]; rfl, hother⟩

/-- In a buffer that a run of operations ends in, a new line keeps the blocks of the lines above
and below the selection exactly when it does not misplace one. -/
theorem edits_newline_keeps_iff {start buffer next : RichTextBuffer} {operations : List Operation}
    {returned : Bool} (hstart : Constructed start) (hrun : run step start operations = some buffer)
    (hnewline : buffer.insertNewline = some (returned, next)) :
    KeepsOtherBlocks buffer next ↔ ¬Misplaces buffer :=
  insertNewline_keeps_iff (run_lined hstart hrun) hnewline

/-- A heading under a paragraph, split at its end. -/
theorem edits_newline_keeps_heading : ∃ buffer next,
    run step (withMaxMarkdownBytes 64) [.replaceSelection ['a', '\n', 'b'], .setBlock .heading1] =
      some buffer ∧
    buffer.insertNewline = some (true, next) ∧ (KeepsOtherBlocks buffer next ↔ ¬Misplaces buffer)
    := by
  have h : ((run step (withMaxMarkdownBytes 64)
      [.replaceSelection ['a', '\n', 'b'], .setBlock .heading1]).any fun buffer =>
        buffer.insertNewline.any (·.1)) = true := by decide +kernel
  obtain ⟨buffer, hrun, h⟩ := (Option.any_eq_true ..).mp h
  obtain ⟨⟨returned, next⟩, hnewline, rfl⟩ := (Option.any_eq_true ..).mp h
  exact ⟨buffer, next, hrun, hnewline,
    edits_newline_keeps_iff (.withMaxMarkdownBytes 64) hrun hnewline⟩

/-- A line break for a paragraph and the heading under it makes a paragraph of the list item below,
which was not selected. -/
theorem edits_newline_unlists : ∃ start buffer next, Constructed start ∧
    run step start [.setSelection (0, 3) false] = some buffer ∧
    buffer.insertNewline = some (true, next) ∧ ¬KeepsOtherBlocks buffer next := by
  have h : ((tryFromMarkdownWithLimit ['a', '\n', '#', ' ', 'b', '\n', '-', ' ', 'c'] 64).any
      fun start => (run step start [.setSelection (0, 3) false]).any fun buffer =>
        buffer.insertNewline.any fun result =>
          result.1 && !decide (KeepsOtherBlocks buffer result.2)) = true := by decide +kernel
  obtain ⟨start, hstart, h⟩ := (Option.any_eq_true ..).mp h
  obtain ⟨buffer, hrun, h⟩ := (Option.any_eq_true ..).mp h
  obtain ⟨⟨returned, next⟩, hnewline, h⟩ := (Option.any_eq_true ..).mp h
  obtain ⟨rfl, hkeeps⟩ := Bool.and_eq_true_iff.mp h
  exact ⟨start, buffer, next, .tryFromMarkdownWithLimit hstart, hrun, hnewline,
    of_decide_eq_false ((not_eq_true' _).mp hkeeps)⟩

end KeyReader.Editor
