import KeyReader.Editor.Reading

/-! What every operation keeps of a buffer. -/

namespace KeyReader.Editor

open Utf8 Runs Transition RichTextBuffer List Option

/-- A range between characters of a text. -/
structure InText (text : List Char) (range : Nat × Nat) : Prop where
  ordered : range.1 ≤ range.2
  start : Boundary text range.1
  finish : Boundary text range.2

theorem InText.caret {text : List Char} {offset : Nat} (h : Boundary text offset) :
    InText text (offset, offset) := ⟨Nat.le.refl, h, h⟩

theorem InText.of_ends {text : List Char} {a b : Nat} (ha : Boundary text a)
    (hb : Boundary text b) : InText text (min a b, max a b) := by
  refine ⟨by omega, ?_, ?_⟩
  · rcases Nat.le_total a b with h | h
    · exact (Nat.min_eq_left h).symm ▸ ha
    · exact (Nat.min_eq_right h).symm ▸ hb
  · rcases Nat.le_total a b with h | h
    · exact (Nat.max_eq_right h).symm ▸ hb
    · exact (Nat.max_eq_left h).symm ▸ ha

/-- The representation invariant of a buffer. -/
structure Sound (buffer : RichTextBuffer) : Prop where
  tiled : Tiled 0 buffer.runs (byteLength buffer.text)
  edges : ∀ run ∈ buffer.runs, Boundary buffer.text run.start ∧ Boundary buffer.text run.finish
  alternating : Alternating buffer.runs
  codeAlone : ∀ run ∈ buffer.runs, run.label.Valid
  blockPerLine : buffer.blocks.length = (lineRanges buffer.text).length
  noReturn : '\r' ∉ buffer.text
  selection : InText buffer.text buffer.selection
  marked : ∀ range, buffer.markedRange = some range → InText buffer.text range
  size : byteLength buffer.markdown ≤ buffer.maxMarkdownBytes

/-- The form of the invariant that the operations keep: the runs are those of a styled text, and the
Markdown passes the check of its size. -/
structure Kept (buffer : RichTextBuffer) : Prop where
  styled : ∃ styled : Styled, (∀ entry ∈ styled, entry.2.Valid) ∧
    (buffer.text, buffer.runs) = styled.render
  noReturn : '\r' ∉ buffer.text
  fits : buffer.fitsPersistenceLimit
  selection : InText buffer.text buffer.selection
  marked : ∀ range, buffer.markedRange = some range → InText buffer.text range
  pending : ∀ style, buffer.pendingStyle = some style → style.Valid

variable {buffer : RichTextBuffer}

/-- What a replacement makes of a buffer. -/
theorem replaceRange_parts {replaced : RichTextBuffer} {range inserted : Nat × Nat}
    {replacement : List Char}
    (heq : buffer.replaceRange range replacement = some (inserted, replaced)) :
    ∃ before middle after, buffer.text = before ++ middle ++ after ∧
      floorCharBoundary buffer.text range.1 = byteLength before ∧
      max (floorCharBoundary buffer.text range.2) (floorCharBoundary buffer.text range.1) =
        byteLength (before ++ middle) ∧
      replaced.text = before ++ normalizeNewlines replacement ++ after ∧
      inserted =
        (byteLength before, byteLength before + byteLength (normalizeNewlines replacement)) ∧
      replaced.selection = (inserted.2, inserted.2) ∧
      (replaced.runs = normalizeRuns replaced.text (replaceRuns buffer.runs (byteLength before)
          (byteLength (before ++ middle)) (byteLength (normalizeNewlines replacement))
          (buffer.pendingStyle.getD (buffer.styleForInsertion (byteLength before)))) ∧
        replaced.pendingStyle =
          some (buffer.pendingStyle.getD (buffer.styleForInsertion (byteLength before))) ∧
        replaced.fitsPersistenceLimit) ∧
      replaced.blocks = buffer.blocks.take (lineAtOffset buffer.text (byteLength before)) ++
        List.replicate ((normalizeNewlines replacement).count '\n' + 1)
          (buffer.blocks.getD (lineAtOffset buffer.text (byteLength before)) .paragraph) ++
        buffer.blocks.drop (lineAtOffset buffer.text (byteLength (before ++ middle)) + 1) ∧
      replaced.blocks.length = replaced.text.count '\n' + 1 := by
  unfold replaceRange at heq
  dsimp only at heq
  have hstart := floorCharBoundary_boundary buffer.text range.1
  have hfinish : Boundary buffer.text
      (max (floorCharBoundary buffer.text range.2) (floorCharBoundary buffer.text range.1)) :=
    (InText.of_ends (floorCharBoundary_boundary ..) hstart).finish
  have hle : floorCharBoundary buffer.text range.1 ≤
      max (floorCharBoundary buffer.text range.2) (floorCharBoundary buffer.text range.1) :=
    Nat.le_max_right ..
  generalize floorCharBoundary buffer.text range.1 = start at heq hstart hfinish hle
  generalize max (floorCharBoundary buffer.text range.2) start = finish at heq hfinish hle
  obtain ⟨before, middle, after, htext, rfl, rfl⟩ := hstart.split hfinish hle
  split at heq
  · cases heq
  split at heq
  case isFalse => cases heq
  rename_i hfits
  cases heq
  have hnew : takeBytes (byteLength before) buffer.text ++ normalizeNewlines replacement ++
      dropBytes (byteLength (before ++ middle)) buffer.text =
        before ++ normalizeNewlines replacement ++ after := by
    rw [htext, dropBytes_byteLength, append_assoc before, takeBytes_byteLength]
  exact ⟨before, middle, after, htext, rfl, rfl, hnew, rfl, rfl, ⟨rfl, rfl, hfits⟩, rfl,
    (markdownFitsWithLimit_iff.mp hfits).1⟩

section

variable (h : Kept buffer)

include h

theorem Kept.blocks : buffer.blocks.length = buffer.text.count '\n' + 1 :=
  (markdownFitsWithLimit_iff.mp h.fits).1

theorem Kept.sound : Sound buffer := by
  obtain ⟨styled, hvalid, heq⟩ := h.styled
  obtain ⟨htext, hruns⟩ := Prod.mk.inj heq
  have hboundary : ∀ offset, (∃ before, before <+: styled.items ∧ width before = offset) →
      Boundary buffer.text offset := by
    rintro offset ⟨before, hprefix, rfl⟩
    obtain ⟨part, hpart, rfl⟩ := prefix_map_iff.mp hprefix
    refine ⟨Styled.text part, ?_, (Styled.width_items part).symm⟩
    rw [htext]
    exact hpart.map _
  refine ⟨?_, ?_, ?_, ?_, ?_, h.noReturn, h.selection, h.marked,
    (markdownFitsWithLimit_iff.mp h.fits).2⟩
  · rw [hruns, htext, ← Styled.width_items]
    exact paint_tiled _
  · intro run hrun
    obtain ⟨hstart, hfinish⟩ := paint_edges _ run (hruns ▸ hrun)
    exact ⟨hboundary _ hstart, hboundary _ hfinish⟩
  · rw [hruns]
    exact paint_alternating _
  · intro run hrun
    obtain ⟨item, hitem, hlabel⟩ := paint_label _ run (hruns ▸ hrun)
    obtain ⟨entry, hentry, rfl⟩ := mem_map.mp hitem
    exact hlabel ▸ hvalid entry hentry
  · rw [h.blocks, length_lineRanges]

theorem Kept.styleForInsertion (offset : Nat) :
    (buffer.pendingStyle.getD (buffer.styleForInsertion offset)).Valid := by
  have hinserted : (buffer.styleForInsertion offset).Valid := by
    unfold RichTextBuffer.styleForInsertion
    split
    · exact .default
    · dsimp only
      generalize hfound : buffer.runs.find? _ = found
      cases found with
      | none => exact .default
      | some run => exact h.sound.codeAlone run (mem_of_find?_eq_some hfound)
  cases hpending : buffer.pendingStyle with
  | none => exact hinserted
  | some style => exact h.pending style hpending

/-- The text and the styles after a replacement, once the replacement fits. -/
theorem replaceRange_kept {replaced : RichTextBuffer} {range inserted : Nat × Nat}
    {replacement : List Char}
    (heq : buffer.replaceRange range replacement = some (inserted, replaced)) :
    Kept { replaced with markedRange := none } ∧ ∃ before after,
      replaced.text = before ++ normalizeNewlines replacement ++ after ∧
      inserted = (byteLength before, byteLength before + byteLength (normalizeNewlines replacement))
      := by
  obtain ⟨before, middle, after, htext, -, -, hnew, rfl, hselection, ⟨hruns, hpending, hfits⟩, -⟩ :=
    replaceRange_parts heq
  have hstyle := h.styleForInsertion (byteLength before)
  generalize buffer.pendingStyle.getD (buffer.styleForInsertion _) = style at hstyle hruns hpending
  have hinserted : InText (before ++ normalizeNewlines replacement ++ after)
      (byteLength before, byteLength before + byteLength (normalizeNewlines replacement)) := by
    refine ⟨Nat.le_add_right .., ⟨before, ?_, rfl⟩, ⟨before ++ _, prefix_append .., ?_⟩⟩
    · rw [append_assoc]
      exact prefix_append ..
    · exact byteLength_append ..
  refine ⟨⟨?_, ?_, hfits, ?_, nofun, ?_⟩, before, after, hnew, rfl⟩
  · obtain ⟨styled, hvalid, hrender⟩ := h.styled
    obtain ⟨hstyled, hbefore⟩ := Prod.mk.inj hrender
    obtain ⟨x, y, z, rfl, rfl, rfl, rfl⟩ := Styled.split_text (hstyled.symm.trans htext)
    obtain ⟨hxy, hz⟩ := forall_mem_append.mp hvalid
    have hmiddle : ∀ entry ∈ Styled.uniform (normalizeNewlines replacement) style,
        entry.2.Valid := by
      intro entry hentry
      obtain ⟨character, -, rfl⟩ := mem_map.mp hentry
      exact hstyle
    refine ⟨x ++ Styled.uniform (normalizeNewlines replacement) style ++ z, ?_, ?_⟩
    · exact forall_mem_append.mpr
        ⟨forall_mem_append.mpr ⟨(forall_mem_append.mp hxy).1, hmiddle⟩, hz⟩
    · have htext' : (x ++ Styled.uniform (normalizeNewlines replacement) style ++ z).text =
          x.text ++ normalizeNewlines replacement ++ z.text := by
        rw [Styled.text_append, Styled.text_append, Styled.text_uniform]
      rw [hruns, hnew, hbefore, ← Styled.text_append, Styled.replaceRuns_paint, ← htext',
        Styled.normalizeRuns_paint]
      rfl
  · rw [hnew]
    have hold := h.noReturn
    rw [htext] at hold
    simp only [mem_append, not_or] at hold ⊢
    exact ⟨⟨hold.1.1, not_mem_normalizeNewlines _⟩, hold.2⟩
  · rw [hselection, hnew]
    exact .caret hinserted.finish
  · intro other hother
    exact some.inj (hpending.symm.trans hother) ▸ hstyle

theorem replaceAndUnmark_kept (range : Nat × Nat) (replacement : List Char) :
    Kept (buffer.replaceAndUnmark range replacement).2 := by
  unfold replaceAndUnmark
  split
  · exact h
  · rename_i heq
    exact (replaceRange_kept h heq).1

theorem Kept.select {selection : Nat × Nat} (hselection : InText buffer.text selection)
    (reversed : Bool) {pending : Option InlineStyle}
    (hpending : ∀ style, pending = some style → style.Valid) :
    Kept { buffer with selection, selectionReversed := reversed, pendingStyle := pending } :=
  { h with selection := hselection, pending := hpending }

theorem toggleInline_kept (flag : InlineFlag) : Kept (buffer.toggleInline flag).2 := by
  unfold toggleInline
  split
  · refine { h with pending := fun style heq => ?_ }
    exact some.inj heq ▸ (h.styleForInsertion _).withFlag _ _
  dsimp only
  split
  case isFalse => exact h
  rename_i hfits
  refine { h with fits := hfits, pending := nofun, styled := ?_ }
  obtain ⟨styled, hvalid, hrender⟩ := h.styled
  obtain ⟨hstyled, hruns⟩ := Prod.mk.inj hrender
  obtain ⟨before, middle, after, htext, hstart, hfinish⟩ :=
    h.selection.start.split h.selection.finish h.selection.ordered
  obtain ⟨x, y, z, rfl, rfl, rfl, rfl⟩ := Styled.split_text (hstyled.symm.trans htext)
  rw [← Styled.text_append] at hfinish
  generalize (!buffer.inlineActive flag) = enabled
  refine ⟨x ++ y.restyled (·.withFlag flag enabled) ++ z, ?_, ?_⟩
  · obtain ⟨hxy, hz⟩ := forall_mem_append.mp hvalid
    obtain ⟨hx, hy⟩ := forall_mem_append.mp hxy
    refine forall_mem_append.mpr ⟨forall_mem_append.mpr ⟨hx, ?_⟩, hz⟩
    intro entry hentry
    obtain ⟨other, hother, rfl⟩ := mem_map.mp hentry
    exact (hy other hother).withFlag _ _
  · have htext' : (x ++ y.restyled (·.withFlag flag enabled) ++ z).text = buffer.text := by
      rw [Styled.text_append, Styled.text_append, Styled.text_restyled, htext]
    rw [hruns, ← hstart, ← hfinish, Styled.restyle_paint, ← htext', Styled.normalizeRuns_paint]
    rfl

theorem selectedLines_le : buffer.selectedLines.1 ≤ buffer.selectedLines.2 ∧
      buffer.selectedLines.2 ≤ buffer.blocks.length := by
  unfold selectedLines
  refine ⟨?_, ?_⟩
  · apply Nat.le_succ_of_le
    apply lineAtOffset_mono
    split
    · exact le_previousCharBoundary h.selection.start h.selection.finish ‹_›
    · exact h.selection.ordered
  · rw [h.blocks]
    exact Nat.succ_le_succ (lineAtOffset_le ..)

theorem blocksOf_selectedLines : ∃ kinds, buffer.blocksOf buffer.selectedLines = some kinds :=
  ⟨_, if_pos (selectedLines_le h)⟩

theorem withBlock_kept (lines : Nat × Nat) (kind : BlockKind) :
    Kept (buffer.withBlock lines kind).2 := by
  unfold withBlock
  dsimp only
  split
  · rename_i hfits
    exact { h with fits := hfits }
  · exact h

theorem Kept.setParagraph (line : Nat) :
    Kept { buffer with blocks := buffer.blocks.set line .paragraph } := by
  refine { h with fits := markdownFitsWithLimit_iff.mpr ⟨?_, ?_⟩ }
  · rw [length_set, h.blocks]
  · exact (byteLength_markdownOf_set ..).trans (markdownFitsWithLimit_iff.mp h.fits).2

theorem insertNewline_kept : ∃ result, buffer.insertNewline = some result ∧ Kept result.2 := by
  have hline := lineAtOffset_le buffer.text buffer.cursorOffset
  have hranges := length_lineRanges buffer.text
  have hblocks := h.blocks
  obtain ⟨⟨lineStart, lineEnd⟩, hrange⟩ :
      ∃ range, (lineRanges buffer.text)[lineAtOffset buffer.text buffer.cursorOffset]? = some range :=
    ⟨_, getElem?_eq_getElem (by omega)⟩
  obtain ⟨kind, hkind⟩ :
      ∃ kind, buffer.blocks[lineAtOffset buffer.text buffer.cursorOffset]? = some kind :=
    ⟨_, getElem?_eq_getElem (by omega)⟩
  unfold insertNewline
  dsimp only
  rw [hrange, hkind]
  simp only [bind_eq_bind, bind_some]
  split
  · split
    · refine ⟨_, rfl, { h.setParagraph _ with pending := fun style heq => ?_ }⟩
      exact some.inj heq ▸ .default
    · exact ⟨_, rfl, h⟩
  split
  · exact ⟨_, rfl, h⟩
  · rename_i heq
    have hreplaced := (replaceRange_kept h heq).1
    refine ⟨_, rfl, ?_⟩
    split
    · exact hreplaced.setParagraph _
    · exact hreplaced

end

/-- The selection of a composition has its ends in order, as far as they are in the new text. -/
def SelectsForward (_ : RichTextBuffer) : Operation → Prop
  | .replaceAndMarkUtf16 _ newText (some selection) =>
    offsetFromUtf16 (normalizeNewlines newText) selection.1 ≤
      offsetFromUtf16 (normalizeNewlines newText) selection.2
  | _ => True

theorem replaceAndMarkUtf16_kept (h : Kept buffer) (range : Option (Nat × Nat))
    (newText : List Char) (newSelection : Option (Nat × Nat))
    (hforward : SelectsForward buffer (.replaceAndMarkUtf16 range newText newSelection)) :
    Kept (buffer.replaceAndMarkUtf16 range newText newSelection).2 := by
  unfold replaceAndMarkUtf16
  split
  · exact h
  rename_i inserted replaced heq
  obtain ⟨hkept, before, after, htext, rfl⟩ := replaceRange_kept h heq
  have hin : ∀ offset, Boundary (normalizeNewlines newText) offset →
      Boundary replaced.text (byteLength before + offset) :=
    fun offset hoffset => htext ▸ hoffset.append after
  have hmarked : Kept { replaced with
      markedRange := if isEmptyRange
          (byteLength before, byteLength before + byteLength (normalizeNewlines newText)) then none
        else some (byteLength before, byteLength before + byteLength (normalizeNewlines newText))
      } := by
    refine { hkept with marked := fun range hrange => ?_ }
    split at hrange
    · cases hrange
    · cases hrange
      exact ⟨Nat.le_add_right .., hin 0 (.zero _), hin _ (.end _)⟩
  dsimp only
  split
  · exact hmarked
  · refine { hmarked with selection := ?_ }
    rw [htext, slice_append]
    rw [← htext]
    exact ⟨Nat.add_le_add_left hforward _, hin _ (offsetFromUtf16_boundary ..),
      hin _ (offsetFromUtf16_boundary ..)⟩

/-- An operation can be performed, and keeps the invariant. -/
theorem perform_kept {operation : Operation} (h : Kept buffer)
    (hforward : SelectsForward buffer operation) :
    ∃ result, buffer.perform operation = some result ∧ Kept result.2 := by
  cases operation with
  | setSelection range reversed =>
    refine ⟨_, rfl, h.select (.of_ends ?_ ?_) _ nofun⟩
    · exact floorCharBoundary_boundary ..
    · exact floorCharBoundary_boundary ..
  | moveTo offset =>
    exact ⟨_, rfl, h.select (.caret (floorCharBoundary_boundary ..)) _ nofun⟩
  | selectTo offset =>
    refine ⟨_, rfl, h.select (.of_ends ?_ (floorCharBoundary_boundary ..)) _ nofun⟩
    split
    · exact h.selection.finish
    · exact h.selection.start
  | selectAll => exact ⟨_, rfl, h.select ⟨Nat.zero_le _, .zero _, .end _⟩ _ nofun⟩
  | clearMarkedRange => exact ⟨_, rfl, { h with marked := nofun }⟩
  | replaceSelection replacement | backspace | deleteForward =>
    exact ⟨_, rfl, replaceAndUnmark_kept h ..⟩
  | toggleInline flag => exact ⟨_, rfl, toggleInline_kept h flag⟩
  | toggleBlock target =>
    obtain ⟨kinds, hkinds⟩ := blocksOf_selectedLines h
    refine ⟨_, ?_, withBlock_kept h buffer.selectedLines
      (if !kinds.all (· = target) then target else .paragraph)⟩
    rw [perform, toggleBlock, hkinds]
    rfl
  | setBlock target =>
    obtain ⟨kinds, hkinds⟩ := blocksOf_selectedLines h
    refine ⟨_, ?_, withBlock_kept h buffer.selectedLines target⟩
    rw [perform, setBlock, hkinds]
    rfl
  | insertNewline => exact insertNewline_kept h
  | replaceTextUtf16 range newText => exact ⟨_, rfl, replaceAndUnmark_kept h ..⟩
  | replaceAndMarkUtf16 range newText newSelection =>
    exact ⟨_, rfl, replaceAndMarkUtf16_kept h range newText newSelection hforward⟩

theorem parseMarkdown_kept {markdown : List Char} {maxMarkdownBytes : Nat}
    (hfits : (parseMarkdown markdown maxMarkdownBytes).fitsPersistenceLimit) :
    Kept (parseMarkdown markdown maxMarkdownBytes) := by
  obtain ⟨styled, blocks, hwithin, heq⟩ :=
    Styled.parseLines_render (splitLines (normalizeNewlines markdown))
  have htext : (parseMarkdown markdown maxMarkdownBytes).text = styled.text := by
    rw [parseMarkdown, heq]
    rfl
  have hruns : (parseMarkdown markdown maxMarkdownBytes).runs = paint styled.items := by
    rw [parseMarkdown, heq]
    exact styled.normalizeRuns_paint
  refine ⟨⟨styled, fun entry hentry => (hwithin entry hentry).2, ?_⟩, ?_, hfits,
    .caret (.end _), nofun, nofun⟩
  · rw [htext, hruns]
    rfl
  · rw [htext]
    intro hreturn
    obtain ⟨entry, hentry, hcharacter⟩ := mem_map.mp hreturn
    rcases mem_cons.mp (hwithin entry hentry).1 with hbreak | hmem
    · rw [hcharacter] at hbreak
      cases hbreak
    · obtain ⟨line, hline, hmem⟩ := mem_flatten.mp hmem
      exact not_mem_normalizeNewlines markdown
        (hcharacter ▸ Styled.mem_splitLines _ line hline _ hmem)

/-- The buffers that the constructors return. -/
inductive Constructed : RichTextBuffer → Prop
  | withMaxMarkdownBytes (maxMarkdownBytes : Nat) :
    Constructed (withMaxMarkdownBytes maxMarkdownBytes)
  | tryFromMarkdownWithLimit {markdown : List Char} {maxMarkdownBytes : Nat}
    {buffer : RichTextBuffer} (h : tryFromMarkdownWithLimit markdown maxMarkdownBytes = some buffer) :
    Constructed buffer

theorem Constructed.kept (h : Constructed buffer) : Kept buffer := by
  cases h with
  | withMaxMarkdownBytes maxMarkdownBytes =>
    apply parseMarkdown_kept
    exact markdownFitsWithLimit_iff.mpr ⟨rfl, Nat.zero_le _⟩
  | @tryFromMarkdownWithLimit markdown maxMarkdownBytes _ h =>
    unfold RichTextBuffer.tryFromMarkdownWithLimit at h
    split at h
    · cases h
    dsimp only at h
    split at h
    · cases h
      exact parseMarkdown_kept ‹_›
    · cases h

/-- A run of operations does not panic and ends in a buffer whose representation is sound. -/
theorem edits_sound {start : RichTextBuffer} {operations : List Operation}
    (hstart : Constructed start) (hforward : Along step SelectsForward start operations) :
    ∃ buffer, run step start operations = some buffer ∧ Sound buffer := by
  have hstep : ∀ buffer operation, Kept buffer → SelectsForward buffer operation →
      ∃ next, step buffer operation = some next ∧ Kept next := by
    intro buffer operation hkept hforward
    obtain ⟨result, hperform, hresult⟩ := perform_kept hkept hforward
    exact ⟨result.2, by rw [RichTextBuffer.step, hperform]; rfl, hresult⟩
  obtain ⟨buffer, hrun, hkept⟩ := run_succeeds hstep hstart.kept hforward
  exact ⟨buffer, hrun, hkept.sound⟩

instance decidableSelectsForward (buffer : RichTextBuffer) :
    ∀ operation, Decidable (SelectsForward buffer operation)
  | .replaceAndMarkUtf16 _ _ (some _) => Nat.decLe _ _
  | .replaceAndMarkUtf16 _ _ none | .setSelection .. | .moveTo _ | .selectTo _ | .selectAll
  | .clearMarkedRange | .replaceSelection _ | .backspace | .deleteForward | .toggleInline _
  | .toggleBlock _ | .setBlock _ | .insertNewline | .replaceTextUtf16 .. => isTrue trivial

/-- A composition that selects its two characters, a list item, and bold text on its next line. -/
theorem edits_sound_list : ∃ buffer, run step (withMaxMarkdownBytes 64)
      [.replaceAndMarkUtf16 none ['a', 'b'] (some (0, 2)), .toggleBlock .bulleted, .selectAll,
        .moveTo 2, .insertNewline, .toggleInline .bold, .replaceSelection ['c']] = some buffer ∧
      Sound buffer :=
  edits_sound (.withMaxMarkdownBytes 64) (by decide +kernel)

/-- A composition whose selection is given from its end to its start leaves a selection that is not
ordered. -/
theorem replaceAndMarkUtf16_backward :
    Constructed (withMaxMarkdownBytes 64) ∧ ∃ buffer, run step (withMaxMarkdownBytes 64)
      [.replaceAndMarkUtf16 none ['a', 'b'] (some (2, 0))] = some buffer ∧ ¬ Sound buffer := by
  obtain ⟨buffer, hrun⟩ : ∃ buffer, run step (withMaxMarkdownBytes 64)
      [.replaceAndMarkUtf16 none ['a', 'b'] (some (2, 0))] = some buffer :=
    isSome_iff_exists.mp (by decide +kernel)
  have hselection : (run step (withMaxMarkdownBytes 64)
      [.replaceAndMarkUtf16 none ['a', 'b'] (some (2, 0))]).map (·.selection) = some (2, 0) := by
    decide +kernel
  refine ⟨.withMaxMarkdownBytes 64, buffer, hrun, fun hsound => ?_⟩
  rw [hrun] at hselection
  have heq : buffer.selection = (2, 0) := some.inj hselection
  have hordered := hsound.selection.ordered
  rw [heq] at hordered
  exact absurd hordered (by decide)

end KeyReader.Editor
