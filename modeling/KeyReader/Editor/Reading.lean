import KeyReader.Editor.Backticks
import KeyReader.Editor.Rendering

/-! What the reader makes of Markdown: lines of styled text in which code lies between its fences. -/

namespace KeyReader.Editor

open Utf8 List Option

variable {style : InlineStyle} {marker source : List Char}

namespace Styled

/-- A backtick in code is between characters of the same code. -/
def Fenced (styled : Styled) : Prop :=
  ∀ before after style, styled = before ++ (backtick, style) :: after → style.code = true →
    (∃ entry, before.getLast? = some entry ∧ entry.2 = style) ∧
      ∃ entry, after.head? = some entry ∧ entry.2 = style

theorem fenced_nil : Fenced [] := by
  intro before after style h
  exact absurd h.symm (append_ne_nil_of_right_ne_nil _ (cons_ne_nil _ _))

theorem Fenced.append {styled more : Styled} (h : styled.Fenced) (hmore : more.Fenced) :
    (styled ++ more).Fenced := by
  intro before after style heq hcode
  rcases append_eq_append_iff.mp heq with ⟨between, rfl, hrest⟩ | ⟨between, rfl, hrest⟩
  · obtain ⟨⟨entry, hlast, hentry⟩, hnext⟩ := hmore between after style hrest hcode
    refine ⟨⟨entry, ?_, hentry⟩, hnext⟩
    rw [getLast?_append, hlast]
    rfl
  · rcases cons_eq_append_iff.mp hrest with ⟨rfl, rfl⟩ | ⟨rest, rfl, rfl⟩
    · obtain ⟨⟨entry, hlast, -⟩, -⟩ := hmore [] after style rfl hcode
      cases hlast
    · obtain ⟨hprevious, entry, hhead, hentry⟩ := h before rest style rfl hcode
      refine ⟨hprevious, entry, ?_, hentry⟩
      rw [head?_append, hhead]
      rfl

theorem fenced_uniform {piece : List Char}
    (h : style.code = true → piece.head? ≠ some backtick ∧ piece.getLast? ≠ some backtick) :
    (uniform piece style).Fenced := by
  intro before after other heq hcode
  obtain ⟨first, rest, rfl, rfl, hrest⟩ := map_eq_append_iff.mp heq
  obtain ⟨character, last, rfl, hentry, rfl⟩ := map_eq_cons_iff.mp hrest
  cases hentry
  obtain ⟨hhead, hlast⟩ := h hcode
  constructor
  · obtain ⟨start, previous, rfl⟩ := (eq_nil_or_concat' first).resolve_left
      (fun hnil => hhead (by rw [hnil]; rfl))
    exact ⟨(previous, style), by rw [map_append, map_singleton, getLast?_concat], rfl⟩
  · cases last with
    | nil => exact absurd getLast?_concat hlast
    | cons next last => exact ⟨(next, style), rfl, rfl⟩

theorem mem_unescapeInline (source : List Char) :
    ∀ character ∈ unescapeInline source, character ∈ source := by
  induction source using unescapeInline.induct with
  | case1 | case2 character => exact fun _ h => h
  | case3 next source ih =>
    intro character hmem
    rw [unescapeInline, if_pos rfl] at hmem
    rcases mem_cons.mp hmem with rfl | hmem
    · exact mem_cons_of_mem _ mem_cons_self
    · exact mem_cons_of_mem _ (mem_cons_of_mem _ (ih character hmem))
  | case4 first next source hfirst ih =>
    intro character hmem
    rw [unescapeInline, if_neg hfirst] at hmem
    rcases mem_cons.mp hmem with rfl | hmem
    · exact mem_cons_self
    · exact mem_cons_of_mem _ (ih character hmem)

theorem leadingMarker_valid (h : leadingMarker source = some (marker, style)) : style.Valid := by
  unfold leadingMarker at h
  split at h
  · obtain ⟨-, rfl⟩ := Prod.mk.inj (some.inj h)
    exact nofun
  split at h
  · obtain ⟨-, rfl⟩ := Prod.mk.inj (some.inj h)
    exact nofun
  split at h
  · obtain ⟨-, rfl⟩ := Prod.mk.inj (some.inj h)
    exact nofun
  · cases h

end Styled

theorem findUnescapedMarker_found {offset found : Nat}
    (h : findUnescapedMarker marker source offset = some found) :
    ∃ before after, source = before ++ (marker ++ after) ∧ found = offset + byteLength before := by
  induction source, offset using findUnescapedMarker.induct marker with
  | case1 offset | case2 offset => cases h
  | case3 character offset hslash hmarker =>
    rw [findUnescapedMarker, if_pos hmarker] at h
    · obtain ⟨after, hafter⟩ := isPrefixOf_iff_prefix.mp hmarker
      exact ⟨[], after, hafter.symm, (some.inj h).symm⟩
    · exact hslash
  | case4 character offset hslash hmarker =>
    rw [findUnescapedMarker, if_neg hmarker] at h
    · cases h
    · exact hslash
  | case5 next source offset ih =>
    rw [findUnescapedMarker, if_pos rfl] at h
    obtain ⟨before, after, rfl, rfl⟩ := ih h
    exact ⟨'\\' :: next :: before, after, rfl, by
      rw [byteLength_cons, byteLength_cons, show ('\\' : Char).utf8Size = 1 from rfl]
      omega⟩
  | case6 character next source offset hslash hmarker =>
    rw [findUnescapedMarker, if_neg hslash, if_pos hmarker] at h
    obtain ⟨after, hafter⟩ := isPrefixOf_iff_prefix.mp hmarker
    exact ⟨[], after, hafter.symm, (some.inj h).symm⟩
  | case7 character next source offset hslash hmarker ih =>
    rw [findUnescapedMarker, if_neg hslash, if_neg hmarker] at h
    obtain ⟨before, after, hsource, rfl⟩ := ih h
    exact ⟨character :: before, after, by rw [hsource, cons_append], by
      rw [byteLength_cons, Nat.add_assoc]⟩

theorem leadingMarker_prefix (h : leadingMarker source = some (marker, style)) :
    marker <+: source ∧ marker ≠ [] ∧ byteLength marker = marker.length ∧ style.code = false := by
  unfold leadingMarker at h
  split at h
  · cases h
    exact ⟨ isPrefixOf_iff_prefix.mp ‹_›, cons_ne_nil _ _, rfl, rfl⟩
  split at h
  · cases h
    exact ⟨ isPrefixOf_iff_prefix.mp ‹_›, cons_ne_nil _ _, rfl, rfl⟩
  split at h
  · cases h
    exact ⟨ isPrefixOf_iff_prefix.mp ‹_›, cons_ne_nil _ _, rfl, rfl⟩
  · cases h

theorem opening_fence (rest : List Char) : ∃ count content,
    backtick :: rest = List.replicate count backtick ++ content ∧
      ((backtick :: rest).takeWhile (· = backtick)) = List.replicate count backtick ∧
      content.head? ≠ some backtick := by
  refine ⟨((backtick :: rest).takeWhile (· = backtick)).length,
    (backtick :: rest).dropWhile (· = backtick), ?_, ?_, ?_⟩
  · rw [← eq_replicate_of_mem (a := backtick), takeWhile_append_dropWhile]
    exact fun character hmem => of_decide_eq_true (all_eq_true.mp all_takeWhile character hmem)
  · exact eq_replicate_of_mem fun character hmem =>
      of_decide_eq_true (all_eq_true.mp all_takeWhile character hmem)
  · intro hhead
    have hnot := head?_dropWhile_not (fun character => decide (character = backtick))
      (backtick :: rest)
    rw [hhead] at hnot
    simp at hnot

/-- What a turn of the loop reads: a piece, its style, and where the next turn starts. -/
structure Turn where
  piece : List Char
  style : InlineStyle
  rest : List Char
  index : Nat
  backticks : BacktickRunIndex

/-- The turn of the loop of `parse_inline` at a character. -/
def inlineTurn (character : Char) (rest : List Char) (index : Nat) (backticks : BacktickRunIndex) :
    Turn :=
  if character = '\\' then
    match rest with
    | [] => ⟨['\\'], .default, [], index + 1, backticks⟩
    | next :: rest => ⟨[next], .default, rest, index + 1 + next.utf8Size, backticks⟩
  else if character = backtick then
    let fence := ((character :: rest).takeWhile (· = backtick)).length
    let content := (character :: rest).drop fence
    let (found, backticks) := backticks.nextRun fence (index + fence)
    match found with
    | some finish =>
      let length := finish - (index + fence)
      ⟨takeBytes length content, ⟨false, false, true⟩, dropBytes (length + fence) content,
        finish + fence, backticks⟩
    | none => ⟨(character :: rest).take fence, .default, content, index + fence, backticks⟩
  else
    let found := (leadingMarker (character :: rest)).bind fun (marker, style) =>
      (findUnescapedMarker marker ((character :: rest).drop marker.length) 0).map
        fun length => (marker, style, length)
    match found with
    | some (marker, style, length) =>
      let content := (character :: rest).drop marker.length
      ⟨unescapeInline (takeBytes length content), style, dropBytes (length + marker.length) content,
        index + marker.length + length + marker.length, backticks⟩
    | none => ⟨[character], .default, rest, index + character.utf8Size, backticks⟩

theorem parseInlineFrom_turn (turns : Nat) (character : Char) (rest : List Char) (index : Nat)
    (backticks : BacktickRunIndex) (state : List Char × List StyleRun) :
    parseInlineFrom (turns + 1) (character :: rest) index backticks state =
      let turn := inlineTurn character rest index backticks
      parseInlineFrom turns turn.rest turn.index turn.backticks
        (appendPiece turn.piece turn.style state) := by
  rw [parseInlineFrom.eq_def]
  unfold inlineTurn
  dsimp only
  split
  · cases rest with
    | nil => cases turns <;> rfl
    | cons next rest => rfl
  split
  · generalize backticks.nextRun _ _ = run
    obtain ⟨found, later⟩ := run
    cases found <;> rfl
  · generalize (leadingMarker _).bind _ = found
    cases found <;> rfl

/-- A turn goes on by at least a character, reads a piece from what it goes over, and leaves the
index of backticks right. -/
structure Turn.Reads (consumed source : List Char) (turn : Turn) : Prop where
  read : ∃ read, source = read ++ turn.rest ∧ read ≠ [] ∧
    turn.index = byteLength consumed + byteLength read ∧ ∀ character ∈ turn.piece, character ∈ read
  valid : turn.style.Valid
  closed : turn.style.code = true →
    turn.piece.head? ≠ some backtick ∧ turn.piece.getLast? ≠ some backtick
  ahead : Ahead turn.backticks (consumed ++ source) turn.index

theorem inlineTurn_reads {consumed rest : List Char} {character : Char}
    {backticks : BacktickRunIndex}
    (hahead : Ahead backticks (consumed ++ character :: rest) (byteLength consumed)) :
    (inlineTurn character rest (byteLength consumed) backticks).Reads consumed
      (character :: rest) := by
  unfold inlineTurn
  split
  · rename_i hslash
    subst hslash
    cases rest with
    | nil =>
      exact ⟨⟨['\\'], rfl, cons_ne_nil _ _, rfl, fun _ h => h⟩, .default, nofun,
        hahead.mono (Nat.le_add_right ..)⟩
    | cons next rest =>
      refine ⟨⟨['\\', next], rfl, cons_ne_nil _ _, ?_, fun _ h => mem_cons_of_mem _ h⟩, .default,
        nofun, hahead.mono (by dsimp only; omega)⟩
      rw [byteLength_cons, byteLength_cons, byteLength_nil,
        show ('\\' : Char).utf8Size = 1 from rfl]
      dsimp only
      omega
  split
  · rename_i hbacktick
    subst hbacktick
    obtain ⟨count, content, hsource, hopening, hhead⟩ := opening_fence rest
    have hpos : 0 < count := by
      rw [← length_replicate (n := count) (a := backtick), ← hopening, takeWhile_cons_of_pos (by simp)]
      exact Nat.succ_pos _
    have hwidth : byteLength (List.replicate count backtick) = count :=
      byteLength_replicate (by decide) count
    have hfence : List.replicate count backtick ≠ [] := by
      rw [ne_eq, replicate_eq_nil_iff]
      omega
    dsimp only
    rw [hopening, length_replicate, hsource, drop_left' length_replicate]
    rw [hsource] at hahead
    obtain ⟨hfound, hnext⟩ := hahead.nextRun count (Nat.le_add_right (byteLength consumed) count)
    split
    · rename_i finish hfinish
      rw [hfinish] at hfound
      obtain ⟨hle, start, after, hfull, rfl, hstart⟩ := fenceStarts_found hfound.symm
      -- the code is what is between the two fences
      obtain ⟨piece, rfl, rfl⟩ : ∃ piece,
          start = consumed ++ List.replicate count backtick ++ piece ∧
            content = piece ++ (List.replicate count backtick ++ after) := by
        rw [← append_assoc] at hfull
        rcases append_eq_append_iff.mp hfull with ⟨piece, hpiece, hcontent⟩ |
          ⟨piece, hpiece, hcontent⟩
        · exact ⟨piece, hpiece, hcontent⟩
        · have hlength := congrArg byteLength hpiece
          rw [byteLength_append, byteLength_append, hwidth] at hlength
          obtain rfl : piece = [] := by
            cases piece with
            | nil => rfl
            | cons first piece =>
              have hpos := first.utf8Size_pos
              rw [byteLength_cons] at hlength
              omega
          rw [append_nil] at hpiece
          exact ⟨[], by rw [append_nil, hpiece], hcontent.symm⟩
      have hlength : byteLength (consumed ++ List.replicate count backtick ++ piece) =
          byteLength consumed + count + byteLength piece := by
        rw [byteLength_append, byteLength_append, hwidth]
      have hdrop : dropBytes (byteLength piece + count)
          (piece ++ (List.replicate count backtick ++ after)) = after := by
        have hboth := dropBytes_byteLength (piece ++ List.replicate count backtick) after
        rwa [byteLength_append, hwidth, append_assoc] at hboth
      rw [hlength, Nat.add_sub_cancel_left, hdrop, takeBytes_byteLength]
      refine ⟨⟨List.replicate count backtick ++ piece ++ List.replicate count backtick, ?_, ?_, ?_,
        ?_⟩, fun _ => ⟨nofun, nofun⟩, fun _ => ⟨?_, ?_⟩, hnext.mono (by dsimp only; omega)⟩
      · simp only [append_assoc]
      · exact append_ne_nil_of_right_ne_nil _ hfence
      · rw [byteLength_append, byteLength_append, hwidth]
        dsimp only
        omega
      · exact fun other hother => mem_append_left _ (mem_append_right _ hother)
      · intro hfirst
        rw [head?_append, hfirst] at hhead
        exact hhead rfl
      · intro hlast
        rw [getLast?_append, hlast] at hstart
        exact hstart rfl
    · rw [take_left' length_replicate]
      exact ⟨⟨_, rfl, hfence, by rw [hwidth], fun _ h => h⟩, .default, nofun, hnext⟩
  dsimp only
  split
  · rename_i marker style length hfound
    obtain ⟨⟨other, otherStyle⟩, hleading, hlength⟩ := bind_eq_some_iff.mp hfound
    obtain ⟨found, hmarker, heq⟩ := map_eq_some_iff.mp hlength
    obtain ⟨rfl, rfl, rfl⟩ : other = marker ∧ otherStyle = style ∧ found = length := by
      simpa using heq
    obtain ⟨⟨content, hsource⟩, hne, hwidth, hcode⟩ := leadingMarker_prefix hleading
    have hstyle := Styled.leadingMarker_valid hleading
    rw [← hsource] at hahead hmarker ⊢
    rw [drop_left] at hmarker ⊢
    obtain ⟨before, after, rfl, rfl⟩ := findUnescapedMarker_found hmarker
    have hdrop : dropBytes (byteLength before + other.length) (before ++ (other ++ after)) =
        after := by
      have hboth := dropBytes_byteLength (before ++ other) after
      rwa [byteLength_append, hwidth, append_assoc] at hboth
    rw [Nat.zero_add, hdrop, takeBytes_byteLength]
    refine ⟨⟨other ++ before ++ other, ?_, ?_, ?_, ?_⟩, hstyle,
      fun h => absurd (hcode.symm.trans h) Bool.false_ne_true,
      hahead.mono (by dsimp only; omega)⟩
    · simp only [append_assoc]
    · exact append_ne_nil_of_right_ne_nil _ hne
    · rw [byteLength_append, byteLength_append, hwidth]
      dsimp only
      omega
    · exact fun character hcharacter => mem_append_left _
        (mem_append_right _ (Styled.mem_unescapeInline _ character hcharacter))
  · exact ⟨⟨[character], rfl, cons_ne_nil _ _, rfl, fun _ h => h⟩, .default, nofun,
      hahead.mono (Nat.le_add_right ..)⟩

namespace Styled

/-- Reading appends characters of the source to a styled text. -/
theorem parseInlineFrom_render (turns : Nat) : ∀ source consumed backticks (styled : Styled),
      Ahead backticks (consumed ++ source) (byteLength consumed) →
      ∃ parsed : Styled, parsed.Within source ∧ parsed.Fenced ∧
        parseInlineFrom turns source (byteLength consumed) backticks styled.render =
          (styled ++ parsed).render := by
  have hnone : ∀ (source : List Char) (styled : Styled), ∃ parsed : Styled,
      parsed.Within source ∧ parsed.Fenced ∧ styled.render = (styled ++ parsed).render :=
    fun source styled =>
      ⟨[], forall_mem_nil _, fenced_nil, congrArg render (append_nil styled).symm⟩
  induction turns with
  | zero => exact fun source _ _ styled _ => hnone source styled
  | succ turns ih =>
    intro source consumed backticks styled hahead
    cases source with
    | nil => exact hnone [] styled
    | cons character rest =>
      have hreads := inlineTurn_reads hahead
      rw [parseInlineFrom_turn]
      generalize inlineTurn character rest (byteLength consumed) backticks = turn at hreads
      obtain ⟨⟨read, hsource, -, hindex, hmem⟩, hstyle, hclosed, hahead⟩ := hreads
      rw [hsource, ← append_assoc, hindex, ← byteLength_append] at hahead
      obtain ⟨parsed, hparsed, hfenced, heq⟩ :=
        ih turn.rest (consumed ++ read) turn.backticks (styled ++ uniform turn.piece turn.style) hahead
      refine ⟨uniform turn.piece turn.style ++ parsed,
        within_append.mpr ⟨within_uniform ?_ hstyle, ?_⟩, (fenced_uniform hclosed).append hfenced, ?_⟩
      · intro other hother
        rw [hsource]
        exact mem_append_left _ (hmem other hother)
      · rw [hsource]
        exact hparsed.mono fun other hother => mem_append_right _ hother
      · dsimp only
        rw [appendPiece_render, hindex, ← byteLength_append, heq, append_assoc]

theorem stripPrefix_eq_some {start line rest : List Char} :
    stripPrefix start line = some rest ↔ line = start ++ rest := by
  unfold stripPrefix
  split
  · rename_i hprefix
    obtain ⟨after, rfl⟩ := isPrefixOf_iff_prefix.mp hprefix
    rw [drop_left, Option.some.injEq, append_cancel_left_eq]
  · rename_i hprefix
    refine iff_of_false nofun fun heq => hprefix ?_
    exact isPrefixOf_iff_prefix.mpr ⟨rest, heq.symm⟩

theorem mem_parseBlockPrefix (line : List Char) :
    ∀ character ∈ (parseBlockPrefix line).2, character ∈ line := by
  have hstrip : ∀ start rest, stripPrefix start line = some rest →
      ∀ character ∈ rest, character ∈ line := by
    intro start rest h character hmem
    rw [stripPrefix_eq_some.mp h]
    exact mem_append_right _ hmem
  unfold parseBlockPrefix
  split
  · exact hstrip _ _ ‹_›
  split
  · exact hstrip _ _ ‹_›
  split
  · exact hstrip _ _ ‹_›
  split
  · exact hstrip _ _ ‹_›
  split
  · exact fun character hmem => mem_of_mem_drop hmem
  split
  · exact hstrip _ _ ‹_›
  · exact fun _ hmem => hmem

theorem parseLine_render (styled : Styled) (blocks : List BlockKind) (line : List Char) :
    ∃ parsed : Styled, parsed.Within line ∧ parsed.Fenced ∧ parseLine (styled.render, blocks) line =
        ((styled ++ parsed).render, blocks ++ [(parseBlockPrefix line).1]) := by
  obtain ⟨parsed, hparsed, hfenced, heq⟩ := parseInlineFrom_render
    (parseBlockPrefix line).2.length (parseBlockPrefix line).2 []
    (BacktickRunIndex.new (parseBlockPrefix line).2) styled (ahead_new _)
  exact ⟨parsed, hparsed.mono (mem_parseBlockPrefix line), hfenced, congrArg (·, _) heq⟩

/-- The styled text of the lines after the first one. -/
def laterLines (lines : List (BlockKind × Styled)) : Styled :=
  lines.flatMap fun line => ('\n', .default) :: line.2

theorem parseLaterLine_break (styled : Styled) (blocks : List BlockKind) (line : List Char) :
    parseLaterLine (styled.render, blocks) line =
      parseLine ((styled ++ uniform ['\n'] .default).render, blocks) line := by
  rw [← appendPiece_render]
  show parseLine ((_, pushStyleRun _ _ _ _), blocks) line =
    parseLine ((_, pushStyleRun _ _ (byteLength (styled.text ++ ['\n'])) _), blocks) line
  rw [byteLength_append]
  rfl

theorem parseLaterLines_render (lines : List (List Char)) (styled : Styled)
    (blocks : List BlockKind) : ∃ later : List (BlockKind × Styled),
      (∀ line ∈ later, ∃ source ∈ lines, line.2.Within source ∧ line.2.Fenced) ∧
      lines.foldl parseLaterLine (styled.render, blocks) =
        ((styled ++ laterLines later).render, blocks ++ later.map (·.1)) := by
  induction lines generalizing styled blocks with
  | nil =>
    refine ⟨[], nofun, ?_⟩
    rw [show laterLines [] = [] from rfl, append_nil, map_nil, append_nil]
    rfl
  | cons line lines ih =>
    obtain ⟨parsed, hparsed, hfenced, heq⟩ :=
      parseLine_render (styled ++ uniform ['\n'] .default) blocks line
    obtain ⟨later, hlater, hrest⟩ := ih (styled ++ uniform ['\n'] .default ++ parsed)
      (blocks ++ [(parseBlockPrefix line).1])
    refine ⟨((parseBlockPrefix line).1, parsed) :: later, ?_, ?_⟩
    · intro other hother
      rcases mem_cons.mp hother with rfl | hother
      · exact ⟨line, mem_cons_self, hparsed, hfenced⟩
      · obtain ⟨source, hsource, hother⟩ := hlater other hother
        exact ⟨source, mem_cons_of_mem _ hsource, hother⟩
    · rw [foldl_cons, parseLaterLine_break, heq, hrest]
      simp only [laterLines, uniform, flatMap_cons, map_cons, map_nil,
        append_assoc, cons_append, nil_append]

theorem parseLines_lines (line : List Char) (lines : List (List Char)) :
    ∃ (first : BlockKind × Styled) (later : List (BlockKind × Styled)), (∀ other ∈ first :: later,
        ∃ source ∈ line :: lines, other.2.Within source ∧ other.2.Fenced) ∧
      parseLines (line :: lines) =
        ((first.2 ++ laterLines later).render, first.1 :: later.map (·.1)) := by
  obtain ⟨parsed, hparsed, hfenced, heq⟩ := parseLine_render [] [] line
  obtain ⟨later, hlater, hrest⟩ := parseLaterLines_render lines parsed [(parseBlockPrefix line).1]
  refine ⟨((parseBlockPrefix line).1, parsed), later, ?_, ?_⟩
  · intro other hother
    rcases mem_cons.mp hother with rfl | hother
    · exact ⟨line, mem_cons_self, hparsed, hfenced⟩
    · obtain ⟨source, hsource, hother⟩ := hlater other hother
      exact ⟨source, mem_cons_of_mem _ hsource, hother⟩
  · show lines.foldl parseLaterLine (parseLine (render [], []) line) = _
    rw [heq]
    exact hrest

theorem parseLines_render (lines : List (List Char)) :
    ∃ (styled : Styled) (blocks : List BlockKind), styled.Within ('\n' :: lines.flatten) ∧
      parseLines lines = (styled.render, blocks) := by
  cases lines with
  | nil => exact ⟨[], [], forall_mem_nil _, rfl⟩
  | cons line lines =>
    obtain ⟨first, later, hlines, heq⟩ := parseLines_lines line lines
    refine ⟨_, _, ?_, heq⟩
    have hline : ∀ other ∈ first :: later, other.2.Within ('\n' :: (line :: lines).flatten) := by
      intro other hother
      obtain ⟨source, hsource, hwithin, -⟩ := hlines other hother
      exact hwithin.mono fun character hmem =>
        mem_cons_of_mem _ (mem_flatten_of_mem hsource hmem)
    refine within_append.mpr ⟨hline first mem_cons_self, fun entry hentry => ?_⟩
    obtain ⟨other, hother, hentry⟩ := mem_flatMap.mp hentry
    rcases mem_cons.mp hentry with rfl | hentry
    · exact ⟨mem_cons_self, .default⟩
    · exact hline other (mem_cons_of_mem _ hother) entry hentry

theorem mem_splitLines (text : List Char) : ∀ line ∈ splitLines text, ∀ character ∈ line,
    character ∈ text := by
  induction text with
  | nil =>
    intro line hline character hmem
    rw [mem_singleton.mp hline] at hmem
    exact hmem
  | cons first text ih =>
    intro line hline character hmem
    rw [splitLines] at hline
    split at hline
    · rcases mem_cons.mp hline with rfl | hline
      · cases hmem
      · exact mem_cons_of_mem _ (ih line hline character hmem)
    split at hline
    · rw [mem_singleton.mp hline] at hmem
      rw [mem_singleton.mp hmem]
      exact mem_cons_self
    · rename_i before lines hlines
      rw [hlines] at ih
      rcases mem_cons.mp hline with rfl | hline
      · rcases mem_cons.mp hmem with rfl | hmem
        · exact mem_cons_self
        · exact mem_cons_of_mem _ (ih before mem_cons_self character hmem)
      · exact mem_cons_of_mem _ (ih line (mem_cons_of_mem _ hline) character hmem)

end Styled

end KeyReader.Editor
