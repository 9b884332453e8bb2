import KeyReader.Editor.Reread

/-! Markdown that was read and written once is canonical: reading and writing it again does not
change it. -/

namespace KeyReader.Editor

open Utf8 List

variable {piece : List Char} {line : Styled} {character : Char}

namespace Styled

/-- A line whose pieces the reader finds again. -/
def Legible (line : Styled) : Prop := ∀ piece ∈ line.pieces, Closed piece

theorem uniform_eq_cons (hne : piece ≠ []) (style : InlineStyle) :
    ∃ character rest, piece = character :: rest ∧
      uniform piece style = (character, style) :: uniform rest style := by
  obtain ⟨character, rest, rfl⟩ := exists_cons_of_ne_nil hne
  exact ⟨character, rest, rfl, rfl⟩

/-- What the reader makes of a line is legible. -/
theorem Fenced.legible (h : line.Fenced) (hvalid : ∀ entry ∈ line, entry.2.Valid) :
    line.Legible := by
  rintro ⟨piece, style⟩ hpiece
  obtain ⟨before, after, hpieces⟩ := append_of_mem hpiece
  have hne := line.pieces_ne_nil _ hpiece
  have hline : line = before.flatMap (fun piece => uniform piece.1 piece.2) ++
      uniform piece style ++ after.flatMap (fun piece => uniform piece.1 piece.2) := by
    have hall := line.flatMap_pieces
    rw [hpieces, flatMap_append, flatMap_cons] at hall
    rw [← hall, append_assoc]
  have hchain := line.pieces_chain
  rw [hpieces] at hchain
  have hnonempty := line.pieces_ne_nil
  rw [hpieces] at hnonempty
  refine ⟨hne, ?_, fun hcode hhead => ?_, fun hcode hlast => ?_⟩
  · obtain ⟨first, rest, hcons, huniform⟩ := uniform_eq_cons hne style
    refine hvalid (first, style) ?_
    rw [hline, huniform]
    simp
  · -- a backtick at the start of the piece would follow a piece of the same style
    obtain ⟨first, rest, hcons, huniform⟩ := uniform_eq_cons hne style
    rw [hcons, head?_cons] at hhead
    cases hhead
    rw [huniform, append_assoc, cons_append] at hline
    obtain ⟨⟨entry, hentry, hsame⟩, -⟩ := h _ _ style hline hcode
    cases before using reverseRecOn with
    | nil => cases hentry
    | append_singleton before previous =>
      rw [append_assoc] at hchain
      have hother : previous.2 ≠ style := (isChain_cons_cons.mp (isChain_append.mp hchain).2.1).1
      have hprevious := hnonempty previous (by simp)
      rw [flatMap_append, flatMap_singleton, getLast?_append_of_ne_nil] at hentry
      · obtain ⟨character, -, rfl⟩ := mem_map.mp (mem_of_getLast? hentry)
        exact hother hsame
      · exact fun hnil => hprevious (map_eq_nil_iff.mp hnil)
  · obtain ⟨start, last, rfl⟩ := (eq_nil_or_concat' piece).resolve_left hne
    rw [getLast?_concat] at hlast
    cases hlast
    have huniform : uniform (start ++ [backtick]) style =
        uniform start style ++ [(backtick, style)] := map_append
    rw [huniform, ← append_assoc, append_assoc, singleton_append] at hline
    obtain ⟨-, entry, hentry, hsame⟩ := h _ _ style hline hcode
    cases after with
    | nil => cases hentry
    | cons next after =>
      have hother : style ≠ next.2 := (isChain_cons_cons.mp (isChain_append.mp hchain).2.1).1
      have hnext := hnonempty next (by simp)
      obtain ⟨first, rest, hcons, huniform'⟩ := uniform_eq_cons hnext next.2
      rw [flatMap_cons, huniform', cons_append, head?_cons] at hentry
      cases hentry
      exact hother hsame.symm

theorem encodeInline_default (piece : List Char) :
    encodeInline piece .default = escapeInline piece := by
  cases piece with
  | nil => rfl
  | cons character piece => exact append_nil _

theorem written_default (character : Char) (line : Styled) :
    written ((character, .default) :: line) =
      (if isEscaped character then ['\\', character] else [character]) ++ written line := by
  rw [written, written]
  rcases pieces_cons character .default line with ⟨piece, more, hpieces, heq⟩ | ⟨heq, -⟩
  · rw [heq, hpieces, flatMap_cons, flatMap_cons, encodeInline_default,
      encodeInline_default, escapeInline_cons, append_assoc]
  · rw [heq, flatMap_cons, encodeInline_default, escapeInline_cons, append_assoc]
    rfl

theorem Legible.tail (h : Legible ((character, .default) :: line)) : line.Legible := by
  have hnonempty := line.pieces_ne_nil
  rcases pieces_cons character .default line with ⟨piece, more, hpieces, heq⟩ | ⟨heq, -⟩
  · rw [Legible, heq] at h
    rw [hpieces] at hnonempty
    rw [Legible, hpieces]
    exact forall_mem_cons.mpr ⟨⟨hnonempty _ mem_cons_self, .default, nofun, nofun⟩,
      (forall_mem_cons.mp h).2⟩
  · rw [Legible, heq] at h
    exact (forall_mem_cons.mp h).2

theorem written_styled (character : Char) {style : InlineStyle} (hstyle : style ≠ .default)
    (line : Styled) : ∃ first rest, written ((character, style) :: line) = first :: rest ∧
      isEscaped first = true := by
  obtain ⟨piece, more, hpieces⟩ : ∃ piece more,
      pieces ((character, style) :: line) = (character :: piece, style) :: more := by
    rcases pieces_cons character style line with ⟨piece, more, -, heq⟩ | ⟨heq, -⟩
    · exact ⟨piece, more, heq⟩
    · exact ⟨[], line.pieces, heq⟩
  rw [written, hpieces, flatMap_cons]
  have hne : character :: piece ≠ [] := cons_ne_nil _ _
  cases hcode : style.code with
  | true =>
    rw [encodeInline_code hne hcode]
    exact ⟨backtick, _, rfl, rfl⟩
  | false =>
    have hmarker : style.marker ≠ [] := fun hnil => hstyle (InlineStyle.eq_default hcode hnil)
    obtain ⟨⟨marker, heq⟩, -⟩ := marker_eq hmarker
    rw [encodeInline_text hne hcode, heq]
    exact ⟨'*', _, rfl, rfl⟩

variable {start : List Char}

theorem written_prefix (hstart : ∀ character ∈ start, isEscaped character = false)
    {rest : List Char} (h : line.written = start ++ rest) :
    ∃ more : Styled, line = uniform start .default ++ more ∧ more.written = rest := by
  induction start generalizing line with
  | nil => exact ⟨line, rfl, h⟩
  | cons character start ih =>
    have hplain := hstart character mem_cons_self
    cases line with
    | nil => cases h
    | cons entry line =>
      obtain ⟨other, style⟩ := entry
      by_cases hstyle : style = .default
      · subst hstyle
        rw [written_default] at h
        split at h
        · obtain ⟨rfl, -⟩ := List.cons.inj h
          cases hplain
        · obtain ⟨hfirst, hrest⟩ := List.cons.inj h
          subst hfirst
          obtain ⟨more, hline, hmore⟩ := ih (forall_mem_cons.mp hstart).2 hrest
          exact ⟨more, by rw [hline]; rfl, hmore⟩
      · obtain ⟨first, tail, heq, hescaped⟩ := written_styled other hstyle line
        rw [heq] at h
        obtain ⟨rfl, -⟩ := List.cons.inj h
        rw [hplain] at hescaped
        cases hescaped

theorem Legible.drop (h : Legible (uniform start .default ++ line)) : line.Legible := by
  induction start with
  | nil => exact h
  | cons character start ih => exact ih h.tail

theorem pieces_uniform (hne : start ≠ []) (style : InlineStyle) (line : Styled) : ∃ piece more,
      pieces (uniform start style ++ line) = (start ++ piece, style) :: more := by
  induction start with
  | nil => exact absurd rfl hne
  | cons character start ih =>
    rcases pieces_cons character style (uniform start style ++ line) with
      ⟨piece, more, hpieces, heq⟩ | ⟨heq, hother⟩
    · cases start with
      | nil => exact ⟨piece, more, heq⟩
      | cons second start =>
        obtain ⟨rest, later, hrest⟩ := ih (cons_ne_nil _ _)
        rw [hrest] at hpieces
        obtain ⟨hfirst, rfl⟩ := List.cons.inj hpieces
        obtain ⟨rfl, -⟩ := Prod.mk.inj hfirst
        exact ⟨rest, later, heq⟩
    · cases start with
      | nil => exact ⟨[], _, heq⟩
      | cons second start =>
        obtain ⟨rest, later, hrest⟩ := ih (cons_ne_nil _ _)
        exact absurd rfl (hother _ (by rw [hrest]; rfl))

end Styled

theorem looksNumberedPrefix_eq_some {line : List Char} {length : Nat}
    (h : looksNumberedPrefix line = some length) : ∃ digits rest,
      line = digits ++ ('.' :: ' ' :: rest) ∧ digits ≠ [] ∧
      (∀ digit ∈ digits, isDigit digit = true) ∧ length = digits.length + 2 := by
  unfold looksNumberedPrefix at h
  dsimp only at h
  split at h
  case isFalse => cases h
  rename_i hnumbered
  obtain ⟨hpos, hdot⟩ := hnumbered
  have hall : ∀ digit ∈ line.takeWhile isDigit, isDigit digit = true := all_eq_true.mp all_takeWhile
  obtain ⟨after, hafter⟩ := takeWhile_prefix isDigit (l := line)
  generalize line.takeWhile isDigit = digits at hpos hdot h hall hafter
  subst hafter
  rw [drop_left] at hdot
  have hrest := take_append_drop 2 after
  rw [hdot] at hrest
  exact ⟨digits, after.drop 2, by rw [← hrest]; rfl, length_pos_iff.mp hpos, hall,
    (Option.some.inj h).symm⟩

theorem looksNumberedPrefix_digits {digits : List Char} (hne : digits ≠ [])
    (hdigits : ∀ digit ∈ digits, isDigit digit = true) (rest : List Char) :
    looksNumberedPrefix (digits ++ ('.' :: ' ' :: rest)) = some (digits.length + 2) := by
  have htake : (digits ++ ('.' :: ' ' :: rest)).takeWhile isDigit = digits := by
    rw [takeWhile_append_of_pos hdigits, takeWhile_cons_of_neg (by decide), append_nil]
  unfold looksNumberedPrefix
  rw [htake]
  dsimp only
  rw [drop_left]
  exact if_pos ⟨length_pos_iff.mpr hne, rfl⟩

theorem isDigit_plain (h : isDigit character = true) : isEscaped character = false := by
  refine Bool.eq_false_iff.mpr fun hescaped => ?_
  have hspecial : character = '\\' ∨ character = '*' ∨ character = backtick := by
    simpa [isEscaped, or_assoc] using hescaped
  rcases hspecial with rfl | rfl | rfl <;> revert h <;> decide

theorem parseBlockPrefix_blockPrefix {kind : BlockKind} (hkind : kind ≠ .paragraph)
    (source : List Char) : parseBlockPrefix (blockPrefix kind ++ source) = (kind, source) := by
  cases kind with
  | paragraph => exact absurd rfl hkind
  | _ => rfl

theorem blockPrefix_plain (kind : BlockKind) :
    ∀ character ∈ blockPrefix kind, isEscaped character = false := by
  have hall : (blockPrefix kind).all (fun character => !isEscaped character) = true := by
    cases kind <;> rfl
  exact fun character hmem => (Bool.not_eq_true' _).mp (all_eq_true.mp hall character hmem)

variable (source : List Char)

theorem parseBlockPrefix_backslash :
    parseBlockPrefix ('\\' :: source) = (.paragraph, '\\' :: source) := rfl

variable {first : BlockKind × Styled} {later : List (BlockKind × Styled)}

namespace Styled

theorem needsEscape_uniform (start : List Char) (line : Styled)
    (h : start = ['-', ' '] ∨ ∃ digits, digits ≠ [] ∧ (∀ digit ∈ digits, isDigit digit = true) ∧
      start = digits ++ ['.', ' ']) : needsEscape (uniform start .default ++ line) = true := by
  have hne : start ≠ [] := by
    rcases h with rfl | ⟨digits, -, -, rfl⟩
    · exact cons_ne_nil _ _
    · exact append_ne_nil_of_right_ne_nil _ (cons_ne_nil _ _)
  obtain ⟨piece, more, heq⟩ := pieces_uniform hne .default line
  rw [needsEscape, heq]
  dsimp only
  rw [decide_eq_true rfl, Bool.true_and, Bool.or_eq_true]
  rcases h with rfl | ⟨digits, hdigits, hall, rfl⟩
  · exact .inl ( isPrefixOf_iff_prefix.mpr (prefix_append ..))
  · refine .inr ?_
    rw [append_assoc, show (['.', ' '] : List Char) ++ piece = '.' :: ' ' :: piece from rfl,
      looksNumberedPrefix_digits hdigits hall]
    rfl

/-- A line without an escape is read as a block in which its Markdown is the same. -/
theorem parseBlockPrefix_written (h : line.Legible) (hescape : line.needsEscape = false) :
    ∃ (kind : BlockKind) (more : Styled),
      parseBlockPrefix line.written = (kind, more.written) ∧ more.Legible ∧
      writtenLine kind more = line.written ∧ ∀ entry ∈ more, entry ∈ line := by
  have hblock : ∀ kind rest, kind ≠ .paragraph →
      stripPrefix (blockPrefix kind) line.written = some rest →
      ∃ more : Styled, rest = more.written ∧ line = uniform (blockPrefix kind) .default ++ more ∧
        more.Legible ∧ writtenLine kind more = line.written ∧ ∀ entry ∈ more, entry ∈ line := by
    intro kind rest hkind hstrip
    have hwritten := stripPrefix_eq_some.mp hstrip
    obtain ⟨more, hline, rfl⟩ := written_prefix (blockPrefix_plain kind) hwritten
    refine ⟨more, rfl, hline, (hline ▸ h).drop, ?_, fun entry hentry => ?_⟩
    · rw [writtenLine, hwritten, decide_eq_false hkind, Bool.false_and, if_neg Bool.false_ne_true,
        append_nil]
    · rw [hline]
      exact mem_append_right _ hentry
  unfold parseBlockPrefix
  split
  · obtain ⟨more, rfl, -, hrest⟩ := hblock .heading3 _ (by decide) ‹_›
    exact ⟨.heading3, more, rfl, hrest⟩
  split
  · obtain ⟨more, rfl, -, hrest⟩ := hblock .heading2 _ (by decide) ‹_›
    exact ⟨.heading2, more, rfl, hrest⟩
  split
  · obtain ⟨more, rfl, -, hrest⟩ := hblock .heading1 _ (by decide) ‹_›
    exact ⟨.heading1, more, rfl, hrest⟩
  split
  · obtain ⟨more, rfl, hline, -⟩ := hblock .bulleted _ (by decide) ‹_›
    have hneeds := needsEscape_uniform (blockPrefix .bulleted) more (.inl rfl)
    rw [← hline, hescape] at hneeds
    cases hneeds
  split
  · rename_i hnumbered
    obtain ⟨digits, rest, hwritten, hdigits, hall, -⟩ := looksNumberedPrefix_eq_some hnumbered
    rw [show digits ++ '.' :: ' ' :: rest = digits ++ ['.', ' '] ++ rest by
      rw [append_assoc]; rfl] at hwritten
    have hplain : ∀ character ∈ digits ++ ['.', ' '], isEscaped character = false := by
      intro character hmem
      rcases mem_append.mp hmem with hdigit | hmark
      · exact isDigit_plain (hall character hdigit)
      · rcases mem_pair.mp hmark with rfl | rfl <;> rfl
    obtain ⟨more, hline, -⟩ := written_prefix hplain hwritten
    rw [hline, needsEscape_uniform _ more (.inr ⟨digits, hdigits, hall, rfl⟩)] at hescape
    cases hescape
  split
  · obtain ⟨more, rfl, -, hrest⟩ := hblock .quote _ (by decide) ‹_›
    exact ⟨.quote, more, rfl, hrest⟩
  · refine ⟨.paragraph, line, rfl, h, ?_, fun _ hentry => hentry⟩
    rw [writtenLine, hescape, Bool.and_false, if_neg Bool.false_ne_true]
    rfl

theorem needsEscape_first (h : line.needsEscape = true) :
    ∃ character piece more, line.pieces = (character :: piece, .default) :: more ∧
      isEscaped character = false := by
  unfold needsEscape at h
  split at h
  · cases h
  rename_i piece style more hpieces
  rw [Bool.and_eq_true, Bool.or_eq_true, decide_eq_true_eq] at h
  obtain ⟨rfl, hstart | hnumbered⟩ := h
  · obtain ⟨rest, rfl⟩ := isPrefixOf_iff_prefix.mp hstart
    exact ⟨'-', ' ' :: rest, more, hpieces, rfl⟩
  · obtain ⟨length, hlength⟩ := Option.isSome_iff_exists.mp hnumbered
    obtain ⟨digits, rest, rfl, hdigits, hall, -⟩ := looksNumberedPrefix_eq_some hlength
    obtain ⟨digit, digits, rfl⟩ := exists_cons_of_ne_nil hdigits
    exact ⟨digit, _, more, hpieces, isDigit_plain (hall digit mem_cons_self)⟩

/-- The escape at the start of a paragraph is not part of its text. -/
theorem parseInline_escaped (h : line.Legible) (hescape : line.needsEscape = true) (styled : Styled) :
    parseInline ('\\' :: line.written) styled.render = (styled ++ line).render := by
  obtain ⟨character, piece, more, hpieces, hplain⟩ := needsEscape_first hescape
  have hchain := line.pieces_chain
  rw [Legible, hpieces] at h
  rw [hpieces] at hchain
  have hwritten : line.written = character :: (escapeInline piece ++
      more.flatMap fun piece => encodeInline piece.1 piece.2) := by
    rw [written, hpieces, flatMap_cons, encodeInline_default, escapeInline_cons, hplain,
      if_neg Bool.false_ne_true]
    rfl
  have hline : line = uniform [character] .default ++ uniform piece .default ++
      more.flatMap fun piece => uniform piece.1 piece.2 := by
    have hall := line.flatMap_pieces
    rw [hpieces, flatMap_cons] at hall
    exact hall.symm
  obtain ⟨left, hleft, hplainly⟩ := parseInlineFrom_plain piece
    (escapeInline piece ++ more.flatMap fun piece => encodeInline piece.1 piece.2).length.succ
    (more.flatMap fun piece => encodeInline piece.1 piece.2) (0 + 1 + character.utf8Size)
    (BacktickRunIndex.new ('\\' :: line.written)) (styled ++ uniform [character] .default)
    (Nat.le_succ _)
  have hindex : 0 + 1 + character.utf8Size + byteLength (escapeInline piece) =
      byteLength ('\\' :: character :: escapeInline piece) := by
    rw [byteLength_cons, byteLength_cons, show ('\\' : Char).utf8Size = 1 from rfl]
    omega
  have hrest := parseInlineFrom_pieces (forall_mem_cons.mp h).2 hchain.tail hleft
    (show Ahead (BacktickRunIndex.new ('\\' :: line.written))
      ('\\' :: character :: escapeInline piece ++
        more.flatMap fun piece => encodeInline piece.1 piece.2)
      (byteLength ('\\' :: character :: escapeInline piece)) by
        have hnew := ahead_new ('\\' :: line.written)
        rw [hwritten] at hnew ⊢
        exact hnew.mono (Nat.zero_le _))
    (styled ++ uniform [character] .default ++ uniform piece .default)
  rw [hindex] at hplainly
  have hturn : parseInline ('\\' :: line.written) styled.render = parseInlineFrom
      (escapeInline piece ++ more.flatMap fun piece => encodeInline piece.1 piece.2).length.succ
      (escapeInline piece ++ more.flatMap fun piece => encodeInline piece.1 piece.2)
      (0 + 1 + character.utf8Size) (BacktickRunIndex.new ('\\' :: line.written))
      (appendPiece [character] .default styled.render) := by
    rw [parseInline, hwritten, length_cons, parseInlineFrom, if_pos rfl, length_cons]
  rw [hturn, appendPiece_render, hplainly, hrest, hline]
  simp only [append_assoc]

/-- A line that can be written and read again. -/
structure Clean (line : Styled) : Prop where
  legible : line.Legible
  noBreak : '\n' ∉ line.text
  noReturn : '\r' ∉ line.text

theorem Clean.of_mem {more : Styled} (h : line.Clean) (hlegible : more.Legible)
    (hmem : ∀ entry ∈ more, entry ∈ line) : more.Clean := by
  have htext : ∀ character ∈ more.text, character ∈ line.text := by
    intro character hcharacter
    obtain ⟨entry, hentry, rfl⟩ := mem_map.mp hcharacter
    exact mem_map_of_mem (hmem entry hentry)
  exact ⟨hlegible, fun hbreak => h.noBreak (htext _ hbreak),
    fun hreturn => h.noReturn (htext _ hreturn)⟩

theorem parseLine_writtenLine (kind : BlockKind) (h : line.Clean) :
    ∃ (next : BlockKind) (more : Styled), more.Clean ∧
      writtenLine next more = writtenLine kind line ∧
      ∀ (styled : Styled) (blocks : List BlockKind),
        parseLine (styled.render, blocks) (writtenLine kind line) =
          ((styled ++ more).render, blocks ++ [next]) := by
  by_cases hkind : kind = .paragraph
  case neg =>
    refine ⟨kind, line, h, rfl, fun styled blocks => ?_⟩
    have hline : writtenLine kind line = blockPrefix kind ++ line.written := by
      rw [writtenLine, decide_eq_false hkind, Bool.false_and, if_neg Bool.false_ne_true, append_nil]
    rw [parseLine, hline, parseBlockPrefix_blockPrefix hkind]
    exact congrArg (·, _) (parseInline_written h.legible styled)
  subst hkind
  cases hescape : line.needsEscape with
  | true =>
    refine ⟨.paragraph, line, h, rfl, fun styled blocks => ?_⟩
    have hline : writtenLine .paragraph line = '\\' :: line.written := by
      rw [writtenLine, hescape]
      rfl
    rw [parseLine, hline, parseBlockPrefix_backslash]
    exact congrArg (·, _) (parseInline_escaped h.legible hescape styled)
  | false =>
    obtain ⟨next, more, hprefix, hlegible, hwritten, hmem⟩ :=
      parseBlockPrefix_written h.legible hescape
    have hline : writtenLine .paragraph line = line.written := by
      rw [writtenLine, hescape]
      rfl
    refine ⟨next, more, h.of_mem hlegible hmem, hwritten.trans hline.symm, fun styled blocks => ?_⟩
    rw [parseLine, hline, hprefix]
    exact congrArg (·, _) (parseInline_written hlegible styled)

theorem parseLaterLines_written {lines : List (BlockKind × Styled)}
    (h : ∀ line ∈ lines, line.2.Clean) : ∃ later : List (BlockKind × Styled),
      (∀ line ∈ later, line.2.Clean) ∧ writtenLater later = writtenLater lines ∧
      ∀ (styled : Styled) (blocks : List BlockKind),
        (lines.map fun line => writtenLine line.1 line.2).foldl parseLaterLine
            (styled.render, blocks) =
          ((styled ++ laterLines later).render, blocks ++ later.map (·.1)) := by
  induction lines with
  | nil =>
    refine ⟨[], nofun, rfl, fun styled blocks => ?_⟩
    rw [show laterLines [] = [] from rfl, append_nil]
    exact congrArg (styled.render, ·) (append_nil blocks).symm
  | cons line lines ih =>
    obtain ⟨later, hlater, hwritten, hread⟩ := ih (forall_mem_cons.mp h).2
    obtain ⟨next, more, hmore, hline, hparse⟩ := parseLine_writtenLine line.1 (h line mem_cons_self)
    refine ⟨(next, more) :: later, ?_, ?_, fun styled blocks => ?_⟩
    · exact forall_mem_cons.mpr ⟨hmore, hlater⟩
    · rw [writtenLater, writtenLater, flatMap_cons, flatMap_cons, hline]
      exact congrArg _ hwritten
    · rw [map_cons, foldl_cons, parseLaterLine_break, hparse, hread]
      simp only [laterLines, uniform, flatMap_cons, map_cons, map_nil,
        append_assoc, cons_append, nil_append]

theorem parseLines_written (h : ∀ line ∈ first :: later, line.2.Clean) :
    ∃ (again : BlockKind × Styled) (rest : List (BlockKind × Styled)),
      (∀ line ∈ again :: rest, line.2.Clean) ∧
      writtenLine again.1 again.2 ++ writtenLater rest =
        writtenLine first.1 first.2 ++ writtenLater later ∧
      parseLines ((first :: later).map fun line => writtenLine line.1 line.2) =
        ((again.2 ++ laterLines rest).render, again.1 :: rest.map (·.1)) := by
  obtain ⟨hfirst, hlater⟩ := forall_mem_cons.mp h
  obtain ⟨next, more, hmore, hline, hparse⟩ := parseLine_writtenLine first.1 hfirst
  obtain ⟨rest, hrest, hwritten, hread⟩ := parseLaterLines_written hlater
  refine ⟨(next, more), rest, forall_mem_cons.mpr ⟨hmore, hrest⟩, ?_, ?_⟩
  · rw [hline, hwritten]
  · show (later.map _).foldl parseLaterLine (parseLine (render [], []) _) = _
    rw [hparse, hread]
    rfl

end Styled

theorem splitLines_line {line : List Char} (h : '\n' ∉ line) (rest : List Char) :
    splitLines (line ++ '\n' :: rest) = line :: splitLines rest := by
  induction line with
  | nil => rw [nil_append, splitLines, if_pos rfl]
  | cons character line ih =>
    rw [mem_cons, not_or] at h
    rw [cons_append, splitLines, if_neg (Ne.symm h.1), ih h.2]

theorem splitLines_last {line : List Char} (h : '\n' ∉ line) : splitLines line = [line] := by
  induction line with
  | nil => rfl
  | cons character line ih =>
    rw [mem_cons, not_or] at h
    rw [splitLines, if_neg (Ne.symm h.1), ih h.2]

theorem splitLines_noBreak (text : List Char) :
    splitLines text ≠ [] ∧ ∀ line ∈ splitLines text, '\n' ∉ line := by
  induction text with
  | nil =>
    refine ⟨cons_ne_nil _ _, fun line hline => ?_⟩
    rw [mem_singleton.mp hline]
    exact not_mem_nil
  | cons character text ih =>
    obtain ⟨hne, hlines⟩ := ih
    rw [splitLines]
    split
    · exact ⟨cons_ne_nil _ _, forall_mem_cons.mpr ⟨not_mem_nil, hlines⟩⟩
    · rename_i hother
      cases hsplit : splitLines text with
      | nil => exact absurd hsplit hne
      | cons line lines =>
        rw [hsplit] at hlines
        obtain ⟨hline, hrest⟩ := forall_mem_cons.mp hlines
        refine ⟨cons_ne_nil _ _, forall_mem_cons.mpr ⟨fun hmem => ?_, hrest⟩⟩
        rcases mem_cons.mp hmem with heq | hmem
        · exact hother heq.symm
        · exact hline hmem

theorem replaceCrLf_eq {text : List Char} (h : '\r' ∉ text) : replaceCrLf text = text := by
  induction text using replaceCrLf.induct with
  | case1 | case2 character => rfl
  | case3 first second text hpair ih =>
    obtain ⟨rfl, -⟩ := hpair
    exact absurd mem_cons_self h
  | case4 first second text hpair ih =>
    rw [replaceCrLf, if_neg hpair, ih fun hmem => h (mem_cons_of_mem _ hmem)]

theorem normalizeNewlines_eq {text : List Char} (h : '\r' ∉ text) :
    normalizeNewlines text = text := by
  rw [normalizeNewlines, replaceCrLf_eq h]
  refine (map_congr_left fun character hmem => ?_).trans (map_id text)
  refine if_neg fun heq => h ?_
  rwa [heq] at hmem

/-- The characters that the writer adds to a text. -/
def isMarkup (character : Char) : Bool :=
  character ∈ ['#', '-', '1', '.', '>', ' ', '\\', '*', backtick]

theorem mem_escapeInline (h : isMarkup character = false) (hmem : character ∈ escapeInline piece) :
    character ∈ piece := by
  obtain ⟨other, hother, hcharacter⟩ := mem_flatMap.mp hmem
  split at hcharacter
  · rcases mem_cons.mp hcharacter with rfl | hcharacter
    · cases h
    · exact mem_singleton.mp hcharacter ▸ hother
  · exact mem_singleton.mp hcharacter ▸ hother

theorem mem_encodeInline (h : isMarkup character = false) {style : InlineStyle}
    (hmem : character ∈ encodeInline piece style) : character ∈ piece := by
  unfold encodeInline at hmem
  split at hmem
  · cases hmem
  split at hmem
  · have hfence : ∀ count, character ∉ List.replicate count backtick := by
      intro count hcharacter
      rw [eq_of_mem_replicate hcharacter] at h
      cases h
    rw [mem_append, mem_append] at hmem
    exact (hmem.resolve_right (hfence _)).resolve_left (hfence _)
  · have hmarker : character ∉ style.marker := by
      intro hcharacter
      obtain rfl : character = '*' := by
        unfold InlineStyle.marker at hcharacter
        split at hcharacter <;> simp at hcharacter <;> exact hcharacter
      cases h
    rw [mem_append, mem_append] at hmem
    exact mem_escapeInline h ((hmem.resolve_right hmarker).resolve_left hmarker)

namespace Styled

theorem mem_writtenLine (h : isMarkup character = false) {kind : BlockKind}
    (hmem : character ∈ writtenLine kind line) : character ∈ line.text := by
  have hprefix : character ∉ blockPrefix kind := by
    intro hcharacter
    have hall : (blockPrefix kind).all isMarkup = true := by
      cases kind <;> rfl
    rw [all_eq_true.mp hall character hcharacter] at h
    cases h
  have hescape : character ∉
      if (decide (kind = .paragraph) && line.needsEscape) = true then ['\\'] else [] := by
    split
    · intro hcharacter
      rw [mem_singleton.mp hcharacter] at h
      cases h
    · exact not_mem_nil
  rw [writtenLine, mem_append, mem_append] at hmem
  have hwritten := hmem.resolve_left fun hstart => hstart.elim hprefix hescape
  obtain ⟨piece, hpiece, hcharacter⟩ := mem_flatMap.mp hwritten
  rw [← flatMap_pieces_text]
  exact mem_flatMap.mpr ⟨piece, hpiece, mem_encodeInline h hcharacter⟩

theorem splitLines_written (h : ∀ line ∈ first :: later, line.2.Clean) :
    splitLines (writtenLine first.1 first.2 ++ writtenLater later) =
      (first :: later).map fun line => writtenLine line.1 line.2 := by
  have hbreak : ∀ line ∈ first :: later, '\n' ∉ writtenLine line.1 line.2 :=
    fun line hline hmem => (h line hline).noBreak (mem_writtenLine (by decide) hmem)
  induction later generalizing first with
  | nil =>
    rw [show writtenLater [] = [] from rfl, append_nil]
    exact splitLines_last (hbreak first mem_cons_self)
  | cons second later ih =>
    have htail := (forall_mem_cons.mp hbreak).2
    have hlater : writtenLater (second :: later) =
        '\n' :: (writtenLine second.1 second.2 ++ writtenLater later) := rfl
    rw [hlater, splitLines_line (hbreak first mem_cons_self), ih (forall_mem_cons.mp h).2 htail]
    rfl

theorem noReturn_written (h : ∀ line ∈ first :: later, line.2.Clean) :
    '\r' ∉ writtenLine first.1 first.2 ++ writtenLater later := by
  have hreturn : ∀ line ∈ first :: later, '\r' ∉ writtenLine line.1 line.2 :=
    fun line hline hmem => (h line hline).noReturn (mem_writtenLine (by decide) hmem)
  intro hmem
  rcases mem_append.mp hmem with hmem | hmem
  · exact hreturn first mem_cons_self hmem
  · obtain ⟨line, hline, hmem⟩ := mem_flatMap.mp hmem
    rcases mem_cons.mp hmem with heq | hmem
    · cases heq
    · exact hreturn line (mem_cons_of_mem _ hline) hmem

end Styled

namespace RichTextBuffer

open Styled

theorem markdown_parseMarkdown {source : List Char} (h : ∀ line ∈ first :: later, line.2.Clean)
    (hread : parseLines (splitLines (normalizeNewlines source)) =
      ((first.2 ++ laterLines later).render, first.1 :: later.map (·.1)))
    (limit : Nat) : (parseMarkdown source limit).markdown =
      writtenLine first.1 first.2 ++ writtenLater later := by
  rw [← markdownOf_lines fun line hline => (h line hline).noBreak, markdown, parseMarkdown, hread]
  exact congrArg (markdownOf _ · _) (normalizeRuns_paint _)

theorem parseLines_clean : ∃ (first : BlockKind × Styled) (later : List (BlockKind × Styled)),
      (∀ line ∈ first :: later, line.2.Clean) ∧
      parseLines (splitLines (normalizeNewlines source)) =
        ((first.2 ++ laterLines later).render, first.1 :: later.map (·.1)) := by
  obtain ⟨hne, hbreak⟩ := splitLines_noBreak (normalizeNewlines source)
  have hmem := mem_splitLines (normalizeNewlines source)
  cases hsplit : splitLines (normalizeNewlines source) with
  | nil => exact absurd hsplit hne
  | cons line lines =>
    obtain ⟨first, later, hlines, hread⟩ := parseLines_lines line lines
    refine ⟨first, later, fun other hother => ?_, hread⟩
    obtain ⟨text, htext, hwithin, hfenced⟩ := hlines other hother
    rw [← hsplit] at htext
    have hcharacter : ∀ character ∈ other.2.text, character ∈ text := by
      intro character hcharacter
      obtain ⟨entry, hentry, rfl⟩ := mem_map.mp hcharacter
      exact (hwithin entry hentry).1
    refine ⟨hfenced.legible fun entry hentry => (hwithin entry hentry).2, ?_, ?_⟩
    · exact fun hmem => hbreak text htext (hcharacter _ hmem)
    · exact fun hreturn => not_mem_normalizeNewlines source
        (hmem text htext _ (hcharacter _ hreturn))

theorem blocks_parseMarkdown (limit : Nat) : (parseMarkdown source limit).blocks.length =
      (parseMarkdown source limit).text.count '\n' + 1 := by
  obtain ⟨first, later, hclean, hread⟩ := parseLines_clean source
  have hblocks : (parseMarkdown source limit).blocks = first.1 :: later.map (·.1) := by
    rw [parseMarkdown, hread]
    rfl
  have htext : (parseMarkdown source limit).text = (first.2 ++ laterLines later).text := by
    rw [parseMarkdown, hread]
    rfl
  have hcount : ∀ lines : List (BlockKind × Styled), (∀ line ∈ lines, line.2.Clean) →
      (laterLines lines).text.count '\n' = lines.length := by
    intro lines hlines
    induction lines with
    | nil => rfl
    | cons line lines ih =>
      obtain ⟨hline, hrest⟩ := forall_mem_cons.mp hlines
      have hsplit : (laterLines (line :: lines)).text =
          '\n' :: (line.2.text ++ (laterLines lines).text) := by
        rw [← text_append]
        rfl
      rw [hsplit, count_cons_self, count_append, count_eq_zero.mpr hline.noBreak,
        ih hrest, Nat.zero_add, length_cons]
  obtain ⟨hfirst, hlater⟩ := forall_mem_cons.mp hclean
  rw [hblocks, htext, text_append, count_append, count_eq_zero.mpr hfirst.noBreak,
    hcount later hlater, Nat.zero_add, length_cons, length_map]

theorem markdown_markdown (limit later : Nat) :
    (parseMarkdown (parseMarkdown source limit).markdown later).markdown =
      (parseMarkdown source limit).markdown := by
  obtain ⟨first, lines, hclean, hread⟩ := parseLines_clean source
  obtain ⟨again, rest, hagain, hwritten, hreread⟩ := parseLines_written hclean
  rw [markdown_parseMarkdown hclean hread]
  rw [← splitLines_written hclean, ← normalizeNewlines_eq (noReturn_written hclean)] at hreread
  rw [markdown_parseMarkdown hagain hreread, hwritten]

/-- The Markdown of a buffer that was read is read under the same limit, as a buffer that has the
same Markdown. -/
theorem tryFromMarkdown_canonical {source : List Char} {limit : Nat} {buffer : RichTextBuffer}
    (h : tryFromMarkdownWithLimit source limit = some buffer) :
    ∃ again, tryFromMarkdownWithLimit buffer.markdown limit = some again ∧
      again.markdown = buffer.markdown := by
  unfold tryFromMarkdownWithLimit at h
  split at h
  · cases h
  dsimp only at h
  split at h
  case isFalse => cases h
  rename_i hfits
  cases h
  have hsize : byteLength (parseMarkdown source limit).markdown ≤ limit :=
    (markdownFitsWithLimit_iff.mp hfits).2
  have hagain := markdown_markdown source limit limit
  refine ⟨parseMarkdown (parseMarkdown source limit).markdown limit, ?_, hagain⟩
  rw [tryFromMarkdownWithLimit, if_neg (by omega)]
  rw [if_pos]
  refine markdownFitsWithLimit_iff.mpr ⟨blocks_parseMarkdown _ limit, ?_⟩
  change byteLength (RichTextBuffer.markdown _) ≤ limit
  rw [hagain]
  exact hsize

/-- A paragraph with a list marker, bold text and code around a backtick. -/
theorem tryFromMarkdown_canonical_mixed : ∃ buffer, tryFromMarkdownWithLimit
        ['\\', '-', ' ', '*', '*', 'a', '*', '*', backtick, backtick, 'b', backtick, 'c', backtick,
          backtick] 64 = some buffer ∧
      ∃ again, tryFromMarkdownWithLimit buffer.markdown 64 = some again ∧
        again.markdown = buffer.markdown := by
  obtain ⟨buffer, hbuffer⟩ : ∃ buffer, tryFromMarkdownWithLimit
      ['\\', '-', ' ', '*', '*', 'a', '*', '*', backtick, backtick, 'b', backtick, 'c', backtick,
        backtick] 64 = some buffer := Option.isSome_iff_exists.mp (by decide +kernel)
  exact ⟨buffer, hbuffer, tryFromMarkdown_canonical hbuffer⟩

end RichTextBuffer

end KeyReader.Editor
