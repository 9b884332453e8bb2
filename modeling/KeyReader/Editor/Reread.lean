import KeyReader.Editor.Written

/-! What the reader makes of what the writer has written. -/

namespace KeyReader.Editor

open Utf8 List Option

theorem escapeInline_cons (character : Char) (piece : List Char) :
    escapeInline (character :: piece) =
      (if isEscaped character then ['\\', character] else [character]) ++ escapeInline piece :=
  rfl

theorem byteLength_escaped (character : Char) :
    byteLength ['\\', character] = 1 + character.utf8Size := rfl

variable {character : Char}

theorem not_isEscaped (h : ¬isEscaped character = true) :
    character ≠ '\\' ∧ character ≠ '*' ∧ character ≠ backtick := by
  simpa [isEscaped, not_or, and_assoc] using h

theorem unescapeInline_cons (h : character ≠ '\\') (source : List Char) :
    unescapeInline (character :: source) = character :: unescapeInline source := by
  cases source with
  | nil => rfl
  | cons next source => rw [unescapeInline, if_neg h]

theorem unescapeInline_escapeInline (piece : List Char) :
    unescapeInline (escapeInline piece) = piece := by
  induction piece with
  | nil => rfl
  | cons character piece ih =>
    rw [escapeInline_cons]
    by_cases h : isEscaped character = true
    · rw [if_pos h, cons_append, singleton_append, unescapeInline, if_pos rfl, ih]
    · rw [if_neg h, singleton_append, unescapeInline_cons (not_isEscaped h).1, ih]

theorem findUnescapedMarker_cons {marker : List Char} (hslash : character ≠ '\\')
    {source : List Char} (hmarker : marker.isPrefixOf (character :: source) = false)
    (hne : source ≠ []) (offset : Nat) : findUnescapedMarker marker (character :: source) offset =
      findUnescapedMarker marker source (offset + character.utf8Size) := by
  obtain ⟨next, rest, rfl⟩ := exists_cons_of_ne_nil hne
  rw [findUnescapedMarker, if_neg hslash, if_neg (by rw [hmarker]; exact Bool.false_ne_true)]

theorem findUnescapedMarker_here {marker : List Char} (rest : List Char) (offset : Nat) :
    findUnescapedMarker ('*' :: marker) ('*' :: marker ++ rest) offset = some offset := by
  have hstart : ('*' :: marker).isPrefixOf ('*' :: marker ++ rest) = true :=
    isPrefixOf_iff_prefix.mpr (prefix_append ..)
  rw [cons_append] at hstart ⊢
  cases htail : marker ++ rest with
  | nil =>
    rw [htail] at hstart
    rw [findUnescapedMarker, if_pos hstart]
    exact fun h => absurd h (by decide)
  | cons next source =>
    rw [htail] at hstart
    rw [findUnescapedMarker, if_neg (by decide), if_pos hstart]

theorem findUnescapedMarker_escapeInline (marker piece rest : List Char) (offset : Nat) :
    findUnescapedMarker ('*' :: marker) (escapeInline piece ++ ('*' :: marker ++ rest)) offset =
      some (offset + byteLength (escapeInline piece)) := by
  induction piece generalizing offset with
  | nil => exact findUnescapedMarker_here rest offset
  | cons character piece ih =>
    rw [escapeInline_cons]
    by_cases h : isEscaped character = true
    · rw [if_pos h, append_assoc, cons_append, singleton_append,
        findUnescapedMarker, if_pos rfl, ih, byteLength_append, byteLength_escaped,
        ← Nat.add_assoc, ← Nat.add_assoc]
    · obtain ⟨hslash, hstar, -⟩ := not_isEscaped h
      rw [if_neg h, append_assoc, singleton_append, findUnescapedMarker_cons hslash, ih,
        byteLength_append]
      · congr 1
        exact Nat.add_assoc ..
      · rw [List.isPrefixOf, Bool.and_eq_false_iff]
        exact .inl (beq_false_of_ne (Ne.symm hstar))
      · simp

theorem leadingMarker_none (h : character ≠ '*') (source : List Char) :
    leadingMarker (character :: source) = none := by
  have hstar : ('*' == character) = false := beq_false_of_ne (Ne.symm h)
  simp [leadingMarker, List.isPrefixOf, hstar]

variable {style : InlineStyle}

theorem leadingMarker_marker (hcode : style.code = false) (hne : style.marker ≠ [])
    (h : character ≠ '*') (source : List Char) :
    leadingMarker (style.marker ++ character :: source) = some (style.marker, style) := by
  have hstar : ('*' == character) = false := beq_false_of_ne (Ne.symm h)
  obtain ⟨bold, italic, code⟩ := style
  obtain rfl : code = false := hcode
  cases bold <;> cases italic
  · exact absurd rfl hne
  · simp [InlineStyle.marker, leadingMarker, List.isPrefixOf, hstar]
  · simp [InlineStyle.marker, leadingMarker, List.isPrefixOf, hstar]
  · simp [InlineStyle.marker, leadingMarker, List.isPrefixOf]

variable {piece : List Char}

theorem escapeInline_head (hne : piece ≠ []) :
    ∃ character source, escapeInline piece = character :: source ∧ character ≠ '*' ∧
      character ≠ backtick := by
  obtain ⟨first, rest, rfl⟩ := exists_cons_of_ne_nil hne
  rw [escapeInline_cons]
  by_cases h : isEscaped first = true
  · rw [if_pos h]
    exact ⟨'\\', first :: escapeInline rest, rfl, by decide, by decide⟩
  · rw [if_neg h]
    exact ⟨first, escapeInline rest, rfl, (not_isEscaped h).2⟩

theorem parseInlineFrom_other (hslash : character ≠ '\\') (hbacktick : character ≠ backtick)
    (hstar : character ≠ '*') (turns : Nat) (rest : List Char) (index : Nat)
    (backticks : BacktickRunIndex) (state : List Char × List StyleRun) :
    parseInlineFrom (turns + 1) (character :: rest) index backticks state =
      parseInlineFrom turns rest (index + character.utf8Size) backticks
        (appendPiece [character] .default state) := by
  rw [parseInlineFrom.eq_def]
  dsimp only
  rw [if_neg hslash, if_neg hbacktick, leadingMarker_none hstar, bind_none]

/-- Text without a style is read character by character. -/
theorem parseInlineFrom_plain (piece : List Char) :
    ∀ turns rest index backticks (styled : Styled), (escapeInline piece ++ rest).length ≤ turns →
      ∃ more, rest.length ≤ more ∧
        parseInlineFrom turns (escapeInline piece ++ rest) index backticks styled.render =
          parseInlineFrom more rest (index + byteLength (escapeInline piece)) backticks
            (styled ++ Styled.uniform piece .default).render := by
  induction piece with
  | nil =>
    intro turns rest index backticks styled hturns
    exact ⟨turns, hturns, by simp [escapeInline, Styled.uniform]⟩
  | cons character piece ih =>
    intro turns rest index backticks styled hturns
    have hsplit : styled ++ Styled.uniform (character :: piece) .default =
        styled ++ Styled.uniform [character] .default ++ Styled.uniform piece .default := by
      simp [Styled.uniform]
    rw [escapeInline_cons] at hturns ⊢
    by_cases h : isEscaped character = true
    · rw [if_pos h] at hturns ⊢
      cases turns with
      | zero => simp at hturns
      | succ turns =>
        obtain ⟨more, hmore, heq⟩ := ih turns rest (index + 1 + character.utf8Size) backticks
          (styled ++ Styled.uniform [character] .default) (by simp at hturns ⊢; omega)
        refine ⟨more, hmore, ?_⟩
        rw [append_assoc, cons_append, singleton_append, parseInlineFrom,
          if_pos rfl, Styled.appendPiece_render, heq, hsplit, byteLength_append,
          byteLength_escaped, ← Nat.add_assoc, ← Nat.add_assoc]
    · rw [if_neg h] at hturns ⊢
      obtain ⟨hslash, hstar, hbacktick⟩ := not_isEscaped h
      cases turns with
      | zero => simp at hturns
      | succ turns =>
        obtain ⟨more, hmore, heq⟩ := ih turns rest (index + character.utf8Size) backticks
          (styled ++ Styled.uniform [character] .default) (by simp at hturns ⊢; omega)
        refine ⟨more, hmore, ?_⟩
        rw [append_assoc, singleton_append,
          parseInlineFrom_other hslash hbacktick hstar, Styled.appendPiece_render, heq, hsplit,
          byteLength_append, ← Nat.add_assoc]
        rfl

theorem marker_eq (h : style.marker ≠ []) :
    (∃ marker, style.marker = '*' :: marker) ∧ byteLength style.marker = style.marker.length := by
  obtain ⟨bold, italic, code⟩ := style
  cases bold <;> cases italic
  · exact absurd rfl h
  · exact ⟨⟨_, rfl⟩, rfl⟩
  · exact ⟨⟨_, rfl⟩, rfl⟩
  · exact ⟨⟨_, rfl⟩, rfl⟩

variable {rest : List Char} {turns : Nat}

/-- Text between two markers of its style is read as a whole. -/
theorem parseInlineFrom_marked (hne : piece ≠ []) (hcode : style.code = false)
    (hmarker : style.marker ≠ [])
    (hturns : (style.marker ++ (escapeInline piece ++ (style.marker ++ rest))).length ≤ turns)
    (index : Nat) (backticks : BacktickRunIndex) (styled : Styled) : ∃ more, rest.length ≤ more ∧
      parseInlineFrom turns (style.marker ++ (escapeInline piece ++ (style.marker ++ rest))) index
          backticks styled.render =
        parseInlineFrom more rest
          (index + byteLength (style.marker ++ escapeInline piece ++ style.marker)) backticks
          (styled ++ Styled.uniform piece style).render := by
  obtain ⟨⟨marker, heq⟩, hlength⟩ := marker_eq hmarker
  obtain ⟨first, source, hescape, hstar, -⟩ := escapeInline_head hne
  have hleading := leadingMarker_marker hcode hmarker hstar (source ++ (style.marker ++ rest))
  rw [← cons_append, ← hescape] at hleading
  have hfound := findUnescapedMarker_escapeInline marker piece rest 0
  rw [← heq, Nat.zero_add] at hfound
  have hdrop : dropBytes (byteLength (escapeInline piece) + style.marker.length)
      (escapeInline piece ++ (style.marker ++ rest)) = rest := by
    rw [← hlength, ← byteLength_append, ← append_assoc, dropBytes_byteLength]
  cases turns with
  | zero => simp [heq] at hturns
  | succ turns =>
    refine ⟨turns, ?_, ?_⟩
    · simp [heq] at hturns
      omega
    · have hstart : style.marker ++ (escapeInline piece ++ (style.marker ++ rest)) =
          '*' :: (marker ++ (escapeInline piece ++ (style.marker ++ rest))) := by
        rw [heq, cons_append]
      have hturn : parseInlineFrom (turns + 1)
          (style.marker ++ (escapeInline piece ++ (style.marker ++ rest))) index backticks
          styled.render = parseInlineFrom turns rest
            (index + style.marker.length + byteLength (escapeInline piece) + style.marker.length)
            backticks (appendPiece piece style styled.render) := by
        rw [hstart, parseInlineFrom.eq_def]
        dsimp only
        rw [if_neg (by decide), if_neg (by decide), ← hstart, hleading]
        dsimp only [bind_some]
        rw [drop_left, hfound]
        dsimp only [map_some]
        rw [drop_left, hdrop, takeBytes_byteLength, unescapeInline_escapeInline]
      rw [hturn, Styled.appendPiece_render, byteLength_append, byteLength_append, hlength,
        ← Nat.add_assoc, ← Nat.add_assoc]

theorem takeWhile_fence {after : List Char} (h : after.head? ≠ some backtick) (count : Nat) :
    (List.replicate count backtick ++ after).takeWhile (· = backtick) =
      List.replicate count backtick := by
  rw [takeWhile_append_of_pos]
  · cases after with
    | nil => rw [takeWhile_nil, append_nil]
    | cons first after =>
      rw [head?_cons, ne_eq, Option.some.injEq] at h
      rw [takeWhile_cons_of_neg (by simpa using h), append_nil]
  · intro character hcharacter
    exact decide_eq_true (eq_of_mem_replicate hcharacter)

variable {backticks : BacktickRunIndex} {consumed : List Char}

/-- Code between fences that are longer than its own runs of backticks is read as a whole. -/
theorem parseInlineFrom_code (hne : piece ≠ []) (hhead : piece.head? ≠ some backtick)
    (hlast : piece.getLast? ≠ some backtick) {fence : Nat}
    (hfence : longestBacktickRun piece < fence) (hrest : rest.head? ≠ some backtick)
    (hturns : (List.replicate fence backtick ++
      (piece ++ (List.replicate fence backtick ++ rest))).length ≤ turns)
    (hahead : Ahead backticks (consumed ++ (List.replicate fence backtick ++
      (piece ++ (List.replicate fence backtick ++ rest)))) (byteLength consumed))
    (styled : Styled) : ∃ more next, rest.length ≤ more ∧
      Ahead next (consumed ++ (List.replicate fence backtick ++
        (piece ++ (List.replicate fence backtick ++ rest))))
        (byteLength consumed + (fence + byteLength piece + fence)) ∧
      parseInlineFrom turns (List.replicate fence backtick ++
          (piece ++ (List.replicate fence backtick ++ rest))) (byteLength consumed) backticks
          styled.render =
        parseInlineFrom more rest (byteLength consumed + (fence + byteLength piece + fence)) next
          (styled ++ Styled.uniform piece ⟨false, false, true⟩).render := by
  have hwidth : byteLength (List.replicate fence backtick) = fence :=
    byteLength_replicate (by decide) fence
  have hpos : 0 < fence := by omega
  obtain ⟨hfound, hnext⟩ := hahead.nextRun fence (Nat.le_add_right (byteLength consumed) fence)
  have hclosing := fenceStarts_closing (consumed ++ List.replicate fence backtick) hpos hhead
    hlast hne hfence hrest
  rw [byteLength_append, hwidth, append_assoc] at hclosing
  rw [hclosing] at hfound
  cases turns with
  | zero =>
    obtain ⟨first, more, rfl⟩ := exists_cons_of_ne_nil hne
    simp at hturns
  | succ turns =>
    refine ⟨turns, _, ?_, hnext.mono (by omega), ?_⟩
    · obtain ⟨first, more, rfl⟩ := exists_cons_of_ne_nil hne
      simp at hturns
      omega
    · have hturn : parseInlineFrom (turns + 1) (List.replicate fence backtick ++
          (piece ++ (List.replicate fence backtick ++ rest))) (byteLength consumed) backticks
          styled.render =
            parseInlineFrom turns rest (byteLength consumed + fence + byteLength piece + fence)
              (backticks.nextRun fence (byteLength consumed + fence)).2
              (appendPiece piece ⟨false, false, true⟩ styled.render) := by
        have hopening := takeWhile_fence (show (piece ++
          (List.replicate fence backtick ++ rest)).head? ≠ some backtick by
            rwa [head?_append_of_ne_nil _ hne]) fence
        have hlength := length_replicate (n := fence) (a := backtick)
        have hdrop : dropBytes (byteLength piece + fence)
            (piece ++ (List.replicate fence backtick ++ rest)) = rest := by
          have hboth := dropBytes_byteLength (piece ++ List.replicate fence backtick) rest
          rwa [byteLength_append, hwidth, append_assoc] at hboth
        obtain ⟨tail, hstart⟩ : ∃ tail, List.replicate fence backtick ++
            (piece ++ (List.replicate fence backtick ++ rest)) = backtick :: tail := by
          obtain ⟨count, rfl⟩ : ∃ count, fence = count + 1 := ⟨fence - 1, by omega⟩
          exact ⟨_, rfl⟩
        have hcontent : (List.replicate fence backtick ++
            (piece ++ (List.replicate fence backtick ++ rest))).drop fence =
              piece ++ (List.replicate fence backtick ++ rest) := drop_left' hlength
        rw [hstart, parseInlineFrom.eq_def]
        dsimp only
        rw [if_neg (by decide), if_pos rfl, ← hstart, hopening, hlength, hcontent, hfound]
        dsimp only
        rw [show byteLength consumed + fence + byteLength piece - (byteLength consumed + fence) =
          byteLength piece by omega, hdrop, takeBytes_byteLength]
      rw [hturn, Styled.appendPiece_render, ← Nat.add_assoc, ← Nat.add_assoc]

/-- A piece that the reader finds again: code neither starts nor ends with a backtick. -/
structure Closed (piece : List Char × InlineStyle) : Prop where
  nonempty : piece.1 ≠ []
  valid : piece.2.Valid
  head : piece.2.code = true → piece.1.head? ≠ some backtick
  last : piece.2.code = true → piece.1.getLast? ≠ some backtick

theorem encodeInline_text (hne : piece ≠ []) (hcode : style.code = false) :
    encodeInline piece style = style.marker ++ (escapeInline piece ++ style.marker) := by
  have hempty : ¬piece.isEmpty = true := by rwa [List.isEmpty_iff]
  rw [encodeInline, if_neg hempty, if_neg (by rw [hcode]; exact Bool.false_ne_true), append_assoc]

theorem encodeInline_code (hne : piece ≠ []) (hcode : style.code = true) :
    encodeInline piece style = List.replicate (longestBacktickRun piece + 1) backtick ++
        (piece ++ List.replicate (longestBacktickRun piece + 1) backtick) := by
  have hempty : ¬piece.isEmpty = true := by rwa [List.isEmpty_iff]
  rw [encodeInline, if_neg hempty, if_pos hcode, append_assoc]

theorem encodeInline_head (hne : piece ≠ []) (hcode : style.code = false) :
    ∃ character source, encodeInline piece style = character :: source ∧ character ≠ backtick := by
  rw [encodeInline_text hne hcode]
  by_cases hmarker : style.marker = []
  · obtain ⟨first, source, hescape, -, hbacktick⟩ := escapeInline_head hne
    rw [hmarker, hescape, nil_append, append_nil]
    exact ⟨first, source, rfl, hbacktick⟩
  · obtain ⟨⟨marker, heq⟩, -⟩ := marker_eq hmarker
    rw [heq]
    exact ⟨'*', _, rfl, by decide⟩

theorem InlineStyle.Valid.eq_code (h : style.Valid) (hcode : style.code = true) :
    style = ⟨false, false, true⟩ := by
  obtain ⟨hbold, hitalic⟩ := h hcode
  obtain ⟨bold, italic, code⟩ := style
  simp only [Bool.not_eq_true] at hbold hitalic hcode
  rw [hbold, hitalic, hcode]

theorem InlineStyle.eq_default (hcode : style.code = false) (hmarker : style.marker = []) :
    style = .default := by
  obtain ⟨bold, italic, code⟩ := style
  obtain rfl : code = false := hcode
  cases bold <;> cases italic
  · rfl
  · cases hmarker
  · cases hmarker
  · cases hmarker

/-- A piece is read back, whatever it is between. -/
theorem parseInlineFrom_piece (h : Closed (piece, style))
    (hrest : style.code = true → rest.head? ≠ some backtick)
    (hturns : (encodeInline piece style ++ rest).length ≤ turns)
    (hahead : Ahead backticks (consumed ++ (encodeInline piece style ++ rest)) (byteLength consumed))
    (styled : Styled) : ∃ more next, rest.length ≤ more ∧
      Ahead next (consumed ++ encodeInline piece style ++ rest)
        (byteLength (consumed ++ encodeInline piece style)) ∧
      parseInlineFrom turns (encodeInline piece style ++ rest) (byteLength consumed) backticks
          styled.render =
        parseInlineFrom more rest (byteLength (consumed ++ encodeInline piece style)) next
          (styled ++ Styled.uniform piece style).render := by
  rw [byteLength_append, append_assoc consumed]
  cases hcode : style.code with
  | true =>
    obtain rfl := h.valid.eq_code hcode
    rw [encodeInline_code h.nonempty hcode] at hturns hahead ⊢
    simp only [append_assoc] at hturns hahead ⊢
    have hread := parseInlineFrom_code h.nonempty (h.head hcode) (h.last hcode)
      (Nat.lt_succ_self _) (hrest hcode) hturns hahead styled
    rwa [byteLength_append, byteLength_append, byteLength_replicate (by decide),
      ← Nat.add_assoc (longestBacktickRun piece + 1)]
  | false =>
    have hlater := hahead.mono (Nat.le_add_right (byteLength consumed)
      (byteLength (encodeInline piece style)))
    rw [encodeInline_text h.nonempty hcode] at hturns hlater ⊢
    by_cases hmarker : style.marker = []
    · obtain rfl := InlineStyle.eq_default hcode hmarker
      rw [hmarker, nil_append, append_nil] at hturns hlater ⊢
      obtain ⟨more, hmore, heq⟩ :=
        parseInlineFrom_plain piece turns rest (byteLength consumed) backticks styled hturns
      exact ⟨more, backticks, hmore, hlater, heq⟩
    · simp only [append_assoc] at hturns
      obtain ⟨more, hmore, heq⟩ := parseInlineFrom_marked h.nonempty hcode hmarker hturns
        (byteLength consumed) backticks styled
      refine ⟨more, backticks, hmore, hlater, ?_⟩
      simp only [append_assoc] at heq ⊢
      exact heq

theorem parseInlineFrom_pieces {pieces : List (List Char × InlineStyle)}
    (hclosed : ∀ piece ∈ pieces, Closed piece)
    (hchain : pieces.IsChain fun piece next => piece.2 ≠ next.2)
    (hturns : (pieces.flatMap fun piece => encodeInline piece.1 piece.2).length ≤ turns)
    (hahead : Ahead backticks
      (consumed ++ pieces.flatMap fun piece => encodeInline piece.1 piece.2) (byteLength consumed))
    (styled : Styled) :
    parseInlineFrom turns (pieces.flatMap fun piece => encodeInline piece.1 piece.2)
        (byteLength consumed) backticks styled.render =
      (styled ++ pieces.flatMap fun piece => Styled.uniform piece.1 piece.2).render := by
  induction pieces generalizing turns consumed backticks styled with
  | nil =>
    rw [flatMap_nil, flatMap_nil, append_nil]
    cases turns <;> rfl
  | cons piece more ih =>
    obtain ⟨piece, style⟩ := piece
    have hpiece := hclosed _ mem_cons_self
    have hnext : style.code = true →
        (more.flatMap fun piece => encodeInline piece.1 piece.2).head? ≠ some backtick := by
      intro hcode
      cases more with
      | nil => exact nofun
      | cons second more =>
        have hsecond := hclosed second (mem_cons_of_mem _ mem_cons_self)
        have hother : second.2.code = false := by
          refine Bool.eq_false_iff.mpr fun hsame => ?_
          exact (isChain_cons_cons.mp hchain).1
            ((hpiece.valid.eq_code hcode).trans (hsecond.valid.eq_code hsame).symm)
        obtain ⟨character, source, heq, hne⟩ := encodeInline_head hsecond.nonempty hother
        rw [flatMap_cons, heq, cons_append, head?_cons, ne_eq, Option.some.injEq]
        exact hne
    rw [flatMap_cons] at hturns hahead ⊢
    obtain ⟨left, next, hleft, hlater, heq⟩ :=
      parseInlineFrom_piece hpiece hnext hturns hahead styled
    rw [heq, ih (forall_mem_cons.mp hclosed).2 hchain.tail hleft hlater, flatMap_cons, append_assoc]

namespace Styled

theorem parseInline_written {line : Styled} (h : ∀ piece ∈ line.pieces, Closed piece)
    (styled : Styled) :
    parseInline line.written styled.render = (styled ++ line).render := by
  have hread := parseInlineFrom_pieces h line.pieces_chain Nat.le.refl
    (show Ahead _ ([] ++ _) (byteLength []) from ahead_new _) styled
  rw [flatMap_pieces] at hread
  exact hread

end Styled

end KeyReader.Editor
