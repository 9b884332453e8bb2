import KeyReader.Editor.Markdown
import KeyReader.Table

/-! The reading of Markdown: block prefixes, code, markers and escapes. -/

namespace KeyReader.Editor

open Utf8 Runs List

def splitLines : List Char → List (List Char)
  | [] => [[]]
  | character :: text =>
    if character = '\n' then [] :: splitLines text
    else match splitLines text with
      | [] => [[character]]
      | line :: lines => (character :: line) :: lines

def stripPrefix (start line : List Char) : Option (List Char) :=
  if start.isPrefixOf line then some (line.drop start.length) else none

def parseBlockPrefix (line : List Char) : BlockKind × List Char :=
  match stripPrefix ['#', '#', '#', ' '] line with
  | some rest => (.heading3, rest)
  | none => match stripPrefix ['#', '#', ' '] line with
    | some rest => (.heading2, rest)
    | none => match stripPrefix ['#', ' '] line with
      | some rest => (.heading1, rest)
      | none => match stripPrefix ['-', ' '] line with
        | some rest => (.bulleted, rest)
        | none => match looksNumberedPrefix line with
          | some length => (.numbered, line.drop length)
          | none => match stripPrefix ['>', ' '] line with
            | some rest => (.quote, rest)
            | none => (.paragraph, line)

/-- The runs of backticks of a source from an offset on, of which `current` are before it: their
starts and lengths. -/
def backtickRunsFrom : List Char → Nat → Nat → List (Nat × Nat)
  | [], offset, current => if 0 < current then [(offset - current, current)] else []
  | character :: source, offset, current =>
    if character = backtick then backtickRunsFrom source (offset + 1) (current + 1)
    else (if 0 < current then [(offset - current, current)] else []) ++
      backtickRunsFrom source (offset + character.utf8Size) 0

/-- The starts of the runs of backticks of each length.  A cursor only moves on, so the starts that
it has passed are gone. -/
abbrev BacktickRunIndex := AList fun _ : Nat => List Nat

namespace BacktickRunIndex

def new (source : List Char) : BacktickRunIndex :=
  (backtickRunsFrom source 0 0).foldl (fun positions (start, length) =>
    positions.insert length ((positions.lookup length).getD [] ++ [start])) ∅

def nextRun (positions : BacktickRunIndex) (length minimumStart : Nat) :
    Option Nat × BacktickRunIndex :=
  match positions.lookup length with
  | none => (none, positions)
  | some starts =>
    let starts := starts.dropWhile (· < minimumStart)
    (starts.head?, positions.insert length starts)

end BacktickRunIndex

/-- The number of bytes before the next marker that is not escaped, counted from `offset`. -/
def findUnescapedMarker (marker : List Char) : List Char → Nat → Option Nat
  | [], _ => none
  | ['\\'], _ => none
  | [character], offset => if marker.isPrefixOf [character] then some offset else none
  | character :: next :: source, offset =>
    if character = '\\' then
      findUnescapedMarker marker source (offset + 1 + next.utf8Size)
    else if marker.isPrefixOf (character :: next :: source) then some offset
    else findUnescapedMarker marker (next :: source) (offset + character.utf8Size)

def unescapeInline : List Char → List Char
  | [] => []
  | [character] => [character]
  | character :: next :: source =>
    if character = '\\' then next :: unescapeInline source
    else character :: unescapeInline (next :: source)

def appendPiece (piece : List Char) (style : InlineStyle) (state : List Char × List StyleRun) :
    List Char × List StyleRun :=
  if piece.isEmpty then state
  else (state.1 ++ piece,
    pushStyleRun state.2 (byteLength state.1) (byteLength (state.1 ++ piece)) style)

/-- The marker that a source starts with, and the style of what is between two of them. -/
def leadingMarker (source : List Char) : Option (List Char × InlineStyle) :=
  if ['*', '*', '*'].isPrefixOf source then some (['*', '*', '*'], ⟨true, true, false⟩)
  else if ['*', '*'].isPrefixOf source then some (['*', '*'], ⟨true, false, false⟩)
  else if ['*'].isPrefixOf source then some (['*'], ⟨false, true, false⟩)
  else none

/-- The loop of `parse_inline` over the rest of the source from an index on.  Each turn reads a
character at least. -/
def parseInlineFrom : Nat → List Char → Nat → BacktickRunIndex → List Char × List StyleRun →
    List Char × List StyleRun
  | 0, _, _, _, state => state
  | _ + 1, [], _, _, state => state
  | turns + 1, character :: rest, index, backticks, state =>
    if character = '\\' then
      match rest with
      | [] => appendPiece ['\\'] .default state
      | next :: rest =>
        parseInlineFrom turns rest (index + 1 + next.utf8Size) backticks
          (appendPiece [next] .default state)
    else if character = backtick then
      let fence := ((character :: rest).takeWhile (· = backtick)).length
      let content := (character :: rest).drop fence
      let (found, backticks) := backticks.nextRun fence (index + fence)
      match found with
      | some finish =>
        let length := finish - (index + fence)
        parseInlineFrom turns (dropBytes (length + fence) content) (finish + fence) backticks
          (appendPiece (takeBytes length content) ⟨false, false, true⟩ state)
      | none =>
        parseInlineFrom turns content (index + fence) backticks
          (appendPiece ((character :: rest).take fence) .default state)
    else
      let found := (leadingMarker (character :: rest)).bind fun (marker, style) =>
        (findUnescapedMarker marker ((character :: rest).drop marker.length) 0).map
          fun length => (marker, style, length)
      match found with
      | some (marker, style, length) =>
        let content := (character :: rest).drop marker.length
        parseInlineFrom turns (dropBytes (length + marker.length) content)
          (index + marker.length + length + marker.length) backticks
          (appendPiece (unescapeInline (takeBytes length content)) style state)
      | none =>
        parseInlineFrom turns rest (index + character.utf8Size) backticks
          (appendPiece [character] .default state)

def parseInline (source : List Char) (state : List Char × List StyleRun) :
    List Char × List StyleRun :=
  parseInlineFrom source.length source 0 (BacktickRunIndex.new source) state

/-- One line of a source. -/
def parseLine (state : (List Char × List StyleRun) × List BlockKind) (line : List Char) :
    (List Char × List StyleRun) × List BlockKind :=
  let (kind, rest) := parseBlockPrefix line
  (parseInline rest state.1, state.2 ++ [kind])

/-- The lines after the first one, each of which is preceded by a line break. -/
def parseLaterLine (state : (List Char × List StyleRun) × List BlockKind) (line : List Char) :
    (List Char × List StyleRun) × List BlockKind :=
  let start := byteLength state.1.1
  parseLine ((state.1.1 ++ ['\n'], pushStyleRun state.1.2 start (start + 1) .default), state.2) line

def parseLines : List (List Char) → (List Char × List StyleRun) × List BlockKind
  | [] => (([], []), [])
  | line :: lines => lines.foldl parseLaterLine (parseLine (([], []), []) line)

/-- A text of characters with styles. -/
abbrev Styled := List (Char × InlineStyle)

def Styled.text (styled : Styled) : List Char := styled.map (·.1)

/-- The widths and the labels of the runs of a styled text. -/
def Styled.items (styled : Styled) : List (Nat × InlineStyle) :=
  styled.map fun (character, style) => (character.utf8Size, style)

def Styled.render (styled : Styled) : List Char × List StyleRun :=
  (styled.text, paint styled.items)

namespace Styled

@[simp] theorem text_append (styled more : Styled) :
    text (styled ++ more) = styled.text ++ more.text := map_append

@[simp] theorem items_append (styled more : Styled) :
    items (styled ++ more) = styled.items ++ more.items := map_append

section

variable (styled : Styled)

@[simp] theorem width_items : width styled.items = byteLength styled.text := by
  induction styled with
  | nil => rfl
  | cons entry styled ih =>
    show entry.1.utf8Size + width (items styled) = _
    rw [ih]
    rfl

theorem wide_items : Wide styled.items := by
  intro item hitem
  obtain ⟨entry, -, rfl⟩ := mem_map.mp hitem
  exact entry.1.utf8Size_pos

section

variable (piece : List Char) (style : InlineStyle)

def uniform : Styled := piece.map (·, style)

@[simp] theorem text_uniform : (uniform piece style).text = piece := by
  rw [text, uniform, map_map]
  exact map_id' piece

theorem paint_uniform : paint (styled ++ uniform piece style).items =
      pushStyleRun (paint styled.items) (byteLength styled.text)
        (byteLength styled.text + byteLength piece) style := by
  rw [items_append, paint_append, walk_push_same, width_items, width_items, text_uniform]
  · rfl
  · intro item hitem
    obtain ⟨entry, hentry, rfl⟩ := mem_map.mp hitem
    obtain ⟨character, -, rfl⟩ := mem_map.mp hentry
    rfl

theorem appendPiece_render :
    appendPiece piece style styled.render = (styled ++ uniform piece style).render := by
  unfold appendPiece
  split
  · rename_i hempty
    rw [isEmpty_iff.mp hempty]
    exact congrArg render (append_nil styled).symm
  · show (styled.text ++ piece, pushStyleRun (paint styled.items) (byteLength styled.text)
        (byteLength (styled.text ++ piece)) style) = (text _, paint (items _))
    rw [paint_uniform, text_append, text_uniform, byteLength_append]

end

/-- The characters of a styled text are among those given, and its styles are valid. -/
def Within (source : List Char) : Prop :=
  ∀ entry ∈ styled, entry.1 ∈ source ∧ entry.2.Valid

end

theorem within_append {styled more : Styled} {source : List Char} :
    Within (styled ++ more) source ↔ styled.Within source ∧ more.Within source :=
  forall_mem_append

theorem within_uniform {piece source : List Char} {style : InlineStyle}
    (hpiece : ∀ character ∈ piece, character ∈ source) (hstyle : style.Valid) :
    (uniform piece style).Within source := by
  intro entry hentry
  obtain ⟨character, hcharacter, rfl⟩ := mem_map.mp hentry
  exact ⟨hpiece character hcharacter, hstyle⟩

theorem Within.mono {styled : Styled} {source more : List Char} (h : styled.Within source)
    (hmore : ∀ character ∈ source, character ∈ more) : styled.Within more :=
  fun entry hentry => (h entry hentry).imp_left (hmore entry.1)

end Styled

end KeyReader.Editor
