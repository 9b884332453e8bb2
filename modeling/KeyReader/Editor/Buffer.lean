import KeyReader.Editor.Parse
import KeyReader.Transition

/-! The rich-text buffer and its public operations. -/

namespace KeyReader.Editor

open Utf8

structure RichTextBuffer where
  text : List Char
  runs : List StyleRun
  blocks : List BlockKind
  selection : Nat × Nat
  selectionReversed : Bool
  markedRange : Option (Nat × Nat)
  pendingStyle : Option InlineStyle
  maxMarkdownBytes : Nat

/-- A range whose end is not after its start. -/
def isEmptyRange (range : Nat × Nat) : Bool := range.2 ≤ range.1

def parseMarkdown (markdown : List Char) (maxMarkdownBytes : Nat) : RichTextBuffer :=
  let ((text, runs), blocks) := parseLines (splitLines (normalizeNewlines markdown))
  let blocks := if blocks.isEmpty then [.paragraph] else blocks
  let cursor := byteLength text
  { text, runs := normalizeRuns text runs, blocks, selection := (cursor, cursor)
    selectionReversed := false, markedRange := none, pendingStyle := none, maxMarkdownBytes }

namespace RichTextBuffer

def withMaxMarkdownBytes (maxMarkdownBytes : Nat) : RichTextBuffer :=
  parseMarkdown [] maxMarkdownBytes

section

variable (buffer : RichTextBuffer)

def markdown : List Char :=
  markdownOf buffer.text buffer.runs buffer.blocks

def fitsPersistenceLimit : Bool :=
  markdownFitsWithLimit buffer.text buffer.runs buffer.blocks buffer.maxMarkdownBytes

def tryFromMarkdownWithLimit (markdown : List Char) (maxMarkdownBytes : Nat) :
    Option RichTextBuffer :=
  if maxMarkdownBytes < byteLength markdown then none
  else
    let buffer := parseMarkdown markdown maxMarkdownBytes
    if buffer.fitsPersistenceLimit then some buffer else none

def cursorOffset : Nat :=
  if buffer.selectionReversed then buffer.selection.1 else buffer.selection.2

def setSelection (range : Nat × Nat) (reversed : Bool) :
    RichTextBuffer :=
  let start := floorCharBoundary buffer.text range.1
  let finish := floorCharBoundary buffer.text range.2
  let selection := (min start finish, max start finish)
  { buffer with
    selection, selectionReversed := reversed && !isEmptyRange selection, pendingStyle := none }

def moveTo (offset : Nat) : RichTextBuffer :=
  let offset := floorCharBoundary buffer.text offset
  { buffer with selection := (offset, offset), selectionReversed := false, pendingStyle := none }

def selectTo (offset : Nat) : RichTextBuffer :=
  let offset := floorCharBoundary buffer.text offset
  let anchor := if buffer.selectionReversed then buffer.selection.2 else buffer.selection.1
  { buffer with
    selection := (min anchor offset, max anchor offset)
    selectionReversed := offset < anchor, pendingStyle := none }

def selectAll : RichTextBuffer :=
  { buffer with
    selection := (0, byteLength buffer.text), selectionReversed := false, pendingStyle := none }

def clearMarkedRange : RichTextBuffer :=
  { buffer with markedRange := none }

def styleForInsertion (offset : Nat) : InlineStyle :=
  if buffer.text.isEmpty then .default
  else
    let probe := if offset = byteLength buffer.text then previousCharBoundary buffer.text offset
      else offset
    ((buffer.runs.find? fun run => run.start ≤ probe && probe < run.finish).map (·.label)).getD
      .default

/-- The runs before an offset, the last of which may end there. -/
def keepBefore (start : Nat) (kept : List StyleRun) (a b : Nat) (style : InlineStyle) :
    List StyleRun :=
  if b ≤ start then pushStyleRun kept a b style
  else if a < start then pushStyleRun kept a start style
  else kept

/-- The runs after a range, moved to the end of what takes its place. -/
def keepAfter (start finish inserted : Nat) (kept : List StyleRun) (a b : Nat)
    (style : InlineStyle) : List StyleRun :=
  let removed := finish - start
  if finish ≤ a then pushStyleRun kept (a - removed + inserted) (b - removed + inserted) style
  else if finish < b then
    pushStyleRun kept (start + inserted) (start + inserted + (b - finish)) style
  else kept

/-- The runs of a text in which a range is replaced. -/
def replaceRuns (runs : List StyleRun) (start finish inserted : Nat) (style : InlineStyle) :
    List StyleRun :=
  let before := runs.foldl (fun kept run =>
    keepBefore start kept run.start run.finish run.label) []
  let middle := if 0 < inserted then pushStyleRun before start (start + inserted) style else before
  runs.foldl (fun kept run =>
    keepAfter start finish inserted kept run.start run.finish run.label) middle

/-- The range that was inserted, unless the result is too long: then nothing changes. -/
def replaceRange (range : Nat × Nat) (replacement : List Char) :
    Option ((Nat × Nat) × RichTextBuffer) :=
  let start := floorCharBoundary buffer.text range.1
  let finish := max (floorCharBoundary buffer.text range.2) start
  let retained := byteLength buffer.text - (finish - start)
  if buffer.maxMarkdownBytes < retained + normalizedNewlineLen replacement then none
  else
    let replacement := normalizeNewlines replacement
    let style := buffer.pendingStyle.getD (buffer.styleForInsertion start)
    let startLine := lineAtOffset buffer.text start
    let endLine := lineAtOffset buffer.text finish
    let inherited := buffer.blocks.getD startLine .paragraph
    let blocks := buffer.blocks.take startLine ++
      List.replicate (replacement.count '\n' + 1) inherited ++ buffer.blocks.drop (endLine + 1)
    let newEnd := start + byteLength replacement
    let text := takeBytes start buffer.text ++ replacement ++ dropBytes finish buffer.text
    let runs := normalizeRuns text
      (replaceRuns buffer.runs start finish (byteLength replacement) style)
    if markdownFitsWithLimit text runs blocks buffer.maxMarkdownBytes then
      some ((start, newEnd), { buffer with
        text, runs, blocks, selection := (newEnd, newEnd), selectionReversed := false
        pendingStyle := some style })
    else none

/-- A replacement that ends a composition. -/
def replaceAndUnmark (range : Nat × Nat) (replacement : List Char) : Bool × RichTextBuffer :=
  match buffer.replaceRange range replacement with
  | none => (false, buffer)
  | some (_, buffer) => (true, { buffer with markedRange := none })

def replaceSelection (replacement : List Char) : Bool × RichTextBuffer :=
  buffer.replaceAndUnmark buffer.selection replacement

def backspace : Bool × RichTextBuffer :=
  let range := if isEmptyRange buffer.selection then
      (previousGraphemeBoundary buffer.text buffer.cursorOffset, buffer.cursorOffset)
    else buffer.selection
  buffer.replaceAndUnmark range []

def deleteForward : Bool × RichTextBuffer :=
  let range := if isEmptyRange buffer.selection then
      (buffer.cursorOffset, nextGraphemeBoundary buffer.text buffer.cursorOffset)
    else buffer.selection
  buffer.replaceAndUnmark range []

def inlineActive (flag : InlineFlag) : Bool :=
  if isEmptyRange buffer.selection then
    (buffer.pendingStyle.getD (buffer.styleForInsertion buffer.cursorOffset)).hasFlag flag
  else
    let selected := buffer.runs.filter fun run =>
      run.start < buffer.selection.2 && buffer.selection.1 < run.finish
    !selected.isEmpty && selected.all fun run => run.label.hasFlag flag

/-- One run of a text in which a range gets another style. -/
def restyle (start finish : Nat) (f : InlineStyle → InlineStyle) (updated : List StyleRun)
    (a b : Nat) (style : InlineStyle) : List StyleRun :=
  if b ≤ start ∨ finish ≤ a then pushStyleRun updated a b style
  else
    let updated := if a < start then pushStyleRun updated a start style else updated
    let updated := pushStyleRun updated (max a start) (min b finish) (f style)
    if finish < b then pushStyleRun updated finish b style else updated

def toggleInline (flag : InlineFlag) : Bool × RichTextBuffer :=
  if isEmptyRange buffer.selection then
    let current := buffer.pendingStyle.getD (buffer.styleForInsertion buffer.cursorOffset)
    (true, { buffer with pendingStyle := some (current.withFlag flag (!current.hasFlag flag)) })
  else
    let enabled := !buffer.inlineActive flag
    let updated := normalizeRuns buffer.text (buffer.runs.foldl (fun updated run =>
      restyle buffer.selection.1 buffer.selection.2 (·.withFlag flag enabled) updated
        run.start run.finish run.label) [])
    if markdownFitsWithLimit buffer.text updated buffer.blocks buffer.maxMarkdownBytes then
      (true, { buffer with runs := updated, pendingStyle := none })
    else (false, buffer)

def selectedLines : Nat × Nat :=
  let (start, finish) := buffer.selection
  let last := if start < finish then previousCharBoundary buffer.text finish else finish
  (lineAtOffset buffer.text start, lineAtOffset buffer.text last + 1)

/-- The blocks of some lines, unless the slice is out of bounds: then the source panics. -/
def blocksOf (lines : Nat × Nat) : Option (List BlockKind) :=
  if lines.1 ≤ lines.2 ∧ lines.2 ≤ buffer.blocks.length then
    some ((buffer.blocks.take lines.2).drop lines.1)
  else none

def withBlock (lines : Nat × Nat) (kind : BlockKind) : Bool × RichTextBuffer :=
  let blocks := buffer.blocks.take lines.1 ++ List.replicate (lines.2 - lines.1) kind ++
    buffer.blocks.drop lines.2
  if markdownFitsWithLimit buffer.text buffer.runs blocks buffer.maxMarkdownBytes then
    (true, { buffer with blocks })
  else (false, buffer)

def toggleBlock (target : BlockKind) : Option (Bool × RichTextBuffer) := do
  let lines := buffer.selectedLines
  let kinds ← buffer.blocksOf lines
  let enabled := !kinds.all (· = target)
  some (buffer.withBlock lines (if enabled then target else .paragraph))

def setBlock (target : BlockKind) : Option (Bool × RichTextBuffer) := do
  let lines := buffer.selectedLines
  let _ ← buffer.blocksOf lines
  some (buffer.withBlock lines target)

def isList (kind : BlockKind) : Bool := kind = .bulleted || kind = .numbered

def isHeading (kind : BlockKind) : Bool :=
  kind = .heading1 || kind = .heading2 || kind = .heading3

def insertNewline : Option (Bool × RichTextBuffer) := do
  let cursor := buffer.cursorOffset
  let line := lineAtOffset buffer.text cursor
  let (lineStart, lineEnd) ← (lineRanges buffer.text)[line]?
  let kind ← buffer.blocks[line]?
  if isEmptyRange buffer.selection && isList kind &&
      (slice buffer.text lineStart lineEnd).all isWhitespace then
    let blocks := buffer.blocks.set line .paragraph
    if markdownFitsWithLimit buffer.text buffer.runs blocks buffer.maxMarkdownBytes then
      some (true, { buffer with blocks, pendingStyle := some .default })
    else some (false, buffer)
  else
    match buffer.replaceRange buffer.selection ['\n'] with
    | none => some (false, buffer)
    | some (_, replaced) =>
      let blocks := if isHeading kind && cursor = lineEnd then
          replaced.blocks.set (line + 1) .paragraph
        else replaced.blocks
      some (true, { replaced with blocks, markedRange := none })

def rangeFromUtf16 (range : Nat × Nat) : Nat × Nat :=
  (offsetFromUtf16 buffer.text range.1, offsetFromUtf16 buffer.text range.2)

section

variable (range : Option (Nat × Nat))

def replacementRange : Nat × Nat :=
  ((range.map buffer.rangeFromUtf16).or buffer.markedRange).getD buffer.selection

def replaceTextUtf16 (newText : List Char) : Bool × RichTextBuffer :=
  buffer.replaceAndUnmark (buffer.replacementRange range) newText

def replaceAndMarkUtf16 (newText : List Char)
    (newSelection : Option (Nat × Nat)) : Bool × RichTextBuffer :=
  match buffer.replaceRange (buffer.replacementRange range) newText with
  | none => (false, buffer)
  | some (inserted, buffer) =>
    let buffer := { buffer with
      markedRange := if isEmptyRange inserted then none else some inserted }
    match newSelection with
    | none => (true, buffer)
    | some selection =>
      let insertedText := slice buffer.text inserted.1 inserted.2
      (true, { buffer with
        selection := (inserted.1 + offsetFromUtf16 insertedText selection.1,
          inserted.1 + offsetFromUtf16 insertedText selection.2) })

end

end

end RichTextBuffer

/-- The public operations that change a buffer. -/
inductive Operation
  | setSelection (range : Nat × Nat) (reversed : Bool)
  | moveTo (offset : Nat)
  | selectTo (offset : Nat)
  | selectAll
  | clearMarkedRange
  | replaceSelection (replacement : List Char)
  | backspace
  | deleteForward
  | toggleInline (flag : InlineFlag)
  | toggleBlock (target : BlockKind)
  | setBlock (target : BlockKind)
  | insertNewline
  | replaceTextUtf16 (range : Option (Nat × Nat)) (newText : List Char)
  | replaceAndMarkUtf16 (range : Option (Nat × Nat)) (newText : List Char)
      (newSelection : Option (Nat × Nat))

namespace RichTextBuffer

/-- An operation with what it returns, unless it panics. -/
def perform (buffer : RichTextBuffer) : Operation → Option (Bool × RichTextBuffer)
  | .setSelection range reversed => some (true, buffer.setSelection range reversed)
  | .moveTo offset => some (true, buffer.moveTo offset)
  | .selectTo offset => some (true, buffer.selectTo offset)
  | .selectAll => some (true, buffer.selectAll)
  | .clearMarkedRange => some (true, buffer.clearMarkedRange)
  | .replaceSelection replacement => some (buffer.replaceSelection replacement)
  | .backspace => some buffer.backspace
  | .deleteForward => some buffer.deleteForward
  | .toggleInline flag => some (buffer.toggleInline flag)
  | .toggleBlock target => buffer.toggleBlock target
  | .setBlock target => buffer.setBlock target
  | .insertNewline => buffer.insertNewline
  | .replaceTextUtf16 range newText => some (buffer.replaceTextUtf16 range newText)
  | .replaceAndMarkUtf16 range newText newSelection =>
    some (buffer.replaceAndMarkUtf16 range newText newSelection)

def step (buffer : RichTextBuffer) (operation : Operation) : Option RichTextBuffer :=
  (buffer.perform operation).map (·.2)

end RichTextBuffer

end KeyReader.Editor
