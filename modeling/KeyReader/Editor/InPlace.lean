import KeyReader.Editor.Buffer

/-! The operations of a buffer as the source performs them, field by field in place: an operation
that returns `false` has not written anything. -/

namespace KeyReader.Editor

open Utf8 Option Bool

namespace RichTextBuffer

/-- A method of `&mut self`: what it has written before it returns stays written.  A panic has no
result. -/
abbrev Method (α : Type) := StateT RichTextBuffer Option α

def setSelectionInPlace (range : Nat × Nat) (reversed : Bool) : Method Unit := do
  let start := floorCharBoundary (← get).text range.1
  let finish := floorCharBoundary (← get).text range.2
  modify ({ · with selection := (min start finish, max start finish) })
  let empty := isEmptyRange (← get).selection
  modify ({ · with selectionReversed := reversed && !empty })
  modify ({ · with pendingStyle := none })

def moveToInPlace (offset : Nat) : Method Unit := do
  let offset := floorCharBoundary (← get).text offset
  modify ({ · with selection := (offset, offset) })
  modify ({ · with selectionReversed := false })
  modify ({ · with pendingStyle := none })

def selectToInPlace (offset : Nat) : Method Unit := do
  let offset := floorCharBoundary (← get).text offset
  let buffer ← get
  let anchor := if buffer.selectionReversed then buffer.selection.2 else buffer.selection.1
  modify ({ · with selection := (min anchor offset, max anchor offset) })
  modify ({ · with selectionReversed := offset < anchor })
  modify ({ · with pendingStyle := none })

def selectAllInPlace : Method Unit := do
  let length := byteLength (← get).text
  modify ({ · with selection := (0, length) })
  modify ({ · with selectionReversed := false })
  modify ({ · with pendingStyle := none })

def clearMarkedRangeInPlace : Method Unit := modify ({ · with markedRange := none })

/-- The candidates for the fields are local until the last check has passed. -/
def replaceRangeInPlace (range : Nat × Nat) (replacement : List Char) :
    Method (Option (Nat × Nat)) := do
  let buffer ← get
  let start := floorCharBoundary buffer.text range.1
  let finish := max (floorCharBoundary buffer.text range.2) start
  let retained := byteLength buffer.text - (finish - start)
  if buffer.maxMarkdownBytes < retained + normalizedNewlineLen replacement then return none
  let replacement := normalizeNewlines replacement
  let insertionStyle := buffer.pendingStyle.getD (buffer.styleForInsertion start)
  let startLine := lineAtOffset buffer.text start
  let endLine := lineAtOffset buffer.text finish
  let inherited := buffer.blocks.getD startLine .paragraph
  let newBlocks := buffer.blocks.take startLine ++
    List.replicate (replacement.count '\n' + 1) inherited ++ buffer.blocks.drop (endLine + 1)
  let newEnd := start + byteLength replacement
  let newText := takeBytes start buffer.text ++ replacement ++ dropBytes finish buffer.text
  let newRuns := normalizeRuns newText
    (replaceRuns buffer.runs start finish (byteLength replacement) insertionStyle)
  if !markdownFitsWithLimit newText newRuns newBlocks buffer.maxMarkdownBytes then return none
  modify ({ · with text := newText })
  modify ({ · with runs := newRuns })
  modify ({ · with blocks := newBlocks })
  modify ({ · with selection := (newEnd, newEnd) })
  modify ({ · with selectionReversed := false })
  modify ({ · with pendingStyle := some insertionStyle })
  return some (start, newEnd)

/-- The end that the replacing operations share. -/
def replaceAndUnmarkInPlace (range : Nat × Nat) (replacement : List Char) : Method Bool := do
  if (← replaceRangeInPlace range replacement).isNone then return false
  modify ({ · with markedRange := none })
  return true

def replaceSelectionInPlace (replacement : List Char) : Method Bool := do
  let range := (← get).selection
  replaceAndUnmarkInPlace range replacement

def backspaceInPlace : Method Bool := do
  let buffer ← get
  let range := if isEmptyRange buffer.selection then
      (previousGraphemeBoundary buffer.text buffer.cursorOffset, buffer.cursorOffset)
    else buffer.selection
  replaceAndUnmarkInPlace range []

def deleteForwardInPlace : Method Bool := do
  let buffer ← get
  let range := if isEmptyRange buffer.selection then
      (buffer.cursorOffset, nextGraphemeBoundary buffer.text buffer.cursorOffset)
    else buffer.selection
  replaceAndUnmarkInPlace range []

def toggleInlineInPlace (flag : InlineFlag) : Method Bool := do
  let buffer ← get
  if isEmptyRange buffer.selection then
    let current := buffer.pendingStyle.getD (buffer.styleForInsertion buffer.cursorOffset)
    modify ({ · with pendingStyle := some (current.withFlag flag (!current.hasFlag flag)) })
    return true
  let enabled := !buffer.inlineActive flag
  let updated := normalizeRuns buffer.text (buffer.runs.foldl (fun updated run =>
    restyle buffer.selection.1 buffer.selection.2 (·.withFlag flag enabled) updated
      run.start run.finish run.label) [])
  if !markdownFitsWithLimit buffer.text updated buffer.blocks buffer.maxMarkdownBytes then
    return false
  modify ({ · with runs := updated })
  modify ({ · with pendingStyle := none })
  return true

/-- The end that `toggle_block` and `set_block` share. -/
def commitBlocksInPlace (updated : List BlockKind) : Method Bool := do
  let buffer ← get
  if !markdownFitsWithLimit buffer.text buffer.runs updated buffer.maxMarkdownBytes then
    return false
  modify ({ · with blocks := updated })
  return true

def updatedBlocks (blocks : List BlockKind) (lines : Nat × Nat) (kind : BlockKind) :
    List BlockKind :=
  blocks.take lines.1 ++ List.replicate (lines.2 - lines.1) kind ++ blocks.drop lines.2

def toggleBlockInPlace (target : BlockKind) : Method Bool := do
  let buffer ← get
  let lines := buffer.selectedLines
  let kinds ← buffer.blocksOf lines
  let enabled := !kinds.all (· = target)
  commitBlocksInPlace (updatedBlocks buffer.blocks lines (if enabled then target else .paragraph))

def setBlockInPlace (target : BlockKind) : Method Bool := do
  let buffer ← get
  let lines := buffer.selectedLines
  let _ ← buffer.blocksOf lines
  commitBlocksInPlace (updatedBlocks buffer.blocks lines target)

def insertNewlineInPlace : Method Bool := do
  let buffer ← get
  let cursor := buffer.cursorOffset
  let line := lineAtOffset buffer.text cursor
  let (lineStart, lineEnd) ← (lineRanges buffer.text)[line]?
  let kind ← buffer.blocks[line]?
  if isEmptyRange buffer.selection && isList kind &&
      (slice buffer.text lineStart lineEnd).all isWhitespace then
    let blocks := buffer.blocks.set line .paragraph
    if !markdownFitsWithLimit buffer.text buffer.runs blocks buffer.maxMarkdownBytes then
      return false
    modify ({ · with blocks })
    modify ({ · with pendingStyle := some .default })
    return true
  if (← replaceRangeInPlace buffer.selection ['\n']).isNone then return false
  if isHeading kind && cursor = lineEnd then
    modify fun buffer => { buffer with blocks := buffer.blocks.set (line + 1) .paragraph }
  modify ({ · with markedRange := none })
  return true

def replaceTextUtf16InPlace (range : Option (Nat × Nat)) (newText : List Char) :
    Method Bool := do
  let replacement := (← get).replacementRange range
  replaceAndUnmarkInPlace replacement newText

def replaceAndMarkUtf16InPlace (range : Option (Nat × Nat)) (newText : List Char)
    (newSelection : Option (Nat × Nat)) : Method Bool := do
  let replacement := (← get).replacementRange range
  match ← replaceRangeInPlace replacement newText with
  | none => return false
  | some inserted =>
    modify ({ · with markedRange := if isEmptyRange inserted then none else some inserted })
    match newSelection with
    | none => return true
    | some selection =>
      let insertedText := slice (← get).text inserted.1 inserted.2
      let relativeStart := offsetFromUtf16 insertedText selection.1
      let relativeEnd := offsetFromUtf16 insertedText selection.2
      modify ({ · with selection := (inserted.1 + relativeStart, inserted.1 + relativeEnd) })
      return true

/-- An operation in place.  One that returns nothing cannot fail. -/
def performInPlace : Operation → Method Bool
  | .setSelection range reversed => do setSelectionInPlace range reversed; return true
  | .moveTo offset => do moveToInPlace offset; return true
  | .selectTo offset => do selectToInPlace offset; return true
  | .selectAll => do selectAllInPlace; return true
  | .clearMarkedRange => do clearMarkedRangeInPlace; return true
  | .replaceSelection replacement => replaceSelectionInPlace replacement
  | .backspace => backspaceInPlace
  | .deleteForward => deleteForwardInPlace
  | .toggleInline flag => toggleInlineInPlace flag
  | .toggleBlock target => toggleBlockInPlace target
  | .setBlock target => setBlockInPlace target
  | .insertNewline => insertNewlineInPlace
  | .replaceTextUtf16 range newText => replaceTextUtf16InPlace range newText
  | .replaceAndMarkUtf16 range newText newSelection =>
    replaceAndMarkUtf16InPlace range newText newSelection

variable {α : Type}

theorem ite_unless (fits : Bool) (x y : α) :
    (if fits = false then x else y) = if fits then y else x := by cases fits <;> rfl

theorem run_ite (c : Prop) [Decidable c] (m n : Method α) (buffer : RichTextBuffer) :
    (if c then m else n).run buffer =
      if c then m.run buffer else n.run buffer := by
  split <;> rfl

theorem run_return (a : α) (buffer : RichTextBuffer) :
    (pure a : Method α).run buffer = some (a, buffer) := rfl

theorem run_get_bind (k : RichTextBuffer → Method α) (buffer : RichTextBuffer) :
    (get >>= k).run buffer = (k buffer).run buffer := rfl

theorem run_modify_bind (f : RichTextBuffer → RichTextBuffer) (k : PUnit → Method α)
    (buffer : RichTextBuffer) : (modify f >>= k).run buffer = (k ⟨⟩).run (f buffer) := rfl

theorem run_some_bind {β : Type} (a : α) (k : α → Method β) (buffer : RichTextBuffer) :
    (liftM (some a) >>= k).run buffer = (k a).run buffer := rfl

variable (buffer : RichTextBuffer)

theorem replaceRangeInPlace_run (range : Nat × Nat) (replacement : List Char) :
    (replaceRangeInPlace range replacement).run buffer =
      match buffer.replaceRange range replacement with
      | none => some (none, buffer)
      | some (inserted, next) => some (some inserted, next) := by
  simp only [replaceRangeInPlace, replaceRange, run_get_bind, run_ite, run_return,
    run_modify_bind, not_eq_true', ite_unless]
  by_cases hlength : buffer.maxMarkdownBytes < byteLength buffer.text -
      (max (floorCharBoundary buffer.text range.2) (floorCharBoundary buffer.text range.1) -
        floorCharBoundary buffer.text range.1) + normalizedNewlineLen replacement
  · rw [if_pos hlength, if_pos hlength]
  · rw [if_neg hlength, if_neg hlength]
    split <;> rfl

theorem replaceAndUnmarkInPlace_run (range : Nat × Nat) (replacement : List Char) :
    (replaceAndUnmarkInPlace range replacement).run buffer =
      some (buffer.replaceAndUnmark range replacement) := by
  rw [replaceAndUnmarkInPlace, StateT.run_bind, replaceRangeInPlace_run, replaceAndUnmark]
  cases buffer.replaceRange range replacement <;> rfl

theorem commitBlocksInPlace_run (lines : Nat × Nat) (kind : BlockKind) :
    (commitBlocksInPlace (updatedBlocks buffer.blocks lines kind)).run buffer =
      some (buffer.withBlock lines kind) := by
  simp only [commitBlocksInPlace, updatedBlocks, withBlock, run_get_bind, run_ite, run_return,
    run_modify_bind, not_eq_true', ite_unless]
  split <;> rfl

theorem toggleInlineInPlace_run (flag : InlineFlag) :
    (toggleInlineInPlace flag).run buffer = some (buffer.toggleInline flag) := by
  simp only [toggleInlineInPlace, toggleInline, run_get_bind, run_ite, run_return,
    run_modify_bind, not_eq_true', ite_unless]
  split
  · rfl
  · split <;> rfl

theorem toggleBlockInPlace_run (target : BlockKind) :
    (toggleBlockInPlace target).run buffer = buffer.toggleBlock target := by
  simp only [toggleBlockInPlace, toggleBlock, run_get_bind]
  cases buffer.blocksOf buffer.selectedLines with
  | none => rfl
  | some kinds => exact commitBlocksInPlace_run buffer _ _

theorem setBlockInPlace_run (target : BlockKind) :
    (setBlockInPlace target).run buffer = buffer.setBlock target := by
  simp only [setBlockInPlace, setBlock, run_get_bind]
  cases buffer.blocksOf buffer.selectedLines with
  | none => rfl
  | some kinds => exact commitBlocksInPlace_run buffer _ _

theorem insertNewlineInPlace_run : insertNewlineInPlace.run buffer = buffer.insertNewline := by
  simp only [insertNewlineInPlace, insertNewline, run_get_bind]
  cases (lineRanges buffer.text)[lineAtOffset buffer.text buffer.cursorOffset]? with
  | none => rfl
  | some line =>
    cases buffer.blocks[lineAtOffset buffer.text buffer.cursorOffset]? with
    | none => rfl
    | some kind =>
      simp only [run_some_bind, run_ite, run_return, run_modify_bind, not_eq_true', ite_unless,
        bind_eq_bind, bind_some]
      split
      · split <;> rfl
      · rw [StateT.run_bind, replaceRangeInPlace_run]
        cases buffer.replaceRange buffer.selection ['\n'] with
        | none => rfl
        | some replaced =>
          by_cases hend : (isHeading kind && decide (buffer.cursorOffset = line.2)) = true
          · simp only [hend, if_true]
            rfl
          · simp only [hend, false_eq_true, if_false]
            rfl

theorem replaceAndMarkUtf16InPlace_run (range : Option (Nat × Nat)) (newText : List Char)
    (newSelection : Option (Nat × Nat)) :
    (replaceAndMarkUtf16InPlace range newText newSelection).run buffer =
      some (buffer.replaceAndMarkUtf16 range newText newSelection) := by
  rw [replaceAndMarkUtf16InPlace, run_get_bind, StateT.run_bind, replaceRangeInPlace_run,
    replaceAndMarkUtf16]
  cases buffer.replaceRange (buffer.replacementRange range) newText with
  | none => rfl
  | some replaced => cases newSelection <;> rfl

theorem performInPlace_run (operation : Operation) :
    (performInPlace operation).run buffer = buffer.perform operation := by
  cases operation with
  | setSelection range reversed | moveTo offset | selectTo offset | selectAll | clearMarkedRange =>
    rfl
  | replaceSelection replacement =>
    rw [performInPlace, replaceSelectionInPlace, run_get_bind]
    exact replaceAndUnmarkInPlace_run buffer _ replacement
  | backspace =>
    rw [performInPlace, backspaceInPlace, run_get_bind]
    exact replaceAndUnmarkInPlace_run buffer _ []
  | deleteForward =>
    rw [performInPlace, deleteForwardInPlace, run_get_bind]
    exact replaceAndUnmarkInPlace_run buffer _ []
  | toggleInline flag => exact toggleInlineInPlace_run buffer flag
  | toggleBlock target => exact toggleBlockInPlace_run buffer target
  | setBlock target => exact setBlockInPlace_run buffer target
  | insertNewline => exact insertNewlineInPlace_run buffer
  | replaceTextUtf16 range newText =>
    rw [performInPlace, replaceTextUtf16InPlace, run_get_bind]
    exact replaceAndUnmarkInPlace_run buffer _ newText
  | replaceAndMarkUtf16 range newText newSelection =>
    exact replaceAndMarkUtf16InPlace_run buffer range newText newSelection

variable {buffer next : RichTextBuffer}

theorem replaceAndUnmark_rejected {range : Nat × Nat} {replacement : List Char}
    (h : buffer.replaceAndUnmark range replacement = (false, next)) : next = buffer := by
  rw [replaceAndUnmark] at h
  split at h
  · exact (Prod.mk.inj h).2.symm
  · cases h

theorem withBlock_rejected {lines : Nat × Nat} {kind : BlockKind}
    (h : buffer.withBlock lines kind = (false, next)) : next = buffer := by
  simp only [withBlock] at h
  split at h
  · cases h
  · exact (Prod.mk.inj h).2.symm

theorem toggleInline_rejected {flag : InlineFlag} (h : buffer.toggleInline flag = (false, next)) :
    next = buffer := by
  simp only [toggleInline] at h
  split at h
  · cases h
  · split at h
    · cases h
    · exact (Prod.mk.inj h).2.symm

theorem toggleBlock_rejected {target : BlockKind}
    (h : buffer.toggleBlock target = some (false, next)) : next = buffer := by
  rw [toggleBlock] at h
  obtain ⟨_, -, h⟩ := bind_eq_some_iff.mp h
  exact withBlock_rejected (some.inj h)

theorem setBlock_rejected {target : BlockKind} (h : buffer.setBlock target = some (false, next)) :
    next = buffer := by
  rw [setBlock] at h
  obtain ⟨_, -, h⟩ := bind_eq_some_iff.mp h
  exact withBlock_rejected (some.inj h)

theorem insertNewline_rejected (h : buffer.insertNewline = some (false, next)) : next = buffer := by
  rw [insertNewline] at h
  obtain ⟨_, -, h⟩ := bind_eq_some_iff.mp h
  obtain ⟨_, -, h⟩ := bind_eq_some_iff.mp h
  split at h
  · dsimp only at h
    split at h
    · cases h
    · exact (Prod.mk.inj (some.inj h)).2.symm
  · split at h
    · exact (Prod.mk.inj (some.inj h)).2.symm
    · cases h

theorem replaceAndMarkUtf16_rejected {range newSelection : Option (Nat × Nat)} {newText : List Char}
    (h : buffer.replaceAndMarkUtf16 range newText newSelection = (false, next)) :
    next = buffer := by
  rw [replaceAndMarkUtf16] at h
  split at h
  · exact (Prod.mk.inj h).2.symm
  · cases newSelection <;> cases h

theorem perform_rejected {operation : Operation} (h : buffer.perform operation = some (false, next)) :
    next = buffer := by
  cases operation with
  | setSelection range reversed | moveTo offset | selectTo offset | selectAll | clearMarkedRange =>
    cases h
  | replaceSelection replacement | backspace | deleteForward =>
    exact replaceAndUnmark_rejected (some.inj h)
  | toggleInline flag => exact toggleInline_rejected (some.inj h)
  | toggleBlock target => exact toggleBlock_rejected h
  | setBlock target => exact setBlock_rejected h
  | insertNewline => exact insertNewline_rejected h
  | replaceTextUtf16 range newText => exact replaceAndUnmark_rejected (some.inj h)
  | replaceAndMarkUtf16 range newText newSelection =>
    exact replaceAndMarkUtf16_rejected (some.inj h)

/-- A method that returns `false` leaves every field as it was. -/
theorem performInPlace_rejected {buffer next : RichTextBuffer} {operation : Operation}
    (h : (performInPlace operation).run buffer = some (false, next)) : next = buffer :=
  perform_rejected ((performInPlace_run buffer operation).symm.trans h)

/-- A buffer that holds one byte keeps what it has when two are inserted. -/
theorem performInPlace_rejected_full :
    ((performInPlace (.replaceSelection ['a', 'b'])).run (withMaxMarkdownBytes 1)).map (·.2) =
      some (withMaxMarkdownBytes 1) := by
  have h : ((performInPlace (.replaceSelection ['a', 'b'])).run
      (withMaxMarkdownBytes 1)).map (·.1) = some false := by decide +kernel
  obtain ⟨⟨returned, next⟩, hrun, hreturned⟩ := map_eq_some_iff.mp h
  cases hreturned
  rw [hrun, performInPlace_rejected hrun, map_some]

end RichTextBuffer

end KeyReader.Editor
