import KeyReader.Checked
import KeyReader.Machine
import Mathlib.Data.List.Sort
import Mathlib.Data.Prod.Lex

/-! The annotations of one document: validated text ranges, records, and the set that hands out
record ids and advances a revision with every change. -/

namespace KeyReader.Annotations

open Checked Machine

/-- A character of a document, ordered by page and then by index. -/
structure TextPosition where
  page : Nat
  index : Nat
  deriving DecidableEq

def TextPosition.key (position : TextPosition) : Lex (Nat × Nat) :=
  toLex (position.page, position.index)

theorem TextPosition.key_injective : Function.Injective TextPosition.key := by
  rintro ⟨p, i⟩ ⟨q, j⟩ h
  simpa [TextPosition.key] using h

instance : LinearOrder TextPosition := LinearOrder.lift' TextPosition.key TextPosition.key_injective

/-- An inclusive text range in document character order. -/
structure TextRange where
  start : TextPosition
  stop : TextPosition
  ordered : start ≤ stop
  deriving DecidableEq

inductive HighlightColor
  | yellow
  | green
  | blue
  | pink
  | purple
  deriving DecidableEq

inductive AnnotationError
  | commentTooLarge (bytes : Nat)
  | emptyComment
  | emptyAnnotation
  | pageOutOfRange (page pageCount : Nat)
  | characterIndexOutOfRange (index : Nat)
  | reversedTextRange
  | unknownAnnotation (id : Nat)
  | invalidAnnotationId (id : Nat)
  | duplicateAnnotationId (id : Nat)
  | invalidAnnotationRevision (id : Nat) (created updated document : Nat)
  | annotationIdExhausted
  | revisionExhausted
  deriving DecidableEq

def TextRange.new (first second : TextPosition) : TextRange :=
  if h : first ≤ second then ⟨first, second, h⟩ else ⟨second, first, le_of_not_ge h⟩

/-- A persisted range is never repaired: a reversed one is an error. -/
def TextRange.restore (start stop : TextPosition) : Except AnnotationError TextRange :=
  if h : start ≤ stop then .ok ⟨start, stop, h⟩ else .error .reversedTextRange

@[simp] theorem TextRange.restore_eq (range : TextRange) :
    TextRange.restore range.start range.stop = .ok range := by
  simp [TextRange.restore, range.ordered]

structure Annotation where
  id : Nat
  range : TextRange
  highlight : Option HighlightColor
  commentMarkdown : Option String
  createdRevision : Nat
  updatedRevision : Nat
  deriving DecidableEq

/-- The unchecked form of a record, with the same six fields: `restore` checks every one. -/
abbrev RestoredAnnotation := Annotation

structure AnnotationSet where
  pageCount : Nat
  records : List Annotation
  nextId : Option Nat
  revision : Nat
  deriving DecidableEq

def maxCommentBytes : Nat := 1024 * 1024

def maxTextCharacterIndex : Nat := 99999

def validatePosition (position : TextPosition) (pageCount : Nat) : Except AnnotationError Unit := do
  ensure (position.page < pageCount) (.pageOutOfRange position.page pageCount)
  ensure (position.index ≤ maxTextCharacterIndex) (.characterIndexOutOfRange position.index)

def validateRange (range : TextRange) (pageCount : Nat) : Except AnnotationError Unit := do
  validatePosition range.start pageCount
  validatePosition range.stop pageCount
  ensure (range.start ≤ range.stop) .reversedTextRange

/-- `char::is_whitespace`: the Unicode property `White_Space`. -/
def isWhitespace (character : Char) : Bool :=
  let code := character.toNat
  (9 ≤ code && code ≤ 13) || code == 32 || code == 133 || code == 160 || code == 5760 ||
    (8192 ≤ code && code ≤ 8202) || code == 8232 || code == 8233 || code == 8239 ||
    code == 8287 || code == 12288

def validateComment (comment : String) : Except AnnotationError Unit := do
  ensure (comment.utf8ByteSize ≤ maxCommentBytes) (.commentTooLarge comment.utf8ByteSize)
  ensure (¬comment.toList.all isWhitespace) .emptyComment

def validateContent (highlight : Option HighlightColor) (commentMarkdown : Option String) :
    Except AnnotationError Unit := do
  match commentMarkdown with
  | some comment => validateComment comment
  | none => ensure highlight.isSome AnnotationError.emptyAnnotation

/-- `left` comes before `right` in a set: by the start of the range and then by the id. -/
def annotationOrder (left right : Annotation) : Prop :=
  toLex (left.range.start, left.id) ≤ toLex (right.range.start, right.id)

instance : DecidableRel annotationOrder := fun _ _ => inferInstanceAs (Decidable (_ ≤ _))

instance : Std.Total annotationOrder := ⟨fun _ _ => le_total _ _⟩

instance : IsTrans Annotation annotationOrder := ⟨fun _ _ _ => le_trans⟩

/-- A record that was just added. -/
def addedRecord (id : Nat) (range : TextRange) (highlight : Option HighlightColor)
    (commentMarkdown : Option String) (revision : Nat) : Annotation :=
  { id, range, highlight, commentMarkdown, createdRevision := revision
    updatedRevision := revision }

@[simp] theorem addedRecord_id (id : Nat) (range : TextRange)
    (highlight : Option HighlightColor) (commentMarkdown : Option String) (revision : Nat) :
    (addedRecord id range highlight commentMarkdown revision).id = id := rfl

namespace AnnotationSet

def new (pageCount : Nat) : AnnotationSet :=
  { pageCount, records := [], nextId := some 1, revision := 0 }

section

variable (set : AnnotationSet)

def nextRevision : Except AnnotationError Nat :=
  okOr (checkedAdd set.revision 1) .revisionExhausted

def add (range : TextRange) (highlight : Option HighlightColor)
    (commentMarkdown : Option String) : Except AnnotationError (AnnotationSet × Nat) := do
  validateRange range set.pageCount
  validateContent highlight commentMarkdown
  let id ← okOr set.nextId .annotationIdExhausted
  let revision ← set.nextRevision
  let record := addedRecord id range highlight commentMarkdown revision
  .ok ({ set with
    records := (set.records ++ [record]).insertionSort annotationOrder
    revision
    nextId := checkedAdd id 1 }, id)

/-- Replaces the fields that a user edits.  The result is `false` for a valid change of nothing. -/
def update (id : Nat) (range : TextRange) (highlight : Option HighlightColor)
    (commentMarkdown : Option String) :
    Except AnnotationError (AnnotationSet × Bool) := do
  validateRange range set.pageCount
  validateContent highlight commentMarkdown
  let current ← okOr (set.records.find? (·.id = id)) <| AnnotationError.unknownAnnotation id
  if current.range = range ∧ current.highlight = highlight ∧
      current.commentMarkdown = commentMarkdown then
    .ok (set, false)
  else
    let revision ← set.nextRevision
    let index := set.records.findIdx (·.id = id)
    let record := { current with range, highlight, commentMarkdown, updatedRevision := revision }
    .ok ({ set with
      records := (set.records.set index record).insertionSort annotationOrder
      revision }, true)

/-- The result is `false`, and the revision unchanged, when no record has the id. -/
def delete (id : Nat) : Except AnnotationError (AnnotationSet × Bool) :=
  if set.records.any (·.id = id) then do
    let revision ← set.nextRevision
    .ok ({ set with records := set.records.eraseP (·.id = id), revision }, true)
  else .ok (set, false)

end

/-- The check of one record, after records with ids `seen`. -/
def checkRecord (pageCount revision : Nat) (seen : List Nat)
    (record : RestoredAnnotation) : Except AnnotationError Unit := do
  ensure (record.id ≠ 0) (.invalidAnnotationId record.id)
  ensure (record.id ∉ seen) (.duplicateAnnotationId record.id)
  validateRange record.range pageCount
  validateContent record.highlight record.commentMarkdown
  ensure (¬(record.createdRevision = 0 ∨ record.updatedRevision < record.createdRevision ∨
      revision < record.updatedRevision))
    (.invalidAnnotationRevision record.id record.createdRevision record.updatedRevision revision)

/-- The loop that `restore` and `validate` share: every record is checked against the ones before
it. -/
def checkRecords (pageCount revision : Nat) :
    List RestoredAnnotation → List Nat → Except AnnotationError Unit
  | [], _ => .ok ()
  | record :: rest, seen => do
    checkRecord pageCount revision seen record
    checkRecords pageCount revision rest (record.id :: seen)

def maximumId (records : List RestoredAnnotation) : Nat :=
  records.foldl (fun maximum record => max maximum record.id) 0

/-- Restores and validates a persisted snapshot as a whole. -/
def restore (pageCount revision : Nat) (records : List RestoredAnnotation) :
    Except AnnotationError AnnotationSet := do
  checkRecords pageCount revision records []
  .ok { pageCount
        records := records.insertionSort annotationOrder
        nextId := checkedAdd (maximumId records) 1
        revision }

/-- Revalidates a snapshot before it crosses a persistence boundary. -/
def validate (set : AnnotationSet) : Except AnnotationError Unit :=
  checkRecords set.pageCount set.revision set.records []

end AnnotationSet

end KeyReader.Annotations
