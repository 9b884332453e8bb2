import KeyReader.Utf8
import Mathlib.Algebra.Order.Ring.Nat
import Mathlib.Data.List.Nodup

/-! The table of contents of a document, from bookmarks whose pointers the file controls: it may
share them or lead them in a circle. -/

namespace KeyReader.Pdfium

open List Utf8

structure TocEntry (F : Type) where
  title : List Char
  page : Nat
  depth : Nat
  destinationY : Option F

/-- What the PDF library answers for a document.  The handle of a bookmark is its identity, and the
fractions of a destination on its page are computed in floating point. -/
structure Document (B D P F : Type) where
  root : Option B
  firstChild : B → Option B
  nextSibling : B → Option B
  titleWithLimit : B → Nat → Option (List Char)
  destination : B → Option D
  /-- The destination of the local action of a bookmark. -/
  actionDestination : B → Option D
  pageIndex : D → Option Int
  page : Nat → Option P
  fractions : P → D → Option F × Option F

namespace Document

variable {B D P F : Type} (document : Document B D P F) (pageCount : Nat)

variable [DecidableEq B]

end Document

/-- A finite forest: its first bookmark, the forest below that one and the forest after it. -/
inductive Outline (B : Type)
  | nil
  | node (bookmark : B) (children siblings : Outline B)

namespace Outline

variable {B D P F : Type} (document : Document B D P F)

/-- The bookmarks in preorder, each with its depth. -/
def preorder : Outline B → Nat → List (B × Nat)
  | nil, _ => []
  | node bookmark children siblings, depth =>
    (bookmark, depth) :: (children.preorder (depth + 1) ++ siblings.preorder depth)

end Outline

namespace Document

open Outline

variable {B D P F : Type} {document : Document B D P F} [DecidableEq B]

end Document

end KeyReader.Pdfium
