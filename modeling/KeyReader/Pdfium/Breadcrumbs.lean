import KeyReader.Pdfium.Contents

/-! The breadcrumb of an entry in the table of contents, which the reader rebuilds from the depths of
the entries before it. -/

namespace KeyReader.Pdfium

open List

variable {F : Type}

/-- The positions and titles of entries. -/
abbrev Path := List (Nat × List Char)

/-- The loop of `toc_breadcrumb_entries`, which leaves the path reversed. -/
def climb : List (TocEntry F × Nat) → Nat → Path → Path
  | [], _, path | _ :: _, 0, path => path
  | (entry, ancestor) :: before, parentDepth + 1, path =>
    if entry.depth = parentDepth then climb before parentDepth ((ancestor, entry.title) :: path)
    else climb before (parentDepth + 1) path

def tocBreadcrumbEntries (entries : List (TocEntry F)) (index : Nat) : Option Path :=
  entries[index]?.map fun current =>
    climb (entries.take index).zipIdx.reverse current.depth [(index, current.title)]

/-- The breadcrumbs of entries after some others. -/
def breadcrumbs (before : List (TocEntry F × Nat)) (position : Nat) : List (TocEntry F) → List Path
  | [] => []
  | entry :: entries => climb before entry.depth [(position, entry.title)] ::
      breadcrumbs ((entry, position) :: before) (position + 1) entries

variable {before : List (TocEntry F × Nat)} {entries : List (TocEntry F)} {position depth : Nat}

theorem breadcrumbs_append (more : List (TocEntry F)) :
    breadcrumbs before position (entries ++ more) = breadcrumbs before position entries ++
      breadcrumbs ((entries.zipIdx position).reverse ++ before)
        (position + (breadcrumbs before position entries).length) more := by
  induction entries generalizing before position with
  | nil => rfl
  | cons entry entries ih =>
    rw [cons_append, breadcrumbs, ih, breadcrumbs, zipIdx_cons, reverse_cons, append_assoc,
      length_cons, Nat.add_right_comm position]
    rfl

theorem getElem?_breadcrumbs (index : Nat) : (breadcrumbs before position entries)[index]? =
    entries[index]?.map fun current => climb (((entries.take index).zipIdx position).reverse ++ before)
      current.depth [(position + index, current.title)] := by
  induction entries generalizing before position index with
  | nil => rfl
  | cons entry entries ih =>
    cases index with
    | zero => rfl
    | succ index =>
      rw [breadcrumbs, getElem?_cons_succ, ih, getElem?_cons_succ, take_succ_cons, zipIdx_cons,
        reverse_cons, append_assoc, Nat.add_right_comm position]
      rfl

theorem climb_skips {skipped : List (TocEntry F × Nat)} (path : Path)
    (h : ∀ entry ∈ skipped, depth ≤ entry.1.depth) :
    climb (skipped ++ before) depth path = climb before depth path := by
  induction skipped with
  | nil => rfl
  | cons entry skipped ih =>
    cases depth with
    | zero => cases before <;> rfl
    | succ parentDepth =>
      have hentry := h entry mem_cons_self
      rw [cons_append, climb, if_neg (by omega)]
      exact ih fun other hother => h other (mem_cons_of_mem _ hother)

namespace Outline

/-- The entries of a forest in which every bookmark is usable. -/
def tocEntries (outline : Outline (TocEntry F)) (depth : Nat) : List (TocEntry F) :=
  (outline.preorder depth).map fun (entry, depth) => { entry with depth }

theorem tocEntries_node (entry : TocEntry F) (children siblings : Outline (TocEntry F)) :
    (node entry children siblings).tocEntries depth = { entry with depth } ::
      (children.tocEntries (depth + 1) ++ siblings.tocEntries depth) := by
  rw [tocEntries, preorder, map_cons, map_append]
  rfl

theorem depth_le (outline : Outline (TocEntry F)) :
    ∀ entry ∈ outline.tocEntries depth, depth ≤ entry.depth := by
  induction outline generalizing depth with
  | nil => exact fun _ h => nomatch h
  | node entry children siblings hchildren hsiblings =>
    intro other hother
    rw [tocEntries_node, mem_cons, mem_append] at hother
    rcases hother with rfl | hother | hother
    · exact le_rfl
    · exact Nat.le_of_succ_le (hchildren other hother)
    · exact hsiblings other hother

/-- For each bookmark, the ones from its root down to it. -/
def trails : Outline (TocEntry F) → Nat → Path → List Path
  | nil, _, _ => []
  | node entry children siblings, position, above =>
    let trail := above ++ [(position, entry.title)]
    let below := children.trails (position + 1) trail
    trail :: (below ++ siblings.trails (position + 1 + below.length) above)

/-- A climb from a forest goes through the bookmarks above it. -/
theorem breadcrumbs_tocEntries (outline : Outline (TocEntry F)) {above : Path}
    (habove : ∀ path, climb before depth path = above ++ path) :
    breadcrumbs before position (outline.tocEntries depth) = outline.trails position above := by
  induction outline generalizing before position depth above with
  | nil => rfl
  | node entry children siblings hchildren hsiblings =>
    have hbelow : breadcrumbs (({ entry with depth }, position) :: before) (position + 1)
        (children.tocEntries (depth + 1)) =
          children.trails (position + 1) (above ++ [(position, entry.title)]) := by
      refine hchildren fun path => ?_
      rw [climb, if_pos rfl, habove, append_assoc]
      rfl
    rw [tocEntries_node, breadcrumbs, breadcrumbs_append, hbelow, habove, trails]
    refine congrArg _ (congrArg _ (hsiblings fun path => ?_))
    rw [append_cons]
    refine (climb_skips path fun other hother => ?_).trans (habove path)
    rcases mem_append.mp hother with hother | hother
    · exact Nat.le_of_succ_le (children.depth_le _ (fst_mem_of_mem_zipIdx (mem_reverse.mp hother)))
    · cases mem_singleton.mp hother
      exact le_rfl

/-- Where every bookmark is usable the breadcrumb of an entry leads down the tree to it. -/
theorem tocBreadcrumbEntries_trails (outline : Outline (TocEntry F)) (index : Nat) :
    tocBreadcrumbEntries (outline.tocEntries 0) index = (outline.trails 0 [])[index]? := by
  have habove : ∀ path, climb ([] : List (TocEntry F × Nat)) 0 path = [] ++ path := fun _ => rfl
  rw [← outline.breadcrumbs_tocEntries habove, getElem?_breadcrumbs, append_nil, Nat.zero_add]
  rfl

end Outline

end KeyReader.Pdfium
