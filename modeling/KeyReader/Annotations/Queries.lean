import KeyReader.Annotations.History
import KeyReader.Sorted

/-! The queries of an annotation set.  Each one stops at the first record that starts too late, and
still finds every record that meets its condition, because the records are in order and no range
ends before it starts. -/

namespace KeyReader.Annotations

open Sorted List

def TextRange.contains (range : TextRange) (position : TextPosition) : Bool :=
  range.start ≤ position && position ≤ range.stop

def TextRange.overlaps (range other : TextRange) : Bool :=
  range.start ≤ other.stop && other.start ≤ range.stop

variable {position : TextPosition}

theorem TextRange.contains_iff {range : TextRange} :
    range.contains position = true ↔ range.start ≤ position ∧ position ≤ range.stop := by
  simp [TextRange.contains]

theorem TextPosition.le_iff {other : TextPosition} : position ≤ other ↔
    position.page < other.page ∨ position.page = other.page ∧ position.index ≤ other.index :=
  Prod.Lex.toLex_le_toLex

theorem TextPosition.page_le {other : TextPosition} (h : position ≤ other) :
    position.page ≤ other.page := by
  rcases TextPosition.le_iff.mp h with hlt | ⟨heq, -⟩
  · exact hlt.le
  · exact heq.le

namespace AnnotationSet

section

variable (set : AnnotationSet)

def onPage (page : Nat) : List Annotation :=
  (set.records.takeWhile fun record => record.range.start.page ≤ page).filter fun record =>
    page ≤ record.range.stop.page

def atPosition (position : TextPosition) : List Annotation :=
  (set.records.takeWhile fun record => record.range.start ≤ position).filter fun record =>
    record.range.contains position

def overlapping (range : TextRange) : List Annotation :=
  (set.records.takeWhile fun record => record.range.start ≤ range.stop).filter fun record =>
    record.range.overlaps range

/-- The annotation at a position that was edited last.  Equal revisions are told apart by id. -/
def topmostAt (position : TextPosition) : Option Annotation :=
  maxByKey (fun record => toLex (record.updatedRevision, record.id)) (set.atPosition position)

end

structure Selects (set : AnnotationSet) (condition : Annotation → Prop)
    (result : List Annotation) : Prop where
  mem_iff : ∀ record, record ∈ result ↔ record ∈ set.records ∧ condition record
  ordered : result.Pairwise fun record later =>
    toLex (record.range.start, record.id) < toLex (later.range.start, later.id)

theorem annotationOrder_start_le {record later : Annotation} (h : annotationOrder record later) :
    record.range.start ≤ later.range.start := by
  rcases Prod.Lex.toLex_le_toLex.mp h with hlt | ⟨heq, -⟩
  · exact hlt.le
  · exact le_of_eq heq

variable {set : AnnotationSet}

section

variable (h : set.Valid)

include h

theorem Valid.strict : set.records.Pairwise fun record later =>
      toLex (record.range.start, record.id) < toLex (later.range.start, later.id) := by
  have hids : set.records.Pairwise fun record later => record.id ≠ later.id :=
    pairwise_map.mp h.nodup
  refine (h.sorted.and hids).imp ?_
  rintro record later ⟨hle, hne⟩
  apply lt_of_le_of_ne hle
  intro heq
  exact hne (Prod.ext_iff.mp (toLex_inj.mp heq)).2

theorem Valid.selects (early : TextPosition → Bool) {meets : Annotation → Bool}
    {condition : Annotation → Prop}
    (hearly : ∀ start later, start ≤ later → early later = true → early start = true)
    (hcondition : ∀ record, condition record ↔ early record.range.start = true ∧ meets record = true) :
    set.Selects condition
      ((set.records.takeWhile fun record => early record.range.start).filter meets) := by
  rw [takeWhile_eq_filter h.sorted fun record later horder =>
    hearly _ _ (annotationOrder_start_le horder)]
  constructor
  · intro record
    rw [mem_filter, mem_filter, hcondition, and_assoc]
  · exact (h.strict.filter _).filter _

theorem Valid.onPage (page : Nat) :
    set.Selects (fun record => record.range.start.page ≤ page ∧ page ≤ record.range.stop.page)
      (set.onPage page) := by
  apply h.selects (fun start => start.page ≤ page)
  · intro start later hle hlater
    exact decide_eq_true ((TextPosition.page_le hle).trans (of_decide_eq_true hlater))
  · intro record
    simp

theorem Valid.atPosition (position : TextPosition) :
    set.Selects (fun record => record.range.contains position = true)
      (set.atPosition position) := by
  apply h.selects (fun start => start ≤ position)
  · intro start later hle hlater
    exact decide_eq_true (hle.trans (of_decide_eq_true hlater))
  · intro record
    simp only [TextRange.contains_iff, decide_eq_true_eq]
    tauto

theorem Valid.overlapping (range : TextRange) :
    set.Selects (fun record => record.range.overlaps range = true) (set.overlapping range) := by
  apply h.selects (fun start => start ≤ range.stop)
  · intro start later hle hlater
    exact decide_eq_true (hle.trans (of_decide_eq_true hlater))
  · intro record
    simp only [TextRange.overlaps, Bool.and_eq_true, decide_eq_true_eq]
    tauto

theorem Valid.topmostAt_eq_some (position : TextPosition) (record : Annotation) :
    set.topmostAt position = some record ↔
      record ∈ set.atPosition position ∧ ∀ other ∈ set.atPosition position,
        toLex (other.updatedRevision, other.id) ≤ toLex (record.updatedRevision, record.id) := by
  constructor
  · exact maxByKey_greatest
  rintro ⟨hmem, hgreatest⟩
  cases htop : set.topmostAt position with
  | none =>
    rw [maxByKey_eq_none.mp htop] at hmem
    cases hmem
  | some top =>
    obtain ⟨htopMem, htopGreatest⟩ := maxByKey_greatest htop
    have hkey := le_antisymm (hgreatest top htopMem) (htopGreatest record hmem)
    have hid : top.id = record.id := (Prod.ext_iff.mp (toLex_inj.mp hkey)).2
    have hselects := h.atPosition position
    congr 1
    exact inj_on_of_nodup_map h.nodup ((hselects.mem_iff top).mp htopMem).1
      ((hselects.mem_iff record).mp hmem).1 hid

end

/-- The queries of a set find what a scan of all of its records finds. -/
theorem Reachable.queries_select {set : AnnotationSet} (h : set.Reachable) : (∀ page, set.Selects
      (fun record => record.range.start.page ≤ page ∧ page ≤ record.range.stop.page)
      (set.onPage page)) ∧
    (∀ position, set.Selects (fun record => record.range.contains position = true)
      (set.atPosition position)) ∧
    (∀ range, set.Selects (fun record => record.range.overlaps range = true)
      (set.overlapping range)) ∧
    ∀ position record, set.topmostAt position = some record ↔
      (record ∈ set.records ∧ record.range.contains position = true) ∧
        ∀ other ∈ set.records, other.range.contains position = true →
          toLex (other.updatedRevision, other.id) ≤
            toLex (record.updatedRevision, record.id) := by
  have hvalid := h.wellFormed.toValid
  refine ⟨hvalid.onPage, hvalid.atPosition, hvalid.overlapping, ?_⟩
  intro position record
  have hselects := (hvalid.atPosition position).mem_iff
  rw [hvalid.topmostAt_eq_some, hselects]
  apply and_congr_right
  intro _
  constructor
  · intro hall other hother hcontains
    exact hall other ((hselects other).mpr ⟨hother, hcontains⟩)
  · intro hall other hother
    exact hall other ((hselects other).mp hother).1 ((hselects other).mp hother).2

/-- A page with a highlight, and a later highlight of a part of it. -/
def nested : AnnotationSet :=
  ((new 1).run [.add (.new ⟨0, 2⟩ ⟨0, 9⟩) (some .yellow) none,
    .add (.new ⟨0, 3⟩ ⟨0, 4⟩) (some .green) none]).1

theorem nested_queries_select : nested.Selects (fun record => record.range.contains ⟨0, 7⟩ = true)
      (nested.atPosition ⟨0, 7⟩) :=
  (Reachable.queries_select ((Reachable.new 1).run _)).2.1 ⟨0, 7⟩

end AnnotationSet

end KeyReader.Annotations
