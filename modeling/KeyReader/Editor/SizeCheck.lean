import KeyReader.Editor.Markdown
import KeyReader.Machine

/-! The check of the size with the arithmetic of the source, which stops at an overflow or at the
limit: it agrees with the encoder. -/

namespace KeyReader.Editor

open Utf8 Runs Machine Option

/-- `usize::checked_mul`. -/
def checkedMul (a b : Nat) : Option Nat := if a * b ≤ u64Max then some (a * b) else none

/-- `encoded_inline_len`, which has no value where a sum overflows. -/
def checkedInlineLen (source : List Char) (style : InlineStyle) : Option Nat :=
  if source.isEmpty then some 0
  else if style.code then do
    let fenceLen ← checkedAdd (longestBacktickRun source) 1
    checkedAdd (byteLength source) (← checkedMul fenceLen 2)
  else do
    let escaped := source.countP isEscaped
    checkedAdd (← checkedAdd (byteLength source) escaped) (style.marker.length * 2)

/-- `add_with_limit`, which leaves the total at an overflow or beyond the limit. -/
def checkedAddWithLimit (limit total additional : Nat) : Option Nat := do
  let updated ← checkedAdd total additional
  if limit < updated then none else some updated

def checkedAddByteWhen (limit total : Nat) (needed : Bool) : Option Nat :=
  if needed then checkedAddWithLimit limit total 1 else some total

/-- The callback of `for_each_overlap`. -/
def checkedAddOverlap (text : List Char) (limit total : Nat) (run : StyleRun) : Option Nat := do
  let encodedLen ← checkedInlineLen (slice text run.start run.finish) run.label
  checkedAddWithLimit limit total encodedLen

/-- The loop over the lines. -/
def countMarkdown (text : List Char) (limit : Nat) :
    List ((Nat × Nat) × BlockKind) → Bool → StyleRunCursor → Nat → Option Nat
  | [], _, _, total => some total
  | ((start, finish), kind) :: lines, later, cursor, total => do
    let total ← checkedAddByteWhen limit total later
    let total ← checkedAddWithLimit limit total (prefixLen kind)
    let ((style, extent), cursor) := cursor.styleExtentAt start
    let total ← checkedAddByteWhen limit total
      (kind = .paragraph && paragraphPrefixNeedsEscape text start finish style extent)
    let (visited, cursor) := cursor.overlaps start finish
    let total ← visited.foldlM (checkedAddOverlap text limit) total
    countMarkdown text limit lines true cursor total

/-- `markdown_fits_with_limit`. -/
def markdownFits (text : List Char) (runs : List StyleRun) (blocks : List BlockKind)
    (limit : Nat) : Bool :=
  if (lineRanges text).length ≠ blocks.length then false
  else (countMarkdown text limit ((lineRanges text).zip blocks) false runs 0).isSome

/-- A text whose runs cover it in order between characters, with a block for each line. -/
structure WellFormed (text : List Char) (runs : List StyleRun) (blocks : List BlockKind) :
    Prop where
  tiled : Tiled 0 runs (byteLength text)
  edges : ∀ run ∈ runs, Boundary text run.start ∧ Boundary text run.finish
  blockPerLine : blocks.length = (lineRanges text).length

theorem checkedAddWithLimit_eq {limit : Nat} (hlimit : limit ≤ u64Max) (total additional : Nat) :
    checkedAddWithLimit limit total additional = addWithLimit limit total additional := by
  unfold checkedAddWithLimit checkedAdd addWithLimit
  by_cases hfits : total + additional ≤ limit
  · rw [if_pos (by omega), if_pos hfits]
    exact if_neg (by omega)
  · rw [if_neg hfits]
    split
    · exact if_pos (by omega)
    · rfl

theorem checkedAddByteWhen_eq {limit : Nat} (hlimit : limit ≤ u64Max) (total : Nat)
    (needed : Bool) : checkedAddByteWhen limit total needed = addByteWhen limit total needed := by
  rw [checkedAddByteWhen, addByteWhen, checkedAddWithLimit_eq hlimit]

theorem checkedInlineLen_cases (source : List Char) (style : InlineStyle) :
    checkedInlineLen source style = some (encodedInlineLen source style) ∨
      checkedInlineLen source style = none ∧ u64Max < encodedInlineLen source style := by
  unfold checkedInlineLen encodedInlineLen
  split
  · exact .inl rfl
  split
  · by_cases hfits : byteLength source + (longestBacktickRun source + 1) * 2 ≤ u64Max
    · left
      simp only [checkedAdd, checkedMul, bind_eq_bind]
      rw [if_pos (by omega), bind_some, if_pos (by omega), bind_some, if_pos hfits]
    · right
      refine ⟨?_, by omega⟩
      simp only [checkedAdd, checkedMul, bind_eq_bind]
      split
      · rw [bind_some]
        split
        · rw [bind_some, if_neg hfits]
        · rfl
      · rfl
  · dsimp only
    by_cases hfits : byteLength source + source.countP isEscaped + style.marker.length * 2 ≤ u64Max
    · left
      simp only [checkedAdd, bind_eq_bind]
      rw [if_pos (by omega), bind_some, if_pos hfits]
    · right
      refine ⟨?_, by omega⟩
      simp only [checkedAdd, bind_eq_bind]
      split
      · rw [bind_some, if_neg hfits]
      · rfl

theorem checkedAddOverlap_eq {limit : Nat} (hlimit : limit ≤ u64Max) (text : List Char)
    (total : Nat) (run : StyleRun) : checkedAddOverlap text limit total run =
      addWithLimit limit total
        (encodedInlineLen (slice text run.start run.finish) run.label) := by
  unfold checkedAddOverlap
  rcases checkedInlineLen_cases (slice text run.start run.finish) run.label with heq | ⟨heq, hlong⟩
  · rw [heq]
    exact checkedAddWithLimit_eq hlimit _ _
  · rw [heq, addWithLimit, if_neg (by omega)]
    rfl

theorem countMarkdown_eq {limit : Nat} (hlimit : limit ≤ u64Max) (text : List Char)
    (lines : List ((Nat × Nat) × BlockKind)) (later : Bool) (cursor : StyleRunCursor)
    (total : Nat) : countMarkdown text limit lines later cursor total =
      markdownFitsFrom text limit lines later cursor total := by
  have hoverlap : checkedAddOverlap text limit = fun total run =>
      addWithLimit limit total (encodedInlineLen (slice text run.start run.finish) run.label) :=
    funext fun total => funext fun run => checkedAddOverlap_eq hlimit text total run
  induction lines generalizing later cursor total with
  | nil => rfl
  | cons line lines ih =>
    obtain ⟨⟨start, finish⟩, kind⟩ := line
    simp only [countMarkdown, markdownFitsFrom, checkedAddByteWhen_eq hlimit,
      checkedAddWithLimit_eq hlimit, hoverlap, ih]

/-- The check says that the Markdown has at most as many bytes as the limit, which is a `usize`. -/
theorem markdownFits_iff {text : List Char} {runs : List StyleRun} {blocks : List BlockKind}
    (h : WellFormed text runs blocks) {limit : Nat} (hlimit : limit ≤ u64Max) :
    markdownFits text runs blocks limit = true ↔
      byteLength (markdownOf text runs blocks) ≤ limit := by
  have hsame : markdownFits text runs blocks limit = markdownFitsWithLimit text runs blocks limit := by
    rw [markdownFits, markdownFitsWithLimit, countMarkdown_eq hlimit]
  have hblocks := h.blockPerLine
  rw [length_lineRanges] at hblocks
  rw [hsame, markdownFitsWithLimit_iff]
  exact and_iff_right hblocks

/-- A list item of bold text and code has twelve bytes. -/
theorem markdownFits_item :
    ¬markdownFits ['a', '*', 'b'] [⟨0, 2, ⟨true, false, false⟩⟩, ⟨2, 3, ⟨false, false, true⟩⟩]
      [.bulleted] 11 = true := by
  have hwell : WellFormed ['a', '*', 'b']
      [⟨0, 2, ⟨true, false, false⟩⟩, ⟨2, 3, ⟨false, false, true⟩⟩] [.bulleted] := by
    refine ⟨⟨rfl, by decide, rfl, by decide, rfl⟩, ?_, rfl⟩
    intro run hrun
    refine ⟨isCharBoundary_iff.mp ?_, isCharBoundary_iff.mp ?_⟩ <;> revert run <;> decide
  intro hfits
  have hlength := (markdownFits_iff hwell (by decide)).mp hfits
  revert hlength
  decide

end KeyReader.Editor
