import KeyReader.Runs
import KeyReader.Utf8

/-! The text of the editor: its lines, its line breaks, and the offsets at which a caret may be. -/

namespace KeyReader.Editor

open Utf8 List

/-- `line_ranges`, from the rest of a text on. -/
def lineRangesFrom : List Char → Nat → Nat → List (Nat × Nat)
  | [], index, start => [(start, index)]
  | character :: text, index, start =>
    if character = '\n' then (start, index) :: lineRangesFrom text (index + 1) (index + 1)
    else lineRangesFrom text (index + character.utf8Size) start

section

variable (text : List Char)

/-- The bytes of every line, with an empty line after a line break at the end. -/
def lineRanges : List (Nat × Nat) :=
  lineRangesFrom text 0 0

/-- The line of an offset: the number of line breaks before it. -/
def lineAtOffset : List Char → Nat → Nat
  | [], _ => 0
  | character :: text, offset =>
    if offset = 0 then 0
    else (if character = '\n' then 1 else 0) + lineAtOffset text (offset - character.utf8Size)

def replaceCrLf : List Char → List Char
  | [] => []
  | [character] => [character]
  | first :: second :: text =>
    if first = '\r' ∧ second = '\n' then '\n' :: replaceCrLf text
    else first :: replaceCrLf (second :: text)

def normalizeNewlines : List Char :=
  (replaceCrLf text).map fun character => if character = '\r' then '\n' else character

/-- The bytes of the text once its line breaks are normalized. -/
def normalizedNewlineLen : List Char → Nat
  | [] => 0
  | [character] => character.utf8Size
  | first :: second :: text =>
    if first = '\r' ∧ second = '\n' then 1 + normalizedNewlineLen text
    else first.utf8Size + normalizedNewlineLen (second :: text)

section

variable (offset : Nat)

def floorCharBoundary : Nat :=
  floorBoundary text (min offset (byteLength text))

def previousCharBoundary : Nat :=
  let offset := floorCharBoundary text offset
  match (takeBytes offset text).getLast? with
  | none => 0
  | some last => offset - last.utf8Size

def isGraphemeExtend (character : Char) : Bool :=
  let code := character.toNat
  (0x0300 ≤ code && code ≤ 0x036F) || (0x1AB0 ≤ code && code ≤ 0x1AFF) ||
    (0x1DC0 ≤ code && code ≤ 0x1DFF) || (0x20D0 ≤ code && code ≤ 0x20FF) ||
    (0xFE00 ≤ code && code ≤ 0xFE0F) || (0xFE20 ≤ code && code ≤ 0xFE2F) ||
    (0x1F3FB ≤ code && code ≤ 0x1F3FF) || (0xE0100 ≤ code && code ≤ 0xE01EF)

def isRegionalIndicator (character : Char) : Bool :=
  0x1F1E6 ≤ character.toNat && character.toNat ≤ 0x1F1FF

/-- The bytes of the marks and joined characters that belong to the character before. -/
def clusterLength : List Char → Nat
  | [] => 0
  | [character] =>
    if isGraphemeExtend character || character.toNat = 0x200D then character.utf8Size else 0
  | character :: joined :: text =>
    if isGraphemeExtend character then character.utf8Size + clusterLength (joined :: text)
    else if character.toNat = 0x200D then
      character.utf8Size + (joined.utf8Size + clusterLength text)
    else 0

def nextGraphemeBoundary : Nat :=
  let start := floorCharBoundary text offset
  match dropBytes start text with
  | [] => byteLength text
  | [first] => start + first.utf8Size
  | first :: second :: rest =>
    if first = '\r' ∧ second = '\n' then start + first.utf8Size + 1
    else if isRegionalIndicator first && isRegionalIndicator second then
      start + first.utf8Size + second.utf8Size + clusterLength rest
    else start + first.utf8Size + clusterLength (second :: rest)

/-- The loop of `previous_grapheme_boundary`, which moves on by a byte at least in each turn. -/
def previousGraphemeFrom (text : List Char) (offset : Nat) : Nat → Nat → Nat
  | 0, current => current
  | turns + 1, current =>
    if offset ≤ nextGraphemeBoundary text current then current
    else previousGraphemeFrom text offset turns (nextGraphemeBoundary text current)

def previousGraphemeBoundary : Nat :=
  let offset := floorCharBoundary text offset
  if offset = 0 then 0 else previousGraphemeFrom text offset offset 0

theorem floorCharBoundary_boundary : Boundary text (floorCharBoundary text offset) :=
  floorBoundary_boundary text _

theorem floorCharBoundary_eq {text : List Char} {offset : Nat} (h : Boundary text offset) :
    floorCharBoundary text offset = offset := by
  rw [floorCharBoundary, Nat.min_eq_left h.le, floorBoundary_eq h]

theorem length_lineRanges : (lineRanges text).length = text.count '\n' + 1 := by
  suffices h : ∀ index start, (lineRangesFrom text index start).length = text.count '\n' + 1 from
    h 0 0
  induction text with
  | nil => exact fun _ _ => rfl
  | cons character text ih =>
    intro index start
    rw [lineRangesFrom, count_cons]
    by_cases h : character = '\n'
    · rw [if_pos h, length_cons, ih, if_pos (by simpa using h)]
    · rw [if_neg h, ih, if_neg (by simpa using h), Nat.add_zero]

theorem lineAtOffset_mono {offset later : Nat} (h : offset ≤ later) :
    lineAtOffset text offset ≤ lineAtOffset text later := by
  induction text generalizing offset later with
  | nil => exact Nat.le.refl
  | cons character text ih =>
    rw [lineAtOffset, lineAtOffset]
    by_cases hzero : offset = 0
    · rw [if_pos hzero]
      exact Nat.zero_le _
    · rw [if_neg hzero, if_neg (show ¬later = 0 by omega)]
      exact Nat.add_le_add_left (ih (by omega)) _

theorem lineAtOffset_le : lineAtOffset text offset ≤ text.count '\n' := by
  induction text generalizing offset with
  | nil => exact Nat.le.refl
  | cons character text ih =>
    have hrest := ih (offset - character.utf8Size)
    rw [lineAtOffset, count_cons]
    by_cases hzero : offset = 0
    · rw [if_pos hzero]
      exact Nat.zero_le _
    · rw [if_neg hzero]
      by_cases h : character = '\n'
      · rw [if_pos h, if_pos (by simpa using h)]
        omega
      · rw [if_neg h, if_neg (by simpa using h)]
        omega

end

theorem le_previousCharBoundary {text : List Char} {start finish : Nat}
    (hstart : Boundary text start) (hfinish : Boundary text finish) (h : start < finish) :
    start ≤ previousCharBoundary text finish := by
  rw [previousCharBoundary, floorCharBoundary_eq hfinish]
  obtain ⟨before, middle, after, rfl, rfl, rfl⟩ := hstart.split hfinish (Nat.le_of_lt h)
  rw [takeBytes_byteLength]
  cases middle using reverseRecOn with
  | nil =>
    rw [append_nil] at h
    exact absurd h (Nat.lt_irrefl _)
  | append_singleton middle last =>
    rw [← append_assoc, getLast?_concat]
    simp only [byteLength_append, byteLength_cons, byteLength_nil]
    omega

theorem not_mem_normalizeNewlines : '\r' ∉ normalizeNewlines text := by
  rw [normalizeNewlines, mem_map]
  rintro ⟨character, -, h⟩
  split at h
  · cases h
  · rename_i hne
    exact hne h

end

end KeyReader.Editor

/-! The Markdown of a text with styles and blocks, and the check that it fits a limit. -/

namespace KeyReader.Editor

open Utf8 Runs List Option

/-- The block style of a line. -/
inductive BlockKind
  | paragraph
  | heading1
  | heading2
  | heading3
  | bulleted
  | numbered
  | quote
  deriving DecidableEq

/-- The flags of `InlineStyle`, of which the code has three bits. -/
structure InlineStyle where
  bold : Bool
  italic : Bool
  code : Bool
  deriving DecidableEq

inductive InlineFlag
  | bold
  | italic
  | code
  deriving DecidableEq

namespace InlineStyle

def default : InlineStyle := ⟨false, false, false⟩

section

variable (style : InlineStyle)

def hasFlag : InlineFlag → Bool
  | .bold => style.bold
  | .italic => style.italic
  | .code => style.code

def withFlag (flag : InlineFlag) (enabled : Bool) : InlineStyle :=
  match flag, enabled with
  | .code, true => ⟨false, false, true⟩
  | .bold, true => { style with code := false, bold := true }
  | .italic, true => { style with code := false, italic := true }
  | .code, false => { style with code := false }
  | .bold, false => { style with bold := false }
  | .italic, false => { style with italic := false }

def Valid : Prop :=
  style.code → ¬style.bold ∧ ¬style.italic

end

theorem Valid.default : InlineStyle.default.Valid := nofun

theorem Valid.withFlag {style : InlineStyle} (h : style.Valid) (flag : InlineFlag)
    (enabled : Bool) : (style.withFlag flag enabled).Valid := by
  cases flag <;> cases enabled <;> simp_all [Valid, InlineStyle.withFlag]

end InlineStyle

abbrev StyleRun := Run InlineStyle

def pushStyleRun (runs : List StyleRun) (start finish : Nat) (style : InlineStyle) :
    List StyleRun := push runs start finish style

/-- One turn of `normalize_runs`: the gap before a run, and what is left of the run. -/
def normalizeRun (length : Nat) (state : List StyleRun × Nat) (start finish : Nat)
    (style : InlineStyle) : List StyleRun × Nat :=
  let (runs, cursor) := state
  let start := min (max start cursor) length
  let finish := min (max finish start) length
  let runs := if cursor < start then pushStyleRun runs cursor start .default else runs
  (pushStyleRun runs start finish style, finish)

def normalizeRuns (text : List Char) (runs : List StyleRun) : List StyleRun :=
  let (runs, cursor) := runs.foldl (fun state run =>
    normalizeRun (byteLength text) state run.start run.finish run.label) ([], 0)
  if cursor < byteLength text then pushStyleRun runs cursor (byteLength text) .default else runs

/-- A cursor over the runs: those that are not passed yet. -/
abbrev StyleRunCursor := List StyleRun

namespace StyleRunCursor

section

variable (cursor : StyleRunCursor)

def advanceTo (offset : Nat) : StyleRunCursor :=
  cursor.dropWhile (·.finish ≤ offset)

def styleExtentAt (offset : Nat) : (InlineStyle × Nat) × StyleRunCursor :=
  let cursor := cursor.advanceTo offset
  match cursor with
  | [] => ((.default, offset), cursor)
  | run :: _ =>
    if run.start ≤ offset ∧ offset < run.finish then ((run.label, run.finish), cursor)
    else ((.default, offset), cursor)

/-- The parts of the runs before `finish`, and the runs that reach beyond. -/
def overlapsBefore (start finish : Nat) : StyleRunCursor → List StyleRun × StyleRunCursor
  | [] => ([], [])
  | run :: runs =>
    if finish ≤ run.start then ([], run :: runs)
    else
      let overlap : StyleRun := ⟨max run.start start, min run.finish finish, run.label⟩
      let visited := if overlap.start < overlap.finish then [overlap] else []
      if run.finish ≤ finish then
        let (more, cursor) := overlapsBefore start finish runs
        (visited ++ more, cursor)
      else (visited, run :: runs)

/-- The parts of the runs that `for_each_overlap` visits. -/
def overlaps (start finish : Nat) : List StyleRun × StyleRunCursor :=
  if finish ≤ start then ([], cursor)
  else overlapsBefore start finish (cursor.advanceTo start)

end

end StyleRunCursor

/-- The character that opens and closes code. -/
def backtick : Char := Char.ofNat 0x60

/-- The characters that have a meaning in a text. -/
def isEscaped (character : Char) : Bool :=
  character = '\\' || character = '*' || character = backtick

section

variable (source : List Char)

def escapeInline : List Char :=
  source.flatMap fun character => if isEscaped character then ['\\', character] else [character]

/-- The longest run of backticks, where `current` are before the text. -/
def longestBacktickRunFrom : List Char → Nat → Nat → Nat
  | [], _, longest => longest
  | character :: source, current, longest =>
    if character = backtick then
      longestBacktickRunFrom source (current + 1) (max longest (current + 1))
    else longestBacktickRunFrom source 0 longest

def longestBacktickRun : Nat :=
  longestBacktickRunFrom source 0 0

/-- The marker before and after a text that is not code. -/
def InlineStyle.marker (style : InlineStyle) : List Char :=
  match style.bold, style.italic with
  | true, true => ['*', '*', '*']
  | true, false => ['*', '*']
  | false, true => ['*']
  | false, false => []

def encodeInline (style : InlineStyle) : List Char :=
  if source.isEmpty then []
  else if style.code then
    let fence := List.replicate (longestBacktickRun source + 1) backtick
    fence ++ source ++ fence
  else style.marker ++ escapeInline source ++ style.marker

def encodedInlineLen (style : InlineStyle) : Nat :=
  if source.isEmpty then 0
  else if style.code then byteLength source + (longestBacktickRun source + 1) * 2
  else byteLength source + source.countP isEscaped + style.marker.length * 2

end

def blockPrefix : BlockKind → List Char
  | .paragraph => []
  | .heading1 => ['#', ' ']
  | .heading2 => ['#', '#', ' ']
  | .heading3 => ['#', '#', '#', ' ']
  | .bulleted => ['-', ' ']
  | .numbered => ['1', '.', ' ']
  | .quote => ['>', ' ']

def prefixLen : BlockKind → Nat
  | .paragraph => 0
  | .heading1 => 2
  | .heading2 => 3
  | .heading3 => 4
  | .bulleted => 2
  | .numbered => 3
  | .quote => 2

def isDigit (character : Char) : Bool := 0x30 ≤ character.toNat && character.toNat ≤ 0x39

/-- The number of characters of a list number and what follows it. -/
def looksNumberedPrefix (line : List Char) : Option Nat :=
  let digits := (line.takeWhile isDigit).length
  if 0 < digits ∧ (line.drop digits).take 2 = ['.', ' '] then some (digits + 2) else none

def paragraphPrefixNeedsEscape (text : List Char) (start finish : Nat) (firstStyle : InlineStyle)
    (firstRunEnd : Nat) : Bool :=
  if start = finish ∨ firstStyle ≠ .default then false
  else
    let first := slice text start (min firstRunEnd finish)
    ['-', ' '].isPrefixOf first || (looksNumberedPrefix first).isSome

/-- The lines of `markdown_with_run_operations`, of which `later` are not the first. -/
def markdownFrom (text : List Char) :
    List ((Nat × Nat) × BlockKind) → Bool → StyleRunCursor → List Char
  | [], _, _ => []
  | ((start, finish), kind) :: lines, later, cursor =>
    let ((style, extent), cursor) := cursor.styleExtentAt start
    let escape := if kind = .paragraph &&
        paragraphPrefixNeedsEscape text start finish style extent then ['\\'] else []
    let (visited, cursor) := cursor.overlaps start finish
    let line := blockPrefix kind ++ escape ++
      visited.flatMap fun run => encodeInline (slice text run.start run.finish) run.label
    (if later then ['\n'] else []) ++ line ++ markdownFrom text lines true cursor

def markdownOf (text : List Char) (runs : List StyleRun) (blocks : List BlockKind) : List Char :=
  markdownFrom text ((lineRanges text).zip blocks) false runs

/-- A total that stays within a limit. -/
def addWithLimit (limit total additional : Nat) : Option Nat :=
  if total + additional ≤ limit then some (total + additional) else none

def addByteWhen (limit total : Nat) (needed : Bool) : Option Nat :=
  if needed then addWithLimit limit total 1 else some total

def markdownFitsFrom (text : List Char) (limit : Nat) :
    List ((Nat × Nat) × BlockKind) → Bool → StyleRunCursor → Nat → Option Nat
  | [], _, _, total => some total
  | ((start, finish), kind) :: lines, later, cursor, total => do
    let total ← addByteWhen limit total later
    let total ← addWithLimit limit total (prefixLen kind)
    let ((style, extent), cursor) := cursor.styleExtentAt start
    let total ← addByteWhen limit total
      (kind = .paragraph && paragraphPrefixNeedsEscape text start finish style extent)
    let (visited, cursor) := cursor.overlaps start finish
    let total ← visited.foldlM (fun total run =>
      addWithLimit limit total (encodedInlineLen (slice text run.start run.finish) run.label)) total
    markdownFitsFrom text limit lines true cursor total

def markdownFitsWithLimit (text : List Char) (runs : List StyleRun) (blocks : List BlockKind)
    (limit : Nat) : Bool :=
  if (lineRanges text).length ≠ blocks.length then false
  else (markdownFitsFrom text limit ((lineRanges text).zip blocks) false runs 0).isSome

theorem byteLength_escapeInline (source : List Char) :
    byteLength (escapeInline source) = byteLength source + source.countP isEscaped := by
  induction source with
  | nil => rfl
  | cons character source ih =>
    have hcons : escapeInline (character :: source) =
        (if isEscaped character then ['\\', character] else [character]) ++ escapeInline source :=
      rfl
    rw [hcons, byteLength_append, ih, countP_cons, byteLength_cons]
    by_cases h : isEscaped character
    · have hslash : byteLength ['\\', character] = 1 + character.utf8Size := rfl
      rw [if_pos h, if_pos h, hslash]
      omega
    · have hplain : byteLength [character] = character.utf8Size := rfl
      rw [if_neg h, if_neg h, hplain]
      omega

theorem byteLength_replicate {character : Char} (h : character.utf8Size = 1) (count : Nat) :
    byteLength (List.replicate count character) = count := by
  induction count with
  | zero => rfl
  | succ count ih =>
    rw [replicate_succ, byteLength_cons, ih, h, Nat.add_comm]

theorem byteLength_encodeInline (source : List Char) (style : InlineStyle) :
    byteLength (encodeInline source style) = encodedInlineLen source style := by
  unfold encodeInline encodedInlineLen
  split
  · rfl
  split
  · dsimp only
    rw [byteLength_append, byteLength_append, byteLength_replicate (by decide)]
    omega
  · have hmarker : byteLength style.marker = style.marker.length := by
      unfold InlineStyle.marker
      split <;> rfl
    rw [byteLength_append, byteLength_append, byteLength_escapeInline, hmarker]
    omega

theorem byteLength_blockPrefix (kind : BlockKind) :
    byteLength (blockPrefix kind) = prefixLen kind := by
  cases kind <;> rfl

section

variable (text : List Char)

theorem foldlM_addWithLimit (limit : Nat) (visited : List StyleRun) : ∀ total, total ≤ limit →
      visited.foldlM (fun total run =>
        addWithLimit limit total (encodedInlineLen (slice text run.start run.finish) run.label))
        total =
      addWithLimit limit total (byteLength (visited.flatMap fun run =>
        encodeInline (slice text run.start run.finish) run.label)) := by
  induction visited with
  | nil =>
    intro total htotal
    exact (if_pos htotal).symm
  | cons run visited ih =>
    intro total htotal
    rw [foldlM_cons, flatMap_cons, byteLength_append, byteLength_encodeInline]
    unfold addWithLimit
    split
    · rename_i hle
      rw [bind_eq_bind, bind_some]
      refine (ih _ hle).trans ?_
      unfold addWithLimit
      rw [Nat.add_assoc]
    · rename_i hgt
      rw [if_neg (by omega)]
      rfl

theorem addWithLimit_bind {limit total first : Nat} {f : Nat → Option Nat} {second : Nat}
    (h : total + first ≤ limit → f (total + first) = addWithLimit limit (total + first) second) :
    (addWithLimit limit total first >>= f) = addWithLimit limit total (first + second) := by
  unfold addWithLimit at h ⊢
  split
  · rename_i hle
    rw [bind_eq_bind, bind_some, h hle, Nat.add_assoc]
  · rename_i hgt
    rw [if_neg (by omega)]
    rfl

theorem markdownFitsFrom_eq (limit : Nat) (lines : List ((Nat × Nat) × BlockKind)) :
    ∀ later cursor total, total ≤ limit → markdownFitsFrom text limit lines later cursor total =
        addWithLimit limit total (byteLength (markdownFrom text lines later cursor)) := by
  induction lines with
  | nil =>
    intro later cursor total htotal
    exact (if_pos htotal).symm
  | cons line lines ih =>
    obtain ⟨⟨start, finish⟩, kind⟩ := line
    intro later cursor total htotal
    have hbyte : ∀ (needed : Bool) (character : Char) (total : Nat), character.utf8Size = 1 →
        total ≤ limit → addByteWhen limit total needed =
          addWithLimit limit total (byteLength (if needed then [character] else [])) := by
      intro needed character total hsize htotal
      cases needed with
      | false => exact (if_pos htotal).symm
      | true =>
        rw [if_pos rfl, byteLength_cons, hsize]
        rfl
    rw [markdownFitsFrom, markdownFrom, hbyte later '\n' total rfl htotal]
    generalize cursor.styleExtentAt start = extent
    obtain ⟨⟨style, extent⟩, cursor⟩ := extent
    dsimp only
    generalize cursor.overlaps start finish = visited
    obtain ⟨visited, cursor⟩ := visited
    simp only [byteLength_append, byteLength_blockPrefix, Nat.add_assoc]
    refine addWithLimit_bind fun hle => addWithLimit_bind fun hle => ?_
    rw [hbyte _ '\\' _ rfl hle]
    refine addWithLimit_bind fun hle => ?_
    rw [foldlM_addWithLimit _ _ _ _ hle]
    exact addWithLimit_bind fun hle => ih true cursor _ hle

theorem markdownFitsWithLimit_iff {text : List Char} {runs : List StyleRun}
    {blocks : List BlockKind} {limit : Nat} : markdownFitsWithLimit text runs blocks limit ↔
      blocks.length = text.count '\n' + 1 ∧
        byteLength (markdownOf text runs blocks) ≤ limit := by
  unfold markdownFitsWithLimit
  rw [length_lineRanges]
  split
  · rename_i hne
    exact iff_of_false nofun fun h => hne h.1.symm
  · rename_i heq
    rw [markdownFitsFrom_eq _ _ _ _ _ _ (Nat.zero_le _), addWithLimit, Nat.zero_add]
    split
    · rename_i hle
      exact iff_of_true rfl ⟨by omega, hle⟩
    · rename_i hgt
      exact iff_of_false nofun fun h => hgt h.2

/-- A line that becomes a paragraph does not make the Markdown longer: what a paragraph escapes is
no longer than the prefix of any other block. -/
theorem byteLength_markdownFrom_paragraph {lines changed : List ((Nat × Nat) × BlockKind)}
    (h : List.Forall₂ (fun line other => line.1 = other.1 ∧
      (line.2 = other.2 ∨ line.2 = .paragraph)) changed lines) :
    ∀ later cursor, byteLength (markdownFrom text changed later cursor) ≤
      byteLength (markdownFrom text lines later cursor) := by
  induction h with
  | nil => exact fun _ _ => Nat.le.refl
  | @cons line other changed lines hline _ ih =>
    intro later cursor
    obtain ⟨⟨start, finish⟩, kind⟩ := line
    obtain ⟨range, otherKind⟩ := other
    obtain ⟨rfl, hkind⟩ := hline
    rw [markdownFrom, markdownFrom]
    generalize cursor.styleExtentAt start = extent
    obtain ⟨⟨style, extent⟩, cursor⟩ := extent
    dsimp only
    generalize cursor.overlaps start finish = visited
    obtain ⟨visited, cursor⟩ := visited
    simp only [byteLength_append, byteLength_blockPrefix, Nat.add_assoc]
    have hrest := ih true cursor
    rcases hkind with heq | heq
    · change kind = otherKind at heq
      subst heq
      omega
    · change kind = .paragraph at heq
      subst heq
      by_cases hother : otherKind = .paragraph
      · subst hother
        omega
      · have hescape : byteLength (if (decide (BlockKind.paragraph = .paragraph) &&
            paragraphPrefixNeedsEscape text start finish style extent) then ['\\'] else []) ≤ 1 := by
          split
          · exact Nat.le.refl
          · exact Nat.zero_le _
        have hprefix : 2 ≤ prefixLen otherKind := by
          cases otherKind with
          | paragraph => exact absurd rfl hother
          | _ => decide
        have hzero : prefixLen .paragraph = 0 := rfl
        omega

theorem byteLength_markdownOf_set (runs : List StyleRun) (blocks : List BlockKind) (line : Nat) :
    byteLength (markdownOf text runs (blocks.set line .paragraph)) ≤
      byteLength (markdownOf text runs blocks) := by
  apply byteLength_markdownFrom_paragraph
  rw [forall₂_iff_get]
  refine ⟨by simp, fun index hindex hindex' => ?_⟩
  simp only [get_eq_getElem, getElem_zip, getElem_set, true_and]
  split
  · exact .inr rfl
  · exact .inl rfl

end

end KeyReader.Editor
