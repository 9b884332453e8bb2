import KeyReader.Geometry.Layout
import Mathlib.Data.Nat.Sqrt

/-! The text layer of a page and its spatial index: the grid of cells built over the boxes of the
characters, the hit test and the visit of the visible characters, in exact arithmetic. -/

namespace KeyReader.Geometry

open KeyReader.Partition

/-- The box of a character, by parts of the page's width and height. -/
structure TextBounds where
  left : ℚ
  top : ℚ
  right : ℚ
  bottom : ℚ

/-- A character; one whose box is not finite has none. -/
structure TextChar where
  value : Char
  bounds : Option TextBounds

def targetTextCharactersPerCell : Nat := 64

def maxTextGridAxis : Nat := 16

def maxTextGridCells : Nat := maxTextGridAxis * maxTextGridAxis

def canonicalTextBounds (bounds : TextBounds) : TextBounds :=
  { bounds with right := max bounds.right bounds.left, bottom := max bounds.bottom bounds.top }

def unionTextBounds (a b : TextBounds) : TextBounds :=
  { left := min a.left b.left, top := min a.top b.top, right := max a.right b.right,
    bottom := max a.bottom b.bottom }

def textRectInPage (pageRect : Rect) (text : TextBounds) : Rect :=
  { x := pageRect.x + text.left * pageRect.width, y := pageRect.y + text.top * pageRect.height,
    width := max (text.right - text.left) 0 * pageRect.width,
    height := max (text.bottom - text.top) 0 * pageRect.height }

def characterRect (characters : List TextChar) (index : Nat) (pageRect : Rect) : Option Rect := do
  let character ← characters[index]?
  let bounds ← character.bounds
  some (textRectInPage pageRect (canonicalTextBounds bounds))

section

variable (rect : Rect)

def textHitBounds : Rect :=
  { x := rect.x - 2, y := rect.y - 3, width := max rect.width 2 + 4,
    height := max rect.height 4 + 6 }

def inflateRect (amount : ℚ) : Rect :=
  { x := rect.x - amount, y := rect.y - amount, width := rect.width + amount * 2,
    height := rect.height + amount * 2 }

def conservativeHitBounds : Rect := inflateRect rect 7

def textHighlightBounds : Rect :=
  { rect with width := max rect.width (3 / 2), height := max rect.height 3 }

def weightedDistanceSquared (x y : ℚ) : ℚ :=
  let dx := if x < rect.x then rect.x - x else if rect.right < x then x - rect.right else 0
  let dy := if y < rect.y then rect.y - y else if rect.bottom < y then y - rect.bottom else 0
  dx * dx + dy * dy * 2

def validPageRect : Bool := 0 < rect.width && 0 < rect.height

def validQueryRect : Bool := 0 < rect.width && 0 < rect.height

end

/-- A cell of the grid: the box around its characters and where they stand in `members`. -/
structure TextCell where
  bounds : TextBounds
  start : Nat
  stop : Nat
  minIndex : Nat
  maxIndex : Nat

structure TextCellBuilder where
  bounds : Option TextBounds := none
  members : List Nat := []

structure TextSpatialIndex where
  cells : List TextCell := []
  members : List Nat := []

def TextCellBuilder.push (builder : TextCellBuilder) (index : Nat) (bounds : TextBounds) :
    TextCellBuilder where
  bounds := some (match builder.bounds with
    | some current => unionTextBounds current bounds
    | none => bounds)
  members := builder.members ++ [index]

def divCeil (a b : Nat) : Nat := (a + b - 1) / b

/-- The square root rounded up, of a positive number. -/
def ceilSqrt (n : Nat) : Nat := Nat.sqrt (n - 1) + 1

/-- The position of the cell that the centre of a box falls in. -/
def cellPosition (columns rows : Nat) (bounds : TextBounds) : Nat :=
  let centerX := clamp ((bounds.left + bounds.right) * (1 / 2)) 0 1
  let centerY := clamp ((bounds.top + bounds.bottom) * (1 / 2)) 0 1
  let column := min (centerX * columns).floor.toNat (columns - 1)
  let row := min (centerY * rows).floor.toNat (rows - 1)
  row * columns + column

namespace TextSpatialIndex

/-- The loop of `new` over the characters. -/
def fill (columns rows : Nat) (characters : List TextChar) : List TextCellBuilder :=
  characters.zipIdx.foldl (fun builders (character, index) =>
    match character.bounds with
    | none => builders
    | some bounds =>
      let bounds := canonicalTextBounds bounds
      builders.modify (cellPosition columns rows bounds) (·.push index bounds))
    (List.replicate (columns * rows) {})

/-- The loop of `new` over the builders. -/
def collect (builders : List TextCellBuilder) : TextSpatialIndex :=
  builders.foldl (fun index builder =>
    match builder.bounds with
    | none => index
    | some bounds =>
      let members := index.members ++ builder.members
      { cells := index.cells ++ [{
          bounds, start := index.members.length, stop := members.length,
          -- A builder with a box has a member.
          minIndex := builder.members.headD 0, maxIndex := builder.members.getLastD 0 }],
        members }) {}

def new (characters : List TextChar) : TextSpatialIndex :=
  let located := characters.countP (·.bounds.isSome)
  if located = 0 then {}
  else
    let targetCells := max 1 (min (divCeil located targetTextCharactersPerCell) maxTextGridCells)
    let columns := ceilSqrt targetCells
    let rows := divCeil targetCells columns
    collect (fill columns rows characters)

variable (index : TextSpatialIndex) (characters : List TextChar) (pageRect : Rect) (x y : ℚ)

def cellMembers (cell : TextCell) : List Nat :=
  (index.members.drop cell.start).take (cell.stop - cell.start)

/-- The loop of the exact hits over the members of a cell. -/
def scanExact (exactHit : Option Nat) : List Nat → Option Nat
  | [] => exactHit
  | member :: members =>
    if exactHit.any (· ≤ member) then exactHit
    else
      match characterRect characters member pageRect with
      | none => scanExact exactHit members
      | some rect =>
        if (textHitBounds rect).contains x y then some member
        else scanExact exactHit members

/-- The first loop of `hit_test`. -/
def exactHit : Option Nat :=
  index.cells.foldl (fun exactHit cell =>
    if (conservativeHitBounds (textRectInPage pageRect cell.bounds)).contains x y then
      scanExact characters pageRect x y exactHit (index.cellMembers cell)
    else exactHit) none

end TextSpatialIndex

/-- A character, or the first one of a cell, with its distance from the point. -/
structure Candidate where
  index : Nat
  distance : ℚ

def Candidate.closer (candidate best : Candidate) : Bool :=
  candidate.distance < best.distance ||
    (candidate.distance = best.distance && candidate.index < best.index)

namespace TextSpatialIndex

variable (index : TextSpatialIndex) (characters : List TextChar) (pageRect : Rect) (x y : ℚ)

def cellCandidate (cell : TextCell) : Candidate :=
  { index := cell.minIndex,
    distance := weightedDistanceSquared (textRectInPage pageRect cell.bounds) x y }

def scanNearestCell (cellIndex : Nat) (best : Option Candidate) : Option Candidate :=
  match index.cells[cellIndex]? with
  | none => best
  | some cell =>
    (index.cellMembers cell).foldl (fun best member =>
      match characterRect characters member pageRect with
      | none => best
      | some rect =>
        let candidate := { index := member, distance := weightedDistanceSquared rect x y }
        if best.all (candidate.closer ·) then some candidate else best) best

def offerSeed (seed : Option (Nat × Candidate)) (entry : TextCell × Nat) :
    Option (Nat × Candidate) :=
  let candidate := cellCandidate pageRect x y entry.1
  if seed.all (candidate.closer ·.2) then some (entry.2, candidate) else seed

/-- The cell that the search starts with: the nearest, and the one with the first character among
those as near. -/
def seed : Option (Nat × Candidate) := index.cells.zipIdx.foldl (offerSeed pageRect x y) none

/-- The last loop of `hit_test`: the cells that may have a better candidate. -/
def scanOthers (seedIndex : Nat) (best : Option Candidate) : Option Candidate :=
  index.cells.zipIdx.foldl (fun best (cell, cellIndex) =>
    if cellIndex = seedIndex then best
    else if best.all ((cellCandidate pageRect x y cell).closer ·) then
      index.scanNearestCell characters pageRect x y cellIndex best
    else best) best

def hitTest (nearest : Bool) : Option Nat :=
  if !validPageRect pageRect then none
  else
    let exactHit := index.exactHit characters pageRect x y
    if exactHit.isSome || !nearest then exactHit
    else do
      let (seedIndex, _) ← index.seed pageRect x y
      let best := index.scanNearestCell characters pageRect x y seedIndex none
      (index.scanOthers characters pageRect x y seedIndex best).map (·.index)

variable {σ : Type} (viewport : Rect) (visit : σ → Nat → Rect → σ × Bool)

/-- The inner loop of the visit, over the members of a cell; the answer says whether to go on. -/
def visitMembers (last : Nat) : List Nat → σ → σ × Bool
  | [], state => (state, true)
  | member :: members, state =>
    if last < member then (state, true)
    else
      match characterRect characters member pageRect with
      | none => visitMembers last members state
      | some rect =>
        let highlight := textHighlightBounds rect
        if highlight.intersects viewport then
          match visit state member highlight with
          | (state, true) => visitMembers last members state
          | (state, false) => (state, false)
        else visitMembers last members state

/-- The outer loop of the visit, over the cells. -/
def visitCells (first last : Nat) : List TextCell → σ → σ × Bool
  | [], state => (state, true)
  | cell :: cells, state =>
    if cell.maxIndex < first || last < cell.minIndex then visitCells first last cells state
    else if !(inflateRect (textRectInPage pageRect cell.bounds) 3).intersects viewport then
      visitCells first last cells state
    else
      let members := index.cellMembers cell
      let memberStart := partitionPoint (fun position => members.getD position 0 < first)
        members.length
      match visitMembers characters pageRect viewport visit last (members.drop memberStart)
          state with
      | (state, true) => visitCells first last cells state
      | (state, false) => (state, false)

/-- The visit of the characters from `start` to `stop`, both included. -/
def forEachVisibleInRangeWhile (start stop : Nat) (state : σ) : σ × Bool :=
  if characters.isEmpty || !validPageRect pageRect || !validQueryRect viewport then (state, true)
  else
    let first := start
    let last := min stop (characters.length - 1)
    if last < first then (state, true)
    else index.visitCells characters pageRect viewport visit first last index.cells state

end TextSpatialIndex

end KeyReader.Geometry
