import KeyReader.Geometry.TextIndex
import Mathlib.Data.List.Pairwise

/-! What the spatial index of a text layer holds: each character with a box is in one cell, in
order, and its box is inside that of the cell. -/

namespace KeyReader.Geometry

open List

/-- The box that the index uses for a character. -/
def boundsAt (characters : List TextChar) (index : Nat) : Option TextBounds :=
  (characters[index]?.bind (·.bounds)).map canonicalTextBounds

theorem characterRect_eq (characters : List TextChar) (index : Nat) (pageRect : Rect) :
    characterRect characters index pageRect =
      (boundsAt characters index).map (textRectInPage pageRect) := by
  cases hcharacter : characters[index]? with
  | none => simp [characterRect, boundsAt, hcharacter]
  | some character =>
    cases hbounds : character.bounds <;> simp [characterRect, boundsAt, hcharacter, hbounds]

variable {bounds : TextBounds} {characters : List TextChar}

theorem boundsAt_lt {index : Nat} (h : boundsAt characters index = some bounds) :
    index < characters.length := by
  by_contra hge
  rw [boundsAt, getElem?_eq_none (by omega)] at h
  cases h

theorem boundsAt_append {index : Nat} (character : TextChar) (h : index < characters.length) :
    boundsAt (characters ++ [character]) index = boundsAt characters index := by
  rw [boundsAt, boundsAt, getElem?_append_left h]

@[simp] theorem boundsAt_length (characters : List TextChar) (character : TextChar) :
    boundsAt (characters ++ [character]) characters.length =
      character.bounds.map canonicalTextBounds := by
  simp [boundsAt]

namespace TextBounds

/-- A box inside another one. -/
structure Within (bounds outer : TextBounds) : Prop where
  left : outer.left ≤ bounds.left
  top : outer.top ≤ bounds.top
  width : bounds.left ≤ bounds.right
  height : bounds.top ≤ bounds.bottom
  right : bounds.right ≤ outer.right
  bottom : bounds.bottom ≤ outer.bottom

theorem within_canonical (bounds : TextBounds) :
    (canonicalTextBounds bounds).Within (canonicalTextBounds bounds) where
  left := le_refl _
  top := le_refl _
  width := le_max_right _ _
  height := le_max_right _ _
  right := le_refl _
  bottom := le_refl _

theorem Within.union_left {outer : TextBounds} (h : bounds.Within outer) (other : TextBounds) :
    bounds.Within (unionTextBounds outer other) where
  left := (min_le_left _ _).trans h.left
  top := (min_le_left _ _).trans h.top
  width := h.width
  height := h.height
  right := h.right.trans (le_max_left _ _)
  bottom := h.bottom.trans (le_max_left _ _)

theorem Within.union_right {outer : TextBounds} (h : bounds.Within outer) (other : TextBounds) :
    bounds.Within (unionTextBounds other outer) where
  left := (min_le_right _ _).trans h.left
  top := (min_le_right _ _).trans h.top
  width := h.width
  height := h.height
  right := h.right.trans (le_max_right _ _)
  bottom := h.bottom.trans (le_max_right _ _)

end TextBounds

variable {columns rows : Nat}

theorem cellPosition_lt (bounds : TextBounds) (hcolumns : 0 < columns) (hrows : 0 < rows) :
    cellPosition columns rows bounds < columns * rows := by
  simp only [cellPosition]
  generalize (clamp ((bounds.left + bounds.right) * (1 / 2)) 0 1 * columns).floor.toNat = column
  generalize (clamp ((bounds.top + bounds.bottom) * (1 / 2)) 0 1 * rows).floor.toNat = row
  have hrow : min row (rows - 1) + 1 ≤ rows := by omega
  calc
    _ < min row (rows - 1) * columns + columns := by omega
    _ = columns * (min row (rows - 1) + 1) := by ring
    _ ≤ columns * rows := Nat.mul_le_mul_left columns hrow

namespace TextCellBuilder

/-- What a builder holds: in order, the characters whose boxes fall in its cell. -/
structure Holds (columns rows : Nat) (characters : List TextChar) (position : Nat)
    (builder : TextCellBuilder) : Prop where
  sorted : builder.members.Pairwise (· < ·)
  located : ∀ index ∈ builder.members, ∃ bounds outer,
    boundsAt characters index = some bounds ∧ cellPosition columns rows bounds = position ∧
      builder.bounds = some outer ∧ bounds.Within outer

theorem Holds.empty (columns rows : Nat) (characters : List TextChar) (position : Nat) :
    Holds columns rows characters position {} where
  sorted := List.Pairwise.nil
  located _ h := absurd h not_mem_nil

variable {columns rows : Nat} {characters : List TextChar} {position : Nat}
  {builder : TextCellBuilder}

theorem Holds.append (h : Holds columns rows characters position builder)
    (character : TextChar) : Holds columns rows (characters ++ [character]) position builder where
  sorted := h.sorted
  located index hindex := by
    obtain ⟨bounds, outer, hbounds, hrest⟩ := h.located index hindex
    refine ⟨bounds, outer, ?_, hrest⟩
    rw [boundsAt_append character (boundsAt_lt hbounds)]
    exact hbounds

theorem Holds.push (h : Holds columns rows characters position builder) {character : TextChar}
    (hbounds : character.bounds = some bounds)
    (hposition : cellPosition columns rows (canonicalTextBounds bounds) = position) :
    Holds columns rows (characters ++ [character]) position
      (builder.push characters.length (canonicalTextBounds bounds)) where
  sorted := by
    rw [TextCellBuilder.push, pairwise_append]
    refine ⟨h.sorted, pairwise_singleton _ _, fun index hindex last hlast => ?_⟩
    obtain ⟨_, _, hat, _⟩ := h.located index hindex
    rw [mem_singleton.mp hlast]
    exact boundsAt_lt hat
  located index hindex := by
    rcases mem_append.mp hindex with hindex | hindex
    · obtain ⟨box, outer, hbox, hat, houter, hwithin⟩ := (h.append character).located index hindex
      refine ⟨box, _, hbox, hat, rfl, ?_⟩
      rw [houter]
      exact hwithin.union_left _
    · rw [mem_singleton.mp hindex]
      refine ⟨_, _, by rw [boundsAt_length, hbounds]; rfl, hposition, rfl, ?_⟩
      cases builder.bounds with
      | none => exact TextBounds.within_canonical bounds
      | some outer => exact (TextBounds.within_canonical bounds).union_right outer

end TextCellBuilder

namespace TextSpatialIndex

/-- What the loop over the characters has built. -/
structure Filled (columns rows : Nat) (characters : List TextChar)
    (builders : List TextCellBuilder) : Prop where
  length : builders.length = columns * rows
  holds : ∀ position (builder : TextCellBuilder), builders[position]? = some builder →
    builder.Holds columns rows characters position
  complete : ∀ index bounds, boundsAt characters index = some bounds →
    ∃ builder ∈ builders, index ∈ builder.members

theorem fill_append (columns rows : Nat) (characters : List TextChar) (character : TextChar) :
    fill columns rows (characters ++ [character]) =
      match character.bounds with
      | none => fill columns rows characters
      | some bounds =>
        (fill columns rows characters).modify
          (cellPosition columns rows (canonicalTextBounds bounds))
          (·.push characters.length (canonicalTextBounds bounds)) := by
  unfold fill
  rw [zipIdx_append, foldl_append, Nat.zero_add]
  rfl

theorem mem_modify {α : Type} {xs : List α} {position target : Nat} {x : α} (f : α → α)
    (h : xs[position]? = some x) :
    (if target = position then f x else x) ∈ xs.modify target f := by
  apply mem_of_getElem? (i := position)
  rw [getElem?_modify, h]
  rfl

/-- A new character is in the builder of its cell, and the others stay. -/
theorem Filled.push {character : TextChar} {builders : List TextCellBuilder}
    (h : Filled columns rows characters builders) (hcolumns : 0 < columns) (hrows : 0 < rows)
    (hbounds : character.bounds = some bounds) : Filled columns rows (characters ++ [character])
      (builders.modify (cellPosition columns rows (canonicalTextBounds bounds))
        (·.push characters.length (canonicalTextBounds bounds))) := by
  have hlt := cellPosition_lt (canonicalTextBounds bounds) hcolumns hrows
  rw [← h.length] at hlt
  generalize hposition : cellPosition columns rows (canonicalTextBounds bounds) = target at hlt ⊢
  constructor
  case length => rw [length_modify, h.length]
  case holds =>
    intro position builder hbuilder
    rw [getElem?_modify] at hbuilder
    obtain ⟨old, hold, hnew⟩ := Option.map_eq_some_iff.mp hbuilder
    have hholds := h.holds position old hold
    split at hnew
    · rename_i heq
      rw [← hnew]
      exact hholds.push hbounds (hposition.trans heq)
    · rw [← hnew]
      exact hholds.append character
  case complete =>
    intro index box hbox
    by_cases hindex : index < characters.length
    · rw [boundsAt_append character hindex] at hbox
      obtain ⟨builder, hbuilder, hmember⟩ := h.complete index box hbox
      obtain ⟨position, hat⟩ := mem_iff_getElem?.mp hbuilder
      refine ⟨_, mem_modify _ hat, ?_⟩
      split
      · exact mem_append_left _ hmember
      · exact hmember
    · have hlast : index = characters.length := by
        have hbound := boundsAt_lt hbox
        rw [length_append, length_singleton] at hbound
        omega
      refine ⟨_, mem_modify _ (getElem?_eq_getElem hlt), ?_⟩
      rw [if_pos rfl, hlast]
      exact mem_concat_self

theorem Filled.fill (characters : List TextChar) (hcolumns : 0 < columns) (hrows : 0 < rows) :
    Filled columns rows characters (fill columns rows characters) := by
  induction characters using reverseRecOn with
  | nil =>
    constructor
    case length => simp [TextSpatialIndex.fill]
    case holds =>
      intro position builder hbuilder
      have hempty : builder = {} := by
        have hmem := mem_of_getElem? hbuilder
        simpa [TextSpatialIndex.fill] using eq_of_mem_replicate hmem
      rw [hempty]
      exact TextCellBuilder.Holds.empty _ _ _ _
    case complete =>
      intro index bounds hbounds
      exact absurd (boundsAt_lt hbounds) (Nat.not_lt_zero index)
  | append_singleton characters character ih =>
    rw [fill_append]
    cases hbounds : character.bounds with
    | some bounds => exact ih.push hcolumns hrows hbounds
    | none =>
      constructor
      case length => exact ih.length
      case holds => exact fun position builder h => (ih.holds position builder h).append character
      case complete =>
        intro index bounds hbox
        by_cases hindex : index < characters.length
        · exact ih.complete index bounds (by rwa [boundsAt_append character hindex] at hbox)
        · have hlast : index = characters.length := by
            have hbound := boundsAt_lt hbox
            rw [length_append, length_singleton] at hbound
            omega
          rw [hlast, boundsAt_length, hbounds] at hbox
          cases hbox

/-- What the loop over the builders makes of one with a box. -/
def summary (builder : TextCellBuilder) : Option (TextBounds × List Nat × Nat × Nat) :=
  builder.bounds.map fun bounds =>
    (bounds, builder.members, builder.members.headD 0, builder.members.getLastD 0)

/-- The cells stand for the builders with a box, in their order. -/
structure Collected (builders : List TextCellBuilder) (index : TextSpatialIndex) : Prop where
  stop_le : ∀ cell ∈ index.cells, cell.start ≤ cell.stop ∧ cell.stop ≤ index.members.length
  summaries : index.cells.map (fun cell =>
    (cell.bounds, index.cellMembers cell, cell.minIndex, cell.maxIndex)) =
      builders.filterMap summary

theorem collect_append (builders : List TextCellBuilder) (builder : TextCellBuilder) :
    collect (builders ++ [builder]) =
      match builder.bounds with
      | none => collect builders
      | some bounds =>
        { cells := (collect builders).cells ++ [{
            bounds, start := (collect builders).members.length,
            stop := ((collect builders).members ++ builder.members).length,
            minIndex := builder.members.headD 0, maxIndex := builder.members.getLastD 0 }],
          members := (collect builders).members ++ builder.members } := by
  unfold collect
  rw [foldl_append]
  rfl

theorem cellMembers_append {index : TextSpatialIndex} {cell : TextCell}
    (h : cell.start ≤ cell.stop ∧ cell.stop ≤ index.members.length) (cells : List TextCell)
    (members : List Nat) :
    cellMembers ⟨cells, index.members ++ members⟩ cell = index.cellMembers cell := by
  rw [cellMembers, cellMembers, drop_append_of_le_length (h.1.trans h.2),
    take_append_of_le_length (by rw [length_drop]; omega)]

theorem Collected.collect (builders : List TextCellBuilder) :
    Collected builders (collect builders) := by
  induction builders using reverseRecOn with
  | nil => exact ⟨forall_mem_nil _, rfl⟩
  | append_singleton builders builder ih =>
    rw [collect_append]
    cases hbounds : builder.bounds with
    | none =>
      refine ⟨ih.stop_le, ?_⟩
      simp [filterMap_append, summary, hbounds, ih.summaries]
    | some bounds =>
      constructor
      case stop_le =>
        intro cell hcell
        rcases mem_append.mp hcell with hcell | hcell
        · have hstop := ih.stop_le cell hcell
          simp only [length_append]
          omega
        · rw [mem_singleton.mp hcell]
          simp
      case summaries =>
        rw [map_append, filterMap_append, ← ih.summaries]
        congr 1
        · apply map_congr_left
          intro cell hcell
          rw [cellMembers_append (ih.stop_le cell hcell)]
        · simp [summary, hbounds, cellMembers]

/-- The characters of a list with a box are each in one cell, in order, and their boxes and indices
are inside the bounds of the cell. -/
structure Indexes (characters : List TextChar) (index : TextSpatialIndex) : Prop where
  sorted : ∀ cell ∈ index.cells, (index.cellMembers cell).Pairwise (· < ·)
  located : ∀ cell ∈ index.cells, ∀ member ∈ index.cellMembers cell,
    cell.minIndex ≤ member ∧ member ≤ cell.maxIndex ∧
      ∃ bounds, boundsAt characters member = some bounds ∧ bounds.Within cell.bounds
  complete : ∀ member bounds, boundsAt characters member = some bounds →
    ∃ cell ∈ index.cells, member ∈ index.cellMembers cell
  nodup : (index.cells.flatMap index.cellMembers).Nodup

theorem headD_le {members : List Nat} (h : members.Pairwise (· < ·)) {member : Nat}
    (hmember : member ∈ members) : members.headD 0 ≤ member := by
  cases members with
  | nil => cases hmember
  | cons first rest =>
    rcases mem_cons.mp hmember with rfl | hrest
    · exact le_rfl
    · exact Nat.le_of_lt (rel_of_pairwise_cons h hrest)

theorem le_getLastD {members : List Nat} (h : members.Pairwise (· < ·)) {member : Nat}
    (hmember : member ∈ members) : member ≤ members.getLastD 0 := by
  induction members using reverseRecOn with
  | nil => cases hmember
  | append_singleton members last ih =>
    rw [getLastD_concat]
    rcases mem_append.mp hmember with hbefore | hlast
    · exact Nat.le_of_lt ((pairwise_append.mp h).2.2 member hbefore last (mem_singleton_self _))
    · exact Nat.le_of_eq (mem_singleton.mp hlast)

/-- The builders of the loop over the characters are collected into cells that index them. -/
theorem Filled.indexes {builders : List TextCellBuilder} {index : TextSpatialIndex}
    (h : Filled columns rows characters builders) (hindex : Collected builders index) :
    Indexes characters index := by
  have hbuilder : ∀ cell ∈ index.cells, ∃ (position : Nat) (builder : TextCellBuilder),
      builders[position]? = some builder ∧ builder.bounds = some cell.bounds ∧
        builder.members = index.cellMembers cell ∧ builder.members.headD 0 = cell.minIndex ∧
          builder.members.getLastD 0 = cell.maxIndex := by
    intro cell hcell
    have hmem := mem_map_of_mem (f := fun cell =>
      (cell.bounds, index.cellMembers cell, cell.minIndex, cell.maxIndex)) hcell
    rw [hindex.summaries, mem_filterMap] at hmem
    obtain ⟨builder, hin, hsummary⟩ := hmem
    obtain ⟨position, hat⟩ := mem_iff_getElem?.mp hin
    obtain ⟨bounds, hbounds, heq⟩ := Option.map_eq_some_iff.mp hsummary
    simp only [Prod.mk.injEq] at heq
    exact ⟨position, builder, hat, by rw [hbounds, heq.1], heq.2.1, heq.2.2.1, heq.2.2.2⟩
  constructor
  case sorted =>
    intro cell hcell
    obtain ⟨position, builder, hat, _, hmembers, _⟩ := hbuilder cell hcell
    rw [← hmembers]
    exact (h.holds position builder hat).sorted
  case located =>
    intro cell hcell member hmember
    obtain ⟨position, builder, hat, hbounds, hmembers, hmin, hmax⟩ := hbuilder cell hcell
    have hholds := h.holds position builder hat
    rw [← hmembers] at hmember
    obtain ⟨bounds, outer, hbox, _, houter, hwithin⟩ := hholds.located member hmember
    rw [hbounds] at houter
    cases houter
    exact ⟨hmin ▸ headD_le hholds.sorted hmember, hmax ▸ le_getLastD hholds.sorted hmember,
      bounds, hbox, hwithin⟩
  case complete =>
    intro member bounds hbox
    obtain ⟨builder, hin, hmember⟩ := h.complete member bounds hbox
    obtain ⟨position, hat⟩ := mem_iff_getElem?.mp hin
    obtain ⟨_, outer, _, _, houter, _⟩ := (h.holds position builder hat).located member hmember
    have hmem : (outer, builder.members, builder.members.headD 0, builder.members.getLastD 0) ∈
        builders.filterMap summary :=
      mem_filterMap.mpr ⟨builder, hin, by rw [summary, houter]; rfl⟩
    rw [← hindex.summaries] at hmem
    obtain ⟨cell, hcell, heq⟩ := mem_map.mp hmem
    simp only [Prod.mk.injEq] at heq
    exact ⟨cell, hcell, heq.2.1 ▸ hmember⟩
  case nodup =>
    have hlists : index.cells.map index.cellMembers =
        builders.filterMap fun builder => builder.bounds.map fun _ => builder.members := by
      have hmap := congrArg (List.map fun summary => summary.2.1) hindex.summaries
      rw [map_map, map_filterMap] at hmap
      simpa [Function.comp_def, summary] using hmap
    rw [flatMap_def, hlists, nodup_flatten]
    constructor
    · intro members hmembers
      obtain ⟨builder, hin, hbounds⟩ := mem_filterMap.mp hmembers
      obtain ⟨position, hat⟩ := mem_iff_getElem?.mp hin
      obtain ⟨_, _, rfl⟩ := Option.map_eq_some_iff.mp hbounds
      exact (h.holds position builder hat).sorted.imp Nat.ne_of_lt
    · -- A character of two builders would have its box in two cells.
      rw [pairwise_filterMap, pairwise_iff_getElem]
      intro i j hi hj hij first hfirst second hsecond
      obtain ⟨_, _, rfl⟩ := Option.map_eq_some_iff.mp hfirst
      obtain ⟨_, _, rfl⟩ := Option.map_eq_some_iff.mp hsecond
      intro member hmember hmember'
      obtain ⟨bounds, _, hbox, hposition, _⟩ :=
        (h.holds i _ (getElem?_eq_getElem hi)).located member hmember
      obtain ⟨bounds', _, hbox', hposition', _⟩ :=
        (h.holds j _ (getElem?_eq_getElem hj)).located member hmember'
      rw [hbox] at hbox'
      cases hbox'
      exact absurd (hposition.symm.trans hposition') (Nat.ne_of_lt hij)

theorem divCeil_pos {a b : Nat} (ha : 0 < a) (hb : 0 < b) : 0 < divCeil a b :=
  Nat.div_pos (by omega) hb

theorem Indexes.new (characters : List TextChar) : Indexes characters (new characters) := by
  by_cases hlocated : characters.countP (·.bounds.isSome) = 0
  · have hnone : ∀ index, boundsAt characters index = none := by
      intro index
      cases hcharacter : characters[index]? with
      | none => simp [boundsAt, hcharacter]
      | some character =>
        have hmem := mem_of_getElem? hcharacter
        have hbounds := countP_eq_zero.mp hlocated character hmem
        simp [boundsAt, hcharacter, Option.not_isSome_iff_eq_none.mp hbounds]
    rw [TextSpatialIndex.new, if_pos hlocated]
    refine ⟨forall_mem_nil _, forall_mem_nil _, fun member bounds hbounds => ?_, nodup_nil⟩
    rw [hnone] at hbounds
    cases hbounds
  · rw [TextSpatialIndex.new, if_neg hlocated]
    have hcolumns : 0 < ceilSqrt (max 1 (min (divCeil (characters.countP (·.bounds.isSome))
        targetTextCharactersPerCell) maxTextGridCells)) := Nat.succ_pos _
    exact (Filled.fill characters hcolumns (divCeil_pos (by omega) hcolumns)).indexes
      (Collected.collect _)

end TextSpatialIndex

/-- The characters of a page, in the order of the document, with their index. -/
structure TextLayer where
  characters : List TextChar
  spatialIndex : TextSpatialIndex
  indexed : spatialIndex.Indexes characters

namespace TextLayer

def new (characters : List TextChar) : TextLayer where
  characters := characters
  spatialIndex := TextSpatialIndex.new characters
  indexed := TextSpatialIndex.Indexes.new characters

variable (layer : TextLayer) (pageRect : Rect)

def hitTest (x y : ℚ) (nearest : Bool) : Option Nat :=
  layer.spatialIndex.hitTest layer.characters pageRect x y nearest

def forEachVisibleInRangeWhile {σ : Type} (viewport : Rect) (start stop : Nat)
    (visit : σ → Nat → Rect → σ × Bool) (state : σ) : σ × Bool :=
  layer.spatialIndex.forEachVisibleInRangeWhile layer.characters pageRect viewport visit start
    stop state

end TextLayer

end KeyReader.Geometry
