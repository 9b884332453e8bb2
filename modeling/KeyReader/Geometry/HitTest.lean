import KeyReader.Geometry.TextCells
import KeyReader.Least
import Mathlib.Data.Prod.Lex

/-! The queries of the spatial index against a scan of all characters: the hit test gives the same
answer, and the visit meets each visible character of the range once. -/

namespace KeyReader.Geometry

open Least KeyReader.Partition List

namespace Candidate

instance instLinearOrder : LinearOrder Candidate :=
  LinearOrder.lift' (fun candidate => toLex (candidate.distance, candidate.index)) fun a b h => by
    cases a
    cases b
    simp_all

theorem lt_iff {a b : Candidate} : a < b ↔
    a.distance < b.distance ∨ (a.distance = b.distance ∧ a.index < b.index) :=
  Prod.Lex.toLex_lt_toLex

theorem le_iff {a b : Candidate} : a ≤ b ↔
    a.distance < b.distance ∨ (a.distance = b.distance ∧ a.index ≤ b.index) :=
  Prod.Lex.toLex_le_toLex

@[simp] theorem closer_iff {a b : Candidate} : a.closer b ↔ a < b := by
  simp [closer, lt_iff]

theorem offer_eq (best : Option Candidate) (candidate : Candidate) :
    offer best candidate = if best.all (candidate.closer ·) then some candidate else best := by
  cases best <;> simp [offer]

end Candidate

def linearScan (pageRect : Rect) (x y : ℚ) (nearest : Bool) :
    List (TextChar × Nat) → Option Candidate → Option Nat
  | [], best => best.map (·.index)
  | (character, index) :: rest, best =>
    match character.bounds with
    | none => linearScan pageRect x y nearest rest best
    | some bounds =>
      let rect := textRectInPage pageRect bounds
      if (textHitBounds rect).contains x y then some index
      else if nearest then
        let distance := weightedDistanceSquared rect x y
        linearScan pageRect x y nearest rest
          (if best.all (distance < ·.distance) then some { index, distance } else best)
      else linearScan pageRect x y nearest rest best

def linearHitTest (characters : List TextChar) (pageRect : Rect) (x y : ℚ) (nearest : Bool) :
    Option Nat :=
  linearScan pageRect x y nearest characters.zipIdx none

variable {rect : Rect}

section Preference

variable (characters : List TextChar) (pageRect : Rect) (x y : ℚ)

/-- The characters whose padded box contains the point. -/
def hits : Set Nat :=
  {index | ∃ rect, characterRect characters index pageRect = some rect ∧
    (textHitBounds rect).contains x y}

/-- The characters with a box, by their distance from the point. -/
def candidates : Set Candidate :=
  {candidate | ∃ rect, characterRect characters candidate.index pageRect = some rect ∧
    weightedDistanceSquared rect x y = candidate.distance}

/-- The preference of the hit test: the first of the characters hit, and otherwise the nearest
character, if it is asked for, and the first of those as near. -/
inductive Preferred : Bool → Option Nat → Prop
  | exact {index : Nat} (nearest : Bool) (h : IsLeast (hits characters pageRect x y) index) :
    Preferred nearest (some index)
  | nearest {best : Option Candidate} (hhits : hits characters pageRect x y = ∅)
    (h : Tracks (candidates characters pageRect x y) best) : Preferred true (best.map (·.index))
  | missed (hhits : hits characters pageRect x y = ∅) : Preferred false none

variable {characters pageRect x y}

theorem Preferred.unique {nearest : Bool} {a b : Option Nat}
    (ha : Preferred characters pageRect x y nearest a)
    (hb : Preferred characters pageRect x y nearest b) : a = b := by
  cases ha with
  | exact nearest h =>
    cases hb with
    | exact nearest h' => rw [h.unique h']
    | nearest hhits h' | missed hhits => exact absurd (hhits ▸ h.1) (Set.notMem_empty _)
  | nearest hhits h =>
    cases hb with
    | exact nearest h' => exact absurd (hhits ▸ h'.1) (Set.notMem_empty _)
    | nearest hhits' h' => rw [h.unique h']
  | missed hhits =>
    cases hb with
    | exact nearest h' => exact absurd (hhits ▸ h'.1) (Set.notMem_empty _)
    | missed hhits' => rfl

theorem textRectInPage_canonical (pageRect : Rect) (bounds : TextBounds) :
    textRectInPage pageRect (canonicalTextBounds bounds) = textRectInPage pageRect bounds := by
  have hwidth : ∀ a b : ℚ, max (max a b - b) 0 = max (a - b) 0 := fun a b => by
    rcases le_total a b with h | h
    · rw [max_eq_right h, sub_self, max_self, max_eq_right (by linarith)]
    · rw [max_eq_left h]
  simp only [textRectInPage, canonicalTextBounds, hwidth]

variable {index : Nat}

theorem candidates_succ (h : characterRect characters index pageRect = some rect) :
    candidates characters pageRect x y ∩ {candidate | candidate.index < index} ∪
        {⟨index, weightedDistanceSquared rect x y⟩} =
      candidates characters pageRect x y ∩ {candidate | candidate.index < index + 1} := by
  ext candidate
  obtain ⟨at', distance⟩ := candidate
  simp only [candidates, Set.mem_union, Set.mem_inter_iff, Set.mem_ofPred_eq,
    Set.mem_singleton_iff, Candidate.mk.injEq]
  constructor
  · rintro (⟨hcandidate, hlt⟩ | ⟨rfl, rfl⟩)
    · exact ⟨hcandidate, by omega⟩
    · exact ⟨⟨rect, h, rfl⟩, by omega⟩
  · rintro ⟨⟨other, hother, hdistance⟩, hlt⟩
    rcases Nat.lt_or_eq_of_le (Nat.le_of_lt_succ hlt) with hlt | rfl
    · exact .inl ⟨⟨other, hother, hdistance⟩, hlt⟩
    · rw [h] at hother
      cases hother
      exact .inr ⟨rfl, hdistance.symm⟩

theorem candidates_succ_none (h : characterRect characters index pageRect = none) :
    candidates characters pageRect x y ∩ {candidate | candidate.index < index} =
      candidates characters pageRect x y ∩ {candidate | candidate.index < index + 1} := by
  ext candidate
  simp only [candidates, Set.mem_inter_iff, Set.mem_ofPred_eq]
  constructor
  · rintro ⟨hcandidate, hlt⟩
    exact ⟨hcandidate, by omega⟩
  · rintro ⟨⟨other, hother, hdistance⟩, hlt⟩
    rcases Nat.lt_or_eq_of_le (Nat.le_of_lt_succ hlt) with hlt | heq
    · exact ⟨⟨other, hother, hdistance⟩, hlt⟩
    · rw [heq, h] at hother
      cases hother

theorem characterRect_lt (h : characterRect characters index pageRect = some rect) :
    index < characters.length := by
  rw [characterRect_eq] at h
  obtain ⟨bounds, hbounds, _⟩ := Option.map_eq_some_iff.mp h
  exact boundsAt_lt hbounds

theorem offer_later {best : Option Candidate} {s : Set Candidate}
    (h : Tracks (s ∩ {candidate | candidate.index < index}) best) (distance : ℚ) :
    offer best ⟨index, distance⟩ =
      if best.all (distance < ·.distance) then some ⟨index, distance⟩ else best := by
  cases best with
  | none => rfl
  | some candidate =>
    have hlt : candidate.index < index := h.1.2
    simp only [offer, Option.all_some, Candidate.lt_iff, decide_eq_true_eq]
    refine if_congr ⟨?_, .inl⟩ rfl rfl
    rintro (hnear | ⟨_, hafter⟩)
    · exact hnear
    · omega

/-- The scan from a character on, when those before it are not hit. -/
theorem linearScan_preferred (nearest : Bool) (rest : List TextChar) (before : List TextChar)
    (best : Option Candidate) (hcharacters : characters = before ++ rest)
    (hhits : ∀ index ∈ hits characters pageRect x y, before.length ≤ index)
    (hbest : Tracks (candidates characters pageRect x y ∩
      {candidate | candidate.index < before.length}) best) :
    Preferred characters pageRect x y nearest
      (linearScan pageRect x y nearest (rest.zipIdx before.length)
        (if nearest then best else none)) := by
  induction rest generalizing before best with
  | nil =>
    rw [append_nil] at hcharacters
    have hempty : hits characters pageRect x y = ∅ :=
      Set.eq_empty_iff_forall_notMem.mpr fun index hindex => by
        have hge := hhits index hindex
        obtain ⟨rect, hrect, _⟩ := hindex
        have hlt := characterRect_lt hrect
        rw [hcharacters] at hlt
        omega
    have hall : candidates characters pageRect x y ∩
        {candidate | candidate.index < before.length} = candidates characters pageRect x y :=
      Set.inter_eq_left.mpr <| by
        rintro candidate ⟨rect, hrect, _⟩
        rw [← hcharacters]
        exact characterRect_lt hrect
    rw [hall] at hbest
    cases nearest with
    | true => exact .nearest hempty hbest
    | false => exact .missed hempty
  | cons character rest ih =>
    have hat : characters[before.length]? = some character := by simp [hcharacters]
    have hlength : (before ++ [character]).length = before.length + 1 := by simp
    have hnext := fun best => ih (before ++ [character]) best (by simp [hcharacters])
    rw [hlength] at hnext
    -- A character that is not hit leaves the next one as the first that may be.
    have hmissed : before.length ∉ hits characters pageRect x y →
        ∀ index ∈ hits characters pageRect x y, before.length + 1 ≤ index := by
      intro hmiss index hindex
      rcases Nat.lt_or_eq_of_le (hhits index hindex) with hlt | rfl
      · exact hlt
      · exact absurd hindex hmiss
    rw [zipIdx_cons]
    cases hbounds : character.bounds with
    | none =>
      have hrect : characterRect characters before.length pageRect = none := by
        simp [characterRect, hat, hbounds]
      rw [candidates_succ_none hrect] at hbest
      have hmiss : before.length ∉ hits characters pageRect x y := by
        rintro ⟨rect, hsome, _⟩
        rw [hrect] at hsome
        cases hsome
      simp only [linearScan, hbounds]
      exact hnext best (hmissed hmiss) hbest
    | some bounds =>
      have hrect : characterRect characters before.length pageRect =
          some (textRectInPage pageRect bounds) := by
        simp [characterRect, hat, hbounds, textRectInPage_canonical]
      simp only [linearScan, hbounds]
      split
      · rename_i hhit
        exact .exact nearest ⟨⟨_, hrect, hhit⟩, hhits⟩
      · rename_i hmiss
        have hlater : before.length ∉ hits characters pageRect x y := by
          rintro ⟨rect, hsome, hhit⟩
          rw [hrect] at hsome
          cases hsome
          exact hmiss hhit
        have hstep := (hbest.offer ⟨before.length, weightedDistanceSquared
          (textRectInPage pageRect bounds) x y⟩).congr (candidates_succ hrect)
        have hscan := hnext _ (hmissed hlater) hstep
        rw [offer_later hbest] at hscan
        cases nearest with
        | true | false => simpa using hscan

theorem linearHitTest_preferred (characters : List TextChar) (pageRect : Rect) (x y : ℚ)
    (nearest : Bool) : Preferred characters pageRect x y nearest
      (linearHitTest characters pageRect x y nearest) := by
  have hstart := @linearScan_preferred characters pageRect x y nearest characters [] none
    (nil_append _).symm (fun index _ => Nat.zero_le index) (by simp)
  simpa [linearHitTest] using hstart

end Preference

/-- A rectangle inside another one. -/
structure Rect.Inside (rect outer : Rect) : Prop where
  left : outer.x ≤ rect.x
  top : outer.y ≤ rect.y
  right : rect.right ≤ outer.right
  bottom : rect.bottom ≤ outer.bottom
  width : 0 ≤ rect.width
  height : 0 ≤ rect.height

variable {outer : Rect}

theorem Rect.Inside.hit {x y : ℚ} (h : rect.Inside outer) (hhit : (textHitBounds rect).contains x y) :
    (conservativeHitBounds outer).contains x y := by
  obtain ⟨hleft, htop, hright, hbottom, hwidth, hheight⟩ := h
  simp only [Rect.contains_iff, textHitBounds, conservativeHitBounds, inflateRect, Rect.right,
    Rect.bottom] at *
  have hwide : max rect.width 2 ≤ rect.width + 2 := max_le (by linarith) (by linarith)
  have htall : max rect.height 4 ≤ rect.height + 4 := max_le (by linarith) (by linarith)
  refine ⟨⟨?_, ?_⟩, ?_, ?_⟩ <;> linarith

theorem Rect.Inside.highlight {viewport : Rect} (h : rect.Inside outer)
    (hmeets : (textHighlightBounds rect).intersects viewport) :
    (inflateRect outer 3).intersects viewport := by
  obtain ⟨hleft, htop, hright, hbottom, hwidth, hheight⟩ := h
  simp only [Rect.intersects_iff, textHighlightBounds, inflateRect, Rect.right, Rect.bottom] at *
  have hwide : max rect.width (3 / 2) ≤ rect.width + 3 / 2 := max_le (by linarith) (by linarith)
  have htall : max rect.height 3 ≤ rect.height + 3 := max_le (by linarith) (by linarith)
  refine ⟨⟨?_, ?_⟩, ?_, ?_⟩ <;> linarith

/-- How far a value is outside an interval. -/
def offsetFrom (low high value : ℚ) : ℚ :=
  if value < low then low - value else if high < value then value - high else 0

theorem weightedDistanceSquared_eq (rect : Rect) (x y : ℚ) : weightedDistanceSquared rect x y =
      offsetFrom rect.x rect.right x * offsetFrom rect.x rect.right x +
        offsetFrom rect.y rect.bottom y * offsetFrom rect.y rect.bottom y * 2 := rfl

theorem offsetFrom_nonneg (low high value : ℚ) : 0 ≤ offsetFrom low high value := by
  unfold offsetFrom
  split_ifs <;> linarith

theorem offsetFrom_mono {low high low' high' : ℚ} (value : ℚ) (hlow : low' ≤ low) (hle : low ≤ high)
    (hhigh : high ≤ high') :
    offsetFrom low' high' value ≤ offsetFrom low high value := by
  unfold offsetFrom
  split_ifs <;> linarith

theorem Rect.Inside.distance_le (h : rect.Inside outer) (x y : ℚ) :
    weightedDistanceSquared outer x y ≤ weightedDistanceSquared rect x y := by
  have hx := offsetFrom_mono x h.left (le_add_of_nonneg_right h.width) h.right
  have hy := offsetFrom_mono y h.top (le_add_of_nonneg_right h.height) h.bottom
  have hxx := mul_self_le_mul_self (offsetFrom_nonneg _ _ x) hx
  have hyy := mul_self_le_mul_self (offsetFrom_nonneg _ _ y) hy
  rw [weightedDistanceSquared_eq, weightedDistanceSquared_eq]
  exact add_le_add hxx (mul_le_mul_of_nonneg_right hyy (by norm_num))

theorem validPageRect_iff : validPageRect rect ↔ 0 < rect.width ∧ 0 < rect.height := by
  simp [validPageRect]

theorem TextBounds.Within.inside {bounds outer : TextBounds} (h : bounds.Within outer)
    {pageRect : Rect} (hpage : validPageRect pageRect) :
    (textRectInPage pageRect bounds).Inside (textRectInPage pageRect outer) := by
  obtain ⟨hwidth, hheight⟩ := validPageRect_iff.mp hpage
  obtain ⟨hleft, htop, hwide, htall, hright, hbottom⟩ := h
  have hspan : ∀ low high extent : ℚ, low ≤ high →
      low * extent + max (high - low) 0 * extent = high * extent := fun low high extent hle => by
    rw [max_eq_left (sub_nonneg.mpr hle)]
    ring
  constructor
  case left => exact add_le_add_right (mul_le_mul_of_nonneg_right hleft hwidth.le) _
  case top => exact add_le_add_right (mul_le_mul_of_nonneg_right htop hheight.le) _
  case right =>
    simp only [Rect.right, textRectInPage, add_assoc]
    rw [hspan _ _ _ hwide, hspan _ _ _ (by linarith)]
    exact add_le_add_right (mul_le_mul_of_nonneg_right hright hwidth.le) _
  case bottom =>
    simp only [Rect.bottom, textRectInPage, add_assoc]
    rw [hspan _ _ _ htall, hspan _ _ _ (by linarith)]
    exact add_le_add_right (mul_le_mul_of_nonneg_right hbottom hheight.le) _
  case width => exact mul_nonneg (le_max_right _ _) hwidth.le
  case height => exact mul_nonneg (le_max_right _ _) hheight.le

namespace TextSpatialIndex

variable {index : TextSpatialIndex} {characters : List TextChar} {pageRect : Rect} {x y : ℚ}

variable {member : Nat}

theorem Indexes.member_inside (h : Indexes characters index) (hpage : validPageRect pageRect)
    {cell : TextCell} (hcell : cell ∈ index.cells) (hmember : member ∈ index.cellMembers cell)
    (hrect : characterRect characters member pageRect = some rect) :
    rect.Inside (textRectInPage pageRect cell.bounds) := by
  obtain ⟨_, _, bounds, hbounds, hwithin⟩ := h.located cell hcell member hmember
  rw [characterRect_eq, hbounds] at hrect
  cases hrect
  exact hwithin.inside hpage

theorem Indexes.mem_cell (h : Indexes characters index)
    (hrect : characterRect characters member pageRect = some rect) :
    ∃ cell ∈ index.cells, member ∈ index.cellMembers cell := by
  rw [characterRect_eq] at hrect
  obtain ⟨bounds, hbounds, _⟩ := Option.map_eq_some_iff.mp hrect
  exact h.complete member bounds hbounds

/-- The loop over the members of a cell keeps the first character hit. -/
theorem scanExact_tracks {s : Set Nat} {best : Option Nat} {members : List Nat}
    (hsorted : members.Pairwise (· < ·)) (h : Tracks s best) :
    Tracks (s ∪ {member | member ∈ members ∧ member ∈ hits characters pageRect x y})
      (scanExact characters pageRect x y best members) := by
  induction members generalizing s best with
  | nil => simpa [scanExact] using h
  | cons member members ih =>
    obtain ⟨hbefore, hrest⟩ := pairwise_cons.mp hsorted
    have hsplit : ¬member ∈ hits characters pageRect x y →
        s ∪ {other | other ∈ members ∧ other ∈ hits characters pageRect x y} =
          s ∪ {other | other ∈ member :: members ∧ other ∈ hits characters pageRect x y} := by
      intro hmiss
      ext other
      simp only [Set.mem_union, Set.mem_ofPred_eq, mem_cons]
      refine or_congr_right ⟨fun h => ⟨.inr h.1, h.2⟩, ?_⟩
      rintro ⟨rfl | hother, hhit⟩
      · exact absurd hhit hmiss
      · exact ⟨hother, hhit⟩
    rw [scanExact]
    split
    · -- The members from this one on come after the character found before.
      rename_i hfound
      obtain ⟨found, rfl, hle⟩ := (Option.any_eq_true _ _).mp hfound
      have hle := of_decide_eq_true hle
      refine h.skip fun other hother => ⟨found, rfl, hle.trans ?_⟩
      rcases mem_cons.mp hother.1 with rfl | hother
      · exact le_refl _
      · exact (hbefore other hother).le
    · rename_i hfound
      cases hrect : characterRect characters member pageRect with
      | none =>
        apply (ih hrest h).congr (hsplit _)
        rintro ⟨rect, hsome, _⟩
        rw [hrect] at hsome
        cases hsome
      | some rect =>
        simp only
        split
        · rename_i hhit
          have hmember : offer best member = some member := by
            cases best with
            | none => rfl
            | some found =>
              rw [offer, if_pos]
              simpa using hfound
          have hoffer := hmember ▸ h.offer member
          have hskip := hoffer.skip (t := {other | other ∈ members ∧
            other ∈ hits characters pageRect x y})
              fun other hother => ⟨member, rfl, (hbefore other hother.1).le⟩
          apply hskip.congr
          ext other
          simp only [Set.mem_union, Set.mem_singleton_iff, Set.mem_ofPred_eq, mem_cons, or_assoc]
          refine or_congr_right ⟨?_, ?_⟩
          · rintro (rfl | hother)
            · exact ⟨.inl rfl, rect, hrect, hhit⟩
            · exact ⟨.inr hother.1, hother.2⟩
          · rintro ⟨rfl | hother, hhit⟩
            · exact .inl rfl
            · exact .inr ⟨hother, hhit⟩
        · rename_i hmiss
          apply (ih hrest h).congr (hsplit _)
          rintro ⟨other, hsome, hhit⟩
          rw [hrect] at hsome
          cases hsome
          exact hmiss hhit

theorem Indexes.exactHit_tracks (h : Indexes characters index) (hpage : validPageRect pageRect) :
    Tracks (hits characters pageRect x y) (index.exactHit characters pageRect x y) := by
  rw [exactHit]
  refine (Tracks.empty.foldl (fun cell => {member | member ∈ index.cellMembers cell ∧
    member ∈ hits characters pageRect x y}) fun cell hcell s best htracks => ?_).congr ?_
  · split
    · exact scanExact_tracks (h.sorted cell hcell) htracks
    · rename_i hfar
      apply htracks.skip
      rintro member ⟨hmember, rect, hrect, hhit⟩
      exact absurd ((h.member_inside hpage hcell hmember hrect).hit hhit) hfar
  · ext member
    simp only [Set.empty_union, Set.mem_ofPred_eq]
    constructor
    · rintro ⟨_, _, _, hhit⟩
      exact hhit
    · rintro ⟨rect, hrect, hhit⟩
      obtain ⟨cell, hcell, hmember⟩ := h.mem_cell hrect
      exact ⟨cell, hcell, hmember, rect, hrect, hhit⟩

def cellCandidates (index : TextSpatialIndex) (characters : List TextChar) (pageRect : Rect)
    (x y : ℚ) (cell : TextCell) : Set Candidate :=
  {candidate | candidate ∈ candidates characters pageRect x y ∧
    candidate.index ∈ index.cellMembers cell}

theorem scanNearestCell_tracks {cellIndex : Nat} {cell : TextCell}
    (hcell : index.cells[cellIndex]? = some cell) {s : Set Candidate} {best : Option Candidate}
    (h : Tracks s best) :
    Tracks (s ∪ cellCandidates index characters pageRect x y cell)
      (index.scanNearestCell characters pageRect x y cellIndex best) := by
  simp only [scanNearestCell, hcell]
  refine (h.foldl (fun member => {candidate | candidate ∈ candidates characters pageRect x y ∧
    candidate.index = member}) fun member _ s best htracks => ?_).congr ?_
  · cases hrect : characterRect characters member pageRect with
    | none =>
      apply htracks.skip
      rintro candidate ⟨⟨rect, hsome, _⟩, rfl⟩
      rw [hrect] at hsome
      cases hsome
    | some rect =>
      simp only [← Candidate.offer_eq]
      apply (htracks.offer ⟨member, weightedDistanceSquared rect x y⟩).congr
      congr 1
      ext ⟨other, distance⟩
      simp only [candidates, Set.mem_singleton_iff, Set.mem_ofPred_eq, Candidate.mk.injEq]
      constructor
      · rintro ⟨rfl, rfl⟩
        exact ⟨⟨rect, hrect, rfl⟩, rfl⟩
      · rintro ⟨⟨found, hfound, hdistance⟩, rfl⟩
        rw [hrect] at hfound
        cases hfound
        exact ⟨rfl, hdistance.symm⟩
  · congr 1
    ext candidate
    constructor
    · rintro ⟨_, hmember, hcandidate, rfl⟩
      exact ⟨hcandidate, hmember⟩
    · rintro ⟨hcandidate, hmember⟩
      exact ⟨_, hmember, hcandidate, rfl⟩

theorem Indexes.cellCandidate_le (h : Indexes characters index) (hpage : validPageRect pageRect)
    {cell : TextCell} (hcell : cell ∈ index.cells) {candidate : Candidate}
    (hcandidate : candidate ∈ cellCandidates index characters pageRect x y cell) :
    cellCandidate pageRect x y cell ≤ candidate := by
  obtain ⟨⟨rect, hrect, hdistance⟩, hmember⟩ := hcandidate
  have hle := (h.member_inside hpage hcell hmember hrect).distance_le x y
  rw [hdistance] at hle
  rcases lt_or_eq_of_le hle with hlt | heq
  · exact Candidate.le_iff.mpr (.inl hlt)
  · exact Candidate.le_iff.mpr (.inr ⟨heq, (h.located cell hcell _ hmember).1⟩)

/-- The last loop leaves out only cells without a better candidate. -/
theorem Indexes.scanOthers_tracks (h : Indexes characters index) (hpage : validPageRect pageRect)
    {seedIndex : Nat} {cell : TextCell} (hseed : index.cells[seedIndex]? = some cell)
    {best : Option Candidate}
    (hbest : Tracks (cellCandidates index characters pageRect x y cell) best) :
    Tracks (candidates characters pageRect x y)
      (index.scanOthers characters pageRect x y seedIndex best) := by
  rw [scanOthers]
  refine (hbest.foldl (fun entry =>
    {candidate | candidate ∈ cellCandidates index characters pageRect x y entry.1 ∧
      entry.2 ≠ seedIndex}) ?_).congr ?_
  · rintro ⟨other, cellIndex⟩ hother s best htracks
    have hat := mem_zipIdx_iff_getElem?.mp hother
    have hmem := mem_of_getElem? hat
    simp only
    split
    · rename_i heq
      exact htracks.skip fun candidate hcandidate => absurd heq hcandidate.2
    · rename_i hne
      split
      · apply (scanNearestCell_tracks hat htracks).congr
        congr 1
        ext candidate
        exact ⟨fun hcandidate => ⟨hcandidate, hne⟩, fun hcandidate => hcandidate.1⟩
      · rename_i hfar
        apply htracks.skip
        rintro candidate ⟨hcandidate, _⟩
        cases best with
        | none => exact absurd rfl hfar
        | some found =>
          refine ⟨found, rfl, ?_⟩
          have hle : found ≤ cellCandidate pageRect x y other := by simpa using hfar
          exact hle.trans (h.cellCandidate_le hpage hmem hcandidate)
  · ext candidate
    simp only [Set.mem_union, Set.mem_ofPred_eq]
    constructor
    · rintro (hcandidate | ⟨_, _, hcandidate, _⟩)
      · exact hcandidate.1
      · exact hcandidate.1
    · intro hcandidate
      have hrect := hcandidate
      obtain ⟨rect, hrect, _⟩ := hrect
      obtain ⟨other, hother, hmember⟩ := h.mem_cell hrect
      obtain ⟨cellIndex, hat⟩ := mem_iff_getElem?.mp hother
      by_cases heq : cellIndex = seedIndex
      · rw [heq, hseed] at hat
        cases hat
        exact .inl ⟨hcandidate, hmember⟩
      · exact .inr ⟨(other, cellIndex), mem_zipIdx_iff_getElem?.mpr hat, ⟨hcandidate, hmember⟩, heq⟩

theorem foldl_offerSeed (entries : List (TextCell × Nat)) (start : Option (Nat × Candidate)) :
    match entries.foldl (offerSeed pageRect x y) start with
    | none => entries = [] ∧ start = none
    | some found => start = some found ∨ ∃ cell, (cell, found.1) ∈ entries := by
  induction entries generalizing start with
  | nil => cases start <;> simp
  | cons entry entries ih =>
    rw [foldl_cons]
    have hrest := ih (offerSeed pageRect x y start entry)
    cases hfold : entries.foldl (offerSeed pageRect x y) (offerSeed pageRect x y start entry) with
    | none =>
      rw [hfold] at hrest
      have hnone := hrest.2
      rw [offerSeed] at hnone
      split at hnone
      · cases hnone
      · rename_i hfar
        rw [hnone] at hfar
        exact absurd rfl hfar
    | some found =>
      rw [hfold] at hrest
      rcases hrest with hstart | ⟨cell, hcell⟩
      · rw [offerSeed] at hstart
        split at hstart
        · cases hstart
          exact .inr ⟨entry.1, mem_cons_self⟩
        · exact .inl hstart
      · exact .inr ⟨cell, mem_cons_of_mem _ hcell⟩

theorem seed_spec (index : TextSpatialIndex) (pageRect : Rect) (x y : ℚ) :
    match index.seed pageRect x y with
    | none => index.cells = []
    | some found => ∃ cell, index.cells[found.1]? = some cell := by
  have hfold := @foldl_offerSeed pageRect x y index.cells.zipIdx none
  rw [seed]
  split
  · rename_i hnone
    rw [hnone] at hfold
    exact zipIdx_eq_nil_iff.mp hfold.1
  · rename_i found hfound
    rw [hfound] at hfold
    obtain ⟨cell, hcell⟩ := hfold.resolve_left nofun
    exact ⟨cell, mem_zipIdx_iff_getElem?.mp hcell⟩

theorem Indexes.hitTest_preferred (h : Indexes characters index) (hpage : validPageRect pageRect)
    (x y : ℚ) (nearest : Bool) : Preferred characters pageRect x y nearest
      (index.hitTest characters pageRect x y nearest) := by
  have hexact := @Indexes.exactHit_tracks index characters pageRect x y h hpage
  have hseed := seed_spec index pageRect x y
  simp only [hitTest, hpage, Bool.not_true, Bool.false_eq_true, if_false]
  cases hhit : index.exactHit characters pageRect x y with
  | some member =>
    rw [hhit] at hexact
    exact .exact nearest hexact
  | none =>
    rw [hhit] at hexact
    cases nearest with
    | false => exact .missed hexact
    | true =>
      cases hstart : index.seed pageRect x y with
      | none =>
        rw [hstart] at hseed
        have hempty : candidates characters pageRect x y = ∅ :=
          Set.eq_empty_iff_forall_notMem.mpr <| by
            rintro candidate ⟨rect, hrect, _⟩
            obtain ⟨cell, hcell, _⟩ := h.mem_cell hrect
            rw [hseed] at hcell
            cases hcell
        exact @Preferred.nearest characters pageRect x y none hexact hempty
      | some start =>
        obtain ⟨seedIndex, _⟩ := start
        rw [hstart] at hseed
        obtain ⟨cell, hcell⟩ := hseed
        have hscan := @scanNearestCell_tracks index characters pageRect x y seedIndex cell hcell ∅
          none Tracks.empty
        rw [Set.empty_union] at hscan
        exact .nearest hexact (h.scanOthers_tracks hpage hcell hscan)

variable {σ : Type}

/-- A visit of the characters of a list until it asks to stop. -/
def visitWhile (visit : σ → Nat → Rect → σ × Bool) : List (Nat × Rect) → σ → σ × Bool
  | [], state => (state, true)
  | (member, highlight) :: rest, state =>
    match visit state member highlight with
    | (state, true) => visitWhile visit rest state
    | (state, false) => (state, false)

theorem visitWhile_append (visit : σ → Nat → Rect → σ × Bool) (a b : List (Nat × Rect))
    (state : σ) : visitWhile visit (a ++ b) state =
      match visitWhile visit a state with
      | (state, true) => visitWhile visit b state
      | (state, false) => (state, false) := by
  induction a generalizing state with
  | nil => rfl
  | cons entry a ih =>
    simp only [cons_append, visitWhile]
    cases visit state entry.1 entry.2 with
    | mk state continues =>
      cases continues with
      | true => exact ih state
      | false => rfl

/-- The highlight of a character of a range, when it meets the viewport. -/
def visibleHighlight (characters : List TextChar) (pageRect viewport : Rect) (first last : Nat)
    (member : Nat) : Option (Nat × Rect) :=
  if first ≤ member ∧ member ≤ last then
    ((characterRect characters member pageRect).map textHighlightBounds).bind fun highlight =>
      if highlight.intersects viewport then some (member, highlight) else none
  else none

theorem visibleHighlight_eq_some {viewport : Rect} {first last : Nat} {entry : Nat × Rect} :
    visibleHighlight characters pageRect viewport first last member = some entry ↔
      entry.1 = member ∧ (first ≤ member ∧ member ≤ last) ∧
        (∃ rect, characterRect characters member pageRect = some rect ∧
          textHighlightBounds rect = entry.2) ∧ entry.2.intersects viewport := by
  obtain ⟨index, highlight⟩ := entry
  simp only [visibleHighlight]
  split
  · rename_i hrange
    cases characterRect characters member pageRect with
    | none => simp
    | some rect =>
      simp only [Option.map_some, Option.bind_some, Option.ite_none_right_eq_some,
        Option.some.injEq, Prod.mk.injEq, hrange, and_self, true_and]
      constructor
      · rintro ⟨hmeets, rfl, rfl⟩
        exact ⟨rfl, ⟨rect, rfl, rfl⟩, hmeets⟩
      · rintro ⟨rfl, ⟨_, rfl, rfl⟩, hmeets⟩
        exact ⟨hmeets, rfl, rfl⟩
  · rename_i hrange
    simp [hrange]

variable {viewport : Rect} {first last : Nat} (visit : σ → Nat → Rect → σ × Bool)

/-- From the first member of the range on, the loop over the members visits those to be seen. -/
theorem visitMembers_eq {members : List Nat} (hsorted : members.Pairwise (· < ·))
    (hfirst : ∀ member ∈ members, first ≤ member) (state : σ) :
    visitMembers characters pageRect viewport visit last members state = visitWhile visit
        (members.filterMap (visibleHighlight characters pageRect viewport first last)) state := by
  induction members generalizing state with
  | nil => rfl
  | cons member members ih =>
    obtain ⟨hbefore, hsorted⟩ := pairwise_cons.mp hsorted
    have hrest := ih hsorted fun other hother => hfirst other (mem_cons_of_mem member hother)
    have hge := hfirst member mem_cons_self
    rw [visitMembers]
    split
    · -- The members from this one on are after the range.
      rename_i hlast
      rw [filterMap_eq_nil_iff.mpr]
      · rfl
      · intro other hother
        have hle : member ≤ other := by
          rcases mem_cons.mp hother with rfl | hother
          · exact le_rfl
          · exact (hbefore other hother).le
        rw [visibleHighlight, if_neg (by omega)]
    · rename_i hlast
      have hrange : first ≤ member ∧ member ≤ last := ⟨hge, by omega⟩
      rw [filterMap_cons]
      simp only [visibleHighlight, if_pos hrange]
      cases characterRect characters member pageRect with
      | none => exact hrest state
      | some rect =>
        simp only [Option.map_some, Option.bind_some]
        split
        · simp only [visitWhile]
          cases visit state member (textHighlightBounds rect) with
          | mk state continues =>
            cases continues with
            | true => exact hrest state
            | false => rfl
        · exact hrest state

theorem filterMap_drop {members : List Nat} (hsorted : members.Pairwise (· < ·)) :
    let start := partitionPoint (fun position => members.getD position 0 < first) members.length
    (∀ member ∈ members.drop start, first ≤ member) ∧
      (members.drop start).filterMap (visibleHighlight characters pageRect viewport first last) =
        members.filterMap (visibleHighlight characters pageRect viewport first last) := by
  intro start
  have hdownward : Downward (fun position => members.getD position 0 < first) members.length := by
    intro i j hij hj hlt
    rcases Nat.lt_or_eq_of_le hij with hbefore | rfl
    · have hle := pairwise_iff_getElem.mp hsorted i j (by omega) hj hbefore
      simp only [getD_eq_getElem _ 0 hj, decide_eq_true_eq] at hlt
      simp only [getD_eq_getElem _ 0 (show i < members.length by omega), decide_eq_true_eq]
      omega
    · exact hlt
  obtain ⟨_, hbelow, habove⟩ := partitionPoint_spec hdownward
  constructor
  · intro member hmember
    obtain ⟨position, hposition, rfl⟩ := mem_drop_iff_getElem.mp hmember
    rw [Nat.add_comm] at hposition
    have hnot := habove (start + position) (Nat.le_add_right _ _) hposition
    rwa [getD_eq_getElem _ 0 hposition, decide_eq_true_eq, Nat.not_lt] at hnot
  · have hskipped : (members.take start).filterMap
        (visibleHighlight characters pageRect viewport first last) = [] := by
      apply filterMap_eq_nil_iff.mpr
      intro member hmember
      obtain ⟨position, hposition, rfl⟩ := mem_take_iff_getElem.mp hmember
      have hlt := hbelow position (by omega)
      rw [getD_eq_getElem _ 0 (by omega), decide_eq_true_eq] at hlt
      rw [visibleHighlight, if_neg (by omega)]
    conv_rhs => rw [← take_append_drop start members, filterMap_append, hskipped]
    rfl

section

variable (h : Indexes characters index)

include h

/-- The loop over the cells visits the characters to be seen, cell by cell. -/
theorem Indexes.visitCells_eq (hpage : validPageRect pageRect) {cells : List TextCell}
    (hcells : ∀ cell ∈ cells, cell ∈ index.cells) (state : σ) :
    index.visitCells characters pageRect viewport visit first last cells state =
      visitWhile visit (cells.flatMap fun cell => (index.cellMembers cell).filterMap
        (visibleHighlight characters pageRect viewport first last)) state := by
  induction cells generalizing state with
  | nil => rfl
  | cons cell cells ih =>
    have hcell := hcells cell mem_cons_self
    have hrest := ih fun other hother => hcells other (mem_cons_of_mem cell hother)
    have hskip : (∀ member ∈ index.cellMembers cell,
        visibleHighlight characters pageRect viewport first last member = none) →
        (index.cellMembers cell).filterMap
          (visibleHighlight characters pageRect viewport first last) = [] :=
      filterMap_eq_nil_iff.mpr
    rw [visitCells, flatMap_cons]
    split
    · rename_i hrange
      rw [hskip, nil_append, hrest]
      intro member hmember
      obtain ⟨hmin, hmax, _⟩ := h.located cell hcell member hmember
      simp only [Bool.or_eq_true, decide_eq_true_eq] at hrange
      rw [visibleHighlight, if_neg (by omega)]
    · split
      · rename_i hfar
        rw [hskip, nil_append, hrest]
        intro member hmember
        rw [Option.eq_none_iff_forall_ne_some]
        intro entry hentry
        obtain ⟨_, _, ⟨rect, hrect, heq⟩, hmeets⟩ := visibleHighlight_eq_some.mp hentry
        rw [← heq] at hmeets
        have hnear := (h.member_inside hpage hcell hmember hrect).highlight hmeets
        simp [hnear] at hfar
      · have hsorted := h.sorted cell hcell
        obtain ⟨hfirst, hdrop⟩ := @filterMap_drop characters pageRect viewport first last _ hsorted
        rw [visitWhile_append, ← hdrop, ← visitMembers_eq visit hsorted.drop hfirst]
        simp only
        cases visitMembers characters pageRect viewport visit last _ state with
        | mk state continues =>
          cases continues with
          | true => exact hrest state
          | false => rfl

theorem Indexes.visible (pageRect viewport : Rect) (first last : Nat) :
    let visible := index.cells.flatMap fun cell => (index.cellMembers cell).filterMap
      (visibleHighlight characters pageRect viewport first last)
    (visible.map Prod.fst).Nodup ∧ ∀ member highlight, (member, highlight) ∈ visible ↔
      (first ≤ member ∧ member ≤ last) ∧
        (∃ rect, characterRect characters member pageRect = some rect ∧
          textHighlightBounds rect = highlight) ∧ highlight.intersects viewport := by
  intro visible
  constructor
  · have heq : visible = (index.cells.flatMap index.cellMembers).filterMap
        (visibleHighlight characters pageRect viewport first last) :=
      (filterMap_flatMap ..).symm
    rw [heq, List.Nodup, pairwise_map, pairwise_filterMap]
    refine h.nodup.imp fun hne a ha b hb hsame => ?_
    exact hne ((visibleHighlight_eq_some.mp ha).1.symm.trans
      (hsame.trans (visibleHighlight_eq_some.mp hb).1))
  · intro member highlight
    simp only [visible, mem_flatMap, mem_filterMap, visibleHighlight_eq_some]
    constructor
    · rintro ⟨_, _, _, _, rfl, hrest⟩
      exact hrest
    · rintro ⟨hrange, ⟨rect, hrect, heq⟩, hmeets⟩
      obtain ⟨cell, hcell, hmember⟩ := h.mem_cell hrect
      exact ⟨cell, hcell, member, hmember, rfl, hrange, ⟨rect, hrect, heq⟩, hmeets⟩

/-- The visit meets the characters of the range in the viewport, each once, until it is told to
stop. -/
theorem Indexes.forEach_eq (pageRect viewport : Rect)
    (start stop : Nat) : ∃ visible : List (Nat × Rect), (visible.map Prod.fst).Nodup ∧
      (∀ member highlight, (member, highlight) ∈ visible ↔
        (validPageRect pageRect ∧ validQueryRect viewport) ∧ (start ≤ member ∧ member ≤ stop) ∧
          (∃ rect, characterRect characters member pageRect = some rect ∧
            textHighlightBounds rect = highlight) ∧ highlight.intersects viewport) ∧
      ∀ (σ : Type) (visit : σ → Nat → Rect → σ × Bool) (state : σ),
        index.forEachVisibleInRangeWhile characters pageRect viewport visit start stop state =
          visitWhile visit visible state := by
  by_cases hvalid : validPageRect pageRect ∧ validQueryRect viewport
  · by_cases hempty : characters = [] ∨ min stop (characters.length - 1) < start
    · refine ⟨[], nodup_nil, fun member highlight => ?_, fun σ visit state => ?_⟩
      · simp only [not_mem_nil, false_iff]
        rintro ⟨_, hrange, ⟨rect, hrect, _⟩, _⟩
        have hlt := characterRect_lt hrect
        rcases hempty with rfl | hempty
        · exact absurd hlt (Nat.not_lt_zero member)
        · omega
      · simp only [forEachVisibleInRangeWhile, visitWhile]
        split
        · rfl
        · rename_i hguard
          rcases hempty with rfl | hempty
          · exact absurd rfl hguard
          · rw [if_pos hempty]
    · rw [not_or] at hempty
      obtain ⟨hnodup, hmem⟩ := h.visible pageRect viewport start (min stop (characters.length - 1))
      refine ⟨_, hnodup, fun member highlight => ?_, fun σ visit state => ?_⟩
      · rw [hmem]
        constructor
        · rintro ⟨hrange, hrest⟩
          exact ⟨hvalid, ⟨hrange.1, by omega⟩, hrest⟩
        · rintro ⟨_, hrange, ⟨rect, hrect, heq⟩, hmeets⟩
          have hlt := characterRect_lt hrect
          exact ⟨⟨hrange.1, by omega⟩, ⟨rect, hrect, heq⟩, hmeets⟩
      · rw [forEachVisibleInRangeWhile, if_neg (by simp [hempty.1, hvalid]), if_neg hempty.2]
        exact h.visitCells_eq visit hvalid.1 (fun _ hcell => hcell) state
  · refine ⟨[], nodup_nil, fun member highlight => ?_, fun σ visit state => ?_⟩
    · simp only [not_mem_nil, false_iff]
      exact fun hvisible => hvalid hvisible.1
    · rw [forEachVisibleInRangeWhile, if_pos]
      · rfl
      · simp only [Bool.or_eq_true, Bool.not_eq_true']
        by_cases hpage : validPageRect pageRect
        · exact .inr (by simpa using fun hquery => hvalid ⟨hpage, hquery⟩)
        · exact .inl (.inr (by simpa using hpage))

end

end TextSpatialIndex

/-- The queries of a text layer: on a page of positive size the hit test answers what a scan of all
characters does, and on others nothing; the visit meets each character of the range whose highlight
meets the viewport once, when both have positive size, and otherwise none. -/
theorem TextLayer.queries_linear (layer : TextLayer) (pageRect : Rect) :
    (∀ x y nearest, layer.hitTest pageRect x y nearest =
      if validPageRect pageRect then linearHitTest layer.characters pageRect x y nearest
      else none) ∧
    ∀ viewport start stop, ∃ visible : List (Nat × Rect), (visible.map Prod.fst).Nodup ∧
      (∀ member highlight, (member, highlight) ∈ visible ↔
        (validPageRect pageRect ∧ validQueryRect viewport) ∧ (start ≤ member ∧ member ≤ stop) ∧
          (∃ rect, characterRect layer.characters member pageRect = some rect ∧
            textHighlightBounds rect = highlight) ∧ highlight.intersects viewport) ∧
      ∀ (σ : Type) (visit : σ → Nat → Rect → σ × Bool) (state : σ),
        layer.forEachVisibleInRangeWhile pageRect viewport start stop visit state =
          TextSpatialIndex.visitWhile visit visible state := by
  refine ⟨fun x y nearest => ?_, layer.indexed.forEach_eq pageRect⟩
  split
  · rename_i hpage
    exact (layer.indexed.hitTest_preferred hpage x y nearest).unique
      (linearHitTest_preferred layer.characters pageRect x y nearest)
  · rename_i hpage
    simp [TextLayer.hitTest, TextSpatialIndex.hitTest, hpage]

/-- On a page without width the scan still finds a character, and the hit test does not. -/
theorem TextLayer.flat_page_not_hit :
    ¬∀ (layer : TextLayer) (pageRect : Rect) (x y : ℚ) (nearest : Bool),
      layer.hitTest pageRect x y nearest =
        linearHitTest layer.characters pageRect x y nearest := by
  intro h
  have hflat := h (TextLayer.new [⟨'a', some ⟨0, 0, 1, 1⟩⟩]) ⟨0, 0, 0, 100⟩ 0 50 false
  exact absurd hflat (by decide +kernel)

end KeyReader.Geometry
