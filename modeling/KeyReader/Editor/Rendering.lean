import KeyReader.Editor.Buffer

/-! The runs of a buffer are the coalesced runs of a styled text, which reading, replacing and
restyling keep. -/

namespace KeyReader.Editor

open Utf8 Runs RichTextBuffer List

namespace Styled

theorem normalizeRun_splits (length : Nat) : Splits (normalizeRun length) := by
  rintro ⟨runs, cursor⟩ a b c style hab hbc
  unfold normalizeRun
  dsimp only
  generalize hstart : min (max a cursor) length = start
  generalize hmiddle : min (max b start) length = middle
  have hmiddle' : min (max b middle) length = middle := by
    rw [← hmiddle, max_min_distrib_left, ← max_assoc, max_self, min_assoc,
      min_eq_right (le_max_right b length)]
  have hfinish : min (max c middle) length = min (max c start) length := by
    rw [← hmiddle, max_min_distrib_left, ← max_assoc, max_eq_left_of_lt hbc, min_assoc,
      min_eq_right (le_max_right c length)]
  have hbefore : start ≤ middle :=
    hmiddle ▸ le_min (le_max_right b start) (hstart ▸ min_le_right _ length)
  have hafter : middle ≤ min (max c start) length :=
    hmiddle ▸ min_le_min_right length (max_le_max_right start hbc.le)
  rw [hmiddle', hfinish, if_neg (Nat.lt_irrefl _)]
  exact congrArg (·, _) (push_push _ _ hbefore hafter)

theorem normalizeRuns_paint (styled : Styled) :
    normalizeRuns styled.text (paint styled.items) = paint styled.items := by
  have hwalk : ∀ (items : List (Nat × InlineStyle)) (runs : List StyleRun) (offset : Nat),
      offset + width items ≤ byteLength styled.text →
      walk (normalizeRun (byteLength styled.text)) (runs, offset) offset items =
        (walk push runs offset items, offset + width items) := by
    intro items
    induction items with
    | nil => exact fun _ _ _ => rfl
    | cons item items ih =>
      obtain ⟨size, style⟩ := item
      intro runs offset hfits
      have hwidth : width ((size, style) :: items) = size + width items := rfl
      rw [hwidth] at hfits ⊢
      have hturn : normalizeRun (byteLength styled.text) (runs, offset) offset (offset + size) style =
          (push runs offset (offset + size) style, offset + size) := by
        unfold normalizeRun
        dsimp only
        rw [Nat.max_self, Nat.min_eq_left (by omega), Nat.max_eq_left (by omega),
          Nat.min_eq_left (by omega), if_neg (Nat.lt_irrefl _)]
        rfl
      rw [walk, hturn, ih _ _ (by omega), walk, Nat.add_assoc]
  unfold normalizeRuns
  rw [foldl_paint (normalizeRun_splits _) _ styled.wide_items,
    hwalk styled.items [] 0 (by rw [width_items, Nat.zero_add])]
  dsimp only
  rw [width_items, Nat.zero_add, if_neg (Nat.lt_irrefl _)]
  rfl

variable {a b : Nat}

theorem keepBefore_eq (start : Nat) (kept : List StyleRun) (style : InlineStyle) :
    keepBefore start kept a b style = push kept a (min b start) style := by
  unfold keepBefore pushStyleRun
  split
  · rw [Nat.min_eq_left ‹_›]
  · rw [Nat.min_eq_right (by omega)]
    split
    · rfl
    · exact (push_of_le _ _ (by omega)).symm

variable {finish start : Nat}

theorem keepAfter_eq (hle : start ≤ finish) (inserted : Nat) (kept : List StyleRun)
    (style : InlineStyle) : keepAfter start finish inserted kept a b style =
      push kept (max a finish - (finish - start) + inserted)
        (b - (finish - start) + inserted) style := by
  unfold keepAfter pushStyleRun
  split
  · rw [Nat.max_eq_left ‹_›]
  · rw [Nat.max_eq_right (by omega)]
    split
    · have hstart : finish - (finish - start) + inserted = start + inserted := by omega
      have hfinish : b - (finish - start) + inserted = start + inserted + (b - finish) := by omega
      rw [hstart, hfinish]
    · exact (push_of_le _ _ (by omega)).symm

theorem restyle_eq (hle : start ≤ finish) (f : InlineStyle → InlineStyle) (updated : List StyleRun)
    (style : InlineStyle) : restyle start finish f updated a b style =
      push (push (push updated a (min b start) style) (max a start) (min b finish) (f style))
        (max a finish) b style := by
  unfold restyle pushStyleRun
  split
  · rename_i houtside
    rcases houtside with hb | ha
    · rw [Nat.min_eq_left hb, push_of_le _ _ (show b ≤ max a finish by omega),
        push_of_le _ _ (show min b finish ≤ max a start by omega)]
    · rw [Nat.max_eq_left ha, push_of_le _ _ (show min b finish ≤ max a start by omega),
        push_of_le _ _ (show min b start ≤ a by omega)]
  · rename_i hinside
    push Not at hinside
    rw [Nat.min_eq_right (show start ≤ b by omega), Nat.max_eq_right (show a ≤ finish by omega)]
    have hbefore : (if a < start then push updated a start style else updated) =
        push updated a start style := by
      split
      · rfl
      · exact (push_of_le _ _ (by omega)).symm
    rw [hbefore]
    split
    · rfl
    · exact (push_of_le _ _ (by omega)).symm

theorem keepBefore_splits (start : Nat) : Splits (keepBefore start) := by
  intro kept a b c style hab hbc
  rw [keepBefore_eq, keepBefore_eq, keepBefore_eq]
  rcases Nat.le_total b start with hb | hb
  · rw [Nat.min_eq_left hb, push_push _ _ hab.le (by omega)]
  · rw [Nat.min_eq_right hb, Nat.min_eq_right (by omega), push_of_le _ _ hb]

theorem keepAfter_splits (hle : start ≤ finish) (inserted : Nat) :
    Splits (keepAfter start finish inserted) := by
  intro kept a b c style hab hbc
  rw [keepAfter_eq hle, keepAfter_eq hle, keepAfter_eq hle]
  rcases Nat.le_total b finish with hb | hb
  · rw [push_of_le kept _ (by omega), Nat.max_eq_right hb, Nat.max_eq_right (by omega)]
  · rw [Nat.max_eq_left hb, push_push _ _ (by omega) (by omega)]

theorem restyle_splits (hle : start ≤ finish) (f : InlineStyle → InlineStyle) :
    Splits (restyle start finish f) := by
  intro updated a b c style hab hbc
  rw [restyle_eq hle, restyle_eq hle, restyle_eq hle]
  rcases Nat.le_total b start with hb | hb
  · -- The first part is before the range.
    rw [Nat.min_eq_left hb, push_of_le _ _ (show b ≤ max a finish by omega),
      push_of_le _ _ (show min b finish ≤ max a start by omega), push_push _ _ hab.le (by omega),
      Nat.max_eq_right hb, Nat.max_eq_right (show a ≤ start by omega),
      Nat.max_eq_right (show b ≤ finish by omega), Nat.max_eq_right (show a ≤ finish by omega)]
  rcases Nat.le_total b finish with hb' | hb'
  · -- The parts meet within the range.
    rw [Nat.min_eq_right hb, Nat.min_eq_right (show start ≤ c by omega), Nat.min_eq_left hb',
      Nat.max_eq_left hb, push_of_le _ _ (show b ≤ max a finish by omega), push_of_le _ _ hb,
      push_push _ _ (by omega) (by omega), Nat.max_eq_right hb',
      Nat.max_eq_right (show a ≤ finish by omega)]
  · -- The second part is after the range.
    rw [Nat.min_eq_right hb, Nat.min_eq_right (show start ≤ c by omega), Nat.min_eq_right hb',
      Nat.min_eq_right (show finish ≤ c by omega), push_of_le _ _ hb, Nat.max_eq_left hb,
      push_of_le _ _ hb', Nat.max_eq_left hb', push_push _ _ (by omega) (by omega)]

theorem split_text {styled : Styled} {before middle after : List Char}
    (h : styled.text = before ++ middle ++ after) :
    ∃ x y z : Styled, styled = x ++ y ++ z ∧ x.text = before ∧ y.text = middle ∧
      z.text = after := by
  obtain ⟨xy, z, rfl, hxy, hz⟩ := map_eq_append_iff.mp h
  obtain ⟨x, y, rfl, hx, hy⟩ := map_eq_append_iff.mp hxy
  exact ⟨x, y, z, rfl, hx, hy, hz⟩

theorem replaceRuns_paint (x y z : Styled) (replacement : List Char) (style : InlineStyle) :
    replaceRuns (paint (x ++ y ++ z).items) (byteLength x.text) (byteLength (x ++ y).text)
        (byteLength replacement) style =
      paint (x ++ uniform replacement style ++ z).items := by
  have hle : byteLength x.text ≤ byteLength (x ++ y).text := by
    rw [text_append, byteLength_append]
    exact Nat.le_add_right ..
  have hbefore : (paint (x ++ y ++ z).items).foldl (fun kept run =>
      keepBefore (byteLength x.text) kept run.start run.finish run.label) [] = paint x.items := by
    rw [foldl_paint (keepBefore_splits _) _ (wide_items _), append_assoc, items_append,
      walk_append, Nat.zero_add, width_items]
    have hfirst : walk (keepBefore (byteLength x.text)) [] 0 x.items = paint x.items := by
      apply walk_congr
      intro kept a b style _ _ hb
      rw [width_items, Nat.zero_add] at hb
      exact if_pos hb
    have hrest : ∀ kept, walk (keepBefore (byteLength x.text)) kept (byteLength x.text)
        (y ++ z).items = kept := by
      intro kept
      refine (walk_congr ?_ kept).trans (walk_const kept (byteLength x.text) (y ++ z).items)
      intro kept a b style ha _ _
      rw [keepBefore_eq, push_of_le _ _ (by omega)]
    rw [hrest, hfirst]
  have hmiddle : (if 0 < byteLength replacement then pushStyleRun (paint x.items)
      (byteLength x.text) (byteLength x.text + byteLength replacement) style
      else paint x.items) = paint (x ++ uniform replacement style).items := by
    rw [paint_uniform]
    split
    · rfl
    · exact (push_of_le _ _ (by omega)).symm
  unfold replaceRuns
  dsimp only
  rw [hbefore, hmiddle, foldl_paint (keepAfter_splits hle _) _ (wide_items _),
    items_append (x ++ y) z, walk_append, Nat.zero_add, width_items]
  have hgone : ∀ kept, walk (keepAfter (byteLength x.text) (byteLength (x ++ y).text)
      (byteLength replacement)) kept 0 (x ++ y).items = kept := by
    intro kept
    refine (walk_congr ?_ kept).trans (walk_const kept 0 (x ++ y).items)
    intro kept a b style _ hab hb
    rw [width_items, Nat.zero_add] at hb
    rw [keepAfter_eq hle, push_of_le _ _ (by omega)]
  have hmoved : ∀ kept, walk (keepAfter (byteLength x.text) (byteLength (x ++ y).text)
      (byteLength replacement)) kept (byteLength (x ++ y).text) z.items =
        walk push kept (byteLength x.text + byteLength replacement) z.items := by
    intro kept
    rw [← walk_shift kept z.items hle]
    apply walk_congr
    intro kept a b style ha _ _
    exact if_pos ha
  rw [hgone, hmoved, items_append (x ++ _), paint_append, width_items, text_append, text_uniform,
    byteLength_append]

/-- The styles of a part of a text, changed. -/
def restyled (styled : Styled) (f : InlineStyle → InlineStyle) : Styled :=
  styled.map fun entry => (entry.1, f entry.2)

@[simp] theorem text_restyled (styled : Styled) (f : InlineStyle → InlineStyle) :
    (styled.restyled f).text = styled.text := map_map ..

theorem restyle_paint (x y z : Styled) (f : InlineStyle → InlineStyle) :
    (paint (x ++ y ++ z).items).foldl (fun updated run =>
        restyle (byteLength x.text) (byteLength (x ++ y).text) f updated run.start run.finish
          run.label) [] =
      paint (x ++ y.restyled f ++ z).items := by
  have hle : byteLength x.text ≤ byteLength (x ++ y).text := by
    rw [text_append, byteLength_append]
    exact Nat.le_add_right ..
  have hlength : byteLength (x ++ y).text = byteLength x.text + byteLength y.text := by
    rw [text_append, byteLength_append]
  rw [foldl_paint (restyle_splits hle f) _ (wide_items _), items_append, walk_append,
    items_append, walk_append, Nat.zero_add, width_items, Nat.zero_add, width_append, width_items,
    width_items, ← hlength]
  have hfirst : walk (restyle (byteLength x.text) (byteLength (x ++ y).text) f) [] 0 x.items =
      paint x.items := by
    apply walk_congr
    intro updated a b style _ _ hb
    rw [width_items, Nat.zero_add] at hb
    exact if_pos (.inl hb)
  have hsecond : ∀ updated, walk (restyle (byteLength x.text) (byteLength (x ++ y).text) f) updated
      (byteLength x.text) y.items =
        walk push updated (byteLength x.text) (y.restyled f).items := by
    intro updated
    have hitems : (y.restyled f).items = y.items.map fun item => (item.1, f item.2) := by
      rw [items, items, restyled, map_map, map_map]
      rfl
    rw [hitems, ← walk_map]
    apply walk_congr
    intro updated a b style ha hab hb
    rw [width_items, ← hlength] at hb
    rw [restyle_eq hle, push_of_le updated _ (by omega), push_of_le _ _ (by omega),
      Nat.max_eq_left ha, Nat.min_eq_left hb]
  have hthird : ∀ updated, walk (restyle (byteLength x.text) (byteLength (x ++ y).text) f) updated
      (byteLength (x ++ y).text) z.items =
        walk push updated (byteLength (x ++ y).text) z.items := by
    intro updated
    apply walk_congr
    intro updated a b style ha _ _
    exact if_pos (.inr ha)
  rw [hfirst, hsecond, hthird, items_append, paint_append, items_append, paint_append, width_items,
    width_append, width_items, width_items, text_restyled, ← hlength]

end Styled

end KeyReader.Editor
