import KeyReader.Annotations.Set

/-! The histories of annotation sets.  `Valid` is what `validate` checks together with the order of
the records, every edit keeps it, and after every run of edits from an empty set the ids handed out
are `1, 2, …, n` in this order, whatever was deleted since. -/

namespace KeyReader.Annotations

open Checked Machine List

/-- What `checkRecord` asks of a record by itself. -/
structure Annotation.Sound (pageCount revision : Nat) (record : Annotation) : Prop where
  id_ne : record.id ≠ 0
  range : validateRange record.range pageCount = .ok ()
  content : validateContent record.highlight record.commentMarkdown = .ok ()
  created : record.createdRevision ≠ 0
  updated : record.createdRevision ≤ record.updatedRevision
  current : record.updatedRevision ≤ revision

variable {pageCount revision : Nat} {record : Annotation}

theorem Annotation.Sound.mono {revision' : Nat} (h : record.Sound pageCount revision)
    (hle : revision ≤ revision') : record.Sound pageCount revision' :=
  { h with current := h.current.trans hle }

namespace AnnotationSet

theorem checkRecord_ok_iff {seen : List Nat} : checkRecord pageCount revision seen record = .ok () ↔
      record.id ∉ seen ∧ record.Sound pageCount revision := by
  simp only [checkRecord, unit_bind_eq_ok, ensure_eq_ok]
  constructor
  · rintro ⟨hid, hseen, hrange, hcontent, hrevision⟩
    exact ⟨hseen, hid, hrange, hcontent, by omega, by omega, by omega⟩
  · rintro ⟨hseen, h⟩
    have := h.created
    have := h.updated
    have := h.current
    exact ⟨h.id_ne, hseen, h.range, h.content, by omega⟩

variable {records : List Annotation}

theorem checkRecords_ok_iff {seen : List Nat} :
    checkRecords pageCount revision records seen = .ok () ↔
      (∀ record ∈ records, record.id ∉ seen ∧ record.Sound pageCount revision) ∧
        (records.map Annotation.id).Nodup := by
  induction records generalizing seen with
  | nil => simp [checkRecords]
  | cons record rest ih =>
    rw [forall_mem_cons]
    simp only [checkRecords, unit_bind_eq_ok, checkRecord_ok_iff, ih, map_cons,
      nodup_cons, mem_map, mem_cons, not_or, not_exists, not_and]
    constructor
    · rintro ⟨hrecord, hrest, hnodup⟩
      exact ⟨⟨hrecord, fun r hr => ⟨(hrest r hr).1.2, (hrest r hr).2⟩⟩,
        fun r hr => (hrest r hr).1.1, hnodup⟩
    · rintro ⟨⟨hrecord, hrest⟩, hfresh, hnodup⟩
      exact ⟨hrecord, fun r hr => ⟨⟨hfresh r hr, (hrest r hr).1⟩, (hrest r hr).2⟩, hnodup⟩

/-- A set that passes `validate` with its records in order. -/
structure Valid (set : AnnotationSet) : Prop where
  sound : ∀ record ∈ set.records, record.Sound set.pageCount set.revision
  nodup : (set.records.map Annotation.id).Nodup
  sorted : set.records.Pairwise annotationOrder

variable {set : AnnotationSet}

theorem validate_ok_iff : set.validate = .ok () ↔
    (∀ record ∈ set.records, record.Sound set.pageCount set.revision) ∧
      (set.records.map Annotation.id).Nodup := by
  simp [validate, checkRecords_ok_iff]

theorem Valid.validate (h : set.Valid) : set.validate = .ok () :=
  validate_ok_iff.mpr ⟨h.sound, h.nodup⟩

theorem valid_insertionSort {nextId : Option Nat}
    (hsound : ∀ record ∈ records, record.Sound pageCount revision)
    (hnodup : (records.map Annotation.id).Nodup) :
    Valid ⟨pageCount, records.insertionSort annotationOrder, nextId, revision⟩ := by
  have hperm := perm_insertionSort annotationOrder records
  exact ⟨fun record hr => hsound record (hperm.subset hr),
    (hperm.map Annotation.id).nodup_iff.mpr hnodup, pairwise_insertionSort _ _⟩

theorem valid_new (pageCount : Nat) : (new pageCount).Valid :=
  ⟨by simp [new], by simp [new], by simp [new]⟩

/-- `restore` accepts exactly the snapshots that pass the checks, and puts their records in
order. -/
theorem restore_ok_iff : restore pageCount revision records = .ok set ↔
      ((∀ record ∈ records, record.Sound pageCount revision) ∧ (records.map Annotation.id).Nodup) ∧
      set = { pageCount, records := records.insertionSort annotationOrder
              nextId := checkedAdd (maximumId records) 1, revision } := by
  simp only [restore, unit_bind_eq_ok, checkRecords_ok_iff, not_mem_nil, not_false_eq_true, true_and,
    Except.ok.injEq]
  exact and_congr_right fun _ => eq_comm

theorem valid_restore (h : restore pageCount revision records = .ok set) : set.Valid := by
  obtain ⟨⟨hsound, hnodup⟩, rfl⟩ := restore_ok_iff.mp h
  exact valid_insertionSort hsound hnodup

section

variable (set : AnnotationSet)

/-- The set with the next id that `restore` gives it. -/
def restored : AnnotationSet :=
  { set with nextId := checkedAdd (maximumId set.records) 1 }

@[simp] theorem restored_revision : set.restored.revision = set.revision := rfl

@[simp] theorem restored_records : set.restored.records = set.records := rfl

@[simp] theorem restored_restored : set.restored.restored = set.restored := rfl

end

theorem restored_eq_self_iff :
    set.restored = set ↔ checkedAdd (maximumId set.records) 1 = set.nextId :=
  ⟨fun h => congrArg nextId h, fun h => by rw [restored, h]⟩

theorem Valid.restore (h : set.Valid) :
    AnnotationSet.restore set.pageCount set.revision set.records = .ok set.restored := by
  rw [restore_ok_iff]
  refine ⟨⟨h.sound, h.nodup⟩, ?_⟩
  rw [h.sorted.insertionSort_eq]
  rfl

theorem nextRevision_eq_ok :
    set.nextRevision = .ok revision ↔ set.revision + 1 = revision ∧ revision ≤ u64Max := by
  rw [nextRevision, okOr_eq_ok, checkedAdd_eq_some]

variable {comment : Option String} {highlight : Option HighlightColor} {id : Nat}
  {next : AnnotationSet} {range : TextRange}

/-- What a successful `add` does. -/
theorem add_eq_ok (h : set.add range highlight comment = .ok (next, id)) :
    validateRange range set.pageCount = .ok () ∧ validateContent highlight comment = .ok () ∧
      set.nextId = some id ∧ set.revision + 1 ≤ u64Max ∧
      next = { set with
        records := (set.records ++
          [addedRecord id range highlight comment (set.revision + 1)]).insertionSort annotationOrder
        revision := set.revision + 1
        nextId := checkedAdd id 1 } := by
  simp only [add, unit_bind_eq_ok] at h
  obtain ⟨hrange, hcontent, h⟩ := h
  obtain ⟨id', hid, h⟩ := bind_eq_ok.mp h
  obtain ⟨revision, hrevision, h⟩ := bind_eq_ok.mp h
  obtain ⟨rfl, hle⟩ := nextRevision_eq_ok.mp hrevision
  obtain ⟨rfl, rfl⟩ := h
  exact ⟨hrange, hcontent, okOr_eq_ok.mp hid, hle, rfl⟩

variable {changed : Bool}

/-- What a successful `update` does: nothing, or a new revision of one record. -/
theorem update_eq_ok (h : set.update id range highlight comment = .ok (next, changed)) :
    next = set ∨ ∃ current, set.records.find? (·.id = id) = some current ∧
      validateRange range set.pageCount = .ok () ∧ validateContent highlight comment = .ok () ∧
      set.revision + 1 ≤ u64Max ∧
      next = { set with
        records := (set.records.set (set.records.findIdx (·.id = id)) { current with
          range, highlight, commentMarkdown := comment
          updatedRevision := set.revision + 1 }).insertionSort annotationOrder
        revision := set.revision + 1 } := by
  simp only [update, unit_bind_eq_ok] at h
  obtain ⟨hrange, hcontent, h⟩ := h
  obtain ⟨current, hcurrent, h⟩ := bind_eq_ok.mp h
  split at h
  · simp only [Except.ok.injEq, Prod.mk.injEq] at h
    exact .inl h.1.symm
  · obtain ⟨revision, hrevision, h⟩ := bind_eq_ok.mp h
    obtain ⟨rfl, hle⟩ := nextRevision_eq_ok.mp hrevision
    simp only [Except.ok.injEq, Prod.mk.injEq] at h
    exact .inr ⟨current, okOr_eq_ok.mp hcurrent, hrange, hcontent, hle, h.1.symm⟩

/-- What a successful `delete` does: nothing, or a new revision without one record. -/
theorem delete_eq_ok (h : set.delete id = .ok (next, changed)) :
    next = set ∨ set.revision + 1 ≤ u64Max ∧ next = { set with
        records := set.records.eraseP (·.id = id), revision := set.revision + 1 } := by
  unfold delete at h
  split at h
  · obtain ⟨revision, hrevision, h⟩ := bind_eq_ok.mp h
    obtain ⟨rfl, hle⟩ := nextRevision_eq_ok.mp hrevision
    simp only [Except.ok.injEq, Prod.mk.injEq] at h
    exact .inr ⟨hle, h.1.symm⟩
  · simp only [Except.ok.injEq, Prod.mk.injEq] at h
    exact .inl h.1.symm

/-- One call of a mutating operation. -/
inductive Edit
  | add (range : TextRange) (highlight : Option HighlightColor) (comment : Option String)
  | update (id : Nat) (range : TextRange) (highlight : Option HighlightColor)
      (comment : Option String)
  | delete (id : Nat)

/-- The set after a call, with the id that it handed out: a call that fails changes nothing. -/
def edit (set : AnnotationSet) : Edit → AnnotationSet × List Nat
  | .add range highlight comment =>
    match set.add range highlight comment with
    | .ok (next, id) => (next, [id])
    | .error _ => (set, [])
  | .update id range highlight comment =>
    match set.update id range highlight comment with
    | .ok (next, _) => (next, [])
    | .error _ => (set, [])
  | .delete id =>
    match set.delete id with
    | .ok (next, _) => (next, [])
    | .error _ => (set, [])

/-- The set after a run of calls, with the ids that the run handed out, in order. -/
def run (set : AnnotationSet) : List Edit → AnnotationSet × List Nat
  | [] => (set, [])
  | e :: es =>
    let (next, first) := set.edit e
    let (last, rest) := next.run es
    (last, first ++ rest)

/-- The set is valid, its next id is above every id in it, and no change has been made to a set at
revision zero. -/
structure WellFormed (set : AnnotationSet) : Prop extends Valid set where
  below : ∀ id, set.nextId = some id → ∀ record ∈ set.records, record.id < id
  positive : ∀ id, set.nextId = some id → 0 < id
  unchanged : set.revision = 0 → set = new set.pageCount

theorem wellFormed_new (pageCount : Nat) : (new pageCount).WellFormed where
  toValid := valid_new pageCount
  below := by simp [new]
  positive := by simp [new]
  unchanged := by simp [new]

theorem WellFormed.add (h : set.WellFormed)
    (hadd : set.add range highlight comment = .ok (next, id)) : next.WellFormed := by
  obtain ⟨hrange, hcontent, hid, -, rfl⟩ := add_eq_ok hadd
  have hmem : ∀ record ∈ set.records ++ [addedRecord id range highlight comment
      (set.revision + 1)], record.id ≤ id := by
    intro record hr
    rcases mem_append.mp hr with hr | hr
    · exact (h.below id hid record hr).le
    · rw [mem_singleton.mp hr]
      exact le_rfl
  refine { toValid := valid_insertionSort ?_ ?_, below := ?_, positive := ?_, unchanged := ?_ }
  · intro record hr
    rcases mem_append.mp hr with hr | hr
    · exact (h.sound record hr).mono (by omega)
    · obtain rfl := mem_singleton.mp hr
      exact ⟨(h.positive id hid).ne', hrange, hcontent, Nat.succ_ne_zero _, le_rfl, le_rfl⟩
  · rw [map_append, nodup_append]
    refine ⟨h.nodup, by simp, ?_⟩
    intro a ha b hb
    obtain ⟨record, hr, rfl⟩ := mem_map.mp ha
    have hlt := h.below id hid record hr
    simp only [map_cons, map_nil, mem_singleton, addedRecord_id] at hb
    omega
  · intro following hnext record hr
    rw [mem_insertionSort] at hr
    obtain ⟨rfl, -⟩ := checkedAdd_eq_some.mp hnext
    exact Nat.lt_succ_of_le (hmem record hr)
  · intro following hnext
    obtain ⟨rfl, -⟩ := checkedAdd_eq_some.mp hnext
    exact Nat.succ_pos _
  · intro hzero
    exact absurd hzero (Nat.succ_ne_zero _)

theorem map_id_set_findIdx {current : Annotation} (hfind : records.find? (·.id = id) = some current)
    (hid : record.id = current.id) :
    (records.set (records.findIdx (·.id = id)) record).map Annotation.id =
      records.map Annotation.id := by
  induction records with
  | nil => simp at hfind
  | cons head rest ih =>
    by_cases hhead : head.id = id
    · rw [find?_cons_of_pos (by simpa using hhead)] at hfind
      cases hfind
      simp [findIdx_cons, hhead, hid]
    · rw [find?_cons_of_neg (by simpa using hhead)] at hfind
      simp [findIdx_cons, hhead, ih hfind]

theorem WellFormed.update (h : set.WellFormed)
    (hupdate : set.update id range highlight comment = .ok (next, changed)) : next.WellFormed := by
  rcases update_eq_ok hupdate with rfl | ⟨current, hfind, hrange, hcontent, -, rfl⟩
  · exact h
  have hcurrent : current ∈ set.records := mem_of_find?_eq_some hfind
  have hsound := h.sound current hcurrent
  have hcreated := hsound.updated.trans hsound.current
  refine { toValid := valid_insertionSort ?_ ?_, below := ?_, positive := h.positive
           unchanged := ?_ }
  · intro record hr
    rcases mem_or_eq_of_mem_set hr with hr | rfl
    · exact (h.sound record hr).mono (by omega)
    · exact ⟨hsound.id_ne, hrange, hcontent, hsound.created, by simp only; omega, le_rfl⟩
  · rw [map_id_set_findIdx hfind (by rfl)]
    exact h.nodup
  · intro following hnext record hr
    rw [mem_insertionSort] at hr
    rcases mem_or_eq_of_mem_set hr with hr | rfl
    · exact h.below following hnext record hr
    · exact h.below following hnext current hcurrent
  · intro hzero
    exact absurd hzero (Nat.succ_ne_zero _)

theorem WellFormed.delete (h : set.WellFormed) (hdelete : set.delete id = .ok (next, changed)) :
    next.WellFormed := by
  rcases delete_eq_ok hdelete with rfl | ⟨-, rfl⟩
  · exact h
  have hsub : (set.records.eraseP (·.id = id)).Sublist set.records := eraseP_sublist
  refine { sound := ?_, nodup := ?_, sorted := ?_, below := ?_, positive := h.positive
           unchanged := ?_ }
  · exact fun record hr => (h.sound record (hsub.subset hr)).mono (by simp)
  · exact h.nodup.sublist (hsub.map _)
  · exact h.sorted.sublist hsub
  · exact fun following hnext record hr => h.below following hnext record (hsub.subset hr)
  · intro hzero
    exact absurd hzero (Nat.succ_ne_zero _)

/-- An edit is an accepted operation or changes nothing. -/
theorem edit_cases {P : AnnotationSet × List Nat → Prop} (same : P (set, []))
    (add : ∀ {range highlight comment next id}, set.add range highlight comment = .ok (next, id) →
      P (next, [id]))
    (update : ∀ {id range highlight comment next changed},
      set.update id range highlight comment = .ok (next, changed) → P (next, []))
    (delete : ∀ {id next changed}, set.delete id = .ok (next, changed) → P (next, []))
    (e : Edit) : P (set.edit e) := by
  unfold AnnotationSet.edit
  split <;> split
  · exact add ‹_›
  · exact same
  · exact update ‹_›
  · exact same
  · exact delete ‹_›
  · exact same

theorem WellFormed.edit (h : set.WellFormed) (e : Edit) : (set.edit e).1.WellFormed :=
  edit_cases (P := fun result => result.1.WellFormed) h h.add h.update h.delete e

/-- The next id of the set is one above `last` and the `ids` handed out since `last` was the highest
id ever handed out. -/
structure Accounts (last : Nat) (set : AnnotationSet) (ids : List Nat) : Prop where
  ids_eq : ids = List.range' (last + 1) ids.length
  fits : last + ids.length ≤ u64Max
  next : set.nextId = checkedAdd (last + ids.length) 1
  le : ∀ record ∈ set.records, record.id ≤ last + ids.length

theorem accounts_new (pageCount : Nat) : Accounts 0 (new pageCount) [] :=
  ⟨rfl, by simp, rfl, by simp [new]⟩

variable {ids : List Nat} {last : Nat}

section

variable (h : Accounts last set ids)

include h

theorem Accounts.add (hadd : set.add range highlight comment = .ok (next, id)) :
    Accounts last next (ids ++ [id]) := by
  obtain ⟨-, -, hid, -, rfl⟩ := add_eq_ok hadd
  have hnext : last + ids.length + 1 = id ∧ id ≤ u64Max :=
    checkedAdd_eq_some.mp (h.next.symm.trans hid)
  obtain ⟨rfl, hfits⟩ := hnext
  constructor
  · rw [length_append, length_singleton, List.range'_concat, ← h.ids_eq, Nat.one_mul,
      Nat.add_right_comm]
  · rw [length_append, length_singleton]
    omega
  · rw [length_append, length_singleton, ← Nat.add_assoc]
  · intro record hr
    rw [mem_insertionSort, mem_append, mem_singleton] at hr
    rw [length_append, length_singleton]
    rcases hr with hr | rfl
    · exact (h.le record hr).trans (by omega)
    · exact le_rfl

theorem Accounts.update (hupdate : set.update id range highlight comment = .ok (next, changed)) :
    Accounts last next ids := by
  rcases update_eq_ok hupdate with rfl | ⟨current, hfind, -, -, -, rfl⟩
  · exact h
  refine ⟨h.ids_eq, h.fits, h.next, fun record hr => ?_⟩
  rw [mem_insertionSort] at hr
  rcases mem_or_eq_of_mem_set hr with hr | rfl
  · exact h.le record hr
  · exact h.le current (mem_of_find?_eq_some hfind)

theorem Accounts.delete (hdelete : set.delete id = .ok (next, changed)) :
    Accounts last next ids := by
  rcases delete_eq_ok hdelete with rfl | ⟨-, rfl⟩
  · exact h
  · exact ⟨h.ids_eq, h.fits, h.next, fun record hr => h.le record (eraseP_subset hr)⟩

theorem Accounts.edit (e : Edit) : Accounts last (set.edit e).1 (ids ++ (set.edit e).2) := by
  have hkept {next} (h : Accounts last next ids) : Accounts last next (ids ++ []) := by
    rwa [append_nil]
  exact edit_cases (P := fun result => Accounts last result.1 (ids ++ result.2)) (hkept h) h.add
    (fun hupdate => hkept (h.update hupdate)) (fun hdelete => hkept (h.delete hdelete)) e

end

theorem WellFormed.run (h : set.WellFormed) (edits : List Edit) : (set.run edits).1.WellFormed := by
  induction edits generalizing set with
  | nil => exact h
  | cons e es ih => exact ih (h.edit e)

theorem Accounts.run (h : Accounts last set ids) (edits : List Edit) :
    Accounts last (set.run edits).1 (ids ++ (set.run edits).2) := by
  induction edits generalizing set ids with
  | nil => simpa [AnnotationSet.run] using h
  | cons e es ih => simpa [AnnotationSet.run] using ih (h.edit e)

/-- The ids that a run from an empty set hands out are `1, …, n`, and the next one is `n + 1`. -/
theorem accounts_run (pageCount : Nat) (edits : List Edit) :
    Accounts 0 ((new pageCount).run edits).1 ((new pageCount).run edits).2 := by
  simpa using (accounts_new pageCount).run edits

theorem Accounts.nodup (h : Accounts last set ids) : ids.Nodup := by
  rw [h.ids_eq]
  exact nodup_range'

theorem maximumId_cons (record : Annotation) (records : List Annotation) :
    maximumId (record :: records) = max record.id (maximumId records) := by
  have h : ∀ (l : List Annotation) (a b : Nat),
      l.foldl (fun maximum record => max maximum record.id) (max a b) =
        max a (l.foldl (fun maximum record => max maximum record.id) b) := by
    intro l
    induction l with
    | nil => simp
    | cons r rest ih =>
      intro a b
      rw [foldl_cons, foldl_cons, max_assoc, ih]
  rw [maximumId, foldl_cons, max_comm 0, h, maximumId]

theorem le_maximumId (hr : record ∈ records) : record.id ≤ maximumId records := by
  induction records with
  | nil => simp at hr
  | cons head rest ih =>
    rw [maximumId_cons]
    rcases mem_cons.mp hr with rfl | hr
    · exact le_max_left _ _
    · exact (ih hr).trans (le_max_right _ _)

theorem maximumId_mem (hne : records ≠ []) : ∃ record ∈ records, record.id = maximumId records := by
  induction records with
  | nil => simp at hne
  | cons head rest ih =>
    rw [maximumId_cons]
    rcases le_total (maximumId rest) head.id with hle | hle
    · exact ⟨head, mem_cons_self, (max_eq_left hle).symm⟩
    · rw [max_eq_right hle]
      by_cases hrest : rest = []
      · subst hrest
        exact ⟨head, mem_cons_self, le_antisymm hle (Nat.zero_le _)⟩
      · obtain ⟨record, hr, hid⟩ := ih hrest
        exact ⟨record, mem_cons_of_mem _ hr, hid⟩

theorem Accounts.maximumId_eq_iff (h : Accounts 0 set ids) : maximumId set.records = ids.length ↔
      ids = [] ∨ ∃ record ∈ set.records, record.id = ids.length := by
  constructor
  · intro heq
    by_cases hne : set.records = []
    · left
      rw [hne] at heq
      exact eq_nil_of_length_eq_zero heq.symm
    · right
      rw [← heq]
      exact maximumId_mem hne
  · rintro (rfl | ⟨record, hr, hid⟩)
    · by_cases hne : set.records = []
      · rw [hne]
        rfl
      · obtain ⟨record, hr, hid⟩ := maximumId_mem hne
        have hle := h.le record hr
        simp only [length_nil] at hle ⊢
        omega
    · have hge := le_maximumId hr
      obtain ⟨top, htop, htopid⟩ := maximumId_mem (ne_nil_of_mem hr)
      have hle := h.le top htop
      omega

/-- What `restore` makes of the next id is right exactly when the last record added is still
there. -/
theorem Accounts.nextId_eq_iff (h : Accounts 0 set ids) :
    checkedAdd (maximumId set.records) 1 = set.nextId ↔
      ids = [] ∨ ∃ record ∈ set.records, record.id = ids.length := by
  rw [← h.maximumId_eq_iff, h.next, Nat.zero_add]
  have hfits := h.fits
  have hle : maximumId set.records ≤ u64Max := by
    by_cases hne : set.records = []
    · rw [hne]
      exact Nat.zero_le _
    · obtain ⟨record, hr, hid⟩ := maximumId_mem hne
      have := h.le record hr
      omega
  exact ⟨checkedAdd_one_inj hle (by omega), fun heq => by rw [heq]⟩

theorem wellFormed_restore (h : restore pageCount revision records = .ok set) : set.WellFormed := by
  have hvalid := valid_restore h
  obtain ⟨⟨hsound, -⟩, rfl⟩ := restore_ok_iff.mp h
  refine { toValid := hvalid, below := ?_, positive := ?_, unchanged := ?_ }
  · intro id hid record hr
    obtain ⟨rfl, -⟩ := checkedAdd_eq_some.mp hid
    rw [mem_insertionSort] at hr
    exact Nat.lt_succ_of_le (le_maximumId hr)
  · intro id hid
    obtain ⟨rfl, -⟩ := checkedAdd_eq_some.mp hid
    exact Nat.succ_pos _
  · rintro rfl
    have hempty : records = [] := by
      rw [eq_nil_iff_forall_not_mem]
      intro record hr
      have hs := hsound record hr
      exact hs.created (Nat.le_zero.mp (hs.updated.trans hs.current))
    subst hempty
    rfl

/-- The sets that the operations build. -/
inductive Reachable : AnnotationSet → Prop
  | new (pageCount : Nat) : Reachable (new pageCount)
  | restore {pageCount revision : Nat} {records : List Annotation} {set : AnnotationSet}
      (h : restore pageCount revision records = .ok set) : Reachable set
  | edit {set : AnnotationSet} (h : Reachable set) (e : Edit) : Reachable (set.edit e).1

theorem Reachable.run (h : set.Reachable) (edits : List Edit) : (set.run edits).1.Reachable := by
  induction edits generalizing set with
  | nil => exact h
  | cons e es ih => exact ih (h.edit e)

theorem Reachable.wellFormed (h : set.Reachable) : set.WellFormed := by
  induction h with
  | new pageCount => exact wellFormed_new pageCount
  | restore h => exact wellFormed_restore h
  | edit h e ih => exact ih.edit e

end AnnotationSet

end KeyReader.Annotations
