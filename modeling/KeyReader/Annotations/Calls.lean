import KeyReader.Annotations.History

/-! The calls of an annotation set that change it in place, statement by statement: a call that
fails, or finds nothing to change, leaves the set as it was. -/

namespace KeyReader.Annotations

open Checked Machine List

namespace AnnotationSet

/-- A method of `&mut self`: what it has written before an error stays written. -/
abbrev Method (α : Type) := EStateM AnnotationError AnnotationSet α

/-- The `?` operator. -/
def propagate {α : Type} (result : Except AnnotationError α) : Method α :=
  match result with
  | .ok value => pure value
  | .error error => throw error

def addInPlace (range : TextRange) (highlight : Option HighlightColor)
    (commentMarkdown : Option String) : Method Nat := do
  propagate (validateRange range (← get).pageCount)
  propagate (validateContent highlight commentMarkdown)
  let id ← propagate (okOr (← get).nextId .annotationIdExhausted)
  let revision ← propagate (← get).nextRevision
  modify fun set => { set with
    records := set.records ++ [addedRecord id range highlight commentMarkdown revision] }
  modify fun set => { set with records := set.records.insertionSort annotationOrder }
  modify fun set => { set with revision }
  modify fun set => { set with nextId := checkedAdd id 1 }
  return id

def updateInPlace (id : Nat) (range : TextRange) (highlight : Option HighlightColor)
    (commentMarkdown : Option String) : Method Bool := do
  propagate (validateRange range (← get).pageCount)
  propagate (validateContent highlight commentMarkdown)
  let index := (← get).records.findIdx (·.id = id)
  let current ← propagate (okOr (← get).records[index]? (AnnotationError.unknownAnnotation id))
  if current.range = range ∧ current.highlight = highlight ∧
      current.commentMarkdown = commentMarkdown then
    return false
  let revision ← propagate (← get).nextRevision
  modify fun set => { set with records := set.records.modify index ({ · with range }) }
  modify fun set => { set with records := set.records.modify index ({ · with highlight }) }
  modify fun set => { set with records := set.records.modify index ({ · with commentMarkdown }) }
  modify fun set => { set with
    records := set.records.modify index ({ · with updatedRevision := revision }) }
  modify fun set => { set with records := set.records.insertionSort annotationOrder }
  modify fun set => { set with revision }
  return true

def deleteInPlace (id : Nat) : Method Bool := do
  match (← get).records.findIdx? (·.id = id) with
  | none => return false
  | some index =>
    let revision ← propagate (← get).nextRevision
    modify fun set => { set with records := set.records.eraseIdx index }
    modify fun set => { set with revision }
    return true

section runs

variable {α β : Type} (set : AnnotationSet)

theorem run_get (f : AnnotationSet → Method α) :
    ((do let current ← get; f current) : Method α).run set = (f set).run set := rfl

theorem run_ok (value : α) (f : α → Method β) :
    (propagate (.ok value) >>= f).run set = (f value).run set := rfl

theorem run_modify (change : AnnotationSet → AnnotationSet) (f : PUnit → Method α) :
    (modify change >>= f).run set = (f ⟨⟩).run (change set) := rfl

theorem run_return (value : α) : (pure value : Method α).run set = .ok value set := rfl

end runs

variable {id : Nat} {next set : AnnotationSet}

/-- An `update` that returns `false` has no effect. -/
theorem update_effect {range : TextRange} {highlight : Option HighlightColor}
    {comment : Option String} {changed : Bool}
    (h : set.update id range highlight comment = .ok (next, changed)) :
    (changed = false ∧ next = set) ∨
      (changed = true ∧ next.revision = set.revision + 1 ∧ next.nextId = set.nextId) := by
  simp only [update, unit_bind_eq_ok] at h
  obtain ⟨-, -, h⟩ := h
  obtain ⟨current, -, h⟩ := bind_eq_ok.mp h
  split at h
  · cases h
    exact .inl ⟨rfl, rfl⟩
  · obtain ⟨revision, hrevision, h⟩ := bind_eq_ok.mp h
    obtain ⟨rfl, -⟩ := nextRevision_eq_ok.mp hrevision
    cases h
    exact .inr ⟨rfl, rfl, rfl⟩

/-- A `delete` that returns `false` has no effect. -/
theorem delete_effect {changed : Bool} (h : set.delete id = .ok (next, changed)) :
    (changed = false ∧ next = set) ∨
      (changed = true ∧ next.revision = set.revision + 1 ∧ next.nextId = set.nextId) := by
  unfold delete at h
  split at h
  · obtain ⟨revision, hrevision, h⟩ := bind_eq_ok.mp h
    obtain ⟨rfl, -⟩ := nextRevision_eq_ok.mp hrevision
    cases h
    exact .inr ⟨rfl, rfl, rfl⟩
  · cases h
    exact .inl ⟨rfl, rfl⟩

/-- A call in place that returns and writes what a function of the set gives. -/
def Computes {α : Type} (method : Method α)
    (function : AnnotationSet → Except AnnotationError (AnnotationSet × α)) : Prop :=
  ∀ set, method.run set = match function set with
    | .ok (next, value) => .ok value next
    | .error error => .error error set

theorem addInPlace_computes (range : TextRange) (highlight : Option HighlightColor)
    (comment : Option String) :
    Computes (addInPlace range highlight comment) (·.add range highlight comment) := by
  intro set
  dsimp only
  unfold addInPlace add
  rw [run_get]
  cases validateRange range set.pageCount with
  | error error => rfl
  | ok =>
    rw [run_ok, ok_bind]
    cases validateContent highlight comment with
    | error error => rfl
    | ok =>
      rw [run_ok, ok_bind, run_get]
      cases okOr set.nextId AnnotationError.annotationIdExhausted with
      | error error => rfl
      | ok id =>
        rw [run_ok, ok_bind, run_get]
        cases set.nextRevision with
        | error error | ok revision => rfl

theorem getElem?_findIdx (records : List Annotation) (id : Nat) :
    records[records.findIdx (·.id = id)]? = records.find? (·.id = id) := by
  induction records with
  | nil => rfl
  | cons record rest ih =>
    by_cases h : record.id = id
    · simp [findIdx_cons, h]
    · simp [findIdx_cons, h, ih]

theorem updateInPlace_computes (id : Nat) (range : TextRange) (highlight : Option HighlightColor)
    (comment : Option String) :
    Computes (updateInPlace id range highlight comment) (·.update id range highlight comment) := by
  intro set
  dsimp only
  unfold updateInPlace update
  rw [run_get]
  cases validateRange range set.pageCount with
  | error error => rfl
  | ok =>
    rw [run_ok, ok_bind]
    cases validateContent highlight comment with
    | error error => rfl
    | ok =>
      rw [run_ok, ok_bind, run_get, run_get, getElem?_findIdx]
      cases hcurrent : okOr (set.records.find? (·.id = id)) (AnnotationError.unknownAnnotation id) with
      | error error => rfl
      | ok current =>
        rw [run_ok, ok_bind]
        split
        · rfl
        · rw [run_get]
          cases set.nextRevision with
          | error error => rfl
          | ok revision =>
            rw [run_ok, ok_bind]
            iterate 6 rw [run_modify]
            rw [run_return]
            have hfound : set.records[set.records.findIdx (·.id = id)]? = some current := by
              rw [getElem?_findIdx]
              exact okOr_eq_ok.mp hcurrent
            simp only [modify_modify_eq]
            rw [modify_eq_set_getElem?, hfound]
            rfl

theorem deleteInPlace_computes (id : Nat) : Computes (deleteInPlace id) (·.delete id) := by
  intro set
  dsimp only
  unfold deleteInPlace delete
  rw [run_get]
  cases hindex : set.records.findIdx? (·.id = id) with
  | none =>
    rw [if_neg]
    · rfl
    · simpa using findIdx?_eq_none_iff.mp hindex
  | some index =>
    have hmem : set.records.any (·.id = id) := by
      rw [← findIdx?_isSome, hindex]
      rfl
    rw [if_pos hmem]
    rw [run_get]
    cases set.nextRevision with
    | error error => rfl
    | ok revision =>
      rw [eraseP_eq_eraseIdx, hindex]
      rfl

/-- What a successful call returns. -/
inductive Reply
  | added (id : Nat)
  | changed (effective : Bool)

/-- A call that has changed the set. -/
def Reply.effective : Reply → Bool
  | .added _ => true
  | .changed effective => effective

def call : Edit → Method Reply
  | .add range highlight comment => Reply.added <$> addInPlace range highlight comment
  | .update id range highlight comment =>
    Reply.changed <$> updateInPlace id range highlight comment
  | .delete id => Reply.changed <$> deleteInPlace id

def calls (set : AnnotationSet) : List Edit → List (Except AnnotationError Reply) × AnnotationSet
  | [] => ([], set)
  | e :: es =>
    match (call e).run set with
    | .ok reply next =>
      let (replies, last) := next.calls es
      (.ok reply :: replies, last)
    | .error error next =>
      let (replies, last) := next.calls es
      (.error error :: replies, last)

/-- The id that a reply hands out. -/
def allocatedId : Except AnnotationError Reply → Option Nat
  | .ok (.added id) => some id
  | _ => none

/-- The ids that replies hand out, in order. -/
def allocated (replies : List (Except AnnotationError Reply)) : List Nat :=
  replies.filterMap allocatedId

/-- The number of replies to calls that have changed the set. -/
def effectiveCount (replies : List (Except AnnotationError Reply)) : Nat :=
  replies.countP fun
    | .ok reply => reply.effective
    | .error _ => false

theorem Computes.map {α β : Type} {method : Method α}
    {function : AnnotationSet → Except AnnotationError (AnnotationSet × α)}
    (h : Computes method function) (f : α → β) (set : AnnotationSet) :
    (f <$> method).run set = match function set with
      | .ok (next, value) => .ok (f value) next
      | .error error => .error error set := by
  have hrun := h set
  simp only [EStateM.run] at hrun
  simp only [EStateM.run, Functor.map, EStateM.map, hrun]
  cases function set <;> rfl

/-- A call fails and leaves the set, succeeds without an effect and leaves it, or succeeds with the
next revision.  An addition hands out the next id. -/
theorem call_cases (set : AnnotationSet) (e : Edit) :
    (∃ error, (call e).run set = .error error set ∧ set.edit e = (set, [])) ∨
    ((call e).run set = .ok (.changed false) set ∧ set.edit e = (set, [])) ∨
    ∃ next, next.revision = set.revision + 1 ∧
      (((call e).run set = .ok (.changed true) next ∧ set.edit e = (next, []) ∧
          next.nextId = set.nextId) ∨
        ∃ id, (call e).run set = .ok (.added id) next ∧ set.edit e = (next, [id]) ∧
          set.nextId = some id ∧ next.nextId = checkedAdd id 1) := by
  cases e with
  | add range highlight comment =>
    unfold call
    rw [(addInPlace_computes range highlight comment).map, edit]
    cases hadd : set.add range highlight comment with
    | error error => exact .inl ⟨error, rfl, rfl⟩
    | ok result =>
      obtain ⟨-, -, hid, -, hnext⟩ := add_eq_ok hadd
      refine .inr (.inr ⟨result.1, ?_, .inr ⟨result.2, rfl, rfl, hid, ?_⟩⟩) <;> rw [hnext]
  | update id range highlight comment =>
    unfold call
    rw [(updateInPlace_computes id range highlight comment).map, edit]
    cases hupdate : set.update id range highlight comment with
    | error error => exact .inl ⟨error, rfl, rfl⟩
    | ok result =>
      obtain ⟨next, changed⟩ := result
      rcases update_effect hupdate with ⟨rfl, rfl⟩ | ⟨rfl, hrevision, hid⟩
      · exact .inr (.inl ⟨rfl, rfl⟩)
      · exact .inr (.inr ⟨next, hrevision, .inl ⟨rfl, rfl, hid⟩⟩)
  | delete id =>
    unfold call
    rw [(deleteInPlace_computes id).map, edit]
    cases hdelete : set.delete id with
    | error error => exact .inl ⟨error, rfl, rfl⟩
    | ok result =>
      obtain ⟨next, changed⟩ := result
      rcases delete_effect hdelete with ⟨rfl, rfl⟩ | ⟨rfl, hrevision, hid⟩
      · exact .inr (.inl ⟨rfl, rfl⟩)
      · exact .inr (.inr ⟨next, hrevision, .inl ⟨rfl, rfl, hid⟩⟩)

/-- The ids of a run so far, among them those of the first set, are distinct and below the next. -/
structure Handed (set : AnnotationSet) (ids : List Nat) : Prop where
  nodup : ids.Nodup
  below : ∀ next, set.nextId = some next → ∀ id ∈ ids, id < next

theorem Handed.add {ids : List Nat} (h : Handed set ids) (hid : set.nextId = some id)
    (hnext : next.nextId = checkedAdd id 1) : Handed next (ids ++ [id]) where
  nodup := by
    rw [nodup_append]
    refine ⟨h.nodup, nodup_singleton id, ?_⟩
    rintro a ha b hb rfl
    rw [mem_singleton.mp hb] at ha
    exact Nat.lt_irrefl _ (h.below id hid id ha)
  below following hfollowing other hother := by
    rw [hnext] at hfollowing
    obtain ⟨rfl, -⟩ := checkedAdd_eq_some.mp hfollowing
    rcases mem_append.mp hother with hmem | hmem
    · exact Nat.lt_succ_of_lt (h.below id hid other hmem)
    · rw [mem_singleton.mp hmem]
      exact Nat.lt_succ_self id

theorem calls_spec (edits : List Edit) {ids : List Nat} (h : Handed set ids) :
    (set.calls edits).2 = (set.run edits).1 ∧
      Handed (set.calls edits).2 (ids ++ allocated (set.calls edits).1) ∧
      (set.calls edits).2.revision = set.revision + effectiveCount (set.calls edits).1 := by
  induction edits generalizing set ids with
  | nil => exact ⟨rfl, by simpa [calls, allocated] using h, rfl⟩
  | cons e es ih =>
    rcases call_cases set e with ⟨error, hcall, hedit⟩ | ⟨hcall, hedit⟩ |
      ⟨next, hrevision, ⟨hcall, hedit, hid⟩ | ⟨id, hcall, hedit, hid, hnext⟩⟩
    all_goals
      unfold calls run
      rw [hcall, hedit]
    · exact ih h
    · exact ih h
    · have hkept : Handed next ids := ⟨h.nodup, hid ▸ h.below⟩
      obtain ⟨hrun, hhanded, hcount⟩ := ih hkept
      refine ⟨hrun, hhanded, ?_⟩
      rw [hcount, hrevision, effectiveCount, effectiveCount, countP_cons_of_pos rfl]
      omega
    · obtain ⟨hrun, hhanded, hcount⟩ := ih (h.add hid hnext)
      rw [append_assoc] at hhanded
      refine ⟨hrun, hhanded, ?_⟩
      rw [hcount, hrevision, effectiveCount, effectiveCount, countP_cons_of_pos rfl]
      omega

/-- The sets that a run of calls can start from. -/
def Start (set : AnnotationSet) : Prop :=
  (∃ pageCount, set = new pageCount) ∨
    ∃ pageCount revision records, restore pageCount revision records = .ok set

theorem Start.wellFormed (h : set.Start) : set.WellFormed := by
  rcases h with ⟨pageCount, rfl⟩ | ⟨pageCount, revision, records, hrestore⟩
  · exact wellFormed_new pageCount
  · exact wellFormed_restore hrestore

/-- What holds of a set after every run of calls, and what the next call can do to it. -/
theorem calls_invariant (start : AnnotationSet) (hstart : start.Start) (edits : List Edit) :
    let (replies, set) := start.calls edits
    set.validate = .ok () ∧ set.records.Pairwise annotationOrder ∧
      (set.records.map Annotation.id).Nodup ∧
      (∀ next, set.nextId = some next → ∀ record ∈ set.records, record.id < next) ∧
      (start.records.map Annotation.id ++ allocated replies).Nodup ∧
      (∀ record ∈ set.records, record.updatedRevision ≤ set.revision) ∧
      set.revision = start.revision + effectiveCount replies ∧
      ∀ e, match (call e).run set with
        | .ok reply next =>
          if reply.effective then next.revision = set.revision + 1 else next = set
        | .error _ next => next = set := by
  have hstarted : Handed start (start.records.map Annotation.id) := by
    refine ⟨hstart.wellFormed.nodup, fun next hnext id hid => ?_⟩
    obtain ⟨record, hrecord, rfl⟩ := mem_map.mp hid
    exact hstart.wellFormed.below next hnext record hrecord
  obtain ⟨hrun, hhanded, hcount⟩ := calls_spec edits hstarted
  have hset := hstart.wellFormed.run edits
  rw [← hrun] at hset
  refine ⟨hset.validate, hset.sorted, hset.nodup, hset.below, hhanded.nodup,
    fun record hrecord => (hset.sound record hrecord).current, hcount, fun e => ?_⟩
  rcases call_cases (start.calls edits).2 e with ⟨error, hcall, -⟩ | ⟨hcall, -⟩ |
    ⟨next, hrevision, ⟨hcall, -⟩ | ⟨id, hcall, -⟩⟩ <;> rw [hcall]
  · rfl
  · exact hrevision
  · exact hrevision

theorem calls_invariant_new :
    ((new 1).calls [.add (.new ⟨0, 3⟩ ⟨0, 0⟩) (some .yellow) none, .delete 7,
      .add (.new ⟨0, 1⟩ ⟨0, 0⟩) none none, .delete 1]).2.validate = .ok () :=
  (calls_invariant (new 1) (.inl ⟨1, rfl⟩) _).1

/-- A full set refuses to add, and stays. -/
example (range : TextRange) (h : validateRange range 1 = .ok ()) :
    (addInPlace range (some .yellow) none).run ⟨1, [], none, 5⟩ =
      .error .annotationIdExhausted ⟨1, [], none, 5⟩ := by
  rw [addInPlace_computes]
  simp only [add, h]
  rfl

end AnnotationSet

end KeyReader.Annotations
