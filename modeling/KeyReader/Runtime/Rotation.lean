import KeyReader.Runtime.Deliveries
import KeyReader.Runtime.Publication

/-! The order in which the owner thread turns to the documents: the rotation holds every document that
is attached once, and among documents whose work has the same priority none is passed over twice. -/

namespace KeyReader.Runtime

open List Option Table

namespace Supervisor

variable {S L X : Type}

/-- The priority of the work that could be selected from a document. -/
def level (supervisor : Supervisor S L X) (id : Nat) : Option Nat :=
  (supervisor.documents.lookup id).bind ManagedDocument.runnablePriority

/-- No work that could be selected has a higher priority. -/
def Tops (supervisor : Supervisor S L X) (priority : Nat) : Prop :=
  ∀ id other, supervisor.level id = some other → other ≤ priority

/-- The rotation holds exactly the documents that are there, each once. -/
structure Listed (supervisor : Supervisor S L X) : Prop where
  nodup : supervisor.rotation.Nodup
  lists : ∀ id, id ∈ supervisor.rotation ↔ (supervisor.documents.lookup id).isSome

variable {id priority : Nat} {supervisor : Supervisor S L X}

theorem Listed.mem_of_level (h : supervisor.Listed) (hlevel : supervisor.level id = some priority) :
    id ∈ supervisor.rotation := by
  obtain ⟨document, hdocument, -⟩ := bind_eq_some_iff.mp hlevel
  exact (h.lists id).mpr (by rw [hdocument]; rfl)

theorem rotate_eq {documents : AList fun _ : Nat => ManagedDocument S L X} {highest turns : Nat}
    {before after : List Nat}
    (hid : (documents.lookup id).bind ManagedDocument.runnablePriority = some highest)
    (hbefore : ∀ other ∈ before, (documents.lookup other).bind ManagedDocument.runnablePriority ≠
      some highest)
    (hturns : before.length < turns) : rotate documents highest turns (before ++ id :: after) =
      (some id, after ++ (before ++ [id])) := by
  induction before generalizing turns after with
  | nil =>
    obtain ⟨turns, rfl⟩ := Nat.exists_eq_succ_of_ne_zero (Nat.ne_of_gt hturns)
    rw [nil_append, rotate, if_pos hid, nil_append]
  | cons first before ih =>
    obtain ⟨turns, rfl⟩ := Nat.exists_eq_succ_of_ne_zero (Nat.ne_of_gt (Nat.zero_lt_of_lt hturns))
    rw [cons_append, rotate, if_neg (hbefore first mem_cons_self), append_assoc,
      cons_append, ih (forall_mem_cons.mp hbefore).2
        (Nat.lt_of_succ_lt_succ hturns), append_assoc, cons_append, nil_append,
      cons_append]

/-- The first document in the rotation whose work has the highest priority is selected, and the
documents up to it go to the end. -/
theorem nextRunnable_cases (h : supervisor.Listed) :
    (supervisor.nextRunnable = (none, supervisor) ∧ ∀ id, supervisor.level id = none) ∨
    ∃ before id after priority, supervisor.rotation = before ++ id :: after ∧
      supervisor.level id = some priority ∧ supervisor.Tops priority ∧
      (∀ other ∈ before, supervisor.level other ≠ some priority) ∧
      supervisor.nextRunnable =
        (some id, { supervisor with rotation := after ++ (before ++ [id]) }) := by
  have hmem : ∀ priority, priority ∈ supervisor.rotation.filterMap supervisor.level ↔
      ∃ id, supervisor.level id = some priority := by
    intro priority
    rw [mem_filterMap]
    exact exists_congr fun id => and_iff_right_of_imp h.mem_of_level
  have hlevel : (fun id =>
      (supervisor.documents.lookup id).bind ManagedDocument.runnablePriority) = supervisor.level := rfl
  unfold nextRunnable
  rw [hlevel]
  dsimp only
  cases hmax : (supervisor.rotation.filterMap supervisor.level).max? with
  | none =>
    refine .inl ⟨rfl, fun id => ?_⟩
    rw [List.max?_eq_none_iff] at hmax
    by_contra hsome
    obtain ⟨priority, hpriority⟩ := ne_none_iff_exists'.mp hsome
    have hin := (hmem priority).mpr ⟨id, hpriority⟩
    rw [hmax] at hin
    cases hin
  | some priority =>
    obtain ⟨hin, hle⟩ := List.max?_eq_some_iff.mp hmax
    obtain ⟨top, htop⟩ := (hmem priority).mp hin
    have hfound : ∃ id, supervisor.rotation.find? (supervisor.level · = some priority) = some id := by
      refine isSome_iff_exists.mp (List.find?_isSome.mpr ⟨top, h.mem_of_level htop, ?_⟩)
      exact decide_eq_true htop
    obtain ⟨id, hid⟩ := hfound
    obtain ⟨hlevel, before, after, hrotation, hbefore⟩ := List.find?_eq_some_iff_append.mp hid
    have hskipped : ∀ other ∈ before, supervisor.level other ≠ some priority := by
      intro other hother
      simpa using hbefore other hother
    refine .inr ⟨before, id, after, priority, hrotation, of_decide_eq_true hlevel,
      fun other found hfound => hle found ((hmem found).mpr ⟨other, hfound⟩), hskipped, ?_⟩
    have hlength : before.length < supervisor.rotation.length := by
      rw [hrotation, length_append, length_cons]
      omega
    have hrotate := @rotate_eq _ _ _ _ _ _ _ _ after (of_decide_eq_true hlevel) hskipped hlength
    rw [← hrotation] at hrotate
    dsimp only
    rw [hrotate]

theorem listed_modify (h : supervisor.Listed) (id : Nat)
    (change : ManagedDocument S L X → ManagedDocument S L X × Cancellations) :
    (supervisor.modify id change).Listed := by
  unfold modify
  cases hlookup : supervisor.documents.lookup id with
  | none => exact h
  | some document =>
    refine ⟨h.nodup, fun other => (h.lists other).trans ?_⟩
    rw [lookup_insert]
    split
    · rename_i heq
      rw [heq, hlookup]
      exact Iff.rfl
    · exact Iff.rfl

theorem rotation_modify (supervisor : Supervisor S L X) (id : Nat)
    (change : ManagedDocument S L X → ManagedDocument S L X × Cancellations) :
    (supervisor.modify id change).rotation = supervisor.rotation := by
  unfold modify
  cases supervisor.documents.lookup id <;> rfl

theorem rotation_remove (supervisor : Supervisor S L X) (id : Nat) :
    (supervisor.remove id).rotation = supervisor.rotation.filter (· ≠ id) := by
  unfold remove
  cases supervisor.documents.lookup id <;> rfl

theorem listed_remove (h : supervisor.Listed) (id : Nat) : (supervisor.remove id).Listed := by
  refine ⟨?_, fun other => ?_⟩
  · rw [rotation_remove]
    exact h.nodup.filter _
  · rw [rotation_remove, mem_filter, h.lists, decide_eq_true_eq]
    unfold remove
    cases hlookup : supervisor.documents.lookup id with
    | none =>
      refine ⟨And.left, fun hother => ⟨hother, ?_⟩⟩
      rintro rfl
      rw [hlookup] at hother
      cases hother
    | some document =>
      rw [lookup_erase]
      split
      · rename_i heq
        exact iff_of_false (fun hother => hother.2 heq) nofun
      · rename_i hne
        exact and_iff_left hne

theorem foldl_remove_spec (h : supervisor.Listed) (ids : List Nat) :
    (ids.foldl remove supervisor).Listed ∧
      (ids.foldl remove supervisor).rotation.Sublist supervisor.rotation := by
  induction ids generalizing supervisor with
  | nil => exact ⟨h, List.Sublist.refl _⟩
  | cons id ids ih =>
    obtain ⟨hlisted, hsublist⟩ := ih (listed_remove h id)
    rw [rotation_remove] at hsublist
    exact ⟨hlisted, hsublist.trans filter_sublist⟩

theorem flushPendingEvents_spec (h : supervisor.Listed) (routes : Nat → List RouteAnswer) :
    (supervisor.flushPendingEvents routes).Listed ∧
      (supervisor.flushPendingEvents routes).rotation.Sublist supervisor.rotation := by
  have hflushed : ({ supervisor with
      documents := mapValues (fun id document => (document.flush (routes id)).1)
        supervisor.documents } : Supervisor S L X).Listed := by
    refine ⟨h.nodup, fun id => (h.lists id).trans ?_⟩
    rw [lookup_mapValues, isSome_map]
  exact foldl_remove_spec hflushed _

/-- The document that a step selects. -/
def selected (supervisor : Supervisor S L X) : Event S L X → List Nat
  | .work _ => supervisor.nextRunnable.1.toList
  | _ => []

/-- How a step that selects nothing leaves the rotation. -/
inductive Keeps (supervisor : Supervisor S L X) : List Nat → Prop
  | trimmed (rotation : List Nat) (sublist : rotation.Sublist supervisor.rotation) :
      Keeps supervisor rotation
  | attached (id : Nat) (absent : id ∉ supervisor.rotation) :
      Keeps supervisor (supervisor.rotation ++ [id])

variable {next : Supervisor S L X}

theorem step_cases {event : Event S L X} (h : supervisor.Listed)
    (hstep : supervisor.step event = some next) : next.Listed ∧ ((∃ answers, event = .work answers ∧
      next.rotation = supervisor.nextRunnable.2.rotation) ∨
        (supervisor.selected event = [] ∧ supervisor.Keeps next.rotation)) := by
  have hmodify : ∀ id change, (supervisor.modify id change).Listed ∧
      supervisor.Keeps (supervisor.modify id change).rotation := by
    intro id change
    refine ⟨listed_modify h id change, ?_⟩
    rw [rotation_modify]
    exact .trimmed _ (List.Sublist.refl _)
  cases event with
  | accept command =>
    cases command with
    | attach id =>
      unfold step acceptCommand at hstep
      dsimp only at hstep
      split at hstep
      · cases hstep
        exact ⟨h, .inr ⟨rfl, .trimmed _ (List.Sublist.refl _)⟩⟩
      · rename_i habsent
        cases hstep
        have hnot : id ∉ supervisor.rotation := fun hmem => habsent ((h.lists id).mp hmem)
        refine ⟨⟨?_, fun other => ?_⟩, .inr ⟨rfl, .attached id hnot⟩⟩
        · refine nodup_append.mpr ⟨h.nodup, nodup_singleton _, ?_⟩
          rintro other hother found hfound rfl
          exact hnot (mem_singleton.mp hfound ▸ hother)
        · show other ∈ supervisor.rotation ++ [id] ↔
            (AList.lookup other (supervisor.documents.insert id _)).isSome
          rw [lookup_insert, mem_append, mem_singleton, h.lists]
          split
          · rename_i heq
            exact iff_of_true (.inr heq) rfl
          · rename_i hne
            exact or_iff_left hne
    | opening id source cancellation | close id | replace id workClass work cancellation
    | cancelClass id workClass =>
      cases hstep
      exact (hmodify id _).imp_right fun hkeeps => .inr ⟨rfl, hkeeps⟩
    | detach id =>
      cases hstep
      refine ⟨listed_remove h id, .inr ⟨rfl, ?_⟩⟩
      rw [rotation_remove]
      exact .trimmed _ filter_sublist
    | shutdown => cases hstep
  | flush routes =>
    cases hstep
    obtain ⟨hlisted, hsublist⟩ := flushPendingEvents_spec h routes
    exact ⟨hlisted, .inr ⟨rfl, .trimmed _ hsublist⟩⟩
  | work answers =>
    cases hstep
    have hnext : supervisor.nextRunnable.2.Listed := by
      rcases nextRunnable_cases h with ⟨heq, -⟩ | ⟨before, id, after, -, hrotation, -, -, -, heq⟩
      · rw [heq]
        exact h
      · have hperm : (after ++ (before ++ [id])).Perm supervisor.rotation := by
          rw [hrotation]
          refine perm_append_comm.trans ?_
          rw [append_assoc]
          exact List.Perm.refl _
        rw [heq]
        exact ⟨hperm.nodup_iff.mpr h.nodup, fun other => hperm.mem_iff.trans (h.lists other)⟩
    have hwork : (supervisor.work answers).Listed ∧
        (supervisor.work answers).rotation = supervisor.nextRunnable.2.rotation := by
      unfold work
      generalize supervisor.nextRunnable = selected at hnext
      obtain ⟨id, selected⟩ := selected
      cases id with
      | none => exact ⟨hnext, rfl⟩
      | some id => exact ⟨listed_modify hnext id _, rotation_modify selected id _⟩
    exact ⟨hwork.1, .inl ⟨answers, rfl, hwork.2⟩⟩
  | source | cancel source =>
    cases hstep
    exact ⟨⟨h.nodup, h.lists⟩, .inr ⟨rfl, .trimmed _ (List.Sublist.refl _)⟩⟩
  | allocate id =>
    cases hstep
    exact (hmodify id _).imp_right fun hkeeps => .inr ⟨rfl, hkeeps⟩

theorem pair_sublist_of_append {a b : Nat} {front back : List Nat}
    (h : [a, b].Sublist (front ++ back)) (hb : b ∉ back) : [a, b].Sublist front := by
  obtain ⟨left, right, heq, hleft, hright⟩ := sublist_append_iff.mp h
  cases hsplit : right.reverse with
  | nil =>
    rw [reverse_eq_nil_iff.mp hsplit, append_nil] at heq
    exact heq ▸ hleft
  | cons last rest =>
    have hright' : right = rest.reverse ++ [last] := by
      rw [← reverse_reverse right, hsplit, reverse_cons]
    rw [hright', ← append_assoc] at heq
    have hlast : b = last := by
      have := congrArg List.getLast? heq
      simpa using this
    refine absurd (hright.subset ?_) hb
    rw [hright', hlast]
    exact mem_concat_self

/-- While a document stays at the highest priority, a step selects it, or no document that comes after
it in the rotation is selected or comes before it. -/
theorem step_waits {event : Event S L X} (h : supervisor.Listed)
    (hstep : supervisor.step event = some next) {other : Nat}
    (hlevel : supervisor.level other = some priority)
    (htops : ∀ answers, event = .work answers → supervisor.Tops priority)
    (hbehind : ¬[id, other].Sublist supervisor.rotation) : other ∈ supervisor.selected event ∨
      (id ∉ supervisor.selected event ∧ ¬[id, other].Sublist next.rotation) := by
  have hother := h.mem_of_level hlevel
  obtain ⟨-, ⟨answers, rfl, hrotation⟩ | ⟨hselected, hkeeps⟩⟩ := step_cases h hstep
  · rw [hrotation, selected]
    rcases nextRunnable_cases h with ⟨heq, hidle⟩ |
      ⟨before, found, after, highest, hsplit, hfound, hhighest, hbefore, heq⟩
    · cases hlevel.symm.trans (hidle other)
    rw [heq, toList_some, mem_singleton, mem_singleton]
    have hsame : highest = priority :=
      le_antisymm (htops answers rfl found highest hfound) (hhighest other priority hlevel)
    subst hsame
    by_cases heq : other = found
    · exact .inl heq
    rw [hsplit] at hother hbehind
    have hnot : other ∉ before := fun hmem => hbefore other hmem hlevel
    have hafter : other ∈ after := by
      rcases mem_append.mp hother with hmem | hmem
      · exact absurd hmem hnot
      · exact (mem_cons.mp hmem).resolve_left heq
    refine .inr ⟨?_, fun hsublist => hbehind ?_⟩
    · rintro rfl
      refine hbehind (List.Sublist.trans ?_ (sublist_append_right before _))
      exact List.Sublist.cons_cons id (singleton_sublist.mpr hafter)
    · have hfront := pair_sublist_of_append hsublist (by simp [hnot, heq])
      exact hfront.trans ((sublist_cons_self found after).trans (sublist_append_right before _))
  · rw [hselected]
    refine .inr ⟨not_mem_nil, ?_⟩
    generalize next.rotation = rotation at hkeeps
    cases hkeeps with
    | trimmed _ sublist => exact fun hsublist => hbehind (hsublist.trans sublist)
    | attached found absent =>
      refine fun hsublist => hbehind (pair_sublist_of_append hsublist ?_)
      rw [mem_singleton]
      rintro rfl
      exact absent hother

/-- Until a step selects it, the document has work of the priority, and no document has work of a higher
one when a step selects. -/
def StaysOnTop (other priority : Nat) : Supervisor S L X → List (Event S L X) → Prop
  | supervisor, [] => supervisor.level other = some priority
  | supervisor, event :: events => supervisor.level other = some priority ∧
      (∀ answers, event = .work answers → supervisor.Tops priority) ∧
      (other ∉ supervisor.selected event →
        ∀ next, supervisor.step event = some next → StaysOnTop other priority next events)

theorem run_waits {last : Supervisor S L X} {events : List (Event S L X)} (h : supervisor.Listed)
    {other : Nat} (hbehind : ¬[id, other].Sublist supervisor.rotation)
    (hrun : Transition.run step supervisor events = some last)
    (hstays : StaysOnTop other priority supervisor events) :
    other ∈ Transition.outputs step selected supervisor events ∨
      (last.Listed ∧ last.level other = some priority ∧ ¬[id, other].Sublist last.rotation) := by
  induction events generalizing supervisor with
  | nil =>
    cases hrun
    exact .inr ⟨h, hstays, hbehind⟩
  | cons event events ih =>
    obtain ⟨next, hstep, hrest⟩ := Transition.run_cons.mp hrun
    obtain ⟨hlevel, htops, hlater⟩ := hstays
    rw [Transition.outputs, hstep, map_some, getD_some, mem_append]
    by_cases hselected : other ∈ supervisor.selected event
    · exact .inl (.inl hselected)
    · obtain ⟨-, hnext⟩ := (step_waits h hstep hlevel htops hbehind).resolve_left hselected
      exact (ih (step_cases h hstep).1 hnext hrest (hlater hselected next hstep)).imp_left .inr

theorem listed_run {capabilities : EngineCapabilities} {capacity : Nat}
    {events : List (Event S L X)}
    (hrun : Transition.run step (new capabilities capacity) events = some supervisor) :
    supervisor.Listed := by
  refine Transition.run_preserves (P := fun _ _ => True)
    (fun _ _ _ h _ hstep => (step_cases h hstep).1) ⟨nodup_nil, fun id => ?_⟩
    (Transition.Along.of_forall (fun _ _ => trivial) _ events) hrun
  exact iff_of_false not_mem_nil (by rw [new, AList.lookup_empty]; nofun)

theorem selected_last (h : supervisor.Listed) {answers : EngineAnswers L X}
    (hselected : supervisor.nextRunnable.1 = some id)
    (hstep : supervisor.step (.work answers) = some next) (other : Nat) :
    ¬[id, other].Sublist next.rotation := by
  obtain ⟨hnext, ⟨-, -, hrotation⟩ | ⟨hnone, -⟩⟩ := step_cases h hstep
  · rcases nextRunnable_cases h with ⟨heq, -⟩ | ⟨before, found, after, -, -, -, -, -, heq⟩
    · rw [heq] at hselected
      cases hselected
    · rw [heq] at hselected hrotation
      obtain rfl := some.inj hselected
      have hnodup := hnext.nodup
      rw [hrotation, ← append_assoc] at hnodup
      rw [hrotation, ← append_assoc]
      intro hsublist
      have hne : other ≠ found := by
        have hpair := hsublist.nodup hnodup
        rintro rfl
        simp at hpair
      have hfront := pair_sublist_of_append hsublist (by simpa using hne)
      have hmem : found ∈ after ++ before := hfront.subset mem_cons_self
      exact (nodup_append.mp hnodup).2.2 found hmem found (mem_singleton_self _) rfl
  · rw [selected, hselected] at hnone
    cases hnone

/-- The owner thread in any state that it reaches: the rotation holds every document that is attached
once; the selected document has work of the highest priority; and between two selections of a document
at one priority, each other document is selected that stays at this priority, the highest one, until it
is selected. -/
theorem run_rotates {capabilities : EngineCapabilities} {capacity : Nat}
    {events : List (Event S L X)} {first : Supervisor S L X}
    (hrun : Transition.run step (new capabilities capacity) events = some first) :
    first.rotation.Nodup ∧ (∀ id, id ∈ first.rotation ↔ (first.documents.lookup id).isSome) ∧
      (∀ id, first.nextRunnable.1 = some id →
        ∃ priority, first.level id = some priority ∧ first.Tops priority) ∧
      (first.nextRunnable.1 = none ↔ ∀ id, first.level id = none) ∧
      ∀ id other priority answers next more last, other ≠ id →
        first.nextRunnable.1 = some id → first.level id = some priority →
        first.step (.work answers) = some next →
        Transition.run step next more = some last →
        last.nextRunnable.1 = some id → last.level id = some priority →
        StaysOnTop other priority next more →
          other ∈ Transition.outputs step selected next more := by
  have h := listed_run hrun
  refine ⟨h.nodup, h.lists, fun id hid => ?_, ?_, ?_⟩
  · rcases nextRunnable_cases h with ⟨heq, -⟩ |
      ⟨before, found, after, priority, -, hfound, htops, -, heq⟩
    · rw [heq] at hid
      cases hid
    · rw [heq] at hid
      cases hid
      exact ⟨priority, hfound, htops⟩
  · rcases nextRunnable_cases h with ⟨heq, hidle⟩ |
      ⟨before, found, after, priority, -, hfound, -, -, heq⟩
    · rw [heq]
      exact iff_of_true rfl hidle
    · rw [heq]
      refine iff_of_false nofun fun hidle => ?_
      cases hfound.symm.trans (hidle found)
  · intro id other priority answers next more last hne hselected hlevel hstep hmore hagain
      hlevel' hstays
    have hbehind := selected_last h hselected hstep other
    rcases run_waits (step_cases h hstep).1 hbehind hmore hstays with
      hmem | ⟨hlast, hother, hbehind⟩
    · exact hmem
    -- the second selection would pass the other document over
    have htops : last.Tops priority := by
      rcases nextRunnable_cases hlast with ⟨heq, -⟩ |
        ⟨before, found, after, highest, -, hfound, htops, -, heq⟩
      · rw [heq] at hagain
        cases hagain
      · rw [heq] at hagain
        cases hagain
        exact some.inj (hlevel'.symm.trans hfound) ▸ htops
    rcases step_waits hlast (show last.step (.work answers) = _ from rfl) hother (fun _ _ => htops)
      hbehind with hmem | ⟨hnot, -⟩
    · rw [selected, hagain, toList_some, mem_singleton] at hmem
      exact absurd hmem hne
    · rw [selected, hagain, toList_some, mem_singleton] at hnot
      exact absurd rfl hnot

instance decidableTops (supervisor : Supervisor S L X) (priority : Nat) :
    Decidable (supervisor.Tops priority) :=
  decidable_of_iff (∀ id ∈ supervisor.documents.keys, (supervisor.level id).all (· ≤ priority)) (by
    constructor
    · intro h id other hlevel
      obtain ⟨document, hdocument, -⟩ := bind_eq_some_iff.mp hlevel
      have hall := h id (AList.lookup_isSome.mp (by rw [hdocument]; rfl))
      rw [hlevel] at hall
      exact of_decide_eq_true hall
    · intro h id _
      rw [Option.all_eq_true]
      exact fun other hlevel => decide_eq_true (h id other hlevel))

instance decidableStaysOnTop (other priority : Nat) : ∀ (supervisor : Supervisor S L X)
    (events : List (Event S L X)), Decidable (StaysOnTop other priority supervisor events)
  | supervisor, [] => inferInstanceAs (Decidable (supervisor.level other = some priority))
  | supervisor, event :: events =>
    have : Decidable (∀ answers, event = .work answers → supervisor.Tops priority) :=
      match event with
      | .work answers => decidable_of_iff (supervisor.Tops priority) (by simp)
      | .accept _ | .flush _ | .source | .cancel _ | .allocate _ => isTrue (by simp)
    have : Decidable (∀ next, supervisor.step event = some next →
        StaysOnTop other priority next events) :=
      match h : supervisor.step event with
      | none => isTrue nofun
      | some next =>
        have := decidableStaysOnTop other priority next events
        decidable_of_iff (StaysOnTop other priority next events) (by simp)
    inferInstanceAs (Decidable (_ ∧ _ ∧ (_ → _)))

def twoOpenings : Option (Supervisor Nat Nat Nat) :=
  Transition.run step (new ⟨true, true, true, true, true⟩ 4)
    [.accept (.attach 1), .accept (.attach 2), .flush fun _ => [.accepted],
      .accept (.opening 1 0 0), .accept (.opening 2 0 0)]

/-- The first document is to be opened again before the second is selected. -/
def reopening : List (Event Nat Nat Nat) :=
  [.flush fun _ => [.accepted], .accept (.opening 1 0 1), .work answers]

theorem run_rotates_reopening : ∃ first next last : Supervisor Nat Nat Nat,
    twoOpenings = some first ∧ first.step (.work answers) = some next ∧
      Transition.run step next reopening = some last ∧
      2 ∈ Transition.outputs step selected next reopening := by
  have hall : (twoOpenings.any fun first => decide (first.nextRunnable.1 = some 1 ∧
      first.level 1 = some 65535) && (first.step (.work answers)).any fun next =>
        decide (StaysOnTop 2 65535 next reopening) && (Transition.run step next reopening).any
          fun last => decide (last.nextRunnable.1 = some 1 ∧ last.level 1 = some 65535)) = true := by
    decide +kernel
  simp only [Option.any_eq_true, Bool.and_eq_true, decide_eq_true_eq] at hall
  obtain ⟨first, hfirst, ⟨hselected, hlevel⟩, next, hnext, hstays, last, hlast, hagain, hlevel'⟩ :=
    hall
  obtain ⟨-, -, -, -, hrotates⟩ := run_rotates hfirst
  exact ⟨first, next, last, hfirst, hnext, hlast, hrotates 1 2 65535 answers next reopening last
    (by decide) hselected hlevel hnext hlast hagain hlevel' hstays⟩

end Supervisor

end KeyReader.Runtime
