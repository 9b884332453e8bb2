import KeyReader.Opening.Reader
import KeyReader.Regrouping

/-! A document is left only when its annotations are stored.  A request to open another one waits for
the save of the current annotations, if no edit is refused by the mailbox while it waits. -/

namespace KeyReader.Opening

open Annotations Sidecar List Option

/-- A set after an edit that changes it, or the same set. -/
def Revised (set next : AnnotationSet) (changed : Bool) : Prop :=
  (changed = false ∧ next = set) ∨ (changed = true ∧ set.revision < next.revision)

variable {changed : Bool} {range : TextRange}

theorem Revised.of_update {set next : AnnotationSet} {id : Nat} {highlight : Option HighlightColor}
    {comment : Option String} (h : set.update id range highlight comment = .ok (next, changed)) :
    Revised set next changed := by
  rcases AnnotationSet.update_effect h with hsame | ⟨hchanged, hrevision, -⟩
  · exact .inl hsame
  · exact .inr ⟨hchanged, by omega⟩

theorem Revised.of_add {set next : AnnotationSet} {highlight : Option HighlightColor}
    {comment : Option String}
    (h : (set.add range highlight comment).map (fun (next, _) => (next, true)) = .ok (next, changed)) :
    Revised set next changed := by
  cases hadd : set.add range highlight comment with
  | error error =>
    rw [hadd] at h
    cases h
  | ok added =>
    rw [hadd] at h
    cases h
    obtain ⟨-, -, -, -, hnext⟩ := AnnotationSet.add_eq_ok hadd
    have hrevision : added.1.revision = set.revision + 1 := congrArg AnnotationSet.revision hnext
    exact .inr ⟨rfl, by omega⟩

def Request.starts : Request → Bool
  | .open _ | .load _ _ => true
  | .save _ _ _ _ => false

/-- What a request comes to find: a document is opened, then its annotations are loaded, and then
older revisions of them are saved. -/
def Request.Fits (annotations : Option AnnotationSet) (document : Option DocumentState) :
    Request → Prop
  | .open _ => annotations = none
  | .load _ _ => annotations = none ∧ document.isSome
  | .save _ _ _ saved => ∃ current, annotations = some current ∧
      (saved = current ∨ saved.revision < current.revision)

theorem Request.Fits.blank {annotations : Option AnnotationSet} {document : Option DocumentState}
    {request : Request} (h : request.Fits annotations document) (hstarts : request.starts) :
    annotations = none := by
  cases request with
  | «open» path => exact h
  | load path pageCount => exact h.1
  | save => cases hstarts

theorem Request.Fits.starts {document : Option DocumentState} {request : Request}
    (h : request.Fits none document) : request.starts := by
  cases request with
  | «open» | load => rfl
  | save =>
    obtain ⟨current, hcurrent, -⟩ := h
    cases hcurrent

namespace System

theorem revised_of_highlighted {set next : AnnotationSet} {color : HighlightColor}
    (h : highlighted set range color = .ok (next, changed)) : Revised set next changed := by
  unfold highlighted at h
  split at h
  · exact .of_update h
  · exact .of_add h

theorem revised_of_commented {set next : AnnotationSet} {editing : Option Nat} {markdown : String}
    (h : commented set editing range markdown = .ok (next, changed)) :
    Revised set next changed := by
  unfold commented at h
  split at h
  · exact .of_update h
  · exact .of_add h

def Awaits (system : System) (annotations : AnnotationSet) : Prop :=
  ∃ path identity expected, ⟨system.reader.generation, system.epoch,
    .save path identity expected annotations⟩ ∈ system.inFlight

/-- No document was left with annotations that its sidecar did not hold, each request was opened once
at most and never after it was cancelled, and the one that waits has its save in flight. -/
structure Guarded (system : System) : Prop where
  stored : ∀ closing ∈ system.closings, ∀ annotations, closing.annotations = some annotations →
    annotations ∈ closing.stored ∨ annotations = .new annotations.pageCount
  once : (system.opened.map (·.ticket)).Nodup
  cancelled : ∀ request ∈ system.cancelled, request.ticket ∉ system.opened.map (·.ticket)
  awaited : ∀ request, system.reader.pendingOpen = some request →
    ∃ annotations, system.reader.annotations = some annotations ∧ system.Awaits annotations

def changes (system : System) : Operation → Bool
  | .addHighlight range color _ => !system.reader.annotationsLoading &&
      !system.reader.annotationPersistenceBlocked && range.stop.index ≤ maxTextCharacterIndex &&
      system.reader.annotations.any fun annotations =>
        (highlighted annotations range color).toOption.any (·.2)
  | .writeComment editing range markdown _ => !markdown.toList.all isWhitespace &&
      system.reader.annotations.any fun annotations =>
        (commented annotations editing range markdown).toOption.any (·.2)
  | _ => false

/-- The mailbox accepts the save that the operation brings about. -/
def accepts : Operation → Bool
  | .openPath _ accepted | .addHighlight _ _ accepted | .writeComment _ _ _ accepted => accepted
  | .answer _ _ | .coalesce _ _ => true

/-- No request of an earlier document has the generation of the current one. -/
def Unrepeated (system : System) : Prop :=
  ∀ sent ∈ system.inFlight, sent.generation = system.reader.generation → sent.epoch = system.epoch

instance (system : System) : Decidable system.Unrepeated :=
  inferInstanceAs (Decidable (∀ sent ∈ system.inFlight, _))

/-- While a request waits, the mailbox accepts the save of every change.  The generation has not come
round to that of a request in flight. -/
def Careful (system : System) (operation : Operation) : Prop :=
  (system.reader.pendingOpen.isSome → system.changes operation → accepts operation) ∧
    system.Unrepeated

instance (system : System) (operation : Operation) : Decidable (system.Careful operation) :=
  inferInstanceAs (Decidable (_ ∧ _))

/-- The requests that were handed on, and the one that waits. -/
def places (system : System) : List Nat :=
  (system.opened ++ system.cancelled ++ system.reader.pendingOpen.toList).map (·.ticket)

/-- Each request is in one place. -/
structure Tickets (system : System) : Prop where
  distinct : system.places.Nodup
  below : ∀ ticket ∈ system.places, ticket < system.requests

variable {system next : System}

theorem nodup_of_subperm {α : Type} {items others : List α} (h : items.Subperm others)
    (hothers : others.Nodup) : items.Nodup := by
  obtain ⟨middle, hperm, hsublist⟩ := h
  exact hperm.nodup_iff.mp (hothers.sublist hsublist)

section

variable (h : system.Tickets)

include h

theorem Tickets.of_subperm (hplaces : next.places.Subperm system.places)
    (hrequests : next.requests = system.requests) : next.Tickets where
  distinct := nodup_of_subperm hplaces h.distinct
  below ticket hmem := hrequests ▸ h.below ticket (hplaces.subset hmem)

theorem Tickets.request (hplaces : next.places.Subperm (system.requests :: system.places))
    (hrequests : next.requests = system.requests + 1) : next.Tickets where
  distinct := by
    have hnew : system.requests ∉ system.places := fun hmem => Nat.lt_irrefl _ (h.below _ hmem)
    exact nodup_of_subperm hplaces (nodup_cons.mpr ⟨hnew, h.distinct⟩)
  below ticket hmem := by
    rw [hrequests]
    rcases mem_cons.mp (hplaces.subset hmem) with rfl | hold
    · exact Nat.lt_succ_self _
    · exact Nat.lt_succ_of_lt (h.below ticket hold)

theorem Tickets.once : (system.opened.map (·.ticket)).Nodup := by
  have hdistinct := h.distinct
  unfold places at hdistinct
  rw [append_assoc, map_append] at hdistinct
  exact hdistinct.of_append_left

theorem Tickets.cancelled :
    ∀ request ∈ system.cancelled, request.ticket ∉ system.opened.map (·.ticket) := by
  intro request hmem hopened
  have hdistinct := h.distinct
  unfold places at hdistinct
  rw [append_assoc, map_append, nodup_append] at hdistinct
  refine hdistinct.2.2 _ hopened _ (mem_map_of_mem ?_) rfl
  exact mem_append_left _ hmem

end

/-- The annotations of the document that is open, with its counters. -/
structure Held (system : System) (current : AnnotationSet) : Prop where
  located : system.reader.document.isSome
  identified : ¬system.reader.annotationPersistenceBlocked → system.reader.annotationIdentity.isSome
  enqueued : system.reader.annotationEnqueuedRevision ≤ current.revision
  saved : system.reader.annotationSavedRevision ≤ current.revision
  stored : system.reader.annotationSavedRevision = current.revision →
    current ∈ system.stored ∨ current = .new current.pageCount

/-- A request in flight is for a document that was left, or comes to find what it needs. -/
def Fits (system : System) (sent : Sent) : Prop :=
  sent.epoch < system.epoch ∨ sent.epoch = system.epoch ∧
    sent.generation = system.reader.generation ∧
      sent.request.Fits system.reader.annotations system.reader.document

structure Accounts (system : System) : Prop where
  fits : ∀ sent ∈ system.inFlight, system.Fits sent
  single : system.inFlight.Pairwise fun sent other =>
    sent.epoch = other.epoch → ¬(sent.request.starts ∧ other.request.starts)
  blank : system.reader.annotations = none →
    system.reader.annotationSavedRevision = 0 ∧ system.reader.annotationEnqueuedRevision = 0
  held : ∀ current, system.reader.annotations = some current → system.Held current

/-- A revision that was handed to the mailbox is in flight, saved or marked as failed. -/
def Settled (system : System) : Prop :=
  ∀ current, system.reader.annotations = some current →
    system.reader.annotationSavedRevision < current.revision →
      current.revision ≤ system.reader.annotationEnqueuedRevision →
        system.Awaits current ∨ ∃ failed, system.reader.annotationFailedRevision = some failed ∧
          current.revision ≤ failed

def Waiting (system : System) : Prop :=
  ∀ request, system.reader.pendingOpen = some request → ∃ current,
    system.reader.annotations = some current ∧
      system.reader.annotationSavedRevision < current.revision ∧
      ¬system.reader.annotationPersistenceBlocked ∧ system.Awaits current

def Left (system : System) : Prop :=
  ∀ closing ∈ system.closings, ∀ annotations, closing.annotations = some annotations →
    annotations ∈ closing.stored ∨ annotations = .new annotations.pageCount

structure Inv (system : System) : Prop where
  tickets : system.Tickets
  accounts : system.Accounts
  settled : system.Settled
  waiting : system.Waiting
  left : system.Left

theorem Inv.guarded (h : system.Inv) : system.Guarded where
  stored := h.left
  once := h.tickets.once
  cancelled := h.tickets.cancelled
  awaited request hpending := by
    obtain ⟨current, hcurrent, -, -, hawaits⟩ := h.waiting request hpending
    exact ⟨current, hcurrent, hawaits⟩

theorem inv_new : new.Inv where
  tickets := ⟨nodup_nil, forall_mem_nil _⟩
  accounts :=
    { fits := nofun
      single := List.Pairwise.nil
      blank := fun _ => ⟨rfl, rfl⟩
      held := nofun }
  settled := nofun
  waiting := nofun
  left := nofun

/-- What a request of the document that is open comes to find. -/
theorem Accounts.current (h : system.Accounts) {sent : Sent} (hmem : sent ∈ system.inFlight)
    (hepoch : sent.epoch = system.epoch) :
    sent.request.Fits system.reader.annotations system.reader.document := by
  rcases h.fits sent hmem with hlt | ⟨-, -, hfits⟩
  · exact absurd hepoch hlt.ne
  · exact hfits

theorem Accounts.drop (h : system.Accounts) {inFlight : List Sent}
    (hsublist : inFlight.Sublist system.inFlight) : Accounts { system with inFlight } where
  fits sent hmem := h.fits sent (hsublist.subset hmem)
  single := h.single.sublist hsublist
  blank := h.blank
  held current hcurrent := { h.held current hcurrent with }

theorem Accounts.send {request : Request} (h : system.Accounts)
    (hfits : request.Fits system.reader.annotations system.reader.document)
    (hstarts : request.starts → ∀ sent ∈ system.inFlight, sent.epoch = system.epoch →
      ¬sent.request.starts) : (system.send request).Accounts where
  fits sent hmem := by
    rcases mem_append.mp hmem with hold | hlast
    · exact h.fits sent hold
    · obtain rfl := mem_singleton.mp hlast
      exact .inr ⟨rfl, rfl, hfits⟩
  single := by
    refine pairwise_append.mpr ⟨h.single, pairwise_singleton _ _, ?_⟩
    intro sent hmem other hother hepoch hboth
    obtain rfl := mem_singleton.mp hother
    exact hstarts hboth.2 sent hmem hepoch hboth.1
  blank := h.blank
  held current hcurrent := { h.held current hcurrent with }

variable {annotations : AnnotationSet} {index : Nat} {sent : Sent}

theorem Awaits.erase (h : system.Awaits annotations) (hsent : system.inFlight[index]? = some sent) :
    Awaits { system with inFlight := system.inFlight.eraseIdx index } annotations ∨
      ∃ path identity expected, sent = ⟨system.reader.generation, system.epoch,
        .save path identity expected annotations⟩ := by
  obtain ⟨path, identity, expected, hmem⟩ := h
  obtain ⟨place, hplace⟩ := mem_iff_getElem?.mp hmem
  by_cases heq : place = index
  · subst heq
    exact .inr ⟨path, identity, expected, some.inj (hsent.symm.trans hplace)⟩
  · exact .inl ⟨path, identity, expected, mem_eraseIdx_iff_getElem?.mpr ⟨place, heq, hplace⟩⟩

theorem Accounts.alone (h : system.Accounts) (hsent : system.inFlight[index]? = some sent)
    (hstarts : sent.request.starts) :
    ∀ other ∈ system.inFlight.eraseIdx index, sent.epoch = other.epoch →
      ¬other.request.starts := by
  intro other hmem hepoch hother
  have hsymm : ∀ first second : Sent,
      (first.epoch = second.epoch → ¬(first.request.starts ∧ second.request.starts)) →
        second.epoch = first.epoch → ¬(second.request.starts ∧ first.request.starts) :=
    fun _ _ h hepoch hboth => h hepoch.symm hboth.symm
  have hperm := (Regrouping.perm_cons_eraseIdx hsent).pairwise h.single (hsymm _ _)
  exact (pairwise_cons.mp hperm).1 other hmem hepoch ⟨hstarts, hother⟩

variable {annotationError : Option AnnotationMessage} {annotationFailedRevision : Option Nat}
  {annotationsLoading : Bool} {pendingOpen : Option OpenRequest}

theorem Accounts.relabel (h : system.Accounts) {requests : Nat}
    {opened cancelled : List OpenRequest} {closings : List Closing} : Accounts { system with
      reader := { system.reader with
        annotationsLoading, annotationError, annotationFailedRevision, pendingOpen }
      requests, opened, cancelled, closings } :=
  { h with held := fun current hcurrent => { h.held current hcurrent with } }

/-- A step that does not change what the guard looks at, and that takes no save back. -/
structure Persisted (system next : System) : Prop where
  accounts : next.Accounts
  settled : next.Settled
  annotations : next.reader.annotations = system.reader.annotations
  saved : next.reader.annotationSavedRevision = system.reader.annotationSavedRevision
  blocked : next.reader.annotationPersistenceBlocked = system.reader.annotationPersistenceBlocked
  pending : next.reader.pendingOpen = system.reader.pendingOpen
  opened : next.opened = system.opened
  cancelled : next.cancelled = system.cancelled
  requests : next.requests = system.requests
  closings : next.closings = system.closings
  awaits : ∀ annotations, system.Awaits annotations → next.Awaits annotations

theorem Persisted.refl (h : system.Accounts) (hsettled : system.Settled) :
    Persisted system system :=
  ⟨h, hsettled, rfl, rfl, rfl, rfl, rfl, rfl, rfl, rfl, fun _ h => h⟩

variable {current : AnnotationSet}

section

variable (h : system.Accounts)

include h

section

variable (hcurrent : system.reader.annotations = some current)

include hcurrent

/-- The save that the mailbox accepts. -/
theorem Persisted.send (path : PathBuf) (identity : DocumentIdentity) (expected : Nat) :
    Persisted system { system.send (.save path identity expected current) with
      reader.annotationEnqueuedRevision :=
        max system.reader.annotationEnqueuedRevision current.revision } := by
  have held := h.held current hcurrent
  have hsent : (system.send (.save path identity expected current)).Accounts :=
    h.send ⟨current, hcurrent, .inl rfl⟩ fun hstarts => absurd hstarts Bool.false_ne_true
  refine ⟨⟨hsent.fits, hsent.single, ?_, ?_⟩, ?_, rfl, rfl, rfl, rfl, rfl, rfl, rfl, rfl, ?_⟩
  · intro hblank
    cases hcurrent.symm.trans hblank
  · intro other hother
    cases hcurrent.symm.trans hother
    exact ⟨held.located, held.identified, Nat.max_le.mpr ⟨held.enqueued, le_rfl⟩,
      held.saved, held.stored⟩
  · intro other hother _ _
    cases hcurrent.symm.trans hother
    exact .inl ⟨path, identity, expected, mem_concat_self⟩
  · rintro annotations ⟨path', identity', expected', hmem⟩
    exact ⟨path', identity', expected', mem_append_left _ hmem⟩

theorem Persisted.refuse (annotationError : Option AnnotationMessage) :
    Persisted system { system with reader := { system.reader with
      annotationFailedRevision := some current.revision, annotationError } } := by
  refine ⟨h.relabel, ?_, rfl, rfl, rfl, rfl, rfl, rfl, rfl, rfl, fun _ h => h⟩
  intro other hother _ _
  cases hcurrent.symm.trans hother
  exact .inr ⟨_, rfl, le_rfl⟩

end

theorem persisted (hsettled : system.Settled) (accepted : Bool) :
    Persisted system (system.persistAnnotations accepted).2 ∧
      ((system.persistAnnotations accepted).1 = true → ∃ current,
        system.reader.annotations = some current ∧
          (system.persistAnnotations accepted).2.Awaits current) := by
  unfold persistAnnotations
  split
  · exact ⟨.refl h hsettled, nofun⟩
  · split
    · rename_i document identity current _ _ hcurrent
      dsimp only
      split
      · refine ⟨.send h hcurrent _ _ _, fun _ => ⟨current, hcurrent, ?_⟩⟩
        exact ⟨_, _, _, mem_concat_self⟩
      · exact ⟨.refuse h hcurrent _, nofun⟩
    · exact ⟨.refl h hsettled, nofun⟩

theorem Accounts.persists (hcurrent : system.reader.annotations = some current)
    (hblocked : ¬system.reader.annotationPersistenceBlocked) :
    (system.persistAnnotations true).1 = true := by
  have held := h.held current hcurrent
  obtain ⟨document, hdocument⟩ := isSome_iff_exists.mp held.located
  obtain ⟨identity, hidentity⟩ := isSome_iff_exists.mp (held.identified hblocked)
  unfold persistAnnotations
  rw [if_neg hblocked, hdocument, hidentity, hcurrent]
  rfl

theorem Accounts.begin (request : OpenRequest) : (system.beginOpenPath request).Accounts := by
  have hleft : ∀ sent ∈ system.inFlight, sent.epoch < system.epoch + 1 := by
    intro sent hmem
    rcases h.fits sent hmem with hlt | ⟨heq, -⟩
    · exact Nat.lt_succ_of_lt hlt
    · exact Nat.lt_succ_of_le heq.le
  unfold beginOpenPath
  refine Accounts.send ⟨fun sent hmem => .inl (hleft sent hmem), h.single, fun _ => ⟨rfl, rfl⟩, ?_⟩
    rfl fun _ sent hmem hepoch => absurd hepoch (hleft sent hmem).ne
  exact nofun

end

theorem Left.begin (h : system.Left) (haccounts : system.Accounts)
    (hsaved : ∀ current, system.reader.annotations = some current →
      current.revision ≤ system.reader.annotationSavedRevision) (request : OpenRequest) :
    (system.beginOpenPath request).Left := by
  intro closing hmem current hcurrent
  rcases mem_append.mp hmem with hold | hlast
  · exact h closing hold current hcurrent
  · obtain rfl := mem_singleton.mp hlast
    have held := haccounts.held current hcurrent
    exact held.stored (Nat.le_antisymm held.saved (hsaved current hcurrent))

variable {request : OpenRequest}

theorem Inv.begin (haccounts : system.Accounts) (hleft : system.Left)
    (hsaved : ∀ current, system.reader.annotations = some current → current.revision ≤
      system.reader.annotationSavedRevision)
    (htickets : (system.beginOpenPath request).Tickets) : (system.beginOpenPath request).Inv where
  tickets := htickets
  accounts := haccounts.begin request
  settled := nofun
  waiting := nofun
  left := hleft.begin haccounts hsaved request

theorem unsavedAnnotationRevision_eq_none {annotations : Option AnnotationSet} {saved : Nat}
    (h : unsavedAnnotationRevision (annotations.map (·.revision)) saved = none) :
    ∀ current, annotations = some current → current.revision ≤ saved := by
  rintro current rfl
  simpa [unsavedAnnotationRevision] using h

theorem unsavedAnnotationRevision_eq_some {annotations : Option AnnotationSet} {saved revision : Nat}
    (h : unsavedAnnotationRevision (annotations.map (·.revision)) saved = some revision) :
    ∃ current, annotations = some current ∧ current.revision = revision ∧ saved < revision := by
  cases annotations with
  | none => cases h
  | some current =>
    obtain ⟨hrevision, hlt⟩ := filter_eq_some_iff.mp h
    exact ⟨current, rfl, some.inj hrevision, of_decide_eq_true hlt⟩

theorem subperm_places (system : System) (request : OpenRequest) :
    ((system.opened ++ system.cancelled ++ [request]).map (·.ticket)).Subperm
      (request.ticket :: system.places) := by
  have hlast := (perm_append_singleton request (system.opened ++ system.cancelled)).map
    (fun request : OpenRequest => request.ticket)
  have hrest := (sublist_append_left (system.opened ++ system.cancelled)
    system.reader.pendingOpen.toList).map (fun request : OpenRequest => request.ticket)
  exact hlast.subperm.trans (hrest.cons_cons request.ticket).subperm

theorem Tickets.wait (h : system.Tickets) (hticket : request.ticket = system.requests)
    (hopened : next.opened = system.opened) (hcancelled : next.cancelled = system.cancelled)
    (hrequests : next.requests = system.requests + 1)
    (hpending : next.reader.pendingOpen = some request) : next.Tickets := by
  refine h.request ?_ hrequests
  unfold places
  rw [hopened, hcancelled, hpending, ← hticket]
  exact subperm_places system request

theorem Tickets.drop (h : system.Tickets) (hopened : next.opened = system.opened)
    (hcancelled : next.cancelled = system.cancelled) (hrequests : next.requests = system.requests)
    (hpending : next.reader.pendingOpen = none) : next.Tickets := by
  refine h.of_subperm ?_ hrequests
  unfold places
  rw [hopened, hcancelled, hpending]
  exact (((nil_sublist _).append_left _).map _).subperm

theorem Tickets.same (h : system.Tickets) (hopened : next.opened = system.opened)
    (hcancelled : next.cancelled = system.cancelled) (hrequests : next.requests = system.requests)
    (hpending : next.reader.pendingOpen = system.reader.pendingOpen) : next.Tickets := by
  refine h.of_subperm ?_ hrequests
  unfold places
  rw [hopened, hcancelled, hpending]

theorem transitionPendingOpen_waiting {pending : Option OpenRequest}
    {annotations : Option AnnotationSet} {saved : Nat} (hpending : pending = some request)
    (hcurrent : annotations = some current) (hsaved : saved < current.revision) :
    transitionPendingOpen pending (annotations.map (·.revision)) saved false =
      (.waiting, some request) := by
  subst hpending hcurrent
  simp [transitionPendingOpen, unsavedAnnotationRevision, Option.filter, hsaved]

theorem transitionPendingOpen_open {pending : Option OpenRequest}
    {annotations : Option AnnotationSet} {saved : Nat} (hpending : pending = some request)
    (hcurrent : annotations = some current) (hsaved : current.revision ≤ saved) :
    transitionPendingOpen pending (annotations.map (·.revision)) saved false =
      (.open request, none) := by
  subst hpending hcurrent
  simp [transitionPendingOpen, unsavedAnnotationRevision, Option.filter, Nat.not_lt.mpr hsaved]

theorem perm_open (opened cancelled : List OpenRequest) (request : OpenRequest) :
    (opened ++ [request] ++ cancelled ++ []).Perm (opened ++ cancelled ++ [request]) := by
  rw [append_nil, append_assoc, append_assoc]
  exact (perm_append_comm).append_left opened

theorem Tickets.begin (h : system.Tickets) (path : PathBuf) :
    (({ system with requests := system.requests + 1 } : System).beginOpenPath
      ⟨path, system.requests⟩).Tickets := by
  refine h.request ?_ rfl
  have hperm := (perm_open system.opened system.cancelled ⟨path, system.requests⟩).map (·.ticket)
  exact hperm.subperm.trans (subperm_places system ⟨path, system.requests⟩)

theorem Tickets.resolve (h : system.Tickets) (hpending : system.reader.pendingOpen = some request) :
    (system.beginOpenPath request).Tickets := by
  refine h.of_subperm ?_ rfl
  have hperm := (perm_open system.opened system.cancelled request).map (·.ticket)
  refine hperm.subperm.trans ?_
  unfold places
  rw [hpending]
  rfl

theorem Left.congr (h : system.Left) (hclosings : next.closings = system.closings) :
    next.Left := by
  unfold Left
  rw [hclosings]
  exact h

theorem Inv.of_persisted (htickets : system.Tickets) (hleft : system.Left)
    (h : Persisted system next) (hwaiting : next.Waiting) : next.Inv :=
  ⟨htickets.same h.opened h.cancelled h.requests h.pending, h.accounts, h.settled, hwaiting,
    hleft.congr h.closings⟩

theorem Inv.openPath (h : system.Inv) (path : PathBuf) (accepted : Bool) :
    (system.openPathAfterCommentGuard path accepted).Inv := by
  unfold openPathAfterCommentGuard
  dsimp only
  split
  · rename_i hunsaved
    have haccounts : Accounts { system with requests := system.requests + 1 } := h.accounts.relabel
    exact .begin haccounts h.left (unsavedAnnotationRevision_eq_none hunsaved)
      (h.tickets.begin path)
  rename_i revision hunsaved
  obtain ⟨current, hcurrent, rfl, hsaved⟩ := unsavedAnnotationRevision_eq_some hunsaved
  split
  · -- the request is refused
    refine ⟨h.tickets.request (sublist_cons_self _ _).subperm rfl, h.accounts.relabel,
      h.settled, h.waiting, h.left⟩
  rename_i hblocked
  have htickets : Tickets { system with
      reader := { system.reader with pendingOpen := some ⟨path, system.requests⟩ }
      requests := system.requests + 1 } := h.tickets.wait rfl rfl rfl rfl rfl
  have haccounts : Accounts { system with
      reader := { system.reader with pendingOpen := some ⟨path, system.requests⟩ }
      requests := system.requests + 1 } := h.accounts.relabel
  split
  · obtain ⟨hpersisted, hqueued⟩ := persisted haccounts h.settled accepted
    split <;> rename_i after heq <;> rw [heq] at hpersisted hqueued
    · obtain ⟨queued, hqueued, hawaits⟩ := hqueued rfl
      cases hcurrent.symm.trans hqueued
      refine .of_persisted htickets h.left hpersisted fun _ _ => ?_
      refine ⟨current, hpersisted.annotations.trans hcurrent, ?_, ?_, hawaits⟩
      · exact lt_of_eq_of_lt hpersisted.saved hsaved
      · rw [hpersisted.blocked]
        exact hblocked
    · -- the save of the annotations is refused, and the request with it
      exact ⟨htickets.drop hpersisted.opened hpersisted.cancelled hpersisted.requests rfl,
        hpersisted.accounts.relabel, hpersisted.settled, nofun,
        h.left.congr hpersisted.closings⟩
  · rename_i hqueued
    obtain ⟨henqueued, hfailed⟩ := not_or.mp hqueued
    have hawaits : system.Awaits current := by
      rcases h.settled current hcurrent hsaved (Nat.le_of_not_lt henqueued) with hawaits | hmarked
      · exact hawaits
      · obtain ⟨failed, heq, -⟩ := hmarked
        exact absurd (by rw [heq]; rfl) hfailed
    exact ⟨htickets, haccounts, h.settled,
      fun _ _ => ⟨current, hcurrent, hsaved, hblocked, hawaits⟩, h.left⟩

theorem Inv.message (h : system.Inv) (annotationError : Option AnnotationMessage) :
    Inv { system with reader := { system.reader with annotationError } } :=
  ⟨h.tickets.same rfl rfl rfl rfl, h.accounts.relabel, h.settled, h.waiting, h.left⟩

theorem clearMessage_same (system : System) :
    system.clearMessage.reader.annotations = system.reader.annotations ∧
      system.clearMessage.reader.pendingOpen = system.reader.pendingOpen := by
  unfold System.clearMessage
  split <;> exact ⟨rfl, rfl⟩

theorem Inv.clearMessage (h : system.Inv) : system.clearMessage.Inv := by
  unfold System.clearMessage
  split
  · exact h.message none
  · exact h

theorem Accounts.revise (h : system.Accounts) (hcurrent : system.reader.annotations = some current)
    (hrevision : current.revision < annotations.revision) :
    Accounts { system with reader := { system.reader with annotations := some annotations } } where
  fits sent hmem := by
    rcases h.fits sent hmem with hlt | ⟨hepoch, hgeneration, hfits⟩
    · exact .inl hlt
    refine .inr ⟨hepoch, hgeneration, ?_⟩
    cases hrequest : sent.request with
    | save path identity expected older =>
      rw [hrequest] at hfits
      obtain ⟨found, hfound, holder⟩ := hfits
      cases hcurrent.symm.trans hfound
      refine ⟨annotations, rfl, .inr ?_⟩
      rcases holder with rfl | hlt
      · exact hrevision
      · omega
    | «open» | load => cases hcurrent.symm.trans (hfits.blank (hrequest ▸ rfl))
  single := h.single
  blank hblank := by cases hblank
  held found hfound := by
    cases hfound
    have held := h.held current hcurrent
    have henqueued := held.enqueued
    have hsaved := held.saved
    refine ⟨held.located, held.identified, ?_, ?_, ?_⟩ <;> dsimp only <;> omega

variable {accepted : Bool}

theorem Inv.edited (h : system.Inv) (hcurrent : system.reader.annotations = some current)
    (hrevised : Revised current annotations changed)
    (haccepted : system.reader.pendingOpen.isSome → changed → accepted) :
    (system.edited annotations changed accepted).Inv := by
  unfold System.edited
  rcases hrevised with ⟨rfl, rfl⟩ | ⟨rfl, hrevision⟩
  · have hsame : { system with reader := { system.reader with annotations := some annotations } } =
        system := by rw [← hcurrent]
    simp only [hsame]
    split
    · obtain ⟨hpersisted, -⟩ := persisted h.accounts h.settled accepted
      refine .of_persisted h.tickets h.left hpersisted fun request hpending => ?_
      rw [hpersisted.pending] at hpending
      obtain ⟨waiting, hwaiting, hsaved, hblocked, hawaits⟩ := h.waiting request hpending
      exact ⟨waiting, hpersisted.annotations.trans hwaiting, lt_of_eq_of_lt hpersisted.saved hsaved,
        hpersisted.blocked ▸ hblocked, hpersisted.awaits _ hawaits⟩
    · exact h
  · have haccounts := h.accounts.revise hcurrent hrevision
    have henqueued := (h.accounts.held current hcurrent).enqueued
    have hsaved := (h.accounts.held current hcurrent).saved
    have hsettled : Settled { system with
        reader := { system.reader with annotations := some annotations } } := by
      intro found hfound _ hqueued
      cases hfound
      exact absurd (hrevision.trans_le hqueued) (Nat.not_lt.mpr henqueued)
    rw [if_pos (.inl rfl)]
    obtain ⟨hpersisted, hqueued⟩ := persisted haccounts hsettled accepted
    have htickets : Tickets { system with
        reader := { system.reader with annotations := some annotations } } :=
      h.tickets.same rfl rfl rfl rfl
    refine .of_persisted htickets h.left hpersisted fun request hpending => ?_
    rw [hpersisted.pending] at hpending
    obtain ⟨-, -, -, hblocked, -⟩ := h.waiting request hpending
    -- the request waits, so that the mailbox accepts the save
    obtain rfl := haccepted (by rw [hpending]; rfl) rfl
    obtain ⟨queued, hqueued, hawaits⟩ := hqueued (haccounts.persists rfl hblocked)
    cases hqueued
    refine ⟨annotations, hpersisted.annotations, ?_, ?_, hawaits⟩
    · rw [hpersisted.saved]
      exact hsaved.trans_lt hrevision
    · rw [hpersisted.blocked]
      exact hblocked

theorem Inv.addHighlight (h : system.Inv) {color : HighlightColor}
    (haccepted : system.reader.pendingOpen.isSome →
      system.changes (.addHighlight range color accepted) → accepted) :
    (system.addHighlight range color accepted).Inv := by
  unfold System.addHighlight
  dsimp only
  split
  · exact h.message _
  rename_i hloading
  split
  · exact h.message _
  rename_i hblocked
  split
  · exact h
  rename_i hrange
  split
  · rename_i annotations changed hedited
    obtain ⟨current, hcurrent, hhighlighted⟩ := map_eq_some_iff.mp hedited
    have hsame := clearMessage_same system
    refine h.clearMessage.edited (hsame.1.trans hcurrent) (revised_of_highlighted hhighlighted)
      fun hpending hchanged => haccepted (hsame.2 ▸ hpending) ?_
    simp [changes, hloading, hblocked, Nat.le_of_not_lt hrange, hcurrent, hhighlighted, hchanged,
      Except.toOption]
  · exact h

theorem Inv.writeComment (h : system.Inv) {editing : Option Nat} {markdown : String}
    (haccepted : system.reader.pendingOpen.isSome →
      system.changes (.writeComment editing range markdown accepted) → accepted) :
    (system.writeComment editing range markdown accepted).Inv := by
  unfold System.writeComment
  dsimp only
  split
  · exact h.message _
  rename_i hblank
  split
  · exact h.clearMessage
  · exact h.clearMessage.message _
  · rename_i annotations changed hedited
    obtain ⟨current, hcurrent, hcommented⟩ := map_eq_some_iff.mp hedited
    have hsame := clearMessage_same system
    refine h.clearMessage.edited hcurrent (revised_of_commented hcommented)
      fun hpending hchanged => haccepted (hsame.2 ▸ hpending) ?_
    rw [hsame.1] at hcurrent
    simp [changes, hblank, hcurrent, hcommented, hchanged, Except.toOption]

/-- The system without a request whose event is handled next. -/
abbrev answered (system : System) (index : Nat) : System :=
  { system with inFlight := system.inFlight.eraseIdx index }

theorem Inv.answered (h : system.Inv) (hawaits : ∀ current,
      system.reader.annotations = some current → system.Awaits current →
        (system.answered index).Awaits current) : (system.answered index).Inv := by
  refine ⟨h.tickets.same rfl rfl rfl rfl, h.accounts.drop (eraseIdx_sublist ..), ?_, ?_, h.left⟩
  · intro current hcurrent hsaved hqueued
    exact (h.settled current hcurrent hsaved hqueued).imp_left (hawaits current hcurrent)
  · intro request hpending
    obtain ⟨current, hcurrent, hsaved, hblocked, hwaits⟩ := h.waiting request hpending
    exact ⟨current, hcurrent, hsaved, hblocked, hawaits current hcurrent hwaits⟩

theorem Inv.started (h : system.Inv) (hsent : system.inFlight[index]? = some sent)
    (hepoch : sent.epoch = system.epoch) (hstarts : sent.request.starts) :
    (system.answered index).Inv ∧ system.reader.annotations = none ∧
      ∀ other ∈ system.inFlight.eraseIdx index, other.epoch = system.epoch →
        ¬other.request.starts := by
  have hnone := (h.accounts.current (mem_of_getElem? hsent) hepoch).blank hstarts
  refine ⟨h.answered fun current hcurrent => ?_, hnone, fun other hmem hother => ?_⟩
  · cases hnone.symm.trans hcurrent
  · exact h.accounts.alone hsent hstarts other hmem (hepoch.trans hother.symm)

theorem Accounts.begun (h : system.Accounts) (hnone : system.reader.annotations = none)
    (hstarts : ∀ sent ∈ system.inFlight, sent.epoch = system.epoch → ¬sent.request.starts)
    (hflight : next.inFlight = system.inFlight) (hepoch : next.epoch = system.epoch)
    (hcurrent : next.reader.annotations = some current) (hheld : next.Held current) :
    next.Accounts where
  fits sent hmem := by
    rw [hflight] at hmem
    rcases h.fits sent hmem with hlt | ⟨heq, -, hfits⟩
    · exact .inl (hepoch ▸ hlt)
    · exact absurd (hnone ▸ hfits).starts (hstarts sent hmem heq)
  single := hflight ▸ h.single
  blank hblank := by cases hcurrent.symm.trans hblank
  held found hfound := by
    cases hcurrent.symm.trans hfound
    exact hheld

theorem Inv.pending_eq_none (h : system.Inv) (hnone : system.reader.annotations = none) :
    system.reader.pendingOpen = none := by
  cases hpending : system.reader.pendingOpen with
  | none => rfl
  | some request =>
    obtain ⟨current, hcurrent, -⟩ := h.waiting request hpending
    cases hnone.symm.trans hcurrent

theorem Inv.unloaded (h : system.Inv) (hnone : system.reader.annotations = none)
    (hstarts : ∀ sent ∈ system.inFlight, sent.epoch = system.epoch → ¬sent.request.starts)
    {pageCount : Nat} {document : Option DocumentState} (hdocument : document.isSome) :
    Inv { system with reader := { system.reader with
      annotationsLoading, document, annotationPersistenceBlocked := true
      annotations := some (.new pageCount), annotationError } } := by
  obtain ⟨hsaved, hqueued⟩ := h.accounts.blank hnone
  refine ⟨h.tickets.same rfl rfl rfl rfl, ?_, ?_, ?_, h.left⟩
  · refine h.accounts.begun hnone hstarts rfl rfl rfl ⟨hdocument, ?_, ?_, ?_, ?_⟩
    · exact fun hblocked => absurd rfl hblocked
    · exact hqueued.le
    · exact hsaved.le
    · exact fun _ => .inr rfl
  · intro current hcurrent hlt
    cases hcurrent
    exact absurd hlt (Nat.not_lt_zero _)
  · intro request hpending
    cases (h.pending_eq_none hnone).symm.trans hpending

theorem Inv.loaded (h : system.Inv) (hnone : system.reader.annotations = none)
    (hstarts : ∀ sent ∈ system.inFlight, sent.epoch = system.epoch → ¬sent.request.starts)
    (hdocument : system.reader.document.isSome) (identity : DocumentIdentity)
    (annotations : AnnotationSet) : (system.handleLoaded identity annotations).Inv := by
  refine ⟨h.tickets.same rfl rfl rfl rfl, ?_, ?_, ?_, h.left⟩
  · refine h.accounts.begun hnone hstarts rfl rfl rfl ⟨hdocument, fun _ => rfl, ?_, ?_, ?_⟩
    · exact le_rfl
    · exact le_rfl
    · exact fun _ => .inl mem_concat_self
  · intro current hcurrent hlt
    cases hcurrent
    exact absurd hlt (Nat.lt_irrefl _)
  · intro request hpending
    cases (h.pending_eq_none hnone).symm.trans hpending

theorem Accounts.load (h : system.Accounts) (hnone : system.reader.annotations = none)
    (hstarts : ∀ sent ∈ system.inFlight, sent.epoch = system.epoch → ¬sent.request.starts)
    (path : PathBuf) (pageCount : Nat) : Accounts (System.send { system with
      reader := { system.reader with annotationsLoading, document := some ⟨path, pageCount⟩ } }
      (.load path pageCount)) := by
  refine Accounts.send ⟨fun sent hmem => ?_, h.single, h.blank, ?_⟩ ⟨hnone, rfl⟩ fun _ => hstarts
  · rcases h.fits sent hmem with hlt | ⟨heq, -, hfits⟩
    · exact .inl hlt
    · exact absurd (hnone ▸ hfits).starts (hstarts sent hmem heq)
  · intro current hcurrent
    cases hnone.symm.trans hcurrent

theorem Inv.opened (h : system.Inv) (hnone : system.reader.annotations = none)
    (hstarts : ∀ sent ∈ system.inFlight, sent.epoch = system.epoch → ¬sent.request.starts)
    (path : PathBuf) (pageCount : Nat) (accepted : Bool) :
    (system.handleOpened path pageCount accepted).Inv := by
  unfold handleOpened
  split
  · refine ⟨h.tickets.same rfl rfl rfl rfl, h.accounts.load hnone hstarts path pageCount, ?_, ?_,
      h.left⟩
    · intro current hcurrent
      cases hnone.symm.trans hcurrent
    · intro request hpending
      cases (h.pending_eq_none hnone).symm.trans hpending
  · exact h.unloaded hnone hstarts rfl

theorem Accounts.confirm (h : system.Accounts) (hcurrent : system.reader.annotations = some current)
    (holder : annotations = current ∨ annotations.revision < current.revision) :
    Accounts { system with
      reader := { system.reader with
        annotationSavedRevision := max system.reader.annotationSavedRevision annotations.revision
        annotationError, annotationFailedRevision, pendingOpen }
      stored := system.stored ++ [annotations] } where
  fits := h.fits
  single := h.single
  blank hblank := by cases hcurrent.symm.trans hblank
  held found hfound := by
    cases hcurrent.symm.trans hfound
    have held := h.held current hcurrent
    have hle : annotations.revision ≤ current.revision := by
      rcases holder with rfl | hlt
      · exact le_rfl
      · exact hlt.le
    refine ⟨held.located, held.identified, held.enqueued, Nat.max_le.mpr ⟨held.saved, hle⟩, ?_⟩
    intro hsaved
    rcases holder with rfl | hlt
    · exact .inl mem_concat_self
    · have hbefore : system.reader.annotationSavedRevision = current.revision := by
        dsimp only at hsaved
        omega
      exact (held.stored hbefore).imp_left (mem_append_left _)

variable {expected : Nat} {identity : DocumentIdentity} {path : PathBuf}

section

variable (h : system.Inv)

include h

theorem Inv.confirmed
    (hsent : system.inFlight[index]? = some ⟨system.reader.generation, system.epoch,
      .save path identity expected annotations⟩)
    (hcurrent : system.reader.annotations = some current)
    (holder : annotations = current ∨ annotations.revision < current.revision)
    (hfailed : ∀ failed, system.reader.annotationFailedRevision = some failed →
      annotations.revision < failed → annotationFailedRevision = some failed)
    (hpending : ∀ request, pendingOpen = some request → system.reader.pendingOpen = some request ∧
      annotations.revision < current.revision)
    (htickets : Tickets { system.answered index with reader := { system.reader with pendingOpen } }) :
    Inv { system.answered index with
      reader := { system.reader with
        annotationSavedRevision := max system.reader.annotationSavedRevision annotations.revision
        annotationError, annotationFailedRevision, pendingOpen }
      stored := system.stored ++ [annotations] } := by
  have hkept : annotations.revision < current.revision → system.Awaits current →
      (system.answered index).Awaits current := by
    intro hlt hawaits
    rcases hawaits.erase hsent with hkept | ⟨path', identity', expected', heq⟩
    · exact hkept
    · cases heq
      exact absurd hlt (Nat.lt_irrefl _)
  refine ⟨htickets.same rfl rfl rfl rfl,
    (h.accounts.drop (eraseIdx_sublist system.inFlight index)).confirm hcurrent holder,
    ?_, ?_, h.left⟩
  · intro found hfound hsaved hqueued
    cases hcurrent.symm.trans hfound
    obtain ⟨hbefore, hlt⟩ := Nat.max_lt.mp hsaved
    rcases h.settled current hcurrent hbefore hqueued with hawaits | ⟨failed, hmarked, hle⟩
    · exact .inl (hkept hlt hawaits)
    · exact .inr ⟨failed, hfailed failed hmarked (hlt.trans_le hle), hle⟩
  · intro request hwaits
    obtain ⟨hwaited, hlt⟩ := hpending request hwaits
    obtain ⟨found, hfound, hsaved, hblocked, hawaits⟩ := h.waiting request hwaited
    cases hcurrent.symm.trans hfound
    exact ⟨current, hcurrent, Nat.max_lt.mpr ⟨hsaved, hlt⟩, hblocked, hkept hlt hawaits⟩

theorem Inv.saved (hsent : system.inFlight[index]? = some ⟨system.reader.generation, system.epoch,
      .save path identity expected annotations⟩) :
    ((system.answered index).handleSaved annotations).Inv := by
  obtain ⟨current, hcurrent, holder⟩ := h.accounts.current (mem_of_getElem? hsent) rfl
  have hfailed : ∀ failed, system.reader.annotationFailedRevision = some failed →
      annotations.revision < failed →
        (if system.reader.annotationFailedRevision.any (· ≤ annotations.revision) then none
          else system.reader.annotationFailedRevision) = some failed := by
    intro failed hmarked hlt
    rw [hmarked, any_some, if_neg]
    simpa using hlt
  unfold handleSaved
  dsimp only
  cases hpending : system.reader.pendingOpen with
  | none =>
    refine h.confirmed hsent hcurrent holder hfailed ?_ ?_
    · exact nofun
    · exact h.tickets.same rfl rfl rfl hpending.symm
  | some request =>
    by_cases hsaved :
        max system.reader.annotationSavedRevision annotations.revision < current.revision
    · simp only [transitionPendingOpen_waiting rfl hcurrent hsaved]
      refine h.confirmed hsent hcurrent holder hfailed ?_ ?_
      · intro other hwaits
        exact ⟨hpending.trans hwaits, (Nat.max_lt.mp hsaved).2⟩
      · exact h.tickets.same rfl rfl rfl hpending.symm
    · simp only [transitionPendingOpen_open rfl hcurrent (Nat.le_of_not_lt hsaved)]
      apply Inv.begin
      · exact (h.accounts.drop (eraseIdx_sublist system.inFlight index)).confirm hcurrent holder
      · exact h.left
      · intro found hfound
        cases hcurrent.symm.trans hfound
        exact Nat.le_of_not_lt hsaved
      · exact (h.tickets.resolve hpending).same rfl rfl rfl rfl

/-- A failed save is marked, and the request that waits is cancelled. -/
theorem Inv.saveFailed (message : String)
    (hsent : system.inFlight[index]? = some ⟨system.reader.generation, system.epoch,
      .save path identity expected annotations⟩) :
    ((system.answered index).handleSaveFailed annotations.revision message).Inv := by
  have haccounts := h.accounts.drop (eraseIdx_sublist system.inFlight index)
  have hmarked : ∃ failed,
      system.reader.annotationFailedRevision.elim annotations.revision (max · annotations.revision) =
        failed ∧ annotations.revision ≤ failed ∧
          ∀ before, system.reader.annotationFailedRevision = some before → before ≤ failed := by
    cases system.reader.annotationFailedRevision with
    | none => exact ⟨_, rfl, le_rfl, nofun⟩
    | some before =>
      refine ⟨_, rfl, Nat.le_max_right .., fun found hfound => ?_⟩
      cases hfound
      exact Nat.le_max_left ..
  obtain ⟨failed, hfailed, hle, hbefore⟩ := hmarked
  have hsettled : ∀ current, system.reader.annotations = some current →
      system.reader.annotationSavedRevision < current.revision →
        current.revision ≤ system.reader.annotationEnqueuedRevision →
          (system.answered index).Awaits current ∨ ∃ mark, some failed = some mark ∧
            current.revision ≤ mark := by
    intro current hcurrent hsaved hqueued
    rcases h.settled current hcurrent hsaved hqueued with hawaits | ⟨before, heq, hmark⟩
    · rcases hawaits.erase hsent with hkept | ⟨path', identity', expected', heq⟩
      · exact .inl hkept
      · cases heq
        exact .inr ⟨failed, rfl, hle⟩
    · exact .inr ⟨failed, rfl, hmark.trans (hbefore before heq)⟩
  unfold handleSaveFailed transitionPendingOpen
  dsimp only
  rw [hfailed]
  cases hpending : system.reader.pendingOpen with
  | none =>
    exact ⟨h.tickets.same rfl rfl rfl hpending.symm, haccounts.relabel, hsettled, nofun, h.left⟩
  | some request =>
    refine ⟨h.tickets.of_subperm ?_ rfl, haccounts.relabel, hsettled, nofun, h.left⟩
    -- the request moves from those that wait to those that are cancelled
    show (List.map (fun request : OpenRequest => request.ticket)
      (system.opened ++ (system.cancelled ++ [request]) ++ [])).Subperm system.places
    unfold places
    rw [hpending, append_nil, ← append_assoc]
    rfl

theorem Inv.coalesce (hunrepeated : system.Unrepeated) {later : Nat} {other : Sent}
    (hsent : system.inFlight[index]? = some sent) (hother : system.inFlight[later]? = some other)
    (hlt : index < later) (hreplaces : replaces other sent) : (system.answered index).Inv := by
  refine h.answered fun current hcurrent hawaits => ?_
  rcases hawaits.erase hsent with hkept | ⟨path, identity, expected, rfl⟩
  · exact hkept
  obtain ⟨generation, epoch, request⟩ := other
  unfold replaces at hreplaces
  cases request with
  | save path' identity' expected' annotations =>
    simp only [Bool.and_eq_true, decide_eq_true_eq] at hreplaces
    obtain ⟨⟨hgeneration, -⟩, hle⟩ := hreplaces
    have hmem := mem_of_getElem? hother
    obtain rfl : epoch = system.epoch := hunrepeated _ hmem hgeneration.symm
    obtain ⟨found, hfound, holder⟩ := h.accounts.current hmem rfl
    cases hcurrent.symm.trans hfound
    obtain rfl := holder.resolve_right (Nat.not_lt.mpr hle)
    obtain rfl : system.reader.generation = generation := hgeneration
    exact ⟨path', identity', expected', mem_eraseIdx_iff_getElem?.mpr ⟨later, hlt.ne', hother⟩⟩
  | «open» | load => cases hreplaces

theorem Inv.stale (hsent : system.inFlight[index]? = some sent)
    (hstale : sent.generation ≠ system.reader.generation) : (system.answered index).Inv := by
  refine h.answered fun current hcurrent hawaits => ?_
  rcases hawaits.erase hsent with hkept | ⟨path, identity, expected, rfl⟩
  · exact hkept
  · exact absurd rfl hstale

theorem Inv.answer (hunrepeated : system.Unrepeated) {outcome : Outcome}
    (hsent : system.inFlight[index]? = some sent)
    (hnext : (system.answered index).handleAnswer sent outcome = some next) : next.Inv := by
  have hmem := mem_of_getElem? hsent
  by_cases hcurrent : sent.generation = system.reader.generation
  · have hepoch := hunrepeated sent hmem hcurrent
    obtain ⟨generation, epoch, request⟩ := sent
    obtain rfl : generation = system.reader.generation := hcurrent
    obtain rfl : epoch = system.epoch := hepoch
    cases request with
    | «open» path =>
      obtain ⟨hanswered, hnone, hstarts⟩ := h.started hsent rfl rfl
      cases outcome <;> simp only [handleAnswer, if_pos, Option.some.injEq, reduceCtorEq] at hnext
      · exact hnext ▸ hanswered.opened hnone hstarts path _ _
      · exact hnext ▸ hanswered
    | load path pageCount =>
      obtain ⟨hanswered, hnone, hstarts⟩ := h.started hsent rfl rfl
      have hdocument := (h.accounts.current hmem rfl).2
      cases outcome <;> simp only [handleAnswer, if_pos, Option.some.injEq, reduceCtorEq] at hnext
      · exact hnext ▸ hanswered.loaded hnone hstarts hdocument _ _
      · exact hnext ▸ hanswered.unloaded hnone hstarts hdocument
    | save path identity expected annotations =>
      cases outcome <;> simp only [handleAnswer, if_pos, Option.some.injEq, reduceCtorEq] at hnext
      · exact hnext ▸ h.saved hsent
      · exact hnext ▸ h.saveFailed _ hsent
  · have hanswered := h.stale hsent hcurrent
    unfold handleAnswer at hnext
    split at hnext <;> simp only [if_neg hcurrent, Option.some.injEq, reduceCtorEq] at hnext <;>
      exact hnext ▸ hanswered

theorem Inv.step {operation : Operation} (hcareful : system.Careful operation)
    (hstep : system.step operation = some next) : next.Inv := by
  obtain ⟨haccepted, hunrepeated⟩ := hcareful
  cases operation with
  | openPath path accepted => exact some.inj hstep ▸ h.openPath path accepted
  | addHighlight range color accepted => exact some.inj hstep ▸ h.addHighlight haccepted
  | writeComment editing range markdown accepted =>
    exact some.inj hstep ▸ h.writeComment haccepted
  | answer index outcome =>
    obtain ⟨sent, hsent, hnext⟩ := bind_eq_some_iff.mp hstep
    exact h.answer hunrepeated hsent hnext
  | coalesce index later =>
    obtain ⟨sent, hsent, hstep⟩ := bind_eq_some_iff.mp hstep
    obtain ⟨other, hother, hstep⟩ := bind_eq_some_iff.mp hstep
    split at hstep
    · rename_i hreplaces
      exact some.inj hstep ▸ h.coalesce hunrepeated hsent hother hreplaces.1 hreplaces.2
    · cases hstep

end

def Cancels (system : System) : Prop :=
  ∀ index sent message next, system.inFlight[index]? = some sent →
    sent.generation = system.reader.generation →
      system.step (.answer index (.saveFailed message)) = some next →
        next.reader.pendingOpen = none ∧
          ∀ request, system.reader.pendingOpen = some request → request ∈ next.cancelled

theorem cancels (system : System) : system.Cancels := by
  intro index sent message next hsent hcurrent hstep
  obtain ⟨found, hfound, hnext⟩ := bind_eq_some_iff.mp hstep
  cases hsent.symm.trans hfound
  obtain ⟨generation, epoch, request⟩ := sent
  cases request with
  | «open» | load => cases hnext
  | save path identity expected annotations =>
  obtain rfl : generation = system.reader.generation := hcurrent
  simp only [handleAnswer, if_pos, Option.some.injEq] at hnext
  subst hnext
  unfold handleSaveFailed transitionPendingOpen
  dsimp only
  cases hpending : system.reader.pendingOpen with
  | none => exact ⟨rfl, nofun⟩
  | some request =>
    refine ⟨rfl, fun other hwaits => ?_⟩
    cases hwaits
    exact mem_concat_self

/-- After every run of careful steps. -/
theorem run_guards_annotations (operations : List Operation) (system : System)
    (hcareful : Transition.Along step Careful new operations)
    (hrun : Transition.run step new operations = some system) :
    system.Guarded ∧ system.Cancels := by
  have hinv := Transition.run_preserves (fun _ _ _ h hcareful hstep => h.step hcareful hstep)
    inv_new hcareful hrun
  exact ⟨hinv.guarded, cancels system⟩

/-- A new document on one page, with a comment that is being saved when another one is opened. -/
def openWhileSaving : List Operation :=
  [.openPath "first.pdf" true, .answer 0 (.opened 1 true),
    .answer 0 (.loaded ⟨0, 0, 0, 1, none, Nat.succ_pos _⟩ (.new 1)),
    .writeComment none (.new ⟨0, 0⟩ ⟨0, 4⟩) "first" true, .openPath "second.pdf" true]

theorem openWhileSaving_guards : ∃ system,
    Transition.run step new (openWhileSaving ++ [.answer 0 .saved]) = some system ∧
      system.Guarded ∧ system.Cancels := by
  obtain ⟨system, hrun⟩ := isSome_iff_exists.mp (by decide +kernel :
    (Transition.run step new (openWhileSaving ++ [.answer 0 .saved])).isSome)
  exact ⟨system, hrun, run_guards_annotations _ system (by decide +kernel) hrun⟩

def waitsInVain (system : System) : Bool :=
  system.reader.pendingOpen.isSome && system.inFlight.all fun sent =>
    match sent.request with
    | .save _ _ _ annotations => system.reader.annotations ≠ some annotations
    | _ => true

/-- The mailbox refuses the save of a second comment. -/
theorem openWhileSaving_unguarded : ¬∀ operations system,
    Transition.run step new operations = some system → system.Guarded := by
  intro h
  have hvain : (Transition.run step new (openWhileSaving ++
      [.writeComment none (.new ⟨0, 5⟩ ⟨0, 9⟩) "second" false])).any waitsInVain = true := by
    decide +kernel
  obtain ⟨system, hrun, hvain⟩ := (Option.any_eq_true ..).mp hvain
  obtain ⟨hpending, hflight⟩ := Bool.and_eq_true_iff.mp hvain
  obtain ⟨request, hpending⟩ := isSome_iff_exists.mp hpending
  obtain ⟨annotations, hannotations, hawaits⟩ := (h _ system hrun).awaited request hpending
  obtain ⟨path, identity, expected, hmem⟩ := hawaits
  have hother := of_decide_eq_true (all_eq_true.mp hflight _ hmem)
  exact hother hannotations

end System

end KeyReader.Opening
