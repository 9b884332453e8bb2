import KeyReader.Runtime.OwnerInvariants

/-! What a document publishes belongs to its current session. -/

namespace KeyReader.Runtime

open List Option

variable {S L X D R O : Type}

/-- What a `Ready` event says of its demand and of the result: the dimensions are those of the
demand, and those of the image, if there is one. -/
structure Publication where
  generation : Nat
  page : Nat
  resource : ResourceHandle
  demanded : Option (Nat × Nat)
  actual : Option (Nat × Nat)

def SupervisorEvent.publication : SupervisorEvent L X → Option Publication
  | .rendered _ (.ready demand tile) => some
    { generation := demand.stamp.generation, page := demand.page, resource := tile.resource
      demanded := some (demand.renderRect.width, demand.renderRect.height)
      actual := some (tile.image.width, tile.image.height) }
  | .textExtracted _ (.ready demand text) => some
    { generation := demand.stamp.generation, page := demand.page, resource := text.resource
      demanded := none, actual := none }
  | .previewRendered _ (.ready demand preview) => some
    { generation := demand.stamp.generation, page := demand.page, resource := preview.resource
      demanded := some (demand.region.width, demand.region.height)
      actual := some (preview.image.width, preview.image.height) }
  | _ => none

/-- The generation that an `Opened` event announces, and its descriptor. -/
def SupervisorEvent.opening : SupervisorEvent L X → Option (Nat × DocumentDescriptor)
  | .opened _ session _ descriptor => some (session.generation, descriptor)
  | _ => none

def SupervisorEvent.resource : SupervisorEvent L X → Option ResourceHandle
  | .opened _ _ resource _ => some resource
  | event => event.publication.map (·.resource)

namespace Trace

def openings (trace : Trace L X) : List (Nat × DocumentDescriptor) :=
  trace.pushed.filterMap (·.event.opening)

def resources (trace : Trace L X) : List ResourceHandle :=
  trace.pushed.filterMap (·.event.resource)

/-- Every `Ready` event is of the session that was current when it was pushed, its page is one of
the descriptor that was published for the generation, and its image is as demanded; no resource is
given out twice; and no engine call is made for a generation that was begun before the last `Open`
or `Close` was accepted. -/
structure NeverStale (trace : Trace L X) : Prop where
  current : ∀ pushed ∈ trace.pushed, ∀ publication ∈ pushed.event.publication,
    pushed.current = some publication.generation ∧
      publication.resource.generation = publication.generation ∧
      publication.demanded = publication.actual ∧
      ∃ descriptor, (publication.generation, descriptor) ∈ trace.openings ∧
        publication.page < descriptor.pageCount
  openings : (trace.openings.map (·.1)).Nodup
  resources : trace.resources.Nodup
  calls : ∀ call ∈ trace.calls, call.closed < call.generation

end Trace

variable {resource : ResourceHandle} {session : DocumentSession}

theorem allocateResource_eq_ok {next : DocumentSession}
    (h : session.allocateResource = .ok (resource, next)) :
    resource = ⟨session.generation, session.nextResource⟩ ∧
      next = { session with nextResource := session.nextResource + 1 } := by
  unfold DocumentSession.allocateResource allocateNonZero at h
  split at h
  · cases h
  · rename_i id nextResource hcounter
    split at hcounter
    · cases hcounter
      cases h
      exact ⟨rfl, rfl⟩
    · cases hcounter

namespace ManagedDocument

/-- The invariant of a document. -/
structure Sound (document : ManagedDocument S L X) : Prop extends document.trace.NeverStale where
  begun : document.sessions.nextGeneration = 0 ∨
    document.sessions.nextGeneration = document.trace.begun + 1
  closed : document.trace.closed ≤ document.trace.begun
  active : ∀ session ∈ document.sessions.active, session.generation = document.trace.begun ∧
    document.trace.closed < session.generation
  descriptor : ∀ descriptor ∈ document.descriptor, ∃ session ∈ document.sessions.active,
    (session.generation, descriptor) ∈ document.trace.openings
  opened : ∀ opening ∈ document.trace.openings, opening.1 ≤ document.trace.begun
  given : ∀ resource ∈ document.trace.resources, resource.generation ≤ document.trace.begun
  counted : ∀ session ∈ document.sessions.active, ∀ resource ∈ document.trace.resources,
    resource.generation = session.generation → resource.id < session.nextResource

variable {document next : ManagedDocument S L X}

theorem Sound.of_same (h : document.Sound) (hsessions : next.sessions = document.sessions)
    (hdescriptor : next.descriptor = document.descriptor)
    (htrace : next.trace = document.trace) : next.Sound := by
  obtain ⟨hstale, hbegun, hclosed, hactive, hpublished, hopened, hgiven, hcounted⟩ := h
  constructor <;> rw [htrace] <;> try rw [hsessions] <;> try rw [hdescriptor]
  all_goals assumption

theorem openings_pushEvent (document : ManagedDocument S L X) (event : SupervisorEvent L X) :
    (document.pushEvent event).trace.openings =
      document.trace.openings ++ event.opening.toList := by
  show (document.trace.pushed ++ _).filterMap _ = _
  rw [filterMap_append]
  cases hopening : event.opening <;> simp [Trace.openings, hopening]

theorem resources_pushEvent (document : ManagedDocument S L X) (event : SupervisorEvent L X) :
    (document.pushEvent event).trace.resources =
      document.trace.resources ++ event.resource.toList := by
  show (document.trace.pushed ++ _).filterMap _ = _
  rw [filterMap_append]
  cases hresource : event.resource <;> simp [Trace.resources, hresource]

theorem Sound.pushEvent (h : document.Sound) {event : SupervisorEvent L X}
    (hresource : event.resource = none) (hopening : event.opening = none)
    (hpublication : event.publication = none) : (document.pushEvent event).Sound := by
  have hopenings := openings_pushEvent document event
  have hresources := resources_pushEvent document event
  rw [hopening, toList_none, append_nil] at hopenings
  rw [hresource, toList_none, append_nil] at hresources
  refine { h with
    current := ?_
    openings := by rw [hopenings]; exact h.openings
    resources := by rw [hresources]; exact h.resources
    descriptor := by rw [hopenings]; exact h.descriptor
    opened := by rw [hopenings]; exact h.opened
    given := by rw [hresources]; exact h.given
    counted := by rw [hresources]; exact h.counted }
  intro pushed hpushed publication hmem
  rw [hopenings]
  rcases mem_append.mp hpushed with hpushed | hpushed
  · exact h.current pushed hpushed publication hmem
  · obtain rfl := mem_singleton.mp hpushed
    cases hpublication.symm.trans hmem

theorem Sound.cancelAndClear (h : document.Sound) (states : Cancellations) :
    (document.cancelAndClear states).1.Sound := by
  have hnone : (document.cancelAndClear states).1.sessions.active = none :=
    document.sessions.active_close states
  refine { h with
    begun := ?_
    closed := le_rfl
    active := ?_
    descriptor := nofun
    counted := ?_ }
  · show (document.sessions.close states).1.nextGeneration = 0 ∨
      (document.sessions.close states).1.nextGeneration = document.trace.begun + 1
    rw [DocumentSessionManager.nextGeneration_close]
    exact h.begun
  · rw [hnone]
    nofun
  · rw [hnone]
    nofun

theorem Sound.called (h : document.Sound) {generation : Nat}
    (hgeneration : document.trace.closed < generation) (after : Option EngineDocument) :
    (document.called generation after).Sound := by
  refine { h with
    calls := ?_ }
  intro call hcall
  rcases mem_append.mp hcall with hcall | hcall
  · exact h.calls call hcall
  · obtain rfl := mem_singleton.mp hcall
    exact hgeneration

variable {session' : DocumentSession}

section

variable (h : document.Sound)

include h

section

variable (hactive : document.sessions.active = some session)

include hactive

theorem Sound.withSession (hallocate : session.allocateResource = .ok (resource, session')) :
    (document.withSession session').Sound := by
  obtain ⟨-, rfl⟩ := allocateResource_eq_ok hallocate
  refine { h with
    active := ?_
    descriptor := ?_
    counted := ?_ }
  · rintro _ ⟨⟩
    exact h.active session hactive
  · intro descriptor hdescriptor
    obtain ⟨session', hsession, hopening⟩ := h.descriptor descriptor hdescriptor
    cases hactive.symm.trans hsession
    exact ⟨_, rfl, hopening⟩
  · rintro _ ⟨⟩ resource hresource hgeneration
    exact Nat.lt_succ_of_lt (h.counted session hactive resource hresource hgeneration)

theorem Sound.fresh {next : DocumentSession}
    (hallocate : session.allocateResource = .ok (resource, next)) :
    (document.trace.resources ++ [resource]).Nodup ∧
      (∀ given ∈ document.trace.resources ++ [resource], given.generation ≤ document.trace.begun) ∧
      ∀ given ∈ document.trace.resources ++ [resource], given.generation = next.generation →
        given.id < next.nextResource := by
  obtain ⟨rfl, rfl⟩ := allocateResource_eq_ok hallocate
  have hgeneration := (h.active session hactive).1
  refine ⟨?_, ?_, ?_⟩
  · refine nodup_append.mpr ⟨h.resources, nodup_singleton _, ?_⟩
    intro given hgiven other hother heq
    obtain rfl := mem_singleton.mp hother
    have hlt := h.counted session hactive given hgiven (congrArg _ heq)
    rw [heq] at hlt
    exact Nat.lt_irrefl _ hlt
  · intro given hgiven
    rcases mem_append.mp hgiven with hgiven | hgiven
    · exact h.given given hgiven
    · obtain rfl := mem_singleton.mp hgiven
      exact Nat.le_of_eq hgeneration
  · intro given hgiven heq
    rcases mem_append.mp hgiven with hgiven | hgiven
    · exact Nat.lt_succ_of_lt (h.counted session hactive given hgiven heq)
    · obtain rfl := mem_singleton.mp hgiven
      exact Nat.lt_succ_self _

section

variable (hallocate : session.allocateResource = .ok (resource, session'))

include hallocate

/-- The current session publishes a result. -/
theorem Sound.publish {event : SupervisorEvent L X} {publication : Publication}
    (hpublication : event.publication = some publication) (hopening : event.opening = none)
    (hresource : event.resource = some resource)
    (hgeneration : publication.generation = session.generation)
    (hpublished : publication.resource = resource)
    (hdimensions : publication.demanded = publication.actual)
    (hpage : ∃ descriptor, document.descriptor = some descriptor ∧
      publication.page < descriptor.pageCount) :
    ((document.withSession session').pushEvent event).Sound := by
  have hsession := h.withSession hactive hallocate
  obtain ⟨hnodup, hgiven, hcounted⟩ := h.fresh hactive hallocate
  have hopenings := openings_pushEvent (document.withSession session') event
  have hresources := resources_pushEvent (document.withSession session') event
  rw [hopening, toList_none, append_nil] at hopenings
  rw [hresource, toList_some] at hresources
  obtain ⟨hresourceEq, hsessionEq⟩ := allocateResource_eq_ok hallocate
  refine { hsession with
    current := ?_
    openings := by rw [hopenings]; exact h.openings
    resources := by rw [hresources]; exact hnodup
    descriptor := by rw [hopenings]; exact hsession.descriptor
    opened := by rw [hopenings]; exact hsession.opened
    given := by rw [hresources]; exact hgiven
    counted := ?_ }
  · intro pushed hpushed found hmem
    rw [hopenings]
    rcases mem_append.mp hpushed with hpushed | hpushed
    · exact h.current pushed hpushed found hmem
    · obtain rfl := mem_singleton.mp hpushed
      cases hpublication.symm.trans hmem
      refine ⟨?_, ?_, hdimensions, ?_⟩
      · rw [hgeneration]
        exact congrArg (fun session => some session.generation) hsessionEq
      · rw [hpublished, hgeneration, hresourceEq]
      · obtain ⟨descriptor, hdescriptor, hlt⟩ := hpage
        obtain ⟨other, hother, hopened⟩ := h.descriptor descriptor hdescriptor
        cases hactive.symm.trans hother
        exact ⟨descriptor, hgeneration ▸ hopened, hlt⟩
  · rintro _ ⟨⟩
    rw [hresources]
    exact hcounted

/-- The current session, which has not been announced before, is announced. -/
theorem Sound.announce
    (hfirst : ∀ opening ∈ document.trace.openings, opening.1 ≠ session.generation) (id : Nat)
    (opened : EngineDocument) : (((document.withSession session').install opened resource).pushEvent
      (.opened id session' resource opened.descriptor)).Sound := by
  have hsession := h.withSession hactive hallocate
  obtain ⟨hnodup, hgiven, hcounted⟩ := h.fresh hactive hallocate
  obtain ⟨-, hsessionEq⟩ := allocateResource_eq_ok hallocate
  have hgeneration : session'.generation = session.generation := by rw [hsessionEq]
  have hopenings := openings_pushEvent ((document.withSession session').install opened resource)
    (.opened id session' resource opened.descriptor)
  have hresources := resources_pushEvent ((document.withSession session').install opened resource)
    (.opened id session' resource opened.descriptor)
  replace hopenings : _ = document.trace.openings ++
    [(session'.generation, opened.descriptor)] := hopenings
  replace hresources : _ = document.trace.resources ++ [resource] := hresources
  refine { hsession with
    current := ?_
    openings := ?_
    resources := by rw [hresources]; exact hnodup
    descriptor := ?_
    opened := ?_
    given := by rw [hresources]; exact hgiven
    counted := ?_ }
  · intro pushed hpushed found hmem
    rw [hopenings]
    rcases mem_append.mp hpushed with hpushed | hpushed
    · obtain ⟨hcurrent, hresource, hdimensions, descriptor, hopened, hpage⟩ :=
        h.current pushed hpushed found hmem
      exact ⟨hcurrent, hresource, hdimensions, descriptor, mem_append_left _ hopened, hpage⟩
    · obtain rfl := mem_singleton.mp hpushed
      cases hmem
  · rw [hopenings, map_append]
    refine nodup_append.mpr ⟨h.openings, nodup_singleton _, ?_⟩
    intro generation hmem other hother
    obtain ⟨opening, hopening, rfl⟩ := mem_map.mp hmem
    rw [mem_singleton.mp hother, hgeneration]
    exact hfirst opening hopening
  · rintro _ ⟨⟩
    refine ⟨session', rfl, ?_⟩
    rw [hopenings]
    exact mem_concat_self
  · rw [hopenings]
    intro opening hopening
    rcases mem_append.mp hopening with hopening | hopening
    · exact h.opened opening hopening
    · obtain rfl := mem_singleton.mp hopening
      exact Nat.le_of_eq (hgeneration.trans (h.active session hactive).1)
  · rintro _ ⟨⟩
    rw [hresources]
    exact hcounted

end

end

/-- A new session begins: nothing is announced or given out for its generation yet. -/
theorem Sound.beginSession (states : Cancellations) : (document.beginSession states).2.1.Sound ∧
      ∀ session, (document.beginSession states).1 = .ok session →
        (document.beginSession states).2.1.sessions.active = some session ∧
        ∀ opening ∈ (document.beginSession states).2.1.trace.openings,
          opening.1 ≠ session.generation := by
  have hcleared : ({ document with
      document := none, documentHandle := none, descriptor := none } :
        ManagedDocument S L X).Sound := { h with
    descriptor := nofun }
  unfold ManagedDocument.beginSession
  dsimp only
  rcases document.sessions.begin_cases states with ⟨-, heq⟩ |
    ⟨session, next, states', heq, hnext, hgeneration, hactive, hafter⟩ <;> rw [heq] <;> dsimp only
  · exact ⟨hcleared, nofun⟩
  have hbegun : session.generation = document.trace.begun + 1 :=
    hgeneration.trans (h.begun.resolve_left hnext)
  have hclosed : document.trace.closed < session.generation := by
    have hle := h.closed
    omega
  refine ⟨{ h with
    begun := by rwa [hgeneration]
    closed := Nat.le_of_lt hclosed
    active := ?_
    descriptor := nofun
    opened := ?_
    given := ?_
    counted := ?_ }, ?_⟩
  · intro other hother
    cases hactive.symm.trans hother
    exact ⟨rfl, hclosed⟩
  · intro opening hopening
    have hle := h.opened opening hopening
    show opening.1 ≤ session.generation
    omega
  · intro resource hresource
    have hle := h.given resource hresource
    show resource.generation ≤ session.generation
    omega
  · intro other hother resource hresource heq
    cases hactive.symm.trans hother
    have hle := h.given resource hresource
    omega
  · rintro _ ⟨⟩
    refine ⟨hactive, fun opening hopening => ?_⟩
    have hle := h.opened opening hopening
    omega

theorem Sound.processOpen (id : Nat) (states : Cancellations) (operation : Nat)
    (outcome : EngineOutcome EngineDocument X) :
    (document.processOpen id states operation outcome).1.Sound := by
  obtain ⟨hbegun, hsession⟩ := h.beginSession states
  unfold ManagedDocument.processOpen
  split
  · rename_i heq
    rw [heq] at hbegun
    exact hbegun.pushEvent rfl rfl rfl
  · rename_i session next states' heq
    rw [heq] at hbegun hsession
    obtain ⟨hactive, hfirst⟩ := hsession session rfl
    have hcalled := hbegun.called (hbegun.active session hactive).2 none
    dsimp only
    split
    · split
      · exact hcalled.pushEvent rfl rfl rfl
      split
      · exact hcalled.pushEvent rfl rfl rfl
      · rename_i hallocate
        exact hcalled.announce hactive hallocate hfirst id _
    · split <;> exact hcalled.pushEvent rfl rfl rfl

theorem Sound.execute (work : EngineWork D R O) (wrap : WorkEvent D O X → SupervisorEvent L X)
    (hopening : ∀ event, (wrap event).opening = none)
    (hresource : ∀ event, (wrap event).resource = (wrap event).publication.map (·.resource))
    (hother : ∀ event, (∀ demand output, event ≠ .ready demand output) →
      (wrap event).publication = none)
    (hready : ∀ demand resource result, work.check demand result = none →
      ∃ publication, (wrap (.ready demand (work.output demand resource result))).publication =
          some publication ∧ publication.generation = (work.stamp demand).generation ∧
        publication.page = work.page demand ∧ publication.resource = resource ∧
        publication.demanded = publication.actual) (states : Cancellations) (demand : D)
    (operation : CancellationToken) (outcome : EngineOutcome R X) :
    ((document.execute work states demand operation outcome).2.1.pushEvent
      (wrap (document.execute work states demand operation outcome).1)).Sound := by
  rcases execute_cases work document states demand operation outcome with ⟨event, hevent, heq⟩ |
    ⟨session, hactive, hgeneration, hpage,
      ⟨event, hevent, heq⟩ | ⟨result, resource, next, hcheck, hallocate, heq⟩⟩ <;> rw [heq]
  · have hnone := hother event hevent
    exact h.pushEvent (by rw [hresource, hnone]; rfl) (hopening event) hnone
  · have hnone := hother event hevent
    exact (h.called (h.active session hactive).2 _).pushEvent (by rw [hresource, hnone]; rfl)
      (hopening event) hnone
  · obtain ⟨publication, hpublication, hpublished, hpageEq, hresourceEq, hdimensions⟩ :=
      hready demand resource result hcheck
    have hcalled := h.called (h.active session hactive).2 (some outcome.document)
    refine hcalled.publish hactive hallocate hpublication (hopening _) ?_
      (hpublished.trans hgeneration.symm) hresourceEq hdimensions ?_
    · rw [hresource, hpublication, map_some, hresourceEq]
    · rw [hpageEq]
      exact hpage

end

theorem checkDimensions_eq_none {expected : PixelRect} {image : RasterImage}
    (h : checkDimensions expected image = none) :
    some (expected.width, expected.height) = some (image.width, image.height) := by
  unfold checkDimensions at h
  split at h
  · cases h
  · rename_i hsame
    rw [not_or, not_not, not_not] at hsame
    rw [hsame.1, hsame.2]

section

variable (h : document.Sound)

include h

theorem Sound.processWork (id : Nat) (states : Cancellations) (pending : PendingWork S)
    (answers : EngineAnswers L X) :
    (document.processWork id states pending answers).1.Sound := by
  unfold ManagedDocument.processWork
  split
  · exact h.processOpen ..
  · refine h.execute .render (.rendered id) (fun _ => rfl) (fun _ => rfl) ?_ ?_ ..
    · intro event hevent
      cases event with
      | ready demand output => exact absurd rfl (hevent demand output)
      | _ => rfl
    · intro demand resource image hcheck
      exact ⟨_, rfl, rfl, rfl, rfl, checkDimensions_eq_none hcheck⟩
  · refine h.execute .text (.textExtracted id) (fun _ => rfl) (fun _ => rfl) ?_ ?_ ..
    · intro event hevent
      cases event with
      | ready demand output => exact absurd rfl (hevent demand output)
      | _ => rfl
    · intro demand resource layer _
      exact ⟨_, rfl, rfl, rfl, rfl, rfl⟩
  · refine h.execute .preview (.previewRendered id) (fun _ => rfl) (fun _ => rfl) ?_ ?_ ..
    · intro event hevent
      cases event with
      | ready demand output => exact absurd rfl (hevent demand output)
      | _ => rfl
    · intro demand resource image hcheck
      exact ⟨_, rfl, rfl, rfl, rfl, checkDimensions_eq_none hcheck⟩

theorem Sound.accept (id capacity : Nat) (states : Cancellations)
    (command : Command S) : (document.accept id capacity states command).1.Sound := by
  have hcleared := h.cancelAndClear states
  cases command with
  | opening _ source cancellation => exact hcleared.of_same rfl rfl rfl
  | close _ => exact hcleared.pushEvent rfl rfl rfl
  | replace _ workClass work cancellation =>
    have hqueue : (document.withQueue ((document.queue states).replaceClass workClass work
        cancellation capacity).2).Sound := h.of_same rfl rfl rfl
    unfold ManagedDocument.accept
    dsimp only
    split
    · exact hqueue.pushEvent rfl rfl rfl
    · exact hqueue
  | cancelClass _ workClass => exact h.of_same rfl rfl rfl
  | attach _ | detach _ | shutdown => exact h

theorem Sound.flush (answers : List RouteAnswer) : (document.flush answers).1.Sound := { h with }

theorem Sound.allocateForClient : document.allocateForClient.Sound := by
  unfold ManagedDocument.allocateForClient
  split
  · exact h
  · rename_i session hactive
    split
    · exact h
    · rename_i hallocate
      exact h.withSession hactive hallocate

end

theorem sound_new : (ManagedDocument.new : ManagedDocument S L X).Sound where
  current := fun _ h => absurd h not_mem_nil
  openings := nodup_nil
  resources := nodup_nil
  calls := fun _ h => absurd h not_mem_nil
  begun := .inr rfl
  closed := le_rfl
  active := nofun
  descriptor := nofun
  opened := nofun
  given := nofun
  counted := nofun

end ManagedDocument

namespace Supervisor

theorem kept_sound : Kept (S := S) (L := L) (X := X) (fun _ document => document.Sound)
    fun _ document => document.trace.NeverStale where
  attached _ _ := ManagedDocument.sound_new.pushEvent rfl rfl rfl
  accept id capacity _ states command h := h.accept id capacity states command
  flush _ _ answers h _ := h.flush answers
  disconnected _ _ answers h _ := (h.flush answers).toNeverStale
  removed _ _ h := h.toNeverStale
  withQueue _ _ _ h := h.of_same rfl rfl rfl
  process id _ states pending answers h := h.processWork id states pending answers
  allocate _ _ h := h.allocateForClient

/-- Nothing stale is published for any document, in any run. -/
theorem run_neverStale {capabilities : EngineCapabilities} {capacity : Nat}
    {events : List (Event S L X)} {supervisor : Supervisor S L X}
    (hrun : Transition.run step (new capabilities capacity) events = some supervisor) :
    (∀ id document, supervisor.documents.lookup id = some document → document.trace.NeverStale) ∧
    ∀ removed ∈ supervisor.removed, removed.2.trace.NeverStale := by
  have h := kept_sound.run hrun
  exact ⟨fun id document hdocument => (h.present id document hdocument).toNeverStale, h.gone⟩

end Supervisor

namespace Supervisor

/-- The engine's answers for a document of three pages. -/
def answers : EngineAnswers Nat Nat :=
  { opened := ⟨.ok ⟨⟨3⟩⟩, ⟨⟨3⟩⟩, []⟩, raster := ⟨.ok ⟨8, 8, .bgra8Premultiplied⟩, ⟨⟨3⟩⟩, []⟩
    text := ⟨.ok 7, ⟨⟨3⟩⟩, []⟩ }

def firstText (generation : Nat) : Work :=
  .text ⟨⟨generation, 1, 128, .visible⟩, 0, .visibleLayer⟩

/-- A document is opened, and the text of its first page is extracted. -/
def openAndRead (generation : Nat) : List (Event Nat Nat Nat) :=
  [.accept (.opening 1 0 (2 * generation)), .work answers, .flush fun _ => [.accepted],
    .accept (.replace 1 .visibleText [firstText generation] (2 * generation + 1)), .work answers,
    .flush fun _ => [.accepted]]

/-- A document is opened and read twice. -/
def reopened : Option (Supervisor Nat Nat Nat) :=
  Transition.run step (new ⟨true, true, true, true, true⟩ 4)
    ([.source, .source, .source, .source, .source, .source, .accept (.attach 1),
      .flush fun _ => [.accepted]] ++ openAndRead 1 ++ openAndRead 2)

def reopenedPublications : List Publication :=
  (reopened.bind fun supervisor => supervisor.documents.lookup 1).elim [] fun document =>
    document.trace.pushed.filterMap (·.event.publication)

theorem run_neverStale_reopened : ∃ supervisor document, reopened = some supervisor ∧
    supervisor.documents.lookup 1 = some document ∧ document.trace.NeverStale := by
  obtain ⟨document, hdocument⟩ := isSome_iff_exists.mp
    (show (reopened.bind fun supervisor => supervisor.documents.lookup 1).isSome by
      decide +kernel)
  obtain ⟨supervisor, hrun, hlookup⟩ := bind_eq_some_iff.mp hdocument
  exact ⟨supervisor, document, hrun, hlookup, (run_neverStale hrun).1 1 document hlookup⟩

/-- The numbers of resources are repeated in another generation. -/
theorem reopened_repeats_ids : reopenedPublications.map (·.resource) = [⟨1, 2⟩, ⟨2, 2⟩] ∧
      ¬(reopenedPublications.map (·.resource.id)).Nodup := by
  decide +kernel

end Supervisor

end KeyReader.Runtime
