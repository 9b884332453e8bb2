import KeyReader.AnnotationService.Lanes
import Mathlib.Logic.Relation

/-! The accounts of the ledger: tickets follow the order in which saves were accepted, and every
accepted save is queued, held by its lane, or settled. -/

namespace KeyReader.AnnotationService.Ledger

open List Option Function

def Carries (ledger : Ledger) (clientId documentId : Nat) (request : SaveRequest) : Prop :=
  ∃ save, ledger.accepted[request.ticket]? = some save ∧ save.clientId = clientId ∧
    save.documentId = documentId ∧ SameContent request save.request

structure Ticketed (ledger : Ledger) : Prop where
  accepted : ∀ n (save : AcceptedSave), ledger.accepted[n]? = some save → save.request.ticket = n
  queued : ∀ c d request, Command.save c d request ∈ ledger.mailbox →
    ledger.accepted[request.ticket]? = some ⟨c, d, request⟩
  held : ∀ d lane request, ledger.lanes d = some lane → Operation.save request ∈ lane.operations →
    ledger.Carries lane.clientId d request
  sorted : ledger.mailbox.Pairwise fun x y => ∀ c d request c' d' later,
    x = Command.save c d request → y = Command.save c' d' later → request.ticket < later.ticket
  older : ∀ d lane request c d' later, ledger.lanes d = some lane →
    Operation.save request ∈ lane.operations → Command.save c d' later ∈ ledger.mailbox →
      request.ticket < later.ticket

variable {clientId documentId : Nat} {request pending : SaveRequest} {lanes : Nat → Option Lane}
  {mailbox rest : List Command} {lane : Lane} {operations : List Operation} {next : Ledger}

section Ticketed

variable {ledger : Ledger}

theorem Carries.lt (h : ledger.Carries clientId documentId request) :
    request.ticket < ledger.accepted.length := by
  obtain ⟨save, hfound, -⟩ := h
  exact (List.getElem?_eq_some_iff.mp hfound).1

variable {outcomes : List Outcome}

section

variable (h : Ticketed ledger)

include h

theorem Ticketed.change (hmailbox : mailbox.Sublist ledger.mailbox)
    (hlanes : ∀ d lane request, lanes d = some lane → Operation.save request ∈ lane.operations →
      ∃ old, ledger.lanes d = some old ∧ old.clientId = lane.clientId ∧
      Operation.save request ∈ old.operations) :
    Ticketed { ledger with mailbox, lanes, outcomes } where
  accepted := h.accepted
  queued c d request hin := h.queued c d request (hmailbox.subset hin)
  held d lane request hlane hin := by
    obtain ⟨old, hold, hclient, hin⟩ := hlanes d lane request hlane hin
    have hcarries := h.held d old request hold hin
    rw [hclient] at hcarries
    exact hcarries
  sorted := h.sorted.sublist hmailbox
  older d lane request c d' later hlane hin hlater := by
    obtain ⟨old, hold, -, hin⟩ := hlanes d lane request hlane hin
    exact h.older d old request c d' later hold hin (hmailbox.subset hlater)

theorem Ticketed.set {next : Lane} (hmailbox : mailbox.Sublist ledger.mailbox)
    (hlane : ledger.lanes documentId = some lane) (hclient : lane.clientId = next.clientId)
    (hnext : ∀ request, Operation.save request ∈ next.operations →
      Operation.save request ∈ lane.operations) :
    Ticketed ({ ledger with mailbox, outcomes }.setLane documentId (some next)) := by
  refine h.change hmailbox fun d found request hfound hin => ?_
  rcases Table.update_eq_some.mp hfound with ⟨rfl, rfl⟩ | ⟨-, hold⟩
  · exact ⟨lane, hlane, hclient, hnext request hin⟩
  · exact ⟨found, hold, rfl, hin⟩

theorem Ticketed.takeSave {moved : SaveRequest}
    (hmailbox : ledger.mailbox = Command.save clientId documentId request :: rest)
    (hlane : ledger.lanes documentId = some lane) (hclient : lane.clientId = clientId)
    (hmoved : moved.ticket = request.ticket ∧ SameContent moved request)
    (hoperations : ∀ other, Operation.save other ∈ operations → other = moved ∨
      Operation.save other ∈ lane.operations) :
    Ticketed ({ ledger with mailbox := rest, outcomes }.setLane documentId
      (some { lane with operations })) := by
  have hhead : Command.save clientId documentId request ∈ ledger.mailbox := by simp [hmailbox]
  have htail := tail hmailbox
  have hsorted := h.sorted
  rw [hmailbox, pairwise_cons] at hsorted
  constructor
  · exact h.accepted
  · exact fun c d other hin => h.queued c d other (htail.subset hin)
  · intro d found other hfound hin
    rcases Table.update_eq_some.mp hfound with ⟨rfl, rfl⟩ | ⟨-, hold⟩
    · rcases hoperations other hin with rfl | hin
      · refine ⟨⟨clientId, d, request⟩, ?_, hclient.symm, rfl, hmoved.2⟩
        rw [hmoved.1]
        exact h.queued _ _ _ hhead
      · exact h.held _ lane other hlane hin
    · exact h.held d found other hold hin
  · exact hsorted.2
  · intro d found other c d' later hfound hin hlater
    rcases Table.update_eq_some.mp hfound with ⟨rfl, rfl⟩ | ⟨-, hold⟩
    · rcases hoperations other hin with rfl | hin
      · rw [hmoved.1]
        exact hsorted.1 _ hlater _ _ _ _ _ _ rfl rfl
      · exact h.older _ lane other c d' later hlane hin (htail.subset hlater)
    · exact h.older d found other c d' later hold hin (htail.subset hlater)

theorem Ticketed.send {command : Command} (hcommand : ∀ c d request, command ≠ .save c d request) :
    Ticketed (ledger.send [command]) := by
  have old {c d : Nat} {request : SaveRequest}
      (hin : Command.save c d request ∈ ledger.mailbox ++ [command]) :
      Command.save c d request ∈ ledger.mailbox := by
    rcases mem_append.mp hin with hin | hin
    · exact hin
    · exact absurd (mem_singleton.mp hin).symm (hcommand c d request)
  constructor
  · exact h.accepted
  · exact fun c d request hin => h.queued c d request (old hin)
  · exact h.held
  · refine pairwise_append.mpr ⟨h.sorted, pairwise_singleton _ _, ?_⟩
    intro x _ y hy c d request c' d' later _ hlater
    exact absurd ((mem_singleton.mp hy).symm.trans hlater) (hcommand c' d' later)
  · exact fun d lane request c d' later hlane hin hlater =>
      h.older d lane request c d' later hlane hin (old hlater)

theorem Ticketed.save (hticket : request.ticket = ledger.accepted.length) :
    Ticketed { ledger.send [.save clientId documentId request] with
      accepted := ledger.accepted ++ [⟨clientId, documentId, request⟩] } := by
  have kept {n : Nat} {save : AcceptedSave} (hfound : ledger.accepted[n]? = some save) :
      (ledger.accepted ++ [⟨clientId, documentId, request⟩])[n]? = some save := by
    rw [List.getElem?_append_left (List.getElem?_eq_some_iff.mp hfound).1, hfound]
  have split {c d : Nat} {other : SaveRequest}
      (hin : Command.save c d other ∈ ledger.mailbox ++ [.save clientId documentId request]) :
      Command.save c d other ∈ ledger.mailbox ∨
        (c = clientId ∧ d = documentId ∧ other = request) := by
    simpa using hin
  constructor
  · intro n save hfound
    have hfound : (ledger.accepted ++ [_])[n]? = some save := hfound
    rw [getElem?_append] at hfound
    split at hfound
    · exact h.accepted n save hfound
    · obtain ⟨hlt, rfl⟩ := List.getElem?_eq_some_iff.mp hfound
      rw [length_singleton] at hlt
      rw [getElem_singleton]
      show request.ticket = n
      omega
  · intro c d other hin
    rcases split hin with hin | ⟨rfl, rfl, rfl⟩
    · exact kept (h.queued c d other hin)
    · show (ledger.accepted ++ [_])[other.ticket]? = _
      simp [hticket]
  · intro d lane other hlane hin
    obtain ⟨save, hfound, hrest⟩ := h.held d lane other hlane hin
    exact ⟨save, kept hfound, hrest⟩
  · refine pairwise_append.mpr ⟨h.sorted, pairwise_singleton _ _, ?_⟩
    rintro x hx y hy c d other c' d' later rfl rfl
    obtain ⟨-, -, rfl⟩ : c' = clientId ∧ d' = documentId ∧ later = request := by simpa using hy
    rw [hticket]
    exact (List.getElem?_eq_some_iff.mp (h.queued c d other hx)).1
  · intro d lane other c d' later hlane hin hlater
    rcases split hlater with hlater | ⟨-, -, rfl⟩
    · exact h.older d lane other c d' later hlane hin hlater
    · rw [hticket]
      exact (h.held d lane other hlane hin).lt

end

theorem replaceable_eq_some (h : replaceable operations request = some pending) :
    operations = operations.dropLast ++ [.save pending] ∧
      pending.generation = request.generation ∧ pending.path = request.path ∧
      pending.annotations.revision ≤ request.annotations.revision := by
  unfold replaceable at h
  split at h
  · rename_i last hlast
    split at h
    · rename_i hmatches
      cases h
      obtain ⟨hne, hlast⟩ := getLast?_eq_some_iff.mp hlast
      refine ⟨?_, hmatches⟩
      rw [hlast, dropLast_concat]
    · simp at h
  · simp at h

theorem sameContent_coalesce (h : replaceable operations request = some pending) :
    SameContent (coalesce pending request) request := by
  obtain ⟨-, hgeneration, hpath, -⟩ := replaceable_eq_some h
  exact ⟨hgeneration, hpath, rfl, rfl⟩

@[simp] theorem close_clientId (lane : Lane) : lane.close.clientId = lane.clientId := by
  unfold Lane.close
  split <;> rfl

@[simp] theorem save_mem_close :
    Operation.save request ∈ lane.close.operations ↔ .save request ∈ lane.operations := by
  unfold Lane.close
  split <;> simp

theorem Ticketed.step (h : Ticketed ledger) (hstep : Step ledger next) : Ticketed next := by
  cases hstep with
  | takeClientId | takeDocumentId | release | drop => exact { h with }
  | attach =>
    exact { h.send (by simp) with }
  | send command neutral => exact h.send (by rintro c d request rfl; exact neutral)
  | shutdown => exact h.send (by simp)
  | save _ _ request _ _ _ hticket => exact h.save hticket
  | takeNeutral command rest hmailbox =>
    exact h.change (tail hmailbox) fun d lane request hlane hin => ⟨lane, hlane, rfl, hin⟩
  | takeAttach clientId documentId rest hmailbox =>
    refine h.change (tail hmailbox) fun d lane request hlane hin => ?_
    rcases Table.update_eq_some.mp hlane with ⟨rfl, rfl⟩ | ⟨-, hold⟩
    · simp at hin
    · exact ⟨lane, hold, rfl, hin⟩
  | takeLoad _ _ _ _ _ _ lane hmailbox hlane =>
    exact h.set (tail hmailbox) hlane rfl (by simp)
  | discardSave _ _ _ _ hmailbox =>
    exact h.change (tail hmailbox) fun d lane request hlane hin => ⟨lane, hlane, rfl, hin⟩
  | coalesceSave _ _ request _ lane pending hmailbox hlane hopen hpending =>
    have hmoved : (coalesce pending request).ticket = request.ticket ∧
        SameContent (coalesce pending request) request := ⟨rfl, sameContent_coalesce hpending⟩
    refine h.takeSave hmailbox hlane hopen.1 hmoved fun other hin => ?_
    rcases mem_append.mp hin with hin | hin
    · exact .inr (dropLast_subset _ hin)
    · exact .inl (by simpa using hin)
  | enqueueSave _ _ request _ lane hmailbox hlane hopen =>
    refine h.takeSave hmailbox hlane hopen.1 ⟨rfl, rfl, rfl, rfl, rfl⟩ fun other hin => ?_
    rcases mem_append.mp hin with hin | hin
    · exact .inr hin
    · exact .inl (by simpa using hin)
  | takeShutdown rest hmailbox =>
    refine h.change (tail hmailbox) fun d lane request hlane hin => ?_
    obtain ⟨old, hold, rfl⟩ := map_eq_some_iff.mp hlane
    exact ⟨old, hold, (close_clientId old).symm, save_mem_close.mp hin⟩
  | close _ lane hlane =>
    exact h.set (List.Sublist.refl _) hlane (close_clientId lane).symm fun request hin =>
      save_mem_close.mp hin
  | processLoad _ lane _ _ _ operations hlane hoperations
  | processSave _ lane _ operations _ hlane hoperations =>
    exact h.set (List.Sublist.refl _) hlane rfl fun request hin =>
      hoperations ▸ mem_cons_of_mem _ hin
  | processDetach documentId lane _ hlane =>
    refine h.change (List.Sublist.refl _) fun d found request hfound hin => ?_
    have hfound : Function.update ledger.lanes documentId none d = some found := hfound
    by_cases hd : d = documentId
    · subst hd
      simp at hfound
    · exact ⟨found, (update_of_ne hd _ _).symm.trans hfound, rfl, hin⟩

end Ticketed

/-- The lane of a document holds the request with ticket `n`. -/
def HeldAt (lanes : Nat → Option Lane) (d n : Nat) : Prop :=
  ∃ lane request, lanes d = some lane ∧ Operation.save request ∈ lane.operations ∧
    request.ticket = n

/-- Every accepted save is queued, held by its lane, or settled; none is discarded. -/
structure Accounted (ledger : Ledger) : Prop where
  located : ∀ n save, ledger.accepted[n]? = some save →
    Command.save save.clientId save.documentId save.request ∈ ledger.mailbox ∨
      HeldAt ledger.lanes save.documentId n ∨ Settled ledger.accepted ledger.outcomes n save
  kept : ∀ n, Outcome.discarded n ∉ ledger.outcomes

section Accounted

variable {ledger : Ledger}

theorem HeldAt.update {d n : Nat} {next : Lane} (h : HeldAt lanes d n)
    (hlane : lanes documentId = some lane)
    (hnext : ∀ request, .save request ∈ lane.operations → request.ticket = n → d = documentId →
      .save request ∈ next.operations) :
    HeldAt (Function.update lanes documentId (some next)) d n := by
  obtain ⟨found, request, hfound, hin, rfl⟩ := h
  by_cases hd : d = documentId
  · subst hd
    cases hlane.symm.trans hfound
    exact ⟨next, request, update_self .., hnext request hin rfl rfl, rfl⟩
  · exact ⟨found, request, (update_of_ne hd _ _).trans hfound, hin, rfl⟩

section

variable (h : Accounted ledger)

include h

theorem Accounted.change (hticketed : Ticketed ledger) {added : List Outcome}
    (hmailbox : ∀ c d request, Command.save c d request ∈ ledger.mailbox →
      Command.save c d request ∈ mailbox ∨ HeldAt lanes d request.ticket)
    (hlanes : ∀ d n, HeldAt ledger.lanes d n → HeldAt lanes d n ∨ ∀ save, ledger.accepted[n]? =
      some save → save.documentId = d → Settled ledger.accepted (ledger.outcomes ++ added) n save)
    (hadded : ∀ n, Outcome.discarded n ∉ added) :
    Accounted { ledger with mailbox, lanes, outcomes := ledger.outcomes ++ added } where
  located n save hfound := by
    rcases h.located n save hfound with hqueued | hheld | hsettled
    · have hticket := hticketed.accepted n save hfound
      rcases hmailbox _ _ _ hqueued with hqueued | hheld
      · exact .inl hqueued
      · exact .inr (.inl (hticket ▸ hheld))
    · rcases hlanes _ n hheld with hheld | hsettled
      · exact .inr (.inl hheld)
      · exact .inr (.inr (hsettled save hfound rfl))
    · exact .inr (.inr (hsettled.mono prefix_rfl (prefix_append _ _)))
  kept n hin := by
    rcases mem_append.mp hin with hin | hin
    · exact h.kept n hin
    · exact hadded n hin

theorem Accounted.move (hticketed : Ticketed ledger)
    (hmailbox : ∀ c d request, Command.save c d request ∈ ledger.mailbox →
      Command.save c d request ∈ mailbox ∨ HeldAt lanes d request.ticket)
    (hlanes : ∀ d n, HeldAt ledger.lanes d n → HeldAt lanes d n) :
    Accounted { ledger with mailbox, lanes } := by
  have hchange : Accounted { ledger with mailbox, lanes, outcomes := ledger.outcomes ++ [] } :=
    h.change hticketed hmailbox (fun d n hheld => .inl (hlanes d n hheld)) (by simp)
  rw [append_nil] at hchange
  exact hchange

theorem Accounted.send {command : Command} : Accounted (ledger.send [command]) where
  located n save hfound := (h.located n save hfound).imp_left (mem_append_left _)
  kept := h.kept

theorem Accounted.save : Accounted { ledger.send [.save clientId documentId request] with
      accepted := ledger.accepted ++ [⟨clientId, documentId, request⟩] } where
  located n save hfound := by
    have hfound : (ledger.accepted ++ [_])[n]? = some save := hfound
    rw [getElem?_append] at hfound
    split at hfound
    · refine (h.located n save hfound).imp (mem_append_left _) (Or.imp_right fun hsettled => ?_)
      exact hsettled.mono (prefix_append _ _) prefix_rfl
    · obtain ⟨hlt, rfl⟩ := List.getElem?_eq_some_iff.mp hfound
      rw [getElem_singleton]
      exact .inl (by simp [Ledger.send])
  kept := h.kept

section

variable (hticketed : Ticketed ledger)

include hticketed

section

variable (hmailbox : ledger.mailbox = Command.save clientId documentId request :: rest)

include hmailbox

theorem Accounted.takeSave {moved : SaveRequest} {added : List Outcome}
    (hlane : ledger.lanes documentId = some lane) (hticket : moved.ticket = request.ticket)
    (hmoved : .save moved ∈ operations)
    (hkept : ∀ old, Operation.save old ∈ lane.operations → .save old ∈ operations ∨ ∀ save,
      ledger.accepted[old.ticket]? = some save → save.documentId = documentId →
      Settled ledger.accepted (ledger.outcomes ++ added) old.ticket save)
    (hadded : ∀ n, Outcome.discarded n ∉ added) :
    Accounted ({ ledger with mailbox := rest, outcomes := ledger.outcomes ++ added }.setLane
      documentId (some { lane with operations })) := by
  refine h.change hticketed (fun c d other hin => ?_) (fun d n hheld => ?_) hadded
  · rw [hmailbox, mem_cons] at hin
    rcases hin with heq | hin
    · obtain ⟨rfl, rfl, rfl⟩ := Command.save.injEq .. ▸ heq
      exact .inr ⟨_, moved, update_self .., hmoved, hticket⟩
    · exact .inl hin
  · obtain ⟨found, old, hfound, hin, rfl⟩ := hheld
    by_cases hd : d = documentId
    · subst hd
      cases hlane.symm.trans hfound
      refine (hkept old hin).imp_left fun hin => ?_
      exact ⟨_, old, update_self .., hin, rfl⟩
    · exact .inl ⟨found, old, (update_of_ne hd _ _).trans hfound, hin, rfl⟩

theorem Accounted.coalesceSave (hlane : ledger.lanes documentId = some lane)
    (hclient : lane.clientId = clientId)
    (hpending : replaceable lane.operations request = some pending) :
    Accounted (({ ledger with mailbox := rest }.record
      (.coalesced pending.ticket request.ticket)).setLane documentId (some { lane with
        operations := lane.operations.dropLast ++ [Operation.save (coalesce pending request)] })) := by
  obtain ⟨hlast, hgeneration, hpath, hrevision⟩ := replaceable_eq_some hpending
  have hqueued : Command.save clientId documentId request ∈ ledger.mailbox := by simp [hmailbox]
  have hheld : Operation.save pending ∈ lane.operations := by
    rw [hlast]
    simp
  have hticket : (coalesce pending request).ticket = request.ticket := rfl
  refine h.takeSave hticketed hmailbox hlane hticket (by simp) (fun old hold => ?_) (by simp)
  rw [hlast] at hold
  rcases mem_append.mp hold with hold | hold
  · exact .inl (mem_append_left _ hold)
  · obtain rfl : old = pending := by simpa using hold
    obtain ⟨found, hfound, hfoundClient, hfoundDocument, hcontent⟩ :=
      hticketed.held _ lane old hlane hheld
    refine .inr fun save hsave hdocument => ?_
    cases hfound.symm.trans hsave
    refine .coalesced request.ticket ⟨clientId, documentId, request⟩ (by simp)
      (hticketed.older _ lane old clientId documentId request hlane hheld hqueued)
      (hticketed.queued _ _ _ hqueued) ?_ hdocument.symm ?_ ?_ ?_
    · exact hclient.symm.trans hfoundClient.symm
    · exact hgeneration.symm.trans hcontent.generation
    · exact hpath.symm.trans hcontent.path
    · rw [← hcontent.annotations]
      exact hrevision

end

theorem Accounted.processSave {outcome : Outcome} (hlane : ledger.lanes documentId = some lane)
    (hoperations : lane.operations = Operation.save request :: operations)
    (houtcome : Answers request outcome) :
    Accounted ((ledger.record outcome).setLane documentId (some { lane with operations })) := by
  have hrequest : Operation.save request ∈ lane.operations := by simp [hoperations]
  refine h.change hticketed (fun c d other hin => .inl hin) (fun d n hheld => ?_) ?_
  · obtain ⟨found, old, hfound, hin, rfl⟩ := hheld
    by_cases hd : d = documentId
    · subst hd
      cases hlane.symm.trans hfound
      rw [hoperations, mem_cons] at hin
      rcases hin with heq | hin
      · obtain rfl := Operation.save.inj heq
        obtain ⟨accepted, haccepted, -, -, hcontent⟩ := hticketed.held _ lane old hlane hrequest
        refine .inr fun save hsave _ => ?_
        cases haccepted.symm.trans hsave
        rcases houtcome with rfl | ⟨expected, rfl⟩
        · exact .stale (by simp)
        · refine .stored expected ?_
          rw [← hcontent.path, ← hcontent.identity, ← hcontent.annotations]
          simp
      · exact .inl ⟨_, old, update_self .., hin, rfl⟩
    · exact .inl ⟨found, old, (update_of_ne hd _ _).trans hfound, hin, rfl⟩
  · intro n hin
    rcases houtcome with rfl | ⟨expected, rfl⟩ <;> simp at hin

end

theorem Accounted.step (hfresh : Fresh ledger) (hshaped : Shaped ledger)
    (hreceptive : Receptive ledger) (hticketed : Ticketed ledger) (hstep : Step ledger next) :
    Accounted next := by
  -- a queued save stays queued when a command of another kind is taken
  have pop {command : Command} {rest : List Command} {lanes : Nat → Option Lane}
      (hmailbox : ledger.mailbox = command :: rest)
      (hcommand : ∀ c d request, command ≠ .save c d request) (c d : Nat) (request : SaveRequest)
      (hin : Command.save c d request ∈ ledger.mailbox) :
      Command.save c d request ∈ rest ∨ HeldAt lanes d request.ticket := by
    rw [hmailbox, mem_cons] at hin
    exact .inl (hin.resolve_left (hcommand c d request).symm)
  cases hstep with
  | takeClientId | takeDocumentId | release | drop => exact { h with }
  | attach => exact { (h.send : Accounted (ledger.send [_])) with }
  | send | shutdown => exact h.send
  | save => exact h.save
  | takeNeutral command rest hmailbox neutral =>
    exact h.move hticketed (pop hmailbox (by rintro c d request rfl; exact neutral))
      fun d n hheld => hheld
  | takeAttach clientId documentId rest hmailbox =>
    refine h.move hticketed (pop hmailbox (by simp)) fun d n hheld => ?_
    obtain ⟨lane, request, hlane, hin⟩ := hheld
    have hnone := (hfresh.attached clientId documentId (by simp [hmailbox])).2
    have hd : d ≠ documentId := by
      rintro rfl
      simp [hlane] at hnone
    exact ⟨lane, request, (update_of_ne hd _ _).trans hlane, hin⟩
  | takeLoad _ _ _ _ _ rest lane hmailbox hlane =>
    exact h.move hticketed (pop hmailbox (by simp)) fun d n hheld =>
      hheld.update hlane fun request hin _ _ => mem_append_left _ hin
  | discardSave clientId documentId request rest hmailbox hclosed =>
    obtain ⟨lane, hlane, hopen⟩ :=
      (hreceptive.save [] clientId documentId request rest hmailbox).2.resolve_left (by simp)
    exact absurd hopen (hclosed lane hlane)
  | coalesceSave _ _ _ _ lane _ hmailbox hlane hopen hpending =>
    exact h.coalesceSave hticketed hmailbox hlane hopen.1 hpending
  | enqueueSave _ documentId request rest lane hmailbox hlane hopen =>
    have htaken : Accounted ({ ledger with
        mailbox := rest, outcomes := ledger.outcomes ++ [] }.setLane documentId (some { lane with
          operations := lane.operations ++ [Operation.save request] })) :=
      h.takeSave hticketed hmailbox hlane rfl (by simp)
        (fun old hold => .inl (mem_append_left _ hold)) (by simp)
    rw [append_nil] at htaken
    exact htaken
  | takeShutdown rest hmailbox =>
    refine h.move hticketed (pop hmailbox (by simp)) fun d n hheld => ?_
    obtain ⟨lane, request, hlane, hin, hticket⟩ := hheld
    exact ⟨lane.close, request, congrArg (Option.map Lane.close) hlane, save_mem_close.mpr hin,
      hticket⟩
  | close _ lane hlane =>
    exact h.move hticketed (fun _ _ _ hin => .inl hin) fun d n hheld =>
      hheld.update hlane fun request hin _ _ => save_mem_close.mpr hin
  | processLoad _ lane _ _ _ operations hlane hoperations =>
    refine h.move hticketed (fun _ _ _ hin => .inl hin) fun d n hheld =>
      hheld.update hlane fun request hin _ _ => ?_
    rw [hoperations, mem_cons] at hin
    exact hin.resolve_left (by simp)
  | processSave _ lane request operations outcome hlane hoperations houtcome =>
    exact h.processSave hticketed hlane hoperations houtcome
  | processDetach documentId lane operations hlane hoperations =>
    refine h.move hticketed (fun _ _ _ hin => .inl hin) fun d n hheld => ?_
    obtain ⟨found, request, hfound, hin, hticket⟩ := hheld
    have hd : d ≠ documentId := by
      rintro rfl
      cases hlane.symm.trans hfound
      rw [hoperations, ((hshaped _ lane hlane).detach hoperations).2] at hin
      simp at hin
    exact ⟨found, request, (update_of_ne hd _ _).trans hfound, hin, hticket⟩

end

end Accounted

/-- All that the accounts rest on. -/
structure Inv (ledger : Ledger) : Prop where
  fresh : Fresh ledger
  shaped : Shaped ledger
  receptive : Receptive ledger
  ticketed : Ticketed ledger
  accounted : Accounted ledger

theorem Inv.step {ledger : Ledger} (h : Inv ledger) (hstep : Step ledger next) : Inv next where
  fresh := h.fresh.step hstep
  shaped := h.shaped.step hstep
  receptive := h.receptive.step h.fresh h.shaped hstep
  ticketed := h.ticketed.step hstep
  accounted := h.accounted.step h.fresh h.shaped h.receptive h.ticketed hstep

theorem Inv.steps {ledger : Ledger} (h : Inv ledger)
    (hsteps : Relation.ReflTransGen Step ledger next) : Inv next := by
  induction hsteps with
  | refl => exact h
  | tail _ hlast ih => exact ih.step hlast

end KeyReader.AnnotationService.Ledger
