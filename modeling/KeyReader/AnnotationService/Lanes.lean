import KeyReader.AnnotationService.Ledger

/-! The lanes of the ledger: identifiers are handed out once, a lane detaches with its last operation,
and a queued save finds its lane open when the actor comes to it. -/

namespace KeyReader.AnnotationService.Ledger

open List Option Function Table

/-- No identifier of a document or a client is used twice. -/
structure Fresh (ledger : Ledger) : Prop where
  clients : ∀ c ∈ ledger.clientIds, c < ledger.nextClientId ∧ ledger.handles c = none
  handles : ∀ c handle, ledger.handles c = some handle → c < ledger.nextClientId
  documents : ∀ d ∈ ledger.documentIds, d < ledger.nextDocumentId ∧ ledger.lanes d = none ∧
    ∀ c, Command.attach c d ∉ ledger.mailbox
  lanes : ∀ d lane, ledger.lanes d = some lane → d < ledger.nextDocumentId
  attached : ∀ c d, Command.attach c d ∈ ledger.mailbox →
    d < ledger.nextDocumentId ∧ ledger.lanes d = none
  once : ledger.mailbox.Pairwise fun x y => ∀ c c' d,
    x = Command.attach c d → y ≠ Command.attach c' d

variable {accepted : List AcceptedSave} {lanes : Nat → Option Lane} {outcomes : List Outcome}
  {command : Command} {clientId documentId d : Nat} {lane : Lane} {next : Ledger}

section Fresh

variable {ledger : Ledger}

section

variable (h : Fresh ledger)

include h

theorem Fresh.change {alive : Bool} {mailbox : List Command}
    (hmailbox : mailbox.Sublist ledger.mailbox)
    (hlanes : ∀ d, ledger.lanes d = none → lanes d = none) :
    Fresh { ledger with alive, mailbox, lanes, accepted, outcomes } where
  clients := h.clients
  handles := h.handles
  documents d hd := by
    obtain ⟨hlt, hlane, hattach⟩ := h.documents d hd
    exact ⟨hlt, hlanes d hlane, fun c hc => hattach c (hmailbox.subset hc)⟩
  lanes d lane hlane := by
    cases hold : ledger.lanes d with
    | none => simp [hlanes d hold] at hlane
    | some old => exact h.lanes d old hold
  attached c d hattach := by
    obtain ⟨hlt, hlane⟩ := h.attached c d (hmailbox.subset hattach)
    exact ⟨hlt, hlanes d hlane⟩
  once := h.once.sublist hmailbox

theorem Fresh.send (hcommand : ∀ c d, command ≠ .attach c d) :
    Fresh { ledger.send [command] with accepted } where
  clients := h.clients
  handles := h.handles
  documents d hd := by
    obtain ⟨hlt, hlane, hattach⟩ := h.documents d hd
    refine ⟨hlt, hlane, fun c hc => ?_⟩
    rcases mem_append.mp hc with hc | hc
    · exact hattach c hc
    · exact hcommand c d (mem_singleton.mp hc).symm
  lanes := h.lanes
  attached c d hattach := by
    rcases mem_append.mp hattach with hc | hc
    · exact h.attached c d hc
    · exact absurd (mem_singleton.mp hc).symm (hcommand c d)
  once := by
    refine pairwise_append.mpr ⟨h.once, pairwise_singleton _ _, ?_⟩
    intro x _ y hy c c' d _
    rw [mem_singleton.mp hy]
    exact hcommand c' d

theorem Fresh.attach (hclient : clientId ∈ ledger.clientIds)
    (hdocument : documentId ∈ ledger.documentIds) (handle : AnnotationServiceClient) :
    Fresh { ledger.send [.attach clientId documentId] with
      clientIds := ledger.clientIds.filter (· ≠ clientId)
      documentIds := ledger.documentIds.filter (· ≠ documentId)
      handles := Function.update ledger.handles clientId (some handle) } where
  clients c hc := by
    obtain ⟨hmem, hne⟩ := mem_filter.mp hc
    obtain ⟨hlt, hnone⟩ := h.clients c hmem
    exact ⟨hlt, (update_of_ne (by simpa using hne) _ _).trans hnone⟩
  handles c other hother := by
    rcases update_eq_some.mp hother with ⟨rfl, -⟩ | ⟨-, hold⟩
    · exact (h.clients c hclient).1
    · exact h.handles c other hold
  documents d hd := by
    obtain ⟨hmem, hne⟩ := mem_filter.mp hd
    obtain ⟨hlt, hlane, hattach⟩ := h.documents d hmem
    refine ⟨hlt, hlane, fun c hc => ?_⟩
    rcases mem_append.mp hc with hc | hc
    · exact hattach c hc
    · simp_all
  lanes := h.lanes
  attached c d hattach := by
    rcases mem_append.mp hattach with hc | hc
    · exact h.attached c d hc
    · obtain ⟨-, rfl⟩ : c = clientId ∧ d = documentId := by simpa using hc
      obtain ⟨hlt, hlane, -⟩ := h.documents d hdocument
      exact ⟨hlt, hlane⟩
  once := by
    refine pairwise_append.mpr ⟨h.once, pairwise_singleton _ _, ?_⟩
    rintro x hx y hy c c' d rfl rfl
    obtain ⟨rfl, rfl⟩ : c' = clientId ∧ d = documentId := by simpa using hy
    exact (h.documents d hdocument).2.2 c hx

theorem Fresh.takeAttach {rest : List Command}
    (hmailbox : ledger.mailbox = .attach clientId documentId :: rest) (lane : Lane) :
    Fresh ({ ledger with mailbox := rest }.setLane documentId (some lane)) := by
  have honce := h.once
  rw [hmailbox, pairwise_cons] at honce
  have hhead : Command.attach clientId documentId ∈ ledger.mailbox := by simp [hmailbox]
  have htail {command : Command} (hc : command ∈ rest) : command ∈ ledger.mailbox := by
    simp [hmailbox, hc]
  constructor
  · exact h.clients
  · exact h.handles
  · intro d hd
    obtain ⟨hlt, hlane, hattach⟩ := h.documents d hd
    have hne : d ≠ documentId := fun heq => hattach clientId (heq ▸ hhead)
    exact ⟨hlt, (update_of_ne hne _ _).trans hlane, fun c hc => hattach c (htail hc)⟩
  · intro d other hother
    rcases update_eq_some.mp hother with ⟨rfl, -⟩ | ⟨-, hold⟩
    · exact (h.attached clientId d hhead).1
    · exact h.lanes d other hold
  · intro c d hattach
    obtain ⟨hlt, hlane⟩ := h.attached c d (htail hattach)
    have hne : d ≠ documentId := fun heq => honce.1 _ hattach clientId c d (heq ▸ rfl) rfl
    exact ⟨hlt, (update_of_ne hne _ _).trans hlane⟩
  · exact honce.2

end

theorem none_of_update {next : Option Lane} (hlane : lanes documentId = some lane)
    (hd : lanes d = none) : Function.update lanes documentId next d = none := by
  have hne : d ≠ documentId := by
    rintro rfl
    simp [hlane] at hd
  rw [update_of_ne hne, hd]

theorem tail {command : Command} {rest : List Command}
    (hmailbox : ledger.mailbox = command :: rest) : rest.Sublist ledger.mailbox := by
  rw [hmailbox]
  exact sublist_cons_self _ _

theorem Fresh.step (h : Fresh ledger) (hstep : Step ledger next) : Fresh next := by
  cases hstep with
  | takeClientId =>
    refine { h with clients := fun c hc => ?_, handles := fun c handle hhandle => ?_ }
    · rcases mem_cons.mp hc with rfl | hc
      · refine ⟨Nat.lt_succ_self _, ?_⟩
        cases hhandle : ledger.handles ledger.nextClientId with
        | none => rfl
        | some handle => exact absurd (h.handles _ handle hhandle) (Nat.lt_irrefl _)
      · exact ⟨Nat.lt_succ_of_lt (h.clients c hc).1, (h.clients c hc).2⟩
    · exact Nat.lt_succ_of_lt (h.handles c handle hhandle)
  | takeDocumentId =>
    refine { h with
      documents := fun d hd => ?_
      lanes := fun d lane hlane => Nat.lt_succ_of_lt (h.lanes d lane hlane)
      attached := fun c d hattach =>
        ⟨Nat.lt_succ_of_lt (h.attached c d hattach).1, (h.attached c d hattach).2⟩ }
    rcases mem_cons.mp hd with rfl | hd
    · refine ⟨Nat.lt_succ_self _, ?_, fun c hattach =>
        absurd (h.attached c _ hattach).1 (Nat.lt_irrefl _)⟩
      cases hlane : ledger.lanes ledger.nextDocumentId with
      | none => rfl
      | some lane => exact absurd (h.lanes _ lane hlane) (Nat.lt_irrefl _)
    · obtain ⟨hlt, hrest⟩ := h.documents d hd
      exact ⟨Nat.lt_succ_of_lt hlt, hrest⟩
  | attach clientId documentId hclient hdocument => exact h.attach hclient hdocument _
  | send command neutral => exact h.send (by rintro c d rfl; exact neutral)
  | release => exact h.change (List.Sublist.refl _) fun _ hd => hd
  | shutdown | save => exact h.send (by simp)
  | drop clientId handle next hhandle =>
    refine { h with clients := fun c hc => ?_, handles := fun c other hother => ?_ }
    · obtain ⟨hlt, hnone⟩ := h.clients c hc
      have hne : c ≠ clientId := by
        rintro rfl
        simp [hhandle] at hnone
      exact ⟨hlt, (update_of_ne hne _ _).trans hnone⟩
    · rcases update_eq_some.mp hother with ⟨rfl, -⟩ | ⟨-, hold⟩
      · exact h.handles c handle hhandle
      · exact h.handles c other hold
  | takeNeutral command rest hmailbox => exact h.change (tail hmailbox) fun _ hd => hd
  | takeAttach clientId documentId rest hmailbox => exact h.takeAttach hmailbox _
  | takeLoad _ _ _ _ _ rest lane hmailbox hlane =>
    exact h.change (tail hmailbox) fun _ hd => none_of_update hlane hd
  | discardSave _ _ _ rest hmailbox => exact h.change (tail hmailbox) fun _ hd => hd
  | coalesceSave _ _ _ rest lane _ hmailbox hlane | enqueueSave _ _ _ rest lane hmailbox hlane =>
    exact h.change (tail hmailbox) fun _ hd => none_of_update hlane hd
  | takeShutdown rest hmailbox =>
    exact h.change (tail hmailbox) fun _ hd => congrArg (Option.map Lane.close) hd
  | close _ lane hlane | processLoad _ lane _ _ _ _ hlane | processSave _ lane _ _ _ hlane
  | processDetach _ lane _ hlane =>
    exact h.change (List.Sublist.refl _) fun _ hd => none_of_update hlane hd

end Fresh

def Ends (lane : Lane) : Prop :=
  ∃ operations, Operation.detach ∉ operations ∧
    lane.operations = operations ++ if lane.closing then [.detach] else []

section

variable (h : Ends lane)

include h

theorem Ends.push {operation : Operation} (hopen : lane.closing = false)
    (hne : operation ≠ .detach) :
    Ends { lane with operations := lane.operations ++ [operation] } := by
  obtain ⟨operations, hmem, heq⟩ := h
  refine ⟨operations ++ [operation], ?_, ?_⟩
  · simp [hmem, hne.symm]
  · simp [heq, hopen]

theorem Ends.close : Ends lane.close := by
  unfold Lane.close
  cases hclosing : lane.closing with
  | true => simpa using h
  | false =>
    obtain ⟨operations, hmem, heq⟩ := h
    exact ⟨operations, hmem, by simp [heq, hclosing]⟩

theorem Ends.tail {operation : Operation} {operations : List Operation}
    (heq : lane.operations = operation :: operations) (hne : operation ≠ .detach) :
    Ends { lane with operations } := by
  obtain ⟨before, hmem, hbefore⟩ := h
  cases before with
  | nil =>
    rw [hbefore, nil_append] at heq
    cases hclosing : lane.closing with
    | false => simp [hclosing] at heq
    | true =>
      simp only [hclosing, if_true, List.cons.injEq] at heq
      exact absurd heq.1.symm hne
  | cons first before =>
    rw [hbefore, cons_append, List.cons.injEq] at heq
    exact ⟨before, fun hin => hmem (mem_cons_of_mem _ hin), heq.2.symm⟩

theorem Ends.detach {operations : List Operation}
    (heq : lane.operations = .detach :: operations) : lane.closing = true ∧ operations = [] := by
  obtain ⟨before, hmem, hbefore⟩ := h
  cases before with
  | nil => cases hclosing : lane.closing <;> simp_all
  | cons first before =>
    rw [hbefore, cons_append, List.cons.injEq] at heq
    exact absurd (heq.1 ▸ mem_cons_self) hmem

theorem Ends.replaceLast {request : SaveRequest} (hopen : lane.closing = false) :
    Ends { lane with operations := lane.operations.dropLast ++ [.save request] } := by
  obtain ⟨operations, hmem, heq⟩ := h
  refine ⟨operations.dropLast ++ [.save request], ?_, by simp [heq, hopen]⟩
  simp only [mem_append, mem_singleton, reduceCtorEq, or_false]
  exact fun hin => hmem (dropLast_subset _ hin)

end

def Shaped (ledger : Ledger) : Prop := ∀ d lane, ledger.lanes d = some lane → Ends lane

section Shaped

variable {ledger : Ledger}

theorem Shaped.set (h : Shaped ledger) (hlane : Ends lane) {found : Lane}
    (hfound : Function.update ledger.lanes documentId (some lane) d = some found) : Ends found := by
  rcases update_eq_some.mp hfound with ⟨-, rfl⟩ | ⟨-, hold⟩
  · exact hlane
  · exact h d found hold

theorem Shaped.step (h : Shaped ledger) (hstep : Step ledger next) : Shaped next := by
  cases hstep with
  | takeClientId | takeDocumentId | attach | send | release | shutdown | save | drop
  | takeNeutral | discardSave => exact h
  | takeAttach => exact fun d found hfound => h.set ⟨[], by simp, rfl⟩ hfound
  | takeLoad _ _ _ _ _ _ lane _ hlane hopen =>
    exact fun d found hfound => h.set ((h _ lane hlane).push hopen.2 (by simp)) hfound
  | coalesceSave _ _ _ _ lane _ _ hlane hopen =>
    exact fun d found hfound => h.set ((h _ lane hlane).replaceLast hopen.2) hfound
  | enqueueSave _ _ _ _ lane _ hlane hopen =>
    exact fun d found hfound => h.set ((h _ lane hlane).push hopen.2 (by simp)) hfound
  | takeShutdown =>
    intro d found hfound
    obtain ⟨lane, hlane, rfl⟩ := map_eq_some_iff.mp hfound
    exact (h d lane hlane).close
  | close _ lane hlane => exact fun d found hfound => h.set (h _ lane hlane).close hfound
  | processLoad _ lane _ _ _ _ hlane hoperations | processSave _ lane _ _ _ hlane hoperations =>
    exact fun d found hfound => h.set ((h _ lane hlane).tail hoperations (by simp)) hfound
  | processDetach documentId lane _ hlane =>
    intro d found hfound
    have hfound : Function.update ledger.lanes documentId none d = some found := hfound
    by_cases hd : d = documentId
    · subst hd
      simp at hfound
    · rw [update_of_ne hd] at hfound
      exact h d found hfound

end Shaped

/-- The document has a lane that takes commands of the client. -/
def OpenAt (lanes : Nat → Option Lane) (c d : Nat) : Prop :=
  ∃ lane, lanes d = some lane ∧ lane.OpenFor c

theorem OpenAt.update {c : Nat} {next : Lane} (h : OpenAt lanes c d)
    (hlane : lanes documentId = some lane) (hnext : lane.OpenFor c → next.OpenFor c) :
    OpenAt (Function.update lanes documentId (some next)) c d := by
  obtain ⟨found, hfound, hopen⟩ := h
  by_cases hd : d = documentId
  · subst hd
    cases hlane.symm.trans hfound
    exact ⟨next, update_self .., hnext hopen⟩
  · exact ⟨found, (update_of_ne hd _ _).trans hfound, hopen⟩

/-- A queued save finds its lane open when the actor comes to it, and so does a save that a client
may still send. -/
structure Receptive (ledger : Ledger) : Prop where
  detached : ∀ c handle, ledger.handles c = some handle → handle.closed = true →
    handle.detached = true
  running : ledger.alive = true → Command.shutdown ∉ ledger.mailbox
  client : ∀ c handle, ledger.alive = true → ledger.handles c = some handle →
    handle.detached = false → Command.attach c handle.documentId ∈ ledger.mailbox ∨
      OpenAt ledger.lanes c handle.documentId
  save : ∀ before c d request after, ledger.mailbox = before ++ Command.save c d request :: after →
      Command.shutdown ∉ before ∧ (Command.attach c d ∈ before ∨ OpenAt ledger.lanes c d)

section Receptive

variable {ledger : Ledger}

theorem Receptive.setLanes (h : Receptive ledger)
    (hlanes : ∀ c d, OpenAt ledger.lanes c d → OpenAt lanes c d) :
    Receptive { ledger with lanes, outcomes } where
  detached := h.detached
  running := h.running
  client c handle halive hhandle hdetached :=
    (h.client c handle halive hhandle hdetached).imp_right (hlanes c _)
  save before c d request after hmailbox :=
    (h.save before c d request after hmailbox).imp_right (Or.imp_right (hlanes c d))

theorem Receptive.take (h : Receptive ledger) {rest : List Command}
    (hmailbox : ledger.mailbox = command :: rest)
    (hlanes : ∀ c d, command = .attach c d ∨ OpenAt ledger.lanes c d → OpenAt lanes c d) :
    Receptive { ledger with mailbox := rest, lanes, outcomes } where
  detached := h.detached
  running halive hrest := h.running halive (hmailbox ▸ mem_cons_of_mem _ hrest)
  client c handle halive hhandle hdetached := by
    rcases h.client c handle halive hhandle hdetached with hattach | hopen
    · rw [hmailbox, mem_cons] at hattach
      rcases hattach with heq | hrest
      · exact .inr (hlanes c _ (.inl heq.symm))
      · exact .inl hrest
    · exact .inr (hlanes c _ (.inr hopen))
  save before c d request after hrest := by
    have hrest : rest = before ++ Command.save c d request :: after := hrest
    obtain ⟨hshutdown, hopen⟩ := h.save (command :: before) c d request after
      (by rw [hmailbox, hrest, cons_append])
    refine ⟨fun hin => hshutdown (mem_cons_of_mem _ hin), ?_⟩
    rcases hopen with hattach | hopen
    · rcases mem_cons.mp hattach with heq | hrest
      · exact .inr (hlanes c d (.inl heq.symm))
      · exact .inl hrest
    · exact .inr (hlanes c d (.inr hopen))

theorem split_concat {commands before after : List Command} {last : Command}
    (h : commands ++ [last] = before ++ command :: after) :
    (last = command ∧ before = commands ∧ after = []) ∨
      ∃ rest, commands = before ++ command :: rest := by
  rcases eq_nil_or_concat after with rfl | ⟨rest, final, rfl⟩
  · obtain ⟨rfl, heq⟩ := append_inj' h rfl
    exact .inl ⟨by simpa using heq, rfl, rfl⟩
  · rw [concat_eq_append, ← cons_append, ← append_assoc] at h
    exact .inr ⟨rest, (append_inj' h rfl).1⟩

section

variable (h : Receptive ledger)

include h

theorem Receptive.send (hshutdown : command = .shutdown → ledger.alive = false)
    (hsave : ∀ c d request, command = .save c d request → Command.shutdown ∉ ledger.mailbox ∧
      (Command.attach c d ∈ ledger.mailbox ∨ OpenAt ledger.lanes c d)) :
    Receptive { ledger.send [command] with accepted } where
  detached := h.detached
  running halive hin := by
    rcases mem_append.mp hin with hin | hin
    · exact h.running halive hin
    · have hdead := hshutdown (mem_singleton.mp hin).symm
      have halive : ledger.alive = true := halive
      simp [hdead] at halive
  client c handle halive hhandle hdetached :=
    (h.client c handle halive hhandle hdetached).imp_left (mem_append_left _)
  save before c d request after hmailbox := by
    rcases split_concat hmailbox with ⟨rfl, rfl, -⟩ | ⟨rest, hrest⟩
    · exact hsave c d request rfl
    · exact h.save before c d request rest hrest

theorem Receptive.attach {clientIds documentIds : List Nat} :
    Receptive { ledger.send [.attach clientId documentId] with
      clientIds
      documentIds
      handles := Function.update ledger.handles clientId (some ⟨documentId, false, false⟩) } := by
  have hsent : Receptive { ledger.send [.attach clientId documentId] with
      accepted := ledger.accepted } := h.send (by simp) (by simp)
  refine { hsent with detached := fun c handle hhandle hclosed => ?_,
                      client := fun c handle halive hhandle hdetached => ?_ }
  · rcases update_eq_some.mp hhandle with ⟨-, rfl⟩ | ⟨-, hold⟩
    · simp [AnnotationServiceClient.closed] at hclosed
    · exact h.detached c handle hold hclosed
  · rcases update_eq_some.mp hhandle with ⟨rfl, rfl⟩ | ⟨-, hold⟩
    · exact .inl (by simp [Ledger.send])
    · exact hsent.client c handle halive hold hdetached

theorem Receptive.close (hlane : ledger.lanes documentId = some lane)
    (hlease : ledger.leaseClosed lane.clientId)
    (hsave : NoSave ledger.mailbox lane.clientId documentId) :
    Receptive (ledger.setLane documentId (some lane.close)) := by
  have other {c d : Nat} (hopen : OpenAt ledger.lanes c d) :
      OpenAt (Function.update ledger.lanes documentId (some lane.close)) c d ∨
        (c = lane.clientId ∧ d = documentId) := by
    obtain ⟨found, hfound, hmatches, hopen⟩ := hopen
    by_cases hd : d = documentId
    · subst hd
      cases hlane.symm.trans hfound
      exact .inr ⟨hmatches.symm, rfl⟩
    · exact .inl ⟨found, (update_of_ne hd _ _).trans hfound, hmatches, hopen⟩
  constructor
  · exact h.detached
  · exact h.running
  · intro c handle halive hhandle hdetached
    refine (h.client c handle halive hhandle hdetached).imp_right fun hopen => ?_
    rcases other hopen with hopen | ⟨rfl, -⟩
    · exact hopen
    · have := h.detached _ handle hhandle (hlease handle hhandle)
      simp [this] at hdetached
  · intro before c d request after hmailbox
    have hqueue : ledger.mailbox = before ++ Command.save c d request :: after := hmailbox
    refine (h.save before c d request after hqueue).imp_right (Or.imp_right fun hopen => ?_)
    rcases other hopen with hopen | ⟨rfl, rfl⟩
    · exact hopen
    · have hin : Command.save lane.clientId d request ∈ ledger.mailbox := by
        rw [hqueue]
        simp
      exact absurd hin (hsave request)

theorem Receptive.step (hfresh : Fresh ledger) (hshaped : Shaped ledger)
    (hstep : Step ledger next) : Receptive next := by
  cases hstep with
  | takeClientId | takeDocumentId => exact { h with }
  | attach => exact h.attach
  | send command neutral =>
    exact h.send (by rintro rfl; exact neutral.elim) (by rintro c d request rfl; exact neutral.elim)
  | release =>
    exact { h with
      running := fun halive => Bool.noConfusion halive
      client := fun _ _ halive => Bool.noConfusion halive }
  | shutdown hreleased => exact h.send (fun _ => hreleased) (by simp)
  | save clientId handle request halive hhandle hopen =>
    refine h.send (by simp) fun c d other heq => ?_
    obtain ⟨rfl, rfl, rfl⟩ := Command.save.injEq .. ▸ heq
    exact ⟨h.running halive, h.client _ handle halive hhandle hopen⟩
  | drop clientId handle next hhandle hdocument hdetached =>
    refine { h with detached := fun c other hother hclosed => ?_,
                    client := fun c other halive hother hopen => ?_ }
    · rcases update_eq_some.mp hother with ⟨-, rfl⟩ | ⟨-, hold⟩
      · exact hdetached
      · exact h.detached c other hold hclosed
    · rcases update_eq_some.mp hother with ⟨-, rfl⟩ | ⟨-, hold⟩
      · simp [hdetached] at hopen
      · exact h.client c other halive hold hopen
  | takeNeutral command rest hmailbox neutral =>
    refine h.take hmailbox fun c d hopen => ?_
    rcases hopen with rfl | hopen
    · exact neutral.elim
    · exact hopen
  | takeAttach clientId documentId rest hmailbox =>
    refine h.take hmailbox fun c d hopen => ?_
    rcases hopen with heq | ⟨lane, hlane, hopen⟩
    · obtain ⟨rfl, rfl⟩ := Command.attach.injEq .. ▸ heq
      exact ⟨_, update_self .., rfl, rfl⟩
    · have hnone := (hfresh.attached clientId documentId (by simp [hmailbox])).2
      have hd : d ≠ documentId := by
        rintro rfl
        simp [hlane] at hnone
      exact ⟨lane, (update_of_ne hd _ _).trans hlane, hopen⟩
  | takeLoad _ _ _ _ _ _ lane hmailbox hlane =>
    exact h.take hmailbox fun c d hopen =>
      (hopen.resolve_left (by simp)).update hlane id
  | discardSave _ _ _ _ hmailbox =>
    exact h.take hmailbox fun c d hopen => hopen.resolve_left (by simp)
  | coalesceSave _ _ _ _ lane _ hmailbox hlane | enqueueSave _ _ _ _ lane hmailbox hlane =>
    exact h.take hmailbox fun c d hopen =>
      (hopen.resolve_left (by simp)).update hlane id
  | takeShutdown rest hmailbox =>
    have hshutdown : Command.shutdown ∈ ledger.mailbox := by simp [hmailbox]
    constructor
    · exact h.detached
    · exact fun halive => absurd hshutdown (h.running halive)
    · exact fun _ _ halive => absurd hshutdown (h.running halive)
    · intro before c d request after hrest
      have hrest : rest = before ++ Command.save c d request :: after := hrest
      have hsave := h.save (.shutdown :: before) c d request after
        (by rw [hmailbox, hrest, cons_append])
      exact absurd mem_cons_self hsave.1
  | close _ lane hlane hlease hsave => exact h.close hlane hlease hsave
  | processLoad _ lane _ _ _ _ hlane | processSave _ lane _ _ _ hlane =>
    exact h.setLanes fun c d hopen => hopen.update hlane id
  | processDetach documentId lane _ hlane hoperations =>
    refine h.setLanes fun c d hopen => ?_
    obtain ⟨found, hfound, hmatches, hopen⟩ := hopen
    have hd : d ≠ documentId := by
      rintro rfl
      cases hlane.symm.trans hfound
      simp [((hshaped _ lane hlane).detach hoperations).1] at hopen
    exact ⟨found, (update_of_ne hd _ _).trans hfound, hmatches, hopen⟩

end

end Receptive

end KeyReader.AnnotationService.Ledger
