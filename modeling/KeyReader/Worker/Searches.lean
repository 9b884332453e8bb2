import KeyReader.Worker.Steps

/-! The revisions of the searches: in serial-number order the recorded revision only moves on, and the
active search is the one that it was recorded for. -/

namespace KeyReader.Worker

open Option List

variable {P L Q A B R X : Type}

/-- How far a revision lies ahead of the one before `base`. -/
def position (base revision : Revision) : Nat := (revision - (base - 1)).toNat

/-- The revision lies in the half of the circle that begins with `base`. -/
def InHalf (base revision : Revision) : Prop := (revision - base).toNat < 2 ^ 63

variable {base revision : Revision}

theorem position_of_inHalf (h : InHalf base revision) :
    1 ≤ position base revision ∧ position base revision ≤ 2 ^ 63 := by
  unfold InHalf at h
  unfold position
  bv_omega

theorem position_sub_one (h : InHalf base revision) :
    position base (revision - 1) + 1 = position base revision := by
  unfold InHalf at h
  unfold position
  bv_omega

theorem position_inj {a b : Revision} (h : position base a = position base b) : a = b := by
  unfold position at h
  bv_omega

variable {candidate current : Revision}

theorem revisionIsNewer_iff : revisionIsNewer candidate current = true ↔
      0 < (candidate - current).toNat ∧ (candidate - current).toNat < 2 ^ 63 := by
  unfold revisionIsNewer
  simp only [Bool.and_eq_true, decide_eq_true_eq, ne_eq]
  bv_omega

theorem position_lt_of_newer (hcandidate : position base candidate ≤ 2 ^ 63)
    (hcurrent : position base current ≤ 2 ^ 63) (h : revisionIsNewer candidate current = true) :
    position base current < position base candidate := by
  rw [revisionIsNewer_iff] at h
  unfold position at *
  bv_omega

theorem newer_of_position_lt (hcandidate : position base candidate < 2 ^ 63)
    (h : position base current < position base candidate) :
    revisionIsNewer candidate current = true := by
  rw [revisionIsNewer_iff]
  unfold position at *
  bv_omega

theorem not_newer_of_position_le (hcandidate : position base candidate ≤ 2 ^ 63)
    (hcurrent : position base current ≤ 2 ^ 63)
    (h : position base candidate ≤ position base current) :
    revisionIsNewer candidate current = false := by
  rw [← Bool.not_eq_true]
  intro hnewer
  have := position_lt_of_newer hcandidate hcurrent hnewer
  omega

/-- No search begins, and none is recorded: the active search goes on or ends. -/
structure Continues (state next : WorkerState P L Q A) : Prop where
  generation : next.generation = state.generation
  latest : next.latestSearchRevision = state.latestSearchRevision
  search : ∀ job, next.search = some job →
    ∃ before, state.search = some before ∧ before.revision = job.revision

namespace Continues

variable {state next third : WorkerState P L Q A}

theorem trans (h : Continues state next) (h' : Continues next third) : Continues state third where
  generation := h'.generation.trans h.generation
  latest := h'.latest.trans h.latest
  search job hjob := by
    obtain ⟨between, hbetween, heq⟩ := h'.search job hjob
    obtain ⟨before, hbefore, heq'⟩ := h.search between hbetween
    exact ⟨before, hbefore, heq'.trans heq⟩

theorem of_same (hgeneration : next.generation = state.generation)
    (hlatest : next.latestSearchRevision = state.latestSearchRevision)
    (hsearch : next.search = state.search) : Continues state next :=
  ⟨hgeneration, hlatest, fun job hjob => ⟨job, hsearch ▸ hjob, rfl⟩⟩

theorem refl (state : WorkerState P L Q A) : Continues state state := of_same rfl rfl rfl

theorem of_job {job job' : SearchJob Q} (hsearch : state.search = some job)
    (hgeneration : next.generation = state.generation)
    (hlatest : next.latestSearchRevision = state.latestSearchRevision)
    (hnext : next.search = some job') (hrevision : job.revision = job'.revision) :
    Continues state next :=
  ⟨hgeneration, hlatest, fun found hfound => ⟨job, hsearch, by
    rw [hnext] at hfound
    rw [hrevision, some.inj hfound]⟩⟩

theorem of_ended (hgeneration : next.generation = state.generation)
    (hlatest : next.latestSearchRevision = state.latestSearchRevision)
    (hnext : next.search = none) : Continues state next :=
  ⟨hgeneration, hlatest, fun job hjob => by rw [hnext] at hjob; cases hjob⟩

end Continues

theorem continues_cacheCompletedText (state : WorkerState P L Q A) (page : Nat) (text : L) :
    Continues state (state.cacheCompletedText page text).2 := by
  unfold WorkerState.cacheCompletedText
  split
  · exact .refl state
  · exact .of_same rfl rfl rfl

variable (reading : Reading L Q B A R)

section

variable (state : WorkerState P L Q A)

theorem continues_processSearchPage (page : Nat) (text : L) :
    Continues state (processSearchPage reading state page text).1 := by
  unfold processSearchPage
  split
  · exact .refl state
  rename_i active hactive
  split
  · exact .refl state
  split
  · exact .refl state
  dsimp only
  split
  · exact .of_ended rfl rfl rfl
  · exact .of_job hactive rfl rfl rfl rfl

theorem continues_ingestScientificPage (page : Nat) (text : L) :
    Continues state (ingestScientificPage reading state page text) := by
  unfold ingestScientificPage
  split
  · exact .refl state
  split
  · exact .of_same rfl rfl rfl
  · exact .refl state

theorem continues_handleTextReady (pending : PendingText) (text : L) :
    Continues state (handleTextReady reading state pending text).1 := by
  unfold handleTextReady
  split
  · exact .refl state
  · exact .refl state
  · split
    · exact .refl state
    rename_i search hsearch
    split
    · exact .refl state
    · refine Continues.trans ?_ (continues_processSearchPage reading _ _ _)
      exact .of_job hsearch rfl rfl rfl rfl
  · split
    · exact .refl state
    split
    · exact .refl state
    · dsimp only
      refine Continues.trans ?_ (continues_ingestScientificPage reading _ _ _)
      exact .of_same rfl rfl rfl

theorem continues_handleTextFailure (pending : PendingText)
    (message : String) : Continues state (handleTextFailure reading state pending message).1 := by
  have hcached := continues_cacheCompletedText state pending.page reading.empty
  unfold handleTextFailure
  dsimp only
  refine hcached.trans ?_
  split
  · exact .refl _
  · exact .refl _
  · split
    · exact .refl _
    rename_i search hsearch
    split
    · exact .refl _
    · exact .of_job hsearch rfl rfl rfl rfl
  · refine Continues.trans ?_ (continues_ingestScientificPage reading _ _ _)
    exact .of_same rfl rfl rfl

theorem continues_textBatch_add (generation : Nat) (kind : PendingTextKind) (route : TextRoute)
    (batch : TextBatch P L Q A B R) (page : Nat) :
    Continues batch.state (batch.add reading generation kind route page).state := by
  unfold TextBatch.add
  split
  · exact .refl _
  split
  · exact .of_same rfl rfl rfl
  · exact continues_handleTextFailure reading _ _ _

theorem continues_scheduleTextPages (generation : Nat) (pages : List Nat) (kind : PendingTextKind)
    (route : TextRoute) (connected : Bool) :
    Continues state (scheduleTextPages reading state generation pages kind route connected).state := by
  unfold scheduleTextPages
  dsimp only
  split
  · exact .of_same rfl rfl rfl
  refine foldlRecOn pages _ (motive := fun batch : TextBatch P L Q A B R =>
    Continues state batch.state) (.of_same rfl rfl rfl) fun batch h page _ => ?_
  exact h.trans (continues_textBatch_add reading generation kind route batch page)

theorem continues_scheduleVisibleText (connected : Bool) :
    Continues state (scheduleVisibleText reading state connected).state := by
  unfold scheduleVisibleText
  split
  · exact .refl state
  dsimp only
  split
  · exact .of_same rfl rfl rfl
  · refine Continues.trans ?_ (continues_scheduleTextPages reading _ _ _ _ _ _)
    exact .of_same rfl rfl rfl

theorem continues_driveSearch (connected : Bool) :
    Continues state (driveSearch reading state connected).1.state := by
  unfold driveSearch
  split
  · exact .refl state
  rename_i search hsearch
  split
  · exact .refl state
  split
  · exact .of_ended rfl rfl rfl
  split
  · exact .of_ended rfl rfl rfl
  split
  · exact continues_processSearchPage reading _ _ _
  split
  · exact .refl state
  split
  · exact continues_handleTextFailure reading _ _ _
  · exact .of_job hsearch rfl rfl rfl rfl

theorem continues_driveScientific (connected : Bool) :
    Continues state (driveScientific reading state connected).state := by
  unfold driveScientific
  split
  · exact .refl state
  split
  · exact .refl state
  split
  · exact .of_same rfl rfl rfl
  split
  · exact continues_ingestScientificPage reading _ _ _
  split
  · exact .refl state
  split
  · exact continues_ingestScientificPage reading _ _ _
  · exact .of_same rfl rfl rfl

theorem continues_driveOneBackgroundStep (connected connectedAfter : Bool) :
    Continues state (driveOneBackgroundStep reading state connected connectedAfter).state := by
  unfold driveOneBackgroundStep
  split
  · exact .refl state
  dsimp only
  have hsearch := continues_driveSearch reading state connected
  split
  · exact hsearch
  · exact hsearch.trans (continues_driveScientific reading _ _)

theorem continues_acceptRenderEvent [ToString X] (event : Runtime.RenderEvent X) :
    Continues state (acceptRenderEvent (B := B) (R := R) state event).1 := by
  cases event with
  | ready demand tile | failed stamp error =>
    unfold acceptRenderEvent
    dsimp only
    split
    · exact .refl state
    · exact .of_same rfl rfl rfl
  | cancelled stamp | discarded stamp => exact .of_same rfl rfl rfl

theorem continues_acceptPreviewEvent [ToString X] (event : Runtime.PreviewEvent X) :
    Continues state (acceptPreviewEvent (B := B) (R := R) state event).1 := by
  cases event with
  | ready demand tile | failed stamp error =>
    unfold acceptPreviewEvent
    dsimp only
    split
    · exact .refl state
    · exact .of_same rfl rfl rfl
  | cancelled stamp | discarded stamp => exact .of_same rfl rfl rfl

theorem continues_acceptTextEvent [ToString X]
    (event : Runtime.TextEvent L X) : Continues state (acceptTextEvent reading state event).1 := by
  cases event with
  | ready demand text =>
    unfold acceptTextEvent
    dsimp only
    split
    · exact .refl state
    · refine Continues.trans (Continues.trans ?_ (continues_cacheCompletedText _ _ _))
        (continues_handleTextReady reading _ _ _)
      exact .of_same rfl rfl rfl
  | failed stamp error =>
    unfold acceptTextEvent
    dsimp only
    split
    · exact .refl state
    · refine Continues.trans ?_ (continues_handleTextFailure reading _ _ _)
      exact .of_same rfl rfl rfl
  | cancelled stamp | discarded stamp => exact .of_same rfl rfl rfl

theorem continues_acceptSupervisorEvent [ToString X] (event : Runtime.SupervisorEvent L X) :
    Continues state (acceptSupervisorEvent reading state event).1 := by
  cases event with
  | opened document session resource descriptor =>
    show Continues state (acceptOpened reading state session descriptor).1
    unfold acceptOpened
    split
    · dsimp only
      split <;> exact .of_same rfl rfl rfl
    · exact .refl state
  | rendered document event => exact continues_acceptRenderEvent state event
  | previewRendered document event => exact continues_acceptPreviewEvent state event
  | textExtracted document event => exact continues_acceptTextEvent reading state event
  | attached document capabilities | openFailed document generation error
  | openCancelled document generation | closed document generation
  | workRejected document workClass rejected =>
    exact .refl state

theorem continues_pauseBackground : Continues state state.pauseBackground where
  generation := rfl
  latest := rfl
  search job hjob := by
    obtain ⟨before, hbefore, rfl⟩ := map_eq_some_iff.mp hjob
    exact ⟨before, hbefore, rfl⟩

end

/-- What an input that does not open a document does: the searches go on, which a late `CancelSearch`
leaves alone; a newer search begins; or a `CancelSearch` ends the older searches. -/
inductive Moves (state next : WorkerState P L Q A) : Input P L Q X → Prop
  | onward {input : Input P L Q X} (continues : Continues state next)
      (late : ∀ generation nextRevision connected,
        input = .command (.cancelSearch generation nextRevision) connected →
        state.generation = some generation → ∃ current, state.latestSearchRevision = some current ∧
          revisionIsCurrentOrNewer (nextRevision - 1) current = false) : Moves state next input
  | begun {generation revision query cancellation connected}
      (latest : next.latestSearchRevision = some revision)
      (newer : ∀ current, state.latestSearchRevision = some current →
        revisionIsNewer revision current = true)
      (search : ∀ job, next.search = some job → job.revision = revision) :
      Moves state next (.command (.search generation revision query cancellation) connected)
  | ended {generation nextRevision connected}
      (latest : next.latestSearchRevision = some (nextRevision - 1))
      (newer : ∀ current, state.latestSearchRevision = some current →
        revisionIsCurrentOrNewer (nextRevision - 1) current = true)
      (search : ∀ job, next.search = some job → state.search = some job ∧
        revisionIsNewer nextRevision job.revision = false) :
      Moves state next (.command (.cancelSearch generation nextRevision) connected)

/-- The input is no `Open`, and its revision lies in the half of the circle that begins with `base`. -/
def Serially (base : Revision) : Input P L Q X → Prop
  | .command (.opening _ _ _) _ => False
  | .command (.search _ revision _ _) _ => InHalf base revision
  | .command (.cancelSearch _ nextRevision) _ => InHalf base nextRevision
  | _ => True

section

variable (state : WorkerState P L Q A)

theorem moves_acceptSearchDemand (generation : Nat) (revision : Revision) (query : Q)
    (cancellation : Nat) (connected : Bool) :
    Moves (X := X) state
      (acceptSearchDemand (B := B) (R := R) state generation revision query cancellation).state
      (.command (.search generation revision query cancellation) connected) := by
  unfold acceptSearchDemand
  split
  · exact .onward (.refl state) nofun
  split
  · exact .onward (.refl state) nofun
  cases hadvance : advanceSearchRevision state generation revision with
  | none => exact .onward (.refl state) nofun
  | some advanced =>
    unfold advanceSearchRevision at hadvance
    split at hadvance
    · cases hadvance
    rename_i hrefused
    have hnewer : ∀ current, state.latestSearchRevision = some current →
        revisionIsNewer revision current = true := by
      intro current hcurrent
      by_contra hold
      refine hrefused (.inr ?_)
      rw [hcurrent, any_some, Bool.eq_false_iff.mpr hold]
      rfl
    refine .begun ?_ hnewer fun job hjob => ?_
    swap
    · exact (congrArg SearchJob.revision (some.inj hjob)).symm
    dsimp only at hadvance
    split at hadvance <;> exact some.inj hadvance ▸ rfl

theorem moves_cancelSearch (generation : Nat) (nextRevision : Revision) (connected : Bool) :
    Moves (X := X) state
      ((cancelSearchesBefore state generation nextRevision).clearTextKindMatches isSearch)
      (.command (.cancelSearch generation nextRevision) connected) := by
  unfold cancelSearchesBefore
  split
  · rename_i hother
    refine .onward (.of_same rfl rfl rfl) fun generation' nextRevision' connected' heq hgeneration => ?_
    cases heq
    exact absurd hgeneration hother
  dsimp only
  split
  · rename_i hlate
    refine .onward (.of_same rfl rfl rfl) fun generation' nextRevision' connected' heq _ => ?_
    cases heq
    obtain ⟨current, hcurrent, hold⟩ := any_eq_true _ _ |>.mp hlate
    exact ⟨current, hcurrent, by simpa using hold⟩
  rename_i hfloor
  have hnewer : ∀ current, state.latestSearchRevision = some current →
      revisionIsCurrentOrNewer (nextRevision - 1) current = true := by
    intro current hcurrent
    by_contra hold
    refine hfloor ?_
    rw [hcurrent, any_some, Bool.eq_false_iff.mpr hold]
    rfl
  cases hfilter : state.search.filter fun search => revisionIsNewer nextRevision search.revision with
  | some search =>
    refine .ended rfl hnewer fun job hjob => ?_
    cases hjob
  | none =>
    refine .ended rfl hnewer fun job hjob => ⟨hjob, ?_⟩
    rw [filter_eq_none_iff] at hfilter
    exact Bool.eq_false_iff.mpr (hfilter job hjob)

/-- The commands that have nothing to do with searches. -/
theorem continues_acceptCommand (connected : Bool) {command : WorkerCommand P Q}
    (hopening : ∀ generation path cancellation, command ≠ .opening generation path cancellation)
    (hsearch : ∀ generation revision query cancellation, command ≠
      .search generation revision query cancellation)
    (hcancel : ∀ generation nextRevision, command ≠ .cancelSearch generation nextRevision) :
    Continues state (acceptCommand reading state connected command).state := by
  cases command with
  | opening generation path cancellation => exact absurd rfl (hopening _ _ _)
  | search generation revision query cancellation => exact absurd rfl (hsearch _ _ _ _)
  | cancelSearch generation nextRevision => exact absurd rfl (hcancel _ _)
  | setBackgroundEnabled generation enabled =>
    unfold acceptCommand
    dsimp only
    split
    · exact .refl state
    split
    · exact .of_same rfl rfl rfl
    · exact continues_pauseBackground state
  | hibernate generation =>
    unfold acceptCommand
    dsimp only
    split
    · exact .refl state
    · refine (continues_pauseBackground state).trans ?_
      exact .of_same rfl rfl rfl
  | resume generation =>
    unfold acceptCommand
    dsimp only
    split
    · exact .refl state
    split
    · exact .refl state
    · exact .of_same rfl rfl rfl
  | renderViewport generation requests textPages cancellation =>
    unfold acceptCommand
    dsimp only
    split
    · exact .refl state
    · unfold replaceRenderViewport
      split <;> exact .of_same rfl rfl rfl
  | extractText generation page cancellation | ensureTextPages generation pages cancellation =>
    unfold acceptCommand
    dsimp only
    split
    · exact .refl state
    · exact continues_scheduleTextPages reading _ _ _ _ _ _
  | cancelExplicitText generation =>
    unfold acceptCommand
    dsimp only
    split
    · exact .refl state
    · exact .of_same rfl rfl rfl
  | renderPreview generation revision appearance spec cancellation =>
    unfold acceptCommand
    dsimp only
    split
    · exact .refl state
    · unfold replacePreview
      dsimp only
      split
      · exact .of_same rfl rfl rfl
      split <;> exact .of_same rfl rfl rfl

theorem moves_turn [ToString X] {input : Input P L Q X}
    (hinput : Serially base input) : Moves state (turn reading state input).state input := by
  cases input with
  | supervisor event => exact .onward (continues_acceptSupervisorEvent reading state event) nofun
  | visibleTextDue connected =>
    exact .onward (continues_scheduleVisibleText reading state connected) nofun
  | background connected connectedAfter =>
    exact .onward (continues_driveOneBackgroundStep reading state connected connectedAfter) nofun
  | cancel source => exact .onward (.of_same rfl rfl rfl) nofun
  | command command connected =>
    cases command with
    | opening generation path cancellation => exact hinput.elim
    | search generation revision query cancellation =>
      exact moves_acceptSearchDemand state generation revision query cancellation connected
    | cancelSearch generation nextRevision =>
      exact moves_cancelSearch state generation nextRevision connected
    | _ => exact .onward (continues_acceptCommand reading state connected nofun nofun nofun) nofun

end

/-- The recorded revision and the active search, for revisions in the half of the circle that begins
with `base`. -/
structure Serial (base : Revision) (state : WorkerState P L Q A) : Prop where
  latest : ∀ revision, state.latestSearchRevision = some revision → position base revision ≤ 2 ^ 63
  active : ∀ job, state.search = some job →
    state.latestSearchRevision = some job.revision ∧ 1 ≤ position base job.revision

/-- No search older than `nextRevision` is active, or can become active. -/
structure Past (base nextRevision : Revision) (state : WorkerState P L Q A) : Prop where
  latest : ∃ revision, state.latestSearchRevision = some revision ∧
    position base nextRevision ≤ position base revision + 1
  active : ∀ job, state.search = some job → position base nextRevision ≤ position base job.revision

section serial

variable {base nextRevision : Revision} {state next : WorkerState P L Q A} {input : Input P L Q X}

theorem Serial.lt_of_newer (h : Serial base state) (hrevision : InHalf base revision)
    (hcurrent : state.latestSearchRevision = some current)
    (hnewer : revisionIsNewer revision current = true) :
    position base current < position base revision :=
  position_lt_of_newer (position_of_inHalf hrevision).2 (h.latest current hcurrent) hnewer

theorem le_floor (h : Serial base state) (hnext : InHalf base nextRevision)
    (hcurrent : state.latestSearchRevision = some current)
    (hnewer : revisionIsCurrentOrNewer (nextRevision - 1) current = true) :
    position base current ≤ position base (nextRevision - 1) := by
  have hposition := position_sub_one hnext
  have hbound := (position_of_inHalf hnext).2
  unfold revisionIsCurrentOrNewer at hnewer
  rw [Bool.or_eq_true, decide_eq_true_eq] at hnewer
  rcases hnewer with heq | hnewer
  · rw [heq]
  · exact (position_lt_of_newer (by omega) (h.latest current hcurrent) hnewer).le

theorem lt_of_late (hnext : InHalf base nextRevision)
    (hold : revisionIsCurrentOrNewer (nextRevision - 1) current = false) :
    position base nextRevision ≤ position base current := by
  have hposition := position_sub_one hnext
  have hbound := (position_of_inHalf hnext).2
  unfold revisionIsCurrentOrNewer at hold
  rw [Bool.or_eq_false_iff, decide_eq_false_iff_not] at hold
  by_contra hlt
  rcases Nat.lt_or_ge (position base current) (position base (nextRevision - 1)) with hless | hge
  · have := newer_of_position_lt (by omega) hless
    rw [this] at hold
    exact absurd hold.2 nofun
  · have heq : position base (nextRevision - 1) = position base current := by omega
    exact hold.1 (position_inj heq)

theorem Serial.moves (h : Serial base state) (hinput : Serially base input)
    (hmoves : Moves state next input) : Serial base next := by
  cases hmoves with
  | onward continues late =>
    refine ⟨fun revision hrevision => h.latest revision (continues.latest ▸ hrevision), ?_⟩
    intro job hjob
    obtain ⟨before, hbefore, heq⟩ := continues.search job hjob
    rw [continues.latest, ← heq]
    exact h.active before hbefore
  | @begun generation revision query cancellation connected latest newer search =>
    have hinput : InHalf base revision := hinput
    refine ⟨fun found hfound => ?_, fun job hjob => ?_⟩
    · cases latest.symm.trans hfound
      exact (position_of_inHalf hinput).2
    · rw [search job hjob]
      exact ⟨latest, (position_of_inHalf hinput).1⟩
  | @ended generation nextRevision connected latest newer search =>
    have hinput : InHalf base nextRevision := hinput
    have hposition := position_sub_one hinput
    have hbound := (position_of_inHalf hinput).2
    refine ⟨fun found hfound => ?_, fun job hjob => ?_⟩
    · cases latest.symm.trans hfound
      omega
    · obtain ⟨hbefore, hnot⟩ := search job hjob
      obtain ⟨hlatest, hpositive⟩ := h.active job hbefore
      have hle := le_floor h hinput hlatest (newer _ hlatest)
      -- a search that is not newer than the floor is older than the next revision
      have hnewer : revisionIsNewer nextRevision job.revision = true := by
        rw [revisionIsNewer_iff]
        unfold position at *
        bv_omega
      rw [hnewer] at hnot
      cases hnot

theorem Serial.moves_latest (h : Serial base state) (hinput : Serially base input)
    (hmoves : Moves state next input) (hcurrent : state.latestSearchRevision = some current) :
    ∃ later, next.latestSearchRevision = some later ∧
      revisionIsCurrentOrNewer later current = true ∧ position base current ≤ position base later := by
  cases hmoves with
  | onward continues late =>
    refine ⟨current, continues.latest.trans hcurrent, ?_, le_rfl⟩
    unfold revisionIsCurrentOrNewer
    rw [decide_eq_true rfl, Bool.true_or]
  | begun latest newer search =>
    refine ⟨_, latest, ?_, (h.lt_of_newer hinput hcurrent (newer current hcurrent)).le⟩
    unfold revisionIsCurrentOrNewer
    rw [newer current hcurrent, Bool.or_true]
  | ended latest newer search =>
    exact ⟨_, latest, newer current hcurrent, le_floor h hinput hcurrent (newer current hcurrent)⟩

theorem Past.moves (h : Past base nextRevision state) (hserial : Serial base state)
    (hinput : Serially base input) (hmoves : Moves state next input) :
    Past base nextRevision next := by
  obtain ⟨current, hcurrent, hfloor⟩ := h.latest
  obtain ⟨later, hlater, -, hle⟩ := hserial.moves_latest hinput hmoves hcurrent
  refine ⟨⟨later, hlater, by omega⟩, fun job hjob => ?_⟩
  cases hmoves with
  | onward continues late =>
    obtain ⟨before, hbefore, heq⟩ := continues.search job hjob
    exact heq ▸ h.active before hbefore
  | begun latest newer search =>
    rw [search job hjob]
    have := hserial.lt_of_newer hinput hcurrent (newer current hcurrent)
    omega
  | ended latest newer search => exact h.active job (search job hjob).1

/-- After a `CancelSearch` of the current generation. -/
theorem Serial.past (h : Serial base state) {generation : Nat} {connected : Bool}
    (hnext : InHalf base nextRevision) (hgeneration : state.generation = some generation)
    (hmoves : Moves (X := X) state next
      (.command (.cancelSearch generation nextRevision) connected)) :
    Past base nextRevision next := by
  have hposition := position_sub_one hnext
  have hserial := h.moves
    (show Serially base (.command (.cancelSearch generation nextRevision) connected) from hnext) hmoves
  cases hmoves with
  | onward continues late =>
    obtain ⟨current, hcurrent, hold⟩ := late _ _ _ rfl hgeneration
    have hle := lt_of_late hnext hold
    have hlatest := continues.latest.trans hcurrent
    refine ⟨⟨current, hlatest, by omega⟩, fun job hjob => ?_⟩
    cases (hserial.active job hjob).1.symm.trans hlatest
    exact hle
  | ended latest newer search =>
    refine ⟨⟨_, latest, by omega⟩, fun job hjob => ?_⟩
    obtain ⟨hbefore, hnot⟩ := search job hjob
    obtain ⟨hlatest, hpositive⟩ := h.active job hbefore
    have hbound := (position_of_inHalf hnext).2
    by_contra hlt
    have hnewer : revisionIsNewer nextRevision job.revision = true := by
      rw [revisionIsNewer_iff]
      unfold position at *
      bv_omega
    rw [hnewer] at hnot
    cases hnot

end serial

/-- A search goes on: it is active, and if it waits for a page, the text of the page is demanded. -/
def WorkerState.Pursues (state : WorkerState P L Q A) (job : SearchJob Q) : Prop :=
  state.search = some job ∧ (job.waiting = true → ∃ key pending,
    state.pendingText.lookup key = some pending ∧ pending.kind = .search job.revision ∧
      pending.generation = job.generation)

section runs

variable [ToString X] (reading : Reading L Q B A R) {base : Revision}
  {state last : WorkerState P L Q A} {inputs : List (Input P L Q X)}

theorem Serial.step (h : Serial base state) {input : Input P L Q X} {next : WorkerState P L Q A}
    (hinput : Serially base input) (hstep : step reading state input = some next) :
    Serial base next := by
  cases hstep
  exact h.moves hinput (moves_turn reading state hinput)

theorem Serial.run (h : Serial base state) (hinputs : ∀ input ∈ inputs, Serially base input)
    (hrun : Transition.run (Worker.step reading) state inputs = some last) : Serial base last :=
  Transition.run_preserves (P := fun _ input => Serially base input)
    (fun _ _ _ h hinput hstep => h.step reading hinput hstep) h
    (.of_mem (fun input hinput _ => hinputs input hinput) state) hrun

theorem Serial.run_newest (h : Serial base state) (hinputs : ∀ input ∈ inputs, Serially base input)
    (hrun : Transition.run (Worker.step reading) state inputs = some last) {current : Revision}
    (hcurrent : state.latestSearchRevision = some current) :
    ∃ later, last.latestSearchRevision = some later ∧
      position base current ≤ position base later := by
  refine (Transition.run_preserves (P := fun _ input => Serially base input)
    (I := fun state => Serial base state ∧ ∃ later, state.latestSearchRevision = some later ∧
      position base current ≤ position base later) ?_ ⟨h, current, hcurrent, le_rfl⟩
    (.of_mem (fun input hinput _ => hinputs input hinput) state) hrun).2
  rintro state input next ⟨hserial, later, hlater, hle⟩ hinput hstep
  cases hstep
  have hmoves := moves_turn reading state hinput
  obtain ⟨latest, hlatest, -, hle'⟩ := hserial.moves_latest hinput hmoves hlater
  exact ⟨hserial.moves hinput hmoves, latest, hlatest, hle.trans hle'⟩

theorem Past.run {nextRevision : Revision} (h : Past base nextRevision state)
    (hserial : Serial base state) (hinputs : ∀ input ∈ inputs, Serially base input)
    (hrun : Transition.run (Worker.step reading) state inputs = some last) :
    Past base nextRevision last := by
  refine (Transition.run_preserves (P := fun _ input => Serially base input)
    (I := fun state => Serial base state ∧ Past base nextRevision state) ?_ ⟨hserial, h⟩
    (.of_mem (fun input hinput _ => hinputs input hinput) state) hrun).2
  rintro state input next ⟨hserial, hpast⟩ hinput hstep
  cases hstep
  have hmoves := moves_turn reading state hinput
  exact ⟨hserial.moves hinput hmoves, hpast.moves hserial hinput hmoves⟩

end runs

section pursued

variable [ToString X] (reading : Reading L Q B A R)

section

variable (state : WorkerState P L Q A) (input : Input P L Q X)

/-- A `CancelSearch` does not stop a search that is not older than its next revision. -/
def KeepsNewer : Prop :=
  ∀ generation nextRevision connected,
    input = .command (.cancelSearch generation nextRevision) connected →
    ∀ job, state.Pursues job → revisionIsNewer nextRevision job.revision = false →
      (turn reading state input).state.Pursues job

/-- No search that is not older than the next revision of a `CancelSearch` waits for a page then. -/
def NoneWaits : Prop :=
  ∀ generation nextRevision connected,
    input = .command (.cancelSearch generation nextRevision) connected →
    ∀ job, state.Pursues job → revisionIsNewer nextRevision job.revision = false →
      job.waiting = false

theorem search_cancelSearchesBefore {state : WorkerState P L Q A} {generation : Nat}
    {nextRevision : Revision} {job : SearchJob Q} (hjob : state.search = some job)
    (hnot : revisionIsNewer nextRevision job.revision = false) :
    (cancelSearchesBefore state generation nextRevision).search = some job := by
  unfold cancelSearchesBefore
  split
  · exact hjob
  dsimp only
  split
  · exact hjob
  have hfilter : (state.search.filter fun search =>
      revisionIsNewer nextRevision search.revision) = none := by
    rw [hjob, filter_some, if_neg (by rw [hnot]; exact Bool.false_ne_true)]
  rw [hfilter]
  exact hjob

theorem not_search_of_cleared {state : WorkerState P L Q A} {key : DemandKey} {pending : PendingText}
    (h : (state.clearTextKindMatches isSearch).pendingText.lookup key = some pending) :
    isSearch pending.kind = false := by
  obtain ⟨-, htakes⟩ := filter_eq_some_iff.mp ((Table.lookup_retainValues _ _ _).symm.trans h)
  simpa using htakes

theorem keepsNewer_iff_noneWaits : KeepsNewer reading state input ↔ NoneWaits state input := by
  constructor
  · rintro h generation nextRevision connected rfl job hpursues hnot
    obtain ⟨-, hdemanded⟩ := h _ _ _ rfl job hpursues hnot
    by_contra hwaiting
    obtain ⟨key, pending, hpending, hkind, -⟩ := hdemanded (by simpa using hwaiting)
    have hsearch := @not_search_of_cleared _ _ _ _ (cancelSearchesBefore state generation nextRevision)
      _ _ hpending
    rw [hkind] at hsearch
    cases hsearch
  · rintro h generation nextRevision connected rfl job hpursues hnot
    have hwaiting := h _ _ _ rfl job hpursues hnot
    refine ⟨search_cancelSearchesBefore hpursues.1 hnot, fun hwaits => ?_⟩
    rw [hwaiting] at hwaits
    cases hwaits

end

/-- The revisions of searches in serial-number order, in any run whose revisions lie within half of the
circle: the active search is the one that was recorded last; the recorded revision never goes back; after
a `CancelSearch` of the current generation no older search is active, at any later time; and a
`CancelSearch` never stops a search that is not older, if and only if it never meets one that waits for
the text of a page. -/
theorem searches_serial {base : Revision} {first : WorkerState P L Q A} {inputs : List (Input P L Q X)}
    (hlatest : first.latestSearchRevision = none) (hsearch : first.search = none)
    (hinputs : ∀ input ∈ inputs, Serially base input) :
    (∀ before after state last, inputs = before ++ after →
      Transition.run (step reading) first before = some state →
      Transition.run (step reading) state after = some last →
        (∀ job, last.search = some job → last.latestSearchRevision = some job.revision) ∧
        (∀ current, state.latestSearchRevision = some current →
          ∃ later, last.latestSearchRevision = some later ∧ revisionIsNewer current later = false ∧
            (after.length = 1 → revisionIsCurrentOrNewer later current = true)) ∧
        ∀ generation nextRevision connected rest,
          after = .command (.cancelSearch generation nextRevision) connected :: rest →
          state.generation = some generation →
          ∀ job, last.search = some job → revisionIsNewer nextRevision job.revision = false) ∧
    (Transition.Along (step reading) (KeepsNewer reading) first inputs ↔
      Transition.Along (step reading) NoneWaits first inputs) := by
  have hfirst : Serial base first := by
    constructor
    · intro revision h
      rw [hlatest] at h
      cases h
    · intro job h
      rw [hsearch] at h
      cases h
  refine ⟨?_, fun h => h.imp fun state input => (keepsNewer_iff_noneWaits reading state input).mp,
    fun h => h.imp fun state input => (keepsNewer_iff_noneWaits reading state input).mpr⟩
  rintro before after state last rfl hbefore hafter
  have hstate := hfirst.run reading (forall_mem_append.mp hinputs).1 hbefore
  have hinputs : ∀ input ∈ after, Serially base input := (forall_mem_append.mp hinputs).2
  have hlast := hstate.run reading hinputs hafter
  refine ⟨fun job hjob => (hlast.active job hjob).1, fun current hcurrent => ?_, ?_⟩
  · obtain ⟨later, hlater, hle⟩ := hstate.run_newest reading hinputs hafter hcurrent
    refine ⟨later, hlater, not_newer_of_position_le (hstate.latest current hcurrent)
      (hlast.latest later hlater) hle, fun hlength => ?_⟩
    obtain ⟨input, rfl⟩ := length_eq_one_iff.mp hlength
    obtain ⟨next, hstep, hnext⟩ := Transition.run_cons.mp hafter
    cases hstep
    cases hnext
    have hinput := hinputs input (mem_singleton_self input)
    obtain ⟨found, hfound, hnewer, -⟩ :=
      hstate.moves_latest hinput (moves_turn reading state hinput) hcurrent
    exact some.inj (hfound.symm.trans hlater) ▸ hnewer
  · rintro generation nextRevision connected rest rfl hgeneration job hjob
    obtain ⟨next, hstep, hrest⟩ := Transition.run_cons.mp hafter
    have hinput := hinputs _ mem_cons_self
    have hnext := hstate.step reading hinput hstep
    cases hstep
    have hpast := hstate.past hinput hgeneration (moves_turn reading state hinput)
    have hlater := hpast.run reading hnext (forall_mem_cons.mp hinputs).2 hrest
    exact not_newer_of_position_le (position_of_inHalf hinput).2
      (hlast.latest _ (hlast.active job hjob).1) (hlater.active job hjob)

end pursued

/-- A reading of documents without text. -/
def blank : Reading Unit Unit Unit Unit Unit :=
  ⟨(), fun _ _ _ _ => none, fun _ => (), fun _ => [], fun _ _ _ => (), fun _ => ()⟩

/-- A document of two pages is opened. -/
def openedDocument : WorkerState Unit Unit Unit Unit :=
  (acceptOpened blank (WorkerState.new.resetForOpen 1 ()) ⟨1, 0, 1, 1⟩ ⟨2⟩).1

/-- Searches around the point where the revisions wrap. -/
def wrappingSearches : List (Input Unit Unit Unit String) :=
  [.command (.search 1 (-1) () 1) true, .background true true,
    .command (.cancelSearch 1 0) true, .command (.search 1 0 () 2) true, .background true true,
    .command (.cancelSearch 1 (-1)) true]

theorem searches_serial_wrapping : ∃ last,
    Transition.run (step blank) openedDocument wrappingSearches = some last ∧ last.search.isSome ∧
      ∀ job, last.search = some job → last.latestSearchRevision = some job.revision := by
  obtain ⟨last, hrun⟩ := isSome_iff_exists.mp
    (show (Transition.run (step blank) openedDocument wrappingSearches).isSome by decide +kernel)
  have hactive : (Transition.run (step blank) openedDocument wrappingSearches).all
      (·.search.isSome) := by
    decide +kernel
  rw [hrun, all_some] at hactive
  have hinputs : ∀ input ∈ wrappingSearches, Serially (-5) input := by
    intro input hinput
    simp only [wrappingSearches, mem_cons, not_mem_nil, or_false] at hinput
    rcases hinput with rfl | rfl | rfl | rfl | rfl | rfl <;>
      first | exact trivial | (unfold Serially InHalf; decide)
  exact ⟨last, hrun, hactive, ((searches_serial blank rfl rfl hinputs).1 wrappingSearches [] last
    last (append_nil _).symm hrun rfl).1⟩

/-- A search of revision 5, which waits for the text of the first page. -/
def waitingSearch : WorkerState Unit Unit Unit Unit :=
  let state := (turn (X := String) blank openedDocument (.command (.search 1 5 () 1) true)).state
  (turn (X := String) blank state (.background true true)).state

/-- A `CancelSearch` with the next revision 5 gives up the text that the search of revision 5 waits for;
the search stays, and nothing is demanded for it any more. -/
theorem waitingSearch_stopped : ∃ job, waitingSearch.Pursues job ∧
    revisionIsNewer 5 job.revision = false ∧
    let stopped := turn (X := String) blank waitingSearch (.command (.cancelSearch 1 5) true)
    ¬stopped.state.Pursues job ∧
      (turn (X := String) blank stopped.state (.background true true)).calls.isEmpty ∧
      (turn (X := String) blank stopped.state (.supervisor (.textExtracted 0
        (.ready ⟨⟨1, 1, 32766, .explicit⟩, 0, .search⟩ ⟨⟨1, 1⟩, 0, ()⟩)))).events.isEmpty := by
  obtain ⟨job, hjob⟩ := isSome_iff_exists.mp (show waitingSearch.search.isSome by decide +kernel)
  have hfacts : waitingSearch.search.all fun job =>
      job.revision = 5 && job.generation = 1 && job.waiting := by
    decide +kernel
  rw [hjob, all_some] at hfacts
  simp only [Bool.and_eq_true, decide_eq_true_eq] at hfacts
  obtain ⟨⟨hrevision, hgeneration⟩, hwaiting⟩ := hfacts
  refine ⟨job, ⟨hjob, fun _ => ⟨(1, 1), ⟨1, 0, .search 5⟩, by decide +kernel, by rw [hrevision],
    hgeneration.symm⟩⟩, by rw [hrevision]; decide, fun hpursues => ?_, by decide +kernel,
    by decide +kernel⟩
  obtain ⟨key, pending, hpending, -⟩ := hpursues.2 hwaiting
  have hnone : (turn (X := String) blank waitingSearch
      (.command (.cancelSearch 1 5) true)).state.pendingText.keys = [] := by
    decide +kernel
  have hkey := AList.lookup_isSome.mp (isSome_of_eq_some hpending)
  rw [AList.mem_keys, hnone] at hkey
  cases hkey

end KeyReader.Worker
