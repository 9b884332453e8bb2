import KeyReader.Checked
import KeyReader.Http.Authorised
import KeyReader.Sliding

/-! The rate limit of the HTTP client, over the requests for a slot that its clones make one after
another. -/

namespace KeyReader.Http

open Checked Sliding List

namespace SafeHttpClient

variable {σ : Type} (client : SafeHttpClient σ) (session : Session σ)

/-- The clock's answer to a request for a slot. -/
def reading : Duration := (client.world.now session.world).1

/-- What a request for a slot finds behind the lock. -/
def found : Shared := (client.world.others session.shared (client.world.now session.world).2).1

def requestSlot : Except HttpError Unit × Session σ := client.acquireRateSlot.outcome session

/-- The requests for a slot, each with the clock's answer and its result, and the history that they
leave.  Between two of them, calls of the client may change everything but the history. -/
inductive Requests : List (Duration × Except HttpError Unit) → List Duration → Prop
  | nil : Requests [] []
  | request {log : List (Duration × Except HttpError Unit)} {history : List Duration}
      (session : Session σ) (earlier : Requests log history)
      (found : (client.found session).rateHistory = history) :
      Requests (log ++ [(client.reading session, (client.requestSlot session).1)])
        (client.requestSlot session).2.shared.rateHistory

/-- The times of the slots that were granted. -/
def granted (log : List (Duration × Except HttpError Unit)) : List Duration :=
  (log.filter fun entry => entry.2.toBool).map (·.1)

/-- The clock's answers do not go back. -/
def Timely (log : List (Duration × Except HttpError Unit)) : Prop :=
  (log.map (·.1)).Pairwise (· ≤ ·)

theorem rate_valid :
    0 < client.policy.limits.rate.requests ∧ 0 < client.policy.limits.rate.window := by
  have hvalid := client.policy.valid
  unfold HttpLimits.validate at hvalid
  obtain ⟨-, hvalid⟩ := unit_bind_eq_ok.mp hvalid
  obtain ⟨-, hvalid⟩ := unit_bind_eq_ok.mp hvalid
  obtain ⟨-, hvalid⟩ := unit_bind_eq_ok.mp hvalid
  dsimp only at hvalid
  split at hvalid
  · cases hvalid
  split at hvalid
  · cases hvalid
  obtain ⟨-, hvalid⟩ := unit_bind_eq_ok.mp hvalid
  obtain ⟨-, hvalid⟩ := unit_bind_eq_ok.mp hvalid
  obtain ⟨-, hvalid⟩ := unit_bind_eq_ok.mp hvalid
  obtain ⟨rate, hrate, -⟩ := bind_eq_ok.mp hvalid
  unfold RateLimit.new at hrate
  dsimp only at hrate
  split at hrate
  · cases hrate
  split at hrate
  · cases hrate
  rename_i hrequests hwindow
  exact ⟨Nat.pos_of_ne_zero fun h => hrequests (.inl h), Nat.pos_of_ne_zero fun h => hwindow (.inl h)⟩

/-- The part of a request for a slot that holds the lock. -/
def takeSlot (rate : RateLimit) (now : Duration) (shared : Shared) :
    Except HttpError Unit × Shared :=
  let history := shared.rateHistory.dropWhile fun earlier => rate.window ≤ now - earlier
  if rate.requests ≤ history.length then
    let retryAfter := match history.head? with
      | some earlier => rate.window - (now - earlier)
      | none => rate.window
    (.error (.rateLimited retryAfter), { shared with rateHistory := history })
  else (.ok (), { shared with rateHistory := history ++ [now] })

theorem requestSlot_eq : client.requestSlot session =
    ((takeSlot client.policy.limits.rate (client.reading session) (client.found session)).1,
      { session with
        shared :=
          (takeSlot client.policy.limits.rate (client.reading session) (client.found session)).2
        world := (client.world.others session.shared (client.world.now session.world).2).2 }) := rfl

section Turns

variable {client session} {rate : RateLimit} {taken : List Duration} {shared : Shared}
  {last now : Duration}

theorem takeSlot_room (h : Tracks rate.requests rate.window taken shared.rateHistory last)
    (hnow : last ≤ now) (hroom : (live rate.window now taken).length < rate.requests) :
    takeSlot rate now shared =
      (.ok (), { shared with rateHistory := live rate.window now taken ++ [now] }) := by
  unfold takeSlot
  rw [h.dropWhile_eq hnow]
  exact if_neg (Nat.not_le_of_lt hroom)

/-- A refusal names the time that the first slot in the window still has to stay. -/
theorem takeSlot_full (h : Tracks rate.requests rate.window taken shared.rateHistory last)
    (hnow : last ≤ now) (hrequests : 0 < rate.requests)
    (hfull : rate.requests ≤ (live rate.window now taken).length) :
    ∃ first rest, live rate.window now taken = first :: rest ∧
      (first :: rest).length = rate.requests ∧ first ≤ now ∧
      takeSlot rate now shared = (.error (.rateLimited (rate.window - (now - first))),
        { shared with rateHistory := live rate.window now taken }) := by
  cases hlive : live rate.window now taken with
  | nil =>
    rw [hlive] at hfull
    exact absurd hfull (Nat.not_le_of_lt hrequests)
  | cons first rest =>
    rw [hlive] at hfull
    refine ⟨first, rest, rfl, ?_, ?_, ?_⟩
    · exact Nat.le_antisymm (hlive ▸ h.length_live_le hnow) hfull
    · exact (h.bounded first (mem_live.mp (hlive ▸ mem_cons_self)).1).trans hnow
    · unfold takeSlot
      rw [h.dropWhile_eq hnow, hlive]
      exact if_pos hfull

theorem sub_sub_le_iff {first now window delay : Nat} (h : first ≤ now) :
    first + window ≤ now + delay ↔ window - (now - first) ≤ delay := by
  omega

theorem granted_append (log more : List (Duration × Except HttpError Unit)) :
    granted (log ++ more) = granted log ++ granted more := by
  unfold granted
  rw [filter_append, map_append]

/-- In every run the history is what is left of the granted slots. -/
theorem tracks_requests {log : List (Duration × Except HttpError Unit)} {history : List Duration}
    (h : client.Requests log history) (htimely : Timely log) :
    ∃ last, Tracks client.policy.limits.rate.requests client.policy.limits.rate.window
      (granted log) history last ∧ ∀ now, (∀ entry ∈ log, entry.1 ≤ now) → last ≤ now := by
  obtain ⟨hrequests, hwindow⟩ := client.rate_valid
  induction h with
  | nil => exact ⟨0, tracks_nil, fun now _ => Nat.zero_le now⟩
  | @request log history session earlier hfound ih =>
    unfold Timely at htimely
    rw [map_append, pairwise_append] at htimely
    obtain ⟨htimely, -, hlater⟩ := htimely
    obtain ⟨last, htracks, hlast⟩ := ih htimely
    have hnow : last ≤ client.reading session := hlast _ fun entry hmem =>
      hlater _ (mem_map_of_mem hmem) _ (mem_singleton_self _)
    refine ⟨client.reading session, ?_, fun now hentries =>
      hentries (client.reading session, _) mem_concat_self⟩
    subst hfound
    rw [granted_append, requestSlot_eq]
    rcases Nat.lt_or_ge (live _ (client.reading session) (granted log)).length
      client.policy.limits.rate.requests with hroom | hfull
    · rw [takeSlot_room htracks hnow hroom]
      exact htracks.take hnow hwindow hroom
    · obtain ⟨first, rest, -, -, -, heq⟩ := takeSlot_full htracks hnow hrequests hfull
      rw [heq]
      exact (append_nil (granted log)).symm ▸ htracks.pass hnow

/-- How a request ends, by the slots that have been granted. -/
theorem requestSlot_ok {log : List (Duration × Except HttpError Unit)} {history : List Duration}
    (h : client.Requests log history) (htimely : Timely log)
    (hfound : (client.found session).rateHistory = history)
    (hlater : ∀ entry ∈ log, entry.1 ≤ client.reading session) :
    (client.requestSlot session).1 = .ok () ↔
      (live client.policy.limits.rate.window (client.reading session) (granted log)).length <
        client.policy.limits.rate.requests := by
  obtain ⟨last, htracks, hlast⟩ := tracks_requests h htimely
  have hnow := hlast _ hlater
  subst hfound
  rw [requestSlot_eq]
  constructor
  · intro hok
    by_contra hfull
    obtain ⟨first, rest, -, -, -, heq⟩ :=
      takeSlot_full htracks hnow client.rate_valid.1 (Nat.le_of_not_lt hfull)
    rw [heq] at hok
    cases hok
  · intro hroom
    rw [takeSlot_room htracks hnow hroom]

end Turns

/-- Every interval as long as the window has at most as many slots as the limit allows.  A request
is refused exactly when the last slots, as many as the limit, are all in the window that ends at it.
A refusal forgets the slots that have left the window, and it names the least delay after which a
request is granted, if no other slot is granted before. -/
theorem rate_limit {log : List (Duration × Except HttpError Unit)} {history : List Duration}
    (h : client.Requests log history) (htimely : Timely log) :
    (∀ start, ((granted log).filter fun time =>
      start ≤ time ∧ time < start + client.policy.limits.rate.window).length ≤
        client.policy.limits.rate.requests) ∧
    ∀ session : Session σ, (client.found session).rateHistory = history →
      (∀ entry ∈ log, entry.1 ≤ client.reading session) →
      ((client.requestSlot session).1 ≠ .ok () ↔
        client.policy.limits.rate.requests ≤ (granted log).length ∧
        ∀ time ∈ (granted log).drop ((granted log).length - client.policy.limits.rate.requests),
          client.reading session < time + client.policy.limits.rate.window) ∧
      ∀ error, (client.requestSlot session).1 = .error error →
        (client.requestSlot session).2.sent = session.sent ∧
        (client.requestSlot session).2.shared = { client.found session with
          rateHistory := history.filter fun time =>
            client.reading session < time + client.policy.limits.rate.window } ∧
        ∃ retryAfter, error = .rateLimited retryAfter ∧ ∀ more history', client.Requests
              (log ++ (client.reading session, .error error) :: more) history' →
            Timely (log ++ (client.reading session, .error error) :: more) → granted more = [] →
            ∀ (later : Session σ) (delay : Duration), (client.found later).rateHistory = history' →
              (∀ entry ∈ more, entry.1 ≤ client.reading later) →
              client.reading later = client.reading session + delay →
              ((client.requestSlot later).1 = .ok () ↔ retryAfter ≤ delay) := by
  obtain ⟨last, htracks, hlast⟩ := tracks_requests h htimely
  refine ⟨htracks.spread, fun session hfound hlater => ⟨?_, fun error herror => ?_⟩⟩
  · rw [Ne, requestSlot_ok h htimely hfound hlater, Nat.not_lt, limit_le_length_live htracks.ordered]
  · have hnow := hlast _ hlater
    have hfull : client.policy.limits.rate.requests ≤
        (live client.policy.limits.rate.window (client.reading session) (granted log)).length := by
      rw [← Nat.not_lt, ← requestSlot_ok h htimely hfound hlater, herror]
      exact nofun
    subst hfound
    obtain ⟨first, rest, hlive, hlength, hfirst, heq⟩ :=
      takeSlot_full htracks hnow client.rate_valid.1 hfull
    rw [requestSlot_eq, heq] at herror ⊢
    cases herror
    refine ⟨rfl, ?_, _, rfl, fun more history' hmore htimely' hnone later delay hfound' hlater' hdelay => ?_⟩
    · conv_rhs => rw [htracks.live]
      exact congrArg (Shared.mk _) (live_live hnow).symm
    · have hgranted : granted (log ++ (client.reading session,
          .error (.rateLimited (client.policy.limits.rate.window - (client.reading session - first)))) ::
            more) = granted log := by
        rw [granted_append]
        exact (congrArg (granted log ++ ·) hnone).trans (append_nil _)
      have hafter : client.reading session ≤ client.reading later := hdelay ▸ Nat.le_add_right ..
      rw [requestSlot_ok hmore htimely' hfound', hgranted, ← hlength,
        length_live_lt hlive htracks.ordered hafter, hdelay]
      · exact sub_sub_le_iff hfirst
      · intro entry hmem
        rcases mem_append.mp hmem with hmem | hmem
        · exact (hlater entry hmem).trans hafter
        · rcases mem_cons.mp hmem with rfl | hmem
          · exact hafter
          · exact hlater' entry hmem

/-- One slot is granted at the start, and another is asked for a moment later. -/
theorem rate_limit_second : (Redirect.client.requestSlot ⟨5, ⟨0, [0]⟩, []⟩).1 ≠ .ok () ↔
    30 ≤ [0].length ∧ ∀ time ∈ [0].drop ([0].length - 30), 5 < time + Duration.fromSecs 60 :=
  ((Redirect.client.rate_limit (.request ⟨0, ⟨0, []⟩, []⟩ .nil rfl)
    (pairwise_singleton ..)).2 ⟨5, ⟨0, [0]⟩, []⟩ rfl (by
      intro entry hmem
      rw [mem_singleton.mp hmem]
      decide)).1

end SafeHttpClient

end KeyReader.Http
