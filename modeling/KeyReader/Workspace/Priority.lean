import KeyReader.Workspace.Allocation

/-! The order of the participants' activity levels in the allocations.  The shares of a round are
handed out in list order, so a participant can be too late for its share. -/

namespace KeyReader.Workspace

open Machine Rationing Option List

/-- What the entries want of a round. -/
def wants (remaining : Nat) (shares : List Share) : List Nat :=
  shares.map (Share.want remaining (totalWeight shares))

/-- The first round in which the shares of the entries no longer fit into what is left of the budget,
with the remaining budget and the entries before it.  In the rounds before it everyone gets its
share. -/
def scarce (remaining : Nat) (shares : List Share) : Option (Nat × List Share) :=
  if 0 < remaining ∧ shares.any Share.isOpen then
    if remaining < (wants remaining shares).sum then some (remaining, shares)
    else scarce (remaining - (wants remaining shares).sum)
      (shares.zipWith Share.take (wants remaining shares))
  else none
termination_by remaining
decreasing_by
  rename_i hgoes _
  have hwants : 0 < (wants remaining shares).sum := sum_want_pos hgoes.2
  omega

/-- What a round has left for an entry when its turn comes. -/
def leftFor (remaining : Nat) (shares : List Share) (i : Nat) : Nat :=
  remaining - ((wants remaining shares).take i).sum

section Ranked

variable {ranked : Nat → Nat → Prop} {remaining : Nat} {shares : List Share}

section

variable (ranked : Nat → Nat → Prop)

/-- An entry has at least as much as those that it outranks. -/
def Ordered (shares : List Share) : Prop :=
  ∀ i j s t, ranked i j → shares[i]? = some s → shares[j]? = some t → t.output ≤ s.output

/-- An entry may get as much as those that it outranks. -/
def Outranks (shares : List Share) : Prop :=
  ∀ i j s t, ranked i j → shares[i]? = some s → shares[j]? = some t →
    t.weight ≤ s.weight ∧ t.cap ≤ s.cap

/-- An entry is not too late: with what is left for it in a round, it can have as much as an earlier
one that it outranks has after the round. -/
def InTurn (remaining : Nat) (shares : List Share) : Prop :=
  ∀ i j s t, j < i → ranked i j → shares[i]? = some s → shares[j]? = some t →
    t.output + min (t.want remaining (totalWeight shares)) (leftFor remaining shares j) ≤
      s.output + leftFor remaining shares i

end

theorem want_ahead {s t : Share} (hcap : t.output ≤ t.cap ∧ s.output ≤ s.cap)
    (houtrank : t.weight ≤ s.weight ∧ t.cap ≤ s.cap) (hordered : t.output ≤ s.output)
    (remaining total : Nat) :
    t.output + t.want remaining total ≤ s.output + s.want remaining total := by
  have hshare : remaining * t.weight / total ≤ remaining * s.weight / total :=
    Nat.div_le_div_right (Nat.mul_le_mul_left _ houtrank.1)
  unfold Share.want
  by_cases ht : t.isOpen = true
  · rw [if_pos ht]
    by_cases hs : s.isOpen = true
    · rw [if_pos hs]
      omega
    · rw [if_neg hs]
      simp only [Share.isOpen, Bool.and_eq_true, decide_eq_true_eq] at hs ht
      omega
  · rw [if_neg ht]
    omega

theorem getElem?_granted (i : Nat) :
    (shares.zipWith Share.take (granted remaining shares))[i]? = shares[i]?.map fun share =>
      share.take (min (share.want remaining (totalWeight shares)) (leftFor remaining shares i)) := by
  rw [getElem?_zipWith, granted, getElem?_ration, getElem?_map]
  cases shares[i]? with
  | none | some share => rfl

theorem of_granted {i : Nat} {next : Share}
    (h : (shares.zipWith Share.take (granted remaining shares))[i]? = some next) :
    ∃ share, shares[i]? = some share ∧ next = share.take
      (min (share.want remaining (totalWeight shares)) (leftFor remaining shares i)) := by
  rw [getElem?_granted] at h
  obtain ⟨share, hshare, rfl⟩ := map_eq_some_iff.mp h
  exact ⟨share, hshare, rfl⟩

theorem Outranks.next (h : Outranks ranked shares) :
    Outranks ranked (shares.zipWith Share.take (granted remaining shares)) := by
  intro i j s t hranked hs ht
  obtain ⟨s, hsi, rfl⟩ := of_granted hs
  obtain ⟨t, htj, rfl⟩ := of_granted ht
  exact h i j s t hranked hsi htj

theorem leftFor_anti {i j : Nat} (h : i ≤ j) :
    leftFor remaining shares j ≤ leftFor remaining shares i := by
  unfold leftFor
  generalize wants remaining shares = wants
  have hsum : (wants.take i).sum ≤ (wants.take j).sum := by
    obtain ⟨k, rfl⟩ := Nat.exists_eq_add_of_le h
    rw [take_add, sum_append]
    exact Nat.le_add_right _ _
  omega

theorem ordered_granted (hfits : Fits shares) (houtranks : Outranks ranked shares)
    (hordered : Ordered ranked shares) :
    Ordered ranked (shares.zipWith Share.take (granted remaining shares)) ↔
      InTurn ranked remaining shares := by
  have hahead {i j : Nat} {s t : Share} (hranked : ranked i j) (hs : shares[i]? = some s)
      (ht : shares[j]? = some t) :
      t.output + t.want remaining (totalWeight shares) ≤
        s.output + s.want remaining (totalWeight shares) := by
    refine want_ahead ⟨?_, ?_⟩ (houtranks i j s t hranked hs ht) (hordered i j s t hranked hs ht) _ _
    · exact (hfits t (mem_of_getElem? ht)).1
    · exact (hfits s (mem_of_getElem? hs)).1
  constructor
  · intro h i j s t hji hranked hs ht
    have hnext := h i j _ _ hranked
      (by rw [getElem?_granted, hs, map_some]) (by rw [getElem?_granted, ht, map_some])
    simp only [Share.take] at hnext
    omega
  · intro h i j s t hranked hs ht
    obtain ⟨s, hsi, rfl⟩ := of_granted hs
    obtain ⟨t, htj, rfl⟩ := of_granted ht
    have hwant := hahead hranked hsi htj
    have hbefore := hordered i j s t hranked hsi htj
    simp only [Share.take]
    rcases Nat.lt_or_ge j i with hji | hij
    · have hturn := h i j s t hji hranked hsi htj
      omega
    · have hleft := @leftFor_anti remaining shares i j hij
      omega

theorem granted_of_le (h : (wants remaining shares).sum ≤ remaining) :
    granted remaining shares = wants remaining shares :=
  ration_of_le h

theorem ordered_of_le (hfits : Fits shares) (houtranks : Outranks ranked shares)
    (hordered : Ordered ranked shares) (h : (wants remaining shares).sum ≤ remaining) :
    Ordered ranked (shares.zipWith Share.take (granted remaining shares)) := by
  intro i j s t hranked hs ht
  rw [granted_of_le h, wants, getElem?_zipWith, getElem?_map] at hs ht
  cases hsi : shares[i]? with
  | none => simp [hsi] at hs
  | some s' =>
    cases htj : shares[j]? with
    | none => simp [htj] at ht
    | some t' =>
      simp only [hsi, htj, map_some, Option.some.injEq] at hs ht
      subst hs ht
      exact want_ahead ⟨(hfits t' (mem_of_getElem? htj)).1, (hfits s' (mem_of_getElem? hsi)).1⟩
        (houtranks i j s' t' hranked hsi htj) (hordered i j s' t' hranked hsi htj) _ _

/-- In the round in which the budget runs out, nobody is too late. -/
def Served (ranked : Nat → Nat → Prop) (remaining : Nat) (shares : List Share) : Prop :=
  ∀ state, scarce remaining shares = some state → InTurn ranked state.1 state.2

theorem ordered_distribute (hbudget : remaining ≤ u64Max) (hfits : Fits shares)
    (houtranks : Outranks ranked shares) (hordered : Ordered ranked shares) :
    Ordered ranked (distribute remaining shares) ↔ Served ranked remaining shares := by
  induction remaining using Nat.strong_induction_on generalizing shares with
  | _ remaining ih =>
    unfold Served
    by_cases hgoes : 0 < remaining ∧ shares.any Share.isOpen = true
    · obtain ⟨hpos, hle, heq⟩ := distribute_round hgoes.1 hgoes.2 hbudget hfits
      have hsum : (granted remaining shares).sum = min remaining
        (wants remaining shares).sum := sum_ration _ _
      rw [heq, scarce, if_pos hgoes]
      by_cases hscarce : remaining < (wants remaining shares).sum
      · rw [if_pos hscarce, hsum, Nat.min_eq_left (by omega), Nat.sub_self, distribute_zero,
          ordered_granted hfits houtranks hordered]
        simp
      · have hfit := Nat.le_of_not_lt hscarce
        rw [if_neg hscarce, ih _ (by omega) (by omega) (hfits.take (granted_le remaining shares))
          houtranks.next (ordered_of_le hfits houtranks hordered hfit), granted_of_le hfit]
        rfl
    · rw [distribute, if_neg hgoes, scarce, if_neg hgoes]
      simpa using hordered

end Ranked

section Participants

variable (participants : List ParticipantSnapshot)

/-- Two participants with the same profile, the first at a higher activity level. -/
def Ranked (i j : Nat) : Prop :=
  ∃ p q, participants[i]? = some p ∧ participants[j]? = some q ∧ p.profile = q.profile ∧
    q.activity.rank < p.activity.rank

theorem weight_le_of_rank {low high : ActivityLevel} (h : low.rank < high.rank) :
    low.weight ≤ high.weight := by
  revert h
  cases low <;> cases high <;> decide

/-- What a higher activity level means for the demand. -/
structure Demand.Above (high low : Demand) : Prop where
  minimum : low.minimum ≤ high.minimum
  weight : low.weight ≤ high.weight
  gap : low.gap ≤ high.gap
  same : low.gap = 0 ∨ low.minimum = high.minimum

theorem demand_above {p q : ParticipantSnapshot} (hprofile : p.profile = q.profile)
    (hrank : q.activity.rank < p.activity.rank) (dimension : Dimension) :
    (p.demand dimension).Above (q.demand dimension) := by
  have hactive : p.activity ≠ .suspended := fun h => by
    rw [h] at hrank
    exact absurd hrank (Nat.not_lt_zero _)
  have hproduct : q.activity.weight * max q.profile.weight.toNat 1 ≤
      p.activity.weight * max q.profile.weight.toNat 1 :=
    Nat.mul_le_mul_right _ (weight_le_of_rank hrank)
  have hweight : (q.demand dimension).weight ≤ (p.demand dimension).weight := by
    by_cases hsuspended : q.isSuspended = true
    · simp [ParticipantSnapshot.demand, hsuspended]
    · have hawake : p.isSuspended = false := by simp [ParticipantSnapshot.isSuspended, hactive]
      simp only [ParticipantSnapshot.demand, hsuspended, hawake, hprofile, Bool.false_eq_true,
        if_false]
      omega
  by_cases hlow : q.activity = .suspended
  · cases hsuspendable : q.profile.suspendable with
    | true =>
      refine ⟨?_, hweight, ?_, .inl ?_⟩ <;> simp [ParticipantSnapshot.demand,
        ParticipantSnapshot.isSuspended, Demand.gap, hlow, hsuspendable]
    | false =>
      refine ⟨?_, hweight, ?_, .inl ?_⟩ <;> simp [ParticipantSnapshot.demand,
        ParticipantSnapshot.isSuspended, Demand.gap, hprofile, hactive, hlow, hsuspendable]
  · refine ⟨?_, hweight, ?_, .inr ?_⟩ <;> simp [ParticipantSnapshot.demand,
      ParticipantSnapshot.isSuspended, Demand.gap, hprofile, hactive, hlow]

theorem Ranked.above {participants : List ParticipantSnapshot} {dimension : Dimension} {i j : Nat}
    {high low : Demand} (h : Ranked participants i j)
    (hhigh : (participants.map (·.demand dimension))[i]? = some high)
    (hlow : (participants.map (·.demand dimension))[j]? = some low) : high.Above low := by
  obtain ⟨p, q, hp, hq, hprofile, hrank⟩ := h
  rw [getElem?_map, hp, map_some, Option.some.injEq] at hhigh
  rw [getElem?_map, hq, map_some, Option.some.injEq] at hlow
  subst hhigh hlow
  exact demand_above hprofile hrank dimension

end Participants

def InOrder (ranked : Nat → Nat → Prop) (values : List Nat) : Prop :=
  ∀ i j a b, ranked i j → values[i]? = some a → values[j]? = some b → b ≤ a

section Dimension

variable {ranked : Nat → Nat → Prop} {demands : List Demand} {budget : Nat}

theorem ordered_iff (shares : List Share) :
    InOrder ranked (shares.map Share.output) ↔ Ordered ranked shares := by
  constructor
  · intro h i j s t hranked hs ht
    exact h i j _ _ hranked (by rw [getElem?_map, hs, map_some])
      (by rw [getElem?_map, ht, map_some])
  · intro h i j a b hranked ha hb
    rw [getElem?_map] at ha hb
    obtain ⟨s, hs, rfl⟩ := map_eq_some_iff.mp ha
    obtain ⟨t, ht, rfl⟩ := map_eq_some_iff.mp hb
    exact h i j s t hranked hs ht

/-- Nobody is too late, neither for the minimums nor for the gaps to the targets. -/
def Demand.Served (ranked : Nat → Nat → Prop) (demands : List Demand) (budget : Nat) : Prop :=
  let minimums := demands.map Demand.minimum
  Workspace.Served ranked budget (minimumShares demands) ∧ (minimums.sum < budget →
      Workspace.Served ranked (budget - minimums.sum) (gapShares demands minimums))

theorem minimums_inOrder (hbudget : budget ≤ u64Max) (hdemands : ∀ demand ∈ demands, demand.Valid)
    (habove : ∀ i j high low, ranked i j → demands[i]? = some high → demands[j]? = some low →
      high.Above low) :
    InOrder ranked ((distribute budget (minimumShares demands)).map Share.output) ↔
      Workspace.Served ranked budget (minimumShares demands) := by
  rw [ordered_iff]
  refine ordered_distribute hbudget ?_ ?_ ?_
  · intro share hshare
    obtain ⟨demand, hdemand, rfl⟩ := mem_map.mp hshare
    obtain ⟨hordered, hbounded, -⟩ := hdemands demand hdemand
    exact ⟨Nat.zero_le _, hordered.trans hbounded⟩
  · intro i j s t hranked hs ht
    rw [minimumShares, getElem?_map] at hs ht
    obtain ⟨high, hhigh, rfl⟩ := map_eq_some_iff.mp hs
    obtain ⟨low, hlow, rfl⟩ := map_eq_some_iff.mp ht
    obtain ⟨hminimum, hweight, -⟩ := habove i j high low hranked hhigh hlow
    exact ⟨hweight, hminimum⟩
  · intro i j s t hranked hs ht
    rw [minimumShares, getElem?_map] at hs ht
    obtain ⟨high, hhigh, rfl⟩ := map_eq_some_iff.mp hs
    obtain ⟨low, hlow, rfl⟩ := map_eq_some_iff.mp ht
    exact le_rfl

theorem gaps_inOrder (hbudget : budget ≤ u64Max) (hdemands : ∀ demand ∈ demands, demand.Valid)
    (habove : ∀ i j high low, ranked i j → demands[i]? = some high → demands[j]? = some low →
      high.Above low) :
    InOrder ranked ((distribute budget (gapShares demands (demands.map Demand.minimum))).map
        Share.output) ↔
      Workspace.Served ranked budget (gapShares demands (demands.map Demand.minimum)) := by
  rw [ordered_iff, gapShares_minimums]
  refine ordered_distribute hbudget ?_ ?_ ?_
  · intro share hshare
    obtain ⟨demand, hdemand, rfl⟩ := mem_map.mp hshare
    exact ⟨Nat.zero_le _, (Nat.sub_le _ _).trans (hdemands demand hdemand).bounded⟩
  · intro i j s t hranked hs ht
    rw [getElem?_map] at hs ht
    obtain ⟨high, hhigh, rfl⟩ := map_eq_some_iff.mp hs
    obtain ⟨low, hlow, rfl⟩ := map_eq_some_iff.mp ht
    obtain ⟨-, hweight, hgap, -⟩ := habove i j high low hranked hhigh hlow
    refine ⟨?_, hgap⟩
    split
    · rw [if_pos (by omega)]
      exact hweight
    · exact Nat.zero_le _
  · intro i j s t hranked hs ht
    rw [getElem?_map] at hs ht
    obtain ⟨high, hhigh, rfl⟩ := map_eq_some_iff.mp hs
    obtain ⟨low, hlow, rfl⟩ := map_eq_some_iff.mp ht
    exact le_rfl

/-- The minimums with the extras are in the order of the extras. -/
theorem extras_inOrder {extras : List Nat} (hdemands : ∀ demand ∈ demands, demand.Valid)
    (habove : ∀ i j high low, ranked i j → demands[i]? = some high → demands[j]? = some low →
      high.Above low)
    (hextras : List.Forall₂ (· ≤ ·) extras (demands.map Demand.gap)) :
    InOrder ranked ((demands.map Demand.minimum).zipWith saturatingAdd extras) ↔
      InOrder ranked extras := by
  have hvalue {i : Nat} {demand : Demand} {extra : Nat} (hdemand : demands[i]? = some demand)
      (hextra : extras[i]? = some extra) : extra ≤ demand.gap ∧
        ((demands.map Demand.minimum).zipWith saturatingAdd extras)[i]? =
          some (demand.minimum + extra) := by
    have hle : extra ≤ demand.gap := by
      rw [List.forall₂_iff_get] at hextras
      obtain ⟨hi, rfl⟩ := List.getElem?_eq_some_iff.mp hextra
      obtain ⟨hj, rfl⟩ := List.getElem?_eq_some_iff.mp hdemand
      simpa using hextras.2 i hi (by simpa using hj)
    obtain ⟨hordered, hbounded, -⟩ := hdemands demand (List.mem_of_getElem? hdemand)
    refine ⟨hle, ?_⟩
    rw [List.getElem?_zipWith, List.getElem?_map, hdemand, hextra]
    unfold Demand.gap at hle
    exact congrArg some (Nat.min_eq_left (by omega))
  have hlength : extras.length = demands.length := by simpa using hextras.length_eq
  have hdemandAt {i extra : Nat} (hextra : extras[i]? = some extra) :
      ∃ demand, demands[i]? = some demand := by
    obtain ⟨hi, -⟩ := List.getElem?_eq_some_iff.mp hextra
    exact ⟨_, List.getElem?_eq_getElem (hlength ▸ hi)⟩
  constructor
  · intro h i j a b hranked ha hb
    obtain ⟨high, hhigh⟩ := hdemandAt ha
    obtain ⟨low, hlow⟩ := hdemandAt hb
    obtain ⟨-, -, -, hsame⟩ := habove i j high low hranked hhigh hlow
    have hvalues := h i j _ _ hranked (hvalue hhigh ha).2 (hvalue hlow hb).2
    have hle := (hvalue hlow hb).1
    omega
  · intro h i j a b hranked ha hb
    rw [List.getElem?_zipWith_eq_some] at ha hb
    obtain ⟨_, extra, hminimum, hextra, rfl⟩ := ha
    obtain ⟨_, other, hother, hotherExtra, rfl⟩ := hb
    obtain ⟨high, hhigh⟩ := hdemandAt hextra
    obtain ⟨low, hlow⟩ := hdemandAt hotherExtra
    rw [List.getElem?_map, hhigh, map_some, Option.some.injEq] at hminimum
    rw [List.getElem?_map, hlow, map_some, Option.some.injEq] at hother
    subst hminimum hother
    have hle := h i j _ _ hranked hextra hotherExtra
    have hbelow := (habove i j high low hranked hhigh hlow).minimum
    unfold saturatingAdd
    omega

theorem dimensionValues_inOrder (hbudget : budget ≤ u64Max)
    (hdemands : ∀ demand ∈ demands, demand.Valid)
    (habove : ∀ i j high low, ranked i j → demands[i]? = some high → demands[j]? = some low →
      high.Above low) :
    InOrder ranked (dimensionValues demands budget) ↔ Demand.Served ranked demands budget := by
  have hminimums := minimums_inOrder hbudget hdemands habove
  obtain ⟨hbounded, hused⟩ := minimums_distributed hbudget hdemands
  unfold dimensionValues Demand.Served
  by_cases hless : (demands.map Demand.minimum).sum < budget
  · obtain heq : (distribute budget (minimumShares demands)).map Share.output =
      demands.map Demand.minimum := eq_of_sum_le hbounded (by omega)
    rw [heq] at hminimums
    have hordered : InOrder ranked (demands.map Demand.minimum) := by
      intro i j a b hranked ha hb
      rw [getElem?_map] at ha hb
      obtain ⟨high, hhigh, rfl⟩ := map_eq_some_iff.mp ha
      obtain ⟨low, hlow, rfl⟩ := map_eq_some_iff.mp hb
      exact (habove i j high low hranked hhigh hlow).minimum
    rw [heq, if_pos hless, extras_inOrder hdemands habove
      (gaps_distributed (by omega) hdemands).1, gaps_inOrder (by omega) hdemands habove]
    exact ⟨fun h => ⟨hminimums.mp hordered, fun _ => h⟩, fun h => h.2 hless⟩
  · rw [if_neg (by omega), hminimums]
    exact ⟨fun h => ⟨h, fun hlt => absurd hlt hless⟩, fun h => h.1⟩

end Dimension

section

variable (participants : List ParticipantSnapshot)

/-- Of two participants with the same profile, the one at the higher level is allocated at least as
much of everything. -/
def Prioritized (output : List ResourceAllocation) :
    Prop :=
  ∀ dimension i j a b, Ranked participants i j → output[i]? = some a → output[j]? = some b →
    Dimension.get dimension b.amount ≤ Dimension.get dimension a.amount

theorem prioritized_iff (output : List ResourceAllocation) : Prioritized participants output ↔
      ∀ dimension, InOrder (Ranked participants) (amounts dimension output) := by
  constructor
  · intro h dimension i j a b hranked ha hb
    unfold amounts at ha hb
    rw [getElem?_map] at ha hb
    obtain ⟨high, hhigh, rfl⟩ := map_eq_some_iff.mp ha
    obtain ⟨low, hlow, rfl⟩ := map_eq_some_iff.mp hb
    exact UInt64.le_iff_toNat_le.mp (h dimension i j high low hranked hhigh hlow)
  · intro h dimension i j a b hranked ha hb
    refine UInt64.le_iff_toNat_le.mpr (h dimension i j _ _ hranked ?_ ?_)
    · rw [amounts, getElem?_map, ha, map_some]
    · rw [amounts, getElem?_map, hb, map_some]

end

/-- The allocations of a budget follow the levels if and only if, in no kind of resource, the budget
runs out on a participant that comes too late in the list. -/
theorem allocations_prioritized_iff (participants : List ParticipantSnapshot)
    (budget : ResourceAmount) :
    Prioritized participants (allocations participants budget) ↔ ∀ dimension,
      Demand.Served (Ranked participants) (participants.map (·.demand dimension))
        (dimension.get budget).toNat := by
  rw [prioritized_iff]
  refine forall_congr' fun dimension => ?_
  rw [(allocates participants budget).done dimension rfl]
  exact dimensionValues_inOrder (toNat_le_u64Max _) (demands_valid participants dimension)
    fun _ _ _ _ hranked hhigh hlow => hranked.above hhigh hlow

def lateParticipants : List ParticipantSnapshot :=
  let profile := ResourceProfile.new .default ⟨gib, gib, 4, 4⟩
  [⟨1, .backgroundCold, profile⟩, ⟨2, .foregroundInteractive, profile⟩]

/-- The only worker slot goes to the cold document. -/
theorem lateParticipants_not_prioritized :
    ∃ plan, (ResourceCoordinator.mk .saver ⟨2 * gib, 2, false⟩).plan lateParticipants = some plan ∧
      amounts .workers plan.allocations = [1, 0] ∧
      ¬ Prioritized lateParticipants plan.allocations := by
  obtain ⟨plan, hplan, hallocations⟩ := plan_some ⟨.saver, ⟨2 * gib, 2, false⟩⟩ lateParticipants
  have hbudget : plan.budget.workerSlots = 1 := by
    have hslots : ((ResourceCoordinator.mk .saver ⟨2 * gib, 2, false⟩).plan lateParticipants).map
        (fun plan => plan.budget.workerSlots) = some 1 := by rfl
    rw [hplan] at hslots
    exact some.inj hslots
  have hworkers : amounts .workers plan.allocations = [1, 0] := by
    rw [hallocations, (allocates _ _).done .workers rfl]
    show dimensionValues _ plan.budget.workerSlots.toNat = _
    rw [hbudget]
    decide +kernel
  refine ⟨plan, hplan, hworkers, fun h => ?_⟩
  have hranked : Ranked lateParticipants 1 0 := ⟨_, _, rfl, rfl, rfl, by decide⟩
  have hle := (prioritized_iff _ _).mp h .workers 1 0 0 1 hranked (by rw [hworkers]; rfl)
    (by rw [hworkers]; rfl)
  omega

end KeyReader.Workspace
