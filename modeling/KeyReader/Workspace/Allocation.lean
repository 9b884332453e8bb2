import KeyReader.Rationing
import KeyReader.Workspace.Resources

/-! The allocations of a budget: a round is a rationing of its budget, so a distribution hands out
everything that the caps leave room for. -/

namespace KeyReader.Workspace

open Machine Rationing List Bool

/-- What an open entry wants of a round: its proportional share, but at least one unit and at most
what its cap leaves. -/
def Share.want (roundBudget total : Nat) (share : Share) : Nat :=
  if share.isOpen then
    min (share.cap - share.output) (max (roundBudget * share.weight / total) 1)
  else 0

def Share.take (share : Share) (granted : Nat) : Share :=
  { share with output := share.output + granted }

@[simp] theorem Share.take_zero (share : Share) : share.take 0 = share := rfl

/-- The entries fit into machine integers and are not above their caps. -/
def Fits (shares : List Share) : Prop := ∀ share ∈ shares, share.output ≤ share.cap ∧ share.cap ≤ u64Max

theorem Fits.tail {share : Share} {shares : List Share} (h : Fits (share :: shares)) :
    Fits shares := (forall_mem_cons.mp h).2

theorem zipWith_take_zero (shares : List Share) :
    shares.zipWith Share.take (List.replicate shares.length 0) = shares := by
  induction shares with
  | nil => rfl
  | cons share shares ih => simp [replicate_succ, ih]

/-- The entries after a round. -/
def served (roundBudget total left : Nat) (shares : List Share) : List Share :=
  shares.zipWith Share.take (ration left (shares.map (Share.want roundBudget total)))

theorem served_zero (roundBudget total : Nat) (shares : List Share) :
    served roundBudget total 0 shares = shares := by
  unfold served
  rw [ration_zero, length_map, zipWith_take_zero]

theorem served_cons (roundBudget total left : Nat) (share : Share) (shares : List Share) :
    served roundBudget total left (share :: shares) =
      share.take (min (share.want roundBudget total) left) ::
        served roundBudget total (left - share.want roundBudget total) shares := rfl

/-- A round rations what is left of its budget, in list order. -/
theorem round_eq {roundBudget total progressed : Nat} {shares : List Share}
    (hprogressed : progressed ≤ roundBudget) (hbudget : roundBudget ≤ u64Max)
    (hfits : Fits shares) :
    round roundBudget total progressed shares = (progressed + min (roundBudget - progressed)
          (shares.map (Share.want roundBudget total)).sum,
        served roundBudget total (roundBudget - progressed) shares) := by
  induction shares generalizing progressed with
  | nil => simp [round, served]
  | cons share shares ih =>
    obtain ⟨hcap, hmax⟩ := hfits share mem_cons_self
    rw [round, served_cons, map_cons, sum_cons]
    by_cases hopen : share.isOpen = true
    · have hwant : share.want roundBudget total =
          min (share.cap - share.output) (max (roundBudget * share.weight / total) 1) := by
        simp [Share.want, hopen]
      simp only [hopen, if_true, ← hwant]
      have houtput : saturatingAdd share.output
          (min (share.want roundBudget total) (roundBudget - progressed)) =
          share.output + min (share.want roundBudget total) (roundBudget - progressed) := by
        have hle : share.want roundBudget total ≤ share.cap - share.output := by
          rw [hwant]
          exact Nat.min_le_left _ _
        exact Nat.min_eq_left (by omega)
      have hnext : saturatingAdd progressed
          (min (share.want roundBudget total) (roundBudget - progressed)) =
          progressed + min (share.want roundBudget total) (roundBudget - progressed) :=
        Nat.min_eq_left (by omega)
      rw [houtput, hnext]
      split
      · rename_i hused
        have hnone : roundBudget - progressed - share.want roundBudget total = 0 := by omega
        rw [hnone, served_zero]
        refine Prod.ext ?_ rfl
        omega
      · rw [ih (by omega) hfits.tail]
        have hleft : roundBudget - (progressed +
            min (share.want roundBudget total) (roundBudget - progressed)) =
            roundBudget - progressed - share.want roundBudget total := by omega
        rw [hleft]
        refine Prod.ext ?_ rfl
        omega
    · have hwant : share.want roundBudget total = 0 := by simp [Share.want, hopen]
      simp only [hopen, false_eq_true, if_false]
      rw [ih hprogressed hfits.tail, hwant]
      simp

/-- What an entry can still get. -/
def Share.room (share : Share) : Nat := if 0 < share.weight then share.cap - share.output else 0

theorem Share.want_le_room (roundBudget total : Nat) (share : Share) :
    share.want roundBudget total ≤ share.room := by
  unfold Share.want Share.room
  split
  · rename_i hopen
    simp only [Share.isOpen, and_eq_true, decide_eq_true_eq] at hopen
    rw [if_pos hopen.2]
    exact Nat.min_le_left _ _
  · exact Nat.zero_le _

theorem Share.isOpen_iff (share : Share) : share.isOpen = true ↔ 0 < share.room := by
  simp only [Share.isOpen, Share.room, and_eq_true, decide_eq_true_eq]
  split <;> omega

/-- What a distribution gives to the entries. -/
structure Handed (remaining : Nat) (shares : List Share) (grants : List Nat) : Prop where
  bounded : List.Forall₂ (· ≤ ·) grants (shares.map Share.room)
  sum : grants.sum = min remaining (shares.map Share.room).sum

variable {remaining : Nat}

theorem Handed.none {shares : List Share} (h : remaining = 0 ∨ shares.any Share.isOpen = false) :
    Handed remaining shares (List.replicate shares.length 0) := by
  constructor
  · clear h
    induction shares with
    | nil => exact .nil
    | cons share shares ih => exact .cons (Nat.zero_le _) ih
  · rcases h with rfl | hclosed
    · simp
    · have hroom : (shares.map Share.room).sum = 0 := by
        refine sum_eq_zero fun room hroom => ?_
        obtain ⟨share, hshare, rfl⟩ := mem_map.mp hroom
        have hnot := any_eq_false.mp hclosed share hshare
        rw [Share.isOpen_iff] at hnot
        omega
      simp [hroom]

theorem zipWith_take_take {shares : List Share} {first second : List Nat}
    (h : first.length = shares.length) :
    (shares.zipWith Share.take first).zipWith Share.take second =
      shares.zipWith Share.take (first.zipWith (· + ·) second) := by
  induction shares generalizing first second with
  | nil => simp
  | cons share shares ih =>
    cases first with
    | nil => simp at h
    | cons granted first =>
      cases second with
      | nil => simp
      | cons more second =>
        simp only [zipWith_cons_cons, List.cons.injEq]
        exact ⟨by simp [Share.take, Nat.add_assoc], ih (by simpa using h)⟩

variable {grants : List Nat}

theorem Fits.take {shares : List Share} (h : Fits shares)
    (hgrants : List.Forall₂ (· ≤ ·) grants (shares.map Share.room)) :
    Fits (shares.zipWith Share.take grants) := by
  induction shares generalizing grants with
  | nil => simpa using h
  | cons share shares ih =>
    cases hgrants with
    | cons hle hrest =>
      intro other hother
      obtain ⟨hcap, hmax⟩ := h share mem_cons_self
      rcases mem_cons.mp hother with rfl | hother
      · refine ⟨?_, hmax⟩
        unfold Share.room at hle
        show share.output + _ ≤ share.cap
        split at hle <;> omega
      · exact ih h.tail hrest other hother

theorem room_take {shares : List Share}
    (hgrants : List.Forall₂ (· ≤ ·) grants (shares.map Share.room)) :
    ((shares.zipWith Share.take grants).map Share.room) =
      (shares.map Share.room).zipWith (fun room granted => room - granted) grants := by
  induction shares generalizing grants with
  | nil => simp
  | cons share shares ih =>
    cases hgrants with
    | cons hle hrest =>
      simp only [zipWith_cons_cons, map_cons, List.cons.injEq]
      refine ⟨?_, ih hrest⟩
      unfold Share.room Share.take
      split
      · exact Nat.sub_add_eq ..
      · simp

theorem Handed.append {shares : List Share} {first second : List Nat}
    (hfirst : List.Forall₂ (· ≤ ·) first (shares.map Share.room)) (hsum : first.sum ≤ remaining)
    (hsecond : Handed (remaining - first.sum) (shares.zipWith Share.take first) second) :
    Handed remaining shares (first.zipWith (fun a b => a + b) second) := by
  obtain ⟨hbounded, hrest⟩ := hsecond
  rw [room_take hfirst] at hbounded hrest
  rw [sum_zipWith_sub hfirst] at hrest
  obtain ⟨hall, hadd⟩ := add_le hfirst hbounded
  have hsums := hfirst.sum_le_sum
  refine ⟨hall, ?_⟩
  rw [hadd, hrest]
  omega

theorem sum_want_pos {roundBudget total : Nat} {shares : List Share}
    (h : shares.any Share.isOpen = true) :
    0 < (shares.map (Share.want roundBudget total)).sum := by
  obtain ⟨share, hshare, hopen⟩ := any_eq_true.mp h
  have hroom := share.isOpen_iff.mp hopen
  have hwant : 0 < share.want roundBudget total := by
    unfold Share.want Share.room at *
    rw [if_pos hopen]
    split at hroom <;> omega
  have hle := single_le_sum (fun _ _ => Nat.zero_le _) _
    (mem_map.mpr ⟨share, hshare, (rfl : share.want roundBudget total = _)⟩)
  omega

theorem totalWeight_pos {shares : List Share} (h : shares.any Share.isOpen = true) :
    totalWeight shares ≠ 0 := by
  obtain ⟨share, hshare, hopen⟩ := any_eq_true.mp h
  have hweight : 0 < share.weight := by
    simp only [Share.isOpen, and_eq_true, decide_eq_true_eq] at hopen
    exact hopen.2
  have hle : share.weight ≤ totalWeight shares := single_le_sum (fun _ _ => Nat.zero_le _) _
      (mem_map.mpr ⟨share, mem_filter.mpr ⟨hshare, hopen⟩, rfl⟩)
  omega

/-- The grants of a round. -/
def granted (remaining : Nat) (shares : List Share) : List Nat :=
  ration remaining (shares.map (Share.want remaining (totalWeight shares)))

theorem granted_le (remaining : Nat) (shares : List Share) :
    List.Forall₂ (· ≤ ·) (granted remaining shares) (shares.map Share.room) := by
  unfold granted
  generalize totalWeight shares = total
  refine ration_le remaining ?_
  induction shares with
  | nil => exact .nil
  | cons share shares ih => exact .cons (share.want_le_room remaining total) ih

theorem distribute_round {shares : List Share} (hpos : 0 < remaining)
    (hopen : shares.any Share.isOpen = true) (hbudget : remaining ≤ u64Max) (hfits : Fits shares) :
    0 < (granted remaining shares).sum ∧ (granted remaining shares).sum ≤ remaining ∧
      distribute remaining shares = distribute (remaining - (granted remaining shares).sum)
          (shares.zipWith Share.take (granted remaining shares)) := by
  have hsum : (granted remaining shares).sum = min remaining
      (shares.map (Share.want remaining (totalWeight shares))).sum := sum_ration _ _
  have hwants := @sum_want_pos remaining (totalWeight shares) shares hopen
  have hround := @round_eq remaining (totalWeight shares) 0 shares (Nat.zero_le _) hbudget hfits
  rw [Nat.sub_zero, Nat.zero_add, ← hsum] at hround
  refine ⟨by omega, by omega, ?_⟩
  rw [distribute, if_pos ⟨hpos, hopen⟩]
  simp only [totalWeight_pos hopen, if_false, hround]
  rw [if_neg (by omega)]
  rfl

theorem distribute_eq (remaining : Nat) (shares : List Share) (hbudget : remaining ≤ u64Max)
    (hfits : Fits shares) :
    ∃ grants, Handed remaining shares grants ∧
      distribute remaining shares = shares.zipWith Share.take grants := by
  induction remaining using Nat.strong_induction_on generalizing shares with
  | _ remaining ih =>
    by_cases hgoes : 0 < remaining ∧ shares.any Share.isOpen = true
    · obtain ⟨hpos, hle, heq⟩ := distribute_round hgoes.1 hgoes.2 hbudget hfits
      have hgranted := granted_le remaining shares
      obtain ⟨grants, hhanded, hnext⟩ := ih
        (remaining - (granted remaining shares).sum) (by omega) _ (by omega) (hfits.take hgranted)
      refine ⟨_, hhanded.append hgranted hle, ?_⟩
      rw [heq, hnext, zipWith_take_take]
      simpa using hgranted.length_eq
    · refine ⟨_, Handed.none ?_, ?_⟩
      · by_cases hzero : remaining = 0
        · exact .inl hzero
        · exact .inr (eq_false_iff.mpr fun hopen => hgoes ⟨by omega, hopen⟩)
      · rw [distribute, if_neg hgoes, zipWith_take_zero]

theorem map_room_of_new {shares : List Share}
    (h : ∀ share ∈ shares, share.output = 0 ∧ (share.weight = 0 → share.cap = 0)) :
    shares.map Share.room = shares.map Share.cap := by
  refine map_congr_left fun share hshare => ?_
  obtain ⟨hnew, hweight⟩ := h share hshare
  unfold Share.room
  split
  · omega
  · exact (hweight (by omega)).symm

theorem map_output_take {shares : List Share} (hnew : ∀ share ∈ shares, share.output = 0)
    (hlength : grants.length = shares.length) :
    (shares.zipWith Share.take grants).map Share.output = grants := by
  induction shares generalizing grants with
  | nil =>
    cases grants with
    | nil => rfl
    | cons => simp at hlength
  | cons share shares ih =>
    cases grants with
    | nil => simp at hlength
    | cons granted grants =>
      simp only [zipWith_cons_cons, map_cons, List.cons.injEq]
      refine ⟨?_, ih (forall_mem_cons.mp hnew).2 (by simpa using hlength)⟩
      simp [Share.take, hnew share mem_cons_self]

variable {budget : Nat}

theorem distribute_new {shares : List Share} (hbudget : budget ≤ u64Max)
    (hshares : ∀ share ∈ shares, share.output = 0 ∧ share.cap ≤ u64Max ∧
      (share.weight = 0 → share.cap = 0)) :
    List.Forall₂ (· ≤ ·) ((distribute budget shares).map Share.output) (shares.map Share.cap) ∧
      ((distribute budget shares).map Share.output).sum =
        min budget (shares.map Share.cap).sum := by
  have hfits : Fits shares := fun share hshare => by
    obtain ⟨hnew, hmax, _⟩ := hshares share hshare
    omega
  have hroom := map_room_of_new fun share hshare =>
    ⟨(hshares share hshare).1, (hshares share hshare).2.2⟩
  obtain ⟨grants, hhanded, heq⟩ := distribute_eq budget shares hbudget hfits
  have hlength : grants.length = shares.length := by simpa using hhanded.bounded.length_eq
  rw [heq, map_output_take (fun share hshare => (hshares share hshare).1) hlength, ← hroom]
  exact ⟨hhanded.bounded, hhanded.sum⟩

/-- What the demands of participants are like. -/
structure Demand.Valid (demand : Demand) : Prop where
  ordered : demand.minimum ≤ demand.target
  bounded : demand.target ≤ u64Max
  weighted : demand.weight = 0 → demand.target = 0

theorem demand_valid (participant : ParticipantSnapshot) (dimension : Dimension) :
    (participant.demand dimension).Valid := by
  have hminimum := (dimension.get participant.profile.minimum).toNat_lt
  have htarget := (dimension.get participant.profile.target).toNat_lt
  unfold ParticipantSnapshot.demand
  constructor
  · dsimp only
    split
    · exact le_rfl
    · split
      · exact le_rfl
      · exact Nat.le_max_right _ _
  · dsimp only [u64Max]
    split
    · exact Nat.zero_le _
    · split <;> omega
  · dsimp only
    split
    · exact fun _ => rfl
    · omega

/-- The values of one kind of resource: within the budget and the targets, at the minimums when
these fit, and at the targets when something is left. -/
structure Allocated (budget : Nat) (demands : List Demand) (values : List Nat) : Prop where
  within : values.sum ≤ budget
  targets : List.Forall₂ (fun demand value => value ≤ demand.target) demands values
  minimums : (demands.map Demand.minimum).sum ≤ budget →
    List.Forall₂ (fun demand value => demand.minimum ≤ value) demands values
  reached : values.sum < budget → values = demands.map Demand.target

variable {demands : List Demand}

theorem minimums_distributed (hbudget : budget ≤ u64Max)
    (hdemands : ∀ demand ∈ demands, demand.Valid) :
    List.Forall₂ (· ≤ ·) ((distribute budget (minimumShares demands)).map Share.output)
        (demands.map Demand.minimum) ∧
      ((distribute budget (minimumShares demands)).map Share.output).sum =
        min budget (demands.map Demand.minimum).sum := by
  have hshares : ∀ share ∈ minimumShares demands, share.output = 0 ∧ share.cap ≤ u64Max ∧
      (share.weight = 0 → share.cap = 0) := fun share hshare => by
    obtain ⟨demand, hdemand, rfl⟩ := mem_map.mp hshare
    obtain ⟨hordered, hbounded, hweighted⟩ := hdemands demand hdemand
    exact ⟨rfl, hordered.trans hbounded, fun hweight => Nat.le_zero.mp
      (hordered.trans (hweighted hweight).le)⟩
  have hcaps : (minimumShares demands).map Share.cap = demands.map Demand.minimum := by
    simp [minimumShares]
  rw [← hcaps]
  exact distribute_new hbudget hshares

def Demand.gap (demand : Demand) : Nat := demand.target - demand.minimum

theorem gapShares_minimums (demands : List Demand) :
    gapShares demands (demands.map Demand.minimum) = demands.map fun demand =>
      ⟨demand.gap, if demand.gap > 0 then demand.weight else 0, 0⟩ := by
  unfold gapShares
  rw [zipWith_map_right, zipWith_self]
  rfl

theorem gaps_distributed (hbudget : budget ≤ u64Max)
    (hdemands : ∀ demand ∈ demands, demand.Valid) : List.Forall₂ (· ≤ ·)
        ((distribute budget (gapShares demands (demands.map Demand.minimum))).map Share.output)
        (demands.map Demand.gap) ∧
      ((distribute budget (gapShares demands (demands.map Demand.minimum))).map
        Share.output).sum = min budget (demands.map Demand.gap).sum := by
  have hshares : ∀ share ∈ gapShares demands (demands.map Demand.minimum), share.output = 0 ∧
      share.cap ≤ u64Max ∧ (share.weight = 0 → share.cap = 0) := fun share hshare => by
    rw [gapShares_minimums] at hshare
    obtain ⟨demand, hdemand, rfl⟩ := mem_map.mp hshare
    obtain ⟨hordered, hbounded, hweighted⟩ := hdemands demand hdemand
    refine ⟨rfl, (Nat.sub_le _ _).trans hbounded, fun hweight => ?_⟩
    dsimp only at hweight ⊢
    unfold Demand.gap at *
    split at hweight
    · have := hweighted hweight
      omega
    · omega
  have hcaps : (gapShares demands (demands.map Demand.minimum)).map Share.cap =
      demands.map Demand.gap := by
    simp [gapShares_minimums]
  rw [← hcaps]
  exact distribute_new hbudget hshares

theorem extras_allocated {extras : List Nat} (hdemands : ∀ demand ∈ demands, demand.Valid)
    (h : List.Forall₂ (· ≤ ·) extras (demands.map Demand.gap)) :
    let values := (demands.map Demand.minimum).zipWith saturatingAdd extras
    values.sum = (demands.map Demand.minimum).sum + extras.sum ∧
      List.Forall₂ (fun demand value => demand.minimum ≤ value ∧ value ≤ demand.target)
        demands values ∧
      (extras = demands.map Demand.gap → values = demands.map Demand.target) := by
  induction demands generalizing extras with
  | nil =>
    cases h
    exact ⟨rfl, .nil, fun _ => rfl⟩
  | cons demand demands ih =>
    cases h with
    | @cons extra _ extras _ hle hrest =>
      obtain ⟨hsum, hall, hreached⟩ := ih (forall_mem_cons.mp hdemands).2 hrest
      obtain ⟨hordered, hbounded, _⟩ := hdemands demand mem_cons_self
      unfold Demand.gap at hle
      have hvalue : saturatingAdd demand.minimum extra = demand.minimum + extra :=
        Nat.min_eq_left (by omega)
      simp only [map_cons, zipWith_cons_cons, sum_cons, hvalue, List.cons.injEq]
      refine ⟨by omega, .cons (by omega) hall, fun hgaps => ⟨?_, hreached hgaps.2⟩⟩
      have hextra := hgaps.1
      unfold Demand.gap at hextra
      omega

variable {values : List Nat}

theorem targets_of_minimums (hdemands : ∀ demand ∈ demands, demand.Valid)
    (h : List.Forall₂ (· ≤ ·) values (demands.map Demand.minimum)) :
    List.Forall₂ (fun demand value => value ≤ demand.target) demands values := by
  induction demands generalizing values with
  | nil =>
    cases h
    exact .nil
  | cons demand demands ih =>
    cases h with
    | cons hle hrest =>
      have hordered := (hdemands demand mem_cons_self).ordered
      exact .cons (hle.trans hordered) (ih (forall_mem_cons.mp hdemands).2 hrest)

theorem dimensionValues_allocated (hbudget : budget ≤ u64Max)
    (hdemands : ∀ demand ∈ demands, demand.Valid) :
    Allocated budget demands (dimensionValues demands budget) := by
  obtain ⟨hminimums, hused⟩ := minimums_distributed hbudget hdemands
  have hgiven (hfit : (demands.map Demand.minimum).sum ≤ budget) :
      (distribute budget (minimumShares demands)).map Share.output =
        demands.map Demand.minimum :=
    eq_of_sum_le hminimums (by omega)
  unfold dimensionValues
  generalize (distribute budget (minimumShares demands)).map Share.output = values at *
  dsimp only
  split
  · rename_i hless
    obtain rfl := hgiven (by omega)
    obtain ⟨hextras, hsum⟩ := @gaps_distributed (budget - (demands.map Demand.minimum).sum) demands
      (by omega) hdemands
    generalize (distribute (budget - (demands.map Demand.minimum).sum) (gapShares demands
      (demands.map Demand.minimum))).map Share.output = extras at *
    obtain ⟨hadded, hall, hreached⟩ := extras_allocated hdemands hextras
    refine ⟨by omega, hall.imp fun _ _ h => h.2, fun _ => hall.imp fun _ _ h => h.1, fun hleft => ?_⟩
    exact hreached (eq_of_sum_le hextras (by omega))
  · have hfull : values.sum = budget := by omega
    refine ⟨by omega, ?_, fun hfit => ?_, fun hleft => by omega⟩
    · exact targets_of_minimums hdemands hminimums
    · obtain rfl := hgiven hfit
      simp [forall₂_map_right_iff, forall₂_same]

theorem distribute_zero (shares : List Share) : distribute 0 shares = shares := by
  rw [distribute, if_neg (fun h => absurd h.1 (Nat.lt_irrefl 0))]

theorem dimensionValues_zero (demands : List Demand) :
    dimensionValues demands 0 = List.replicate demands.length 0 := by
  have hnew : (Share.output ∘ fun demand : Demand => ⟨demand.minimum, demand.weight, 0⟩) =
      fun _ => 0 := rfl
  simp [dimensionValues, distribute_zero, minimumShares, hnew]

theorem Dimension.get_set (dimension other : Dimension) (amount : ResourceAmount) (value : UInt64) :
    dimension.get (other.set amount value) =
      if dimension = other then value else dimension.get amount := by
  cases dimension <;> cases other <;> rfl

/-- What the allocations have of one kind of resource. -/
def amounts (dimension : Dimension) (output : List ResourceAllocation) : List Nat :=
  output.map fun allocation => (dimension.get allocation.amount).toNat

theorem length_dimensionValues (hbudget : budget ≤ u64Max)
    (hdemands : ∀ demand ∈ demands, demand.Valid) :
    (dimensionValues demands budget).length = demands.length :=
  (dimensionValues_allocated hbudget hdemands).targets.length_eq.symm

section Allocations

variable (participants : List ParticipantSnapshot) (budget : UInt64) (dimension : Dimension)

theorem demands_valid :
    ∀ demand ∈ participants.map (·.demand dimension), demand.Valid := fun demand hdemand => by
  obtain ⟨participant, _, rfl⟩ := mem_map.mp hdemand
  exact demand_valid participant dimension

theorem toNat_le_u64Max : budget.toNat ≤ u64Max := by
  have := budget.toNat_lt
  simp only [u64Max]
  omega

theorem toNat_ofNat_values :
    (dimensionValues (participants.map (·.demand dimension)) budget.toNat).map
        (fun value => (UInt64.ofNat value).toNat) =
      dimensionValues (participants.map (·.demand dimension)) budget.toNat := by
  have hallocated := dimensionValues_allocated (toNat_le_u64Max budget)
    (demands_valid participants dimension)
  have hle : ∀ value ∈ dimensionValues (participants.map (·.demand dimension)) budget.toNat,
      value ≤ u64Max := fun value hvalue =>
    (single_le_sum (fun _ _ => Nat.zero_le _) value hvalue).trans
      (hallocated.within.trans (toNat_le_u64Max budget))
  refine (map_congr_left fun value hvalue => ?_).trans (map_id _)
  have hmax := hle value hvalue
  simp only [u64Max] at hmax
  exact UInt64.toNat_ofNat_of_lt (by unfold UInt64.size; omega)

def setAmounts (values : List Nat) (output : List ResourceAllocation) : List ResourceAllocation :=
  output.zipWith (fun allocation value =>
    { allocation with amount := dimension.set allocation.amount (UInt64.ofNat value) }) values

variable {output : List ResourceAllocation}

theorem allocateDimension_eq (hlength : output.length = participants.length)
    (hnew : ∀ allocation ∈ output, dimension.get allocation.amount = 0) :
    allocateDimension participants budget dimension output = setAmounts dimension
        (dimensionValues (participants.map (·.demand dimension)) budget.toNat) output := by
  unfold allocateDimension
  split
  · rename_i hnone
    have hzero (count : Nat) (hcount : count = output.length) :
        setAmounts dimension (List.replicate count 0) output = output := by
      subst hcount
      unfold setAmounts
      clear hlength
      induction output with
      | nil => rfl
      | cons allocation output ih =>
        have hsame : dimension.set allocation.amount (UInt64.ofNat 0) = allocation.amount := by
          have hget := hnew allocation mem_cons_self
          cases dimension <;> simp [Dimension.get, Dimension.set] at hget ⊢ <;> rw [← hget]
        simp only [length_cons, replicate_succ, zipWith_cons_cons, hsame,
          ih (forall_mem_cons.mp hnew).2]
    rcases hnone with rfl | rfl
    · rw [UInt64.toNat_zero, dimensionValues_zero, length_map, hzero _ hlength.symm]
    · obtain rfl := length_eq_zero_iff.mp hlength
      rfl
  · rfl

theorem amounts_setAmounts (hlength : values.length = output.length) (other : Dimension) :
    amounts other (setAmounts dimension values output) =
      if other = dimension then values.map fun value => (UInt64.ofNat value).toNat
      else amounts other output := by
  unfold setAmounts amounts
  induction output generalizing values with
  | nil =>
    obtain rfl := length_eq_zero_iff.mp hlength
    simp
  | cons allocation output ih =>
    cases values with
    | nil => simp at hlength
    | cons value values =>
      rw [zipWith_cons_cons, map_cons, ih (by simpa using hlength), Dimension.get_set]
      split <;> rfl

/-- Who gets an allocation. -/
def owners (output : List ResourceAllocation) : List (UInt64 × ActivityLevel) :=
  output.map fun allocation => (allocation.id, allocation.activity)

theorem owners_setAmounts (hlength : values.length = output.length) :
    owners (setAmounts dimension values output) = owners output := by
  unfold setAmounts owners
  induction output generalizing values with
  | nil => simp
  | cons allocation output ih =>
    cases values with
    | nil => simp at hlength
    | cons value values =>
      rw [zipWith_cons_cons, map_cons, ih (by simpa using hlength)]
      rfl

/-- The allocations while some kinds of resources are still to be distributed. -/
structure Allocates (waiting : Dimension → Bool) (budget : ResourceAmount)
    (output : List ResourceAllocation) : Prop where
  owned : owners output = participants.map fun participant =>
    (participant.id, participant.activity)
  untouched : ∀ dimension, waiting dimension = true →
    ∀ amount ∈ amounts dimension output, amount = 0
  done : ∀ dimension, waiting dimension = false → amounts dimension output =
    dimensionValues (participants.map (·.demand dimension)) (dimension.get budget).toNat

variable {participants} in
theorem Allocates.length {waiting : Dimension → Bool} {budget : ResourceAmount}
    {output : List ResourceAllocation} (h : Allocates participants waiting budget output) :
    output.length = participants.length := by
  simpa [owners] using congrArg List.length h.owned

variable {participants dimension} in
theorem Allocates.step {waiting : Dimension → Bool} {budget : ResourceAmount}
    {output : List ResourceAllocation} (h : Allocates participants waiting budget output)
    (hwaiting : waiting dimension = true) :
    Allocates participants (fun other => waiting other && decide (other ≠ dimension)) budget
      (allocateDimension participants (dimension.get budget) dimension output) := by
  have hnew : ∀ allocation ∈ output, dimension.get allocation.amount = 0 :=
    fun allocation hallocation => UInt64.toNat_inj.mp
      (h.untouched dimension hwaiting _ (mem_map.mpr ⟨allocation, hallocation, rfl⟩))
  have hlength : (dimensionValues (participants.map (·.demand dimension))
      (dimension.get budget).toNat).length = output.length := by
    rw [length_dimensionValues (toNat_le_u64Max _) (demands_valid participants dimension),
      length_map, h.length]
  rw [allocateDimension_eq participants _ _ h.length hnew]
  constructor
  · rw [owners_setAmounts dimension hlength]
    exact h.owned
  · intro other hother
    obtain ⟨hother, hne⟩ := and_eq_true_iff.mp hother
    rw [amounts_setAmounts dimension hlength, if_neg (of_decide_eq_true hne)]
    exact h.untouched other hother
  · intro other hother
    rw [amounts_setAmounts dimension hlength]
    split
    · rename_i heq
      subst heq
      exact toNat_ofNat_values participants _ _
    · rename_i hne
      refine h.done other ?_
      simpa [hne] using hother

theorem allocates (budget : ResourceAmount) :
    Allocates participants (fun _ => false) budget (allocations participants budget) := by
  have hempty : Allocates participants (fun _ => true) budget
      (participants.map fun participant => ⟨participant.id, participant.activity, .default⟩) := by
    constructor
    · simp [owners]
    · intro dimension _ amount hamount
      simp only [amounts, map_map, mem_map] at hamount
      obtain ⟨_, -, rfl⟩ := hamount
      cases dimension <;> rfl
    · simp
  have hcpu := @Allocates.step participants .cpuMemory _ budget _ hempty rfl
  have hgpu := @Allocates.step participants .gpuMemory _ budget _ hcpu rfl
  have hworkers := @Allocates.step participants .workers _ budget _ hgpu rfl
  have hnetwork := @Allocates.step participants .network _ budget _ hworkers rfl
  refine ⟨hnetwork.owned, fun _ h => (by simp at h), fun dimension _ => hnetwork.done dimension ?_⟩
  cases dimension <;> rfl

end Allocations

theorem plan_some (coordinator : ResourceCoordinator) (participants : List ParticipantSnapshot) :
    ∃ plan, coordinator.plan participants = some plan ∧
      plan.allocations = allocations participants plan.budget := by
  have hbudget : (budgetFor (effectiveMode coordinator.mode coordinator.system)
      coordinator.system).isSome := by
    unfold effectiveMode
    split
    · rename_i hmode
      cases heq : coordinator.mode with
      | auto => exact absurd heq hmode
      | saver | balanced | performance => rfl
    · split
      · rfl
      · split <;> rfl
  obtain ⟨budget, heq⟩ := Option.isSome_iff_exists.mp hbudget
  exact ⟨_, by rw [ResourceCoordinator.plan, heq, Option.map_some], rfl⟩

/-- For every budget, each kind of resource is allocated within it and within the effective targets,
at the effective minimums when these fit, and with nothing left over unless all targets are
reached. -/
theorem allocations_sound (participants : List ParticipantSnapshot) (budget : ResourceAmount)
    (dimension : Dimension) :
    owners (allocations participants budget) =
        participants.map (fun participant => (participant.id, participant.activity)) ∧
      (amounts dimension (allocations participants budget)).sum ≤ (dimension.get budget).toNat ∧
      List.Forall₂ (fun participant amount => amount ≤ (participant.demand dimension).target)
        participants (amounts dimension (allocations participants budget)) ∧
      ((participants.map fun participant => (participant.demand dimension).minimum).sum ≤
          (dimension.get budget).toNat →
        List.Forall₂ (fun participant amount => (participant.demand dimension).minimum ≤ amount)
          participants (amounts dimension (allocations participants budget))) ∧
      ((amounts dimension (allocations participants budget)).sum < (dimension.get budget).toNat →
        amounts dimension (allocations participants budget) =
          participants.map fun participant => (participant.demand dimension).target) := by
  obtain ⟨howned, -, hdone⟩ := allocates participants budget
  have hallocated := dimensionValues_allocated (toNat_le_u64Max (dimension.get budget))
    (demands_valid participants dimension)
  rw [← hdone dimension rfl] at hallocated
  refine ⟨howned, hallocated.within, ?_, fun hfit => ?_, fun hleft => ?_⟩
  · exact forall₂_map_left_iff.mp hallocated.targets
  · have hminimums := hallocated.minimums (by simpa [Function.comp_def] using hfit)
    rw [forall₂_map_left_iff] at hminimums
    exact hminimums
  · simpa [Function.comp_def] using hallocated.reached hleft

end KeyReader.Workspace
