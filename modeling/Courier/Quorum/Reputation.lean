import Courier.Quorum.Agreement

/-!
# What is counted of the workers

Every evaluation that finds agreement counts each worker that voted once more, also if it is repeated.  As long as no
task is evaluated again after its votes met the policy, a worker is slashed only for deviations on so many different
tasks (`countsOnce_run`).
-/

namespace Courier.Quorum

open Program

section Reputation

variable [Platform]

def Verifier.rep (v : Verifier) (workerId : Str) : Reputation :=
  (v.reputation.get? workerId).getD ⟨0, 0, 0, false⟩

def Verifier.ballots (v : Verifier) (taskId : Str) : Dict Str WorkerProposal :=
  (v.proposals.get? taskId).getD ∅

def Verifier.votedOn (v : Verifier) (workerId : Str) : List Str :=
  v.proposals.keys.filter fun taskId => ((v.ballots taskId).get? workerId).isSome

/-! ### Counting -/

def Counts (m : Str → QuorumM Unit) (f : Int → Reputation → Reputation) : Prop :=
  ∀ workerId v, ∃ reputation, m workerId v = .ok () { v with reputation := reputation } ∧
    ∀ l, Verifier.rep { v with reputation := reputation } l =
      if l = workerId then f v.slashThreshold (v.rep l) else v.rep l

def Reputation.conforms (rep : Reputation) : Reputation :=
  { rep with totalVotes := rep.totalVotes + 1, conformingCount := rep.conformingCount + 1 }

/-- The reputation of a worker that deviates once more. -/
def Reputation.deviates (slashThreshold : Int) (rep : Reputation) : Reputation :=
  { rep with
    totalVotes := rep.totalVotes + 1
    byzantineCount := rep.byzantineCount + 1
    isUntrusted := rep.isUntrusted || slashThreshold ≤ (rep.byzantineCount + 1 : Nat) }

theorem ensureReputation_eq (workerId : Str) (v : Verifier) :
  ∃ reputation, ensureReputation workerId v = .ok (v.rep workerId) { v with reputation := reputation } ∧
    ∀ l, Verifier.rep { v with reputation := reputation } l = v.rep l
  := by
  rw [ensureReputation, get_bind]
  cases hrep : v.reputation.get? workerId with
  | some rep =>
    refine ⟨v.reputation, ?_, fun l => rfl⟩
    rw [Verifier.rep, hrep]
    rfl
  | none =>
    refine ⟨v.reputation.set workerId ⟨0, 0, 0, false⟩, ?_, fun l => ?_⟩
    · rw [Verifier.rep, hrep]
      rfl
    · rw [Verifier.rep, Dict.get?_set]
      split_ifs with hl
      · rw [hl, Verifier.rep, hrep]
        rfl
      · rfl

theorem counts_of_ensure {f : Int → Reputation → Reputation} :
  Counts (fun workerId => do
    let rep ← ensureReputation workerId
    modify fun v => { v with reputation := v.reputation.set workerId (f v.slashThreshold rep) }) f
  := by
  intro workerId v
  obtain ⟨reputation, hensure, hsame⟩ := ensureReputation_eq workerId v
  refine ⟨reputation.set workerId (f v.slashThreshold (v.rep workerId)), ?_, fun l => ?_⟩
  · change EStateM.bind (ensureReputation workerId) _ v = _
    simp only [EStateM.bind, hensure]
    rfl
  · rw [Verifier.rep, Dict.get?_set]
    split_ifs with hl
    · rw [hl, Option.getD_some]
    · exact hsame l

theorem counts_conforming :
  Counts countConforming fun _ => Reputation.conforms
  := counts_of_ensure (f := fun _ => Reputation.conforms)

theorem counts_byzantine :
  Counts countByzantine Reputation.deviates
  := counts_of_ensure (f := Reputation.deviates)

theorem Counts.forM {m : Str → QuorumM Unit} {f : Int → Reputation → Reputation} (h : Counts m f)
    {workerIds : List Str} (hnodup : workerIds.Nodup) (v : Verifier) :
  ∃ reputation, workerIds.forM m v = .ok () { v with reputation := reputation } ∧
    ∀ l, Verifier.rep { v with reputation := reputation } l =
      if l ∈ workerIds then f v.slashThreshold (v.rep l) else v.rep l
  := by
  induction workerIds generalizing v with
  | nil => exact ⟨v.reputation, rfl, fun l => by simp⟩
  | cons workerId workerIds ih =>
    obtain ⟨hnew, hnodup⟩ := List.nodup_cons.mp hnodup
    obtain ⟨first, hfirst, hone⟩ := h workerId v
    obtain ⟨reputation, hrest, hmany⟩ := ih hnodup { v with reputation := first }
    refine ⟨reputation, ?_, fun l => ?_⟩
    · change EStateM.bind (m workerId) _ v = _
      simp only [EStateM.bind, hfirst]
      exact hrest
    · rw [hmany l, hone l]
      by_cases hl : l = workerId
      · rw [if_neg (hl ▸ hnew), if_pos hl, if_pos (by simp [hl])]
      · simp [hl]

/-! ### Evaluations -/

def Verifier.Keyed (v : Verifier) : Prop :=
  ∀ taskId workerId p, (v.ballots taskId).get? workerId = some p → p.workerId = workerId

theorem Verifier.Keyed.ballot {v : Verifier} (h : v.Keyed) {taskId workerId : Str} {p : WorkerProposal} :
  (v.ballots taskId).get? workerId = some p ↔ p ∈ v.votes taskId ∧ p.workerId = workerId
  := by
  constructor
  · intro hp
    exact ⟨Dict.mem_values.mpr ⟨workerId, hp⟩, h _ _ _ hp⟩
  · rintro ⟨hp, rfl⟩
    obtain ⟨k, hk⟩ := Dict.mem_values.mp hp
    rwa [h _ _ _ hk]

theorem Verifier.Keyed.nodup {v : Verifier} (h : v.Keyed) (taskId : Str) :
  ((v.votes taskId).map WorkerProposal.workerId).Nodup
  := by
  have hkeys : (v.votes taskId).map WorkerProposal.workerId = (v.ballots taskId).keys := by
    rw [Verifier.votes, ← Verifier.ballots, Dict.values, Dict.keys, List.map_map]
    apply List.map_congr_left
    intro p hp
    exact h _ _ _ (Dict.get?_eq_some.mpr hp)
  rw [hkeys]
  exact (v.ballots taskId).nodup

omit [Platform] in
theorem mem_workers [Platform] {proposals : List WorkerProposal} {workerId : Str} :
  workerId ∈ workers proposals ↔ ∃ p ∈ proposals, p.workerId = workerId
  := by
  rw [workers, List.mem_insertionSort, List.mem_map]

theorem nodup_workers {votes proposals : List WorkerProposal}
    (hvotes : (votes.map WorkerProposal.workerId).Nodup) (h : proposals.Sublist votes) :
  (workers proposals).Nodup
  := by
  rw [workers, (List.perm_insertionSort _ _).nodup_iff]
  exact hvotes.sublist (h.map _)

def Verifier.Decided (v : Verifier) (taskId : Str) : Prop :=
  v.minParticipants ≤ (v.votes taskId).length ∧
    ∃ p ∈ v.votes taskId, v.policy.Met (count (v.votes taskId) p.resultDigest) (v.votes taskId).length

/-- What an evaluation that found agreement has counted. -/
structure Counted (v : Verifier) (taskId : Str) (r : QuorumResult) (v' : Verifier) : Prop where
  achieved : r.achieved
  task : r.taskId = taskId
  decided : v.Decided taskId
  conforming : ∀ {workerId}, workerId ∈ r.conformingWorkers ↔
    ∃ p ∈ v.votes taskId, p.workerId = workerId ∧ r.winningDigest = some p.resultDigest
  byzantine : ∀ {workerId}, workerId ∈ r.byzantineWorkers ↔
    ∃ p ∈ v.votes taskId, p.workerId = workerId ∧ r.winningDigest ≠ some p.resultDigest
  rest : v' = { v with reputation := v'.reputation }
  rep : ∀ workerId, v'.rep workerId =
    if workerId ∈ r.byzantineWorkers then (v.rep workerId).deviates v.slashThreshold
    else if workerId ∈ r.conformingWorkers then (v.rep workerId).conforms
    else v.rep workerId

theorem group_eq {proposals group : List WorkerProposal} {digest : Str}
    (h : (digest, group) ∈ sortedGroups proposals) :
  group = proposals.filter fun p => p.resultDigest = digest
  := by
  have hget : (groups proposals).get? digest = some group :=
    Dict.get?_eq_some.mpr ((List.mem_insertionSort _).mp h)
  rw [← get?_groups, hget, Option.getD_some]

theorem disjoint_workers {votes : List WorkerProposal} (hvotes : (votes.map WorkerProposal.workerId).Nodup)
    {digest workerId : Str} (h : workerId ∈ workers (votes.filter fun p => p.resultDigest ≠ digest)) :
  workerId ∉ workers (votes.filter fun p => p.resultDigest = digest)
  := by
  intro hother
  obtain ⟨p, hp, hworker⟩ := mem_workers.mp h
  obtain ⟨q, hq, hworker'⟩ := mem_workers.mp hother
  obtain ⟨hp, hne⟩ := List.mem_filter.mp hp
  obtain ⟨hq, heq⟩ := List.mem_filter.mp hq
  have hsame : p = q := List.inj_on_of_nodup_map hvotes hp hq (hworker.trans hworker'.symm)
  rw [hsame] at hne
  exact of_decide_eq_true hne (of_decide_eq_true heq)

/-- An evaluation either counts the workers or changes nothing. -/
theorem wp_evaluateQuorum_counted {v : Verifier} (h : v.Keyed) (taskId : Str) :
  wp (evaluateQuorum taskId) (fun r v' => (r.achieved = false ∧ v' = v) ∨ Counted v taskId r v')
    (fun _ v' => v' = v) v
  := by
  rw [evaluateQuorum, wp_bind, wp_get]
  change wp (if ((v.votes taskId).length : Int) < v.minParticipants then _ else _) _ _ v
  split_ifs with hfew
  · exact rfl
  · split
    · next topDigest top others rest hsorted =>
      change sortedGroups (v.votes taskId) = _ at hsorted
      have hgroup : top :: others = (v.votes taskId).filter fun p => p.resultDigest = topDigest :=
        group_eq (by rw [hsorted]; exact List.mem_cons_self)
      dsimp only
      split_ifs with hmet
      · have hconforming : (workers (top :: others)).Nodup :=
          nodup_workers (h.nodup taskId) (hgroup ▸ List.filter_sublist)
        have hbyzantine : (workers ((v.votes taskId).filter fun p => p.resultDigest ≠ topDigest)).Nodup :=
          nodup_workers (h.nodup taskId) List.filter_sublist
        obtain ⟨first, hfirst, hone⟩ := counts_conforming.forM hconforming v
        obtain ⟨second, hsecond, htwo⟩ := counts_byzantine.forM hbyzantine { v with reputation := first }
        rw [wp_bind]
        apply wp_of_ok hfirst
        rw [wp_bind]
        apply wp_of_ok hsecond
        refine .inr ⟨rfl, rfl, ?_, ?_, ?_, rfl, ?_⟩
        · obtain ⟨hvote, hdigest⟩ := List.mem_filter.mp (hgroup ▸ List.mem_cons_self (l := others))
          have hlength : (top :: others).length = count (v.votes taskId) topDigest := by
            rw [hgroup, count, List.countP_eq_length_filter]
          refine ⟨not_lt.mp hfew, top, hvote, ?_⟩
          rw [of_decide_eq_true hdigest, ← hlength]
          exact hmet
        · intro workerId
          rw [mem_workers, hgroup]
          constructor
          · rintro ⟨p, hp, hworker⟩
            obtain ⟨hp, hdigest⟩ := List.mem_filter.mp hp
            exact ⟨p, hp, hworker, congrArg some (of_decide_eq_true hdigest).symm⟩
          · rintro ⟨p, hp, hworker, hdigest⟩
            exact ⟨p, List.mem_filter.mpr ⟨hp, decide_eq_true (Option.some.inj hdigest).symm⟩, hworker⟩
        · intro workerId
          rw [mem_workers]
          constructor
          · rintro ⟨p, hp, hworker⟩
            obtain ⟨hp, hdigest⟩ := List.mem_filter.mp hp
            exact ⟨p, hp, hworker, fun heq => of_decide_eq_true hdigest (Option.some.inj heq).symm⟩
          · rintro ⟨p, hp, hworker, hdigest⟩
            exact ⟨p, List.mem_filter.mpr ⟨hp, decide_eq_true fun heq => hdigest (congrArg some heq.symm)⟩,
              hworker⟩
        · intro workerId
          refine (htwo workerId).trans ?_
          by_cases hworker : workerId ∈ workers ((v.votes taskId).filter fun p => p.resultDigest ≠ topDigest)
          · have hnot : workerId ∉ workers (top :: others) := by
              rw [hgroup]
              exact disjoint_workers (h.nodup taskId) hworker
            refine (if_pos hworker).trans (Eq.trans ?_ (if_pos hworker).symm)
            rw [hone, if_neg hnot]
          · exact (if_neg hworker).trans ((hone workerId).trans (if_neg hworker).symm)
      · exact .inl ⟨rfl, rfl⟩
    · exact rfl

/-! ### Runs -/

variable {slashThreshold : Int}

def Verifier.resultOf (v : Verifier) : Call → List QuorumResult
  | .evaluate taskId =>
      match evaluateQuorum taskId v with
      | .ok r _ => if r.achieved then [r] else []
      | .error _ _ => []
  | .submit _ => []
  | .reputation _ => []

/-- The evaluations in a run that found agreement. -/
def Verifier.results (v : Verifier) : List Call → List QuorumResult
  | [] => []
  | call :: calls => v.resultOf call ++ (v.after call).results calls

/-- What has been counted of the workers, after evaluations that found agreement. -/
structure History (slashThreshold : Int) (v : Verifier) (results : List QuorumResult) : Prop where
  keyed : v.Keyed
  threshold : v.slashThreshold = slashThreshold
  conforming : ∀ workerId,
    (v.rep workerId).conformingCount = results.countP fun r => workerId ∈ r.conformingWorkers
  byzantine : ∀ workerId,
    (v.rep workerId).byzantineCount = results.countP fun r => workerId ∈ r.byzantineWorkers
  total : ∀ workerId, (v.rep workerId).totalVotes =
    (v.rep workerId).conformingCount + (v.rep workerId).byzantineCount
  slashed : ∀ workerId, (v.rep workerId).isUntrusted → slashThreshold ≤ (v.rep workerId).byzantineCount
  voted : ∀ r ∈ results, ∀ workerId, workerId ∈ r.conformingWorkers ∨ workerId ∈ r.byzantineWorkers →
    r.taskId ∈ v.votedOn workerId
  apart : ∀ r ∈ results, ∀ workerId ∈ r.byzantineWorkers, workerId ∉ r.conformingWorkers

theorem Verifier.Keyed.mem_votedOn {v : Verifier} (h : v.Keyed) {taskId workerId : Str} :
  taskId ∈ v.votedOn workerId ↔ ∃ p ∈ v.votes taskId, p.workerId = workerId
  := by
  rw [Verifier.votedOn, List.mem_filter, Option.isSome_iff_exists]
  simp only [h.ballot]
  refine and_iff_right_of_imp ?_
  rintro ⟨p, hp, -⟩
  rw [← Dict.get?_isSome]
  rw [Verifier.votes] at hp
  cases htask : v.proposals.get? taskId with
  | some ballots => rfl
  | none =>
    rw [htask] at hp
    cases hp

theorem History.extend {v v' : Verifier} {results : List QuorumResult} (h : History slashThreshold v results)
    (hkeyed : v'.Keyed) (hextends : v.Extends v') (hthreshold : v'.slashThreshold = v.slashThreshold)
    (hrep : ∀ workerId, v'.rep workerId = v.rep workerId) :
  History slashThreshold v' results
  where
  keyed := hkeyed
  threshold := hthreshold.trans h.threshold
  conforming workerId := by rw [hrep, h.conforming]
  byzantine workerId := by rw [hrep, h.byzantine]
  total workerId := by rw [hrep, h.total]
  slashed workerId := by
    rw [hrep]
    exact h.slashed workerId
  voted r hr workerId hcounted := by
    obtain ⟨p, hp, hworker⟩ := h.keyed.mem_votedOn.mp (h.voted r hr workerId hcounted)
    exact hkeyed.mem_votedOn.mpr ⟨p, (hextends.votes r.taskId).subset hp, hworker⟩
  apart := h.apart

/-- An evaluation that finds agreement is counted. -/
theorem History.counted {v v' : Verifier} {results : List QuorumResult} (h : History slashThreshold v results) {taskId : Str}
    {r : QuorumResult} (hcounted : Counted v taskId r v') :
  History slashThreshold v' (results ++ [r])
  := by
  have hproposals : v'.proposals = v.proposals := by rw [hcounted.rest]
  have hthreshold : v'.slashThreshold = v.slashThreshold := by rw [hcounted.rest]
  have hballots : ∀ taskId, v'.ballots taskId = v.ballots taskId := by
    intro taskId
    rw [Verifier.ballots, hproposals, ← Verifier.ballots]
  have hvotedOn : ∀ workerId, v'.votedOn workerId = v.votedOn workerId := by
    intro workerId
    simp only [Verifier.votedOn, hproposals, hballots]
  have hapart : ∀ workerId ∈ r.byzantineWorkers, workerId ∉ r.conformingWorkers := by
    intro workerId hbyzantine hconforming
    obtain ⟨p, hp, hworker, hne⟩ := hcounted.byzantine.mp hbyzantine
    obtain ⟨q, hq, hworker', heq⟩ := hcounted.conforming.mp hconforming
    rw [List.inj_on_of_nodup_map (h.keyed.nodup taskId) hp hq (hworker.trans hworker'.symm)] at hne
    exact hne heq
  constructor
  · intro taskId workerId p hp
    rw [hballots] at hp
    exact h.keyed taskId workerId p hp
  · exact hthreshold.trans h.threshold
  · intro workerId
    rw [hcounted.rep, List.countP_append, List.countP_singleton, ← h.conforming]
    simp only [decide_eq_true_eq]
    by_cases hbyzantine : workerId ∈ r.byzantineWorkers
    · rw [if_pos hbyzantine, if_neg (hapart workerId hbyzantine)]
      rfl
    · rw [if_neg hbyzantine]
      split_ifs <;> rfl
  · intro workerId
    rw [hcounted.rep, List.countP_append, List.countP_singleton, ← h.byzantine]
    simp only [decide_eq_true_eq]
    split_ifs <;> rfl
  · intro workerId
    have htotal := h.total workerId
    rw [hcounted.rep]
    split_ifs
    · simp only [Reputation.deviates]
      omega
    · simp only [Reputation.conforms]
      omega
    · exact htotal
  · intro workerId
    have hslashed := h.slashed workerId
    rw [hcounted.rep, h.threshold]
    split_ifs
    · simp only [Reputation.deviates, Bool.or_eq_true, decide_eq_true_eq]
      rintro (huntrusted | hle)
      · have hle := hslashed huntrusted
        omega
      · exact hle
    · exact hslashed
    · exact hslashed
  · intro r' hr' workerId hworker
    rw [hvotedOn]
    rcases List.mem_append.mp hr' with hr' | hr'
    · exact h.voted r' hr' workerId hworker
    · rw [List.mem_singleton.mp hr'] at hworker ⊢
      rw [hcounted.task, h.keyed.mem_votedOn]
      rcases hworker with hworker | hworker
      · obtain ⟨p, hp, hworker, -⟩ := hcounted.conforming.mp hworker
        exact ⟨p, hp, hworker⟩
      · obtain ⟨p, hp, hworker, -⟩ := hcounted.byzantine.mp hworker
        exact ⟨p, hp, hworker⟩
  · intro r' hr'
    rcases List.mem_append.mp hr' with hr' | hr'
    · exact h.apart r' hr'
    · rw [List.mem_singleton.mp hr']
      exact hapart

theorem keeps_submitProposal_rep {v : Verifier} (proposal : WorkerProposal) :
  Keeps (fun v' => v'.Keyed ∧ v'.slashThreshold = v.slashThreshold ∧ v'.reputation = v.reputation)
    (submitProposal proposal)
  := by
  have hset : ∀ {v' : Verifier}, v'.Keyed → ∀ {taskId : Str} {ballots : Dict Str WorkerProposal},
      (∀ workerId p, ballots.get? workerId = some p → p.workerId = workerId) →
      Verifier.Keyed { v' with proposals := v'.proposals.set taskId ballots } := by
    intro v' hkeyed taskId ballots hballots taskId' workerId p hp
    rw [Verifier.ballots, Dict.get?_set] at hp
    split_ifs at hp
    · exact hballots workerId p hp
    · exact hkeyed taskId' workerId p hp
  apply keeps_get
  rintro v' ⟨hkeyed, hthreshold, hreputation⟩
  dsimp only
  split
  · exact keeps_raise _ _
  · apply keeps_bind (keeps_set ⟨hset hkeyed (hkeyed proposal.taskId), hthreshold, hreputation⟩)
    intro _
    split
    · exact keeps_raise _ _
    · apply keeps_set
      refine ⟨hset hkeyed ?_, hthreshold, hreputation⟩
      intro workerId p hp
      rw [Dict.get?_set] at hp
      split_ifs at hp with hworker
      · cases hp
        exact hworker.symm
      · exact hkeyed _ workerId p hp

/-- What a call counts. -/
theorem History.after {v : Verifier} {results : List QuorumResult} (h : History slashThreshold v results) (call : Call) :
  History slashThreshold (v.after call) (results ++ v.resultOf call)
  := by
  have hextends : v.Extends (v.after call) := by
    unfold Verifier.after
    cases hcall : perform call v with
    | ok a v' => exact (keeps_perform v call).of_ok (.refl v) hcall
    | error e v' => exact (keeps_perform v call).of_error (.refl v) hcall
  cases call with
  | submit proposal =>
    have hkept : (v.after (.submit proposal)).Keyed ∧ (v.after (.submit proposal)).slashThreshold =
        v.slashThreshold ∧ (v.after (.submit proposal)).reputation = v.reputation := by
      unfold Verifier.after
      cases hcall : perform (.submit proposal) v with
      | ok a v' => exact (keeps_submitProposal_rep proposal).of_ok ⟨h.keyed, rfl, rfl⟩ hcall
      | error e v' => exact (keeps_submitProposal_rep proposal).of_error ⟨h.keyed, rfl, rfl⟩ hcall
    obtain ⟨hkeyed, hthreshold, hreputation⟩ := hkept
    rw [Verifier.resultOf, List.append_nil]
    refine h.extend hkeyed hextends hthreshold fun workerId => ?_
    rw [Verifier.rep, hreputation, Verifier.rep]
  | evaluate taskId =>
    have hcases := wp_evaluateQuorum_counted h.keyed taskId
    have hafter : v.after (.evaluate taskId) = (match evaluateQuorum taskId v with
        | .ok _ v' => v'
        | .error _ v' => v') := by
      have hperform : perform (.evaluate taskId) v = (match evaluateQuorum taskId v with
          | .ok _ v' => .ok () v'
          | .error e v' => .error e v') := by
        change EStateM.map _ (evaluateQuorum taskId) v = _
        rw [EStateM.map]
        cases evaluateQuorum taskId v <;> rfl
      rw [Verifier.after, hperform]
      cases evaluateQuorum taskId v <;> rfl
    rw [hafter, Verifier.resultOf]
    cases hrun : evaluateQuorum taskId v with
    | error e v' =>
      rw [raised_of_wp hcases hrun, List.append_nil]
      exact h
    | ok r v' =>
      dsimp only
      rcases normal_of_wp hcases hrun with ⟨hfailed, rfl⟩ | hcounted
      · rw [hfailed, if_neg Bool.false_ne_true, List.append_nil]
        exact h
      · rw [if_pos hcounted.achieved]
        exact h.counted hcounted
  | reputation workerId =>
    obtain ⟨reputation, hensure, hsame⟩ := ensureReputation_eq workerId v
    have hafter : v.after (.reputation workerId) = { v with reputation := reputation } := by
      have hperform : perform (.reputation workerId) v = .ok () { v with reputation := reputation } := by
        change EStateM.map _ (ensureReputation workerId) v = _
        rw [EStateM.map, hensure]
      rw [Verifier.after, hperform]
    rw [hafter, Verifier.resultOf, List.append_nil]
    exact h.extend h.keyed ⟨rfl, fun _ => List.prefix_refl _⟩ rfl hsame

theorem History.run {v : Verifier} {results : List QuorumResult} (h : History slashThreshold v results) (calls : List Call) :
  History slashThreshold (v.run calls) (results ++ v.results calls)
  := by
  induction calls generalizing v results with
  | nil =>
    rw [Verifier.results, List.append_nil]
    exact h
  | cons call calls ih =>
    rw [Verifier.results, ← List.append_assoc]
    exact ih (h.after call)

theorem resultOf_cases {v : Verifier} (h : v.Keyed) (call : Call) :
  v.resultOf call = [] ∨ ∃ taskId r v', call = .evaluate taskId ∧ v.resultOf call = [r] ∧
    evaluateQuorum taskId v = .ok r v' ∧ Counted v taskId r v'
  := by
  cases call with
  | submit proposal => exact .inl rfl
  | reputation workerId => exact .inl rfl
  | evaluate taskId =>
    rw [Verifier.resultOf]
    cases hrun : evaluateQuorum taskId v with
    | error e v' => exact .inl rfl
    | ok r v' =>
      dsimp only
      rcases normal_of_wp (wp_evaluateQuorum_counted h taskId) hrun with ⟨hfailed, -⟩ | hcounted
      · rw [hfailed]
        exact .inl rfl
      · rw [if_pos hcounted.achieved]
        exact .inr ⟨taskId, r, v', rfl, rfl, hrun, hcounted⟩

theorem mem_results {v : Verifier} {results : List QuorumResult} (h : History slashThreshold v results) {calls : List Call}
    {r : QuorumResult} (hr : r ∈ v.results calls) :
  ∃ first v', first ++ [.evaluate r.taskId] <+: calls ∧ evaluateQuorum r.taskId (v.run first) = .ok r v' ∧
    Counted (v.run first) r.taskId r v'
  := by
  induction calls generalizing v results with
  | nil => cases hr
  | cons call calls ih =>
    rcases List.mem_append.mp hr with hr | hr
    · rcases resultOf_cases h.keyed call with hnone | ⟨taskId, r', v', rfl, hone, hrun, hcounted⟩
      · rw [hnone] at hr
        cases hr
      · rw [hone] at hr
        obtain rfl := List.mem_singleton.mp hr
        rw [hcounted.task]
        exact ⟨[], v', by simp, hrun, hcounted⟩
    · obtain ⟨first, v', hinit, hrun, hcounted⟩ := ih (h.after call) hr
      exact ⟨call :: first, v', List.cons_prefix_cons.mpr ⟨rfl, hinit⟩, hrun, hcounted⟩

/-- No task is evaluated again after its votes met the policy when it was evaluated. -/
def EvaluatedOnce (v : Verifier) (calls : List Call) : Prop :=
  ∀ first between taskId, first ++ .evaluate taskId :: (between ++ [.evaluate taskId]) <+: calls →
    ¬ (v.run first).Decided taskId

theorem nodup_results {v : Verifier} {results : List QuorumResult} (h : History slashThreshold v results) {calls : List Call}
    (honce : EvaluatedOnce v calls) :
  ((v.results calls).map QuorumResult.taskId).Nodup
  := by
  induction calls generalizing v results with
  | nil => exact List.nodup_nil
  | cons call calls ih =>
    have hrest : EvaluatedOnce (v.after call) calls := by
      intro first between taskId hinit
      exact honce (call :: first) between taskId (List.cons_prefix_cons.mpr ⟨rfl, hinit⟩)
    have htail := ih (h.after call) hrest
    rw [Verifier.results, List.map_append]
    rcases resultOf_cases h.keyed call with hnone | ⟨taskId, r, v', rfl, hone, -, hcounted⟩
    · rwa [hnone]
    · rw [hone]
      refine List.nodup_cons.mpr ⟨?_, htail⟩
      intro hmem
      obtain ⟨r', hr', htask⟩ := List.mem_map.mp hmem
      obtain ⟨between, -, hinit, -⟩ := mem_results (h.after _) hr'
      rw [htask, hcounted.task] at hinit
      exact honce [] between taskId (List.cons_prefix_cons.mpr ⟨rfl, hinit⟩) hcounted.decided

/-! ### Deviations -/

def Deviates (v : Verifier) (calls : List Call) (workerId taskId : Str) : Prop :=
  ∃ first r v', first ++ [.evaluate taskId] <+: calls ∧ evaluateQuorum taskId (v.run first) = .ok r v' ∧
    r.achieved ∧ ∃ p ∈ (v.run first).votes taskId, p.workerId = workerId ∧
      r.winningDigest ≠ some p.resultDigest

structure CountsOnce (v : Verifier) (calls : List Call) (workerId : Str) : Prop where
  slashed : ((v.run calls).rep workerId).isUntrusted → ∃ taskIds : List Str, taskIds.Nodup ∧
    v.slashThreshold ≤ taskIds.length ∧ ∀ taskId ∈ taskIds, Deviates v calls workerId taskId
  total : ((v.run calls).rep workerId).totalVotes =
    ((v.run calls).rep workerId).conformingCount + ((v.run calls).rep workerId).byzantineCount
  votes : ((v.run calls).rep workerId).totalVotes ≤ ((v.run calls).votedOn workerId).length

theorem history_new (minParticipants : Int) (policy : Policy) (slashThreshold : Int) :
  History (max 1 slashThreshold) (.new minParticipants policy slashThreshold) []
  where
  keyed taskId workerId p hp := by cases hp
  threshold := rfl
  conforming _ := rfl
  byzantine _ := rfl
  total _ := rfl
  slashed workerId huntrusted := by cases huntrusted
  voted r hr := absurd hr List.not_mem_nil
  apart r hr := absurd hr List.not_mem_nil

omit [Platform] in
theorem countP_add_of_apart {results : List QuorumResult} {workerId : Str}
    (h : ∀ r ∈ results, workerId ∈ r.byzantineWorkers → workerId ∉ r.conformingWorkers) :
  (results.countP fun r => workerId ∈ r.conformingWorkers) +
      (results.countP fun r => workerId ∈ r.byzantineWorkers) =
    results.countP fun r => workerId ∈ r.conformingWorkers ∨ workerId ∈ r.byzantineWorkers
  := by
  induction results with
  | nil => rfl
  | cons r results ih =>
    obtain ⟨hr, hrest⟩ := List.forall_mem_cons.mp h
    have hsum := ih hrest
    simp only [List.countP_cons, decide_eq_true_eq]
    by_cases hbyzantine : workerId ∈ r.byzantineWorkers
    · rw [if_neg (hr hbyzantine), if_pos hbyzantine, if_pos (.inr hbyzantine)]
      omega
    · simp only [hbyzantine, or_false, if_false]
      omega

/-- In a run in which no task is evaluated again after its votes met the policy, deviations are counted
once. -/
theorem countsOnce_run {minParticipants : Int} {policy : Policy} {calls : List Call}
    (honce : EvaluatedOnce (.new minParticipants policy slashThreshold) calls) (workerId : Str) :
  CountsOnce (.new minParticipants policy slashThreshold) calls workerId
  := by
  have hnew := history_new minParticipants policy slashThreshold
  have hnodup := nodup_results hnew honce
  have hrun := hnew.run calls
  rw [List.nil_append] at hrun
  generalize hstart : Verifier.new minParticipants policy slashThreshold = v at *
  have htasks : ∀ p : QuorumResult → Bool,
      (((v.results calls).filter p).map QuorumResult.taskId).Nodup ∧
      (((v.results calls).filter p).map QuorumResult.taskId).length = (v.results calls).countP p := by
    intro p
    refine ⟨hnodup.sublist (List.filter_sublist.map _), ?_⟩
    rw [List.length_map, List.countP_eq_length_filter]
  refine ⟨fun huntrusted => ?_, hrun.total workerId, ?_⟩
  · obtain ⟨hdistinct, hlength⟩ := htasks fun r => workerId ∈ r.byzantineWorkers
    refine ⟨_, hdistinct, ?_, ?_⟩
    · rw [hlength, ← hrun.byzantine, hnew.threshold]
      exact hrun.slashed workerId huntrusted
    · intro taskId htask
      obtain ⟨r, hr, rfl⟩ := List.mem_map.mp htask
      obtain ⟨hr, hbyzantine⟩ := List.mem_filter.mp hr
      obtain ⟨first, v', hinit, heval, hcounted⟩ := mem_results hnew hr
      exact ⟨first, r, v', hinit, heval, hcounted.achieved,
        hcounted.byzantine.mp (of_decide_eq_true hbyzantine)⟩
  · obtain ⟨hdistinct, hlength⟩ := htasks fun r =>
      workerId ∈ r.conformingWorkers ∨ workerId ∈ r.byzantineWorkers
    rw [hrun.total, hrun.conforming, hrun.byzantine, countP_add_of_apart fun r hr => hrun.apart r hr workerId,
      ← hlength]
    apply (hdistinct.subperm _).length_le
    intro taskId htask
    obtain ⟨r, hr, rfl⟩ := List.mem_map.mp htask
    obtain ⟨hr, hcounted⟩ := List.mem_filter.mp hr
    exact hrun.voted r hr workerId (of_decide_eq_true hcounted)

end Reputation

/-! ### An evaluation that is repeated -/

section Example

local instance platformReputation : Platform := Platform.plain

def votesFor (worker output : String) : Call :=
  .submit ⟨text "task-1", text worker, [(text "output", .str (text output))], _, [], rfl⟩

def evaluatedTimes (n : Nat) : List Call :=
  [votesFor "w1" "A", votesFor "w2" "A", votesFor "w3" "B"] ++ List.replicate n (.evaluate (text "task-1"))

/-- After one evaluation the third worker is slashed if one deviation is enough. -/
theorem countsOnce_single :
  CountsOnce (.new 3 .supermajorityTwoThirds 1) (evaluatedTimes 1) (text "w3")
  := by
  apply countsOnce_run
  intro first between taskId hinit
  have hle := hinit.sublist.countP_le (p := fun call => match call with
    | .evaluate _ => true
    | _ => false)
  simp only [evaluatedTimes, votesFor, List.countP_append, List.countP_cons, List.countP_nil, List.replicate,
    if_true, Bool.false_eq_true, if_false] at hle
  omega

/-- After three evaluations of the one task it is slashed, although three deviations are needed. -/
theorem not_countsOnce_repeated :
  ¬ CountsOnce (.new 3 .supermajorityTwoThirds 3) (evaluatedTimes 3) (text "w3")
  := by
  intro h
  obtain ⟨taskIds, hnodup, hlength, hall⟩ := h.slashed (by decide +kernel)
  have hsubset : taskIds ⊆ [text "task-1"] := by
    intro taskId htask
    obtain ⟨first, r, v', hinit, -⟩ := hall taskId htask
    have hmem : Call.evaluate taskId ∈ evaluatedTimes 3 := hinit.subset (by simp)
    simpa [evaluatedTimes, votesFor] using hmem
  have hle := (hnodup.subperm hsubset).length_le
  have hthree : (3 : Int) ≤ taskIds.length := hlength
  rw [List.length_singleton] at hle
  omega

end Example

end Courier.Quorum
