import Courier.Quorum
import Courier.Library.Run

/-!
# Agreement

Proposals are only ever added to a task, so a digest that was agreed on keeps its proposals, and a
later evaluation agrees on another digest only if the workers outside of its first group are enough
for the policy by themselves (`agreed_run`).
-/

namespace Courier.Quorum

open Program

section Agreement

variable [Platform]

def Verifier.votes (v : Verifier) (taskId : Str) : List WorkerProposal :=
  ((v.proposals.get? taskId).getD ∅).values

def count (proposals : List WorkerProposal) (digest : Str) : Nat :=
  proposals.countP fun p => p.resultDigest = digest

/-! ### Groups -/

theorem get?_groups (proposals : List WorkerProposal) (digest : Str) :
  ((groups proposals).get? digest).getD [] = proposals.filter fun p => p.resultDigest = digest
  := by
  induction proposals using List.reverseRecOn with
  | nil => rfl
  | append_singleton proposals p ih =>
    rw [groups, List.foldl_concat, ← groups, Dict.get?_set, List.filter_append]
    by_cases h : p.resultDigest = digest
    · rw [if_pos h.symm, Option.getD_some, h, ih, List.filter_singleton, decide_eq_true h]
      rfl
    · rw [if_neg (Ne.symm h), ih, List.filter_singleton, decide_eq_false h]
      exact (List.append_nil _).symm

theorem length_sortedGroups {proposals group : List WorkerProposal} {digest : Str}
    (h : (digest, group) ∈ sortedGroups proposals) :
  group.length = count proposals digest
  := by
  have hget : (groups proposals).get? digest = some group :=
    Dict.get?_eq_some.mpr ((List.mem_insertionSort _).mp h)
  have hgroup := get?_groups proposals digest
  rw [hget, Option.getD_some] at hgroup
  rw [hgroup, count, List.countP_eq_length_filter]

omit [Platform] in
theorem count_add_le [Platform] {proposals : List WorkerProposal} {one two : Str} (h : one ≠ two) :
  count proposals one + count proposals two ≤ proposals.length
  := by
  induction proposals with
  | nil => exact le_refl _
  | cons p proposals ih =>
    simp only [count, List.countP_cons, List.length_cons, decide_eq_true_eq] at ih ⊢
    split_ifs with hone htwo
    · exact absurd (hone.symm.trans htwo) h
    all_goals omega

/-! ### Evaluations -/

/-- The policy stays, and so do the proposals of every task, to which others may be added. -/
structure Verifier.Extends (v v' : Verifier) : Prop where
  policy : v'.policy = v.policy
  votes : ∀ taskId, v.votes taskId <+: v'.votes taskId

theorem Verifier.Extends.refl (v : Verifier) :
  v.Extends v
  :=
  ⟨rfl, fun _ => List.prefix_refl _⟩

theorem Verifier.Extends.trans {v v' v'' : Verifier} (h : v.Extends v') (h' : v'.Extends v'') :
  v.Extends v''
  :=
  ⟨h'.policy.trans h.policy, fun taskId => (h.votes taskId).trans (h'.votes taskId)⟩

theorem Verifier.Extends.reputation {v v' : Verifier} (h : v.Extends v')
    (reputation : Dict Str Reputation) :
  v.Extends { v' with reputation := reputation }
  :=
  ⟨h.policy, h.votes⟩

theorem keeps_ensureReputation (v : Verifier) (workerId : Str) :
  Keeps v.Extends (ensureReputation workerId)
  := by
  apply keeps_get
  intro v' h
  split
  · exact keeps_pure _
  · apply keeps_bind (keeps_set (h.reputation _))
    exact fun _ => keeps_pure _

theorem keeps_countConforming (v : Verifier) (workerId : Str) :
  Keeps v.Extends (countConforming workerId)
  := by
  apply keeps_bind (keeps_ensureReputation v workerId)
  intro rep
  exact keeps_modify fun v' h => h.reputation _

theorem keeps_countByzantine (v : Verifier) (workerId : Str) :
  Keeps v.Extends (countByzantine workerId)
  := by
  apply keeps_bind (keeps_ensureReputation v workerId)
  intro rep
  exact keeps_modify fun v' h => h.reputation _

/-- What an evaluation that found agreement tells of the proposals. -/
structure Agreed (v : Verifier) (taskId : Str) (r : QuorumResult) (digest : Str) : Prop where
  winning : r.winningDigest = some digest
  participants : r.participatingWorkers.length = (v.votes taskId).length
  conforming : r.conformingWorkers.length = count (v.votes taskId) digest
  some : 0 < r.conformingWorkers.length
  met : v.policy.Met r.conformingWorkers.length r.participatingWorkers.length

theorem length_workers (proposals : List WorkerProposal) :
  (workers proposals).length = proposals.length
  := by
  rw [workers, List.length_insertionSort, List.length_map]

theorem wp_evaluateQuorum (v : Verifier) (taskId : Str) :
  wp (evaluateQuorum taskId)
    (fun r v' => v.Extends v' ∧ (r.achieved → ∃ digest, Agreed v taskId r digest))
    (fun _ v' => v.Extends v') v
  := by
  rw [evaluateQuorum, wp_bind, wp_get]
  change wp (if ((v.votes taskId).length : Int) < v.minParticipants then _ else _) _ _ v
  split_ifs
  · exact Verifier.Extends.refl v
  · split
    · next topDigest top others rest hsorted =>
      change sortedGroups (v.votes taskId) = _ at hsorted
      have hlength : (top :: others).length = count (v.votes taskId) topDigest := by
        apply length_sortedGroups
        rw [hsorted]
        exact List.mem_cons_self
      dsimp only
      split_ifs with hmet
      · refine Keeps.andThen (keeps_forM fun w _ => keeps_countConforming v w)
          (Verifier.Extends.refl v) ?_
        intro _ v' hv'
        refine Keeps.andThen (keeps_forM fun w _ => keeps_countByzantine v w) hv' ?_
        intro _ v'' hv''
        refine ⟨hv'', fun _ => ⟨topDigest, rfl, length_workers _, ?_, ?_, ?_⟩⟩
        · exact (length_workers _).trans hlength
        · rw [length_workers]
          exact Nat.succ_pos _
        · rw [length_workers, length_workers]
          exact hmet
      · refine ⟨Verifier.Extends.refl v, fun h => ?_⟩
        cases h
    · exact Verifier.Extends.refl v

theorem Verifier.votes_set (v : Verifier) (taskId taskId' : Str)
    (proposals : Dict Str WorkerProposal) :
  Verifier.votes { v with proposals := v.proposals.set taskId proposals } taskId' =
    if taskId' = taskId then proposals.values else v.votes taskId'
  := by
  rw [Verifier.votes, Dict.get?_set]
  split_ifs
  · rfl
  · rfl

theorem Verifier.Extends.set {v v' : Verifier} (h : v.Extends v') {taskId : Str}
    {proposals : Dict Str WorkerProposal} (hadded : v'.votes taskId <+: proposals.values) :
  v.Extends { v' with proposals := v'.proposals.set taskId proposals }
  := by
  refine h.trans ⟨rfl, ?_⟩
  intro taskId'
  rw [v'.votes_set]
  split_ifs with htask
  · rw [htask]
    exact hadded
  · exact List.prefix_refl _

theorem keeps_submitProposal (v : Verifier) (proposal : WorkerProposal) :
  Keeps v.Extends (submitProposal proposal)
  := by
  apply keeps_get
  intro v' h
  dsimp only
  split
  · exact keeps_raise _ _
  · apply keeps_bind (keeps_set (h.set (List.prefix_refl _)))
    intro _
    split
    · exact keeps_raise _ _
    · next hvoted =>
      apply keeps_set
      apply h.set
      rw [Dict.values_set_new (Option.not_isSome_iff_eq_none.mp hvoted)]
      exact List.prefix_append _ _

theorem keeps_perform (v : Verifier) (call : Call) :
  Keeps v.Extends (perform call)
  := by
  cases call with
  | submit proposal => exact keeps_submitProposal v proposal
  | evaluate taskId =>
    apply keeps_map
    intro v' h
    apply wp_mono (wp_evaluateQuorum v' taskId)
    · intro r v'' h'
      exact h.trans h'.1
    · intro e v'' h'
      exact h.trans h'
  | reputation workerId => exact keeps_map (keeps_ensureReputation v workerId)

theorem Verifier.extends_run (v : Verifier) (calls : List Call) :
  v.Extends (v.run calls)
  := by
  apply Run.foldl_invariant _ (Verifier.Extends.refl v)
  intro v' call h
  unfold Verifier.after
  cases hcall : perform call v' with
  | ok a v'' => exact (keeps_perform v call).of_ok h hcall
  | error e v'' => exact (keeps_perform v call).of_error h hcall

/-! ### Two evaluations -/

theorem met_of_ne {policy : Policy} {before after : List WorkerProposal} {one two : Str}
    (hextends : before <+: after) (hne : one ≠ two) (hsome : 0 < count before one)
    (hmet : policy.Met (count after two) after.length) :
  policy ≠ .unanimous ∧ policy.Met (after.length - count before one) after.length
  := by
  have hkept : count before one ≤ count after one := hextends.sublist.countP_le
  have hsum : count after one + count after two ≤ after.length := count_add_le hne
  cases policy with
  | strictMajority =>
    simp only [Policy.Met] at hmet ⊢
    exact ⟨by decide, by omega⟩
  | supermajorityTwoThirds =>
    simp only [Policy.Met] at hmet ⊢
    exact ⟨by decide, by omega⟩
  | unanimous =>
    simp only [Policy.Met] at hmet
    omega

/-- Two evaluations that find agreement agree on one digest, unless participants of the second one outside of the first
group are enough for a policy that is not unanimity. -/
theorem agreed_run {minParticipants slashThreshold : Int} {policy : Policy} {calls between : List Call}
    {taskId : Str} {v w : Verifier} {first second : QuorumResult}
    (hfirst : evaluateQuorum taskId
      ((Verifier.new minParticipants policy slashThreshold).run calls) = .ok first v)
    (hsecond : evaluateQuorum taskId (v.run between) = .ok second w)
    (hachieved : first.achieved ∧ second.achieved)
    (hlate : policy ≠ .unanimous →
      ¬ policy.Met (second.participatingWorkers.length - first.conformingWorkers.length)
        second.participatingWorkers.length) :
  second.winningDigest = first.winningDigest
  := by
  have hstart := Verifier.extends_run (.new minParticipants policy slashThreshold) calls
  generalize (Verifier.new minParticipants policy slashThreshold).run calls = u at hfirst hstart
  obtain ⟨hkept, hone⟩ := normal_of_wp (wp_evaluateQuorum u taskId) hfirst
  obtain ⟨-, htwo⟩ := normal_of_wp (wp_evaluateQuorum (v.run between) taskId) hsecond
  obtain ⟨one, hone⟩ := hone hachieved.1
  obtain ⟨two, htwo⟩ := htwo hachieved.2
  have hextends := hkept.trans (v.extends_run between)
  rw [hone.winning, htwo.winning, Option.some_inj]
  by_contra hne
  have hpolicy : (v.run between).policy = policy := hextends.policy.trans hstart.policy
  have hsome := hone.some
  have hmet := htwo.met
  rw [hone.conforming] at hsome
  rw [hpolicy, htwo.conforming, htwo.participants] at hmet
  obtain ⟨hpolicy, hmet⟩ := met_of_ne (hextends.votes taskId) (Ne.symm hne) hsome hmet
  apply hlate hpolicy
  rw [hone.conforming, htwo.participants]
  exact hmet

end Agreement

/-! ### Late proposals -/

section Example

local instance platformQuorum : Platform := Platform.plain

def submits (worker output : String) : Call :=
  .submit ⟨text "task-1", text worker, [(text "output", .str (text output))], _, [], rfl⟩

def unanimousVotes : List Call :=
  [submits "w1" "A", submits "w2" "A", submits "w3" "A"]

def voted : Verifier :=
  (Verifier.new 3 .supermajorityTwoThirds 3).run unanimousVotes

def evaluations (v : Verifier) (between : List Call) : Option (QuorumResult × QuorumResult) :=
  match evaluateQuorum (text "task-1") v with
  | .ok first w =>
      match evaluateQuorum (text "task-1") (w.run between) with
      | .ok second _ => some (first, second)
      | .error _ _ => none
  | .error _ _ => none

/-- The late proposals are enough for the policy by themselves. -/
def Outvoted (r : QuorumResult × QuorumResult) : Prop :=
  Policy.Met .supermajorityTwoThirds
    (r.2.participatingWorkers.length - r.1.conformingWorkers.length)
    r.2.participatingWorkers.length

instance (r : QuorumResult × QuorumResult) : Decidable (Outvoted r) :=
  inferInstanceAs (Decidable (Policy.Met _ _ _))

/-- After a late proposal of another output, which is too few for the policy, an evaluation agrees on
the same digest as the one before. -/
theorem agreed_late :
  ∃ r, evaluations voted [submits "w4" "B"] = some r ∧ r.2.winningDigest = r.1.winningDigest
  := by
  have hfew : (evaluations voted [submits "w4" "B"]).any
      (fun r => r.1.achieved && r.2.achieved && !Outvoted r) = true := by decide +kernel
  obtain ⟨⟨first, second⟩, hresults, hfew⟩ := (Option.any_eq_true _ _).mp hfew
  refine ⟨_, hresults, ?_⟩
  unfold evaluations at hresults
  cases hfirst : evaluateQuorum (text "task-1") voted with
  | error e v =>
    rw [hfirst] at hresults
    cases hresults
  | ok first' v =>
    rw [hfirst] at hresults
    cases hsecond : evaluateQuorum (text "task-1") (v.run [submits "w4" "B"]) with
    | error e w =>
      simp only [hsecond] at hresults
      cases hresults
    | ok second' w =>
      simp only [hsecond] at hresults
      cases hresults
      simp only [Bool.and_eq_true, Bool.not_eq_true', decide_eq_false_iff_not] at hfew
      exact agreed_run hfirst hsecond hfew.1 fun _ => hfew.2

/-- After six late proposals of another output an evaluation agrees on that one. -/
theorem not_agreed :
  (evaluations voted [submits "w4" "B", submits "w5" "B", submits "w6" "B",
    submits "w7" "B", submits "w8" "B", submits "w9" "B"]).any
      (fun r => r.1.achieved && r.2.achieved && r.2.winningDigest ≠ r.1.winningDigest) = true
  := by
  decide +kernel

end Example

end Courier.Quorum
