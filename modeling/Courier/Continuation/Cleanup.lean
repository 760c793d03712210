import Courier.Continuation.Chain

/-!
# What a chain leaves behind

A chain releases the workkey of a unit that cannot be executed or is not verified, but not that of a unit with an
unknown mode, nor where the verification or the checkpoint raises an error or a claim fails after its file was created
(`leaves_no_claim_iff`).
-/

namespace Courier.Continuation.Chain

open Except

/-! ### Calls -/

theorem drive_invariant {P : Type} {step : Files → P → Files × Progress P} {I : Files → P → Prop}
    {Q : Files → Bool → Prop} (hstop : ∀ fs p, I fs p → Q fs false)
    (hnext : ∀ fs p fs' p', I fs p → step fs p = (fs', .next p') → I fs' p')
    (hreturn : ∀ fs p fs' b, I fs p → step fs p = (fs', .returned b) → Q fs' b) (n : Nat) {fs : Files}
    {p : P} (h : I fs p) :
  Q (drive step n fs p).1 (drive step n fs p).2
  := by
  induction n generalizing fs p with
  | zero => exact hstop fs p h
  | succ n ih =>
    rw [drive]
    cases hstep : step fs p with
    | mk fs' progress =>
      cases progress with
      | next p' => exact ih (hnext fs p fs' p' h hstep)
      | returned b => exact hreturn fs p fs' b h hstep

theorem drive_of_rank {P : Type} {step : Files → P → Files × Progress P} (rank : P → Nat)
    (hrank : ∀ fs p fs' p', step fs p = (fs', .next p') → rank p' < rank p) {m n : Nat} {fs : Files}
    {p : P} (hm : rank p < m) (hn : rank p < n) :
  drive step m fs p = drive step n fs p
  := by
  induction m generalizing n fs p with
  | zero => omega
  | succ m ih =>
    obtain ⟨n, rfl⟩ : ∃ k, n = k + 1 := ⟨n - 1, by omega⟩
    rw [drive, drive]
    cases hstep : step fs p with
    | mk fs' progress =>
      cases progress with
      | next p' =>
        have hlt := hrank fs p fs' p' hstep
        exact ih (by omega) (by omega)
      | returned b => rfl

/-- How many steps of `claim` are left at most. -/
def claimRank : ClaimPhase → Nat
  | .exists => 5
  | .read => 4
  | .renew => 3
  | .purge => 2
  | .create => 1
  | .write _ => 0

theorem claim_eq_drive (now : ℚ) (fails : ClaimPhase → Bool) (fs : Files) {n : Nat} (h : 6 ≤ n) :
  claim now fails fs =
    drive (fun fs phase => claimStep (text "google-antigravity") 3600 now fs (fails phase) phase) n fs
      .exists
  := by
  apply drive_of_rank claimRank _ (by decide) (by simp only [claimRank]; omega)
  intro fs p fs' p' hstep
  cases p <;> simp only [claimStep] at hstep <;> split at hstep <;> grind [claimRank]

def LeftBehind (before after : Files) : Prop :=
  before.nextId < after.nextId ∧ after.file.isSome = true

instance (before after : Files) : Decidable (LeftBehind before after) :=
  inferInstanceAs (Decidable (_ ∧ _))

theorem leftBehind_of_claim {now : ℚ} {fails : ClaimPhase → Bool} {fs : Files}
    (h : (claim now fails fs).2 = true) :
  LeftBehind fs (claim now fails fs).1
  := by
  refine drive_invariant (I := fun fs' p => fs.nextId ≤ fs'.nextId ∧
      ∀ id, p = .write id → LeftBehind fs fs')
    (Q := fun fs' b => b = true → LeftBehind fs fs') ?_ ?_ ?_ 6 ⟨le_rfl, ?_⟩ h
  · intro _ _ _ hfalse
    cases hfalse
  · rintro fs₁ p fs₂ p' ⟨hle, hwrite⟩ hstep
    cases p <;> simp only [claimStep] at hstep <;> split at hstep <;>
      grind [Files.put, Files.unlink, LeftBehind]
  · rintro fs₁ p fs₂ b ⟨hle, hwrite⟩ hstep rfl
    cases p <;> simp only [claimStep] at hstep <;> split at hstep <;>
      grind [Files.put, Files.write, LeftBehind]
  · intro id hid
    cases hid

theorem release_eq (fails : Bool) (fs : Files) :
  release fails fs =
    if fs.file.isSome then if fails then (fs, false) else (fs.unlink, true) else (fs, true)
  := by
  cases hfile : fs.file.isSome <;> cases fails <;> simp [release, drive, releaseStep, hfile]

/-! ### Units -/

variable {T : Type}

def Job.Granted (job : Job T) (fs : Files) : Prop :=
  (claim job.around.now job.around.claimFails fs).2 = true

def Job.Littered (job : Job T) (fs : Files) : Prop :=
  ¬job.Granted fs ∧ LeftBehind fs (claim job.around.now job.around.claimFails fs).1

def Job.Passes (job : Job T) (fs : Files) : Prop :=
  job.Granted fs ∧ ∃ mode status hash name, job.unit.executionMode = some mode ∧
    job.around.execute mode = .result status (some hash) (.ok true) ∧
    job.around.checkpoint job.next = .ok name ∧ job.around.releaseFails = false

def Job.Strands (job : Job T) (fs : Files) : Prop :=
  job.Littered fs ∨ job.Granted fs ∧ (job.unit.executionMode = none ∨
    ∃ mode status hash verified, job.unit.executionMode = some mode ∧
      job.around.execute mode = .result status hash verified ∧
      ((∃ message, verified = .error message) ∨
        verified = .ok true ∧ ∃ message, job.around.checkpoint job.next = .error message))

def Event.key : Event → Str
  | .claiming key => key
  | .executed key => key
  | .verified key => key
  | .releaseFailed key => key

structure PartDone (claims : Str → Files) (key : Str) (fs : Files) (log : List Event)
    (r : State × Option (Ending T)) (strands passes : Prop) (fs' : Files) (new : List Event) : Prop where
  claims : r.1.claims = Function.update claims key fs'
  log : r.1.log = log ++ new
  own : ∀ e ∈ new, e.key = key
  stranded : strands → fs' = fs ∧ .releaseFailed key ∉ new
  released : ¬strands → fs'.file = none ∨ .releaseFailed key ∈ new
  goesOn : r.2 = none ↔ passes
  verified : passes → .verified key ∈ new

theorem release_after_claim {claims : Str → Files} {s : State} {key : Str} {fs : Files}
    (h : fs.file.isSome = true) (hclaims : s.claims = Function.update claims key fs) (fails : Bool) :
  ∃ fs', (s.release key fails).1.claims = Function.update claims key fs' ∧
    (s.release key fails).1.log = s.log ++ (if fails then [.releaseFailed key] else []) ∧
    (s.release key fails).2 = !fails ∧ (fails = false → fs'.file = none)
  := by
  have hkey : s.claims key = fs := by rw [hclaims, Function.update_self]
  cases fails with
  | true =>
    refine ⟨fs, ?_, ?_, ?_, ?_⟩
    · simp [State.release, release_eq, hkey, h, State.put, State.note, hclaims]
    · simp [State.release, release_eq, hkey, h, State.put, State.note]
    · simp [State.release, release_eq, hkey, h]
    · intro hfalse
      cases hfalse
  | false =>
    refine ⟨fs.unlink, ?_, ?_, ?_, fun _ => rfl⟩
    · simp [State.release, release_eq, hkey, h, State.put, hclaims]
    · simp [State.release, release_eq, hkey, h, State.put]
    · simp [State.release, release_eq, hkey, h]

variable {claims : Str → Files} {s : State} {job : Job T} {fs : Files} {keys : List Str}

variable (keys) in
theorem abandon_done (h : fs.file.isSome = true)
    (hclaims : s.claims = Function.update claims job.key fs) (reason : Str) :
  ∃ fs' new, PartDone claims job.key fs s.log (abandon keys s job reason) False False fs' new
  := by
  obtain ⟨fs', hput, hlog, -, hnone⟩ := release_after_claim h hclaims job.around.releaseFails
  refine ⟨fs', _, hput, hlog, ?_, False.elim, ?_, ?_, False.elim⟩
  · cases job.around.releaseFails <;> simp [Event.key]
  · intro _
    cases hfails : job.around.releaseFails with
    | true => exact .inr (by simp)
    | false => exact .inl (hnone hfails)
  · simp [abandon]

variable (keys) in
theorem finish_done (h : fs.file.isSome = true)
    (hclaims : s.claims = Function.update claims job.key fs) (resultHash : Option Str) :
  ∃ fs' new, PartDone claims job.key fs s.log
    (finish keys (s.note (.verified job.key)) job resultHash)
    (∃ message, job.around.checkpoint job.next = .error message)
    (∃ hash name, resultHash = some hash ∧ job.around.checkpoint job.next = .ok name ∧
      job.around.releaseFails = false) fs' new
  := by
  cases hcheckpoint : job.around.checkpoint job.next with
  | error message =>
    refine ⟨fs, [.verified job.key], ?_⟩
    rw [finish, hcheckpoint]
    exact {
      claims := hclaims
      log := rfl
      own := by simp [Event.key]
      stranded := by simp
      released := by simp
      goesOn := by simp
      verified := by simp }
  | ok name =>
    obtain ⟨fs', hput, hlog, hreleased, hnone⟩ := release_after_claim
      (s := s.note (.verified job.key)) h hclaims job.around.releaseFails
    refine ⟨fs', .verified job.key ::
      (if job.around.releaseFails then [.releaseFailed job.key] else []), ?_⟩
    have hnoted : (s.note (.verified job.key)).log = s.log ++ [.verified job.key] := rfl
    rw [hnoted, List.append_assoc, List.singleton_append] at hlog
    rw [finish, hcheckpoint]
    dsimp only
    rw [hreleased]
    cases hfails : job.around.releaseFails with
    | true =>
      rw [hfails] at hput hlog
      exact {
        claims := hput
        log := hlog
        own := by simp [Event.key]
        stranded := by simp
        released := by simp
        goesOn := by simp
        verified := by simp }
    | false =>
      rw [hfails] at hput hlog
      cases resultHash with
      | none =>
        exact {
          claims := hput
          log := hlog
          own := by simp [Event.key]
          stranded := by simp
          released := fun _ => .inl (hnone hfails)
          goesOn := by simp
          verified := by simp }
      | some hash =>
        exact {
          claims := hput
          log := hlog
          own := by simp [Event.key]
          stranded := by simp
          released := fun _ => .inl (hnone hfails)
          goesOn := by simp
          verified := by simp }

variable (keys) in
theorem judge_done (h : fs.file.isSome = true)
    (hclaims : s.claims = Function.update claims job.key fs) (executed : Executed) :
  ∃ fs' new, PartDone claims job.key fs s.log (judge keys s job executed)
    (∃ status hash verified, executed = .result status hash verified ∧
      ((∃ message, verified = .error message) ∨
        verified = .ok true ∧ ∃ message, job.around.checkpoint job.next = .error message))
    (∃ status hash name, executed = .result status (some hash) (.ok true) ∧
      job.around.checkpoint job.next = .ok name ∧ job.around.releaseFails = false) fs' new
  := by
  cases executed with
  | error message =>
    obtain ⟨fs', new, hdone⟩ := abandon_done keys h hclaims
      (text "execute_error: " ++ message)
    refine ⟨fs', new, ?_⟩
    simpa [judge] using hdone
  | result status resultHash verified =>
    cases verified with
    | error message =>
      refine ⟨fs, [], ?_⟩
      exact {
        claims := hclaims
        log := (List.append_nil _).symm
        own := by simp
        stranded := by simp
        released := fun hnot => absurd ⟨status, resultHash, _, rfl, .inl ⟨message, rfl⟩⟩ hnot
        goesOn := by simp [judge]
        verified := by simp }
    | ok verified =>
      cases verified with
      | false =>
        obtain ⟨fs', new, hdone⟩ := abandon_done keys h hclaims
          (text "verify_failed: " ++ status)
        refine ⟨fs', new, ?_⟩
        simpa [judge] using hdone
      | true =>
        obtain ⟨fs', new, hdone⟩ := finish_done keys h hclaims resultHash
        refine ⟨fs', new, ?_⟩
        simpa [judge] using hdone

/-- A pass touches the claim file of its unit only, leaves there a file of its own exactly if the claim is stranded, and
goes on exactly if the unit passes. -/
structure UnitDone (s : State) (job : Job T) (r : State × Option (Ending T)) (fs : Files)
    (new : List Event) : Prop where
  claims : r.1.claims = Function.update s.claims job.key fs
  log : r.1.log = s.log ++ new
  own : ∀ e ∈ new, e.key = job.key
  left : LeftBehind (s.claims job.key) fs ∧ .releaseFailed job.key ∉ new ↔
    job.Strands (s.claims job.key)
  goesOn : r.2 = none ↔ job.Passes (s.claims job.key)
  verified : job.Passes (s.claims job.key) → .verified job.key ∈ new

theorem runUnit_done (keys : List Str) (s : State) (job : Job T) :
  ∃ fs new, UnitDone s job (runUnit keys s job) fs new
  := by
  rw [runUnit]
  by_cases hgranted : job.Granted (s.claims job.key)
  · have hclaimed : (claim job.around.now job.around.claimFails (s.claims job.key)).2 = true := hgranted
    have hleft := leftBehind_of_claim hclaimed
    rw [hclaimed, if_neg (by decide)]
    cases hmode : job.unit.executionMode with
    | none =>
      refine ⟨(claim job.around.now job.around.claimFails (s.claims job.key)).1,
        [.claiming job.key], ?_⟩
      exact {
        claims := rfl
        log := rfl
        own := by simp [Event.key]
        left := by simp [Job.Strands, hgranted, hmode, hleft]
        goesOn := by simp [Job.Passes, hmode]
        verified := by simp [Job.Passes, hmode] }
    | some mode =>
      obtain ⟨fs', new, hdone⟩ := judge_done keys
        (s := (((s.put job.key
          (claim job.around.now job.around.claimFails (s.claims job.key)).1).note
            (.claiming job.key)).note (.executed job.key))) hleft.2 rfl (job.around.execute mode)
      refine ⟨fs', [.claiming job.key, .executed job.key] ++ new, ?_⟩
      have hstrands : job.Strands (s.claims job.key) ↔
          ∃ status hash verified, job.around.execute mode = .result status hash verified ∧
            ((∃ message, verified = .error message) ∨
              verified = .ok true ∧ ∃ message, job.around.checkpoint job.next = .error message) := by
        simp [Job.Strands, Job.Littered, hgranted, hmode]
      have hpasses : job.Passes (s.claims job.key) ↔
          ∃ status hash name, job.around.execute mode = .result status (some hash) (.ok true) ∧
            job.around.checkpoint job.next = .ok name ∧ job.around.releaseFails = false := by
        simp [Job.Passes, hgranted, hmode]
      exact {
        claims := hdone.claims
        log := by
          rw [hdone.log]
          simp [State.note, State.put]
        own := by
          intro e he
          simp only [List.mem_append, List.mem_cons, List.not_mem_nil, or_false] at he
          rcases he with (rfl | rfl) | he
          · rfl
          · rfl
          · exact hdone.own e he
        left := by
          rw [hstrands]
          constructor
          · rintro ⟨⟨-, hfile⟩, hnot⟩
            by_contra hnone
            rcases hdone.released hnone with hgone | hfailed
            · rw [hgone] at hfile
              cases hfile
            · exact hnot (List.mem_append_right _ hfailed)
          · intro hstranded
            obtain ⟨rfl, hnot⟩ := hdone.stranded hstranded
            exact ⟨hleft, by simp [hnot]⟩
        goesOn := hdone.goesOn.trans hpasses.symm
        verified := fun h => List.mem_append_right _ (hdone.verified (hpasses.mp h)) }
  · have hclaimed : (claim job.around.now job.around.claimFails (s.claims job.key)).2 = false := by
      simpa [Job.Granted] using hgranted
    rw [hclaimed, if_pos rfl]
    refine ⟨(claim job.around.now job.around.claimFails (s.claims job.key)).1, [.claiming job.key],
      ?_⟩
    exact {
      claims := rfl
      log := rfl
      own := by simp [Event.key]
      left := by simp [Job.Strands, Job.Littered, hgranted]
      goesOn := by simp [Job.Passes, hgranted]
      verified := fun h => absurd h.1 hgranted }

/-! ### Chains -/

/-- The files of other workkeys stay as they are, a file of a unit is left exactly if all units before it pass and its
claim is stranded, and a unit is only begun after those before it were verified. -/
structure UnitsDone (s : State) (jobs : List (Job T)) (s' : State) (new : List Event) : Prop where
  log : s'.log = s.log ++ new
  own : ∀ e ∈ new, e.key ∈ jobs.map (·.key)
  others : ∀ key, key ∉ jobs.map (·.key) → s'.claims key = s.claims key
  left : ∀ earlier job later, jobs = earlier ++ job :: later →
    (LeftBehind (s.claims job.key) (s'.claims job.key) ∧ .releaseFailed job.key ∉ new ↔
      (∀ p ∈ earlier, p.Passes (s.claims p.key)) ∧ job.Strands (s.claims job.key))
  after : ∀ earlier job later, jobs = earlier ++ job :: later → (∃ e ∈ new, e.key = job.key) →
    ∀ p ∈ earlier, .verified p.key ∈ new

theorem not_leftBehind_self (fs : Files) :
  ¬LeftBehind fs fs
  := fun h => lt_irrefl _ h.1

theorem runUnits_done (keys : List Str) {jobs : List (Job T)} (hnodup : (jobs.map (·.key)).Nodup)
    (s : State) :
  ∃ new, UnitsDone s jobs (runUnits keys s jobs).1 new
  := by
  induction jobs generalizing s with
  | nil =>
    refine ⟨[], ?_⟩
    exact {
      log := (List.append_nil _).symm
      own := by simp
      others := fun _ _ => rfl
      left := by simp
      after := by simp }
  | cons first jobs ih =>
    rw [List.map_cons, List.nodup_cons] at hnodup
    obtain ⟨hfirst, hnodup⟩ := hnodup
    obtain ⟨fs, new, hdone⟩ := runUnit_done keys s first
    have hne : ∀ job ∈ jobs, job.key ≠ first.key := by
      intro job hjob heq
      exact hfirst (heq ▸ List.mem_map_of_mem hjob)
    rw [runUnits]
    cases hunit : runUnit keys s first with
    | mk s' ending =>
      rw [hunit] at hdone
      have hkept : ∀ job ∈ jobs, s'.claims job.key = s.claims job.key := by
        intro job hjob
        rw [hdone.claims, Function.update_of_ne (hne job hjob)]
      cases ending with
      | some ending =>
        have hstops : ¬first.Passes (s.claims first.key) := by
          rw [← hdone.goesOn]
          simp
        refine ⟨new, ?_⟩
        exact {
          log := hdone.log
          own := fun e he => by simp [hdone.own e he]
          others := by
            intro key hkey
            rw [List.map_cons, List.mem_cons, not_or] at hkey
            rw [hdone.claims, Function.update_of_ne hkey.1]
          left := by
            intro earlier job later heq
            rcases List.cons_eq_append_iff.mp heq with ⟨rfl, hjob⟩ | ⟨earlier, rfl, hjobs⟩
            · obtain ⟨rfl, -⟩ := List.cons.inj hjob
              rw [hdone.claims, Function.update_self, hdone.left]
              simp
            · have hmem : job ∈ jobs := by simp [hjobs]
              rw [hkept job hmem]
              simp [not_leftBehind_self, hstops]
          after := by
            rintro earlier job later heq ⟨e, he, hkey⟩
            rcases List.cons_eq_append_iff.mp heq with ⟨rfl, -⟩ | ⟨earlier, rfl, hjobs⟩
            · simp
            · have hmem : job ∈ jobs := by simp [hjobs]
              exact absurd (hkey.symm.trans (hdone.own e he)) (hne job hmem) }
      | none =>
        have hpasses : first.Passes (s.claims first.key) := hdone.goesOn.mp rfl
        obtain ⟨more, hmore⟩ := ih hnodup s'
        have hnew : ∀ job ∈ jobs, ∀ e ∈ new, e.key ≠ job.key := by
          intro job hjob e he heq
          exact hne job hjob (heq.symm.trans (hdone.own e he))
        refine ⟨new ++ more, ?_⟩
        exact {
          log := by rw [hmore.log, hdone.log, List.append_assoc]
          own := by
            intro e he
            rcases List.mem_append.mp he with he | he
            · simp [hdone.own e he]
            · exact List.mem_cons_of_mem _ (hmore.own e he)
          others := by
            intro key hkey
            rw [List.map_cons, List.mem_cons, not_or] at hkey
            rw [hmore.others key hkey.2, hdone.claims, Function.update_of_ne hkey.1]
          left := by
            intro earlier job later heq
            rcases List.cons_eq_append_iff.mp heq with ⟨rfl, hjob⟩ | ⟨earlier, rfl, hjobs⟩
            · obtain ⟨rfl, -⟩ := List.cons.inj hjob
              have hlater : .releaseFailed job.key ∉ more :=
                fun hmem => hfirst (hmore.own _ hmem)
              rw [hmore.others _ hfirst, hdone.claims, Function.update_self, List.mem_append,
                or_iff_left hlater, hdone.left]
              simp
            · have hmem : job ∈ jobs := by simp [hjobs]
              have hbefore : .releaseFailed job.key ∉ new :=
                fun h => hnew job hmem _ h rfl
              have hrest := hmore.left earlier job later hjobs
              have hall : (∀ p ∈ earlier, p.Passes (s'.claims p.key)) ↔
                  ∀ p ∈ earlier, p.Passes (s.claims p.key) := by
                apply forall₂_congr
                intro p hp
                rw [hkept p (by simp [hjobs, hp])]
              rw [hkept job hmem, hall] at hrest
              rw [List.mem_append, or_iff_right hbefore, hrest, List.forall_mem_cons,
                and_iff_right hpasses]
          after := by
            rintro earlier job later heq ⟨e, he, hkey⟩
            rcases List.cons_eq_append_iff.mp heq with ⟨rfl, -⟩ | ⟨earlier, rfl, hjobs⟩
            · simp
            · have hmem : job ∈ jobs := by simp [hjobs]
              rcases List.mem_append.mp he with he | he
              · exact absurd hkey (hnew job hmem e he)
              · rw [List.forall_mem_cons]
                refine ⟨List.mem_append_left _ (hdone.verified hpasses), ?_⟩
                intro p hp
                exact List.mem_append_right _
                  (hmore.after earlier job later hjobs ⟨e, he, hkey⟩ p hp) }

def LeavesNoClaim (claims : Str → Files) (s : State) : Prop :=
  ∀ key, LeftBehind (claims key) (s.claims key) → .releaseFailed key ∈ s.log

/-- A unit was claimed or executed only after all units before it were verified. -/
def StopsUnverified (jobs : List (Job T)) (log : List Event) : Prop :=
  ∀ earlier job later, jobs = earlier ++ job :: later →
    .claiming job.key ∈ log ∨ .executed job.key ∈ log → ∀ p ∈ earlier, .verified p.key ∈ log

theorem sublist_of_zip {α β : Type} :
  ∀ (l : List α) (l' : List β), ((l.zip l').map Prod.fst).Sublist l
  | [], _ => by simp
  | _ :: _, [] => by simp
  | a :: l, _ :: l' => (sublist_of_zip l l').cons_cons a

theorem nodup_of_prepare [DecidableEq T] {hashable : T → Bool} {units : List (ChainUnit T)}
    (h : prepare hashable units = .ok keys) (around : Nat → Surroundings) :
  ((jobs keys around units).map (·.key)).Nodup
  := by
  obtain ⟨-, h⟩ := bind_unit_eq_ok.mp h
  obtain ⟨keys', -, h⟩ := bind_eq_ok.mp h
  obtain ⟨hnodup, h⟩ := bind_unit_eq_ok.mp h
  obtain ⟨-, h⟩ := bind_unit_eq_ok.mp h
  obtain ⟨-, h⟩ := bind_unit_eq_ok.mp h
  cases h
  have hmap : (jobs keys around units).map (·.key) = (keys.zip units).map Prod.fst := by
    rw [jobs, List.map_map]
    exact (List.map_map (f := Prod.fst) (g := Prod.fst) (l := (keys.zip units).zipIdx)).symm.trans
      (by rw [List.zipIdx_map_fst])
  rw [hmap]
  exact (sublist_of_zip keys units).nodup (check_eq_ok.mp hnodup)

/-- A chain stops at the first unit that is not verified and leaves no claim file, exactly if the first unit that does
not pass has no stranded claim. -/
theorem leaves_no_claim_iff [DecidableEq T] (hashable : T → Bool) (claims : Str → Files)
    (around : Nat → Surroundings) (units : List (ChainUnit T)) :
  (LeavesNoClaim claims (runSequentialChain hashable claims around units).1 ∧
    ∀ keys, prepare hashable units = .ok keys → StopsUnverified (jobs keys around units)
      (runSequentialChain hashable claims around units).1.log) ↔
    ∀ keys, prepare hashable units = .ok keys →
      ∀ earlier job later, jobs keys around units = earlier ++ job :: later →
        (∀ p ∈ earlier, p.Passes (claims p.key)) → ¬job.Strands (claims job.key)
  := by
  rw [runSequentialChain]
  cases hprepare : prepare hashable units with
  | error e =>
    simp only [reduceCtorEq, false_implies, implies_true, and_true, iff_true]
    intro key hleft
    exact absurd hleft (not_leftBehind_self _)
  | ok keys =>
    dsimp only
    obtain ⟨new, hdone⟩ := runUnits_done keys (nodup_of_prepare hprepare around) (.start claims)
    have hlog : (runUnits keys (.start claims) (jobs keys around units)).1.log = new := by
      rw [hdone.log]
      rfl
    simp only [Except.ok.injEq, forall_eq']
    constructor
    · rintro ⟨hnone, -⟩ earlier job later heq hpass hstrands
      obtain ⟨hleft, hnot⟩ := (hdone.left earlier job later heq).mpr ⟨hpass, hstrands⟩
      exact hnot (hlog ▸ hnone job.key hleft)
    · intro hclean
      refine ⟨?_, ?_⟩
      · intro key hleft
        by_cases hkey : key ∈ (jobs keys around units).map (·.key)
        · obtain ⟨job, hjob, rfl⟩ := List.mem_map.mp hkey
          obtain ⟨earlier, later, heq⟩ := List.append_of_mem hjob
          by_contra hnot
          rw [hlog] at hnot
          obtain ⟨hpass, hstrands⟩ := (hdone.left earlier job later heq).mp ⟨hleft, hnot⟩
          exact hclean earlier job later heq hpass hstrands
        · rw [hdone.others key hkey] at hleft
          exact absurd hleft (not_leftBehind_self _)
      · intro earlier job later heq hdid
        rw [hlog] at hdid ⊢
        apply hdone.after earlier job later heq
        rcases hdid with hdid | hdid
        · exact ⟨_, hdid, rfl⟩
        · exact ⟨_, hdid, rfl⟩

def unknownMode : List (ChainUnit Nat) :=
  [⟨some (.str (text "WK_1")), none, some (.str (text "MODE_X"))⟩]

def calm : Surroundings where
  now := 0
  claimFails := fun _ => false
  execute := fun _ => .result (text "PASS") (some (text "digest")) (.ok true)
  checkpoint := fun _ => .ok (text "WK_1.checkpoint.json")
  releaseFails := false

/-- The mode is found to be unknown after the unit was claimed, and nothing releases it. -/
theorem claim_left_of_unknownMode :
  let r := runSequentialChain (fun _ => true) (fun _ => ⟨none, 0⟩) (fun _ => calm) unknownMode
  r.2 = .error (.invalidMode (.str (text "MODE_X"))) ∧
    (r.1.claims (text "WK_1")).file.isSome = true ∧
    ¬LeavesNoClaim (fun _ => ⟨none, 0⟩) r.1
  := by
  have hleft : LeftBehind ⟨none, 0⟩ ((runSequentialChain (fun _ => true) (fun _ => ⟨none, 0⟩)
      (fun _ => calm) unknownMode).1.claims (text "WK_1")) := by
    decide +kernel
  refine ⟨by decide +kernel, hleft.2, ?_⟩
  intro hnone
  have hreleased := hnone (text "WK_1") hleft
  revert hreleased
  decide +kernel

end Courier.Continuation.Chain
