import Courier.Controller.Memory

/-!
# What follows from an event

The ticker and the verifier keep the invariant of the controller.  Each ends an attempt or a
verification by one event and journals at once what follows from it.
-/

namespace Courier

open Except Program Text

variable [Platform]

/-! ### Decisions -/

def Decision.outcome : Decision → TaskStatus
  | retry => .queued
  | fail => .failed
  | block => .blocked
  | cancel => .cancelled

variable {s : TaskState}

omit [Platform] in
theorem cancelRequested_of_decide (h : decideAfterFailure s = .cancel) :
  s.cancelRequested = true
  := by
  unfold decideAfterFailure at h
  split_ifs at h with _ hcancel
  exact hcancel

variable {j : Journal} {e : Event}

theorem fits_decision
    (hs : j.task s.taskId = some s) (hstatus : s.status = .retryPending)
    (he : Drafted (decisionDraft s (decideAfterFailure s)) e) :
  ∃ s', Fits j e s s' ∧ s'.Idle ∧ s'.Decided ∧ s'.status = (decideAfterFailure s).outcome
  := by
  cases hdecide : decideAfterFailure s with
  | retry =>
    rw [hdecide] at he
    refine ⟨_, he.fits rfl hs rfl (free_of_keyless rfl) (by rintro ⟨⟩)
      (.retryScheduled he.type hstatus he.attempt hdecide), ⟨rfl, ?_⟩, ⟨?_, ?_⟩, rfl⟩ <;> simp
  | fail =>
    rw [hdecide] at he
    refine ⟨_, he.fits rfl hs rfl (free_of_keyless rfl) (by rintro ⟨⟩)
      (.failed he.type (.inl hstatus) (by simp [hdecide])), ⟨rfl, ?_⟩, ⟨?_, ?_⟩, rfl⟩ <;> simp
  | block =>
    rw [hdecide] at he
    refine ⟨_, he.fits rfl hs rfl (free_of_keyless rfl) (by rintro ⟨⟩)
      (.blocked he.type (.inl hstatus)), ⟨rfl, ?_⟩, ⟨?_, ?_⟩, rfl⟩ <;> simp
  | cancel =>
    rw [hdecide] at he
    refine ⟨_, he.fits rfl hs rfl (free_of_keyless rfl) (by rintro ⟨⟩)
      (.cancelled he.type (by simp [hstatus]) (cancelRequested_of_decide hdecide)
        (by simp [hdecide])), ⟨rfl, ?_⟩, ⟨?_, ?_⟩, rfl⟩ <;> simp

omit [Platform] in
theorem finishes_decision (s : TaskState) (decision : Decision) :
  (decisionDraft s decision).type.finishes
  := by
  cases decision <;> simp [decisionDraft, EventType.finishes]

variable {index : Nat}

omit [Platform] in
theorem mem_eraseIdx_of_ne {α : Type} {l : List α} {a b : α}
    (ha : l[index]? = some a) (hb : b ∈ l) (hne : b ≠ a) :
  b ∈ l.eraseIdx index
  := by
  apply List.mem_eraseIdx_iff_getElem?.mpr
  obtain ⟨i, hi⟩ := List.mem_iff_getElem?.mp hb
  refine ⟨i, ?_, hi⟩
  rintro rfl
  rw [hi] at ha
  exact hne (Option.some.inj ha)

section Invariant

variable {L : EventType → Prop} {P : Bool → Prop} {Q : Prop} {X : Str → Prop} {c : Controller}

/-- What an operation on one task leaves: the events of other tasks are as they were. -/
structure Settles (k : Str) (status : TaskStatus) (c c' : Controller) : Prop where
  same : Same c c'
  tasks : ∀ id, id ≠ k → c'.journal.task id = c.journal.task id
  task : ∃ s, c'.journal.task k = some s ∧ s.status = status
  events : ∃ more, c'.journal.events = c.journal.events ++ more ∧ ∀ e ∈ more, e.type ≠ .taskClaimed

variable {k : Str}

theorem Stored.settles {c' : Controller}
    (h : Stored c e s c') (hk : s.taskId = k) (htype : e.type ≠ .taskClaimed) :
  Settles k s.status c c'
  := by
  obtain ⟨seq, hs⟩ := h.task hk
  obtain ⟨n, prevHash, hash, hevents⟩ := h.events
  refine ⟨h.same, ?_, ⟨_, hs, rfl⟩, _, hevents, ?_⟩
  · exact hk ▸ h.frame.tasks
  · intro x hx
    obtain rfl := List.mem_singleton.mp hx
    exact htype

theorem Stored.settles_after {status : TaskStatus}
    {c₁ c' : Controller} (h : Stored c e s c₁) (hk : s.taskId = k) (htype : e.type ≠ .taskClaimed)
    (hsettles : Settles k status c₁ c') :
  Settles k status c c'
  := by
  obtain ⟨hsame, htasks, -, more, hevents, hmore⟩ := h.settles hk htype
  obtain ⟨hsame', htasks', htask, more', hevents', hmore'⟩ := hsettles
  refine ⟨hsame.trans hsame', ?_, htask, more ++ more', ?_, ?_⟩
  · intro id hid
    rw [htasks' id hid, htasks id hid]
  · rw [hevents', hevents, List.append_assoc]
  · intro x hx
    rcases List.mem_append.mp hx with hx | hx
    · exact hmore x hx
    · exact hmore' x hx

namespace Controller

theorem wp_decide (h : Consistent L P Q (fun id => X id ∨ id = s.taskId) c)
    (hs : c.journal.task s.taskId = some s) (hstatus : s.status = .retryPending) :
  wp (Controller.decide s) (fun _ c' => Consistent L P Q X c' ∧
      Settles s.taskId (decideAfterFailure s).outcome c c')
    (fun why c' => why.isFault = true ∧ Consistent L P Q X c') c
  := by
  have hheld : s.status.isHeld = true := by rw [hstatus]; rfl
  have hlawful := (Journal.recorded_of_task hs).1
  have hidle : s.Idle := ⟨by rw [hstatus]; rfl, by simp [hstatus]⟩
  simp only [Controller.decide, check_of hstatus, wp_bind, wp_lift, wp_pure]
  refine ⟨?_, by simp⟩
  intro _ _
  apply wp_mono (wp_record_finish h hs hidle (proper_decision hlawful hheld _)
    (finishes_decision s _) (fun e he => fits_decision hs hstatus he))
  · rintro r c' ⟨hconsistent, e, s', he, hid, hoc, hstored⟩
    refine ⟨hconsistent, ?_⟩
    rw [← hoc]
    apply hstored.settles hid
    rw [he.type]
    intro htype
    have hfinishes := finishes_decision s (decideAfterFailure s)
    simp [htype, EventType.finishes] at hfinishes
  · rintro why c' herror
    exact herror

theorem wp_complete (h : Consistent L P Q (fun id => X id ∨ id = s.taskId) c)
    (hs : c.journal.task s.taskId = some s) (hstatus : s.status = .accepted) :
  wp (complete s) (fun _ c' => Consistent L P Q X c' ∧ Settles s.taskId .complete c c')
    (fun why c' => why.isFault = true ∧ Consistent L P Q X c') c
  := by
  have hheld : s.status.isHeld = true := by rw [hstatus]; rfl
  have hlawful := (Journal.recorded_of_task hs).1
  have hidle : s.Idle := ⟨by rw [hstatus]; rfl, by simp [hstatus]⟩
  have hproper := proper_complete hlawful hheld
    ⟨h.written.length_taskId hs, fun d => h.written.length_dispatchId hs hheld⟩
    (hlawful.accepted (.inl hstatus)).2
  simp only [complete, wp_bind, wp_pure]
  apply wp_mono (wp_record_finish (p := fun _ s' => s'.status = .complete) h hs hidle hproper
    (by simp [EventType.finishes]) ?_)
  · rintro r c' ⟨hconsistent, e, s', he, hid, hoc, hstored⟩
    refine ⟨hconsistent, hoc ▸ hstored.settles hid ?_⟩
    rw [he.type]
    simp
  · rintro why c' herror
    exact herror
  · intro e he
    refine ⟨_, he.fits rfl hs rfl (h.written.complete_free hs hstatus) (by rintro ⟨⟩)
      (.complete he.type hstatus ⟨he.attempt, he.dispatchId, by rintro ⟨⟩⟩ he.resultId),
      ⟨rfl, ?_⟩, ⟨?_, ?_⟩, rfl⟩ <;> simp

/-! ### The ticker -/

theorem holder_erase (c : Controller) (d d' : Str) :
  ({ c with leases := c.leases.erase d } : Controller).holder d' =
    if d' = d then none else c.holder d'
  := by
  simp only [holder, Dict.get?_erase]
  split_ifs <;> rfl

theorem consistent_erase {d : Str} (h : Consistent L P Q X c)
    (hk : ∀ holder, c.holder d = some holder → holder.taskId = k) :
  Consistent L P Q (fun id => X id ∨ id = k) { c with leases := c.leases.erase d }
  := by
  have hframe : Frame k c { c with leases := c.leases.erase d } := by
    refine ⟨rfl, ⟨[], by simp⟩, ⟨[], by simp⟩, fun _ _ => rfl, ?_, fun _ _ hmem => hmem,
      fun _ hv _ => hv, fun _ hv => .inl hv⟩
    intro d' holder hne
    rw [holder_erase]
    by_cases hd : d' = d
    · rw [if_pos hd]
      constructor
      · rintro ⟨⟩
      · rintro hholder
        exact absurd (hk holder (hd ▸ hholder)) hne
    · rw [if_neg hd]
  apply h.change hframe h.written h.legal
  intro d' holder _ hholder
  rw [holder_erase] at hholder
  split_ifs at hholder
  exact h.leased d' holder hholder

def Lapsed (j : Journal) (dispatchId : Str) : Prop :=
  ∃ x ∈ j.events, x.type = .leaseExpired ∧ x.dispatchId = some dispatchId

theorem Lapsed.mono {j' : Journal} {d : Str} (h : Lapsed j d) (hevents : j.events <+: j'.events) :
  Lapsed j' d
  := by
  obtain ⟨x, hx, hlapsed⟩ := h
  exact ⟨x, hevents.subset hx, hlapsed⟩

/-- An attempt whose lease was dropped is journaled as lost and decided about. -/
theorem wp_expire {α : Type} {lease : Lease} {next : Unit → Act α}
    {normal : α → Controller → Prop} {raised : Exc → Controller → Prop}
    (h : Consistent L P Q (fun id => X id ∨ id = s.taskId) c)
    (hs : c.journal.task s.taskId = some s) (hactive : s.status.isActiveLease = true)
    (hd : s.dispatchId = some lease.dispatchId) (hdropped : c.holder lease.dispatchId = none)
    (hnext : ∀ c', Consistent L P Q X c' → Same c c' → c.journal.events <+: c'.journal.events →
      Lapsed c'.journal lease.dispatchId → wp (next ()) normal raised c')
    (hraised : ∀ why c', why.isFault = true → Consistent L P Q X c' → raised why c') :
  wp (do
      let _ ← record (expiredDraft s lease)
      let task ← readTask s.taskId
      let s ← require task
      let r ← Controller.decide s
      next r) normal raised c
  := by
  have hheld : s.status.isHeld = true := by
    cases hstatus : s.status <;> simp_all [TaskStatus.isActiveLease, TaskStatus.isHeld]
  have hlawful := (Journal.recorded_of_task hs).1
  have hproper := proper_expired hlawful hheld
    ⟨h.written.length_taskId hs, fun d => h.written.length_dispatchId hs hheld⟩ lease
  simp only [wp_bind]
  apply wp_mono (wp_record (p := fun _ s' => s'.status = .retryPending) h.written hproper ?_)
  · rintro r c₁ ⟨-, -, e, s', he, hid, hstatus, hstored⟩
    obtain ⟨seq, hs'⟩ := hstored.task hid
    have hframe : Frame s.taskId c c₁ := hid ▸ hstored.frame
    have h₁ : Consistent L P Q (fun id => X id ∨ id = s.taskId) c₁ := by
      have hchange := h.change hframe hstored.written (by
        rw [hstored.raised]
        exact h.legal) (by
        intro d holder hk hholder
        rw [hstored.holder] at hholder
        obtain ⟨-, t, ht, -, htd, -⟩ := h.leased d holder hholder
        rw [hk] at ht
        cases hs.symm.trans ht
        cases hd.symm.trans htd
        simp [hdropped] at hholder)
      apply hchange.mono
      rintro id (hX | rfl)
      · exact hX
      · exact .inr rfl
    rw [wp_readTask_known hs']
    simp only [require, wp_pure]
    rw [← hid] at h₁ hs'
    apply wp_mono (wp_decide (s := { s' with updatedSeq := seq }) h₁ hs' hstatus)
    · rintro _ c₂ ⟨h₂, hsettles⟩
      have hexpired : e.type ≠ .taskClaimed := by simp [he.type, expiredDraft]
      obtain ⟨more, hmore, -⟩ := (hstored.settles_after rfl hexpired hsettles).events
      obtain ⟨later, hlater, -⟩ := hsettles.events
      obtain ⟨n, prevHash, hash, hevents⟩ := hstored.events
      apply hnext c₂ h₂ (hstored.settles_after rfl hexpired hsettles).same ⟨more, hmore.symm⟩
      refine ⟨e.place n prevHash hash, ?_, he.type, he.dispatchId.trans hd⟩
      rw [hlater, hevents]
      simp
    · rintro why c₂ ⟨hwhy, h₂⟩
      exact hraised why c₂ hwhy h₂
  · rintro why c₁ ⟨hwhy, hfailed⟩
    apply hraised why c₁ hwhy
    apply (h.failed hfailed hwhy).keep
    · intro _ _ hcalm
      rw [hfailed.raised] at hcalm
      exact absurd hcalm (not_calm (by simp [expiredDraft]))
    · intro _ _ _ t ht
      rw [hfailed.journal] at ht
      cases hs.symm.trans ht
      constructor <;> intro hstatus <;> simp [hstatus, TaskStatus.isActiveLease] at hactive
  · intro e he
    refine ⟨_, he.fits rfl hs rfl (h.written.expiry_free hs hactive) (by rintro ⟨⟩)
      (.leaseExpired he.type hactive ⟨he.attempt, he.dispatchId, fun _ _ => he.workerId⟩), rfl⟩

theorem wp_expireLeases {leases : List Lease} (h : Consistent L P Q X c)
    (hleases : ∀ lease ∈ leases, ∀ holder, c.holder lease.dispatchId = some holder →
      holder = lease.holder) :
  wp (expireLeases leases) (fun _ c' => Consistent L P Q X c' ∧ c.journal.events <+: c'.journal.events ∧
      ∀ lease ∈ leases, (c.holder lease.dispatchId).isSome → Lapsed c'.journal lease.dispatchId)
    (fun why c' => why.isFault = true ∧ Consistent L P Q X c') c
  := by
  induction leases generalizing c with
  | nil => exact ⟨h, List.prefix_refl _, by simp⟩
  | cons lease rest ih =>
    unfold expireLeases
    rw [wp_bind, wp_modify, wp_bind]
    have h₁ : Consistent L P Q (fun id => X id ∨ id = lease.taskId)
        { c with leases := c.leases.erase lease.dispatchId } := by
      apply consistent_erase h
      intro holder hholder
      rw [hleases lease (by simp) holder hholder]
      rfl
    have hrest : ∀ c', Consistent L P Q X c' →
        Same { c with leases := c.leases.erase lease.dispatchId } c' →
        c.journal.events <+: c'.journal.events →
        ((c.holder lease.dispatchId).isSome → Lapsed c'.journal lease.dispatchId) →
        wp (expireLeases rest) (fun _ c' => Consistent L P Q X c' ∧ c.journal.events <+: c'.journal.events ∧
            ∀ l ∈ lease :: rest, (c.holder l.dispatchId).isSome → Lapsed c'.journal l.dispatchId)
          (fun why c' => why.isFault = true ∧ Consistent L P Q X c') c' := by
      intro c' h' hsame hevents hlapsed
      have hholders : ∀ d, c'.holder d = if d = lease.dispatchId then none else c.holder d := by
        intro d
        rw [hsame.holder, holder_erase]
      apply wp_mono (ih h' ?_)
      · rintro _ c'' ⟨h'', hevents', hlapsed'⟩
        refine ⟨h'', hevents.trans hevents', fun l hl hholder => ?_⟩
        by_cases hd : l.dispatchId = lease.dispatchId
        · rw [hd] at hholder ⊢
          exact (hlapsed hholder).mono hevents'
        · rcases List.mem_cons.mp hl with rfl | hl
          · exact absurd rfl hd
          · apply hlapsed' l hl
            rwa [hholders, if_neg hd]
      · exact fun _ _ herror => herror
      · intro l hl holder hholder
        rw [hholders] at hholder
        split_ifs at hholder
        exact hleases l (List.mem_cons_of_mem _ hl) holder hholder
    have hdropped : ({ c with leases := c.leases.erase lease.dispatchId } : Controller).holder
        lease.dispatchId = none := by
      rw [holder_erase, if_pos rfl]
    have hsame : Same { c with leases := c.leases.erase lease.dispatchId }
        { c with leases := c.leases.erase lease.dispatchId } := ⟨rfl, rfl, rfl, rfl, rfl, rfl⟩
    cases hholder : c.holder lease.dispatchId with
    | none =>
      have h₀ : Consistent L P Q X { c with leases := c.leases.erase lease.dispatchId } := by
        have hholders : ∀ d, ({ c with leases := c.leases.erase lease.dispatchId } :
            Controller).holder d = c.holder d := by
          intro d
          rw [holder_erase]
          split_ifs with hd
          · rw [hd, hholder]
          · rfl
        exact h.congr rfl rfl rfl hholders rfl rfl
      have hnone : ∀ {j : Journal}, (c.holder lease.dispatchId).isSome →
          Lapsed j lease.dispatchId := by simp [hholder]
      apply wp_readTask
      · cases hs : c.journal.task lease.taskId with
        | none => exact hrest _ h₀ hsame (List.prefix_refl _) hnone
        | some s =>
          rw [← Journal.taskId_of_task hs] at h₁ hs
          dsimp only
          split_ifs with hcond
          · apply wp_expire h₁ hs hcond.2 hcond.1 hdropped
            · intro c' h' hsame' hevents _
              exact hrest c' h' hsame' hevents hnone
            · intro why c' hwhy h'
              exact ⟨hwhy, h'⟩
          · exact hrest _ h₀ hsame (List.prefix_refl _) hnone
      · intro why hwhy _
        exact ⟨hwhy, h₀⟩
    | some holder =>
      obtain rfl := hleases lease (by simp) holder hholder
      obtain ⟨-, s, hs, hactive, hd, -⟩ := h.leased _ _ hholder
      have hid : s.taskId = lease.taskId := Journal.taskId_of_task hs
      apply (wp_readTask_known (c := { c with leases := c.leases.erase lease.dispatchId })
        (show c.journal.task lease.taskId = some s from hs)).mpr
      rw [← hid] at h₁
      replace hs : c.journal.task s.taskId = some s := by rwa [hid]
      dsimp only
      rw [if_pos ⟨hd, hactive⟩]
      apply wp_expire h₁ hs hactive hd hdropped
      · intro c' h' hsame' hevents hlapsed
        exact hrest c' h' hsame' hevents fun _ => hlapsed
      · intro why c' hwhy h'
        exact ⟨hwhy, h'⟩

theorem lease_of_values (h : Consistent L P Q X c) {lease : Lease} (hlease : lease ∈ c.leases.values) :
  c.holder lease.dispatchId = some lease.holder
  := by
  obtain ⟨d, hd⟩ := Dict.mem_values.mp hlease
  have hholder : c.holder d = some lease.holder := by rw [holder, hd]; rfl
  have hdispatch : lease.dispatchId = d := (h.leased d _ hholder).dispatch
  rwa [hdispatch]

theorem holder_extendLeases (c : Controller) (now : Rat) (d : Str) :
  ((c.extendLeases now).get? d).map Lease.holder = c.holder d
  := by
  unfold extendLeases
  cases c.lastTick with
  | none => rfl
  | some last =>
    dsimp only
    split_ifs
    · rw [Dict.get?_map, Option.map_map]
      rfl
    · rfl

variable {busy : Bool}

theorem wp_tick {now : Rat} (h : Consistent L P Q X c) :
  wp (tick now busy) (fun _ c' => Consistent L P Q X c' ∧
      (c.mode = .normal → c.stopping = false → ∀ d lease, (c.extendLeases now).get? d = some lease →
        lease.deadline ≤ now → Lapsed c'.journal d)) (Raises L P Q X c) c
  := by
  simp only [tick, wp_bind, wp_get]
  split_ifs with hidle
  · refine ⟨h, fun hmode hstopping => ?_⟩
    simp [hmode, hstopping] at hidle
  · rw [wp_locked]
    constructor
    · intro _
      exact .at_once h rfl
    · intro _
      simp only [wp_bind, wp_get, wp_set]
      have h₁ : Consistent L P Q X
          { c with leases := c.extendLeases now, lastTick := some now } :=
        h.congr rfl rfl rfl (holder_extendLeases c now) rfl rfl
      apply wp_mono (wp_expireLeases h₁ ?_)
      · rintro _ c' ⟨h', -, hlapsed⟩
        refine ⟨h', fun _ _ d lease hlease hdeadline => ?_⟩
        have hmem : lease ∈ (c.extendLeases now).values := Dict.mem_values.mpr ⟨d, hlease⟩
        have hholder : ({ c with leases := c.extendLeases now, lastTick := some now } : Controller).holder d =
            some lease.holder := Option.map_eq_some_iff.mpr ⟨lease, hlease, rfl⟩
        have hdispatch : lease.dispatchId = d := (h₁.leased d _ hholder).dispatch
        have hlapsed' := hlapsed lease (List.mem_filter.mpr ⟨hmem, by simpa using hdeadline⟩)
        rw [hdispatch] at hlapsed'
        exact hlapsed' (by rw [hholder]; rfl)
      · rintro why c' ⟨hwhy, h'⟩
        exact .of_fault h' hwhy
      · intro lease hlease holder hholder
        have hmem := lease_of_values h₁ (List.mem_filter.mp hlease).1
        exact Option.some.inj (hholder.symm.trans hmem)

/-! ### The verifier -/

theorem wp_readResult {normal : Option Event → Controller → Prop}
    {raised : Exc → Controller → Prop} (hwritten : Written c.journal)
    (hs : c.journal.task s.taskId = some s) (hstatus : s.status = .verifying)
    (hnormal : ∀ x, Reports c.journal ⟨s, x⟩ → normal (some x) c) :
  wp (readEventByKey (resultKey s.dispatchId s.pendingResultId)) normal raised c
  := by
  obtain ⟨x, hx, htype, hdispatch, hresult, hkey⟩ := hwritten.result_of_verifying hs hstatus
  apply (wp_readEventByKey_stored hx hkey rfl).mpr
  apply hnormal x
  refine ⟨hx, htype, hdispatch, hresult, c.journal.events, [], by simp, ?_⟩
  rw [← hs]
  apply Journal.run_of_task

theorem consistent_pop {taskId : Str} {rest : List Str} (h : Consistent L P Q X c)
    (hqueue : c.verifyQueue = taskId :: rest) :
  Consistent L P Q (fun id => X id ∨ id = taskId) { c with verifyQueue := rest }
  := by
  have hframe : Frame taskId c { c with verifyQueue := rest } := by
    refine ⟨rfl, ⟨[], by simp⟩, ⟨[], by simp⟩, fun _ _ => rfl, fun _ _ _ => Iff.rfl, ?_,
      fun _ hv _ => hv, fun _ hv => .inl hv⟩
    intro id hid hmem
    rw [hqueue] at hmem
    exact (List.mem_cons.mp hmem).resolve_left hid
  apply h.change hframe h.written h.legal
  intro d holder _ hholder
  exact h.leased d holder hholder

theorem wp_verifyTake (h : Consistent L P Q X c) (hfree : P c.stopping → busy = false) :
  wp (verifyTake busy) (fun _ c' => Consistent L P Q X c') (Raises L P Q X c) c
  := by
  simp only [verifyTake, wp_bind, wp_get]
  cases hqueue : c.verifyQueue with
  | nil => exact h
  | cons taskId rest =>
    have h₁ := consistent_pop h hqueue
    have hdecided : ¬ X taskId → Q → Quiet c.raised →
        ∀ s, c.journal.task taskId = some s → s.Decided :=
      fun hX hQ hquiet s => h.decided hQ hquiet taskId s hX
    simp only [wp_bind, wp_set, wp_locked]
    constructor
    · intro hbusy
      refine ⟨rfl, h₁.keep ?_ hdecided, by rintro ⟨⟩⟩
      intro hX hP hcalm s hs
      refine ⟨(h.attended hP hcalm _ s hX hs).leased, ?_⟩
      intro hstopped
      simp [hfree hstopped] at hbusy
    · intro _
      apply wp_readTask
      · cases hs : c.journal.task taskId with
        | none =>
          apply h₁.keep ?_ hdecided
          intro _ _ _ s hs'
          simp [hs] at hs'
        | some s =>
          obtain rfl := Journal.taskId_of_task hs
          dsimp only
          split_ifs with hstatus
          · apply h₁.keep ?_ hdecided
            intro hX hP hcalm t ht
            cases hs.symm.trans ht
            obtain ⟨hlease, -⟩ := h.attended hP hcalm _ s hX hs
            exact ⟨hlease, fun _ hverifying => absurd hverifying hstatus⟩
          · have hstatus : s.status = .verifying := by simpa using hstatus
            simp only [wp_bind]
            apply wp_readResult h₁.written hs hstatus
            intro x hreports
            simp only [require, wp_pure, wp_modify]
            have hframe : Frame s.taskId { c with verifyQueue := rest }
                { c with verifyQueue := rest, verifying := c.verifying ++ [⟨s, x⟩] } := by
              refine ⟨rfl, ⟨[], by simp⟩, ⟨[], by simp⟩, fun _ _ => rfl, fun _ _ _ => Iff.rfl,
                fun _ _ hmem => hmem, fun _ hv _ => List.mem_append_left _ hv, ?_⟩
              intro v hv
              rcases List.mem_append.mp hv with hv | hv
              · exact .inl hv
              · obtain rfl := List.mem_singleton.mp hv
                exact .inr hreports
            have h₂ := h₁.change hframe h.written h.legal (fun d holder _ => h.leased d holder)
            apply (h₂.mono (Y := fun id => X id ∨ id = s.taskId) ?_).keep ?_ hdecided
            · rintro id (hX | rfl)
              · exact hX
              · exact .inr rfl
            · intro hX hP hcalm t ht
              cases hs.symm.trans ht
              obtain ⟨hlease, -⟩ := h.attended hP hcalm _ s hX hs
              exact ⟨hlease, fun _ _ => .inr ⟨⟨s, x⟩, by simp, rfl, rfl, rfl⟩⟩
      · intro why hwhy hnone
        apply Raises.of_fault (h₁.keep ?_ hdecided) hwhy
        intro _ _ _ s hs
        simp [hnone] at hs

def rejected (s : TaskState) (verdict : Verdict) : TaskState :=
  { s with
    status := .retryPending, pendingResultId := none, failureKind := some .rejected
    retryable := some verdict.retryable
    lastReason := some (if verdict.reason = [] then text "rejected" else verdict.reason) }

def verdictOutcome (s : TaskState) (verdict : Verdict) : TaskStatus :=
  if verdict.accepted then .complete else (decideAfterFailure (rejected s verdict)).outcome

theorem fits_verdict {verdict : Verdict}
    (hwritten : Written j) (hs : j.task s.taskId = some s) (hstatus : s.status = .verifying)
    (he : Drafted (verdictDraft s verdict) e) :
  ∃ s', Fits j e s s' ∧ (verdict.accepted = true → s'.status = .accepted) ∧
    (verdict.accepted = false → s' = rejected s verdict)
  := by
  obtain ⟨accepted, reason, retryable, verifier⟩ := verdict
  cases accepted with
  | true =>
    refine ⟨_, he.fits rfl hs rfl (hwritten.accepted_free hs hstatus) (by rintro ⟨⟩)
      (.resultAccepted he.type hstatus ⟨he.attempt, he.dispatchId, by rintro ⟨⟩⟩ he.resultId),
      fun _ => rfl, by simp⟩
  | false =>
    have hretryable : e.get (text "retryable") = .bool retryable := by
      rw [EventFields.get, he.payload]
      rfl
    have hreason : e.get (text "reason") =
        .str (if reason = [] then text "rejected" else reason) := by
      rw [EventFields.get, he.payload]
      rfl
    refine ⟨_, he.fits rfl hs rfl (free_of_keyless rfl) (by rintro ⟨⟩)
      (.resultRejected he.type hstatus ⟨he.attempt, he.dispatchId, by rintro ⟨⟩⟩ he.resultId),
      by simp, ?_⟩
    intro _
    rw [hretryable, hreason]
    rfl

/-- A verdict and what follows from it bring the task to rest. -/
theorem wp_settle {verdict : Verdict}
    (h : Consistent L P Q (fun id => X id ∨ id = s.taskId) c)
    (hs : c.journal.task s.taskId = some s) (hstatus : s.status = .verifying)
    (hverifier : (Json.obj verdict.verifier).wf = true) :
  wp (settle s verdict) (fun _ c' => Consistent L P Q X c' ∧
      Settles s.taskId (verdictOutcome s verdict) c c')
    (fun why c' => why.isFault = true ∧ Consistent L P Q X c') c
  := by
  have hheld : s.status.isHeld = true := by rw [hstatus]; rfl
  have hlawful := (Journal.recorded_of_task hs).1
  have hproper := proper_verdict hlawful hheld
    ⟨h.written.length_taskId hs, fun d => h.written.length_dispatchId hs hheld⟩ verdict hverifier
    (hlawful.pending hstatus)
  simp only [settle, wp_bind]
  apply wp_mono (wp_record h.written hproper fun e he => fits_verdict h.written hs hstatus he)
  · rintro r c₁ ⟨-, -, e, s', he, hid, ⟨haccepted, hrejected⟩, hstored⟩
    obtain ⟨seq, hs'⟩ := hstored.task hid
    have hframe : Frame s.taskId c c₁ := hid ▸ hstored.frame
    have hverdict : e.type ≠ .taskClaimed := by
      rw [he.type, verdictDraft]
      split_ifs <;> simp
    have h₁ : Consistent L P Q (fun id => X id ∨ id = s.taskId) c₁ := by
      have hchange := h.change hframe hstored.written (by
        rw [hstored.raised]
        exact h.legal) (by
        intro d holder hk hholder
        rw [hstored.holder] at hholder
        exact absurd hk (h.unleased hs (by rw [hstatus]; rfl) hholder))
      apply hchange.mono
      rintro id (hX | rfl)
      · exact hX
      · exact .inr rfl
    rw [wp_readTask_known hs']
    simp only [require, wp_pure]
    rw [← hid] at h₁ hs'
    cases hverdict' : verdict.accepted with
    | true =>
      rw [if_pos rfl]
      apply wp_mono (wp_complete (s := { s' with updatedSeq := seq }) h₁ hs'
        (haccepted hverdict'))
      · rintro _ c₂ ⟨h₂, hsettles⟩
        refine ⟨h₂, ?_⟩
        rw [verdictOutcome, if_pos hverdict', ← hid]
        exact hstored.settles_after rfl hverdict hsettles
      · rintro why c₂ herror
        exact herror
    | false =>
      rw [if_neg (by simp)]
      have hs'' := hrejected hverdict'
      have hdecide : decideAfterFailure { s' with updatedSeq := seq } =
          decideAfterFailure (rejected s verdict) := by
        rw [hs'']
        rfl
      apply wp_mono (wp_decide (s := { s' with updatedSeq := seq }) h₁ hs' (by rw [hs'']; rfl))
      · rintro _ c₂ ⟨h₂, hsettles⟩
        refine ⟨h₂, ?_⟩
        rw [hdecide] at hsettles
        rw [verdictOutcome, if_neg (by simp [hverdict']), ← hid]
        exact hstored.settles_after rfl hverdict hsettles
      · rintro why c₂ herror
        exact herror
  · rintro why c₁ ⟨hwhy, hfailed⟩
    refine ⟨hwhy, (h.failed hfailed hwhy).keep ?_ ?_⟩
    · intro _ _ hcalm
      rw [hfailed.raised] at hcalm
      refine absurd hcalm (not_calm ?_)
      rw [verdictDraft]
      split_ifs <;> simp
    · intro _ _ _ t ht
      rw [hfailed.journal] at ht
      cases hs.symm.trans ht
      simp [TaskState.Decided, hstatus]

theorem consistent_unverify {v : Verification} (h : Consistent L P Q X c)
    (hv : c.verifying[index]? = some v) :
  Consistent L P Q (fun id => X id ∨ id = v.task.taskId)
    { c with verifying := c.verifying.eraseIdx index }
  := by
  have hframe : Frame v.task.taskId c { c with verifying := c.verifying.eraseIdx index } := by
    refine ⟨rfl, ⟨[], by simp⟩, ⟨[], by simp⟩, fun _ _ => rfl, fun _ _ _ => Iff.rfl,
      fun _ _ hmem => hmem, ?_, fun _ hw => .inl (List.mem_of_mem_eraseIdx hw)⟩
    intro w hw hne
    apply mem_eraseIdx_of_ne hv hw
    rintro rfl
    exact hne rfl
  apply h.change hframe h.written h.legal
  intro d holder _ hholder
  exact h.leased d holder hholder

/-- The second half of a verification keeps the invariant, if it gets the lock before the
controller stops. -/
theorem wp_verifyDecide {finding : Finding}
    (h : Consistent L P Q X c) (hfree : P c.stopping → busy = false ∧ c.stopping = false) :
  wp (verifyDecide index finding busy) (fun _ c' => Consistent L P Q X c') (Raises L P Q X c) c
  := by
  simp only [verifyDecide, wp_bind, wp_get]
  cases hv : c.verifying[index]? with
  | none => exact h
  | some v =>
    have h₁ := consistent_unverify h hv
    have hdecided : ¬ X v.task.taskId → Q → Quiet c.raised →
        ∀ s, c.journal.task v.task.taskId = some s → s.Decided :=
      fun hX hQ hquiet s => h.decided hQ hquiet _ s hX
    simp only [wp_bind, wp_set, wp_locked, wp_get]
    constructor
    · intro hbusy
      refine ⟨rfl, h₁.keep ?_ hdecided, by rintro ⟨⟩⟩
      intro hX hP hcalm s hs
      refine ⟨(h.attended hP hcalm _ s hX hs).leased, ?_⟩
      intro hstopped
      simp [(hfree hstopped).1] at hbusy
    · intro _
      split_ifs with hstopping
      · apply h₁.keep ?_ hdecided
        intro hX hP hcalm s hs
        refine ⟨(h.attended hP hcalm _ s hX hs).leased, ?_⟩
        intro hstopped
        simp [(hfree hstopped).2] at hstopping
      · rw [wp_bind]
        apply wp_readTask
        · cases hs : c.journal.task v.task.taskId with
          | none =>
            refine .of_fault (h₁.keep ?_ hdecided) rfl
            intro _ _ _ s hs'
            simp [hs] at hs'
          | some s =>
            have hid : s.taskId = v.task.taskId := Journal.taskId_of_task hs
            rw [← hid] at hs h₁ hdecided
            simp only [require, wp_bind, wp_pure]
            split_ifs with hcond
            · apply h₁.keep ?_ hdecided
              intro hX hP hcalm t ht
              cases hs.symm.trans ht
              obtain ⟨hlease, hqueued⟩ := h.attended hP hcalm _ s hX hs
              refine ⟨hlease, ?_⟩
              intro hstopped hstatus
              obtain hmem | ⟨w, hw, htask, hd, hr⟩ := hqueued hstopped hstatus
              · exact .inl hmem
              · refine .inr ⟨w, mem_eraseIdx_of_ne hv hw ?_, htask, hd, hr⟩
                rintro rfl
                simp [hstatus, hd, hr] at hcond
            · simp only [not_or, not_not] at hcond
              apply wp_mono (wp_settle h₁ hs hcond.1 (wf_verifier _ _ _))
              · rintro _ c₂ ⟨h₂, -⟩
                exact h₂
              · rintro why c₂ ⟨hwhy, h₂⟩
                exact .of_fault h₂ hwhy
        · intro why hwhy hnone
          apply Raises.of_fault (h₁.keep ?_ hdecided) hwhy
          intro _ _ _ s hs
          simp [hnone] at hs

end Controller

end Invariant

end Courier
