import Courier.Controller.Requests

/-!
# Heartbeats and results

The reports of the workers keep the invariant.  A heartbeat renews the leases it names and takes
the silence about a cancelled dispatch for a stop; a result of the active dispatch is queued for
its verification, and any other is kept as evidence or refused.
-/

namespace Courier

open Except Program Text

variable [Platform]

section Invariant

variable {L : EventType → Prop} {P : Bool → Prop} {Q : Prop} {X : Str → Prop} {c : Controller}

/-! ### Leases that are given back -/

/-- An active attempt that ends gives its lease back. -/
theorem Consistent.released {e : Event} {s s' : TaskState} {d : Str} {c' : Controller}
    (h : Consistent L P Q X c) (queue : List Str) (hs : c.journal.task s.taskId = some s)
    (hactive : s.status.isActiveLease = true) (hd : s.dispatchId = some d)
    (hstored : Stored c e s' c') (hid : s'.taskId = s.taskId)
    (hinactive : s'.status.isActiveLease = false) (hdecided : s'.Decided)
    (hqueue : ∀ id ∈ c.verifyQueue, id ∈ queue)
    (hqueued : s'.status = .verifying → s.taskId ∈ queue) :
  Consistent L P Q X { c' with leases := c'.leases.erase d, verifyQueue := queue }
  := by
  have hheld : s.status.isHeld = true := by
    cases hstatus : s.status <;> simp_all [TaskStatus.isActiveLease, TaskStatus.isHeld]
  have hsame := hstored.same
  obtain ⟨seq, hs'⟩ := hstored.task hid
  obtain ⟨n, prevHash, hash, hevents⟩ := hstored.events
  have hholder : ∀ d', ({ c' with leases := c'.leases.erase d, verifyQueue := queue } :
      Controller).holder d' = if d' = d then none else c.holder d' := by
    intro d'
    rw [← hstored.holder]
    exact Controller.holder_erase c' d d'
  have hframe : Frame s.taskId c
      { c' with leases := c'.leases.erase d, verifyQueue := queue } := by
    refine ⟨hsame.stopping, ⟨[], by simp [hstored.raised]⟩, ⟨_, hevents⟩, ?_, ?_, ?_, ?_, ?_⟩
    · exact hid ▸ hstored.frame.tasks
    · intro d' holder hne
      rw [hholder]
      split_ifs with hd'
      · constructor
        · rintro ⟨⟩
        · intro hold
          rw [hd'] at hold
          exact absurd (h.holder_of_dispatch hs hheld hd hold) hne
      · exact Iff.rfl
    · intro id _ hmem
      exact hqueue id hmem
    · intro v hv _
      exact hsame.verifying ▸ hv
    · intro v hv
      exact .inl (hsame.verifying ▸ hv)
  have hchange := h.change hframe hstored.written (by
    show ∀ x ∈ c'.raised, _
    rw [hstored.raised]
    exact h.legal) (by
    intro d' holder hk hold
    rw [hholder] at hold
    split_ifs at hold with hd'
    obtain ⟨-, t, ht, -, htd, -⟩ := h.leased d' holder hold
    rw [hk] at ht
    cases hs.symm.trans ht
    exact absurd (Option.some.inj (htd.symm.trans hd)) hd')
  apply hchange.keep
  · intro _ _ _ t ht
    cases hs'.symm.trans ht
    constructor
    · intro hactive'
      exact absurd (hactive'.symm.trans hinactive) (by simp)
    · intro _ hstatus
      left
      show s'.taskId ∈ queue
      rw [hid]
      exact hqueued hstatus
  · intro _ _ _ t ht
    cases hs'.symm.trans ht
    exact hdecided

namespace Controller

/-! ### Heartbeats -/

theorem wp_renewLeases {workerId : Str} {now : Rat} {ids : List Str} (h : Consistent L P Q X c) :
  wp (renewLeases workerId now ids) (fun _ c' => Consistent L P Q X c') (fun _ _ => False) c
  := by
  induction ids generalizing c with
  | nil => exact h
  | cons d rest ih =>
    have hrest : ∀ {α : Type} {f : List Str × List Str → Act α} {c' : Controller},
        Consistent L P Q X c' →
        (∀ r c'', Consistent L P Q X c'' →
          wp (f r) (fun _ c' => Consistent L P Q X c') (fun _ _ => False) c'') →
        wp (renewLeases workerId now rest >>= f) (fun _ c' => Consistent L P Q X c')
          (fun _ _ => False) c' := by
      intro α f c' h' hf
      rw [wp_bind]
      exact wp_mono (ih h') hf fun _ _ => id
    unfold renewLeases
    rw [wp_bind, wp_get]
    cases hlease : c.leases.get? d with
    | none =>
      apply hrest h
      rintro ⟨stop, cancel⟩ c' h'
      exact h'
    | some lease =>
      dsimp only
      split
      · apply hrest h
        rintro ⟨stop, cancel⟩ c' h'
        exact h'
      · have hholder : c.holder d = some lease.holder := by rw [holder, hlease]; rfl
        obtain ⟨-, s, hs, -⟩ := h.leased d _ hholder
        replace hs : c.journal.task lease.taskId = some s := hs
        have h₁ : Consistent L P Q X
            { c with leases := c.leases.set d (lease.renewed now) } := by
          have hholders : ∀ d', ({ c with leases := c.leases.set d (lease.renewed now) } :
              Controller).holder d' = c.holder d' := by
            intro d'
            rw [holder_set]
            split_ifs with hd
            · rw [hd, hholder]
              rfl
            · rfl
          exact h.congr rfl rfl rfl hholders rfl rfl
        rw [wp_bind, wp_readTask_known hs, wp_bind, wp_modify, wp_bind, wp_require]
        apply hrest h₁
        rintro ⟨stop, cancel⟩ c' h'
        exact h'

theorem fits_stopped {j : Journal} {s : TaskState} {reason : Str} {e : Event}
    (hs : j.task s.taskId = some s) (hactive : s.status.isActiveLease = true)
    (hrequested : s.cancelRequested = true)
    (he : Drafted {
      type := .taskCancelled, taskId := s.taskId, payload := [(text "reason", .str reason)] } e) :
  ∃ s', Fits j e s s' ∧ s'.status = .cancelled
  := by
  refine ⟨_, he.fits rfl hs rfl (free_of_keyless rfl) (by rintro ⟨⟩)
    (.cancelled he.type ?_ hrequested ?_), rfl⟩
  · cases hstatus : s.status <;> simp_all [TaskStatus.isActiveLease]
  · rintro ⟨hstatus, -⟩
    simp [hstatus, TaskStatus.isActiveLease] at hactive

theorem wp_confirmStops {reported : List Str} {leases : List Lease} (h : Consistent L P Q X c)
    (hleases : ∀ lease ∈ leases, c.holder lease.dispatchId = some lease.holder)
    (hnodup : (leases.map (·.dispatchId)).Nodup) :
  wp (confirmStops reported leases) (fun _ c' => Consistent L P Q X c')
    (fun why c' => why.isFault = true ∧ Consistent L P Q X c') c
  := by
  induction leases generalizing c with
  | nil => exact h
  | cons lease rest ih =>
    obtain ⟨hnotin, hnodup⟩ := List.nodup_cons.mp hnodup
    have hrest := ih h (fun l hl => hleases l (List.mem_cons_of_mem _ hl)) hnodup
    unfold confirmStops
    split
    · exact hrest
    · obtain ⟨-, s, hs, hactive, hd, -⟩ := h.leased _ _ (hleases lease (by simp))
      have hid : s.taskId = lease.taskId := Journal.taskId_of_task hs
      replace hs : c.journal.task lease.taskId = some s := hs
      rw [wp_bind, wp_readTask_known hs, wp_bind, wp_require]
      replace hs : c.journal.task s.taskId = some s := by rwa [hid]
      dsimp only
      split
      · next hcond =>
        have hproper := proper_note .taskCancelled
          [(text "reason", .str (text "worker confirmed stop"))] (by simp)
          (Journal.recorded_of_task hs).1.id rfl rfl (by rintro ⟨⟩)
        rw [wp_bind]
        apply wp_mono (wp_record h.written hproper fun e he =>
          fits_stopped hs hactive hcond.1 he)
        · rintro r c₁ ⟨-, -, e, s', -, hid', hstatus, hstored⟩
          have h₂ := h.released c₁.verifyQueue hs hactive hd hstored hid'
            (by rw [hstatus]; rfl) (by simp [TaskState.Decided, hstatus])
            (by rw [hstored.same.verifyQueue]; exact fun _ => id) (by simp [hstatus])
          rw [wp_bind, wp_modify]
          apply ih h₂ ?_ hnodup
          intro l hl
          show ({ c₁ with leases := c₁.leases.erase lease.dispatchId } : Controller).holder
            l.dispatchId = some l.holder
          rw [holder_erase, hstored.holder, if_neg]
          · exact hleases l (List.mem_cons_of_mem _ hl)
          · intro hsame
            exact hnotin (List.mem_map.mpr ⟨l, hl, hsame⟩)
        · rintro why c₁ ⟨hwhy, hfailed⟩
          exact ⟨hwhy, h.failed hfailed hwhy⟩
      · exact hrest

theorem nodup_leases (h : Consistent L P Q X c) :
  (c.leases.values.map (·.dispatchId)).Nodup
  := by
  have hkeys : c.leases.values.map (·.dispatchId) = c.leases.keys := by
    simp only [Dict.values, Dict.keys, List.map_map]
    apply List.map_congr_left
    intro p hp
    apply (h.leased p.1 p.2.holder ?_).dispatch
    rw [holder, Dict.get?_eq_some.mpr hp]
    rfl
  rw [hkeys]
  exact c.leases.nodup

theorem wp_heartbeat {body : Json} {now : Rat} {busy : Bool} (h : Consistent L P Q X c) :
  wp (heartbeat body now busy) (fun _ c' => Consistent L P Q X c') (Raises L P Q X c) c
  := by
  have hraised : ∀ why, why.isPlain = true → Raises L P Q X c why c := fun why hwhy =>
    .at_once h (Exc.not_refusal_of_plain hwhy)
  unfold heartbeat
  apply wp_writable hraised
  intro _ _
  apply wp_checked hraised (throws_onlyFields _ _)
  intro body' _
  apply wp_checked hraised (throws_requireId _ _)
  intro workerId _
  apply wp_checked hraised (throws_reportedIds _)
  intro reported _
  apply wp_unlocked hraised
  rw [wp_bind]
  apply wp_mono (wp_renewLeases h)
  · rintro ⟨stop, cancel⟩ c₁ h₁
    dsimp only
    rw [wp_bind, wp_get, wp_bind]
    apply wp_mono (wp_confirmStops h₁ ?_ ?_)
    · rintro _ c₂ h₂
      exact h₂
    · rintro why c₂ ⟨hwhy, h₂⟩
      exact .of_fault h₂ hwhy
    · intro lease hlease
      exact lease_of_values h₁ (List.mem_filter.mp hlease).1
    · exact (nodup_leases h₁).sublist (List.filter_sublist.map _)
  · rintro _ _ ⟨⟩

/-! ### Results -/

end Controller

/-- The journal keeps the result, as one to verify or as one that came too late. -/
def Reported (j : Journal) (d r : Str) : Prop :=
  ∃ x ∈ j.events, (x.type = .resultReady ∨ x.type = .lateResultDiscarded) ∧
    x.dispatchId = some d ∧ x.resultId = some r

def ReportedBy (j : Journal) (body : Json) : Prop :=
  ∃ d r payload, Controller.checkResult body = .ok (d, r, payload) ∧ Reported j d r

def Discards (c c' : Controller) : Prop :=
  Untouched c c' ∨ ∃ e s, e.type = .lateResultDiscarded ∧ Stored c e s c'

variable {j : Journal} {d r : Str}

theorem Written.reported_of_late (h : Written j) {x : Event}
    (hx : x ∈ j.events) (hcolon : 58 ∉ d)
    (hkey : x.dedupeKey = some (text "late:" ++ d ++ text ":" ++ r)) :
  Reported j d r
  := by
  have htype : x.type = .lateResultDiscarded := by
    have htype := (h.plain x hx).keyed.keyType hkey
    have hlate : keyType (text "late:" ++ d ++ text ":" ++ r) = some .lateResultDiscarded := rfl
    exact Option.some.inj (htype.symm.trans hlate)
  rcases (h.plain x hx).keyed with hdefault | ⟨-, d', r', hd, hr, hcolon', hkey'⟩
  · rw [hkey, htype] at hdefault
    cases hdefault
  · have hsame := Option.some.inj (hkey'.symm.trans hkey)
    have hcut : d' ++ 58 :: r' = d ++ 58 :: r := by
      apply @List.append_cancel_left _ (text "late:")
      simpa [text, List.append_assoc] using hsame
    obtain ⟨rfl, rfl⟩ := colon_append_inj hcolon' hcolon hcut
    exact ⟨x, hx, .inr htype, hd, hr⟩

namespace Controller

variable {s : TaskState} {claim : Event} {payload : Members}

theorem fits_late {e : Event}
    (hs : j.task s.taskId = some s) (he : Drafted (lateDraft s claim d r payload) e)
    (hcolon : 58 ∉ d) (hlate : ¬ (s.status.isActiveLease = true ∧ s.dispatchId = some d))
    (hnew : j.existing e = none) :
  Fits j e s { s with lateResults := s.lateResults + 1 }
  := by
  have htype : e.type = .lateResultDiscarded := he.type
  have hstep : Step s e { s with lateResults := s.lateResults + 1 } := by
    apply Step.lateResult htype
    rintro ⟨hactive, hd⟩
    exact hlate ⟨hactive, hd.symm.trans he.dispatchId⟩
  refine ⟨hs, he.taskId, hstep, hnew, ⟨.inr ⟨htype, d, r, he.dispatchId, he.resultId, hcolon, ?_⟩,
    ?_, ?_⟩, he.unsealed, ?_⟩
  · rw [he.key]
    rfl
  all_goals
    intro hother
    simp [htype] at hother

variable {candidate : Event}

/-- A late result is kept as evidence. -/
theorem wp_discardLate
    (h : Consistent (fun _ => False) P Q X c) (hs : c.journal.task s.taskId = some s)
    (hcandidate : Drafted (readyDraft claim d r payload) candidate) (hcolon : 58 ∉ d)
    (hlate : ¬ (s.status.isActiveLease = true ∧ s.dispatchId = some d)) :
  wp (discardLate (lateDraft s claim d r payload))
    (fun _ c' => Consistent (fun type => type = .lateResultDiscarded) P Q X c' ∧
      Reported c'.journal d r ∧ Discards c c')
    (fun why c' => why.isFault = true ∧ Consistent (fun _ => False) P Q X c') c
  := by
  have hproper := proper_late claim (Journal.recorded_of_task hs).1.id
    hcandidate.payload hcandidate.dispatchId hcandidate.resultId hcandidate.key
  have hpermit : ∀ {c' : Controller}, Consistent (fun _ => False) P Q X c' →
      Consistent (fun type => type = .lateResultDiscarded) P Q X c' := fun h => h.permit (by simp)
  simp only [discardLate, wp_bind, wp_noting, wp_tryCatch]
  apply wp_mono (wp_newEvent hproper)
  · rintro e _ ⟨he, draws, rfl⟩
    have htype : e.type = .lateResultDiscarded := he.type
    have h₁ : Consistent (fun _ => False) P Q X { c with draws := draws } :=
      h.congr rfl rfl rfl (fun _ => rfl) rfl rfl
    cases hexisting : c.journal.existing e with
    | none =>
      have hfits := fits_late hs he hcolon hlate hexisting
      apply wp_mono (wp_append_alike h₁ hfits
        ⟨rfl, rfl, fun _ => ⟨rfl, rfl⟩, rfl, fun hv => ⟨hv, rfl, rfl⟩, id⟩)
      · rintro _ c' ⟨h', hstored⟩
        obtain ⟨seq, prevHash, hash, hevents⟩ := hstored.events
        refine ⟨hpermit h', ⟨e.place seq prevHash hash, ?_, .inr htype, he.dispatchId,
          he.resultId⟩, .inr ⟨e, { s with lateResults := s.lateResults + 1 }, htype, ?_⟩⟩
        · rw [hevents]
          simp
        · exact hstored.redrawn
      · rintro why c' ⟨hwhy, h'⟩
        cases why <;> first | exact ⟨hwhy, h'⟩ | cases hwhy
    | some x =>
      obtain ⟨hx, key, hkey, hxkey⟩ := Journal.mem_of_existing hexisting
      have hreported : Reported c.journal d r := by
        apply h.written.reported_of_late hx hcolon
        rw [hxkey, ← hkey, he.key]
        rfl
      apply wp_mono (wp_append_existing (c := { c with draws := draws }) he.unsealed hexisting)
      · rintro _ c' ⟨-, -, hsame, hraised, hjournal⟩
        refine ⟨hpermit (h₁.congr hjournal hsame.stopping hraised hsame.holder hsame.verifyQueue
          hsame.verifying), ?_, .inl ⟨hjournal, hsame.leases, hsame.verifyQueue⟩⟩
        rw [hjournal]
        exact hreported
      · rintro why c' ⟨hfault | ⟨message, rfl⟩, hfailed⟩
        · have h' := h₁.failed hfailed hfault
          cases why <;> first | exact ⟨hfault, h'⟩ | cases hfault
        · refine ⟨(hpermit h₁).noted hfailed fun _ => ⟨htype, message, rfl⟩, ?_,
            .inl ⟨hfailed.journal, hfailed.same.leases, hfailed.same.verifyQueue⟩⟩
          rw [hfailed.journal]
          exact hreported
  · rintro why _ ⟨hwhy, draws, rfl⟩
    exact ⟨hwhy, h.failed (failed_of_raise draws .lateResultDiscarded why) hwhy⟩

structure RaisesReport (P : Bool → Prop) (Q : Prop) (X : Str → Prop) (body : Json)
    (c : Controller) (why : Exc) (c' : Controller) : Prop where
  answer : why.isRefusal = false
  consistent : Consistent
    (fun type => type = .lateResultDiscarded ∧ ∃ s, why = staleDispatch s) P Q X c'
  untouched : why.isClient = true → Untouched c c' ∨ (∃ s, why = staleDispatch s) ∧ Discards c c'
  reported : ∀ s, why = staleDispatch s → ReportedBy c'.journal body

variable {body : Json}

theorem RaisesReport.of_raises {c₀ : Controller} {why : Exc}
    (h : Raises (fun _ => False) P Q X c₀ why c) (hwhy : why.isPlain = true) :
  RaisesReport P Q X body c₀ why c
  := ⟨h.answer, h.consistent.permit (by simp), fun hclient => .inl (h.untouched hclient),
      fun s hs => absurd hs (Exc.ne_staleDispatch hwhy s)⟩

theorem RaisesReport.redrawn {why : Exc} {c' : Controller} {draws : Nat → Draw}
    (h : RaisesReport P Q X body { c with draws := draws } why c') :
  RaisesReport P Q X body c why c'
  := by
  refine ⟨h.answer, h.consistent, ?_, h.reported⟩
  intro hclient
  obtain huntouched | ⟨hstale, huntouched | ⟨e, s, htype, hstored⟩⟩ := h.untouched hclient
  · exact .inl ⟨huntouched.1, huntouched.2, huntouched.3⟩
  · exact .inl ⟨huntouched.1, huntouched.2, huntouched.3⟩
  · exact .inr ⟨hstale, .inr ⟨e, s, htype, hstored.redrawn⟩⟩

theorem wp_late {α : Type} {normal : α → Controller → Prop}
    (h : Consistent (fun _ => False) P Q X c) (hcheck : checkResult body = .ok (d, r, payload))
    (hs : c.journal.task s.taskId = some s)
    (hcandidate : Drafted (readyDraft claim d r payload) candidate) (hcolon : 58 ∉ d)
    (hlate : ¬ (s.status.isActiveLease = true ∧ s.dispatchId = some d)) :
  wp (do
      discardLate (lateDraft s claim d r payload)
      throw (staleDispatch s)) normal (RaisesReport P Q X body c) c
  := by
  rw [wp_bind]
  apply wp_mono (wp_discardLate h hs hcandidate hcolon hlate)
  · rintro _ c' ⟨h', hreported, hdiscards⟩
    exact ⟨rfl, h'.permit fun _ htype => ⟨htype, s, rfl⟩, fun _ => .inr ⟨⟨s, rfl⟩, hdiscards⟩,
      fun _ _ => ⟨d, r, payload, hcheck, hreported⟩⟩
  · rintro why c' ⟨hwhy, h'⟩
    exact .of_raises (.of_fault h' hwhy) (Exc.plain_of_fault hwhy)

theorem fits_ready {e : Event}
    (hwritten : Written j) (hs : j.task s.taskId = some s) (hstatus : s.status = .running)
    (hd : s.dispatchId = some d) (hclaim : j.claimForDispatch d = some claim)
    (he : Drafted (readyDraft claim d r payload) e) (hnew : j.existing e = none) :
  ∃ s', Fits j e s s' ∧ s'.status = .verifying
  := by
  have hheld : s.status.isHeld = true := by rw [hstatus]; rfl
  obtain ⟨htask, -, hattempt, -, hworker⟩ := hwritten.claim_of_dispatch hs hheld hd hclaim
  refine ⟨_, he.fits rfl hs htask (he.free rfl hnew) (by rintro ⟨⟩) (.resultReady he.type hstatus
    ⟨he.attempt.trans hattempt, he.dispatchId.trans hd.symm, ?_⟩), rfl⟩
  intro _ _
  exact he.workerId.trans hworker

theorem wp_accept
    (h : Consistent (fun _ => False) P Q X c) (hs : c.journal.task s.taskId = some s)
    (hstatus : s.status = .running) (hd : s.dispatchId = some d)
    (hclaim : c.journal.claimForDispatch d = some claim)
    (hcandidate : Drafted (readyDraft claim d r payload) candidate)
    (hnew : c.journal.existing candidate = none) :
  wp (do
      let appended ← append candidate
      modify fun c => { c with
        leases := c.leases.erase d, verifyQueue := c.verifyQueue ++ [s.taskId] }
      return { status := .acceptedForVerify, taskId := s.taskId, seq := appended.event.seq :
        ResultReply })
    (fun _ c' => Consistent (fun _ => False) P Q X c' ∧ Reported c'.journal d r)
    (fun why c' => why.isFault = true ∧ Consistent (fun _ => False) P Q X c') c
  := by
  obtain ⟨s', hfits, hverifying⟩ := fits_ready h.written hs hstatus hd hclaim hcandidate hnew
  rw [wp_bind]
  apply wp_mono (wp_append h.written hfits)
  · rintro appended c' ⟨-, -, hstored⟩
    obtain ⟨seq, prevHash, hash, hevents⟩ := hstored.events
    have hqueue : c'.verifyQueue = c.verifyQueue := hstored.same.verifyQueue
    constructor
    · apply h.released _ hs (by rw [hstatus]; rfl) hd hstored hfits.step.taskId_eq
      · rw [hverifying]
        rfl
      · simp [TaskState.Decided, hverifying]
      · intro id hid
        rw [hqueue]
        exact List.mem_append_left _ hid
      · simp
    · refine ⟨candidate.place seq prevHash hash, ?_, .inl hcandidate.type, hcandidate.dispatchId,
        hcandidate.resultId⟩
      show _ ∈ c'.journal.events
      rw [hevents]
      simp
  · rintro why c' ⟨hwhy, hfailed⟩
    exact ⟨hwhy, h.failed hfailed hwhy⟩

theorem claim_of_find (h : j.claimForDispatch d = some claim) :
  claim ∈ j.events ∧ claim.type = .taskClaimed ∧ claim.dispatchId = some d
  := by
  have hfound := List.find?_some h
  simp only [decide_eq_true_eq] at hfound
  exact ⟨List.mem_of_find?_eq_some h, hfound.2, hfound.1⟩

theorem reported_of_content {x : Event} (hwritten : Written j)
    (hcandidate : Drafted (readyDraft claim d r payload) candidate)
    (hexisting : j.existing candidate = some x) (hcontent : x.content = candidate.content) :
  Reported j d r
  := by
  obtain ⟨hx, key, hkey, hxkey⟩ := Journal.mem_of_existing hexisting
  have htype : x.type = .resultReady := by
    have hdefault : defaultDedupeKey .resultReady none none (some d) (some r) = some key :=
      hcandidate.key.symm.trans hkey
    exact (hwritten.event_of_key hx hdefault hxkey).1
  have hd : x.dispatchId = candidate.dispatchId := congrArg EventContent.dispatchId hcontent
  have hr : x.resultId = candidate.resultId := congrArg EventContent.resultId hcontent
  exact ⟨x, hx, .inl htype, hd.trans hcandidate.dispatchId, hr.trans hcandidate.resultId⟩

theorem wp_result {busy : Bool} (h : Consistent (fun _ => False) P Q X c) :
  wp (result body busy)
    (fun _ c' => Consistent (fun _ => False) P Q X c' ∧ ReportedBy c'.journal body)
    (RaisesReport P Q X body c) c
  := by
  have hraised : ∀ why, why.isPlain = true → RaisesReport P Q X body c why c := fun why hwhy =>
    .of_raises (.at_once h (Exc.not_refusal_of_plain hwhy)) hwhy
  unfold result
  apply wp_writable hraised
  intro _ _
  apply wp_checked hraised (throws_checkResult _)
  rintro ⟨d, r, payload⟩ hcheck
  apply wp_unlocked hraised
  rw [wp_bind]
  apply wp_claimOf _ hraised
  intro claim hclaim
  obtain ⟨hmem, htype, hdispatch⟩ := claim_of_find hclaim
  have hcolon := ((h.written.plain claim hmem).claimed htype d hdispatch).2
  obtain ⟨id, hid⟩ := Event.taskId_of_task (e := claim) (by rw [htype]; rfl)
  obtain ⟨s, hs⟩ := Journal.known_of_event hmem hid
  have htask : claim.task = s.taskId := by
    rw [Journal.taskId_of_task hs, Event.task, hid]
    rfl
  replace hs : c.journal.task s.taskId = some s := by rwa [Journal.taskId_of_task hs]
  rw [wp_bind]
  apply wp_requestedEvent
  · intro candidate draws hcandidate
    have h₁ : Consistent (fun _ => False) P Q X { c with draws := draws } :=
      h.congr rfl rfl rfl (fun _ => rfl) rfl rfl
    have hraised₁ : ∀ why, why.isPlain = true →
        RaisesReport P Q X body c why { c with draws := draws } := fun why hwhy =>
      .of_raises ⟨Exc.not_refusal_of_plain hwhy, h₁, fun _ => ⟨rfl, rfl, rfl⟩⟩ hwhy
    rw [wp_bind]
    apply wp_readEventByKey
    · cases hexisting : candidate.dedupeKey.bind c.journal.getEventByDedupeKey with
      | some x =>
        dsimp only
        split
        · next hcontent =>
          exact ⟨h₁, d, r, payload, hcheck,
            reported_of_content h.written hcandidate hexisting hcontent⟩
        · exact hraised₁ _ rfl
      | none =>
        dsimp only
        rw [htask, wp_bind, wp_readTask_known (c := { c with draws := draws }) hs, wp_bind,
          wp_require]
        split
        · next hactive =>
          split
          · exact hraised₁ _ rfl
          · apply wp_mono (wp_accept h₁ hs hactive.2 hactive.1 hclaim hcandidate hexisting)
            · rintro _ c' ⟨h', hreported⟩
              exact ⟨h', d, r, payload, hcheck, hreported⟩
            · rintro why c' ⟨hwhy, h'⟩
              exact .of_raises (.of_fault h' hwhy) (Exc.plain_of_fault hwhy)
        · next hinactive =>
          split
          · exact hraised₁ _ rfl
          · next hunstarted =>
            apply wp_mono (wp_late h₁ hcheck hs hcandidate hcolon ?_)
            · intro _ _ h'
              exact h'
            · intro why c' hraises
              exact hraises.redrawn
            · rintro ⟨hactive, hd⟩
              cases hstatus : s.status <;> simp_all [TaskStatus.isActiveLease]
    · intro why hwhy
      exact hraised₁ why (Exc.plain_of_fault hwhy)
  · intro why draws hwhy
    exact .of_raises ⟨Exc.not_refusal_of_plain hwhy.plain, h.congr rfl rfl rfl (fun _ => rfl) rfl
      rfl, fun _ => ⟨rfl, rfl, rfl⟩⟩ hwhy.plain

end Controller

end Invariant

end Courier
