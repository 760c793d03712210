import Courier.Bridge
import Courier.Coordination.Claims

/-!
# Invariants of the passes

A property of the world is kept by every pass if it is kept by what others do, by the events and requests of the
bridge and by each way in which it saves a mapping.
-/

namespace Courier.Bridge

open Program Text
open Coordination hiding apply EventType Holds Sound

variable [Platform]

/-- The property is kept by others and by what is written to the ledger. -/
structure Stable (I : World → Prop) : Prop where
  access : Keeps I access
  write : ∀ w event, I w → I (w.write true event)
  report : ∀ w event, (event.eventType = .final → event.status = .done) → I w →
    I ((w.write true event).report event)
  find : ∀ w event, I w → I (w.find event)

variable {I : World → Prop} {α : Type}

theorem keeps_access_of (hnext : ∀ w surroundings, I w → I { w with surroundings := surroundings })
    (hwrite : ∀ w event, I w → I (w.write false event))
    (hrequest : ∀ w request, I w → I { w with controller := (w.controller.step request).2 })
    (harrive : ∀ w arrival, I w → I (w.arrive arrival)) :
  Keeps I access
  := by
  have hrequests : ∀ (requests : List Request) w, I w → I { w with
      controller := requests.foldl (fun c request => (c.step request).2) w.controller } := by
    intro requests
    induction requests with
    | nil => exact fun w hw => hw
    | cons request rest ih => exact fun w hw => ih _ (hrequest w request hw)
  apply keeps_get
  intro w hw
  apply keeps_bind
  · apply keeps_set
    apply Run.foldl_invariant harrive
    apply hrequests
    exact Run.foldl_invariant hwrite (hnext w _ hw) _
  intro _
  dsimp only
  split
  · exact keeps_raise _ _
  · exact keeps_pure _

theorem keeps_orRaise (x : Except Exc α) :
  Keeps I (orRaise x)
  := by
  cases x with
  | ok a => exact keeps_pure a
  | error why => exact keeps_throw _

theorem wp_orRaise {x : Except Exc α} {w : World} (hw : I w) :
  wp (orRaise x) (fun a w' => x = .ok a ∧ I w') (fun _ => I) w
  := by
  cases x with
  | ok a => exact ⟨rfl, hw⟩
  | error why => exact hw

theorem keeps_digest (source : Str) :
  Keeps I (digest source)
  := by
  unfold digest
  split
  · exact keeps_pure _
  · exact keeps_throw _

namespace Stable

variable [Coordination.Iso] (h : Stable I)

include h

theorem readLedger {w : World} (hw : I w) :
  wp readLedger (fun r w' => Coordination.Sound r ∧ I w') (fun _ => I) w
  := by
  apply h.access.andThen hw
  intro _ w' hw'
  rw [wp_bind, wp_get]
  cases hlog : reduceStore w'.log with
  | ok r =>
    refine ⟨?_, hw'⟩
    rw [reduceStore_eq hlog]
    exact sound_reduced w'.log
  | error why => exact hw'

theorem writeNew {r : Reducer} (hr : Coordination.Sound r) {event : CoordinationEvent}
    (hevent : event.eventType = .final → event.status = .done) {w : World} (hw : I w) :
  wp (writeNew r event) (fun x w' => Coordination.Sound x.2 ∧ I w') (fun _ => I) w
  := by
  unfold Bridge.writeNew
  split
  · exact ⟨hr, h.find w event hw⟩
  · apply h.access.andThen hw
    intro _ w' hw'
    rw [wp_bind, wp_modify]
    have hafter := hr.after event
    unfold Reducer.after at hafter
    cases happly : Coordination.apply event r with
    | ok answer r' =>
      rw [happly] at hafter
      exact ⟨hafter, h.report w' event hevent hw'⟩
    | error why r' => exact h.report w' event hevent hw'

theorem parkGoal (p : Pass) {r : Reducer} (hr : Coordination.Sound r) (mission : Mission)
    (reason : Str) {w : World} (hw : I w) :
  wp (parkGoal p r mission reason) (fun r' w' => Coordination.Sound r' ∧ I w') (fun _ => I) w
  := by
  apply (keeps_digest _).andThen hw
  intro id w₁ h₁
  apply h.access.andThen h₁
  intro s w₂ h₂
  apply (keeps_orRaise _).andThen h₂
  intro createdAt w₃ h₃
  apply (keeps_digest _).andThen h₃
  intro payloadHash w₄ h₄
  rw [wp_bind]
  apply wp_mono (h.writeNew hr (by rintro ⟨⟩) h₄)
  · rintro ⟨_, r'⟩ w₅ h₅
    exact h₅
  · intro _ w₅ h₅
    exact h₅

theorem claimMission (p : Pass) (missionId : Str) :
  Keeps I (claimMission p missionId)
  := by
  apply keeps_bind h.access
  intro s
  apply keeps_get
  intro w _
  apply keeps_bind (keeps_orRaise _)
  intro prepared
  cases prepared with
  | answer result => exact keeps_pure _
  | event checkpoint event isNew =>
    have hverify : Keeps I (do
        let _ ← Bridge.access
        let w ← get
        let result ← orRaise (verifyClaim w.log p.agent checkpoint missionId event.eventId)
        return if result.outcome = .claimed then result.eventId else none) := by
      apply keeps_bind h.access
      intro _
      apply keeps_get
      intro w _
      apply keeps_bind (keeps_orRaise _)
      intro result
      exact keeps_pure _
    have hwrite : Keeps I (writeEvent event) := by
      apply keeps_bind h.access
      intro _
      exact keeps_modify fun w hw => h.write w event hw
    dsimp only
    split
    · apply keeps_bind hwrite
      intro _
      exact hverify
    · exact hverify

omit [Coordination.Iso]

theorem taskView (taskId : Str) :
  Keeps I (taskView taskId)
  := by
  unfold Bridge.taskView
  dsimp only
  split
  · exact keeps_pure _
  apply keeps_bind h.access
  intro s
  split
  · exact keeps_throw _
  · split
    · exact keeps_pure _
    · split
      · exact keeps_raise _ _
      · split
        · exact keeps_pure _
        · exact keeps_throw _

end Stable

theorem wp_feedbackEvent [Coordination.Iso] (h : Stable I) (p : Pass) (mission : Mission)
    (evidence : Evidence) {w : World} (hw : I w) :
  wp (feedbackEvent p mission evidence)
    (fun event w' => event.missionId = mission.missionId ∧
      event.eventType = evidence.report.eventType ∧ event.status = evidence.report.status ∧ I w')
    (fun _ => I) w
  := by
  apply (keeps_digest _).andThen hw
  intro id w₁ h₁
  apply h.access.andThen h₁
  intro s w₂ h₂
  apply (keeps_orRaise _).andThen h₂
  intro createdAt w₃ h₃
  apply (keeps_digest _).andThen h₃
  intro payloadHash w₄ h₄
  exact ⟨rfl, rfl, rfl, h₄⟩

theorem done_of_final {p : Pass} {mapping : Mapping} {spec : Option Members} {view : Members}
    {evidence : Evidence} (h : evidenceOf p mapping spec view = .ok (some evidence))
    (hfinal : evidence.report.eventType = .final) :
  evidence.report.status = .done
  := by
  have hreport : ∀ taskId attempt found, report view taskId attempt = .ok (some found) →
      found.eventType = .final → found.status = .done := by
    intro taskId attempt found hfound htype
    unfold report at hfound
    split at hfound
    · split_ifs at hfound
      · split at hfound
        · cases hfound
          rfl
        · split_ifs at hfound
          · cases hfound
            rfl
          · cases hfound
        · cases hfound
      · cases hfound
        cases htype
      · cases hfound
        cases htype
      · cases hfound
    · cases hfound
    · cases hfound
    · cases hfound
  unfold evidenceOf at h
  split at h
  · next attempt source _ _ =>
    have hmap : ∀ (f : Report → Evidence), (∀ found, (f found).report = found) →
        (report view mapping.taskId attempt).map (Option.map f) = .ok (some evidence) →
        evidence.report.status = .done := by
      intro f hf hok
      obtain ⟨found, hfound, hsome⟩ := Except.map_eq_ok.mp hok
      obtain ⟨x, rfl, rfl⟩ := Option.map_eq_some_iff.mp hsome
      rw [hf] at hfinal ⊢
      exact hreport _ _ x hfound hfinal
    dsimp only at h
    split_ifs at h
    · cases h
    · exact hmap _ (fun _ => rfl) h
    · cases h
    · exact hmap _ (fun _ => rfl) h
  · cases h

omit [Platform] in
theorem final_of_done {mapping : Mapping} {view : Members} {evidence : Evidence}
    (h : (mapping.reported view evidence).status = some .finalDone) :
  evidence.report.eventType = .final
  := by
  unfold Mapping.reported outcomeStatus at h
  dsimp only at h
  cases htype : evidence.report.eventType with
  | final => rfl
  | _ => simp [htype] at h

/-! ### Invariants -/

def Mapping.ids (mapping : Mapping) : Str × Str :=
  (mapping.taskId, mapping.idempotencyKey)

/-- `B` holds between the passes, `I` in a pass, and `At` while it is known what mapping the process has for a mission.
-/
structure Kept (B I : World → Prop) (At : Str → Option Mapping → World → Prop) : Prop where
  between : Keeps B access
  restart : ∀ w, B w → B { w with reporting := none }
  load : ∀ w, B w → I { w with memory := w.file.map Mapping.loaded }
  pause : ∀ w, I w → B w
  stable : Stable I
  stableAt : ∀ missionId mapping, Stable (At missionId mapping)
  look : ∀ missionId w, I w → At missionId (w.memory.get? missionId) w
  forget : ∀ missionId mapping w, At missionId mapping w → I w
  made : ∀ missionId claimEventId spec source goal w, Encodable (taskKey claimEventId) →
    At missionId none w →
    wp (saveMapping missionId (.made (text "task-" ++
        (Platform.sha256 (taskKey claimEventId)).take 32) claimEventId spec source goal))
      (fun _ => At missionId (some (.made (text "task-" ++
        (Platform.sha256 (taskKey claimEventId)).take 32) claimEventId spec source goal)))
      (fun _ => I) w
  send : ∀ missionId mapping spec w, At missionId (some mapping) w →
    At missionId (some mapping) { w with
      sent := w.sent ++ [(missionId, taskBody spec mapping.idempotencyKey)] }
  deliver : ∀ missionId mapping spec uuid busy w, At missionId (some mapping) w →
    At missionId (some mapping) (w.post uuid busy missionId (taskBody spec mapping.idempotencyKey))
  stamp : ∀ missionId mapping changed w, changed.ids = mapping.ids → changed.status ≠ none →
    changed.status ≠ some .finalDone → At missionId (some mapping) w →
    wp (stamp missionId mapping changed) (fun _ => I) (fun _ => I) w
  reported : ∀ missionId mapping changed event w, event.missionId = missionId →
    (event.eventType = .final → event.status = .done) → changed.ids = mapping.ids →
    changed.status ≠ none →
    (changed.status = some .finalDone → event.eventType = .final) → At missionId (some mapping) w →
    ∀ w', w' = (w.write true event).report event ∨ w' = w.find event →
      wp (Bridge.stamp missionId mapping changed) (fun _ => I) (fun _ => I) w'

/-- The mapping of a parked mission is saved, if there is one. -/
def stampParked (missionId : Str) (mapping : Option Mapping) (reason : Str) (r : Reducer) : BridgeM (Reducer × Bool) := do
  if let some mapping := mapping then
    stamp missionId mapping (mapping.parked reason)
  return (r, true)

namespace Kept

variable {B : World → Prop} {At : Str → Option Mapping → World → Prop} (h : Kept B I At)

include h

theorem postTask (missionId : Str) (spec : Members) (mapping : Mapping) :
  Keeps (At missionId (some mapping)) (postTask missionId spec mapping.idempotencyKey)
  := by
  apply keeps_bind (h.stableAt missionId (some mapping)).access
  intro s
  apply keeps_bind
  · exact keeps_modify fun w hw => h.send missionId mapping spec w hw
  intro _
  dsimp only
  split
  on_goal 1 =>
    apply keeps_bind (keeps_modify fun w hw => h.deliver missionId mapping spec s.uuid s.busy w hw)
    intro _
  -- What is left is to read the reply.
  all_goals
    split
    · exact keeps_throw _
    · split
      · exact keeps_raise _ _
      · split
        · split
          · exact keeps_pure _
          · exact keeps_pure _
        · exact keeps_pure _

theorem postMapping (missionId : Str) (spec : Members) (mapping : Mapping)
    (goal : Option (Str × Str)) {w : World} (hw : At missionId (some mapping) w) :
  wp (postMapping missionId spec mapping goal) (fun _ => I) (fun _ => I) w
  := by
  have hforget := h.forget missionId (some mapping)
  have hview := (h.stableAt missionId (some mapping)).taskView mapping.taskId
  unfold Bridge.postMapping
  split
  · exact hforget w hw
  rw [wp_bind]
  apply wp_mono (h.postTask missionId spec mapping w hw)
  · intro posted w₁ h₁
    cases posted with
    | none => exact hforget w₁ h₁
    | some _ =>
      dsimp only
      rw [wp_bind]
      apply wp_mono (hview w₁ h₁)
      · intro view w₂ h₂
        cases view with
        | none => exact hforget w₂ h₂
        | some view =>
          dsimp only
          split
          · exact hforget w₂ h₂
          · next attempt _ =>
            rw [wp_bind]
            apply wp_mono (h.stamp missionId mapping (mapping.afterPost view attempt goal) w₂
              rfl (by simp [Mapping.afterPost]) (by simp [Mapping.afterPost]) h₂)
            · intro _ w₃ h₃
              exact h₃
            · intro _ w₃ h₃
              exact h₃
      · intro _ w₂ h₂
        exact hforget w₂ h₂
  · intro _ w₁ h₁
    exact hforget w₁ h₁

variable [Coordination.Iso]

theorem makeMapping {p : Pass} {missionId : Str} {spec : Members} {source : Str}
    {goal : Option (Str × Str)} {w : World} (hw : At missionId none w) :
  wp (makeMapping p missionId spec source goal)
    (fun made w' => match made with
      | .error _ => I w'
      | .ok mapping => At missionId (some mapping) w')
    (fun _ => I) w
  := by
  have hforget := h.forget missionId none
  rw [Bridge.makeMapping, wp_bind]
  apply wp_mono ((h.stableAt missionId none).claimMission p missionId w hw)
  · intro claimed w₁ h₁
    split
    · exact hforget w₁ h₁
    · exact hforget w₁ h₁
    · next claimEventId _ =>
      dsimp only
      split
      · exact hforget w₁ h₁
      · rw [wp_bind]
        unfold digest
        split
        · next hencodable =>
          rw [wp_pure, wp_bind]
          exact h.made missionId claimEventId spec source goal w₁ hencodable h₁
        · exact hforget w₁ h₁
  · intro _ w₁ h₁
    exact hforget w₁ h₁

theorem dispatchMapping (p : Pass) (missionId : Str) (spec : Members) (goal : Option (Str × Str)) :
  Keeps I (dispatchMapping p missionId spec goal)
  := by
  intro w hw
  have hat := h.look missionId w hw
  rw [Bridge.dispatchMapping, wp_bind, wp_get]
  dsimp only
  split
  · exact hw
  · next source _ =>
    cases hmapping : w.memory.get? missionId with
    | some mapping =>
      rw [hmapping] at hat
      exact h.postMapping missionId spec mapping goal hat
    | none =>
      rw [hmapping] at hat
      dsimp only
      rw [wp_bind]
      apply wp_mono (h.makeMapping hat)
      · intro made w₁ h₁
        cases made with
        | error ok => exact h₁
        | ok mapping => exact h.postMapping missionId spec mapping goal h₁
      · intro _ w₁ h₁
        exact h₁

theorem dispatchMission (p : Pass) {r : Reducer} (hr : Coordination.Sound r) (missionId : Str)
    {w : World} (hw : I w) :
  wp (dispatchMission p r missionId) (fun x w' => Coordination.Sound x.1 ∧ I w') (fun _ => I) w
  := by
  have hdispatch : ∀ spec goal, wp (do
      return (r, ← Bridge.dispatchMapping p missionId spec goal))
      (fun x w' => Coordination.Sound x.1 ∧ I w') (fun _ => I) w := by
    intro spec goal
    apply (h.dispatchMapping p missionId spec goal).andThen hw
    intro ok w₁ h₁
    exact ⟨hr, h₁⟩
  have hforget := h.forget missionId
  have hat := h.look missionId w hw
  unfold Bridge.dispatchMission
  cases p.spec missionId with
  | none => exact ⟨hr, hw⟩
  | some spec =>
    dsimp only
    rw [wp_bind, wp_get]
    cases goalBinding (some spec) with
    | absent => exact hdispatch spec none
    | blocked reason =>
      have hstamp : ∀ (r' : Reducer) w₁, Coordination.Sound r' →
          At missionId (w.memory.get? missionId) w₁ →
          wp (stampParked missionId (w.memory.get? missionId) reason r')
            (fun x w' => Coordination.Sound x.1 ∧ I w') (fun _ => I) w₁ := by
        intro r' w₁ hr' h₁
        cases hmapping : w.memory.get? missionId with
        | none =>
          rw [hmapping] at h₁
          exact ⟨hr', hforget none w₁ h₁⟩
        | some mapping =>
          rw [hmapping] at h₁
          rw [stampParked, wp_bind]
          apply wp_mono (h.stamp missionId mapping (mapping.parked reason) w₁ rfl
            (by simp [Mapping.parked]) (by simp [Mapping.parked]) h₁)
          · intro _ w₂ h₂
            exact ⟨hr', h₂⟩
          · intro _ w₂ h₂
            exact h₂
      dsimp only
      split
      · next mission _ =>
        rw [wp_bind]
        apply wp_mono ((h.stableAt missionId _).parkGoal p hr mission reason hat)
        · rintro r' w₁ ⟨hr', h₁⟩
          exact hstamp r' w₁ hr' h₁
        · intro _ w₁ h₁
          exact hforget _ w₁ h₁
      · exact hstamp r w hr hat
    | ok goalId goalFingerprint =>
      dsimp only
      split
      · split
        · next reason _ =>
          split
          · next mission _ =>
            rw [wp_bind]
            exact h.stable.parkGoal p hr mission reason hw
          · exact ⟨hr, hw⟩
        · exact hdispatch spec _
      · exact hdispatch spec _

/-- A report is written, and then the mapping is saved. -/
theorem reportMission {r : Reducer} (hr : Coordination.Sound r) {missionId : Str}
    {mapping changed : Mapping} {event : CoordinationEvent} (hevent : event.missionId = missionId)
    (hnamed : event.eventType = .final → event.status = .done) (hids : changed.ids = mapping.ids)
    (hstatus : changed.status ≠ none)
    (hfinal : changed.status = some .finalDone → event.eventType = .final) {w : World}
    (hw : At missionId (some mapping) w) :
  wp (do
      let (_, r) ← writeNew r event
      Bridge.stamp missionId mapping changed
      return (r, true)) (fun x w' => Coordination.Sound x.1 ∧ I w') (fun _ => I) w
  := by
  have hat := h.stableAt missionId (some mapping)
  have hforget := h.forget missionId (some mapping)
  have hstamp : ∀ (x : Bool × Reducer) w₁ w₂, Coordination.Sound x.2 →
      At missionId (some mapping) w₁ →
      w₂ = (w₁.write true event).report event ∨ w₂ = w₁.find event →
      wp (do
        Bridge.stamp missionId mapping changed
        return (x.2, true)) (fun x w' => Coordination.Sound x.1 ∧ I w') (fun _ => I) w₂ := by
    intro x w₁ w₂ hx h₁ hwritten
    rw [wp_bind]
    apply wp_mono (h.reported missionId mapping changed event w₁ hevent hnamed hids hstatus hfinal h₁
      w₂ hwritten)
    · intro _ w₃ h₃
      exact ⟨hx, h₃⟩
    · intro _ w₃ h₃
      exact h₃
  rw [wp_bind]
  unfold writeNew
  split
  · exact hstamp (false, r) w _ hr hw (.inr rfl)
  · rw [wp_bind]
    apply wp_mono (hat.access w hw)
    · intro _ w₁ h₁
      rw [wp_bind, wp_modify]
      have hafter := hr.after event
      unfold Reducer.after at hafter
      cases happly : Coordination.apply event r with
      | ok answer r' =>
        rw [happly] at hafter
        exact hstamp (true, r') w₁ _ hafter h₁ (.inl rfl)
      | error why r' => exact hforget _ (hat.report w₁ event hnamed h₁)
    · intro _ w₁ h₁
      exact hforget w₁ h₁

theorem feedbackMission (p : Pass) {r : Reducer} (hr : Coordination.Sound r) (missionId : Str)
    {w : World} (hw : I w) :
  wp (feedbackMission p r missionId) (fun x w' => Coordination.Sound x.1 ∧ I w') (fun _ => I) w
  := by
  have hat := h.look missionId w hw
  rw [Bridge.feedbackMission, wp_bind, wp_get]
  cases hmapping : w.memory.get? missionId with
  | none => exact ⟨hr, hw⟩
  | some mapping =>
    rw [hmapping] at hat
    have hforget := h.forget missionId (some mapping)
    cases hmission : r.missions.get? missionId with
    | none => exact ⟨hr, hw⟩
    | some mission =>
      dsimp only
      split
      · next reason _ =>
        rw [wp_bind]
        apply wp_mono ((h.stableAt missionId _).parkGoal p hr mission reason hat)
        · rintro r' w₁ ⟨hr', h₁⟩
          rw [wp_bind]
          apply wp_mono (h.stamp missionId mapping (mapping.parked reason) w₁ rfl
            (by simp [Mapping.parked]) (by simp [Mapping.parked]) h₁)
          · intro _ w₂ h₂
            exact ⟨hr', h₂⟩
          · intro _ w₂ h₂
            exact h₂
        · intro _ w₁ h₁
          exact hforget w₁ h₁
      · rw [wp_bind]
        apply wp_mono ((h.stableAt missionId _).taskView mapping.taskId w hat)
        · intro view w₁ h₁
          cases view with
          | none => exact ⟨hr, hforget w₁ h₁⟩
          | some view =>
            dsimp only
            rw [wp_bind]
            apply wp_mono (wp_orRaise h₁)
            · rintro evidence w₂ ⟨hevidence, h₂⟩
              cases evidence with
              | none => exact ⟨hr, hforget w₂ h₂⟩
              | some evidence =>
                dsimp only
                rw [wp_bind]
                apply wp_mono (wp_feedbackEvent (h.stableAt missionId _) p mission evidence
                  h₂)
                · rintro event w₃ ⟨hevent, htype, hnamed, h₃⟩
                  apply h.reportMission hr (hevent.trans (hr.keyed missionId mission
                    hmission)) _ _ _ _ h₃
                  · intro hfinal
                    exact hnamed.trans (done_of_final hevidence (htype.symm.trans hfinal))
                  · rfl
                  · simp [Mapping.reported]
                  · intro hdone
                    exact htype.trans (final_of_done hdone)
                · intro _ w₃ h₃
                  exact hforget w₃ h₃
            · intro _ w₂ h₂
              exact hforget w₂ h₂
        · intro _ w₁ h₁
          exact hforget w₁ h₁

/-! ### Whole passes -/

theorem feedback (p : Pass) :
  Keeps I (feedback p)
  := by
  have hmissions : ∀ ids r w, Coordination.Sound r → I w →
      wp (feedbackMissions p r ids) (fun _ => I) (fun _ => I) w := by
    intro ids
    induction ids with
    | nil => exact fun r w _ hw => hw
    | cons missionId rest ih =>
      intro r w hr hw
      rw [feedbackMissions, wp_bind]
      apply wp_mono (h.feedbackMission p hr missionId hw)
      · rintro ⟨r', ok⟩ w₁ ⟨hr', h₁⟩
        dsimp only
        rw [wp_bind]
        apply wp_mono (ih r' w₁ hr' h₁)
        · intro _ w₂ h₂
          exact h₂
        · intro _ w₂ h₂
          exact h₂
      · intro _ w₁ h₁
        exact h₁
  intro w hw
  rw [Bridge.feedback, wp_bind]
  apply wp_mono (h.stable.readLedger hw)
  · rintro r w₁ ⟨hr, h₁⟩
    rw [wp_bind, wp_get]
    exact hmissions _ r w₁ hr h₁
  · intro _ w₁ h₁
    exact h₁

theorem dispatch (p : Pass) :
  Keeps I (dispatch p)
  := by
  have hmissions : ∀ ids r w, Coordination.Sound r → I w →
      wp (dispatchMissions p r ids) (fun _ => I) (fun _ => I) w := by
    intro ids
    induction ids with
    | nil => exact fun r w _ hw => hw
    | cons missionId rest ih =>
      intro r w hr hw
      rw [dispatchMissions, wp_bind]
      apply wp_mono (h.dispatchMission p hr missionId hw)
      · rintro ⟨r', ok⟩ w₁ ⟨hr', h₁⟩
        dsimp only
        rw [wp_bind]
        apply wp_mono (ih r' w₁ hr' h₁)
        · intro _ w₂ h₂
          exact h₂
        · intro _ w₂ h₂
          exact h₂
      · intro _ w₁ h₁
        exact h₁
  intro w hw
  rw [Bridge.dispatch, wp_bind]
  apply wp_mono (h.stable.readLedger hw)
  · rintro r w₁ ⟨hr, h₁⟩
    exact hmissions _ r w₁ hr h₁
  · intro _ w₁ h₁
    exact h₁

theorem runPass (p : Pass) :
  Keeps B (runPass p)
  := by
  have hspecs : ∀ specs, Keeps B (checkSpecs specs) := by
    intro specs
    induction specs with
    | nil => exact keeps_pure _
    | cons q rest ih =>
      unfold checkSpecs
      dsimp only
      split
      · exact keeps_raise _ _
      apply keeps_bind (keeps_orRaise _)
      intro ok
      split
      · exact keeps_raise _ _
      · exact ih
  have hload : Keeps B (do
      modify fun w => { w with memory := w.file.map Mapping.loaded }
      if ← Bridge.feedback p then
        let _ ← Bridge.dispatch p) := by
    intro w hw
    rw [wp_bind, wp_modify]
    refine Keeps.weaken ?_ (h.load w hw) h.pause
    apply keeps_bind (h.feedback p)
    intro ok
    split
    · apply keeps_bind (h.dispatch p)
      intro _
      exact keeps_pure _
    · exact keeps_pure _
  unfold Bridge.runPass
  split
  · exact keeps_raise _ _
  apply keeps_bind h.between
  intro _
  apply keeps_bind (hspecs _)
  intro _
  exact hload

theorem turn {w : World} (hw : B w) (t : Turn) :
  B (w.turn t)
  := by
  unfold World.turn
  cases t
  all_goals
    dsimp only
    split
  · next hresult => exact (h.runPass _).of_ok (h.restart w hw) hresult
  · next hresult => exact (h.runPass _).of_error (h.restart w hw) hresult
  · next hresult => exact (keeps_map h.between).of_ok (h.restart w hw) hresult
  · next hresult => exact (keeps_map h.between).of_error (h.restart w hw) hresult

theorem run {controller : Controller} {surroundings : Nat → Surrounding}
    (hstart : B (World.start controller surroundings)) (turns : List Turn) :
  B (World.run controller surroundings turns)
  := Run.foldl_invariant (I := B) (fun _ t hw => h.turn hw t) hstart turns

end Kept

end Courier.Bridge
