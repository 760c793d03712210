import Courier.Controller.Upkeep

/-!
# Boot and stop

A boot establishes the invariant of the controller from the journal alone: it gives every active
task a lease, queues every result that waits for a verdict, and finishes what a crash has
interrupted.  A stop keeps the invariant.
-/

namespace Courier

open Except Program Text

variable [Platform]

section Invariant

variable {L : EventType → Prop} {P : Bool → Prop} {Q : Prop} {X : Str → Prop} {c : Controller}

namespace Controller

/-! ### Leases -/

theorem holder_set (c : Controller) (d d' : Str) (lease : Lease) :
  ({ c with leases := c.leases.set d lease } : Controller).holder d' =
    if d' = d then some lease.holder else c.holder d'
  := by
  simp only [holder, Dict.get?_set]
  split_ifs <;> rfl

variable {s : TaskState}

theorem consistent_set {lease : Lease} {d : Str}
    (h : Consistent L P Q (fun id => X id ∨ id = s.taskId) c)
    (hs : c.journal.task s.taskId = some s) (hactive : s.status.isActiveLease = true)
    (htask : lease.taskId = s.taskId) (hdispatch : lease.dispatchId = d)
    (hd : s.dispatchId = some d) (hw : s.workerId = some lease.workerId)
    (httl : s.leaseTtlS = lease.ttlS) :
  Consistent L P Q X { c with leases := c.leases.set d lease }
  := by
  have hheld : s.status.isHeld = true := by
    cases hstatus : s.status <;> simp_all [TaskStatus.isActiveLease, TaskStatus.isHeld]
  have hframe : Frame s.taskId c { c with leases := c.leases.set d lease } := by
    refine ⟨rfl, ⟨[], by simp⟩, ⟨[], by simp⟩, fun _ _ => rfl, ?_, fun _ _ hmem => hmem,
      fun _ hv _ => hv, fun _ hv => .inl hv⟩
    intro d' holder hne
    rw [holder_set]
    split_ifs with hd'
    · constructor
      · rintro ⟨⟩
        exact absurd htask hne
      · intro hholder
        rw [hd'] at hholder
        exact absurd (h.holder_of_dispatch hs hheld hd hholder) hne
    · exact Iff.rfl
  have hchange := h.change hframe h.written h.legal (by
    intro d' holder hk hholder
    rw [holder_set] at hholder
    split_ifs at hholder with hd'
    · cases hholder
      exact ⟨hdispatch.trans hd'.symm, s, by rwa [← htask] at hs, hactive, hd' ▸ hd, hw,
        httl⟩
    · exact h.leased d' holder hholder)
  apply (hchange.mono (Y := fun id => X id ∨ id = s.taskId) ?_).keep
  · intro _ _ _ t ht
    cases hs.symm.trans ht
    refine ⟨fun _ => ⟨_, lease.holder, hd, by rw [holder_set, if_pos rfl], htask⟩, ?_⟩
    intro _ hstatus
    simp [hstatus, TaskStatus.isActiveLease] at hactive
  · intro _ _ _ t ht
    cases hs.symm.trans ht
    constructor <;> intro hstatus <;> simp [hstatus, TaskStatus.isActiveLease] at hactive
  · rintro id (hX | rfl)
    · exact hX
    · exact .inr rfl

/-! ### Recovery -/

variable {now : Rat}

theorem wp_grace
    (h : Consistent L P Q (fun id => X id ∨ id = s.taskId) c)
    (hs : c.journal.task s.taskId = some s) (hactive : s.status.isActiveLease = true) :
  wp (recoverTask.grace now s) (fun _ c' => Consistent L P Q X c' ∧
      ∀ id, id ≠ s.taskId → c'.journal.task id = c.journal.task id)
    (fun why c' => why.isFault = true ∧ Consistent L P Q X c') c
  := by
  have hheld : s.status.isHeld = true := by
    cases hstatus : s.status <;> simp_all [TaskStatus.isActiveLease, TaskStatus.isHeld]
  obtain ⟨-, ⟨d, hd, -⟩, w, hw, -⟩ := (Journal.recorded_of_task hs).1.held hheld
  simp only [recoverTask.grace, hd, hw, require, wp_bind, wp_pure, wp_modify]
  exact ⟨consistent_set h hs hactive rfl rfl hd hw rfl, by simp⟩

theorem wp_recoverTask
    (h : Consistent L P Q (fun id => X id ∨ id = s.taskId) c)
    (hs : c.journal.task s.taskId = some s) :
  wp (recoverTask now s) (fun _ c' => Consistent L P Q X c' ∧
      ∀ id, id ≠ s.taskId → c'.journal.task id = c.journal.task id)
    (fun why c' => why.isFault = true ∧ Consistent L P Q X c') c
  := by
  have hnothing : s.Idle → s.Decided → Consistent L P Q X c := by
    intro hidle hdecided
    apply h.keep
    · intro _ _ _ t ht
      cases hs.symm.trans ht
      exact attended_of_idle hidle
    · intro _ _ _ t ht
      cases hs.symm.trans ht
      exact hdecided
  unfold recoverTask
  cases hstatus : s.status with
  | claimed => exact wp_grace h hs (by rw [hstatus]; rfl)
  | running => exact wp_grace h hs (by rw [hstatus]; rfl)
  | verifying =>
    have hframe : Frame s.taskId c { c with verifyQueue := c.verifyQueue ++ [s.taskId] } := by
      refine ⟨rfl, ⟨[], by simp⟩, ⟨[], by simp⟩, fun _ _ => rfl, fun _ _ _ => Iff.rfl,
        fun _ _ hmem => List.mem_append_left _ hmem, fun _ hv _ => hv, fun _ hv => .inl hv⟩
    have hchange := h.change hframe h.written h.legal fun d holder _ => h.leased d holder
    refine ⟨(hchange.mono (Y := fun id => X id ∨ id = s.taskId) ?_).keep ?_ ?_, fun _ _ => rfl⟩
    · rintro id (hX | rfl)
      · exact hX
      · exact .inr rfl
    · intro _ _ _ t ht
      cases hs.symm.trans ht
      refine ⟨?_, fun _ _ => .inl (by simp)⟩
      intro hactive
      simp [hstatus, TaskStatus.isActiveLease] at hactive
    · intro _ _ _ t ht
      cases hs.symm.trans ht
      simp [TaskState.Decided, hstatus]
  | accepted =>
    apply wp_mono (wp_complete h hs hstatus)
    · rintro _ c' ⟨h', hsettles⟩
      exact ⟨h', hsettles.tasks⟩
    · rintro why c' herror
      exact herror
  | retryPending =>
    apply wp_mono (wp_decide h hs hstatus)
    · rintro _ c' ⟨h', hsettles⟩
      exact ⟨h', hsettles.tasks⟩
    · rintro why c' herror
      exact herror
  | queued =>
    have hidle : s.Idle := ⟨by rw [hstatus]; rfl, by simp [hstatus]⟩
    dsimp only
    split_ifs with hcancel
    · simp only [wp_bind, wp_pure]
      have hid := (Journal.recorded_of_task hs).1.id
      apply wp_mono (wp_record_finish (p := fun _ _ => True) h hs hidle
        (proper_note _ _ (by simp) hid rfl rfl (by rintro ⟨⟩)) (by simp [EventType.finishes]) ?_)
      · rintro _ c' ⟨h', e, s', he, hid', -, hstored⟩
        refine ⟨h', ?_⟩
        exact hid' ▸ hstored.frame.tasks
      · rintro why c' herror
        exact herror
      · intro e he
        refine ⟨_, he.fits rfl hs rfl (free_of_keyless rfl) (by rintro ⟨⟩)
          (.cancelled he.type (by simp [hstatus]) hcancel (by simp [hstatus])), ⟨rfl, ?_⟩,
          ⟨?_, ?_⟩, trivial⟩ <;> simp
    · refine ⟨hnothing hidle ?_, fun _ _ => rfl⟩
      simp [TaskState.Decided, hstatus]
  | complete =>
    refine ⟨hnothing ⟨by rw [hstatus]; rfl, by simp [hstatus]⟩ ?_, fun _ _ => rfl⟩
    simp [TaskState.Decided, hstatus]
  | failed =>
    refine ⟨hnothing ⟨by rw [hstatus]; rfl, by simp [hstatus]⟩ ?_, fun _ _ => rfl⟩
    simp [TaskState.Decided, hstatus]
  | blocked =>
    refine ⟨hnothing ⟨by rw [hstatus]; rfl, by simp [hstatus]⟩ ?_, fun _ _ => rfl⟩
    simp [TaskState.Decided, hstatus]
  | cancelled =>
    refine ⟨hnothing ⟨by rw [hstatus]; rfl, by simp [hstatus]⟩ ?_, fun _ _ => rfl⟩
    simp [TaskState.Decided, hstatus]

theorem wp_recoverTasks {tasks : List TaskState}
    (h : Consistent L P Q (fun id => X id ∨ id ∈ tasks.map (·.taskId)) c)
    (htasks : ∀ s ∈ tasks, c.journal.task s.taskId = some s)
    (hnodup : (tasks.map (·.taskId)).Nodup) :
  wp (recoverTasks now tasks) (fun _ c' => Consistent L P Q X c')
    (fun why c' => why.isFault = true ∧ Written c'.journal ∧
      ∀ x ∈ c'.raised, x.2.isRefusal = true → L x.1 ∧ ∃ message, x.2 = .dedupeConflict message) c
  := by
  induction tasks generalizing c with
  | nil => exact h.mono (by simp)
  | cons s rest ih =>
    unfold recoverTasks
    rw [wp_bind]
    obtain ⟨hs, hrest⟩ := List.nodup_cons.mp hnodup
    have h₁ : Consistent L P Q
        (fun id => (X id ∨ id ∈ rest.map (·.taskId)) ∨ id = s.taskId) c := by
      apply h.mono
      rintro id (hX | hmem)
      · exact .inl (.inl hX)
      · obtain rfl | hmem := List.mem_cons.mp hmem
        · exact .inr rfl
        · exact .inl (.inr hmem)
    apply wp_mono (wp_recoverTask h₁ (htasks s (by simp)))
    · rintro _ c' ⟨h', hsame⟩
      apply ih h'
      · intro t ht
        rw [hsame]
        · exact htasks t (List.mem_cons_of_mem _ ht)
        · intro hid
          exact hs (List.mem_map.mpr ⟨t, ht, hid⟩)
      · exact hrest
    · rintro why c' ⟨hwhy, h'⟩
      exact ⟨hwhy, h'.written, h'.legal⟩

theorem mem_listTasks {j : Journal} {status : Option TaskStatus} :
  s ∈ j.listTasks status ↔ j.task s.taskId = some s ∧ ∀ t, status = some t → s.status = t
  := by
  simp only [Journal.listTasks, List.mem_insertionSort, List.mem_filter, Dict.mem_values,
    Option.all_eq_true, decide_eq_true_eq]
  constructor
  · rintro ⟨⟨id, hid⟩, hstatus⟩
    refine ⟨?_, hstatus⟩
    rwa [Journal.taskId_of_task hid]
  · rintro ⟨hs, hstatus⟩
    exact ⟨⟨_, hs⟩, hstatus⟩

theorem nodup_listTasks (j : Journal) (status : Option TaskStatus) :
  ((j.listTasks status).map (·.taskId)).Nodup
  := by
  have hkeys : j.tasks.values.map (·.taskId) = j.tasks.keys := by
    simp only [Dict.values, Dict.keys, List.map_map]
    apply List.map_congr_left
    intro p hp
    exact Journal.taskId_of_task (Dict.get?_eq_some.mpr hp)
  have hperm := (List.perm_insertionSort listedBefore
    (j.tasks.values.filter fun s => status.all (s.status = ·))).map (·.taskId)
  apply hperm.nodup_iff.mpr
  apply List.Nodup.sublist (List.Sublist.map _ List.filter_sublist)
  rw [hkeys]
  exact j.tasks.nodup

/-! ### The lifecycle of the controller -/

omit [Platform] in
theorem wf_build (build : Build) (pid : Int) :
  (Json.obj [(text "build", .obj build.record), (text "pid", .int pid)]).wf = true
  := by
  obtain ⟨version, buildId, source, python⟩ := build
  cases buildId <;> cases source <;> rfl

/-- A boot establishes the invariant. -/
theorem wp_boot {pid : Int} {build : Build} {j : Journal} {draws : Nat → Draw}
    (h : Written j) :
  wp (boot pid build now) (fun _ c' => Consistent L P Q (fun _ => False) c')
    (fun why c' => why.isFault = true ∧ Written c'.journal ∧
      ∀ x ∈ c'.raised, x.2.isRefusal = true → L x.1 ∧ ∃ message, x.2 = .dedupeConflict message)
    (fresh j draws)
  := by
  have h₀ : Consistent L P Q (fun _ => True)
      { fresh j draws with mode := .normal, headSeq := j.head.1 } := by
    refine ⟨h, by simp [fresh], ?_, by simp [fresh], by simp, by simp⟩
    rintro d holder ⟨⟩
  simp only [boot, wp_bind, wp_modify]
  apply wp_mono (wp_record_system h₀ (proper_system rfl (wf_build build pid) rfl) rfl rfl rfl)
  · rintro _ c' ⟨h', -, -⟩
    simp only [wp_get]
    apply wp_recoverTasks
    · refine ⟨h'.written, h'.legal, h'.leased, h'.reports, ?_, ?_⟩
      · intro _ _ id s hid hs
        have hmem : s ∈ c'.journal.listTasks none :=
          mem_listTasks.mpr ⟨by rwa [Journal.taskId_of_task hs], by simp⟩
        refine absurd (.inr ?_) hid
        exact List.mem_map.mpr ⟨s, hmem, Journal.taskId_of_task hs⟩
      · intro _ _ id s hid hs
        have hmem : s ∈ c'.journal.listTasks none :=
          mem_listTasks.mpr ⟨by rwa [Journal.taskId_of_task hs], by simp⟩
        refine absurd (.inr ?_) hid
        exact List.mem_map.mpr ⟨s, hmem, Journal.taskId_of_task hs⟩
    · intro s hs
      exact (mem_listTasks.mp hs).1
    · apply nodup_listTasks
  · rintro why c' ⟨hwhy, h'⟩
    exact ⟨hwhy, h'.written, h'.legal⟩

theorem wp_stop {pid : Int} {busy : Bool} (h : Consistent L P Q X c)
    (hstop : P true → P c.stopping) :
  wp (stop pid busy) (fun _ c' => Consistent L P Q X c') (Raises L P Q X c) c
  := by
  have h₁ : Consistent L P Q X { c with stopping := true } := by
    refine ⟨h.written, h.legal, h.leased, h.reports, ?_, h.decided⟩
    intro hP hcalm id s hX hs
    obtain ⟨hlease, hqueued⟩ := h.attended hP hcalm id s hX hs
    exact ⟨hlease, fun hstopped => hqueued (hstop hstopped)⟩
  simp only [stop, wp_bind, wp_modify, wp_tryCatch, wp_locked, wp_get]
  constructor
  · intro _
    exact h₁
  · intro _
    split_ifs
    · simp only [wp_bind, wp_pure]
      apply wp_mono (wp_record_system h₁ (proper_system rfl rfl rfl) rfl rfl rfl)
      · rintro _ c' ⟨h', -, -⟩
        exact h'
      · rintro why c' ⟨hwhy, h'⟩
        cases why <;> first | exact h' | exact .of_fault h' hwhy
    · exact h₁

end Controller

end Invariant

end Courier
