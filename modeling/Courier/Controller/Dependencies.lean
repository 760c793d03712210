import Courier.Controller.Growth
import Courier.Controller.Inputs
import Mathlib.Logic.Relation

/-!
# Chains of dependent tasks

A task is created after the task it depends on, so no chain of dependencies closes.  A claim goes
through the tasks that wait in the order of their creation and comes to a task after its dependency:
when it finds none to claim, it has failed all that wait in vain, however long the chains are.
-/

namespace Courier

open Program Run Text

section Journals

variable [Platform]

/-! ### The order of creation -/

def Founded (events : List Event) : Prop :=
  ∀ before e after, events = before ++ e :: after → e.type = .taskCreated →
    ∀ d, e.get (text "depends_on") = .str d → ∃ x ∈ before, x.type = .taskCreated ∧ x.taskId = some d

theorem Founded.concat {events : List Event} {e : Event} (h : Founded events)
    (he : e.type = .taskCreated → ∀ d, e.get (text "depends_on") = .str d →
      ∃ x ∈ events, x.type = .taskCreated ∧ x.taskId = some d) :
  Founded (events ++ [e])
  := by
  intro before x after hsplit
  obtain rfl | ⟨after, y, rfl⟩ := List.eq_nil_or_concat' after
  · obtain ⟨rfl, hx⟩ := List.append_inj' hsplit rfl
    obtain rfl : e = x := List.singleton_inj.mp hx
    exact he
  · rw [← List.cons_append, ← List.append_assoc] at hsplit
    exact h before x after (List.append_inj' hsplit rfl).1

namespace Journal

variable {j : Journal}

def DependsOn (j : Journal) (id d : Str) : Prop :=
  ∃ s, j.task id = some s ∧ s.dependsOn = some d

theorem seq_of_split {before after : List Event} {e : Event} (h : j.events = before ++ e :: after) :
  e.seq = some ((before.length : Int) + 1)
  := by
  have hseqs := congrArg (fun l => l[before.length]?) j.chained.seqs
  rw [h] at hseqs
  simpa [add_comm] using hseqs

theorem creation_of_task {id : Str} {s : TaskState} (hs : j.task id = some s) :
  ∃ before e after, j.events = before ++ e :: after ∧ e.type = .taskCreated ∧ e.taskId = some id ∧
    s.dependsOn = (created e).dependsOn ∧ s.createdSeq = some ((before.length : Int) + 1)
  := by
  obtain ⟨e, he, htype⟩ := (recorded_of_task hs).2.created
  obtain ⟨hmem, htask⟩ := Written.mem_of_eventsOf he
  obtain ⟨before, after, hsplit⟩ := List.append_of_mem hmem
  obtain ⟨hdepends, hseq⟩ := creation_of_run (fun _ => not_system_of_eventsOf) (j.run_of_task id) s hs e
    he htype
  exact ⟨before, e, after, hsplit, htype, htask, hdepends, hseq.trans (seq_of_split hsplit)⟩

theorem eq_of_createdSeq {id id' : Str} {s s' : TaskState} (hs : j.task id = some s)
    (hs' : j.task id' = some s') (h : s.createdSeq.getD 0 = s'.createdSeq.getD 0) :
  s = s'
  := by
  obtain ⟨before, e, after, hsplit, -, htask, -, hseq⟩ := creation_of_task hs
  obtain ⟨before', e', after', hsplit', -, htask', -, hseq'⟩ := creation_of_task hs'
  have hlength : before.length = before'.length := by
    rw [hseq, hseq'] at h
    simpa using h
  obtain ⟨-, hevents⟩ := List.append_inj (hsplit.symm.trans hsplit') hlength
  obtain ⟨rfl, -⟩ := List.cons_eq_cons.mp hevents
  obtain rfl : id = id' := Option.some.inj (htask.symm.trans htask')
  exact Option.some.inj (hs.symm.trans hs')

theorem older_of_dependsOn (h : Founded j.events) {id d : Str} {s : TaskState}
    (hs : j.task id = some s) (hd : s.dependsOn = some d) :
  ∃ dep, j.task d = some dep ∧ dep.createdSeq.getD 0 < s.createdSeq.getD 0
  := by
  obtain ⟨before, e, after, hsplit, htype, -, hdepends, hseq⟩ := creation_of_task hs
  have hget : e.get (text "depends_on") = .str d := by
    rw [hd] at hdepends
    change some d = (e.get (text "depends_on")).str? at hdepends
    cases hvalue : e.get (text "depends_on") <;> rw [hvalue] at hdepends <;> cases hdepends
    rfl
  obtain ⟨x, hx, hxtype, hxtask⟩ := h before e after hsplit htype d hget
  obtain ⟨first, rest, rfl⟩ := List.append_of_mem hx
  have hxsplit : j.events = first ++ x :: (rest ++ e :: after) := by simp [hsplit]
  have hxmem : x ∈ j.events := by simp [hxsplit]
  obtain ⟨dep, hdep⟩ := known_of_event hxmem hxtask
  have hdseq := (creation_of_run (fun _ => not_system_of_eventsOf) (j.run_of_task d) dep hdep x
    (List.mem_filter.mpr ⟨hxmem, by simp [hxtask]⟩) hxtype).2
  refine ⟨dep, hdep, ?_⟩
  rw [hdseq, hseq, seq_of_split hxsplit]
  simp

theorem acyclic (h : Founded j.events) (id : Str) :
  ¬ Relation.TransGen j.DependsOn id id
  := by
  have holder : ∀ {a b : Str}, Relation.TransGen j.DependsOn a b →
      ∃ s t, j.task a = some s ∧ j.task b = some t ∧ t.createdSeq.getD 0 < s.createdSeq.getD 0 := by
    intro a b hchain
    induction hchain with
    | single hlink =>
      obtain ⟨s, hs, hd⟩ := hlink
      obtain ⟨dep, hdep, hlt⟩ := older_of_dependsOn h hs hd
      exact ⟨s, dep, hs, hdep, hlt⟩
    | tail _ hlink ih =>
      obtain ⟨s, t, hs, ht, hlt⟩ := ih
      obtain ⟨t', ht', hd⟩ := hlink
      cases ht.symm.trans ht'
      obtain ⟨dep, hdep, hlt'⟩ := older_of_dependsOn h ht hd
      exact ⟨s, dep, hs, hdep, hlt'.trans hlt⟩
  intro hchain
  obtain ⟨s, t, hs, ht, hlt⟩ := holder hchain
  cases hs.symm.trans ht
  exact lt_irrefl _ hlt

end Journal

/-! ### Runs keep the order -/

namespace Controller

theorem wp_append_founded {e : Event} {c : Controller} (hc : Founded c.journal.events)
    (he : e.type = .taskCreated → ∀ d, e.get (text "depends_on") = .str d →
      ∃ x ∈ c.journal.events, x.type = .taskCreated ∧ x.taskId = some d) :
  wp (append e) (fun _ => Stores fun _ j _ => Founded j.events) (fun _ => Stores fun _ j _ => Founded j.events) c
  := by
  apply wp_append_of
  · intro r c' happend _ _
    show Founded c'.journal.events
    obtain ⟨-, hj, -⟩ | ⟨-, -, hextends, -⟩ := Journal.append_ok happend
    · rw [hj]
      exact hc
    · obtain ⟨seq, prevHash, hash, hevents, -⟩ := hextends.events
      rw [hevents]
      exact hc.concat he
  · intro why c' _ hfailed
    show Founded c'.journal.events
    rw [hfailed.journal]
    exact hc

theorem founded_createTask (body : Json) (uuid : Uuid) (busy : Bool) :
  Keeps (Stores fun _ j _ => Founded j.events) (createTask body uuid busy)
  := by
  apply keeps_createTask
  intro c taskId d timeoutS dependsOn e hc _ _ he hknown
  apply wp_append_founded hc
  intro _ k hk
  have hdepends : dependsOn = some k := by
    change Json.get e.payload (text "depends_on") = .str k at hk
    rw [he.payload] at hk
    cases dependsOn with
    | none => cases timeoutS <;> cases hk
    | some k' =>
      cases hk
      rfl
  obtain ⟨t, ht⟩ := hknown k hdepends
  obtain ⟨before, x, after, hsplit, hxtype, hxtask, -⟩ := Journal.creation_of_task ht
  exact ⟨x, by simp [hsplit], hxtype, hxtask⟩

theorem founded_of_reached {p : Controller → Request → Controller → Prop} {c : Controller}
    (h : Reached p c) :
  Founded c.journal.events
  := by
  apply h.invariant
  · rintro _ ⟨draws, rfl⟩ before e after hsplit
    simp [fresh, Journal.empty] at hsplit
  · rintro c _ hc ⟨request, -, rfl, -⟩
    refine keeps_step (keeps_perform ?_ founded_createTask request fun _ _ _ _ _ h => h) hc
    exact fun e he c hc => wp_append_founded hc fun hcreated => absurd hcreated he

end Controller

/-! ### The tasks in their order -/

instance : Std.Total listedBefore where
  total s t := by
    unfold listedBefore
    rcases lt_trichotomy (s.createdSeq.getD 0) (t.createdSeq.getD 0) with h | h | h
    · exact .inl (.inl h)
    · rcases le_total s.taskId t.taskId with hid | hid
      · exact .inl (.inr ⟨h, hid⟩)
      · exact .inr (.inr ⟨h.symm, hid⟩)
    · exact .inr (.inl h)

instance : IsTrans TaskState listedBefore where
  trans s t u := by
    rintro (h | ⟨h, hid⟩) (h' | ⟨h', hid'⟩)
    · exact .inl (h.trans h')
    · exact .inl (h' ▸ h)
    · exact .inl (h ▸ h')
    · exact .inr ⟨h.trans h', hid.trans hid'⟩

namespace Journal

variable {j : Journal}

theorem sorted_listTasks (j : Journal) (status : Option TaskStatus) :
  (j.listTasks status).Pairwise fun s t => s.createdSeq.getD 0 ≤ t.createdSeq.getD 0
  := by
  apply (List.pairwise_insertionSort listedBefore _).imp
  rintro s t (h | ⟨h, -⟩)
  · exact h.le
  · exact h.le

theorem dependencies_listTasks (h : Founded j.events) (status : Option TaskStatus) :
  (j.listTasks status).Pairwise fun s t => s.dependsOn ≠ some t.taskId
  := by
  apply (sorted_listTasks j status).imp_of_mem
  intro s t hs ht hle hd
  obtain ⟨dep, hdep, hlt⟩ := older_of_dependsOn h (Controller.mem_listTasks.mp hs).1 hd
  cases hdep.symm.trans (Controller.mem_listTasks.mp ht).1
  omega

def Offers (j : Journal) (s : TaskState) : Prop :=
  s.cancelRequested = false ∧ ∃ b, Bindable j s b

def Claimable (j : Journal) (s : TaskState) : Prop :=
  j.task s.taskId = some s ∧ s.status = .queued ∧ j.Offers s

inductive Doomed (j : Journal) : Str → Prop where
  | ended {id d : Str} {s dep : TaskState} (task : j.task id = some s) (queued : s.status = .queued)
      (wanted : s.cancelRequested = false) (depends : s.dependsOn = some d) (known : j.task d = some dep)
      (ended : dep.status.isTerminal = true) (vain : ∀ b, ¬ BoundTo j d b) : Doomed j id
  | chained {id d : Str} {s : TaskState} (task : j.task id = some s) (queued : s.status = .queued)
      (wanted : s.cancelRequested = false) (depends : s.dependsOn = some d) (next : Doomed j d) : Doomed j id

end Journal

/-! ### One pass -/

namespace Controller

variable {c c' : Controller} {r : Option ClaimReply} {tasks : List TaskState}

theorem Passes.bindable {k : Str} {s t : TaskState} {b : Option Json} (h : Passes k c c')
    (hs : c.journal.task k = some s) (hstatus : s.status = .queued) (hb : Bindable c.journal t b) :
  Bindable c'.journal t b
  := by
  unfold Bindable at hb ⊢
  split at hb
  · exact hb
  · obtain ⟨b', rfl, hbound⟩ := hb
    obtain ⟨more, hmore, -⟩ := h.events
    refine ⟨b', rfl, hbound.mono ⟨more, hmore⟩ (h.tasks _ ?_)⟩
    rintro rfl
    obtain ⟨dep, hdep, hverified, -⟩ := hbound
    cases hs.symm.trans hdep
    simp [TaskState.verified, hstatus] at hverified

theorem Passes.bindable_of {k : Str} {s t : TaskState} {b : Option Json} (h : Passes k c c')
    (hs : c'.journal.task k = some s) (hstatus : s.status = .failed) (hb : Bindable c'.journal t b) :
  Bindable c.journal t b
  := by
  unfold Bindable at hb ⊢
  split at hb
  · exact hb
  · obtain ⟨b', rfl, dep, hdep, hverified, x, hx, htype, hrest⟩ := hb
    obtain ⟨more, hmore, hfailed⟩ := h.events
    refine ⟨b', rfl, dep, ?_, hverified, x, ?_, htype, hrest⟩
    · rw [← hdep, h.tasks]
      rintro rfl
      cases hs.symm.trans hdep
      simp [TaskState.verified, hstatus] at hverified
    · rw [hmore] at hx
      rcases List.mem_append.mp hx with hx | hx
      · exact hx
      · simp [hfailed x hx] at htype

structure Waiting (c : Controller) (tasks : List TaskState) : Prop where
  known : ∀ s ∈ tasks, c.journal.task s.taskId = some s ∧ s.status = .queued
  nodup : (tasks.map (·.taskId)).Nodup

theorem Waiting.tail {s : TaskState} (h : Waiting c (s :: tasks)) :
  Waiting c tasks
  := ⟨fun t ht => h.known t (List.mem_cons_of_mem _ ht), (List.nodup_cons.mp h.nodup).2⟩

theorem Waiting.passes {s : TaskState} (h : Waiting c (s :: tasks)) (hpasses : Passes s.taskId c c') :
  Waiting c' tasks
  := by
  obtain ⟨hnotin, hnodup⟩ := List.nodup_cons.mp h.nodup
  refine ⟨fun t ht => ?_, hnodup⟩
  rw [hpasses.tasks]
  · exact h.known t (List.mem_cons_of_mem _ ht)
  · intro hid
    exact hnotin (List.mem_map.mpr ⟨t, ht, hid⟩)

theorem Pass.others (h : Pass tasks c none c') {id : Str} (hid : id ∉ tasks.map (·.taskId)) :
  c'.journal.task id = c.journal.task id
  := by
  generalize hr : (none : Option ClaimReply) = r at h
  induction h with
  | done => rfl
  | cancelled _ _ ih => exact ih (fun hmem => hid (List.mem_cons_of_mem _ hmem)) hr
  | waits _ _ _ _ _ ih => exact ih (fun hmem => hid (List.mem_cons_of_mem _ hmem)) hr
  | fails _ passes _ _ _ ih =>
    rw [ih (fun hmem => hid (List.mem_cons_of_mem _ hmem)) hr]
    apply passes.tasks
    rintro rfl
    exact hid List.mem_cons_self
  | claims => cases hr

open Classical in
theorem Pass.first (h : Pass tasks c r c') (hwaiting : Waiting c tasks) :
  r.map (·.taskId) = (tasks.find? fun s => c.journal.Offers s).map (·.taskId)
  := by
  induction h with
  | done => rfl
  | cancelled unwanted _ ih =>
    rw [List.find?_cons_of_neg (by simp [Journal.Offers, unwanted])]
    exact ih hwaiting.tail
  | waits _ vain _ _ _ ih =>
    rw [List.find?_cons_of_neg (by simp [Journal.Offers, vain])]
    exact ih hwaiting.tail
  | @fails s s' rest c c₁ c' r vain passes task failed _ ih =>
    obtain ⟨hs, hstatus⟩ := hwaiting.known s List.mem_cons_self
    have hoffers : c₁.journal.Offers = c.journal.Offers := by
      funext t
      apply propext
      constructor
      · rintro ⟨hwanted, b, hb⟩
        exact ⟨hwanted, b, passes.bindable_of task failed hb⟩
      · rintro ⟨hwanted, b, hb⟩
        exact ⟨hwanted, b, passes.bindable hs hstatus hb⟩
    rw [List.find?_cons_of_neg (by simp [Journal.Offers, vain]), ← hoffers]
    exact ih (hwaiting.passes passes)
  | claims wanted bound task =>
    rw [List.find?_cons_of_pos (by simpa [Journal.Offers, wanted] using ⟨_, bound⟩)]
    exact congrArg some task

inductive Leaves (c' : Controller) (s : TaskState) : Prop where
  | unwanted (unwanted : s.cancelRequested = true) (task : c'.journal.task s.taskId = some s)
  | failed {s' : TaskState} (task : c'.journal.task s.taskId = some s') (failed : s'.status = .failed)
  | waits {d : Str} {dep : TaskState} (task : c'.journal.task s.taskId = some s)
      (depends : s.dependsOn = some d) (known : c'.journal.task d = some dep)
      (runs : dep.status.isTerminal = false)

theorem Pass.settled (h : Pass tasks c none c') (hwaiting : Waiting c tasks)
    (horder : tasks.Pairwise fun s t => s.dependsOn ≠ some t.taskId) :
  ∀ s ∈ tasks, Leaves c' s
  := by
  generalize hr : (none : Option ClaimReply) = r at h
  induction h with
  | done => simp
  | @cancelled s rest c c' r unwanted next ih =>
    subst hr
    obtain ⟨-, horder⟩ := List.pairwise_cons.mp horder
    rintro t (_ | ⟨_, ht⟩)
    · refine .unwanted unwanted ?_
      rw [next.others (List.nodup_cons.mp hwaiting.nodup).1]
      exact (hwaiting.known s List.mem_cons_self).1
    · exact ih hwaiting.tail horder rfl t ht
  | @waits s dep d rest c c' r depends vain known runs next ih =>
    subst hr
    obtain ⟨hhead, horder⟩ := List.pairwise_cons.mp horder
    rintro t (_ | ⟨_, ht⟩)
    · refine .waits ?_ depends ?_ runs
      · rw [next.others (List.nodup_cons.mp hwaiting.nodup).1]
        exact (hwaiting.known s List.mem_cons_self).1
      · rw [next.others, known]
        rintro hmem
        obtain ⟨u, hu, rfl⟩ := List.mem_map.mp hmem
        exact hhead u hu depends
    · exact ih hwaiting.tail horder rfl t ht
  | @fails s s' rest c c₁ c' r vain passes task failed next ih =>
    subst hr
    obtain ⟨-, horder⟩ := List.pairwise_cons.mp horder
    rintro t (_ | ⟨_, ht⟩)
    · refine .failed ?_ failed
      rw [next.others (List.nodup_cons.mp hwaiting.nodup).1, task]
    · exact ih (hwaiting.passes passes) horder rfl t ht
  | claims => cases hr

/-! ### Claims -/

theorem waiting_listTasks (c : Controller) :
  Waiting c (c.journal.listTasks (some .queued))
  := by
  refine ⟨fun s hs => ?_, nodup_listTasks _ _⟩
  obtain ⟨hs, hstatus⟩ := mem_listTasks.mp hs
  exact ⟨hs, hstatus _ rfl⟩

theorem wp_claim_accepted {body : Json} {uuid : Uuid} {now : Rat} {d : Members} {workerId : Str}
    {normal : Option ClaimReply → Controller → Prop} {raised : Exc → Controller → Prop}
    (hmode : c.mode = .normal) (hstopping : c.stopping = false)
    (hbody : onlyFields body [text "worker_id", text "resource_state"] = .ok d)
    (hworker : requireId d (text "worker_id") = .ok workerId) :
  wp (claim body uuid now false) normal raised c ↔
    wp (claimFirst workerId uuid now (c.journal.listTasks (some .queued))) normal raised c
  := by
  simp [claim, requireWritable, hmode, hstopping, hbody, hworker]

end Controller

structure Fruitless (j j' : Journal) : Prop where
  none : ∀ s, ¬ j.Claimable s
  waits : ∀ id s, j'.task id = some s → s.status = .queued → s.cancelRequested = false →
    ∃ d dep, s.dependsOn = some d ∧ j'.task d = some dep ∧ dep.status.isTerminal = false
  failed : ∀ id, j.Doomed id → ∃ s, j'.task id = some s ∧ s.status = .failed

theorem fruitless_of_pass {c c' : Controller} (hfounded : Founded c.journal.events)
    (h : Controller.Pass (c.journal.listTasks (some .queued)) c none c') :
  Fruitless c.journal c'.journal
  := by
  have hwaiting := Controller.waiting_listTasks c
  have hleaves := h.settled hwaiting (Journal.dependencies_listTasks hfounded _)
  have hlisted : ∀ {id : Str} {s : TaskState}, c.journal.task id = some s → s.status = .queued →
      s ∈ c.journal.listTasks (some .queued) := by
    intro id s hs hstatus
    refine Controller.mem_listTasks.mpr ⟨?_, ?_⟩
    · rwa [Journal.taskId_of_task hs]
    · rintro _ ⟨⟩
      exact hstatus
  have hother : ∀ id, (∀ s, c.journal.task id = some s → s.status ≠ .queued) →
      c'.journal.task id = c.journal.task id := by
    intro id hid
    apply h.others
    intro hmem
    obtain ⟨s, hs, rfl⟩ := List.mem_map.mp hmem
    obtain ⟨hknown, hstatus⟩ := hwaiting.known s hs
    exact hid s hknown hstatus
  constructor
  · rintro s ⟨hs, hstatus, hoffers⟩
    have hnone := h.first hwaiting
    rw [Option.map_none, eq_comm, Option.map_eq_none_iff, List.find?_eq_none] at hnone
    exact hnone s (hlisted hs hstatus) (by simpa using hoffers)
  · intro id s' hs' hstatus hwanted
    by_cases hqueued : ∃ s, c.journal.task id = some s ∧ s.status = .queued
    · obtain ⟨s, hs, hqueued⟩ := hqueued
      obtain rfl := Journal.taskId_of_task hs
      cases hleaves s (hlisted hs hqueued) with
      | unwanted unwanted task =>
        cases hs'.symm.trans task
        simp [hwanted] at unwanted
      | failed task failed =>
        cases hs'.symm.trans task
        simp [hstatus] at failed
      | waits task depends known runs =>
        cases hs'.symm.trans task
        exact ⟨_, _, depends, known, runs⟩
    · have hsame := hother id fun s hs hqueued' => hqueued ⟨s, hs, hqueued'⟩
      exact absurd ⟨s', hsame.symm.trans hs', hstatus⟩ hqueued
  · intro id hdoomed
    induction hdoomed with
    | @ended id d s dep task queued wanted depends known ended vain =>
      obtain rfl := Journal.taskId_of_task task
      cases hleaves s (hlisted task queued) with
      | unwanted unwanted => simp [wanted] at unwanted
      | failed task' failed => exact ⟨_, task', failed⟩
      | waits _ depends' known' runs =>
        cases depends.symm.trans depends'
        rw [hother d, known] at known'
        · cases known'
          simp [ended] at runs
        · intro t ht hqueued
          cases known.symm.trans ht
          simp [hqueued, TaskStatus.isTerminal] at ended
    | @chained id d s task queued wanted depends next ih =>
      obtain rfl := Journal.taskId_of_task task
      obtain ⟨t, ht, hfailed⟩ := ih
      cases hleaves s (hlisted task queued) with
      | unwanted unwanted => simp [wanted] at unwanted
      | failed task' failed => exact ⟨_, task', failed⟩
      | waits _ depends' known' runs =>
        cases depends.symm.trans depends'
        cases ht.symm.trans known'
        simp [hfailed, TaskStatus.isTerminal] at runs

theorem oldest_of_pass {c c' : Controller} {r : Option ClaimReply} {s : TaskState}
    (h : Controller.Pass (c.journal.listTasks (some .queued)) c r c') (hs : c.journal.Claimable s) :
  ∃ t reply, r = some reply ∧ reply.taskId = t.taskId ∧ c.journal.Claimable t ∧
    ∀ u, c.journal.Claimable u → u = t ∨ t.createdSeq.getD 0 < u.createdSeq.getD 0
  := by
  classical
  have hlisted : ∀ {u}, c.journal.Claimable u → u ∈ c.journal.listTasks (some .queued) := by
    rintro u ⟨hu, hstatus, -⟩
    refine Controller.mem_listTasks.mpr ⟨hu, ?_⟩
    rintro _ ⟨⟩
    exact hstatus
  have hfirst := h.first (Controller.waiting_listTasks c)
  obtain ⟨t, ht⟩ : ∃ t, (c.journal.listTasks (some .queued)).find?
      (fun s => decide (c.journal.Offers s)) = some t := by
    rw [← Option.isSome_iff_exists, List.find?_isSome]
    exact ⟨s, hlisted hs, by simpa using hs.2.2⟩
  rw [ht] at hfirst
  obtain ⟨reply, rfl, hreply⟩ := Option.map_eq_some_iff.mp hfirst
  obtain ⟨hoffers, first, rest, hlist, hbefore⟩ := List.find?_eq_some_iff_append.mp ht
  have hmem : t ∈ c.journal.listTasks (some .queued) := by simp [hlist]
  obtain ⟨hknown, hstatus⟩ := (Controller.waiting_listTasks c).known t hmem
  refine ⟨t, reply, rfl, hreply, ⟨hknown, hstatus, by simpa using hoffers⟩, ?_⟩
  intro u hu
  have humem := hlisted hu
  have hsorted := Journal.sorted_listTasks c.journal (some .queued)
  rw [hlist] at humem hsorted
  rcases List.mem_append.mp humem with hu' | hu'
  · have hnot := hbefore u hu'
    simp [hu.2.2] at hnot
  · rcases List.mem_cons.mp hu' with rfl | hu'
    · exact .inl rfl
    · have hle := (List.pairwise_cons.mp (List.pairwise_append.mp hsorted).2.1).1 u hu'
      rcases hle.eq_or_lt with heq | hlt
      · exact .inl (Journal.eq_of_createdSeq hu.1 hknown heq.symm)
      · exact .inr hlt

/-- In every run no chain of dependencies closes, an empty claim leaves no task that waits in vain, and a claim in which
no append fails is answered with the oldest task that can be claimed. -/
theorem claim_settles {c : Controller} {body : Json} {uuid : Uuid} {now : Rat} {busy : Bool}
    (hreached : Controller.Reached (fun _ _ _ => True) c)
    (hfresh : (Request.claim body uuid now busy).Fresh c) :
  (∀ id, ¬ Relation.TransGen c.journal.DependsOn id id) ∧
  ((c.step (.claim body uuid now busy)).1 = .ok (.claimed none) →
    Fruitless c.journal (c.step (.claim body uuid now busy)).2.journal) ∧
  ∀ d workerId, c.mode = .normal → c.stopping = false → busy = false →
    onlyFields body [text "worker_id", text "resource_state"] = .ok d →
    requireId d (text "worker_id") = .ok workerId →
    (c.step (.claim body uuid now busy)).2.raised = [] → (∃ s, c.journal.Claimable s) →
    ∃ t reply, (c.step (.claim body uuid now busy)).1 = .ok (.claimed (some reply)) ∧
      reply.taskId = t.taskId ∧ c.journal.Claimable t ∧
      ∀ u, c.journal.Claimable u → u = t ∨ t.createdSeq.getD 0 < u.createdSeq.getD 0
  := by
  have hfounded := Controller.founded_of_reached hreached
  have hsound := sound_of_reached hreached
  refine ⟨Journal.acyclic hfounded, ?_, ?_⟩
  · intro hnone
    have hmode : c.mode = .normal := by
      cases hmode : c.mode with
      | normal => rfl
      | booting =>
        unfold Controller.step at hnone
        simp [hmode] at hnone
    have hwp : wp (Controller.perform (.claim body uuid now busy))
        (fun answer c' => ∀ r, answer = .claimed r →
          Controller.Pass (c.journal.listTasks (some .queued)) { c with raised := [] } r c')
        (fun _ _ => True) { c with raised := [] } := by
      rw [Controller.perform, wp_map]
      apply wp_mono (Controller.wp_claim (hsound.consistent hmode) hfresh)
      · rintro r c' ⟨-, -, hpass⟩ _ ⟨⟩
        exact hpass
      · exact fun _ _ _ => trivial
    have hpass := (Controller.step_of_wp hmode (by simp) (by simp) hwp).1 _ hnone _ rfl
    exact fruitless_of_pass (c := { c with raised := [] }) hfounded hpass
  · rintro d workerId hmode hstopping rfl hbody hworker hraised ⟨s, hs⟩
    have hwp : wp (Controller.perform (.claim body uuid now false))
        (fun answer c' => ∃ r, answer = .claimed r ∧
          Controller.Pass (c.journal.listTasks (some .queued)) { c with raised := [] } r c')
        (fun _ c' => c'.raised ≠ []) { c with raised := [] } := by
      have hwaiting := Controller.waiting_listTasks { c with raised := [] }
      rw [Controller.perform, wp_map]
      refine (Controller.wp_claim_accepted (c := { c with raised := [] }) hmode hstopping hbody hworker).mpr ?_
      apply wp_mono (Controller.wp_claimFirst (hsound.consistent hmode) (isId_of_requireId hworker) hfresh
        hwaiting.known hwaiting.nodup)
      · rintro r c' ⟨-, -, hpass⟩
        exact ⟨r, rfl, hpass⟩
      · rintro why c' ⟨-, -, hexcused⟩
        apply hexcused
        intro t ht k hk hnone
        obtain ⟨dep, hdep, -⟩ := Journal.older_of_dependsOn hfounded (hwaiting.known t ht).1 hk
        cases hnone.symm.trans hdep
    obtain ⟨hok, herror⟩ := Controller.step_of_wp hmode (by simp) (by simp) hwp
    cases hstep : (c.step (.claim body uuid now false)).1 with
    | error why => exact absurd hraised (herror why hstep)
    | ok answer =>
      obtain ⟨r, rfl, hpass⟩ := hok answer hstep
      obtain ⟨t, reply, rfl, hreply, ht, holdest⟩ := oldest_of_pass (c := { c with raised := [] }) hpass hs
      exact ⟨t, reply, rfl, hreply, ht, holdest⟩

end Journals

section Example

local instance dependenciesPlatform : Platform := Platform.plain

def dependentBody (n : Nat) : Json :=
  .obj [(text "adapter", .str (text "echo")), (text "depends_on", .str (numberedTask n)),
    (text "effect_class", .str (text "idempotent")), (text "lease_ttl_s", .int 30),
    (text "max_attempts", .int 2), (text "params", .obj [])]

def claimBody : Json :=
  .obj [(text "worker_id", .str (text "w"))]

/-- Two tasks hang from a third, one after the other. -/
def chainRequests : List Request :=
  [.boot 1 plainBuild 0, .createTask echoBody (numberedUuid 0) false,
    .createTask (dependentBody 0) (numberedUuid 1) false,
    .createTask (dependentBody 1) (numberedUuid 2) false]

theorem claim_settles_chain :
  (Fruitless ((freshFailing fun _ => false).run
        (chainRequests ++ [.cancel (numberedTask 0) (.obj []) false])).journal
      (((freshFailing fun _ => false).run
        (chainRequests ++ [.cancel (numberedTask 0) (.obj []) false])).step (.claim claimBody (numberedUuid 9) 0 false)).2.journal ∧
    (((freshFailing fun _ => false).run (chainRequests ++ [.cancel (numberedTask 0) (.obj []) false])).step
      (.claim claimBody (numberedUuid 9) 0 false)).2.journal.tasks.values.map (·.status) = [.cancelled, .failed, .failed]) ∧
  ∃ t reply, (((freshFailing fun _ => false).run chainRequests).step (.claim claimBody (numberedUuid 9) 0 false)).1 =
      .ok (.claimed (some reply)) ∧ reply.taskId = t.taskId ∧
    ((freshFailing fun _ => false).run chainRequests).journal.Claimable t
  := by
  have hcancelled : (freshFailing fun _ => false).Admits (fun _ _ _ => True)
        (chainRequests ++ [.cancel (numberedTask 0) (.obj []) false]) ∧
      (Request.claim claimBody (numberedUuid 9) 0 false).Fresh ((freshFailing fun _ => false).run
        (chainRequests ++ [.cancel (numberedTask 0) (.obj []) false])) ∧
      (((freshFailing fun _ => false).run (chainRequests ++ [.cancel (numberedTask 0) (.obj []) false])).step
        (.claim claimBody (numberedUuid 9) 0 false)).1 = .ok (.claimed none) ∧
      (((freshFailing fun _ => false).run (chainRequests ++ [.cancel (numberedTask 0) (.obj []) false])).step
        (.claim claimBody (numberedUuid 9) 0 false)).2.journal.tasks.values.map (·.status) = [.cancelled, .failed, .failed] := by
    decide +kernel
  have hwaiting : (freshFailing fun _ => false).Admits (fun _ _ _ => True) chainRequests ∧
      (Request.claim claimBody (numberedUuid 9) 0 false).Fresh ((freshFailing fun _ => false).run chainRequests) ∧
      ((freshFailing fun _ => false).run chainRequests).mode = .normal ∧
      ((freshFailing fun _ => false).run chainRequests).stopping = false ∧
      (((freshFailing fun _ => false).run chainRequests).step (.claim claimBody (numberedUuid 9) 0 false)).2.raised = [] ∧
      (((freshFailing fun _ => false).run chainRequests).journal.task (numberedTask 0)).any (fun s =>
        s.status = .queued && s.cancelRequested = false && s.dependsOn = none) = true := by
    decide +kernel
  obtain ⟨hcancelled, hfresh, hnone, hstatuses⟩ := hcancelled
  obtain ⟨hwaiting, hfresh', hmode, hstopping, hraised, hfirst⟩ := hwaiting
  refine ⟨⟨(claim_settles (reached_of_admits hcancelled) hfresh).2.1 hnone, hstatuses⟩, ?_⟩
  rw [Option.any_eq_true] at hfirst
  obtain ⟨s, hs, hqueued⟩ := hfirst
  simp only [Bool.and_eq_true, decide_eq_true_eq] at hqueued
  obtain ⟨⟨hstatus, hwanted⟩, hdepends⟩ := hqueued
  have hclaimable : ((freshFailing fun _ => false).run chainRequests).journal.Claimable s := by
    refine ⟨(congrArg (Journal.task _) (Journal.taskId_of_task hs)).trans hs, hstatus, hwanted, none, ?_⟩
    unfold Bindable
    simp only [hdepends]
  obtain ⟨t, reply, hreply, htask, ht, -⟩ := (claim_settles (reached_of_admits hwaiting) hfresh').2.2 _ _
    hmode hstopping rfl rfl rfl hraised ⟨s, hclaimable⟩
  exact ⟨t, reply, hreply, htask, ht⟩

end Example

end Courier
