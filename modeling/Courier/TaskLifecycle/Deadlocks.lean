import Courier.Library.Orbit
import Courier.TaskLifecycle

/-!
# Deadlocks

A search walks from every task along the tasks that wait on one another, unless an earlier walk has come to it, and
recovers the task at which a walk comes onto a cycle.  A cycle is broken once more for every further tail that runs
into it, and the task stalls before it is asked whether it is being recovered (`exact_iff`).
-/

namespace Courier.TaskLifecycle

open Orbit Text

variable {F : Type}

def waits (tasks : Dict Str (TaskRecord F)) (k : Str) : Option Str :=
  (tasks.get? k).bind fun task =>
    task.waitingOnTaskId.filter fun l => decide (l ≠ []) && (tasks.get? l).isSome

/-! ### One walk -/

def Underway (tasks : Dict Str (TaskRecord F)) (start : Str) (path : List Str) (curr : Option Str) : Prop :=
  (path = [] ∧ (curr.filter fun l => decide (l ≠ []) && (tasks.get? l).isSome) = some start) ∨
    Walk (waits tasks) start path ∧ ∃ last, path.getLast? = some last ∧
      waits tasks last = curr.filter fun l => decide (l ≠ []) && (tasks.get? l).isSome

structure Ended (tasks : Dict Str (TaskRecord F)) (start : Str) (path : List Str) (found : Option Str) : Prop where
  walk : Walk (waits tasks) start path
  last : ∃ last, path.getLast? = some last ∧ waits tasks last = found
  back : ∀ c ∈ found, c ∈ path

theorem Underway.ended {tasks : Dict Str (TaskRecord F)} {start : Str} {path : List Str} {curr : Option Str}
    (h : Underway tasks start path curr)
    (hnone : (curr.filter fun l => decide (l ≠ []) && (tasks.get? l).isSome) = none) :
  Ended tasks start path none
  := by
  rcases h with ⟨-, hstart⟩ | ⟨hwalk, last, hlast, hnext⟩
  · rw [hnone] at hstart
    cases hstart
  · exact ⟨hwalk, ⟨last, hlast, hnext.trans hnone⟩, by simp⟩

variable {tasks : Dict Str (TaskRecord F)} {c : Str}

theorem walk_missing (path : List Str) (hc : c ≠ [])
    (htask : tasks.get? c = none) :
  walk tasks path (some c) = (path, none)
  := by
  rw [walk, if_neg hc]
  split
  · rfl
  · next task htask' =>
    rw [htask] at htask'
    cases htask'

theorem walk_some (path : List Str) (hc : c ≠ [])
    {task : TaskRecord F} (htask : tasks.get? c = some task) :
  walk tasks path (some c) =
    if c ∈ path then (path, some c) else walk tasks (path ++ [c]) task.waitingOnTaskId
  := by
  rw [walk, if_neg hc]
  split
  · next hnone =>
    rw [htask] at hnone
    cases hnone
  · next task' htask' =>
    rw [htask] at htask'
    cases htask'
    split_ifs <;> rfl

theorem ended_walk {start : Str} {path : List Str} {curr : Option Str}
    (h : Underway tasks start path curr) :
  Ended tasks start (walk tasks path curr).1 (walk tasks path curr).2
  := by
  induction path, curr using walk.induct tasks with
  | case1 path =>
    rw [walk]
    exact h.ended rfl
  | case2 path =>
    rw [walk, if_pos rfl]
    exact h.ended rfl
  | case3 path c hc htask =>
    rw [walk_missing path hc htask]
    exact h.ended (by simp [htask])
  | case4 path c hc task htask hpath =>
    have hcurr : (some c).filter (fun l => decide (l ≠ []) && (tasks.get? l).isSome) = some c := by
      simp [hc, htask]
    rw [walk_some path hc htask, if_pos hpath]
    rcases h with ⟨rfl, -⟩ | ⟨hwalk, last, hlast, hnext⟩
    · cases hpath
    · exact ⟨hwalk, ⟨last, hlast, hnext.trans hcurr⟩, by simpa using hpath⟩
  | case5 path c hc task htask hpath ih =>
    have hcurr : (some c).filter (fun l => decide (l ≠ []) && (tasks.get? l).isSome) = some c := by
      simp [hc, htask]
    rw [walk_some path hc htask, if_neg hpath]
    apply ih
    have hnext : waits tasks c =
        task.waitingOnTaskId.filter fun l => decide (l ≠ []) && (tasks.get? l).isSome := by
      rw [waits, htask, Option.bind_some]
    refine .inr ⟨?_, c, by simp, hnext⟩
    rcases h with ⟨rfl, hstart⟩ | ⟨hwalk, last, hlast, hlast'⟩
    · rw [hcurr] at hstart
      cases hstart
      exact ⟨rfl, List.isChain_singleton start, List.nodup_singleton start⟩
    · rw [hcurr] at hlast'
      obtain ⟨before, rfl⟩ := List.getLast?_eq_some_iff.mp hlast
      constructor
      · rw [List.head?_append, hwalk.head]
        rfl
      · refine hwalk.chain.append (List.isChain_singleton c) ?_
        intro x hx y hy
        rw [hlast] at hx
        cases hx
        cases hy
        exact hlast'
      · refine List.nodup_append.mpr ⟨hwalk.nodup, List.nodup_singleton c, ?_⟩
        intro x hx y hy heq
        rw [List.mem_singleton.mp hy] at heq
        exact hpath (heq ▸ hx)

/-! ### Calls for a recovery -/

section Search

variable [Surroundings F]

def Search.call (s : Search F) (k : Str) : Option (Str × Option RecoveryReceipt) :=
  if k ∈ s.visited then none
  else
    ((walk s.manager.tasks [] (some k)).2.bind fun c =>
      (s.manager.tasks.get? c).map fun task => (c, task)).map fun (c, task) =>
        (c, (s.manager.recover c { task with currentState := .confirmedStall }).2)

def Search.calls (s : Search F) : List Str → List (Str × Option RecoveryReceipt)
  | [] => []
  | k :: keys => (s.call k).toList ++ (searchFrom s k).calls keys

def recoverCalls (m : Manager F) : List (Str × Option RecoveryReceipt) :=
  Search.calls ⟨m, [], []⟩ m.tasks.keys

def calledIds (m : Manager F) : List Str :=
  (recoverCalls m).map Prod.fst

theorem searchFrom_of_call (s : Search F) (k : Str) :
  (s.call k = none ∧ (searchFrom s k).manager = s.manager ∧
      (searchFrom s k).recoveredTasks = s.recoveredTasks) ∨
    ∃ c task, s.manager.tasks.get? c = some task ∧
      s.call k = some (c, (s.manager.recover c { task with currentState := .confirmedStall }).2) ∧
      (searchFrom s k).manager = (s.manager.recover c { task with currentState := .confirmedStall }).1 ∧
      (searchFrom s k).recoveredTasks = s.recoveredTasks ++
        if (s.manager.recover c { task with currentState := .confirmedStall }).2.isSome then [c] else []
  := by
  unfold Search.call searchFrom
  by_cases hvisited : k ∈ s.visited
  · rw [if_pos hvisited, if_pos hvisited]
    exact .inl ⟨rfl, rfl, rfl⟩
  · rw [if_neg hvisited, if_neg hvisited]
    dsimp only
    cases hfound : (walk s.manager.tasks [] (some k)).2.bind fun c =>
        (s.manager.tasks.get? c).map fun task => (c, task) with
    | none => exact .inl ⟨rfl, rfl, rfl⟩
    | some found =>
      obtain ⟨c', -, hmap⟩ := Option.bind_eq_some_iff.mp hfound
      obtain ⟨task, htask, rfl⟩ := Option.map_eq_some_iff.mp hmap
      refine .inr ⟨c', task, htask, rfl, rfl, ?_⟩
      dsimp only
      split_ifs
      · rfl
      · rw [List.append_nil]

/-! ### What a search changes -/

omit [Surroundings F] in
@[simp]
theorem waitingOnTaskId_captured [Surroundings F] (task : TaskRecord F) :
  task.captured.waitingOnTaskId = task.waitingOnTaskId
  := by
  unfold TaskRecord.captured
  split <;> rfl

theorem waitingOnTaskId_analyzeStallCause (task : TaskRecord F) :
  (analyzeStallCause task).2.waitingOnTaskId = task.waitingOnTaskId
  := by
  simp only [analyzeStallCause]
  repeat' split
  all_goals rfl

theorem waitingOnTaskId_recoverTask (healer : Healer) (task : TaskRecord F) :
  (recoverTask healer task).task.waitingOnTaskId = task.waitingOnTaskId
  := by
  unfold recoverTask
  split
  · rfl
  · split
    · rfl
    · split
      · rfl
      · dsimp only
        split
        · exact waitingOnTaskId_captured task
        · exact (waitingOnTaskId_analyzeStallCause _).trans (waitingOnTaskId_captured task)

theorem receipts_recoverTask (healer : Healer) (task : TaskRecord F) :
  (recoverTask healer task).healer.receipts = healer.receipts ++ (recoverTask healer task).receipt.toList
  := by
  unfold recoverTask
  split
  · simp
  · split
    · simp
    · split
      · simp
      · dsimp only
        split
        · simp
        · rfl

omit [Surroundings F] in
theorem waits_set {task task' : TaskRecord F}
    (htask : tasks.get? c = some task) (hsame : task'.waitingOnTaskId = task.waitingOnTaskId) :
  waits (tasks.set c task') = waits tasks
  := by
  have hthere : ∀ l, ((tasks.set c task').get? l).isSome = (tasks.get? l).isSome := by
    intro l
    rw [Dict.get?_set]
    split_ifs with hl
    · rw [hl, htask]
      rfl
    · rfl
  funext k
  rw [waits, waits]
  simp only [hthere]
  rw [Dict.get?_set]
  split_ifs with hk
  · rw [hk, htask, Option.bind_some, Option.bind_some, hsame]
  · rfl

structure Search.Changes (s s' : Search F) (calls : List (Str × Option RecoveryReceipt)) : Prop where
  others : ∀ l, l ∉ calls.map Prod.fst → s'.manager.tasks.get? l = s.manager.tasks.get? l
  progress : ∀ l task, s.manager.tasks.get? l = some task → task.recoveryState ≠ none →
    l ∈ calls.map Prod.fst →
      s'.manager.tasks.get? l = some { task with currentState := .confirmedStall }
  returned : s'.recoveredTasks = s.recoveredTasks ++ (calls.filter fun call => call.2.isSome).map Prod.fst
  receipts : s'.manager.healer.receipts = s.manager.healer.receipts ++ calls.filterMap Prod.snd

theorem Search.changes_call (s : Search F) (k : Str) :
  s.Changes (searchFrom s k) (s.call k).toList
  := by
  rcases searchFrom_of_call s k with ⟨hnone, hmanager, hrecovered⟩ |
    ⟨c, task, htask, hcall, hmanager, hrecovered⟩
  · rw [hnone]
    refine ⟨fun l _ => by rw [hmanager], fun l task _ _ hl => absurd hl List.not_mem_nil, ?_, ?_⟩
    · rw [hrecovered]
      simp
    · rw [hmanager]
      simp
  · rw [hcall]
    constructor
    · intro l hl
      have hne : l ≠ c := by simpa using hl
      rw [hmanager, Manager.recover, Dict.get?_set, if_neg hne]
    · intro l task' htask' hbusy hl
      obtain rfl : l = c := by simpa using hl
      rw [htask] at htask'
      cases htask'
      have hbusy' : ({ task with currentState := .confirmedStall } : TaskRecord F).recoveryState ≠ none := hbusy
      rw [hmanager, Manager.recover, Dict.get?_set, if_pos rfl, recoverTask_of_progress hbusy']
    · rw [hrecovered]
      cases hreceipt : (s.manager.recover c { task with currentState := .confirmedStall }).2 <;> simp
    · rw [hmanager, Manager.recover]
      dsimp only
      rw [receipts_recoverTask]
      cases hreceipt : (recoverTask s.manager.healer { task with currentState := .confirmedStall }).receipt <;>
        simp

variable {s : Search F}

omit [Surroundings F] in
theorem Search.Changes.trans {s' s'' : Search F}
    {first second : List (Str × Option RecoveryReceipt)}
    (h : s.Changes s' first) (h' : s'.Changes s'' second) :
  s.Changes s'' (first ++ second)
  := by
  constructor
  · intro l hl
    rw [List.map_append, List.mem_append, not_or] at hl
    rw [h'.others l hl.2, h.others l hl.1]
  · intro l task htask hbusy hl
    rw [List.map_append, List.mem_append] at hl
    by_cases hfirst : l ∈ first.map Prod.fst
    · have hafter := h.progress l task htask hbusy hfirst
      by_cases hsecond : l ∈ second.map Prod.fst
      · exact h'.progress l { task with currentState := .confirmedStall } hafter hbusy hsecond
      · rw [h'.others l hsecond, hafter]
    · rw [← h.others l hfirst] at htask
      exact h'.progress l task htask hbusy (hl.resolve_left hfirst)
  · rw [h'.returned, h.returned, List.filter_append, List.map_append, List.append_assoc]
  · rw [h'.receipts, h.receipts, List.filterMap_append, List.append_assoc]

theorem Search.changes_calls (s : Search F) (keys : List Str) :
  s.Changes (keys.foldl searchFrom s) (s.calls keys)
  := by
  induction keys generalizing s with
  | nil =>
    refine ⟨fun l _ => rfl, fun l task _ _ hl => absurd hl List.not_mem_nil, ?_, ?_⟩
    · exact (List.append_nil _).symm
    · exact (List.append_nil _).symm
  | cons k keys ih => exact (s.changes_call k).trans (ih (searchFrom s k))

/-! ### Where a search walks -/

structure Search.Follows (tasks : Dict Str (TaskRecord F)) (seen : List Str) (s : Search F) : Prop where
  same : waits s.manager.tasks = waits tasks
  there : ∀ k, (s.manager.tasks.get? k).isSome = (tasks.get? k).isSome
  visited : ∀ x, x ∈ s.visited ↔ ∃ a ∈ seen, Leads (waits tasks) a x

theorem Search.Follows.manager {seen : List Str}
    (h : s.Follows tasks seen) (k : Str) :
  waits (searchFrom s k).manager.tasks = waits tasks ∧
    ∀ l, ((searchFrom s k).manager.tasks.get? l).isSome = (tasks.get? l).isSome
  := by
  rcases searchFrom_of_call s k with ⟨-, hmanager, -⟩ | ⟨c, task, htask, -, hmanager, -⟩
  · rw [hmanager]
    exact ⟨h.same, h.there⟩
  · rw [hmanager, Manager.recover]
    refine ⟨(waits_set htask ?_).trans h.same, fun l => ?_⟩
    · exact waitingOnTaskId_recoverTask _ _
    · rw [← h.there l, Dict.get?_set]
      split_ifs with hl
      · rw [hl, htask]
        rfl
      · rfl

variable {k : Str}

theorem visited_searchFrom (s : Search F) (hk : k ∉ s.visited) :
  (searchFrom s k).visited = s.visited ++ (walk s.manager.tasks [] (some k)).1
  := by
  unfold searchFrom
  rw [if_neg hk]
  dsimp only
  split <;> rfl

omit [Surroundings F] in
theorem Ended.mem_iff {start : Str} {path : List Str} {found : Option Str}
    (h : Ended tasks start path found) {x : Str} :
  x ∈ path ↔ Leads (waits tasks) start x
  := by
  obtain ⟨last, hlast, hnext⟩ := h.last
  refine ⟨h.walk.leads x, h.walk.mem_of_leads ?_⟩
  intro y hy z hz
  rw [hlast] at hy
  cases hy
  rw [hnext] at hz
  exact h.back z hz

/-- One task of a search, with the member at which its walk comes onto a cycle. -/
theorem Search.Follows.step {seen : List Str}
    (h : s.Follows tasks seen) (hk : k ≠ []) (hthere : (tasks.get? k).isSome) :
  (searchFrom s k).Follows tasks (seen ++ [k]) ∧
    (((∃ a ∈ seen, Leads (waits tasks) a k) ∧ s.call k = none) ∨
      (∀ a ∈ seen, ¬ Leads (waits tasks) a k) ∧
        ((∀ c, Leads (waits tasks) k c → ¬ OnCycle (waits tasks) c) ∧ s.call k = none ∨
          ∃ c receipt, Entry (waits tasks) k c ∧ s.call k = some (c, receipt)))
  := by
  obtain ⟨hsame, hthere'⟩ := h.manager k
  by_cases hvisited : k ∈ s.visited
  · obtain ⟨a, ha, hak⟩ := (h.visited k).mp hvisited
    have hstay : searchFrom s k = s := by
      unfold searchFrom
      rw [if_pos hvisited]
    refine ⟨⟨hsame, hthere', fun x => ?_⟩, .inl ⟨⟨a, ha, hak⟩, if_pos hvisited⟩⟩
    rw [hstay, h.visited]
    constructor
    · rintro ⟨b, hb, hbx⟩
      exact ⟨b, List.mem_append_left _ hb, hbx⟩
    · rintro ⟨b, hb, hbx⟩
      rcases List.mem_append.mp hb with hb | hb
      · exact ⟨b, hb, hbx⟩
      · rw [List.mem_singleton.mp hb] at hbx
        exact ⟨a, ha, hak.trans hbx⟩
  · have hnew : ∀ a ∈ seen, ¬ Leads (waits tasks) a k := fun a ha hak =>
      hvisited ((h.visited k).mpr ⟨a, ha, hak⟩)
    have hstart : (some k).filter (fun l => decide (l ≠ []) && (s.manager.tasks.get? l).isSome) = some k := by
      simp [hk, h.there k, hthere]
    have hended := ended_walk (.inl ⟨rfl, hstart⟩ : Underway s.manager.tasks k [] (some k))
    have hmem : ∀ x, x ∈ (walk s.manager.tasks [] (some k)).1 ↔ Leads (waits tasks) k x := by
      intro x
      rw [hended.mem_iff, h.same]
    refine ⟨⟨hsame, hthere', fun x => ?_⟩, .inr ⟨hnew, ?_⟩⟩
    · rw [visited_searchFrom s hvisited, List.mem_append, h.visited, hmem]
      simp [or_and_right, exists_or]
    · obtain ⟨last, hlast, hnext⟩ := hended.last
      rw [Search.call, if_neg hvisited]
      cases hfound : (walk s.manager.tasks [] (some k)).2 with
      | none =>
        rw [hfound] at hnext
        refine .inl ⟨fun c hc => ?_, rfl⟩
        rw [← h.same] at hc ⊢
        exact hended.walk.not_onCycle hlast hnext hc
      | some c =>
        rw [hfound] at hnext
        have hentry := hended.walk.entry hlast hnext (hended.back c (by rw [hfound]; rfl))
        cases htask : s.manager.tasks.get? c with
        | none =>
          refine absurd ?_ hentry.onCycle.ne_none
          rw [waits, htask, Option.bind_none]
        | some task =>
          rw [h.same] at hentry
          refine .inr ⟨c, (s.manager.recover c { task with currentState := .confirmedStall }).2, hentry, ?_⟩
          simp only [Option.bind_some, htask, Option.map_some]

theorem searchFrom_nil (s : Search F) :
  s.call [] = none ∧ searchFrom s [] = s
  := by
  have hwalk : walk s.manager.tasks [] (some []) = ([], none) := by
    rw [walk, if_pos rfl]
  by_cases hvisited : [] ∈ s.visited
  · exact ⟨if_pos hvisited, if_pos hvisited⟩
  · rw [Search.call, if_neg hvisited, searchFrom, if_neg hvisited, hwalk]
    refine ⟨rfl, ?_⟩
    simp

theorem Search.Follows.enters {tasks : Dict Str (TaskRecord F)} {seen : List Str} {s : Search F}
    (h : s.Follows tasks seen) {keys : List Str} (hkeys : ∀ k ∈ keys, (tasks.get? k).isSome) :
  Enters (waits tasks) seen (keys.filter fun k => k ≠ []) ((s.calls keys).map Prod.fst)
  := by
  induction keys generalizing s seen with
  | nil => exact .nil
  | cons k keys ih =>
    obtain ⟨hk, hkeys⟩ := List.forall_mem_cons.mp hkeys
    rw [Search.calls, List.map_append]
    by_cases hempty : k = []
    · obtain ⟨hcall, hstay⟩ := searchFrom_nil s
      rw [hempty, List.filter_cons_of_neg (by simp), hcall, hstay]
      exact ih h hkeys
    · obtain ⟨hnext, hcases⟩ := h.step hempty hk
      rw [List.filter_cons_of_pos (by simpa using hempty)]
      rcases hcases with ⟨⟨a, ha, hak⟩, hcall⟩ | ⟨hnew, ⟨hends, hcall⟩ | ⟨c, receipt, hentry, hcall⟩⟩
      · rw [hcall]
        exact .seen ha hak (ih hnext hkeys)
      · rw [hcall]
        exact .ends hnew hends (ih hnext hkeys)
      · rw [hcall]
        exact .enters hnew hentry (ih hnext hkeys)

/-! ### The property -/

omit [Surroundings F] in
def starts (m : Manager F) : List Str :=
  m.tasks.keys.filter fun k => k ≠ []

structure Exact (m : Manager F) : Prop where
  cycles : ∀ c, OnCycle (waits m.tasks) c → ExactlyOne (Leads (waits m.tasks) c) (calledIds m)
  outside : ∀ c ∈ calledIds m, OnCycle (waits m.tasks) c
  others : ∀ k, k ∉ calledIds m → (detectDeadlocks m).1.tasks.get? k = m.tasks.get? k
  returned : (detectDeadlocks m).2 = ((recoverCalls m).filter fun call => call.2.isSome).map Prod.fst
  receipts : (detectDeadlocks m).1.healer.receipts =
    m.healer.receipts ++ (recoverCalls m).filterMap Prod.snd
  progress : ∀ c task, OnCycle (waits m.tasks) c → m.tasks.get? c = some task → task.recoveryState ≠ none →
    ((detectDeadlocks m).1.tasks.get? c).map TaskRecord.currentState = some task.currentState

section

omit [Surroundings F]

def FirstInto (m : Manager F) (k c : Str) : Prop :=
  Leads (waits m.tasks) k c ∧ ∃ before after, starts m = before ++ k :: after ∧
    ∀ a ∈ before, ¬ Leads (waits m.tasks) a c

structure Clear (m : Manager F) : Prop where
  tails : ∀ k c, OnCycle (waits m.tasks) c → FirstInto m k c → ∀ l ∈ starts m,
    Leads (waits m.tasks) l c → Leads (waits m.tasks) k l
  idle : ∀ k e task, FirstInto m k e → Entry (waits m.tasks) k e → m.tasks.get? e = some task →
    task.recoveryState = none ∨ task.currentState = .confirmedStall

end

theorem enters_calledIds (m : Manager F) :
  Enters (waits m.tasks) [] (starts m) (calledIds m)
  := by
  have hstart : Search.Follows m.tasks [] ⟨m, [], []⟩ := ⟨rfl, fun _ => rfl, fun x => by simp⟩
  exact hstart.enters fun k hk => Dict.get?_isSome.mpr hk

variable {m : Manager F}

omit [Surroundings F] in
theorem mem_starts (h : OnCycle (waits m.tasks) c) :
  c ∈ starts m
  := by
  obtain ⟨p, -, hp⟩ := Relation.TransGen.tail'_iff.mp h
  obtain ⟨task, -, hwaits⟩ := Option.bind_eq_some_iff.mp hp
  obtain ⟨-, hc⟩ := Option.filter_eq_some_iff.mp hwaits
  rw [Bool.and_eq_true] at hc
  exact List.mem_filter.mpr ⟨Dict.get?_isSome.mp hc.2, hc.1⟩

theorem exactlyOne_calledIds_iff (hc : OnCycle (waits m.tasks) c)
    (hfirst : FirstInto m k c) :
  ExactlyOne (Leads (waits m.tasks) c) (calledIds m) ↔
    ∀ l ∈ starts m, Leads (waits m.tasks) l c → Leads (waits m.tasks) k l
  := by
  obtain ⟨hlead, before, after, hstarts, hnone⟩ := hfirst
  have henters := enters_calledIds m
  rw [hstarts] at henters
  rw [henters.exactlyOne_iff hc hlead (by simpa using hnone), hstarts]
  constructor
  · intro hall l hl hlc
    rcases List.mem_append.mp hl with hl | hl
    · exact absurd hlc (hnone l hl)
    · rcases List.mem_cons.mp hl with rfl | hl
      · exact .refl l
      · exact hall l hl hlc
  · intro hall l hl
    exact hall l (List.mem_append_right _ (List.mem_cons_of_mem _ hl))

theorem Clear.firstInto (h : Clear m) (hc : c ∈ calledIds m) :
  ∃ k, FirstInto m k c ∧ Entry (waits m.tasks) k c
  := by
  obtain ⟨before, k, after, hstarts, hnew, hentry⟩ := (enters_calledIds m).entry hc
  refine ⟨k, ⟨hentry.leads, before, after, hstarts, fun a ha hac => ?_⟩, hentry⟩
  obtain ⟨first, b, rest, rfl, hbc, hnone⟩ := exists_first (p := fun b => Leads (waits m.tasks) b c) ⟨a, ha, hac⟩
  have hfirst : FirstInto m b c := ⟨hbc, first, rest ++ k :: after, by simp [hstarts], hnone⟩
  have hbk := h.tails b c hentry.onCycle hfirst k (by simp [hstarts]) hentry.leads
  exact hnew b (by simp) hbk

theorem exact_iff (m : Manager F) :
  Exact m ↔ Clear m
  := by
  have hchanges := Search.changes_calls ⟨m, [], []⟩ m.tasks.keys
  constructor
  · intro h
    refine ⟨fun k c hc hfirst => (exactlyOne_calledIds_iff hc hfirst).mp (h.cycles c hc), ?_⟩
    intro k e task hfirst hentry htask
    by_cases hidle : task.recoveryState = none
    · exact .inl hidle
    · obtain ⟨hlead, before, after, hstarts, hnone⟩ := hfirst
      have henters := enters_calledIds m
      rw [hstarts] at henters
      have hcalled : e ∈ calledIds m := by
        apply henters.mem _ hentry
        intro a ha hak
        exact hnone a ha (hak.trans hlead)
      have hafter := hchanges.progress e task htask hidle hcalled
      have hsame := h.progress e task hentry.onCycle htask hidle
      rw [detectDeadlocks, hafter] at hsame
      exact .inr (Option.some.inj hsame).symm
  · intro h
    refine ⟨?_, ?_, hchanges.others, ?_, hchanges.receipts, ?_⟩
    · intro c hc
      obtain ⟨before, k, after, hstarts, hlead, hnone⟩ :=
        exists_first (p := fun b => Leads (waits m.tasks) b c) ⟨c, mem_starts hc, .refl c⟩
      have hfirst : FirstInto m k c := ⟨hlead, before, after, hstarts, hnone⟩
      exact (exactlyOne_calledIds_iff hc hfirst).mpr (h.tails k c hc hfirst)
    · intro c hc
      obtain ⟨_, _, _, -, -, hentry⟩ := (enters_calledIds m).entry hc
      exact hentry.onCycle
    · exact hchanges.returned
    · intro c task hc htask hbusy
      by_cases hcalled : c ∈ calledIds m
      · obtain ⟨k, hfirst, hentry⟩ := h.firstInto hcalled
        have hstalled := (h.idle k c task hfirst hentry htask).resolve_left hbusy
        rw [detectDeadlocks, hchanges.progress c task htask hbusy hcalled, hstalled]
        rfl
      · rw [detectDeadlocks, hchanges.others c hcalled, htask]
        rfl

end Search

/-! ### A second tail -/

section Example

local instance surroundingsDeadlocks : Surroundings Nat where
  gt a b := b < a
  atLeast a n := n ≤ a
  time _ := text "0.0"

def waitingTask (k l : String) : TaskRecord Nat where
  taskId := text k
  workkey := text "w-1"
  ownerSession := text "s-1"
  ownerHost := text "h-1"
  pidOrExecutionId := text "17"
  processStartIdentity := text "pid_17_ct_1.0"
  expectedActivityClass := .compute
  waitingOnTaskId := some (text l)
  cpuUsage := 0

/-- Two tasks that wait on each other, and a third one that waits on the second. -/
def tailed : Manager Nat where
  tasks := ((Dict.set ∅ (text "a") (waitingTask "a" "b")).set (text "b") (waitingTask "b" "a")).set (text "c")
    (waitingTask "c" "b")
  healer := ⟨[], ∅⟩

/-- The cycle of the two is broken at both of them. -/
theorem not_exact_tailed :
  ¬ Exact tailed
  := by
  intro h
  have ha : waits tailed.tasks (text "a") = some (text "b") := by decide
  have hb : waits tailed.tasks (text "b") = some (text "a") := by decide
  have hc : waits tailed.tasks (text "c") = some (text "b") := by decide
  have hcycle : OnCycle (waits tailed.tasks) (text "b") := .tail (.single hb) ha
  have hfirst : FirstInto tailed (text "a") (text "b") :=
    ⟨.step ha, [], [text "b", text "c"], by decide, by simp⟩
  have hlead := (exactlyOne_calledIds_iff hcycle hfirst).mp (h.cycles (text "b") hcycle) (text "c") (by decide)
    (.step hc)
  have hclosed : ∀ l, Leads (waits tailed.tasks) (text "a") l → l = text "a" ∨ l = text "b" := by
    intro l hl
    induction hl with
    | refl => exact .inl rfl
    | tail _ hstep ih =>
      rcases ih with rfl | rfl
      · rw [ha] at hstep
        exact .inr (Option.some.inj hstep).symm
      · rw [hb] at hstep
        exact .inl (Option.some.inj hstep).symm
  exact absurd (hclosed _ hlead) (by decide)

end Example

end Courier.TaskLifecycle
