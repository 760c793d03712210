import Courier.Library.Dict
import Courier.Library.Json
import Mathlib.Algebra.Order.Ring.Rat
import Mathlib.Data.List.Sort
import Mathlib.Data.Prod.Lex

/-!
# The priority scheduler

Tasks wait for one of a fixed number of slots.  A tick gives free slots to them in the order of their effective
priorities, which grow while a task waits; when all slots are taken, a waiting task may take that of a preemptible one
of lower priority, which was not given it in the same tick.
-/

namespace Courier.Scheduler

/-! ### Tasks -/

inductive TaskPriority where
  | background
  | normal
  | high
  | critical
  deriving DecidableEq

/-- The weight of a priority. -/
def TaskPriority.value : TaskPriority → ℚ
  | background => 10
  | normal => 20
  | high => 50
  | critical => 100

inductive TaskState where
  | pending
  | running
  | preempted
  | completed
  | cancelled
  deriving DecidableEq

structure ScheduledTask where
  taskId : Str
  priority : TaskPriority := .normal
  lane : Str := text "default"
  preemptible : Bool := true
  checkpoint : Option Members := none
  enqueuedAt : Option ℚ := none
  startedAt : Option ℚ := none
  state : TaskState := .pending
  preemptionsCount : Int := 0
  deriving DecidableEq

/-! ### The scheduler -/

structure PriorityPreemptionScheduler where
  maxSlots : Int
  starvationThreshold : ℚ
  readyQueue : List ScheduledTask
  runningTasks : Dict Str ScheduledTask
  deriving DecidableEq

def PriorityPreemptionScheduler.fresh (maxSlots : Int) (starvationThreshold : ℚ) :
    PriorityPreemptionScheduler where
  maxSlots := max 1 maxSlots
  starvationThreshold := max 1 starvationThreshold
  readyQueue := []
  runningTasks := ∅

/-- What a pass of the loop of a tick leads to: another pass, or the end of the loop. -/
inductive Pass where
  | again (s : PriorityPreemptionScheduler) (dispatched : List ScheduledTask)
  | over (s : PriorityPreemptionScheduler)

/-- A call, with what the clock says where it matters. -/
inductive Call where
  | enqueue (task : ScheduledTask) (now : ℚ)
  | tick (now : ℚ)
  | completeTask (taskId : Str)
  | cancelTask (taskId : Str)

/-- The answer to a call. -/
inductive Answer where
  | nothing
  | dispatched (tasks : List ScheduledTask)
  | finished (ok : Bool)
  deriving DecidableEq

namespace PriorityPreemptionScheduler

def activeSlotsCount (s : PriorityPreemptionScheduler) : Int :=
  s.runningTasks.values.length

/-- The queue in which the waiting task with the id of the given one has its priority too, if it is
higher. -/
def promote (task : ScheduledTask) : List ScheduledTask → Option (List ScheduledTask)
  | [] => none
  | existing :: rest =>
      if existing.taskId = task.taskId then
        some ((if existing.priority.value < task.priority.value then
          { existing with priority := task.priority } else existing) :: rest)
      else (promote task rest).map (existing :: ·)

/-- A task as it is put into the queue. -/
def admitted (task : ScheduledTask) (now : ℚ) : ScheduledTask :=
  { task with
    enqueuedAt := some (task.enqueuedAt.getD now)
    state := if task.state = .preempted then .preempted else .pending }

def enqueue (s : PriorityPreemptionScheduler) (task : ScheduledTask) (now : ℚ) :
    PriorityPreemptionScheduler :=
  if task.taskId ∈ s.runningTasks.keys then s
  else
    match promote task s.readyQueue with
    | some queue => { s with readyQueue := queue }
    | none => { s with readyQueue := s.readyQueue ++ [admitted task now] }

def effectivePriority (s : PriorityPreemptionScheduler) (task : ScheduledTask) (now : ℚ) : ℚ :=
  match task.enqueuedAt with
  | none => task.priority.value
  | some at_ =>
      let wait := max 0 (now - at_)
      if s.starvationThreshold < wait then
        task.priority.value + (wait - s.starvationThreshold) * 2
      else task.priority.value

/-! ### Ticks -/

/-- The key of the queue: the effective priority, and of equal ones the earliest first. -/
def sortKey (s : PriorityPreemptionScheduler) (now : ℚ) (task : ScheduledTask) : ℚ ×ₗ ℚ :=
  toLex (s.effectivePriority task now, -(task.enqueuedAt.getD 0))

/-- The queue in the order in which it is served: descending, and stable. -/
def sortedQueue (s : PriorityPreemptionScheduler) (now : ℚ) : List ScheduledTask :=
  s.readyQueue.insertionSort fun a b => s.sortKey now b ≤ s.sortKey now a

def candidates (s : PriorityPreemptionScheduler) (dispatched : List ScheduledTask) (now : ℚ) : List ScheduledTask :=
  (s.runningTasks.values.filter fun t => t.preemptible && !(dispatched.contains t)).insertionSort
    fun a b => s.effectivePriority a now ≤ s.effectivePriority b now

/-- A task as it is given a slot. -/
def started (task : ScheduledTask) (now : ℚ) : ScheduledTask :=
  { task with state := .running, startedAt := some now }

/-- A task as it is put back into the queue. -/
def preempted (task : ScheduledTask) : ScheduledTask :=
  { task with state := .preempted, preemptionsCount := task.preemptionsCount + 1 }

/-- A pass of the loop of a tick. -/
def pass (s : PriorityPreemptionScheduler) (dispatched : List ScheduledTask) (now : ℚ) : Pass :=
  match s.sortedQueue now with
  | [] => .over s
  | highest :: rest =>
      if s.activeSlotsCount < s.maxSlots then
        .again
          { s with
            readyQueue := rest
            runningTasks := s.runningTasks.set highest.taskId (started highest now) }
          (dispatched ++ [started highest now])
      else
        match s.candidates dispatched now with
        | [] => .over { s with readyQueue := highest :: rest }
        | lowest :: _ =>
            if s.effectivePriority lowest now < s.effectivePriority highest now then
              .again
                { s with
                  readyQueue := rest ++ [preempted lowest]
                  runningTasks := (s.runningTasks.erase lowest.taskId).set highest.taskId
                    (started highest now) }
                (dispatched ++ [started highest now])
            else .over { s with readyQueue := highest :: rest }

/-- At most `fuel` passes of the loop of a tick. -/
def loop (now : ℚ) : Nat → PriorityPreemptionScheduler → List ScheduledTask →
    Option (PriorityPreemptionScheduler × List ScheduledTask)
  | 0, _, _ => none
  | fuel + 1, s, dispatched =>
      match s.pass dispatched now with
      | .over s' => some (s', dispatched)
      | .again s' dispatched' => loop now fuel s' dispatched'

/-- `tick`, if the loop ends within a pass for every task and one more. -/
def tick (s : PriorityPreemptionScheduler) (now : ℚ) : Option (PriorityPreemptionScheduler × List ScheduledTask) :=
  loop now (s.readyQueue.length + s.runningTasks.values.length + 1) s []

/-! ### Finishing tasks -/

def completeTask (s : PriorityPreemptionScheduler) (taskId : Str) : PriorityPreemptionScheduler × Bool :=
  if taskId ∈ s.runningTasks.keys then
    ({ s with runningTasks := s.runningTasks.erase taskId }, true)
  else (s, false)

def cancelTask (s : PriorityPreemptionScheduler) (taskId : Str) : PriorityPreemptionScheduler × Bool :=
  if taskId ∈ s.runningTasks.keys then
    ({ s with runningTasks := s.runningTasks.erase taskId }, true)
  else if s.readyQueue.any fun t => t.taskId = taskId then
    ({ s with readyQueue := s.readyQueue.eraseP fun t => t.taskId = taskId }, true)
  else (s, false)

/-! ### Calls -/

/-- The effect of a call, if it ends. -/
def step (s : PriorityPreemptionScheduler) : Call → Option (PriorityPreemptionScheduler × Answer)
  | .enqueue task now => some (s.enqueue task now, .nothing)
  | .tick now => (s.tick now).map fun p => (p.1, .dispatched p.2)
  | .completeTask taskId => some ((s.completeTask taskId).1, .finished (s.completeTask taskId).2)
  | .cancelTask taskId => some ((s.cancelTask taskId).1, .finished (s.cancelTask taskId).2)

/-- The calls with their answers, and the scheduler after them, if all of them end. -/
def run (s : PriorityPreemptionScheduler) : List Call → Option (List (Call × Answer) × PriorityPreemptionScheduler)
  | [] => some ([], s)
  | call :: calls =>
      match s.step call with
      | none => none
      | some (s', answer) => (run s' calls).map fun p => ((call, answer) :: p.1, p.2)

end PriorityPreemptionScheduler

end Courier.Scheduler
