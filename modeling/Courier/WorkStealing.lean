import Courier.Library.Checks
import Courier.Library.Dict
import Courier.Library.Loop
import Courier.Library.Text
import Mathlib.Data.List.Sort

/-!
# Work stealing

Workers keep tasks that are ready in a list and those that run in a dictionary, and a registry keeps all of them by
their ids.  A task is an object: the lists and dictionaries refer to it, and stealing it changes its owner and its
token.  Every task that is enqueued is a new object.
-/

namespace Courier.WorkStealing

open Text

structure StealableTask where
  taskId : Str
  owner : Str
  requiredCapabilities : List Str
  fencingToken : Int

def StealableTask.stolenBy (task : StealableTask) (stealerId : Str) : StealableTask :=
  { task with owner := stealerId, fencingToken := task.fencingToken + 1 }

/-- `WorkerNodeDescriptor`, with references to its tasks. -/
structure WorkerNodeDescriptor where
  capacity : Int
  capabilities : List Str
  readyTasks : List Nat
  runningTasks : Dict Str Nat

def WorkerNodeDescriptor.totalLoad (worker : WorkerNodeDescriptor) : Nat :=
  worker.readyTasks.length + worker.runningTasks.values.length

/-- `WorkStealingCluster`, with the tasks that the references mean, and the next reference. -/
structure Cluster where
  workers : Dict Str WorkerNodeDescriptor
  taskRegistry : Dict Str Nat
  tasks : Nat → StealableTask
  next : Nat

inductive Error where
  | unknownWorker (id : Str)
  | duplicateTask (id : Str)
  | notReady (task worker : Str)
  | taskNotFound (id : Str)
  | capacityExceeded (worker : Str)
  | noStealableTask (worker : Str)
  | incompatibleCapability (worker : Str)
  | staleFencingToken (task owner : Str) (token : Int)

def takeFirst (p : Nat → Bool) : List Nat → Option (Nat × List Nat)
  | [] => none
  | a :: rest => if p a then some (a, rest) else (takeFirst p rest).map fun found => (found.1, a :: found.2)

def takeLast (p : Nat → Bool) (l : List Nat) : Option (Nat × List Nat) :=
  (takeFirst p l.reverse).map fun found => (found.1, found.2.reverse)

namespace Cluster

variable (s : Cluster)

def setWorker (id : Str) (worker : WorkerNodeDescriptor) : Cluster :=
  { s with workers := s.workers.set id worker }

def registerWorker (id : Str) (capacity : Int) (capabilities : List Str) : Cluster :=
  match s.workers.get? id with
  | some worker => s.setWorker id { worker with capacity := max 1 capacity, capabilities }
  | none => s.setWorker id ⟨max 1 capacity, capabilities, [], ∅⟩

def getWorker (id : Str) : Except Error WorkerNodeDescriptor :=
  match s.workers.get? id with
  | none => .error (.unknownWorker id)
  | some worker => .ok worker

/-- `enqueue_task`, of a task that is new. -/
def enqueueTask (id : Str) (task : StealableTask) : Except Error Cluster :=
  if task.taskId ∈ s.taskRegistry.keys then .error (.duplicateTask task.taskId)
  else do
    let worker ← s.getWorker id
    return { s with
      workers := s.workers.set id { worker with readyTasks := worker.readyTasks ++ [s.next] }
      taskRegistry := s.taskRegistry.set task.taskId s.next
      tasks := Function.update s.tasks s.next { task with owner := id }
      next := s.next + 1 }

def startTask (id task : Str) : Except Error Cluster := do
  let worker ← s.getWorker id
  match takeFirst (fun r => (s.tasks r).taskId = task) worker.readyTasks with
  | none => .error (.notReady task id)
  | some (r, rest) =>
      .ok (s.setWorker id { worker with readyTasks := rest, runningTasks := worker.runningTasks.set task r })

def completeTask (id task : Str) : Except Error (Bool × Cluster) := do
  let worker ← s.getWorker id
  if task ∈ worker.runningTasks.keys then
    .ok (true, { s with
      workers := s.workers.set id { worker with runningTasks := worker.runningTasks.erase task }
      taskRegistry := s.taskRegistry.erase task })
  else .ok (false, s)

/-- A worker can be given a task. -/
def eligible (capabilities : List Str) (r : Nat) : Bool :=
  (s.tasks r).requiredCapabilities ⊆ capabilities

/-- `steal_task`: the task that is stolen, and the cluster after it. -/
def stealTask (stealerId victimId : Str) : Except Error (Nat × Cluster) := do
  let stealer ← s.getWorker stealerId
  let victim ← s.getWorker victimId
  if stealer.capacity ≤ stealer.totalLoad then .error (.capacityExceeded stealerId)
  else if victim.readyTasks = [] then .error (.noStealableTask victimId)
  else match takeLast (s.eligible stealer.capabilities) victim.readyTasks with
  | none => .error (.incompatibleCapability stealerId)
  | some (r, rest) =>
      -- The stealer is the victim when a worker steals from itself.
      let popped := s.setWorker victimId { victim with readyTasks := rest }
      let stealer ← popped.getWorker stealerId
      .ok (r, { popped.setWorker stealerId { stealer with readyTasks := stealer.readyTasks ++ [r] } with
        tasks := Function.update s.tasks r ((s.tasks r).stolenBy stealerId) })

def verifyExecutionToken (task worker : Str) (token : Int) : Except Error Bool :=
  match s.taskRegistry.get? task with
  | none => .error (.taskNotFound task)
  | some r =>
      if (s.tasks r).owner ≠ worker ∨ (s.tasks r).fencingToken ≠ token then
        .error (.staleFencingToken task (s.tasks r).owner (s.tasks r).fencingToken)
      else .ok true

def activeNodes : List (Str × WorkerNodeDescriptor) :=
  (s.workers.entries.filter fun node => 0 < node.2.capacity).insertionSort fun a b => b.2.totalLoad ≤ a.2.totalLoad

/-- A turn of `rebalance`.  `none` when it ends. -/
def rebalanceTurn : Option Cluster :=
  let nodes := s.activeNodes
  if nodes.length < 2 then none
  else match nodes.head?, nodes.getLast? with
  | some most, some least =>
      if least.2.totalLoad + 1 < most.2.totalLoad ∧ (least.2.totalLoad : Int) < least.2.capacity ∧
          most.2.readyTasks ≠ [] then
        (s.stealTask least.1 most.1).toOption.map Prod.snd
      else none
  | _, _ => none

/-- `rebalance`, in so many turns at most: the number of tasks that moved, and the cluster after it. -/
def rebalance (fuel : Nat) : Option (Nat × Cluster) :=
  Loop.run (fun t => t.2.rebalanceTurn.isNone) (fun t => (t.1 + 1, t.2.rebalanceTurn.getD t.2)) fuel (0, s)

end Cluster

end Courier.WorkStealing
