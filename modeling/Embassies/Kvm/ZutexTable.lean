import Embassies.Library.KeyedTable
import Mathlib.Logic.Function.Basic

/-!
# The table of zutexes

A thread of the guest waits on a list of addresses: its `ZutexWaiter` is put
into the queue of each address and remembers these queues.  Waking an address
takes waiters from the front of its queue and removes each of them from the
other queues that it remembers.  A queue that is left empty is deleted.

A waiter is known by the thread that owns it and a pointer to a queue by the
address the queue is for; following a pointer to a queue that was deleted is a
fault.  Each call is one step, since it holds the lock of the table.
-/

namespace Embassies.Kvm

open Library Library.Checked

/-- What a run of the code must never do. -/
inductive Fault where
  /-- A `lite_assert` whose condition is false. -/
  | assertion
  | useAfterFree
deriving DecidableEq

/-- `ZutexQueue`. -/
structure ZutexQueue where
  guestHdl : UInt32
  queue : List Nat
deriving DecidableEq

namespace ZutexQueue

/-- `push`. -/
def push (zq : ZutexQueue) (waiter : Nat) : ZutexQueue :=
  { zq with queue := zq.queue ++ [waiter] }

/-- `pop`. -/
def pop (zq : ZutexQueue) : Option Nat × ZutexQueue :=
  match zq.queue with
  | [] => (none, zq)
  | waiter :: rest => (some waiter, { zq with queue := rest })

/-- `remove`: the first place at which the waiter is found. -/
def remove (zq : ZutexQueue) (waiter : Nat) : Except Fault ZutexQueue := do
  ensure (waiter ∈ zq.queue) .assertion
  return { zq with queue := zq.queue.erase waiter }

/-- `is_empty`. -/
def isEmpty (zq : ZutexQueue) : Bool :=
  zq.queue.isEmpty

end ZutexQueue

/-- `ZutexWaitSpec`. -/
structure ZutexWaitSpec where
  zutex : UInt32
  matchVal : UInt32
deriving DecidableEq

/-- `ZutexTable`, with the queues that each waiter remembers and the threads
that are blocked in `wait`. -/
structure ZutexTable where
  table : KeyedTable ZutexQueue.guestHdl
  zqList : Nat → List UInt32
  asleep : Nat → Bool

namespace ZutexTable

/-- The constructor. -/
def new : ZutexTable := ⟨.empty, fun _ => [], fun _ => false⟩

/-- A pointer to a queue is followed. -/
def follow (table : KeyedTable ZutexQueue.guestHdl) (hdl : UInt32) :
    Except Fault ZutexQueue :=
  match table.lookup hdl with
  | none => .error .useAfterFree
  | some zq => .ok zq

/-- Store the waiters of a queue. -/
def setQueue (table : KeyedTable ZutexQueue.guestHdl) (hdl : UInt32)
    (queue : List Nat) : KeyedTable ZutexQueue.guestHdl :=
  table.modify hdl (fun zq => { zq with queue }) fun _ => rfl

/-! ## Waiting -/

/-- Every address is mapped and has the value that the guest expects. -/
def allMatch (memory : UInt32 → Option UInt32) (specs : List ZutexWaitSpec) :
    Bool :=
  specs.all fun spec => memory spec.zutex = some spec.matchVal

/-- `_get_or_create_queue`. -/
def getOrCreateQueue (table : KeyedTable ZutexQueue.guestHdl) (hdl : UInt32) :
    Except Fault (KeyedTable ZutexQueue.guestHdl) :=
  match table.lookup hdl with
  | some _ => .ok table
  | none => table.insert .assertion ⟨hdl, []⟩

/-- The waiter is put into the queue of an address and remembers it. -/
def enqueue (waiter : Nat) (ztable : ZutexTable) (hdl : UInt32) :
    Except Fault ZutexTable := do
  let table ← getOrCreateQueue ztable.table hdl
  let zq ← follow table hdl
  return { ztable with
    table := setQueue table hdl (zq.push waiter).queue
    zqList := Function.update ztable.zqList waiter
      (ztable.zqList waiter ++ [hdl]) }

/-- `wait`, up to the point where the thread blocks. -/
def wait (ztable : ZutexTable) (memory : UInt32 → Option UInt32)
    (specs : List ZutexWaitSpec) (waiter : Nat) : Except Fault ZutexTable :=
  if allMatch memory specs then do
    let ztable ← (specs.map ZutexWaitSpec.zutex).foldlM (enqueue waiter) ztable
    return { ztable with asleep := Function.update ztable.asleep waiter true }
  else
    .ok ztable

/-! ## Waking -/

/-- At most `nWake` waiters from the front of a queue, and what is left. -/
def selectVictims : Nat → ZutexQueue → List Nat × ZutexQueue
  | 0, zq => ([], zq)
  | nWake + 1, zq =>
    match zq.pop with
    | (none, zq) => ([], zq)
    | (some waiter, zq) =>
      ((waiter :: (selectVictims nWake zq).1), (selectVictims nWake zq).2)

/-- The table while victims are woken, and the queues that were seen empty. -/
structure Cleanup where
  table : KeyedTable ZutexQueue.guestHdl
  emptyZqSet : List UInt32

/-- A queue that has emptied is noted once. -/
def noteEmpty (wq : ZutexQueue) (hdl : UInt32) (emptyZqSet : List UInt32) :
    List UInt32 :=
  if wq.isEmpty && !emptyZqSet.contains hdl then hdl :: emptyZqSet
  else emptyZqSet

/-- A victim was popped from `zq` already; it is removed from the other queues. -/
def removeElsewhere (zq wq : UInt32) (found : ZutexQueue) (waiter : Nat) :
    Except Fault ZutexQueue :=
  if wq = zq then .ok found else found.remove waiter

/-- The body of the loop over the queues of a victim; `zq` is the queue from
which the victim was popped. -/
def leaveQueue (zq : UInt32) (waiter : Nat) (cleanup : Cleanup) (wq : UInt32) :
    Except Fault Cleanup := do
  let found ← follow cleanup.table wq
  let left ← removeElsewhere zq wq found waiter
  return {
    table := setQueue cleanup.table wq left.queue
    emptyZqSet := noteEmpty left wq cleanup.emptyZqSet }

/-- One victim leaves its queues and is woken. -/
def wakeVictim (zq : UInt32) (state : ZutexTable × List UInt32) (waiter : Nat) :
    Except Fault (ZutexTable × List UInt32) := do
  let cleanup ← (state.1.zqList waiter).foldlM (leaveQueue zq waiter)
    ⟨state.1.table, state.2⟩
  return ({
    table := cleanup.table
    zqList := Function.update state.1.zqList waiter []
    asleep := Function.update state.1.asleep waiter false }, cleanup.emptyZqSet)

/-- `_free_zq`. -/
def freeZq (table : KeyedTable ZutexQueue.guestHdl) (hdl : UInt32) :
    Except Fault (KeyedTable ZutexQueue.guestHdl) := do
  let zq ← follow table hdl
  ensure (zq.isEmpty = true) .assertion
  table.remove .assertion hdl

/-- The victims of a wake are woken and the empty queues deleted. -/
def wakeVictims (ztable : ZutexTable) (zq : UInt32) (victims : List Nat) :
    Except Fault ZutexTable := do
  let (ztable, emptyZqSet) ← victims.foldlM (wakeVictim zq) (ztable, [])
  let table ← emptyZqSet.foldlM freeZq ztable.table
  return { ztable with table }

/-- `wake`; the result has the number of waiters that were woken. -/
def wake (ztable : ZutexTable) (guestZutex nWake : UInt32) :
    Except Fault (ZutexTable × Nat) :=
  match ztable.table.lookup guestZutex with
  | none => .ok (ztable, 0)
  | some zq => do
    let victims := selectVictims nWake.toNat zq
    let table := setQueue ztable.table guestZutex victims.2.queue
    let ztable ← wakeVictims { ztable with table } guestZutex victims.1
    return (ztable, victims.1.length)

end ZutexTable

/-- A call of a thread. -/
inductive Call where
  | wait (waiter : Nat) (memory : UInt32 → Option UInt32)
      (specs : List ZutexWaitSpec)
  | wake (guestZutex nWake : UInt32)

namespace ZutexTable

/-- One call; `wait` returns no number. -/
def step (ztable : ZutexTable) : Call → Except Fault (ZutexTable × Option Nat)
  | .wait waiter memory specs => do
    let ztable ← ztable.wait memory specs waiter
    return (ztable, none)
  | .wake guestZutex nWake => do
    let (ztable, woken) ← ztable.wake guestZutex nWake
    return (ztable, some woken)

end ZutexTable

end Embassies.Kvm
