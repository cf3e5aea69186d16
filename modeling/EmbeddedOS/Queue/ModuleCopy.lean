import EmbeddedOS.Queue.Framing
import EmbeddedOS.Queue.TriggerSlots

/-!
# The queues of the module

The operations of `modules/queue/queue.c`, with its own `message.h` and `utils.h`. Containers keep
the caller's message pointer; a pointer stands for the payload it addresses. An access outside an
array or an object has no defined result; it is `none` here. An element of an array that was never
written is `none` as well.
-/

namespace EmbeddedOS
namespace Queue
namespace Module

open Base

/-! ## State -/

/-- `MESSAGE_container` of the module. -/
structure Pending where
  node : UInt32
  message : List UInt8

/-- `TRIGGER_container` of the module. -/
structure Armed where
  bitmap : Bitmap
  messages : Nat → Option (List UInt8)
  node : UInt32

/-- The globals: three arrays with their sizes. -/
structure Queues where
  TQ : Option (List (Option Armed))
  TQ_size : Nat
  DQ : Option (List (Option Pending))
  DQ_size : Nat
  LPQ : Option (List (Option Pending))
  LPQ_size : Nat

def Queues.initial : Queues :=
  { TQ := none, TQ_size := 0, DQ := none, DQ_size := 0, LPQ := none, LPQ_size := 0 }

/-! ## Arrays -/

/-- `data[i] = x`. -/
def write {α : Type} (data : List (Option α)) (i : Nat) (x : α) : Option (List (Option α)) :=
  if i < data.length then some (data.set i (some x)) else none

/-- `realloc` to `n` elements. -/
def resize {α : Type} (data : List (Option α)) (n : Nat) : List (Option α) :=
  alt none data n

/-- `sizeof(MESSAGE_container)`. -/
abbrev MESSAGE_SIZE : Nat := 16

/-- `data[i]` as a value. -/
def read {α : Type} (data : List (Option α)) (i : Nat) : Option α :=
  (data[i]?).join

/-! ## The trigger table -/

/-- A search whose key is the address of a pointer variable: the first comparison reads the node
field of a container behind the end of that variable. -/
def searchPointer (size : Nat) : Option (Option Nat) :=
  if size = 0 then some none else none

/-- `lookup` hands `&table` to `bsearch`, and not `&valid`. -/
def lookup (_node : UInt32) (_table : List (Option Armed)) (size : Nat) : Option (Option Nat) :=
  searchPointer size

/-- `insert`: return code, table and size. The new element has its node written and nothing else,
so that it is not a container yet. Only an empty table gets past the search, and `qsort` leaves
one element where it is. -/
def insert (map : List (Option Armed)) (node : UInt32) (size : Nat) :
    Option (Int × List (Option Armed) × Nat) := do
  match ← lookup node map size with
  | some _ => some (1, map, size)
  | none => some (0, resize map (size + 1), size + 1)

/-- `remove`: table and size. `temp` points to the last element, which has just been overwritten
when it is copied to `scan`. -/
def remove (map : List (Option Armed)) (node : UInt32) (size : Nat) :
    Option (List (Option Armed) × Nat) := do
  let _ ← lookup node map size
  match ← searchPointer size with
  | none => some (map, size)
  | some scan =>
      let map ← write map (size - 1) (← read map scan)
      some (resize map (size - 1), size - 1)

/-! ## Operations -/

def demandInsert (q : Queues) (node : UInt8) (message : List UInt8) (tb : Bool) :
    Option Queues := do
  let x : Pending := { node := node.toUInt32, message := message }
  if q.DQ_size = 0 then
    let data := q.DQ.getD [none]
    some { q with DQ := some (← write data 0 x), DQ_size := 1 }
  else
    let size := q.DQ_size + 1
    let data := resize (q.DQ.getD []) size
    if tb then
      -- `DQ + sizeof(MESSAGE_container)` is 16 elements past the start.
      if MESSAGE_SIZE + (size - 1) ≤ data.length then
        let data := data.take MESSAGE_SIZE ++ data.take (size - 1)
          ++ data.drop (MESSAGE_SIZE + (size - 1))
        some { q with DQ := some (← write data 0 x), DQ_size := size }
      else none
    else some { q with DQ := some (← write data (size - 1) x), DQ_size := size }

/-- The first `n` rounds of the promotion loop. -/
def promote (q : Queues) : Nat → Option Queues
  | 0 => some q
  | i + 1 => do
      let q ← promote q i
      let x ← read (q.LPQ.getD []) i
      demandInsert q x.node.toUInt8 x.message false

def lowprioInsert (q : Queues) (node : UInt8) (message : List UInt8) : Option Queues := do
  let x : Pending := { node := node.toUInt32, message := message }
  if q.LPQ_size = 0 then
    let data := q.LPQ.getD [none]
    some { q with LPQ := some (← write data 0 x), LPQ_size := 1 }
  else
    let size := q.LPQ_size + 1
    let data := resize (q.LPQ.getD []) size
    -- The index is the size of the other queue less one; 0 less one is element 4294967295, which
    -- no array whose size is a `uint32_t` has.
    let i ← if q.DQ_size = 0 then none else some (q.DQ_size - 1)
    let data ← write data i x
    let q := { q with LPQ := some data, LPQ_size := size }
    if q.DQ_size = 0 then
      let q ← promote q q.LPQ_size
      some { q with LPQ := some (resize (q.LPQ.getD []) 1), LPQ_size := 0 }
    else some q

def triggerExecute (q : Queues) (node trigger : UInt8) : Option (Int × Queues) := do
  let table := q.TQ.getD []
  match ← lookup node.toUInt32 table q.TQ_size with
  | none => some (-1, q)
  | some i =>
      let temp ← read table i
      if getBit temp.bitmap trigger.toNat then
        let q ← demandInsert q temp.node.toUInt8 (← temp.messages trigger.toNat) true
        let (map, size) ← remove table node.toUInt32 q.TQ_size
        some (0, { q with TQ := some map, TQ_size := size })
      else some (-1, q)

/-- A zeroed container with one trigger armed. -/
def armOne (node : UInt32) (trigger : Nat) (message : List UInt8) : Armed :=
  { bitmap := setBit (fun _ => 0#32) trigger
    messages := fun i => if i = trigger then some message else none
    node := node }

/-- The macro `CHECK` of the module has no braces: it leaves the function whatever the return
code, so that nothing after a `CHECK` is reached. -/
def triggerInsert (q : Queues) (node trigger : UInt8) (message : List UInt8) :
    Option (Int × Queues) := do
  if q.TQ_size = 0 then
    let data := q.TQ.getD [none]
    let data ← write data 0 (armOne node.toUInt32 trigger.toNat message)
    some (0, { q with TQ := some data, TQ_size := 1 })
  else
    let table := q.TQ.getD []
    match ← lookup node.toUInt32 table q.TQ_size with
    | some i =>
        let temp ← read table i
        if getBit temp.bitmap trigger.toNat then triggerExecute q node trigger
        else
          let temp : Armed := { temp with
            bitmap := setBit temp.bitmap trigger.toNat
            messages := fun i => if i = trigger.toNat then some message else temp.messages i }
          let (ret, map, size) ← insert (← write table i temp) node.toUInt32 q.TQ_size
          some (ret, { q with TQ := some map, TQ_size := size })
    | none =>
        let (ret, map, size) ← insert table node.toUInt32 q.TQ_size
        some (ret, { q with TQ := some map, TQ_size := size })

/-- Serving one call. -/
def serve (q : Queues) : Call → Option Queues
  | .triggerInsert node trigger message => (triggerInsert q node trigger message).map Prod.snd
  | .demandInsert node message => demandInsert q node message false
  | .lowprioInsert node message => lowprioInsert q node message
  | .triggerExecute node trigger => (triggerExecute q node trigger).map Prod.snd

/-! ## What the queues hold -/

/-- The slots of a container. -/
def Armed.slots (c : Armed) : List Slot :=
  (List.range 64).filterMap fun t =>
    if getBit c.bitmap t then (c.messages t).map fun m => ⟨c.node, t, m⟩ else none

def Pending.entry (x : Pending) : MessageContainer :=
  Queue.entry x.node x.message

/-- The written elements among the first `size`. -/
def elements {α : Type} (data : Option (List (Option α))) (size : Nat) : List α :=
  ((data.getD []).take size).filterMap id

end Module
end Queue
end EmbeddedOS
