import Mathlib.Data.Fintype.Basic
import Mathlib.Logic.Function.Basic

namespace Maglev

/-- `err_t`. -/
inductive Err
  | ok
  | mem
  | buf
  | timeout
  | rte
  | inprogress
  | val
  | wouldblock
  | use
  | already
  | isconn
  | conn
  | if_
  | abrt
  | rst
  | clsd
  | arg
  deriving DecidableEq, Repr

def mqttReqMaxInFlight : Nat := 4

def mqttReqTimeout : BitVec 16 := 30#16

/-- A pointer to one of the requests of `req_list`. -/
abbrev RequestPtr := Fin mqttReqMaxInFlight

/-- `struct mqtt_request_t`. A callback is told by a number that stands for the function
together with its argument. -/
structure MqttRequest where
  next : Option RequestPtr
  cb : Option Nat
  pktId : BitVec 16
  timeoutDiff : BitVec 16
  deriving DecidableEq, Repr

/-- The call of a request's callback. -/
structure RequestCall where
  cb : Nat
  err : Err
  deriving DecidableEq, Repr

def MqttRequest.call (r : MqttRequest) (err : Err) : List RequestCall := (r.cb.map fun cb => ⟨cb, err⟩).toList

/-- The requests of a client, and the first of those that wait for an answer. -/
structure RequestQueue where
  reqList : RequestPtr → MqttRequest
  pendReqQueue : Option RequestPtr

namespace RequestQueue

/-- A store through a pointer to a request. -/
def set (q : RequestQueue) (r : RequestPtr) (request : MqttRequest) : RequestQueue :=
  { q with reqList := Function.update q.reqList r request }

end RequestQueue

/-- The first request that points to itself, which says that it is not in use. -/
def mqttCreateRequest (q : RequestQueue) (pktId : BitVec 16) (cb : Option Nat) :
    Option (RequestPtr × RequestQueue) :=
  let unused := (List.finRange mqttReqMaxInFlight).find? fun n => (q.reqList n).next = some n
  unused.map fun r => (r, q.set r { q.reqList r with next := none, cb, pktId })

/-- The loop that looks for the last request and adds up the times. A queue that has not
ended after `fuel` requests never does. -/
def findHead (q : RequestQueue) : Nat → Option RequestPtr → BitVec 16 → Option RequestPtr →
    Option (BitVec 16 × Option RequestPtr)
  | _, none, timeBefore, head => some (timeBefore, head)
  | 0, some _, _, _ => none
  | fuel + 1, some iter, timeBefore, _ =>
    findHead q fuel (q.reqList iter).next (timeBefore + (q.reqList iter).timeoutDiff) (some iter)

/-- There is no result where the assertion on `time_before`, which is signed, fails. -/
def mqttAppendRequest (q : RequestQueue) (r : RequestPtr) : Option RequestQueue := do
  let (timeBefore, head) ← findHead q mqttReqMaxInFlight q.pendReqQueue 0#16 none
  if timeBefore.toInt ≤ mqttReqTimeout.toInt then
    let q := q.set r { q.reqList r with timeoutDiff := mqttReqTimeout - timeBefore }
    match head with
    | none => some { q with pendReqQueue := some r }
    | some head => some (q.set head { q.reqList head with next := some r })
  else none

def mqttDeleteRequest (q : RequestQueue) (r : RequestPtr) : RequestQueue :=
  q.set r { q.reqList r with next := some r }

/-- The loop that looks for a packet identifier; it ends with `iter` and `prev`. -/
def findRequest (q : RequestQueue) (pktId : BitVec 16) : Nat → Option RequestPtr → Option RequestPtr →
    Option (Option RequestPtr × Option RequestPtr)
  | _, none, prev => some (none, prev)
  | 0, some _, _ => none
  | fuel + 1, some iter, prev =>
    if (q.reqList iter).pktId = pktId then some (some iter, prev)
    else findRequest q pktId fuel (q.reqList iter).next (some iter)

/-- A request that was found is passed over by the one before it. -/
def unchain (q : RequestQueue) (iter : RequestPtr) (prev : Option RequestPtr) : RequestQueue :=
  match prev with
  | none => { q with pendReqQueue := (q.reqList iter).next }
  | some prev => q.set prev { q.reqList prev with next := (q.reqList iter).next }

/-- The time that is left to a request goes to the one behind it. -/
def addRemaining (q : RequestQueue) (iter : RequestPtr) : RequestQueue :=
  match (q.reqList iter).next with
  | none => q
  | some next =>
    q.set next { q.reqList next with
      timeoutDiff := (q.reqList next).timeoutDiff + (q.reqList iter).timeoutDiff }

def mqttTakeRequest (q : RequestQueue) (pktId : BitVec 16) : Option (RequestQueue × Option RequestPtr) := do
  let (iter, prev) ← findRequest q pktId mqttReqMaxInFlight q.pendReqQueue none
  match iter with
  | none => some (q, none)
  | some iter =>
    let q := addRemaining (unchain q iter prev) iter
    some (q.set iter { q.reqList iter with next := none }, some iter)

/-- The loop over the requests whose time is over, with the calls it makes. -/
def mqttRequestTimeElapsed (q : RequestQueue) : Nat → BitVec 8 → Option (RequestQueue × List RequestCall)
  | fuel, t =>
    match q.pendReqQueue with
    | none => some (q, [])
    | some r =>
      if t = 0#8 then some (q, [])
      else if t.toNat ≥ (q.reqList r).timeoutDiff.toNat then
        match fuel with
        | 0 => none
        | fuel + 1 => do
          let t := t - (q.reqList r).timeoutDiff.setWidth 8
          let expired := mqttDeleteRequest { q with pendReqQueue := (q.reqList r).next } r
          let (later, calls) ← mqttRequestTimeElapsed expired fuel t
          some (later, (q.reqList r).call .timeout ++ calls)
      else
        some (q.set r { q.reqList r with timeoutDiff := (q.reqList r).timeoutDiff - t.setWidth 16 }, [])

/-- The loop that gives back the requests from `iter` on. -/
def clearFrom (q : RequestQueue) : Nat → Option RequestPtr → Option RequestQueue
  | _, none => some { q with pendReqQueue := none }
  | 0, some _ => none
  | fuel + 1, some iter => clearFrom (mqttDeleteRequest q iter) fuel (q.reqList iter).next

def mqttClearRequests (q : RequestQueue) : Option RequestQueue :=
  clearFrom q mqttReqMaxInFlight q.pendReqQueue

def mqttInitRequests (q : RequestQueue) : RequestQueue :=
  { q with reqList := fun n => { q.reqList n with next := some n } }

/-- The loop of `mqtt_tcp_sent_cb` over the publishes that nobody answers. -/
def completeUnanswered (q : RequestQueue) : Nat → Option (RequestQueue × List RequestCall)
  | 0 => none
  | fuel + 1 => do
    let (q, taken) ← mqttTakeRequest q 0#16
    match taken with
    | none => some (q, [])
    | some r =>
      let (later, calls) ← completeUnanswered (mqttDeleteRequest q r) fuel
      some (later, (q.reqList r).call .ok ++ calls)

end Maglev
