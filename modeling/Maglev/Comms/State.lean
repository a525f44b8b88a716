import Maglev.CWPack.Unpack
import Maglev.Command.Handler

namespace Maglev

def subBufferSize : Nat := 1024

/-- The part of `comms_t` that the incoming side uses. `sub_buffer` is given by its
address, its bytes are in the memory; `room` says that the array ends below the top
of the address space. -/
structure Comms where
  inpubCb : Bool
  m1CmdTopic : List Byte
  m1TelemTopic : List Byte
  mem : Mem
  subBuffer : Nat
  subPtr : Nat
  incomingPublish : InpubType
  room : subBuffer + subBufferSize < 2 ^ 32

/-- `_comms` as `main.c` initialises it, at some place in the RAM. -/
def staticComms : Comms where
  inpubCb := true
  m1CmdTopic := List.replicate 43 0#8
  m1TelemTopic := List.replicate 45 0#8
  mem := fun _ => 0#8
  subBuffer := 0x20000400
  subPtr := 0
  incomingPublish := .none
  room := by decide

/-- One invocation of `inpub_cb`, with the bytes that its context spans. -/
structure InpubCall where
  type : InpubType
  payload : List Byte
  deriving DecidableEq, Repr

/-- `sub_ptr - sub_buffer`, kept in a `uint32_t`. -/
def Comms.received (c : Comms) : Nat := (((c.subPtr : Int) - c.subBuffer) % 2 ^ 32).toNat

def processIncomingPublish (c : Comms) : List InpubCall :=
  let uc := cwUnpackContextInit .wrap32 default c.subBuffer c.received
  if c.inpubCb then [⟨c.incomingPublish, c.mem.read uc.start (uc.end_ - uc.start)⟩] else []

def mqttPubCb (c : Comms) (topic : CString) (totLen : Nat) : Comms :=
  let c := { c with incomingPublish := .none, subPtr := c.subBuffer }
  if totLen > subBufferSize then c
  else if strncmp topic.char (fun i => c.m1CmdTopic.getD i 0#8) c.m1CmdTopic.length = 0 then
    { c with incomingPublish := .cmdM1 }
  else c

def mqttDataFlagLast : BitVec 8 := 1#8

/-- The sum is an `int`, and the comparison with `sizeof` makes it unsigned. -/
def mqttDataCb (c : Comms) (data : List Byte) (flags : BitVec 8) : Comms × List InpubCall :=
  if c.incomingPublish = .none then (c, [])
  else if ((c.subPtr : Int) - c.subBuffer + data.length) % 2 ^ 32 > subBufferSize then (c, [])
  else
    let c := { c with mem := c.mem.store c.subPtr data, subPtr := c.subPtr + data.length }
    if flags &&& mqttDataFlagLast ≠ 0#8 then ({ c with incomingPublish := .none }, processIncomingPublish c)
    else (c, [])

end Maglev
