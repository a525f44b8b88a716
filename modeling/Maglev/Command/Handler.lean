import Maglev.CWPack.Unpack
import Maglev.Control.Motor
import Maglev.Lib.CString

namespace Maglev

/-- `incoming_publish_type`. -/
inductive InpubType
  | none
  | cmdM1
  | cmdM2
  deriving DecidableEq, Repr

/-- The motor as the command handler sees it: numbers are bit patterns of floats. -/
abbrev Motor := MotorControl (BitVec 32)

/-- `m1` as `main.c` initialises it. -/
def staticM1 : Motor where
  enabled := false
  iTarget := 0#32
  errorCount := 0#32
  iA := 0#32
  iaCompensator := ⟨0#32, 0#32, 0#32, 0#32, 0#32, 0#32, 0#32, 0#32, 0#32⟩
  pwmFreq := 35000
  clockFreq := 168000000
  maxDutyCount := 0
  config := ⟨0, 0⟩

/-- The two stores that the handler makes through `mc`. -/
inductive Assignment
  | enabled (b : Bool)
  | iTarget (bits : BitVec 32)
  deriving DecidableEq, Repr

def Assignment.apply (mc : Motor) : Assignment → Motor
  | .enabled b => { mc with enabled := b }
  | .iTarget bits => { mc with iTarget := bits }

def enableKey : CString := ⟨literal "enable", by decide⟩

def iTargetKey : CString := ⟨literal "i_target", by decide⟩

/-- The comparisons of one iteration. Their length argument is read from the
union after the value has been unpacked into it. -/
def pairAssignments (pm : PtrModel) (mem : Mem) (key : BitVec 32) (value : UnpackContext) : List Assignment :=
  let chars := fun i => mem (pm.add key.toNat i)
  let length := value.item.as.length.toNat
  (if strncmp chars enableKey.char length = 0 then
    if value.item.type = .boolean then [.enabled value.item.as.boolean] else []
  else []) ++
  (if strncmp chars iTargetKey.char length = 0 then
    if value.item.type = .float then [.iTarget value.item.as.real] else []
  else [])

/-- One pass through the pair loop, as it was executed: `value` is missing when
the key was not a string and the handler returned. -/
structure Iteration where
  start : UnpackContext
  key : UnpackContext
  value : Option UnpackContext
  assigned : List Assignment
  deriving DecidableEq, Repr

/-- The outcome of the handler, with the record of its iterations and of its
calls of `cw_unpack_next`, each as the contexts before and after. -/
structure CommandRun where
  uc : UnpackContext
  mc : Motor
  iterations : List Iteration
  calls : List (UnpackContext × UnpackContext)
  deriving DecidableEq, Repr

/-- The pair loop with `n` iterations still allowed by `num_items`. -/
def commandLoop (pm : PtrModel) (mem : Mem) : Nat → UnpackContext → Motor → CommandRun
  | 0, uc, mc => ⟨uc, mc, [], []⟩
  | n + 1, uc, mc =>
    let key := cwUnpackNext pm mem uc
    if key.item.type ≠ .str then ⟨key, mc, [⟨uc, key, none, []⟩], [(uc, key)]⟩
    else
      let value := cwUnpackNext pm mem key
      let assigned := pairAssignments pm mem key.item.as.start value
      let run := commandLoop pm mem n value (assigned.foldl Assignment.apply mc)
      { run with
        iterations := ⟨uc, key, some value, assigned⟩ :: run.iterations
        calls := (uc, key) :: (key, value) :: run.calls }

/-- `num_items` is an `int`, so a size from 2^31 on is a negative bound. -/
def handleIncomingCommand (pm : PtrModel) (mem : Mem) (inpubType : InpubType) (uc : UnpackContext)
    (m1 : Motor) : CommandRun :=
  if inpubType ≠ .cmdM1 then ⟨uc, m1, [], []⟩
  else
    let header := cwUnpackNext pm mem uc
    if header.item.type ≠ .map then ⟨header, m1, [], [(uc, header)]⟩
    else
      let numItems := header.item.as.size.toInt
      let run := commandLoop pm mem numItems.toNat header m1
      { run with calls := (uc, header) :: run.calls }

end Maglev
