import Awkernel.Kernel.Wake

/-!
# Sleeping CPUs

`SleepCpuNoStd::sleep` on a CPU's own tag, after `init_sleep`. A CPU that marks itself
`Waiting` notifies CPU 0 before it halts, so that CPU 0 looks at the queues once more; on CPU 0
itself that call returns at once.
-/

namespace Awkernel

variable {B : Build} {n : Nat}

/-- How a step of `sleep` ends. -/
inductive SleepResult (B : Build) (n : Nat)
  | next (s : Shared B n) (pc : SleepPc)
  | returned (s : Shared B n)
  /-- An `unreachable!()` arm. -/
  | panicked (s : Shared B n)

def Shared.setTag (s : Shared B n) (c : Cpu n) (tag : SleepTag) : Shared B n :=
  { s with cpuSleepTag := Function.update s.cpuSleepTag c tag }

/-- One step of `sleep` on CPU `c`. A load that is followed by a store to the same tag is one
step where no other CPU writes the tag in between: only `sleep` itself leaves `Continue`, and
only `sleep` itself leaves `Waking`. -/
def sleepStep (s : Shared B n) (c : Cpu n) (timedOut : Bool) : SleepPc → SleepResult B n
  | .checkContinue =>
    if s.cpuSleepTag c = .continued then .returned (s.setTag c .active)
    else .next s .markWaiting
  | .markWaiting =>
    match s.cpuSleepTag c with
    | .active => .next (s.setTag c .waiting) (if c = 0 then .checkTimeout else .notify none)
    | .waking | .continued => .returned (s.setTag c .active)
    | .waiting => .panicked s
  | .checkTimeout =>
    if timedOut then .returned (s.setTag c .active) else .next s (.notify none)
  | .notify seen =>
    if c = 0 then .next s .checkAgain
    else
      match s.wakeUp 0 seen with
      | (s', .again seen') => .next s' (.notify seen')
      | (s', .returned _) => .next s' .checkAgain
  | .checkAgain =>
    match s.cpuSleepTag c with
    | .waking => .returned (s.setTag c .active)
    | .waiting => .next s .halted
    | .active | .continued => .panicked s
  -- an interrupt has arrived
  | .halted => .next s .reset
  | .reset => .returned (s.setTag c .active)

end Awkernel
