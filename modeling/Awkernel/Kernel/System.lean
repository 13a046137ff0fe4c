import Awkernel.Kernel.Cpu
import Awkernel.Kernel.Spawn

/-!
# The system

All CPUs and all calls of `Task::wake` together. An action names who moves and what the
environment decides, so a run is a list of actions and every interleaving is one.

* A CPU takes a step of its own code.
* A slot holds a call of `Task::wake` made by a future or by an interrupt handler, on any CPU.
  A spawn is such a call on a new task.
* The preemption interrupt arrives on a worker that polls or sleeps; a voluntary preemption
  point in a poll is the same step.
* A polled task panics: `panicking` marks it before the stack is unwound.
* The clock advances.
-/

namespace Awkernel

open TransitionSystem Option Function

variable {B : Build} {n m : Nat}

/-- The moves of the system. -/
inductive Action (n m : Nat)
  | cpu (c : Cpu n) (inp : Input)
  | call (i : Fin m) (inp : Input)
  /-- `Task::wake` is called on CPU `c`. -/
  | wake (i : Fin m) (c : Cpu n) (task : Handle)
  /-- `inner_spawn` is called on CPU `c`. -/
  | spawn (i : Fin m) (c : Cpu n) (type : SchedulerType) (dagInfo : Option DagInfo)
  | interrupt (c : Cpu n)
  | panicking (c : Cpu n)
  | advance (micros : Nat)

/-- `k` steps of CPU `c`, with the default input. -/
def Action.cpuSteps (c : Cpu n) (k : Nat) : List (Action n m) := List.replicate k (.cpu c {})

/-- A spawn on CPU 0 and `k` steps of the call in the slot it takes. -/
def Action.spawnSteps (i : Fin m) (type : SchedulerType) (k : Nat) : List (Action n m) :=
  .spawn i 0 type none :: List.replicate k (.call i {})

/-- Where the preemption interrupt finds a CPU that has interrupts enabled. In `sleep` they
are enabled from the mark to the halt. -/
def CpuPc.interruptible : CpuPc n → Option Interrupted
  | .polling t => some (.polling t)
  | .sleep .markWaiting => some (.sleeping .markWaiting)
  | .sleep (.notify seen) => some (.sleeping (.notify seen))
  | .sleep .checkAgain => some (.sleeping .checkAgain)
  | .sleep .halted => some (.sleeping .halted)
  | _ => none

namespace Shared

/-- `preemption`, up to `do_preemption`. -/
def clearRequest (s : Shared B n) (c : Cpu n) : Shared B n :=
  { s with preemptionRequest := update s.preemptionRequest c false }

/-- The marking of the current task by `panicking`; `none` if there is no such task. -/
def markPanicking (s : Shared B n) (c : Cpu n) : Option (Shared B n) :=
  if s.running c = 0 then none
  else (s.registry (s.running c)).map fun t =>
    s.modifyInfo t fun info => { info with schedulerType := .panicked, panicked := true }

end Shared

namespace Sys

/-- A CPU has taken a step. -/
def setCpu (σ : Sys B n m) (c : Cpu n) : CpuResult B n → Sys B n m
  | .next s pc => { σ with shared := s, cpu := update σ.cpu c pc }
  | .panicked s => { σ with shared := s, cpuPanicked := update σ.cpuPanicked c true }

/-- A call in a slot has taken a step. -/
def setCall (σ : Sys B n m) (i : Fin m) : WakeResult B n → Sys B n m
  | .next s w => { σ with shared := s, call := update σ.call i (some w) }
  | .done s => { σ with shared := s, call := update σ.call i none }
  | .panicked s => { σ with shared := s, callPanicked := update σ.callPanicked i true }

/-- A free slot gets a call. -/
def startCall (σ : Sys B n m) (i : Fin m) (s : Shared B n) (w : WakeCall n) : Sys B n m :=
  { σ with shared := s, call := update σ.call i (some w) }

/-- The initial state: CPU 0 enters its main loop, the workers enter `run_main`. -/
def init (B : Build) (n m : Nat) : Sys B n m where
  shared := .boot B n
  cpu c := if c = 0 then .tick (workers n) else .top
  call _ := none
  cpuPanicked _ := false
  callPanicked _ := false

end Sys

/-- One step of the system. -/
def sysStep (σ : Sys B n m) : Action n m → Option (Sys B n m)
  | .cpu c inp =>
    if σ.cpuPanicked c then none
    else (cpuStep σ.shared c inp (σ.cpu c)).map (σ.setCpu c)
  | .call i inp =>
    if σ.callPanicked i then none
    else (σ.call i).bind fun w => (wakeStep σ.shared w inp.dagDeadline).map (σ.setCall i)
  | .wake i c t =>
    if (σ.call i).isNone ∧ t < σ.shared.numHandles then
      some (σ.startCall i σ.shared (σ.shared.wake c t))
    else none
  | .spawn i c ty dagInfo =>
    if (σ.call i).isNone then
      (σ.shared.spawn ty dagInfo).map fun s => σ.startCall i s (s.wake c σ.shared.numHandles)
    else none
  | .interrupt c =>
    if c = 0 ∨ σ.cpuPanicked c then none
    else ((σ.cpu c).interruptible).map fun interrupted =>
      σ.setCpu c (.next (σ.shared.clearRequest c) (.preempting interrupted .peekPending))
  | .panicking c =>
    match σ.cpu c with
    | .polling t =>
      if σ.cpuPanicked c then none
      else (σ.shared.markPanicking c).map fun s =>
        σ.setCpu c (.next (s.clearRequest c) (.preempting (.polling t) .peekPending))
    | _ => none
  | .advance micros =>
    some { σ with shared := { σ.shared with uptime := σ.shared.uptime + micros } }

/-- **The steps of the system**, with the conditions under which they are taken. -/
inductive SysCase (σ : Sys B n m) : Action n m → Sys B n m → Prop
  | cpu {c : Cpu n} {inp : Input} {r : CpuResult B n} (hrun : σ.cpuPanicked c = false)
      (hr : cpuStep σ.shared c inp (σ.cpu c) = some r) : SysCase σ (.cpu c inp) (σ.setCpu c r)
  | call {i : Fin m} {inp : Input} {w : WakeCall n} {r : WakeResult B n}
      (hrun : σ.callPanicked i = false) (hw : σ.call i = some w)
      (hr : wakeStep σ.shared w inp.dagDeadline = some r) :
      SysCase σ (.call i inp) (σ.setCall i r)
  | wake {i : Fin m} {c : Cpu n} {t : Handle} (hfree : σ.call i = none)
      (ht : t < σ.shared.numHandles) :
      SysCase σ (.wake i c t) (σ.startCall i σ.shared (σ.shared.wake c t))
  | spawn {i : Fin m} {c : Cpu n} {ty : SchedulerType} {dagInfo : Option DagInfo}
      {s : Shared B n} (hfree : σ.call i = none) (hs : σ.shared.spawn ty dagInfo = some s) :
      SysCase σ (.spawn i c ty dagInfo) (σ.startCall i s (s.wake c σ.shared.numHandles))
  | interrupt {c : Cpu n} {i : Interrupted} (hc : c ≠ 0) (hrun : σ.cpuPanicked c = false)
      (hi : (σ.cpu c).interruptible = some i) : SysCase σ (.interrupt c)
        (σ.setCpu c (.next (σ.shared.clearRequest c) (.preempting i .peekPending)))
  | panicking {c : Cpu n} {t : Handle} {s : Shared B n} (hpc : σ.cpu c = .polling t)
      (hrun : σ.cpuPanicked c = false) (hs : σ.shared.markPanicking c = some s) :
      SysCase σ (.panicking c)
        (σ.setCpu c (.next (s.clearRequest c) (.preempting (.polling t) .peekPending)))
  | advance (micros : Nat) : SysCase σ (.advance micros)
      { σ with shared := { σ.shared with uptime := σ.shared.uptime + micros } }

theorem sysStep_cases {σ σ' : Sys B n m} {a : Action n m} (h : sysStep σ a = some σ') :
    SysCase σ a σ' := by
  cases a with
  | cpu c inp =>
    simp only [sysStep] at h
    split at h
    · cases h
    rename_i hrun
    obtain ⟨r, hr, rfl⟩ := map_eq_some_iff.mp h
    exact .cpu (by simpa using hrun) hr
  | call i inp =>
    obtain ⟨hrun, h⟩ := ite_none_left_eq_some.mp h
    obtain ⟨w, hw, hcall⟩ := bind_eq_some_iff.mp h
    obtain ⟨r, hr, rfl⟩ := map_eq_some_iff.mp hcall
    exact .call (by simpa using hrun) hw hr
  | wake i c t =>
    obtain ⟨hfree, ⟨⟩⟩ := ite_none_right_eq_some.mp h
    exact .wake (isNone_iff_eq_none.mp hfree.1) hfree.2
  | spawn i c ty dagInfo =>
    simp only [sysStep] at h
    split at h
    · next hfree =>
      obtain ⟨s, hs, rfl⟩ := map_eq_some_iff.mp h
      exact .spawn (isNone_iff_eq_none.mp hfree) hs
    · cases h
  | interrupt c =>
    obtain ⟨hrun, h⟩ := ite_none_left_eq_some.mp h
    rw [not_or] at hrun
    obtain ⟨i, hi, rfl⟩ := map_eq_some_iff.mp h
    exact .interrupt hrun.1 (by simpa using hrun.2) hi
  | panicking c =>
    simp only [sysStep] at h
    split at h
    · next hpc =>
      obtain ⟨hrun, h⟩ := ite_none_left_eq_some.mp h
      obtain ⟨s, hs, rfl⟩ := map_eq_some_iff.mp h
      exact .panicking hpc (by simpa using hrun) hs
    · cases h
  | advance micros =>
    cases h
    exact .advance micros

/-- The states of the runs from `σ₀` whose steps all meet `ok`. -/
abbrev ReachesFrom (σ₀ : Sys B n m) (ok : Sys B n m → Action n m → Prop) (σ : Sys B n m) : Prop :=
  Reaches sysStep ok σ₀ σ

/-- The states of the runs of the kernel whose steps all meet `ok`. -/
abbrev Reachable (ok : Sys B n m → Action n m → Prop) (σ : Sys B n m) : Prop :=
  ReachesFrom (Sys.init B n m) ok σ

end Awkernel
