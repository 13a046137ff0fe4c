import Awkernel.Lib.TransitionSystem
import Awkernel.PubSub.Subscriber

/-!
# Interrupts of a network device

`net_interrupt` and `register_waker_for_network_interrupt` of `awkernel_lib/src/net.rs`, and the
task `interrupt_handler` of `applications/awkernel_services/src/network_service.rs`. The handler
calls `handle_interrupt`, and waits for the next interrupt when there was nothing to do. Each call
on `IRQ_WAKERS` holds its mutex; interrupts arrive before, between and after the steps of the
handler, and also while it is in `handle_interrupt`.

An interrupt leaves a trace: `Interrupted` if nobody had registered, and otherwise the task that
had registered is woken, which may be while it runs (`NetworkInterrupt` leaves its waker behind if
the task is polled for another reason). The trace is lost only when the handler takes `Interrupted`
away, or is polled, and then its next call is `handle_interrupt` (`interrupt_not_missed`). That
holds as long as the service has not asked the handler to stop.
-/

namespace Awkernel

open TransitionSystem Function

namespace NetInterrupt

inductive IRQWaker
  | waker (w : Waker)
  | interrupted
  deriving DecidableEq

/-- `IRQ_WAKERS`. -/
abbrev IRQWakers := UInt16 → Option IRQWaker

/-- `net_interrupt`, with the waker that it calls. -/
def netInterrupt (irq : UInt16) (w : IRQWakers) : IRQWakers × Option Waker :=
  match w irq with
  | some (.waker waker) => (update w irq none, some waker)
  | some .interrupted => (w, none)
  | none => (update w irq (some .interrupted), none)

/-- `register_waker_for_network_interrupt`. -/
def registerWaker (irq : UInt16) (waker : Waker) (w : IRQWakers) : IRQWakers × Bool :=
  match w irq with
  | some .interrupted => (update w irq none, false)
  | some (.waker _) => (update w irq (some (.waker waker)), true)
  | none => (update w irq (some (.waker waker)), true)

/-- Where `interrupt_handler` is. -/
inductive Pc
  /-- The first `select_biased!`, whose second branch is ready. -/
  | top
  /-- Before a call of `handle_interrupt`, the one at the head of the loop or the one after it. -/
  | handle (again : Bool)
  /-- In the call. -/
  | handling (again : Bool)
  /-- `r#yield().await`, with the field of `Yield`. -/
  | yielding (yielded : Bool)
  /-- The second `select_biased!`, with the field `wait` of `NetworkInterrupt`: before the channel
  is polled. -/
  | select (wait : Bool)
  /-- Before `NetworkInterrupt` is polled. -/
  | irqWait (wait : Bool)
  /-- The service has asked the handler to stop. -/
  | closing
  | ended
  deriving DecidableEq

structure State where
  /-- The interrupt of the handler, and the waker of its task. -/
  irq : UInt16
  task : Waker
  irqWakers : IRQWakers
  pc : Pc
  running : Bool
  /-- The task was woken and has not been polled since. -/
  woken : Bool
  /-- The service has sent its message. -/
  closeSent : Bool
  /-- An interrupt has arrived since the last call of `handle_interrupt` began. -/
  arrived : Bool

inductive Action
  | interrupt (irq : UInt16)
  /-- The task is polled, woken or not. -/
  | poll
  /-- A step of the handler in a poll; `result` is what `handle_interrupt` returns. -/
  | run (result : Bool)
  /-- The task is woken for another reason. -/
  | wake
  /-- The service asks the handler to stop. -/
  | close
  /-- The handler of another interrupt registers. -/
  | register (irq : UInt16) (waker : Waker)

namespace State

def init (irq : UInt16) (task : Waker) : State where
  irq := irq
  task := task
  irqWakers := fun _ => none
  pc := .top
  running := false
  woken := true
  closeSent := false
  arrived := false

/-- A step of the handler. -/
def runStep (σ : State) (result : Bool) : Option State :=
  match σ.pc with
  | .top => some { σ with pc := if σ.closeSent then .closing else .handle false }
  | .handle again => some { σ with pc := .handling again, arrived := false }
  | .handling again =>
    some { σ with pc := if again || result then .yielding false else .select true }
  -- `wake_by_ref`
  | .yielding false => some { σ with pc := .yielding true, woken := true, running := false }
  | .yielding true => some { σ with pc := .top }
  | .select wait => some { σ with pc := if σ.closeSent then .closing else .irqWait wait }
  | .irqWait true =>
    match registerWaker σ.irq σ.task σ.irqWakers with
    | (w, true) => some { σ with irqWakers := w, pc := .select false, running := false }
    | (w, false) => some { σ with irqWakers := w, pc := .handle true }
  | .irqWait false => some { σ with pc := .handle true }
  | .closing => some { σ with pc := .ended, running := false }
  | .ended => none

def step (σ : State) : Action → Option State
  | .interrupt irq =>
    let (w, waker) := netInterrupt irq σ.irqWakers
    some { σ with
      irqWakers := w
      woken := σ.woken || waker == some σ.task
      arrived := σ.arrived || irq == σ.irq }
  | .poll =>
    if σ.running || σ.pc == .ended then none
    else some { σ with running := true, woken := false }
  | .run result => if σ.running then σ.runStep result else none
  | .wake => some { σ with woken := true }
  | .close => some { σ with closeSent := true, woken := true }
  | .register irq waker =>
    if irq = σ.irq then none
    else some { σ with irqWakers := (registerWaker irq waker σ.irqWakers).1 }

/-- The handler is in a poll, and it calls `handle_interrupt` before that poll ends. -/
inductive WillHandle : State → Prop
  | call {σ : State} {again : Bool} :
      σ.running = true → σ.pc = .handle again → WillHandle σ
  | next {σ : State} :
      (∃ result σ', σ.step (.run result) = some σ') →
      (∀ result σ', σ.step (.run result) = some σ' → WillHandle σ') → WillHandle σ

/-- An interrupt that the handler has not seen is not forgotten. -/
def NotMissed (σ : State) : Prop :=
  σ.arrived = true → σ.irqWakers σ.irq = some .interrupted ∨ σ.woken = true ∨ σ.WillHandle

end State

/-- The points from which the next call is `handle_interrupt`, as long as the handler need not
stop. -/
def Pc.Due : Pc → Prop
  | .top | .handle _ | .yielding true | .select false | .irqWait false => True
  | _ => False

namespace State

variable {σ σ' : State}

/-- Before the handler is asked to stop. -/
structure Inv (σ : State) : Prop where
  /-- Only the handler registers for its interrupt. -/
  own : ∀ w, σ.irqWakers σ.irq = some (.waker w) → w = σ.task
  live : σ.pc ≠ .closing ∧ σ.pc ≠ .ended
  /-- Between two polls. -/
  parked : σ.running = false → σ.pc.Due
  due : σ.arrived = true →
    σ.irqWakers σ.irq = some .interrupted ∨ σ.woken = true ∨ σ.running = true ∧ σ.pc.Due

variable {irq : UInt16} {w : IRQWakers}

theorem netInterrupt_of_ne {irq' : UInt16} (w : IRQWakers) (h : irq ≠ irq') :
    (netInterrupt irq' w).1 irq = w irq := by
  unfold netInterrupt
  split
  · exact update_of_ne h ..
  · rfl
  · exact update_of_ne h ..

theorem registerWaker_of_ne {irq' : UInt16} (waker : Waker) (w : IRQWakers) (h : irq ≠ irq') :
    (registerWaker irq' waker w).1 irq = w irq := by
  unfold registerWaker
  split <;> exact update_of_ne h ..

theorem registerWaker_true {waker : Waker} {w' : IRQWakers}
    (h : registerWaker irq waker w = (w', true)) :
    w irq ≠ some .interrupted ∧ w' irq = some (.waker waker) := by
  unfold registerWaker at h
  split at h
  · cases h
  · next hw =>
    obtain rfl := (Prod.mk.inj h).1
    rw [hw]
    exact ⟨nofun, update_self ..⟩
  · next hw =>
    obtain rfl := (Prod.mk.inj h).1
    rw [hw]
    exact ⟨nofun, update_self ..⟩

theorem registerWaker_false {waker : Waker} {w' : IRQWakers}
    (h : registerWaker irq waker w = (w', false)) : w' irq = none := by
  unfold registerWaker at h
  split at h
  · obtain rfl := (Prod.mk.inj h).1
    exact update_self ..
  · cases h
  · cases h

/-- **What an interrupt leaves behind**: `Interrupted`, or a task that is woken. -/
theorem netInterrupt_trace (irq : UInt16) (w : IRQWakers) :
    (netInterrupt irq w).1 irq = some .interrupted ∧ (netInterrupt irq w).2 = none ∨
      (netInterrupt irq w).1 irq = none ∧
        ∃ waker, w irq = some (.waker waker) ∧ (netInterrupt irq w).2 = some waker := by
  unfold netInterrupt
  split
  · next waker h => exact .inr ⟨update_self .., waker, h, rfl⟩
  · next h => exact .inl ⟨h, rfl⟩
  · exact .inl ⟨update_self .., rfl⟩

theorem Inv.interrupt (h : Inv σ) (irq : UInt16) {waker : Option Waker}
    (hw : netInterrupt irq σ.irqWakers = (w, waker)) :
    Inv { σ with
      irqWakers := w
      woken := σ.woken || waker == some σ.task
      arrived := σ.arrived || irq == σ.irq } := by
  have hfst : w = (netInterrupt irq σ.irqWakers).1 := by rw [hw]
  have hsnd : waker = (netInterrupt irq σ.irqWakers).2 := by rw [hw]
  by_cases hirq : irq = σ.irq
  · subst hirq
    rcases netInterrupt_trace σ.irq σ.irqWakers with ⟨hint, -⟩ | ⟨hnone, wk, hold, hcall⟩
    · rw [← hfst] at hint
      exact ⟨fun _ h' => absurd (hint.symm.trans h') nofun, h.live, h.parked, fun _ => .inl hint⟩
    rw [← hfst] at hnone
    refine ⟨fun _ h' => absurd (hnone.symm.trans h') nofun, h.live, h.parked, fun _ => ?_⟩
    refine .inr (.inl ?_)
    rw [hsnd, hcall, h.own wk hold, beq_self_eq_true, Bool.or_true]
  · have hsame : w σ.irq = σ.irqWakers σ.irq := by
      rw [hfst]
      exact netInterrupt_of_ne _ fun h' => hirq h'.symm
    refine ⟨fun wk h' => h.own wk (hsame.symm.trans h'), h.live, h.parked, fun harrived => ?_⟩
    rw [beq_false_of_ne hirq, Bool.or_false] at harrived
    change w σ.irq = _ ∨ (σ.woken || waker == some σ.task) = true ∨ _
    rw [hsame]
    refine (h.due harrived).imp_right fun h' => h'.imp_left fun hwoken => ?_
    rw [hwoken, Bool.true_or]

/-- A trace of an interrupt stays until the handler acts on it. -/
theorem Inv.run {result : Bool} (h : Inv σ) (hrunning : σ.running = true)
    (hclose : σ.closeSent = false) (hstep : σ.runStep result = some σ') : Inv σ' := by
  -- a trace that is there stays; a call that is due is brought nearer
  have hdue : ∀ {p : Pc}, σ.pc = p → ¬ p.Due → σ.arrived = true →
      σ.irqWakers σ.irq = some .interrupted ∨ σ.woken = true := by
    intro p hp hnot harrived
    refine (h.due harrived).imp_right fun h' => h'.resolve_right fun hd => ?_
    rw [hp] at hd
    exact hnot hd.2
  dsimp only [runStep] at hstep
  split at hstep
  · next hpc =>
    cases hstep
    rw [hclose]
    exact ⟨h.own, ⟨nofun, nofun⟩, fun _ => trivial, fun _ => .inr (.inr ⟨hrunning, trivial⟩)⟩
  · cases hstep
    exact ⟨h.own, ⟨nofun, nofun⟩, fun h' => absurd (hrunning.symm.trans h') nofun, nofun⟩
  · next again hpc =>
    cases hstep
    refine ⟨h.own, ?_, fun h' => absurd (hrunning.symm.trans h') nofun, fun harrived => ?_⟩
    · split
      · exact ⟨nofun, nofun⟩
      · exact ⟨nofun, nofun⟩
    · exact (hdue hpc (fun hd => hd) harrived).imp_right .inl
  · cases hstep
    exact ⟨h.own, ⟨nofun, nofun⟩, fun _ => trivial, fun _ => .inr (.inl rfl)⟩
  · cases hstep
    exact ⟨h.own, ⟨nofun, nofun⟩, fun _ => trivial, fun _ => .inr (.inr ⟨hrunning, trivial⟩)⟩
  · next wait hpc =>
    cases hstep
    rw [hclose]
    refine ⟨h.own, ⟨nofun, nofun⟩, fun h' => absurd (hrunning.symm.trans h') nofun,
      fun harrived => ?_⟩
    cases wait with
    | true => exact (hdue hpc (fun hd => hd) harrived).imp_right .inl
    | false => exact .inr (.inr ⟨hrunning, trivial⟩)
  · next hpc =>
    split at hstep
    · next w hreg =>
      cases hstep
      obtain ⟨hnot, hself⟩ := registerWaker_true hreg
      refine ⟨fun wk h' => ?_, ⟨nofun, nofun⟩, fun _ => trivial, fun harrived => ?_⟩
      · exact (IRQWaker.waker.inj (Option.some.inj (hself.symm.trans h'))).symm
      · -- `Interrupted` would have been seen, so the task was woken while it ran
        exact .inr (.inl ((hdue hpc (fun hd => hd) harrived).resolve_left hnot))
    · next w hreg =>
      cases hstep
      have hnone := registerWaker_false hreg
      exact ⟨fun _ h' => absurd (hnone.symm.trans h') nofun, ⟨nofun, nofun⟩, fun _ => trivial,
        fun _ => .inr (.inr ⟨hrunning, trivial⟩)⟩
  · cases hstep
    exact ⟨h.own, ⟨nofun, nofun⟩, fun _ => trivial, fun _ => .inr (.inr ⟨hrunning, trivial⟩)⟩
  · next hpc => exact absurd hpc h.live.1
  · cases hstep

theorem runStep_closeSent {result : Bool} (h : σ.runStep result = some σ') :
    σ'.closeSent = σ.closeSent := by
  dsimp only [runStep] at h
  split at h
  case h_7 =>
    split at h
    all_goals
      cases h
      rfl
  case h_10 => cases h
  all_goals
    cases h
    rfl

theorem closeSent_step {a : Action} (hstep : σ.step a = some σ') (h : σ'.closeSent = false) :
    σ.closeSent = false := by
  cases a with
  | interrupt | wake =>
    cases hstep
    exact h
  | close =>
    cases hstep
    cases h
  | poll | register =>
    obtain ⟨-, ⟨⟩⟩ := Option.ite_none_left_eq_some.mp hstep
    exact h
  | run result =>
    obtain ⟨-, hstep⟩ := Option.ite_none_right_eq_some.mp hstep
    exact (runStep_closeSent hstep).symm.trans h

theorem Inv.step {a : Action} (h : Inv σ) (hclose : σ.closeSent = false)
    (hstep : σ.step a = some σ') : Inv σ' := by
  cases a with
  | interrupt irq =>
    cases hstep
    exact h.interrupt irq rfl
  | poll =>
    obtain ⟨hcond, ⟨⟩⟩ := Option.ite_none_left_eq_some.mp hstep
    have hparked : σ.running = false := by
      cases hr : σ.running with
      | false => rfl
      | true => exact absurd (by rw [hr, Bool.true_or]) hcond
    exact ⟨h.own, h.live, nofun, fun _ => .inr (.inr ⟨rfl, h.parked hparked⟩)⟩
  | run result =>
    obtain ⟨hrunning, hstep⟩ := Option.ite_none_right_eq_some.mp hstep
    exact h.run hrunning hclose hstep
  | wake | close =>
    cases hstep
    exact ⟨h.own, h.live, h.parked, fun _ => .inr (.inl rfl)⟩
  | register irq waker =>
    obtain ⟨hne, ⟨⟩⟩ := Option.ite_none_left_eq_some.mp hstep
    have hsame := registerWaker_of_ne waker σ.irqWakers fun h' => hne h'.symm
    refine ⟨fun w h' => h.own w (hsame.symm.trans h'), h.live, h.parked, fun harrived => ?_⟩
    exact (h.due harrived).imp_left hsame.trans

theorem willHandle_of_next (σ' : State) (hrunning : σ.running = true)
    (hnext : ∀ result, σ.runStep result = some σ') (h : σ'.WillHandle) : σ.WillHandle := by
  have hstep : ∀ result, σ.step (.run result) = some σ' := fun result =>
    (if_pos hrunning).trans (hnext result)
  refine .next ⟨true, σ', hstep true⟩ fun result σ'' h' => ?_
  rwa [Option.some.inj (h'.symm.trans (hstep result))]

/-- From the points that are due, the next call is `handle_interrupt`. -/
theorem willHandle_of_due (hrunning : σ.running = true) (hclose : σ.closeSent = false)
    (hdue : σ.pc.Due) : σ.WillHandle := by
  have htop : ∀ {τ : State}, τ.running = true → τ.closeSent = false → τ.pc = .top →
      τ.WillHandle := by
    intro τ hr hc hpc
    refine willHandle_of_next { τ with pc := .handle false } hr (fun _ => ?_) (.call hr rfl)
    rw [runStep, hpc, hc]
    rfl
  have hwait : ∀ {τ : State}, τ.running = true → τ.pc = .irqWait false → τ.WillHandle := by
    intro τ hr hpc
    refine willHandle_of_next { τ with pc := .handle true } hr (fun _ => ?_) (.call hr rfl)
    rw [runStep, hpc]
  cases hpc : σ.pc with
  | top => exact htop hrunning hclose hpc
  | handle again => exact .call hrunning hpc
  | yielding yielded =>
    cases yielded with
    | true =>
      refine willHandle_of_next { σ with pc := .top } hrunning (fun _ => ?_)
        (htop hrunning hclose rfl)
      rw [runStep, hpc]
    | false => rw [hpc] at hdue; exact hdue.elim
  | select wait =>
    cases wait with
    | false =>
      refine willHandle_of_next { σ with pc := .irqWait false } hrunning (fun _ => ?_)
        (hwait hrunning rfl)
      rw [runStep, hpc, hclose]
      rfl
    | true => rw [hpc] at hdue; exact hdue.elim
  | irqWait wait =>
    cases wait with
    | false => exact hwait hrunning hpc
    | true => rw [hpc] at hdue; exact hdue.elim
  | handling | closing | ended => rw [hpc] at hdue; exact hdue.elim

/-- **No interrupt is missed.** In every state that the handler, the interrupts and the other tasks
reach before the handler is asked to stop: if an interrupt has arrived since the last call of
`handle_interrupt` began, then `IRQ_WAKERS` holds `Interrupted`, or the handler was woken and not
polled since, or it runs and calls `handle_interrupt` again before it waits. -/
theorem interrupt_not_missed (irq : UInt16) (task : Waker)
    (hreach : Reaches State.step (fun _ _ => True) (init irq task) σ)
    (hclose : σ.closeSent = false) : σ.NotMissed := by
  have hinit : Inv (init irq task) := ⟨nofun, ⟨nofun, nofun⟩, fun _ => trivial, nofun⟩
  have hinv : σ.closeSent = false → Inv σ :=
    hreach.invariant (I := fun σ => σ.closeSent = false → Inv σ) (fun _ => hinit)
      fun _ _ _ h _ hs hc =>
        have hc' := closeSent_step hs hc
        (h hc').step hc' hs
  intro harrived
  refine ((hinv hclose).due harrived).imp_right fun h => h.imp_right fun hrun => ?_
  exact willHandle_of_due hrun.1 hclose hrun.2

/-- The handler waits, is polled without reason and runs on, and an interrupt takes the waker that
it has left behind. -/
def staleWaker : List Action :=
  [.poll, .run false, .run false, .run false, .run false, .run false, .poll, .run false,
    .run false, .run false, .interrupt 9]

theorem interrupt_not_missed_staleWaker : ∃ σ : State,
    Reaches State.step (fun _ _ => True) (init 9 4) σ ∧ σ.closeSent = false ∧ σ.arrived = true ∧
      σ.irqWakers 9 = none ∧ σ.NotMissed := by
  have hreach : Reaches State.step (fun _ _ => True) (init 9 4) _ :=
    Reaches.of_run
      (show run (guarded State.step fun _ _ => True) (init 9 4) staleWaker = some _ from rfl)
  exact ⟨_, hreach, rfl, rfl, rfl, interrupt_not_missed 9 4 hreach rfl⟩

end State

end NetInterrupt

end Awkernel
