import Awkernel.Kernel.Sleep
import Awkernel.Lib.TransitionSystem

/-!
# The handshake between a CPU that sleeps and those that wake it

`awkernel_lib/src/cpu/sleep_cpu_no_std.rs`, after `init`: one step is one access to a tag, the
sending of an inter-processor interrupt, or a halt. Every CPU calls `sleep` for itself and
`wake_up` for the others, in any order, and `sleep` calls `wake_up(0)`. A halted CPU goes on when
any interrupt arrives. The tags are words, as in the source, so that the last arm of the `match`
in `wake_up` can be reached in the model.

The invariant `Inv` says which tags a CPU can have at each point of its own program (`Pc.Tagged`):
a CPU is the only one that leaves `Continue` and `Waking`, and the only one that enters `Waiting`.
The main result is `sleep_protocol`.

The kernel's own `sleepStep` (`Awkernel.Kernel.Sleep`) takes several accesses together. Each of its
steps is a few accesses of this model (`sleepStep_simulated`).
-/

namespace Awkernel

open TransitionSystem SleepTag Function

/-- The word of a tag: `#[repr(u32)]`. -/
def SleepTag.word : SleepTag → UInt32
  | .active => 0
  | .waiting => 1
  | .waking => 2
  | .continued => 3

theorem SleepTag.word_injective : Function.Injective word := by
  intro x y h
  cases x <;> cases y <;> first | rfl | exact absurd h (by decide)

namespace SleepProtocol

variable {n : Nat}

/-- Who calls `wake_up`, and for which CPU: a task, or `sleep` for CPU 0. The time at which `sleep`
was called and its timeout are in nanoseconds. -/
inductive Caller (n : Nat)
  | task (cpuId : Fin (n + 1))
  | sleeper (start : Nat) (timeout : Option Nat)

/-- Before the next access to the tag in `wake_up`. -/
inductive WakePc
  | load
  /-- `compare_exchange(Active, Continue)`. -/
  | exchangeActive
  /-- `compare_exchange(Waiting, Waking)`. -/
  | exchangeWaiting
  /-- `send_ipi`, by the CPU that has set `Waking` or by another one. -/
  | sendIpi (set : Bool)

/-- Before the next access to the tag in `sleep`, apart from the call of `wake_up`. -/
inductive SleepPc
  | load
  /-- The store after the load of `Continue`. -/
  | consume
  /-- `compare_exchange(Active, Waiting)`. -/
  | mark
  /-- The store after its failure. -/
  | unmark
  | checkTimeout
  /-- The store after a timeout. -/
  | expire
  /-- `compare_exchange(Waking, Active)`. -/
  | checkAgain
  | halted
  /-- The store after the halt. -/
  | reset

/-- The three `unreachable!()`. -/
inductive Arm
  | mark
  | checkAgain
  | wakeUp

/-- Where a CPU is. -/
inductive Pc (n : Nat)
  | outside
  | sleeping (start : Nat) (timeout : Option Nat) (p : SleepPc)
  | waking (caller : Caller n) (w : WakePc)
  | unreachable (arm : Arm)

def Caller.cpuId : Caller n → Fin (n + 1)
  | .task cpuId => cpuId
  | .sleeper _ _ => 0

/-- Where the caller is after `wake_up`. -/
def Caller.next : Caller n → Pc n
  | .task _ => .outside
  | .sleeper start timeout => .sleeping start timeout .checkAgain

structure State (n : Nat) where
  /-- `CPU_SLEEP_TAG`. -/
  tag : Fin (n + 1) → UInt32
  pc : Fin (n + 1) → Pc n
  now : Nat
  /-- How often a CPU has returned from `sleep`. -/
  returns : Fin (n + 1) → Nat
  /-- `wake_up` has changed the tag since the CPU last returned from `sleep`. -/
  notified : Fin (n + 1) → Bool
  /-- The CPU that has set the tag to `Waking` since then. -/
  setter : Fin (n + 1) → Option (Fin (n + 1))
  /-- That CPU has sent its interrupt. -/
  ipiSent : Fin (n + 1) → Bool

inductive Action (n : Nat)
  | sleep (c : Fin (n + 1)) (timeout : Option Nat)
  | wakeUp (c cpuId : Fin (n + 1))
  /-- The next access of a CPU. -/
  | access (c : Fin (n + 1))
  /-- An interrupt arrives at a CPU that is halted. -/
  | interrupt (c : Fin (n + 1))
  | advance (nanos : Nat)

namespace State

/-- All tags are `Active`. -/
def init : State n where
  tag := fun _ => active.word
  pc := fun _ => .outside
  now := 0
  returns := fun _ => 0
  notified := fun _ => false
  setter := fun _ => none
  ipiSent := fun _ => false

def setPc (σ : State n) (c : Fin (n + 1)) (p : Pc n) : State n :=
  { σ with pc := update σ.pc c p }

def setTag (σ : State n) (c : Fin (n + 1)) (tag : SleepTag) : State n :=
  { σ with tag := update σ.tag c tag.word }

/-- The store of `Active` with which a CPU returns from `sleep`. -/
def wake (σ : State n) (c : Fin (n + 1)) : State n :=
  { (σ.setTag c .active).setPc c .outside with
    returns := update σ.returns c (σ.returns c + 1)
    notified := update σ.notified c false
    setter := update σ.setter c none }

/-- `wake_up` sets the tag of a CPU. -/
def notify (σ : State n) (c : Fin (n + 1)) (tag : SleepTag) : State n :=
  { σ.setTag c tag with notified := update σ.notified c true }

/-- One step of `wake_up` on CPU `c`. -/
def wakeUpStep (σ : State n) (c : Fin (n + 1)) (caller : Caller n) : WakePc → State n
  | .load =>
    if c = caller.cpuId then σ.setPc c caller.next
    else
      let tag := σ.tag caller.cpuId
      if tag = active.word then σ.setPc c (.waking caller .exchangeActive)
      else if tag = waiting.word then σ.setPc c (.waking caller .exchangeWaiting)
      else if tag = waking.word then σ.setPc c (.waking caller (.sendIpi false))
      else if tag = continued.word then σ.setPc c caller.next
      else σ.setPc c (.unreachable .wakeUp)
  | .exchangeActive =>
    if σ.tag caller.cpuId = active.word then
      (σ.notify caller.cpuId .continued).setPc c caller.next
    else σ.setPc c (.waking caller .load)
  | .exchangeWaiting =>
    if σ.tag caller.cpuId = waiting.word then
      { (σ.notify caller.cpuId .waking).setPc c (.waking caller (.sendIpi true)) with
        setter := update σ.setter caller.cpuId (some c)
        ipiSent := update σ.ipiSent caller.cpuId false }
    else σ.setPc c (.waking caller .load)
  | .sendIpi set =>
    let sent := set && σ.setter caller.cpuId == some c
    { σ.setPc c caller.next with
      ipiSent := update σ.ipiSent caller.cpuId (σ.ipiSent caller.cpuId || sent) }

/-- One step of `sleep` on CPU `c`; `none` if it is halted. -/
def sleepStep (σ : State n) (c : Fin (n + 1)) (start : Nat) (timeout : Option Nat) :
    SleepPc → Option (State n)
  | .load =>
    some (σ.setPc c (.sleeping start timeout
      (if σ.tag c = continued.word then .consume else .mark)))
  | .consume | .unmark | .expire | .reset => some (σ.wake c)
  | .mark =>
    if σ.tag c = active.word then
      some ((σ.setTag c .waiting).setPc c (.sleeping start timeout .checkTimeout))
    else if σ.tag c = waking.word ∨ σ.tag c = continued.word then
      some (σ.setPc c (.sleeping start timeout .unmark))
    else some (σ.setPc c (.unreachable .mark))
  | .checkTimeout =>
    match timeout with
    | none => some (σ.setPc c (.waking (.sleeper start timeout) .load))
    | some t =>
      let elapsed := σ.now - start
      -- less than a millisecond is left, or nothing
      if elapsed < t ∧ ¬ (t - elapsed) / 1000 < 1000 then
        some (σ.setPc c (.waking (.sleeper start timeout) .load))
      else some (σ.setPc c (.sleeping start timeout .expire))
  | .checkAgain =>
    if σ.tag c = waking.word then some (σ.wake c)
    else if σ.tag c = waiting.word then some (σ.setPc c (.sleeping start timeout .halted))
    else some (σ.setPc c (.unreachable .checkAgain))
  | .halted => none

/-- A step; `none` if the CPU is not there. -/
def step (σ : State n) : Action n → Option (State n)
  | .sleep c timeout =>
    match σ.pc c with
    | .outside => some (σ.setPc c (.sleeping σ.now timeout .load))
    | _ => none
  | .wakeUp c cpuId =>
    match σ.pc c with
    | .outside => some (σ.setPc c (.waking (.task cpuId) .load))
    | _ => none
  | .access c =>
    match σ.pc c with
    | .sleeping start timeout p => σ.sleepStep c start timeout p
    | .waking caller w => some (σ.wakeUpStep c caller w)
    | .outside | .unreachable _ => none
  | .interrupt c =>
    match σ.pc c with
    | .sleeping start timeout .halted => some (σ.setPc c (.sleeping start timeout .reset))
    | _ => none
  | .advance nanos => some { σ with now := σ.now + nanos }

end State

/-! ### The tags at each point of the program -/

/-- The tags that a CPU can have at a point of its program. -/
def Pc.Tagged : Pc n → UInt32 → Prop
  | .sleeping _ _ p, tag =>
    match p with
    | .load | .mark => tag = active.word ∨ tag = continued.word
    | .consume | .unmark => tag = continued.word
    | _ => tag = SleepTag.waiting.word ∨ tag = SleepTag.waking.word
  | .waking (.sleeper _ _) _, tag => tag = SleepTag.waiting.word ∨ tag = SleepTag.waking.word
  | .outside, tag | .waking (.task _) _, tag =>
    tag = active.word ∨ tag = continued.word
  | .unreachable _, _ => False

/-- A call of `wake_up` for the CPU itself returns at its first step. -/
def Pc.WakesOther (c : Fin (n + 1)) : Pc n → Prop
  | .waking _ .load => True
  | .waking caller _ => caller.cpuId ≠ c
  | _ => True

/-- The CPU has set the tag of `c` to `Waking`, and it is about to send the interrupt. -/
def Pc.Sends (c : Fin (n + 1)) (p : Pc n) : Prop :=
  ∃ caller, p = .waking caller (.sendIpi true) ∧ caller.cpuId = c

namespace State

variable {σ σ' : State n}

/-- What a step does, given the tag of the CPU that takes it. -/
inductive StepCase (σ : State n) : Action n → State n → Prop
  | advance (nanos : Nat) : StepCase σ (.advance nanos) { σ with now := σ.now + nanos }
  /-- A CPU moves on. -/
  | move {a : Action n} {c : Fin (n + 1)} {p : Pc n} :
      (∀ d, ¬ (σ.pc c).Sends d) → p.Tagged (σ.tag c) → p.WakesOther c →
      StepCase σ a (σ.setPc c p)
  /-- It marks itself as waiting. -/
  | mark {c : Fin (n + 1)} {start : Nat} {timeout : Option Nat} :
      σ.pc c = .sleeping start timeout .mark → σ.tag c = active.word →
      StepCase σ (.access c) ((σ.setTag c .waiting).setPc c (.sleeping start timeout .checkTimeout))
  /-- It returns from `sleep`. -/
  | wake {c : Fin (n + 1)} :
      (∀ d, ¬ (σ.pc c).Sends d) → StepCase σ (.access c) (σ.wake c)
  /-- It tells another CPU not to sleep. -/
  | skipSleep {c : Fin (n + 1)} {caller : Caller n} :
      σ.pc c = .waking caller .exchangeActive →
      σ.tag caller.cpuId = active.word →
      StepCase σ (.access c) ((σ.notify caller.cpuId .continued).setPc c caller.next)
  /-- It tells another CPU to wake up. -/
  | set {c : Fin (n + 1)} {caller : Caller n} :
      σ.pc c = .waking caller .exchangeWaiting →
      σ.tag caller.cpuId = waiting.word →
      StepCase σ (.access c)
        { (σ.notify caller.cpuId .waking).setPc c (.waking caller (.sendIpi true)) with
          setter := update σ.setter caller.cpuId (some c)
          ipiSent := update σ.ipiSent caller.cpuId false }
  /-- It sends the interrupt. -/
  | sendIpi {c : Fin (n + 1)} {caller : Caller n} {set sent : Bool} :
      σ.pc c = .waking caller (.sendIpi set) →
      (set = true → σ.setter caller.cpuId = some c → sent = true) →
      StepCase σ (.access c) { σ.setPc c caller.next with
        ipiSent := update σ.ipiSent caller.cpuId (σ.ipiSent caller.cpuId || sent) }

variable {caller : Caller n} {w : WakePc} {tag : UInt32} {p : Pc n} {c : Fin (n + 1)} {a : Action n}

theorem tagged_next (h : (Pc.waking caller w).Tagged tag) : caller.next.Tagged tag := by
  cases caller with
  | task | sleeper => exact h

theorem wakesOther_next (caller : Caller n) (c : Fin (n + 1)) : caller.next.WakesOther c := by
  cases caller <;> trivial

theorem tagged_waking {w' : WakePc} (h : (Pc.waking caller w).Tagged tag) :
    (Pc.waking caller w').Tagged tag := by
  cases caller with
  | task | sleeper => exact h

theorem not_sends {q : Pc n} (hp : p = q) (hq : ∀ caller, q ≠ .waking caller (.sendIpi true))
    (d : Fin (n + 1)) : ¬ p.Sends d := by
  rintro ⟨caller, h, -⟩
  exact hq caller (hp.symm.trans h)

theorem tagged_cases (h : p.Tagged tag) : ∃ t : SleepTag, tag = t.word := by
  have hor : ∀ {x y : SleepTag}, tag = x.word ∨ tag = y.word → ∃ t : SleepTag, tag = t.word := by
    rintro x y (h | h)
    · exact ⟨x, h⟩
    · exact ⟨y, h⟩
  cases p with
  | outside => exact hor h
  | sleeping start timeout q =>
    cases q with
    | consume | unmark => exact ⟨_, h⟩
    | load | mark | checkTimeout | expire | checkAgain | halted | reset => exact hor h
  | waking caller w => cases caller <;> exact hor h
  | unreachable => exact h.elim

theorem sleepStep_cases {start : Nat} {timeout : Option Nat} {p : SleepPc}
    (hpc : σ.pc c = .sleeping start timeout p) (htag : (σ.pc c).Tagged (σ.tag c))
    (hstep : σ.sleepStep c start timeout p = some σ') : StepCase σ (.access c) σ' := by
  have hsends := not_sends hpc nofun
  rw [hpc] at htag
  cases p with
  | load =>
    cases hstep
    refine .move hsends ?_ trivial
    split
    · next h => exact h
    · exact htag
  | consume | unmark | expire | reset =>
    cases hstep
    exact .wake hsends
  | mark =>
    dsimp only [sleepStep] at hstep
    split at hstep
    · next h =>
      cases hstep
      exact .mark hpc h
    rename_i h
    -- the tag is `Continue`
    have hcont := htag.resolve_left h
    rw [if_pos (.inr hcont)] at hstep
    cases hstep
    exact .move hsends hcont trivial
  | checkTimeout =>
    dsimp only [sleepStep] at hstep
    split at hstep
    · cases hstep
      exact .move hsends htag trivial
    split at hstep
    · cases hstep
      exact .move hsends htag trivial
    · cases hstep
      exact .move hsends htag trivial
  | checkAgain =>
    dsimp only [sleepStep] at hstep
    split at hstep
    · cases hstep
      exact .wake hsends
    rename_i h
    rw [if_pos (htag.resolve_right h)] at hstep
    cases hstep
    exact .move hsends htag trivial
  | halted => cases hstep

theorem wakeUpStep_cases (hinv : ∀ c, (σ.pc c).Tagged (σ.tag c)) (hpc : σ.pc c = .waking caller w) :
    StepCase σ (.access c) (σ.wakeUpStep c caller w) := by
  have htag := hinv c
  rw [hpc] at htag
  cases w with
  | load =>
    have hsends := not_sends hpc nofun
    dsimp only [wakeUpStep]
    split
    · exact .move hsends (tagged_next htag) (wakesOther_next ..)
    rename_i hne
    have hne' : caller.cpuId ≠ c := fun h => hne h.symm
    split
    · exact .move hsends (tagged_waking htag) hne'
    rename_i hactive
    split
    · exact .move hsends (tagged_waking htag) hne'
    rename_i hwaiting
    split
    · exact .move hsends (tagged_waking htag) hne'
    rename_i hwaking
    -- the tag is one of the four
    have hcont : σ.tag caller.cpuId = continued.word := by
      obtain ⟨t, ht⟩ := tagged_cases (hinv caller.cpuId)
      cases t with
      | active => exact absurd ht hactive
      | waiting => exact absurd ht hwaiting
      | waking => exact absurd ht hwaking
      | continued => exact ht
    rw [if_pos hcont]
    exact .move hsends (tagged_next htag) (wakesOther_next ..)
  | exchangeActive =>
    dsimp only [wakeUpStep]
    split
    · next h => exact .skipSleep hpc h
    · exact .move (not_sends hpc nofun) (tagged_waking htag) trivial
  | exchangeWaiting =>
    dsimp only [wakeUpStep]
    split
    · next h => exact .set hpc h
    · exact .move (not_sends hpc nofun) (tagged_waking htag) trivial
  | sendIpi set =>
    refine .sendIpi hpc fun hset hsetter => ?_
    rw [hset, hsetter, beq_self_eq_true]
    rfl

theorem step_cases (hinv : ∀ c, (σ.pc c).Tagged (σ.tag c)) (hstep : σ.step a = some σ') :
    StepCase σ a σ' := by
  cases a with
  | sleep c | wakeUp c | interrupt c =>
    dsimp only [step] at hstep
    split at hstep
    · next hpc =>
      cases hstep
      have htag := hinv c
      rw [hpc] at htag
      exact .move (not_sends hpc nofun) htag trivial
    · cases hstep
  | access c =>
    dsimp only [step] at hstep
    split at hstep
    · next hpc => exact sleepStep_cases hpc (hinv c) hstep
    · next hpc =>
      cases hstep
      exact wakeUpStep_cases hinv hpc
    · cases hstep
    · cases hstep
  | advance nanos =>
    cases hstep
    exact .advance nanos

/-! ### The invariant -/

/-- A CPU that could be told to wake up was not asked to continue, and conversely. -/
theorem tagged_continued (h : p.Tagged active.word) : p.Tagged continued.word := by
  have hne : ∀ {x y : SleepTag}, x ≠ .active → y ≠ .active →
      ¬ (active.word = x.word ∨ active.word = y.word) := by
    rintro x y hx hy (h | h)
    · exact hx (word_injective h).symm
    · exact hy (word_injective h).symm
  cases p with
  | outside => exact .inr rfl
  | sleeping start timeout q =>
    cases q with
    | load | mark => exact .inr rfl
    | consume | unmark => exact rfl
    | checkTimeout | expire | checkAgain | halted | reset => exact absurd h (hne nofun nofun)
  | waking caller w =>
    cases caller with
    | task => exact .inr rfl
    | sleeper => exact absurd h (hne nofun nofun)
  | unreachable => exact h

theorem tagged_set (h : p.Tagged SleepTag.waiting.word) : p.Tagged waking.word := by
  have hne : ¬ (waiting.word = active.word ∨ waiting.word = continued.word) := by decide
  cases p with
  | outside => exact absurd h hne
  | sleeping start timeout q =>
    cases q with
    | load | mark => exact absurd h hne
    | consume | unmark => exact absurd (.inr h) hne
    | checkTimeout | expire | checkAgain | halted | reset => exact .inr rfl
  | waking caller w =>
    cases caller with
    | task => exact absurd h hne
    | sleeper => exact .inr rfl
  | unreachable => exact h

structure Inv (σ : State n) : Prop where
  tagged : ∀ c, (σ.pc c).Tagged (σ.tag c)
  other : ∀ c, (σ.pc c).WakesOther c
  notified : ∀ c, σ.notified c = true ↔ σ.tag c = continued.word ∨ σ.tag c = waking.word
  /-- The CPU that has set `Waking` has sent its interrupt, or is about to. -/
  setter : ∀ c, σ.tag c = waking.word →
    ∃ d, σ.setter c = some d ∧ (σ.ipiSent c = true ∨ (σ.pc d).Sends c)

theorem Inv.init : Inv (State.init : State n) where
  tagged _ := .inl rfl
  other _ := trivial
  notified _ := by
    refine iff_of_false nofun ?_
    change ¬ (active.word = _ ∨ active.word = _)
    decide
  setter _ h := by
    change active.word = waking.word at h
    cases word_injective h

namespace Inv

variable {c t : Fin (n + 1)} {p : Pc n} {tag : SleepTag}

/-- A CPU that sends nothing moves: the interrupts that are due stay due. -/
theorem setter_move (h : Inv σ) (hsends : ∀ d, ¬ (σ.pc c).Sends d) {x : Fin (n + 1)}
    (hx : σ.tag x = waking.word) :
    ∃ d, σ.setter x = some d ∧ (σ.ipiSent x = true ∨ (update σ.pc c p d).Sends x) := by
  obtain ⟨d, hd, hor⟩ := h.setter x hx
  refine ⟨d, hd, hor.imp_right fun hs => ?_⟩
  have hne : d ≠ c := by
    rintro rfl
    exact hsends x hs
  rw [update_of_ne hne]
  exact hs

theorem other_move (h : Inv σ) (hp : p.WakesOther c) : ∀ x, (update σ.pc c p x).WakesOther x :=
  (forall_update_iff σ.pc fun x q => q.WakesOther x).mpr ⟨hp, fun x _ => h.other x⟩

theorem tagged_setPc {tag : Fin (n + 1) → UInt32} (hp : p.Tagged (tag c))
    (hothers : ∀ x, x ≠ c → (σ.pc x).Tagged (tag x)) : ∀ x, (update σ.pc c p x).Tagged (tag x) :=
  (forall_update_iff σ.pc fun x q => q.Tagged (tag x)).mpr ⟨hp, hothers⟩

/-- The tags after one CPU has moved and the tag of one has changed. -/
theorem tagged_move (h : Inv σ) (hp : p.Tagged (update σ.tag t tag.word c))
    (ht : t ≠ c → (σ.pc t).Tagged tag.word) :
    ∀ x, (update σ.pc c p x).Tagged (update σ.tag t tag.word x) :=
  tagged_setPc hp ((forall_update_iff σ.tag fun x y => x ≠ c → (σ.pc x).Tagged y).mpr
    ⟨ht, fun x _ _ => h.tagged x⟩)

theorem notified_move {b : Bool} (h : Inv σ) (hb : b = true ↔ tag = .continued ∨ tag = .waking)
    (x : Fin (n + 1)) :
    update σ.notified t b x = true ↔
      update σ.tag t tag.word x = continued.word ∨
        update σ.tag t tag.word x = waking.word := by
  rcases eq_or_ne x t with rfl | hx
  · rw [update_self, update_self, word_injective.eq_iff, word_injective.eq_iff]
    exact hb
  · rw [update_of_ne hx, update_of_ne hx]
    exact h.notified x

/-- A CPU whose tag has changed to `tag` is told to wake up only if that is `Waking`. -/
theorem of_update_eq_waking {x : Fin (n + 1)}
    (hx : update σ.tag t tag.word x = waking.word) (htag : tag ≠ .waking) :
    x ≠ t ∧ σ.tag x = waking.word := by
  have hne : x ≠ t := by
    rintro rfl
    rw [update_self] at hx
    exact htag (word_injective hx)
  rw [update_of_ne hne] at hx
  exact ⟨hne, hx⟩

/-- An interrupt that is due stays due until it is sent. -/
theorem step {a : Action n} (h : Inv σ) (hstep : σ.step a = some σ') : Inv σ' := by
  cases step_cases h.tagged hstep with
  | advance => exact ⟨h.tagged, h.other, h.notified, h.setter⟩
  | move hsends htag hother =>
    exact ⟨tagged_setPc htag fun x _ => h.tagged x, h.other_move hother, h.notified,
      fun x hx => h.setter_move hsends hx⟩
  | @mark c start timeout hpc hactive =>
    have hnot : σ.notified c = false := by
      refine Bool.eq_false_iff.mpr fun hn => ?_
      have hor := (h.notified c).mp hn
      rw [hactive] at hor
      exact absurd hor (by decide)
    have hself : update σ.notified c false = σ.notified := by
      rw [← hnot, update_eq_self]
    refine ⟨h.tagged_move ?_ fun hne => absurd rfl hne, h.other_move trivial, fun x => ?_,
      fun x hx => ?_⟩
    · rw [update_self]
      exact .inl rfl
    · change σ.notified x = true ↔ update σ.tag c waiting.word x = _ ∨
        update σ.tag c waiting.word x = _
      rw [← hself]
      exact h.notified_move (by decide) x
    · exact h.setter_move (not_sends hpc nofun) (of_update_eq_waking hx nofun).2
  | @wake c hsends =>
    refine ⟨h.tagged_move ?_ fun hne => absurd rfl hne, h.other_move trivial,
      h.notified_move (by decide), fun x hx => ?_⟩
    · rw [update_self]
      exact .inl rfl
    obtain ⟨hne, hx⟩ := of_update_eq_waking hx nofun
    change ∃ d, update σ.setter c none x = some d ∧ _
    rw [update_of_ne hne]
    exact h.setter_move hsends hx
  | @skipSleep c caller hpc hactive =>
    have htag := h.tagged c
    have hne := h.other c
    rw [hpc] at htag hne
    refine ⟨h.tagged_move ?_ fun _ => ?_, h.other_move (wakesOther_next ..),
      h.notified_move (by decide), fun x hx => ?_⟩
    · rw [update_of_ne hne.symm]
      exact tagged_next htag
    · exact tagged_continued (hactive ▸ h.tagged caller.cpuId)
    · exact h.setter_move (not_sends hpc nofun) (of_update_eq_waking hx nofun).2
  | @set c caller hpc hwaiting =>
    have htag := h.tagged c
    have hne := h.other c
    rw [hpc] at htag hne
    refine ⟨h.tagged_move ?_ fun _ => ?_, h.other_move hne, h.notified_move (by decide),
      fun x hx => ?_⟩
    · rw [update_of_ne hne.symm]
      exact tagged_waking htag
    · exact tagged_set (hwaiting ▸ h.tagged caller.cpuId)
    change update σ.tag caller.cpuId waking.word x = _ at hx
    change ∃ d, update σ.setter caller.cpuId (some c) x = some d ∧
      (update σ.ipiSent caller.cpuId false x = true ∨ _)
    rcases eq_or_ne x caller.cpuId with rfl | hxt
    · refine ⟨c, update_self .., .inr ⟨caller, ?_, rfl⟩⟩
      exact update_self ..
    rw [update_of_ne hxt] at hx
    rw [update_of_ne hxt, update_of_ne hxt]
    exact h.setter_move (not_sends hpc nofun) hx
  | @sendIpi c caller set sent hpc hsent =>
    have htag := h.tagged c
    rw [hpc] at htag
    refine ⟨tagged_setPc (tagged_next htag) fun x _ => h.tagged x,
      h.other_move (wakesOther_next ..), h.notified, fun x hx => ?_⟩
    obtain ⟨d, hd, hor⟩ := h.setter x hx
    refine ⟨d, hd, ?_⟩
    change update σ.ipiSent caller.cpuId (σ.ipiSent caller.cpuId || sent) x = true ∨
      (update σ.pc c caller.next d).Sends x
    rcases hor with hold | hsends
    · left
      rcases eq_or_ne x caller.cpuId with rfl | hxt
      · rw [update_self, hold]
        rfl
      · rw [update_of_ne hxt]
        exact hold
    · rcases eq_or_ne d c with rfl | hdc
      · -- the interrupt that was due is the one that is sent
        obtain ⟨caller', hcaller, rfl⟩ := hsends
        obtain ⟨rfl, hset⟩ := Pc.waking.inj (hpc.symm.trans hcaller)
        left
        rw [update_self, hsent (WakePc.sendIpi.inj hset) hd, Bool.or_true]
      · right
        rw [update_of_ne hdc]
        exact hsends

end Inv

/-! ### The results -/

def Halted (σ : State n) (c : Fin (n + 1)) : Prop :=
  ∃ start timeout, σ.pc c = .sleeping start timeout .halted

def InSleep (σ : State n) (c : Fin (n + 1)) : Prop :=
  (∃ start timeout p, σ.pc c = .sleeping start timeout p) ∨
    ∃ start timeout w, σ.pc c = .waking (.sleeper start timeout) w

/-- The accesses that are left to a call of `sleep` that finds `Continue`. -/
def stepsLeft : Pc n → Nat
  | .sleeping _ _ .load | .sleeping _ _ .mark => 2
  | .sleeping _ _ .consume | .sleeping _ _ .unmark => 1
  | _ => 0

/-- Until CPU `c` returns from `sleep` it keeps its tag `Continue` and does not halt, and the call
returns after two accesses at most, with the tag `Active`. -/
def ConsumesContinue (σ : State n) (c : Fin (n + 1)) : Prop :=
  ∀ σ', Reaches step (fun _ _ => True) σ σ' → σ'.returns c = σ.returns c →
    σ'.tag c = continued.word ∧ ¬ σ'.Halted c ∧
      (σ'.InSleep c → ∃ σ'', σ'.step (.access c) = some σ'' ∧
        (σ''.returns c = σ.returns c + 1 ∧ σ''.tag c = active.word ∨
          σ''.InSleep c ∧ stepsLeft (σ''.pc c) < stepsLeft (σ'.pc c)))

structure Safe (σ : State n) : Prop where
  reachable : ∀ c arm, σ.pc c ≠ .unreachable arm
  /-- A CPU that was told to wake up is not halted as `Waiting`. -/
  awake : ∀ c, σ.notified c = true → ¬ (σ.Halted c ∧ σ.tag c = waiting.word)
  /-- The CPU that has set `Waking` sends its interrupt, or has sent it. -/
  interrupted : ∀ c, σ.Halted c → σ.tag c = waking.word →
    ∃ d, σ.setter c = some d ∧ (σ.ipiSent c = true ∨ (σ.pc d).Sends c)
  continued : ∀ c, σ.tag c = continued.word → σ.ConsumesContinue c

/-- **Only a return from `sleep` takes `Continue` away.** -/
theorem continued_step (h : Inv σ) (hcont : σ.tag c = continued.word) (hstep : σ.step a = some σ') :
    σ'.tag c = continued.word ∧ σ'.returns c = σ.returns c ∨ σ'.returns c = σ.returns c + 1 := by
  have hne : ∀ {d : Fin (n + 1)} {tag : SleepTag}, σ.tag d = tag.word → tag ≠ .continued →
      c ≠ d := by
    rintro d tag hd htag rfl
    exact htag (word_injective (hd.symm.trans hcont))
  cases step_cases h.tagged hstep with
  | advance | move | sendIpi => exact .inl ⟨hcont, rfl⟩
  | mark _ hactive | skipSleep _ hactive | set _ hactive =>
    exact .inl ⟨(update_of_ne (hne hactive nofun) ..).trans hcont, rfl⟩
  | @wake d hsends =>
    rcases eq_or_ne c d with rfl | hcd
    · exact .inr (update_self ..)
    · exact .inl ⟨(update_of_ne hcd ..).trans hcont, update_of_ne hcd ..⟩

theorem returns_step (h : Inv σ) (hstep : σ.step a = some σ') (c : Fin (n + 1)) :
    σ.returns c ≤ σ'.returns c := by
  cases step_cases h.tagged hstep with
  | advance | move | sendIpi | mark | skipSleep | set => exact le_rfl
  | wake =>
    exact (forall_update_iff σ.returns fun c k => σ.returns c ≤ k).mpr
      ⟨Nat.le_succ _, fun _ _ => le_rfl⟩ c

/-- A call of `sleep` that finds `Continue` gets nearer to its end, and does not halt. -/
theorem access_continued (h : Inv σ) (hcont : σ.tag c = continued.word) : ¬ σ.Halted c ∧
    (σ.InSleep c → ∃ σ', σ.step (.access c) = some σ' ∧
      (σ'.returns c = σ.returns c + 1 ∧ σ'.tag c = active.word ∨
        σ'.InSleep c ∧ stepsLeft (σ'.pc c) < stepsLeft (σ.pc c))) := by
  have htag := h.tagged c
  rw [hcont] at htag
  -- past the mark the tag is another one
  have hpast : ¬ (continued.word = waiting.word ∨ continued.word = waking.word) := by decide
  constructor
  · rintro ⟨start, timeout, hpc⟩
    rw [hpc] at htag
    exact hpast htag
  rintro (⟨start, timeout, p, hpc⟩ | ⟨start, timeout, w, hpc⟩)
  · have hmove : ∀ q : SleepPc, ((σ.setPc c (.sleeping start timeout q)).pc c) =
        .sleeping start timeout q := fun q => update_self ..
    have hstep : σ.step (.access c) = σ.sleepStep c start timeout p := by
      dsimp only [step]
      rw [hpc]
    rw [hpc] at htag
    rw [hstep, hpc]
    cases p with
    | load =>
      refine ⟨_, rfl, .inr ⟨.inl ⟨start, timeout, _, hmove _⟩, ?_⟩⟩
      rw [hmove, if_pos hcont]
      exact Nat.one_lt_two
    | mark =>
      refine ⟨_, ?_, .inr ⟨.inl ⟨start, timeout, .unmark, hmove _⟩, ?_⟩⟩
      · dsimp only [sleepStep]
        rw [if_neg (by rw [hcont]; decide), if_pos (.inr hcont)]
      · rw [hmove]
        exact Nat.one_lt_two
    | consume | unmark =>
      exact ⟨_, rfl, .inl ⟨update_self .., update_self ..⟩⟩
    | checkTimeout | expire | checkAgain | halted | reset => exact absurd htag hpast
  · rw [hpc] at htag
    exact absurd htag hpast

/-- **The handshake.** For every number of CPUs and in every state that their accesses reach from
the one after `init`: no `unreachable!()` was reached; a CPU whose tag `wake_up` has changed since
it last returned from `sleep` is not halted as `Waiting`; if a CPU is halted as `Waking` then the
one that has set the tag has sent the interrupt or is about to; and `Continue` is consumed by the
next call of `sleep`, which returns without a halt. -/
theorem sleep_protocol (hreach : Reaches step (fun _ _ => True) State.init σ) : σ.Safe := by
  have hinv : Inv σ := hreach.invariant .init fun _ _ _ h _ hs => h.step hs
  refine ⟨fun c arm hpc => ?_, fun c hn hhalted => ?_, fun c _ hwaking => hinv.setter c hwaking,
    fun c hcont σ' hreach' => ?_⟩
  · have htag := hinv.tagged c
    rw [hpc] at htag
    exact htag
  · have hor := (hinv.notified c).mp hn
    rw [hhalted.2] at hor
    exact absurd hor (by decide)
  -- along the run, the tag stays until the CPU returns
  have hkeep : Inv σ' ∧ σ.returns c ≤ σ'.returns c ∧
      (σ'.returns c = σ.returns c → σ'.tag c = continued.word) := by
    refine hreach'.invariant (I := fun σ' => Inv σ' ∧ σ.returns c ≤ σ'.returns c ∧
      (σ'.returns c = σ.returns c → σ'.tag c = continued.word))
      ⟨hinv, le_rfl, fun _ => hcont⟩ ?_
    rintro σ₁ a σ₂ ⟨hinv₁, hle, htag⟩ - hstep
    have hle₂ := returns_step hinv₁ hstep c
    refine ⟨hinv₁.step hstep, hle.trans hle₂, fun hsame => ?_⟩
    have hsame₁ : σ₁.returns c = σ.returns c := le_antisymm (hsame ▸ hle₂) hle
    rcases continued_step hinv₁ (htag hsame₁) hstep with h | h
    · exact h.1
    · omega
  intro hsame
  obtain ⟨hhalted, hnext⟩ := access_continued hkeep.1 (hkeep.2.2 hsame)
  rw [← hsame]
  exact ⟨hkeep.2.2 hsame, hhalted, hnext⟩

/-- CPU 1 has told CPU 0 that it sleeps, and CPU 0 wakes it up again. -/
def haltAndWake : List (Action 1) :=
  [.sleep 1 none, .access 1, .access 1, .access 1, .access 1, .access 1, .access 1, .wakeUp 0 1,
    .access 0, .access 0, .access 0]

theorem sleep_protocol_haltAndWake : ∃ σ : State 1,
    Reaches step (fun _ _ => True) State.init σ ∧ σ.Halted 1 ∧
      σ.tag 1 = waking.word ∧ σ.tag 0 = continued.word ∧
      σ.ipiSent 1 = true ∧ σ.Safe := by
  have hreach : Reaches step (fun _ _ => True) (State.init : State 1) _ :=
    Reaches.of_run
      (show run (guarded step fun _ _ => True) State.init haltAndWake = some _ from rfl)
  exact ⟨_, hreach, ⟨_, _, rfl⟩, rfl, rfl, rfl, sleep_protocol hreach⟩

/-! ### The steps of the kernel -/

/-- Where a CPU is in this model before a round of the kernel's `wakeUp`, with the tag that it has
loaded. -/
def wakePc (caller : Caller n) : Option SleepTag → Pc n
  | none => .waking caller .load
  | some .active => .waking caller .exchangeActive
  | some .waiting => .waking caller .exchangeWaiting
  | some .waking => .waking caller (.sendIpi false)
  | some .continued => caller.next

/-- And after it. -/
def afterWakeUp (caller : Caller n) : Shared.WakeUp → Pc n
  | .again seen => wakePc caller seen
  | .returned _ => caller.next

/-- Where a CPU is before a step of the kernel's `sleepStep`. -/
def kernelPc (start : Nat) (timeout : Option Nat) : Awkernel.SleepPc → Pc n
  | .checkContinue => .sleeping start timeout .load
  | .markWaiting => .sleeping start timeout .mark
  | .checkTimeout => .sleeping start timeout .checkTimeout
  | .notify seen => wakePc (.sleeper start timeout) seen
  | .checkAgain => .sleeping start timeout .checkAgain
  | .halted => .sleeping start timeout .halted
  | .reset => .sleeping start timeout .reset

/-- The branch of `sleep` that a timeout takes. -/
def timedOut (now start : Nat) : Option Nat → Bool
  | none => false
  | some t => ¬ (now - start < t ∧ ¬ (t - (now - start)) / 1000 < 1000)

variable {B : Build} {s : Shared B n}

/-- The kernel has the tags of this model, and CPU `c` is at a step of `sleep` with the given
timeout. Only CPU 0 has one, and `wake_up(0)` loads nothing on CPU 0. -/
structure Matches (σ : State (n + 1)) (s : Shared B n) (c : Cpu n) (start : Nat)
    (timeout : Option Nat) (p : Awkernel.SleepPc) : Prop where
  tag : ∀ d, σ.tag d = (s.cpuSleepTag d).word
  pc : σ.pc c = kernelPc start timeout p
  worker : c ≠ 0 → timeout = none
  loaded : c = 0 → ∀ tag, p ≠ .notify (some tag)

/-- What a step of the kernel ends with, in this model. -/
def Ends (σ : State (n + 1)) (c : Cpu n) (start : Nat) (timeout : Option Nat) :
    SleepResult B n → Prop
  | .next s p => σ.Matches s c start timeout p
  | .returned s => (∀ d, σ.tag d = (s.cpuSleepTag d).word) ∧ σ.pc c = .outside
  | .panicked s => (∀ d, σ.tag d = (s.cpuSleepTag d).word) ∧ ∃ arm, σ.pc c = .unreachable arm

section

variable {σ : State (n + 1)} {c d : Cpu n} {start : Nat} {timeout : Option Nat}

/-- The accesses of CPU `c`, and the interrupts that it takes. -/
def Own (c : Cpu n) (_ : State (n + 1)) (a : Action (n + 1)) : Prop :=
  a = .access c ∨ a = .interrupt c

/-- The tags agree after one of them is set in both models. -/
theorem tag_update (h : ∀ d, σ.tag d = (s.cpuSleepTag d).word) (c : Cpu n) (t : SleepTag)
    (d : Cpu n) : update σ.tag c t.word d = (update s.cpuSleepTag c t d).word := by
  rcases eq_or_ne d c with rfl | hne
  · rw [update_self, update_self]
  · rw [update_of_ne hne, update_of_ne hne, h]

/-- An access of `sleep`. -/
theorem own_sleep {q : SleepPc} {σ' : State (n + 1)} (hpc : σ.pc c = .sleeping start timeout q)
    (hstep : σ.sleepStep c start timeout q = some σ') : Reaches step (Own c) σ σ' := by
  refine .tail .refl (.inl rfl) ?_
  dsimp only [step]
  rw [hpc]
  exact hstep

/-- An access of `wake_up`. -/
theorem own_wakeUp {caller : Caller (n + 1)} {w : WakePc} (hpc : σ.pc c = .waking caller w) :
    Reaches step (Own c) σ (σ.wakeUpStep c caller w) := by
  refine .tail .refl (.inl rfl) ?_
  dsimp only [step]
  rw [hpc]

/-- The CPU has returned from `sleep`. -/
theorem ends_wake (htag : ∀ d, σ.tag d = (s.cpuSleepTag d).word) :
    (σ.wake c).Ends c start timeout (.returned (s.setTag c .active)) :=
  ⟨tag_update htag c .active, update_self ..⟩

/-- The CPU is before its next step. -/
theorem ends_setPc {p : Awkernel.SleepPc} (htag : ∀ d, σ.tag d = (s.cpuSleepTag d).word)
    (hworker : c ≠ 0 → timeout = none) (hloaded : c = 0 → ∀ tag, p ≠ .notify (some tag)) :
    (σ.setPc c (kernelPc start timeout p)).Ends c start timeout (.next s p) :=
  ⟨htag, update_self .., hworker, hloaded⟩

/-- **The kernel's `wakeUp` is a run of this model**, for a task or in `sleep`. -/
theorem wakeUp_simulated {caller : Caller (n + 1)} {seen : Option SleepTag}
    (htag : ∀ d, σ.tag d = (s.cpuSleepTag d).word) (hc : c ≠ caller.cpuId)
    (hpc : σ.pc c = wakePc caller seen) : ∃ σ', Reaches step (Own c) σ σ' ∧
      (∀ d, σ'.tag d = ((s.wakeUp caller.cpuId seen).1.cpuSleepTag d).word) ∧
      σ'.pc c = afterWakeUp caller (s.wakeUp caller.cpuId seen).2 := by
  have hword : ∀ {x y : SleepTag}, s.cpuSleepTag caller.cpuId = x →
      (σ.tag caller.cpuId = y.word ↔ x = y) := by
    intro x y hx
    rw [htag, hx, word_injective.eq_iff]
  match seen with
  | none =>
    refine ⟨_, own_wakeUp hpc, ?_⟩
    dsimp only [wakeUpStep, Shared.wakeUp]
    rw [if_neg hc]
    cases hx : s.cpuSleepTag caller.cpuId <;>
      simp only [hword hx, reduceCtorEq, if_true, if_false] <;> exact ⟨htag, update_self ..⟩
  | some .active =>
    refine ⟨_, own_wakeUp hpc, ?_⟩
    dsimp only [wakeUpStep, Shared.wakeUp]
    by_cases hx : s.cpuSleepTag caller.cpuId = .active
    · rw [if_pos hx, if_pos ((hword hx).mpr rfl)]
      exact ⟨tag_update htag _ .continued, update_self ..⟩
    · rw [if_neg hx, if_neg fun h => hx ((hword rfl).mp h)]
      exact ⟨htag, update_self ..⟩
  | some .waiting =>
    have hset := own_wakeUp hpc
    dsimp only [wakeUpStep, Shared.wakeUp] at hset ⊢
    by_cases hx : s.cpuSleepTag caller.cpuId = .waiting
    · rw [if_pos hx]
      rw [if_pos ((hword hx).mpr rfl)] at hset
      -- the interrupt is sent in an access of its own
      refine ⟨_, hset.trans (own_wakeUp (update_self ..)), ?_⟩
      exact ⟨tag_update htag _ .waking, update_self ..⟩
    · rw [if_neg hx]
      rw [if_neg fun h => hx ((hword rfl).mp h)] at hset
      exact ⟨_, hset, htag, update_self ..⟩
  | some .waking => exact ⟨_, own_wakeUp hpc, htag, update_self ..⟩
  | some .continued => exact ⟨σ, .refl, htag, hpc⟩

/-- **The kernel's `sleepStep` is a run of this model**: the CPU takes a few of its own accesses,
and then has the same tags and is at the same point. -/
theorem sleepStep_simulated {p : Awkernel.SleepPc} (h : σ.Matches s c start timeout p) :
    ∃ σ', Reaches step (Own c) σ σ' ∧
      σ'.Ends c start timeout (Awkernel.sleepStep s c (timedOut σ.now start timeout) p) := by
  obtain ⟨htag, hpc, hworker, hloaded⟩ := h
  have hword : ∀ {x y : SleepTag}, s.cpuSleepTag c = x → (σ.tag c = y.word ↔ x = y) := by
    intro x y hx
    rw [htag, hx, word_injective.eq_iff]
  cases p with
  | checkContinue =>
    have hload := own_sleep hpc rfl
    dsimp only [Awkernel.sleepStep]
    split
    · next hx =>
      rw [if_pos ((hword hx).mpr rfl)] at hload
      exact ⟨_, hload.trans (own_sleep (update_self ..) rfl), ends_wake htag⟩
    · next hx =>
      rw [if_neg fun h => hx ((hword rfl).mp h)] at hload
      exact ⟨_, hload, ends_setPc (p := .markWaiting) htag hworker fun _ _ => nofun⟩
  | markWaiting =>
    dsimp only [Awkernel.sleepStep]
    cases hx : s.cpuSleepTag c with
    | active =>
      have hmark : Reaches step (Own c) σ ((σ.setTag c .waiting).setPc c
          (.sleeping start timeout .checkTimeout)) :=
        own_sleep hpc (if_pos ((hword hx).mpr rfl))
      dsimp only
      split
      · exact ⟨_, hmark, ends_setPc (p := .checkTimeout) (tag_update htag c .waiting) hworker
          fun _ _ => nofun⟩
      · next hc =>
        -- a CPU without a timeout does not check it
        obtain rfl := hworker hc
        exact ⟨_, hmark.trans (own_sleep (update_self ..) rfl), ends_setPc (p := .notify none)
          (tag_update htag c .waiting) hworker fun _ _ => nofun⟩
    | waking | continued =>
      have hmark : Reaches step (Own c) σ (σ.setPc c (.sleeping start timeout .unmark)) := by
        refine own_sleep hpc ?_
        dsimp only [sleepStep]
        simp only [hword hx, reduceCtorEq, if_false, or_true, true_or, if_true]
      exact ⟨_, hmark.trans (own_sleep (update_self ..) rfl), ends_wake htag⟩
    | waiting =>
      refine ⟨σ.setPc c (.unreachable .mark), own_sleep hpc ?_, htag, _, update_self ..⟩
      dsimp only [sleepStep]
      simp only [hword hx, reduceCtorEq, if_false, or_self]
  | checkTimeout =>
    cases timeout with
    | none =>
      exact ⟨_, own_sleep hpc rfl, ends_setPc (p := .notify none) htag hworker fun _ _ => nofun⟩
    | some t =>
      dsimp only [Awkernel.sleepStep, timedOut]
      split
      · next hout =>
        have hcheck : Reaches step (Own c) σ (σ.setPc c (.sleeping start (some t) .expire)) :=
          own_sleep hpc (if_neg (of_decide_eq_true hout))
        exact ⟨_, hcheck.trans (own_sleep (update_self ..) rfl), ends_wake htag⟩
      · next hout =>
        rw [decide_eq_true_iff, not_not] at hout
        exact ⟨_, own_sleep hpc (if_pos hout),
          ends_setPc (p := .notify none) htag hworker fun _ _ => nofun⟩
  | notify seen =>
    rcases eq_or_ne c 0 with rfl | hc
    · -- `wake_up` for the CPU itself returns at once
      obtain rfl : seen = none := by
        cases seen with
        | none => rfl
        | some tag => exact absurd rfl (hloaded rfl tag)
      exact ⟨_, own_wakeUp hpc, ends_setPc (p := .checkAgain) htag hworker fun _ _ => nofun⟩
    · obtain ⟨σ', hrun, htag', hpc'⟩ := wakeUp_simulated htag hc hpc
      refine ⟨σ', hrun, ?_⟩
      dsimp only [Awkernel.sleepStep]
      rw [if_neg hc]
      change ∀ d, σ'.tag d = ((s.wakeUp 0 seen).1.cpuSleepTag d).word at htag'
      change σ'.pc c = afterWakeUp _ (s.wakeUp 0 seen).2 at hpc'
      generalize s.wakeUp 0 seen = r at htag' hpc' ⊢
      obtain ⟨s', result⟩ := r
      cases result with
      | again | returned => exact ⟨htag', hpc', hworker, fun h => absurd h hc⟩
  | checkAgain =>
    dsimp only [Awkernel.sleepStep]
    cases hx : s.cpuSleepTag c with
    | waking => exact ⟨_, own_sleep hpc (if_pos ((hword hx).mpr rfl)), ends_wake htag⟩
    | waiting =>
      refine ⟨σ.setPc c (.sleeping start timeout .halted), own_sleep hpc ?_,
        ends_setPc (p := .halted) htag hworker fun _ _ => nofun⟩
      dsimp only [sleepStep]
      simp only [hword hx, reduceCtorEq, if_false, if_true]
    | active | continued =>
      refine ⟨σ.setPc c (.unreachable .checkAgain), own_sleep hpc ?_, htag, _, update_self ..⟩
      dsimp only [sleepStep]
      simp only [hword hx, reduceCtorEq, if_false]
  | halted =>
    refine ⟨σ.setPc c (.sleeping start timeout .reset), .tail .refl (.inr rfl) ?_,
      ends_setPc (p := .reset) htag hworker fun _ _ => nofun⟩
    dsimp only [step]
    rw [hpc]
    rfl
  | reset => exact ⟨_, own_sleep hpc rfl, ends_wake htag⟩

end

end State

end SleepProtocol

end Awkernel
