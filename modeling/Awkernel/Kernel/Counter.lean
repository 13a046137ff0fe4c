import Awkernel.Kernel.Panicking
import Awkernel.Kernel.Placement

/-!
# The counter of queued tasks

`NUM_TASK_IN_QUEUE` is incremented in `Task::wake` and decremented in `get_next_task`. Between
the two a task may be preempted and put back, or taken by the round-robin tick, and then it passes
one of them and not the other.

`Shared.share` is what the place of a task stands for in the counter, and the counter is balanced
if it is the sum of the shares over the ledger (`Sys.Balanced`). Every flow keeps the balance apart
from two:

* `do_preemption` replaces the running task by the pending one and counts neither. The share of
  the one goes to the other, which is right if both are clustered or neither is.
* The round-robin tick puts a task into a pending heap that `get_next_task` has counted out. When
  it is dispatched from there, the task that it replaces goes back to a run queue and is not
  counted.

In every run without these two, and without a panic that loses a counted task, the counter does not
underflow, and when nothing is in progress it is the number of tasks that wait (`counter_exact`).
Either of the two makes it wrap around (`counter_underflows`).
-/

namespace Awkernel

open Ledger TransitionSystem Shared WakeCall CpuPc Option Multiset Function

variable {B : Build} {n m : Nat}

/-! ### The shares -/

/-- A task that is not clustered is counted while it waits. -/
def Task.share (t : Task) : ℕ := if t.cpuSet.isNone then 1 else 0

/-- What the entry of a task stands for in `NUM_TASK_IN_QUEUE`. -/
def Shared.share (s : Shared B n) : Place n → Handle → ℕ
  | .queue S, _ => if S = .clusteredEDF then 0 else 1
  | .hand (.waking S _), t => if S = .panicked then 1 else (s.task t).share
  | .pending _, t | .preempted _, t | .hand .moving, t | .hand .yielding, t => (s.task t).share
  | .hand .popped, _ => 1
  | _, _ => 0

/-- The counter is what the places of the tasks stand for. -/
def Sys.Balanced (σ : Sys B n m) : Prop :=
  σ.shared.numTaskInQueue = total σ.shared.share σ.entries

/-- What the place of a task says about it. A task is woken by the scheduler it was spawned for, or
by that of panicked tasks, and no task that has panicked is in a pending heap. -/
def Task.WaitsAt (t : Task) : Place n → Prop
  | .queue S | .hand (.waking S _) => S = t.scheduler ∨ S = .panicked ∧ t.info.panicked = true
  | .hand (.claimed panicked) => panicked = true → t.info.panicked = true
  | .pending _ => t.info.panicked = false
  | _ => True

/-! ### The flows -/

section Flow

variable {s s' : Shared B n} {p q : Place n} {t : Handle}

theorem Task.share_eq_one {t : Task} (hnone : ¬ t.cpuSet.isSome) : t.share = 1 :=
  if_pos (isNone_iff_eq_none.mpr (not_isSome_iff_eq_none.mp hnone))

theorem Task.share_eq_zero {t : Task} (hsome : t.cpuSet.isSome) : t.share = 0 := by
  refine if_neg fun hnone => ?_
  rw [isNone_iff_eq_none.mp hnone] at hsome
  cases hsome

/-- The scheduler that a task was spawned for counts it like its place does. -/
theorem Shared.share_waking (hclustered : (s.task t).scheduler = .clusteredEDF ↔
    (s.task t).cpuSet.isSome) (notifies : Bool) :
    s.share (.hand (.waking (s.task t).scheduler notifies)) t = (s.task t).share := by
  change (if (s.task t).scheduler = .panicked then 1 else (s.task t).share) = _
  split
  · next hpanicked =>
    refine (Task.share_eq_one fun hsome => ?_).symm
    cases hpanicked.symm.trans (hclustered.mpr hsome)
  · rfl

theorem Shared.share_le_one (s : Shared B n) (p : Place n) (t : Handle) : s.share p t ≤ 1 := by
  have hshare : (s.task t).share ≤ 1 := by
    unfold Task.share
    split
    · exact le_rfl
    · exact Nat.zero_le 1
  cases p with
  | queue S =>
    change (if S = .clusteredEDF then 0 else 1) ≤ 1
    split
    · exact Nat.zero_le 1
    · exact le_rfl
  | hand h =>
    cases h with
    | waking S notifies =>
      change (if S = .panicked then 1 else (s.task t).share) ≤ 1
      split
      · exact le_rfl
      · exact hshare
    | moving | yielding => exact hshare
    | popped => exact le_rfl
    | claimed | taken => exact Nat.zero_le 1
  | pending | preempted => exact hshare
  | next | executing | removing => exact Nat.zero_le 1

/-- A task that goes from one place to another keeps its share, apart from one that the tick puts
into a pending heap. -/
theorem Move.share_eq (h : Move s p q t)
    (hclustered : (s.task t).scheduler = .clusteredEDF ↔ (s.task t).cpuSet.isSome)
    (hp : (s.task t).WaitsAt p) (htick : p = .hand .taken → (s.task t).cpuSet.isSome) :
    s.share q t = s.share p t := by
  cases h with
  | enqueue S notifies =>
    rcases hp with rfl | ⟨rfl, -⟩
    · rw [share_waking hclustered]
      change (if (s.task t).scheduler = .clusteredEDF then 0 else 1) = _
      split
      · next heq => exact (Task.share_eq_zero (hclustered.mp heq)).symm
      · next hne => exact (Task.share_eq_one fun hsome => hne (hclustered.mpr hsome)).symm
    · rfl
  | request hS | pop hS => exact (if_neg hS).symm
  | rewake hp =>
    rw [share_waking hclustered]
    rcases hp with ⟨c, rfl⟩ | ⟨c, rfl⟩ | rfl <;> rfl
  | popClustered hp => rcases hp with ⟨c, rfl⟩ | rfl <;> rfl
  | tick => exact Task.share_eq_zero (htick rfl)
  | dispatch | yield | finish => rfl

/-- **A flow keeps the balance**, if a switch is between tasks that are counted alike and the tick
moves no task that is counted. The rest of the ledger is `R`. -/
theorem Flow.balanced {L L' : Ledger (Place n) Handle} (h : Flow s s' L L')
    (R : Ledger (Place n) Handle)
    (hclustered : ∀ p t, (p, t) ∈ L →
      ((s.task t).scheduler = .clusteredEDF ↔ (s.task t).cpuSet.isSome))
    (hplace : ∀ p t, (p, t) ∈ L → (s.task t).WaitsAt p)
    (htick : ∀ c t, (.hand .taken, t) ∈ L → (.pending c, t) ∈ L' → (s.task t).cpuSet.isSome)
    (hswitch : ∀ c next current, (.hand .moving, next) ∈ L → (.executing c, current) ∈ L →
      (.hand .yielding, current) ∈ L' → (s.task next).share = (s.task current).share)
    (hnum : s.numTaskInQueue = total s.share (L + R)) (hlt : total s.share (L' + R) < 2 ^ 32) :
    s'.numTaskInQueue = total s.share (L' + R) := by
  cases h with
  | stay _ _ hkept => rw [hkept, hnum]
  | @move p q t R' hmove _ hkept =>
    have hmem : (p, t) ∈ (p, t) ::ₘ R' := mem_cons_self ..
    have hshare := hmove.share_eq (hclustered p t hmem) (hplace p t hmem) fun hp => by
      subst hp
      cases hmove with
      | tick c => exact htick c t hmem (mem_cons_self ..)
      | rewake hp => exact absurd hp (by simp)
    rw [hkept, hnum, cons_add, cons_add, total_cons, total_cons, hshare]
  | moveHeap R' c heap _ hkept =>
    rw [hkept, hnum]
    simp only [total_add, total_placed]
    rfl
  | @switch R' c q next current hq _ hkept =>
    have hshare := hswitch c next current (mem_cons_self ..) (mem_cons_of_mem (mem_cons_self ..))
      (mem_cons_of_mem (mem_cons_self ..))
    have hdispatched : s.share q next = 0 := by rcases hq with rfl | rfl <;> rfl
    have hmoving : s.share (.hand .moving) next = (s.task next).share := rfl
    have hyielding : s.share (.hand .yielding) current = (s.task current).share := rfl
    have hexecuting : s.share (.executing c) current = 0 := rfl
    rw [hkept, hnum]
    simp only [cons_add, total_cons]
    omega
  | claim _ t _ _ hkept =>
    rw [hkept, hnum, cons_add, total_cons]
    exact (Nat.zero_add _).symm
  | count R' t panicked _ hcount =>
    have hclaimed : s.share (.hand (.claimed panicked)) t = 0 := rfl
    rw [cons_add, total_cons, hclaimed, Nat.zero_add] at hnum
    rw [cons_add, total_cons] at hlt ⊢
    -- the share of the place that follows is what the call has added
    have hshare : s.share (.hand (.waking (if panicked then .panicked else (s.task t).scheduler)
        true)) t = if panicked || (s.task t).cpuSet.isNone then 1 else 0 := by
      cases panicked with
      | true => rfl
      | false => exact share_waking (hclustered _ t (mem_cons_self ..)) true
    rw [hshare] at hlt ⊢
    rw [hcount, hnum]
    split at hlt
    · next hcounted => rw [if_pos hcounted, if_pos hcounted, Nat.mod_eq_of_lt (by omega), add_comm]
    · next hcounted => rw [if_neg hcounted, if_neg hcounted, Nat.zero_add]
  | decrement R' t hp _ hcount =>
    have hpopped : s.share (.hand .popped) t = 1 := rfl
    have hdispatched : ∀ {q : Place n}, ((∃ c, q = .executing c) ∨ q = .hand .taken) →
        s.share q t = 0 := by
      rintro q (⟨c, rfl⟩ | rfl) <;> rfl
    rw [cons_add, total_cons, hpopped] at hnum
    rw [cons_add, total_cons, hdispatched hp] at hlt ⊢
    omega
  | release _ t hp _ hkept =>
    have hended : ∀ {q : Place n}, ((∃ c, q = .executing c) ∨ ∃ c, q = .removing c) →
        s.share q t = 0 := by
      rintro q (⟨c, rfl⟩ | ⟨c, rfl⟩) <;> rfl
    rw [hkept, hnum, cons_add, total_cons, hended hp, Nat.zero_add]

/-- The share of an entry depends on the task only through its CPU set. -/
theorem Shared.share_congr (hset : (s'.task t).cpuSet = (s.task t).cpuSet) (p : Place n) :
    s'.share p t = s.share p t := by
  have hshare : (s'.task t).share = (s.task t).share := by rw [Task.share, hset, Task.share]
  cases p with
  | hand h =>
    cases h with
    | waking S notifies =>
      change (if S = .panicked then 1 else (s'.task t).share) = _
      rw [hshare]
      rfl
    | moving | yielding => exact hshare
    | _ => rfl
  | pending | preempted => exact hshare
  | _ => rfl

end Flow

variable {σ σ' : Sys B n m} {c : Cpu n} {t : Handle}

theorem Inv.card_entries_lt (h : Inv σ) : σ.entries.card < 2 ^ 32 := by
  have hcard := card_le_card_names (L := σ.entries) (fun t => (σ.shared.task t).id)
    (Finset.Ioo 0 (2 ^ 32)) (fun t => ?_) (fun p t hmem => ?_) fun p t p' t' hmem hmem' hid => ?_
  · rw [Nat.card_Ioo] at hcard
    omega
  · rw [h.ledger t]
    exact σ.shared.due_le_one t
  · obtain ⟨hne, hlt⟩ := h.shared.id t (h.lt_numHandles hmem)
    exact Finset.mem_Ioo.mpr ⟨Nat.pos_of_ne_zero hne, hlt⟩
  · have hreg := h.registry_of_mem hmem
    rw [hid, h.registry_of_mem hmem'] at hreg
    exact (some.inj hreg).symm

/-! ### Who holds a task -/

variable {w : WakeCall n} {p : Place n} {h : Hand} {pc : CpuPc n} {a : Action n m} {s : Shared B n}
  {S : Sched}

theorem WakeCall.mem_entries_iff :
    (p, t) ∈ w.entries ↔ ∃ h, w.hand = some h ∧ p = .hand h ∧ t = w.task := by
  unfold entries
  cases w.hand with
  | none | some => simp

theorem WakeCall.hand_cases (hw : w.hand = some h) :
    (∃ panicked, h = .claimed panicked) ∨ h = .waking w.sched w.notifies := by
  unfold hand at hw
  split at hw
  case h_6 => exact .inl ⟨_, (some.inj hw).symm⟩
  case h_7 => exact .inr (some.inj hw).symm
  all_goals cases hw

theorem WakeCall.not_hand_mem (hclaimed : ∀ b, h ≠ .claimed b)
    (hwaking : ∀ S notifies, h ≠ .waking S notifies) : (.hand h, t) ∉ w.entries := by
  intro hmem
  obtain ⟨h', hw, hp, -⟩ := mem_entries_iff.mp hmem
  cases hp
  rcases hand_cases hw with ⟨b, hb⟩ | hS
  · exact hclaimed b hb
  · exact hwaking _ _ hS

/-- In which control states a CPU has a task in its hands. -/
inductive HandCase (pc : CpuPc n) (h : Hand) (t : Handle) : Prop
  | call {w : WakeCall n} (hw : pc.call = some w) (hmem : (.hand h, t) ∈ w.entries)
  | preempting {i : Interrupted} {p : PreemptPc n} (hh : h = .moving ∨ h = .yielding)
      (hpc : pc = .preempting i p)
  | popped {g : GetNextPc} (hh : h = .popped) (hpc : pc = .getNext g ∨
      ∃ target current todo, pc = .ticking target current todo (.getNext g))
  | taken {target : Cpu n} {current : Nat} {todo : List (Cpu n)} {p : TickPc} (hh : h = .taken)
      (hpc : pc = .ticking target current todo p)
      (hp : p = .getNext (.unlock (some t)) ∨ p = .pushPending t)

/-- The hands of a CPU, by its control state. -/
theorem CpuPc.handCase (hmem : (.hand h, t) ∈ pc.entries c) : HandCase pc h t := by
  have hexec : ∀ {x}, (Place.hand h, t) ∈ entryOf (.executing c) x → HandCase pc h t :=
    fun hx => absurd (entryOf_mem hx) nofun
  cases pc with
  | draining | waking | timerWaking => exact .call rfl hmem
  | reScheduling => exact (mem_add.mp hmem).elim (.call rfl) hexec
  | getNext g =>
    rcases GetNextPc.mem_entries hmem with hp | hp
    · exact .popped (Place.hand.inj hp) (.inl rfl)
    · cases hp
  | ticking target current todo p =>
    cases p with
    | getNext g =>
      rcases GetNextPc.mem_entries hmem with hp | hp
      · exact .popped (Place.hand.inj hp) (.inr ⟨target, current, todo, rfl⟩)
      cases hp
      cases g with
      | unlock x =>
        cases x with
        | none => exact absurd hmem (notMem_zero _)
        | some x =>
          cases mem_singleton.mp hmem
          exact .taken rfl rfl (.inl rfl)
      | decrement x =>
        exact absurd (Prod.mk.inj (mem_singleton.mp hmem)).1 nofun
      | _ => exact absurd hmem (notMem_zero _)
    | pushPending x =>
      obtain ⟨hp, rfl⟩ := Prod.mk.inj (mem_singleton.mp hmem)
      exact .taken (Place.hand.inj hp) rfl (.inr rfl)
    | _ => exact absurd hmem (notMem_zero _)
  | preempting i p =>
    have hmoving : ∀ {l}, (Place.hand h, t) ∈ placed (Place.hand (n := n) .moving) l →
        HandCase (preempting i p) h t := fun hl =>
      .preempting (.inl (Place.hand.inj (mem_placed.mp hl).1)) rfl
    have hyielding : ∀ {x}, (Place.hand h, t) ∈ entryOf (Place.hand (n := n) .yielding) x →
        HandCase (preempting i p) h t := fun hx =>
      .preempting (.inr (Place.hand.inj (entryOf_mem hx))) rfl
    cases p with
    | peekPending | readCurrent | compare | removePending | movePending => exact hexec hmem
    | rewake => exact (mem_add.mp hmem).elim hexec (.call rfl)
    | rewakingMoved =>
      refine (mem_add.mp hmem).elim (fun hmem => ?_) hmoving
      exact (mem_add.mp hmem).elim hexec (.call rfl)
    | saveContext => exact (mem_add.mp hmem).elim hyielding hexec
    | pushPreempted x => exact (mem_add.mp hmem).elim (hyielding (x := some x)) hexec
    | _ => exact (mem_add.mp hmem).elim hexec hmoving
  | dispatch | tryLock | lockFailed | checkFuture | checkState | startPoll | polling | polled
  | finish | removeTask => exact absurd (Prod.mk.inj (mem_singleton.mp hmem)).1 nofun
  | pool | reSchedule | repool => exact hexec hmem
  | _ => exact absurd hmem (notMem_zero _)

/-- A task that is in somebody's hands is in those of a call or of a CPU. -/
theorem Sys.hand_mem (hmem : (.hand h, t) ∈ σ.entries) :
    (∃ p w, σ.callOf p = some w ∧ (.hand h, t) ∈ w.entries) ∨
      ∃ c, (.hand h, t) ∈ (σ.cpu c).entries c := by
  rcases Sys.mem_entries.mp hmem with hmem | hcpu | ⟨i, w, hw, hi⟩
  · exact absurd (Shared.mem_entries.mp hmem) (by simp)
  · exact .inr hcpu
  · exact .inl ⟨.inl i, w, hw, hi⟩

theorem Sys.waking_mem {notifies : Bool} (hmem : (.hand (.waking S notifies), t) ∈ σ.entries) :
    ∃ p w, σ.callOf p = some w ∧ (.hand (.waking S notifies), t) ∈ w.entries := by
  rcases Sys.hand_mem hmem with hcall | ⟨c, hc⟩
  · exact hcall
  cases handCase hc with
  | call hw hmem => exact ⟨.inr c, _, hw, hmem⟩
  | preempting hh => exact absurd hh (by simp)
  | popped hh | taken hh => cases hh

/-! ### The condition -/

/-- The task that `do_preemption` is about to dispatch, and the one it replaces. -/
def CpuPc.switches : CpuPc n → Option (Handle × Handle)
  | .preempting _ (.takeContext next current) | .preempting _ (.pushNext next current _) =>
    some (next, current)
  | _ => none

/-- The task that the round-robin tick is about to put into a pending heap. -/
def CpuPc.rotates : CpuPc n → Option Handle
  | .ticking _ _ _ (.pushPending t) => some t
  | _ => none

/-- A task is replaced only by one that is counted like it, and the tick puts no task into a
pending heap that has been counted out. -/
def CountsAlike (σ : Sys B n m) : Action n m → Prop
  | .cpu c _ =>
    (∀ x ∈ (σ.cpu c).switches,
      (σ.shared.task x.1).cpuSet.isSome = (σ.shared.task x.2).cpuSet.isSome) ∧
    ∀ t ∈ (σ.cpu c).rotates,
      (σ.shared.task t).cpuSet.isSome = true ∧ (σ.shared.task t).info.panicked = false
  | _ => True

instance (σ : Sys B n m) : DecidablePred (CountsAlike σ) := fun a => by
  induction a using Action.casesOn <;> dsimp only [CountsAlike] <;> infer_instance

/-! ### One step of a CPU -/

/-- What an action does to a CPU: nothing, a step of its code, or an interrupt. -/
inductive CpuChange (σ : Sys B n m) (a : Action n m) (σ' : Sys B n m) (c : Cpu n) : Prop
  | same (hcpu : σ'.cpu c = σ.cpu c)
  | step {inp : Input} {r : CpuResult B n} (ha : a = .cpu c inp)
      (hr : cpuStep σ.shared c inp (σ.cpu c) = some r) (hs : σ'.shared = r.shared)
      (hcpu : σ'.cpu c = r.after (σ.cpu c))
  | interrupt {i : Interrupted} (hpc : σ.cpu c = i.resume)
      (hcpu : σ'.cpu c = .preempting i .peekPending)

theorem Sys.setCpu_cpu (r : CpuResult B n) : (σ.setCpu c r).cpu c = r.after (σ.cpu c) := by
  cases r with
  | next => exact update_self ..
  | panicked => rfl

theorem sysStep_cpuChange (hstep : sysStep σ a = some σ') (c : Cpu n) : CpuChange σ a σ' c := by
  cases sysStep_cases hstep with
  | @cpu c₁ inp r hrun hr =>
    by_cases hc : c = c₁
    · subst hc
      refine .step rfl hr ?_ (Sys.setCpu_cpu r)
      cases r <;> rfl
    refine .same ?_
    cases r with
    | next => exact update_of_ne hc ..
    | panicked => rfl
  | @call i inp w r hrun hw hr =>
    refine .same ?_
    cases r <;> rfl
  | @interrupt c₁ i hc₁ hrun hi =>
    by_cases hc : c = c₁
    · subst hc
      exact .interrupt (interruptible_resume hi) (update_self ..)
    · exact .same (update_of_ne hc ..)
  | @panicking c₁ t s hpc hrun hs =>
    by_cases hc : c = c₁
    · subst hc
      exact .interrupt (i := .polling t) hpc (update_self ..)
    · exact .same (update_of_ne hc ..)
  | wake | spawn | advance => exact .same rfl

theorem not_hand_mem_resume (i : Interrupted) : (.hand h, t) ∉ (i.resume : CpuPc n).entries c := by
  intro hmem
  cases i with
  | polling x => exact absurd (Prod.mk.inj (mem_singleton.mp hmem)).1 nofun
  | sleeping p => exact absurd hmem (notMem_zero _)

section Step

variable {s s' : Shared B n} {inp : Input} {pc : CpuPc n} {r : CpuResult B n} {u : Handle}

/-- The tick keeps the task that it has taken until it puts it into a pending heap. -/
theorem cpuStep_taken (hr : cpuStep s c inp pc = some r) (hmem : (.hand .taken, t) ∈ pc.entries c) :
    (.hand .taken, t) ∈ (r.after pc).entries c ∨ t ∈ pc.rotates := by
  cases handCase hmem with
  | call _ hmem => exact absurd hmem (not_hand_mem nofun nofun)
  | preempting hh => exact absurd hh (by simp)
  | popped hh => cases hh
  | taken _ hpc hp =>
    subst hpc
    rcases hp with rfl | rfl
    · cases hr
      exact .inl (mem_singleton_self _)
    · exact .inr rfl

/-- In which control states of `do_preemption` a task is about to yield. -/
theorem PreemptPc.yielding_mem {i : Interrupted} {p : PreemptPc n}
    (hmem : (.hand .yielding, t) ∈ p.entries c i) :
    (∃ x thread, p = .saveContext x thread ∧ i.task = some t) ∨
      ∃ thread, p = .pushPreempted t thread := by
  have hexec : ∀ {x}, (Place.hand .yielding, t) ∉ entryOf (Place.executing c) x :=
    fun hx => absurd (entryOf_mem hx) nofun
  have hcall : ∀ {w : WakeCall n}, (Place.hand .yielding, t) ∉ w.entries :=
    not_hand_mem nofun nofun
  have hmoving : ∀ {l}, (Place.hand .yielding, t) ∉ placed (Place.hand (n := n) .moving) l :=
    fun hl => absurd (mem_placed.mp hl).1 nofun
  cases p with
  | peekPending | readCurrent | compare | removePending | movePending => exact absurd hmem hexec
  | rewake => exact absurd hmem fun h => (mem_add.mp h).elim hexec hcall
  | rewakingMoved =>
    rcases mem_add.mp hmem with hmem | hmem
    · exact absurd hmem fun h => (mem_add.mp h).elim hexec hcall
    · exact absurd hmem hmoving
  | saveContext x thread =>
    rcases mem_add.mp hmem with hmem | hmem
    · cases hi : i.task with
      | none =>
        rw [hi] at hmem
        exact absurd hmem (notMem_zero _)
      | some u =>
        rw [hi] at hmem
        cases mem_singleton.mp hmem
        exact .inl ⟨x, thread, rfl, rfl⟩
    · exact absurd hmem hexec
  | pushPreempted x thread =>
    rcases mem_add.mp hmem with hmem | hmem
    · cases mem_singleton.mp hmem
      exact .inr ⟨thread, rfl⟩
    · exact absurd hmem hexec
  | _ => exact absurd hmem fun h => (mem_add.mp h).elim hexec hmoving

/-- A task is about to yield after the step that dispatches the next one. -/
theorem preemptStep_switch {i : Interrupted} {p p' : PreemptPc n}
    (h : preemptStep s c i inp p = some (.next s' p')) (hok : PreemptOk s c i p)
    (hmoving : (.hand .moving, t) ∈ p.entries c i)
    (hyield : (.hand .yielding, u) ∈ p'.entries c i) :
    (t, u) ∈ (preempting i p).switches := by
  have hyields := PreemptPc.yielding_mem hyield
  -- of the tasks in the hands of the call only the next one is left
  have hnext : ∀ {next}, (Place.hand .moving, t) ∈
      entryOf (.executing c) i.task + placed (.hand .moving) [next] → t = next := fun hmem => by
    rcases mem_add.mp hmem with hmem | hmem
    · exact absurd (entryOf_mem hmem) (by simp)
    · simpa using hmem
  cases p with
  | takeContext next x =>
    obtain rfl := hnext hmoving
    obtain rfl : i = .polling x := hok
    simp only [preemptStep] at h
    split at h <;> cases h
    · obtain ⟨_, _, -, hu⟩ | ⟨_, hp'⟩ := hyields
      · exact congrArg (fun u => some (t, u)) (some.inj hu)
      · cases hp'
    · exact absurd hyields (by simp)
  | pushNext next x k =>
    obtain rfl := hnext hmoving
    obtain rfl : i = .polling x := hok.1
    cases h
    obtain ⟨_, _, -, hu⟩ | ⟨_, hp'⟩ := hyields
    · exact congrArg (fun u => some (t, u)) (some.inj hu)
    · cases hp'
  | rewakingMoved w next moved current =>
    obtain ⟨q, -, hq⟩ := map_eq_some_iff.mp h
    cases q with
    | next | done =>
      cases hq
      exact absurd hyields (by simp)
    | panicked => cases hq
  | setCurrent =>
    cases h
    exact absurd hyields (by simp)
  | rewakeMoved | takeThread =>
    simp only [preemptStep] at h
    repeat' split at h
    all_goals
      cases h
      exact absurd hyields (by simp)
  | lookupCurrent =>
    simp only [preemptStep] at h
    split at h
    · cases h
    · cases h
      exact absurd hyields (by simp)
  | peekPending | readCurrent | compare | removePending | movePending =>
    exact absurd (entryOf_mem hmoving) (by simp)
  | rewake =>
    rcases mem_add.mp hmoving with hmem | hmem
    · exact absurd (entryOf_mem hmem) (by simp)
    · exact absurd hmem (not_hand_mem (by simp) (by simp))
  | saveContext =>
    rcases mem_add.mp hmoving with hmem | hmem
    all_goals exact absurd (entryOf_mem hmem) (by simp)
  | pushPreempted x =>
    rcases mem_add.mp hmoving with hmem | hmem
    · exact absurd (Prod.mk.inj (mem_singleton.mp hmem)).1 (by simp)
    · exact absurd (entryOf_mem hmem) (by simp)

/-- **A switch of `do_preemption`**, as a step of the CPU. -/
theorem cpuStep_switch (hr : cpuStep s c inp pc = some r) (hok : PcOk s c pc)
    (hmoving : (.hand .moving, t) ∈ pc.entries c)
    (hyield : (.hand .yielding, u) ∈ (r.after pc).entries c) (hgone : (.hand .yielding, u) ∉
      pc.entries c) : (t, u) ∈ pc.switches := by
  cases handCase hmoving with
  | call _ hmem => exact absurd hmem (not_hand_mem nofun nofun)
  | popped hh => cases hh
  | taken hh => cases hh
  | preempting _ hpc =>
    subst hpc
    obtain ⟨q, hq, rfl⟩ := map_eq_some_iff.mp hr
    cases q with
    | next s' p' => exact preemptStep_switch hq hok hmoving hyield
    | returned s' => exact absurd hyield (not_hand_mem_resume _)
    | switched s' thread => cases entryOf_mem hyield
    | panicked s' => exact absurd hyield hgone

end Step

/-! ### Where a call goes -/

/-- A call stays as it is, or makes a step. -/
theorem sysStep_callOf (hstep : sysStep σ a = some σ') {p : Fin m ⊕ Cpu n}
    (hw : σ.callOf p = some w) :
    σ'.callOf p = some w ∨ ∃ d r, wakeStep σ.shared w d = some r ∧ σ'.callOf p = r.call w := by
  cases p with
  | inr c =>
    change (σ.cpu c).call = some w at hw
    change (σ'.cpu c).call = some w ∨ ∃ d r, _ ∧ (σ'.cpu c).call = _
    cases sysStep_cpuChange hstep c with
    | same hcpu => exact .inl (by rw [hcpu, hw])
    | step _ hr _ hcpu =>
      rw [hcpu]
      cases cpuStep_cases hr with
      | @call w₁ r hw₁ hwake wrap after hwrap hafter =>
        obtain rfl : w₁ = w := some.inj (hw₁.symm.trans hw)
        refine .inr ⟨_, r, hwake, ?_⟩
        cases r with
        | next s' w' => exact hwrap w'
        | done s' => exact hafter
        | panicked s' => exact hw
      | own hnone => cases hnone.symm.trans hw
    | @interrupt i hpc =>
      rw [hpc] at hw
      cases i <;> cases hw
  | inl i =>
    change σ.call i = some w at hw
    -- a slot that has a call gets no other
    have hother : ∀ {j : Fin m}, σ.call j = none → ∀ x : Option (WakeCall n),
        update σ.call j x i = some w := fun {j} hfree x => by
      have hne : i ≠ j := by
        rintro rfl
        cases hfree.symm.trans hw
      rw [update_of_ne hne, hw]
    cases sysStep_cases hstep with
    | @call j inp w₁ r hrun hw₁ hr =>
      by_cases hij : i = j
      · subst hij
        obtain rfl : w₁ = w := some.inj (hw₁.symm.trans hw)
        refine .inr ⟨_, r, hr, ?_⟩
        rw [σ.callOf_setCall hw r, update_self]
      · refine .inl ?_
        rw [σ.callOf_setCall hw₁ r, update_of_ne fun h => hij (Sum.inl.inj h)]
        exact hw
    | wake hfree | spawn hfree => exact .inl (hother hfree _)
    | @cpu c inp r =>
      refine .inl ?_
      cases r <;> exact hw
    | interrupt | panicking | advance => exact .inl hw

namespace WakeCall

variable {w w' : WakeCall n} {s s' : Shared B n} {d : Nat}

/-- The start of `wake_task`: a panicked task is pushed, another stays in the hands of the call. -/
theorem enter_next (h : w.enter s d = .next s' w') : (w.sched = .panicked ∧ w'.pc = .notify none) ∨
      ((s.task w.task).info.schedulerType ≠ .panicked ∧ w'.task = w.task ∧
        w'.hand = some (.waking w.sched w.notifies)) := by
  have hrelease : ∀ {relativeDeadline s' w'}, w.releaseEdf s relativeDeadline d = .next s' w' →
        w'.task = w.task ∧ w'.hand = some (.waking w.sched w.notifies) := fun hr => by
    obtain ⟨_, _, -, rfl⟩ := releaseEdf_next hr
    exact ⟨rfl, rfl⟩
  unfold enter at h
  split at h
  · next hS =>
    unfold finish at h
    split at h
    · cases h
      exact .inl ⟨hS, rfl⟩
    · cases h
  · next hS htype =>
    cases h
    exact .inr ⟨by rw [htype]; nofun, rfl, rfl⟩
  · next hS htype =>
    cases h
    exact .inr ⟨by rw [htype]; nofun, rfl, rfl⟩
  · next hS htype => exact .inr ⟨by rw [htype]; nofun, hrelease h⟩
  · next hS htype =>
    split at h
    · next hr =>
      split at h
      · cases h
      split at h
      · cases h
        exact .inr ⟨by rw [htype]; nofun, hrelease hr⟩
      · cases h
    · next hr => exact absurd h (hr s' w')
  · cases h

theorem enter_done (h : w.enter s d = .done s') : w.sched = .panicked := by
  have hrelease : ∀ {relativeDeadline}, w.releaseEdf s relativeDeadline d ≠ .done s' :=
    fun hr => by
      unfold releaseEdf at hr
      dsimp only at hr
      split at hr <;> cases hr
  unfold enter at h
  split at h
  · assumption
  · cases h
  · cases h
  · exact absurd h hrelease
  · split at h
    · split at h
      · cases h
      · split at h <;> cases h
    · exact absurd h hrelease
  · cases h

/-- The call is past the match on `scheduler_type` and has not pushed the task. -/
def Searches (w : WakeCall n) : Prop :=
  match w.pc with
  | .claim | .count _ | .enter | .setNeedPreemption .. | .sendIpi _ | .unlock | .notify _ => False
  | _ => True

theorem Searches.hand (h : w.Searches) : w.hand = some (.waking w.sched w.notifies) := by
  obtain ⟨cpu, task, sched, notifies, priority, deadline, time, pc⟩ := w
  cases pc with
  | claim | count | enter | setNeedPreemption | sendIpi | unlock | notify => exact absurd h id
  | _ => rfl

theorem searches_of_hand {notifies : Bool}
    (h : w.hand = some (.waking S notifies)) : w.pc = .enter ∨ w.Searches := by
  obtain ⟨cpu, task, sched, notifies, priority, deadline, time, pc⟩ := w
  cases pc with
  | claim | count | setNeedPreemption | sendIpi | unlock | notify => cases h
  | enter => exact .inl rfl
  | _ => exact .inr trivial

/-- A call that searches has done so before the step, or it has found that the task is of the
scheduler's type. -/
theorem Searches.origin (hw' : w'.Searches) (h : wakeStep s w d = some (.next s' w')) :
    w'.task = w.task ∧ (w.Searches ∨ (s.task w.task).info.schedulerType ≠ .panicked) := by
  have hcase := wakeStep_cases h
  generalize hnext : WakeResult.next s' w' = r at hcase
  cases hcase with
  | read hread =>
    cases hnext
    refine ⟨rfl, .inl ?_⟩
    obtain ⟨cpu, task, sched, notifies, priority, deadline, time, pc⟩ := w
    cases hread with
    | preempts hpc =>
      rcases hpc with hpc | hpc
      all_goals
        subst hpc
        exact trivial
    | waits hpc =>
      rcases hpc with ⟨_, hpc⟩ | ⟨_, hpc⟩
      all_goals
        subst hpc
        exact trivial
    | _ => exact trivial
  | enter hpc =>
    rcases enter_next hnext.symm with ⟨-, hpc'⟩ | ⟨htype, htask, -⟩
    · rw [Searches, hpc'] at hw'
      exact absurd hw' id
    · exact ⟨htask, .inr htype⟩
  | lock hpc =>
    cases hnext
    refine ⟨rfl, .inl ?_⟩
    rw [Searches, hpc]
    exact trivial
  | unlock =>
    unfold finish at hnext
    split at hnext
    · cases hnext
      exact absurd hw' id
    · cases hnext
  | claim | count | pushPending | setNeedPreemption | sendIpi | enqueue | notify =>
    cases hnext
    exact absurd hw' id
  | _ => cases hnext

/-- A call that enters `wake_task` of another scheduler than that of panicked tasks keeps the
task in its hands. -/
theorem entries_enter {r : WakeResult B n} (hpc : w.pc = .enter) (hS : w.sched ≠ .panicked)
    (h : wakeStep s w d = some r) : ∃ w', r.call w = some w' ∧ w'.entries = w.entries := by
  rw [wakeStep, hpc] at h
  cases h
  have hhand : w.hand = some (.waking w.sched w.notifies) := by rw [hand, hpc]
  cases hr : w.enter s d with
  | next s' w' =>
    rcases enter_next hr with ⟨hpanicked, -⟩ | ⟨-, htask, hhand'⟩
    · exact absurd hpanicked hS
    · refine ⟨w', rfl, ?_⟩
      rw [entries_of_hand hhand', entries_of_hand hhand, htask]
  | done s' => exact absurd (enter_done hr) hS
  | panicked s' => exact ⟨w, rfl, rfl⟩

end WakeCall

/-! ### Where tasks wait -/

/-- What is known of the tasks that wait. -/
structure Waits (σ : Sys B n m) : Prop where
  type : ∀ t, (σ.shared.task t).info.panicked = true →
    (σ.shared.task t).info.schedulerType = .panicked
  place : ∀ p t, (p, t) ∈ σ.entries → (σ.shared.task t).WaitsAt p
  /-- A call that searches a target is on a task that has not panicked. -/
  call : ∀ p w, σ.callOf p = some w → w.Searches → (σ.shared.task w.task).info.panicked = false

theorem Task.WaitsAt.congr {t t' : Task} (hsame : SameHandler t t') (h : t.WaitsAt p) :
    t'.WaitsAt p := by
  have hS : ∀ {S : Sched}, (S = t.scheduler ∨ S = .panicked ∧ t.info.panicked = true) →
      S = t'.scheduler ∨ S = .panicked ∧ t'.info.panicked = true := by
    rw [hsame.scheduler, hsame.panicked]
    exact fun hS => hS
  cases p with
  | queue S => exact hS h
  | pending c => exact hsame.panicked.trans h
  | hand hand =>
    cases hand with
    | claimed panicked => exact fun hb => hsame.panicked.trans (h hb)
    | waking S => exact hS h
    | _ => exact trivial
  | _ => exact trivial

theorem Task.WaitsAt.carried {q : Place n}
    (hpending : ∀ c, q = .pending c → (s.task t).info.panicked = false)
    (h : (s.task t).WaitsAt p) (hq : Carried s t p q) : (s.task t).WaitsAt q := by
  cases hq with
  | stay => exact h
  | move hmove =>
    cases hmove with
    | enqueue => exact h
    | rewake => exact .inl rfl
    | request _ _ c | tick c => exact hpending c rfl
    | popClustered hp => rcases hp with ⟨c, rfl⟩ | rfl <;> exact trivial
    | _ => exact trivial
  | moveHeap | yields => exact trivial
  | dispatch hq => rcases hq with rfl | rfl <;> exact trivial
  | count panicked =>
    cases panicked with
    | true => exact .inr ⟨rfl, h rfl⟩
    | false => exact .inl rfl
  | decrement hp => rcases hp with ⟨c, rfl⟩ | rfl <;> exact trivial

/-- Only a step of a CPU takes a task out of its hands. -/
theorem Inv.hand_gone (hI : Inv σ) (ha : ThreadAvailable σ a) (hstep : sysStep σ a = some σ')
    (hh : h = .taken ∨ h = .yielding) (hheld : (.hand h, t) ∈ σ.entries)
    (hmem : (p, t) ∈ σ'.entries) (hp : p ≠ .hand h) :
    ∃ c inp r, a = .cpu c inp ∧ cpuStep σ.shared c inp (σ.cpu c) = some r ∧
      σ'.shared = r.shared ∧ σ'.cpu c = r.after (σ.cpu c) ∧ (.hand h, t) ∈ (σ.cpu c).entries c ∧
      (.hand h, t) ∉ (r.after (σ.cpu c)).entries c := by
  have hgone : ∀ {c}, (Place.hand h, t) ∉ (σ'.cpu c).entries c := fun hheld' =>
    hp ((hI.step ha hstep).place_unique hmem (Sys.mem_entries_of_cpu hheld'))
  rcases Sys.hand_mem hheld with ⟨_, _, -, hheld⟩ | ⟨c, hheld⟩
  · rcases hh with rfl | rfl <;> exact absurd hheld (not_hand_mem nofun nofun)
  cases sysStep_cpuChange hstep c with
  | same hcpu => exact absurd (hcpu ▸ hheld) hgone
  | @step inp r ha hr hs hcpu => exact ⟨c, inp, r, ha, hr, hs, hcpu, hheld, hcpu ▸ hgone⟩
  | interrupt hpc =>
    rw [hpc] at hheld
    exact absurd hheld (not_hand_mem_resume _)

theorem Inv.tick_counts (h : Inv σ) (ha : ThreadAvailable σ a) (hcount : CountsAlike σ a)
    (hstep : sysStep σ a = some σ')
    (htaken : (.hand .taken, t) ∈ σ.entries) (hpending : (.pending c, t) ∈ σ'.entries) :
    (σ.shared.task t).cpuSet.isSome = true ∧ (σ.shared.task t).info.panicked = false := by
  obtain ⟨c₁, inp, r, rfl, hr, -, -, hheld, hgone⟩ :=
    h.hand_gone ha hstep (.inl rfl) htaken hpending nofun
  exact hcount.2 t ((cpuStep_taken hr hheld).resolve_left hgone)

theorem Waits.pending_step (h : Waits σ) (hI : Inv σ) (ha : ThreadAvailable σ a)
    (hcount : CountsAlike σ a) (hstep : sysStep σ a = some σ')
    (hmem : (.pending c, t) ∈ σ'.entries) : (σ.shared.task t).info.panicked = false := by
  have hI' := hI.step ha hstep
  rcases (hI.flow ha hstep).origin hmem with ⟨p, hcarried, hp⟩ | hclaimed
  · cases hcarried with
    | stay => exact h.place _ t hp
    | move hmove =>
      cases hmove with
      | tick => exact (hI.tick_counts ha hcount hstep hp hmem).2
      | popClustered hp => exact absurd hp (by simp)
      | request hS notifies =>
        obtain ⟨p, w, hw, hheld⟩ := Sys.waking_mem hp
        obtain ⟨_, hhand, heq, rfl⟩ := mem_entries_iff.mp hheld
        cases heq
        rcases searches_of_hand hhand with hpc | hsearches
        · -- at the start of `wake_task` the task stays in the hands of the call
          have hsched : w.sched ≠ .panicked := by
            rw [hand, hpc] at hhand
            cases hhand
            exact hS
          have hkept : ∃ w', σ'.callOf p = some w' ∧ w'.entries = w.entries := by
            rcases sysStep_callOf hstep hw with hw' | ⟨d, r, hr, hw'⟩
            · exact ⟨w, hw', rfl⟩
            · obtain ⟨w', hcall, hentries⟩ := entries_enter hpc hsched hr
              exact ⟨w', hw'.trans hcall, hentries⟩
          obtain ⟨w', hw', hentries⟩ := hkept
          rw [← hentries] at hheld
          exact absurd (hI'.place_unique (Sys.mem_entries_of_call hw' hheld) hmem) (by simp)
        · exact h.call p w hw hsearches
    | dispatch hq | decrement hq => exact absurd hq (by simp)
  · cases hclaimed

/-- **Every action that counts alike keeps what is known of the tasks that wait.** -/
theorem Waits.step (h : Waits σ) (hI : Inv σ) (ha : ThreadAvailable σ a) (hcount : CountsAlike σ a)
    (hstep : sysStep σ a = some σ') : Waits σ' := by
  have hI' := hI.step ha hstep
  refine ⟨fun t hpanicked => ?_, fun p t hmem => ?_, fun p w hw hsearches => ?_⟩
  · cases hI.handlerStep ha hstep t with
    | same _ hsame =>
      rw [hsame.schedulerType]
      exact h.type t (hsame.panicked ▸ hpanicked)
    | marked _ _ hmarked =>
      rw [hmarked]
      rfl
    | spawned _ hno => cases hno.symm.trans hpanicked
  · cases hI.handlerStep ha hstep t with
    | same _ hsame =>
      refine Task.WaitsAt.congr hsame ?_
      rcases (hI.flow ha hstep).origin hmem with ⟨q, hcarried, hq⟩ | rfl
      · refine Task.WaitsAt.carried ?_ (h.place q t hq) hcarried
        rintro c rfl
        exact h.pending_step hI ha hcount hstep hmem
      · exact fun hb => hb
    | marked _ hexec' =>
      -- a task that has just been marked is executed
      rw [hI'.place_unique hmem hexec']
      exact trivial
    | spawned _ _ hnone => exact absurd hmem (hnone p)
  · have hheld : (Place.hand (.waking w.sched w.notifies), w.task) ∈ σ'.entries :=
      Sys.mem_entries_of_call hw (mem_entries_iff.mpr ⟨_, hsearches.hand, rfl, rfl⟩)
    cases hI.handlerStep ha hstep w.task with
    | same _ hsame =>
      rw [hsame.panicked]
      rcases (sysStep_calls hstep).origin hw with hw | ⟨w₀, d, hw₀, -, hr⟩ | ⟨c, hfresh⟩
      · exact h.call p w hw hsearches
      · obtain ⟨htask, hbefore | htype⟩ := hsearches.origin hr
        · rw [htask]
          exact h.call p w₀ hw₀ hbefore
        rw [htask]
        by_contra hpanicked
        exact htype (h.type w₀.task (by simpa using hpanicked))
      · rcases hfresh with hfresh | hfresh
        all_goals
          rw [hfresh] at hsearches
          exact absurd hsearches id
    | marked _ hexec' => cases hI'.place_unique hheld hexec'
    | spawned _ hno => exact hno

/-! ### The balance along every run -/

theorem Sys.Balanced.of_flow {L L' R : Ledger (Place n) Handle} (h : σ.Balanced) (hI : Inv σ)
    (hI' : Inv σ') (hW : Waits σ) (hL : σ.entries = L + R) (hL' : σ'.entries = L' + R)
    (hflow : Flow σ.shared σ'.shared L L')
    (hset : ∀ p t, (p, t) ∈ σ'.entries → (σ'.shared.task t).cpuSet = (σ.shared.task t).cpuSet)
    (htick : ∀ c t, (.hand .taken, t) ∈ L → (.pending c, t) ∈ L' →
      (σ.shared.task t).cpuSet.isSome = true)
    (hswitch : ∀ c next current, (.hand .moving, next) ∈ L → (.executing c, current) ∈ L →
      (.hand .yielding, current) ∈ L' →
      (σ.shared.task next).share = (σ.shared.task current).share) : σ'.Balanced := by
  have hmem : ∀ {x}, x ∈ L → x ∈ σ.entries := fun hx => by
    rw [hL]
    exact mem_add.mpr (.inl hx)
  have hshare : total σ'.shared.share σ'.entries = total σ.shared.share (L' + R) := by
    rw [← hL']
    exact total_congr fun p t hmem => share_congr (hset p t hmem) p
  have hlt : total σ.shared.share (L' + R) < 2 ^ 32 := by
    rw [← hL']
    exact (total_le_card σ.shared.share_le_one _).trans_lt hI'.card_entries_lt
  rw [Sys.Balanced, hshare]
  refine hflow.balanced R (fun p t ht => ?_) (fun p t ht => hW.place p t (hmem ht)) htick hswitch
    ?_ hlt
  · exact hI.shared.clustered t (hI.lt_numHandles (hmem ht))
  · rw [← hL]
    exact h

theorem CpuMove.balanced (hm : CpuMove σ σ' c) (h : σ.Balanced) (hI : Inv σ) (hW : Waits σ)
    (htick : ∀ c' t, (.hand .taken, t) ∈ σ.entries → (.pending c', t) ∈ σ'.entries →
      (σ.shared.task t).cpuSet.isSome = true)
    (hswitch : ∀ next current, (.hand .moving, next) ∈ (σ.cpu c).entries c →
      (.hand .yielding, current) ∉ (σ.cpu c).entries c →
      (.hand .yielding, current) ∈ (σ'.cpu c).entries c →
      (σ.shared.task next).share = (σ.shared.task current).share) : σ'.Balanced := by
  obtain ⟨R, hR, hset, -⟩ := σ.entries_cpu c
  have hR' := hset σ' _ hm.cpu_eq hm.call
  -- only the CPU itself has tasks in its hands
  have hhand : ∀ {s : Shared B n} {pc : CpuPc n} {x t},
      (Place.hand x, t) ∈ s.entries + pc.entries c → (Place.hand x, t) ∈ pc.entries c :=
    fun hmem => (mem_add.mp hmem).resolve_left fun hs =>
      absurd (mem_entries.mp hs) (by simp)
  refine h.of_flow hI (hm.inv hI) hW hR hR' hm.ok.flow
    (fun p t _ => (hm.ok.frame.task t).cpuSet) (fun c' t htaken hpending => ?_)
    fun c' next current hmoving hexec hyield => ?_
  · refine htick c' t ?_ ?_
    · rw [hR]
      exact mem_add.mpr (.inl htaken)
    · rw [hR']
      exact mem_add.mpr (.inl hpending)
  · refine hswitch next current (hhand hmoving) (fun hmem => ?_) (hhand hyield)
    -- a task that is executed is not yielding yet
    have hexec' : (Place.executing c', current) ∈ σ.entries := by
      rw [hR]
      exact mem_add.mpr (.inl hexec)
    cases hI.place_unique (Sys.mem_entries_of_cpu hmem) hexec'

theorem Sys.Balanced.of_cpu_eq (h : σ.Balanced) (hI : Inv σ) (hI' : Inv σ') (hW : Waits σ)
    (hflow : Flow σ.shared σ'.shared σ.entries σ'.entries) (hcpu : σ'.cpu = σ.cpu)
    (hset : ∀ p t, (p, t) ∈ σ'.entries → (σ'.shared.task t).cpuSet = (σ.shared.task t).cpuSet)
    (htick : ∀ c t, (.hand .taken, t) ∈ σ.entries → (.pending c, t) ∈ σ'.entries →
      (σ.shared.task t).cpuSet.isSome = true) : σ'.Balanced := by
  refine h.of_flow hI hI' hW (add_zero _).symm (add_zero _).symm hflow hset htick
    fun c next current _ hexec hyield => ?_
  rcases Sys.hand_mem hyield with ⟨_, _, -, hmem⟩ | ⟨c', hmem⟩
  · exact absurd hmem (not_hand_mem nofun nofun)
  · rw [hcpu] at hmem
    cases hI.place_unique (Sys.mem_entries_of_cpu hmem) hexec

/-- **Every action that counts alike keeps the balance.** -/
theorem Sys.Balanced.step (h : σ.Balanced) (hI : Inv σ) (hW : Waits σ) (ha : ThreadAvailable σ a)
    (hcount : CountsAlike σ a) (hstep : sysStep σ a = some σ') :
    σ'.Balanced := by
  have htick : ∀ c t, (.hand .taken, t) ∈ σ.entries → (.pending c, t) ∈ σ'.entries →
      (σ.shared.task t).cpuSet.isSome = true := fun c t htaken hpending =>
    (hI.tick_counts ha hcount hstep htaken hpending).1
  have hI' := hI.step ha hstep
  have hflow := hI.flow ha hstep
  cases sysStep_cases hstep with
  | @cpu c inp r hrun hr =>
    refine (hI.cpuMove ha hstep).balanced h hI hW htick fun next current hmoving hgone hyield => ?_
    rw [Sys.setCpu_cpu] at hyield
    have halike := hcount.1 _ (cpuStep_switch hr (hI.cpu c).locals hmoving hyield hgone)
    rw [Task.share, Task.share, ← not_isSome, ← not_isSome, halike]
  | @call i inp w r hrun hw hr =>
    have hframe := (wakeStep_ok (hI.call i w hw) hr).frame
    refine h.of_cpu_eq hI hI' hW hflow ?_ (fun p t _ => ?_) htick
    · cases r <;> rfl
    · cases r <;> exact (hframe.task t).cpuSet
  | wake => exact h.of_cpu_eq hI hI' hW hflow rfl (fun _ _ _ => rfl) htick
  | spawn hfree hs =>
    have hspawned := hI.shared.spawned hs
    refine h.of_cpu_eq hI hI' hW hflow rfl (fun p t hmem => ?_) htick
    rw [Sys.entries_startCall hfree hspawned.entries rfl] at hmem
    exact congrArg Task.cpuSet (hspawned.old t (hI.lt_numHandles hmem).ne)
  | interrupt hc hrun hi =>
    refine (hI.interruptMove hi).balanced h hI hW htick fun next current hmoving => ?_
    rw [interruptible_resume hi] at hmoving
    exact absurd hmoving (not_hand_mem_resume _)
  | @panicking c t s hpc hrun hs =>
    refine (hI.panickingMove hpc hs).balanced h hI hW htick fun next current hmoving => ?_
    rw [hpc] at hmoving
    exact absurd hmoving (not_hand_mem_resume (.polling t))
  | advance micros => exact h

/-! ### The tasks that have been preempted -/

/-- `re_schedule` puts the preempted tasks back. -/
def CpuPc.reSchedules : CpuPc n → Bool
  | .reSchedule _ | .reScheduling _ _ => true
  | _ => false

/-- A CPU has preempted tasks only until `re_schedule` has put them back. -/
def Sys.PutsBack (σ : Sys B n m) : Prop :=
  ∀ c t, (.preempted c, t) ∈ σ.entries → (σ.cpu c).reSchedules

/-- `do_preemption` keeps the task that yields until it puts it among the preempted ones. -/
theorem cpuStep_yielding {inp : Input} {r : CpuResult B n} (hr : cpuStep s c inp pc = some r)
    (hok : PcOk s c pc)
    (hmem : (.hand .yielding, t) ∈ pc.entries c) :
    (.hand .yielding, t) ∈ (r.after pc).entries c ∨
      t ∈ r.shared.preemptedTasks c ∧ (r.after pc).reSchedules := by
  cases handCase hmem with
  | call _ hmem => exact absurd hmem (not_hand_mem nofun nofun)
  | popped hh => cases hh
  | taken hh => cases hh
  | @preempting i p _ hpc =>
    subst hpc
    rcases PreemptPc.yielding_mem hmem with ⟨x, thread, rfl, hi⟩ | ⟨thread, rfl⟩
    · obtain rfl : i = .polling x := hok
      cases hi
      obtain ⟨q, hq, rfl⟩ := map_eq_some_iff.mp hr
      simp only [preemptStep] at hq
      split at hq <;> cases hq
      · exact .inl hmem
      · exact .inl (mem_add.mpr (.inl (mem_singleton_self _)))
    · cases hr
      refine .inr ⟨?_, rfl⟩
      change t ∈ update s.preemptedTasks c (t :: s.preemptedTasks c) c
      rw [update_self]
      exact List.mem_cons_self

theorem cpuStep_reSchedules {inp : Input} {r : CpuResult B n} (hr : cpuStep s c inp pc = some r)
    (hpc : pc.reSchedules)
    (ht : t ∈ r.shared.preemptedTasks c) : (r.after pc).reSchedules := by
  cases pc with
  | reSchedule thread =>
    simp only [cpuStep] at hr
    split at hr <;> cases hr
    · rfl
    rename_i hnil
    rw [hnil] at ht
    exact absurd ht List.not_mem_nil
  | reScheduling w thread =>
    obtain ⟨q, -, rfl⟩ := map_eq_some_iff.mp hr
    cases q <;> rfl
  | _ => cases hpc

theorem Sys.PutsBack.step (h : σ.PutsBack) (hI : Inv σ) (ha : ThreadAvailable σ a)
    (hstep : sysStep σ a = some σ') : σ'.PutsBack := by
  intro c t hmem
  have ht : t ∈ σ'.shared.preemptedTasks c := by
    simpa using Shared.mem_entries.mp (Sys.container_mem hmem nofun nofun nofun)
  rcases (hI.flow ha hstep).origin hmem with ⟨p, hcarried, hp⟩ | hclaimed
  · cases hcarried with
    | stay =>
      have hbefore := h c t hp
      cases sysStep_cpuChange hstep c with
      | same hcpu => rwa [hcpu]
      | step _ hr hs hcpu =>
        rw [hs] at ht
        rw [hcpu]
        exact cpuStep_reSchedules hr hbefore ht
      | @interrupt i hpc =>
        rw [hpc] at hbefore
        cases i <;> cases hbefore
    | move hmove =>
      cases hmove with
      | popClustered hp => exact absurd hp (by simp)
      | yield =>
        -- the CPU that held the task is the one that has put it there
        obtain ⟨c₁, inp, r, -, hr, hs, hcpu, hheld, hgone⟩ :=
          hI.hand_gone ha hstep (.inr rfl) hp hmem nofun
        obtain ⟨hput, hpc⟩ :=
          (cpuStep_yielding hr (hI.cpu c₁).locals hheld).resolve_left hgone
        rw [← hs] at hput
        cases (hI.step ha hstep).place_unique hmem (Sys.mem_entries_of_shared
          (Shared.mem_entries.mpr (.inr ⟨c₁, .inr (.inr ⟨rfl, hput⟩)⟩)))
        rw [hcpu]
        exact hpc
    | dispatch hq | decrement hq => exact absurd hq (by simp)
  · cases hclaimed

/-! ### The number of tasks that wait -/

/-- The task is counted while it waits: it is not clustered, or it has panicked. -/
def Task.counted (t : Task) : Bool := t.cpuSet.isNone || t.info.panicked

/-- The counted tasks in the run queues that are not clustered and in the pending heaps. -/
def Shared.numWaiting (s : Shared B n) : ℕ :=
  ∑ S ∈ Finset.univ.erase .clusteredEDF, ((s.queued S).countP fun t => (s.task t).counted) +
    ∑ c, (s.pending c).countP fun t => (s.task t).counted

/-- The CPU is in no call of `Task::wake` or `wake_task`, not in `get_next_task` and not in a
preemption. -/
def CpuPc.settled : CpuPc n → Bool
  | .draining _ | .waking _ | .timerWaking _ | .getNext _ | .preempting _ _ | .reSchedule _
  | .reScheduling _ _ | .ticking _ _ _ (.getNext _) | .ticking _ _ _ (.pushPending _) => false
  | _ => true

/-- No wake, no `get_next_task` and no preemption is in progress. -/
def Sys.Quiescent (σ : Sys B n m) : Prop := (∀ i, σ.call i = none) ∧ ∀ c, (σ.cpu c).settled

instance (σ : Sys B n m) : Decidable σ.Quiescent := inferInstanceAs (Decidable (_ ∧ _))

theorem not_hand_mem_of_settled (hpc : pc.settled) : (.hand h, t) ∉ pc.entries c := by
  intro hmem
  cases handCase hmem with
  | call hw =>
    cases pc with
    | draining | waking | timerWaking | preempting | reScheduling => cases hpc
    | _ => cases hw
  | preempting _ heq =>
    subst heq
    cases hpc
  | popped _ heq =>
    rcases heq with rfl | ⟨_, _, _, rfl⟩
    all_goals cases hpc
  | taken _ heq hp =>
    subst heq
    rcases hp with rfl | rfl
    all_goals cases hpc

theorem total_entries_of_settled (hpc : pc.settled) : total s.share (pc.entries c) = 0 := by
  refine total_eq_zero fun p t hmem => ?_
  rcases mem_entries hmem with ⟨h, rfl⟩ | rfl | ⟨rfl, -⟩
  · exact absurd hmem (not_hand_mem_of_settled hpc)
  · rfl
  · rfl

theorem Waits.total_queued (h : Waits σ) (hI : Inv σ) (hS : S ≠ .clusteredEDF) :
    total σ.shared.share (placed (.queue S) (σ.shared.queued S)) =
      (σ.shared.queued S).countP fun t => (σ.shared.task t).counted := by
  refine total_placed_eq_countP fun t ht => ?_
  have hmem := Sys.mem_entries_of_shared (σ := σ) (mem_entries_of_queued ht)
  have hcounted : (σ.shared.task t).counted = true := by
    rcases h.place _ t hmem with hsched | ⟨-, hpanicked⟩
    · have hnone : ¬ (σ.shared.task t).cpuSet.isSome := fun hsome =>
        hS (hsched.trans ((hI.shared.clustered t (hI.lt_numHandles hmem)).mpr hsome))
      rw [Task.counted, not_isSome_iff_eq_none.mp hnone]
      rfl
    · rw [Task.counted, hpanicked, Bool.or_true]
  rw [if_pos hcounted]
  exact if_neg hS

theorem Waits.total_pending (h : Waits σ) (c : Cpu n) :
    total σ.shared.share (placed (.pending c) (σ.shared.pending c)) =
      (σ.shared.pending c).countP fun t => (σ.shared.task t).counted := by
  refine total_placed_eq_countP fun t ht => ?_
  have hno : (σ.shared.task t).info.panicked = false :=
    h.place _ t (Sys.mem_entries_of_shared (mem_entries_of_pending ht))
  rw [Task.counted, hno, Bool.or_false]
  rfl

/-- **When nothing is in progress, the shares add up to the number of tasks that wait.** -/
theorem Sys.Quiescent.total_entries (h : σ.Quiescent) (hI : Inv σ) (hW : Waits σ)
    (hback : σ.PutsBack) : total σ.shared.share σ.entries = σ.shared.numWaiting := by
  have hcpus : total σ.shared.share (∑ c, (σ.cpu c).entries c) = 0 := by
    rw [total_sum]
    exact Finset.sum_eq_zero fun c _ => total_entries_of_settled (h.2 c)
  have hcalls : total σ.shared.share (∑ i, ((σ.call i).elim 0 WakeCall.entries)) = 0 := by
    rw [total_sum]
    refine Finset.sum_eq_zero fun i _ => ?_
    rw [h.1 i]
    rfl
  have hqueues : total σ.shared.share (∑ S, placed (.queue S) (σ.shared.queued S)) =
      ∑ S ∈ Finset.univ.erase .clusteredEDF,
        ((σ.shared.queued S).countP fun t => (σ.shared.task t).counted) := by
    have hclustered : total σ.shared.share
        (placed (.queue .clusteredEDF) (σ.shared.queued .clusteredEDF)) = 0 :=
      total_eq_zero fun p t hmem => by
        obtain ⟨rfl, -⟩ := mem_placed.mp hmem
        rfl
    rw [total_sum, ← Finset.add_sum_erase _ _ (Finset.mem_univ Sched.clusteredEDF), hclustered,
      Nat.zero_add]
    exact Finset.sum_congr rfl fun S hS => hW.total_queued hI (Finset.ne_of_mem_erase hS)
  have hheaps : total σ.shared.share (∑ c, σ.shared.cpuEntries c) =
      ∑ c, (σ.shared.pending c).countP fun t => (σ.shared.task t).counted := by
    rw [total_sum]
    refine Finset.sum_congr rfl fun c _ => ?_
    have hnext : total σ.shared.share (placed (.next c) (σ.shared.nextTask c)) = 0 :=
      total_eq_zero fun p t hmem => by
        obtain ⟨rfl, -⟩ := mem_placed.mp hmem
        rfl
    have hpreempted : σ.shared.preemptedTasks c = [] := by
      refine List.eq_nil_iff_forall_not_mem.mpr fun t ht => ?_
      have hre := hback c t (Sys.mem_entries_of_shared
        (Shared.mem_entries.mpr (.inr ⟨c, .inr (.inr ⟨rfl, ht⟩)⟩)))
      have hsettled := h.2 c
      generalize σ.cpu c = pc at hre hsettled
      cases pc with
      | reSchedule | reScheduling => cases hsettled
      | _ => cases hre
    rw [cpuEntries, total_add, total_add, hW.total_pending, hnext, hpreempted]
    rfl
  rw [Sys.entries, total_add, total_add, hcpus, hcalls, Shared.entries, total_add, hqueues, hheaps]
  rfl

/-! ### The counter -/

/-- What is owed by the counter. -/
structure CounterExact (σ : Sys B n m) : Prop where
  /-- It is positive when `get_next_task` is about to decrement it. -/
  positive : ∀ c t, (σ.cpu c = .getNext (.decrement t) ∨ ∃ target current todo,
    σ.cpu c = .ticking target current todo (.getNext (.decrement t))) → 0 < σ.shared.numTaskInQueue
  waiting : σ.Quiescent → σ.shared.numTaskInQueue = σ.shared.numWaiting

/-- **The counter of queued tasks.** In every run in which threads can be created, a running task
is replaced only by one that is counted like it, the round-robin tick moves no counted task, and no
kernel code panics: `NUM_TASK_IN_QUEUE` never underflows, and when no wake, no `get_next_task` and
no preemption is in progress it is the number of counted tasks in the run queues that are not
clustered and in the pending heaps. -/
theorem counter_exact
    (h : Executed (fun σ a => (ThreadAvailable σ a ∧ CountsAlike σ a) ∧ NoPanic σ a) σ) :
    CounterExact σ := by
  have hI : (Inv σ ∧ Waits σ) ∧ σ.Balanced ∧ σ.PutsBack := by
    have hempty : (Sys.init B n m).entries = 0 := by
      refine eq_zero_of_forall_notMem fun x hmem => ?_
      have hledger := (Inv.init B n m).registry_of_mem (p := x.1) (t := x.2) hmem
      cases hledger
    refine h.unpanicked.1.invariant (I := fun σ => (Inv σ ∧ Waits σ) ∧ σ.Balanced ∧ σ.PutsBack)
      ⟨⟨Inv.init B n m, nofun, fun p t hmem => ?_, ?_⟩, ?_, fun c t hmem => ?_⟩
      fun σ a σ' ⟨⟨hI, hW⟩, hbal, hback⟩ ha hstep =>
        ⟨⟨hI.step ha.1 hstep, hW.step hI ha.1 ha.2 hstep⟩, hbal.step hI hW ha.1 ha.2 hstep,
          hback.step hI ha.1 hstep⟩
    · rw [hempty] at hmem
      exact absurd hmem (notMem_zero _)
    · rintro (i | c) w hw
      · cases hw
      · change (if c = 0 then tick (workers n) else .top).call = some w at hw
        split at hw <;> cases hw
    · rw [Sys.Balanced, hempty]
      rfl
    · rw [hempty] at hmem
      exact absurd hmem (notMem_zero _)
  obtain ⟨⟨hI, hW⟩, hbal, hback⟩ := hI
  refine ⟨fun c t hpc => ?_, fun hquiet => ?_⟩
  · have hmem : (Place.hand .popped, t) ∈ σ.entries := by
      refine Sys.mem_entries_of_cpu (c := c) ?_
      rcases hpc with hpc | ⟨_, _, _, hpc⟩
      all_goals
        rw [hpc]
        exact mem_singleton_self _
    rw [hbal]
    calc 0 < σ.shared.share (.hand .popped) t := Nat.zero_lt_one
      _ ≤ total σ.shared.share σ.entries := le_total hmem
  · rw [hbal]
    exact hquiet.total_entries hI hW hback

/-- A worker polls a task, one of higher priority preempts it, and the first one is put back into
its run queue. -/
def preemptedAndBack : List (Action 0 1) :=
  Action.spawnSteps 0 (.prioritizedFIFO 1) 10 ++ Action.cpuSteps 1 12 ++
    Action.spawnSteps 0 (.prioritizedFIFO 5) 16 ++ [.interrupt 1] ++ Action.cpuSteps 1 26

/-- The counter is 1, for the task in the run queue. -/
theorem counter_exact_preemptedAndBack : ∃ σ : Sys Build.list 0 1,
    Executed (fun σ a => (ThreadAvailable σ a ∧ CountsAlike σ a) ∧ NoPanic σ a) σ ∧ σ.Quiescent ∧
      σ.shared.queued .prioritizedFIFO = [0] ∧ σ.shared.numTaskInQueue = 1 ∧
      CounterExact σ := by
  obtain ⟨σ, hreach, hquiet, hqueued, hnum⟩ := Reaches.exists_of_run preemptedAndBack
    (show (run (guarded sysStep fun σ a => (ThreadAvailable σ a ∧ CountsAlike σ a) ∧ NoPanic σ a)
      (Sys.init Build.list 0 1) preemptedAndBack).any (fun σ => decide (σ.Quiescent ∧
        σ.shared.queued .prioritizedFIFO = [0] ∧ σ.shared.numTaskInQueue = 1)) = true by decide)
  have hexec := Executed.of_reachable hreach
  exact ⟨σ, hexec, hquiet, hqueued, hnum, counter_exact hexec⟩

/-- A worker polls a round-robin task, the tick puts another one into its pending heap, and the
two change places. The worker then looks for the first one. -/
def rotated : List (Action 0 1) :=
  Action.spawnSteps 0 (.prioritizedRR 1) 10 ++ Action.cpuSteps 1 12 ++
    Action.spawnSteps 0 (.prioritizedRR 1) 14 ++ [.advance 5000] ++ Action.cpuSteps 0 10 ++
    [.interrupt 1] ++ Action.cpuSteps 1 41

/-- A clustered task preempts one that is not, and the worker then looks for that one. -/
def preemptedByClustered : List (Action 0 1) :=
  Action.spawnSteps 0 (.prioritizedFIFO 1) 10 ++ Action.cpuSteps 1 12 ++
    Action.spawnSteps 0 (.clusteredEDF 1000 {1}) 14 ++ [.interrupt 1] ++ Action.cpuSteps 1 41

/-- `get_next_task` on the worker is about to decrement the counter at 0. -/
def Sys.wraps (σ : Sys Build.list 0 1) : Bool :=
  σ.cpu 1 = .getNext (.decrement 0) ∧ σ.shared.numTaskInQueue = 0 ∧
    (sysStep σ (.cpu 1 {})).map (·.shared.numTaskInQueue) = some (2 ^ 32 - 1)

/-- A run to such a state. -/
def Underflows (actions : List (Action 0 1)) : Prop :=
  ∃ σ : Sys Build.list 0 1,
    run (guarded sysStep fun σ a => ThreadAvailable σ a ∧ NoPanic σ a) (Sys.init Build.list 0 1)
        actions = some σ ∧
      Executed (fun σ a => ThreadAvailable σ a ∧ NoPanic σ a) σ ∧ σ.wraps = true ∧
      ¬ CounterExact σ

theorem underflows_of_run {actions : List (Action 0 1)}
    (h : (run (guarded sysStep fun σ a => ThreadAvailable σ a ∧ NoPanic σ a)
      (Sys.init Build.list 0 1) actions).any Sys.wraps = true) : Underflows actions := by
  obtain ⟨σ, hrun, hσ⟩ := exists_of_run_any _ _ actions Sys.wraps h
  obtain ⟨hpc, hzero, -⟩ := of_decide_eq_true hσ
  refine ⟨σ, hrun, .of_reachable (Reaches.of_run hrun), hσ, fun hexact => ?_⟩
  have hpos := hexact.positive 1 0 (.inl hpc)
  rw [hzero] at hpos
  exact absurd hpos (Nat.lt_irrefl 0)

/-- **The counter wraps around**, after one rotation of two round-robin tasks and after a clustered
task has preempted another one. And it stays one too high when the panic of a wake is caught. -/
theorem counter_underflows : (Underflows rotated ∧ Underflows preemptedByClustered) ∧
    ∃ σ : Sys Build.list 0 1, Executed (fun σ a => ThreadAvailable σ a ∧ CountsAlike σ a) σ ∧
      σ.Quiescent ∧ σ.shared.numTaskInQueue = 1 ∧ σ.shared.numWaiting = 0 := by
  refine ⟨⟨underflows_of_run (by decide), underflows_of_run (by decide)⟩, ?_⟩
  exact Reaches.exists_of_run panickingWake (by decide +kernel)

end Awkernel
