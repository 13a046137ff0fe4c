import Awkernel.Sync.Barrier
import Mathlib.Data.Finset.Card
import Mathlib.Data.List.Range

/-!
# The rounds of a barrier

The runs in which a task takes a number only at a subscriber where nobody waits. With `rounds`
leaders so far, a task between two calls has passed the barrier `rounds` times, and a task with a
number of the present round has called `wait` once more (`TaskOk`). The tasks of the last round
that still wait are exactly at the subscribers to which the leader has still to come or at which
its message lies (`Messages.due`), so a message never meets a task of the present round.

* `Inv.others_joined` — when a leader comes, the `n - 1` numbers are taken by the `n - 1` other
  tasks, so all tasks are in their last call.
* `Inv.step` — every step under the condition keeps the invariant. The steps that change one
  task and no number go through `OnlyTask`.
* `barrier_rounds` — the result, for every run.
-/

namespace Awkernel

open TransitionSystem List Function
open Finset hiding mem_range range

namespace Barrier

/-- The task has still to send a message to subscriber `i`. -/
def Pc.Carries (i : Nat) : Pc → Prop
  | .sending none => True
  | .sending (some rest) => i ∈ rest
  | _ => False

/-- The task is a leader. -/
def Pc.Leads : Pc → Prop
  | .sending _ | .yielding => True
  | _ => False

variable {i : Nat}

theorem Pc.Carries.leads : ∀ {p : Pc}, p.Carries i → p.Leads
  | .sending _, _ => trivial

/-- How often a task has called `wait` and returned, after `rounds` leaders. -/
def TaskOk (rounds calls returns : Nat) : Pc → Prop
  | .idle => calls = rounds ∧ returns = rounds
  | .locking | .locked => calls = rounds + 1 ∧ returns = rounds
  | .receiving _ => (calls = rounds ∨ calls = rounds + 1) ∧ returns + 1 = calls
  | .sending _ | .yielding => calls = rounds ∧ returns + 1 = calls

theorem TaskOk.bounds {rounds calls returns : Nat} :
    ∀ {p : Pc}, TaskOk rounds calls returns p → returns ≤ rounds ∧ rounds ≤ calls := by
  intro p h
  cases p <;> simp only [TaskOk] at h <;> omega

namespace State

variable {σ σ' : State} {t : Nat} {inner : InnerSubscriber Unit}

/-! ### The invariant -/

/-- Somebody has still to send a message to subscriber `i`. -/
def Unsent (σ : State) (i : Nat) : Prop := ∃ t < σ.numThreads, (σ.pc t).Carries i

/-- A task waits at subscriber `i` that has called `wait` so many times. -/
def WaitsAt (σ : State) (i calls : Nat) : Prop :=
  ∃ t < σ.numThreads, σ.pc t = .receiving i ∧ σ.calls t = calls

/-- What is known of the tasks. -/
structure Tasks (σ : State) : Prop where
  task : ∀ t < σ.numThreads, TaskOk σ.rounds (σ.calls t) (σ.returns t) (σ.pc t)
  /-- A subscriber has at most one waiting task. -/
  alone : ∀ {t t' i}, t < σ.numThreads → t' < σ.numThreads → σ.pc t = .receiving i →
    σ.pc t' = .receiving i → t = t'
  index : ∀ {t i}, t < σ.numThreads → σ.pc t = .receiving i → i < σ.numThreads - 1
  leader : ∀ {t t'}, t < σ.numThreads → t' < σ.numThreads → (σ.pc t).Leads → (σ.pc t').Leads →
    t = t'
  rest : ∀ {t rest}, t < σ.numThreads → σ.pc t = .sending (some rest) →
    rest.Nodup ∧ ∀ i ∈ rest, i < σ.numThreads - 1

/-- Where the messages of the last leader are. -/
structure Messages (σ : State) : Prop where
  /-- The tasks that still wait in the last round are those with a message to come. -/
  due : ∀ i < σ.numThreads - 1, (σ.WaitsAt i σ.rounds ↔ σ.Unsent i ∨ (σ.inner i).items ≠ [])
  once : ∀ i < σ.numThreads - 1, σ.Unsent i → (σ.inner i).items = []

/-- Every round that is over has one leader, the last one as soon as its leader has returned. -/
structure Leaders (σ : State) : Prop where
  le_one : ∀ r, (σ.led r).length ≤ 1
  later : ∀ r, σ.rounds < r → σ.led r = []
  past : ∀ r, 0 < r → r ≤ σ.rounds → σ.led r = [] →
    r = σ.rounds ∧ ∃ t < σ.numThreads, (σ.pc t).Leads
  present : ∀ t < σ.numThreads, (σ.pc t).Leads → σ.led σ.rounds = []

/-- What the steps of such a run keep. -/
structure Inv (σ : State) : Prop where
  two : 2 ≤ σ.numThreads
  order : σ.order.Perm (range (σ.numThreads - 1))
  queues : σ.Queues
  short : ∀ i, (σ.inner i).items.length ≤ 1
  count_le : σ.count ≤ σ.numThreads - 1
  tasks : σ.Tasks
  /-- The numbers of the present round. -/
  joined : ∀ i, σ.WaitsAt i (σ.rounds + 1) ↔ i < σ.count
  messages : σ.Messages
  leaders : σ.Leaders

/-! ### Steps of one task -/

/-- Only task `t` has moved, and no leader has come. -/
structure OnlyTask (σ σ' : State) (t : Nat) : Prop where
  num : σ'.numThreads = σ.numThreads
  order : σ'.order = σ.order
  rounds : σ'.rounds = σ.rounds
  pc : ∀ t' ≠ t, σ'.pc t' = σ.pc t'
  calls : ∀ t' ≠ t, σ'.calls t' = σ.calls t'
  returns : ∀ t' ≠ t, σ'.returns t' = σ.returns t'

namespace OnlyTask

theorem symm (ho : OnlyTask σ σ' t) : OnlyTask σ' σ t :=
  ⟨ho.num.symm, ho.order.symm, ho.rounds.symm, fun t' h => (ho.pc t' h).symm,
    fun t' h => (ho.calls t' h).symm, fun t' h => (ho.returns t' h).symm⟩

variable {i : Nat}

section

variable (ho : OnlyTask σ σ' t)

include ho

theorem waitsAt {c : Nat} (hnot : ¬(σ.pc t = .receiving i ∧ σ.calls t = c))
    (h : σ.WaitsAt i c) : σ'.WaitsAt i c := by
  obtain ⟨t', hlt, hpc, hcalls⟩ := h
  have hne : t' ≠ t := by
    rintro rfl
    exact hnot ⟨hpc, hcalls⟩
  exact ⟨t', ho.num ▸ hlt, (ho.pc t' hne).trans hpc, (ho.calls t' hne).trans hcalls⟩

theorem waitsAt_iff {c : Nat} (hnot : ¬(σ.pc t = .receiving i ∧ σ.calls t = c))
    (hnot' : ¬(σ'.pc t = .receiving i ∧ σ'.calls t = c)) : σ'.WaitsAt i c ↔ σ.WaitsAt i c :=
  ⟨ho.symm.waitsAt hnot', ho.waitsAt hnot⟩

theorem unsent (himp : (σ.pc t).Carries i → (σ'.pc t).Carries i)
    (h : σ.Unsent i) : σ'.Unsent i := by
  obtain ⟨t', hlt, hcarries⟩ := h
  refine ⟨t', ho.num ▸ hlt, ?_⟩
  by_cases heq : t' = t
  · subst heq
    exact himp hcarries
  · rw [ho.pc t' heq]
    exact hcarries

theorem unsent_iff (hiff : (σ'.pc t).Carries i ↔ (σ.pc t).Carries i) : σ'.Unsent i ↔ σ.Unsent i :=
  ⟨ho.symm.unsent hiff.mp, ho.unsent hiff.mpr⟩

/-- The tasks after a step of one of them, which does not become a leader. -/
theorem tasks (h : σ.Tasks) (htask : TaskOk σ.rounds (σ'.calls t) (σ'.returns t) (σ'.pc t))
    (hfree : ∀ i, σ'.pc t = .receiving i →
      i < σ.numThreads - 1 ∧ ∀ t' < σ.numThreads, σ.pc t' ≠ .receiving i)
    (hleads : (σ'.pc t).Leads → (σ.pc t).Leads)
    (hrest : ∀ rest, σ'.pc t = .sending (some rest) →
      rest.Nodup ∧ ∀ i ∈ rest, i < σ.numThreads - 1) : σ'.Tasks := by
  have hold : ∀ t' < σ.numThreads, (σ'.pc t').Leads → (σ.pc t').Leads := by
    intro t' _ hl
    by_cases heq : t' = t
    · subst heq
      exact hleads hl
    · rwa [ho.pc t' heq] at hl
  constructor
  · intro t' hlt
    rw [ho.num] at hlt
    rw [ho.rounds]
    by_cases heq : t' = t
    · subst heq
      exact htask
    · rw [ho.calls t' heq, ho.returns t' heq, ho.pc t' heq]
      exact h.task t' hlt
  · intro t₁ t₂ i h₁ h₂ hpc₁ hpc₂
    rw [ho.num] at h₁ h₂
    by_cases heq₁ : t₁ = t <;> by_cases heq₂ : t₂ = t
    · exact heq₁.trans heq₂.symm
    · rw [heq₁] at hpc₁
      rw [ho.pc t₂ heq₂] at hpc₂
      exact absurd hpc₂ ((hfree i hpc₁).2 t₂ h₂)
    · rw [heq₂] at hpc₂
      rw [ho.pc t₁ heq₁] at hpc₁
      exact absurd hpc₁ ((hfree i hpc₂).2 t₁ h₁)
    · rw [ho.pc t₁ heq₁] at hpc₁
      rw [ho.pc t₂ heq₂] at hpc₂
      exact h.alone h₁ h₂ hpc₁ hpc₂
  · intro t' i hlt hpc
    rw [ho.num] at hlt ⊢
    by_cases heq : t' = t
    · subst heq
      exact (hfree i hpc).1
    · rw [ho.pc t' heq] at hpc
      exact h.index hlt hpc
  · intro t₁ t₂ h₁ h₂ hl₁ hl₂
    rw [ho.num] at h₁ h₂
    exact h.leader h₁ h₂ (hold t₁ h₁ hl₁) (hold t₂ h₂ hl₂)
  · intro t' rest hlt hpc
    rw [ho.num] at hlt ⊢
    by_cases heq : t' = t
    · subst heq
      exact hrest rest hpc
    · rw [ho.pc t' heq] at hpc
      exact h.rest hlt hpc

/-- A step that returns no leader leaves the list of leaders right. -/
theorem leaders (h : σ.Leaders) (hled : σ'.led = σ.led)
    (hiff : (σ'.pc t).Leads ↔ (σ.pc t).Leads) : σ'.Leaders := by
  have hsame : ∀ t', (σ'.pc t').Leads ↔ (σ.pc t').Leads := by
    intro t'
    by_cases heq : t' = t
    · subst heq
      exact hiff
    · rw [ho.pc t' heq]
  constructor
  · rw [hled]
    exact h.le_one
  · rw [hled, ho.rounds]
    exact h.later
  · intro r hpos hle hnil
    rw [hled] at hnil
    rw [ho.rounds] at hle ⊢
    obtain ⟨hr, t', hlt, hl⟩ := h.past r hpos hle hnil
    exact ⟨hr, t', ho.num ▸ hlt, (hsame t').mpr hl⟩
  · intro t' hlt hl
    rw [hled, ho.rounds]
    exact h.present t' (ho.num ▸ hlt) ((hsame t').mp hl)

end

end OnlyTask

theorem Queues.update (h : σ.Queues)
    (hinner : inner.size = 1 ∧ inner.closed = false ∧ inner.wakerPublishers = []) :
    { σ with inner := update σ.inner i inner }.Queues := by
  intro j
  show (Function.update σ.inner i inner j).size = 1 ∧
    (Function.update σ.inner i inner j).closed = false ∧
      (Function.update σ.inner i inner j).wakerPublishers = []
  by_cases heq : j = i
  · rw [heq, update_self]
    exact hinner
  · rw [update_of_ne heq]
    exact h j

namespace Inv

theorem waits_new (h : σ.Inv) (hi : i < σ.numThreads - 1)
    (hw : σ.WaitsAt i (σ.rounds + 1)) : ¬σ.Unsent i ∧ (σ.inner i).items = [] := by
  have hold : ¬σ.WaitsAt i σ.rounds := by
    rintro ⟨t, hlt, hpc, hcalls⟩
    obtain ⟨t', hlt', hpc', hcalls'⟩ := hw
    obtain rfl := h.tasks.alone hlt hlt' hpc hpc'
    exact absurd (hcalls.symm.trans hcalls') (Nat.lt_succ_self _).ne
  rw [h.messages.due i hi, not_or, not_not] at hold
  exact hold

variable {lock : AsyncLockInner}

section

variable (h : σ.Inv)

include h

/-- Nothing but the lock and the wakers of the subscribers has changed. -/
theorem frame {inner : Nat → InnerSubscriber Unit}
    (hitems : ∀ i, (inner i).items = (σ.inner i).items)
    (hqueues : { σ with lock := lock, inner := inner }.Queues) :
    { σ with lock := lock, inner := inner }.Inv where
  two := h.two
  order := h.order
  queues := hqueues
  short := fun i => (congrArg length (hitems i)).trans_le (h.short i)
  count_le := h.count_le
  tasks := ⟨h.tasks.task, h.tasks.alone, h.tasks.index, h.tasks.leader, h.tasks.rest⟩
  joined := h.joined
  messages := by
    constructor
    · intro i hi
      rw [hitems]
      exact h.messages.due i hi
    · intro i hi hunsent
      exact (hitems i).trans (h.messages.once i hi hunsent)
  leaders := ⟨h.leaders.le_one, h.leaders.later, h.leaders.past, h.leaders.present⟩

/-- A step of a task that does not wait for a message, before or after. -/
theorem relabel (ho : OnlyTask σ σ' t) (hinner : σ'.inner = σ.inner) (hcount : σ'.count = σ.count)
    (hnot : ∀ i, σ.pc t ≠ .receiving i) (hnot' : ∀ i, σ'.pc t ≠ .receiving i)
    (htask : TaskOk σ.rounds (σ'.calls t) (σ'.returns t) (σ'.pc t))
    (hleads : (σ'.pc t).Leads → (σ.pc t).Leads)
    (hrest : ∀ rest, σ'.pc t = .sending (some rest) → rest.Nodup ∧ ∀ i ∈ rest, i < σ.numThreads - 1)
    (hcarries : ∀ i < σ.numThreads - 1, (σ'.pc t).Carries i ↔ (σ.pc t).Carries i)
    (hleaders : σ'.Leaders) : σ'.Inv := by
  have hwaits : ∀ i c, σ'.WaitsAt i c ↔ σ.WaitsAt i c := fun i c =>
    ho.waitsAt_iff (fun hw => hnot i hw.1) fun hw => hnot' i hw.1
  have hqueues : σ'.Queues := by
    intro i
    rw [hinner]
    exact h.queues i
  refine ⟨ho.num ▸ h.two, ho.order ▸ ho.num ▸ h.order, hqueues, hinner ▸ h.short, ?_,
    ho.tasks h.tasks htask (fun i hi => absurd hi (hnot' i)) hleads hrest, fun i => ?_,
    ⟨fun i hi => ?_, fun i hi hunsent => ?_⟩, hleaders⟩
  · rw [hcount, ho.num]
    exact h.count_le
  · rw [hwaits, ho.rounds, hcount]
    exact h.joined i
  · rw [ho.num] at hi
    rw [hwaits, ho.rounds, ho.unsent_iff (hcarries i hi), hinner]
    exact h.messages.due i hi
  · rw [ho.num] at hi
    rw [ho.unsent_iff (hcarries i hi)] at hunsent
    rw [hinner]
    exact h.messages.once i hi hunsent

section

variable (ht : t < σ.numThreads)

include ht

/-- A task that joins takes the next index. -/
theorem join (hpc : σ.pc t = .locked) (hcount : σ.count < σ.numThreads - 1)
    (hfree : ∀ t' < σ.numThreads, σ.pc t' ≠ .receiving σ.count) :
    { σ with
      count := σ.count + 1
      lock := lock
      pc := update σ.pc t (.receiving σ.count) }.Inv := by
  set σ' : State := { σ with
    count := σ.count + 1
    lock := lock
    pc := update σ.pc t (.receiving σ.count) } with hσ'
  have ho : OnlyTask σ σ' t :=
    ⟨rfl, rfl, rfl, fun t' hne => update_of_ne hne _ _, fun _ _ => rfl, fun _ _ => rfl⟩
  have hpc' : σ'.pc t = .receiving σ.count := update_self _ _ _
  obtain ⟨hcalls, hreturns⟩ : σ.calls t = σ.rounds + 1 ∧ σ.returns t = σ.rounds := by
    have htask := h.tasks.task t ht
    rwa [hpc] at htask
  have hnot : ∀ i c, ¬(σ.pc t = .receiving i ∧ σ.calls t = c) := by
    rintro i c ⟨hi, -⟩
    cases hpc.symm.trans hi
  have hold : ∀ i, σ'.WaitsAt i σ.rounds ↔ σ.WaitsAt i σ.rounds := fun i =>
    ho.waitsAt_iff (hnot i _) fun hw => absurd (hcalls.symm.trans hw.2) (Nat.lt_succ_self _).ne'
  have hunsent : ∀ i, σ'.Unsent i ↔ σ.Unsent i := fun i =>
    ho.unsent_iff (by rw [hpc, hpc']; exact Iff.rfl)
  refine ⟨h.two, h.order, h.queues, h.short, hcount, ho.tasks h.tasks ?_ ?_ ?_ ?_, fun i => ?_,
    ⟨fun i hi => ?_, fun i hi hu => ?_⟩, ho.leaders h.leaders rfl ?_⟩
  · rw [hpc']
    exact ⟨.inr hcalls, (congrArg (· + 1) hreturns).trans hcalls.symm⟩
  · intro i hi
    cases hpc'.symm.trans hi
    exact ⟨hcount, hfree⟩
  · rw [hpc']
    exact False.elim
  · intro rest hi
    cases hpc'.symm.trans hi
  · change σ'.WaitsAt i (σ.rounds + 1) ↔ i < σ.count + 1
    by_cases heq : i = σ.count
    · subst heq
      exact iff_of_true ⟨t, ht, hpc', hcalls⟩ (Nat.lt_succ_self _)
    have hother : ¬(σ'.pc t = .receiving i ∧ σ'.calls t = σ.rounds + 1) := fun hw =>
      heq (Pc.receiving.inj (hpc'.symm.trans hw.1)).symm
    rw [ho.waitsAt_iff (hnot i _) hother, h.joined]
    omega
  · exact (hold i).trans ((h.messages.due i hi).trans (or_congr_left (hunsent i).symm))
  · exact h.messages.once i hi ((hunsent i).mp hu)
  · rw [hpc, hpc']
    exact Iff.rfl

theorem others_joined (hpc : σ.pc t = .locked)
    (hcount : ¬σ.count < σ.numThreads - 1) {t' : Nat} (ht' : t' < σ.numThreads) (hne : t' ≠ t) :
    ∃ i, σ.pc t' = .receiving i ∧ σ.calls t' = σ.rounds + 1 := by
  have hfull : σ.count = σ.numThreads - 1 := le_antisymm h.count_le (not_lt.mp hcount)
  have htaken : ∀ i, ∃ u, i < σ.count →
      u < σ.numThreads ∧ σ.pc u = .receiving i ∧ σ.calls u = σ.rounds + 1 := by
    intro i
    by_cases hi : i < σ.count
    · obtain ⟨u, hu⟩ := (h.joined i).mpr hi
      exact ⟨u, fun _ => hu⟩
    · exact ⟨0, fun hlt => absurd hlt hi⟩
  choose taker htaker using htaken
  -- the takers are `n - 1` of the `n - 1` tasks other than `t`
  have hsub : (Finset.range σ.count).image taker ⊆ (Finset.range σ.numThreads).erase t := by
    intro u hu
    obtain ⟨i, hi, rfl⟩ := mem_image.mp hu
    obtain ⟨hlt, hrecv, -⟩ := htaker i (Finset.mem_range.mp hi)
    refine mem_erase.mpr ⟨fun heq => ?_, Finset.mem_range.mpr hlt⟩
    rw [heq, hpc] at hrecv
    cases hrecv
  have hcard : ((Finset.range σ.count).image taker).card = σ.count := by
    refine (card_image_of_injOn fun i hi j hj heq => ?_).trans (card_range _)
    have hrecv := (htaker i (Finset.mem_range.mp hi)).2.1
    rw [heq, (htaker j (Finset.mem_range.mp hj)).2.1] at hrecv
    exact (Pc.receiving.inj hrecv).symm
  have hall : (Finset.range σ.count).image taker = (Finset.range σ.numThreads).erase t := by
    refine eq_of_subset_of_card_le hsub ?_
    rw [hcard, card_erase_of_mem (Finset.mem_range.mpr ht), card_range, hfull]
  have hmem : t' ∈ (Finset.range σ.count).image taker := by
    rw [hall]
    exact mem_erase.mpr ⟨hne, Finset.mem_range.mpr ht'⟩
  obtain ⟨i, hi, rfl⟩ := mem_image.mp hmem
  exact ⟨i, (htaker i (Finset.mem_range.mp hi)).2⟩

/-- The last one to join begins the next round. -/
theorem lead (hpc : σ.pc t = .locked) (hcount : ¬σ.count < σ.numThreads - 1) : { σ with
      count := 0
      lock := lock
      rounds := σ.rounds + 1
      pc := update σ.pc t (.sending none) }.Inv := by
  set σ' : State := { σ with
    count := 0
    lock := lock
    rounds := σ.rounds + 1
    pc := update σ.pc t (.sending none) } with hσ'
  have hpc' : σ'.pc t = .sending none := update_self _ _ _
  have hother : ∀ t' ≠ t, σ'.pc t' = σ.pc t' := fun t' hne => update_of_ne hne _ _
  have hjoined : ∀ t' < σ.numThreads, t' ≠ t →
      ∃ i, σ.pc t' = .receiving i ∧ σ.calls t' = σ.rounds + 1 :=
    fun _ => h.others_joined ht hpc hcount
  have hcalls : ∀ t' < σ.numThreads, σ.calls t' = σ.rounds + 1 := by
    intro t' ht'
    by_cases heq : t' = t
    · have htask := h.tasks.task t ht
      rw [hpc] at htask
      exact heq ▸ htask.1
    · obtain ⟨i, -, hc⟩ := hjoined t' ht' heq
      exact hc
  have hsame : ∀ {t' i}, σ'.pc t' = .receiving i → t' ≠ t ∧ σ.pc t' = .receiving i := by
    intro t' i hrecv
    have hne : t' ≠ t := by
      rintro rfl
      cases hpc'.symm.trans hrecv
    exact ⟨hne, (hother t' hne).symm.trans hrecv⟩
  have hleads : ∀ t' < σ.numThreads, (σ'.pc t').Leads → t' = t := by
    intro t' ht' hl
    by_contra hne
    obtain ⟨i, hrecv, -⟩ := hjoined t' ht' hne
    rw [hother t' hne, hrecv] at hl
    exact hl
  have hwaits : ∀ i < σ.numThreads - 1, σ'.WaitsAt i (σ.rounds + 1) := by
    intro i hi
    have hlt : i < σ.count := hi.trans_le (not_lt.mp hcount)
    obtain ⟨t', ht', hrecv, hc⟩ := (h.joined i).mpr hlt
    have hne : t' ≠ t := by
      rintro rfl
      cases hpc.symm.trans hrecv
    exact ⟨t', ht', (hother t' hne).trans hrecv, hc⟩
  have hempty : ∀ i < σ.numThreads - 1, (σ.inner i).items = [] := fun i hi =>
    (h.waits_new hi ((h.joined i).mpr (hi.trans_le (not_lt.mp hcount)))).2
  have hunsent : ∀ i, σ'.Unsent i := fun i => ⟨t, ht, by rw [hpc']; exact trivial⟩
  refine ⟨h.two, h.order, h.queues, h.short, Nat.zero_le _, ⟨fun t' ht' => ?_, ?_, ?_, ?_, ?_⟩,
    fun i => ?_, ⟨fun i hi => ?_, fun i hi _ => hempty i hi⟩, ⟨h.leaders.le_one, ?_, ?_, ?_⟩⟩
  · have htask := h.tasks.task t' ht'
    by_cases heq : t' = t
    · subst heq
      rw [hpc] at htask
      rw [hpc']
      exact ⟨htask.1, (congrArg (· + 1) htask.2).trans htask.1.symm⟩
    · obtain ⟨i, hrecv, hc⟩ := hjoined t' ht' heq
      rw [hrecv] at htask
      rw [hother t' heq, hrecv]
      exact ⟨.inl hc, htask.2⟩
  · intro t₁ t₂ i h₁ h₂ hrecv₁ hrecv₂
    exact h.tasks.alone h₁ h₂ (hsame hrecv₁).2 (hsame hrecv₂).2
  · intro t' i ht' hrecv
    exact h.tasks.index ht' (hsame hrecv).2
  · intro t₁ t₂ h₁ h₂ hl₁ hl₂
    exact (hleads t₁ h₁ hl₁).trans (hleads t₂ h₂ hl₂).symm
  · intro t' rest ht' hsend
    obtain rfl := hleads t' ht' (by rw [hsend]; exact trivial)
    cases hpc'.symm.trans hsend
  · refine iff_of_false ?_ (Nat.not_lt_zero i)
    rintro ⟨t', ht', -, hc⟩
    exact absurd ((hcalls t' ht').symm.trans hc) (Nat.lt_succ_self _).ne
  · exact iff_of_true (hwaits i hi) (.inl (hunsent i))
  · intro r hr
    exact h.leaders.later r ((Nat.lt_succ_self _).trans hr)
  · intro r hpos hle hnil
    -- an earlier round without a leader would have one that has not returned, but all others wait
    have hr : r = σ.rounds + 1 := by
      by_contra hne
      have hle' : r ≤ σ.rounds := Nat.lt_succ_iff.mp (lt_of_le_of_ne hle hne)
      obtain ⟨-, t', ht', hl⟩ := h.leaders.past r hpos hle' hnil
      by_cases heq : t' = t
      · rw [heq, hpc] at hl
        exact hl
      obtain ⟨i, hrecv, -⟩ := hjoined t' ht' heq
      rw [hrecv] at hl
      exact hl
    exact ⟨hr, t, ht, by rw [hpc']; exact trivial⟩
  · intro t' _ _
    exact h.leaders.later _ (Nat.lt_succ_self _)

/-- A message is taken by the one that waits for it. -/
theorem received {d : Data Unit} (hpc : σ.pc t = .receiving i)
    (hitems : (σ.inner i).items = d :: inner.items)
    (hqueue : inner.size = 1 ∧ inner.closed = false ∧ inner.wakerPublishers = []) :
    ({ σ with inner := update σ.inner i inner }.ret t).Inv := by
  set σ' : State := { σ with inner := update σ.inner i inner }.ret t with hσ'
  have ho : OnlyTask σ σ' t :=
    ⟨rfl, rfl, rfl, fun t' hne => update_of_ne hne _ _, fun _ _ => rfl,
      fun t' hne => update_of_ne hne _ _⟩
  have hpc' : σ'.pc t = .idle := update_self _ _ _
  have hi : i < σ.numThreads - 1 := h.tasks.index ht hpc
  have hne : (σ.inner i).items ≠ [] := by
    rw [hitems]
    exact cons_ne_nil _ _
  have hnil : inner.items = [] := by
    have hshort := h.short i
    rw [hitems, length_cons] at hshort
    exact eq_nil_of_length_eq_zero (Nat.le_zero.mp (Nat.le_of_succ_le_succ hshort))
  -- the message was for the last round, and nobody else waits here
  have hcalls : σ.calls t = σ.rounds := by
    obtain ⟨t', ht', hrecv, hc⟩ := (h.messages.due i hi).mpr (.inr hne)
    obtain rfl := h.tasks.alone ht' ht hrecv hpc
    exact hc
  have hreturns : σ.returns t + 1 = σ.rounds := by
    have htask := h.tasks.task t ht
    rw [hpc] at htask
    exact htask.2.trans hcalls
  have hgone : ∀ j c, ¬(σ'.pc t = .receiving j ∧ σ'.calls t = c) := by
    rintro j c ⟨hj, -⟩
    cases hpc'.symm.trans hj
  have hunsent : ∀ j, σ'.Unsent j ↔ σ.Unsent j := fun j =>
    ho.unsent_iff (by rw [hpc, hpc']; exact Iff.rfl)
  have hnotHere : ¬σ'.WaitsAt i σ.rounds := by
    rintro ⟨t', ht', hrecv, hc⟩
    have hother : t' ≠ t := by
      rintro rfl
      exact hgone i _ ⟨hrecv, hc⟩
    exact hother (h.tasks.alone ht' ht ((ho.pc t' hother).symm.trans hrecv) hpc)
  have hinner : ∀ j ≠ i, σ'.inner j = σ.inner j := fun j hj => update_of_ne hj _ _
  have hinner' : σ'.inner i = inner := update_self _ _ _
  refine ⟨h.two, h.order, h.queues.update hqueue, fun j => ?_, h.count_le,
    ho.tasks h.tasks ?_ ?_ ?_ ?_, fun j => ?_,
    ⟨fun j hj => ?_, fun j hj hu => ?_⟩, ho.leaders h.leaders rfl ?_⟩
  · by_cases heq : j = i
    · rw [heq, hinner', hnil]
      exact Nat.zero_le 1
    · rw [hinner j heq]
      exact h.short j
  · rw [hpc']
    exact ⟨hcalls, (update_self _ _ _).trans hreturns⟩
  · intro j hj
    cases hpc'.symm.trans hj
  · rw [hpc']
    exact False.elim
  · intro rest hrest
    cases hpc'.symm.trans hrest
  · refine (ho.waitsAt_iff ?_ (hgone j _)).trans (h.joined j)
    rintro ⟨-, hc⟩
    exact absurd (hcalls.symm.trans hc) (Nat.lt_succ_self _).ne
  · change σ'.WaitsAt j σ.rounds ↔ σ'.Unsent j ∨ _
    by_cases heq : j = i
    · subst heq
      rw [hinner', hnil]
      refine iff_of_false hnotHere ?_
      rintro (hu | hne')
      · exact hne (h.messages.once j hj ((hunsent j).mp hu))
      · exact hne' rfl
    · have hother : ¬(σ.pc t = .receiving j ∧ σ.calls t = σ.rounds) := fun hw =>
        heq (Pc.receiving.inj (hw.1.symm.trans hpc))
      rw [hinner j heq, hunsent, ho.waitsAt_iff hother (hgone j _)]
      exact h.messages.due j hj
  · by_cases heq : j = i
    · rw [heq, hinner', hnil]
    · rw [hinner j heq]
      exact h.messages.once j hj ((hunsent j).mp hu)
  · rw [hpc, hpc']
    exact Iff.rfl

/-- The leader sends one message to each of the others. -/
theorem pushed {rest : List Nat} {m : Data Unit} (hpc : σ.pc t = .sending (some (i :: rest)))
    (hitems : inner.items = [m])
    (hqueue : inner.size = 1 ∧ inner.closed = false ∧ inner.wakerPublishers = []) :
    { σ with
      inner := update σ.inner i inner
      pc := update σ.pc t (.sending (some rest)) }.Inv := by
  set σ' : State := { σ with
    inner := update σ.inner i inner
    pc := update σ.pc t (.sending (some rest)) } with hσ'
  have ho : OnlyTask σ σ' t :=
    ⟨rfl, rfl, rfl, fun t' hne => update_of_ne hne _ _, fun _ _ => rfl, fun _ _ => rfl⟩
  have hpc' : σ'.pc t = .sending (some rest) := update_self _ _ _
  obtain ⟨hnodup, hbound⟩ := h.tasks.rest ht hpc
  obtain ⟨hnotMem, hnodup'⟩ := nodup_cons.mp hnodup
  have hcarries : (σ.pc t).Carries i := by
    rw [hpc]
    exact mem_cons_self
  have hwaits : ∀ j c, σ'.WaitsAt j c ↔ σ.WaitsAt j c := fun j c =>
    ho.waitsAt_iff (fun hw => absurd (hpc.symm.trans hw.1) nofun)
      fun hw => absurd (hpc'.symm.trans hw.1) nofun
  have hsent : ¬σ'.Unsent i := by
    rintro ⟨t', ht', hc⟩
    by_cases heq : t' = t
    · rw [heq, hpc'] at hc
      exact hnotMem hc
    · rw [ho.pc t' heq] at hc
      exact heq (h.tasks.leader ht' ht hc.leads hcarries.leads)
  have hunsent : ∀ j ≠ i, (σ'.Unsent j ↔ σ.Unsent j) := by
    intro j hj
    refine ho.unsent_iff ?_
    rw [hpc, hpc']
    exact ⟨mem_cons_of_mem i, fun hmem => (mem_cons.mp hmem).resolve_left hj⟩
  have hinner : ∀ j ≠ i, σ'.inner j = σ.inner j := fun j hj => update_of_ne hj _ _
  have hinner' : σ'.inner i = inner := update_self _ _ _
  refine ⟨h.two, h.order, h.queues.update hqueue, fun j => ?_, h.count_le,
    ho.tasks h.tasks ?_ ?_ ?_ ?_, fun j => (hwaits j _).trans (h.joined j),
    ⟨fun j hj => ?_, fun j hj hu => ?_⟩, ho.leaders h.leaders rfl ?_⟩
  · by_cases heq : j = i
    · rw [heq, hinner', hitems]
      exact le_rfl
    · rw [hinner j heq]
      exact h.short j
  · have htask := h.tasks.task t ht
    rw [hpc] at htask
    rw [hpc']
    exact htask
  · intro j hj
    cases hpc'.symm.trans hj
  · rw [hpc]
    exact fun _ => trivial
  · intro rest' hrest
    cases Pc.sending.inj (hpc'.symm.trans hrest)
    exact ⟨hnodup', fun j hj => hbound j (mem_cons_of_mem i hj)⟩
  · rw [hwaits]
    by_cases heq : j = i
    · subst heq
      rw [hinner', hitems]
      exact iff_of_true ((h.messages.due j hj).mpr (.inl ⟨t, ht, hcarries⟩))
        (.inr (cons_ne_nil _ _))
    · rw [hinner j heq, hunsent j heq]
      exact h.messages.due j hj
  · by_cases heq : j = i
    · exact absurd (heq ▸ hu) hsent
    · rw [hinner j heq]
      exact h.messages.once j hj ((hunsent j heq).mp hu)
  · rw [hpc, hpc']
    exact Iff.rfl

theorem finish (hpc : σ.pc t = .yielding) : { σ.ret t with
      led := update σ.led (σ.returns t + 1) (σ.led (σ.returns t + 1) ++ [t]) }.Inv := by
  set σ' : State := { σ.ret t with
    led := update σ.led (σ.returns t + 1) (σ.led (σ.returns t + 1) ++ [t]) } with hσ'
  have ho : OnlyTask σ σ' t :=
    ⟨rfl, rfl, rfl, fun t' hne => update_of_ne hne _ _, fun _ _ => rfl,
      fun t' hne => update_of_ne hne _ _⟩
  have hpc' : σ'.pc t = .idle := update_self _ _ _
  obtain ⟨hcalls, hreturns⟩ : σ.calls t = σ.rounds ∧ σ.returns t + 1 = σ.calls t := by
    have htask := h.tasks.task t ht
    rwa [hpc] at htask
  have hround : σ.returns t + 1 = σ.rounds := hreturns.trans hcalls
  have hleads : (σ.pc t).Leads := by
    rw [hpc]
    exact trivial
  have hled : σ'.led σ.rounds = [t] := by
    change update σ.led (σ.returns t + 1) (σ.led (σ.returns t + 1) ++ [t]) _ = _
    rw [hround, update_self, h.leaders.present t ht hleads, nil_append]
  have hled' : ∀ r ≠ σ.rounds, σ'.led r = σ.led r := by
    intro r hr
    rw [← hround] at hr
    exact update_of_ne hr _ _
  have hnobody : ∀ t' < σ.numThreads, ¬(σ'.pc t').Leads := by
    intro t' ht' hl
    by_cases heq : t' = t
    · rw [heq, hpc'] at hl
      exact hl
    · rw [ho.pc t' heq] at hl
      exact heq (h.tasks.leader ht' ht hl hleads)
  refine h.relabel ho rfl rfl ?_ ?_ ?_ ?_ ?_ ?_ ⟨fun r => ?_, fun r hr => ?_,
    fun r hpos hle hnil => ?_, fun t' ht' hl => absurd hl (hnobody t' ht')⟩
  · intro i hi
    cases hpc.symm.trans hi
  · intro i hi
    cases hpc'.symm.trans hi
  · rw [hpc']
    exact ⟨hcalls, (update_self _ _ _).trans hround⟩
  · exact fun _ => hleads
  · intro rest hrest
    cases hpc'.symm.trans hrest
  · intro i _
    rw [hpc, hpc']
    exact Iff.rfl
  · by_cases heq : r = σ.rounds
    · rw [heq, hled]
      exact le_rfl
    · rw [hled' r heq]
      exact h.leaders.le_one r
  · rw [hled' r (ne_of_gt hr)]
    exact h.leaders.later r hr
  · have hne : r ≠ σ.rounds := by
      rintro rfl
      exact absurd (hled.symm.trans hnil) (cons_ne_nil _ _)
    rw [hled' r hne] at hnil
    exact absurd (h.leaders.past r hpos hle hnil).1 hne

end

theorem step {a : Action} (hok : σ.TakesFreeIndex a) (hs : σ.step a = some σ') : σ'.Inv := by
  obtain ⟨ht, hcase⟩ := step_cases h.queues hs
  generalize a.task = t at ht hcase
  have htask := h.tasks.task t ht
  have honly : ∀ {p : Pc} {calls : Nat}, OnlyTask σ
      { σ with pc := update σ.pc t p, calls := update σ.calls t calls } t :=
    ⟨rfl, rfl, rfl, fun _ hne => update_of_ne hne _ _,
      fun _ hne => update_of_ne hne _ _, fun _ _ => rfl⟩
  -- the steps of `relabel`: neither the old nor the new place is one of `recv`
  have hrelabel : ∀ {p q : Pc} {calls : Nat}, σ.pc t = q → (∀ i, q ≠ .receiving i) →
      (∀ i, p ≠ .receiving i) → TaskOk σ.rounds calls (σ.returns t) p → (p.Leads ↔ q.Leads) →
      (∀ rest, p = .sending (some rest) →
        rest.Nodup ∧ ∀ i ∈ rest, i < σ.numThreads - 1) →
      (∀ i < σ.numThreads - 1, p.Carries i ↔ q.Carries i) →
      { σ with
        pc := update σ.pc t p
        calls := update σ.calls t calls }.Inv := by
    intro p q calls hq hnot hnot' hok' hleads hrest hcarries
    have hself : update σ.pc t p t = p := update_self _ _ _
    subst hq
    refine h.relabel honly rfl rfl hnot ?_ ?_ ?_ ?_ ?_ (honly.leaders h.leaders rfl ?_)
    · rwa [← hself] at hnot'
    · change TaskOk _ (update σ.calls t calls t) _ (update σ.pc t p t)
      rwa [hself, update_self]
    · rw [← hself] at hleads
      exact hleads.mp
    · rwa [← hself] at hrest
    · rwa [← hself] at hcarries
    · rwa [← hself] at hleads
  cases hcase with
  | call hpc =>
    rw [hpc] at htask
    exact hrelabel hpc nofun nofun ⟨congrArg (· + 1) htask.1, htask.2⟩ Iff.rfl nofun
      fun _ _ => Iff.rfl
  | lock hpc =>
    rw [hpc] at htask
    have hmoved := hrelabel (p := .locked) hpc nofun nofun htask Iff.rfl nofun fun _ _ => Iff.rfl
    rw [update_eq_self] at hmoved
    exact hmoved.frame (fun _ => rfl) h.queues
  | park hpc => exact h.frame (fun _ => rfl) h.queues
  | join hpc hcount => exact h.join ht hpc hcount (hok hcount)
  | lead hpc hcount => exact h.lead ht hpc hcount
  | received hpc hitems hpubs hsize hclosed =>
    exact h.received ht hpc hitems ⟨hsize, hclosed, hpubs⟩
  | @nothing _ i inner hpc hitems hpubs hsize hclosed =>
    refine h.frame (fun j => ?_) (h.queues.update ⟨hsize, hclosed, hpubs⟩)
    by_cases heq : j = i
    · rw [heq, update_self]
      exact hitems
    · rw [update_of_ne heq]
  | snapshot hpc =>
    rw [hpc] at htask
    have hmoved := hrelabel (p := .sending (some σ.order)) hpc nofun nofun htask Iff.rfl
      (fun rest hrest => ?_) fun i hi => ?_
    · rwa [update_eq_self] at hmoved
    · cases Pc.sending.inj hrest
      exact ⟨h.order.nodup_iff.mpr nodup_range,
        fun i hi => mem_range.mp (h.order.mem_iff.mp hi)⟩
    · exact iff_of_true (h.order.mem_iff.mpr (mem_range.mpr hi)) trivial
  | pushed hpc _ hitems hpubs hsize hclosed =>
    exact h.pushed ht hpc hitems ⟨hsize, hclosed, hpubs⟩
  | @full _ i rest inner hpc hne =>
    -- the leader has still to come here, so no message lies here
    have hcarries : (σ.pc t).Carries i := by
      rw [hpc]
      exact mem_cons_self
    have hi : i < σ.numThreads - 1 := (h.tasks.rest ht hpc).2 i mem_cons_self
    exact absurd (h.messages.once i hi ⟨t, ht, hcarries⟩) hne
  | sent hpc =>
    rw [hpc] at htask
    have hmoved := hrelabel (p := .yielding) hpc nofun nofun htask Iff.rfl nofun fun i _ =>
      iff_of_false id not_mem_nil
    rwa [update_eq_self] at hmoved
  | finish hpc => exact h.finish ht hpc

end

end Inv

/-! ### The rounds -/

theorem Inv.rounds (h : σ.Inv) : σ.Rounds := by
  refine ⟨fun t ht t' ht' => ?_, h.leaders.le_one, fun r hpos hall => ?_⟩
  · exact (h.tasks.task t ht).bounds.1.trans (h.tasks.task t' ht').bounds.2
  have hzero : 0 < σ.numThreads := Nat.zero_lt_two.trans_le h.two
  have hle : r ≤ σ.rounds := (hall 0 hzero).trans (h.tasks.task 0 hzero).bounds.1
  have hne : σ.led r ≠ [] := by
    intro hnil
    -- the leader of the last round would not have returned from it
    obtain ⟨rfl, t, ht, hl⟩ := h.leaders.past r hpos hle hnil
    have htask := h.tasks.task t ht
    have hreturned := hall t ht
    cases hpc : σ.pc t <;> rw [hpc] at htask hl <;> simp only [TaskOk, Pc.Leads] at htask hl
    all_goals omega
  exact le_antisymm (h.leaders.le_one r) (length_pos_of_ne_nil hne)

theorem new_inv {n : Nat} {order : List Nat} (hnew : new n order = some σ)
    (horder : order.Perm (range (n - 1))) : σ.Inv := by
  obtain ⟨hn, ⟨⟩⟩ := Option.ite_none_left_eq_some.mp hnew
  refine ⟨not_lt.mp hn, horder, fun _ => ⟨rfl, rfl, rfl⟩, fun _ => Nat.zero_le 1, Nat.zero_le _,
    ⟨fun _ _ => ⟨rfl, rfl⟩, nofun, nofun, nofun, nofun⟩, fun i => ?_,
    ⟨fun i _ => ?_, fun _ _ _ => rfl⟩,
    ⟨fun _ => Nat.zero_le 1, fun _ _ => rfl, fun r hpos hle => ?_, nofun⟩⟩
  · refine iff_of_false ?_ (Nat.not_lt_zero i)
    rintro ⟨t, -, hpc, -⟩
    cases hpc
  · refine iff_of_false ?_ ?_
    · rintro ⟨t, -, hpc, -⟩
      cases hpc
    rintro (⟨t, -, hcarries⟩ | hne)
    · exact hcarries
    · exact hne rfl
  · exact absurd (hpos.trans_le hle) (Nat.lt_irrefl 0)

/-- **The barrier.** `Barrier::new(n)` succeeds for two tasks or more. In every run in which a task
takes a number only when nobody waits at the subscriber with that number, no task returns from its
`r`-th wait before all tasks have called theirs, no round has two leaders, and every round from
which all have returned has one. -/
theorem barrier_rounds (n : Nat) (order : List Nat) : ((new n order).isSome ↔ 2 ≤ n) ∧
      ∀ σ₀, new n order = some σ₀ → order.Perm (range (n - 1)) →
        ∀ σ, Reaches State.step TakesFreeIndex σ₀ σ → σ.Rounds := by
  constructor
  · unfold new
    split
    · next hlt => exact iff_of_false nofun (not_le.mpr hlt)
    · next hge => exact iff_of_true rfl (not_lt.mp hge)
  · intro σ₀ hnew horder σ h
    have hinv := h.invariant (I := Inv) (new_inv hnew horder) fun _ _ _ hI hok hs => hI.step hok hs
    exact hinv.rounds

instance (σ : State) : DecidablePred σ.TakesFreeIndex := fun a => by
  induction a using Action.casesOn <;> dsimp only [TakesFreeIndex] <;> infer_instance

/-- The steps of a leader from its call to its return, among two tasks. -/
def leaderSteps (t : Nat) : List Action :=
  [.call t, .lock t 0, .pass t, .send t 0, .send t 0, .send t 0, .finish t]

/-- Two rounds of two tasks, each led by another one. -/
theorem barrier_rounds_two : ∃ σ₀ σ : State, new 2 [0] = some σ₀ ∧
    Reaches State.step TakesFreeIndex σ₀ σ ∧ σ.returns 0 = 2 ∧ σ.returns 1 = 2 ∧ σ.Rounds := by
  obtain ⟨σ₀, hnew⟩ := Option.isSome_iff_exists.mp ((barrier_rounds 2 [0]).1.mpr le_rfl)
  obtain ⟨σ, hrun, hσ⟩ := exists_of_run_any (guarded State.step TakesFreeIndex) σ₀
    ([.call 0, .lock 0 0, .pass 0] ++ leaderSteps 1 ++ [.recv 0 0] ++
      [.call 1, .lock 1 0, .pass 1] ++ leaderSteps 0 ++ [.recv 1 0])
    (fun σ => decide (σ.returns 0 = 2) && decide (σ.returns 1 = 2))
    (by cases hnew; decide)
  rw [Bool.and_eq_true, decide_eq_true_iff, decide_eq_true_iff] at hσ
  have hreach := Reaches.of_run hrun
  exact ⟨σ₀, σ, hnew, hreach, hσ.1, hσ.2,
    (barrier_rounds 2 [0]).2 σ₀ hnew (List.Perm.refl _) σ hreach⟩

/-- No barrier is made for one task. Of two tasks the leader returns and calls `wait` again, takes
the number of the other one, receives its message and returns from its second wait, when the other
one has called `wait` only once. -/
theorem early_return :
    (∀ order, new 1 order = none) ∧
      ∃ σ₀ σ : State, new 2 [0] = some σ₀ ∧
        run State.step σ₀ ([.call 0, .lock 0 0, .pass 0] ++ leaderSteps 1 ++
          [.call 1, .lock 1 0, .pass 1, .recv 1 0]) = some σ ∧
        σ.returns 1 = 2 ∧ σ.calls 0 = 1 ∧ σ.pc 0 = .receiving 0 :=
  ⟨fun _ => rfl, _, _, rfl, rfl, rfl, rfl, rfl⟩

end State

end Barrier

end Awkernel
