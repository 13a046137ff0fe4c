import Awkernel.Lib.TransitionSystem
import Awkernel.PubSub.Subscriber
import Mathlib.Data.List.Nodup

/-!
# The asynchronous lock

`awkernel_async_lib/src/sync/mutex.rs`: a poll of a lock future takes the lock if it is free, and
otherwise leaves its waker at the end of a queue. A guard that is dropped frees the lock and wakes
the first waker of the queue.

At most one guard is there at any time (`guards_eq`). But a waker stays in the queue when its
future is dropped, or polled again, and then it takes the wake-up of somebody else: the lock is
free, a future waits for it, and nobody was told (`stranded`). If every waker in the queue belongs
to a future that waits for it, then somebody who waits has been woken whenever the lock is free
(`exclusive_and_awake`). The condition on the steps is `LeavesNoWaker`.
-/

namespace Awkernel

open TransitionSystem List Option Function

/-- `AsyncLockInner`. -/
structure AsyncLockInner where
  lockVar : Bool
  wakers : List Waker

namespace AsyncLockInner

def new : AsyncLockInner := ⟨false, []⟩

/-- `AsyncLockFuture::poll`. -/
def poll (waker : Waker) (inner : AsyncLockInner) : AsyncLockInner × Poll Unit :=
  if !inner.lockVar then ({ inner with lockVar := true }, .ready ())
  else ({ inner with wakers := inner.wakers ++ [waker] }, .pending)

/-- `AsyncLockGuard::drop`, with the waker that it calls. -/
def unlock (inner : AsyncLockInner) : AsyncLockInner × Option Waker :=
  ({ lockVar := false, wakers := inner.wakers.tail }, inner.wakers.head?)

end AsyncLockInner

namespace AsyncLock

/-- A lock future that is not ready: the waker of its last poll, and whether that was called
since. -/
structure LockFuture where
  last : Option Waker
  woken : Bool
  deriving DecidableEq

/-- A lock with its guards and its live futures. -/
structure State where
  inner : AsyncLockInner
  guards : Nat
  numFutures : Nat
  future : Nat → Option LockFuture

inductive Action
  /-- `AsyncLock::lock`. -/
  | lock
  | poll (f : Nat) (waker : Waker)
  | dropFuture (f : Nat)
  | dropGuard

namespace State

def init : State := ⟨.new, 0, 0, fun _ => none⟩

/-- The futures after a call of a waker. -/
def wake (future : Nat → Option LockFuture) (waker : Option Waker) : Nat → Option LockFuture :=
  fun f => (future f).map fun x =>
    if waker.isSome && x.last == waker then { x with woken := true } else x

/-- A step; `none` if there is no such future or guard. -/
def step (σ : State) : Action → Option State
  | .lock => some { σ with
      numFutures := σ.numFutures + 1
      future := update σ.future σ.numFutures (some ⟨none, false⟩) }
  | .poll f waker => do
    let _ ← σ.future f
    match σ.inner.poll waker with
    | (inner, .ready _) =>
      some { σ with
        inner := inner, guards := σ.guards + 1, future := update σ.future f none }
    | (inner, .pending) =>
      some { σ with
        inner := inner, future := update σ.future f (some ⟨some waker, false⟩) }
  | .dropFuture f => do
    let _ ← σ.future f
    some { σ with future := update σ.future f none }
  | .dropGuard =>
    if σ.guards = 0 then none
    else
      let (inner, waker) := σ.inner.unlock
      some { σ with inner := inner, guards := σ.guards - 1, future := wake σ.future waker }

/-- A live future has returned `Pending`. -/
def Waits (σ : State) (f : Nat) (x : LockFuture) : Prop :=
  σ.future f = some x ∧ x.last.isSome = true

/-- While the lock is free and somebody waits for it, somebody who waits was woken. -/
def Awake (σ : State) : Prop :=
  σ.inner.lockVar = false → (∃ f x, σ.Waits f x) → ∃ f x, σ.Waits f x ∧ x.woken = true

/-- No step leaves a waker in the queue that belongs to nobody: a future that waits is polled
again only after its waker was taken from the queue; it is dropped only then, and while the lock
is held; and the waker that a poll leaves in the queue is not there already. -/
def LeavesNoWaker (σ : State) : Action → Prop
  | .poll f waker =>
    (∀ x ∈ σ.future f, ∀ w ∈ x.last, w ∉ σ.inner.wakers) ∧
      (σ.inner.lockVar = true → waker ∉ σ.inner.wakers)
  | .dropFuture f => ∀ x ∈ σ.future f, ∀ w ∈ x.last,
      w ∉ σ.inner.wakers ∧ σ.inner.lockVar = true
  | _ => True

instance : DecidableRel LeavesNoWaker := fun _ a => by
  induction a using Action.casesOn <;> dsimp only [LeavesNoWaker] <;> infer_instance

/-! ### The steps -/

/-- What a step does. -/
inductive StepCase (σ : State) : Action → State → Prop
  | lock : StepCase σ .lock { σ with
      numFutures := σ.numFutures + 1
      future := update σ.future σ.numFutures (some ⟨none, false⟩) }
  | acquire {f : Nat} {waker : Waker} {x : LockFuture} :
      σ.future f = some x →
      σ.inner.lockVar = false →
      StepCase σ (.poll f waker) { σ with
        inner := ⟨true, σ.inner.wakers⟩
        guards := σ.guards + 1
        future := update σ.future f none }
  | wait {f : Nat} {waker : Waker} {x : LockFuture} :
      σ.future f = some x →
      σ.inner.lockVar = true →
      StepCase σ (.poll f waker) { σ with
        inner := ⟨true, σ.inner.wakers ++ [waker]⟩
        future := update σ.future f (some ⟨some waker, false⟩) }
  | dropFuture {f : Nat} {x : LockFuture} :
      σ.future f = some x →
      StepCase σ (.dropFuture f) { σ with future := update σ.future f none }
  | dropGuard :
      0 < σ.guards →
      StepCase σ .dropGuard { σ with
        inner := ⟨false, σ.inner.wakers.tail⟩
        guards := σ.guards - 1
        future := wake σ.future σ.inner.wakers.head? }

theorem step_cases {σ σ' : State} {a : Action} (h : σ.step a = some σ') : StepCase σ a σ' := by
  cases a with
  | lock =>
    cases h
    exact .lock
  | poll f waker =>
    obtain ⟨x, hx, h⟩ := bind_eq_some_iff.mp h
    dsimp only [AsyncLockInner.poll] at h
    cases hvar : σ.inner.lockVar with
    | false =>
      rw [hvar] at h
      cases h
      exact .acquire hx hvar
    | true =>
      rw [hvar] at h
      cases h
      rw [← hvar]
      have hcase : StepCase σ (.poll f waker) _ := .wait hx hvar
      rw [← hvar] at hcase
      exact hcase
  | dropFuture f =>
    obtain ⟨x, hx, h⟩ := bind_eq_some_iff.mp h
    cases h
    exact .dropFuture hx
  | dropGuard =>
    obtain ⟨hpos, ⟨⟩⟩ := ite_none_left_eq_some.mp h
    exact .dropGuard (Nat.pos_of_ne_zero hpos)

/-- **At most one guard**, in every run. -/
theorem guards_eq {σ : State} (h : Reaches step (fun _ _ => True) init σ) :
    σ.guards = if σ.inner.lockVar then 1 else 0 := by
  refine h.invariant (I := fun σ => σ.guards = if σ.inner.lockVar then 1 else 0) rfl ?_
  intro σ a σ' hI _ hstep
  cases step_cases hstep with
  | lock | dropFuture _ => exact hI
  | acquire _ hvar =>
    rw [hvar] at hI
    exact congrArg (· + 1) hI
  | wait _ hvar =>
    rw [hvar] at hI
    exact hI
  | dropGuard hpos =>
    split at hI
    · exact congrArg (· - 1) hI
    · exact absurd hI hpos.ne'

/-! ### Who was woken -/

theorem wake_eq_some {future : Nat → Option LockFuture} {waker : Option Waker} {f : Nat}
    {y : LockFuture} : wake future waker f = some y ↔ ∃ x, future f = some x ∧
      y = if waker.isSome && x.last == waker then { x with woken := true } else x := by
  unfold wake
  rw [map_eq_some_iff]
  simp only [eq_comm]

/-- What the steps that leave no waker behind keep. -/
structure Tidy (σ : State) : Prop where
  fresh : ∀ {f}, σ.numFutures ≤ f → σ.future f = none
  nodup : σ.inner.wakers.Nodup
  /-- A waker in the queue belongs to a future that waits. -/
  belongs : ∀ w ∈ σ.inner.wakers, ∃ f woken, σ.future f = some ⟨some w, woken⟩
  /-- A future that waits has its waker in the queue, or was woken. -/
  known : ∀ {f x}, σ.Waits f x → x.woken = true ∨ ∃ w ∈ x.last, w ∈ σ.inner.wakers
  awake : σ.Awake

namespace Tidy

variable {σ : State}

/-- A future whose waker is not in the queue is not the one that a waker in the queue belongs
to. -/
theorem belongs_update (h : σ.Tidy) {f : Nat} {x : LockFuture} (hx : σ.future f = some x)
    (hgone : ∀ w ∈ x.last, w ∉ σ.inner.wakers) (y : Option LockFuture) {w : Waker}
    (hw : w ∈ σ.inner.wakers) :
    ∃ f' woken, update σ.future f y f' = some ⟨some w, woken⟩ := by
  obtain ⟨f', woken, hf'⟩ := h.belongs w hw
  have hne : f' ≠ f := by
    rintro rfl
    cases hx.symm.trans hf'
    exact hgone w rfl hw
  exact ⟨f', woken, (update_of_ne hne _ _).trans hf'⟩

theorem fresh_update (h : σ.Tidy) {f : Nat} {x : LockFuture} (hx : σ.future f = some x)
    (y : Option LockFuture) {f' : Nat} (hf' : σ.numFutures ≤ f') :
    update σ.future f y f' = none := by
  have hne : f' ≠ f := by
    rintro rfl
    cases hx.symm.trans (h.fresh hf')
  rw [update_of_ne hne]
  exact h.fresh hf'

/-- **A guard is dropped**: the first waker of the queue belongs to a future that waits; if the
queue is empty, all that wait were woken before. -/
theorem dropGuard (h : σ.Tidy) : Tidy { σ with
    inner := ⟨false, σ.inner.wakers.tail⟩
    guards := σ.guards - 1
    future := wake σ.future σ.inner.wakers.head? } := by
  have hfresh : ∀ {f}, σ.numFutures ≤ f → wake σ.future σ.inner.wakers.head? f = none := by
    intro f hf
    unfold wake
    rw [h.fresh hf, map_none]
  cases hwakers : σ.inner.wakers with
  | nil =>
    have hsame : wake σ.future none = σ.future := by
      funext f
      unfold wake
      cases σ.future f with
      | none | some => rfl
    have hwoken : ∀ {f x}, σ.Waits f x → x.woken = true := by
      intro f x hwaits
      rcases h.known hwaits with hwoken | ⟨w, -, hw⟩
      · exact hwoken
      · rw [hwakers] at hw
        cases hw
    rw [hwakers] at hfresh
    refine ⟨hfresh, nodup_nil, nofun, fun {f x} hwaits => .inl ?_, fun _ => ?_⟩
    · change wake σ.future none f = some x ∧ _ at hwaits
      rw [hsame] at hwaits
      exact hwoken hwaits
    rintro ⟨f, x, hwaits⟩
    refine ⟨f, x, hwaits, ?_⟩
    change wake σ.future none f = some x ∧ _ at hwaits
    rw [hsame] at hwaits
    exact hwoken hwaits
  | cons w rest =>
    obtain ⟨hnew, hnodup⟩ := nodup_cons.mp (hwakers ▸ h.nodup)
    rw [hwakers] at hfresh
    refine ⟨hfresh, hnodup, fun w' hw' => ?_, fun {f y} hwaits => ?_, fun _ _ => ?_⟩
    · obtain ⟨f, woken, hf⟩ := h.belongs w' (hwakers ▸ mem_cons_of_mem w hw')
      refine ⟨f, woken, wake_eq_some.mpr ⟨_, hf, (if_neg fun hsame => hnew ?_).symm⟩⟩
      have heq : w' = w := by simpa using hsame
      exact heq ▸ hw'
    · obtain ⟨hy, hlast⟩ := hwaits
      obtain ⟨x, hx, rfl⟩ := wake_eq_some.mp hy
      split
      · exact .inl rfl
      rename_i hother
      rw [if_neg hother] at hlast
      refine (h.known ⟨hx, hlast⟩).imp_right ?_
      rintro ⟨w', hw', hmem⟩
      refine ⟨w', hw', ?_⟩
      rcases mem_cons.mp (hwakers ▸ hmem) with rfl | hrest
      · exact absurd (by rw [hw']; simp) hother
      · exact hrest
    · obtain ⟨f, woken, hf⟩ := h.belongs w (hwakers ▸ mem_cons_self)
      refine ⟨f, ⟨some w, true⟩, ⟨wake_eq_some.mpr ⟨_, hf, (if_pos ?_).symm⟩, rfl⟩, rfl⟩
      simp

/-- A guard that is dropped wakes one that waits. -/
theorem step (h : σ.Tidy) {a : Action} {σ' : State} (hok : σ.LeavesNoWaker a)
    (hstep : σ.step a = some σ') : σ'.Tidy := by
  cases step_cases hstep with
  | lock =>
    have hne : ∀ {f x}, σ.future f = some x → f ≠ σ.numFutures := by
      rintro f x hx rfl
      cases hx.symm.trans (h.fresh le_rfl)
    -- the new future does not wait, and the others are as before
    have hiff : ∀ {f x}, Waits { σ with
        numFutures := σ.numFutures + 1
        future := update σ.future σ.numFutures (some ⟨none, false⟩) } f x ↔
        σ.Waits f x := by
      intro f x
      unfold Waits
      dsimp only
      by_cases heq : f = σ.numFutures
      · subst heq
        rw [update_self, h.fresh le_rfl]
        refine iff_of_false ?_ (fun hx => absurd hx.1 nofun)
        rintro ⟨hx, hlast⟩
        cases hx
        cases hlast
      · rw [update_of_ne heq]
    refine ⟨fun {f} hf => ?_, h.nodup, fun w hw => ?_, fun hwaits => h.known (hiff.mp hwaits), ?_⟩
    · change update σ.future σ.numFutures _ f = none
      rw [update_of_ne (Nat.lt_of_succ_le hf).ne']
      exact h.fresh ((Nat.le_succ _).trans hf)
    · obtain ⟨f, woken, hf⟩ := h.belongs w hw
      exact ⟨f, woken, (update_of_ne (hne hf) _ _).trans hf⟩
    · rintro hfree ⟨f, x, hwaits⟩
      obtain ⟨f', x', hwaits', hwoken⟩ := h.awake hfree ⟨f, x, hiff.mp hwaits⟩
      exact ⟨f', x', hiff.mpr hwaits', hwoken⟩
  | @acquire f waker x hx hvar =>
    refine ⟨h.fresh_update hx _, h.nodup, fun w hw => h.belongs_update hx (hok.1 x hx) _ hw,
      fun {f' x'} hwaits => ?_, nofun⟩
    obtain ⟨hx', hlast⟩ := hwaits
    change update σ.future f none f' = some x' at hx'
    by_cases heq : f' = f
    · subst heq
      cases update_self f' none σ.future ▸ hx'
    · rw [update_of_ne heq] at hx'
      exact h.known ⟨hx', hlast⟩
  | @wait f waker x hx hvar =>
    refine ⟨h.fresh_update hx _, ?_, fun w hw => ?_, fun {f' x'} hwaits => ?_, nofun⟩
    · refine nodup_append.mpr ⟨h.nodup, nodup_singleton _, fun w hw w' hw' => ?_⟩
      rw [mem_singleton.mp hw']
      rintro rfl
      exact hok.2 hvar hw
    · rcases mem_append.mp hw with hold | hnew
      · exact h.belongs_update hx (hok.1 x hx) _ hold
      · rw [mem_singleton.mp hnew]
        exact ⟨f, false, update_self _ _ _⟩
    obtain ⟨hx', hlast⟩ := hwaits
    change update σ.future f _ f' = some x' at hx'
    by_cases heq : f' = f
    · subst heq
      rw [update_self] at hx'
      cases hx'
      exact .inr ⟨waker, rfl, mem_append_right _ (mem_singleton_self _)⟩
    · rw [update_of_ne heq] at hx'
      refine (h.known ⟨hx', hlast⟩).imp_right ?_
      rintro ⟨w, hw, hmem⟩
      exact ⟨w, hw, mem_append_left _ hmem⟩
  | @dropFuture f x hx =>
    have hgone : ∀ w ∈ x.last, w ∉ σ.inner.wakers := by
      intro w hw
      exact (hok x hx w hw).1
    have hother : ∀ {f' x'}, update σ.future f none f' = some x' →
        f' ≠ f ∧ σ.future f' = some x' := by
      intro f' x' hx'
      by_cases heq : f' = f
      · subst heq
        cases update_self f' none σ.future ▸ hx'
      · rw [update_of_ne heq] at hx'
        exact ⟨heq, hx'⟩
    refine ⟨h.fresh_update hx _, h.nodup, fun w hw => h.belongs_update hx hgone _ hw,
      fun hwaits => h.known ⟨(hother hwaits.1).2, hwaits.2⟩, ?_⟩
    rintro hfree ⟨f', x', hx', hlast'⟩
    obtain ⟨f'', x'', ⟨hx'', hlast''⟩, hwoken⟩ :=
      h.awake hfree ⟨f', x', (hother hx').2, hlast'⟩
    -- the lock is free, so the one that is dropped did not wait
    have hne : f'' ≠ f := by
      rintro rfl
      obtain ⟨w, hw⟩ := isSome_iff_exists.mp hlast''
      cases (hok x'' hx'' w hw).2.symm.trans hfree
    exact ⟨f'', x'', ⟨(update_of_ne hne _ _).trans hx'', hlast''⟩, hwoken⟩
  | dropGuard _ => exact h.dropGuard

end Tidy

/-- **Mutual exclusion and no stranded waiter.** In every run there is at most one guard. In every
run whose steps leave no waker of nobody in the queue, whenever the lock is free and a live future
has returned `Pending`, a live future that has returned `Pending` was woken since its last
poll. -/
theorem exclusive_and_awake (σ : State) :
    (Reaches State.step (fun _ _ => True) init σ → σ.guards ≤ 1) ∧
      (Reaches State.step LeavesNoWaker init σ → σ.Awake) := by
  constructor
  · intro h
    rw [guards_eq h]
    split
    · exact le_rfl
    · exact Nat.zero_le 1
  · intro h
    have htidy : init.Tidy := by
      refine ⟨fun _ => rfl, nodup_nil, nofun, fun hwaits => absurd hwaits.1 nofun, ?_⟩
      rintro - ⟨f, x, hwaits⟩
      cases hwaits.1
    exact (h.invariant (I := Tidy) htidy fun _ _ _ hI hok hs => hI.step hok hs).awake

/-- The guard of the first future is dropped while the second waits. -/
theorem exclusive_and_awake_second : ∃ σ : State,
    Reaches State.step LeavesNoWaker init σ ∧ σ.inner.lockVar = false ∧
      σ.future 1 = some ⟨some 6, true⟩ ∧ σ.guards ≤ 1 ∧
      ∃ f x, σ.Waits f x ∧ x.woken = true := by
  refine Reaches.exists_of_run_imp [.lock, .lock, .poll 0 5, .poll 1 6, .dropGuard]
    (fun σ => σ.inner.lockVar = false ∧ σ.future 1 = some ⟨some 6, true⟩) (by decide) ?_
  rintro σ hreach ⟨hfree, hwoken⟩
  exact ⟨hfree, hwoken, (exclusive_and_awake σ).1 (hreach.mono fun _ _ _ => trivial),
    (exclusive_and_awake σ).2 hreach hfree ⟨1, _, hwoken, rfl⟩⟩

/-- A third future that waits and was not woken is alone. -/
theorem not_awake {σ : State} (waker : Waker) (hfree : σ.inner.lockVar = false)
    (hfuture : ∀ f, σ.future f = if f = 2 then some ⟨some waker, false⟩ else none) :
    ¬ σ.Awake := by
  intro h
  obtain ⟨f, x, ⟨hx, -⟩, hwoken⟩ := h hfree ⟨2, _, hfuture 2, rfl⟩
  rw [hfuture] at hx
  split at hx
  · cases hx
    cases hwoken
  · cases hx

/-- The lock is free, the third future waits, and nobody who waits was woken: after the second
future was dropped while it waited, and after it was polled twice. -/
theorem stranded : (∃ σ, run State.step init [.lock, .lock, .lock, .poll 0 5, .poll 1 6, .poll 2 7,
        .dropFuture 1, .dropGuard] = some σ ∧ σ.inner.lockVar = false ∧
      σ.future 2 = some ⟨some 7, false⟩ ∧ ¬ σ.Awake) ∧
    ∃ σ, run State.step init [.lock, .lock, .lock, .poll 0 5, .poll 1 6, .poll 1 6, .poll 2 7,
        .dropGuard, .poll 1 6, .dropGuard] = some σ ∧ σ.inner.lockVar = false ∧
      σ.future 2 = some ⟨some 7, false⟩ ∧ ¬ σ.Awake := by
  constructor
  · refine ⟨_, rfl, rfl, rfl, not_awake 7 rfl fun f => ?_⟩
    rcases f with _ | _ | _ | f <;> rfl
  · refine ⟨_, rfl, rfl, rfl, not_awake 7 rfl fun f => ?_⟩
    rcases f with _ | _ | _ | f <;> rfl

end State

end AsyncLock

end Awkernel
