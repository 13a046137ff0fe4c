import Awkernel.PubSub.Invariant

/-!
# Parked publishers and free room

With flow control, a sender that finds the queue of a subscriber full registers its waker
there and is parked. It is `Stranded` when the queue has a free slot again and no sender
parked there has been woken: the next `recv` may find the queue empty and register its own
waker, and then nobody is woken any more.

A receive wakes as many publishers as there are free slots, in the order in which they
were parked. But a sender that is polled while other publishers are registered goes to the
end of the list without a look at the queue, so the publisher woken for the free slot does
not take it (`stranded_of_two_publishers`). A waker that belongs to no pending send any
more takes up a wake-up in the same way.

`SendsInTurn` excludes these polls and drops, and under it no publisher is ever stranded
(`not_stranded`). The invariant `Parking` is about one open subscriber: every registered
waker belongs to a sender that waits there, every sender that is parked there and not
woken is registered, and whenever there is room, nobody is registered or some sender has
been woken.
-/

namespace Awkernel

open TransitionSystem Topic Sender InnerSubscriber List Option

variable {T : Type} {attr : Attribute} {σ σ' : Topic T} {s : SubId} {f : SendId}
  {inner : InnerSubscriber T}

/-- The message goes to the subscriber `s` next. -/
def Sender.waitsAt (x : Sender T) (s : SubId) : Prop :=
  x.state = .wait ∧ x.subscribers.head? = some s

/-- The last poll returned `Poll::Pending` at the subscriber `s`. -/
def Sender.parkedAt (x : Sender T) (s : SubId) : Prop := x.pc = .idle ∧ x.waitsAt s

/-- The queue of the open subscriber `s` has a free slot, a send future is pending on it, and
none of those that wait there has been woken since its last poll returned. -/
def Topic.Stranded (σ : Topic T) (s : SubId) : Prop :=
  s < σ.numSubscribers ∧ (σ.inner s).closed = false ∧ (σ.inner s).items.length < (σ.inner s).size ∧
    (∃ f x, σ.send f = some x ∧ x.parkedAt s) ∧
    ∀ f x, σ.send f = some x → x.waitsAt s → x.woken = false

/-- No sender is polled past registered publishers at a subscriber that has room; a pending
send is polled again with the waker it has registered, and is not dropped. -/
def SendsInTurn (σ : Topic T) : TopicAction T → Prop
  | .poll f waker => ∀ x ∈ σ.send f, x.state = .wait → x.waker = some waker
  | .send f => ∀ x ∈ σ.send f, x.state = .wait → ∀ s ∈ x.subscribers.head?,
      (σ.inner s).closed = false → (σ.inner s).wakerPublishers ≠ [] →
        (σ.inner s).queue.len = (σ.inner s).queue.queueSize
  | .dropSend f => ∀ x ∈ σ.send f, x.state ≠ .wait
  | _ => True

instance (σ : Topic T) : DecidablePred (SendsInTurn σ) := fun a => by
  induction a using TopicAction.casesOn <;> dsimp only [SendsInTurn] <;> infer_instance

/-! ### The invariant -/

/-- The registered wakers of the subscriber `s` and the senders that wait there. -/
structure Parking (σ : Topic T) (s : SubId) : Prop where
  backed : ∀ w ∈ (σ.inner s).wakerPublishers,
    ∃ f x, σ.send f = some x ∧ x.waitsAt s ∧ x.waker = some w
  registered : ∀ f x, σ.send f = some x → x.parkedAt s → x.woken = false →
    ∃ w ∈ (σ.inner s).wakerPublishers, x.waker = some w
  served : (σ.inner s).items.length < (σ.inner s).size → (σ.inner s).wakerPublishers = [] ∨
    ∃ f x, σ.send f = some x ∧ x.waitsAt s ∧ x.woken = true

theorem Parking.unstranded (h : Parking σ s) : ¬ σ.Stranded s := by
  rintro ⟨-, -, hroom, ⟨f, x, hx, hparked⟩, hnone⟩
  obtain hempty | ⟨g, y, hy, hwaits, hwoken⟩ := h.served hroom
  · -- nobody is registered, so the parked sender has been woken
    obtain ⟨w, hw, -⟩ := h.registered f x hx hparked (hnone f x hx hparked.2)
    rw [hempty] at hw
    cases hw
  · rw [hnone g y hy hwaits] at hwoken
    cases hwoken

/-- What a step elsewhere does to the senders that wait at `s`. -/
structure SendersKept (σ σ' : Topic T) (s : SubId) : Prop where
  waits : ∀ f x, σ.send f = some x → x.waitsAt s →
    ∃ y, σ'.send f = some y ∧ y.waitsAt s ∧ y.waker = x.waker ∧ (x.woken = true → y.woken = true)
  parked : ∀ f y, σ'.send f = some y → y.parkedAt s → y.woken = false →
    ∃ x, σ.send f = some x ∧ x.parkedAt s ∧ x.woken = false ∧ x.waker = y.waker

variable {woken : List Waker} {x : Sender T} {w : Waker}

namespace SendersKept

theorem of_eq (h : σ'.send = σ.send) : SendersKept σ σ' s where
  waits f x hx hw := ⟨x, by rw [h]; exact hx, hw, rfl, id⟩
  parked f y hy hp hwoken := ⟨y, by rw [← h]; exact hy, hp, hwoken, rfl⟩

theorem trans {σ'' : Topic T} (h₁ : SendersKept σ σ' s) (h₂ : SendersKept σ' σ'' s) :
    SendersKept σ σ'' s where
  waits f x hx hw := by
    obtain ⟨y, hy, hw', hwaker, hwoken⟩ := h₁.waits f x hx hw
    obtain ⟨z, hz, hw'', hwaker', hwoken'⟩ := h₂.waits f y hy hw'
    exact ⟨z, hz, hw'', hwaker'.trans hwaker, hwoken' ∘ hwoken⟩
  parked f z hz hp hwoken := by
    obtain ⟨y, hy, hp', hwoken', hwaker⟩ := h₂.parked f z hz hp hwoken
    obtain ⟨x, hx, hp'', hwoken'', hwaker'⟩ := h₁.parked f y hy hp' hwoken'
    exact ⟨x, hx, hp'', hwoken'', hwaker'.trans hwaker⟩

theorem setSend {x y : Sender T} (hx : σ.send f = some x) (hsend : σ'.send = (σ.setSend f y).send)
    (hwaits : x.waitsAt s → y.waitsAt s ∧ y.waker = x.waker ∧ (x.woken = true → y.woken = true))
    (hparked : y.parkedAt s → y.woken = false → x.parkedAt s ∧ x.woken = false ∧
      x.waker = y.waker) : SendersKept σ σ' s where
  waits g z hz hw := by
    rw [hsend]
    by_cases hg : g = f
    · subst hg
      obtain rfl : x = z := some.inj (hx.symm.trans hz)
      exact ⟨y, send_setSend_self .., hwaits hw⟩
    · exact ⟨z, (send_setSend_of_ne y hg).trans hz, hw, rfl, id⟩
  parked g z hz hp hwoken := by
    rw [hsend] at hz
    obtain ⟨rfl, rfl⟩ | ⟨-, hz⟩ := send_setSend_cases hz
    · obtain ⟨hp', hwoken', hwaker⟩ := hparked hp hwoken
      exact ⟨x, hx, hp', hwoken', hwaker⟩
    · exact ⟨z, hz, hp, hwoken, rfl⟩

/-- A sender that does not wait at `s` is rewritten to one that is not parked there. -/
theorem setSend_of_not {x y : Sender T} (hx : σ.send f = some x)
    (hsend : σ'.send = (σ.setSend f y).send) (hnot : ¬ x.waitsAt s) (hnot' : ¬ y.parkedAt s) :
    SendersKept σ σ' s :=
  .setSend hx hsend (fun h => absurd h hnot) fun h => absurd h hnot'

theorem wake (hsend : σ'.send = (σ.wake woken).send) : SendersKept σ σ' s where
  waits f x hx hw := by
    refine ⟨x.notify woken, ?_, hw, rfl, fun h => ?_⟩
    · rw [hsend]
      exact send_wake_eq_some.mpr ⟨x, hx, rfl⟩
    · simp [notify, h]
  parked f y hy hp hwoken := by
    rw [hsend] at hy
    obtain ⟨x, hx, rfl⟩ := send_wake_eq_some.mp hy
    exact ⟨x, hx, hp, (Bool.or_eq_false_iff.mp hwoken).1, rfl⟩

end SendersKept

namespace Parking

section

variable (h : Parking σ s)

include h

theorem frame (hk : SendersKept σ σ' s)
    (hpubs : (σ'.inner s).wakerPublishers = (σ.inner s).wakerPublishers)
    (hroom : (σ'.inner s).items.length < (σ'.inner s).size →
      (σ.inner s).items.length < (σ.inner s).size) : Parking σ' s where
  backed w hw := by
    rw [hpubs] at hw
    obtain ⟨f, x, hx, hwaits, hwaker⟩ := h.backed w hw
    obtain ⟨y, hy, hwaits', hwaker', -⟩ := hk.waits f x hx hwaits
    exact ⟨f, y, hy, hwaits', hwaker'.trans hwaker⟩
  registered f y hy hp hwoken := by
    obtain ⟨x, hx, hp', hwoken', hwaker⟩ := hk.parked f y hy hp hwoken
    rw [hpubs, ← hwaker]
    exact h.registered f x hx hp' hwoken'
  served hfree := by
    rw [hpubs]
    obtain hempty | ⟨f, x, hx, hwaits, hwoken⟩ := h.served (hroom hfree)
    · exact .inl hempty
    · obtain ⟨y, hy, hwaits', -, hwoken'⟩ := hk.waits f x hx hwaits
      exact .inr ⟨f, y, hy, hwaits', hwoken' hwoken⟩

/-- A receive at `s` that wakes the first `k` registered publishers. -/
theorem serve {k : Nat} (hk : 0 < k)
    (hsend : σ'.send = (σ.wake ((σ.inner s).wakerPublishers.take k)).send)
    (hpubs : (σ'.inner s).wakerPublishers = (σ.inner s).wakerPublishers.drop k) :
    Parking σ' s := by
  have hnotify : ∀ {f x}, σ.send f = some x →
      σ'.send f = some (x.notify ((σ.inner s).wakerPublishers.take k)) := by
    intro f x hx
    rw [hsend]
    exact send_wake_eq_some.mpr ⟨x, hx, rfl⟩
  refine ⟨?_, ?_, ?_⟩
  · intro w hw
    rw [hpubs] at hw
    obtain ⟨f, x, hx, hwaits, hwaker⟩ := h.backed w (mem_of_mem_drop hw)
    exact ⟨f, _, hnotify hx, hwaits, hwaker⟩
  · intro f y hy hp hwoken
    rw [hsend] at hy
    obtain ⟨x, hx, rfl⟩ := send_wake_eq_some.mp hy
    obtain ⟨hfalse, hany⟩ := Bool.or_eq_false_iff.mp hwoken
    obtain ⟨w, hw, hwaker⟩ := h.registered f x hx hp hfalse
    refine ⟨w, ?_, hwaker⟩
    -- its waker is not among those that were called, so it is among those that are left
    rw [hwaker] at hany
    have hnot : w ∉ (σ.inner s).wakerPublishers.take k := by simpa using hany
    rw [hpubs]
    rw [← take_append_drop k (σ.inner s).wakerPublishers] at hw
    exact (mem_append.mp hw).resolve_left hnot
  · intro _
    rw [hpubs]
    cases hw : (σ.inner s).wakerPublishers with
    | nil => exact .inl drop_nil
    | cons w rest =>
      obtain ⟨f, x, hx, hwaits, hwaker⟩ := h.backed w (by rw [hw]; exact mem_cons_self)
      refine .inr ⟨f, _, hnotify hx, hwaits, ?_⟩
      obtain ⟨k, rfl⟩ := Nat.exists_eq_succ_of_ne_zero hk.ne'
      simp [notify, hwaker, hw]

theorem park (hx : σ.send f = some x) (hwaits : x.waitsAt s) (hwaker : x.waker = some w)
    (hpubs : inner.wakerPublishers = (σ.inner s).wakerPublishers ++ [w])
    (hfull : inner.items.length = inner.size) :
    Parking ((σ.setInner s inner).setSend f { x with pc := .idle, woken := false }) s := by
  have hinner : ((σ.setInner s inner).setSend f { x with pc := .idle, woken := false }).inner s =
      inner := inner_setInner_self ..
  refine ⟨?_, ?_, ?_⟩
  · intro w' hw'
    rw [hinner, hpubs, mem_append, mem_singleton] at hw'
    obtain hw' | rfl := hw'
    · obtain ⟨g, y, hy, hwaits', hwaker'⟩ := h.backed w' hw'
      by_cases hg : g = f
      · subst hg
        obtain rfl : x = y := some.inj (hx.symm.trans hy)
        exact ⟨g, _, send_setSend_self .., hwaits, hwaker'⟩
      · exact ⟨g, y, (send_setSend_of_ne _ hg).trans hy, hwaits', hwaker'⟩
    · exact ⟨f, _, send_setSend_self .., hwaits, hwaker⟩
  · intro g y hy hp hwoken
    rw [hinner, hpubs]
    obtain ⟨rfl, rfl⟩ | ⟨-, hy⟩ := send_setSend_cases hy
    · exact ⟨w, by simp, hwaker⟩
    · obtain ⟨w', hw', hwaker'⟩ := h.registered g y hy hp hwoken
      exact ⟨w', mem_append_left _ hw', hwaker'⟩
  · intro hroom
    rw [hinner] at hroom
    exact absurd hfull hroom.ne

/-- Nobody is registered at `s`, so every sender parked there has been woken. -/
theorem unregistered (hempty : (σ.inner s).wakerPublishers = [])
    (hempty' : (σ'.inner s).wakerPublishers = [])
    (hparked : ∀ f y, σ'.send f = some y → y.parkedAt s → y.woken = false →
      ∃ x, σ.send f = some x ∧ x.parkedAt s ∧ x.woken = false) : Parking σ' s where
  backed w hw := by
    rw [hempty'] at hw
    cases hw
  registered f y hy hp hwoken := by
    obtain ⟨x, hx, hp', hwoken'⟩ := hparked f y hy hp hwoken
    obtain ⟨w, hw, -⟩ := h.registered f x hx hp' hwoken'
    rw [hempty] at hw
    cases hw
  served _ := .inl hempty'

end

theorem fresh (hempty : (σ.inner s).wakerPublishers = [])
    (hnot : ∀ f x, σ.send f = some x → s ∉ x.subscribers) : Parking σ s where
  backed w hw := by
    rw [hempty] at hw
    cases hw
  registered f x hx hp _ := absurd (mem_of_mem_head? hp.2.2) (hnot f x hx)
  served _ := .inl hempty

end Parking

variable {x : Sender T} {inner : InnerSubscriber T} {woken : List Waker} {result : Option (Data T)}
  {t : SubId}

theorem Sender.not_waitsAt_of_state (h : x.state ≠ .wait) : ¬ x.waitsAt s :=
  fun hw => h hw.1

theorem Sender.not_parkedAt_of_pc (h : x.pc ≠ .idle) : ¬ x.parkedAt s :=
  fun hp => h hp.1

theorem Topic.send_snapshot (σ : Topic T) (f : SendId) (x : Sender T) (waker : Waker) :
    ∃ y : Sender T, (σ.snapshot f x waker).send = (σ.setSend f y).send ∧
      (y.pc = .storing waker ∨ y.pc = x.pc) := by
  unfold snapshot
  dsimp only
  split
  · exact ⟨_, rfl, .inl rfl⟩
  · exact ⟨_, rfl, .inr rfl⟩

theorem Topic.inner_snapshot {waker : Waker} : (σ.snapshot f x waker).inner = σ.inner := by
  unfold snapshot
  dsimp only
  split <;> rfl

theorem Topic.send_afterRecv : (σ.afterRecv s inner woken result).send = (σ.wake woken).send := by
  cases result <;> rfl

theorem Topic.inner_afterRecv :
    (σ.afterRecv s inner woken result).inner = (σ.setInner s inner).inner := by
  cases result <;> rfl

theorem Topic.numSubscribers_afterRecv :
    (σ.afterRecv s inner woken result).numSubscribers = σ.numSubscribers := by
  cases result <;> rfl

theorem Topic.receiver_afterRecv :
    (σ.afterRecv s inner woken result).receiver t = (σ.receiver t).notify woken := by
  cases result <;> rfl

/-- The invariant of a run in which the senders take turns. -/
def AllParked (σ : Topic T) : Prop :=
  ∀ s, s < σ.numSubscribers → (σ.inner s).closed = false → Parking σ s

/-- Another subscriber is written, or none, and the senders at `s` are kept. -/
theorem AllParked.frame (h : AllParked σ) (hlt : s < σ.numSubscribers)
    (hinner : σ'.inner s = σ.inner s) (hopen : (σ'.inner s).closed = false)
    (hk : SendersKept σ σ' s) : Parking σ' s :=
  (h s hlt (by rw [← hinner]; exact hopen)).frame hk (by rw [hinner]) (by rw [hinner]; exact id)

/-- A receive at the subscriber `t` that wakes the first `k` registered publishers. -/
theorem AllParked.serve {k : Nat} (h : AllParked σ) (hk : 0 < k)
    (hsend : σ'.send = (σ.wake ((σ.inner t).wakerPublishers.take k)).send)
    (hnum : σ'.numSubscribers = σ.numSubscribers)
    (hinner : σ'.inner = (σ.setInner t inner).inner)
    (hpubs : inner.wakerPublishers = (σ.inner t).wakerPublishers.drop k)
    (hclosed : inner.closed = (σ.inner t).closed) : AllParked σ' := by
  intro s hlt hopen
  rw [hnum] at hlt
  rw [hinner] at hopen
  by_cases hst : s = t
  · subst hst
    rw [inner_setInner_self, hclosed] at hopen
    refine (h s hlt hopen).serve hk hsend ?_
    rw [hinner, inner_setInner_self]
    exact hpubs
  · have hsame : σ'.inner s = σ.inner s := by
      rw [hinner]
      exact inner_setInner_of_ne inner hst
    refine h.frame hlt hsame (by rw [hinner]; exact hopen) ?_
    exact .wake hsend

section Steps

variable (hok : σ.Ok attr) (hsize : 0 < attr.queueSize) (h : AllParked σ)
include hok hsize h

theorem AllParked.park {rest : List SubId}
    (hturn : SendsInTurn σ (.send f)) (hx : σ.send f = some x) (hpc : x.pc = .polling w)
    (hstate : x.state = .wait) (hsubs : x.subscribers = t :: rest)
    (hvisit : (σ.inner t).visit σ.attr σ.now w ⟨x.timestamp, x.data⟩ =
      some (inner, woken, .parked)) :
    AllParked ((σ.setInner t inner).setSend f { x with pc := .idle, woken := false }) := by
  intro s hlt hopen
  have hwaits : x.waitsAt t := ⟨hstate, by rw [hsubs]; rfl⟩
  by_cases hst : s = t
  · subst hst
    have hwaker : x.waker = some w := (hok.sender f x hx).waker w (.inl hpc)
    obtain ⟨hcase, hsz, -⟩ := visit_spec ((hok.size s).symm ▸ hsize) hvisit
    cases hcase with
    | behind hcl hne heq =>
      -- other publishers are registered, so the queue is full
      have hfull : (σ.inner s).queue.len = (σ.inner s).queue.queueSize :=
        hturn x hx hstate s (by rw [hsubs]; rfl) hcl hne
      subst heq
      exact (h s hlt hcl).park hx hwaits hwaker rfl ((length_items _).trans hfull)
    | full hcl hempty _ hlen hitems hpubs =>
      refine (h s hlt hcl).park hx hwaits hwaker (by rw [hpubs, hempty]; rfl) ?_
      rw [hitems, hlen, hsz]
  · have hnot : ¬ x.waitsAt s := by
      intro hw
      have := hw.2
      rw [hsubs] at this
      exact hst (some.inj this).symm
    refine h.frame hlt (inner_setInner_of_ne inner hst) hopen ?_
    exact .setSend_of_not hx rfl hnot fun hp => hnot hp.2

/-- A sender leaves the subscriber `t`, having handed over its message. -/
theorem AllParked.push {rest : List SubId} (hflow : attr.flowControl = true)
    (hx : σ.send f = some x) (hpc : x.pc = .polling w) (hsubs : x.subscribers = t :: rest)
    (hvisit : (σ.inner t).visit σ.attr σ.now w ⟨x.timestamp, x.data⟩ =
      some (inner, woken, .pushed)) :
    AllParked ((((σ.setInner t inner).setSend f { x with subscribers := rest }).record
      (.pushed t x.data)).wake woken) := by
  intro s hlt hopen
  have hrun : ¬ ({ x with subscribers := rest } : Sender T).parkedAt s :=
    not_parkedAt_of_pc (by rw [hpc]; nofun)
  by_cases hst : s = t
  · subst hst
    obtain ⟨hcase, -, -⟩ := visit_spec ((hok.size s).symm ▸ hsize) hvisit
    cases hcase with
    | pushed hcl hempty _ _ hpubs =>
      refine (h s hlt hcl).unregistered hempty
        ((congrArg _ (inner_setInner_self ..)).trans hpubs) ?_
      intro g z hz hp hwoken
      obtain ⟨y, hy, rfl⟩ := send_wake_eq_some.mp hz
      obtain ⟨-, rfl⟩ | ⟨-, hy⟩ := send_setSend_cases hy
      · exact absurd hp hrun
      · exact ⟨y, hy, hp, (Bool.or_eq_false_iff.mp hwoken).1⟩
    | replaced _ _ hno =>
      rw [hok.attr_eq, hflow] at hno
      cases hno
  · have hnot : ¬ x.waitsAt s := by
      intro hw
      have := hw.2
      rw [hsubs] at this
      exact hst (some.inj this).symm
    refine h.frame hlt (inner_setInner_of_ne inner hst) hopen ?_
    have hkept : SendersKept σ (((σ.setInner t inner).setSend f
        { x with subscribers := rest }).record (.pushed t x.data)) s :=
      .setSend_of_not hx rfl hnot hrun
    exact hkept.trans (.wake rfl)

end Steps

/-- Steps that touch neither the senders nor the wakers of a subscriber. -/
theorem AllParked.quiet (h : AllParked σ) (hsend : σ'.send = σ.send)
    (hnum : σ'.numSubscribers = σ.numSubscribers)
    (hinner : ∀ s, s < σ.numSubscribers → (σ'.inner s).closed = false →
      σ'.inner s = σ.inner s) : AllParked σ' := by
  intro s hlt hopen
  rw [hnum] at hlt
  exact h.frame hlt (hinner s hlt hopen) hopen (.of_eq hsend)

theorem AllParked.allocate (hok : σ.Ok attr) (h : AllParked σ) (hsend : σ'.send = σ.send)
    (hnum : σ'.numSubscribers = σ.numSubscribers + 1)
    (hinner : σ'.inner = (σ.setInner σ.numSubscribers inner).inner)
    (hpubs : inner.wakerPublishers = []) : AllParked σ' := by
  intro s hlt hopen
  by_cases hs : s = σ.numSubscribers
  · subst hs
    refine .fresh ?_ ?_
    · rw [hinner, inner_setInner_self]
      exact hpubs
    intro f x hx hmem
    rw [hsend] at hx
    exact absurd ((hok.sender f x hx).bounded _ hmem) (lt_irrefl _)
  · have hlt' : s < σ.numSubscribers := by omega
    refine h.frame hlt' ?_ hopen (.of_eq hsend)
    rw [hinner]
    exact inner_setInner_of_ne inner hs

/-- **The senders that take turns keep the invariant.** -/
theorem AllParked.step {a : TopicAction T} (hok : σ.Ok attr) (hsize : 0 < attr.queueSize)
    (hflow : attr.flowControl = true) (hperm : attr.lifespan = .permanent) (h : AllParked σ)
    (hturn : SendsInTurn σ a) (hs : σ.step a = some σ') : AllParked σ' := by
  have hpos : ∀ s, 0 < (σ.inner s).size := fun s => (hok.size s).symm ▸ hsize
  cases step_cases hs with
  | advance | insertSubscriber | removeSubscriber => exact h.quiet rfl rfl fun _ _ _ => rfl
  | newSend p d =>
    -- a new send waits nowhere yet
    intro s hlt hopen
    refine h.frame hlt rfl hopen ⟨?_, ?_⟩
    · intro f x hx hw
      have hne : f ≠ σ.numSends := (hok.lt_numSends hx).ne
      exact ⟨x, (send_setSend_of_ne _ hne).trans hx, hw, rfl, id⟩
    intro f y hy hp hwoken
    obtain ⟨-, rfl⟩ | ⟨-, hy⟩ := send_setSend_cases hy
    · cases hp.2.1
    · exact ⟨y, hy, hp, hwoken, rfl⟩
  | @poll f x w hx hpc =>
    intro s hlt hopen
    refine h.frame hlt rfl hopen (.setSend hx rfl ?_ ?_)
    · intro hw
      exact ⟨hw, (hturn x hx hw.1).symm, id⟩
    · intro hp
      cases hp.1
  | @snapshot f x w hx hpc hstate =>
    intro s hlt hopen
    obtain ⟨y, hsend, hy⟩ := σ.send_snapshot f x w
    have hlt' : s < σ.numSubscribers := by
      unfold snapshot at hlt
      dsimp only at hlt
      split at hlt <;> exact hlt
    refine h.frame hlt' (congrFun inner_snapshot s) hopen (.setSend_of_not hx hsend
      (not_waitsAt_of_state (by rw [hstate]; nofun)) (not_parkedAt_of_pc ?_))
    obtain hy | hy := hy
    · rw [hy]
      nofun
    · rw [hy, hpc]
      nofun
  | store hx hpc hbuf =>
    intro s hlt hopen
    have hstart := (hok.sender _ _ hx).storing _ hpc
    exact h.frame hlt rfl hopen (.setSend_of_not hx rfl
      (not_waitsAt_of_state (by rw [hstart]; nofun)) (not_parkedAt_of_pc nofun))
  | complete hx hpc hstate hsubs =>
    intro s hlt hopen
    refine h.frame hlt rfl hopen (.setSend_of_not hx rfl ?_ fun hp => absurd hp.2.1 nofun)
    rintro ⟨-, hhead⟩
    rw [hsubs] at hhead
    cases hhead
  | @skip f x w t rest inner woken hx hpc hstate hsubs hvisit =>
    intro s hlt hopen
    -- the subscriber that is skipped is closed
    have hclosed : (σ.inner t).closed = true := by
      obtain ⟨hcase, -, -⟩ := visit_spec (hpos t) hvisit
      cases hcase with
      | closed hcl => exact hcl
    refine h.frame hlt rfl hopen (.setSend_of_not hx rfl ?_
      (not_parkedAt_of_pc (by rw [hpc]; nofun)))
    rintro ⟨-, hhead⟩
    rw [hsubs] at hhead
    obtain rfl : t = s := some.inj hhead
    cases hclosed.symm.trans hopen
  | park hx hpc hstate hsubs hvisit => exact h.park hok hsize hturn hx hpc hstate hsubs hvisit
  | push hx hpc hstate hsubs hvisit => exact h.push hok hsize hflow hx hpc hsubs hvisit
  | again hx hpc hstate =>
    intro s hlt hopen
    exact h.frame hlt rfl hopen (.setSend_of_not hx rfl
      (not_waitsAt_of_state (by rw [hstate]; nofun))
      fun hp => absurd (hstate.symm.trans hp.2.1) nofun)
  | @dropSend f x hx hpc =>
    intro s hlt hopen
    refine h.frame hlt rfl hopen ⟨?_, ?_⟩
    · intro g y hy hw
      have hne : g ≠ f := by
        rintro rfl
        exact hturn y hy hw.1
      exact ⟨y, (Function.update_of_ne hne ..).trans hy, hw, rfl, id⟩
    · intro g y hy hp hwoken
      by_cases hg : g = f
      · subst hg
        exact absurd hy (by simp)
      · exact ⟨y, by simpa [hg] using hy, hp, hwoken, rfl⟩
  | @recv t w inner woken result hlive hrecv =>
    obtain ⟨hcase, hsz, hcl⟩ := recv_spec (hpos t) hrecv
    cases hcase with
    | @ready d rest hun hitems hpubs =>
      have hroom : rest.length < (σ.inner t).size := by
        have := length_unexpired_le σ.attr.lifespan σ.now (σ.inner t)
        rw [hun, length_cons] at this
        omega
      exact h.serve (Nat.sub_pos_of_lt hroom) rfl rfl rfl hpubs hcl
    | pending hun hitems hpubs =>
      -- the queue was empty before, so nothing has changed for the senders
      rw [hok.attr_eq, hperm, unexpired_permanent] at hun
      intro s hlt hopen
      have hsend : SendersKept σ ((σ.setReceiver t
          (receiverAfter w (none : Option (Data T)))).afterRecv t inner [] none) s :=
        .wake rfl
      by_cases hst : s = t
      · subst hst
        have hinner : ((σ.setReceiver s
            (receiverAfter w (none : Option (Data T)))).afterRecv s inner [] none).inner s =
              inner := inner_setInner_self ..
        rw [hinner, hcl] at hopen
        refine (h s hlt hopen).frame hsend (by rw [hinner, hpubs]) ?_
        rw [hinner, hitems, hun, hsz]
        exact id
      · exact h.frame hlt (inner_setInner_of_ne inner hst) hopen hsend
  | @tryRecv t inner woken result hlive hrecv =>
    obtain ⟨-, hitems, rfl, hpubs, -, hsz, hcl⟩ := tryRecv_spec (hpos t) hrecv
    have hroom : ((σ.inner t).unexpired σ.attr.lifespan σ.now).tail.length < (σ.inner t).size := by
      have := length_unexpired_le σ.attr.lifespan σ.now (σ.inner t)
      have := hpos t
      rw [length_tail]
      omega
    exact h.serve (Nat.sub_pos_of_lt hroom) send_afterRecv numSubscribers_afterRecv
      inner_afterRecv hpubs hcl
  | createSubscriber hlock hinner =>
    have hspec := newInner_spec hinner (by rw [hok.attr_eq]; exact hok.buf_size)
    exact h.allocate hok rfl rfl rfl hspec.2.1
  | cloneSubscriber => exact h.allocate hok rfl rfl rfl rfl
  | @closeSubscriber t hhandle =>
    intro s hlt hopen
    by_cases hst : s = t
    · subst hst
      have hclosed : (Function.update σ.inner s (σ.inner s).close.1 s).closed = true := by
        rw [Function.update_self]
        rfl
      cases hclosed.symm.trans hopen
    · exact h.frame hlt (inner_setInner_of_ne _ hst) hopen (.wake rfl)

/-- **No parked publisher beside free room**, for senders that take turns: in every state
reached, whenever the queue of an open subscriber has a free slot and a send future is
pending on it, one of the send futures that wait there has been woken since its last
poll. -/
theorem not_stranded {attr : Attribute} (hsize : 0 < attr.queueSize)
    (hflow : attr.flowControl = true) (hperm : attr.lifespan = .permanent) {σ : Topic T}
    (h : Topic.Reachable attr SendsInTurn σ) (s : SubId) : ¬ σ.Stranded s := by
  have hinv : σ.Ok attr ∧ AllParked σ := by
    refine h.invariant (I := fun σ => σ.Ok attr ∧ AllParked σ) ⟨.init attr, ?_⟩ ?_
    · intro s hlt
      exact absurd hlt (Nat.not_lt_zero s)
    · rintro σ a σ' ⟨hok, hpark⟩ hturn hs
      exact ⟨hok.step hsize hs, hpark.step hok hsize hflow hperm hturn hs⟩
  intro hstranded
  exact (hinv.2 s hstranded.1 hstranded.2.1).unstranded hstranded

/-- A topic of queue size 1 with flow control. -/
def singleSlot : Attribute := { Attribute.default with queueSize := 1 }

/-- One subscriber; publisher 0 fills its queue, publisher 1 is parked. -/
def fillAndPark : List (TopicAction Nat) :=
  [.cloneSubscriber 0, .newSend 0 10, .poll 0 0, .send 0, .send 0, .send 0,
    .newSend 1 11, .poll 1 1, .send 1, .send 1]

/-- The first message is received, and publisher 1 is woken. -/
theorem not_stranded_afterRecv : ∃ σ : Topic Nat, Topic.Reachable singleSlot SendsInTurn σ ∧
      (σ.inner 0).items = [] ∧ (σ.send 1).any (fun x => x.woken) = true ∧ ¬ σ.Stranded 0 := by
  refine Reaches.exists_of_run_imp (fillAndPark ++ [.recv 0 9])
    (fun σ => (σ.inner 0).items = [] ∧ (σ.send 1).any (fun x => x.woken) = true) (by decide) ?_
  rintro σ hreach ⟨hitems, hwoken⟩
  exact ⟨hitems, hwoken, not_stranded (by decide) rfl rfl hreach 0⟩

/-- **Two publishers are enough to strand a publisher.** Publishers 1 and 2 are parked. The
receive wakes publisher 1, whose poll finds publisher 2 registered and goes to the end of
the list: the queue is empty, both publishers are parked, and neither has been woken. -/
theorem stranded_of_two_publishers : ∃ σ : Topic Nat,
    Topic.Reachable singleSlot (fun _ _ => True) σ ∧ σ.Stranded 0 := by
  refine Reaches.exists_of_run_imp
    (fillAndPark ++ [.newSend 2 12, .poll 2 2, .send 2, .send 2, .recv 0 9, .poll 1 1, .send 1])
    (fun σ => (σ.numSubscribers = 1 ∧ (σ.inner 0).closed = false ∧
      (σ.inner 0).items.length < (σ.inner 0).size ∧ σ.numSends = 3) ∧
      (∃ x ∈ σ.send 1, x.pc = .idle ∧ x.state = .wait ∧ x.subscribers.head? = some 0) ∧
      ∀ f : Nat, f < 3 → ∀ x ∈ σ.send f, x.woken = false) (by decide) ?_
  rintro σ hreach ⟨⟨hnum, hopen, hroom, hsends⟩, ⟨x, hx, hparked⟩, hnone⟩
  refine ⟨by rw [hnum]; exact Nat.one_pos, hopen, hroom, ⟨1, x, hx, hparked⟩, ?_⟩
  intro f y hy _
  have hlt := (Topic.Ok.reachable (by decide) hreach).lt_numSends hy
  exact hnone f (hsends ▸ hlt) y hy

end Awkernel
