import Awkernel.PubSub.Parking

/-!
# Expired messages and the publisher that waits for room

One publisher, which sends one message after the other, and one subscriber of a topic with
flow control. Messages may have a lifespan, and a receive first removes the expired ones.
`recv_or_register_waker` wakes the publisher only if it then has a message to return. If
all the messages were expired, the queue is empty, the publisher is parked at it, and the
subscriber is parked too (`bothParked_of_expired`).

`RoomIsNoticed` is the condition under which the publisher is woken: while its waker is
registered, no `recv` finds all messages expired, and the publisher is not polled. Under it
every operation that makes room wakes the publisher (`wakes_when_room`), and the two are
never parked together with neither of them woken (`not_bothParked`).
-/

namespace Awkernel

open TransitionSystem Topic Sender InnerSubscriber List Bool

variable {T : Type} {attr : Attribute} {σ σ' : Topic T} {f : SendId} {x : Sender T}
  {inner : InnerSubscriber T}

/-- A topic with one subscriber, which is subscriber 0. -/
def Topic.single (attr : Attribute) : Topic T :=
  (((({ (init attr : Topic T) with
    numSubscribers := 1
    idToSubscriber := [0] }).setInner 0 (.new attr.queueSize)).setHandle 0 .live).record
      (.registered 0))

/-- The publisher sends one message after the other, and the subscriber receives. -/
def OneToOne (σ : Topic T) : TopicAction T → Prop
  | .advance _ | .poll _ _ | .send _ => True
  | .newSend _ _ => ∀ f : Nat, f < σ.numSends → ∀ x ∈ σ.send f, x.state = .finished
  | .recv s _ | .tryRecv s => s = 0
  | _ => False

/-- While the waker of the publisher is registered, the publisher is not polled and `recv`
finds a message that is not expired. -/
def RoomIsNoticed (σ : Topic T) : TopicAction T → Prop
  | .send f => ∀ x ∈ σ.send f, x.state = .wait → ∀ s ∈ x.subscribers.head?,
      (σ.inner s).wakerPublishers = []
  | .recv s _ => (σ.inner s).wakerPublishers ≠ [] →
      ((σ.inner s).unexpired σ.attr.lifespan σ.now).isEmpty = false
  | _ => True

instance (σ : Topic T) : DecidablePred (OneToOne σ) := fun a => by
  induction a using TopicAction.casesOn <;> dsimp only [OneToOne] <;> infer_instance

instance (σ : Topic T) : DecidablePred (RoomIsNoticed σ) := fun a => by
  induction a using TopicAction.casesOn <;> dsimp only [RoomIsNoticed] <;> infer_instance

/-- The publisher and the subscriber are both parked, and neither has been woken. -/
def Topic.BothParked (σ : Topic T) : Prop :=
  (∃ f x, σ.send f = some x ∧ x.parkedAt 0 ∧ x.woken = false) ∧
    ∃ w, (σ.receiver 0).waker = some w ∧ (σ.receiver 0).woken = false

/-! ### The invariant -/

/-- The two parties and what they have registered. -/
structure Noticed (σ : Topic T) : Prop where
  one : σ.numSubscribers = 1
  registered : ∀ f x, σ.send f = some x → x.parkedAt 0 → x.woken = false →
    ∃ w ∈ (σ.inner 0).wakerPublishers, x.waker = some w
  atMostOne : (σ.inner 0).wakerPublishers.length ≤ 1
  full : (σ.inner 0).wakerPublishers ≠ [] → (σ.inner 0).items.length = (σ.inner 0).size
  listening : ∀ w, (σ.receiver 0).waker = some w → (σ.receiver 0).woken = false →
    (σ.inner 0).wakerSubscriber = some w ∧ (σ.inner 0).items = []

namespace Noticed

section

variable (h : Noticed σ)

include h

/-- A parked publisher that has not been woken is registered at a full queue, and a parked
subscriber that has not been woken looks at an empty one. -/
theorem not_bothParked (hsize : 0 < (σ.inner 0).size) : ¬ σ.BothParked := by
  rintro ⟨⟨f, x, hx, hparked, hwoken⟩, w, hw, hrecv⟩
  obtain ⟨w', hw', -⟩ := h.registered f x hx hparked hwoken
  have hfull := h.full (ne_nil_of_mem hw')
  rw [(h.listening w hw hrecv).2] at hfull
  exact hsize.ne hfull

/-- With no waker registered, every parked publisher has been woken. -/
theorem woken_of_unregistered (hempty : (σ.inner 0).wakerPublishers = [])
    (hx : σ.send f = some x) (hp : x.parkedAt 0) :
    x.woken = true := by
  by_contra hwoken
  obtain ⟨w, hw, -⟩ := h.registered f x hx hp (eq_false_of_not_eq_true hwoken)
  rw [hempty] at hw
  cases hw

/-- Calling every registered waker wakes every parked publisher. -/
theorem woken_of_served {ws : List Waker} (hws : (σ.inner 0).wakerPublishers ⊆ ws)
    (hx : σ.send f = some x) (hp : x.parkedAt 0) : (x.notify ws).woken = true := by
  by_cases hwoken : x.woken = true
  · simp [notify, hwoken]
  · obtain ⟨w, hw, hwaker⟩ := h.registered f x hx hp (eq_false_of_not_eq_true hwoken)
    simp [notify, hwaker, hws hw]

/-- There is at most one waker, so waking for one free slot calls it. -/
theorem subset_take {k : Nat} (hk : 0 < k) :
    (σ.inner 0).wakerPublishers ⊆ (σ.inner 0).wakerPublishers.take k := by
  rw [take_of_length_le (h.atMostOne.trans hk)]
  exact List.Subset.refl _

theorem drop_eq_nil {k : Nat} (hk : 0 < k) : (σ.inner 0).wakerPublishers.drop k = [] :=
  drop_eq_nil_of_le (h.atMostOne.trans hk)

theorem frame (hone : σ'.numSubscribers = σ.numSubscribers)
    (hinner : σ'.inner 0 = σ.inner 0) (hreceiver : σ'.receiver 0 = σ.receiver 0)
    (hk : ∀ f y, σ'.send f = some y → y.parkedAt 0 → σ.send f = some y) : Noticed σ' where
  one := hone.trans h.one
  registered f y hy hp hwoken := by
    rw [hinner]
    exact h.registered f y (hk f y hy hp) hp hwoken
  atMostOne := by rw [hinner]; exact h.atMostOne
  full := by rw [hinner]; exact h.full
  listening := by rw [hinner, hreceiver]; exact h.listening

end

/-- The state in which all parked publishers have been woken and none is registered. -/
theorem served (hone : σ'.numSubscribers = 1) (hempty : (σ'.inner 0).wakerPublishers = [])
    (hwoken : ∀ f y, σ'.send f = some y → y.parkedAt 0 → y.woken = true)
    (hlisten : ∀ w, (σ'.receiver 0).waker = some w → (σ'.receiver 0).woken = false →
      (σ'.inner 0).wakerSubscriber = some w ∧ (σ'.inner 0).items = []) : Noticed σ' where
  one := hone
  registered f y hy hp hfalse := by
    rw [hwoken f y hy hp] at hfalse
    cases hfalse
  atMostOne := by rw [hempty]; exact Nat.zero_le 1
  full h := absurd hempty h
  listening := hlisten

end Noticed

/-- The queue of the subscriber has become shorter. -/
def MakesRoom (σ σ' : Topic T) : Prop :=
  (σ'.inner 0).items.length < (σ.inner 0).items.length

/-- What a step does: the invariant is kept, and room is noticed. -/
structure Notices (σ σ' : Topic T) : Prop where
  noticed : Noticed σ'
  wakes : MakesRoom σ σ' → ∀ f x, σ.send f = some x → x.parkedAt 0 →
    ∃ y, σ'.send f = some y ∧ y.woken = true

theorem Noticed.quiet (h : Noticed σ) (hone : σ'.numSubscribers = σ.numSubscribers)
    (hinner : σ'.inner 0 = σ.inner 0) (hreceiver : σ'.receiver 0 = σ.receiver 0)
    (hk : ∀ f y, σ'.send f = some y → y.parkedAt 0 → σ.send f = some y) : Notices σ σ' where
  noticed := h.frame hone hinner hreceiver hk
  wakes hroom := by
    unfold MakesRoom at hroom
    rw [hinner] at hroom
    exact absurd hroom (lt_irrefl _)

theorem parkedAt_setSend {f g : SendId} {y z : Sender T}
    (hy : (σ.setSend f z).send g = some y) (hp : y.parkedAt 0) (hnot : ¬ z.parkedAt 0) :
    σ.send g = some y := by
  obtain ⟨-, rfl⟩ | ⟨-, hy⟩ := send_setSend_cases hy
  · exact absurd hp hnot
  · exact hy

theorem Notices.of_setSend {x z : Sender T} (hx : σ.send f = some x)
    (hnot : ¬ x.parkedAt 0) (h : Notices (σ.setSend f z) σ') : Notices σ σ' where
  noticed := h.noticed
  wakes hroom g y hy hp := by
    have hne : g ≠ f := by
      rintro rfl
      exact hnot (Option.some.inj (hx.symm.trans hy) ▸ hp)
    exact h.wakes hroom g y ((send_setSend_of_ne _ hne).trans hy) hp

theorem Noticed.visit {w : Waker} {t : SubId} {rest : List SubId}
    {woken : List Waker} {v : InnerSubscriber.Visit}
    (h : Noticed σ) (hok : σ.Ok attr) (hsize : 0 < attr.queueSize)
    (hnotice : RoomIsNoticed σ (.send f)) (hx : σ.send f = some x) (hstate : x.state = .wait)
    (hsubs : x.subscribers = t :: rest)
    (hvisit : (σ.inner t).visit σ.attr σ.now w ⟨x.timestamp, x.data⟩ = some (inner, woken, v)) :
    t = 0 ∧ (σ.inner 0).wakerPublishers = [] ∧ inner.size = (σ.inner 0).size ∧
      InnerSubscriber.VisitCase σ.attr σ.now w ⟨x.timestamp, x.data⟩ (σ.inner 0) inner woken v := by
  have ht : t = 0 := by
    have := (hok.sender f x hx).bounded t (by rw [hsubs]; exact mem_cons_self)
    rw [h.one] at this
    exact Nat.lt_one_iff.mp this
  subst ht
  have hempty : (σ.inner 0).wakerPublishers = [] := hnotice x hx hstate 0 (by rw [hsubs]; rfl)
  obtain ⟨hcase, hsz, -⟩ := visit_spec ((hok.size 0).symm ▸ hsize) hvisit
  exact ⟨rfl, hempty, hsz, hcase⟩

theorem Noticed.serve {ws : List Waker} (h : Noticed σ)
    (hws : (σ.inner 0).wakerPublishers ⊆ ws) (hone : σ'.numSubscribers = σ.numSubscribers)
    (hsend : σ'.send = (σ.wake ws).send) (hinner : σ'.inner 0 = inner)
    (hpubs : inner.wakerPublishers = [])
    (hlisten : ∀ w, (σ'.receiver 0).waker = some w → (σ'.receiver 0).woken = false →
      inner.wakerSubscriber = some w ∧ inner.items = []) : Notices σ σ' where
  noticed := by
    refine .served (hone.trans h.one) (by rw [hinner, hpubs]) ?_ (by rw [hinner]; exact hlisten)
    intro f y hy hp
    rw [hsend] at hy
    obtain ⟨x, hx, rfl⟩ := send_wake_eq_some.mp hy
    exact h.woken_of_served hws hx hp
  wakes _ f x hx hp := by
    rw [hsend]
    exact ⟨_, send_wake_eq_some.mpr ⟨x, hx, rfl⟩, h.woken_of_served hws hx hp⟩

/-- **Every step keeps the invariant, and wakes the publisher when it makes room.** -/
theorem Noticed.step {a : TopicAction T} (h : Noticed σ) (hok : σ.Ok attr)
    (hsize : 0 < attr.queueSize) (hflow : attr.flowControl = true) (hone : OneToOne σ a)
    (hnotice : RoomIsNoticed σ a) (hs : σ.step a = some σ') : Notices σ σ' := by
  have hpos : 0 < (σ.inner 0).size := (hok.size 0).symm ▸ hsize
  cases step_cases hs with
  | advance => exact h.quiet rfl rfl rfl fun _ _ hy _ => hy
  | newSend | complete =>
    exact h.quiet rfl rfl rfl fun _ _ hy hp =>
      parkedAt_setSend hy hp fun hp => absurd hp.2.1 (by simp)
  | poll w hx hpc =>
    exact h.quiet rfl rfl rfl fun _ _ hy hp =>
      parkedAt_setSend hy hp (not_parkedAt_of_pc nofun)
  | @snapshot f x w hx hpc hstate =>
    obtain ⟨z, hsend, hz⟩ := σ.send_snapshot f x w
    have hnot : ¬ z.parkedAt 0 := by
      refine not_parkedAt_of_pc ?_
      obtain hz | hz := hz
      · rw [hz]
        nofun
      · rw [hz, hpc]
        nofun
    refine h.quiet ?_ (congrFun inner_snapshot 0) ?_ ?_
    · unfold snapshot
      dsimp only
      split <;> rfl
    · unfold snapshot
      dsimp only
      split <;> rfl
    · intro g y hy hp
      rw [hsend] at hy
      exact parkedAt_setSend hy hp hnot
  | store hx hpc hbuf =>
    exact h.quiet rfl rfl rfl fun _ _ hy hp =>
      parkedAt_setSend (σ := σ) hy hp (not_parkedAt_of_pc nofun)
  | skip hx hpc hstate hsubs hvisit =>
    exact h.quiet rfl rfl rfl fun _ _ hy hp =>
      parkedAt_setSend hy hp (not_parkedAt_of_pc (by rw [hpc]; nofun))
  | @park f x w t rest inner woken hx hpc hstate hsubs hvisit =>
    obtain ⟨rfl, hempty, hsz, hcase⟩ := h.visit hok hsize hnotice hx hstate hsubs hvisit
    have hwaker : x.waker = some w := (hok.sender f x hx).waker w (.inl hpc)
    have hinner : ((σ.setInner 0 inner).setSend f { x with pc := .idle, woken := false }).inner 0 =
        inner := inner_setInner_self (σ := σ) 0 inner
    cases hcase with
    | behind _ hne => exact absurd hempty hne
    | full _ _ _ hlen hitems hpubs hsub =>
      have hfull : inner.items.length = inner.size := by rw [hitems, hlen, hsz]
      refine ⟨⟨h.one, ?_, ?_, ?_, ?_⟩, ?_⟩
      · intro g y hy hp hwoken
        rw [hinner, hpubs]
        obtain ⟨-, rfl⟩ | ⟨-, hy⟩ := send_setSend_cases hy
        · exact ⟨w, mem_singleton_self w, hwaker⟩
        · rw [h.woken_of_unregistered hempty hy hp] at hwoken
          cases hwoken
      · rw [hinner, hpubs]
        exact le_rfl
      · exact fun _ => hfull
      · -- the queue is full, so the subscriber is not listening
        intro w' hw' hwoken
        have hnil := (h.listening w' hw' hwoken).2
        have hshort := (unexpired_suffix σ.attr.lifespan σ.now
          (σ.inner 0)).length_le
        rw [hnil, hlen] at hshort
        exact absurd hshort (not_le.mpr hpos)
      · intro hroom
        unfold MakesRoom at hroom
        rw [hinner, hfull, hsz] at hroom
        exact absurd (length_items_le (σ.inner 0)) (not_le.mpr hroom)
  | @push f x w t rest inner woken hx hpc hstate hsubs hvisit =>
    obtain ⟨rfl, hempty, hsz, hcase⟩ := h.visit hok hsize hnotice hx hstate hsubs hvisit
    have hrun : ¬ ({ x with subscribers := rest } : Sender T).parkedAt 0 :=
      not_parkedAt_of_pc (by rw [hpc]; nofun)
    cases hcase with
    | pushed _ _ _ hitems hpubs hsub =>
      have hset : Noticed (σ.setSend f { x with subscribers := rest }) :=
        h.frame rfl rfl rfl fun _ _ hy hp => parkedAt_setSend hy hp hrun
      have hnil : ∀ ws, (σ.inner 0).wakerPublishers ⊆ ws := by simp [hempty]
      refine .of_setSend hx (not_parkedAt_of_pc (by rw [hpc]; nofun))
        (hset.serve (hnil _) rfl rfl (inner_setInner_self (σ := σ) 0 inner) hpubs ?_)
      -- a subscriber that was listening has just been woken
      intro w' hw' hwoken
      obtain ⟨hfalse, hany⟩ := or_eq_false_iff.mp hwoken
      have hlisten := (h.listening w' hw' hfalse).1
      rw [hlisten] at hany
      have hw'' : (σ.receiver 0).waker = some w' := hw'
      have : ((σ.receiver 0).waker.any (· ∈ [w'])) = false := hany
      rw [hw''] at this
      simp at this
    | replaced _ _ hno =>
      rw [hok.attr_eq, hflow] at hno
      cases hno
  | again hx hpc hstate =>
    exact h.quiet rfl rfl rfl fun _ _ hy hp =>
      parkedAt_setSend hy hp fun hp => absurd (hstate.symm.trans hp.2.1) (by simp)
  | dropSend | createSubscriber | insertSubscriber | cloneSubscriber | removeSubscriber
  | closeSubscriber => cases hone
  | @recv t w inner woken result hlive hrecv =>
    obtain rfl : t = 0 := hone
    obtain ⟨hcase, hsz, -⟩ := recv_spec hpos hrecv
    cases hcase with
    | @ready d rest hun hitems hpubs hsub =>
      have hroom : rest.length < (σ.inner 0).size := by
        have := length_unexpired_le σ.attr.lifespan σ.now (σ.inner 0)
        rw [hun, length_cons] at this
        omega
      have hk := Nat.sub_pos_of_lt hroom
      refine h.serve (h.subset_take hk) rfl rfl (inner_setInner_self (σ := σ) 0 inner)
        (hpubs.trans (h.drop_eq_nil hk)) ?_
      -- the receiver goes on with the message
      intro w' hw'
      have : (Function.update σ.receiver 0 ⟨none, false⟩ 0).waker = some w' := hw'
      cases this
    | pending hun hitems hpubs hsub =>
      have hempty : (σ.inner 0).wakerPublishers = [] := by
        by_contra hne
        have := hnotice hne
        rw [hun] at this
        cases this
      refine h.serve (by rw [hempty]; exact nil_subset _) rfl rfl
        (inner_setInner_self (σ := σ) 0 inner) (hpubs.trans hempty) ?_
      intro w' hw' _
      have hw'' : (Function.update σ.receiver 0 ⟨some w, false⟩ 0).waker = some w' := hw'
      obtain rfl : w = w' := Option.some.inj hw''
      exact ⟨hsub, hitems⟩
  | @tryRecv t inner woken result hlive hrecv =>
    obtain rfl : t = 0 := hone
    obtain ⟨-, hitems, rfl, hpubs, hsub, hsz, -⟩ := tryRecv_spec hpos hrecv
    have hroom : ((σ.inner 0).unexpired σ.attr.lifespan σ.now).tail.length < (σ.inner 0).size := by
      have := length_unexpired_le σ.attr.lifespan σ.now (σ.inner 0)
      rw [length_tail]
      omega
    have hk := Nat.sub_pos_of_lt hroom
    refine h.serve (h.subset_take hk) numSubscribers_afterRecv send_afterRecv ?_
      (hpubs.trans (h.drop_eq_nil hk)) ?_
    · rw [inner_afterRecv]
      exact inner_setInner_self ..
    intro w' hw' hwoken
    -- a subscriber that is still listening was listening before, at an empty queue
    rw [receiver_afterRecv] at hw' hwoken
    obtain ⟨hl, hnil⟩ := h.listening w' hw' (or_eq_false_iff.mp hwoken).1
    refine ⟨hsub.trans hl, ?_⟩
    have hsuffix := unexpired_suffix σ.attr.lifespan σ.now (σ.inner 0)
    rw [hnil, suffix_nil] at hsuffix
    rw [hitems, hsuffix]
    rfl

theorem Noticed.single (attr : Attribute) : Noticed (single attr : Topic T) where
  one := rfl
  registered _ _ hx := absurd hx nofun
  atMostOne := Nat.zero_le 1
  full h := absurd rfl h
  listening _ hw := absurd hw nofun

/-- **The publisher is told about room.** In every run in which no `recv` finds all messages
expired, and the publisher is not polled, while its waker is registered: an operation that
shortens the queue while the publisher is parked leaves the publisher woken, and the
publisher and the subscriber are never both parked with neither woken. -/
theorem room_noticed {attr : Attribute} (hsize : 0 < attr.queueSize)
    (hflow : attr.flowControl = true) {σ : Topic T}
    (h : Reaches step (fun σ a => OneToOne σ a ∧ RoomIsNoticed σ a) (single attr) σ) :
    (∀ a σ', OneToOne σ a → RoomIsNoticed σ a → σ.step a = some σ' → MakesRoom σ σ' →
      ∀ f x, σ.send f = some x → x.parkedAt 0 → ∃ y, σ'.send f = some y ∧ y.woken = true) ∧
      ¬ σ.BothParked := by
  have hinv : σ.Ok attr ∧ Noticed σ := by
    refine h.invariant (I := fun σ => σ.Ok attr ∧ Noticed σ) ⟨?_, .single attr⟩ ?_
    · exact (Topic.Ok.init attr).step hsize (a := .cloneSubscriber 0) rfl
    · rintro σ a σ' ⟨hok, hn⟩ ⟨hone, hnotice⟩ hs
      exact ⟨hok.step hsize hs, (hn.step hok hsize hflow hone hnotice hs).noticed⟩
  obtain ⟨hok, hn⟩ := hinv
  refine ⟨?_, hn.not_bothParked (hok.size 0 ▸ hsize)⟩
  intro a σ' hone hnotice hs
  exact (hn.step hok hsize hflow hone hnotice hs).wakes

/-- A topic of queue size 1 whose messages live for one microsecond. -/
def shortLived : Attribute := { singleSlot with lifespan := .span 1000 }

/-- The first message fills the queue, and the second is parked. -/
def sendTwo : List (TopicAction Nat) :=
  [.newSend 0 10, .poll 0 0, .send 0, .send 0, .send 0, .newSend 0 11, .poll 1 0, .send 1, .send 1]

/-- The message is received before it expires. -/
theorem room_noticed_inTime : ∃ σ : Topic Nat,
    Reaches step (fun σ a => OneToOne σ a ∧ RoomIsNoticed σ a) (single shortLived) σ ∧
      (∃ x ∈ σ.send 1, x.pc = .idle ∧ x.state = .wait ∧ x.woken = true) ∧ ¬ σ.BothParked := by
  refine Reaches.exists_of_run_imp (sendTwo ++ [.recv 0 9])
    (fun σ => ∃ x ∈ σ.send 1, x.pc = .idle ∧ x.state = .wait ∧ x.woken = true) (by decide) ?_
  exact fun σ hreach hx => ⟨hx, (room_noticed (by decide) rfl hreach).2⟩

/-- **Expired messages make room that nobody notices.** The publisher is parked at the full
queue when the message in it expires. The `recv` of the subscriber removes it, finds the
queue empty, and is parked without waking the publisher. -/
theorem bothParked_of_expired : ∃ σ σ' : Topic Nat,
    Reaches step OneToOne (single shortLived) σ ∧ OneToOne σ (.recv 0 9) ∧
      σ.step (.recv 0 9) = some σ' ∧ MakesRoom σ σ' ∧ σ'.BothParked := by
  obtain ⟨σ, hrun, hσ⟩ := exists_of_run_any (guarded step OneToOne) (single shortLived)
    (sendTwo ++ [.advance 3000])
    (fun σ : Topic Nat => (σ.step (.recv 0 9)).any fun σ' : Topic Nat =>
      decide ((σ'.inner 0).items.length < (σ.inner 0).items.length) &&
      decide (∃ x ∈ σ'.send 1, (x.pc = .idle ∧ x.state = .wait ∧ x.subscribers.head? = some 0) ∧
        x.woken = false) &&
      decide ((σ'.receiver 0).waker = some 9 ∧ (σ'.receiver 0).woken = false)) (by decide)
  cases hstep : σ.step (.recv 0 9) with
  | none =>
    rw [hstep] at hσ
    cases hσ
  | some σ' =>
    rw [hstep] at hσ
    obtain ⟨h₁₂, h₃⟩ := and_eq_true_iff.mp hσ
    obtain ⟨h₁, h₂⟩ := and_eq_true_iff.mp h₁₂
    obtain ⟨x, hx, hparked, hwoken⟩ := of_decide_eq_true h₂
    have hroom : (σ'.inner 0).items.length < (σ.inner 0).items.length := of_decide_eq_true h₁
    exact ⟨σ, σ', Reaches.of_run hrun, rfl, hstep, hroom, ⟨1, x, hx, hparked, hwoken⟩, 9,
      of_decide_eq_true h₃⟩

end Awkernel
