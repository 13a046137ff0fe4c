import Awkernel.PubSub.Delivery
import Awkernel.PubSub.Invariant

/-!
# A topic delivers its messages

`Topic.abs` forgets the wakers, the polls and the locks of a topic. In the runs in which
every publisher sends one message after the other and finishes each send, and messages do
not expire, a step of a topic is a step of its abstraction or does not show there
(`abs_step`), so the topic inherits what `Broadcast` guarantees.

`delivery` reads it off for the topics that are not transient local.
-/

namespace Awkernel

open TransitionSystem Sender InnerSubscriber List Function

variable {α : Type} {attr : Attribute} {σ σ' : Topic (Msg α)}

/-- The runs: messages tell their publisher and their send future, a publisher creates a
send future when its earlier ones have finished, and drops it only then. -/
def InTurn (σ : Topic (Msg α)) : TopicAction (Msg α) → Prop
  | .newSend p m => m.publisher = p ∧ m.id = σ.numSends ∧
      ∀ f : Nat, f < σ.numSends → ∀ x ∈ σ.send f, x.publisher = p → x.state = .finished
  | .dropSend f => ∀ x ∈ σ.send f, x.state = .finished
  | _ => True

instance (σ : Topic (Msg α)) : DecidablePred (InTurn σ) := fun a => by
  induction a using TopicAction.casesOn <;> dsimp only [InTurn] <;> infer_instance

/-! ### The abstraction -/

/-- A send has started when it has taken its list of subscribers. -/
def Sender.phase (x : Sender (Msg α)) : Phase :=
  match x.state, x.pc with
  | .finished, _ => .done
  | .wait, _ => .running
  | .start, .storing _ => .running
  | .start, _ => .fresh

def Sender.outgoing (x : Sender (Msg α)) : Outgoing α :=
  ⟨x.publisher, x.data, x.subscribers, x.phase⟩

def HandleState.life : HandleState → Life
  | .creating => .created
  | .live => .live
  | .dropping | .dropped => .gone

namespace Topic

/-- The messages in the queue of a subscriber. -/
def queued (σ : Topic (Msg α)) (s : SubId) : List (Msg α) := (σ.inner s).items.map Data.data

def abs (σ : Topic (Msg α)) : Broadcast α where
  life s := if s < σ.numSubscribers then (σ.handle s).life else .unborn
  queue := σ.queued
  numSends := σ.numSends
  send f := (σ.send f).map outgoing
  log := σ.log

theorem abs_setSend (σ : Topic (Msg α)) (f : SendId) (x : Sender (Msg α)) :
    (σ.setSend f x).abs = σ.abs.setSend f (some x.outgoing) :=
  congrArg (fun send => { σ.abs with send := send })
    (comp_update (Option.map outgoing) σ.send f (some x))

variable {f : SendId} {x : Sender (Msg α)} {s : SubId} {inner : InnerSubscriber (Msg α)}
  {woken : List Waker}

theorem abs_setSend_same {y : Sender (Msg α)} (hx : σ.send f = some x)
    (h : y.outgoing = x.outgoing) : (σ.setSend f y).abs = σ.abs := by
  rw [abs_setSend, h]
  have hsend : σ.abs.send f = some x.outgoing := by
    show (σ.send f).map _ = _
    rw [hx]
    rfl
  rw [← hsend]
  exact congrArg (fun send => { σ.abs with send := send }) (update_eq_self f σ.abs.send)

theorem abs_setInner (σ : Topic (Msg α)) (s : SubId) (inner : InnerSubscriber (Msg α)) :
    (σ.setInner s inner).abs = σ.abs.setQueue s (inner.items.map Data.data) :=
  congrArg (fun queue => { σ.abs with queue := queue })
    (comp_update (fun inner => inner.items.map Data.data) σ.inner s inner)

theorem abs_setInner_same (h : inner.items = (σ.inner s).items) :
    (σ.setInner s inner).abs = σ.abs := by
  rw [abs_setInner, h]
  exact congrArg (fun queue => { σ.abs with queue := queue }) (update_eq_self s σ.queued)

theorem abs_wake (σ : Topic (Msg α)) (woken : List Waker) : (σ.wake woken).abs = σ.abs := by
  have hsend : (fun f => ((σ.wake woken).send f).map outgoing) = σ.abs.send := by
    funext f
    show ((σ.send f).map (notify woken)).map outgoing = _
    rw [Option.map_map]
    rfl
  exact congrArg (fun send => { σ.abs with send := send }) hsend

theorem abs_record (σ : Topic (Msg α)) (e : Event (Msg α)) :
    (σ.record e).abs = σ.abs.record e := rfl

theorem abs_setHandle (hs : s < σ.numSubscribers) (h : HandleState) :
    (σ.setHandle s h).abs = σ.abs.setLife s h.life := by
  have hlife : (σ.setHandle s h).abs.life = update σ.abs.life s h.life := by
    funext t
    refine (apply_update (fun t (h : HandleState) => if t < σ.numSubscribers then h.life else
      .unborn) σ.handle s h t).trans ?_
    rw [if_pos hs]
    rfl
  exact congrArg (fun life => { σ.abs with life := life }) hlife

theorem abs_allocate (σ : Topic (Msg α)) (inner : InnerSubscriber (Msg α)) (h : HandleState)
    (ids : List SubId) (lock : Option SubId) :
    (({ σ with
        numSubscribers := σ.numSubscribers + 1
        idToSubscriber := ids
        publishSubscribe := lock }.setInner σ.numSubscribers inner).setHandle σ.numSubscribers
          h).abs =
      (σ.abs.setQueue σ.numSubscribers (inner.items.map Data.data)).setLife σ.numSubscribers
        h.life := by
  rw [abs_setHandle (Nat.lt_succ_self _), abs_setInner]
  have hlife : ∀ t, t ≠ σ.numSubscribers →
      (if t < σ.numSubscribers + 1 then (σ.handle t).life else .unborn) = σ.abs.life t := by
    intro t ht
    have hiff : t < σ.numSubscribers + 1 ↔ t < σ.numSubscribers :=
      ⟨fun hlt => Nat.lt_of_le_of_ne (Nat.le_of_lt_succ hlt) ht, Nat.lt_succ_of_lt⟩
    show _ = if t < σ.numSubscribers then (σ.handle t).life else .unborn
    simp only [hiff]
  have hupdate : update (fun t => if t < σ.numSubscribers + 1 then (σ.handle t).life else .unborn)
      σ.numSubscribers h.life = update σ.abs.life σ.numSubscribers h.life := by
    funext t
    by_cases ht : t = σ.numSubscribers
    · subst ht
      rw [update_self, update_self]
    · rw [update_of_ne ht, update_of_ne ht, hlife t ht]
  exact congrArg (fun life => { σ.abs.setQueue σ.numSubscribers (inner.items.map Data.data) with
    life := life }) hupdate

theorem abs_life_of_lt (hs : s < σ.numSubscribers) : σ.abs.life s = (σ.handle s).life := if_pos hs

/-- The life of a subscriber whose handle is known. -/
theorem abs_life_of_handle {l : HandleState} (h : σ.Ok attr) (hh : σ.handle s = l)
    (hl : l ≠ .dropped) : σ.abs.life s = l.life := by
  rw [abs_life_of_lt (h.lt_of_live (by rw [hh]; exact hl)), hh]

theorem abs_send_of_eq (hx : σ.send f = some x) : σ.abs.send f = some x.outgoing := by
  show (σ.send f).map _ = _
  rw [hx]
  rfl

theorem abs_snapshot (h : σ.Ok attr) {waker : Waker} (hx : σ.send f = some x)
    (hpc : x.pc = .polling waker) (hstate : x.state = .start) :
    (σ.snapshot f x waker).abs = (σ.abs.setSend f (some { x.outgoing with
        targets := σ.idToSubscriber, phase := .running })).record (.started x.data) := by
  have hempty : x.subscribers = [] :=
    (h.sender f x hx).start hstate (by rw [hpc]; nofun)
  unfold snapshot
  dsimp only
  rw [hempty]
  split
  · refine (abs_setSend _ _ _).trans ?_
    simp only [outgoing, phase, hstate]
    rfl
  · refine (abs_setSend _ _ _).trans ?_
    rfl

theorem abs_afterRecv_none (h : inner.items = (σ.inner s).items) :
    (σ.afterRecv s inner woken none).abs = σ.abs :=
  (abs_wake _ _).trans (abs_setInner_same h)

theorem abs_afterRecv_some {d : Data (Msg α)} : (σ.afterRecv s inner woken (some d)).abs =
      (σ.abs.setQueue s (inner.items.map Data.data)).record (.received s d.data) := by
  rw [afterRecv, abs_wake, abs_record, abs_setInner]

theorem phase_wait (h : x.state = .wait) : x.phase = .running := by
  simp only [phase, h]

/-- **A topic refines its abstraction.** -/
theorem abs_step (h : σ.Ok attr) (hsize : 0 < attr.queueSize) (hperm : attr.lifespan = .permanent)
    {a : TopicAction (Msg α)} (hturn : InTurn σ a) (hs : σ.step a = some σ') :
    σ'.abs = σ.abs ∨ Broadcast.Step attr σ.abs σ'.abs := by
  have hpos : ∀ s, 0 < (σ.inner s).size := fun s => (h.size s).symm ▸ hsize
  have hunexpired : ∀ s, (σ.inner s).unexpired σ.attr.lifespan σ.now = (σ.inner s).items := by
    intro s
    rw [h.attr_eq, hperm]
    rfl
  have hlen : ∀ s, (σ.abs.queue s).length = (σ.inner s).items.length := fun s => length_map _
  cases step_cases hs with
  | advance => exact .inl rfl
  | newSend p m =>
    obtain ⟨rfl, hid, hturn⟩ := hturn
    refine .inr ?_
    rw [abs_setSend]
    refine .newSend m hid ?_
    intro f y hy hpub
    obtain ⟨x, hx, rfl⟩ := Option.map_eq_some_iff.mp hy
    have hstate := hturn f (h.lt_numSends hx) x hx hpub
    show x.phase = .done
    unfold phase
    rw [hstate]
  | @poll f x waker hx hpc =>
    refine .inl (abs_setSend_same hx ?_)
    simp only [outgoing, phase, hpc]
    cases x.state <;> rfl
  | @snapshot f x waker hx hpc hstate =>
    refine .inr ?_
    rw [abs_snapshot h hx hpc hstate]
    refine .start (abs_send_of_eq hx) ?_ h.nodup ?_
    · show x.phase = .fresh
      simp only [phase, hstate, hpc]
    intro s
    rw [h.registered]
    constructor
    · intro hlive
      exact abs_life_of_handle h hlive nofun
    intro hlive
    change (if s < σ.numSubscribers then (σ.handle s).life else .unborn) = .live at hlive
    split at hlive
    · cases hh : σ.handle s <;> rw [hh] at hlive <;> first | rfl | cases hlive
    · cases hlive
  | @store f x waker buf hx hpc hbuf =>
    refine .inl ((abs_setSend_same (σ := { σ with senderBuf := _, readers := _ }) hx ?_).trans
      rfl)
    have hstate := (h.sender f x hx).storing waker hpc
    simp only [outgoing, phase, hstate, hpc]
  | complete hx hpc hstate hsubs =>
    refine .inr ?_
    rw [abs_record, abs_setSend]
    exact .complete (abs_send_of_eq hx) (phase_wait hstate) hsubs
  | @skip f x waker s rest inner woken hx hpc hstate hsubs hvisit =>
    obtain ⟨hcase, -⟩ := visit_spec (hpos s) hvisit
    cases hcase with
    | closed hclosed _ =>
      have hlt : s < σ.numSubscribers :=
        (h.sender f x hx).bounded s (by rw [hsubs]; exact .head _)
      refine .inr ?_
      rw [abs_setSend]
      refine .skip (abs_send_of_eq hx) (phase_wait hstate) hsubs ?_
      rw [abs_life_of_lt hlt, (h.closed s hlt).mp hclosed]
      rfl
  | @park f x waker s rest inner woken hx hpc hstate hsubs hvisit =>
    obtain ⟨hcase, -⟩ := visit_spec (hpos s) hvisit
    have hitems : inner.items = (σ.inner s).items := by
      cases hcase with
      | behind _ _ heq => rw [heq]; rfl
      | full _ _ _ _ hitems => rw [hitems, hunexpired]
    refine .inl ((abs_setSend_same (σ := σ.setInner s inner) hx ?_).trans
      (abs_setInner_same hitems))
    simp only [outgoing, phase, hstate]
  | @push f x waker s rest inner woken hx hpc hstate hsubs hvisit =>
    obtain ⟨hcase, -⟩ := visit_spec (hpos s) hvisit
    have hroom : ∃ left, Broadcast.MakesRoom attr (σ.abs.queue s) left ∧
        inner.items.map Data.data = left ++ [x.data] := by
      cases hcase with
      | pushed _ _ hlt hitems =>
        refine ⟨_, .inl ⟨?_, rfl⟩, ?_⟩
        · rw [hunexpired, h.size] at hlt
          rw [hlen]
          exact hlt
        · rw [hitems, hunexpired, map_append]
          rfl
      | replaced _ _ hflow hfull hitems =>
        refine ⟨_, .inr ⟨h.attr_eq ▸ hflow, ?_, rfl⟩, ?_⟩
        · rw [hunexpired, h.size] at hfull
          rw [hlen]
          exact hfull
        · rw [hitems, hunexpired, map_append, map_tail]
          rfl
    obtain ⟨left, hroom, hitems⟩ := hroom
    refine .inr ?_
    rw [abs_wake, abs_record, abs_setSend, abs_setInner, hitems]
    exact .deliver (abs_send_of_eq hx) (phase_wait hstate) hsubs hroom
  | again hx hpc hstate =>
    refine .inl (abs_setSend_same hx ?_)
    simp only [outgoing, phase, hstate]
  | @dropSend f x hx hpc =>
    refine .inr ?_
    have habs : ({ σ with send := update σ.send f none } : Topic (Msg α)).abs =
        σ.abs.setSend f none := congrArg (fun send => { σ.abs with send := send })
      (comp_update (Option.map outgoing) σ.send f none)
    rw [habs]
    refine .drop (abs_send_of_eq hx) ?_
    show x.phase = .done
    unfold phase
    rw [hturn x hx]
  | @recv s waker inner woken result hlive hrecv =>
    obtain ⟨hcase, -⟩ := recv_spec (hpos s) hrecv
    cases hcase with
    | ready hqueue hitems =>
      refine .inr ?_
      rw [abs_afterRecv_some, hitems]
      refine .receive (b := σ.abs) (abs_life_of_handle h hlive nofun) ?_
      show (σ.inner s).items.map _ = _
      rw [← hunexpired, hqueue]
      rfl
    | pending hqueue hitems =>
      refine .inl ((abs_afterRecv_none ?_).trans rfl)
      show _ = (σ.inner s).items
      rw [hitems, ← hunexpired, hqueue]
  | @tryRecv s inner woken result hlive hrecv =>
    obtain ⟨hresult, hitems, -⟩ := tryRecv_spec (hpos s) hrecv
    rw [hunexpired] at hresult hitems
    cases hqueue : (σ.inner s).items with
    | nil =>
      rw [hqueue] at hresult hitems
      subst hresult
      exact .inl (abs_afterRecv_none (hitems.trans hqueue.symm))
    | cons d rest =>
      rw [hqueue] at hresult hitems
      subst hresult
      refine .inr ?_
      rw [head?_cons, abs_afterRecv_some, hitems]
      refine .receive (abs_life_of_handle h hlive nofun) ?_
      show (σ.inner s).items.map _ = _
      rw [hqueue]
      rfl
  | createSubscriber hlock hinner =>
    refine .inr ?_
    rw [abs_allocate]
    refine .create (if_neg (lt_irrefl _)) ?_
    intro hlocal
    rw [(newInner_spec hinner (by rw [h.attr_eq]; exact h.buf_size)).2.2.2.2.1
      (by rw [h.attr_eq]; exact hlocal)]
    rfl
  | @insertSubscriber s pos hlock hhandle hreaders =>
    have hlt : s < σ.numSubscribers := h.lt_of_live (by rw [hhandle]; nofun)
    refine .inr ?_
    rw [abs_record, abs_setHandle (by exact hlt)]
    exact .join (b := σ.abs) (abs_life_of_handle h hhandle nofun)
  | cloneSubscriber pos hreaders =>
    refine .inr ?_
    rw [abs_record, abs_allocate]
    exact .clone (if_neg (lt_irrefl _))
  | @removeSubscriber s hlive hlock hreaders =>
    have hlt : s < σ.numSubscribers := h.lt_of_live (by rw [hlive]; nofun)
    refine .inr ?_
    rw [abs_setHandle (by exact hlt)]
    exact .leave (b := σ.abs) (abs_life_of_handle h hlive nofun)
  | @closeSubscriber s hhandle =>
    have hlt : s < σ.numSubscribers := h.lt_of_live (by rw [hhandle]; nofun)
    refine .inl ?_
    rw [abs_wake, abs_setHandle (by exact hlt)]
    refine Eq.trans (congrArg (Broadcast.setLife · s _) (abs_setInner_same rfl)) ?_
    have hlife : σ.abs.life s = .gone := abs_life_of_handle h hhandle nofun
    show { σ.abs with life := update σ.abs.life s .gone } = σ.abs
    rw [← hlife, update_eq_self]

theorem abs_inv {ok : Topic (Msg α) → TopicAction (Msg α) → Prop} (hsize : 0 < attr.queueSize)
    (hperm : attr.lifespan = .permanent) (hok : ∀ σ a, ok σ a → InTurn σ a)
    (h : Topic.Reachable attr ok σ) : σ.abs.Inv := by
  have hinv : σ.Ok attr ∧ σ.abs.Inv := by
    refine h.invariant (I := fun σ => σ.Ok attr ∧ σ.abs.Inv) ⟨.init attr, ?_⟩ ?_
    · refine ⟨⟨nofun, fun _ _ => rfl, nofun, nofun, nofun, nofun, nofun⟩, ⟨?_, nofun⟩, nofun,
        nodup_nil, fun _ => nodup_nil⟩
      exact fun _ _ => ⟨rfl, rfl, rfl, fun _ _ hc => absurd hc.choose_spec.1 nofun⟩
    rintro σ a σ' ⟨hσ, habs⟩ hturn hs
    refine ⟨hσ.step hsize hs, ?_⟩
    obtain heq | hstep := abs_step hσ hsize hperm (hok σ a hturn) hs
    · rw [heq]
      exact habs
    · exact habs.step hstep
  exact hinv.2

theorem abs_queues (hsize : 0 < attr.queueSize) (hperm : attr.lifespan = .permanent)
    (hlocal : attr.transientLocal = false) (h : Topic.Reachable attr InTurn σ) :
    σ.abs.Queues attr := by
  induction h with
  | refl => exact ⟨fun _ _ hborn => absurd rfl hborn, fun _ hborn => absurd rfl hborn⟩
  | tail hreach hturn hs ih =>
    have hok := Topic.Ok.reachable hsize hreach
    have hinv := abs_inv hsize hperm (fun _ _ => id) hreach
    obtain heq | hstep := abs_step hok hsize hperm hturn hs
    · rw [heq]
      exact ih
    · exact ih.step hinv hsize hlocal hstep

/-! ### The waker of the receiver -/

/-- A receiver is registered only at an empty queue. -/
def WaitsEmpty (σ : Topic (Msg α)) : Prop :=
  ∀ s, (σ.inner s).wakerSubscriber.isSome = true → (σ.inner s).items = []

theorem WaitsEmpty.setInner (h : σ.WaitsEmpty)
    (hinner : inner.wakerSubscriber.isSome = true → inner.items = []) :
    (σ.setInner s inner).WaitsEmpty := by
  intro t
  by_cases ht : t = s
  · subst ht
    rw [inner_setInner_self]
    exact hinner
  · rw [inner_setInner_of_ne inner ht]
    exact h t

theorem WaitsEmpty.afterRecv (h : σ.WaitsEmpty) {result : Option (Data (Msg α))}
    (hinner : inner.wakerSubscriber.isSome = true → inner.items = []) :
    (σ.afterRecv s inner woken result).WaitsEmpty := by
  cases result with
  | none | some => exact h.setInner hinner

/-- A push takes the waker. -/
theorem WaitsEmpty.step {a : TopicAction (Msg α)} (h : σ.WaitsEmpty) (hok : σ.Ok attr)
    (hsize : 0 < attr.queueSize) (hperm : attr.lifespan = .permanent)
    (hs : σ.step a = some σ') : σ'.WaitsEmpty := by
  have hpos : ∀ s, 0 < (σ.inner s).size := fun s => (hok.size s).symm ▸ hsize
  have hunexpired : ∀ s, (σ.inner s).unexpired σ.attr.lifespan σ.now = (σ.inner s).items := by
    intro s
    rw [hok.attr_eq, hperm]
    rfl
  cases step_cases hs with
  | advance | newSend | poll | store | complete | skip | again | dropSend | insertSubscriber
  | removeSubscriber => exact h
  | snapshot =>
    unfold snapshot
    dsimp only
    split <;> exact h
  | @park f x waker s rest inner woken hx hpc hstate hsubs hvisit =>
    obtain ⟨hcase, -⟩ := visit_spec (hpos s) hvisit
    refine WaitsEmpty.setInner h ?_
    cases hcase with
    | behind _ _ heq =>
      rw [heq]
      exact h s
    | full _ _ _ _ hitems _ hwaker =>
      rw [hitems, hunexpired, hwaker]
      exact h s
  | @push f x waker s rest inner woken hx hpc hstate hsubs hvisit =>
    obtain ⟨hcase, -⟩ := visit_spec (hpos s) hvisit
    refine WaitsEmpty.setInner h ?_
    cases hcase with
    | pushed _ _ _ _ _ hwaker =>
      rw [hwaker]
      nofun
    | replaced _ _ _ hfull _ _ hwaker =>
      -- a full queue is not empty, so no receiver was registered
      rw [hwaker]
      intro hsome
      rw [hunexpired, h s hsome] at hfull
      exact absurd hfull (hpos s).ne
  | @recv s waker inner woken result hlive hrecv =>
    obtain ⟨hcase, -⟩ := recv_spec (hpos s) hrecv
    refine WaitsEmpty.afterRecv (σ := σ.setReceiver s _) h ?_
    cases hcase with
    | ready hqueue _ _ hwaker =>
      rw [hwaker]
      intro hsome
      rw [hunexpired, h s hsome] at hqueue
      cases hqueue
    | pending _ hitems => exact fun _ => hitems
  | @tryRecv s inner woken result hlive hrecv =>
    obtain ⟨-, hitems, -, -, hwaker, -⟩ := tryRecv_spec (hpos s) hrecv
    refine h.afterRecv ?_
    rw [hwaker, hitems, hunexpired]
    intro hsome
    rw [h s hsome]
    rfl
  | createSubscriber hlock hinner =>
    have hspec := newInner_spec hinner (by rw [hok.attr_eq]; exact hok.buf_size)
    refine WaitsEmpty.setInner h ?_
    rw [hspec.2.2.1]
    nofun
  | cloneSubscriber => exact WaitsEmpty.setInner h nofun
  | @closeSubscriber s hhandle => exact WaitsEmpty.setInner h (h s)

end Topic

/-! ### Delivery -/

/-- The messages of `p` that `s` has received or will receive next. -/
def held (σ : Topic (Msg α)) (s : SubId) (p : Nat) : List (Msg α) :=
  Broadcast.byPublisher p (receivedBy s σ.log ++ σ.queued s)

/-- The messages that `p` started to send after `s` was registered. -/
def offered (σ : Topic (Msg α)) (s : SubId) (p : Nat) : List (Msg α) :=
  Broadcast.byPublisher p (started (since s σ.log))

/-- **Delivery.** With flow control, a live subscriber gets the messages of a publisher in
order, without a gap and without repetition, and those of a completed send are there.
Without flow control, its queue holds the latest messages pushed after the last one it
received. A receiver is registered only at an empty queue. -/
theorem delivery (hsize : 0 < attr.queueSize) (hperm : attr.lifespan = .permanent)
    (hlocal : attr.transientLocal = false) (h : Topic.Reachable attr InTurn σ) :
    (attr.flowControl = true → ∀ s, σ.handle s = .live → ∀ p,
      held σ s p <+: offered σ s p ∧ ((offered σ s p).map Msg.id).Nodup ∧
        ∀ m ∈ offered σ s p, .completed m ∈ σ.log → m ∈ held σ s p) ∧
    (attr.flowControl = false → ∀ s, σ.handle s = .live →
      ((pushedTo s σ.log).map Msg.id).Nodup ∧ receivedBy s σ.log ⊆ pushedTo s σ.log ∧
        σ.queued s = (pushedTo s σ.log).drop ((pushedTo s σ.log).length -
          min attr.queueSize ((pushedTo s σ.log).length - Broadcast.readUpTo s σ.log))) ∧
    ∀ s, (σ.inner s).wakerSubscriber.isSome = true → (σ.inner s).items = [] := by
  have hok := Topic.Ok.reachable hsize h
  have hinv := Topic.abs_inv hsize hperm (fun _ _ => id) h
  have hqueues := Topic.abs_queues hsize hperm hlocal h
  have hlife : ∀ s, σ.handle s = .live → σ.abs.life s = .live := by
    intro s hlive
    rw [Topic.abs_life_of_lt (hok.lt_of_live (by rw [hlive]; nofun)), hlive]
    rfl
  have hborn : ∀ s, σ.handle s = .live → σ.abs.life s ≠ .unborn := by
    intro s hlive
    rw [hlife s hlive]
    nofun
  refine ⟨?_, ?_, ?_⟩
  · intro hflow s hlive p
    have hfifo : receivedBy s σ.log ++ σ.queued s = pushedTo s σ.log :=
      hqueues.fifo hflow s (hborn s hlive)
    obtain ⟨rest, heq, hrest, -⟩ := hinv.delivered s p (hlife s hlive)
    have heq' : offered σ s p = held σ s p ++ rest := by
      unfold held
      rw [hfifo]
      exact heq
    refine ⟨⟨rest, heq'.symm⟩, ?_, ?_⟩
    · have hsub : (offered σ s p).Sublist (started σ.log) :=
        filter_sublist.trans (started_since_sublist s σ.log)
      exact hinv.distinct.started.sublist (hsub.map _)
    intro m hm hcompleted
    rw [heq'] at hm
    rcases mem_append.mp hm with hm | hm
    · exact hm
    -- a message that is still carried has not been sent completely
    obtain ⟨f, hf⟩ := hrest m hm
    exact absurd hf (hinv.sends.not_carries_of_completed hcompleted)
  · intro _ s hlive
    have hlatest := hqueues.latest s (hborn s hlive)
    exact ⟨hinv.distinct.pushed s, hlatest.received, hlatest.queue⟩
  · refine h.invariant (I := fun σ => σ.Ok attr ∧ σ.WaitsEmpty) ⟨.init attr, nofun⟩ ?_ |>.2
    rintro σ a σ' ⟨hok, hwaits⟩ - hs
    exact ⟨hok.step hsize hs, hwaits.step hok hsize hperm hs⟩

/-- Two publishers; the first message of publisher 0 has been received, and its second one
has been started. -/
def twoPublishers : List (TopicAction (Msg Nat)) :=
  [.cloneSubscriber 0, .newSend 0 ⟨0, 0, 7⟩, .poll 0 0, .send 0, .send 0, .send 0,
    .newSend 1 ⟨1, 1, 8⟩, .poll 1 1, .send 1, .send 1, .send 1,
    .recv 0 9,
    .newSend 0 ⟨0, 2, 9⟩, .poll 2 0, .send 2]

theorem delivery_twoPublishers : ∃ σ : Topic (Msg Nat),
    Topic.Reachable .default InTurn σ ∧ σ.handle 0 = .live ∧
      (held σ 0 0).map Msg.id = [0] ∧ (offered σ 0 0).map Msg.id = [0, 2] ∧
      held σ 0 0 <+: offered σ 0 0 := by
  refine Reaches.exists_of_run_imp twoPublishers (fun σ => σ.handle 0 = .live ∧
      (held σ 0 0).map Msg.id = [0] ∧ (offered σ 0 0).map Msg.id = [0, 2]) (by decide) ?_
  rintro σ hreach ⟨hlive, hheld, hoffered⟩
  exact ⟨hlive, hheld, hoffered, ((delivery (by decide) rfl rfl hreach).1 rfl 0 hlive 0).1⟩

end Awkernel
