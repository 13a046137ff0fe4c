import Awkernel.PubSub.Topic
import Mathlib.Data.List.InsertIdx
import Mathlib.Data.List.Nodup

/-!
# What holds of a topic at all times

`Topic.Ok` collects the facts about a topic that every run keeps, whatever the attribute
and however the futures are polled: the subscribers that senders hold exist, the map lists
exactly the live subscribers and each of them once, a subscriber is closed exactly when its
handle has been dropped, and a poll in progress uses the waker it was started with.

A step rewrites a sender, the shared state of one subscriber, or the map; there is one
lemma for each such write, and `Ok.step` composes them.
-/

namespace Awkernel

open TransitionSystem Topic InnerSubscriber List Function

variable {T : Type} {attr : Attribute} {σ σ' : Topic T} {woken : List Waker}

/-! ### Reading a topic after a write -/

namespace Topic

@[simp] theorem send_setSend_self (f : SendId) (x : Sender T) : (σ.setSend f x).send f = some x :=
  update_self ..

theorem send_setSend_of_ne {f g : SendId} (x : Sender T) (h : g ≠ f) :
    (σ.setSend f x).send g = σ.send g := update_of_ne h ..

@[simp] theorem inner_setInner_self (s : SubId) (inner : InnerSubscriber T) :
    (σ.setInner s inner).inner s = inner := update_self ..

theorem inner_setInner_of_ne {s t : SubId} (inner : InnerSubscriber T) (h : t ≠ s) :
    (σ.setInner s inner).inner t = σ.inner t := update_of_ne h ..

@[simp] theorem handle_setHandle_self (s : SubId) (h : HandleState) :
    (σ.setHandle s h).handle s = h := update_self ..

theorem handle_setHandle_of_ne {s t : SubId} (h : HandleState) (hne : t ≠ s) :
    (σ.setHandle s h).handle t = σ.handle t := update_of_ne hne ..

theorem send_setSend_cases {f g : SendId} {x y : Sender T} (h : (σ.setSend f x).send g = some y) :
    g = f ∧ y = x ∨ g ≠ f ∧ σ.send g = some y := by
  by_cases hg : g = f
  · subst hg
    rw [send_setSend_self] at h
    exact .inl ⟨rfl, (Option.some.inj h).symm⟩
  · rw [send_setSend_of_ne x hg] at h
    exact .inr ⟨hg, h⟩

theorem send_wake_eq_some {f : SendId} {y : Sender T} :
    (σ.wake woken).send f = some y ↔ ∃ x, σ.send f = some x ∧ y = x.notify woken := by
  show (σ.send f).map _ = some y ↔ _
  rw [Option.map_eq_some_iff]
  constructor
  · rintro ⟨x, hx, rfl⟩
    exact ⟨x, hx, rfl⟩
  · rintro ⟨x, hx, rfl⟩
    exact ⟨x, hx, rfl⟩

end Topic

theorem Topic.mem_insertIdx (pos : Nat) (s t : SubId) :
    t ∈ σ.idToSubscriber.insertIdx (min pos σ.idToSubscriber.length) s ↔
      t = s ∨ t ∈ σ.idToSubscriber :=
  List.mem_insertIdx (min_le_right _ _)

/-! ### The send buffer -/

theorem RingQ.forcePush_spec {α : Type} {queue : RingQ α} (hsize : 0 < queue.queueSize) (data : α) :
    (queue.forcePush data).toList =
        (queue.toList.drop (queue.len + 1 - queue.queueSize)) ++ [data] ∧
      (queue.forcePush data).queueSize = queue.queueSize := by
  unfold forcePush
  cases hpush : queue.push data with
  | ok queue' =>
    obtain ⟨hroom, hitems, hsame⟩ := push_eq_ok hpush
    refine ⟨?_, hsame⟩
    rw [Nat.sub_eq_zero_of_le hroom]
    exact hitems
  | error data' =>
    obtain ⟨hfull, hdata⟩ := push_eq_error hpush
    subst hdata
    obtain ⟨-, htail⟩ := queue.toList_pop
    have hroom : queue.pop.2.len < queue.pop.2.queueSize := by
      rw [← queue.pop.2.length_toList, htail, queue.queueSize_pop, length_tail,
        queue.length_toList, hfull]
      exact Nat.sub_lt hsize Nat.one_pos
    obtain ⟨queue', hpush'⟩ := exists_push_eq_ok hroom data'
    obtain ⟨-, hitems, hsame⟩ := push_eq_ok hpush'
    dsimp only
    rw [hpush']
    refine ⟨?_, hsame.trans queue.queueSize_pop⟩
    rw [hfull, Nat.add_sub_cancel_left, drop_one, ← htail]
    exact hitems

theorem RingQ.copyFrom_spec {α : Type} :
    ∀ (data : List α) (queue : RingQ α), queue.len + data.length ≤ queue.queueSize →
      (queue.copyFrom data).toList = queue.toList ++ data ∧
        (queue.copyFrom data).queueSize = queue.queueSize := by
  intro data
  induction data with
  | nil => intro queue _; exact ⟨(append_nil _).symm, rfl⟩
  | cons d data ih =>
    intro queue hroom
    rw [length_cons] at hroom
    obtain ⟨queue', hpush⟩ := exists_push_eq_ok (show queue.len < queue.queueSize by omega) d
    obtain ⟨-, hitems, hsame⟩ := push_eq_ok hpush
    have hlen : queue'.len = queue.len + 1 := by
      rw [← queue'.length_toList, hitems, length_append, queue.length_toList]
      rfl
    obtain ⟨hrest, hsize⟩ := ih queue' (by rw [hlen, hsame]; omega)
    have hstep : queue.copyFrom (d :: data) = queue'.copyFrom data := by
      unfold copyFrom
      rw [foldl_cons, hpush]
    rw [hstep]
    refine ⟨?_, hsize.trans hsame⟩
    rw [hrest, hitems, append_assoc]
    rfl

theorem Topic.newInner_spec {inner : InnerSubscriber T} (h : σ.newInner = some inner)
    (hbuf : ∀ buf, σ.senderBuf = some buf → buf.queueSize = σ.attr.queueSize) :
    inner.size = σ.attr.queueSize ∧ inner.wakerPublishers = [] ∧ inner.wakerSubscriber = none ∧
      inner.closed = false ∧ (σ.attr.transientLocal = false → inner.items = []) ∧
      ∀ buf, σ.senderBuf = some buf → σ.attr.transientLocal = true → inner.items = buf.toList := by
  unfold newInner at h
  split at h
  · next buf htl hsome =>
    rw [buf.iter_eq] at h
    cases h
    have hcopy := RingQ.copyFrom_spec buf.toList (.new σ.attr.queueSize) (by
      have := buf.len_le
      rw [hbuf buf hsome] at this
      rw [buf.length_toList, RingQ.queueSize_new]
      exact (Nat.zero_add _).trans_le this)
    refine ⟨hcopy.2.trans (RingQ.queueSize_new _), rfl, rfl, rfl, ?_, ?_⟩
    · intro hfalse
      rw [htl] at hfalse
      cases hfalse
    intro buf' hbuf' _
    rw [hsome] at hbuf'
    cases hbuf'
    exact hcopy.1
  · next hnot =>
    cases h
    refine ⟨RingQ.queueSize_new _, rfl, rfl, rfl, fun _ => rfl, ?_⟩
    intro buf hbuf' htl
    exact absurd hbuf' (hnot buf htl)

/-! ### The invariant -/

/-- A send future in a topic with `n` subscribers so far. -/
structure Sender.Ok (n : Nat) (x : Sender T) : Prop where
  bounded : ∀ s ∈ x.subscribers, s < n
  nodup : x.subscribers.Nodup
  waker : ∀ w, x.pc = .polling w ∨ x.pc = .storing w → x.waker = some w
  /-- Before the map is copied, there is no subscriber on the list. -/
  start : x.state = .start → (∀ w, x.pc ≠ .storing w) → x.subscribers = []
  storing : ∀ w, x.pc = .storing w → x.state = .start

/-- What every run keeps. -/
structure Topic.Ok (attr : Attribute) (σ : Topic T) : Prop where
  attr_eq : σ.attr = attr
  size : ∀ s, (σ.inner s).size = attr.queueSize
  sender : ∀ f x, σ.send f = some x → x.Ok σ.numSubscribers
  fresh : ∀ f, σ.numSends ≤ f → σ.send f = none
  nodup : σ.idToSubscriber.Nodup
  /-- The map lists the live subscribers. -/
  registered : ∀ s, s ∈ σ.idToSubscriber ↔ σ.handle s = .live
  unused : ∀ s, σ.numSubscribers ≤ s → σ.handle s = .dropped
  closed : ∀ s, s < σ.numSubscribers → ((σ.inner s).closed = true ↔ σ.handle s = .dropped)
  buf_isSome : σ.senderBuf.isSome = attr.transientLocal
  buf_size : ∀ buf, σ.senderBuf = some buf → buf.queueSize = attr.queueSize

theorem Sender.Ok.mono {n m : Nat} {x : Sender T} (h : x.Ok n) (hle : n ≤ m) : x.Ok m :=
  { h with bounded := fun s hs => (h.bounded s hs).trans_le hle }

theorem Sender.Ok.notify {n : Nat} {x : Sender T} (h : x.Ok n) (woken : List Waker) :
    (x.notify woken).Ok n := { h with }

namespace Topic.Ok

theorem init (attr : Attribute) : Topic.Ok attr (init attr : Topic T) where
  attr_eq := rfl
  size _ := RingQ.queueSize_new _
  sender _ _ h := absurd h nofun
  fresh _ _ := rfl
  nodup := nodup_nil
  registered s := by simp [Topic.init]
  unused _ _ := rfl
  closed s h := absurd h (Nat.not_lt_zero s)
  buf_isSome := by
    unfold Topic.init
    cases attr.transientLocal <;> rfl
  buf_size buf h := by
    unfold Topic.init at h
    split at h
    · cases h
      exact RingQ.queueSize_new _
    · cases h

variable (h : σ.Ok attr)
include h

variable {f : SendId} {x : Sender T} {s : SubId} {inner : InnerSubscriber T} {lock : Option SubId}

theorem lt_numSends (hx : σ.send f = some x) : f < σ.numSends := by
  by_contra hge
  rw [h.fresh f (not_lt.mp hge)] at hx
  cases hx

theorem lt_of_live (hs : σ.handle s ≠ .dropped) : s < σ.numSubscribers := by
  by_contra hge
  exact hs (h.unused s (not_lt.mp hge))

theorem setSend {y : Sender T} (hx : σ.send f = some x) (hy : y.Ok σ.numSubscribers) :
    (σ.setSend f y).Ok attr :=
  { h with
    sender := by
      intro g z hz
      obtain ⟨-, rfl⟩ | ⟨-, hz⟩ := send_setSend_cases hz
      · exact hy
      · exact h.sender g z hz
    fresh := by
      intro g hg
      have hne : g ≠ f := by
        rintro rfl
        exact absurd (h.lt_numSends hx) (not_lt.mpr hg)
      rw [send_setSend_of_ne y hne]
      exact h.fresh g hg }

theorem setInner (hsize : inner.size = (σ.inner s).size)
    (hclosed : inner.closed = (σ.inner s).closed) : (σ.setInner s inner).Ok attr :=
  { h with
    size := by
      intro t
      by_cases ht : t = s
      · subst ht
        rw [inner_setInner_self, hsize]
        exact h.size t
      · rw [inner_setInner_of_ne inner ht]
        exact h.size t
    closed := by
      intro t hlt
      by_cases ht : t = s
      · subst ht
        rw [inner_setInner_self, hclosed]
        exact h.closed t hlt
      · rw [inner_setInner_of_ne inner ht]
        exact h.closed t hlt }

theorem setReceiver (s : SubId) (r : Receiver) : (σ.setReceiver s r).Ok attr := { h with }

theorem record (e : Event T) : (σ.record e).Ok attr := { h with }

theorem wake (woken : List Waker) : (σ.wake woken).Ok attr :=
  { h with
    sender := by
      intro f y hy
      obtain ⟨x, hx, rfl⟩ := send_wake_eq_some.mp hy
      exact (h.sender f x hx).notify woken
    fresh := by
      intro f hf
      show (σ.send f).map _ = none
      rw [h.fresh f hf]
      rfl }

theorem afterRecv {result : Option (Data T)} (hsize : inner.size = (σ.inner s).size)
    (hclosed : inner.closed = (σ.inner s).closed) :
    (σ.afterRecv s inner woken result).Ok attr := by
  cases result with
  | none => exact (h.setInner hsize hclosed).wake woken
  | some d => exact ((h.setInner hsize hclosed).record _).wake woken

/-- A subscriber is allocated; it is not registered yet unless `live`. -/
theorem allocate {ids : List SubId} {hs : HandleState}
    (hsize : inner.size = attr.queueSize) (hclosed : inner.closed = false)
    (hhs : hs ≠ .dropped) (hnodup : ids.Nodup)
    (hids : ∀ s, s ∈ ids ↔ s ∈ σ.idToSubscriber ∨ s = σ.numSubscribers ∧ hs = .live) :
    (({ σ with
        numSubscribers := σ.numSubscribers + 1
        idToSubscriber := ids
        publishSubscribe := lock }.setInner σ.numSubscribers inner).setHandle σ.numSubscribers
          hs).Ok attr := by
  have hne : ∀ {s}, s < σ.numSubscribers → s ≠ σ.numSubscribers := Nat.ne_of_lt
  have hnew : σ.handle σ.numSubscribers = .dropped := h.unused _ le_rfl
  refine
    { attr_eq := h.attr_eq, fresh := h.fresh, nodup := hnodup, buf_isSome := h.buf_isSome,
      buf_size := h.buf_size, size := ?_, sender := ?_, registered := ?_, unused := ?_,
      closed := ?_ }
  · intro s
    by_cases hs : s = σ.numSubscribers
    · subst hs
      exact (congrArg InnerSubscriber.size (inner_setInner_self (σ := { σ with
        numSubscribers := _, idToSubscriber := ids, publishSubscribe := lock }) ..)).trans hsize
    · exact (congrArg InnerSubscriber.size (inner_setInner_of_ne inner hs)).trans (h.size s)
  · intro f x hx
    exact (h.sender f x hx).mono (Nat.le_succ _)
  · intro s
    show s ∈ ids ↔ _
    rw [hids]
    by_cases hs : s = σ.numSubscribers
    · subst hs
      rw [h.registered, hnew]
      simp
    · rw [Topic.handle_setHandle_of_ne _ hs, h.registered]
      simp [hs, Topic.setInner]
  · intro s hle
    have hlt : σ.numSubscribers < s := hle
    rw [handle_setHandle_of_ne _ (Nat.ne_of_gt hlt)]
    exact h.unused s hlt.le
  · intro s hlt
    by_cases hs : s = σ.numSubscribers
    · subst hs
      have : (update σ.inner σ.numSubscribers inner σ.numSubscribers).closed = false := by
        rw [update_self]
        exact hclosed
      simp only [Topic.setHandle, Topic.setInner, this]
      simp [hhs]
    · have hlt' : s < σ.numSubscribers := Nat.lt_of_le_of_ne (Nat.le_of_lt_succ hlt) hs
      rw [handle_setHandle_of_ne _ hs]
      have : (update σ.inner σ.numSubscribers inner s) = σ.inner s :=
        update_of_ne hs ..
      simp only [Topic.setHandle, Topic.setInner, this]
      exact h.closed s hlt'

theorem newSend (hx : x.Ok σ.numSubscribers) :
    ({ σ with numSends := σ.numSends + 1 }.setSend σ.numSends x).Ok attr :=
  { h with
    sender := by
      intro g z hz
      obtain ⟨-, rfl⟩ | ⟨-, hz⟩ := send_setSend_cases hz
      · exact hx
      · exact h.sender g z hz
    fresh := by
      intro g hg
      have hlt : σ.numSends < g := hg
      rw [send_setSend_of_ne x (Nat.ne_of_gt hlt)]
      exact h.fresh g hlt.le }

theorem dropSend (f : SendId) : ({ σ with send := update σ.send f none }).Ok attr :=
  { h with
    sender := by
      intro g z hz
      by_cases hg : g = f
      · subst hg
        exact absurd hz (by simp)
      · exact h.sender g z (by simpa [hg] using hz)
    fresh := by
      intro g hg
      by_cases hgf : g = f
      · subst hgf
        simp
      · simpa [hgf] using h.fresh g hg }

theorem setHandle {ids : List SubId} {hs : HandleState}
    (hlt : s < σ.numSubscribers) (hold : σ.handle s ≠ .dropped) (hhs : hs ≠ .dropped)
    (hnodup : ids.Nodup)
    (hids : ∀ t, t ∈ ids ↔ (t ≠ s ∧ t ∈ σ.idToSubscriber) ∨ t = s ∧ hs = .live) :
    ({ σ with idToSubscriber := ids, publishSubscribe := lock }.setHandle s hs).Ok attr := by
  refine
    { attr_eq := h.attr_eq, fresh := h.fresh, nodup := hnodup, buf_isSome := h.buf_isSome,
      buf_size := h.buf_size, size := h.size, sender := h.sender, registered := ?_, unused := ?_,
      closed := ?_ }
  · intro t
    show t ∈ ids ↔ _
    rw [hids]
    by_cases ht : t = s
    · subst ht
      simp
    · rw [handle_setHandle_of_ne _ ht, h.registered]
      simp [ht]
  · intro t hle
    have hne : t ≠ s := (hlt.trans_le hle).ne'
    rw [handle_setHandle_of_ne _ hne]
    exact h.unused t hle
  · intro t ht
    by_cases hts : t = s
    · subst hts
      rw [handle_setHandle_self]
      have hopen : ¬ (σ.inner t).closed = true := fun hc => hold ((h.closed t ht).mp hc)
      exact iff_of_false hopen hhs
    · rw [handle_setHandle_of_ne _ hts]
      exact h.closed t ht

theorem close (hs : σ.handle s = .dropping) :
    (({ σ with publishSubscribe := none }.setInner s (σ.inner s).close.1).setHandle s
      .dropped).Ok attr := by
  have hlt : s < σ.numSubscribers := h.lt_of_live (by rw [hs]; nofun)
  refine
    { attr_eq := h.attr_eq, fresh := h.fresh, nodup := h.nodup, buf_isSome := h.buf_isSome,
      buf_size := h.buf_size, size := ?_, sender := h.sender, registered := ?_, unused := ?_,
      closed := ?_ }
  · intro t
    by_cases ht : t = s
    · subst ht
      have : (update σ.inner t (σ.inner t).close.1 t) = (σ.inner t).close.1 :=
        update_self ..
      simp only [Topic.setHandle, Topic.setInner, this]
      exact h.size t
    · have : (update σ.inner s (σ.inner s).close.1 t) = σ.inner t :=
        update_of_ne ht ..
      simp only [Topic.setHandle, Topic.setInner, this]
      exact h.size t
  · intro t
    show t ∈ σ.idToSubscriber ↔ _
    rw [h.registered]
    by_cases ht : t = s
    · subst ht
      rw [hs]
      simp
    · rw [handle_setHandle_of_ne _ ht]
      rfl
  · intro t hle
    have hne : t ≠ s := (hlt.trans_le hle).ne'
    rw [handle_setHandle_of_ne _ hne]
    exact h.unused t hle
  · intro t ht
    by_cases hts : t = s
    · subst hts
      have : (update σ.inner t (σ.inner t).close.1 t) = (σ.inner t).close.1 :=
        update_self ..
      simp only [Topic.setHandle, Topic.setInner, this]
      simp [close]
    · have : (update σ.inner s (σ.inner s).close.1 t) = σ.inner t :=
        update_of_ne hts ..
      rw [handle_setHandle_of_ne _ hts]
      simp only [Topic.setHandle, Topic.setInner, this]
      exact h.closed t ht

theorem nodup_insertIdx (pos : Nat) (hs : s ∉ σ.idToSubscriber) :
    (σ.idToSubscriber.insertIdx (min pos σ.idToSubscriber.length) s).Nodup := by
  have hperm := perm_insertIdx s σ.idToSubscriber (min_le_right pos σ.idToSubscriber.length)
  exact hperm.nodup_iff.mpr (nodup_cons.mpr ⟨hs, h.nodup⟩)

theorem snapshot {waker : Waker} (hx : σ.send f = some x) (hpc : x.pc = .polling waker)
    (hstate : x.state = .start) :
    (σ.snapshot f x waker).Ok attr := by
  have hok := h.sender f x hx
  have hempty : x.subscribers = [] := hok.start hstate (by rw [hpc]; nofun)
  have hwaker : x.waker = some waker := hok.waker waker (.inl hpc)
  have hids : ∀ s ∈ σ.idToSubscriber, s < σ.numSubscribers := fun s hs =>
    h.lt_of_live (by rw [(h.registered s).mp hs]; nofun)
  have hok' : ∀ y : Sender T, y.subscribers = σ.idToSubscriber → y.waker = some waker →
      (y.pc = .storing waker ∧ y.state = .start ∨ y.pc = .polling waker ∧ y.state = .wait) →
      y.Ok σ.numSubscribers := by
    rintro y hsubs hw hy
    refine ⟨by rw [hsubs]; exact hids, by rw [hsubs]; exact h.nodup, ?_, ?_, ?_⟩
    · intro w hpc'
      obtain ⟨hy, -⟩ | ⟨hy, -⟩ := hy <;> rw [hy] at hpc' <;> simp_all
    · intro hst hne
      obtain ⟨hy, -⟩ | ⟨-, hy⟩ := hy
      · exact absurd hy (hne waker)
      · rw [hst] at hy
        cases hy
    · intro w hpc'
      obtain ⟨-, hy⟩ | ⟨hy, -⟩ := hy
      · exact hy
      · rw [hy] at hpc'
        cases hpc'
  unfold Topic.snapshot
  dsimp only
  rw [hempty]
  split
  · exact ({ h with } : Topic.Ok attr { σ.record (.started x.data) with
      readers := σ.readers + 1 }).setSend hx (hok' _ rfl hwaker (.inl ⟨rfl, hstate⟩))
  · exact (h.record _).setSend hx (hok' _ rfl hwaker (.inr ⟨hpc, rfl⟩))

end Topic.Ok

namespace Topic.Ok

/-- **Every step keeps the invariant.** -/
theorem step {a : TopicAction T} (h : σ.Ok attr) (hsize : 0 < attr.queueSize)
    (hs : σ.step a = some σ') : σ'.Ok attr := by
  have hpos : ∀ s, 0 < (σ.inner s).size := fun s => (h.size s).symm ▸ hsize
  cases step_cases hs with
  | advance => exact { h with }
  | newSend =>
    exact h.newSend ⟨nofun, nodup_nil, nofun, fun _ _ => rfl, nofun⟩
  | poll w hx hpc =>
    have hok := h.sender _ _ hx
    refine h.setSend hx ⟨hok.bounded, hok.nodup, ?_, ?_, nofun⟩
    · rintro w' (hw | hw)
      · rw [PollPc.polling.inj hw]
      · cases hw
    · intro hstart _
      exact hok.start hstart (by rw [hpc]; nofun)
  | snapshot hx hpc hstate => exact h.snapshot hx hpc hstate
  | store hx hpc hbuf =>
    have hok := h.sender _ _ hx
    have hforce := RingQ.forcePush_spec (hsize.trans_eq (h.buf_size _ hbuf).symm)
    refine ({ h with
        buf_isSome := ?_
        buf_size := ?_ } : Topic.Ok attr { σ with
          senderBuf := some _, readers := σ.readers - 1 }).setSend hx
      ⟨hok.bounded, hok.nodup, ?_, nofun, nofun⟩
    · rw [← h.buf_isSome, hbuf]
      rfl
    · intro buf' hbuf'
      cases hbuf'
      exact (hforce _).2.trans (h.buf_size _ hbuf)
    · rintro w' (hw | hw)
      · rw [← PollPc.polling.inj hw]
        exact hok.waker _ (.inr hpc)
      · cases hw
  | complete hx =>
    have hok := h.sender _ _ hx
    refine (h.setSend hx ?_).record _
    exact ⟨hok.bounded, hok.nodup, nofun, nofun, nofun⟩
  | skip hx hpc hstate hsubs =>
    have hok := h.sender _ _ hx
    refine h.setSend hx ⟨fun s hs => hok.bounded s (by rw [hsubs]; exact .tail _ hs),
      (hsubs ▸ hok.nodup).of_cons, hok.waker, ?_, hok.storing⟩
    intro hst
    rw [hstate] at hst
    cases hst
  | @park f x w s rest inner woken hx hpc hstate hsubs hvisit =>
    have hok := h.sender _ _ hx
    obtain ⟨-, hsz, hcl⟩ := visit_spec (hpos s) hvisit
    refine (h.setInner hsz hcl).setSend hx ⟨hok.bounded, hok.nodup, nofun, ?_, nofun⟩
    intro hst
    rw [hstate] at hst
    cases hst
  | @push f x w s rest inner woken hx hpc hstate hsubs hvisit =>
    have hok := h.sender _ _ hx
    obtain ⟨-, hsz, hcl⟩ := visit_spec (hpos s) hvisit
    refine (((h.setInner hsz hcl).setSend hx ?_).record _).wake _
    refine ⟨fun s hs => hok.bounded s (by rw [hsubs]; exact .tail _ hs),
      (hsubs ▸ hok.nodup).of_cons, hok.waker, ?_, hok.storing⟩
    intro hst
    rw [hstate] at hst
    cases hst
  | again hx hpc hstate =>
    have hok := h.sender _ _ hx
    refine h.setSend hx ⟨hok.bounded, hok.nodup, nofun, ?_, nofun⟩
    intro hst
    rw [hstate] at hst
    cases hst
  | dropSend => exact h.dropSend _
  | @recv s w inner woken result hlive hrecv =>
    obtain ⟨-, hsz, hcl⟩ := recv_spec (hpos s) hrecv
    exact (h.setReceiver s _).afterRecv hsz hcl
  | @tryRecv s inner woken result hlive hrecv =>
    obtain ⟨-, -, -, -, -, hsz, hcl⟩ := tryRecv_spec (hpos s) hrecv
    exact h.afterRecv hsz hcl
  | createSubscriber hlock hinner =>
    have hspec := newInner_spec hinner (by rw [h.attr_eq]; exact h.buf_size)
    refine h.allocate (hspec.1.trans (by rw [h.attr_eq])) hspec.2.2.2.1 nofun h.nodup ?_
    intro s
    simp
  | @insertSubscriber s pos hlock hhandle hreaders =>
    have hnot : s ∉ σ.idToSubscriber := by
      rw [h.registered, hhandle]
      nofun
    have hold : σ.handle s ≠ .dropped := by
      rw [hhandle]
      nofun
    refine (h.setHandle (h.lt_of_live hold) hold (by nofun) (h.nodup_insertIdx pos hnot)
      ?_).record _
    intro t
    rw [mem_insertIdx]
    by_cases ht : t = s
    · simp [ht]
    · simp [ht]
  | cloneSubscriber pos hreaders =>
    have hnot : σ.numSubscribers ∉ σ.idToSubscriber := by
      rw [h.registered, h.unused _ le_rfl]
      nofun
    refine (h.allocate (?_ : (new σ.attr.queueSize).size = _) rfl (by nofun)
      (h.nodup_insertIdx pos hnot) ?_).record _
    · rw [h.attr_eq]
      exact RingQ.queueSize_new _
    intro t
    rw [mem_insertIdx]
    simp [or_comm]
  | @removeSubscriber s hlive hlock hreaders =>
    refine h.setHandle (h.lt_of_live (by rw [hlive]; nofun)) (by rw [hlive]; nofun) nofun
      (h.nodup.erase s) ?_
    intro t
    rw [h.nodup.mem_erase_iff]
    simp
  | closeSubscriber hhandle => exact (h.close hhandle).wake _

theorem reachable {ok : Topic T → TopicAction T → Prop} (hsize : 0 < attr.queueSize)
    (h : Topic.Reachable attr ok σ) : σ.Ok attr :=
  h.invariant (I := Topic.Ok attr) (.init attr) fun _ _ _ hI _ hs => hI.step hsize hs

end Topic.Ok

end Awkernel
