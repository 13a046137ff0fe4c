import Awkernel.PubSub.Refinement

/-!
# Late joiners of a transient-local topic

A new subscriber of a transient-local topic starts with the messages of the send buffer.
`create_subscriber` copies the buffer in one critical section and registers the subscriber
in a later one; the first poll of a send copies the map of the subscribers in one section
and writes the send buffer in a later one. A send that copies the map before the new
subscriber is registered, and whose message is not in the copy of the buffer, is lost for
the subscriber, although the messages before and after it are delivered
(`gap_of_late_join`).

`late_join` is about the runs in which these sections do not overlap in that way
(`JoinsAlone`): what the subscriber gets is a segment of the messages sent.
-/

namespace Awkernel

open TransitionSystem Topic List Function

variable {α T : Type} {attr : Attribute} {σ σ' : Topic (Msg α)}

/-- The log up to the registration of `s`. -/
def before (s : SubId) (log : List (Event T)) : List (Event T) :=
  log.takeWhile fun e => !e.registers s

section Log

variable {s : SubId} {log : List (Event T)} {e : Event T}

theorem before_append_since (s : SubId) (log : List (Event T)) :
    before s log ++ since s log = log := takeWhile_append_dropWhile

/-- Nothing that happens later changes what was before the registration. -/
theorem before_snoc (h : since s log ≠ []) : before s (log ++ [e]) = before s log := by
  have hlog := before_append_since s (log ++ [e])
  rw [since_snoc h, ← append_assoc] at hlog
  have hcancel := append_cancel_right hlog
  exact append_cancel_right (hcancel.trans (before_append_since s log).symm)

theorem before_snoc_registered (h : since s log = []) :
    before s (log ++ [.registered s]) = log := by
  have hlog := before_append_since s (log ++ [.registered s])
  rw [since_snoc_of_nil h, if_pos (by simp [Event.registers])] at hlog
  exact append_cancel_right hlog

end Log

/-- The runs: one publisher, which sends one message after the other. -/
def OnePublisher (σ : Topic (Msg α)) (a : TopicAction (Msg α)) : Prop :=
  InTurn σ a ∧ match a with
    | .newSend p _ => p = 0
    | _ => True

instance (σ : Topic (Msg α)) : DecidablePred (OnePublisher σ) := fun a => by
  induction a using TopicAction.casesOn <;> dsimp only [OnePublisher] <;> infer_instance

/-- The condition: no send takes its list of subscribers while `create_subscriber` is between
its copy of the send buffer and the registration, and `create_subscriber` does not copy the
send buffer while a send is between its list of subscribers and its write to the buffer. -/
def JoinsAlone (σ : Topic (Msg α)) : TopicAction (Msg α) → Prop
  | .send f => ∀ x ∈ σ.send f, x.phase = .fresh →
      ∀ s ∈ σ.publishSubscribe, σ.handle s ≠ .creating
  | .createSubscriber => σ.readers = 0
  | _ => True

instance (σ : Topic (Msg α)) : DecidablePred (JoinsAlone σ) := fun a => by
  induction a using TopicAction.casesOn <;> dsimp only [JoinsAlone] <;> infer_instance

/-- **A segment of the messages sent**: what `s` has received, and what is in its queue,
are consecutive messages, from at most `queue_size` messages before the first one whose
send started after `s` joined. -/
def GetsSegment (σ : Topic (Msg α)) (s : SubId) : Prop :=
  ((started σ.log).map Msg.id).Nodup ∧ ∃ first count,
      receivedBy s σ.log ++ σ.queued s = ((started σ.log).drop first).take count ∧
      first ≤ (started (before s σ.log)).length ∧
      (started (before s σ.log)).length ≤ first + σ.attr.queueSize

/-! ### The send buffer -/

/-- The messages in the send buffer. -/
def Topic.history (σ : Topic (Msg α)) : List (Msg α) :=
  (σ.senderBuf.elim [] RingQ.toList).map Data.data

/-- The send future `f` is about to write `m` to the send buffer. -/
def Topic.Storing (σ : Topic (Msg α)) (f : SendId) (m : Msg α) : Prop :=
  ∃ x w, σ.send f = some x ∧ x.pc = .storing w ∧ x.data = m

/-- The send buffer holds the latest messages, but for one that is about to be written. -/
def Buffered (σ : Topic (Msg α)) : Prop :=
  (σ.readers = 0 ∧ (∀ f m, ¬ σ.Storing f m) ∧ σ.history <:+ started σ.log) ∨
    σ.readers = 1 ∧ ∃ f m, σ.Storing f m ∧ (∀ g m', σ.Storing g m' → g = f) ∧
      σ.history ++ [m] <:+ started σ.log

theorem Buffered.of_same (h : Buffered σ) (hreaders : σ'.readers = σ.readers)
    (hbuf : σ'.senderBuf = σ.senderBuf) (hlog : started σ'.log = started σ.log)
    (hstoring : ∀ f m, σ'.Storing f m ↔ σ.Storing f m) : Buffered σ' := by
  unfold Buffered history at h ⊢
  simp only [hreaders, hbuf, hlog, hstoring]
  exact h

variable {f : SendId} {y x : Sender (Msg α)} {a : TopicAction (Msg α)}

theorem Topic.storing_setSend (hx : ∀ x, σ.send f = some x → ∀ w, x.pc ≠ .storing w)
    (hy : ∀ w, y.pc ≠ .storing w)
    (g : SendId) (m : Msg α) : (σ.setSend f y).Storing g m ↔ σ.Storing g m := by
  constructor
  · rintro ⟨z, w, hz, hpc, hm⟩
    obtain ⟨-, rfl⟩ | ⟨-, hz⟩ := send_setSend_cases hz
    · exact absurd hpc (hy w)
    · exact ⟨z, w, hz, hpc, hm⟩
  rintro ⟨z, w, hz, hpc, hm⟩
  have hg : g ≠ f := by
    rintro rfl
    exact hx z hz w hpc
  exact ⟨z, w, (send_setSend_of_ne y hg).trans hz, hpc, hm⟩

theorem Topic.storing_wake (woken : List Waker) (f : SendId) (m : Msg α) :
    (σ.wake woken).Storing f m ↔ σ.Storing f m := by
  constructor
  · rintro ⟨y, w, hy, hpc, hm⟩
    obtain ⟨x, hx, rfl⟩ := send_wake_eq_some.mp hy
    exact ⟨x, w, hx, hpc, hm⟩
  · rintro ⟨x, w, hx, hpc, hm⟩
    exact ⟨_, w, send_wake_eq_some.mpr ⟨x, hx, rfl⟩, hpc, hm⟩

section

variable (h : Buffered σ)

include h

theorem Buffered.setSend (hx : σ.send f = some x) (hxpc : ∀ w, x.pc ≠ .storing w)
    (hy : ∀ w, y.pc ≠ .storing w) :
    Buffered (σ.setSend f y) := by
  refine h.of_same rfl rfl rfl (storing_setSend ?_ hy)
  intro z hz
  cases hx.symm.trans hz
  exact hxpc

theorem Buffered.record {e : Event (Msg α)} (he : e.started? = none) : Buffered (σ.record e) := by
  refine h.of_same rfl rfl ?_ fun _ _ => Iff.rfl
  show started (σ.log ++ [e]) = _
  rw [started_snoc, he]
  exact append_nil _

theorem Buffered.wake (woken : List Waker) : Buffered (σ.wake woken) :=
  h.of_same rfl rfl rfl (storing_wake woken)

theorem Buffered.setInner (s : SubId) (inner : InnerSubscriber (Msg α)) :
    Buffered (σ.setInner s inner) := h.of_same rfl rfl rfl fun _ _ => Iff.rfl

theorem Buffered.afterRecv (s : SubId) (inner : InnerSubscriber (Msg α))
    (woken : List Waker) (result : Option (Data (Msg α))) :
    Buffered (σ.afterRecv s inner woken result) := by
  have hinner := h.setInner s inner
  cases result with
  | none => exact hinner.wake woken
  | some d => exact Buffered.wake (σ := (σ.setInner s inner).record _) (hinner.record rfl) woken

end

theorem not_storing_of_fresh (hok : σ.Ok attr) (hsends : σ.abs.Sends)
    (hpub : ∀ f x, σ.send f = some x → x.publisher = 0)
    (hx : σ.send f = some x) (hphase : x.phase = .fresh) (g : SendId) (m : Msg α) :
    ¬ σ.Storing g m := by
  rintro ⟨y, w, hy, hpc, -⟩
  have hrunning : y.phase = .running := by
    unfold Sender.phase
    rw [hpc, (hok.sender g y hy).storing w hpc]
  obtain rfl := hsends.turn f g _ _ (abs_send_of_eq hx) (abs_send_of_eq hy)
    ((hpub f x hx).trans (hpub g y hy).symm) (by show x.phase ≠ _; rw [hphase]; nofun)
    (by show y.phase ≠ _; rw [hrunning]; nofun)
  cases hx.symm.trans hy
  cases hphase.symm.trans hrunning

/-- The send of a message starts, and its write to the buffer is pending. -/
theorem Buffered.snapshot (h : Buffered σ) (hok : σ.Ok attr) (hlocal : attr.transientLocal = true)
    (hsends : σ.abs.Sends) (hpub : ∀ f x, σ.send f = some x → x.publisher = 0)
    {waker : Waker} (hx : σ.send f = some x) (hphase : x.phase = .fresh) :
    Buffered (σ.snapshot f x waker) := by
  have hnone := not_storing_of_fresh hok hsends hpub hx hphase
  obtain ⟨hreaders, -, hbuf⟩ | ⟨-, g, m, hg, -⟩ := h
  · have hcond : ((σ.record (.started x.data)).attr.transientLocal &&
        (σ.record (.started x.data)).senderBuf.isSome) = true := by
      show (σ.attr.transientLocal && σ.senderBuf.isSome) = true
      rw [hok.attr_eq, hok.buf_isSome, hlocal]
      rfl
    unfold Topic.snapshot
    rw [if_pos hcond]
    refine .inr ⟨by show σ.readers + 1 = 1; rw [hreaders], f, x.data,
      ⟨_, waker, send_setSend_self _ _, rfl, rfl⟩, ?_, ?_⟩
    · rintro g m ⟨y, w, hy, hpc, hm⟩
      obtain ⟨hg, -⟩ | ⟨-, hy⟩ := send_setSend_cases hy
      · exact hg
      · exact absurd ⟨y, w, hy, hpc, hm⟩ (hnone g m)
    · show σ.history ++ [x.data] <:+ started (σ.log ++ [_])
      rw [started_snoc]
      obtain ⟨earlier, hearlier⟩ := hbuf
      exact ⟨earlier, by rw [← hearlier, append_assoc]; rfl⟩
  · exact absurd hg (hnone g m)

theorem Buffered.store (h : Buffered σ) (hok : σ.Ok attr) (hsize : 0 < attr.queueSize)
    {waker : Waker} {buf : RingQ (Data (Msg α))}
    (hx : σ.send f = some x) (hpc : x.pc = .storing waker) (hbuf : σ.senderBuf = some buf) :
    Buffered ({ σ with
      senderBuf := some (buf.forcePush ⟨σ.now, x.data⟩)
      readers := σ.readers - 1 }.setSend f { x with state := .wait, pc := .polling waker }) := by
  have hstoring : σ.Storing f x.data := ⟨x, waker, hx, hpc, rfl⟩
  obtain ⟨-, hnone, -⟩ | ⟨hreaders, g, m, hg, honly, hsuffix⟩ := h
  · exact absurd hstoring (hnone f x.data)
  obtain rfl := honly f x.data hstoring
  obtain rfl : m = x.data := by
    obtain ⟨y, -, hy, -, rfl⟩ := hg
    exact congrArg _ (Option.some.inj (hy.symm.trans hx))
  refine .inl ⟨by show σ.readers - 1 = 0; rw [hreaders], ?_, ?_⟩
  · rintro k m' ⟨y, w, hy, hpc', hm⟩
    obtain ⟨-, rfl⟩ | ⟨hk, hy⟩ := send_setSend_cases hy
    · cases hpc'
    · exact hk (honly k m' ⟨y, w, hy, hpc', hm⟩)
  refine List.IsSuffix.trans ?_ hsuffix
  show (buf.forcePush _).toList.map Data.data <:+ (σ.senderBuf.elim [] _).map _ ++ _
  rw [hbuf, (RingQ.forcePush_spec (hsize.trans_eq (hok.buf_size buf hbuf).symm) _).1,
    map_append, map_drop]
  exact (suffix_append_inj_of_length_eq rfl).mpr ⟨drop_suffix _ _, rfl⟩

/-- At most one send is between its snapshot and its store. -/
theorem Buffered.step (h : Buffered σ) (hok : σ.Ok attr) (hsize : 0 < attr.queueSize)
    (hlocal : attr.transientLocal = true) (hsends : σ.abs.Sends)
    (hpub : ∀ f x, σ.send f = some x → x.publisher = 0)
    (hs : σ.step a = some σ') : Buffered σ' := by
  have hpolling : ∀ {x : Sender (Msg α)} {waker : Waker}, x.pc = .polling waker →
      ∀ w, x.pc ≠ .storing w := by
    intro x waker hpc w
    simp [hpc]
  have hidle : ∀ {x : Sender (Msg α)}, x.pc = .idle → ∀ w, x.pc ≠ .storing w := by
    intro x hpc w
    simp [hpc]
  cases step_cases hs with
  | advance | removeSubscriber | createSubscriber =>
    exact h.of_same rfl rfl rfl fun _ _ => Iff.rfl
  | newSend p m =>
    refine h.of_same rfl rfl rfl
      (storing_setSend (σ := { σ with numSends := σ.numSends + 1 }) ?_ (hidle rfl))
    intro x hx
    cases (hok.fresh _ le_rfl).symm.trans hx
  | poll waker hx hpc => exact h.setSend hx (hidle hpc) (hpolling rfl)
  | snapshot hx hpc hstate =>
    refine h.snapshot hok hlocal hsends hpub hx ?_
    simp only [Sender.phase, hstate, hpc]
  | store hx hpc hbuf => exact h.store hok hsize hx hpc hbuf
  | complete hx hpc hstate hsubs =>
    refine Buffered.record ?_ rfl
    exact h.setSend hx (hpolling hpc) (hidle rfl)
  | skip hx hpc => exact h.setSend hx (hpolling hpc) (hpolling hpc)
  | @park f x waker s rest inner woken hx hpc =>
    exact (h.setInner s inner).setSend hx (hpolling hpc) (hidle rfl)
  | @push f x waker s rest inner woken hx hpc =>
    refine Buffered.wake (Buffered.record ?_ rfl) woken
    exact (h.setInner s inner).setSend hx (hpolling hpc) (hpolling hpc)
  | again hx hpc => exact h.setSend hx (hpolling hpc) (hidle rfl)
  | @dropSend f x hx hpc =>
    refine h.of_same rfl rfl rfl fun g m => ?_
    constructor
    · rintro ⟨y, w, hy, hrest⟩
      by_cases hg : g = f
      · subst hg
        exact absurd hy (by simp)
      · exact ⟨y, w, by simpa [hg] using hy, hrest⟩
    · rintro ⟨y, w, hy, hpc', hm⟩
      have hg : g ≠ f := by
        rintro rfl
        cases hx.symm.trans hy
        exact hidle hpc w hpc'
      exact ⟨y, w, by simpa [hg] using hy, hpc', hm⟩
  | @recv s waker inner woken result =>
    exact Buffered.afterRecv (σ := σ.setReceiver s _) (h.of_same rfl rfl rfl fun _ _ => Iff.rfl) ..
  | tryRecv => exact h.afterRecv ..
  | insertSubscriber =>
    exact Buffered.record (h.of_same rfl rfl rfl fun _ _ => Iff.rfl) rfl
  | cloneSubscriber => exact Buffered.record (h.of_same rfl rfl rfl fun _ _ => Iff.rfl) rfl
  | closeSubscriber => exact Buffered.wake (h.of_same rfl rfl rfl fun _ _ => Iff.rfl) _

/-! ### Joining an abstract topic -/

/-- A subscriber that is being created holds the latest messages, and one that has joined
went on from the latest messages before that. -/
structure Broadcast.Joining (q : Nat) (b : Broadcast α) : Prop where
  created : ∀ s, b.life s = .created → b.queue s <:+ started b.log ∧ (b.queue s).length ≤ q
  joined : ∀ s, b.life s = .live → ∃ history, history <:+ started (before s b.log) ∧
    history.length ≤ q ∧ b.Fifo s history

/-- Joining, if a new subscriber starts with the latest messages and no send starts while a
subscriber is being created. -/
theorem Broadcast.Joining.step {b b' : Broadcast α} (h : b.Joining attr.queueSize) (hinv : b.Inv)
    (hs : Step attr b b') (hflow : attr.flowControl = true)
    (hnew : ∀ s, b.life s = .unborn → b'.life s = .created →
      b'.queue s <:+ started b'.log ∧ (b'.queue s).length ≤ attr.queueSize)
    (hquiet : (∃ s, b.life s = .created) → started b'.log = started b.log) :
    b'.Joining attr.queueSize := by
  have hinv' := hinv.step hs
  -- the queue of a subscriber that has not joined is left alone
  have hkept : ∀ s, b.life s = .created → pushedTo s b'.log = [] → receivedBy s b'.log = [] →
      b'.queue s = b.queue s := by
    intro s hcreated hpushed hreceived
    obtain ⟨-, ⟨hq, -⟩ | ⟨m, rest, -, -, hp, -⟩ | ⟨m, rest, -, -, -, hr⟩⟩ :=
      hs.queue (s := s) (by rw [hcreated]; nofun)
    · exact hq
    · exact absurd (hpushed.symm.trans hp) (by simp)
    · exact absurd (hreceived.symm.trans hr) (by simp)
  constructor
  · intro s hcreated
    rcases hs.life (.inr hcreated) with hunborn | hold
    · exact hnew s hunborn hcreated
    obtain ⟨-, hpushed, hreceived, -⟩ := hinv'.members.unseen s (.inr hcreated)
    rw [hkept s hold hpushed hreceived, hquiet ⟨s, hold⟩]
    exact h.created s hold
  · intro s hlive
    obtain hold | ⟨hearly, hlog, -⟩ := hs.joins hlive
    · obtain ⟨history, hsuffix, hlen, hfifo⟩ := h.joined s hold
      refine ⟨history, ?_, hlen, hfifo.step hflow (by rw [hold]; nofun) hs⟩
      obtain hlog | ⟨e, hlog, -⟩ := hs.log
      · rw [hlog]
        exact hsuffix
      · rw [hlog, before_snoc (hinv.members.joined s hold)]
        exact hsuffix
    · obtain ⟨hsince, hpushed, hreceived, -⟩ := hinv.members.unseen s hearly
      have hpushed' : pushedTo s b'.log = [] := by
        rw [hlog, pushedTo_snoc, hpushed]
        rfl
      have hreceived' : receivedBy s b'.log = [] := by
        rw [hlog, receivedBy_snoc, hreceived]
        rfl
      have hfifo : b'.Fifo s (b'.queue s) := by
        unfold Fifo
        rw [hpushed', hreceived', nil_append, append_nil]
      refine ⟨b'.queue s, ?_, ?_, hfifo⟩
      · rw [hlog, before_snoc_registered hsince]
        rcases hearly with hunborn | hcreated
        · rw [(hs.born hinv.members hunborn (by rw [hlive]; nofun)).1 (.inr hlive)]
          exact nil_suffix
        · rw [hkept s hcreated hpushed' hreceived']
          exact (h.created s hcreated).1
      · rcases hearly with hunborn | hcreated
        · rw [(hs.born hinv.members hunborn (by rw [hlive]; nofun)).1 (.inr hlive)]
          exact Nat.zero_le _
        · rw [hkept s hcreated hpushed' hreceived']
          exact (h.created s hcreated).2

/-! ### The new subscriber -/

/-- `PUBLISH_SUBSCRIBE` is locked for a subscriber that is created or dropped. -/
def Locked (σ : Topic (Msg α)) : Prop :=
  ∀ s, σ.handle s = .creating ∨ σ.handle s = .dropping → σ.publishSubscribe = some s

theorem Locked.setHandle {t : SubId} {hs : HandleState} (hhandle : σ'.handle = update σ.handle t hs)
    (hnew : hs = .creating ∨ hs = .dropping → σ'.publishSubscribe = some t)
    (hold : ∀ s, s ≠ t → σ.handle s = .creating ∨ σ.handle s = .dropping →
      σ'.publishSubscribe = some s) : Locked σ' := by
  intro s hh
  rw [hhandle] at hh
  by_cases hst : s = t
  · subst hst
    rw [update_self] at hh
    exact hnew hh
  · rw [update_of_ne hst] at hh
    exact hold s hst hh

theorem Locked.step (h : Locked σ) (hs : σ.step a = some σ') : Locked σ' := by
  -- nobody else is created or dropped while the lock is free, or held for `t`
  have hfree : σ.publishSubscribe = none → ∀ s, ¬ (σ.handle s = .creating ∨
      σ.handle s = .dropping) := fun hnone s hh => absurd (hnone.symm.trans (h s hh)) nofun
  have hheld : ∀ {t}, σ.publishSubscribe = some t → ∀ s, s ≠ t →
      ¬ (σ.handle s = .creating ∨ σ.handle s = .dropping) := fun ht s hne hh =>
    hne (Option.some.inj ((h s hh).symm.trans ht))
  cases step_cases hs with
  | advance | newSend | poll | store | complete | skip | park | push | again | dropSend => exact h
  | snapshot =>
    unfold snapshot
    dsimp only
    split <;> exact h
  | @recv _ _ _ _ result | @tryRecv _ _ _ result => cases result <;> exact h
  | createSubscriber hlock | removeSubscriber _ hlock =>
    exact .setHandle (σ := σ) rfl (fun _ => rfl) fun s _ hh => absurd hh (hfree hlock s)
  | insertSubscriber pos hlock hhandle =>
    exact .setHandle (σ := σ) rfl (fun hh => absurd hh (by decide)) fun s hne hh =>
      absurd hh (hheld hlock s hne)
  | cloneSubscriber pos hreaders =>
    exact .setHandle (σ := σ) rfl (fun hh => absurd hh (by decide)) fun s _ hh => h s hh
  | @closeSubscriber t hhandle =>
    exact .setHandle (σ := σ) rfl (fun hh => absurd hh (by decide)) fun s hne hh =>
      absurd hh (hheld (h t (.inr hhandle)) s hne)

theorem started_step (hs : σ.step a = some σ') :
    (∃ f x, a = .send f ∧ σ.send f = some x ∧ x.phase = .fresh) ∨
      started σ'.log = started σ.log := by
  have hquiet : ∀ {e : Event (Msg α)}, e.started? = none →
      started (σ.log ++ [e]) = started σ.log := by
    intro e he
    rw [started_snoc, he]
    exact append_nil _
  cases step_cases hs with
  | advance | newSend | poll | store | skip | park | again | dropSend | createSubscriber
  | removeSubscriber | closeSubscriber => exact .inr rfl
  | @snapshot f x waker hx hpc hstate =>
    exact .inl ⟨f, x, rfl, hx, by simp only [Sender.phase, hstate, hpc]⟩
  | complete | push | insertSubscriber | cloneSubscriber => exact .inr (hquiet rfl)
  | @recv s waker inner woken result | @tryRecv s inner woken result =>
    cases result with
    | none => exact .inr rfl
    | some d => exact .inr (hquiet rfl)

theorem publisher_step (hs : σ.step a = some σ') (hy : σ'.send f = some y) :
    (∃ x, σ.send f = some x ∧ x.publisher = y.publisher) ∨ ∃ m, a = .newSend y.publisher m := by
  have hset : ∀ {g : SendId} {x z : Sender (Msg α)} {τ : Topic (Msg α)},
      (τ.setSend g z).send f = some y → σ.send g = some x → z.publisher = x.publisher →
      τ.send = σ.send → ∃ x, σ.send f = some x ∧ x.publisher = y.publisher := by
    intro g x z τ hfy hx hz hτ
    obtain ⟨rfl, rfl⟩ | ⟨-, hfy⟩ := send_setSend_cases hfy
    · exact ⟨x, hx, hz.symm⟩
    · exact ⟨y, hτ ▸ hfy, rfl⟩
  have hwake : ∀ {τ : Topic (Msg α)} {woken : List Waker}, (τ.wake woken).send f = some y →
      ∃ z, τ.send f = some z ∧ z.publisher = y.publisher := by
    intro τ woken hfy
    obtain ⟨z, hz, rfl⟩ := send_wake_eq_some.mp hfy
    exact ⟨z, hz, rfl⟩
  cases step_cases hs with
  | advance | createSubscriber | insertSubscriber | cloneSubscriber | removeSubscriber =>
    exact .inl ⟨y, hy, rfl⟩
  | newSend p m =>
    obtain ⟨-, rfl⟩ | ⟨-, hy⟩ := send_setSend_cases hy
    · exact .inr ⟨m, rfl⟩
    · exact .inl ⟨y, hy, rfl⟩
  | poll _ hx | store hx | complete hx | skip hx | again hx | park hx =>
    exact .inl (hset hy hx rfl rfl)
  | snapshot hx =>
    unfold snapshot at hy
    dsimp only at hy
    split at hy
    · exact .inl (hset hy hx rfl rfl)
    · exact .inl (hset hy hx rfl rfl)
  | @push g x waker s rest inner woken hx =>
    obtain ⟨z, hz, hpub⟩ := hwake hy
    obtain ⟨rfl, rfl⟩ | ⟨-, hz⟩ := send_setSend_cases hz
    · exact .inl ⟨x, hx, hpub⟩
    · exact .inl ⟨z, hz, hpub⟩
  | @dropSend g x hx =>
    by_cases hg : f = g
    · subst hg
      exact absurd hy (by simp)
    · exact .inl ⟨y, by simpa [hg] using hy, rfl⟩
  | @recv s waker inner woken result | @tryRecv s inner woken result =>
    cases result with
    | none | some => exact .inl (hwake hy)
  | closeSubscriber => exact .inl (hwake hy)

theorem created_step (hok : σ.Ok attr) (hlocal : attr.transientLocal = true)
    (hs : σ.step a = some σ') {s : SubId}
    (hunborn : σ.abs.life s = .unborn) (hcreated : σ'.abs.life s = .created) :
    a = .createSubscriber ∧ σ'.queued s = σ.history ∧ started σ'.log = started σ.log := by
  have hge : ¬ s < σ.numSubscribers := by
    intro hlt
    rw [abs_life_of_lt hlt] at hunborn
    cases hh : σ.handle s <;> rw [hh] at hunborn <;> cases hunborn
  have hsame : ∀ {l : Life}, (if s < σ.numSubscribers then l else .unborn) ≠ .created := by
    intro l
    rw [if_neg hge]
    nofun
  cases step_cases hs with
  | advance | newSend | poll | store | complete | skip | park | push | again | dropSend
  | insertSubscriber | removeSubscriber | closeSubscriber => exact absurd hcreated hsame
  | snapshot =>
    unfold snapshot at hcreated
    dsimp only at hcreated
    split at hcreated <;> exact absurd hcreated hsame
  | @recv t waker inner woken result | @tryRecv t inner woken result =>
    cases result <;> exact absurd hcreated hsame
  | @createSubscriber inner hlock hinner =>
    rw [abs_allocate] at hcreated
    have hs : s = σ.numSubscribers := by
      by_contra hne
      rw [Broadcast.life_setLife_of_ne _ hne] at hcreated
      exact hsame hcreated
    subst hs
    refine ⟨rfl, ?_, rfl⟩
    obtain ⟨buf, hbuf⟩ := Option.isSome_iff_exists.mp (hok.buf_isSome.trans hlocal)
    have hitems := (newInner_spec hinner (by rw [hok.attr_eq]; exact hok.buf_size)).2.2.2.2.2
      buf hbuf (by rw [hok.attr_eq]; exact hlocal)
    show (update σ.inner σ.numSubscribers inner σ.numSubscribers).items.map _ = _
    rw [update_self, hitems]
    show _ = (σ.senderBuf.elim [] RingQ.toList).map _
    rw [hbuf]
    rfl
  | cloneSubscriber =>
    rw [abs_record, abs_allocate] at hcreated
    change ((σ.abs.setQueue _ _).setLife _ _).life s = .created at hcreated
    by_cases hne : s = σ.numSubscribers
    · subst hne
      rw [Broadcast.life_setLife_self] at hcreated
      cases hcreated
    · rw [Broadcast.life_setLife_of_ne _ hne] at hcreated
      exact absurd hcreated hsame

/-! ### The segment -/

/-- The message of the event is one of the publisher. -/
def Event.Ours : Event (Msg α) → Prop
  | .started m | .pushed _ m => m.publisher = 0
  | .registered _ | .received _ _ | .completed _ => True

/-- What the runs of `late_join` keep. -/
structure LateJoining (attr : Attribute) (σ : Topic (Msg α)) : Prop where
  ok : σ.Ok attr
  inv : σ.abs.Inv
  publisher : ∀ f x, σ.send f = some x → x.publisher = 0
  sent : ∀ e ∈ σ.log, e.Ours
  buffered : Buffered σ
  locked : Locked σ
  joining : σ.abs.Joining attr.queueSize

theorem LateJoining.init (attr : Attribute) (hsize : 0 < attr.queueSize)
    (hperm : attr.lifespan = .permanent) :
    LateJoining attr (init attr : Topic (Msg α)) where
  ok := .init attr
  inv := abs_inv hsize hperm (fun _ _ hturn => hturn) .refl
  publisher := nofun
  sent := nofun
  buffered := by
    refine .inl ⟨rfl, ?_, ?_⟩
    · rintro f m ⟨x, w, hx, -⟩
      cases hx
    have hnil : (Topic.init attr : Topic (Msg α)).history = [] := by
      unfold Topic.history Topic.init
      cases attr.transientLocal
      · rfl
      · exact congrArg (map _) (RingQ.toList_new _)
    rw [hnil]
    exact nil_suffix
  locked := by
    rintro s (hh | hh) <;> cases hh
  joining := ⟨nofun, nofun⟩

/-- The invariants of the parts, together. -/
theorem LateJoining.step (h : LateJoining attr σ) (hsize : 0 < attr.queueSize)
    (hperm : attr.lifespan = .permanent) (hlocal : attr.transientLocal = true)
    (hflow : attr.flowControl = true) (hone : OnePublisher σ a)
    (halone : JoinsAlone σ a) (hs : σ.step a = some σ') : LateJoining attr σ' := by
  have hok' := h.ok.step hsize hs
  have hpublisher : ∀ f x, σ'.send f = some x → x.publisher = 0 := by
    intro f y hy
    obtain ⟨x, hx, hpub⟩ | ⟨m, rfl⟩ := publisher_step hs hy
    · exact hpub.symm.trans (h.publisher f x hx)
    · exact hone.2
  have hsent : ∀ e ∈ σ'.log, e.Ours := by
    obtain heq | hstep := abs_step h.ok hsize hperm hone.1 hs
    · have hlog : σ'.log = σ.log := congrArg Broadcast.log heq
      rw [hlog]
      exact h.sent
    obtain hlog | ⟨e, hlog, he⟩ := hstep.log <;> dsimp only [Topic.abs] at hlog
    · rw [hlog]
      exact h.sent
    have hours : ∀ {f : SendId} {y : Outgoing α}, σ.abs.send f = some y →
        y.message.publisher = 0 := by
      intro f y hy
      rw [(h.inv.sends.tagged f y hy).2]
      obtain ⟨x, hx, rfl⟩ := Option.map_eq_some_iff.mp hy
      exact h.publisher f x hx
    intro e' he'
    rw [hlog, mem_append] at he'
    rcases he' with he' | he'
    · exact h.sent e' he'
    obtain rfl := mem_singleton.mp he'
    cases e' with
    | started m =>
      obtain ⟨f, y, hy, -, rfl⟩ := he
      exact hours hy
    | pushed s m =>
      obtain ⟨f, y, hy, rfl, -⟩ := he
      exact hours hy
    | registered | received | completed => trivial
  have hbuffered := h.buffered.step h.ok hsize hlocal h.inv.sends h.publisher hs
  have hlocked := h.locked.step hs
  obtain heq | hstep := abs_step h.ok hsize hperm hone.1 hs
  · exact ⟨hok', heq ▸ h.inv, hpublisher, hsent, hbuffered, hlocked, heq ▸ h.joining⟩
  refine ⟨hok', h.inv.step hstep, hpublisher, hsent, hbuffered, hlocked,
    h.joining.step h.inv hstep hflow ?_ ?_⟩
  · -- the copy of the send buffer is taken while no write to it is pending
    intro s hunborn hcreated
    obtain ⟨rfl, hqueue, hlog⟩ := created_step h.ok hlocal hs hunborn hcreated
    obtain ⟨-, -, hsuffix⟩ | ⟨hreaders, -⟩ := h.buffered
    · refine ⟨?_, ?_⟩
      · show σ'.queued s <:+ started σ'.log
        rw [hqueue, hlog]
        exact hsuffix
      · show (σ'.queued s).length ≤ _
        rw [← hok'.size s]
        exact (length_map _).trans_le (σ'.inner s).length_items_le
    · cases (show σ.readers = 0 from halone).symm.trans hreaders
  · rintro ⟨s, hcreated⟩
    obtain ⟨f, x, rfl, hx, hphase⟩ | hlog := started_step hs
    · -- no send starts while a subscriber is being created
      have hhandle : σ.handle s = .creating := by
        change (if s < σ.numSubscribers then (σ.handle s).life else .unborn) = .created at hcreated
        split at hcreated
        · cases hh : σ.handle s <;> rw [hh] at hcreated <;>
            first | rfl | cases hcreated
        · cases hcreated
      exact absurd hhandle (halone x hx hphase s (h.locked s (.inl hhandle)))
    · exact hlog

/-- **Late joiners**, if the sections of sends and of `create_subscriber` do not overlap: in
every state reached, a live subscriber gets a segment of the messages sent, without a gap
and without repetition, from at most `queue_size` messages before it joined. -/
theorem late_join (hsize : 0 < attr.queueSize) (hperm : attr.lifespan = .permanent)
    (hlocal : attr.transientLocal = true) (hflow : attr.flowControl = true)
    (h : Topic.Reachable attr (fun σ a => OnePublisher σ a ∧ JoinsAlone σ a) σ) {s : SubId}
    (hlive : σ.handle s = .live) : GetsSegment σ s := by
  have hσ : LateJoining attr σ :=
    h.invariant (I := LateJoining attr) (.init attr hsize hperm) fun _ _ _ hI hok hs =>
      hI.step hsize hperm hlocal hflow hok.1 hok.2 hs
  have hlife : σ.abs.life s = .live := by
    rw [abs_life_of_lt (hσ.ok.lt_of_live (by rw [hlive]; nofun)), hlive]
    rfl
  obtain ⟨history, ⟨earlier, hearlier⟩, hlen, hfifo⟩ := hσ.joining.joined s hlife
  obtain ⟨rest, hrest, -⟩ := hσ.inv.delivered s 0 hlife
  change earlier ++ history = started (before s σ.log) at hearlier
  change receivedBy s σ.log ++ σ.queued s = history ++ pushedTo s σ.log at hfifo
  -- all messages are of the one publisher, so the projections to it are the lists themselves
  have hall : ∀ messages : List (Msg α), (∀ m ∈ messages, m.publisher = 0) →
      Broadcast.byPublisher 0 messages = messages := fun messages hm =>
    filter_eq_self.mpr fun m hmem => by simpa using hm m hmem
  have hsent : ∀ m ∈ started (since s σ.log), m.publisher = 0 := fun m hm =>
    hσ.sent _ (mem_started.mp ((started_since_sublist s σ.log).subset hm))
  have hpushed : ∀ m ∈ pushedTo s σ.log, m.publisher = 0 := fun m hm =>
    hσ.sent _ (mem_pushedTo.mp hm)
  have hsplit : started σ.log = earlier ++ ((history ++ pushedTo s σ.log) ++ rest) := by
    calc started σ.log = started (before s σ.log) ++ started (since s σ.log) :=
          (congrArg started (before_append_since s σ.log).symm).trans filterMap_append
      _ = (earlier ++ history) ++ (pushedTo s σ.log ++ rest) := by
          rw [hearlier, ← hall _ hsent, ← hall _ hpushed]
          exact congrArg _ hrest
      _ = earlier ++ ((history ++ pushedTo s σ.log) ++ rest) := by
          simp only [append_assoc]
  refine ⟨hσ.inv.distinct.started, earlier.length, (history ++ pushedTo s σ.log).length, ?_, ?_, ?_⟩
  · rw [hsplit, drop_left, take_left, hfifo]
  · rw [← hearlier, length_append]
    exact Nat.le_add_right _ _
  · rw [← hearlier, length_append, hσ.ok.attr_eq]
    exact Nat.add_le_add_left hlen _

/-- A transient-local topic with a history of two messages. -/
def shortHistory : Attribute := { Attribute.default with queueSize := 2, transientLocal := true }

/-- A send of the publisher to `n` subscribers, from the creation of the future to its end. -/
def sendAll (f : SendId) (n : Nat) : List (TopicAction (Msg Nat)) :=
  [.newSend 0 ⟨0, f, f⟩, .poll f 0, .send f, .send f] ++ replicate n (.send f) ++ [.send f]

/-- The subscriber joins between two sends, and gets all three messages. -/
theorem late_join_between_sends : ∃ σ : Topic (Msg Nat),
    Topic.Reachable shortHistory (fun σ a => OnePublisher σ a ∧ JoinsAlone σ a) σ ∧
      σ.handle 0 = .live ∧ (receivedBy 0 σ.log).map Msg.id = [0, 1, 2] ∧ GetsSegment σ 0 := by
  refine Reaches.exists_of_run_imp
    (sendAll 0 0 ++ sendAll 1 0 ++ [.createSubscriber, .insertSubscriber 0, .recv 0 9] ++
      sendAll 2 1 ++ [.recv 0 9, .recv 0 9])
    (fun σ => σ.handle 0 = .live ∧ (receivedBy 0 σ.log).map Msg.id = [0, 1, 2]) (by decide) ?_
  rintro σ hreach ⟨hlive, hreceived⟩
  exact ⟨hlive, hreceived, late_join (by decide) rfl rfl rfl hreach hlive⟩

/-- **A message can be lost while a subscriber joins.** Message 1 is sent after the copy of
the send buffer and before the registration; the subscriber gets messages 0 and 2. -/
theorem gap_of_late_join : ∃ σ : Topic (Msg Nat),
    Topic.Reachable shortHistory OnePublisher σ ∧ σ.handle 0 = .live ∧
      (receivedBy 0 σ.log).map Msg.id = [0, 2] ∧ (started σ.log).map Msg.id = [0, 1, 2] ∧
      ¬ GetsSegment σ 0 := by
  refine Reaches.exists_of_run_imp
    (sendAll 0 0 ++ [.createSubscriber] ++ sendAll 1 0 ++ [.insertSubscriber 0] ++
      sendAll 2 1 ++ [.recv 0 9, .recv 0 9])
    (fun σ => σ.handle 0 = .live ∧
      (receivedBy 0 σ.log).map Msg.id = [0, 2] ∧ (σ.queued 0).map Msg.id = [] ∧
      (started σ.log).map Msg.id = [0, 1, 2]) (by decide) ?_
  rintro σ - ⟨hlive, hreceived, hqueued, hstarted⟩
  refine ⟨hlive, hreceived, hstarted, ?_⟩
  rintro ⟨-, first, count, heq, -⟩
  have hids := congrArg (map Msg.id) heq
  rw [map_append, hreceived, hqueued, map_take, map_drop, hstarted] at hids
  rcases first with _ | _ | _ | first <;> rcases count with _ | _ | _ | count <;> simp at hids

end Awkernel
