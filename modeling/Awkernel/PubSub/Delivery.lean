import Awkernel.PubSub.Broadcast

/-!
# What the subscribers of an abstract topic get

Invariants of the steps of a `Broadcast`, one subscriber at a time.

* `Delivered` — of the messages of one publisher whose send has started since the
  subscriber joined, all have been pushed to the subscriber, in this order, but at most
  one, which its send still carries.
* `Distinct` — no message is started twice, or pushed twice to one subscriber.
* `Fifo` — with flow control, what a subscriber has received and what is left in its queue
  are what was pushed to it.
* `Latest` — without flow control, the queue holds the latest of the messages that were
  pushed after the last one received.
-/

namespace Awkernel

open List

variable {α : Type}

namespace Broadcast

/-! ### Delivery -/

/-- The messages of one publisher. -/
def byPublisher (p : Nat) (messages : List (Msg α)) : List (Msg α) :=
  messages.filter fun m => m.publisher = p

/-- **Delivery.** Of the messages of `p` whose send has started since `s` joined, all have
been pushed to `s`, in this order, but at most one, which its send still carries to `s`. -/
def Delivered (b : Broadcast α) (s : SubId) (p : Nat) : Prop :=
  ∃ rest, byPublisher p (started (since s b.log)) = byPublisher p (pushedTo s b.log) ++ rest ∧
    (∀ m ∈ rest, ∃ f, b.Carries f m s) ∧
    ∀ f m, m.publisher = p → b.Carries f m s → rest = [m]

variable {m : Msg α} {b b' : Broadcast α}

section Delivery

variable {b b' : Broadcast α} {attr : Attribute} {s : SubId} {p : Nat}

theorem byPublisher_append (messages messages' : List (Msg α)) :
    byPublisher p (messages ++ messages') = byPublisher p messages ++ byPublisher p messages' :=
  filter_append ..

theorem byPublisher_singleton (m : Msg α) :
    byPublisher p [m] = if m.publisher = p then [m] else [] := by
  by_cases hm : m.publisher = p <;> simp [byPublisher, hm]

theorem publisher_of_mem {messages pushed rest : List (Msg α)}
    (h : byPublisher p messages = pushed ++ rest) : ∀ m ∈ rest, m.publisher = p := by
  intro m hm
  have hmem : m ∈ byPublisher p messages := h ▸ mem_append_right _ hm
  simpa using (mem_filter.mp hmem).2

theorem Delivered.of_same (h : b.Delivered s p)
    (hstarted : byPublisher p (started (since s b'.log)) = byPublisher p (started (since s b.log)))
    (hpushed : byPublisher p (pushedTo s b'.log) = byPublisher p (pushedTo s b.log))
    (hcarries : ∀ f m, m.publisher = p → (b'.Carries f m s ↔ b.Carries f m s)) :
    b'.Delivered s p := by
  obtain ⟨rest, heq, hrest, hall⟩ := h
  refine ⟨rest, by rw [hstarted, hpushed, heq], ?_, ?_⟩
  · intro m hm
    obtain ⟨f, hf⟩ := hrest m hm
    exact ⟨f, (hcarries f m (publisher_of_mem heq m hm)).mpr hf⟩
  · intro f m hm hf
    exact hall f m hm ((hcarries f m hm).mp hf)

variable {f : SendId} {x : Outgoing α} {targets : List SubId}

/-- The send that carries a message of `p` is the one that `p` has not finished. -/
theorem Sends.eq_of_carries (h : b.Sends) {g : SendId} (hx : b.send f = some x)
    (hopen : x.phase ≠ .done) (hpub : m.publisher = x.publisher)
    (hc : b.Carries g m s) : g = f ∧ m = x.message := by
  obtain ⟨y, hy, rfl, hmem⟩ := hc
  have hyp : y.phase ≠ .done := by
    intro hd
    rw [h.idle g y hy (by rw [hd]; nofun)] at hmem
    cases hmem
  obtain rfl := h.turn g f y x hy hx ((h.tagged g y hy).2.symm.trans hpub) hyp hopen
  exact ⟨rfl, congrArg _ (Option.some.inj (hy.symm.trans hx))⟩

theorem Sends.not_carries_of_fresh (h : b.Sends) (hx : b.send f = some x)
    (hphase : x.phase = .fresh) : ¬ b.Carries f m s := by
  rintro ⟨y, hy, -, hmem⟩
  cases hx.symm.trans hy
  rw [h.idle f x hx (by rw [hphase]; nofun)] at hmem
  cases hmem

/-- A send that starts carries its message to all. -/
theorem Delivered.start (h : b.Delivered s p) (hsends : b.Sends) (hjoined : since s b.log ≠ [])
    (hx : b.send f = some x) (hphase : x.phase = .fresh) (hmem : s ∈ targets) :
    ((b.setSend f (some { x with targets := targets, phase := .running })).record
      (.started x.message)).Delivered s p := by
  have hpub : x.message.publisher = x.publisher := (hsends.tagged f x hx).2
  have hopen : x.phase ≠ .done := by
    rw [hphase]
    nofun
  have hstarted : started (since s (b.log ++ [.started x.message])) =
      started (since s b.log) ++ [x.message] := by
    rw [since_snoc hjoined, started_snoc]
    rfl
  have hpushed : pushedTo s (b.log ++ [.started x.message]) = pushedTo s b.log := by
    rw [pushedTo_snoc]
    exact append_nil _
  by_cases hp : x.message.publisher = p
  · obtain ⟨rest, heq, hrest, -⟩ := h
    have hnil : rest = [] := by
      refine eq_nil_iff_forall_not_mem.mpr fun m hm => ?_
      obtain ⟨g, hg⟩ := hrest m hm
      have hm' : m.publisher = x.publisher :=
        (publisher_of_mem heq m hm).trans (hp.symm.trans hpub)
      obtain ⟨rfl, -⟩ := hsends.eq_of_carries hx hopen hm' hg
      exact hsends.not_carries_of_fresh hx hphase hg
    subst hnil
    refine ⟨[x.message], ?_, ?_, ?_⟩
    · show byPublisher p (started (since s (b.log ++ [_]))) =
        byPublisher p (pushedTo s (b.log ++ [_])) ++ _
      rw [hstarted, hpushed, byPublisher_append, heq, append_nil, byPublisher_singleton, if_pos hp]
    · intro m hm
      rw [mem_singleton.mp hm]
      exact ⟨f, _, send_setSend_self _, rfl, hmem⟩
    · rintro g m hm ⟨y, hy, rfl, hsy⟩
      obtain ⟨-, rfl⟩ | ⟨hg, hy⟩ := send_setSend_cases hy
      · rfl
      · exact absurd (hsends.eq_of_carries hx hopen (hm.trans (hp.symm.trans hpub))
          ⟨y, hy, rfl, hsy⟩).1 hg
  · refine h.of_same ?_ ?_ ?_
    · show byPublisher p (started (since s (b.log ++ [_]))) = _
      rw [hstarted, byPublisher_append, byPublisher_singleton, if_neg hp, append_nil]
    · exact congrArg _ hpushed
    intro g m hm
    constructor
    · rintro ⟨y, hy, rfl, hsy⟩
      obtain ⟨-, rfl⟩ | ⟨-, hy⟩ := send_setSend_cases hy
      · exact absurd hm hp
      · exact ⟨y, hy, rfl, hsy⟩
    rintro ⟨y, hy, hmy, hsy⟩
    have hg : g ≠ f := by
      rintro rfl
      exact hsends.not_carries_of_fresh hx hphase ⟨y, hy, hmy, hsy⟩
    exact ⟨y, (send_setSend_of_ne _ hg).trans hy, hmy, hsy⟩

/-- A message that is pushed is no longer carried. -/
theorem Delivered.deliver (h : b.Delivered s p) (hsends : b.Sends) (hjoined : since s b.log ≠ [])
    {t : SubId} (queue : List (Msg α))
    (hx : b.send f = some x) (hphase : x.phase = .running) (htargets : x.targets = t :: targets) :
    (((b.setQueue t queue).setSend f (some { x with targets := targets })).record
      (.pushed t x.message)).Delivered s p := by
  have hpub : x.message.publisher = x.publisher := (hsends.tagged f x hx).2
  have hnodup := hsends.nodup f x hx
  rw [htargets, nodup_cons] at hnodup
  have hstarted : started (since s (b.log ++ [.pushed t x.message])) = started (since s b.log) := by
    rw [since_snoc hjoined, started_snoc]
    exact append_nil _
  -- what is carried by a send of another publisher does not change
  have hother : s ≠ t ∨ x.message.publisher ≠ p → ∀ g m, m.publisher = p →
      (((b.setQueue t queue).setSend f (some { x with targets := targets })).Carries g m s ↔
        b.Carries g m s) := by
    rintro hne g m hm
    by_cases hst : s = t
    · have hp : x.message.publisher ≠ p := hne.resolve_left (not_not.mpr hst)
      constructor
      · rintro ⟨y, hy, rfl, hsy⟩
        obtain ⟨-, rfl⟩ | ⟨-, hy⟩ := send_setSend_cases hy
        · exact absurd hm hp
        · exact ⟨y, hy, rfl, hsy⟩
      rintro ⟨y, hy, rfl, hsy⟩
      have hg : g ≠ f := by
        rintro rfl
        cases hx.symm.trans hy
        exact hp hm
      exact ⟨y, (send_setSend_of_ne _ hg).trans hy, rfl, hsy⟩
    · refine carries_setSend (b := b.setQueue t queue) hx rfl ?_
      rw [htargets, mem_cons]
      exact ⟨.inr, fun hmem => hmem.resolve_left hst⟩
  by_cases hst : s = t
  · subst hst
    have hpushed : pushedTo s (b.log ++ [.pushed s x.message]) =
        pushedTo s b.log ++ [x.message] := by
      rw [pushedTo_snoc, Event.pushedTo?, if_pos rfl]
      rfl
    by_cases hp : x.message.publisher = p
    · obtain ⟨rest, heq, -, hall⟩ := h
      obtain rfl : rest = [x.message] :=
        hall f x.message hp ⟨x, hx, rfl, by rw [htargets]; exact .head _⟩
      refine ⟨[], ?_, forall_mem_nil _, ?_⟩
      · show byPublisher p (started (since s (b.log ++ [_]))) =
          byPublisher p (pushedTo s (b.log ++ [_])) ++ _
        rw [hstarted, hpushed, heq, byPublisher_append, byPublisher_singleton, if_pos hp,
          append_nil]
      rintro g m hm ⟨y, hy, rfl, hsy⟩
      obtain ⟨-, rfl⟩ | ⟨hg, hy⟩ := send_setSend_cases hy
      · exact absurd hsy hnodup.1
      · exact absurd (hsends.eq_of_carries hx (by simp [hphase])
          (hm.trans (hp.symm.trans hpub)) ⟨y, hy, rfl, hsy⟩).1 hg
    · refine h.of_same (congrArg _ hstarted) ?_ (hother (.inr hp))
      show byPublisher p (pushedTo s (b.log ++ [_])) = _
      rw [hpushed, byPublisher_append, byPublisher_singleton, if_neg hp, append_nil]
  · refine h.of_same (congrArg _ hstarted) ?_ (hother (.inl hst))
    show byPublisher p (pushedTo s (b.log ++ [_])) = _
    rw [pushedTo_snoc, Event.pushedTo?, if_neg (Ne.symm hst)]
    exact congrArg _ (append_nil _)

theorem Delivered.record (h : b.Delivered s p) (hjoined : since s b.log ≠ [])
    {e : Event (Msg α)} (hstarted : e.started? = none) (hpushed : e.pushedTo? s = none) :
    (b.record e).Delivered s p := by
  refine h.of_same (congrArg _ ?_) (congrArg _ ?_) fun _ _ _ => Iff.rfl
  · show started (since s (b.log ++ [e])) = _
    rw [since_snoc hjoined, started_snoc, hstarted]
    exact append_nil _
  · show pushedTo s (b.log ++ [e]) = _
    rw [pushedTo_snoc, hpushed]
    exact append_nil _

/-- **Every step keeps the messages for a live subscriber in order.** -/
theorem Delivered.step (h : b.life s = .live → b.Delivered s p) (hsends : b.Sends)
    (hmembers : b.Members) (hs : Step attr b b') (hlive : b'.life s = .live) :
    b'.Delivered s p := by
  obtain hold | ⟨hearly, hlog, hsend⟩ := hs.joins hlive
  · have hd := h hold
    have hjoined := hmembers.joined s hold
    cases hs with
    | newSend m hid hturn =>
      refine hd.of_same rfl rfl fun g m' _ => ?_
      constructor
      · rintro ⟨y, hy, rfl, hsy⟩
        obtain ⟨-, rfl⟩ | ⟨-, hy⟩ := send_setSend_cases hy
        · cases hsy
        · exact ⟨y, hy, rfl, hsy⟩
      · rintro ⟨y, hy, rfl, hsy⟩
        exact ⟨y, (send_setSend_of_ne _ (hsends.lt_numSends hy).ne).trans hy, rfl, hsy⟩
    | start hx hphase hnodup htargets =>
      exact hd.start hsends hjoined hx hphase ((htargets s).mpr hold)
    | deliver hx hphase htargets hroom => exact hd.deliver hsends hjoined _ hx hphase htargets
    | skip hx hphase htargets hgone =>
      refine hd.of_same rfl rfl fun g m _ => carries_setSend hx rfl ?_
      rw [htargets, mem_cons]
      refine ⟨.inr, fun hmem => hmem.resolve_left ?_⟩
      rintro rfl
      cases hold.symm.trans hgone
    | @complete f x hx hphase htargets =>
      have hd' : (b.setSend f (some { x with phase := .done })).Delivered s p :=
        hd.of_same rfl rfl fun g m _ => carries_setSend hx rfl Iff.rfl
      exact hd'.record hjoined rfl rfl
    | @drop f x hx hphase =>
      refine hd.of_same rfl rfl fun g m _ => ?_
      constructor
      · rintro ⟨y, hy, hrest⟩
        exact ⟨y, (send_setSend_none hy).2, hrest⟩
      rintro ⟨y, hy, hm, hsy⟩
      have hg : g ≠ f := by
        rintro rfl
        cases hx.symm.trans hy
        rw [hsends.idle g x hx (by rw [hphase]; nofun)] at hsy
        cases hsy
      exact ⟨y, (send_setSend_of_ne _ hg).trans hy, hm, hsy⟩
    | receive | join | clone => exact hd.record hjoined rfl rfl
    | create | leave => exact hd.of_same rfl rfl fun _ _ _ => Iff.rfl
  · -- `s` has just joined, and nothing has been started or pushed since
    obtain ⟨hsince, hpushed, -, hcarries⟩ := hmembers.unseen s hearly
    refine ⟨[], ?_, nofun, ?_⟩
    · rw [hlog, since_snoc_of_nil hsince, pushedTo_snoc, hpushed,
        if_pos (by simp [Event.registers])]
      rfl
    · rintro f m - ⟨x, hx, hm, hsx⟩
      rw [hsend] at hx
      exact absurd ⟨x, hx, hm, hsx⟩ (hcarries f m)

end Delivery

/-! ### The queues -/

/-- No message is started twice, or pushed twice to one subscriber. -/
structure Distinct (b : Broadcast α) : Prop where
  started : ((started b.log).map Msg.id).Nodup
  pushed : ∀ s, ((pushedTo s b.log).map Msg.id).Nodup

section Queues

variable {b b' : Broadcast α} {attr : Attribute} {s : SubId}

theorem Distinct.step (h : b.Distinct) (hsends : b.Sends) (hs : Step attr b b') : b'.Distinct := by
  obtain hlog | ⟨e, hlog, he⟩ := hs.log
  · exact ⟨hlog ▸ h.started, fun s => hlog ▸ h.pushed s⟩
  constructor
  · rw [hlog, started_snoc, map_append, nodup_append']
    cases e with
    | started m =>
      obtain ⟨f, x, hx, hphase, rfl⟩ := he
      refine ⟨h.started, nodup_singleton _, ?_⟩
      rintro id hid hnew
      obtain rfl : id = x.message.id := mem_singleton.mp hnew
      obtain ⟨m, hm, hid⟩ := mem_map.mp hid
      exact hsends.settled _ (mem_started.mp hm) f x hx hid hphase
    | registered | pushed | received | completed =>
      exact ⟨h.started, nodup_nil, fun _ _ hnew => absurd hnew not_mem_nil⟩
  · intro s
    rw [hlog, pushedTo_snoc, map_append, nodup_append']
    cases hpushed : e.pushedTo? s with
    | none => exact ⟨h.pushed s, nodup_nil, fun _ _ hnew => absurd hnew not_mem_nil⟩
    | some m =>
      cases e with
      | registered | started | received | completed => cases hpushed
      | pushed t m' =>
        obtain ⟨rfl, rfl⟩ : t = s ∧ m' = m := by simpa [Event.pushedTo?] using hpushed
        obtain ⟨f, x, hx, rfl, hsx⟩ := he
        refine ⟨h.pushed t, nodup_singleton _, ?_⟩
        rintro id hid hnew
        obtain rfl : id = x.message.id := mem_singleton.mp hnew
        obtain ⟨m, hm, hid⟩ := mem_map.mp hid
        exact (hsends.settled _ (mem_pushedTo.mp hm) f x hx hid).2 hsx

/-- **First in, first out**, from the messages `history` on. -/
def Fifo (b : Broadcast α) (s : SubId) (history : List (Msg α)) : Prop :=
  receivedBy s b.log ++ b.queue s = history ++ pushedTo s b.log

/-- What a step does to the queue of a subscriber that exists: nothing, or it adds a message
or takes one, and the log says so. -/
theorem Step.queue (hs : Step attr b b') (hborn : b.life s ≠ .unborn) : b'.life s ≠ .unborn ∧
      (b'.queue s = b.queue s ∧ pushedTo s b'.log = pushedTo s b.log ∧
          receivedBy s b'.log = receivedBy s b.log ∨
        (∃ m rest, MakesRoom attr (b.queue s) rest ∧ b'.queue s = rest ++ [m] ∧
          pushedTo s b'.log = pushedTo s b.log ++ [m] ∧
          receivedBy s b'.log = receivedBy s b.log) ∨
        ∃ m rest, b.queue s = m :: rest ∧ b'.queue s = rest ∧
          pushedTo s b'.log = pushedTo s b.log ∧
          receivedBy s b'.log = receivedBy s b.log ++ [m]) := by
  have hkept : ∀ {e : Event (Msg α)}, e.pushedTo? s = none → e.receivedBy? s = none →
      pushedTo s (b.log ++ [e]) = pushedTo s b.log ∧
        receivedBy s (b.log ++ [e]) = receivedBy s b.log := by
    intro e hp hr
    rw [pushedTo_snoc, receivedBy_snoc, hp, hr]
    exact ⟨append_nil _, append_nil _⟩
  cases hs with
  | newSend | skip | drop => exact ⟨hborn, .inl ⟨rfl, rfl, rfl⟩⟩
  | start | complete => exact ⟨hborn, .inl ⟨rfl, hkept rfl rfl⟩⟩
  | @deliver f x t targets rest hx hphase htargets hroom =>
    refine ⟨hborn, ?_⟩
    by_cases ht : s = t
    · subst ht
      refine .inr (.inl ⟨x.message, rest, hroom, queue_setQueue_self _, ?_, ?_⟩)
      · show pushedTo s (b.log ++ [_]) = _
        rw [pushedTo_snoc, Event.pushedTo?, if_pos rfl]
        rfl
      · show receivedBy s (b.log ++ [_]) = _
        rw [receivedBy_snoc]
        exact append_nil _
    · exact .inl ⟨queue_setQueue_of_ne _ ht, hkept (if_neg (Ne.symm ht)) rfl⟩
  | @receive t m rest hlive hqueue =>
    refine ⟨hborn, ?_⟩
    by_cases ht : s = t
    · subst ht
      refine .inr (.inr ⟨m, rest, hqueue, queue_setQueue_self _, ?_, ?_⟩)
      · show pushedTo s (b.log ++ [_]) = _
        rw [pushedTo_snoc]
        exact append_nil _
      · show receivedBy s (b.log ++ [_]) = _
        rw [receivedBy_snoc, Event.receivedBy?, if_pos rfl]
        rfl
    · exact .inl ⟨queue_setQueue_of_ne _ ht, hkept rfl (if_neg (Ne.symm ht))⟩
  | @create t queue hlife =>
    have ht : s ≠ t := by
      rintro rfl
      exact hborn hlife
    refine ⟨?_, .inl ⟨queue_setQueue_of_ne _ ht, rfl, rfl⟩⟩
    rw [life_setLife_of_ne _ ht]
    exact hborn
  | @join t hlife =>
    refine ⟨?_, .inl ⟨rfl, hkept rfl rfl⟩⟩
    by_cases ht : s = t
    · subst ht
      exact fun hl => absurd ((life_setLife_self _).symm.trans hl) (by simp)
    · exact fun hl => hborn ((life_setLife_of_ne _ ht).symm.trans hl)
  | @clone t hlife =>
    have ht : s ≠ t := by
      rintro rfl
      exact hborn hlife
    refine ⟨?_, .inl ⟨queue_setQueue_of_ne _ ht, hkept rfl rfl⟩⟩
    exact fun hl => hborn ((life_setLife_of_ne (b := b.setQueue t []) _ ht).symm.trans hl)
  | @leave t hlife =>
    refine ⟨?_, .inl ⟨rfl, rfl, rfl⟩⟩
    by_cases ht : s = t
    · subst ht
      exact fun hl => absurd ((life_setLife_self _).symm.trans hl) (by simp)
    · exact fun hl => hborn ((life_setLife_of_ne _ ht).symm.trans hl)

/-- A new subscriber has no history. Its queue is empty if the topic is not transient local,
or if it is a clone. -/
theorem Step.born (hs : Step attr b b') (hmembers : b.Members) (h : b.life s = .unborn)
    (h' : b'.life s ≠ .unborn) :
    (attr.transientLocal = false ∨ b'.life s = .live → b'.queue s = []) ∧
      pushedTo s b'.log = [] ∧ receivedBy s b'.log = [] := by
  obtain ⟨-, hpushed, hreceived, -⟩ := hmembers.unseen s (.inl h)
  cases hs with
  | newSend | start | deliver | skip | complete | drop | receive => exact absurd h h'
  | @create t queue hlife hqueue =>
    by_cases ht : s = t
    · subst ht
      refine ⟨fun hcase => ?_, hpushed, hreceived⟩
      rcases hcase with hlocal | hlive
      · exact (queue_setQueue_self _).trans (hqueue hlocal)
      · cases (life_setLife_self _).symm.trans hlive
    · exact absurd ((life_setLife_of_ne (b := b.setQueue t queue) _ ht).trans h) h'
  | @clone t hlife =>
    by_cases ht : s = t
    · subst ht
      refine ⟨fun _ => queue_setQueue_self _, ?_, ?_⟩
      · show pushedTo s (b.log ++ [_]) = []
        rw [pushedTo_snoc, hpushed]
        rfl
      · show receivedBy s (b.log ++ [_]) = []
        rw [receivedBy_snoc, hreceived]
        rfl
    · exact absurd ((life_setLife_of_ne (b := b.setQueue t []) _ ht).trans h) h'
  | @join t hlife | @leave t hlife =>
    have ht : s ≠ t := by
      rintro rfl
      cases h.symm.trans hlife
    exact absurd ((life_setLife_of_ne _ ht).trans h) h'

theorem Fifo.step {history : List (Msg α)} (h : b.Fifo s history)
    (hflow : attr.flowControl = true) (hborn : b.life s ≠ .unborn) (hs : Step attr b b') :
    b'.Fifo s history := by
  unfold Fifo at h ⊢
  obtain ⟨-, ⟨hq, hp, hr⟩ | ⟨m, rest, hroom, hq, hp, hr⟩ | ⟨m, rest, hq, hq', hp, hr⟩⟩ :=
    hs.queue hborn
  · rw [hq, hp, hr, h]
  · obtain ⟨-, rfl⟩ | ⟨hno, -⟩ := hroom
    · rw [hq, hp, hr, ← append_assoc, h, append_assoc]
    · cases hflow.symm.trans hno
  · rw [hq] at h
    rw [hq', hp, hr, ← h, append_assoc]
    rfl

/-! ### Without flow control -/

/-- How many of the messages pushed to `s` come up to the last one that `s` has received. -/
def readUpTo (s : SubId) (log : List (Event (Msg α))) : Nat :=
  match (receivedBy s log).getLast? with
  | none => 0
  | some m => (pushedTo s log).findIdx (fun m' => m'.id = m.id) + 1

/-- **The latest messages**: the queue is a suffix of what was pushed, as long as the
messages after the last one received, or as the queue if these are more. -/
structure Latest (q : Nat) (b : Broadcast α) (s : SubId) : Prop where
  received : ∀ m ∈ receivedBy s b.log, m ∈ pushedTo s b.log
  queue : b.queue s = (pushedTo s b.log).drop ((pushedTo s b.log).length -
    min q ((pushedTo s b.log).length - readUpTo s b.log))

section

variable (h : ∀ m ∈ receivedBy s b.log, m ∈ pushedTo s b.log)

include h

theorem readUpTo_le : readUpTo s b.log ≤ (pushedTo s b.log).length := by
  unfold readUpTo
  cases hlast : (receivedBy s b.log).getLast? with
  | none => exact Nat.zero_le _
  | some m =>
    have hm := h m (mem_of_getLast? hlast)
    exact findIdx_lt_length_of_exists ⟨m, hm, by simp⟩

theorem readUpTo_push (hp : pushedTo s b'.log = pushedTo s b.log ++ [m])
    (hr : receivedBy s b'.log = receivedBy s b.log) : readUpTo s b'.log = readUpTo s b.log := by
  unfold readUpTo
  rw [hr]
  cases hlast : (receivedBy s b.log).getLast? with
  | none => rfl
  | some m' =>
    have hlt : (pushedTo s b.log).findIdx (fun k => k.id = m'.id) < (pushedTo s b.log).length :=
      findIdx_lt_length_of_exists ⟨m', h m' (mem_of_getLast? hlast), by simp⟩
    dsimp only
    rw [hp, findIdx_append, if_pos hlt]

end

/-- The messages of a list without repetition are found where they are. -/
theorem findIdx_of_nodup {messages : List (Msg α)} (h : (messages.map Msg.id).Nodup) {k : Nat}
    (hm : messages[k]? = some m) : messages.findIdx (fun m' => m'.id = m.id) = k := by
  obtain ⟨hk, rfl⟩ := List.getElem?_eq_some_iff.mp hm
  rw [findIdx_eq hk]
  refine ⟨by simp, fun j hj => ?_⟩
  have hlt : j < messages.length := hj.trans hk
  have hne : messages[j].id ≠ messages[k].id := by
    intro heq
    have hget : (messages.map Msg.id)[j]? = (messages.map Msg.id)[k]? := by
      rw [getElem?_map, getElem?_map, getElem?_eq_getElem hlt, getElem?_eq_getElem hk]
      exact congrArg some heq
    exact hj.ne ((getElem?_inj (by simpa using hlt) h).mp hget)
  simpa using hne

/-- A push at a full queue drops the oldest message. -/
theorem Latest.step (h : b.Latest attr.queueSize s) (hdistinct : b.Distinct)
    (hsize : 0 < attr.queueSize) (hborn : b.life s ≠ .unborn) (hs : Step attr b b') :
    b'.Latest attr.queueSize s := by
  have hread := readUpTo_le h.received
  obtain ⟨-, ⟨hq, hp, hr⟩ | ⟨m, rest, hroom, hq, hp, hr⟩ | ⟨m, rest, hq, hq', hp, hr⟩⟩ :=
    hs.queue hborn
  · constructor
    · rw [hp, hr]
      exact h.received
    unfold readUpTo
    rw [hq, hp, hr]
    exact h.queue
  · have hlen := congrArg length h.queue
    rw [length_drop] at hlen
    refine ⟨?_, ?_⟩
    · intro m' hm'
      rw [hr] at hm'
      rw [hp]
      exact mem_append_left _ (h.received m' hm')
    rw [readUpTo_push h.received hp hr, hq, hp, length_append, length_singleton]
    obtain ⟨hlt, rfl⟩ | ⟨-, hfull, rfl⟩ := hroom
    · -- there was room, so the queue holds all messages that have not been received
      rw [h.queue, drop_append_of_le_length (by omega)]
      congr 2
      omega
    · rw [h.queue, tail_drop, drop_append_of_le_length (by omega)]
      congr 2
      omega
  · have hk : (pushedTo s b.log)[(pushedTo s b.log).length -
        min attr.queueSize ((pushedTo s b.log).length - readUpTo s b.log)]? = some m := by
      rw [← head?_drop, ← h.queue, hq]
      rfl
    have hlt := (List.getElem?_eq_some_iff.mp hk).1
    refine ⟨?_, ?_⟩
    · intro m' hm'
      rw [hr] at hm'
      rw [hp]
      rcases mem_append.mp hm' with hm' | hm'
      · exact h.received m' hm'
      · rw [mem_singleton.mp hm']
        exact mem_of_getElem? hk
    · have hread' : readUpTo s b'.log = (pushedTo s b.log).length -
          min attr.queueSize ((pushedTo s b.log).length - readUpTo s b.log) + 1 := by
        conv_lhs => unfold readUpTo
        rw [hr, getLast?_concat, hp]
        exact congrArg (· + 1) (findIdx_of_nodup (hdistinct.pushed s) hk)
      have htail : rest = (b.queue s).tail := by rw [hq]; rfl
      rw [hq', hp, htail, h.queue, tail_drop]
      congr 1
      omega

end Queues

/-! ### All of it -/

/-- What every sequence of steps keeps. -/
structure Inv (b : Broadcast α) : Prop where
  sends : b.Sends
  members : b.Members
  delivered : ∀ s p, b.life s = .live → b.Delivered s p
  distinct : b.Distinct

theorem Inv.step {attr : Attribute} (h : b.Inv) (hs : Step attr b b') : b'.Inv where
  sends := h.sends.step hs
  members := h.members.step hs
  delivered _ _ hlive := Delivered.step (h.delivered _ _) h.sends h.members hs hlive
  distinct := h.distinct.step h.sends hs

/-- The queues of the subscribers of a topic that is not transient local. -/
structure Queues (attr : Attribute) (b : Broadcast α) : Prop where
  fifo : attr.flowControl = true → ∀ s, b.life s ≠ .unborn → b.Fifo s []
  latest : ∀ s, b.life s ≠ .unborn → b.Latest attr.queueSize s

theorem Queues.step {attr : Attribute} (h : b.Queues attr) (hinv : b.Inv)
    (hsize : 0 < attr.queueSize) (hlocal : attr.transientLocal = false) (hs : Step attr b b') :
    b'.Queues attr where
  fifo := by
    intro hflow s hborn'
    by_cases hborn : b.life s = .unborn
    · obtain ⟨hqueue, hpushed, hreceived⟩ := hs.born hinv.members hborn hborn'
      unfold Fifo
      rw [hqueue (.inl hlocal), hpushed, hreceived]
    · exact (h.fifo hflow s hborn).step hflow hborn hs
  latest := by
    intro s hborn'
    by_cases hborn : b.life s = .unborn
    · obtain ⟨hqueue, hpushed, hreceived⟩ := hs.born hinv.members hborn hborn'
      refine ⟨?_, ?_⟩
      · rw [hreceived]
        nofun
      · rw [hqueue (.inl hlocal), hpushed, drop_nil]
    · exact (h.latest s hborn).step hinv.distinct hsize hborn hs

theorem Sends.not_carries_of_completed {b : Broadcast α} (h : b.Sends) {f : SendId}
    {s : SubId} (hm : Event.completed m ∈ b.log) : ¬ b.Carries f m s := by
  rintro ⟨x, hx, rfl, hs⟩
  have hdone : x.phase = .done := h.settled _ hm f x hx rfl
  rw [h.idle f x hx (by rw [hdone]; nofun)] at hs
  cases hs

end Broadcast

end Awkernel
