import Awkernel.Lib.Fifo
import Awkernel.Channel.Bounded
import Mathlib.Data.List.Nodup

/-!
# The bounded channel is a first-in-first-out queue

With flow control and messages that do not expire, a bounded channel refines `Fifo`: every step
accepts one value, receives the oldest pending one or leaves the queue as it is (`refines_step`).
What was received followed by what is in the queue is thus what was accepted, at every moment
and in every interleaving of the two ends, whichever of them is dropped first
(`bounded_fifo`).

The invariant `Inv` carries what the refinement rests on. `ids` follows a call of `send`: its
value is accepted once, before the call returns `Ok`. `closed` says that a receiver sees
`ChannelClosed` only when the sender is gone and with it everything that could still send. A
receiver is parked only at an empty queue of a channel that is not terminated (`parked`).
-/

namespace Awkernel

open TransitionSystem List Prod

namespace Bounded.State

variable {T : Type}

/-- The queue of the channel and the records, as an abstract queue. -/
structure Refines (σ : State T) (q : Fifo T) : Prop where
  accepted : q.accepted = σ.accepted.map snd
  received : q.received = σ.received
  pending : q.pending = σ.chan.items.map ChannelData.data

/-- The calls that sent the accepted values. -/
def acceptedIds (σ : State T) : List Nat := σ.accepted.map fst

/-- The calls of `send` that are under way, and their values. -/
structure Ids (σ : State T) : Prop where
  started : ∀ {f x}, σ.send f = some x → f < σ.numSends
  nodup : σ.acceptedIds.Nodup
  lt : ∀ f ∈ σ.acceptedIds, f < σ.numSends
  sending : ∀ {f x}, σ.send f = some x → x.phase = .sending → f ∉ σ.acceptedIds
  yielding : ∀ {f x}, σ.send f = some x → x.phase = .yielding → f ∈ σ.acceptedIds
  returned : ∀ f ∈ σ.returned, f ∈ σ.acceptedIds

/-- What the two ends see of each other. -/
structure Ends (σ : State T) : Prop where
  terminated : σ.chan.terminated = true ↔ σ.sender = false ∨ σ.receiver = false
  noSend : σ.sender = false → ∀ f, σ.send f = none
  closed : σ.sawClosed = true → σ.sender = false ∧ σ.chan.items = []
  parked : σ.chan.wakerReceiver.isSome = true → σ.chan.items = [] ∧ σ.chan.terminated = false

theorem send_of_update {send : Nat → Option (SendFuture T)} {f g : Nat}
    {fut : Option (SendFuture T)} {x : SendFuture T}
    (h : Function.update send f fut g = some x) :
    g = f ∧ fut = some x ∨ g ≠ f ∧ send g = some x := by
  by_cases hgf : g = f
  · rw [hgf, Function.update_self] at h
    exact .inl ⟨hgf, h⟩
  · rw [Function.update_of_ne hgf] at h
    exact .inr ⟨hgf, h⟩

theorem Ids.change {σ σ' : State T} (hids : σ.Ids) (new : List Nat)
    (hnum : σ.numSends ≤ σ'.numSends) (hacc : σ'.acceptedIds = σ.acceptedIds ++ new)
    (hnew : new.Nodup ∧ ∀ f ∈ new, f ∉ σ.acceptedIds ∧ f < σ'.numSends)
    (hsend : ∀ {g x}, σ'.send g = some x → σ.send g = some x ∧ g ∉ new ∨ g < σ'.numSends ∧
      (x.phase = .sending ∧ g ∉ σ'.acceptedIds ∨ x.phase = .yielding ∧ g ∈ σ'.acceptedIds))
    (hret : ∀ g ∈ σ'.returned, g ∈ σ.returned ∨ g ∈ σ'.acceptedIds) : σ'.Ids := by
  have hmem : ∀ {g}, g ∈ σ.acceptedIds → g ∈ σ'.acceptedIds := fun hg => by
    rw [hacc]
    exact mem_append_left _ hg
  refine ⟨fun hg => ?_, ?_, fun g hg => ?_, fun hg hp => ?_, fun hg hp => ?_, fun g hg => ?_⟩
  · rcases hsend hg with ⟨hg, -⟩ | ⟨hlt, -⟩
    · exact (hids.started hg).trans_le hnum
    · exact hlt
  · rw [hacc, nodup_append]
    refine ⟨hids.nodup, hnew.1, fun g hg g' hg' heq => (hnew.2 g' hg').1 ?_⟩
    rw [← heq]
    exact hg
  · rw [hacc] at hg
    rcases mem_append.mp hg with hg | hg
    · exact (hids.lt g hg).trans_le hnum
    · exact (hnew.2 g hg).2
  · rcases hsend hg with ⟨hg, hnot⟩ | ⟨-, ⟨-, hnot⟩ | ⟨hyield, -⟩⟩
    · rw [hacc]
      exact fun hmem => (mem_append.mp hmem).elim (hids.sending hg hp) hnot
    · exact hnot
    · cases hyield.symm.trans hp
  · rcases hsend hg with ⟨hg, -⟩ | ⟨-, ⟨hsending, -⟩ | ⟨-, hin⟩⟩
    · exact hmem (hids.yielding hg hp)
    · cases hsending.symm.trans hp
    · exact hin
  · exact (hret g hg).elim (fun hg => hmem (hids.returned g hg)) fun hg => hg

/-- A step that accepts nothing. -/
theorem Ids.keep {σ σ' : State T} (hids : σ.Ids) (hnum : σ.numSends ≤ σ'.numSends)
    (hacc : σ'.acceptedIds = σ.acceptedIds)
    (hsend : ∀ {g x}, σ'.send g = some x → σ.send g = some x ∨ g < σ'.numSends ∧
      x.phase = .sending ∧ g ∉ σ'.acceptedIds)
    (hret : ∀ g ∈ σ'.returned, g ∈ σ.returned ∨ g ∈ σ'.acceptedIds) : σ'.Ids := by
  refine hids.change [] hnum (hacc.trans (append_nil _).symm)
    ⟨nodup_nil, forall_mem_nil _⟩ (fun hg => ?_) hret
  exact (hsend hg).imp (fun hg => ⟨hg, not_mem_nil⟩) fun hg => ⟨hg.1, .inl hg.2⟩

section

variable {σ σ' : State T} {a : Action T} (hsize : 0 < σ.chan.size)
  (hflow : σ.chan.attr.flowControl = true) (hperm : σ.chan.attr.lifespan = .permanent)

include hsize hflow hperm

/-- **Each step is a step of the queue.** -/
theorem refines_step {q : Fifo T} (hq : σ.Refines q) (h : σ.step a = some σ') :
    ∃ q', q.Step q' ∧ σ'.Refines q' := by
  have hunexp : σ.chan.unexpired σ.now = σ.chan.items := Channel.unexpired_of_permanent hperm _
  have hstay : ∀ {σ' : State T}, σ'.accepted = σ.accepted → σ'.received = σ.received →
      σ'.chan.items = σ.chan.items → ∃ q', q.Step q' ∧ σ'.Refines q' := by
    intro σ' hacc hrec hitems
    refine ⟨q, .stay, ?_, ?_, ?_⟩
    · rw [hacc, hq.accepted]
    · rw [hrec, hq.received]
    · rw [hitems, hq.pending]
  have hpush : ∀ {σ' : State T} {f : Nat} {d : ChannelData T},
      σ'.accepted = σ.accepted ++ [(f, d.data)] → σ'.received = σ.received →
      σ'.chan.items = σ.chan.items ++ [d] → ∃ q', q.Step q' ∧ σ'.Refines q' := by
    intro σ' f d hacc hrec hitems
    refine ⟨q.push d.data, .push d.data, ?_, ?_, ?_⟩
    · rw [hacc, map_append, ← hq.accepted]
      rfl
    · exact hq.received.trans hrec.symm
    · rw [hitems, map_append, ← hq.pending]
      rfl
  have hpop : ∀ {σ' : State T} {d : ChannelData T}, σ'.accepted = σ.accepted →
      σ'.received = σ.received ++ [d.data] → σ.chan.items = d :: σ'.chan.items →
      ∃ q', q.Step q' ∧ σ'.Refines q' := by
    intro σ' d hacc hrec hitems
    have hpending : q.pending = d.data :: σ'.chan.items.map ChannelData.data := by
      rw [hq.pending, hitems]
      rfl
    refine ⟨q.pop hpending, .pop hpending, ?_, ?_, rfl⟩
    · exact hq.accepted.trans (by rw [hacc])
    · rw [hrec, ← hq.received]
      rfl
  cases step_cases hsize hflow h with
  | advance hσ' | newSend _ hσ' | dropSend _ hσ' | yielded _ _ hσ' | dropSender _ _ hσ'
  | dropReceiver _ hσ' =>
    subst hσ'
    exact hstay rfl rfl rfl
  | @pollSend f waker x chan woken result _ _ hcase _ hσ' =>
    subst hσ'
    cases hcase with
    | closed _ heq => exact hstay rfl rfl (by rw [afterPollSend_chan, heq])
    | parked hfull _ => exact hstay rfl rfl (hfull.items.trans hunexp)
    | @pushed woken needYield hpushed =>
      have hitems := hpushed.items
      rw [hunexp] at hitems
      cases needYield with
      | true | false => exact hpush rfl rfl hitems
  | trySend _ hcase _ hσ' =>
    subst hσ'
    cases hcase with
    | closed _ heq => exact hstay rfl rfl (by rw [afterTrySend_chan, heq])
    | full hfull _ => exact hstay rfl rfl (hfull.items.trans hunexp)
    | pushed hpushed =>
      have hitems := hpushed.items
      rw [hunexp] at hitems
      exact hpush rfl rfl hitems
  | recvPending _ hcase _ hσ' =>
    subst hσ'
    cases hcase with
    | parked hnil hitems => exact hstay rfl rfl (hitems.trans (hnil.symm.trans hunexp))
  | recvReady _ hcase _ hσ' =>
    subst hσ'
    cases hcase with
    | received hcons => exact hpop rfl rfl (hunexp.symm.trans hcons)
    | closed hnil hitems => exact hstay rfl rfl (hitems.trans (hnil.symm.trans hunexp))
  | tryRecv _ hcase _ _ _ hσ' =>
    subst hσ'
    cases hcase with
    | received hcons => exact hpop rfl rfl (hunexp.symm.trans hcons)
    | closed hnil hitems | noData hnil hitems =>
      exact hstay rfl rfl (hitems.trans (hnil.symm.trans hunexp))

omit hperm in
/-- A call is accepted once, when its message is pushed. -/
theorem Ids.step (hids : σ.Ids) (h : σ.step a = some σ') : σ'.Ids := by
  have hkeep : ∀ {σ' : State T}, σ'.send = σ.send → σ'.numSends = σ.numSends →
      σ'.accepted = σ.accepted → σ'.returned = σ.returned → σ'.Ids := by
    intro σ' hsend hnum hacc hret
    refine hids.keep hnum.ge (by rw [acceptedIds, hacc, acceptedIds])
      (fun hg => .inl (by rw [← hsend]; exact hg)) fun g hg => ?_
    rw [hret] at hg
    exact .inl hg
  have hdrop {f g : Nat} {x : SendFuture T}
      (hg : Function.update σ.send f none g = some x) : σ.send g = some x :=
    ((send_of_update hg).resolve_left (by simp)).2
  cases step_cases hsize hflow h with
  | advance hσ' | recvPending _ _ _ hσ' | dropSender _ _ hσ' | dropReceiver _ hσ' =>
    subst hσ'
    exact hkeep rfl rfl rfl rfl
  | @recvReady _ _ _ result _ _ _ hσ' | @tryRecv _ result _ _ _ _ _ hσ' =>
    subst hσ'
    rcases result with (_ | _) | _ <;> exact hkeep rfl rfl rfl rfl
  | dropSend _ hσ' =>
    subst hσ'
    exact hids.keep le_rfl rfl (fun hg => .inl (hdrop hg)) fun g hg => .inl hg
  | yielded hx hphase hσ' =>
    subst hσ'
    refine hids.keep le_rfl rfl (fun hg => .inl (hdrop hg)) fun g hg => ?_
    rcases mem_append.mp hg with hg | hg
    · exact .inl hg
    · rw [mem_singleton.mp hg]
      exact .inr (hids.yielding hx hphase)
  | newSend _ hσ' =>
    subst hσ'
    refine hids.keep (Nat.le_succ _) rfl (fun hg => ?_) fun g hg => .inl hg
    rcases send_of_update hg with ⟨rfl, hx⟩ | ⟨-, hg⟩
    · refine .inr ⟨Nat.lt_succ_self _, by rw [← Option.some.inj hx], fun hmem => ?_⟩
      exact lt_irrefl _ (hids.lt _ hmem)
    · exact .inl hg
  | @trySend timeStamp data chan woken result _ _ _ hσ' =>
    subst hσ'
    cases result with
    | error err =>
      exact hids.keep (Nat.le_succ _) rfl .inl fun g hg => .inl hg
    | ok _ =>
      refine hids.change [σ.numSends] (Nat.le_succ _) map_append
        ⟨nodup_singleton _, fun g hg => ?_⟩ (fun {g x} hg => .inl ⟨hg, fun hmem => ?_⟩)
        fun g hg => ?_
      · rw [mem_singleton.mp hg]
        exact ⟨fun hmem => lt_irrefl _ (hids.lt _ hmem), Nat.lt_succ_self _⟩
      · exact (hids.started hg).ne (mem_singleton.mp hmem)
      · refine (mem_append.mp hg).imp_right fun hg => ?_
        exact mem_map.mpr ⟨(σ.numSends, data), mem_append_right _ mem_cons_self,
          (mem_singleton.mp hg).symm⟩
  | @pollSend f waker x chan woken result hx hphase hcase hframe hσ' =>
    subst hσ'
    cases hcase with
    | closed =>
      exact hids.keep le_rfl rfl (fun hg => .inl (hdrop hg)) fun g hg => .inl hg
    | parked => exact hkeep rfl rfl rfl rfl
    | @pushed woken needYield hpushed =>
      have hself : f ∈ (σ.accepted ++ [(f, x.data.data)]).map fst :=
        mem_map.mpr ⟨(f, x.data.data), mem_append_right _ mem_cons_self, rfl⟩
      have hnew : [f].Nodup ∧ ∀ g ∈ [f], g ∉ σ.acceptedIds ∧ g < σ.numSends := by
        refine ⟨nodup_singleton f, fun g hg => ?_⟩
        rw [mem_singleton.mp hg]
        exact ⟨hids.sending hx hphase, hids.started hx⟩
      cases needYield with
      | true =>
        refine hids.change [f] le_rfl map_append hnew (fun hg => ?_) fun g hg => .inl hg
        rcases send_of_update hg with ⟨rfl, hy⟩ | ⟨hne, hg⟩
        · exact .inr ⟨hids.started hx, .inr ⟨by rw [← Option.some.inj hy], hself⟩⟩
        · exact .inl ⟨hg, fun hmem => hne (mem_singleton.mp hmem)⟩
      | false =>
        refine hids.change [f] le_rfl map_append hnew (fun hg => ?_) fun g hg => ?_
        · rcases send_of_update hg with ⟨-, hy⟩ | ⟨hne, hg⟩
          · cases hy
          · exact .inl ⟨hg, fun hmem => hne (mem_singleton.mp hmem)⟩
        · refine (mem_append.mp hg).imp_right fun hg => ?_
          rw [mem_singleton.mp hg]
          exact hself

/-- Either end may be dropped at any time. -/
theorem Ends.step (hends : σ.Ends) (hids : σ.Ids) (h : σ.step a = some σ') : σ'.Ends := by
  have hunexp : σ.chan.unexpired σ.now = σ.chan.items := Channel.unexpired_of_permanent hperm _
  -- a call of `send` that is under way says that the sender is there
  have hsender : ∀ {f x}, σ.send f = some x → σ.sender = true := by
    intro f x hx
    cases hs : σ.sender with
    | true => rfl
    | false => cases hx.symm.trans (hends.noSend hs f)
  -- a step of the sender: the receiver has seen nothing
  have hsend : ∀ {σ' : State T}, σ.sender = true → σ'.sender = σ.sender →
      σ'.receiver = σ.receiver → σ.chan.Frame σ'.chan → σ'.sawClosed = σ.sawClosed →
      (σ'.chan.wakerReceiver.isSome = true → σ'.chan.items = [] ∧ σ.chan.terminated = false) →
      σ'.Ends := by
    intro σ' hthere hs hr hframe hsaw hparked
    rw [← hframe.terminated] at hparked
    refine ⟨?_, fun hgone => ?_, fun hsaw' => ?_, hparked⟩
    · rw [hframe.terminated, hs, hr]
      exact hends.terminated
    · cases hthere.symm.trans (hs.symm.trans hgone)
    · rw [hsaw] at hsaw'
      cases hthere.symm.trans (hends.closed hsaw').1
  -- what a section of the sender leaves of the receiver
  have hout : ∀ {chan : Channel T},
      chan = σ.chan ∨ Channel.Full σ.now σ.chan chan ∨ chan.wakerReceiver = none →
      chan.wakerReceiver.isSome = true → chan.items = [] ∧ σ.chan.terminated = false := by
    rintro chan (rfl | hfull | hnone) hsome
    · exact hends.parked hsome
    · rw [hfull.wakerReceiver] at hsome
      have hlen := hfull.full
      rw [hunexp, (hends.parked hsome).1] at hlen
      exact absurd hlen hsize.ne
    · rw [hnone] at hsome
      cases hsome
  -- a step of the receiver that takes no message
  have hrecv : ∀ {σ' : State T}, σ'.sender = σ.sender → σ'.receiver = σ.receiver →
      σ'.send = σ.send → σ.chan.Frame σ'.chan → σ'.chan.items = [] →
      (σ'.sawClosed = true → σ.sawClosed = true ∨ σ.chan.terminated = true ∧ σ.receiver = true) →
      (σ'.chan.wakerReceiver.isSome = true → σ.chan.terminated = false) → σ'.Ends := by
    intro σ' hs hr hsend hframe hitems hsaw hterm
    refine ⟨?_, fun hgone => ?_, fun hsaw' => ⟨?_, hitems⟩, fun hsome => ⟨hitems, ?_⟩⟩
    · rw [hframe.terminated, hs, hr]
      exact hends.terminated
    · rw [hsend]
      exact hends.noSend (hs.symm.trans hgone)
    · rw [hs]
      rcases hsaw hsaw' with hold | ⟨hterm', hthere⟩
      · exact (hends.closed hold).1
      · refine (hends.terminated.mp hterm').resolve_right fun hgone => ?_
        cases hthere.symm.trans hgone
    · rw [hframe.terminated]
      exact hterm hsome
  -- a step of the receiver that takes one
  have hpop : ∀ {σ' : State T} {d : ChannelData T}, σ'.sender = σ.sender →
      σ'.receiver = σ.receiver → σ'.send = σ.send → σ.chan.Frame σ'.chan →
      σ.chan.items = d :: σ'.chan.items → σ'.sawClosed = σ.sawClosed →
      σ'.chan.wakerReceiver = σ.chan.wakerReceiver → σ'.Ends := by
    intro σ' d hs hr hsend hframe hitems hsaw hwr
    have hne : σ.chan.items ≠ [] := by
      rw [hitems]
      exact cons_ne_nil _ _
    refine ⟨?_, fun hgone => ?_, fun hsaw' => ?_, fun hsome => ?_⟩
    · rw [hframe.terminated, hs, hr]
      exact hends.terminated
    · rw [hsend]
      exact hends.noSend (hs.symm.trans hgone)
    · exact absurd (hends.closed (hsaw.symm.trans hsaw')).2 hne
    · rw [hwr] at hsome
      exact absurd (hends.parked hsome).1 hne
  have hparked : σ.chan.wakerReceiver.isSome = true → σ.chan.terminated = false :=
    fun hsome => (hends.parked hsome).2
  cases step_cases hsize hflow h with
  | advance hσ' =>
    subst hσ'
    exact ⟨hends.terminated, hends.noSend, hends.closed, hends.parked⟩
  | newSend hthere hσ' =>
    subst hσ'
    exact hsend hthere rfl rfl ⟨rfl, rfl, rfl⟩ rfl hends.parked
  | yielded hx _ hσ' | dropSend hx hσ' =>
    subst hσ'
    exact hsend (hsender hx) rfl rfl ⟨rfl, rfl, rfl⟩ rfl hends.parked
  | @pollSend f waker x chan woken result hx hphase hcase hframe hσ' =>
    subst hσ'
    cases hcase with
    | closed hterm heq => exact hsend (hsender hx) rfl rfl hframe rfl (hout (.inl heq))
    | parked hfull => exact hsend (hsender hx) rfl rfl hframe rfl (hout (.inr (.inl hfull)))
    | @pushed woken needYield hpushed =>
      have hnone := hout (.inr (.inr hpushed.wakerReceiver))
      cases needYield <;> exact hsend (hsender hx) rfl rfl hframe rfl hnone
  | trySend hthere hcase hframe hσ' =>
    subst hσ'
    cases hcase with
    | closed hterm heq => exact hsend hthere rfl rfl hframe rfl (hout (.inl heq))
    | full hfull => exact hsend hthere rfl rfl hframe rfl (hout (.inr (.inl hfull)))
    | pushed hpushed =>
      exact hsend hthere rfl rfl hframe rfl (hout (.inr (.inr hpushed.wakerReceiver)))
  | recvPending hthere hcase hframe hσ' =>
    subst hσ'
    cases hcase with
    | parked _ hitems hterm =>
      exact hrecv rfl rfl rfl hframe hitems (fun hsaw => .inl hsaw) fun _ => hterm
  | recvReady hthere hcase hframe hσ' =>
    subst hσ'
    cases hcase with
    | received hcons hwr =>
      exact hpop rfl rfl rfl hframe (hunexp.symm.trans hcons) rfl hwr
    | closed _ hitems hterm hwr =>
      refine hrecv rfl rfl rfl hframe hitems (fun _ => .inr ⟨hterm, hthere⟩) fun hsome => ?_
      exact hparked (hwr ▸ hsome)
  | tryRecv hthere hcase hframe hwr _ hσ' =>
    subst hσ'
    cases hcase with
    | received hcons => exact hpop rfl rfl rfl hframe (hunexp.symm.trans hcons) rfl hwr
    | closed _ hitems hterm =>
      refine hrecv rfl rfl rfl hframe hitems (fun _ => .inr ⟨hterm, hthere⟩) fun hsome => ?_
      exact hparked (hwr ▸ hsome)
    | noData _ hitems _ =>
      refine hrecv rfl rfl rfl hframe hitems (fun hsaw => .inl hsaw) fun hsome => ?_
      exact hparked (hwr ▸ hsome)
  | dropSender hthere hnone hσ' =>
    subst hσ'
    refine ⟨iff_of_true rfl (.inl rfl), fun _ f => ?_, fun hsaw => ?_, nofun⟩
    · cases hx : σ.send f with
      | none => rfl
      | some x => cases (hnone f (hids.started hx)).symm.trans hx
    · cases hthere.symm.trans (hends.closed hsaw).1
  | dropReceiver _ hσ' =>
    subst hσ'
    exact ⟨iff_of_true rfl (.inr rfl), hends.noSend, hends.closed, nofun⟩

end

/-- **The bounded channel refines a first-in-first-out queue.** In every state of every run with
flow control and messages that do not expire:

* the values received followed by those in the queue are the values accepted, in order;
* no call has a value accepted twice, and a call that returned `Ok` had its value accepted;
* a receive has reported `ChannelClosed` only if the sender is dropped and everything accepted
  was received;
* a receiver is registered only while the queue is empty and the channel not terminated. -/
theorem bounded_fifo {attr : Attribute} (hsize : 0 < attr.queueSize)
    (hflow : attr.flowControl = true) (hperm : attr.lifespan = .permanent) {σ : State T}
    (h : Reaches step (fun _ _ => True) (init attr) σ) :
    σ.received ++ σ.chan.items.map ChannelData.data = σ.accepted.map snd ∧
      (σ.accepted.map fst).Nodup ∧ (∀ f ∈ σ.returned, f ∈ σ.accepted.map fst) ∧
      (σ.sawClosed = true → σ.sender = false ∧ σ.received = σ.accepted.map snd) ∧
      (σ.chan.wakerReceiver.isSome = true → σ.chan.items = [] ∧ σ.chan.terminated = false) := by
  have hinv : (σ.chan.size = attr.queueSize ∧ σ.chan.attr = attr) ∧ σ.Ids ∧ σ.Ends ∧
      ∃ q, σ.Refines q := by
    refine h.invariant (I := fun σ => (σ.chan.size = attr.queueSize ∧ σ.chan.attr = attr) ∧
      σ.Ids ∧ σ.Ends ∧ ∃ q, σ.Refines q) ?_ ?_
    · refine ⟨⟨RingQ.queueSize_new _, rfl⟩, ⟨nofun, nodup_nil, nofun, nofun, nofun, nofun⟩,
        ⟨iff_of_false nofun nofun, nofun, nofun, nofun⟩, .empty, rfl, rfl, rfl⟩
    rintro σ a σ' ⟨⟨hσsize, hattr⟩, hids, hends, q, hq⟩ - hstep
    have hpos : 0 < σ.chan.size := by
      rw [hσsize]
      exact hsize
    obtain ⟨hsame, hattr'⟩ := step_attr hpos (by rw [hattr]; exact hflow) hstep
    obtain ⟨q', -, hq'⟩ := refines_step hpos (by rw [hattr]; exact hflow)
      (by rw [hattr]; exact hperm) hq hstep
    exact ⟨⟨hsame.trans hσsize, hattr'.trans hattr⟩,
      hids.step hpos (by rw [hattr]; exact hflow) hstep,
      hends.step hpos (by rw [hattr]; exact hflow) (by rw [hattr]; exact hperm) hids hstep,
      q', hq'⟩
  obtain ⟨-, hids, hends, q, hq⟩ := hinv
  have hexact : σ.received ++ σ.chan.items.map ChannelData.data = σ.accepted.map snd := by
    rw [← hq.received, ← hq.pending, ← hq.accepted]
    exact q.exact
  refine ⟨hexact, hids.nodup, hids.returned, fun hsaw => ⟨(hends.closed hsaw).1, ?_⟩, hends.parked⟩
  rw [← hexact, (hends.closed hsaw).2, map_nil, append_nil]

/-- Two values are sent, one by a call that waits; the sender is dropped, and the receiver sees
the end of the channel after it has received both. -/
theorem bounded_fifo_closed : ∃ σ : State Nat,
    Reaches step (fun _ _ => True) (init ⟨1, true, .permanent⟩) σ ∧ σ.sawClosed = true ∧
      σ.received = [10, 11] ∧ σ.received = σ.accepted.map snd := by
  refine Reaches.exists_of_run_imp
    [.trySend 0 10, .newSend 11, .pollSend 1 7, .pollRecv 9, .pollSend 1 7, .pollSend 1 7,
      .dropSender, .tryRecv, .pollRecv 9]
    (fun σ => σ.sawClosed = true ∧ σ.received = [10, 11]) (by decide) ?_
  rintro σ hreach ⟨hsaw, hreceived⟩
  exact ⟨hsaw, hreceived, ((bounded_fifo (by decide) rfl rfl hreach).2.2.2.1 hsaw).2⟩

end Bounded.State

end Awkernel
