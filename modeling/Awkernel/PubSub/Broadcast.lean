import Awkernel.PubSub.Topic
import Mathlib.Data.List.Infix
import Mathlib.Data.List.Nodup

/-!
# What a topic is for

A topic without its wakers, polls and locks: publishers that send one message after the
other, and subscribers that each have a queue. `Broadcast.Step` says what may happen.

* `Sends` — a publisher has one send at a time, a send carries its message to each
  subscriber once, and the log agrees with the sends.
* `Members` — a subscriber that has not joined has no history, and one that is live has
  its registration in the log.

Messages are told apart by the publisher and the send future that carry them.
-/

namespace Awkernel

open Event List Function

/-- A message, with its publisher and its send future. -/
structure Msg (α : Type) where
  publisher : Nat
  id : SendId
  payload : α

variable {α T : Type}

/-! ### Reading the log -/

namespace Event

def registers (s : SubId) : Event T → Bool
  | .registered t => t == s
  | _ => false

def started? : Event T → Option T
  | .started data => some data
  | _ => none

def pushedTo? (s : SubId) : Event T → Option T
  | .pushed t data => if t = s then some data else none
  | _ => none

def receivedBy? (s : SubId) : Event T → Option T
  | .received t data => if t = s then some data else none
  | _ => none

end Event

/-- The log from the registration of `s` on. -/
def since (s : SubId) (log : List (Event T)) : List (Event T) :=
  log.dropWhile fun e => !e.registers s

/-- The messages whose send has started. -/
def started (log : List (Event T)) : List T := log.filterMap started?

def pushedTo (s : SubId) (log : List (Event T)) : List T := log.filterMap (pushedTo? s)

def receivedBy (s : SubId) (log : List (Event T)) : List T := log.filterMap (receivedBy? s)

section Log

variable {s t : SubId} {log : List (Event T)} {e : Event T} {m : T}

@[simp] theorem started_snoc : started (log ++ [e]) = started log ++ e.started?.toList := by
  simp [started, filterMap_cons]
  cases e.started? <;> rfl

@[simp] theorem pushedTo_snoc :
    pushedTo s (log ++ [e]) = pushedTo s log ++ (e.pushedTo? s).toList := by
  simp [pushedTo, filterMap_cons]
  cases e.pushedTo? s <;> rfl

@[simp] theorem receivedBy_snoc :
    receivedBy s (log ++ [e]) = receivedBy s log ++ (e.receivedBy? s).toList := by
  simp [receivedBy, filterMap_cons]
  cases e.receivedBy? s <;> rfl

theorem since_snoc (h : since s log ≠ []) : since s (log ++ [e]) = since s log ++ [e] := by
  unfold since at h ⊢
  rw [List.dropWhile_append, if_neg (by simpa [List.isEmpty_iff] using h)]

theorem since_snoc_of_nil (h : since s log = []) :
    since s (log ++ [e]) = if e.registers s then [e] else [] := by
  unfold since at h ⊢
  rw [dropWhile_append, if_pos (by simp [h])]
  cases hr : e.registers s <;> simp [hr]

theorem mem_started : m ∈ started log ↔ Event.started m ∈ log := by
  unfold started
  rw [mem_filterMap]
  constructor
  · rintro ⟨e, he, hm⟩
    cases e <;> simp_all [started?]
  · intro h
    exact ⟨_, h, rfl⟩

theorem mem_pushedTo : m ∈ pushedTo s log ↔ pushed s m ∈ log := by
  unfold pushedTo
  rw [mem_filterMap]
  constructor
  · rintro ⟨e, he, hm⟩
    cases e <;> simp_all [pushedTo?]
  · intro h
    exact ⟨_, h, if_pos rfl⟩

theorem started_since_sublist (s : SubId) (log : List (Event T)) :
    (started (since s log)).Sublist (started log) :=
  (dropWhile_suffix _).sublist.filterMap _

end Log

/-! ### The abstract topic -/

/-- How far a send is. -/
inductive Phase
  | fresh
  | running
  | done
  deriving DecidableEq

/-- A send: the message and the subscribers it is still carried to. -/
structure Outgoing (α : Type) where
  publisher : Nat
  message : Msg α
  targets : List SubId
  phase : Phase

/-- The life of a subscriber. -/
inductive Life
  | unborn
  | created
  | live
  | gone
  deriving DecidableEq

structure Broadcast (α : Type) where
  life : SubId → Life
  queue : SubId → List (Msg α)
  numSends : Nat
  send : SendId → Option (Outgoing α)
  log : List (Event (Msg α))

namespace Broadcast

def setSend (b : Broadcast α) (f : SendId) (x : Option (Outgoing α)) : Broadcast α :=
  { b with send := update b.send f x }

def setQueue (b : Broadcast α) (s : SubId) (queue : List (Msg α)) : Broadcast α :=
  { b with queue := update b.queue s queue }

def setLife (b : Broadcast α) (s : SubId) (life : Life) : Broadcast α :=
  { b with life := update b.life s life }

def record (b : Broadcast α) (e : Event (Msg α)) : Broadcast α := { b with log := b.log ++ [e] }

/-- What is left of a queue when a message comes in: all of it if there is room, and without
flow control all but the oldest message otherwise. -/
def MakesRoom (attr : Attribute) (queue rest : List (Msg α)) : Prop :=
  queue.length < attr.queueSize ∧ rest = queue ∨
    attr.flowControl = false ∧ queue.length = attr.queueSize ∧ rest = queue.tail

/-- The steps. Each publisher sends one message after the other, and a new subscriber may
start with earlier messages if the topic is transient local. -/
inductive Step (attr : Attribute) (b : Broadcast α) : Broadcast α → Prop
  | newSend (m : Msg α) (hid : m.id = b.numSends)
      (hturn : ∀ f x, b.send f = some x → x.publisher = m.publisher → x.phase = .done) :
      Step attr b ({ b with numSends := b.numSends + 1 }.setSend b.numSends
        (some ⟨m.publisher, m, [], .fresh⟩))
  | start {f : SendId} {x : Outgoing α} {targets : List SubId} (hx : b.send f = some x)
      (hphase : x.phase = .fresh) (hnodup : targets.Nodup)
      (hlive : ∀ s, s ∈ targets ↔ b.life s = .live) :
      Step attr b ((b.setSend f (some { x with targets := targets, phase := .running })).record
        (.started x.message))
  | deliver {f : SendId} {x : Outgoing α} {s : SubId} {targets : List SubId}
      {rest : List (Msg α)} (hx : b.send f = some x) (hphase : x.phase = .running)
      (htargets : x.targets = s :: targets) (hroom : MakesRoom attr (b.queue s) rest) :
      Step attr b (((b.setQueue s (rest ++ [x.message])).setSend f
        (some { x with targets := targets })).record (.pushed s x.message))
  | skip {f : SendId} {x : Outgoing α} {s : SubId} {targets : List SubId}
      (hx : b.send f = some x) (hphase : x.phase = .running) (htargets : x.targets = s :: targets)
      (hgone : b.life s = .gone) : Step attr b (b.setSend f (some { x with targets := targets }))
  | complete {f : SendId} {x : Outgoing α} (hx : b.send f = some x)
      (hphase : x.phase = .running) (htargets : x.targets = []) :
      Step attr b ((b.setSend f (some { x with phase := .done })).record (.completed x.message))
  | drop {f : SendId} {x : Outgoing α} (hx : b.send f = some x) (hphase : x.phase = .done) :
      Step attr b (b.setSend f none)
  | receive {s : SubId} {m : Msg α} {rest : List (Msg α)} (hlive : b.life s = .live)
      (hqueue : b.queue s = m :: rest) :
      Step attr b ((b.setQueue s rest).record (.received s m))
  | create {s : SubId} {queue : List (Msg α)} (hlife : b.life s = .unborn)
      (hqueue : attr.transientLocal = false → queue = []) :
      Step attr b ((b.setQueue s queue).setLife s .created)
  | join {s : SubId} (hlife : b.life s = .created) :
      Step attr b ((b.setLife s .live).record (.registered s))
  | clone {s : SubId} (hlife : b.life s = .unborn) :
      Step attr b (((b.setQueue s []).setLife s .live).record (.registered s))
  | leave {s : SubId} (hlife : b.life s = .live) : Step attr b (b.setLife s .gone)

variable {x y : Outgoing α}

section Writes

variable {b : Broadcast α} {f g : SendId} {s t : SubId}

@[simp] theorem send_setSend_self (x : Option (Outgoing α)) : (b.setSend f x).send f = x :=
  update_self ..

theorem send_setSend_of_ne (x : Option (Outgoing α)) (h : g ≠ f) :
    (b.setSend f x).send g = b.send g := update_of_ne h ..

theorem send_setSend_cases (h : (b.setSend f (some x)).send g = some y) :
    g = f ∧ y = x ∨ g ≠ f ∧ b.send g = some y := by
  by_cases hg : g = f
  · subst hg
    rw [send_setSend_self] at h
    exact .inl ⟨rfl, (Option.some.inj h).symm⟩
  · rw [send_setSend_of_ne _ hg] at h
    exact .inr ⟨hg, h⟩

theorem send_setSend_none {y : Outgoing α} (h : (b.setSend f none).send g = some y) :
    g ≠ f ∧ b.send g = some y := by
  by_cases hg : g = f
  · subst hg
    rw [send_setSend_self] at h
    cases h
  · rw [send_setSend_of_ne _ hg] at h
    exact ⟨hg, h⟩

@[simp] theorem queue_setQueue_self (queue : List (Msg α)) : (b.setQueue s queue).queue s = queue :=
  update_self ..

theorem queue_setQueue_of_ne (queue : List (Msg α)) (h : t ≠ s) :
    (b.setQueue s queue).queue t = b.queue t := update_of_ne h ..

@[simp] theorem life_setLife_self (life : Life) : (b.setLife s life).life s = life :=
  update_self ..

theorem life_setLife_of_ne (life : Life) (h : t ≠ s) :
    (b.setLife s life).life t = b.life t := update_of_ne h ..

end Writes

/-! ### Sends -/

/-- `y` is what `x` may have become. -/
structure Later (x y : Outgoing α) : Prop where
  publisher : y.publisher = x.publisher
  message : y.message = x.message
  fresh : x.phase ≠ .fresh → y.phase ≠ .fresh
  done : x.phase = .done → y.phase = .done
  targets : x.phase ≠ .fresh → y.targets ⊆ x.targets

/-- What an event says about the send it comes from, from then on. -/
def Settles (x : Outgoing α) : Event (Msg α) → Prop
  | .started m => m.id = x.message.id → x.phase ≠ .fresh
  | .pushed s m => m.id = x.message.id → x.phase ≠ .fresh ∧ s ∉ x.targets
  | .completed m => m.id = x.message.id → x.phase = .done
  | .registered _ | .received _ _ => True

/-- The event comes from a send that exists. -/
def Known (n : Nat) : Event (Msg α) → Prop
  | .started m | .pushed _ m | .completed m => m.id < n
  | .registered _ | .received _ _ => True

theorem Settles.later {e : Event (Msg α)} (h : Settles x e) (hlater : Later x y) : Settles y e := by
  cases e with
  | registered | received => trivial
  | started m =>
    intro hm
    rw [hlater.message] at hm
    exact hlater.fresh (h hm)
  | pushed s m =>
    intro hm
    rw [hlater.message] at hm
    exact ⟨hlater.fresh (h hm).1, fun hs => (h hm).2 (hlater.targets (h hm).1 hs)⟩
  | completed m =>
    intro hm
    rw [hlater.message] at hm
    exact hlater.done (h hm)

theorem Known.mono {n k : Nat} {e : Event (Msg α)} (h : Known n e) (hle : n ≤ k) : Known k e := by
  cases e with
  | registered | received => trivial
  | started | pushed | completed => exact Nat.lt_of_lt_of_le h hle

/-- What is known about the sends at all times. -/
structure Sends (b : Broadcast α) : Prop where
  tagged : ∀ f x, b.send f = some x → x.message.id = f ∧ x.message.publisher = x.publisher
  unused : ∀ f, b.numSends ≤ f → b.send f = none
  idle : ∀ f x, b.send f = some x → x.phase ≠ .running → x.targets = []
  nodup : ∀ f x, b.send f = some x → x.targets.Nodup
  /-- A publisher has one send at a time. -/
  turn : ∀ f g x y, b.send f = some x → b.send g = some y → x.publisher = y.publisher →
    x.phase ≠ .done → y.phase ≠ .done → f = g
  known : ∀ e ∈ b.log, Known b.numSends e
  settled : ∀ e ∈ b.log, ∀ f x, b.send f = some x → Settles x e

namespace Sends

variable {b b' : Broadcast α} {attr : Attribute}

variable {f : SendId} {x : Outgoing α}

section

variable (h : b.Sends)

include h

theorem lt_numSends (hx : b.send f = some x) : f < b.numSends := by
  by_contra hge
  rw [h.unused f (not_lt.mp hge)] at hx
  cases hx

theorem setSend {y : Outgoing α} (hx : b.send f = some x) (hlater : Later x y)
    (hopen : x.phase ≠ .done) (hidle : y.phase ≠ .running → y.targets = [])
    (hnodup : y.targets.Nodup) : (b.setSend f (some y)).Sends where
  tagged := by
    intro g z hz
    obtain ⟨rfl, rfl⟩ | ⟨-, hz⟩ := send_setSend_cases hz
    · rw [hlater.message, hlater.publisher]
      exact h.tagged g x hx
    · exact h.tagged g z hz
  unused := by
    intro g hg
    have hne : g ≠ f := ne_of_gt ((h.lt_numSends hx).trans_le hg)
    rw [send_setSend_of_ne _ hne]
    exact h.unused g hg
  idle := by
    intro g z hz
    obtain ⟨rfl, rfl⟩ | ⟨-, hz⟩ := send_setSend_cases hz
    · exact hidle
    · exact h.idle g z hz
  nodup := by
    intro g z hz
    obtain ⟨rfl, rfl⟩ | ⟨-, hz⟩ := send_setSend_cases hz
    · exact hnodup
    · exact h.nodup g z hz
  turn := by
    intro g k z w hz hw hpub hzp hwp
    -- `x` is not done, so it stands for what it has become
    obtain ⟨rfl, rfl⟩ | ⟨-, hz₀⟩ := send_setSend_cases hz
    · obtain ⟨rfl, -⟩ | ⟨-, hw₀⟩ := send_setSend_cases hw
      · rfl
      · exact h.turn g k x w hx hw₀ (hlater.publisher.symm.trans hpub) hopen hwp
    · obtain ⟨rfl, rfl⟩ | ⟨-, hw₀⟩ := send_setSend_cases hw
      · exact h.turn g k z x hz₀ hx (hpub.trans hlater.publisher) hzp hopen
      · exact h.turn g k z w hz₀ hw₀ hpub hzp hwp
  known := h.known
  settled := by
    intro e he g z hz
    obtain ⟨rfl, rfl⟩ | ⟨-, hz⟩ := send_setSend_cases hz
    · exact (h.settled e he g x hx).later hlater
    · exact h.settled e he g z hz

theorem record {e : Event (Msg α)} (hknown : Known b.numSends e)
    (hsettled : ∀ f x, b.send f = some x → Settles x e) : (b.record e).Sends :=
  { h with
    known := by
      intro e' he'
      rcases mem_append.mp he' with he' | he'
      · exact h.known e' he'
      · rw [mem_singleton.mp he']
        exact hknown
    settled := by
      intro e' he'
      rcases mem_append.mp he' with he' | he'
      · exact h.settled e' he'
      · rw [mem_singleton.mp he']
        exact hsettled }

/-- What an event says about the sends, from what it says about its own. -/
theorem settles_of {m : Msg α} {P : Outgoing α → Prop} (hx : b.send f = some x)
    (hm : m.id = f) (hP : P x) :
    ∀ g y, b.send g = some y → m.id = y.message.id → P y := by
  intro g y hy hid
  have hg : g = f := by rw [← (h.tagged g y hy).1, ← hid, hm]
  subst hg
  rw [hx] at hy
  exact Option.some.inj hy ▸ hP

/-- **Every step keeps what is known about the sends.** -/
theorem step (hs : Step attr b b') : b'.Sends := by
  cases hs with
  | newSend m hid hturn =>
    refine ⟨?_, ?_, ?_, ?_, ?_, fun e he => (h.known e he).mono (Nat.le_succ _), ?_⟩
    · intro f x hx
      obtain ⟨rfl, rfl⟩ | ⟨-, hx⟩ := send_setSend_cases hx
      · exact ⟨hid, rfl⟩
      · exact h.tagged f x hx
    · intro f hf
      have hlt : b.numSends < f := hf
      rw [send_setSend_of_ne _ hlt.ne']
      exact h.unused f hlt.le
    · intro f x hx
      obtain ⟨rfl, rfl⟩ | ⟨-, hx⟩ := send_setSend_cases hx
      · exact fun _ => rfl
      · exact h.idle f x hx
    · intro f x hx
      obtain ⟨rfl, rfl⟩ | ⟨-, hx⟩ := send_setSend_cases hx
      · exact nodup_nil
      · exact h.nodup f x hx
    · intro f g x y hx hy hpub hxp hyp
      obtain ⟨rfl, rfl⟩ | ⟨-, hx⟩ := send_setSend_cases hx
      · obtain ⟨rfl, -⟩ | ⟨-, hy⟩ := send_setSend_cases hy
        · rfl
        · exact absurd (hturn g y hy hpub.symm) hyp
      · obtain ⟨rfl, rfl⟩ | ⟨-, hy⟩ := send_setSend_cases hy
        · exact absurd (hturn f x hx hpub) hxp
        · exact h.turn f g x y hx hy hpub hxp hyp
    · intro e he f x hx
      obtain ⟨rfl, rfl⟩ | ⟨-, hx⟩ := send_setSend_cases hx
      · -- no event is about a send that did not exist
        have hne : ∀ {k : Nat}, k < b.numSends → k ≠ m.id := fun hk => hid ▸ hk.ne
        have hk := h.known e he
        cases e with
        | registered | received => trivial
        | started | pushed | completed => exact fun heq => absurd heq (hne hk)
      · exact h.settled e he f x hx
  | @start f x targets hx hphase hnodup hlive =>
    have h' := h.setSend hx (y := { x with targets := targets, phase := .running })
      ⟨rfl, rfl, fun _ => nofun, fun hd => absurd (hphase.symm.trans hd) nofun,
        fun hne => absurd hphase hne⟩
      (by rw [hphase]; nofun) (fun hne => absurd rfl hne) hnodup
    have hid := (h.tagged f x hx).1
    refine h'.record (hid ▸ h.lt_numSends hx : x.message.id < b.numSends) ?_
    exact h'.settles_of (send_setSend_self _) hid nofun
  | @deliver f x s targets rest hx hphase htargets hroom =>
    have hnodup := h.nodup f x hx
    rw [htargets, nodup_cons] at hnodup
    have h' : ((b.setQueue s (rest ++ [x.message])).setSend f
        (some { x with targets := targets })).Sends :=
      setSend (b := b.setQueue s _) { h with } hx
        ⟨rfl, rfl, id, id, fun _ => htargets ▸ subset_cons_self _ _⟩
        (by rw [hphase]; nofun) (fun hne => absurd hphase hne) hnodup.2
    have hid := (h.tagged f x hx).1
    refine h'.record (hid ▸ h.lt_numSends hx : x.message.id < b.numSends) ?_
    refine h'.settles_of (P := fun y => y.phase ≠ .fresh ∧ s ∉ y.targets)
      (send_setSend_self _) hid ⟨?_, hnodup.1⟩
    show x.phase ≠ .fresh
    rw [hphase]
    nofun
  | @skip f x s targets hx hphase htargets hgone =>
    have hnodup := h.nodup f x hx
    rw [htargets, nodup_cons] at hnodup
    exact h.setSend hx ⟨rfl, rfl, id, id, fun _ => htargets ▸ subset_cons_self _ _⟩
      (by rw [hphase]; nofun) (fun hne => absurd hphase hne) hnodup.2
  | @complete f x hx hphase htargets =>
    have h' := h.setSend hx (y := { x with phase := .done })
      ⟨rfl, rfl, fun _ => nofun, fun _ => rfl, fun _ => List.Subset.refl _⟩
      (by rw [hphase]; nofun) (fun _ => htargets) (h.nodup f x hx)
    have hid := (h.tagged f x hx).1
    refine h'.record (hid ▸ h.lt_numSends hx : x.message.id < b.numSends) ?_
    exact h'.settles_of (P := fun y => y.phase = .done) (send_setSend_self _) hid rfl
  | @drop f x hx hphase =>
    have hold : ∀ {g y}, (b.setSend f none).send g = some y → b.send g = some y := fun hy =>
      (send_setSend_none hy).2
    refine ⟨fun g y hy => h.tagged g y (hold hy), ?_, fun g y hy => h.idle g y (hold hy),
      fun g y hy => h.nodup g y (hold hy),
      fun g k y z hy hz => h.turn g k y z (hold hy) (hold hz), h.known,
      fun e he g y hy => h.settled e he g y (hold hy)⟩
    intro g hg
    have hne : g ≠ f := ne_of_gt ((h.lt_numSends hx).trans_le hg)
    rw [send_setSend_of_ne _ hne]
    exact h.unused g hg
  | @receive s m rest =>
    exact record (b := b.setQueue s rest) { h with } trivial fun _ _ _ => trivial
  | create | leave => exact { h with }
  | @join s => exact record (b := b.setLife s .live) { h with } trivial fun _ _ _ => trivial
  | @clone s =>
    exact record (b := (b.setQueue s []).setLife s .live) { h with } trivial fun _ _ _ => trivial

end

end Sends

/-! ### What one step does to a subscriber -/

/-- The send `f` still carries the message `m` to `s`. -/
def Carries (b : Broadcast α) (f : SendId) (m : Msg α) (s : SubId) : Prop :=
  ∃ x, b.send f = some x ∧ x.message = m ∧ s ∈ x.targets

section Steps

variable {b b' : Broadcast α} {attr : Attribute} {f g : SendId} {s : SubId} {m : Msg α}

theorem carries_setSend (hx : b.send f = some x)
    (hmessage : y.message = x.message) (htargets : s ∈ y.targets ↔ s ∈ x.targets) :
    (b.setSend f (some y)).Carries g m s ↔ b.Carries g m s := by
  constructor
  · rintro ⟨z, hz, hm, hs⟩
    obtain ⟨rfl, rfl⟩ | ⟨-, hz⟩ := send_setSend_cases hz
    · exact ⟨x, hx, hmessage.symm.trans hm, htargets.mp hs⟩
    · exact ⟨z, hz, hm, hs⟩
  rintro ⟨z, hz, hm, hs⟩
  by_cases hg : g = f
  · subst hg
    cases hx.symm.trans hz
    exact ⟨y, send_setSend_self _, hmessage.trans hm, htargets.mpr hs⟩
  · exact ⟨z, (send_setSend_of_ne _ hg).trans hz, hm, hs⟩

/-- A message is carried to the subscribers that were live when its send started. -/
theorem Carries.of_step (h : b'.Carries g m s) (hs : Step attr b b') :
    b.Carries g m s ∨ b.life s = .live := by
  obtain ⟨y, hy, hm, hmem⟩ := h
  cases hs with
  | newSend m' hid hturn =>
    obtain ⟨-, rfl⟩ | ⟨-, hy⟩ := send_setSend_cases hy
    · cases hmem
    · exact .inl ⟨y, hy, hm, hmem⟩
  | start hx hphase hnodup hlive =>
    obtain ⟨-, rfl⟩ | ⟨-, hy⟩ := send_setSend_cases hy
    · exact .inr ((hlive s).mp hmem)
    · exact .inl ⟨y, hy, hm, hmem⟩
  | deliver hx _ htargets | skip hx _ htargets =>
    obtain ⟨rfl, rfl⟩ | ⟨-, hy⟩ := send_setSend_cases hy
    · exact .inl ⟨_, hx, hm, by rw [htargets]; exact .tail _ hmem⟩
    · exact .inl ⟨y, hy, hm, hmem⟩
  | complete hx hphase htargets =>
    obtain ⟨rfl, rfl⟩ | ⟨-, hy⟩ := send_setSend_cases hy
    · exact .inl ⟨_, hx, hm, hmem⟩
    · exact .inl ⟨y, hy, hm, hmem⟩
  | drop hx hphase => exact .inl ⟨y, (send_setSend_none hy).2, hm, hmem⟩
  | receive | create | join | clone | leave => exact .inl ⟨y, hy, hm, hmem⟩

/-- What an event tells about the states around it. -/
def Explains (b b' : Broadcast α) : Event (Msg α) → Prop
  | .registered s => b'.life s = .live
  | .started m => ∃ f x, b.send f = some x ∧ x.phase = .fresh ∧ x.message = m
  | .pushed s m => ∃ f, b.Carries f m s
  | .received s _ => b.life s = .live
  | .completed _ => True

theorem Step.log (hs : Step attr b b') :
    b'.log = b.log ∨ ∃ e, b'.log = b.log ++ [e] ∧ Explains b b' e := by
  cases hs with
  | newSend | skip | drop | create | leave => exact .inl rfl
  | start hx hphase => exact .inr ⟨_, rfl, _, _, hx, hphase, rfl⟩
  | deliver hx hphase htargets =>
    exact .inr ⟨_, rfl, _, _, hx, rfl, by rw [htargets]; exact .head _⟩
  | complete => exact .inr ⟨_, rfl, trivial⟩
  | receive hlive => exact .inr ⟨_, rfl, hlive⟩
  | join | clone => exact .inr ⟨_, rfl, life_setLife_self _⟩

theorem life_of_setLife {t : SubId} {l : Life} (hl : l = .live ∨ l = .gone)
    (h : (b.setLife t l).life s = .unborn ∨ (b.setLife t l).life s = .created) :
    b.life s = .unborn ∨ b.life s = .created := by
  by_cases ht : s = t
  · subst ht
    rcases hl with rfl | rfl <;> simp at h
  · rwa [life_setLife_of_ne _ ht] at h

theorem Step.life (hs : Step attr b b') (h : b'.life s = .unborn ∨ b'.life s = .created) :
    b.life s = .unborn ∨ b.life s = .created := by
  cases hs with
  | newSend | start | deliver | skip | complete | drop | receive => exact h
  | @create t queue hlife =>
    by_cases ht : s = t
    · subst ht
      exact .inl hlife
    · rwa [life_setLife_of_ne _ ht] at h
  | join => exact life_of_setLife (.inl rfl) h
  | @clone t => exact life_of_setLife (b := b.setQueue t []) (.inl rfl) h
  | leave => exact life_of_setLife (.inr rfl) h

theorem Step.joins (hs : Step attr b b') (h : b'.life s = .live) :
    b.life s = .live ∨ (b.life s = .unborn ∨ b.life s = .created) ∧
      b'.log = b.log ++ [.registered s] ∧ b'.send = b.send := by
  cases hs with
  | newSend | start | deliver | skip | complete | drop | receive => exact .inl h
  | @create t queue hlife =>
    by_cases ht : s = t
    · subst ht
      rw [life_setLife_self] at h
      cases h
    · exact .inl ((life_setLife_of_ne (b := b.setQueue t queue) _ ht).symm.trans h)
  | @join t hlife =>
    by_cases ht : s = t
    · subst ht
      exact .inr ⟨.inr hlife, rfl, rfl⟩
    · exact .inl ((life_setLife_of_ne _ ht).symm.trans h)
  | @clone t hlife =>
    by_cases ht : s = t
    · subst ht
      exact .inr ⟨.inl hlife, rfl, rfl⟩
    · exact .inl ((life_setLife_of_ne (b := b.setQueue t []) _ ht).symm.trans h)
  | @leave t hlife =>
    by_cases ht : s = t
    · subst ht
      exact .inl hlife
    · exact .inl ((life_setLife_of_ne _ ht).symm.trans h)

end Steps

/-- The subscribers that have not joined have no history. -/
structure Members (b : Broadcast α) : Prop where
  unseen : ∀ s, b.life s = .unborn ∨ b.life s = .created →
    since s b.log = [] ∧ pushedTo s b.log = [] ∧ receivedBy s b.log = [] ∧ ∀ f m, ¬ b.Carries f m s
  joined : ∀ s, b.life s = .live → since s b.log ≠ []

/-- A history begins with the registration. -/
theorem Members.step {b b' : Broadcast α} {attr : Attribute} (h : b.Members)
    (hs : Step attr b b') : b'.Members where
  unseen := by
    intro s hearly
    obtain ⟨hsince, hpushed, hreceived, hcarries⟩ := h.unseen s (hs.life hearly)
    have hnot : b.life s ≠ .live := by
      rcases hs.life hearly with hl | hl <;> rw [hl] <;> nofun
    have hcarries' : ∀ f m, ¬ b'.Carries f m s := fun f m hc =>
      (hc.of_step hs).elim (hcarries f m) hnot
    obtain hlog | ⟨e, hlog, he⟩ := hs.log
    · rw [hlog]
      exact ⟨hsince, hpushed, hreceived, hcarries'⟩
    -- no event is about a subscriber that has not joined
    rw [hlog, since_snoc_of_nil hsince, pushedTo_snoc, receivedBy_snoc, hpushed, hreceived]
    refine ⟨?_, ?_, ?_, hcarries'⟩
    · refine if_neg ?_
      cases e with
      | registered t =>
        intro ht
        obtain rfl : t = s := by simpa [registers] using ht
        rcases hearly with hl | hl <;> exact absurd (he.symm.trans hl) nofun
      | started | pushed | received | completed => exact Bool.false_ne_true
    · cases e with
      | pushed t m =>
        obtain ⟨f, hf⟩ := he
        have hne : t ≠ s := by
          rintro rfl
          exact hcarries f m hf
        simp [pushedTo?, hne]
      | registered | started | received | completed => rfl
    · cases e with
      | received t m =>
        have hne : t ≠ s := by
          rintro rfl
          exact hnot he
        simp [receivedBy?, hne]
      | registered | started | pushed | completed => rfl
  joined := by
    intro s hlive
    -- the log only grows, and a subscriber that has just joined is in it
    obtain hold | ⟨hearly, hlog, -⟩ := hs.joins hlive
    · obtain hlog | ⟨e, hlog, -⟩ := hs.log
      · rw [hlog]
        exact h.joined s hold
      · rw [hlog, since_snoc (h.joined s hold)]
        simp
    · rw [hlog, since_snoc_of_nil (h.unseen s hearly).1, if_pos (by simp [registers])]
      simp

end Broadcast

end Awkernel
