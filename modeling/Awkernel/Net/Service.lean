import Awkernel.Lib.TransitionSystem
import Mathlib.Data.Finset.Basic

/-!
# Handlers of the network service

The network service (`applications/awkernel_services/src/network_service.rs`) runs a task for every
irq of an interface, one that polls it if it is in poll mode and one for its ticks, and keeps a
session channel to each in three maps: by irq, and by interface for the other two. A message
`("up", id)` spawns the tasks of an interface, `("down", id)` closes them. The loop at the start
of the service does for every interface what `("up", id)` does.

A `Chan` that is dropped before it was closed panics (`awkernel_async_lib/src/session_types.rs`),
and `BTreeMap::insert` drops the channel that it replaces. A message `up` for an interface that is
up therefore panics (`channel_dropped`), and so do two interfaces with a common irq. A message
`down` does not close the handler for the ticks (`tick_left`). The handlers are right in all states
of a run exactly if this does not happen (`handlers_right_iff`).
-/

namespace Awkernel

open TransitionSystem List Function
open Option hiding mem_map or_assoc

namespace NetworkService

abbrev InterfaceId := UInt64

/-- `IfStatus`, as far as the service reads it. -/
structure IfStatus where
  irqs : List UInt16
  pollMode : Bool
  tickMsec : Option UInt64
  deriving DecidableEq

/-- A place for a channel: in `ch_irq_handlers`, `ch_poll_handlers` or `ch_tick_handlers`. -/
inductive Key
  | irq (irq : UInt16)
  | poll (id : InterfaceId)
  | tick (id : InterfaceId)
  deriving DecidableEq

namespace IfStatus

/-- The handlers of an interface, in the order in which they are spawned. -/
def keys (status : IfStatus) (id : InterfaceId) : List Key :=
  status.irqs.map .irq ++ ((if status.pollMode then [.poll id] else []) ++
    (if status.tickMsec.isSome then [.tick id] else []))

/-- The handlers that `("down", id)` closes. -/
def closedKeys (status : IfStatus) (id : InterfaceId) : List Key :=
  status.irqs.map .irq ++ [.poll id]

end IfStatus

/-- A task at the server end of a channel: `interrupt_handler`, `poll_handler` or `tick_handler`. -/
structure Handler where
  interfaceId : InterfaceId
  key : Key
  deriving DecidableEq

structure State where
  /-- The interfaces of `NET_MANAGER`. -/
  interfaces : InterfaceId → Option IfStatus
  /-- The interfaces whose last message was `up`. -/
  up : Finset InterfaceId
  /-- The session channels that were created. -/
  numChans : Nat
  /-- The client ends in the maps. -/
  chHandlers : Key → Option Nat
  /-- The tasks that serve a channel. -/
  running : Nat → Option Handler
  /-- A channel was dropped before it was closed. -/
  panicked : Bool

inductive Message
  | up
  | down
  | other

inductive Action
  | addInterface (id : InterfaceId) (status : IfStatus)
  | receive (msg : Message) (id : InterfaceId)

namespace State

def init : State where
  interfaces := fun _ => none
  up := ∅
  numChans := 0
  chHandlers := fun _ => none
  running := fun _ => none
  panicked := false

/-- A channel is created, its client end inserted and its handler spawned. The insertion drops the
channel that was there. -/
def spawnHandler (σ : State) (id : InterfaceId) (key : Key) : State :=
  let σ' := { σ with
    numChans := σ.numChans + 1
    chHandlers := update σ.chHandlers key (some σ.numChans) }
  match σ.chHandlers key with
  | some _ => { σ' with panicked := true }
  | none => { σ' with running := update σ.running σ.numChans (some ⟨id, key⟩) }

/-- `spawn_handlers`. -/
def spawnHandlers (σ : State) (id : InterfaceId) : List Key → State
  | [] => σ
  | key :: keys =>
    let σ := σ.spawnHandler id key
    if σ.panicked then σ else σ.spawnHandlers id keys

/-- A channel is taken out of its map. The handler at the other end receives, answers, closes its
end and returns, then this end is closed. -/
def closeHandler (σ : State) (key : Key) : State :=
  match σ.chHandlers key with
  | none => σ
  | some ch =>
    { σ with
      chHandlers := update σ.chHandlers key none
      running := update σ.running ch none }

def closeHandlers (σ : State) : List Key → State
  | [] => σ
  | key :: keys => (σ.closeHandler key).closeHandlers keys

/-- One round of the loop of `run`. -/
def receive (σ : State) (msg : Message) (id : InterfaceId) : State :=
  match msg, σ.interfaces id with
  | .up, some status => { σ with up := insert id σ.up }.spawnHandlers id (status.keys id)
  | .down, some status => { σ with up := σ.up.erase id }.closeHandlers (status.closedKeys id)
  | _, _ => σ

/-- A service that has panicked receives no message. -/
def step (σ : State) : Action → Option State
  | .addInterface id status =>
    if σ.interfaces id = none then
      some { σ with interfaces := update σ.interfaces id (some status) }
    else none
  | .receive msg id => if σ.panicked then none else some (σ.receive msg id)

/-- The handlers that run are those of the interfaces that are up, one each, and no channel was
dropped before it was closed. -/
structure HandlersRight (σ : State) : Prop where
  up : ∀ id ∈ σ.up, ∀ status ∈ σ.interfaces id, ∀ key ∈ status.keys id,
    ∃! ch, σ.running ch = some ⟨id, key⟩
  only : ∀ ch h, σ.running ch = some h →
    h.interfaceId ∈ σ.up ∧ ∃ status ∈ σ.interfaces h.interfaceId, h.key ∈ status.keys h.interfaceId
  noPanic : σ.panicked = false

/-- `up` is for an interface with distinct irqs that no interface which is up uses, and that, if it
is up itself, has neither poll mode nor ticks. `down` is not for an interface that is up and has
ticks, nor for one with an irq of another that is up. -/
def Orderly (σ : State) : Action → Prop
  | .receive .up id => ∀ status ∈ σ.interfaces id,
      status.irqs.Nodup ∧
      (∀ j ∈ σ.up, ∀ other ∈ σ.interfaces j, ∀ irq ∈ status.irqs, irq ∉ other.irqs) ∧
      (id ∈ σ.up → status.pollMode = false ∧ status.tickMsec = none)
  | .receive .down id => ∀ status ∈ σ.interfaces id,
      (id ∈ σ.up → status.tickMsec = none) ∧
      ∀ j ∈ σ.up.erase id, ∀ other ∈ σ.interfaces j, ∀ irq ∈ status.irqs, irq ∉ other.irqs
  | _ => True

/-! ### Channels and handlers belong together -/

/-- Every client end in the maps has its handler, and every handler that runs has its client end in
the maps. -/
structure Linked (σ : State) : Prop where
  client : ∀ {key ch}, σ.chHandlers key = some ch → ∃ id, σ.running ch = some ⟨id, key⟩
  server : ∀ {ch h}, σ.running ch = some h → σ.chHandlers h.key = some ch
  fresh : ∀ {ch h}, σ.running ch = some h → ch < σ.numChans

/-- A handler for `key` of the interface `id` runs. -/
def Serves (σ : State) (id : InterfaceId) (key : Key) : Prop := ∃ ch, σ.running ch = some ⟨id, key⟩

variable {σ σ' : State} {id : InterfaceId} {key : Key}

theorem Linked.existsUnique (h : σ.Linked) (hserves : σ.Serves id key) :
    ∃! ch, σ.running ch = some ⟨id, key⟩ := by
  obtain ⟨ch, hch⟩ := hserves
  refine ⟨ch, hch, fun ch' hch' => ?_⟩
  exact some.inj ((h.server hch').symm.trans (h.server hch))

theorem Linked.eq_none_iff (h : σ.Linked) : σ.chHandlers key = none ↔ ∀ id, ¬σ.Serves id key := by
  constructor
  · rintro hnone id ⟨ch, hch⟩
    cases (h.server hch).symm.trans hnone
  intro hno
  cases hch : σ.chHandlers key with
  | none => rfl
  | some ch =>
    obtain ⟨id, hid⟩ := h.client hch
    exact absurd ⟨ch, hid⟩ (hno id)

theorem update_some_eq_some {α β : Type} [DecidableEq α] {f : α → Option β} {a x : α} {b y : β} :
    update f a (some b) x = some y ↔ (x = a ∧ b = y) ∨ (x ≠ a ∧ f x = some y) := by
  rcases eq_or_ne x a with rfl | hne
  · rw [update_self, some.injEq]
    exact ⟨fun h => .inl ⟨rfl, h⟩, fun h => h.elim And.right fun h => absurd rfl h.1⟩
  · rw [update_of_ne hne]
    exact ⟨fun h => .inr ⟨hne, h⟩, fun h => h.elim (fun h => absurd h.1 hne) And.right⟩

theorem update_none_eq_some {α β : Type} [DecidableEq α] {f : α → Option β} {a x : α} {y : β} :
    update f a none x = some y ↔ x ≠ a ∧ f x = some y := by
  rcases eq_or_ne x a with rfl | hne
  · rw [update_self]
    exact iff_of_false nofun fun h => h.1 rfl
  · rw [update_of_ne hne, and_iff_right hne]

section Spawn

theorem spawnHandler_free (hfree : σ.chHandlers key = none) : σ.spawnHandler id key = { σ with
      numChans := σ.numChans + 1
      chHandlers := update σ.chHandlers key (some σ.numChans)
      running := update σ.running σ.numChans (some ⟨id, key⟩) } := by
  rw [spawnHandler, hfree]

theorem spawnHandler_taken {ch : Nat} (htaken : σ.chHandlers key = some ch) :
    (σ.spawnHandler id key).panicked = true := by
  rw [spawnHandler, htaken]

theorem Linked.spawn (h : σ.Linked) (hfree : σ.chHandlers key = none) :
    (σ.spawnHandler id key).Linked := by
  rw [spawnHandler_free hfree]
  refine ⟨?_, ?_, ?_⟩
  · intro key' ch hch
    rcases update_some_eq_some.mp hch with ⟨rfl, rfl⟩ | ⟨-, hold⟩
    · exact ⟨id, update_some_eq_some.mpr (.inl ⟨rfl, rfl⟩)⟩
    · obtain ⟨id', hid'⟩ := h.client hold
      exact ⟨id', update_some_eq_some.mpr (.inr ⟨(h.fresh hid').ne, hid'⟩)⟩
  · intro ch handler hch
    rcases update_some_eq_some.mp hch with ⟨rfl, rfl⟩ | ⟨-, hold⟩
    · exact update_some_eq_some.mpr (.inl ⟨rfl, rfl⟩)
    have hserver := h.server hold
    refine update_some_eq_some.mpr (.inr ⟨?_, hserver⟩)
    rintro rfl
    cases hserver.symm.trans hfree
  · intro ch handler hch
    rcases update_some_eq_some.mp hch with ⟨rfl, -⟩ | ⟨-, hold⟩
    · exact Nat.lt_succ_self _
    · exact Nat.lt_succ_of_lt (h.fresh hold)

theorem Linked.serves_spawn (h : σ.Linked) (hfree : σ.chHandlers key = none) {id' : InterfaceId}
    {key' : Key} : (σ.spawnHandler id key).Serves id' key' ↔
      σ.Serves id' key' ∨ (id' = id ∧ key' = key) := by
  rw [spawnHandler_free hfree]
  constructor
  · rintro ⟨ch, hch⟩
    rcases update_some_eq_some.mp hch with ⟨-, heq⟩ | ⟨-, hold⟩
    · cases heq
      exact .inr ⟨rfl, rfl⟩
    · exact .inl ⟨ch, hold⟩
  · rintro (⟨ch, hch⟩ | ⟨rfl, rfl⟩)
    · exact ⟨ch, update_some_eq_some.mpr (.inr ⟨(h.fresh hch).ne, hch⟩)⟩
    · exact ⟨σ.numChans, update_some_eq_some.mpr (.inl ⟨rfl, rfl⟩)⟩

theorem spawnHandlers_frame (σ : State) (id : InterfaceId) (keys : List Key) :
    (σ.spawnHandlers id keys).up = σ.up ∧ (σ.spawnHandlers id keys).interfaces = σ.interfaces := by
  have hone : ∀ (σ : State) key, (σ.spawnHandler id key).up = σ.up ∧
      (σ.spawnHandler id key).interfaces = σ.interfaces := by
    intro σ key
    unfold spawnHandler
    split
    · exact ⟨rfl, rfl⟩
    · exact ⟨rfl, rfl⟩
  induction keys generalizing σ with
  | nil => exact ⟨rfl, rfl⟩
  | cons key keys ih =>
    rw [spawnHandlers]
    split
    · exact hone σ key
    · obtain ⟨hup, hinterfaces⟩ := ih (σ.spawnHandler id key)
      exact ⟨hup.trans (hone σ key).1, hinterfaces.trans (hone σ key).2⟩

/-- **`spawn_handlers`** panics unless the places of the handlers are distinct and free, and then
the handlers are there. -/
theorem Linked.spawnHandlers (h : σ.Linked) (hok : σ.panicked = false) (id : InterfaceId)
    (keys : List Key) :
    ((σ.spawnHandlers id keys).panicked = false ↔
      keys.Nodup ∧ ∀ key ∈ keys, σ.chHandlers key = none) ∧
    ((σ.spawnHandlers id keys).panicked = false → (σ.spawnHandlers id keys).Linked ∧
      ∀ id' key', (σ.spawnHandlers id keys).Serves id' key' ↔
        σ.Serves id' key' ∨ (id' = id ∧ key' ∈ keys)) := by
  induction keys generalizing σ with
  | nil =>
    refine ⟨iff_of_true hok ⟨nodup_nil, fun _ hmem => absurd hmem not_mem_nil⟩,
      fun _ => ⟨h, fun id' key' => ?_⟩⟩
    rw [or_iff_left (fun hmem => not_mem_nil hmem.2)]
    rfl
  | cons key keys ih =>
    rw [State.spawnHandlers]
    cases hkey : σ.chHandlers key with
    | some ch =>
      rw [if_pos (spawnHandler_taken hkey), spawnHandler_taken hkey]
      refine ⟨iff_of_false nofun ?_, nofun⟩
      rintro ⟨-, hfree⟩
      cases hkey.symm.trans (hfree key mem_cons_self)
    | none =>
      have hok' : (σ.spawnHandler id key).panicked = false := by
        rw [spawnHandler_free hkey]
        exact hok
      rw [if_neg (by rw [hok']; exact Bool.false_ne_true)]
      obtain ⟨hiff, hspawned⟩ := ih (h.spawn hkey) hok'
      -- a place is free after the first handler if it was and is not the one that was taken
      have hfree : ∀ key', (σ.spawnHandler id key).chHandlers key' = none ↔
          key' ≠ key ∧ σ.chHandlers key' = none := by
        intro key'
        rw [spawnHandler_free hkey]
        change update σ.chHandlers key (some σ.numChans) key' = none ↔ _
        rcases eq_or_ne key' key with rfl | hne
        · exact iff_of_false (by rw [update_self]; exact nofun) fun hne => hne.1 rfl
        · rw [update_of_ne hne]
          exact (and_iff_right hne).symm
      constructor
      · rw [hiff, nodup_cons, forall_mem_cons]
        constructor
        · rintro ⟨hnodup, hall⟩
          refine ⟨⟨fun hmem => ((hfree key).mp (hall key hmem)).1 rfl, hnodup⟩, hkey, ?_⟩
          exact fun key' hmem => ((hfree key').mp (hall key' hmem)).2
        rintro ⟨⟨hnotMem, hnodup⟩, -, hall⟩
        refine ⟨hnodup, fun key' hmem => (hfree key').mpr ⟨?_, hall key' hmem⟩⟩
        rintro rfl
        exact hnotMem hmem
      · intro hdone
        obtain ⟨hlinked, hserves⟩ := hspawned hdone
        refine ⟨hlinked, fun id' key' => ?_⟩
        rw [hserves, h.serves_spawn hkey, or_assoc, mem_cons, ← and_or_left]

end Spawn

section Close

theorem closeHandlers_frame (σ : State) (keys : List Key) :
    (σ.closeHandlers keys).up = σ.up ∧ (σ.closeHandlers keys).interfaces = σ.interfaces ∧
      (σ.closeHandlers keys).panicked = σ.panicked := by
  have hone : ∀ (σ : State) key, (σ.closeHandler key).up = σ.up ∧
      (σ.closeHandler key).interfaces = σ.interfaces ∧
      (σ.closeHandler key).panicked = σ.panicked := by
    intro σ key
    unfold closeHandler
    split
    · exact ⟨rfl, rfl, rfl⟩
    · exact ⟨rfl, rfl, rfl⟩
  induction keys generalizing σ with
  | nil => exact ⟨rfl, rfl, rfl⟩
  | cons key keys ih =>
    obtain ⟨hup, hinterfaces, hpanicked⟩ := ih (σ.closeHandler key)
    obtain ⟨hup', hinterfaces', hpanicked'⟩ := hone σ key
    exact ⟨hup.trans hup', hinterfaces.trans hinterfaces', hpanicked.trans hpanicked'⟩

theorem Linked.close (h : σ.Linked) (key : Key) : (σ.closeHandler key).Linked ∧
    ∀ id' key', (σ.closeHandler key).Serves id' key' ↔ σ.Serves id' key' ∧ key' ≠ key := by
  unfold closeHandler
  split
  · next hnone =>
    refine ⟨h, fun id' key' => (and_iff_left_of_imp ?_).symm⟩
    rintro hserves rfl
    exact h.eq_none_iff.mp hnone id' hserves
  rename_i ch hch
  -- the other handlers have other channels
  have hother : ∀ {ch' handler}, σ.running ch' = some handler → (ch' ≠ ch ↔ handler.key ≠ key) := by
    intro ch' handler hrunning
    have hserver := h.server hrunning
    refine not_congr ⟨?_, ?_⟩
    · rintro rfl
      obtain ⟨id, hid⟩ := h.client hch
      rw [some.inj (hrunning.symm.trans hid)]
    · rintro rfl
      exact some.inj (hserver.symm.trans hch)
  refine ⟨⟨?_, ?_, ?_⟩, fun id' key' => ?_⟩
  · intro key' ch' hch'
    obtain ⟨hne, hold⟩ := update_none_eq_some.mp hch'
    obtain ⟨id, hid⟩ := h.client hold
    exact ⟨id, update_none_eq_some.mpr ⟨(hother hid).mpr hne, hid⟩⟩
  · intro ch' handler hch'
    obtain ⟨hne, hold⟩ := update_none_eq_some.mp hch'
    exact update_none_eq_some.mpr ⟨(hother hold).mp hne, h.server hold⟩
  · intro ch' handler hch'
    exact h.fresh (update_none_eq_some.mp hch').2
  · constructor
    · rintro ⟨ch', hch'⟩
      obtain ⟨hne, hold⟩ := update_none_eq_some.mp hch'
      exact ⟨⟨ch', hold⟩, (hother hold).mp hne⟩
    · rintro ⟨⟨ch', hch'⟩, hne⟩
      exact ⟨ch', update_none_eq_some.mpr ⟨(hother hch').mpr hne, hch'⟩⟩

theorem Linked.closeHandlers (h : σ.Linked) (keys : List Key) : (σ.closeHandlers keys).Linked ∧
    ∀ id' key', (σ.closeHandlers keys).Serves id' key' ↔ σ.Serves id' key' ∧ key' ∉ keys := by
  induction keys generalizing σ with
  | nil => exact ⟨h, fun id' key' => (and_iff_left not_mem_nil).symm⟩
  | cons key keys ih =>
    obtain ⟨hlinked, hserves⟩ := h.close key
    obtain ⟨hlinked', hserves'⟩ := ih hlinked
    refine ⟨hlinked', fun id' key' => ?_⟩
    rw [State.closeHandlers, hserves', hserves, and_assoc, mem_cons, not_or]

end Close

/-! ### The invariant -/

structure Inv (σ : State) : Prop where
  linked : σ.panicked = false → σ.Linked
  known : ∀ id ∈ σ.up, (σ.interfaces id).isSome

/-- With the channels in order it is enough to know which handlers run. -/
theorem Inv.handlersRight_iff (h : σ.Inv) (hok : σ.panicked = false) : σ.HandlersRight ↔
    ∀ id key, σ.Serves id key ↔ id ∈ σ.up ∧ ∃ status ∈ σ.interfaces id, key ∈ status.keys id := by
  constructor
  · rintro hright id key
    constructor
    · rintro ⟨ch, hch⟩
      exact hright.only ch ⟨id, key⟩ hch
    · rintro ⟨hup, status, hstatus, hkey⟩
      exact (hright.up id hup status hstatus key hkey).exists
  · intro hserves
    refine ⟨fun id hup status hstatus key hkey => ?_, fun ch handler hch => ?_, hok⟩
    · exact (h.linked hok).existsUnique ((hserves id key).mpr ⟨hup, status, hstatus, hkey⟩)
    · exact (hserves _ _).mp ⟨ch, hch⟩

end State

namespace IfStatus

variable {status : IfStatus} {id : InterfaceId} {key : Key}

theorem mem_keys : key ∈ status.keys id ↔ (∃ irq ∈ status.irqs, .irq irq = key) ∨
    (status.pollMode = true ∧ key = .poll id) ∨
    (status.tickMsec.isSome = true ∧ key = .tick id) := by
  simp only [keys, mem_append, mem_map, mem_ite_nil_right, mem_singleton]

@[simp] theorem irq_mem_keys {irq : UInt16} : .irq irq ∈ status.keys id ↔ irq ∈ status.irqs := by
  simp [mem_keys]

@[simp] theorem poll_mem_keys {j : InterfaceId} :
    .poll j ∈ status.keys id ↔ status.pollMode = true ∧ j = id := by
  simp [mem_keys]

@[simp] theorem tick_mem_keys {j : InterfaceId} :
    .tick j ∈ status.keys id ↔ status.tickMsec.isSome = true ∧ j = id := by
  simp [mem_keys]

theorem mem_closedKeys : key ∈ status.closedKeys id ↔
    (∃ irq ∈ status.irqs, .irq irq = key) ∨ key = .poll id := by
  simp only [closedKeys, mem_append, mem_map, mem_singleton]

theorem nodup_keys : (status.keys id).Nodup ↔ status.irqs.Nodup := by
  have hrest : ((if status.pollMode then [Key.poll id] else []) ++
      (if status.tickMsec.isSome then [Key.tick id] else [])).Nodup := by
    split <;> split <;> simp
  rw [keys, nodup_append, nodup_map_iff fun _ _ heq => Key.irq.inj heq]
  refine ⟨And.left, fun hirqs => ⟨hirqs, hrest, ?_⟩⟩
  rintro key hirq key' hrest rfl
  obtain ⟨irq, -, rfl⟩ := mem_map.mp hirq
  simp at hrest

end IfStatus

namespace State

variable {σ σ' : State} {id : InterfaceId}

/-- A handler's place is free exactly if no interface that is up has it. -/
theorem HandlersRight.eq_none_iff (h : σ.HandlersRight) (hinv : σ.Inv) {key : Key} :
    σ.chHandlers key = none ↔ ∀ j ∈ σ.up, ∀ other ∈ σ.interfaces j, key ∉ other.keys j := by
  rw [(hinv.linked h.noPanic).eq_none_iff]
  have hserves := (hinv.handlersRight_iff h.noPanic).mp h
  constructor
  · intro hno j hj other hother hkey
    exact hno j ((hserves j key).mpr ⟨hj, other, hother, hkey⟩)
  intro hno j hj
  obtain ⟨hup, other, hother, hkey⟩ := (hserves j key).mp hj
  exact hno j hup other hother hkey

variable {status : IfStatus}

theorem HandlersRight.orderly_up_iff (h : σ.HandlersRight) (hinv : σ.Inv)
    (hstatus : σ.interfaces id = some status) :
    ((status.keys id).Nodup ∧ ∀ key ∈ status.keys id, σ.chHandlers key = none) ↔
      σ.Orderly (.receive .up id) := by
  have hplaces : (∀ key ∈ status.keys id, σ.chHandlers key = none) ↔
      (∀ j ∈ σ.up, ∀ other ∈ σ.interfaces j, ∀ irq ∈ status.irqs, irq ∉ other.irqs) ∧
        (id ∈ σ.up → status.pollMode = false ∧ status.tickMsec = none) := by
    constructor
    · intro hfree
      refine ⟨fun j hj other hother irq hirq => ?_, fun hup => ⟨?_, ?_⟩⟩
      · have hnone := hfree (.irq irq) (IfStatus.irq_mem_keys.mpr hirq)
        simpa using (h.eq_none_iff hinv).mp hnone j hj other hother
      · rw [← Bool.not_eq_true]
        intro hpoll
        have hmem : .poll id ∈ status.keys id := IfStatus.poll_mem_keys.mpr ⟨hpoll, rfl⟩
        exact (h.eq_none_iff hinv).mp (hfree _ hmem) id hup status hstatus hmem
      · rw [← not_isSome_iff_eq_none]
        intro htick
        have hmem : .tick id ∈ status.keys id := IfStatus.tick_mem_keys.mpr ⟨htick, rfl⟩
        exact (h.eq_none_iff hinv).mp (hfree _ hmem) id hup status hstatus hmem
    · rintro ⟨hirqs, hself⟩ key hkey
      rw [h.eq_none_iff hinv]
      intro j hj other hother hkey'
      rcases IfStatus.mem_keys.mp hkey with ⟨irq, hirq, rfl⟩ | ⟨hpoll, rfl⟩ | ⟨htick, rfl⟩
      · exact hirqs j hj other hother irq hirq (IfStatus.irq_mem_keys.mp hkey')
      · obtain ⟨-, rfl⟩ := IfStatus.poll_mem_keys.mp hkey'
        rw [(hself hj).1] at hpoll
        cases hpoll
      · obtain ⟨-, rfl⟩ := IfStatus.tick_mem_keys.mp hkey'
        rw [(hself hj).2] at htick
        cases htick
  rw [IfStatus.nodup_keys, hplaces]
  constructor
  · intro hall status' hstatus'
    cases hstatus.symm.trans hstatus'
    exact hall
  · exact fun hall => hall status hstatus

theorem HandlersRight.receive_up (h : σ.HandlersRight) (hinv : σ.Inv)
    (hstatus : σ.interfaces id = some status) :
    (σ.receive .up id).Inv ∧ ((σ.receive .up id).HandlersRight ↔ σ.Orderly (.receive .up id)) := by
  have hlinked := hinv.linked h.noPanic
  have hserves := (hinv.handlersRight_iff h.noPanic).mp h
  let σ₁ : State := { σ with up := insert id σ.up }
  have hlinked₁ : σ₁.Linked := ⟨hlinked.client, hlinked.server, hlinked.fresh⟩
  have hreceive : σ.receive .up id = σ₁.spawnHandlers id (status.keys id) := by
    unfold State.receive
    rw [hstatus]
  obtain ⟨hup, hinterfaces⟩ := spawnHandlers_frame σ₁ id (status.keys id)
  obtain ⟨hiff, hspawned⟩ := hlinked₁.spawnHandlers h.noPanic id (status.keys id)
  rw [hreceive, ← h.orderly_up_iff hinv hstatus]
  have hinv' : (σ₁.spawnHandlers id (status.keys id)).Inv := by
    refine ⟨fun hok => (hspawned hok).1, fun j hj => ?_⟩
    rw [hup] at hj
    rw [hinterfaces]
    rcases Finset.mem_insert.mp hj with rfl | hj
    · exact isSome_iff_exists.mpr ⟨status, hstatus⟩
    · exact hinv.known j hj
  refine ⟨hinv', fun hright => hiff.mp hright.noPanic, fun hfree => ?_⟩
  have hok := hiff.mpr hfree
  rw [hinv'.handlersRight_iff hok]
  intro j key
  rw [(hspawned hok).2, hup, hinterfaces]
  change σ.Serves j key ∨ _ ↔ j ∈ insert id σ.up ∧ ∃ other ∈ σ.interfaces j, key ∈ other.keys j
  rw [hserves, Finset.mem_insert]
  constructor
  · rintro (⟨hj, hkey⟩ | ⟨rfl, hkey⟩)
    · exact ⟨.inr hj, hkey⟩
    · exact ⟨.inl rfl, status, hstatus, hkey⟩
  rintro ⟨rfl | hj, other, hother, hkey⟩
  · cases hstatus.symm.trans hother
    exact .inr ⟨rfl, hkey⟩
  · exact .inl ⟨hj, other, hother, hkey⟩

/-- After `down` the handlers are right exactly if the call was orderly. -/
theorem HandlersRight.receive_down (h : σ.HandlersRight) (hinv : σ.Inv)
    (hstatus : σ.interfaces id = some status) :
    (σ.receive .down id).Inv ∧
      ((σ.receive .down id).HandlersRight ↔ σ.Orderly (.receive .down id)) := by
  have hlinked := hinv.linked h.noPanic
  have hserves := (hinv.handlersRight_iff h.noPanic).mp h
  let σ₁ : State := { σ with up := σ.up.erase id }
  have hlinked₁ : σ₁.Linked := ⟨hlinked.client, hlinked.server, hlinked.fresh⟩
  have hreceive : σ.receive .down id = σ₁.closeHandlers (status.closedKeys id) := by
    unfold State.receive
    rw [hstatus]
  obtain ⟨hup, hinterfaces, hpanicked⟩ := closeHandlers_frame σ₁ (status.closedKeys id)
  obtain ⟨hlinked', hserves'⟩ := hlinked₁.closeHandlers (status.closedKeys id)
  have hok : (σ₁.closeHandlers (status.closedKeys id)).panicked = false :=
    hpanicked.trans h.noPanic
  rw [hreceive]
  have hinv' : (σ₁.closeHandlers (status.closedKeys id)).Inv := by
    refine ⟨fun _ => hlinked', fun j hj => ?_⟩
    rw [hup] at hj
    rw [hinterfaces]
    exact hinv.known j (Finset.mem_of_mem_erase hj)
  refine ⟨hinv', ?_⟩
  rw [hinv'.handlersRight_iff hok]
  -- which handlers run afterwards, and which should
  have hafter : ∀ j key, ((σ₁.closeHandlers (status.closedKeys id)).Serves j key ↔
        j ∈ (σ₁.closeHandlers (status.closedKeys id)).up ∧
          ∃ other ∈ (σ₁.closeHandlers (status.closedKeys id)).interfaces j, key ∈ other.keys j) ↔
      (∀ other ∈ σ.interfaces j, j ∈ σ.up → key ∈ other.keys j →
        (key ∉ status.closedKeys id ↔ j ≠ id)) := by
    intro j key
    rw [hserves', hup, hinterfaces]
    change (σ.Serves j key ∧ _ ↔ j ∈ σ.up.erase id ∧ ∃ other ∈ σ.interfaces j, _) ↔ _
    rw [hserves, Finset.mem_erase]
    constructor
    · intro hiff other hother hj hkey
      constructor
      · exact fun hopen => (hiff.mp ⟨⟨hj, other, hother, hkey⟩, hopen⟩).1.1
      · exact fun hne => (hiff.mpr ⟨⟨hne, hj⟩, other, hother, hkey⟩).2
    intro hall
    constructor
    · rintro ⟨⟨hj, other, hother, hkey⟩, hopen⟩
      exact ⟨⟨(hall other hother hj hkey).mp hopen, hj⟩, other, hother, hkey⟩
    · rintro ⟨⟨hne, hj⟩, other, hother, hkey⟩
      exact ⟨⟨hj, other, hother, hkey⟩, (hall other hother hj hkey).mpr hne⟩
  simp only [hafter]
  constructor
  · intro hall status' hstatus'
    cases hstatus.symm.trans hstatus'
    refine ⟨fun hid => ?_, fun j hj other hother irq hirq hirq' => ?_⟩
    · rw [← not_isSome_iff_eq_none]
      intro htick
      -- the handler for the ticks is not among those that are closed
      have hopen : .tick id ∉ status.closedKeys id := by
        simp [IfStatus.mem_closedKeys]
      have hmem : .tick id ∈ status.keys id := IfStatus.tick_mem_keys.mpr ⟨htick, rfl⟩
      exact (hall id (.tick id) status hstatus hid hmem).mp hopen rfl
    · obtain ⟨hne, hj⟩ := Finset.mem_erase.mp hj
      have hopen := (hall j (.irq irq) other hother hj (IfStatus.irq_mem_keys.mpr hirq')).mpr hne
      exact hopen (IfStatus.mem_closedKeys.mpr (.inl ⟨irq, hirq, rfl⟩))
  · intro horderly j key other hother hj hkey
    obtain ⟨htick, hirqs⟩ := horderly status hstatus
    rw [IfStatus.mem_closedKeys, not_or]
    constructor
    · rintro ⟨hirq, hpoll⟩ rfl
      cases hstatus.symm.trans hother
      rcases IfStatus.mem_keys.mp hkey with ⟨irq, hmem, rfl⟩ | ⟨-, rfl⟩ | ⟨hsome, rfl⟩
      · exact hirq ⟨irq, hmem, rfl⟩
      · exact hpoll rfl
      · rw [htick hj] at hsome
        cases hsome
    · intro hne
      refine ⟨?_, ?_⟩
      · rintro ⟨irq, hmem, rfl⟩
        have hj' : j ∈ σ.up.erase id := Finset.mem_erase.mpr ⟨hne, hj⟩
        exact hirqs j hj' other hother irq hmem (IfStatus.irq_mem_keys.mp hkey)
      · rintro rfl
        exact hne (IfStatus.poll_mem_keys.mp hkey).2.symm

/-- The condition is exact, step by step. -/
theorem handlersRight_step {a : Action} (hinv : σ.Inv) (h : σ.HandlersRight)
    (hstep : σ.step a = some σ') : σ'.Inv ∧ (σ'.HandlersRight ↔ σ.Orderly a) := by
  cases a with
  | addInterface id status =>
    obtain ⟨hnone, hsome⟩ := ite_none_right_eq_some.mp hstep
    cases hsome
    -- an interface that was not there is not up, and has no handler
    have hkeep : ∀ j ∈ σ.up, update σ.interfaces id (some status) j = σ.interfaces j := by
      intro j hj
      refine update_of_ne ?_ ..
      rintro rfl
      have hknown := hinv.known j hj
      rw [hnone] at hknown
      cases hknown
    refine ⟨⟨fun hok => ?_, fun j hj => ?_⟩, iff_of_true ⟨?_, ?_, h.noPanic⟩ trivial⟩
    · exact ⟨(hinv.linked hok).client, (hinv.linked hok).server, (hinv.linked hok).fresh⟩
    · exact (congrArg isSome (hkeep j hj)).trans (hinv.known j hj)
    · intro j hj other hother
      exact h.up j hj other ((hkeep j hj).symm.trans hother)
    · intro ch handler hch
      obtain ⟨hup, other, hother, hkey⟩ := h.only ch handler hch
      exact ⟨hup, other, (hkeep _ hup).trans hother, hkey⟩
  | receive msg id =>
    obtain ⟨-, hsome⟩ := ite_none_left_eq_some.mp hstep
    cases hsome
    cases hstatus : σ.interfaces id with
    | none =>
      have hsame : σ.receive msg id = σ := by
        unfold receive
        rw [hstatus]
        cases msg <;> rfl
      have horderly : σ.Orderly (.receive msg id) := by
        cases msg with
        | up | down => exact fun _ hmem => absurd (hstatus.symm.trans hmem) nofun
        | other => trivial
      rw [hsame]
      exact ⟨hinv, iff_of_true h horderly⟩
    | some status =>
      cases msg with
      | up => exact h.receive_up hinv hstatus
      | down => exact h.receive_down hinv hstatus
      | other => exact ⟨hinv, iff_of_true h trivial⟩

theorem inv_init : Inv init :=
  ⟨fun _ => ⟨nofun, nofun, nofun⟩, fun _ hmem => absurd hmem (Finset.notMem_empty _)⟩

theorem handlersRight_init : HandlersRight init :=
  ⟨fun _ hmem => absurd hmem (Finset.notMem_empty _), nofun, rfl⟩

/-- **The handlers of the network service**: after every message of a run each interface that is up
has one handler for each of its irqs, one if it is in poll mode and one if it has ticks, an
interface that is down has none, and no channel was dropped before it was closed, exactly if the
messages come in an order that `Orderly` allows. -/
theorem handlers_right_iff {as : List Action} (hrun : run step init as = some σ) :
    Always step HandlersRight init as ↔ Meets step Orderly init as :=
  always_iff_meets handlersRight_step inv_init handlersRight_init hrun

-- over the collections: a search may run through the machine words instead
instance (σ : State) (ids : Finset InterfaceId) (irqs : List UInt16) :
    Decidable (∀ j ∈ ids, ∀ other ∈ σ.interfaces j, ∀ irq ∈ irqs, irq ∉ other.irqs) :=
  @Finset.decidableDforallFinset _ ids _ fun j _ =>
    @Option.decidableForallMem _ _ (fun _ => decidableBAll _ irqs) (σ.interfaces j)

instance (σ : State) : DecidablePred σ.Orderly
  | .receive event _ => by cases event <;> dsimp only [Orderly] <;> infer_instance
  | .addInterface .. => instDecidableTrue

/-- Two interfaces come up, one of them goes down, twice, and comes up again. -/
def twoInterfaces : List Action :=
  [.addInterface 0 ⟨[32, 33], false, none⟩, .addInterface 1 ⟨[34], true, some 100⟩,
    .receive .up 0, .receive .up 1, .receive .down 0, .receive .down 0, .receive .up 0]

theorem handlers_right_iff_twoInterfaces :
    (run step init twoInterfaces).isSome = true ∧ Always step HandlersRight init twoInterfaces := by
  have hmeets := Meets.of_run (show run (guarded step Orderly) init twoInterfaces = some _ from rfl)
  exact ⟨rfl, (handlers_right_iff hmeets.2).mpr hmeets.1⟩

/-- **A channel that is dropped**: the second `up` for an interface replaces the channel of its
handler. -/
theorem channel_dropped :
    ∃ σ, run step init [.addInterface 0 ⟨[32], false, none⟩, .receive .up 0, .receive .up 0] =
      some σ ∧ σ.panicked = true :=
  ⟨_, rfl, rfl⟩

/-- **A handler that is left**: the interface is down, and the handler for its ticks runs. -/
theorem tick_left :
    ∃ σ, run step init [.addInterface 0 ⟨[], false, some 100⟩, .receive .up 0, .receive .down 0] =
      some σ ∧ 0 ∉ σ.up ∧ σ.running 0 = some ⟨0, .tick 0⟩ :=
  ⟨_, rfl, by decide, rfl⟩

end State

end NetworkService

end Awkernel
