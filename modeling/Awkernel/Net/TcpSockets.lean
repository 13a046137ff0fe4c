import Awkernel.Lib.SlotMap
import Awkernel.Lib.TransitionSystem

/-!
# Who owns the TCP sockets

The handles of TCP sockets between the `SocketSet` of an interface and their owners
(`awkernel_lib/src/net/tcp_listener/tcp_listener_no_std.rs`,
`awkernel_lib/src/net/tcp_stream/tcp_stream_no_std.rs`): a listener has the sockets that listen
(`handles`) and those that are connected and not accepted yet (`connected_sockets`), a stream has
one, and `CLOSED_CONNECTIONS` those of the streams that were dropped before they were closed.

The set is the one of `smoltcp` (`smoltcp/src/iface/socket_set.rs`): slots, of which the first
vacant one is used. The states of the sockets change at any time, and the results of claiming a
port and of `connect` are arguments of the call. `get` and `remove` panic on a handle that is not
in the set.

A listener that is dropped aborts its sockets and leaves them in the set, where nobody removes them
any more (`sockets_left`). Nothing else loses a socket: a run keeps every socket with one owner
exactly if no listener is dropped with a socket in its hands (`sockets_owned_iff`).
-/

namespace Awkernel

open TransitionSystem SlotMap Option
open List (mem_cons_self perm_middle append_assoc)

namespace TcpSockets

/-- `smoltcp::socket::tcp::State`. -/
inductive TcpState
  | closed
  | listen
  | synSent
  | synReceived
  | established
  | finWait1
  | finWait2
  | closeWait
  | closing
  | lastAck
  | timeWait
  deriving DecidableEq

namespace TcpState

/-- `Socket::may_send`. -/
def maySend : TcpState → Bool
  | established | closeWait => true
  | _ => false

/-- `Socket::is_open`. -/
def isOpen : TcpState → Bool
  | closed | timeWait => false
  | _ => true

/-- `Socket::close`. -/
def close : TcpState → TcpState
  | listen | synSent => closed
  | synReceived | established => finWait1
  | closeWait => lastAck
  | st => st

end TcpState

/-- `smoltcp::socket::Socket`, as far as it matters here. -/
inductive Socket
  | tcp (state : TcpState)
  /-- A UDP socket, which has its own owner. -/
  | udp
  deriving DecidableEq

def Socket.IsTcp : Socket → Prop
  | tcp _ => True
  | udp => False

abbrev SocketHandle := Nat

abbrev SocketSet := SlotMap Socket

namespace SocketSet

/-- `SocketSet::get`, for a TCP socket: its state. It panics if there is none. -/
def getTcp (set : SocketSet) (handle : SocketHandle) : Option TcpState :=
  match set.get handle with
  | some (.tcp state) => some state
  | _ => none

def setTcp (set : SocketSet) (handle : SocketHandle) (state : TcpState) : SocketSet :=
  set.replace handle (.tcp state)

/-- `SocketSet::remove`. It panics if there is no such socket. -/
def tryRemove (set : SocketSet) (handle : SocketHandle) : Option SocketSet :=
  if (set.get handle).isSome then some (set.remove handle) else none

end SocketSet

/-- `TcpListener`. -/
structure TcpListener where
  handles : List SocketHandle
  connectedSockets : List SocketHandle

def TcpListener.sockets (l : TcpListener) : List SocketHandle := l.handles ++ l.connectedSockets

/-- `create_listen_socket`. -/
def createListenSocket : Socket := .tcp .listen

/-- The sockets that `bind_on_interface` adds. -/
def addListening : Nat → SocketSet → List SocketHandle × SocketSet
  | 0, set => ([], set)
  | backlogs + 1, set =>
    let (handle, set) := set.add createListenSocket
    let (handles, set) := addListening backlogs set
    (handle :: handles, set)

/-- The loop of `accept`: a connected socket is replaced and moves to `connected_sockets`, one that
is not open is removed and replaced. -/
def renew : List SocketHandle → List SocketHandle → SocketSet → Option (TcpListener × SocketSet)
  | [], connected, set => some (⟨[], connected⟩, set)
  | handle :: handles, connected, set => do
    let state ← set.getTcp handle
    if state.maySend then
      let (newHandle, set) := set.add createListenSocket
      let (l, set) ← renew handles (connected ++ [handle]) set
      return (⟨newHandle :: l.handles, l.connectedSockets⟩, set)
    else if !state.isOpen then
      let set ← set.tryRemove handle
      let (newHandle, set) := set.add createListenSocket
      let (l, set) ← renew handles connected set
      return (⟨newHandle :: l.handles, l.connectedSockets⟩, set)
    else
      let (l, set) ← renew handles connected set
      return (⟨handle :: l.handles, l.connectedSockets⟩, set)

/-- `accept`, which returns the socket of the new stream. The wakers are registered with sockets
that `getTcp` finds. -/
def TcpListener.accept (l : TcpListener) (set : SocketSet) :
    Option (TcpListener × SocketSet × Option SocketHandle) :=
  match l.connectedSockets with
  | handle :: connected => some (⟨l.handles, connected⟩, set, some handle)
  | [] => do
    let (l, set) ← renew l.handles [] set
    match l.connectedSockets with
    | handle :: connected => return (⟨l.handles, connected⟩, set, some handle)
    | [] =>
      if l.handles.all fun handle => (set.getTcp handle).isSome then return (l, set, none)
      else none

/-- The sockets that the drop of a listener aborts. -/
def abortAll : List SocketHandle → SocketSet → Option SocketSet
  | [], set => some set
  | handle :: handles, set => do
    let _ ← set.getTcp handle
    abortAll handles (set.setTcp handle .closed)

/-- `close_connections`: the sockets that are closed are removed, the others stay. -/
def closeConnections : List SocketHandle → SocketSet → Option (List SocketHandle × SocketSet)
  | [], set => some ([], set)
  | handle :: handles, set => do
    let state ← set.getTcp handle
    if state = .closed then
      let set ← set.tryRemove handle
      closeConnections handles set
    else
      let (remain, set) ← closeConnections handles (set.setTcp handle state.close)
      return (handle :: remain, set)

/-! ### The interface with its owners -/

structure State where
  socketSet : SocketSet
  listeners : List TcpListener
  /-- The sockets of the `TcpStream`s. -/
  streams : List SocketHandle
  /-- `CLOSED_CONNECTIONS`, for this interface. -/
  closedConnections : List SocketHandle
  panicked : Bool

inductive Action
  /-- `bind_on_interface`; `claimed`: the port allocator had a port. -/
  | bind (port : Option UInt16) (claimed : Bool) (backlogs : Nat)
  /-- The `i`-th listener accepts. -/
  | accept (i : Nat)
  | connect (claimed connectIsErr : Bool)
  | dropStream (i : Nat)
  | dropListener (i : Nat)
  | closeConnections
  /-- `smoltcp` changes the state of a socket. -/
  | tcpState (handle : SocketHandle) (state : TcpState)
  | addUdp
  | removeUdp (handle : SocketHandle)

namespace State

def init : State := ⟨[], [], [], [], false⟩

/-- All handles that have an owner. -/
def owned (σ : State) : List SocketHandle :=
  σ.listeners.flatMap TcpListener.sockets ++ σ.streams ++ σ.closedConnections

/-- `TcpListener::bind_on_interface`, on an interface that exists. -/
def bindOnInterface (σ : State) (port : Option UInt16) (claimed : Bool) (backlogs : Nat) : State :=
  if port = some 0 then σ
  else if !claimed then σ
  else
    let (handles, set) := addListening backlogs σ.socketSet
    { σ with socketSet := set, listeners := ⟨handles, []⟩ :: σ.listeners }

def acceptAt (σ : State) (i : Nat) (l : TcpListener) : Option State := do
  let (l, set, accepted) ← l.accept σ.socketSet
  return { σ with
    socketSet := set
    listeners := σ.listeners.set i l
    streams := accepted.toList ++ σ.streams }

/-- `TcpStream::connect`. -/
def connect (σ : State) (claimed connectIsErr : Bool) : Option State :=
  if !claimed then some σ
  else
    let (handle, set) := σ.socketSet.add (.tcp .closed)
    if connectIsErr then do
      let set ← SocketSet.tryRemove set handle
      return { σ with socketSet := set }
    else
      some { σ with
        socketSet := SocketSet.setTcp set handle .synSent
        streams := handle :: σ.streams }

/-- `TcpStream::drop`. -/
def dropStreamAt (σ : State) (i : Nat) (handle : SocketHandle) : Option State := do
  let state ← SocketSet.getTcp σ.socketSet handle
  if state = .closed then
    let set ← SocketSet.tryRemove σ.socketSet handle
    return { σ with socketSet := set, streams := σ.streams.eraseIdx i }
  else
    return { σ with
      socketSet := SocketSet.setTcp σ.socketSet handle state.close
      streams := σ.streams.eraseIdx i
      closedConnections := σ.closedConnections ++ [handle] }

/-- `TcpListener::drop`. -/
def dropListenerAt (σ : State) (i : Nat) (l : TcpListener) : Option State := do
  let set ← abortAll l.sockets σ.socketSet
  return { σ with socketSet := set, listeners := σ.listeners.eraseIdx i }

def closeAll (σ : State) : Option State := do
  let (remain, set) ← TcpSockets.closeConnections σ.closedConnections σ.socketSet
  return { σ with socketSet := set, closedConnections := remain }

/-- An operation that may panic. -/
def orPanic (σ : State) (result : Option State) : State :=
  result.getD { σ with panicked := true }

/-- One operation; `none` if it names no listener, stream or socket. -/
def step (σ : State) : Action → Option State
  | .bind port claimed backlogs => some (σ.bindOnInterface port claimed backlogs)
  | .accept i => (σ.listeners[i]?).map fun l => σ.orPanic (σ.acceptAt i l)
  | .connect claimed connectIsErr => some (σ.orPanic (σ.connect claimed connectIsErr))
  | .dropStream i => (σ.streams[i]?).map fun handle => σ.orPanic (σ.dropStreamAt i handle)
  | .dropListener i => (σ.listeners[i]?).map fun l => σ.orPanic (σ.dropListenerAt i l)
  | .closeConnections => some (σ.orPanic σ.closeAll)
  | .tcpState handle state =>
    (SocketSet.getTcp σ.socketSet handle).map fun _ =>
      { σ with socketSet := SocketSet.setTcp σ.socketSet handle state }
  | .addUdp => some { σ with socketSet := (σ.socketSet.add .udp).2 }
  | .removeUdp handle =>
    if σ.socketSet.get handle = some .udp then
      some { σ with socketSet := σ.socketSet.remove handle }
    else none

/-- Every TCP socket of the set has one owner, every socket that is owned is in the set, and no
operation has panicked. -/
structure SocketsOwned (σ : State) : Prop where
  owned : Owned Socket.IsTcp σ.socketSet σ.owned
  noPanic : σ.panicked = false

/-- A listener is dropped without a socket in its hands. -/
def DropsEmpty (σ : State) : Action → Prop
  | .dropListener i => ∀ l ∈ σ.listeners[i]?, l.handles = [] ∧ l.connectedSockets = []
  | _ => True

end State

/-! ### What the operations do to the owners -/

namespace SocketSet

variable {set : SocketSet} {handle : SocketHandle} {state : TcpState} {l : List SocketHandle}

theorem getTcp_eq_some : set.getTcp handle = some state ↔ set.get handle = some (.tcp state) := by
  unfold getTcp
  split
  · next state' heq => rw [heq, some.injEq, some.injEq, Socket.tcp.injEq]
  · next hne => exact iff_of_false nofun fun heq => hne _ heq

theorem exists_getTcp (ho : Owned Socket.IsTcp set l) (hmem : handle ∈ l) :
    ∃ state, set.getTcp handle = some state := by
  obtain ⟨s, hs, htcp⟩ := (ho.mem_iff handle).mp hmem
  cases s with
  | tcp state => exact ⟨state, getTcp_eq_some.mpr hs⟩
  | udp => exact htcp.elim

theorem owned_setTcp (ho : Owned Socket.IsTcp set l) (hget : set.getTcp handle = some state)
    (state' : TcpState) : Owned Socket.IsTcp (set.setTcp handle state') l :=
  ho.replace (getTcp_eq_some.mp hget) trivial trivial

/-- A socket is removed by its owner: it is there, and the others keep theirs. -/
theorem owned_tryRemove (ho : Owned Socket.IsTcp set (handle :: l)) :
    ∃ set', set.tryRemove handle = some set' ∧ Owned Socket.IsTcp set' l := by
  obtain ⟨state, hstate⟩ := exists_getTcp ho mem_cons_self
  refine ⟨set.remove handle, if_pos ?_, ho.remove⟩
  rw [getTcp_eq_some.mp hstate]
  rfl

theorem owned_add_listen (ho : Owned Socket.IsTcp set l) :
    Owned Socket.IsTcp (set.add createListenSocket).2 ((set.add createListenSocket).1 :: l) :=
  ho.add trivial

end SocketSet

variable {l : TcpListener}

section Loops

open SocketSet

variable {set : SocketSet} {rest : List SocketHandle}

theorem addListening_owned (backlogs : Nat) (ho : Owned Socket.IsTcp set rest) :
    Owned Socket.IsTcp (addListening backlogs set).2 ((addListening backlogs set).1 ++ rest) := by
  induction backlogs generalizing set rest with
  | zero => exact ho
  | succ n ih => exact (ih (owned_add_listen ho)).perm perm_middle

/-- **The loop of `accept`** finds every socket, and in the end the listener has those that listen
and those that are connected. -/
theorem renew_owned (handles connected : List SocketHandle)
    (ho : Owned Socket.IsTcp set (handles ++ (connected ++ rest))) :
    ∃ l set', renew handles connected set = some (l, set') ∧
      Owned Socket.IsTcp set' (l.sockets ++ rest) := by
  induction handles generalizing set connected rest with
  | nil => exact ⟨_, _, rfl, ho⟩
  | cons handle handles ih =>
    obtain ⟨state, hstate⟩ := exists_getTcp ho mem_cons_self
    rw [renew, hstate]
    dsimp only [bind_eq_bind, bind_some]
    -- the handle that stays with the listener waits among the rest until the loop is done
    have hback : ∀ {set' : SocketSet} {kept : SocketHandle} {l : TcpListener},
        Owned Socket.IsTcp set' (l.sockets ++ kept :: rest) →
        Owned Socket.IsTcp set' (TcpListener.sockets ⟨kept :: l.handles, l.connectedSockets⟩ ++
          rest) := fun ho' => ho'.perm perm_middle
    have hkeep : ∀ kept : SocketHandle, (kept :: (handles ++ (connected ++ rest))).Perm
        (handles ++ (connected ++ kept :: rest)) := fun kept =>
      perm_middle.symm.trans (perm_middle.symm.append_left handles)
    split
    · have hmove : ∀ new : SocketHandle, (new :: handle :: (handles ++ (connected ++ rest))).Perm
            (handles ++ ((connected ++ [handle]) ++ new :: rest)) := by
        intro new
        rw [List.perm_iff_count]
        intro a
        simp only [List.count_append, List.count_cons, List.count_nil]
        omega
      obtain ⟨l, set', heq, ho'⟩ := ih _ ((owned_add_listen ho).perm (hmove _))
      rw [heq]
      exact ⟨_, _, rfl, hback ho'⟩
    · split
      · obtain ⟨set₁, heq₁, ho₁⟩ := owned_tryRemove ho
        obtain ⟨l, set', heq, ho'⟩ := ih _ ((owned_add_listen ho₁).perm (hkeep _))
        rw [heq₁, bind_some, heq]
        exact ⟨_, _, rfl, hback ho'⟩
      · obtain ⟨l, set', heq, ho'⟩ := ih _ (ho.perm (hkeep _))
        rw [heq]
        exact ⟨_, _, rfl, hback ho'⟩

theorem accept_owned (ho : Owned Socket.IsTcp set (l.sockets ++ rest)) :
    ∃ l' set' accepted, l.accept set = some (l', set', accepted) ∧
      Owned Socket.IsTcp set' (l'.sockets ++ (accepted.toList ++ rest)) := by
  -- a connected socket passes from the listener to the stream
  have hpass : ∀ {set : SocketSet} {handles connected : List SocketHandle} {handle : SocketHandle},
      Owned Socket.IsTcp set (TcpListener.sockets ⟨handles, handle :: connected⟩ ++ rest) →
      Owned Socket.IsTcp set (TcpListener.sockets ⟨handles, connected⟩ ++
        ((some handle).toList ++ rest)) := by
    intro set handles connected handle ho
    refine ho.perm (List.perm_iff_count.mpr fun a => ?_)
    simp only [TcpListener.sockets, toList_some, List.count_append, List.count_cons, List.count_nil]
    omega
  obtain ⟨handles, connected⟩ := l
  cases connected with
  | cons handle connected => exact ⟨_, _, _, rfl, hpass ho⟩
  | nil =>
    have ho' : Owned Socket.IsTcp set (handles ++ ([] ++ rest)) := by
      rwa [TcpListener.sockets, List.append_nil] at ho
    obtain ⟨⟨handles', connected'⟩, set', heq, ho'⟩ := renew_owned handles [] ho'
    unfold TcpListener.accept
    rw [heq]
    cases connected' with
    | cons handle connected' => exact ⟨_, _, _, rfl, hpass ho'⟩
    | nil =>
      refine ⟨_, _, none, if_pos (List.all_eq_true.mpr fun handle hmem => ?_), ho'⟩
      have hmem' : handle ∈ TcpListener.sockets ⟨handles', []⟩ ++ rest :=
        List.mem_append_left _ (List.mem_append_left _ hmem)
      obtain ⟨state, hstate⟩ := exists_getTcp ho' hmem'
      rw [hstate]
      rfl

theorem abortAll_owned {l : List SocketHandle} (handles : List SocketHandle)
    (ho : Owned Socket.IsTcp set l) (hsub : handles ⊆ l) :
    ∃ set', abortAll handles set = some set' ∧ Owned Socket.IsTcp set' l := by
  induction handles generalizing set with
  | nil => exact ⟨set, rfl, ho⟩
  | cons handle handles ih =>
    obtain ⟨hmem, hsub⟩ := List.cons_subset.mp hsub
    obtain ⟨state, hstate⟩ := exists_getTcp ho hmem
    obtain ⟨set', heq, ho'⟩ := ih (owned_setTcp ho hstate .closed) hsub
    refine ⟨set', ?_, ho'⟩
    rw [abortAll, hstate]
    exact heq

theorem closeConnections_owned (handles : List SocketHandle)
    (ho : Owned Socket.IsTcp set (handles ++ rest)) :
    ∃ remain set', closeConnections handles set = some (remain, set') ∧
      Owned Socket.IsTcp set' (remain ++ rest) := by
  induction handles generalizing set rest with
  | nil => exact ⟨[], set, rfl, ho⟩
  | cons handle handles ih =>
    obtain ⟨state, hstate⟩ := exists_getTcp ho mem_cons_self
    rw [closeConnections, hstate]
    dsimp only [bind_eq_bind, bind_some]
    split
    · obtain ⟨set₁, heq₁, ho₁⟩ := owned_tryRemove ho
      obtain ⟨remain, set', heq, ho'⟩ := ih ho₁
      rw [heq₁]
      exact ⟨remain, set', heq, ho'⟩
    · have hkept := (owned_setTcp ho hstate state.close).perm perm_middle.symm
      obtain ⟨remain, set', heq, ho'⟩ := ih hkept
      rw [heq]
      exact ⟨_, _, rfl, ho'.perm perm_middle⟩

end Loops

namespace State

open SocketSet

variable {σ σ' : State} {i : Nat} {handle : SocketHandle}

theorem owned_listener (hl : σ.listeners[i]? = some l) (l' : TcpListener) :
    σ.owned.Perm (l.sockets ++ { σ with listeners := σ.listeners.eraseIdx i }.owned) ∧
    ({ σ with listeners := σ.listeners.set i l' } : State).owned.Perm
      (l'.sockets ++ { σ with listeners := σ.listeners.eraseIdx i }.owned) := by
  obtain ⟨hi, rfl⟩ := List.getElem?_eq_some_iff.mp hl
  have hsplit : ∀ {listeners : List TcpListener} {l : TcpListener},
      listeners.Perm (l :: σ.listeners.eraseIdx i) →
      ({ σ with listeners := listeners } : State).owned.Perm
        (l.sockets ++ { σ with listeners := σ.listeners.eraseIdx i }.owned) := by
    intro listeners l hperm
    have h := hperm.flatMap_right TcpListener.sockets
    rw [List.flatMap_cons] at h
    have h' := (h.append_right σ.streams).append_right σ.closedConnections
    simpa only [owned, append_assoc] using h'
  exact ⟨hsplit (List.getElem_cons_eraseIdx_perm hi).symm,
    hsplit (List.set_perm_cons_eraseIdx hi l')⟩

theorem owned_stream (hs : σ.streams[i]? = some handle) :
    σ.owned.Perm (handle :: { σ with streams := σ.streams.eraseIdx i }.owned) := by
  obtain ⟨hi, rfl⟩ := List.getElem?_eq_some_iff.mp hs
  have h := (List.getElem_cons_eraseIdx_perm hi).symm
  have h' := (h.append_left (σ.listeners.flatMap TcpListener.sockets)).append_right
    σ.closedConnections
  refine h'.trans ?_
  rw [append_assoc, owned, append_assoc]
  exact perm_middle

namespace SocketsOwned

section

variable (h : σ.SocketsOwned)

include h

theorem bindOnInterface (port : Option UInt16) (claimed : Bool)
    (backlogs : Nat) : (σ.bindOnInterface port claimed backlogs).SocketsOwned := by
  unfold State.bindOnInterface
  split
  · exact h
  split
  · exact h
  refine ⟨?_, h.noPanic⟩
  have hadd := addListening_owned backlogs h.owned
  simpa only [State.owned, List.flatMap_cons, TcpListener.sockets, List.append_nil,
    append_assoc] using hadd

theorem accept (hl : σ.listeners[i]? = some l) : (σ.orPanic (σ.acceptAt i l)).SocketsOwned := by
  obtain ⟨hbefore, -⟩ := owned_listener hl l
  obtain ⟨l', set', accepted, heq, ho⟩ := accept_owned (h.owned.perm hbefore)
  rw [acceptAt, heq]
  change SocketsOwned { σ with
    socketSet := set'
    listeners := σ.listeners.set i l'
    streams := accepted.toList ++ σ.streams }
  refine ⟨ho.perm ?_, h.noPanic⟩
  -- the new stream is taken from the listener
  obtain ⟨-, hafter⟩ := owned_listener hl l'
  rw [List.perm_iff_count] at hafter ⊢
  intro a
  have hcount := hafter a
  simp only [State.owned, List.count_append] at hcount ⊢
  omega

theorem connect (claimed connectIsErr : Bool) :
    (σ.orPanic (σ.connect claimed connectIsErr)).SocketsOwned := by
  unfold State.connect
  have hadd := h.owned.add (show Socket.IsTcp (.tcp .closed) from trivial)
  split
  · exact h
  dsimp only
  split
  · obtain ⟨set', heq, ho⟩ := owned_tryRemove hadd
    rw [heq]
    exact ⟨ho, h.noPanic⟩
  obtain ⟨state, hstate⟩ := exists_getTcp hadd mem_cons_self
  refine ⟨(owned_setTcp hadd hstate .synSent).perm ?_, h.noPanic⟩
  change ((σ.socketSet.add (.tcp .closed)).1 :: σ.owned).Perm (_ ++ (_ :: σ.streams) ++ _)
  rw [State.owned, append_assoc, append_assoc]
  exact perm_middle.symm

theorem dropStream (hs : σ.streams[i]? = some handle) :
    (σ.orPanic (σ.dropStreamAt i handle)).SocketsOwned := by
  have ho := h.owned.perm (owned_stream hs)
  obtain ⟨state, hstate⟩ := exists_getTcp ho mem_cons_self
  rw [dropStreamAt, hstate]
  dsimp only [bind_eq_bind, bind_some]
  split
  · obtain ⟨set', heq, ho'⟩ := owned_tryRemove ho
    rw [heq]
    exact ⟨ho', h.noPanic⟩
  refine ⟨(owned_setTcp ho hstate state.close).perm ?_, h.noPanic⟩
  change (handle :: (_ ++ σ.streams.eraseIdx i ++ σ.closedConnections)).Perm
    (_ ++ σ.streams.eraseIdx i ++ (σ.closedConnections ++ [handle]))
  rw [← append_assoc]
  exact (List.perm_append_singleton handle _).symm

theorem closeAll : (σ.orPanic σ.closeAll).SocketsOwned := by
  have ho := h.owned.perm List.perm_append_comm
  obtain ⟨remain, set', heq, ho'⟩ := closeConnections_owned σ.closedConnections ho
  rw [State.closeAll, heq]
  exact ⟨ho'.perm List.perm_append_comm, h.noPanic⟩

/-- **A listener that is dropped** leaves its sockets to nobody. -/
theorem dropListener_iff (hl : σ.listeners[i]? = some l) :
    (σ.orPanic (σ.dropListenerAt i l)).SocketsOwned ↔ l.handles = [] ∧ l.connectedSockets = [] := by
  obtain ⟨hbefore, -⟩ := owned_listener hl l
  obtain ⟨set', heq, ho⟩ := abortAll_owned l.sockets (h.owned.perm hbefore)
    (List.subset_append_left ..)
  rw [dropListenerAt, heq, ← List.append_eq_nil_iff]
  change SocketsOwned { σ with socketSet := set', listeners := σ.listeners.eraseIdx i } ↔
    l.sockets = []
  constructor
  · exact fun hafter => ho.eq_nil_of_forget hafter.owned
  intro hempty
  rw [hempty] at ho
  exact ⟨ho, h.noPanic⟩

end

end SocketsOwned

/-- One operation keeps every socket with an owner, unless it drops a listener that has some. -/
theorem socketsOwned_step {a : Action} (h : σ.SocketsOwned) (hstep : σ.step a = some σ') :
    σ'.SocketsOwned ↔ σ.DropsEmpty a := by
  cases a with
  | bind port claimed backlogs =>
    cases hstep
    exact iff_of_true (h.bindOnInterface port claimed backlogs) trivial
  | accept i =>
    obtain ⟨l, hl, rfl⟩ := map_eq_some_iff.mp hstep
    exact iff_of_true (h.accept hl) trivial
  | connect claimed connectIsErr =>
    cases hstep
    exact iff_of_true (h.connect claimed connectIsErr) trivial
  | dropStream i =>
    obtain ⟨handle, hs, rfl⟩ := map_eq_some_iff.mp hstep
    exact iff_of_true (h.dropStream hs) trivial
  | dropListener i =>
    obtain ⟨l, hl, rfl⟩ := map_eq_some_iff.mp hstep
    rw [h.dropListener_iff hl]
    constructor
    · intro hempty l' hl'
      cases hl.symm.trans hl'
      exact hempty
    · exact fun hall => hall l hl
  | closeConnections =>
    cases hstep
    exact iff_of_true h.closeAll trivial
  | tcpState handle state =>
    obtain ⟨state₀, hget, rfl⟩ := map_eq_some_iff.mp hstep
    exact iff_of_true ⟨owned_setTcp h.owned hget state, h.noPanic⟩ trivial
  | addUdp =>
    cases hstep
    exact iff_of_true ⟨h.owned.add_other id, h.noPanic⟩ trivial
  | removeUdp handle =>
    obtain ⟨hget, hsome⟩ := ite_none_right_eq_some.mp hstep
    cases hsome
    exact iff_of_true ⟨h.owned.remove_other hget id, h.noPanic⟩ trivial

theorem socketsOwned_init : SocketsOwned init :=
  ⟨⟨List.nodup_nil, fun _ => iff_of_false List.not_mem_nil (by rintro ⟨_, hget, -⟩; cases hget)⟩,
    rfl⟩

/-- **Every socket has an owner**: in all states of a run each TCP socket of the set has exactly one
owner, each owned socket is in the set and no operation has used or removed a socket that was not
there, exactly if no listener is dropped with a socket in its hands. -/
theorem sockets_owned_iff {as : List Action} (hrun : run step init as = some σ) :
    Always step SocketsOwned init as ↔ Meets step DropsEmpty init as :=
  always_iff_meets (fun _ h hstep => ⟨trivial, socketsOwned_step h hstep⟩) trivial
    socketsOwned_init hrun

instance (σ : State) : DecidablePred σ.DropsEmpty := fun a => by
  induction a using Action.casesOn <;> dsimp only [DropsEmpty] <;> infer_instance

/-- A connection is accepted, dropped and closed, and a listener without sockets is dropped. -/
def accepted : List Action :=
  [.bind (some 80) true 1, .tcpState 0 .established, .accept 0, .dropStream 0,
    .tcpState 0 .closed, .closeConnections, .bind none true 0, .dropListener 0]

theorem sockets_owned_iff_accepted :
    run step init accepted = some ⟨[none, some (.tcp .listen)], [⟨[1], []⟩], [], [], false⟩ ∧
      Always step SocketsOwned init accepted :=
  ⟨rfl, (sockets_owned_iff rfl).mpr
    (Meets.of_run (show run (guarded step DropsEmpty) init accepted = some _ from rfl)).1⟩

/-- **The sockets of a listener that was dropped**: the one that it listened on is closed and stays
in the set, and nobody has its handle. -/
theorem sockets_left : ∃ σ, run step init [.bind (some 80) true 1, .dropListener 0] = some σ ∧
      σ.socketSet.get 0 = some (.tcp .closed) ∧ σ.owned = [] ∧ ¬σ.SocketsOwned := by
  refine ⟨_, rfl, rfl, rfl, fun h => ?_⟩
  exact List.not_mem_nil ((h.owned.mem_iff 0).mpr ⟨.tcp .closed, rfl, trivial⟩)

end State

end TcpSockets

end Awkernel
