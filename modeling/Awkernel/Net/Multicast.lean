import Awkernel.Lib.Census
import Awkernel.Lib.RefCounts
import Awkernel.Lib.TransitionSystem

/-!
# Multicast groups

The two levels at which multicast memberships are counted. An interface
(`IfNet::{join_multicast_v4, leave_multicast_v4}`, `awkernel_lib/src/net/if_net.rs`) keeps the
groups it has joined, and for each hardware address the number of groups that map to it; the filter
of the driver holds the addresses with a positive number. The sockets (`udp_socket_no_std.rs`) share
for each group the number of sockets that have joined it, and the interface joins with the first of
them and leaves with the last.

The result of every operation of the driver and of `smoltcp` is an argument of the call
(`Outcome`). A driver that reports an error may have changed its filter or not.

An error of the driver comes after the count was changed, and `?` returns without undoing it
(`count_without_group`). A socket that is dropped ignores the errors of its leaves, and then the
group keeps its count (`counted_after_drop`). Where the driver does not fail, and the leaves of a
drop do not fail, the counts are right and a call that returns an error changes nothing
(`multicast_consistent`).
-/

namespace Awkernel

abbrev Multicast.MacAddr := Vector UInt8 6

open TransitionSystem RefCounts List Option Finset Prod Function

namespace Multicast

/-- `Ipv4Addr`, by its octets. -/
structure Ipv4Addr where
  (a b c d : UInt8)
  deriving DecidableEq

namespace Ipv4Addr

/-- `is_multicast`. -/
def isMulticast (addr : Ipv4Addr) : Bool := 224 ≤ addr.a && addr.a ≤ 239

/-- `ipv4_addr_to_mac_addr`. -/
def toMac (addr : Ipv4Addr) : MacAddr :=
  #v[0x01, 0x00, 0x5e, addr.b &&& 0x7f, addr.c, addr.d]

end Ipv4Addr

inductive NetManagerError
  | multicastInvalidIpv4Address
  | multicastInvalidInterfaceAddress
  | multicastNotJoined
  | multicastError
  | deviceError
  | sendError
  | invalidState
  deriving DecidableEq

/-- `smoltcp::iface::MulticastError`. -/
inductive MulticastError
  | exhausted
  | groupTableFull
  | ipv6NotSupported

/-- What `NetDevice::{add_multicast_addr, remove_multicast_addr}` return; an error tells nothing
about the filter. -/
inductive DriverResult
  | ok
  | error (applied : Bool)
  deriving DecidableEq

namespace DriverResult

def isOk : DriverResult → Bool
  | ok => true
  | error _ => false

/-- The filter has changed. -/
def applied : DriverResult → Bool
  | ok => true
  | error applied => applied

end DriverResult

/-- The results of the operations that a call uses. -/
structure Outcome where
  /-- `first_net_driver_ref` finds a driver and its queue. -/
  driverRef : Bool
  /-- `Interface::{join_multicast_group, leave_multicast_group}`. -/
  group : Except MulticastError Bool
  addMac : DriverResult
  removeMac : DriverResult

/-- What the closure passed to `first_net_driver_ref` returns. -/
def Outcome.result (o : Outcome) : Except NetManagerError Bool :=
  if !o.driverRef then .error .invalidState
  else
    match o.group with
    | .ok sent => .ok sent
    | .error .exhausted => .error .sendError
    | .error _ => .error .multicastError

def Outcome.succeeds (o : Outcome) : Bool :=
  match o.result with
  | .ok _ => true
  | .error _ => false

/-! ### The interface -/

/-- `IfNetInner`, and the filter of the driver. -/
structure Inner where
  multicastAddrIpv4 : Finset Ipv4Addr
  multicastAddrMac : MacAddr → Option Nat
  filter : Finset MacAddr

namespace Inner

/-- One more group maps to `mac`. -/
def enable (mac : MacAddr) (r : DriverResult) (n : Inner) : Inner × Bool :=
  match n.multicastAddrMac mac with
  | some count =>
    ({ n with multicastAddrMac := update n.multicastAddrMac mac (some (count + 1)) }, true)
  | none =>
    ({ n with
        multicastAddrMac := update n.multicastAddrMac mac (some 1)
        filter := if r.applied then insert mac n.filter else n.filter }, r.isOk)

/-- One group less maps to `mac`. -/
def disable (mac : MacAddr) (r : DriverResult) (n : Inner) : Inner × Bool :=
  match n.multicastAddrMac mac with
  | some count =>
    if count = 1 then
      ({ n with
          multicastAddrMac := update n.multicastAddrMac mac none
          filter := if r.applied then n.filter.erase mac else n.filter }, r.isOk)
    else
      ({ n with multicastAddrMac := update n.multicastAddrMac mac (some (count - 1)) }, true)
  | none => (n, true)

/-- `IfNet::join_multicast_v4`. -/
def joinMulticastV4 (addr : Ipv4Addr) (o : Outcome) (n : Inner) :
    Inner × Except NetManagerError Bool :=
  if !addr.isMulticast then (n, .error .multicastInvalidIpv4Address)
  else if addr ∈ n.multicastAddrIpv4 then (n, .ok false)
  else
    match n.enable addr.toMac o.addMac with
    | (n, false) => (n, .error .deviceError)
    | (n, true) =>
      match o.result with
      | .ok sent => ({ n with multicastAddrIpv4 := insert addr n.multicastAddrIpv4 }, .ok sent)
      | .error e =>
        match n.disable addr.toMac o.removeMac with
        | (n, false) => (n, .error .deviceError)
        | (n, true) => (n, .error e)

/-- `IfNet::leave_multicast_v4`. -/
def leaveMulticastV4 (addr : Ipv4Addr) (o : Outcome) (n : Inner) :
    Inner × Except NetManagerError Bool :=
  if !addr.isMulticast then (n, .error .multicastInvalidIpv4Address)
  else if addr ∉ n.multicastAddrIpv4 then (n, .error .multicastNotJoined)
  else
    match o.result with
    | .error e => (n, .error e)
    | .ok sent =>
      let n := { n with multicastAddrIpv4 := n.multicastAddrIpv4.erase addr }
      match n.multicastAddrMac addr.toMac with
      | none => (n, .error .multicastInvalidIpv4Address)
      | some _ =>
        match n.disable addr.toMac o.removeMac with
        | (n, false) => (n, .error .deviceError)
        | (n, true) => (n, .ok sent)

/-- The number of joined groups that map to `mac`. -/
def numGroups (n : Inner) : MacAddr → Nat := fiber Ipv4Addr.toMac n.multicastAddrIpv4

structure Consistent (n : Inner) : Prop where
  counts : Counts n.multicastAddrMac n.numGroups
  filter : ∀ mac, mac ∈ n.filter ↔ 0 < n.numGroups mac

end Inner

/-! ### The sockets -/

/-- `UdpSocket`, as far as the groups are concerned. -/
structure UdpSocket where
  isIpv4 : Bool
  joinedMulticastAddrV4 : Finset Ipv4Addr

/-- An interface and the sockets on it. -/
structure State where
  inner : Inner
  /-- The addresses of the interface. -/
  ipv4Addrs : List Ipv4Addr
  /-- `NUM_MULTICAST_JOIN_IPV4`, for this interface. -/
  numMulticastJoin : Ipv4Addr → Option Nat
  /-- The sockets that have been bound, and those that have not been dropped. -/
  numSockets : Nat
  live : Finset Nat
  socket : Nat → UdpSocket

inductive Action
  | bind (isIpv4 : Bool)
  | addIpv4Addr (addr : Ipv4Addr)
  /-- A call for the interface. -/
  | join (addr : Ipv4Addr) (o : Outcome)
  | leave (addr : Ipv4Addr) (o : Outcome)
  | socketJoin (s : Nat) (addr interfaceAddr : Ipv4Addr) (o : Outcome)
  | socketLeave (s : Nat) (addr interfaceAddr : Ipv4Addr) (o : Outcome)
  /-- A socket is dropped; `leaves` are its groups in the order in which it leaves them. -/
  | drop (s : Nat) (leaves : List (Ipv4Addr × Outcome))

namespace State

def init : State where
  inner := ⟨∅, fun _ => none, ∅⟩
  ipv4Addrs := []
  numMulticastJoin := fun _ => none
  numSockets := 0
  live := ∅
  socket := fun _ => ⟨true, ∅⟩

def setJoined (σ : State) (s : Nat) (joined : Finset Ipv4Addr) : State :=
  { σ with
    socket := update σ.socket s { σ.socket s with joinedMulticastAddrV4 := joined } }

/-- `UdpSocket::join_multicast_v4`. -/
def socketJoin (σ : State) (s : Nat) (addr interfaceAddr : Ipv4Addr) (o : Outcome) :
    State × Except NetManagerError Unit :=
  let joined := (σ.socket s).joinedMulticastAddrV4
  if !(σ.socket s).isIpv4 then (σ, .error .multicastError)
  else if !addr.isMulticast then (σ, .error .multicastInvalidIpv4Address)
  else if addr ∈ joined then (σ, .ok ())
  else if interfaceAddr ∉ σ.ipv4Addrs then (σ, .error .multicastInvalidInterfaceAddress)
  else
    match σ.numMulticastJoin addr with
    | some num =>
      ({ σ with
          numMulticastJoin := update σ.numMulticastJoin addr (some (num + 1)) }.setJoined s
        (insert addr joined), .ok ())
    | none =>
      match σ.inner.joinMulticastV4 addr o with
      | (inner, .error e) => ({ σ with inner := inner }, .error e)
      | (inner, .ok _) =>
        ({ σ with
            inner := inner
            numMulticastJoin := update σ.numMulticastJoin addr (some 1) }.setJoined s
          (insert addr joined), .ok ())

/-- `UdpSocket::leave_multicast_v4`; `none` is the `unreachable!()`. -/
def socketLeave (σ : State) (s : Nat) (addr interfaceAddr : Ipv4Addr) (o : Outcome) :
    Option (State × Except NetManagerError Unit) :=
  let joined := (σ.socket s).joinedMulticastAddrV4
  if !(σ.socket s).isIpv4 then some (σ, .error .multicastError)
  else if addr ∉ joined then some (σ, .ok ())
  else if interfaceAddr ∉ σ.ipv4Addrs then some (σ, .error .multicastInvalidInterfaceAddress)
  else
    match σ.numMulticastJoin addr with
    | none => none
    | some num =>
      if num = 1 then
        match σ.inner.leaveMulticastV4 addr o with
        | (inner, .error e) => some ({ σ with inner := inner }, .error e)
        | (inner, .ok _) =>
          some ({ σ with
              inner := inner
              numMulticastJoin := update σ.numMulticastJoin addr none }.setJoined s
            (joined.erase addr), .ok ())
      else
        some ({ σ with
            numMulticastJoin := update σ.numMulticastJoin addr (some (num - 1)) }.setJoined
          s (joined.erase addr), .ok ())

/-- The leaves of a drop, whose results are ignored. -/
def leaveAll (σ : State) (s : Nat) (interfaceAddr : Ipv4Addr) :
    List (Ipv4Addr × Outcome) → Option State
  | [] => some σ
  | (addr, o) :: leaves => do
    let (σ, _) ← σ.socketLeave s addr interfaceAddr o
    σ.leaveAll s interfaceAddr leaves

def forget (σ : State) (s : Nat) : State := { σ with live := σ.live.erase s }

/-- `UdpSocket::drop`. -/
def dropSocket (σ : State) (s : Nat) (leaves : List (Ipv4Addr × Outcome)) : Option State :=
  match σ.ipv4Addrs with
  | interfaceAddr :: _ => (σ.leaveAll s interfaceAddr leaves).map (forget · s)
  | [] => some (σ.forget s)

/-- A call, with its result; `none` if there is no such socket. -/
def exec (σ : State) : Action → Option (State × Except NetManagerError Unit)
  | .bind isIpv4 =>
    some ({ σ with
      numSockets := σ.numSockets + 1
      live := insert σ.numSockets σ.live
      socket := update σ.socket σ.numSockets ⟨isIpv4, ∅⟩ }, .ok ())
  | .addIpv4Addr addr => some ({ σ with ipv4Addrs := σ.ipv4Addrs ++ [addr] }, .ok ())
  | .join addr o =>
    let (inner, result) := σ.inner.joinMulticastV4 addr o
    some ({ σ with inner := inner }, result.map fun _ => ())
  | .leave addr o =>
    let (inner, result) := σ.inner.leaveMulticastV4 addr o
    some ({ σ with inner := inner }, result.map fun _ => ())
  | .socketJoin s addr interfaceAddr o =>
    if s ∈ σ.live then some (σ.socketJoin s addr interfaceAddr o) else none
  | .socketLeave s addr interfaceAddr o =>
    if s ∈ σ.live then σ.socketLeave s addr interfaceAddr o else none
  | .drop s leaves =>
    if s ∈ σ.live ∧ (leaves.map fst).Nodup ∧
        (leaves.map fst).toFinset = (σ.socket s).joinedMulticastAddrV4 then
      (σ.dropSocket s leaves).map fun σ => (σ, .ok ())
    else none

def step (σ : State) (a : Action) : Option State := (σ.exec a).map fst

end State

/-! ### The interface keeps its counts -/

namespace Inner

variable {n n' : Inner} {addr : Ipv4Addr} {mac : MacAddr} {o : Outcome}

/-- A hardware address without groups has no entry, and is not in the filter. -/
theorem Consistent.notMem_filter (h : n.Consistent) (hnone : n.multicastAddrMac mac = none) :
    mac ∉ n.filter := by
  rw [h.filter, h.counts.eq_none_iff.mp hnone]
  exact Nat.lt_irrefl 0

variable {count : Nat} {result : Except NetManagerError Bool}

theorem Consistent.mem_filter (h : n.Consistent) (hsome : n.multicastAddrMac mac = some count) :
    mac ∈ n.filter := by
  obtain ⟨rfl, hpos⟩ := h.counts.eq_some_iff.mp hsome
  exact (h.filter mac).mpr hpos

/-- **A driver that does not fail**: the count goes up, and the filter holds the address. -/
theorem Consistent.enable_eq (h : n.Consistent) (mac : MacAddr) : n.enable mac .ok = ({ n with
      multicastAddrMac := retain n.multicastAddrMac mac
      filter := insert mac n.filter }, true) := by
  unfold enable retain
  split
  · next count hcount =>
    rw [hcount, insert_eq_self.mpr (h.mem_filter hcount)]
    rfl
  · next hnone =>
    rw [hnone]
    rfl

/-- The count goes down, and the filter loses the address with the last group. -/
theorem disable_eq (hcount : n.multicastAddrMac mac = some (count + 1)) :
    n.disable mac .ok = ({ n with
      multicastAddrMac := release n.multicastAddrMac mac
      filter := if count = 0 then n.filter.erase mac else n.filter }, true) := by
  unfold disable release
  rw [hcount]
  dsimp only [getD_some]
  cases count with
  | zero => rfl
  | succ k =>
    rw [if_neg (by omega), if_neg k.succ_ne_zero, Nat.add_sub_cancel, entry_succ]

section

variable (h : n.Consistent)

include h

theorem Consistent.disable_enable (mac : MacAddr) : disable mac .ok { n with
      multicastAddrMac := retain n.multicastAddrMac mac
      filter := insert mac n.filter } = (n, true) := by
  have hself : retain n.multicastAddrMac mac mac =
      some ((n.multicastAddrMac mac).getD 0 + 1) := update_self ..
  rw [disable_eq hself, h.counts.release_retain]
  cases hcount : n.multicastAddrMac mac with
  | none =>
    rw [getD_none, if_pos rfl, erase_insert (h.notMem_filter hcount)]
  | some count =>
    obtain ⟨-, hpos⟩ := h.counts.eq_some_iff.mp hcount
    rw [getD_some, if_neg hpos.ne', insert_eq_self.mpr (h.mem_filter hcount)]

theorem Consistent.addGroup (hnew : addr ∉ n.multicastAddrIpv4) : Consistent { n with
      multicastAddrIpv4 := insert addr n.multicastAddrIpv4
      multicastAddrMac := retain n.multicastAddrMac addr.toMac
      filter := insert addr.toMac n.filter } := by
  have hgroups : fiber Ipv4Addr.toMac (insert addr n.multicastAddrIpv4) =
      update n.numGroups addr.toMac (n.numGroups addr.toMac + 1) := fiber_insert hnew
  refine ⟨?_, fun mac => ?_⟩
  · change Counts _ (fiber Ipv4Addr.toMac (insert addr n.multicastAddrIpv4))
    rw [hgroups]
    exact h.counts.retain addr.toMac
  change mac ∈ insert addr.toMac n.filter ↔
    0 < fiber Ipv4Addr.toMac (insert addr n.multicastAddrIpv4) mac
  rw [hgroups, mem_insert, h.filter]
  rcases eq_or_ne mac addr.toMac with rfl | hne
  · rw [update_self]
    exact iff_of_true (.inl rfl) (Nat.succ_pos _)
  · rw [update_of_ne hne]
    exact or_iff_right hne

theorem Consistent.removeGroup (hold : addr ∈ n.multicastAddrIpv4)
    (hcount : n.multicastAddrMac addr.toMac = some (count + 1)) :
    Consistent { n with
      multicastAddrIpv4 := n.multicastAddrIpv4.erase addr
      multicastAddrMac := release n.multicastAddrMac addr.toMac
      filter := if count = 0 then n.filter.erase addr.toMac else n.filter } := by
  have hgroups : fiber Ipv4Addr.toMac (n.multicastAddrIpv4.erase addr) =
      update n.numGroups addr.toMac (n.numGroups addr.toMac - 1) := fiber_erase hold
  have hnum := (h.counts.eq_some_iff.mp hcount).1
  refine ⟨?_, fun mac => ?_⟩
  · change Counts _ (fiber Ipv4Addr.toMac (n.multicastAddrIpv4.erase addr))
    rw [hgroups]
    exact h.counts.release addr.toMac
  change mac ∈ (if count = 0 then n.filter.erase addr.toMac else n.filter) ↔
    0 < fiber Ipv4Addr.toMac (n.multicastAddrIpv4.erase addr) mac
  rw [hgroups]
  rcases eq_or_ne mac addr.toMac with rfl | hne
  · rw [update_self, hnum, Nat.add_sub_cancel]
    split
    · next hzero =>
      rw [hzero]
      exact iff_of_false (notMem_erase _ _) (Nat.lt_irrefl 0)
    · next hpos =>
      exact iff_of_true ((h.filter _).mpr (hnum ▸ Nat.succ_pos count)) (Nat.pos_of_ne_zero hpos)
  · rw [update_of_ne hne, ← h.filter]
    split
    · exact mem_erase.trans (and_iff_right hne)
    · exact Iff.rfl

/-- **A join with a driver that does not fail**: an error changes nothing. -/
theorem Consistent.join (hadd : o.addMac = .ok) (hremove : o.removeMac = .ok)
    (hjoin : n.joinMulticastV4 addr o = (n', result)) :
    n'.Consistent ∧ (∀ e, result = .error e → n' = n) ∧
      (∀ g, g ∈ n.multicastAddrIpv4 → g ∈ n'.multicastAddrIpv4) := by
  unfold joinMulticastV4 at hjoin
  split at hjoin
  · obtain ⟨rfl, rfl⟩ := hjoin
    exact ⟨h, fun _ _ => rfl, fun _ hg => hg⟩
  split at hjoin
  · obtain ⟨rfl, rfl⟩ := hjoin
    exact ⟨h, fun _ _ => rfl, fun _ hg => hg⟩
  rename_i hnew
  rw [hadd, h.enable_eq] at hjoin
  dsimp only at hjoin
  split at hjoin
  · obtain ⟨rfl, rfl⟩ := hjoin
    exact ⟨h.addGroup hnew, nofun, fun _ hg => mem_insert_of_mem hg⟩
  rw [hremove, h.disable_enable] at hjoin
  obtain ⟨rfl, rfl⟩ := hjoin
  exact ⟨h, fun _ _ => rfl, fun _ hg => hg⟩

/-- **A leave with a driver that does not fail.** -/
theorem Consistent.leave (hremove : o.removeMac = .ok)
    (hleave : n.leaveMulticastV4 addr o = (n', result)) :
    n'.Consistent ∧ (∀ e, result = .error e → n' = n) ∧
      (∀ g, g ≠ addr → g ∈ n.multicastAddrIpv4 → g ∈ n'.multicastAddrIpv4) ∧
      (addr.isMulticast = true → addr ∈ n.multicastAddrIpv4 → o.succeeds = true →
        ∃ sent, result = .ok sent) := by
  unfold leaveMulticastV4 at hleave
  split at hleave
  · next hnot =>
    obtain ⟨rfl, rfl⟩ := hleave
    exact ⟨h, fun _ _ => rfl, fun _ _ hg => hg, fun hm => absurd hm (by simpa using hnot)⟩
  split at hleave
  · next hnot =>
    obtain ⟨rfl, rfl⟩ := hleave
    exact ⟨h, fun _ _ => rfl, fun _ _ hg => hg, fun _ hm => absurd hm hnot⟩
  rename_i hold
  have hold : addr ∈ n.multicastAddrIpv4 := not_not.mp hold
  split at hleave
  · next e he =>
    obtain ⟨rfl, rfl⟩ := hleave
    refine ⟨h, fun _ _ => rfl, fun _ _ hg => hg, fun _ _ hok => ?_⟩
    unfold Outcome.succeeds at hok
    rw [he] at hok
    cases hok
  · next sent hok =>
    -- the group itself is counted
    have hpos : 0 < n.numGroups addr.toMac := fiber_pos.mpr ⟨addr, hold, rfl⟩
    obtain ⟨count, hcount⟩ : ∃ count, n.multicastAddrMac addr.toMac = some (count + 1) :=
      ⟨n.numGroups addr.toMac - 1, h.counts.eq_some_iff.mpr ⟨by omega, Nat.succ_pos _⟩⟩
    dsimp only at hleave
    rw [hcount] at hleave
    have hdisable := disable_eq
      (n := { n with multicastAddrIpv4 := n.multicastAddrIpv4.erase addr }) hcount
    rw [hremove, hdisable] at hleave
    obtain ⟨rfl, rfl⟩ := hleave
    refine ⟨h.removeGroup hold hcount, nofun, fun _ hne hg => ?_, fun _ _ _ => ⟨sent, rfl⟩⟩
    exact mem_erase_of_ne_of_mem hne hg

end

end Inner

/-! ### The sockets keep theirs -/

namespace State

variable {σ σ' : State} {s : Nat} {addr interfaceAddr : Ipv4Addr} {o : Outcome}

/-- The number of live sockets that have joined a group. -/
def numJoined (σ : State) (g : Ipv4Addr) : Nat :=
  Census.count σ.live (fun sock => decide (g ∈ sock.joinedMulticastAddrV4)) σ.socket

/-- Both levels count what they should. -/
structure Consistent (σ : State) : Prop where
  inner : σ.inner.Consistent
  sockets : Counts σ.numMulticastJoin σ.numJoined

/-- A leave for group `addr` does not fail: the driver does not, and if the interface has to leave
the group then it is a member and `smoltcp` does not fail. -/
def Leaves (σ : State) (addr : Ipv4Addr) (o : Outcome) : Prop :=
  o.removeMac = .ok ∧ (σ.numMulticastJoin addr = some 1 →
    addr ∈ σ.inner.multicastAddrIpv4 ∧ o.succeeds = true)

/-- No operation of the driver fails, and no leave of a socket that is dropped. -/
def NoFailure (σ : State) : Action → Prop
  | .join _ o | .leave _ o | .socketJoin _ _ _ o | .socketLeave _ _ _ o =>
    o.addMac = .ok ∧ o.removeMac = .ok
  | .drop _ leaves => ∀ l ∈ leaves, σ.Leaves l.1 l.2
  | .bind _ | .addIpv4Addr _ => True

structure Inv (σ : State) : Prop where
  consistent : σ.Consistent
  fresh : ∀ s ∈ σ.live, s < σ.numSockets
  joined : ∀ s ∈ σ.live, ∀ g ∈ (σ.socket s).joinedMulticastAddrV4,
    (σ.socket s).isIpv4 = true ∧ g.isMulticast = true ∧ σ.ipv4Addrs ≠ []

theorem Inv.init : Inv State.init where
  consistent :=
    { inner :=
        { counts := fun mac => by
            rfl
          filter := fun mac => by
            exact iff_of_false (notMem_empty mac) (Nat.lt_irrefl 0) }
      sockets := fun _ => rfl }
  fresh _ h := absurd h (notMem_empty _)
  joined _ h := absurd h (notMem_empty _)

theorem joined_setJoined (σ : State) (s : Nat) (joined : Finset Ipv4Addr) :
    ((σ.setJoined s joined).socket s).joinedMulticastAddrV4 = joined := by
  change (update σ.socket s _ s).joinedMulticastAddrV4 = joined
  rw [update_self]

theorem numJoined_setJoined (hs : s ∈ σ.live) (joined : Finset Ipv4Addr) (g : Ipv4Addr) :
    (σ.setJoined s joined).numJoined g + (decide (g ∈ (σ.socket s).joinedMulticastAddrV4)).toNat =
      σ.numJoined g + (decide (g ∈ joined)).toNat :=
  Census.count_update _ σ.socket hs { σ.socket s with joinedMulticastAddrV4 := joined }

theorem numJoined_insert (hs : s ∈ σ.live) (hnew : addr ∉ (σ.socket s).joinedMulticastAddrV4) :
    (σ.setJoined s (insert addr (σ.socket s).joinedMulticastAddrV4)).numJoined =
      update σ.numJoined addr (σ.numJoined addr + 1) := by
  funext g
  have hcount := numJoined_setJoined hs (insert addr (σ.socket s).joinedMulticastAddrV4) g
  rcases eq_or_ne g addr with rfl | hne
  · rw [decide_eq_false hnew, decide_eq_true (Finset.mem_insert_self ..)] at hcount
    rw [update_self]
    exact hcount
  have hmem : g ∈ insert addr (σ.socket s).joinedMulticastAddrV4 ↔
      g ∈ (σ.socket s).joinedMulticastAddrV4 := mem_insert.trans (or_iff_right hne)
  rw [update_of_ne hne]
  rw [decide_eq_decide.mpr hmem] at hcount
  exact Nat.add_right_cancel hcount

theorem numJoined_erase (hs : s ∈ σ.live) (hold : addr ∈ (σ.socket s).joinedMulticastAddrV4) :
    (σ.setJoined s ((σ.socket s).joinedMulticastAddrV4.erase addr)).numJoined =
      update σ.numJoined addr (σ.numJoined addr - 1) := by
  funext g
  have hcount := numJoined_setJoined hs ((σ.socket s).joinedMulticastAddrV4.erase addr) g
  rcases eq_or_ne g addr with rfl | hne
  · rw [decide_eq_true hold, decide_eq_false (notMem_erase _ _)] at hcount
    rw [update_self]
    change _ + 1 = _ + 0 at hcount
    omega
  have hmem : g ∈ (σ.socket s).joinedMulticastAddrV4.erase addr ↔
      g ∈ (σ.socket s).joinedMulticastAddrV4 := mem_erase.trans (and_iff_right hne)
  rw [update_of_ne hne]
  rw [decide_eq_decide.mpr hmem] at hcount
  exact Nat.add_right_cancel hcount

variable {inner : Inner} {result : Except NetManagerError Unit}

/-- The groups of a socket change, and nothing else about the sockets. -/
theorem Inv.setJoined (h : Inv σ) (hs : s ∈ σ.live) {num : Ipv4Addr → Option Nat}
    {joined : Finset Ipv4Addr} (hinner : inner.Consistent)
    (hnum : Counts num (σ.setJoined s joined).numJoined)
    (hjoined : ∀ g ∈ joined, (σ.socket s).isIpv4 = true ∧ g.isMulticast = true ∧ σ.ipv4Addrs ≠ []) :
    Inv ({ σ with inner := inner, numMulticastJoin := num }.setJoined s joined) := by
  refine ⟨⟨hinner, hnum⟩, h.fresh, fun x hx g hg => ?_⟩
  change g ∈ (update σ.socket s _ x).joinedMulticastAddrV4 at hg
  change (update σ.socket s _ x).isIpv4 = true ∧ _
  rcases eq_or_ne x s with rfl | hne
  · rw [update_self] at hg ⊢
    exact hjoined g hg
  · rw [update_of_ne hne] at hg ⊢
    exact h.joined x hx g hg

/-- **A socket joins.** -/
theorem Inv.socketJoin (h : Inv σ) (hs : s ∈ σ.live) (hadd : o.addMac = .ok)
    (hremove : o.removeMac = .ok)
    (hjoin : σ.socketJoin s addr interfaceAddr o = (σ', result)) :
    Inv σ' ∧ ∀ e, result = .error e → σ' = σ := by
  unfold State.socketJoin at hjoin
  dsimp only at hjoin
  split at hjoin
  · obtain ⟨rfl, rfl⟩ := hjoin
    exact ⟨h, fun _ _ => rfl⟩
  rename_i hv4
  split at hjoin
  · obtain ⟨rfl, rfl⟩ := hjoin
    exact ⟨h, fun _ _ => rfl⟩
  rename_i hm
  split at hjoin
  · obtain ⟨rfl, rfl⟩ := hjoin
    exact ⟨h, fun _ _ => rfl⟩
  rename_i hnew
  split at hjoin
  · obtain ⟨rfl, rfl⟩ := hjoin
    exact ⟨h, fun _ _ => rfl⟩
  rename_i haddr
  have hjoined : ∀ g ∈ insert addr (σ.socket s).joinedMulticastAddrV4,
      (σ.socket s).isIpv4 = true ∧ g.isMulticast = true ∧ σ.ipv4Addrs ≠ [] := by
    intro g hg
    rcases mem_insert.mp hg with rfl | hg
    · refine ⟨by simpa using hv4, by simpa using hm, ?_⟩
      exact ne_nil_of_mem (not_not.mp haddr)
    · exact h.joined s hs g hg
  have hcounts := h.consistent.sockets.retain addr
  rw [← numJoined_insert hs hnew] at hcounts
  unfold retain at hcounts
  split at hjoin
  · next num hnum =>
    obtain ⟨rfl, rfl⟩ := hjoin
    rw [hnum] at hcounts
    exact ⟨h.setJoined hs h.consistent.inner hcounts hjoined, nofun⟩
  rename_i hnum
  rw [hnum] at hcounts
  split at hjoin
  · next inner e hinner =>
    obtain ⟨rfl, rfl⟩ := hjoin
    obtain ⟨-, hsame, -⟩ := h.consistent.inner.join hadd hremove hinner
    rw [hsame e rfl]
    exact ⟨h, fun _ _ => rfl⟩
  · next inner sent hinner =>
    obtain ⟨rfl, rfl⟩ := hjoin
    obtain ⟨hcons, -, -⟩ := h.consistent.inner.join hadd hremove hinner
    exact ⟨h.setJoined hs hcons hcounts hjoined, nofun⟩

/-- A leave concerns one group. -/
structure Apart (addr : Ipv4Addr) (σ σ' : State) : Prop where
  live : σ'.live = σ.live
  ipv4Addrs : σ'.ipv4Addrs = σ.ipv4Addrs
  num : ∀ g, g ≠ addr → σ'.numMulticastJoin g = σ.numMulticastJoin g
  groups : ∀ g, g ≠ addr → g ∈ σ.inner.multicastAddrIpv4 → g ∈ σ'.inner.multicastAddrIpv4

theorem Apart.refl (addr : Ipv4Addr) (σ : State) : Apart addr σ σ :=
  ⟨rfl, rfl, fun _ _ => rfl, fun _ _ h => h⟩

/-- **A socket leaves.** -/
theorem Inv.socketLeave (h : Inv σ) (hs : s ∈ σ.live) (hremove : o.removeMac = .ok)
    (hleave : σ.socketLeave s addr interfaceAddr o = some (σ', result)) :
    Inv σ' ∧ (∀ e, result = .error e → σ' = σ) ∧ Apart addr σ σ' ∧
      (σ.Leaves addr o → addr ∈ (σ.socket s).joinedMulticastAddrV4 → interfaceAddr ∈ σ.ipv4Addrs →
        (σ'.socket s).joinedMulticastAddrV4 = (σ.socket s).joinedMulticastAddrV4.erase addr) := by
  unfold State.socketLeave at hleave
  dsimp only at hleave
  split at hleave
  · next hv6 =>
    obtain ⟨rfl, rfl⟩ := hleave
    refine ⟨h, fun _ _ => rfl, .refl .., fun _ hold => ?_⟩
    exact absurd (h.joined s hs addr hold).1 (by simpa using hv6)
  split at hleave
  · next hnot =>
    obtain ⟨rfl, rfl⟩ := hleave
    exact ⟨h, fun _ _ => rfl, .refl .., fun _ hold => absurd hold hnot⟩
  rename_i hold
  have hold : addr ∈ (σ.socket s).joinedMulticastAddrV4 := not_not.mp hold
  split at hleave
  · next haddr =>
    obtain ⟨rfl, rfl⟩ := hleave
    exact ⟨h, fun _ _ => rfl, .refl .., fun _ _ h' => absurd h' haddr⟩
  split at hleave
  · cases hleave
  rename_i num hnum
  have hjoined : ∀ g ∈ (σ.socket s).joinedMulticastAddrV4.erase addr,
      (σ.socket s).isIpv4 = true ∧ g.isMulticast = true ∧ σ.ipv4Addrs ≠ [] :=
    fun g hg => h.joined s hs g (mem_of_mem_erase hg)
  have hcounts := h.consistent.sockets.release addr
  rw [← numJoined_erase hs hold] at hcounts
  unfold release at hcounts
  rw [hnum, getD_some] at hcounts
  split at hleave
  · next hone =>
    rw [hone] at hcounts
    split at hleave
    · next inner e hinner =>
      obtain ⟨rfl, rfl⟩ := hleave
      obtain ⟨-, hsame, -, hok⟩ := h.consistent.inner.leave hremove hinner
      rw [hsame e rfl]
      refine ⟨h, fun _ _ => rfl, .refl .., fun hleaves _ _ => ?_⟩
      -- the interface is a member, so that it could have left
      obtain ⟨hmem, hsucceeds⟩ := hleaves.2 (hone ▸ hnum)
      obtain ⟨sent, hsent⟩ := hok (h.joined s hs addr hold).2.1 hmem hsucceeds
      cases hsent
    · next inner sent hinner =>
      obtain ⟨rfl, rfl⟩ := hleave
      obtain ⟨hcons, -, hgroups, -⟩ := h.consistent.inner.leave hremove hinner
      refine ⟨h.setJoined hs hcons hcounts hjoined, nofun, ⟨rfl, rfl, ?_, hgroups⟩, ?_⟩
      · exact fun g hne => update_of_ne hne ..
      · intro _ _ _
        exact joined_setJoined ..
  · next hne =>
    have hpos := (h.consistent.sockets.eq_some_iff.mp hnum).2
    have hentry : entry (num - 1) = some (num - 1) := if_neg (by omega)
    rw [hentry] at hcounts
    obtain ⟨rfl, rfl⟩ := hleave
    refine ⟨h.setJoined hs h.consistent.inner hcounts hjoined, nofun,
      ⟨rfl, rfl, ?_, fun _ _ hg => hg⟩, ?_⟩
    · exact fun g hne => update_of_ne hne ..
    · intro _ _ _
      exact joined_setJoined ..

/-- **The leaves of a drop** take all groups from the socket. -/
theorem Inv.leaveAll {leaves : List (Ipv4Addr × Outcome)} :
    ∀ {σ σ' : State}, Inv σ → s ∈ σ.live → interfaceAddr ∈ σ.ipv4Addrs →
      (leaves.map fst).Nodup → (∀ l ∈ leaves, σ.Leaves l.1 l.2) →
      (∀ g ∈ (σ.socket s).joinedMulticastAddrV4, g ∈ leaves.map fst) →
      (∀ g ∈ leaves.map fst, g ∈ (σ.socket s).joinedMulticastAddrV4) →
      σ.leaveAll s interfaceAddr leaves = some σ' →
      Inv σ' ∧ s ∈ σ'.live ∧ (σ'.socket s).joinedMulticastAddrV4 = ∅ := by
  induction leaves with
  | nil =>
    intro σ σ' h hs _ _ _ hall _ heq
    cases heq
    refine ⟨h, hs, eq_empty_of_forall_notMem fun g hg => ?_⟩
    cases hall g hg
  | cons l leaves ih =>
    intro σ σ' h hs haddr hnodup hleaves hall hsub heq
    obtain ⟨addr, o⟩ := l
    obtain ⟨⟨σ₁, result⟩, hleave, hrest⟩ := bind_eq_some_iff.mp heq
    obtain ⟨hnotin, hnodup⟩ := nodup_cons.mp hnodup
    have hfirst := hleaves _ mem_cons_self
    obtain ⟨h₁, -, hap, herase⟩ := h.socketLeave hs hfirst.1 hleave
    have hjoined := herase hfirst (hsub addr mem_cons_self) haddr
    have hne : ∀ g ∈ leaves.map fst, g ≠ addr := fun g hg heq => hnotin (heq ▸ hg)
    refine ih h₁ (hap.live ▸ hs) (hap.ipv4Addrs ▸ haddr) hnodup (fun l hl => ?_) (fun g hg => ?_)
      (fun g hg => ?_) hrest
    · obtain ⟨hmem, hlast⟩ := hleaves l (mem_cons_of_mem _ hl)
      have hne := hne l.1 (mem_map_of_mem hl)
      exact ⟨hmem, fun hone => (hlast (hap.num _ hne ▸ hone)).imp_left (hap.groups _ hne)⟩
    · rw [hjoined] at hg
      obtain ⟨hg', hg⟩ := mem_erase.mp hg
      exact (mem_cons.mp (hall g hg)).resolve_left hg'
    · rw [hjoined]
      exact mem_erase.mpr ⟨hne g hg, hsub g (mem_cons_of_mem _ hg)⟩

theorem Inv.erase (h : Inv σ) (hempty : (σ.socket s).joinedMulticastAddrV4 = ∅) :
    Inv (σ.forget s) := by
  refine ⟨⟨h.consistent.inner, fun g => ?_⟩, fun x hx => h.fresh x (mem_of_mem_erase hx),
    fun x hx => h.joined x (mem_of_mem_erase hx)⟩
  have hcount : (σ.forget s).numJoined g = σ.numJoined g := by
    refine Census.count_erase_of_false ?_
    change decide (g ∈ (σ.socket s).joinedMulticastAddrV4) = false
    rw [hempty]
    exact decide_eq_false (notMem_empty g)
  rw [hcount]
  exact h.consistent.sockets g

theorem Inv.dropSocket {leaves : List (Ipv4Addr × Outcome)} (h : Inv σ) (hs : s ∈ σ.live)
    (hnodup : (leaves.map fst).Nodup)
    (hall : (leaves.map fst).toFinset = (σ.socket s).joinedMulticastAddrV4)
    (hleaves : ∀ l ∈ leaves, σ.Leaves l.1 l.2) (hdrop : σ.dropSocket s leaves = some σ') :
    Inv σ' := by
  have hmem : ∀ g, g ∈ (σ.socket s).joinedMulticastAddrV4 ↔ g ∈ leaves.map fst := fun g => by
    rw [← hall, List.mem_toFinset]
  unfold State.dropSocket at hdrop
  split at hdrop
  · next interfaceAddr _ haddrs =>
    obtain ⟨σ₁, hσ₁, rfl⟩ := map_eq_some_iff.mp hdrop
    have haddr : interfaceAddr ∈ σ.ipv4Addrs := haddrs ▸ mem_cons_self
    obtain ⟨h₁, -, hempty⟩ := h.leaveAll hs haddr hnodup hleaves (fun g => (hmem g).mp)
      (fun g => (hmem g).mpr) hσ₁
    exact h₁.erase hempty
  · next haddrs =>
    -- an interface without addresses has no members among its sockets
    cases hdrop
    refine h.erase (eq_empty_of_forall_notMem fun g hg => ?_)
    exact (h.joined s hs g hg).2.2 haddrs

theorem Inv.setInner (h : Inv σ) (hinner : inner.Consistent) : Inv { σ with inner := inner } :=
  ⟨⟨hinner, h.consistent.sockets⟩, h.fresh, h.joined⟩

theorem setInner_of_error {r : Except NetManagerError Bool}
    (hsame : ∀ e, r = .error e → inner = σ.inner) (e : NetManagerError)
    (he : r.map (fun _ => ()) = .error e) : { σ with inner := inner } = σ := by
  cases r with
  | ok sent => cases he
  | error e' => rw [hsame e' rfl]

/-- **A call keeps the counts, and one that returns an error changes nothing.** -/
theorem Inv.exec {a : Action} (h : Inv σ) (hok : σ.NoFailure a)
    (hexec : σ.exec a = some (σ', result)) :
    Inv σ' ∧ ∀ e, result = .error e → σ' = σ := by
  cases a with
  | bind isIpv4 =>
    obtain ⟨rfl, rfl⟩ := hexec
    refine ⟨⟨⟨h.consistent.inner, fun g => ?_⟩, fun x hx => ?_, fun x hx g hg => ?_⟩, nofun⟩
    · have hnew : σ.numSockets ∉ σ.live := fun hmem => Nat.lt_irrefl _ (h.fresh _ hmem)
      have hcount : Census.count (insert σ.numSockets σ.live)
          (fun sock => decide (g ∈ sock.joinedMulticastAddrV4))
          (update σ.socket σ.numSockets ⟨isIpv4, ∅⟩) = σ.numJoined g := by
        rw [Census.count_insert_of_false, Census.count_update_of_notMem _ _ hnew]
        · rfl
        · rw [update_self]
          exact decide_eq_false (notMem_empty g)
      exact (h.consistent.sockets g).trans (congrArg entry hcount.symm)
    · rcases mem_insert.mp hx with rfl | hx
      · exact Nat.lt_succ_self _
      · exact Nat.lt_succ_of_lt (h.fresh x hx)
    · change g ∈ (update σ.socket σ.numSockets _ x).joinedMulticastAddrV4 at hg
      change (update σ.socket σ.numSockets _ x).isIpv4 = true ∧ _
      rcases eq_or_ne x σ.numSockets with rfl | hne
      · rw [update_self] at hg
        exact absurd hg (notMem_empty g)
      · rw [update_of_ne hne] at hg ⊢
        exact h.joined x ((mem_insert.mp hx).resolve_left hne) g hg
  | addIpv4Addr addr =>
    obtain ⟨rfl, rfl⟩ := hexec
    refine ⟨⟨⟨h.consistent.inner, h.consistent.sockets⟩, h.fresh, fun x hx g hg => ?_⟩, nofun⟩
    obtain ⟨hv4, hm, -⟩ := h.joined x hx g hg
    exact ⟨hv4, hm, append_ne_nil_of_right_ne_nil _ nofun⟩
  | join addr o =>
    rcases hjoin : σ.inner.joinMulticastV4 addr o with ⟨inner, r⟩
    rw [State.exec, hjoin] at hexec
    obtain ⟨rfl, rfl⟩ := hexec
    obtain ⟨hcons, hsame, -⟩ := h.consistent.inner.join hok.1 hok.2 hjoin
    exact ⟨h.setInner hcons, setInner_of_error hsame⟩
  | leave addr o =>
    rcases hleave : σ.inner.leaveMulticastV4 addr o with ⟨inner, r⟩
    rw [State.exec, hleave] at hexec
    obtain ⟨rfl, rfl⟩ := hexec
    obtain ⟨hcons, hsame, -, -⟩ := h.consistent.inner.leave hok.2 hleave
    exact ⟨h.setInner hcons, setInner_of_error hsame⟩
  | socketJoin s addr interfaceAddr o =>
    obtain ⟨hs, hexec⟩ := ite_none_right_eq_some.mp hexec
    exact h.socketJoin hs hok.1 hok.2 (some.inj hexec)
  | socketLeave s addr interfaceAddr o =>
    obtain ⟨hs, hexec⟩ := ite_none_right_eq_some.mp hexec
    obtain ⟨hinv, hsame, -, -⟩ := h.socketLeave hs hok.2 hexec
    exact ⟨hinv, hsame⟩
  | drop s leaves =>
    obtain ⟨hcond, hexec⟩ := ite_none_right_eq_some.mp hexec
    obtain ⟨σ₁, hdrop, heq⟩ := map_eq_some_iff.mp hexec
    obtain ⟨rfl, rfl⟩ := heq
    exact ⟨h.dropSocket hcond.1 hcond.2.1 hcond.2.2 hok hdrop, nofun⟩

/-- **Multicast reference counts.** In every run of joins, leaves and drops of sockets, and of joins
and leaves for the interface, in which no operation of the driver fails and no leave of a socket
that is dropped: the count of a hardware address is the number of joined groups that map to it, the
filter of the driver holds the addresses with a positive count, the count of a group is the number
of live sockets that have joined it, and a call that returns an error changes nothing. -/
theorem multicast_consistent (hreach : Reaches step NoFailure State.init σ) :
    σ.Consistent ∧ ∀ a σ' e, σ.NoFailure a → σ.exec a = some (σ', .error e) → σ' = σ := by
  have hinv : Inv σ := by
    refine hreach.invariant .init fun σ a σ' h hok hstep => ?_
    obtain ⟨⟨σ₁, result⟩, hexec, rfl⟩ := map_eq_some_iff.mp hstep
    exact (h.exec hok hexec).1
  exact ⟨hinv.consistent, fun a σ' e hok hexec => (hinv.exec hok hexec).2 e rfl⟩

instance (σ : State) (addr : Ipv4Addr) (o : Outcome) : Decidable (σ.Leaves addr o) :=
  inferInstanceAs (Decidable (_ ∧ (_ → _ ∧ _)))

instance (σ : State) : DecidablePred σ.NoFailure := fun a => by
  induction a using Action.casesOn <;> dsimp only [NoFailure] <;> infer_instance

/-- Two groups with the same hardware address; the second socket leaves both when it is dropped,
and `smoltcp` refuses a third. -/
def twoGroups : List Action :=
  let ok : Outcome := ⟨true, .ok true, .ok, .ok⟩
  [.addIpv4Addr ⟨10, 0, 0, 1⟩, .bind true, .bind true,
    .socketJoin 0 ⟨224, 1, 2, 3⟩ ⟨10, 0, 0, 1⟩ ok, .socketJoin 1 ⟨224, 1, 2, 3⟩ ⟨10, 0, 0, 1⟩ ok,
    .socketJoin 1 ⟨225, 129, 2, 3⟩ ⟨10, 0, 0, 1⟩ ok,
    .join ⟨230, 1, 2, 3⟩ ⟨true, .error .exhausted, .ok, .ok⟩,
    .drop 1 [(⟨224, 1, 2, 3⟩, ok), (⟨225, 129, 2, 3⟩, ok)]]

theorem multicast_consistent_twoGroups : ∃ σ : State,
    Reaches step NoFailure State.init σ ∧ σ.numJoined ⟨224, 1, 2, 3⟩ = 1 ∧
      σ.inner.multicastAddrMac #v[1, 0, 0x5e, 1, 2, 3] = some 1 ∧ σ.Consistent := by
  have hreach : Reaches step NoFailure State.init _ :=
    Reaches.of_run (show run (guarded step NoFailure) State.init twoGroups = some _ from rfl)
  exact ⟨_, hreach, rfl, rfl, (multicast_consistent hreach).1⟩

/-- The driver refuses the hardware address of a group. The call returns an error, the address is
counted, and no group maps to it. -/
theorem count_without_group : ∃ σ : State,
    State.init.exec (.join ⟨224, 0, 0, 1⟩ ⟨true, .ok true, .error false, .ok⟩) =
        some (σ, .error .deviceError) ∧
      σ.inner.multicastAddrMac #v[1, 0, 0x5e, 0, 0, 1] = some 1 ∧
      σ.inner.numGroups #v[1, 0, 0x5e, 0, 0, 1] = 0 ∧ ¬ σ.Consistent := by
  refine ⟨_, rfl, rfl, rfl, fun h => ?_⟩
  cases h.inner.counts #v[1, 0, 0x5e, 0, 0, 1]

/-- The last socket of a group is dropped while `smoltcp` cannot send: the group keeps its count. -/
theorem counted_after_drop : ∃ σ : State,
    run step State.init [.addIpv4Addr ⟨10, 0, 0, 1⟩, .bind true,
        .socketJoin 0 ⟨224, 0, 0, 1⟩ ⟨10, 0, 0, 1⟩ ⟨true, .ok true, .ok, .ok⟩,
        .drop 0 [(⟨224, 0, 0, 1⟩, ⟨true, .error .exhausted, .ok, .ok⟩)]] = some σ ∧
      σ.live = ∅ ∧ σ.numMulticastJoin ⟨224, 0, 0, 1⟩ = some 1 :=
  ⟨_, rfl, rfl, rfl⟩

end State

end Multicast

end Awkernel
