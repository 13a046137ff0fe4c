import Mathlib.Data.List.Basic

/-!
# The headers of a received frame

`extract_headers` of `awkernel_lib/src/net/ether.rs`. It casts positions in the buffer to
references to headers; a reference is here the offset it points to. `remain` counts the bytes
behind the headers passed so far, so that `buf.len() - remain` is where the next one starts.

Every cast is preceded by a test of `remain`, apart from one: the length of an IPv4 header is
taken from the packet. If it is more than what remains, `remain -= hlen` underflows, and if it
is less than the 20 bytes of `Ip`, a transport header overlaps them (`extractHeaders_hostile`).
The frames on which neither happens are those that the function handles right
(`extractHeaders_inside_iff`).
-/

namespace Awkernel.Ether

open List

/-- `NetworkHdr`. -/
inductive NetworkHdr
  | ipv4 (offset : Nat)
  | ipv6 (offset : Nat)
  | none
  deriving DecidableEq

/-- `TransportHdr`. -/
inductive TransportHdr
  | udp (offset : Nat)
  | tcp (offset : Nat)
  | none
  deriving DecidableEq

/-- `EtherExtracted`. The Ethernet header and the one with a VLAN tag are at offset 0. -/
structure EtherExtracted where
  etherVlan : Bool
  network : NetworkHdr
  transport : TransportHdr
  deriving DecidableEq

variable (buf : List UInt8)

/-- The byte at an offset. -/
def byte (offset : Nat) : Nat := (buf.getD offset 0).toNat

/-- `u16::from_be`. -/
def fromBe (offset : Nat) : Nat := byte buf offset * 256 + byte buf (offset + 1)

/-- `Ip::header_len`, in bytes. -/
def hlen (offset : Nat) : Nat := byte buf offset % 16 * 4

/-- The end of `extract_headers`: the transport header. -/
def extractTransport (remain ipproto : Nat) : Except String TransportHdr :=
  if ipproto = 6 then
    if 20 > remain then .error "too short TCP header" else .ok (.tcp (buf.length - remain))
  else if ipproto = 17 then
    if 8 > remain then .error "too short UDP header" else .ok (.udp (buf.length - remain))
  else .ok .none

/-- `extract_headers` from the network header on; `none` is the underflow of `remain`. -/
def extractNetwork (remain etherType : Nat) (etherVlan : Bool) :
    Option (Except String EtherExtracted) :=
  let offset := buf.length - remain
  if etherType = 0x0800 then
    if 20 > remain then some (.error "too short ip header")
    else if hlen buf offset > remain then none
    else some ((extractTransport buf (remain - hlen buf offset) (byte buf (offset + 9))).map
      fun transport => ⟨etherVlan, .ipv4 offset, transport⟩)
  else if etherType = 0x86DD then
    if 40 > remain then some (.error "too short ipv6 header")
    else some ((extractTransport buf (remain - 40) (byte buf (offset + 6))).map
      fun transport => ⟨etherVlan, .ipv6 offset, transport⟩)
  else some (.ok ⟨etherVlan, .none, .none⟩)

/-- `extract_headers`. -/
def extractHeaders : Option (Except String EtherExtracted) :=
  if 14 > buf.length then some (.error "too short ether header")
  else if fromBe buf 12 = 0x8100 then
    -- a frame that is too short for its tag is accepted without further headers
    if 18 > buf.length then some (.ok ⟨false, .none, .none⟩)
    else extractNetwork buf (buf.length - 18) (fromBe buf 16) true
  else extractNetwork buf (buf.length - 14) (fromBe buf 12) false

/-! ### What the references cover -/

/-- The reference to a network header: offset and size. -/
def NetworkHdr.refs : NetworkHdr → List (Nat × Nat)
  | ipv4 offset => [(offset, 20)]
  | ipv6 offset => [(offset, 40)]
  | none => []

def TransportHdr.refs : TransportHdr → List (Nat × Nat)
  | tcp offset => [(offset, 20)]
  | udp offset => [(offset, 8)]
  | none => []

/-- All references of a result. -/
def EtherExtracted.refs (x : EtherExtracted) : List (Nat × Nat) :=
  (0, if x.etherVlan then 18 else 14) :: x.network.refs ++ x.transport.refs

/-- Where a network header ends. -/
def NetworkHdr.stop : NetworkHdr → Option Nat
  | ipv4 offset => some (offset + hlen buf offset)
  | ipv6 offset => some (offset + 40)
  | none => Option.none

/-- The references are inside the buffer. The transport header starts where the network header
ends, and not before the end of the reference to it. -/
structure EtherExtracted.Inside (x : EtherExtracted) : Prop where
  refs : ∀ r ∈ x.refs, r.1 + r.2 ≤ buf.length
  adjacent : ∀ r ∈ x.transport.refs, x.network.stop buf = some r.1 ∧
    ∀ r' ∈ x.network.refs, r'.1 + r'.2 ≤ r.1

/-- The call returns, and the references of its result are inside the buffer. -/
def Handled (r : Option (Except String EtherExtracted)) : Prop :=
  ∃ res, r = some res ∧ ∀ x, res = .ok x → x.Inside buf

/-- A header of IPv4 at `offset` ends inside the buffer, and if it is shorter than `Ip` then no
TCP or UDP header is found behind it. -/
def Ipv4Fits (offset etherType : Nat) : Prop :=
  etherType = 0x0800 → offset + 20 ≤ buf.length →
    offset + hlen buf offset ≤ buf.length ∧ (hlen buf offset < 20 →
      (byte buf (offset + 9) = 6 → buf.length < offset + hlen buf offset + 20) ∧
      (byte buf (offset + 9) = 17 → buf.length < offset + hlen buf offset + 8))

instance (offset etherType : Nat) : Decidable (Ipv4Fits buf offset etherType) :=
  inferInstanceAs (Decidable (_ = _ → _ ≤ _ → _ ∧ (_ < _ → (_ = _ → _ < _) ∧ (_ = _ → _ < _))))

/-- The length of the IPv4 header, if there is one, is right. -/
def HeaderFits : Prop :=
  if fromBe buf 12 = 0x8100 then Ipv4Fits buf 18 (fromBe buf 16)
  else Ipv4Fits buf 14 (fromBe buf 12)

variable {buf}

/-- What remains has been tested, and the header is where the bytes that remain start. -/
theorem extractTransport_ok {remain ipproto : Nat} {transport : TransportHdr}
    (hremain : remain ≤ buf.length) (h : extractTransport buf remain ipproto = .ok transport) :
    ∀ r ∈ transport.refs, r.1 = buf.length - remain ∧ r.1 + r.2 ≤ buf.length := by
  unfold extractTransport at h
  split_ifs at h <;> cases h <;> simp [TransportHdr.refs] <;> omega

/-- A transport header is found exactly if one of the two protocols is named and fits. -/
theorem exists_extractTransport {remain ipproto : Nat} :
    (∃ transport, extractTransport buf remain ipproto = .ok transport ∧ transport.refs ≠ []) ↔
      ipproto = 6 ∧ 20 ≤ remain ∨ ipproto = 17 ∧ 8 ≤ remain := by
  unfold extractTransport
  split_ifs <;> simp [TransportHdr.refs] <;> omega

/-- A network header of `size` bytes is passed: the transport header that follows is where it
should be if it does not overlap the reference to the network header. -/
theorem inside_of_network {remain size ipproto : Nat} {vlan : Bool} {network : NetworkHdr}
    (hremain : remain + (if vlan then 18 else 14) = buf.length) (hsize : size ≤ remain)
    (hrefs : ∀ r ∈ network.refs, r.1 = buf.length - remain ∧ r.2 ≤ remain)
    (hstop : network.stop buf = some (buf.length - remain + size)) {transport : TransportHdr}
    (h : extractTransport buf (remain - size) ipproto = .ok transport)
    (hover : transport.refs ≠ [] → ∀ r ∈ network.refs, r.2 ≤ size) :
    EtherExtracted.Inside buf ⟨vlan, network, transport⟩ := by
  have hok := extractTransport_ok (by omega) h
  refine ⟨forall_mem_append.mpr ⟨forall_mem_cons.mpr ⟨?_, fun r hr => ?_⟩,
    fun r hr => (hok r hr).2⟩, fun r hr => ⟨?_, fun r' hr' => ?_⟩⟩
  · show 0 + (if vlan then 18 else 14) ≤ buf.length
    omega
  · have := hrefs r hr
    omega
  · have := (hok r hr).1
    rw [hstop]
    congr 1
    omega
  · have := hrefs r' hr'
    have := hover (ne_nil_of_mem hr) r' hr'
    have := (hok r hr).1
    omega

/-- The frame has an IPv4 header of 20 bytes at least. -/
theorem handled_ipv4 {remain : Nat} {vlan : Bool}
    (hremain : remain + (if vlan then 18 else 14) = buf.length) (hfull : 20 ≤ remain)
    (hlong : hlen buf (buf.length - remain) ≤ remain) :
    Handled buf (some ((extractTransport buf (remain - hlen buf (buf.length - remain))
        (byte buf (buf.length - remain + 9))).map
          (⟨vlan, .ipv4 (buf.length - remain), ·⟩))) ↔
      Ipv4Fits buf (buf.length - remain) 0x0800 := by
  have hlength : buf.length - remain + remain = buf.length := by omega
  constructor
  · rintro ⟨_, ⟨⟩, hinside⟩ - -
    -- a transport header behind a header that is too short overlaps it
    have hnone : hlen buf (buf.length - remain) < 20 → ¬ ∃ transport,
        extractTransport buf (remain - hlen buf (buf.length - remain))
          (byte buf (buf.length - remain + 9)) = .ok transport ∧ transport.refs ≠ [] := by
      rintro hshort ⟨transport, htransport, hne⟩
      obtain ⟨r, hr⟩ := exists_mem_of_ne_nil _ hne
      obtain ⟨hstop, hover⟩ := (hinside _ (by rw [htransport]; rfl)).adjacent r hr
      have hend := hover (_, 20) mem_cons_self
      have hstart : buf.length - remain + hlen buf (buf.length - remain) = r.1 :=
        Option.some.inj hstop
      omega
    rw [exists_extractTransport] at hnone
    exact ⟨by omega, fun hshort => ⟨fun hp => by have := hnone hshort; omega,
      fun hp => by have := hnone hshort; omega⟩⟩
  · intro hfits
    obtain ⟨-, hshort⟩ := hfits rfl (by omega)
    refine ⟨_, rfl, fun x hx => ?_⟩
    cases htransport : extractTransport buf (remain - hlen buf (buf.length - remain))
        (byte buf (buf.length - remain + 9)) with
    | error message =>
      rw [htransport] at hx
      cases hx
    | ok transport =>
      rw [htransport] at hx
      cases hx
      refine inside_of_network hremain hlong (by simpa [NetworkHdr.refs] using hfull) rfl
        htransport fun hne => forall_mem_singleton.mpr ?_
      by_contra hlt
      have hfound := exists_extractTransport.mp ⟨transport, htransport, hne⟩
      have := hshort (by omega)
      omega

theorem handled_network {remain etherType : Nat} {vlan : Bool}
    (hremain : remain + (if vlan then 18 else 14) = buf.length) :
    Handled buf (extractNetwork buf remain etherType vlan) ↔
      Ipv4Fits buf (buf.length - remain) etherType := by
  unfold extractNetwork
  dsimp only
  split_ifs with hip hshort hlong hip6 hshort
  · exact iff_of_true ⟨_, rfl, nofun⟩ fun _ hfull => by omega
  · -- the underflow
    refine iff_of_false nofun fun hfits => ?_
    have := (hfits hip (by omega)).1
    omega
  · rw [hip]
    exact handled_ipv4 hremain (by omega) (by omega)
  · exact iff_of_true ⟨_, rfl, nofun⟩ fun h => absurd h hip
  · refine iff_of_true ⟨_, rfl, fun x hx => ?_⟩ fun h => absurd h hip
    cases htransport : extractTransport buf (remain - 40) (byte buf (buf.length - remain + 6)) with
    | error message =>
      rw [htransport] at hx
      cases hx
    | ok transport =>
      rw [htransport] at hx
      cases hx
      exact inside_of_network hremain (by omega) (by simp [NetworkHdr.refs]; omega) rfl
        htransport fun _ => by simp [NetworkHdr.refs]
  · refine iff_of_true ⟨_, rfl, ?_⟩ fun h => absurd h hip
    rintro x ⟨⟩
    refine ⟨forall_mem_singleton.mpr ?_, nofun⟩
    show 0 + (if vlan then 18 else 14) ≤ buf.length
    omega

/-- **Headers are inside the packet**, exactly for the frames whose IPv4 header, if there is one,
ends inside the buffer and is not overlapped: `extract_headers` returns, the references of its
result cover bytes of the buffer, and the transport header starts where the network header
ends. -/
theorem extractHeaders_inside_iff (buf : List UInt8) :
    (∃ r, extractHeaders buf = some r ∧ ∀ x, r = .ok x → x.Inside buf) ↔ HeaderFits buf := by
  change Handled buf _ ↔ _
  unfold HeaderFits extractHeaders
  split_ifs with hshort htag htag hvlan
  · exact iff_of_true ⟨_, rfl, nofun⟩ fun _ hfull => by omega
  · exact iff_of_true ⟨_, rfl, nofun⟩ fun _ hfull => by omega
  · refine iff_of_true ⟨_, rfl, ?_⟩ fun _ hfull => by omega
    rintro x ⟨⟩
    exact ⟨forall_mem_singleton.mpr (by show 0 + 14 ≤ buf.length; omega), nofun⟩
  · rw [handled_network (by show _ - 18 + 18 = _; omega), Nat.sub_sub_self (by omega)]
  · rw [handled_network (by show _ - 14 + 14 = _; omega), Nat.sub_sub_self (by omega)]

/-- A frame with an IPv4 header whose first byte and protocol are given. -/
def frame (verLen proto : UInt8) (payload : Nat) : List UInt8 :=
  replicate 12 0 ++ [0x08, 0x00, verLen] ++ replicate 8 0 ++ [proto] ++ replicate (10 + payload) 0

/-- A UDP datagram without data, and an ICMP packet whose header says that it has no length. -/
theorem extractHeaders_inside_iff_udp :
    (∃ r, extractHeaders (frame 0x45 17 8) = some r ∧
        ∀ x, r = .ok x → x.Inside (frame 0x45 17 8)) ∧
      ∃ r, extractHeaders (frame 0x40 1 0) = some r ∧
        ∀ x, r = .ok x → x.Inside (frame 0x40 1 0) := by
  constructor
  all_goals
    refine (extractHeaders_inside_iff _).mpr ?_
    unfold HeaderFits
    decide

/-- **The length is not checked.** A header that says it has 60 bytes makes `remain` underflow,
and for one that says it has none the UDP header is the IPv4 header itself. -/
theorem extractHeaders_hostile : extractHeaders (frame 0x4f 17 0) = none ∧
    extractHeaders (frame 0x40 17 0) = some (.ok ⟨false, .ipv4 14, .udp 14⟩) := by decide

end Awkernel.Ether
