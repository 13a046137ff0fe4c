import Awkernel.Service.Accepter

/-!
# When services work

Every step keeps `Good`, which says of each entry how many accepters and which clients it has,
and that its channel is closed exactly if a client of the name has dropped its sender or the
accepter was dropped. So whether a `create_client` or a `create_server` fails can be read off the
history of its name, and `rendezvous_iff` follows.
-/

namespace Awkernel

open TransitionSystem AnyDict Unbounded.Channel List Option Bool Function

namespace Service.State

variable {π : Type} {σ : State π}

namespace Good

/-! ### Creation -/

variable {name : String} {proto : π} {inner : Inner π} {a : Accepter π} {σ' : State π}

section

variable (h : σ.Good)

include h

theorem insertEntry (hnone : σ.services.dict name = none) (proto : π) : Good { σ with
      numChans := σ.numChans + 1
      services := σ.services.insert name proto ⟨some ⟨name, proto, σ.numChans⟩, σ.numChans⟩ } := by
  obtain ⟨hacc, hclient, hfinished, hdropped⟩ := h.absent hnone
  refine ⟨?_, ?_, ?_, h.nodup, fun hk => h.fresh ((Nat.le_succ _).trans hk), h.inOrder, h.conns⟩
  · intro name' proto' inner hdict
    rcases dict_insert_eq_some.mp hdict with ⟨rfl, heq⟩ | ⟨-, hdict⟩
    · cases heq
      refine ⟨Nat.lt_succ_self _, fun a ha => ⟨(some.inj ha).symm, hacc, hdropped⟩,
        fun a ha hname => absurd hname (hacc a ha), .inl rfl,
        fun c hc hname => absurd hname (hclient c hc), ?_⟩
      refine iff_of_false (fun hterm => ?_) ?_
      · cases (h.fresh le_rfl).symm.trans hterm
      rintro (hset | hset)
      · cases hfinished.symm.trans hset
      · cases hdropped.symm.trans hset
    · exact (h.entry hdict).frame (Nat.le_succ _) (fun _ _ => Iff.rfl)
        (fun c hc hname => ⟨c, hc, hname, rfl, rfl⟩) rfl rfl rfl
  · exact fun hname' => h.absent (dict_insert_eq_none.mp hname').2
  · exact fun h₁ h₂ heq => distinct_insert (f := fun v => v.2.sender) h.distinct
      h₁ h₂ heq rfl fun hv heq => absurd heq (h.entry hv).lt.ne

theorem takeAccepter (hdict : σ.services.dict name = some (proto, inner))
    (ha : inner.accepter = some a) :
    Good { σ with
      services := σ.services.insert name proto { inner with accepter := none }
      accepters := σ.accepters ++ [a] } := by
  have hentry := h.entry hdict
  obtain ⟨rfl, hnone, hdropped⟩ := hentry.waiting a ha
  have hmem : ∀ {a' : Accepter π}, a' ∈ σ.accepters ++ [⟨name, proto, inner.sender⟩] →
      a'.name ≠ name → a' ∈ σ.accepters := by
    intro a' ha' hne
    rcases mem_append.mp ha' with hold | hnew
    · exact hold
    · exact absurd (congrArg Accepter.name (mem_singleton.mp hnew)) hne
  refine ⟨?_, ?_, ?_, ?_, h.fresh, h.inOrder, h.conns⟩
  · intro name' proto' inner' hdict'
    rcases dict_insert_eq_some.mp hdict' with ⟨rfl, heq⟩ | ⟨heq, hdict'⟩
    · cases heq
      refine ⟨hentry.lt, nofun, fun a' ha' hname => ?_, .inr (.inl ⟨_,
        mem_append_right _ (mem_singleton_self _), rfl⟩), hentry.client,
        hentry.terminated⟩
      rcases mem_append.mp ha' with hold | hnew
      · exact absurd hname (hnone a' hold)
      · exact ⟨mem_singleton.mp hnew, hdropped⟩
    · refine (h.entry hdict').frame le_rfl (fun a' hname => ?_)
        (fun c hc hname => ⟨c, hc, hname, rfl, rfl⟩) rfl rfl rfl
      exact ⟨fun ha' => hmem ha' (hname ▸ heq), mem_append_left _⟩
  · intro name' hname'
    obtain ⟨heq, hname'⟩ := dict_insert_eq_none.mp hname'
    obtain ⟨hacc, hrest⟩ := h.absent hname'
    refine ⟨fun a' ha' hname => ?_, hrest⟩
    exact hacc a' (hmem ha' (hname ▸ heq)) hname
  · exact fun h₁ h₂ heq => distinct_insert (f := fun v => v.2.sender) h.distinct
      h₁ h₂ heq rfl fun hv heq => h.distinct hv hdict heq
  · rw [map_append, nodup_append]
    refine ⟨h.nodup, nodup_singleton _, fun n hn n' hn' => ?_⟩
    obtain ⟨a', ha', rfl⟩ := mem_map.mp hn
    rw [mem_singleton.mp hn']
    exact hnone a' ha'

theorem addClient (hdict : σ.services.dict name = some (proto, inner)) :
    Good { σ with clients := σ.clients ++ [⟨name, proto, inner.sender, false⟩] } := by
  refine ⟨?_, ?_, h.distinct, h.nodup, h.fresh, h.inOrder, h.conns⟩
  · intro name' proto' inner' hdict'
    have hentry := h.entry hdict'
    refine ⟨hentry.lt, hentry.waiting, hentry.held, hentry.left, fun c hc hname => ?_,
      hentry.terminated⟩
    rcases mem_append.mp hc with hold | hnew
    · exact hentry.client c hold hname
    obtain rfl := mem_singleton.mp hnew
    obtain rfl : name = name' := hname
    cases hdict.symm.trans hdict'
    exact ⟨rfl, rfl⟩
  · intro name' hname'
    obtain ⟨hacc, hclient, hrest⟩ := h.absent hname'
    refine ⟨hacc, fun c hc hname => ?_, hrest⟩
    rcases mem_append.mp hc with hold | hnew
    · exact hclient c hold hname
    obtain rfl := mem_singleton.mp hnew
    obtain rfl : name = name' := hname
    cases hdict.symm.trans hname'

/-! ### The channel of an entry -/

theorem exists_entry {c : Client π} (hc : c ∈ σ.clients) :
    ∃ inner, σ.services.dict c.name = some (c.proto, inner) ∧ inner.sender = c.chan := by
  cases hdict : σ.services.dict c.name with
  | none => exact absurd rfl ((h.absent hdict).2.1 c hc)
  | some v =>
    obtain ⟨proto, inner⟩ := v
    obtain ⟨hchan, rfl⟩ := (h.entry hdict).client c hc rfl
    exact ⟨inner, rfl, hchan.symm⟩

theorem exists_entry_accepter (ha : a ∈ σ.accepters) :
    ∃ inner, σ.services.dict a.name = some (a.proto, inner) ∧ inner.sender = a.chan := by
  cases hdict : σ.services.dict a.name with
  | none => exact absurd rfl ((h.absent hdict).1 a ha)
  | some v =>
    obtain ⟨proto, inner⟩ := v
    have heq := ((h.entry hdict).held a ha rfl).1
    refine ⟨inner, ?_, congrArg Accepter.chan heq.symm⟩
    rw [congrArg Accepter.proto heq]

theorem useChan (k : Nat) (chan : Unbounded.Channel Nat) (clients : List (Client π))
    (numConns : Nat) (sent accepted : List Nat)
    (hterm : chan.terminated = (σ.chans k).terminated)
    (hclient : ∀ c ∈ clients, ∃ c' ∈ σ.clients,
      c'.name = c.name ∧ c'.chan = c.chan ∧ c'.proto = c.proto)
    (hexact : accepted ++ chan.queue = sent) (hle : σ.numConns ≤ numConns)
    (hconns : sent.Nodup ∧ ∀ conn ∈ sent, conn < numConns) :
    Good { σ with
      chans := update σ.chans k chan
      numConns := numConns
      sent := update σ.sent k sent
      accepted := update σ.accepted k accepted
      clients := clients } := by
  have hsame : ∀ j, (update σ.chans k chan j).terminated = (σ.chans j).terminated := by
    intro j
    by_cases hj : j = k
    · subst hj
      rw [update_self]
      exact hterm
    · rw [update_of_ne hj]
  refine ⟨fun hdict => ?_, fun hname => ?_, h.distinct, h.nodup, fun {j} hj => ?_, fun j => ?_,
    fun j => ?_⟩
  · refine (h.entry hdict).frame le_rfl (fun _ _ => Iff.rfl) (fun c hc hname => ?_) (hsame _)
      rfl rfl
    obtain ⟨c', hc', hname', hrest⟩ := hclient c hc
    exact ⟨c', hc', hname'.trans hname, hrest⟩
  · obtain ⟨hacc, hclients, hrest⟩ := h.absent hname
    refine ⟨hacc, fun c hc heq => ?_, hrest⟩
    obtain ⟨c', hc', hname', -⟩ := hclient c hc
    exact hclients c' hc' (hname'.trans heq)
  · exact (hsame j).trans (h.fresh hj)
  · change update σ.accepted k accepted j ++ (update σ.chans k chan j).queue =
      update σ.sent k sent j
    by_cases hj : j = k
    · subst hj
      rw [update_self, update_self, update_self]
      exact hexact
    · rw [update_of_ne hj, update_of_ne hj, update_of_ne hj]
      exact h.inOrder j
  · change (update σ.sent k sent j).Nodup ∧ ∀ conn ∈ update σ.sent k sent j, _
    by_cases hj : j = k
    · subst hj
      rw [update_self]
      exact hconns
    · rw [update_of_ne hj]
      exact ⟨(h.conns j).1, fun conn hconn => ((h.conns j).2 conn hconn).trans_le hle⟩

/-- The drop of one clone closes the channel. -/
theorem dropSender {k : Nat} {c : Client π} (hk : σ.clients[k]? = some c) :
    ({ σ with clients := σ.clients.eraseIdx k }.dropSender c).Good := by
  have hc : c ∈ σ.clients := mem_of_getElem? hk
  have hold : ∀ c' ∈ σ.clients.eraseIdx k, c' ∈ σ.clients := fun c' hc' =>
    mem_of_mem_eraseIdx hc'
  obtain ⟨inner, hdict, hchan⟩ := h.exists_entry hc
  have hlt : c.chan < σ.numChans := hchan ▸ (h.entry hdict).lt
  refine ⟨?_, ?_, h.distinct, h.nodup, fun {j} hj => ?_, fun j => ?_, h.conns⟩
  · intro name' proto' inner' hdict'
    have hentry := h.entry hdict'
    by_cases heq : name' = c.name
    · subst heq
      cases hdict.symm.trans hdict'
      refine ⟨hentry.lt, hentry.waiting, hentry.held, hentry.left,
        fun c' hc' => hentry.client c' (hold c' hc'), iff_of_true ?_ (.inl ?_)⟩
      · change (update σ.chans c.chan _ inner.sender).terminated = true
        rw [hchan, update_self]
        rfl
      · exact update_self _ _ _
    · have hne : inner'.sender ≠ c.chan := fun hsame =>
        heq (h.distinct hdict' hdict (hsame.trans hchan.symm))
      refine hentry.frame le_rfl (fun _ _ => Iff.rfl)
        (fun c' hc' hname => ⟨c', hold c' hc', hname, rfl, rfl⟩) ?_ ?_ rfl
      · change (update σ.chans c.chan _ inner'.sender).terminated = _
        rw [update_of_ne hne]
      · exact update_of_ne heq _ _
  · intro name' hname'
    obtain ⟨hacc, hclients, hfinished, hdropped⟩ := h.absent hname'
    refine ⟨hacc, fun c' hc' => hclients c' (hold c' hc'), ?_, hdropped⟩
    change update σ.finished c.name true name' = false
    rw [update_of_ne (hclients c hc).symm]
    exact hfinished
  · change (update σ.chans c.chan _ j).terminated = false
    rw [update_of_ne (hlt.trans_le hj).ne']
    exact h.fresh hj
  · change σ.accepted j ++ (update σ.chans c.chan _ j).queue = σ.sent j
    by_cases hj : j = c.chan
    · subst hj
      rw [update_self]
      exact h.inOrder _
    · rw [update_of_ne hj]
      exact h.inOrder j

/-- The entry of the service stays, with one accepter less. -/
theorem dropAccepter {k : Nat} (hk : σ.accepters[k]? = some a) : Good { σ with
      accepters := σ.accepters.eraseIdx k
      chans := update σ.chans a.chan (σ.chans a.chan).dropReceiver
      dropped := update σ.dropped a.name true } := by
  have ha : a ∈ σ.accepters := mem_of_getElem? hk
  obtain ⟨inner, hdict, hchan⟩ := h.exists_entry_accepter ha
  have hlt : a.chan < σ.numChans := hchan ▸ (h.entry hdict).lt
  obtain ⟨hlen, hget⟩ := List.getElem?_eq_some_iff.mp hk
  have hperm : (a :: σ.accepters.eraseIdx k).Perm σ.accepters := by
    rw [← hget]
    exact getElem_cons_eraseIdx_perm hlen
  obtain ⟨hnew, hnodup⟩ := nodup_cons.mp ((hperm.map Accepter.name).nodup_iff.mpr h.nodup)
  -- no other accepter has the name
  have hother : ∀ a' ∈ σ.accepters.eraseIdx k, a'.name ≠ a.name := fun a' ha' heq =>
    hnew (heq ▸ mem_map_of_mem ha')
  have hmem : ∀ a' : Accepter π, a'.name ≠ a.name →
      (a' ∈ σ.accepters.eraseIdx k ↔ a' ∈ σ.accepters) := by
    intro a' hne
    rw [← hperm.mem_iff, mem_cons]
    exact (or_iff_right fun heq => hne (congrArg Accepter.name heq)).symm
  refine ⟨?_, ?_, h.distinct, hnodup, fun {j} hj => ?_, fun j => ?_, h.conns⟩
  · intro name' proto' inner' hdict'
    have hentry := h.entry hdict'
    by_cases heq : name' = a.name
    · subst heq
      cases hdict.symm.trans hdict'
      refine ⟨hentry.lt, fun a' ha' => ?_, fun a' ha' hname => absurd hname (hother a' ha'),
        .inr (.inr (update_self _ _ _)), hentry.client, iff_of_true ?_ (.inr ?_)⟩
      · exact absurd rfl ((hentry.waiting a' ha').2.1 a ha)
      · change (update σ.chans a.chan _ inner.sender).terminated = true
        rw [hchan, update_self]
        rfl
      · exact update_self _ _ _
    · have hne : inner'.sender ≠ a.chan := fun hsame =>
        heq (h.distinct hdict' hdict (hsame.trans hchan.symm))
      refine hentry.frame le_rfl (fun a' hname => hmem a' (hname ▸ heq))
        (fun c hc hname => ⟨c, hc, hname, rfl, rfl⟩) ?_ rfl ?_
      · change (update σ.chans a.chan _ inner'.sender).terminated = _
        rw [update_of_ne hne]
      · exact update_of_ne heq _ _
  · intro name' hname'
    obtain ⟨hacc, hclients, hfinished, hdropped⟩ := h.absent hname'
    refine ⟨fun a' ha' => hacc a' (mem_of_mem_eraseIdx ha'), hclients, hfinished, ?_⟩
    change update σ.dropped a.name true name' = false
    rw [update_of_ne (hacc a ha).symm]
    exact hdropped
  · change (update σ.chans a.chan _ j).terminated = false
    rw [update_of_ne (hlt.trans_le hj).ne']
    exact h.fresh hj
  · change σ.accepted j ++ (update σ.chans a.chan _ j).queue = σ.sent j
    by_cases hj : j = a.chan
    · subst hj
      rw [update_self]
      exact h.inOrder _
    · rw [update_of_ne hj]
      exact h.inOrder j

/-! ### The steps -/

theorem rendezvous_iff_flags : σ.Rendezvous ↔ σ.refused = false ∧ σ.blocked = false := by
  refine ⟨fun hr => ⟨hr.clients, hr.servers⟩, fun ⟨hrefused, hblocked⟩ => ?_⟩
  refine ⟨hrefused, hblocked, fun a _ => ⟨h.inOrder a.chan, (h.conns a.chan).1⟩, ?_⟩
  intro a _ conn hnext waker
  rw [← h.inOrder a.chan, prefix_append_right_inj] at hnext
  obtain ⟨queue, hqueue⟩ := hnext
  unfold pollRecv
  rw [← hqueue]
  rfl

theorem withFlags (refused blocked : Bool) :
    Good { σ with refused := refused, blocked := blocked } :=
  ⟨fun hdict => ⟨(h.entry hdict).lt, (h.entry hdict).waiting, (h.entry hdict).held,
    (h.entry hdict).left, (h.entry hdict).client, (h.entry hdict).terminated⟩, h.absent,
    h.distinct, h.nodup, h.fresh, h.inOrder, h.conns⟩

/-- The channel of an entry whose accepter lives is closed exactly if a client has finished. -/
theorem terminated_iff (hdict : σ.services.dict name = some (proto, inner)) {p : π → Bool}
    (halive : σ.alive name p = true) :
    (σ.chans inner.sender).terminated = true ↔ σ.finished name = true := by
  have hdropped := ((h.alive_iff hdict p).mp halive).2
  rw [(h.entry hdict).terminated, hdropped]
  exact or_iff_left false_ne_true

end

variable [DecidableEq π]

/-- `create_server`: it fails exactly if an entry is there without a waiting accepter. -/
theorem createServer (h : σ.Good) (hblocked : σ.blocked = false)
    (hstep : σ.step (.createServer proto name) = some σ') :
    σ'.Good ∧ σ'.refused = σ.refused ∧
      (σ'.blocked = false ↔ σ.ServesAll (.createServer proto name)) := by
  -- a failure is right exactly if the accepter lives
  have hfail : ∀ {proto' inner}, σ.services.dict name = some (proto', inner) →
      ((σ.blocked || !σ.alive name fun _ => true) = false ↔
        σ.ServesAll (.createServer proto name)) := by
    intro proto' inner hdict
    have halive := h.alive_iff hdict fun _ => true
    rw [hblocked, Bool.false_or, Bool.not_eq_false']
    exact ⟨.inl, fun hor => hor.elim id fun hdropped => halive.mpr ⟨rfl, hdropped⟩⟩
  dsimp only [step, State.createServer] at hstep
  cases hget : σ.services.get proto name with
  | none =>
    have hnone := get_eq_none.mp hget
    rw [hget] at hstep
    cases hstep
    have hgood := (h.insertEntry hnone proto).takeAccepter dict_insert_self rfl
    rw [insert_insert] at hgood
    exact ⟨hgood, rfl, iff_of_true hblocked (.inr (h.absent hnone).2.2.2)⟩
  | typeError =>
    obtain ⟨proto', inner, hdict, -⟩ := get_eq_typeError.mp hget
    rw [hget] at hstep
    cases hstep
    exact ⟨h.withFlags _ _, rfl, hfail hdict⟩
  | ok inner =>
    have hdict := get_eq_ok.mp hget
    cases ha : inner.accepter with
    | some a =>
      rw [hget] at hstep
      dsimp only at hstep
      rw [ha] at hstep
      cases hstep
      refine ⟨h.takeAccepter hdict ha, rfl, iff_of_true hblocked (.inl ?_)⟩
      exact (h.alive_iff hdict _).mpr ⟨rfl, ((h.entry hdict).waiting a ha).2.2⟩
    | none =>
      rw [hget] at hstep
      dsimp only at hstep
      rw [ha] at hstep
      cases hstep
      exact ⟨h.withFlags _ _, rfl, hfail hdict⟩

/-- `create_client`: beside a live accepter of the dual protocol it fails exactly if another
client has finished. -/
theorem createClient (h : σ.Good) (hrefused : σ.refused = false)
    (hstep : σ.step (.createClient proto name) = some σ') :
    σ'.Good ∧ σ'.blocked = σ.blocked ∧
      (σ'.refused = false ↔ σ.ServesAll (.createClient proto name)) := by
  dsimp only [step, State.createClient, getSender] at hstep
  cases hget : σ.services.get proto name with
  | none =>
    have hnone := get_eq_none.mp hget
    rw [hget] at hstep
    rw [h.fresh le_rfl] at hstep
    cases hstep
    refine ⟨(h.insertEntry hnone proto).addClient dict_insert_self, rfl,
      iff_of_true hrefused fun halive => ?_⟩
    cases (h.not_alive hnone _).symm.trans halive
  | typeError =>
    obtain ⟨proto', inner, hdict, hne⟩ := get_eq_typeError.mp hget
    have hdead : σ.alive name (· == proto) = false := by
      refine eq_false_iff.mpr fun halive => hne ?_
      exact beq_iff_eq.mp ((h.alive_iff hdict _).mp halive).1
    rw [hget] at hstep
    cases hstep
    refine ⟨h.withFlags _ _, rfl, iff_of_true ?_ fun halive => ?_⟩
    · rw [hrefused, hdead]
      rfl
    · cases hdead.symm.trans halive
  | ok inner =>
    have hdict := get_eq_ok.mp hget
    rw [hget] at hstep
    dsimp only at hstep
    cases hterm : (σ.chans inner.sender).terminated with
    | false =>
      rw [hterm] at hstep
      cases hstep
      refine ⟨h.addClient hdict, rfl, iff_of_true hrefused fun halive => ?_⟩
      refine eq_false_iff.mpr fun hfinished => ?_
      cases hterm.symm.trans ((h.terminated_iff hdict halive).mpr hfinished)
    | true =>
      rw [hterm] at hstep
      cases hstep
      refine ⟨h.withFlags _ _, rfl, ?_⟩
      change (σ.refused || σ.alive name (· == proto)) = false ↔ _
      rw [hrefused, Bool.false_or]
      constructor
      · exact fun hdead halive => absurd (hdead.symm.trans halive) nofun
      intro hok
      refine eq_false_iff.mpr fun halive => ?_
      have hfinished := (h.terminated_iff hdict halive).mp hterm
      cases (hok halive).symm.trans hfinished

/-- A send is refused exactly if the channel was closed too early. -/
theorem send (h : σ.Good) (hrefused : σ.refused = false) {k : Nat}
    (hstep : σ.step (.send k) = some σ') :
    σ'.Good ∧ σ'.blocked = σ.blocked ∧ (σ'.refused = false ↔ σ.ServesAll (.send k)) := by
  obtain ⟨c, hk, hstep⟩ := bind_eq_some_iff.mp hstep
  have hc : c ∈ σ.clients := mem_of_getElem? hk
  obtain ⟨inner, hdict, hchan⟩ := h.exists_entry hc
  have honly : σ.ServesAll (.send k) ↔
      (σ.alive c.name (· == c.proto) = true → σ.finished c.name = false) := by
    constructor
    · exact fun hok => hok c hk
    intro hok c' hk'
    cases hk.symm.trans hk'
    exact hok
  rw [honly]
  obtain ⟨-, hstep⟩ := ite_none_left_eq_some.mp hstep
  cases hterm : (σ.chans c.chan).terminated with
  | false =>
    rw [sendNoYield, if_neg (by rw [hterm]; exact false_ne_true)] at hstep
    cases hstep
    refine ⟨?_, rfl, iff_of_true hrefused fun halive => ?_⟩
    · obtain ⟨hnodup, hlt⟩ := h.conns c.chan
      have hgood := h.useChan c.chan
        { σ.chans c.chan with
          queue := (σ.chans c.chan).queue ++ [σ.numConns], wakerReceiver := none }
        (σ.clients.set k { c with sent := true }) (σ.numConns + 1)
        (σ.sent c.chan ++ [σ.numConns]) (σ.accepted c.chan) rfl (fun c' hc' => ?_)
        ?_ (Nat.le_succ _) ⟨?_, fun conn hconn => ?_⟩
      · rw [update_eq_self] at hgood
        exact hgood
      · rcases mem_or_eq_of_mem_set hc' with hold | rfl
        · exact ⟨c', hold, rfl, rfl, rfl⟩
        · exact ⟨c, hc, rfl, rfl, rfl⟩
      · rw [← append_assoc, h.inOrder]
      · refine nodup_append.mpr ⟨hnodup, nodup_singleton _, fun conn hconn conn' hc' => ?_⟩
        rw [mem_singleton.mp hc']
        exact (hlt conn hconn).ne
      · rcases mem_append.mp hconn with hold | hnew
        · exact (hlt conn hold).trans (Nat.lt_succ_self _)
        · rw [mem_singleton.mp hnew]
          exact Nat.lt_succ_self _
    · refine eq_false_iff.mpr fun hfinished => ?_
      have hset := (h.terminated_iff hdict halive).mpr hfinished
      rw [hchan, hterm] at hset
      cases hset
  | true =>
    rw [sendNoYield, if_pos hterm] at hstep
    cases hstep
    refine ⟨(h.dropSender hk).withFlags _ _, rfl, ?_⟩
    change (σ.refused || σ.alive c.name (· == c.proto)) = false ↔ _
    rw [hrefused, Bool.false_or]
    constructor
    · exact fun hdead halive => absurd (hdead.symm.trans halive) (by simp)
    intro hok
    refine eq_false_iff.mpr fun halive => ?_
    have hfinished := (h.terminated_iff hdict halive).mp (hchan ▸ hterm)
    cases (hok halive).symm.trans hfinished

omit [DecidableEq π] in
/-- A poll of `accept` takes the first connection of the queue, or leaves the queue as it is. -/
theorem accept (h : σ.Good) {chan : Unbounded.Channel Nat} {accepted : List Nat}
    (hterm : chan.terminated = (σ.chans a.chan).terminated)
    (hexact : accepted ++ chan.queue = σ.sent a.chan) :
    Good { σ with
      chans := update σ.chans a.chan chan
      accepted := update σ.accepted a.chan accepted } := by
  have hgood := h.useChan a.chan chan σ.clients σ.numConns (σ.sent a.chan) accepted hterm
    (fun c hc => ⟨c, hc, rfl, rfl, rfl⟩) hexact le_rfl (h.conns a.chan)
  rw [update_eq_self] at hgood
  exact hgood

/-- **A step serves as it should exactly if it meets the condition.** -/
theorem step (h : σ.Good) (hflags : σ.refused = false ∧ σ.blocked = false) {a : Action π}
    (hstep : σ.step a = some σ') :
    σ'.Good ∧ (σ'.refused = false ∧ σ'.blocked = false ↔ σ.ServesAll a) := by
  obtain ⟨hrefused, hblocked⟩ := hflags
  cases a with
  | createServer proto name =>
    obtain ⟨hgood, hsame, hiff⟩ := h.createServer hblocked hstep
    exact ⟨hgood, (and_iff_right (hsame.trans hrefused)).trans hiff⟩
  | createClient proto name =>
    obtain ⟨hgood, hsame, hiff⟩ := h.createClient hrefused hstep
    exact ⟨hgood, (and_iff_left (hsame.trans hblocked)).trans hiff⟩
  | send k =>
    obtain ⟨hgood, hsame, hiff⟩ := h.send hrefused hstep
    exact ⟨hgood, (and_iff_left (hsame.trans hblocked)).trans hiff⟩
  | finish k =>
    obtain ⟨c, hk, hstep⟩ := bind_eq_some_iff.mp hstep
    split at hstep
    · cases hstep
      exact ⟨h.dropSender hk, iff_of_true ⟨hrefused, hblocked⟩ trivial⟩
    · cases hstep
  | dropClient k =>
    obtain ⟨c, hk, hstep⟩ := bind_eq_some_iff.mp hstep
    cases hstep
    exact ⟨h.dropSender hk, iff_of_true ⟨hrefused, hblocked⟩ trivial⟩
  | accept k waker =>
    obtain ⟨a, hk, hstep⟩ := bind_eq_some_iff.mp hstep
    have hexact := h.inOrder a.chan
    dsimp only [pollRecv] at hstep
    cases hqueue : (σ.chans a.chan).queue with
    | cons conn queue =>
      rw [hqueue] at hstep
      cases hstep
      refine ⟨h.accept rfl ?_, iff_of_true ⟨hrefused, hblocked⟩ trivial⟩
      rw [append_assoc, singleton_append, ← hqueue]
      exact hexact
    | nil =>
      rw [hqueue] at hstep
      -- the queue stays as it is, whether the poll fails or waits
      have hstay : ∀ {chan : Unbounded.Channel Nat}, chan.queue = (σ.chans a.chan).queue →
          chan.terminated = (σ.chans a.chan).terminated →
          Good { σ with chans := update σ.chans a.chan chan } := by
        intro chan hsame hterm
        have hgood := h.accept (a := a) hterm (by rw [hsame]; exact hexact)
        rw [update_eq_self] at hgood
        exact hgood
      cases hterm : (σ.chans a.chan).terminated with
      | true =>
        rw [hterm] at hstep
        cases hstep
        exact ⟨hstay rfl rfl, iff_of_true ⟨hrefused, hblocked⟩ trivial⟩
      | false =>
        rw [hterm] at hstep
        cases hstep
        exact ⟨hstay hqueue.symm hterm.symm, iff_of_true ⟨hrefused, hblocked⟩ trivial⟩
  | dropAccepter k =>
    obtain ⟨a, hk, hstep⟩ := bind_eq_some_iff.mp hstep
    cases hstep
    exact ⟨h.dropAccepter hk, iff_of_true ⟨hrefused, hblocked⟩ trivial⟩

end Good

theorem good_init : (init : State π).Good := by
  refine ⟨nofun, fun _ => ⟨nofun, nofun, rfl, rfl⟩, nofun, nodup_nil, fun _ => rfl,
    fun _ => rfl, fun _ => ⟨nodup_nil, nofun⟩⟩

variable [DecidableEq π]

/-- **The rendezvous of servers and clients, and when it works.** In every run of `create_server`,
`create_client`, `accept` and drops of accepters, with any names and protocols: no `create_client`
fails beside a live accepter of the dual protocol, the connections are accepted once each in the
order in which they were made, and no `create_server` fails without a live accepter of its name,
in all states of the run, exactly if

* beside a live accepter of its protocol no client gets or uses its sender after another client of
  the name has dropped its own, as `create_client` does when it returns, and
* no `create_server` for a name without a live accepter comes after an accepter of the name was
  dropped. -/
theorem rendezvous_iff (as : List (Action π)) (σ : State π)
    (hrun : run State.step (init : State π) as = some σ) :
    Always State.step Rendezvous (init : State π) as ↔
      Meets State.step ServesAll (init : State π) as := by
  refine always_iff_meets (I := Good) ?_ good_init (good_init.rendezvous_iff_flags.mpr ⟨rfl, rfl⟩)
    hrun
  intro σ a σ' hI hP hstep
  obtain ⟨hgood, hiff⟩ := hI.step (hI.rendezvous_iff_flags.mp hP) hstep
  exact ⟨hgood, hgood.rendezvous_iff_flags.trans hiff⟩

/-- A client before the server, and another one that gets its sender before the first returns. -/
def twoClients : List (Action Unit) :=
  [.createClient () "echo", .createServer () "echo", .createClient () "echo", .send 1, .send 0,
    .accept 0 7, .finish 0, .accept 0 7]

theorem rendezvous_iff_twoClients : ∃ σ : State Unit,
    run State.step init twoClients = some σ ∧ σ.accepted 0 = [0, 1] ∧
      Always State.step Rendezvous init twoClients := by
  refine ⟨_, rfl, rfl, (rendezvous_iff _ _ rfl).mpr ?_⟩
  refine ⟨fun _ => rfl, fun σ₁ h₁ => ?_⟩
  cases h₁
  refine ⟨.inl rfl, fun σ₂ h₂ => ?_⟩
  cases h₂
  refine ⟨fun _ => rfl, fun σ₃ h₃ => ?_⟩
  cases h₃
  refine ⟨fun c hc _ => ?_, fun σ₄ h₄ => ?_⟩
  · cases hc
    rfl
  cases h₄
  refine ⟨fun c hc _ => ?_, fun σ₅ h₅ => ?_⟩
  · cases hc
    rfl
  exact ⟨trivial, fun _ _ => ⟨trivial, fun _ _ => ⟨trivial, fun _ _ => trivial⟩⟩⟩

/-- A second client after the first has returned is refused by the live accepter; and after the
accepter of a name was dropped, the next server is refused. -/
theorem refused_clients_and_servers : (∃ σ : State Unit, run State.step init
        [.createServer () "echo", .createClient () "echo", .send 0, .finish 0, .accept 0 7,
          .createClient () "echo"] = some σ ∧
      σ.accepters.length = 1 ∧ σ.clients = [] ∧ σ.refused = true ∧
      (σ.createClient () "echo").2 = .error "channel has been terminated") ∧
    ∃ σ : State Unit, run State.step init
        [.createServer () "echo", .dropAccepter 0, .createServer () "echo"] = some σ ∧
      σ.accepters = [] ∧ σ.blocked = true ∧
      (σ.createServer () "echo").2 = .error "create_server: a server has been already created" :=
  ⟨⟨_, rfl, rfl, rfl, rfl, rfl⟩, ⟨_, rfl, rfl, rfl, rfl⟩⟩

end Service.State

end Awkernel
