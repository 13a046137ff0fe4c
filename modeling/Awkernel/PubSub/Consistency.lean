import Awkernel.PubSub.Registry

/-!
# When the registry is consistent

`Good` says what an entry of the registry knows about the live endpoints: it counts the
publishers created under its name, these and the subscribers created under its name have its type
and its subscriber set, and nobody else has that set. `Alive` says that an entry has a publisher
or a subscriber left. Together they give `Consistent`.

A creation keeps them: it makes an entry without endpoints if there is none (`Good.insertEntry`),
and then an endpoint of the entry (`Good.addPublisher`, `Good.addSubscriber`). So does a drop
(`Good.dropPublisher`, `Good.dropSubscriber`), unless it is the drop of an anonymous publisher
beside an entry with its name and type.
-/

namespace Awkernel

open TransitionSystem AnyDict List Option Function Bool

namespace PubSub.State

variable {τ : Type}

/-! ### Entries -/

/-- What an entry knows about the live endpoints. -/
structure EntryOk (σ : State τ) (name : String) (ty : τ) (inner : InnerPubSub) : Prop where
  nameEq : inner.subscribers.name = name
  setLt : inner.subscribers.set < σ.numSets
  count : inner.numPublisher = σ.numNamed name
  same : ∀ {ty' subscribers}, σ.Named ty' subscribers → subscribers.name = name →
    ty' = ty ∧ subscribers = inner.subscribers
  own : ∀ s ∈ σ.subscribers, s.subscribers.set = inner.subscribers.set →
    s.named = true ∧ s.subscribers.name = name

/-- The registry and the live endpoints. -/
structure Good (σ : State τ) : Prop where
  members : σ.Members
  underflow : σ.underflowed = false
  absent : ∀ {name}, σ.nameToInner.dict name = none →
    ∀ {ty subscribers}, σ.Named ty subscribers → subscribers.name ≠ name
  entry : ∀ {name ty inner}, σ.nameToInner.dict name = some (ty, inner) → σ.EntryOk name ty inner
  distinct : ∀ {name name' v v'}, σ.nameToInner.dict name = some v →
    σ.nameToInner.dict name' = some v' →
    v.2.subscribers.set = v'.2.subscribers.set → name = name'

/-- An entry has a publisher or a subscriber. -/
def Alive (σ : State τ) : Prop :=
  ∀ name ty inner, σ.nameToInner.dict name = some (ty, inner) →
    0 < inner.numPublisher ∨ σ.sets inner.subscribers.set ≠ []

variable {σ σ' : State τ} {p : Publisher τ} {s : Subscriber τ} {subscribers : Subscribers}
  {inner : InnerPubSub} {name : String} {ty : τ} {k : Nat} {named : Bool}

theorem numNamed_pos :
    0 < σ.numNamed name ↔ ∃ p ∈ σ.publishers, p.named = true ∧ p.subscribers.name = name := by
  unfold numNamed
  rw [countP_pos_iff]
  simp only [and_eq_true, beq_iff_eq]

theorem Good.consistent (h : σ.Good) (halive : σ.Alive) : σ.Consistent := by
  refine ⟨fun hdict => (h.entry hdict).count, h.underflow, fun name => ?_, ?_⟩
  · constructor
    · rintro ⟨⟨ty, inner⟩, hdict⟩
      have hentry := h.entry hdict
      rcases halive _ _ _ hdict with hpos | hne
      · rw [hentry.count] at hpos
        obtain ⟨p, hp, hnamed, hname⟩ := numNamed_pos.mp hpos
        exact ⟨p.ty, p.subscribers, .inl ⟨p, hp, hnamed, rfl, rfl⟩, hname⟩
      obtain ⟨id, hid⟩ := exists_mem_of_ne_nil _ hne
      obtain ⟨s, hs, -, hset⟩ := h.members.mem.mp hid
      obtain ⟨hnamed, hname⟩ := hentry.own s hs hset
      exact ⟨s.ty, s.subscribers, .inr ⟨s, hs, hnamed, rfl, rfl⟩, hname⟩
    · rintro ⟨ty, subscribers, hnamed, hname⟩
      by_contra hnone
      refine h.absent ?_ hnamed hname
      exact eq_none_iff_forall_ne_some.mpr fun v hv => hnone ⟨v, hv⟩
  · intro ty subscribers subscribers' hnamed hnamed' hname
    cases hdict : σ.nameToInner.dict subscribers.name with
    | none => exact absurd rfl (h.absent hdict hnamed)
    | some v =>
      have hentry := h.entry hdict
      rw [(hentry.same hnamed rfl).2, (hentry.same hnamed' hname.symm).2]

theorem EntryOk.frame (h : σ.EntryOk name ty inner) (hsets : σ.numSets ≤ σ'.numSets)
    (hcount : σ'.numNamed name = σ.numNamed name)
    (hnamed : ∀ {ty' subscribers}, σ'.Named ty' subscribers → subscribers.name = name →
      σ.Named ty' subscribers ∨ ty' = ty ∧ subscribers = inner.subscribers)
    (hown : ∀ s ∈ σ'.subscribers, s.subscribers.set = inner.subscribers.set →
      s ∈ σ.subscribers ∨ s.named = true ∧ s.subscribers.name = name) :
    σ'.EntryOk name ty inner := by
  refine ⟨h.nameEq, h.setLt.trans_le hsets, h.count.trans hcount.symm, ?_, fun s hs hset => ?_⟩
  · intro ty' subscribers hn hname
    rcases hnamed hn hname with hold | hnew
    · exact h.same hold hname
    · exact hnew
  · rcases hown s hs hset with hold | hnew
    · exact h.own s hold hset
    · exact hnew

/-! ### Creation -/

theorem named_of_append (σ : State τ) (h : σ'.Named ty subscribers)
    (hpub : σ'.publishers = σ.publishers ++ [p]) (hsub : σ'.subscribers = σ.subscribers) :
    σ.Named ty subscribers ∨ p.named = true ∧ p.ty = ty ∧ p.subscribers = subscribers := by
  rcases h with ⟨p', hp', hnamed⟩ | ⟨s, hs, hnamed⟩
  · rw [hpub] at hp'
    rcases mem_append.mp hp' with hold | hnew
    · exact .inl (.inl ⟨p', hold, hnamed⟩)
    · rw [mem_singleton.mp hnew] at hnamed
      exact .inr hnamed
  · exact .inl (.inr ⟨s, hsub ▸ hs, hnamed⟩)

theorem numNamed_append (σ : State τ) (hpub : σ'.publishers = σ.publishers ++ [p]) :
    σ'.numNamed name =
      σ.numNamed name + if p.named = true ∧ p.subscribers.name = name then 1 else 0 := by
  unfold numNamed
  rw [hpub, countP_append, countP_singleton]
  simp only [and_eq_true, beq_iff_eq]

theorem named_addSubscriber {ty' : τ} {subscribers' : Subscribers} :
    (σ.addSubscriber ty subscribers named).Named ty' subscribers' ↔
      σ.Named ty' subscribers' ∨ named = true ∧ ty = ty' ∧ subscribers = subscribers' := by
  unfold Named addSubscriber
  simp only [mem_append, mem_singleton, or_and_right, exists_or, exists_eq_left]
  exact or_assoc.symm

namespace Good

section

variable (h : σ.Good)

include h

theorem insertEntry (hnone : σ.nameToInner.dict name = none) (ty : τ) (attr : Attribute) :
    Good { σ with
      numSets := σ.numSets + 1
      nameToInner := σ.nameToInner.insert name ty ⟨⟨σ.numSets, name, attr⟩, 0⟩ } := by
  have hzero : σ.numNamed name = 0 := by
    refine Nat.eq_zero_of_not_pos fun hpos => ?_
    obtain ⟨p, hp, hnamed, hname⟩ := numNamed_pos.mp hpos
    exact h.absent hnone (.inl ⟨p, hp, hnamed, rfl, rfl⟩) hname
  obtain ⟨hnodup, hinner, hset, hmem⟩ := h.members
  refine ⟨⟨hnodup, hinner, fun s hs => (hset s hs).trans (Nat.lt_succ_self _), hmem⟩, h.underflow,
    ?_, ?_, ?_⟩
  · exact fun hname' _ _ hnamed => h.absent (dict_insert_eq_none.mp hname').2 hnamed
  · intro name' ty' inner hdict
    rcases dict_insert_eq_some.mp hdict with ⟨rfl, heq⟩ | ⟨-, hdict⟩
    · cases heq
      refine ⟨rfl, Nat.lt_succ_self _, hzero.symm, fun hnamed hname => ?_, fun s hs heq => ?_⟩
      · exact absurd hname (h.absent hnone hnamed)
      · exact absurd heq (hset s hs).ne
    · exact (h.entry hdict).frame (Nat.le_succ _) rfl (fun hnamed _ => .inl hnamed)
        fun s hs _ => .inl hs
  · -- the set of the new entry is new
    exact fun h₁ h₂ heq => distinct_insert (f := fun v => v.2.subscribers.set) h.distinct
      h₁ h₂ heq rfl fun hv heq => absurd heq (h.entry hv).setLt.ne

/-- One entry changes its count, and the endpoints change so that it is right. -/
theorem setCount (hdict : σ.nameToInner.dict name = some (ty, inner)) (num : Nat)
    (publishers : List (Publisher τ))
    (hcount : numNamed { σ with publishers := publishers } name = num)
    (hothers : ∀ {name'}, name' ≠ name →
      numNamed { σ with publishers := publishers } name' = σ.numNamed name')
    (hnamed : ∀ {ty' subscribers}, Named { σ with publishers := publishers } ty' subscribers →
      σ.Named ty' subscribers ∨ ty' = ty ∧ subscribers = inner.subscribers) :
    Good { σ with
      nameToInner := σ.nameToInner.insert name ty { inner with numPublisher := num }
      publishers := publishers } := by
  have hentry := h.entry hdict
  refine ⟨⟨h.members.nodup, h.members.innerLt, h.members.setLt, h.members.mem⟩, h.underflow,
    ?_, ?_, ?_⟩
  · intro name' hname' ty' subscribers hn
    obtain ⟨heq, hname'⟩ := dict_insert_eq_none.mp hname'
    rcases hnamed hn with hold | ⟨-, rfl⟩
    · exact h.absent hname' hold
    · rw [hentry.nameEq]
      exact Ne.symm heq
  · intro name' ty' inner' hdict'
    rcases dict_insert_eq_some.mp hdict' with ⟨rfl, heq⟩ | ⟨heq, hdict'⟩
    · cases heq
      refine ⟨hentry.nameEq, hentry.setLt, hcount.symm, fun hn hname => ?_, hentry.own⟩
      rcases hnamed hn with hold | hnew
      · exact hentry.same hold hname
      · exact hnew
    · refine (h.entry hdict').frame le_rfl (hothers heq) (fun hn hname => ?_) fun s hs _ => .inl hs
      rcases hnamed hn with hold | ⟨-, rfl⟩
      · exact .inl hold
      · exact absurd (hname.symm.trans hentry.nameEq) heq
  · exact fun h₁ h₂ heq => distinct_insert (f := fun v => v.2.subscribers.set) h.distinct
      h₁ h₂ heq rfl fun hv heq => h.distinct hv hdict heq

theorem addPublisher (hdict : σ.nameToInner.dict name = some (ty, inner)) : Good { σ with
      nameToInner := σ.nameToInner.insert name ty
        { inner with numPublisher := inner.numPublisher + 1 }
      publishers := σ.publishers ++ [⟨ty, inner.subscribers, true⟩] } := by
  have hentry := h.entry hdict
  refine h.setCount hdict _ _ ?_ (fun hne => ?_) fun hn => ?_
  · rw [numNamed_append σ rfl, if_pos ⟨rfl, hentry.nameEq⟩, hentry.count]
  · rw [numNamed_append σ rfl, if_neg fun hnew => hne (hnew.2.symm.trans hentry.nameEq)]
    rfl
  · rcases named_of_append σ hn rfl rfl with hold | ⟨-, rfl, rfl⟩
    · exact .inl hold
    · exact .inr ⟨rfl, rfl⟩

theorem addAnonymous {p : Publisher τ} (hp : p.named = false) :
    Good { σ with numSets := σ.numSets + 1, publishers := σ.publishers ++ [p] } := by
  have hnamed : ∀ {ty subscribers}, Named { σ with
      numSets := σ.numSets + 1, publishers := σ.publishers ++ [p] } ty subscribers →
      σ.Named ty subscribers := by
    intro ty subscribers hn
    rcases named_of_append σ hn rfl rfl with hold | ⟨hnew, -⟩
    · exact hold
    · cases hp.symm.trans hnew
  obtain ⟨hnodup, hinner, hset, hmem⟩ := h.members
  refine ⟨⟨hnodup, hinner, fun s hs => (hset s hs).trans (Nat.lt_succ_self _), hmem⟩, h.underflow,
    fun hnone _ _ hn => h.absent hnone (hnamed hn), fun hdict => ?_, h.distinct⟩
  refine (h.entry hdict).frame (Nat.le_succ _) ?_ (fun hn _ => .inl (hnamed hn))
    fun s hs _ => .inl hs
  rw [numNamed_append σ rfl, if_neg fun hnew => false_ne_true (hp.symm.trans hnew.1)]
  rfl

/-- A subscriber of an entry, or an anonymous one in a set that no entry has. -/
theorem addSubscriber (hset : subscribers.set < σ.numSets) (hnamed : named = true → ∃ num,
      σ.nameToInner.dict subscribers.name = some (ty, ⟨subscribers, num⟩))
    (hanonymous : named = false → ∀ {name v}, σ.nameToInner.dict name = some v →
      subscribers.set ≠ v.2.subscribers.set) :
    (σ.addSubscriber ty subscribers named).Good := by
  refine ⟨h.members.addSubscriber hset, h.underflow, ?_, ?_, h.distinct⟩
  · intro name hnone ty' subscribers' hn
    rcases named_addSubscriber.mp hn with hold | ⟨hnew, rfl, rfl⟩
    · exact h.absent hnone hold
    rintro rfl
    obtain ⟨num, hdict⟩ := hnamed hnew
    cases hdict.symm.trans hnone
  · intro name ty' inner hdict
    refine (h.entry hdict).frame le_rfl rfl (fun hn hname => ?_) fun s hs hseq => ?_
    · rcases named_addSubscriber.mp hn with hold | ⟨hnew, rfl, rfl⟩
      · exact .inl hold
      obtain ⟨num, hown⟩ := hnamed hnew
      rw [hname] at hown
      cases hdict.symm.trans hown
      exact .inr ⟨rfl, rfl⟩
    · rcases mem_append.mp hs with hold | hnew
      · exact .inl hold
      rw [mem_singleton.mp hnew] at hseq ⊢
      cases hn : named with
      | true =>
        obtain ⟨num, hown⟩ := hnamed hn
        exact .inr ⟨rfl, h.distinct hown hdict hseq⟩
      | false => exact absurd hseq (hanonymous hn hdict)

/-! ### Drops -/

theorem remove (hnone : ∀ {ty subscribers}, σ.Named ty subscribers → subscribers.name ≠ name) :
    Good { σ with nameToInner := σ.nameToInner.remove name } := by
  obtain ⟨hnodup, hinner, hset, hmem⟩ := h.members
  have hold : ∀ {name' v}, (σ.nameToInner.remove name).dict name' = some v →
      σ.nameToInner.dict name' = some v := fun hv => (dict_remove_eq_some.mp hv).2
  refine ⟨⟨hnodup, hinner, hset, hmem⟩, h.underflow, ?_, fun hdict => ?_,
    fun h₁ h₂ => h.distinct (hold h₁) (hold h₂)⟩
  · intro name' hname' ty subscribers hn
    by_cases heq : name' = name
    · subst heq
      exact hnone hn
    · rw [dict_remove_of_ne heq] at hname'
      exact h.absent hname' hn
  · exact (h.entry (hold hdict)).frame le_rfl rfl (fun hn _ => .inl hn) fun s hs _ => .inl hs

theorem eraseSubscriber {k : Nat} (hk : σ.subscribers[k]? = some s) : Good { σ with
      sets := update σ.sets s.subscribers.set ((σ.sets s.subscribers.set).filter (· ≠ s.inner))
      subscribers := σ.subscribers.eraseIdx k } := by
  have hmem : ∀ s' ∈ σ.subscribers.eraseIdx k, s' ∈ σ.subscribers := fun s' hs' =>
    (perm_eraseIdx hk).mem_iff.mp (mem_cons_of_mem _ hs')
  have hnamed : ∀ {ty subscribers}, Named { σ with
      sets := update σ.sets s.subscribers.set ((σ.sets s.subscribers.set).filter (· ≠ s.inner))
      subscribers := σ.subscribers.eraseIdx k } ty subscribers → σ.Named ty subscribers := by
    rintro ty subscribers (hp | ⟨s', hs', hn⟩)
    · exact .inl hp
    · exact .inr ⟨s', hmem s' hs', hn⟩
  refine ⟨h.members.eraseIdx hk, h.underflow, fun hnone _ _ hn => h.absent hnone (hnamed hn),
    fun hdict => ?_, h.distinct⟩
  exact (h.entry hdict).frame le_rfl rfl (fun hn _ => .inl (hnamed hn))
    fun s' hs' _ => .inl (hmem s' hs')

/-- Nothing is left under the name of an entry without publishers and with an empty set. -/
theorem none_named (hdict : σ.nameToInner.dict name = some (ty, inner))
    (hzero : inner.numPublisher = 0)
    (hempty : σ.sets inner.subscribers.set = []) {ty' : τ}
    (hn : σ.Named ty' subscribers) : subscribers.name ≠ name := by
  rintro rfl
  have hentry := h.entry hdict
  rcases hn with ⟨p, hp, hnamed, -, rfl⟩ | ⟨s, hs, hnamed, -, rfl⟩
  · have hpos := numNamed_pos.mpr ⟨p, hp, hnamed, rfl⟩
    rw [← hentry.count, hzero] at hpos
    exact absurd hpos (lt_irrefl 0)
  · have hsame := (hentry.same (.inr ⟨s, hs, hnamed, rfl, rfl⟩) rfl).2
    exact h.members.eq_nil.mp hempty s hs (congrArg Subscribers.set hsame)

end

end Good

theorem numNamed_eraseIdx (hk : σ.publishers[k]? = some p) (name : String) :
    σ.numNamed name = numNamed { σ with publishers := σ.publishers.eraseIdx k } name +
      if p.named = true ∧ p.subscribers.name = name then 1 else 0 := by
  unfold numNamed
  rw [← (perm_eraseIdx hk).countP_eq, countP_cons]
  simp only [and_eq_true, beq_iff_eq]

theorem named_of_eraseIdx (hk : σ.publishers[k]? = some p)
    (h : Named { σ with publishers := σ.publishers.eraseIdx k } ty subscribers) :
    σ.Named ty subscribers := by
  rcases h with ⟨p', hp', hn⟩ | hs
  · exact .inl ⟨p', (perm_eraseIdx hk).mem_iff.mp (mem_cons_of_mem _ hp'), hn⟩
  · exact .inr hs

/-! ### The operations -/

/-- A new subscriber leaves every entry alive, and its own set is not empty. -/
theorem addSubscriber_alive
    (halive : ∀ name ty' inner, σ.nameToInner.dict name = some (ty', inner) →
      0 < inner.numPublisher ∨ σ.sets inner.subscribers.set ≠ [] ∨
        inner.subscribers.set = subscribers.set) :
    (σ.addSubscriber ty subscribers named).Alive := by
  intro name ty' inner hdict
  change _ ∨ update σ.sets subscribers.set _ _ ≠ []
  by_cases heq : inner.subscribers.set = subscribers.set
  · rw [heq, update_self]
    exact .inr (append_ne_nil_of_right_ne_nil _ (cons_ne_nil _ _))
  rw [update_of_ne heq]
  rcases halive _ _ _ hdict with hpos | hne | hset
  · exact .inl hpos
  · exact .inr hne
  · exact absurd hset heq

theorem createPubsub_sound (h : σ.Good) (halive : σ.Alive) (ty : τ) (attr : Attribute) :
    (σ.createPubsub ty attr).Good ∧ (σ.createPubsub ty attr).Alive := by
  refine ⟨(h.addAnonymous rfl).addSubscriber (Nat.lt_succ_self _) nofun fun _ _ _ hdict => ?_, ?_⟩
  · exact (h.entry hdict).setLt.ne'
  · exact addSubscriber_alive fun _ _ _ hd => (halive _ _ _ hd).imp_right .inl

theorem clone_sound (h : σ.Good) (halive : σ.Alive)
    (hk : σ.subscribers[k]? = some s) : (σ.addSubscriber s.ty s.subscribers s.named).Good ∧
      (σ.addSubscriber s.ty s.subscribers s.named).Alive := by
  have hs : s ∈ σ.subscribers := mem_of_getElem? hk
  refine ⟨h.addSubscriber (h.members.setLt s hs) (fun hnamed => ?_) fun hanon _ _ hdict heq => ?_,
    addSubscriber_alive fun _ _ _ hd => (halive _ _ _ hd).imp_right .inl⟩
  · have hn : σ.Named s.ty s.subscribers := .inr ⟨s, hs, hnamed, rfl, rfl⟩
    cases hdict : σ.nameToInner.dict s.subscribers.name with
    | none => exact absurd rfl (h.absent hdict hn)
    | some v =>
      obtain ⟨ty, inner⟩ := v
      obtain ⟨rfl, hsame⟩ := (h.entry hdict).same hn rfl
      exact ⟨inner.numPublisher, by rw [hsame]⟩
  · exact false_ne_true (hanon.symm.trans ((h.entry hdict).own s hs heq).1)

variable [DecidableEq τ]

theorem createPublisher_sound (h : σ.Good) (halive : σ.Alive) (ty : τ) (name : String)
    (attr : Attribute) :
    (σ.createPublisher ty name attr).1.Good ∧ (σ.createPublisher ty name attr).1.Alive := by
  -- the entry has a publisher, and the others are as before
  have hlive : ∀ (inner : InnerPubSub) {num numSets : Nat} {publishers : List (Publisher τ)},
      0 < num → Alive { σ with
        numSets := numSets
        nameToInner := σ.nameToInner.insert name ty { inner with numPublisher := num }
        publishers := publishers } := by
    intro inner num numSets publishers hpos name' ty' inner' hdict
    rcases dict_insert_eq_some.mp hdict with ⟨-, heq⟩ | ⟨-, hdict⟩
    · cases heq
      exact .inl hpos
    · exact halive _ _ _ hdict
  unfold createPublisher
  cases hget : σ.nameToInner.get ty name with
  | typeError => exact ⟨h, halive⟩
  | none =>
    have hgood := (h.insertEntry (get_eq_none.mp hget) ty attr).addPublisher dict_insert_self
    rw [insert_insert] at hgood
    exact ⟨hgood, hlive ⟨⟨σ.numSets, name, attr⟩, 0⟩ Nat.one_pos⟩
  | ok inner =>
    dsimp only
    split
    · exact ⟨h.addPublisher (get_eq_ok.mp hget), hlive inner (Nat.succ_pos _)⟩
    · exact ⟨h, halive⟩

theorem createSubscriber_sound (h : σ.Good) (halive : σ.Alive) (ty : τ) (name : String)
    (attr : Attribute) :
    (σ.createSubscriber ty name attr).1.Good ∧ (σ.createSubscriber ty name attr).1.Alive := by
  unfold createSubscriber
  cases hget : σ.nameToInner.get ty name with
  | typeError => exact ⟨h, halive⟩
  | none =>
    refine ⟨(h.insertEntry (get_eq_none.mp hget) ty attr).addSubscriber
      (Nat.lt_succ_self _) (fun _ => ⟨0, dict_insert_self⟩) nofun, ?_⟩
    refine addSubscriber_alive fun name' ty' inner hdict => ?_
    rcases dict_insert_eq_some.mp hdict with ⟨-, heq⟩ | ⟨-, hdict⟩
    · cases heq
      exact .inr (.inr rfl)
    · exact (halive _ _ _ hdict).imp_right .inl
  | ok inner =>
    have hdict := get_eq_ok.mp hget
    dsimp only
    split
    · refine ⟨h.addSubscriber (h.entry hdict).setLt (fun _ => ⟨inner.numPublisher, ?_⟩) nofun, ?_⟩
      · rw [(h.entry hdict).nameEq]
        exact hdict
      · exact addSubscriber_alive fun _ _ _ hd => (halive _ _ _ hd).imp_right .inl
    · exact ⟨h, halive⟩

/-- **The drop of a publisher** keeps the registry right, if it is not an anonymous one beside an
entry with its name and type. -/
theorem dropPublisher_sound (h : σ.Good) (halive : σ.Alive) (hk : σ.publishers[k]? = some p)
    (hok : p.named = false → ∀ inner, σ.nameToInner.dict p.subscribers.name ≠ some (p.ty, inner)) :
    Good ({ σ with publishers := σ.publishers.eraseIdx k }.destroyPublisher p) ∧
      Alive ({ σ with publishers := σ.publishers.eraseIdx k }.destroyPublisher p) := by
  have hmem : p ∈ σ.publishers := mem_of_getElem? hk
  -- without an entry of its type the publisher is anonymous, and only the list changes
  have hanonymous : (∀ inner, σ.nameToInner.dict p.subscribers.name ≠ some (p.ty, inner)) →
      Good { σ with publishers := σ.publishers.eraseIdx k } := by
    intro hnot
    have hp : ¬p.named = true := by
      intro hnamed
      have hn : σ.Named p.ty p.subscribers := .inl ⟨p, hmem, hnamed, rfl, rfl⟩
      cases hdict : σ.nameToInner.dict p.subscribers.name with
      | none => exact h.absent hdict hn rfl
      | some v =>
        obtain ⟨ty, inner⟩ := v
        obtain ⟨rfl, -⟩ := (h.entry hdict).same hn rfl
        exact hnot inner hdict
    obtain ⟨hnodup, hinner, hset, hmembers⟩ := h.members
    refine ⟨⟨hnodup, hinner, hset, hmembers⟩, h.underflow,
      fun hnone _ _ hn => h.absent hnone (named_of_eraseIdx hk hn), fun {name} _ _ hdict => ?_,
      h.distinct⟩
    refine (h.entry hdict).frame le_rfl ?_ (fun hn _ => .inl (named_of_eraseIdx hk hn))
      fun s hs _ => .inl hs
    have hcount := numNamed_eraseIdx hk name
    rw [if_neg fun hnew => hp hnew.1] at hcount
    exact hcount.symm
  unfold destroyPublisher
  cases hget : σ.nameToInner.get p.ty p.subscribers.name with
  | none =>
    refine ⟨hanonymous fun inner hdict => ?_, halive⟩
    cases (get_eq_none.mp hget).symm.trans hdict
  | typeError =>
    refine ⟨hanonymous fun inner hdict => ?_, halive⟩
    cases hget.symm.trans (get_eq_ok.mpr hdict)
  | ok inner =>
    have hdict := get_eq_ok.mp hget
    have hentry := h.entry hdict
    have hp : p.named = true := by
      cases hn : p.named with
      | true => rfl
      | false => exact absurd hdict (hok hn inner)
    have hpos : inner.numPublisher ≠ 0 := by
      rw [hentry.count]
      exact (numNamed_pos.mpr ⟨p, hmem, hp, rfl⟩).ne'
    have hcount := numNamed_eraseIdx hk p.subscribers.name
    rw [if_pos ⟨hp, rfl⟩, ← hentry.count] at hcount
    -- the entry with one publisher less
    have hgood := h.setCount hdict (inner.numPublisher - 1) (σ.publishers.eraseIdx k) (by omega)
      (fun {name'} hne => by
        have hsame := numNamed_eraseIdx hk name'
        rw [if_neg fun hnew => hne hnew.2.symm] at hsame
        exact hsame.symm)
      fun hn => .inl (named_of_eraseIdx hk hn)
    have hflag : (σ.underflowed || inner.numPublisher == 0) = σ.underflowed := by
      rw [beq_eq_false_iff_ne.mpr hpos, Bool.or_false]
    dsimp only
    rw [if_neg hpos, hflag]
    split
    · next hlast =>
      have hremoved := hgood.remove (hgood.none_named dict_insert_self hlast.1 hlast.2)
      rw [remove_insert] at hremoved
      refine ⟨hremoved, fun name' ty' inner' hdict' => ?_⟩
      exact halive _ _ _ (dict_remove_eq_some.mp hdict').2
    · next hrest =>
      refine ⟨hgood, fun name' ty' inner' hdict' => ?_⟩
      rcases dict_insert_eq_some.mp hdict' with ⟨-, heq⟩ | ⟨-, hdict'⟩
      · cases heq
        rcases Nat.eq_zero_or_pos (inner.numPublisher - 1) with hzero | hpos'
        · exact .inr fun hempty => hrest ⟨hzero, hempty⟩
        · exact .inl hpos'
      · exact halive _ _ _ hdict'

/-- **The drop of a subscriber** keeps the registry right. -/
theorem dropSubscriber_sound (h : σ.Good) (halive : σ.Alive) (hk : σ.subscribers[k]? = some s) :
    Good ({ σ with subscribers := σ.subscribers.eraseIdx k }.destroySubscriber s) ∧
      Alive ({ σ with subscribers := σ.subscribers.eraseIdx k }.destroySubscriber s) := by
  have hmem : s ∈ σ.subscribers := mem_of_getElem? hk
  have hgood := h.eraseSubscriber hk
  -- the set of an entry under another name, or of another type, is not touched
  have hother : ∀ name ty inner, σ.nameToInner.dict name = some (ty, inner) →
      ¬(name = s.subscribers.name ∧ ty = s.ty) → 0 < inner.numPublisher ∨
        update σ.sets s.subscribers.set
          ((σ.sets s.subscribers.set).filter (· ≠ s.inner)) inner.subscribers.set ≠ [] := by
    intro name ty inner hdict hnot
    have hne : inner.subscribers.set ≠ s.subscribers.set := by
      intro heq
      obtain ⟨hnamed, hname⟩ := (h.entry hdict).own s hmem heq.symm
      have hty := ((h.entry hdict).same (.inr ⟨s, hmem, hnamed, rfl, rfl⟩) hname).1
      exact hnot ⟨hname.symm, hty.symm⟩
    rw [update_of_ne hne]
    exact halive _ _ _ hdict
  unfold destroySubscriber
  cases hget : σ.nameToInner.get s.ty s.subscribers.name with
  | none =>
    refine ⟨hgood, fun name ty inner hdict => hother name ty inner hdict ?_⟩
    rintro ⟨rfl, rfl⟩
    cases (get_eq_none.mp hget).symm.trans hdict
  | typeError =>
    refine ⟨hgood, fun name ty inner hdict => hother name ty inner hdict ?_⟩
    rintro ⟨rfl, rfl⟩
    cases hget.symm.trans (get_eq_ok.mpr hdict)
  | ok inner =>
    have hdict := get_eq_ok.mp hget
    dsimp only
    split
    · next hlast =>
      refine ⟨hgood.remove (hgood.none_named hdict hlast.1 hlast.2),
        fun name ty inner' hdict' => ?_⟩
      obtain ⟨heq, hdict'⟩ := dict_remove_eq_some.mp hdict'
      exact hother name ty inner' hdict' fun hsame => heq hsame.1
    · next hrest =>
      refine ⟨hgood, fun name ty inner' hdict' => ?_⟩
      by_cases heq : name = s.subscribers.name ∧ ty = s.ty
      · obtain ⟨rfl, rfl⟩ := heq
        cases hdict.symm.trans hdict'
        rcases Nat.eq_zero_or_pos inner.numPublisher with hzero | hpos
        · exact .inr fun hempty => hrest ⟨hzero, hempty⟩
        · exact .inl hpos
      · exact hother name ty inner' hdict' heq

/-- **The drop of an anonymous publisher beside an entry with its name and type** makes the
registry inconsistent: the count is one too low, or the entry is gone, or the count was zero. -/
theorem not_consistent_of_anonymous (h : σ.Consistent) (hk : σ.publishers[k]? = some p)
    (hp : p.named = false)
    (hdict : σ.nameToInner.dict p.subscribers.name = some (p.ty, inner)) :
    ¬Consistent ({ σ with publishers := σ.publishers.eraseIdx k }.destroyPublisher p) := by
  have hcount := numNamed_eraseIdx hk p.subscribers.name
  rw [if_neg fun hnew => false_ne_true (hp.symm.trans hnew.1), ← h.count hdict] at hcount
  unfold destroyPublisher
  rw [get_eq_ok.mpr hdict]
  dsimp only
  intro hafter
  have hflag := hafter.underflow
  rw [or_eq_false_iff, beq_eq_false_iff_ne] at hflag
  by_cases hlast : (if inner.numPublisher = 0 then 2 ^ 64 - 1 else inner.numPublisher - 1) = 0 ∧
      σ.sets inner.subscribers.set = []
  · rw [if_pos hlast] at hafter
    have hpos : 0 < inner.numPublisher := Nat.pos_of_ne_zero hflag.2
    rw [hcount] at hpos
    obtain ⟨p', hp', hnamed, hname⟩ := numNamed_pos.mp hpos
    obtain ⟨v, hv⟩ := (hafter.entry p.subscribers.name).mpr
      ⟨p'.ty, p'.subscribers, .inl ⟨p', hp', hnamed, rfl, rfl⟩, hname⟩
    cases dict_remove_self.symm.trans hv
  · rw [if_neg hlast] at hafter
    have hwrong := hafter.count dict_insert_self
    rw [if_neg hflag.2] at hwrong
    have hne := hflag.2
    change inner.numPublisher - 1 = numNamed { σ with publishers := σ.publishers.eraseIdx k } _
      at hwrong
    omega

/-- **A step keeps the registry consistent exactly if it drops no anonymous publisher beside an
entry with its name and type.** -/
theorem sound_step {a : Action τ} (h : σ.Good) (halive : σ.Alive) (hstep : σ.step a = some σ') :
    (σ.KeepsOthers a → σ'.Good ∧ σ'.Alive) ∧ (¬σ.KeepsOthers a → ¬σ'.Consistent) := by
  cases a with
  | createPublisher ty name attr =>
    cases hstep
    exact ⟨fun _ => createPublisher_sound h halive ty name attr, fun hnot => absurd trivial hnot⟩
  | createSubscriber ty name attr =>
    cases hstep
    exact ⟨fun _ => createSubscriber_sound h halive ty name attr, fun hnot => absurd trivial hnot⟩
  | createPubsub ty attr =>
    cases hstep
    exact ⟨fun _ => createPubsub_sound h halive ty attr, fun hnot => absurd trivial hnot⟩
  | clone k =>
    obtain ⟨s, hk, hσ'⟩ := bind_eq_some_iff.mp hstep
    cases hσ'
    exact ⟨fun _ => clone_sound h halive hk, fun hnot => absurd trivial hnot⟩
  | dropPublisher k =>
    obtain ⟨p, hk, hσ'⟩ := bind_eq_some_iff.mp hstep
    cases hσ'
    refine ⟨fun hok => dropPublisher_sound h halive hk (hok p hk), fun hnot => ?_⟩
    unfold KeepsOthers at hnot
    push Not at hnot
    obtain ⟨p', hk', hp, inner, hdict⟩ := hnot
    cases hk.symm.trans hk'
    exact not_consistent_of_anonymous (h.consistent halive) hk hp hdict
  | dropSubscriber k =>
    obtain ⟨s, hk, hσ'⟩ := bind_eq_some_iff.mp hstep
    cases hσ'
    exact ⟨fun _ => dropSubscriber_sound h halive hk, fun hnot => absurd trivial hnot⟩

omit [DecidableEq τ] in
theorem good_init : (init : State τ).Good := by
  refine ⟨⟨nodup_nil, nofun, nofun, ?_⟩, rfl, fun _ _ _ hn => ?_, nofun, nofun⟩
  · exact iff_of_false not_mem_nil fun ⟨_, hs, _⟩ => absurd hs not_mem_nil
  rcases hn with ⟨_, hp, _⟩ | ⟨_, hs, _⟩
  · cases hp
  · cases hs

/-- **The registry, and when it is consistent.** In every run of creations, clones and drops, with
any names, types and attributes: the counts are those of the live publishers created under the
names and do not underflow, an entry is there exactly while an endpoint created under its name
lives, and live endpoints of one name and type share one subscriber set, in all states of the
run, exactly if no publisher made by `create_pubsub` is dropped while there is an entry of its
type under its name. -/
theorem consistent_iff (as : List (Action τ)) (σ : State τ)
    (hrun : run step (init : State τ) as = some σ) :
    Always step Consistent (init : State τ) as ↔ Meets step KeepsOthers (init : State τ) as := by
  have halive : (init : State τ).Alive := nofun
  refine always_iff_meets (I := fun σ => σ.Consistent → σ.Good ∧ σ.Alive) ?_
    (fun _ => ⟨good_init, halive⟩) (good_init.consistent halive) hrun
  intro σ a σ' hI hP hstep
  obtain ⟨hg, ha⟩ := hI hP
  obtain ⟨hkeeps, hbreaks⟩ := sound_step hg ha hstep
  have hiff : σ'.Consistent ↔ σ.KeepsOthers a := by
    constructor
    · exact fun hafter => by_contra fun hnot => hbreaks hnot hafter
    · exact fun hok => (hkeeps hok).1.consistent (hkeeps hok).2
  exact ⟨fun hafter => hkeeps (hiff.mp hafter), hiff⟩

/-- Endpoints under two names, one of them `"anonymous"`, beside anonymous ones of another type. -/
theorem consistent_iff_types : ∃ σ : State Bool,
    run step init [.createPublisher true "anonymous" .default, .createPubsub false .default,
        .createSubscriber true "topic" .default, .dropPublisher 1, .dropSubscriber 0,
        .dropPublisher 0] = some σ ∧
      (σ.nameToInner.dict "anonymous").isNone ∧ (σ.nameToInner.dict "topic").isSome ∧
      Always step Consistent init
        [.createPublisher true "anonymous" .default, .createPubsub false .default,
          .createSubscriber true "topic" .default, .dropPublisher 1, .dropSubscriber 0,
          .dropPublisher 0] := by
  refine ⟨_, rfl, rfl, rfl, (consistent_iff _ _ rfl).mpr ?_⟩
  refine ⟨trivial, fun σ₁ h₁ => ?_⟩
  cases h₁
  refine ⟨trivial, fun σ₂ h₂ => ?_⟩
  cases h₂
  refine ⟨trivial, fun σ₃ h₃ => ?_⟩
  cases h₃
  refine ⟨fun p hp _ inner hdict => ?_, fun σ₄ h₄ => ?_⟩
  · cases hp
    have hty : some true = some false := congrArg (Option.map Prod.fst) hdict
    cases hty
  cases h₄
  refine ⟨trivial, fun σ₅ h₅ => ?_⟩
  cases h₅
  refine ⟨fun p hp hnamed _ _ => ?_, fun _ _ => trivial⟩
  cases hp
  cases hnamed

/-- An anonymous publisher is dropped beside an entry `"anonymous"` of its type. If a publisher
has registered the name, its entry is removed while it lives, and the next one to register the
name gets another subscriber set; if a subscriber has, the count underflows. -/
theorem anonymous_drop : (∃ σ : State Unit, run step init [.createPublisher () "anonymous" .default,
        .createPubsub () .default, .dropPublisher 1] = some σ ∧
      σ.numNamed "anonymous" = 1 ∧ (σ.nameToInner.dict "anonymous").isNone) ∧
    (∃ σ : State Unit, run step init [.createPublisher () "anonymous" .default,
        .createPubsub () .default, .dropPublisher 1,
        .createPublisher () "anonymous" .default] = some σ ∧
      σ.publishers.map (fun p => (p.named, p.subscribers.name, p.subscribers.set)) =
        [(true, "anonymous", 0), (true, "anonymous", 2)]) ∧
    ∃ σ : State Unit, run step init [.createSubscriber () "anonymous" .default,
        .createPubsub () .default, .dropPublisher 0] = some σ ∧ σ.underflowed = true :=
  ⟨⟨_, rfl, rfl, rfl⟩, ⟨_, rfl, rfl⟩, ⟨_, rfl, rfl⟩⟩

end PubSub.State

end Awkernel
