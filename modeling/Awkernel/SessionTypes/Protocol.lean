import Mathlib.Data.List.Basic

/-!
# Protocols and their duals

The protocols of `awkernel_async_lib/src/session_types.rs` and the type `Chan<E, P>` of a session
channel: a protocol `P` that is still to be followed, and an environment `E` of the bodies of the
recursions that were entered. The Rust types that may be sent are those of an arbitrary `τ`, and
`bool`, with which a choice is sent as well.

Two parties that follow dual protocols are never in step, because a party goes on after a send.
So the state of a session is described by a path (`Path`): the party that is behind has still to
go through the moves of the other one, as dual moves, and the values on that path are those in the
queue. Entering a recursion or returning to one are moves of one party alone (`Silent`), in which
the party behind may overtake if nothing is in the queue. `Linked` says this of both queues.

* `Linked.silent`, `Linked.write`, `Linked.read` — the moves of a party keep two parties linked.
* `Linked.not_write`, `Linked.not_starved`, `Linked.not_both_read` — when one party is at its end,
  the other one does not write, and finds in the queue what it reads; and if nothing is in the
  queues, not both parties read.
-/

namespace Awkernel

namespace SessionTypes

/-- A Rust type of which values are sent. -/
inductive Ty (τ : Type)
  | bool
  | of (a : τ)
  deriving DecidableEq

/-- The values of a type. -/
def Ty.Val {τ : Type} (val : τ → Type) : Ty τ → Type
  | .bool => Bool
  | .of a => val a

/-- The protocols; `recur` is the source's `Rec`, and the Peano number of `Var` is a number. -/
inductive Protocol (τ : Type)
  /-- End of communication session. -/
  | eps
  | send (A : Ty τ) (P : Protocol τ)
  | recv (A : Ty τ) (P : Protocol τ)
  /-- Active choice between `P` and `Q`. -/
  | choose (P Q : Protocol τ)
  /-- Passive choice between `P` and `Q`. -/
  | offer (P Q : Protocol τ)
  /-- Enter a recursive environment. -/
  | recur (P : Protocol τ)
  | var (n : Nat)

/-- `HasDual::Dual`. -/
def Protocol.dual {τ : Type} : Protocol τ → Protocol τ
  | .eps => .eps
  | .send A P => .recv A P.dual
  | .recv A P => .send A P.dual
  | .choose P Q => .offer P.dual Q.dual
  | .offer P Q => .choose P.dual Q.dual
  | .recur P => .recur P.dual
  | .var n => .var n

@[simp]
theorem Protocol.dual_dual {τ : Type} (P : Protocol τ) : P.dual.dual = P := by
  induction P with
  | eps | var n => rfl
  | send A P ih => exact congrArg (Protocol.send A) ih
  | recv A P ih => exact congrArg (Protocol.recv A) ih
  | choose P Q ihP ihQ => exact congrArg₂ Protocol.choose ihP ihQ
  | offer P Q ihP ihQ => exact congrArg₂ Protocol.offer ihP ihQ
  | recur P ih => exact congrArg Protocol.recur ih

/-- `Chan<E, P>`, as a type. -/
@[ext]
structure Chan (τ : Type) where
  env : List (Protocol τ)
  protocol : Protocol τ

/-- What is sent, an `AtomicPtr<u8>` to a box: the type with which it was written, and the
value. -/
structure Ptr {τ : Type} (val : τ → Type) where
  type : Ty τ
  value : type.Val val

namespace Chan

variable {τ : Type} {val : τ → Type} {c c' c'' d d' : Chan τ} {p : Ptr val}
  {q q' q₁ q₂ : List (Ptr val)}

def dual (c : Chan τ) : Chan τ := ⟨c.env.map Protocol.dual, c.protocol.dual⟩

@[simp]
theorem dual_dual (c : Chan τ) : c.dual.dual = c := by
  refine Chan.ext ?_ c.protocol.dual_dual
  show (c.env.map Protocol.dual).map Protocol.dual = c.env
  rw [List.map_map]
  exact (List.map_congr_left fun P _ => P.dual_dual).trans (List.map_id _)

/-! ### The moves of a party -/

/-- `enter`, `zero` and `succ`, which send and receive nothing. -/
inductive Silent : Chan τ → Chan τ → Prop
  | enter {E : List (Protocol τ)} {P : Protocol τ} : Silent ⟨E, .recur P⟩ ⟨P :: E, P⟩
  | zero {E : List (Protocol τ)} {P : Protocol τ} : Silent ⟨P :: E, .var 0⟩ ⟨P :: E, P⟩
  | succ {E : List (Protocol τ)} {P : Protocol τ} {n : Nat} :
      Silent ⟨P :: E, .var (n + 1)⟩ ⟨E, .var n⟩

/-- `send`, and `sel1` and `sel2`, with what they write. -/
inductive Out : Ptr val → Chan τ → Chan τ → Prop
  | send {E : List (Protocol τ)} {A : Ty τ} {P : Protocol τ} (v : A.Val val) :
      Out ⟨A, v⟩ ⟨E, .send A P⟩ ⟨E, P⟩
  | select {E : List (Protocol τ)} {P Q : Protocol τ} (b : Bool) :
      Out ⟨.bool, b⟩ ⟨E, .choose P Q⟩ ⟨E, bif b then P else Q⟩

/-- The next move is a receive. -/
def Reads (c : Chan τ) : Prop :=
  (∃ A P, c.protocol = .recv A P) ∨ ∃ P Q, c.protocol = .offer P Q

theorem Silent.dual (h : Silent c c') : Silent c.dual c'.dual := by
  cases h with
  | enter => exact .enter
  | zero => exact .zero
  | succ => exact .succ

theorem Silent.unique (h : Silent c c') (h' : Silent c c'') : c' = c'' := by
  cases h <;> cases h' <;> rfl

theorem Silent.not_out (h : Silent c c') : ¬Out p c d := by
  intro h'
  cases h <;> cases h'

theorem Reads.not_silent (h : c.Reads ∨ c.protocol = .eps) : ¬Silent c c' := by
  rintro (- | - | -) <;> simp [Reads] at h

theorem Reads.not_out (h : c.Reads ∨ c.protocol = .eps) : ¬Out p c c' := by
  rintro (- | -) <;> simp [Reads] at h

theorem Reads.not_dual (h : c.Reads) : ¬c.dual.Reads := by
  obtain ⟨A, P, hc⟩ | ⟨P, Q, hc⟩ := h <;> simp [Reads, Chan.dual, hc, Protocol.dual]

theorem Out.dual_reads (h : Out p c c') : c.dual.Reads := by
  cases h with
  | send v => exact .inl ⟨_, _, rfl⟩
  | select b => exact .inr ⟨_, _, rfl⟩

/-! ### Paths -/

/-- Some moves of a party, which write `q`. -/
inductive Path : List (Ptr val) → Chan τ → Chan τ → Prop
  | nil {c : Chan τ} : Path [] c c
  | silent {q : List (Ptr val)} {c c' d : Chan τ} : Silent c c' → Path q c' d → Path q c d
  | out {p : Ptr val} {q : List (Ptr val)} {c c' d : Chan τ} :
      Out p c c' → Path q c' d → Path (p :: q) c d

theorem Path.append (h : Path q c c') (h' : Path q' c' c'') : Path (q ++ q') c c'' := by
  induction h with
  | nil => exact h'
  | silent hs _ ih => exact .silent hs (ih h')
  | out ho _ ih => exact .out ho (ih h')

theorem Path.snoc_silent (h : Path q c c') (hs : Silent c' c'') : Path q c c'' := by
  have := h.append (.silent hs .nil)
  rwa [List.append_nil] at this

theorem Path.dual_nil (h : Path ([] : List (Ptr val)) c c') :
    Path ([] : List (Ptr val)) c.dual c'.dual := by
  generalize hq : ([] : List (Ptr val)) = q at h
  induction h with
  | nil => exact .nil
  | silent hs _ ih => exact .silent hs.dual (ih hq)
  | out _ _ _ => cases hq

theorem Path.stopped (h : Path q c c') (hstop : c.Reads ∨ c.protocol = .eps) : q = [] ∧ c = c' := by
  cases h with
  | nil => exact ⟨rfl, rfl⟩
  | silent hs _ => exact absurd hs (Reads.not_silent hstop)
  | out ho _ => exact absurd ho (Reads.not_out hstop)

theorem Path.nil_of_out (h : Path ([] : List (Ptr val)) c c') (ho : Out p c d) : c = c' := by
  cases h with
  | nil => rfl
  | silent hs _ => exact absurd ho hs.not_out

/-- A silent move is on every path, unless the path ends before it. -/
theorem Path.of_silent (h : Path q c c') (hs : Silent c d) : (q = [] ∧ c = c') ∨ Path q d c' := by
  cases h with
  | nil => exact .inl ⟨rfl, rfl⟩
  | silent hs' hrest => exact .inr (hs.unique hs' ▸ hrest)
  | out ho _ => exact absurd ho hs.not_out

/-! ### Two parties -/

/-- Party `d` has still to go the way of `c`, on which `q` was written; or, if nothing was, it may
be before `c` on this way. -/
def Follows (q : List (Ptr val)) (c d : Chan τ) : Prop :=
  Path q d.dual c ∨ (q = [] ∧ Path q c d.dual)

namespace Follows

theorem symm (h : Follows ([] : List (Ptr val)) c d) : Follows ([] : List (Ptr val)) d c := by
  rcases h with h | ⟨-, h⟩
  · have hdual := h.dual_nil
    rw [dual_dual] at hdual
    exact .inr ⟨rfl, hdual⟩
  · have hdual := h.dual_nil
    rw [dual_dual] at hdual
    exact .inl hdual

theorem silent_left (h : Follows q c d) (hs : Silent c c') : Follows q c' d := by
  rcases h with h | ⟨rfl, h⟩
  · exact .inl (h.snoc_silent hs)
  rcases h.of_silent hs with ⟨-, rfl⟩ | h'
  · exact .inl (.silent hs .nil)
  · exact .inr ⟨rfl, h'⟩

theorem silent_right (h : Follows q c d) (hs : Silent d d') : Follows q c d' := by
  rcases h with h | ⟨rfl, h⟩
  · rcases h.of_silent hs.dual with ⟨rfl, rfl⟩ | h'
    · exact .inr ⟨rfl, .silent hs.dual .nil⟩
    · exact .inl h'
  · exact .inr ⟨rfl, h.snoc_silent hs.dual⟩

theorem write (h : Follows q c d) (ho : Out p c c') : Follows (q ++ [p]) c' d := by
  rcases h with h | ⟨rfl, h⟩
  · exact .inl (h.append (.out ho .nil))
  · obtain rfl := h.nil_of_out ho
    exact .inl (.out ho .nil)

/-- What the party behind reads first is what is written first on its way. -/
theorem read (h : Follows (p :: q) c d) (hd : d.Reads) :
    ∃ e, Out p d.dual e ∧ Follows q c e.dual := by
  rcases h with h | ⟨hnil, -⟩
  · cases h with
    | silent hs _ =>
      have hs' := hs.dual
      rw [dual_dual] at hs'
      exact absurd hs' (Reads.not_silent (.inl hd))
    | @out _ _ _ e _ ho hrest =>
      refine ⟨e, ho, .inl ?_⟩
      rwa [dual_dual]
  · cases hnil

theorem eq_nil (h : Follows q c d) (hd : d.dual.Reads ∨ d.dual.protocol = .eps) : q = [] := by
  rcases h with h | ⟨hnil, -⟩
  · exact (h.stopped hd).1
  · exact hnil

/-- With nothing on the way, two parties of which one stops are at the same place. -/
theorem eq_dual (h : Follows ([] : List (Ptr val)) c d) (hc : c.Reads ∨ c.protocol = .eps)
    (hd : ∀ {e}, ¬Silent d e) : c = d.dual := by
  rcases h with h | ⟨-, h⟩
  · cases h with
    | nil => rfl
    | silent hs _ =>
      have hs' := hs.dual
      rw [dual_dual] at hs'
      exact absurd hs' hd
  · exact (h.stopped hc).2

end Follows

/-- One of two parties follows the other one; `q₁` is what the first one has written and the second
one has not read, and `q₂` the other way round. -/
def Linked (q₁ q₂ : List (Ptr val)) (c d : Chan τ) : Prop :=
  (q₂ = [] ∧ Follows q₁ c d) ∨ (q₁ = [] ∧ Follows q₂ d c)

namespace Linked

theorem refl (c : Chan τ) : Linked ([] : List (Ptr val)) [] c c.dual := by
  refine .inl ⟨rfl, .inl ?_⟩
  rw [dual_dual]
  exact .nil

section

variable (h : Linked q₁ q₂ c d)

include h

theorem symm : Linked q₂ q₁ d c := Or.symm h

theorem silent (hs : Silent c c') : Linked q₁ q₂ c' d :=
  h.imp (And.imp_right fun h => h.silent_left hs) (And.imp_right fun h => h.silent_right hs)

/-- A party that writes or is at its end has read all that was written. -/
theorem follows (hc : c.dual.Reads ∨ c.dual.protocol = .eps) : q₂ = [] ∧ Follows q₁ c d := by
  rcases h with h | ⟨rfl, h⟩
  · exact h
  · obtain rfl := h.eq_nil hc
    exact ⟨rfl, h.symm⟩

theorem write (ho : Out p c c') : Linked (q₁ ++ [p]) q₂ c' d := by
  obtain ⟨hnil, hfollows⟩ := h.follows (.inl ho.dual_reads)
  exact .inl ⟨hnil, hfollows.write ho⟩

end

theorem read (h : Linked q₁ (p :: q₂) c d) (hc : c.Reads) :
    ∃ e, Out p c.dual e ∧ Linked q₁ q₂ e.dual d := by
  rcases h with ⟨hnil, -⟩ | ⟨hnil, h⟩
  · cases hnil
  · obtain ⟨e, ho, hrest⟩ := h.read hc
    exact ⟨e, ho, .inr ⟨hnil, hrest⟩⟩

/-- When one party is at its end, the other one does not write any more. -/
theorem not_write (h : Linked q₁ q₂ c d) (hd : d.protocol = .eps) : ¬Out p c c' := by
  intro ho
  have hd' : d.dual.protocol = .eps := congrArg Protocol.dual hd
  obtain ⟨-, hfollows⟩ := h.follows (.inl ho.dual_reads)
  have heq : d.dual = c := by
    rcases hfollows with h' | ⟨rfl, h'⟩
    · exact (h'.stopped (.inr hd')).2
    · exact (h'.nil_of_out ho).symm
  exact Reads.not_out (.inr (heq ▸ hd')) ho

/-- When one party is at its end, what the other one reads is in the queue. -/
theorem not_starved (h : Linked q₁ [] c d) (hd : d.protocol = .eps) : ¬c.Reads := by
  intro hc
  have hd' : d.dual.protocol = .eps := congrArg Protocol.dual hd
  obtain ⟨rfl, hfollows⟩ := h.symm.follows (.inr hd')
  have heq := hfollows.symm.eq_dual (.inl hc) (Reads.not_silent (.inr hd))
  rcases hc with ⟨A, P, hp⟩ | ⟨P, Q, hp⟩
  all_goals
    rw [heq, hd'] at hp
    cases hp

theorem not_both_read (h : Linked ([] : List (Ptr val)) [] c d) (hc : c.Reads) : ¬d.Reads := by
  intro hd
  have hfollows : Follows ([] : List (Ptr val)) c d := h.elim And.right fun h' => h'.2.symm
  have heq := hfollows.eq_dual (.inl hc) (Reads.not_silent (.inl hd))
  exact hd.not_dual (heq ▸ hc)

end Linked

end Chan

/-! ### Closed protocols -/

/-- The variables of the protocol go out of at most `n` recursions around it. A protocol that is
scoped in no recursion is closed. -/
def Protocol.Scoped {τ : Type} : Protocol τ → Nat → Prop
  | .eps, _ => True
  | .send _ P, n | .recv _ P, n => P.Scoped n
  | .choose P Q, n | .offer P Q, n => P.Scoped n ∧ Q.Scoped n
  | .recur P, n => P.Scoped (n + 1)
  | .var k, n => k < n

theorem Protocol.Scoped.dual {τ : Type} {P : Protocol τ} {n : Nat} (h : P.Scoped n) :
    P.dual.Scoped n := by
  induction P generalizing n with
  | eps | var k => exact h
  | send A P ih | recv A P ih | recur P ih => exact ih h
  | choose P Q ihP ihQ | offer P Q ihP ihQ => exact ⟨ihP h.1, ihQ h.2⟩

namespace Chan

variable {τ : Type} {val : τ → Type} {c c' : Chan τ} {p : Ptr val}

/-- Each body in the environment is scoped in itself and those below it. -/
def EnvScoped : List (Protocol τ) → Prop
  | [] => True
  | P :: E => P.Scoped (E.length + 1) ∧ EnvScoped E

def Scoped (c : Chan τ) : Prop := c.protocol.Scoped c.env.length ∧ EnvScoped c.env

theorem Scoped.dual (h : c.Scoped) : c.dual.Scoped := by
  obtain ⟨E, P⟩ := c
  have henv : ∀ E : List (Protocol τ), EnvScoped E → EnvScoped (E.map Protocol.dual) := by
    intro E hE
    induction E with
    | nil => exact hE
    | cons Q E ih =>
      refine ⟨?_, ih hE.2⟩
      rw [List.length_map]
      exact hE.1.dual
  refine ⟨?_, henv E h.2⟩
  show P.dual.Scoped (E.map Protocol.dual).length
  rw [List.length_map]
  exact h.1.dual

theorem Scoped.silent (h : c.Scoped) (hs : Silent c c') : c'.Scoped := by
  obtain ⟨hscoped, henv⟩ := h
  cases hs with
  | enter => exact ⟨hscoped, hscoped, henv⟩
  | zero => exact ⟨henv.1, henv⟩
  | succ => exact ⟨Nat.lt_of_succ_lt_succ hscoped, henv.2⟩

theorem Scoped.out (h : c.Scoped) (ho : Out p c c') : c'.Scoped := by
  obtain ⟨hscoped, henv⟩ := h
  cases ho with
  | send v => exact ⟨hscoped, henv⟩
  | select b =>
    cases b with
    | true => exact ⟨hscoped.1, henv⟩
    | false => exact ⟨hscoped.2, henv⟩

end Chan

end SessionTypes

end Awkernel
