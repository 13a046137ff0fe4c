import Mathlib.Data.Finset.Basic
import Mathlib.Data.List.MinMax

/-!
# Priority queues with affinities

A queue whose entries carry a key and the set of CPUs they may be served to. `popForCpu c`
serves an eligible entry with the least key, the oldest one among equals.

`AffinityQueue` is the interface: the operations, the list of entries in the order in which
they were pushed, and one law for each operation. Whatever is proved from the laws holds of
every implementation. `AffinityQueue.ofList` is an executable one, which shows that the laws
can be met together.
-/

/-- An entry of the queue. -/
structure AffinityEntry (κ α : Type) where
  key : κ
  affinity : Finset ℕ
  val : α

/-- A priority queue with affinities over `numCpus` CPUs. -/
structure AffinityQueue (κ α : Type) [LinearOrder κ] where
  Carrier : Type
  new : ℕ → Carrier
  numCpus : Carrier → ℕ
  push : Carrier → κ → Finset ℕ → α → Option Carrier
  popForCpu : Carrier → ℕ → Option (α × Carrier)
  affinityMask : Carrier → Finset ℕ
  /-- The entries, oldest first. -/
  entries : Carrier → List (AffinityEntry κ α)
  numCpus_new : ∀ n, numCpus (new n) = n
  entries_new : ∀ n, entries (new n) = []
  /-- `push` succeeds on a non-empty set of CPUs in range. -/
  push_isSome : ∀ q k a v, a.Nonempty → (∀ c ∈ a, c < numCpus q) → (push q k a v).isSome
  push_spec : ∀ q q' k a v, push q k a v = some q' →
    numCpus q' = numCpus q ∧ entries q' = entries q ++ [⟨k, a, v⟩]
  popForCpu_eq_none : ∀ q c, popForCpu q c = none ↔ ∀ e ∈ entries q, c ∉ e.affinity
  /-- `popForCpu` takes out the oldest of the least eligible entries. -/
  popForCpu_spec : ∀ q q' c v, popForCpu q c = some (v, q') →
    numCpus q' = numCpus q ∧ ∃ l₁ e l₂, entries q = l₁ ++ e :: l₂ ∧ entries q' = l₁ ++ l₂ ∧
      e.val = v ∧ c ∈ e.affinity ∧ (∀ x ∈ l₁, c ∈ x.affinity → e.key < x.key) ∧
      (∀ x ∈ l₂, c ∈ x.affinity → e.key ≤ x.key)
  mem_affinityMask : ∀ q c, c ∈ affinityMask q ↔ ∃ e ∈ entries q, c ∈ e.affinity

namespace AffinityQueue

open List

variable {κ α : Type} [LinearOrder κ] {v : α}

section Laws

variable (Q : AffinityQueue κ α)

/-- The stored values, oldest first. -/
def vals (q : Q.Carrier) : List α := (Q.entries q).map AffinityEntry.val

@[simp] theorem vals_new (n : ℕ) : Q.vals (Q.new n) = [] := by
  rw [vals, Q.entries_new, map_nil]

theorem vals_push {q q' : Q.Carrier} {k : κ} {a : Finset ℕ}
    (h : Q.push q k a v = some q') : Q.vals q' = Q.vals q ++ [v] := by
  rw [vals, (Q.push_spec q q' k a v h).2, map_append]
  rfl

theorem vals_popForCpu_perm {q q' : Q.Carrier} {c : ℕ}
    (h : Q.popForCpu q c = some (v, q')) : (Q.vals q).Perm (v :: Q.vals q') := by
  obtain ⟨-, l₁, e, l₂, hq, hq', rfl, -⟩ := Q.popForCpu_spec q q' c v h
  rw [vals, vals, hq, hq', map_append, map_append]
  exact perm_middle

/-- The queues over `N` CPUs. -/
def Sized (N : ℕ) : Type := { q : Q.Carrier // Q.numCpus q = N }

end Laws

namespace Sized

variable {Q : AffinityQueue κ α} {N : ℕ}

def empty (Q : AffinityQueue κ α) (N : ℕ) : Q.Sized N := ⟨Q.new N, Q.numCpus_new N⟩

def vals (q : Q.Sized N) : List α := Q.vals q.1

def push (q : Q.Sized N) (k : κ) (a : Finset ℕ) (v : α) : Option (Q.Sized N) :=
  match h : Q.push q.1 k a v with
  | none => none
  | some q' => some ⟨q', (Q.push_spec _ _ _ _ _ h).1.trans q.2⟩

def popForCpu (q : Q.Sized N) (c : ℕ) : Option (α × Q.Sized N) :=
  match h : Q.popForCpu q.1 c with
  | none => none
  | some (v, q') => some (v, ⟨q', (Q.popForCpu_spec _ _ _ _ h).1.trans q.2⟩)

@[simp] theorem vals_empty : (empty Q N).vals = [] := Q.vals_new N

theorem vals_push {q q' : Q.Sized N} {k : κ} {a : Finset ℕ}
    (h : q.push k a v = some q') : q'.vals = q.vals ++ [v] := by
  unfold push at h
  split at h
  · cases h
  rename_i hpush
  cases h
  exact Q.vals_push hpush

theorem push_isSome (q : Q.Sized N) (k : κ) (a : Finset ℕ) (v : α) (hne : a.Nonempty)
    (hlt : ∀ c ∈ a, c < N) : (q.push k a v).isSome := by
  have hsome := Q.push_isSome q.1 k a v hne (by rw [q.2]; exact hlt)
  unfold push
  split
  · next hnone => rw [hnone] at hsome; exact hsome
  · rfl

theorem vals_popForCpu_perm {q q' : Q.Sized N} {c : ℕ}
    (h : q.popForCpu c = some (v, q')) : q.vals.Perm (v :: q'.vals) := by
  unfold popForCpu at h
  split at h
  · cases h
  rename_i hpop
  cases h
  exact Q.vals_popForCpu_perm hpop

end Sized

/-! ### An implementation by lists -/

/-- Take out the oldest of the least entries eligible for `c`. -/
def popLeast (c : ℕ) :
    List (AffinityEntry κ α) → Option (AffinityEntry κ α × List (AffinityEntry κ α))
  | [] => none
  | e :: l =>
    match popLeast c l with
    | none => if c ∈ e.affinity then some (e, l) else none
    | some (m, l') =>
      if c ∈ e.affinity ∧ e.key ≤ m.key then some (e, l) else some (m, e :: l')

theorem popLeast_eq_none (c : ℕ) (l : List (AffinityEntry κ α)) :
    popLeast c l = none ↔ ∀ e ∈ l, c ∉ e.affinity := by
  induction l with
  | nil => simp [popLeast]
  | cons e l ih =>
    rw [popLeast, forall_mem_cons, ← ih]
    cases popLeast c l with
    | none => simp
    | some p =>
      obtain ⟨m, l'⟩ := p
      dsimp only
      split <;> simp

/-- The split of the list around the entry taken out. Induction on the list: the head is
either the new least entry or stays in front of the old one. -/
theorem popLeast_spec {c : ℕ} {l l' : List (AffinityEntry κ α)} {m : AffinityEntry κ α}
    (h : popLeast c l = some (m, l')) :
    ∃ l₁ l₂, l = l₁ ++ m :: l₂ ∧ l' = l₁ ++ l₂ ∧ c ∈ m.affinity ∧
      (∀ x ∈ l₁, c ∈ x.affinity → m.key < x.key) ∧
      (∀ x ∈ l₂, c ∈ x.affinity → m.key ≤ x.key) := by
  induction l generalizing m l' with
  | nil => exact absurd h (by simp [popLeast])
  | cons e l ih =>
    rw [popLeast] at h
    cases hpop : popLeast c l with
    | none =>
      -- nothing behind the head is eligible
      have hnone := (popLeast_eq_none c l).mp hpop
      rw [hpop] at h
      dsimp only at h
      split at h
      · next he =>
        cases h
        exact ⟨[], l, rfl, rfl, he, by simp, fun x hx hc => absurd hc (hnone x hx)⟩
      · cases h
    | some p =>
      obtain ⟨m₀, l₀⟩ := p
      obtain ⟨l₁, l₂, rfl, rfl, hm, hlt, hle⟩ := ih hpop
      rw [hpop] at h
      dsimp only at h
      split at h
      · next he =>
        cases h
        refine ⟨[], _, rfl, rfl, he.1, by simp, fun x hx hc => le_trans he.2 ?_⟩
        rcases mem_append.mp hx with hx | hx
        · exact le_of_lt (hlt x hx hc)
        rcases mem_cons.mp hx with rfl | hx
        · exact le_refl _
        · exact hle x hx hc
      · next he =>
        cases h
        refine ⟨e :: l₁, l₂, rfl, rfl, hm, fun x hx hc => ?_, hle⟩
        rcases mem_cons.mp hx with rfl | hx
        · exact not_le.mp fun hkey => he ⟨hc, hkey⟩
        · exact hlt x hx hc

/-- The union of the affinities. -/
def unionAffinity (l : List (AffinityEntry κ α)) : Finset ℕ :=
  l.foldr (fun e mask => e.affinity ∪ mask) ∅

omit [LinearOrder κ] in
theorem mem_unionAffinity (l : List (AffinityEntry κ α)) (c : ℕ) :
    c ∈ unionAffinity l ↔ ∃ e ∈ l, c ∈ e.affinity := by
  induction l with
  | nil => simp [unionAffinity]
  | cons e l ih =>
    rw [unionAffinity, foldr_cons, ← unionAffinity, Finset.mem_union, ih]
    simp

/-- The queue as the list of its entries. -/
def ofList (κ α : Type) [LinearOrder κ] : AffinityQueue κ α where
  Carrier := ℕ × List (AffinityEntry κ α)
  new n := (n, [])
  numCpus := Prod.fst
  push q k a v :=
    if a.Nonempty ∧ ∀ c ∈ a, c < q.1 then some (q.1, q.2 ++ [⟨k, a, v⟩]) else none
  popForCpu q c := (popLeast c q.2).map fun p => (p.1.val, (q.1, p.2))
  affinityMask q := unionAffinity q.2
  entries := Prod.snd
  numCpus_new _ := rfl
  entries_new _ := rfl
  push_isSome q k a v hne hlt := by rw [if_pos ⟨hne, hlt⟩]; rfl
  push_spec q q' k a v h := by
    split at h
    · cases h
      exact ⟨rfl, rfl⟩
    · cases h
  popForCpu_eq_none q c := by rw [Option.map_eq_none_iff]; exact popLeast_eq_none c q.2
  popForCpu_spec q q' c v h := by
    obtain ⟨⟨m, l'⟩, hpop, hp⟩ := Option.map_eq_some_iff.mp h
    cases hp
    obtain ⟨l₁, l₂, hl, hl', hspec⟩ := popLeast_spec hpop
    exact ⟨rfl, l₁, m, l₂, hl, hl', rfl, hspec⟩
  mem_affinityMask q c := mem_unionAffinity q.2 c

end AffinityQueue
