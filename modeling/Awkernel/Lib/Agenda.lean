import Mathlib.Order.Lattice
import Mathlib.Data.List.Basic

/-!
# Agendas

What a timer queue is for: a list of entries, each with the key at which it is due, in the order
of the keys. An agenda carries the proof that it is in order. An entry is inserted after those
with the same key, so that entries with one key leave in the order in which they came.

* `insert`, `mem_insert` — an entry more.
* `due`, `later` — the entries with a key up to a bound, and the rest; the first come before the
  second (`due_append_later`).
* `first` — the least key.
* `Before`, `insert_before` — if the values number the insertions, the entries are in strict
  order: by key, and by insertion among equal keys.
-/

/-- A list of entries in the order of their keys. -/
@[ext] structure Agenda (κ α : Type*) [LinearOrder κ] where
  entries : List (κ × α)
  sorted : entries.Pairwise fun e e' => e.1 ≤ e'.1

namespace Agenda

open List

variable {κ α : Type*} [LinearOrder κ] {g : Agenda κ α} {k : κ} {a : α}

def empty : Agenda κ α := ⟨[], .nil⟩

/-- Insert an entry after those whose key is not greater. -/
def insert (g : Agenda κ α) (k : κ) (a : α) : Agenda κ α where
  entries := g.entries.filter (·.1 ≤ k) ++ (k, a) :: g.entries.filter (k < ·.1)
  sorted := by
    refine pairwise_append.mpr ⟨g.sorted.filter _, ?_, ?_⟩
    · refine pairwise_cons.mpr ⟨fun e he => ?_, g.sorted.filter _⟩
      exact (of_decide_eq_true (mem_filter.mp he).2).le
    intro e he e' he'
    have hle : e.1 ≤ k := of_decide_eq_true (mem_filter.mp he).2
    rcases mem_cons.mp he' with rfl | he'
    · exact hle
    · exact hle.trans (of_decide_eq_true (mem_filter.mp he').2).le

/-- The entries that are due at `k`. -/
def due (g : Agenda κ α) (k : κ) : List (κ × α) := g.entries.filter (·.1 ≤ k)

/-- The entries that are not yet due at `k`. -/
def later (g : Agenda κ α) (k : κ) : Agenda κ α where
  entries := g.entries.filter (k < ·.1)
  sorted := g.sorted.filter _

/-- The least key. -/
def first (g : Agenda κ α) : Option κ := g.entries.head?.map Prod.fst

variable {e : κ × α}

theorem mem_insert : e ∈ (g.insert k a).entries ↔ e = (k, a) ∨ e ∈ g.entries := by
  unfold insert
  rw [mem_append, mem_cons, mem_filter, mem_filter, decide_eq_true_iff,
    decide_eq_true_iff]
  constructor
  · rintro (⟨he, -⟩ | rfl | ⟨he, -⟩)
    · exact .inr he
    · exact .inl rfl
    · exact .inr he
  rintro (rfl | he)
  · exact .inr (.inl rfl)
  rcases le_or_gt e.1 k with hle | hlt
  · exact .inl ⟨he, hle⟩
  · exact .inr (.inr ⟨he, hlt⟩)

theorem mem_due : e ∈ g.due k ↔ e ∈ g.entries ∧ e.1 ≤ k := by
  rw [due, mem_filter, decide_eq_true_iff]

theorem due_append_later (g : Agenda κ α) (k : κ) : g.due k ++ (g.later k).entries = g.entries := by
  unfold due later
  obtain ⟨l, hsorted⟩ := g
  dsimp only
  induction l with
  | nil => rfl
  | cons e l ih =>
    obtain ⟨hhead, htail⟩ := pairwise_cons.mp hsorted
    rcases le_or_gt e.1 k with hle | hlt
    · rw [filter_cons_of_pos (by simpa using hle),
        filter_cons_of_neg (by simpa using hle), cons_append, ih htail]
    have hnone : (e :: l).filter (·.1 ≤ k) = [] := by
      refine filter_eq_nil_iff.mpr fun e' he' => ?_
      rcases mem_cons.mp he' with rfl | he'
      · simpa using hlt
      · simpa using hlt.trans_le (hhead e' he')
    have hall : (e :: l).filter (k < ·.1) = e :: l := by
      refine filter_eq_self.mpr fun e' he' => ?_
      rcases mem_cons.mp he' with rfl | he'
      · simpa using hlt
      · simpa using hlt.trans_le (hhead e' he')
    rw [hnone, hall, nil_append]

theorem first_eq_none : g.first = none ↔ g.entries = [] := by
  rw [first, Option.map_eq_none_iff, head?_eq_none_iff]

/-- `first` is the key of an entry, and no entry has a smaller one. -/
theorem first_eq_some :
    g.first = some k ↔ (∃ a, (k, a) ∈ g.entries) ∧ ∀ e ∈ g.entries, k ≤ e.1 := by
  obtain ⟨l, hsorted⟩ := g
  cases l with
  | nil => exact iff_of_false nofun fun h => absurd h.1.choose_spec not_mem_nil
  | cons e l =>
    obtain ⟨hhead, -⟩ := pairwise_cons.mp hsorted
    constructor
    · intro h
      obtain rfl : e.1 = k := Option.some.inj h
      refine ⟨⟨e.2, mem_cons_self⟩, fun e' he' => ?_⟩
      rcases mem_cons.mp he' with rfl | he'
      · exact le_rfl
      · exact hhead e' he'
    · rintro ⟨⟨a, ha⟩, hmin⟩
      refine congrArg some (le_antisymm ?_ (hmin e mem_cons_self))
      rcases mem_cons.mp ha with heq | ha
      · exact (congrArg Prod.fst heq).ge
      · exact hhead _ ha

/-! ### Ties -/

variable [LinearOrder α]

/-- The order by key, and by value among equal keys. -/
def Before (e e' : κ × α) : Prop := e.1 < e'.1 ∨ e.1 = e'.1 ∧ e.2 < e'.2

theorem Before.ne {e' : κ × α} (h : Before e e') : e ≠ e' := by
  rintro rfl
  rcases h with hlt | ⟨-, hlt⟩
  · exact lt_irrefl _ hlt
  · exact lt_irrefl _ hlt

/-- **Insertion keeps the strict order** if the new value is the greatest. -/
theorem insert_before (h : g.entries.Pairwise Before) (hmax : ∀ e ∈ g.entries, e.2 < a) :
    (g.insert k a).entries.Pairwise Before := by
  refine pairwise_append.mpr ⟨h.filter _, pairwise_cons.mpr ⟨?_, h.filter _⟩, ?_⟩
  · intro e he
    exact .inl (of_decide_eq_true (mem_filter.mp he).2)
  intro e he e' he'
  have hle : e.1 ≤ k := of_decide_eq_true (mem_filter.mp he).2
  rcases mem_cons.mp he' with rfl | he'
  · rcases hle.lt_or_eq with hlt | heq
    · exact .inl hlt
    · exact .inr ⟨heq, hmax e (mem_filter.mp he).1⟩
  · exact .inl (hle.trans_lt (of_decide_eq_true (mem_filter.mp he').2))

end Agenda
