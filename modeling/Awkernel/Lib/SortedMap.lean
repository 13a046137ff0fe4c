import Mathlib.Order.Interval.Finset.Nat

/-!
# Maps ordered by their keys

A finite map whose entries are kept in the order of their keys, as an ordered tree map
lists them. A map carries the proof that its keys are strictly increasing, so a key has at
most one value, and `get` is described by membership in `entries` (`get_eq_some`).

* `insert`, `retain` — `get_insert_self`, `get_insert_of_ne`, `get_retain`; a fold of
  insertions is described by `getD_foldl_insert`.
* `truncate max` — the loop that removes the first entry while there are more than `max`.
  It keeps the entries with the greatest keys (`lt_of_truncated`).
-/

/-- A map ordered by its keys. -/
structure SortedMap (κ α : Type*) [LinearOrder κ] where
  entries : List (κ × α)
  sorted : entries.Pairwise fun e e' => e.1 < e'.1

namespace SortedMap

open List Prod

variable {κ α : Type*} [LinearOrder κ] {m : SortedMap κ α} {k k' : κ} {v : α}

def empty : SortedMap κ α := ⟨[], .nil⟩

def size (m : SortedMap κ α) : Nat := m.entries.length

def get (m : SortedMap κ α) (k : κ) : Option α := (m.entries.find? fun e => e.1 = k).map snd

def insert (m : SortedMap κ α) (k : κ) (v : α) : SortedMap κ α where
  entries := m.entries.filter (·.1 < k) ++ (k, v) :: m.entries.filter (k < ·.1)
  sorted := by
    refine pairwise_append.mpr ⟨m.sorted.filter _, ?_, ?_⟩
    · refine pairwise_cons.mpr ⟨?_, m.sorted.filter _⟩
      intro e he
      simpa using (mem_filter.mp he).2
    intro e he e' he'
    have hlt : e.1 < k := by simpa using (mem_filter.mp he).2
    rcases mem_cons.mp he' with rfl | he'
    · exact hlt
    · exact hlt.trans (by simpa using (mem_filter.mp he').2)

/-- Keep the entries whose key satisfies `p`. -/
def retain (m : SortedMap κ α) (p : κ → Bool) : SortedMap κ α where
  entries := m.entries.filter fun e => p e.1
  sorted := m.sorted.filter _

/-- Remove the first entry. -/
def popFirst (m : SortedMap κ α) : SortedMap κ α where
  entries := m.entries.tail
  sorted := m.sorted.sublist (tail_sublist _)

/-- Remove the first entry while there are more than `max`; the second argument bounds the
rounds. -/
def truncateLoop (max : Nat) : Nat → SortedMap κ α → SortedMap κ α
  | 0, m => m
  | rounds + 1, m => if m.size > max then truncateLoop max rounds m.popFirst else m

/-- Remove the first entry while there are more than `max`. -/
def truncate (m : SortedMap κ α) (max : Nat) : SortedMap κ α := truncateLoop max m.size m

/-! ### Lookup -/

theorem find?_eq_some_iff {l : List (κ × α)} (hl : l.Pairwise fun e e' => e.1 < e'.1) :
    (l.find? fun e => e.1 = k).map snd = some v ↔ (k, v) ∈ l := by
  induction l with
  | nil => simp
  | cons e l ih =>
    obtain ⟨hfirst, hrest⟩ := pairwise_cons.mp hl
    by_cases hk : e.1 = k
    · -- the other keys are greater
      have hnot : (k, v) ∉ l := fun hmem => (hfirst (k, v) hmem).ne hk
      rw [find?_cons_of_pos (by simpa using hk), mem_cons, or_iff_left hnot]
      constructor
      · intro hv
        exact Prod.ext hk.symm (Option.some.inj hv).symm
      · rintro rfl
        rfl
    · have hne : (k, v) ≠ e := by
        rintro rfl
        exact hk rfl
      rw [find?_cons_of_neg (by simpa using hk), mem_cons, or_iff_right hne, ih hrest]

/-- **Lookup is membership.** -/
theorem get_eq_some : m.get k = some v ↔ (k, v) ∈ m.entries := find?_eq_some_iff m.sorted

theorem get_eq_none : m.get k = none ↔ ∀ v, (k, v) ∉ m.entries := by
  constructor
  · intro h v hmem
    rw [get_eq_some.mpr hmem] at h
    cases h
  intro h
  cases hget : m.get k with
  | none => rfl
  | some v => exact absurd (get_eq_some.mp hget) (h v)

theorem isSome_get : (m.get k).isSome = true ↔ ∃ v, (k, v) ∈ m.entries := by
  rw [Option.isSome_iff_exists]
  exact exists_congr fun v => get_eq_some

/-- Two maps agree on a key if the entries of the key are the same. -/
theorem get_congr {m' : SortedMap κ α} (h : ∀ v, (k, v) ∈ m.entries ↔ (k, v) ∈ m'.entries) :
    m.get k = m'.get k := by
  ext v
  rw [get_eq_some, get_eq_some]
  exact h v

theorem mem_insert {e : κ × α} :
    e ∈ (m.insert k v).entries ↔ e = (k, v) ∨ e ∈ m.entries ∧ e.1 ≠ k := by
  have hsplit : e ∈ (m.insert k v).entries ↔
      (e ∈ m.entries ∧ e.1 < k) ∨ e = (k, v) ∨ (e ∈ m.entries ∧ k < e.1) := by
    simp [insert]
  rw [ne_iff_lt_or_gt]
  tauto

@[simp] theorem get_insert_self : (m.insert k v).get k = some v :=
  get_eq_some.mpr (mem_insert.mpr (.inl rfl))

theorem get_insert_of_ne (h : k' ≠ k) : (m.insert k v).get k' = m.get k' := by
  refine get_congr fun w => ?_
  rw [mem_insert]
  have hne : (k', w) ≠ (k, v) := fun heq => h (Prod.ext_iff.mp heq).1
  simp [hne, h]

theorem get_retain {p : κ → Bool} : (m.retain p).get k = if p k then m.get k else none := by
  cases hp : p k with
  | true => exact get_congr fun v => by simp [retain, hp]
  | false => exact get_eq_none.mpr fun v => by simp [retain, hp]

/-- **Accumulating by key**: a fold that updates the value of each element's key, or `d` if
there is none, gives a key the updates of its own elements, in their order. -/
theorem getD_foldl_insert {β : Type*} (key : β → κ) (upd : α → β → α) (d : α) (l : List β)
    (m : SortedMap κ α) :
    ((l.foldl (fun acc x =>
      acc.insert (key x) (upd ((acc.get (key x)).getD d) x)) m).get k).getD d =
      (l.filter (key · = k)).foldl upd ((m.get k).getD d) := by
  induction l generalizing m with
  | nil => rfl
  | cons x l ih =>
    rw [foldl_cons, ih]
    by_cases hx : key x = k
    · subst hx
      rw [get_insert_self, filter_cons_of_pos (by simp)]
      rfl
    · rw [get_insert_of_ne (Ne.symm hx), filter_cons_of_neg (by simpa using hx)]

/-! ### Removing the first entries -/

theorem entries_truncateLoop (max : Nat) : ∀ {rounds : Nat} {m : SortedMap κ α}, m.size ≤ rounds →
      (truncateLoop max rounds m).entries = m.entries.drop (m.size - max) := by
  intro rounds
  induction rounds with
  | zero =>
    intro m hsize
    rw [Nat.sub_eq_zero_of_le (hsize.trans (Nat.zero_le max))]
    rfl
  | succ rounds ih =>
    intro m hsize
    unfold truncateLoop
    split
    · next hmax =>
      have hsize' : m.popFirst.size = m.size - 1 := length_tail
      rw [ih (by omega)]
      show m.entries.tail.drop _ = _
      rw [drop_tail]
      congr 1
      omega
    · next hmax =>
      rw [Nat.sub_eq_zero_of_le (not_lt.mp hmax)]
      rfl

theorem entries_truncate (m : SortedMap κ α) (max : Nat) :
    (m.truncate max).entries = m.entries.drop (m.size - max) := entries_truncateLoop max le_rfl

theorem size_truncate_le (m : SortedMap κ α) (max : Nat) : (m.truncate max).size ≤ max := by
  unfold size
  rw [entries_truncate, length_drop, size]
  omega

theorem mem_of_mem_truncate {max : Nat} {e : κ × α} (h : e ∈ (m.truncate max).entries) :
    e ∈ m.entries := by
  rw [entries_truncate] at h
  exact mem_of_mem_drop h

/-- **Only the oldest entries are removed**: there are more than `max` entries, and the
removed one is less than all that are left. -/
theorem lt_of_truncated {max : Nat} (h : (k, v) ∈ m.entries)
    (hgone : (k, v) ∉ (m.truncate max).entries) :
    max < m.size ∧ ∀ e ∈ (m.truncate max).entries, k < e.1 := by
  rw [entries_truncate] at hgone ⊢
  have hmax : max < m.size := by
    by_contra hle
    rw [Nat.sub_eq_zero_of_le (not_lt.mp hle)] at hgone
    exact hgone h
  refine ⟨hmax, fun e he => ?_⟩
  have hsplit := take_append_drop (m.size - max) m.entries
  have hsorted := m.sorted
  rw [← hsplit] at h hsorted
  rcases mem_append.mp h with htake | hdrop
  · exact (pairwise_append.mp hsorted).2.2 (k, v) htake e he
  · exact absurd hdrop hgone

theorem size_le_sub {α : Type*} {m : SortedMap ℕ α} {k b : ℕ}
    (h : ∀ e ∈ m.entries, k < e.1 ∧ e.1 ≤ b) : m.size ≤ b - k := by
  have hnodup : (m.entries.map fst).Nodup :=
    pairwise_map.mpr (m.sorted.imp fun hlt => ne_of_lt hlt)
  have hsub : (m.entries.map fst).toFinset ⊆ Finset.Ioc k b := by
    intro x hx
    obtain ⟨e, he, rfl⟩ := mem_map.mp (mem_toFinset.mp hx)
    exact Finset.mem_Ioc.mpr (h e he)
  calc m.size = (m.entries.map fst).length := (length_map _).symm
    _ = (m.entries.map fst).toFinset.card := (toFinset_card_of_nodup hnodup).symm
    _ ≤ (Finset.Ioc k b).card := Finset.card_le_card hsub
    _ = b - k := Nat.card_Ioc k b

/-- **A key that was removed is far from the greatest one**, if the keys are numbers. -/
theorem add_max_le_of_truncated {α : Type*} {m : SortedMap ℕ α} {k b max : ℕ} {v : α}
    (h : (k, v) ∈ m.entries) (hgone : (k, v) ∉ (m.truncate max).entries)
    (hb : ∀ e ∈ (m.truncate max).entries, e.1 ≤ b) (hmax : 0 < max) : k + max ≤ b := by
  obtain ⟨hsize, hlt⟩ := lt_of_truncated h hgone
  have hfull : (m.truncate max).size = max := by
    unfold size
    rw [entries_truncate, length_drop]
    exact Nat.sub_sub_self hsize.le
  have hfit := size_le_sub fun e he => ⟨hlt e he, hb e he⟩
  omega

end SortedMap
