import Mathlib.Logic.Relation

/-!
# Deterministic transition systems with a condition on the steps

A system is a partial function `step : S → A → Option S`: the action says which
party moves and how every choice is resolved, so an interleaving is a list of
actions. `run` executes such a list.

A property of every run is proved along `Reaches step ok s₀`, the states reached
from `s₀` by steps that all satisfy the condition `ok` (a condition on the state
before the step and the action taken). `ok` is `fun _ _ => True` when a result is
about every run, and names the assumption on the environment otherwise.

* `Reaches.invariant` — an invariant of the steps that meet the condition holds in
  every state reached.
* `Reaches.mono` — a weaker condition reaches more states.
* `Reaches.of_run` — the executed runs are runs in the relational sense, which is
  how a concrete list of actions refutes a property. `guarded` executes the steps that
  meet a decidable condition.
* `always_iff_meets` — if each step keeps a property exactly if it meets a condition,
  then a run has the property in all its states exactly if all its steps meet the
  condition.
-/

namespace TransitionSystem

open Option

variable {S A : Type*}

/-- Execute a list of actions from `s`. -/
def run (step : S → A → Option S) : S → List A → Option S
  | s, [] => some s
  | s, a :: as => (step s a).bind fun s' => run step s' as

/-- The states reached from `s₀` by steps that all satisfy `ok`. -/
inductive Reaches (step : S → A → Option S) (ok : S → A → Prop) (s₀ : S) : S → Prop
  | refl : Reaches step ok s₀ s₀
  | tail {s s' : S} {a : A} :
      Reaches step ok s₀ s → ok s a → step s a = some s' → Reaches step ok s₀ s'

theorem run_append (step : S → A → Option S) (as bs : List A) (s : S) :
    run step s (as ++ bs) = (run step s as).bind fun s' => run step s' bs := by
  induction as generalizing s with
  | nil => rfl
  | cons a as ih =>
    show (step s a).bind _ = ((step s a).bind _).bind _
    cases step s a with
    | none => rfl
    | some s' => exact ih s'

variable {step : S → A → Option S} {ok ok' : S → A → Prop} {s₀ s s' : S}

/-- **The invariant rule.** -/
theorem Reaches.invariant {I : S → Prop} (h : Reaches step ok s₀ s) (h₀ : I s₀)
    (hstep : ∀ s a s', I s → ok s a → step s a = some s' → I s') : I s := by
  induction h with
  | refl => exact h₀
  | tail _ hok hs ih => exact hstep _ _ _ ih hok hs

theorem Reaches.mono (h : Reaches step ok s₀ s) (himp : ∀ s a, ok s a → ok' s a) :
    Reaches step ok' s₀ s := by
  induction h with
  | refl => exact .refl
  | tail _ hok hs ih => exact .tail ih (himp _ _ hok) hs

theorem Reaches.trans {s₁ s₂ : S} (h₁ : Reaches step ok s₀ s₁)
    (h₂ : Reaches step ok s₁ s₂) : Reaches step ok s₀ s₂ := by
  induction h₂ with
  | refl => exact h₁
  | tail _ hok hs ih => exact .tail ih hok hs

/-- The steps that meet a condition. -/
def guarded (step : S → A → Option S) (ok : S → A → Prop) [∀ s a, Decidable (ok s a)] :
    S → A → Option S := fun s a => if ok s a then step s a else none

/-- An executed list of actions whose steps all meet `ok` reaches its last state. -/
theorem Reaches.of_run [∀ s a, Decidable (ok s a)] :
    ∀ {as : List A} {s₀ s : S}, run (guarded step ok) s₀ as = some s → Reaches step ok s₀ s := by
  intro as
  induction as with
  | nil =>
    intro s₀ s h
    obtain rfl : s₀ = s := some.inj h
    exact .refl
  | cons a as ih =>
    intro s₀ s h
    obtain ⟨s₁, h₁, h₂⟩ := bind_eq_some_iff.mp h
    obtain ⟨hok, h₁⟩ := ite_none_right_eq_some.mp h₁
    exact (Reaches.tail .refl hok h₁).trans (ih h₂)

theorem exists_of_run_any (step : S → A → Option S) (s₀ : S) (as : List A) (p : S → Bool)
    (h : (run step s₀ as).any p = true) : ∃ s, run step s₀ as = some s ∧ p s = true := by
  cases hr : run step s₀ as with
  | none => rw [hr] at h; simp at h
  | some s => rw [hr] at h; exact ⟨s, rfl, by simpa using h⟩

/-- An executed run that meets `ok` and ends in a state with the property. -/
theorem Reaches.exists_of_run {P : S → Prop} [DecidablePred P] [∀ s a, Decidable (ok s a)]
    (as : List A) (h : (run (guarded step ok) s₀ as).any (fun s => decide (P s)) = true) :
    ∃ s, Reaches step ok s₀ s ∧ P s := by
  obtain ⟨s, hrun, hs⟩ := exists_of_run_any _ s₀ as _ h
  exact ⟨s, .of_run hrun, of_decide_eq_true hs⟩

/-- An executed run that meets `ok` to a state with `P`, and what follows from the two. -/
theorem Reaches.exists_of_run_imp {Q : S → Prop} [∀ s a, Decidable (ok s a)] (as : List A)
    (P : S → Prop) [DecidablePred P]
    (h : (run (guarded step ok) s₀ as).any (fun s => decide (P s)) = true)
    (himp : ∀ s, Reaches step ok s₀ s → P s → Q s) : ∃ s, Reaches step ok s₀ s ∧ Q s := by
  obtain ⟨s, hs, hP⟩ := Reaches.exists_of_run as h
  exact ⟨s, hs, himp s hs hP⟩

/-! ### Conditions that are exact -/

/-- `P` holds in every state of the execution of a list of actions. -/
def Always (step : S → A → Option S) (P : S → Prop) : S → List A → Prop
  | s, [] => P s
  | s, a :: as => P s ∧ ∀ s', step s a = some s' → Always step P s' as

/-- Every step of the execution meets `ok`. -/
def Meets (step : S → A → Option S) (ok : S → A → Prop) : S → List A → Prop
  | _, [] => True
  | s, a :: as => ok s a ∧ ∀ s', step s a = some s' → Meets step ok s' as

theorem Meets.of_run [∀ s a, Decidable (ok s a)] :
    ∀ {as : List A} {s s' : S}, run (guarded step ok) s as = some s' →
      Meets step ok s as ∧ run step s as = some s' := by
  intro as
  induction as with
  | nil => exact fun h => ⟨trivial, h⟩
  | cons a as ih =>
    intro s s' h
    obtain ⟨s₁, h₁, h₂⟩ := bind_eq_some_iff.mp h
    obtain ⟨hok, h₁⟩ := ite_none_right_eq_some.mp h₁
    obtain ⟨hmeets, hrun⟩ := ih h₂
    refine ⟨⟨hok, fun s₂ hs₂ => ?_⟩, bind_eq_some_iff.mpr ⟨s₁, h₁, hrun⟩⟩
    cases h₁.symm.trans hs₂
    exact hmeets

/-- A step has one outcome. -/
theorem forall_step_iff {a : A} {s₁ : S} (h : step s a = some s₁) {Q : S → Prop} :
    (∀ s', step s a = some s' → Q s') ↔ Q s₁ :=
  ⟨fun hall => hall s₁ h, fun hQ _ hs' => some.inj (h.symm.trans hs') ▸ hQ⟩

theorem meets_concat {as : List A} {a : A} (h : run step s as = some s') :
    Meets step ok s (as ++ [a]) ↔ Meets step ok s as ∧ ok s' a := by
  induction as generalizing s with
  | nil =>
    cases h
    exact and_comm.trans (and_congr_left' (iff_of_true (fun _ _ => trivial) trivial))
  | cons b as ih =>
    obtain ⟨s₁, hs₁, hrest⟩ := bind_eq_some_iff.mp h
    change ok s b ∧ (∀ s', step s b = some s' → Meets step ok s' (as ++ [a])) ↔
      (ok s b ∧ ∀ s', step s b = some s' → Meets step ok s' as) ∧ _
    rw [forall_step_iff hs₁, forall_step_iff hs₁, ih hrest, and_assoc]

theorem Always.head {P : S → Prop} {as : List A} (h : Always step P s as) : P s := by
  cases as with
  | nil => exact h
  | cons a as => exact h.1

theorem Always.last {P : S → Prop} {as : List A} (h : Always step P s as)
    (hrun : run step s as = some s') : P s' := by
  induction as generalizing s with
  | nil => exact some.inj hrun ▸ h
  | cons a as ih =>
    obtain ⟨s₁, hs₁, hrest⟩ := bind_eq_some_iff.mp hrun
    exact ih (h.2 s₁ hs₁) hrest

/-- **The exact condition of a run.** -/
theorem always_iff_meets {I P : S → Prop}
    (hstep : ∀ {s a s'}, I s → P s → step s a = some s' → I s' ∧ (P s' ↔ ok s a)) :
    ∀ {as : List A} {s s' : S}, I s → P s → run step s as = some s' →
      (Always step P s as ↔ Meets step ok s as) := by
  intro as
  induction as with
  | nil => exact fun _ hP _ => iff_of_true hP trivial
  | cons a as ih =>
    intro s s' hI hP hrun
    obtain ⟨s₁, hs₁, hrest⟩ := bind_eq_some_iff.mp hrun
    obtain ⟨hI₁, hiff⟩ := hstep hI hP hs₁
    have honly := fun {Q : S → Prop} => forall_step_iff (Q := Q) hs₁
    constructor
    · rintro ⟨-, h⟩
      have halways := honly.mp h
      exact ⟨hiff.mp halways.head, honly.mpr ((ih hI₁ halways.head hrest).mp halways)⟩
    · rintro ⟨hok, h⟩
      exact ⟨hP, honly.mpr ((ih hI₁ (hiff.mpr hok) hrest).mpr (honly.mp h))⟩

end TransitionSystem
