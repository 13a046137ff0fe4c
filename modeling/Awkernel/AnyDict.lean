import Mathlib.Logic.Function.Basic

/-!
# Typed dictionaries

`awkernel_async_lib/src/anydict.rs`: a map from names to values of any type. A value is found only
under the type with which it was inserted; under another type the result is a `TypeError`. The
model keeps the type beside the value; types are the elements of `τ`.
-/

namespace Awkernel

open Function

/-- `AnyDictResult<T>`. -/
inductive AnyDictResult (α : Type)
  | ok (value : α)
  | typeError
  | none

/-- `AnyDict`. -/
structure AnyDict (τ α : Type) where
  dict : String → Option (τ × α)

namespace AnyDict

variable {τ α : Type} {d : AnyDict τ α} {ty : τ} {key : String} {value : α}

def new : AnyDict τ α := ⟨fun _ => none⟩

def insert (d : AnyDict τ α) (key : String) (ty : τ) (value : α) : AnyDict τ α :=
  ⟨update d.dict key (some (ty, value))⟩

/-- `get` and `get_mut`. -/
def get [DecidableEq τ] (d : AnyDict τ α) (ty : τ) (key : String) : AnyDictResult α :=
  match d.dict key with
  | some (ty', value) => if ty' = ty then .ok value else .typeError
  | none => .none

def remove (d : AnyDict τ α) (key : String) : AnyDict τ α := ⟨update d.dict key none⟩

@[simp] theorem dict_insert_self : (d.insert key ty value).dict key = some (ty, value) :=
  update_self _ _ _

variable {key' : String}

@[simp] theorem dict_insert_of_ne (h : key' ≠ key) :
    (d.insert key ty value).dict key' = d.dict key' := update_of_ne h _ _

@[simp] theorem dict_remove_self : (d.remove key).dict key = none := update_self _ _ _

@[simp] theorem dict_remove_of_ne (h : key' ≠ key) :
    (d.remove key).dict key' = d.dict key' := update_of_ne h _ _

theorem dict_insert_eq_some {v : τ × α} : (d.insert key ty value).dict key' = some v ↔
      key' = key ∧ v = (ty, value) ∨ key' ≠ key ∧ d.dict key' = some v := by
  by_cases h : key' = key
  · subst h
    simp [eq_comm]
  · simp [h]

theorem dict_insert_eq_none :
    (d.insert key ty value).dict key' = none ↔ key' ≠ key ∧ d.dict key' = none := by
  by_cases h : key' = key
  · subst h
    simp
  · simp [h]

theorem dict_remove_eq_some {v : τ × α} :
    (d.remove key).dict key' = some v ↔ key' ≠ key ∧ d.dict key' = some v := by
  by_cases h : key' = key
  · subst h
    simp
  · simp [h]

/-- The values of different keys stay apart in `f`, if the new one does. -/
theorem distinct_insert {β : Type} {f : τ × α → β} {b : β} {k₁ k₂ : String} {v₁ v₂ : τ × α}
    (h : ∀ {k₁ k₂ v₁ v₂}, d.dict k₁ = some v₁ → d.dict k₂ = some v₂ → f v₁ = f v₂ → k₁ = k₂)
    (h₁ : (d.insert key ty value).dict k₁ = some v₁)
    (h₂ : (d.insert key ty value).dict k₂ = some v₂) (heq : f v₁ = f v₂)
    (hb : f (ty, value) = b) (hnew : ∀ {k v}, d.dict k = some v → f v = b → k = key) :
    k₁ = k₂ := by
  rcases dict_insert_eq_some.mp h₁ with ⟨rfl, rfl⟩ | ⟨-, hold₁⟩ <;>
    rcases dict_insert_eq_some.mp h₂ with ⟨rfl, rfl⟩ | ⟨-, hold₂⟩
  · rfl
  · exact (hnew hold₂ (heq.symm.trans hb)).symm
  · exact hnew hold₁ (heq.trans hb)
  · exact h hold₁ hold₂ heq

theorem insert_insert {ty' : τ} {value' : α} :
    (d.insert key ty value).insert key ty' value' = d.insert key ty' value' :=
  congrArg AnyDict.mk (update_idem _ _ _)

theorem remove_insert : (d.insert key ty value).remove key = d.remove key :=
  congrArg AnyDict.mk (update_idem _ _ _)

variable [DecidableEq τ]

theorem get_eq_ok : d.get ty key = .ok value ↔ d.dict key = some (ty, value) := by
  unfold get
  cases hdict : d.dict key with
  | none => exact iff_of_false nofun nofun
  | some v =>
    obtain ⟨ty', value'⟩ := v
    dsimp only
    split
    · next heq =>
      subst heq
      exact ⟨fun h => by rw [AnyDictResult.ok.inj h],
        fun h => congrArg _ (congrArg Prod.snd (Option.some.inj h))⟩
    · next hne => exact iff_of_false nofun fun h => hne (congrArg Prod.fst (Option.some.inj h))

theorem get_eq_none : d.get ty key = .none ↔ d.dict key = none := by
  unfold get
  cases hdict : d.dict key with
  | none => exact iff_of_true rfl rfl
  | some v =>
    dsimp only
    split
    · exact iff_of_false nofun nofun
    · exact iff_of_false nofun nofun

theorem get_eq_typeError :
    d.get ty key = .typeError ↔ ∃ ty' value, d.dict key = some (ty', value) ∧ ty' ≠ ty := by
  unfold get
  cases hdict : d.dict key with
  | none => exact iff_of_false nofun fun ⟨_, _, h, _⟩ => nomatch h
  | some v =>
    obtain ⟨ty', value'⟩ := v
    dsimp only
    split
    · next heq =>
      refine iff_of_false nofun ?_
      rintro ⟨ty'', value'', h, hne⟩
      exact hne ((congrArg Prod.fst (Option.some.inj h)).symm.trans heq)
    · next hne => exact iff_of_true rfl ⟨ty', value', rfl, hne⟩

end AnyDict

end Awkernel
