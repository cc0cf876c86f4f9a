import Mathlib.Tactic.Common

/-!
# Inverse lookups

Two lookups are inverse if each leads back to where the other comes from. Writing a pair into
both of them keeps them so only if neither half of the pair was somewhere else before.

## Main results

- `inverse_update_iff` — when a pair can be written
-/

namespace Lookup

variable {α β : Type*} [DecidableEq α] [DecidableEq β]

def Inverse (f : α → Option β) (g : β → Option α) : Prop := ∀ a b, f a = some b ↔ g b = some a

def update (f : α → Option β) (a₀ : α) (b₀ : β) (a : α) : Option β :=
  if a = a₀ then some b₀ else f a

omit [DecidableEq α] [DecidableEq β] in
theorem Inverse.symm {f : α → Option β} {g : β → Option α} (h : Inverse f g) : Inverse g f :=
  fun b a => (h a b).symm

/-- What led to the new value under another key would still lead there. -/
theorem eq_of_inverse_update {f : α → Option β} {g : β → Option α} (h : Inverse f g) {a₀ : α}
    {b₀ : β} (hupdate : Inverse (update f a₀ b₀) (update g b₀ a₀)) {b : β} (hb : f a₀ = some b) :
    b = b₀ := by
  by_contra hne
  have hback : update g b₀ a₀ b = some a₀ := (if_neg hne).trans ((h a₀ b).mp hb)
  have hstill : update f a₀ b₀ a₀ = some b := (hupdate a₀ b).mpr hback
  rw [update, if_pos rfl] at hstill
  exact hne (Option.some.inj hstill).symm

theorem inverse_update_iff {f : α → Option β} {g : β → Option α} (h : Inverse f g) (a₀ : α)
    (b₀ : β) :
    Inverse (update f a₀ b₀) (update g b₀ a₀) ↔
      (∀ b, f a₀ = some b → b = b₀) ∧ ∀ a, g b₀ = some a → a = a₀ := by
  constructor
  · intro hupdate
    exact ⟨fun b => eq_of_inverse_update h hupdate,
      fun a => eq_of_inverse_update h.symm hupdate.symm⟩
  · rintro ⟨hvalue, hkey⟩ a b
    rw [update, update]
    by_cases ha : a = a₀
    · by_cases hb : b = b₀
      · simp [ha, hb]
      · have hnot : g b ≠ some a₀ := fun hg => hb (hvalue b ((h a₀ b).mpr hg))
        have hne : b₀ ≠ b := fun heq => hb heq.symm
        simp [ha, hb, hnot, hne]
    · by_cases hb : b = b₀
      · have hnot : f a ≠ some b₀ := fun hf => ha (hkey a ((h a b₀).mp hf))
        have hne : a₀ ≠ a := fun heq => ha heq.symm
        simp [ha, hb, hnot, hne]
      · rw [if_neg ha, if_neg hb]
        exact h a b

end Lookup
