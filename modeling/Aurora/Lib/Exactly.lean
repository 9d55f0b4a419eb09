import Mathlib.Logic.Basic

/-!
# Partial functions with an exact domain

A call that has a result exactly under a condition, with what then holds of the result.

## Main definitions

* `Exactly r C Q`: `r` has a result, and one with `Q`, exactly if `C`.
-/

namespace Aurora.Lib

variable {α β : Type*}

/-- There is a result exactly if `C`, and then one with `Q`. -/
def Exactly (r : Option α) (C : Prop) (Q : α → Prop) : Prop :=
  (C → ∃ a, r = some a ∧ Q a) ∧ (¬ C → r = none)

namespace Exactly

variable {r : Option α} {a : α} {C C' : Prop} {Q Q' : α → Prop} {P : β → Prop}

lemma of_exists (hC : C) (h : ∃ a, r = some a ∧ Q a) : Exactly r C Q :=
  ⟨fun _ => h, fun hnot => absurd hC hnot⟩

protected lemma some (hC : C) (ha : Q a) : Exactly (some a) C Q := of_exists hC ⟨a, rfl, ha⟩

lemma congr (h : Exactly r C Q) (hiff : C' ↔ C) : Exactly r C' Q := by
  rwa [hiff]

lemma mono (h : Exactly r C Q) (himp : ∀ a, Q a → Q' a) : Exactly r C Q' := by
  refine ⟨fun hC => ?_, h.2⟩
  obtain ⟨a, hr, ha⟩ := h.1 hC
  exact ⟨a, hr, himp a ha⟩

/-- Two calls, one after the other. -/
lemma bind {k : α → Option β} (h : Exactly r C Q) (hC : C' → C)
    (hk : ∀ a, C → Q a → Exactly (k a) C' P) : Exactly (r.bind k) C' P := by
  by_cases hc : C
  · obtain ⟨a, rfl, ha⟩ := h.1 hc
    exact hk a hc ha
  · rw [h.2 hc]
    exact ⟨fun hc' => absurd (hC hc') hc, fun _ => rfl⟩

lemma map {f : α → β} (h : Exactly r C Q) (hf : ∀ a, Q a → P (f a)) : Exactly (r.map f) C P := by
  rw [Option.map_eq_bind]
  exact h.bind id fun a hC ha => .some hC (hf a ha)

end Exactly

end Aurora.Lib
