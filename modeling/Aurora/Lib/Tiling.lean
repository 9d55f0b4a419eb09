import Mathlib.Algebra.BigOperators.Group.List.Basic
import Mathlib.Algebra.GroupWithZero.Nat

/-!
# Blocks that tile an interval

Blocks of certain sizes are laid out one behind the other, from an address on. A list of blocks
then tells where each of them is.

## Main definitions

* `extent size bs`: the size of all blocks together.
* `placed size a bs`: the blocks with their addresses, from `a` on.
* `placed_disjoint`: two blocks at different places do not overlap.
-/

namespace Aurora.Lib

open List

variable {β : Type*} (size : β → ℕ)

/-- The size of all blocks together. -/
def extent (bs : List β) : ℕ := (bs.map size).sum

/-- The blocks with their addresses, when the first one is at `a`. -/
def placed : ℕ → List β → List (ℕ × β)
  | _, [] => []
  | a, b :: bs => (a, b) :: placed (a + size b) bs

@[simp] lemma extent_nil : extent size [] = 0 := rfl

@[simp] lemma extent_cons (b : β) (bs : List β) :
    extent size (b :: bs) = size b + extent size bs := by
  simp [extent]

@[simp] lemma extent_append (bs cs : List β) :
    extent size (bs ++ cs) = extent size bs + extent size cs := by
  simp [extent]

@[simp] lemma placed_nil (a : ℕ) : placed size a [] = [] := rfl

@[simp] lemma placed_cons (a : ℕ) (b : β) (bs : List β) :
    placed size a (b :: bs) = (a, b) :: placed size (a + size b) bs := rfl

@[simp] lemma placed_append (a : ℕ) (bs cs : List β) :
    placed size a (bs ++ cs) = placed size a bs ++ placed size (a + extent size bs) cs := by
  induction bs generalizing a with
  | nil => simp
  | cons b bs ih => simp [ih, Nat.add_assoc]

variable {size} {a x y : ℕ} {b c : β} {bs : List β}

/-- A block is at the end of those before it. -/
lemma mem_placed_iff :
    (x, b) ∈ placed size a bs ↔ ∃ cs ds, bs = cs ++ b :: ds ∧ x = a + extent size cs := by
  constructor
  · intro h
    induction bs generalizing a with
    | nil => simp at h
    | cons c bs ih =>
      rw [placed_cons, mem_cons, Prod.mk.injEq] at h
      obtain ⟨rfl, rfl⟩ | h := h
      · exact ⟨[], bs, rfl, rfl⟩
      · obtain ⟨cs, ds, rfl, rfl⟩ := ih h
        exact ⟨c :: cs, ds, rfl, by simp [Nat.add_assoc]⟩
  · rintro ⟨cs, ds, rfl, rfl⟩
    simp

lemma placed_bounds (h : (x, b) ∈ placed size a bs) : a ≤ x ∧ x + size b ≤ a + extent size bs := by
  obtain ⟨_, _, rfl, rfl⟩ := mem_placed_iff.1 h
  simp only [extent_append, extent_cons]
  omega

/-- **Two blocks are the same or do not overlap.** -/
lemma placed_disjoint (hb : (x, b) ∈ placed size a bs) (hc : (y, c) ∈ placed size a bs) :
    (x = y ∧ b = c) ∨ x + size b ≤ y ∨ y + size c ≤ x := by
  induction bs generalizing a with
  | nil => simp at hb
  | cons d bs ih =>
    rw [placed_cons, mem_cons, Prod.mk.injEq] at hb hc
    obtain ⟨rfl, rfl⟩ | hb := hb
    · obtain ⟨rfl, rfl⟩ | hc := hc
      · exact .inl ⟨rfl, rfl⟩
      · exact .inr (.inl (placed_bounds hc).1)
    · obtain ⟨rfl, rfl⟩ | hc := hc
      · exact .inr (.inr (placed_bounds hb).1)
      · exact ih hb hc

/-- Blocks with a least size are few. -/
lemma length_mul_le_extent {k : ℕ} (h : ∀ b ∈ bs, k ≤ size b) : bs.length * k ≤ extent size bs := by
  induction bs with
  | nil => simp
  | cons b bs ih =>
    have hb := h b mem_cons_self
    have hbs := ih fun c hc => h c (mem_cons_of_mem b hc)
    rw [length_cons, Nat.succ_mul, extent_cons]
    omega

end Aurora.Lib
