import Mathlib.Data.List.Nodup
import Mathlib.Data.List.Pairwise
import Mathlib.Data.List.Perm.Basic
import Mathlib.Data.Nat.Bitwise

/-!
# Dyadic blocks

A block of order `k` is `2 ^ k` consecutive numbers that start at a multiple of
`2 ^ k`. A list of blocks and a list of single numbers tile `0, …, n - 1` when
together they list every number once. Splitting a block and joining two buddies keep
a tiling.

## Main definitions

* `Block`, `Block.span`, `Block.Aligned`.
* `Tiles bs rest n`: the blocks `bs` and the numbers `rest` tile `List.range n`.
* `xor_two_pow_cases`: the buddy of an aligned block by exclusive or.
-/

namespace Aurora.Lib

/-- The `2 ^ order` numbers from `base` on. -/
structure Block where
  base : ℕ
  order : ℕ
  deriving DecidableEq, Repr

namespace Block

/-- The numbers of a block. -/
def span (b : Block) : List ℕ := List.range' b.base (2 ^ b.order)

def Aligned (b : Block) : Prop := 2 ^ b.order ∣ b.base

instance (b : Block) : Decidable b.Aligned := inferInstanceAs (Decidable (_ ∣ _))

lemma mem_span {b : Block} {x : ℕ} : x ∈ b.span ↔ b.base ≤ x ∧ x < b.base + 2 ^ b.order := by
  simp [span, List.mem_range']
  constructor
  · rintro ⟨i, hi, rfl⟩
    omega
  · rintro ⟨hle, hlt⟩
    exact ⟨x - b.base, by omega, by omega⟩

lemma base_mem_span (b : Block) : b.base ∈ b.span :=
  mem_span.2 ⟨le_rfl, Nat.lt_add_of_pos_right (Nat.two_pow_pos _)⟩

/-- A block is its two halves. -/
lemma span_succ (p k : ℕ) :
    (Block.mk p (k + 1)).span = (Block.mk p k).span ++ (Block.mk (p + 2 ^ k) k).span := by
  simp only [span, pow_succ, mul_two]
  rw [List.range'_append_1]

end Block

open Block List

/-- The blocks `bs` and the numbers `rest` list `0, …, n - 1`, each once. -/
structure Tiles (bs : List Block) (rest : List ℕ) (n : ℕ) : Prop where
  aligned : ∀ b ∈ bs, b.Aligned
  cover : (bs.flatMap span ++ rest).Perm (List.range n)

namespace Tiles

variable {bs bs' : List Block} {rest : List ℕ} {n p k : ℕ} {b c : Block}

section

variable (h : Tiles bs rest n)

include h

lemma perm (hbs : bs.Perm bs') : Tiles bs' rest n where
  aligned b hb := h.aligned b (hbs.mem_iff.2 hb)
  cover := ((hbs.flatMap_right span).symm.append_right rest).trans h.cover

lemma nodup : (bs.flatMap span ++ rest).Nodup :=
  h.cover.nodup_iff.2 nodup_range

omit h in
/-- Splitting a block in two. -/
lemma split (h : Tiles (⟨p, k + 1⟩ :: bs) rest n) :
    Tiles (⟨p, k⟩ :: ⟨p + 2 ^ k, k⟩ :: bs) rest n where
  aligned := by
    obtain ⟨halign, hrest⟩ := forall_mem_cons.1 h.aligned
    have hp : 2 ^ k ∣ p := (pow_dvd_pow 2 (Nat.le_succ k)).trans halign
    refine forall_mem_cons.2 ⟨hp, forall_mem_cons.2 ⟨?_, hrest⟩⟩
    exact (Nat.dvd_add_iff_left (dvd_refl _)).1 hp
  cover := by
    have := h.cover
    simpa only [flatMap_cons, span_succ, append_assoc] using this

omit h in
/-- Joining a block with the one after it. -/
lemma join (h : Tiles (⟨p, k⟩ :: ⟨p + 2 ^ k, k⟩ :: bs) rest n) (hp : 2 ^ (k + 1) ∣ p) :
    Tiles (⟨p, k + 1⟩ :: bs) rest n where
  aligned := forall_mem_cons.2
    ⟨hp, fun b hb => h.aligned b (mem_cons_of_mem _ (mem_cons_of_mem _ hb))⟩
  cover := by
    have := h.cover
    simpa only [flatMap_cons, span_succ, append_assoc] using this

/-- Distinct blocks of a tiling share no number. -/
lemma pairwise_disjoint : bs.Pairwise fun b c => b.span.Disjoint c.span :=
  (nodup_flatMap.1 (nodup_append.1 h.nodup).1).2

/-- A number lies in one block only. -/
lemma eq_of_mem_span (hb : b ∈ bs) (hc : c ∈ bs) {x : ℕ}
    (hxb : x ∈ b.span) (hxc : x ∈ c.span) : b = c := by
  by_contra hne
  have : Std.Symm fun b c : Block => b.span.Disjoint c.span :=
    ⟨fun _ _ hdisj _ hx hy => hdisj hy hx⟩
  exact h.pairwise_disjoint.forall hb hc hne hxb hxc

/-- No block starts where another one does. -/
lemma nodup_map_base : (bs.map base).Nodup := by
  refine pairwise_map.2 (h.pairwise_disjoint.imp ?_)
  intro b c hbc heq
  exact hbc b.base_mem_span (heq ▸ c.base_mem_span)

lemma span_subset (hb : b ∈ bs) {x : ℕ} (hx : x ∈ b.span) : x < n :=
  mem_range.1 (h.cover.mem_iff.1
    (mem_append_left rest (mem_flatMap.2 ⟨b, hb, hx⟩)))

lemma not_mem_rest (hb : b ∈ bs) {x : ℕ} (hx : x ∈ b.span) : x ∉ rest :=
  fun hrest => (nodup_append.1 h.nodup).2.2 x (mem_flatMap.2 ⟨b, hb, hx⟩) x hrest rfl

end

end Tiles

/-! ## Buddies -/

/-- Exclusive or with a power of two adds it or takes it away. -/
lemma xor_two_pow_eq (p k : ℕ) :
    p ^^^ 2 ^ k = p + 2 ^ k ∨ ∃ q, p = q + 2 ^ k ∧ p ^^^ 2 ^ k = q := by
  have hdiv : (p ^^^ 2 ^ k) / 2 ^ k = p / 2 ^ k ^^^ 1 := by
    have := Nat.shiftRight_xor_distrib (a := p) (b := 2 ^ k) (i := k)
    simpa [Nat.shiftRight_eq_div_pow, Nat.div_self (Nat.two_pow_pos k)] using this
  have hmod : (p ^^^ 2 ^ k) % 2 ^ k = p % 2 ^ k := by
    rw [Nat.xor_mod_two_pow, Nat.mod_self, Nat.xor_zero]
  have hp := Nat.div_add_mod p (2 ^ k)
  have hxor := Nat.div_add_mod (p ^^^ 2 ^ k) (2 ^ k)
  rw [hdiv, hmod] at hxor
  rcases Nat.even_or_odd (p / 2 ^ k) with heven | hodd
  · left
    rw [Nat.xor_one_of_even heven, mul_add_one] at hxor
    omega
  · right
    obtain ⟨j, hj⟩ := hodd
    rw [Nat.xor_one_of_odd ⟨j, hj⟩, hj, Nat.add_sub_cancel] at hxor
    rw [hj, mul_add_one] at hp
    exact ⟨p ^^^ 2 ^ k, by omega, rfl⟩

/-- The buddy of an aligned block is the block after it or the one before it,
depending on which of the two starts the larger block. -/
lemma xor_two_pow_cases {p k : ℕ} (h : 2 ^ k ∣ p) : (2 ^ (k + 1) ∣ p ∧ p ^^^ 2 ^ k = p + 2 ^ k) ∨
      ∃ q, p = q + 2 ^ k ∧ 2 ^ (k + 1) ∣ q ∧ p ^^^ 2 ^ k = q := by
  obtain ⟨m, rfl⟩ := h
  have hxor : 2 ^ k * m ^^^ 2 ^ k = 2 ^ k * (m ^^^ 1) := by
    have : (m ^^^ 1) <<< k = m <<< k ^^^ 1 <<< k := Nat.shiftLeft_xor_distrib
    simpa only [Nat.shiftLeft_eq, mul_comm, mul_one, one_mul] using this.symm
  rw [hxor, pow_succ]
  rcases Nat.even_or_odd m with heven | hodd
  · left
    rw [Nat.xor_one_of_even heven]
    exact ⟨Nat.mul_dvd_mul_left _ heven.two_dvd, mul_add_one _ _⟩
  · right
    obtain ⟨j, rfl⟩ := hodd
    rw [Nat.xor_one_of_odd ⟨j, rfl⟩]
    exact ⟨2 ^ k * (2 * j), mul_add_one _ _, Nat.mul_dvd_mul_left _ ⟨j, rfl⟩, by simp⟩

end Aurora.Lib
