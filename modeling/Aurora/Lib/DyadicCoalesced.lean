import Aurora.Lib.DyadicBlocks

/-!
# Coalesced dyadic blocks

Blocks are coalesced when no two of them are buddies. For blocks that do not overlap
this is the same as maximality: the buddy of a block always has a number outside the
blocks. So the numbers that coalesced blocks cover determine the blocks.

## Main definitions

* `Block.buddy`: the other half of the next larger block.
* `Coalesced m bs`: no two blocks of an order below `m` are buddies.
* `Coalesced.mem_iff`: the blocks are determined by the numbers they cover.
-/

namespace Aurora.Lib

open Block List

/-- The block that together with this one makes up the next larger one. -/
def Block.buddy (b : Block) : Block := ⟨b.base ^^^ 2 ^ b.order, b.order⟩

/-- No two of the blocks below order `m` are buddies. -/
def Coalesced (m : ℕ) (bs : List Block) : Prop := ∀ b ∈ bs, b.order < m → b.buddy ∉ bs

/-- Aligned blocks that share no number, of order at most `m`. -/
structure Apart (m : ℕ) (bs : List Block) : Prop where
  aligned : ∀ b ∈ bs, b.Aligned
  order_le : ∀ b ∈ bs, b.order ≤ m
  eq_of_mem : ∀ b ∈ bs, ∀ c ∈ bs, ∀ x, x ∈ b.span → x ∈ c.span → b = c

variable {m k : ℕ} {bs bs' : List Block} {b c : Block} {x y : ℕ}

/-! ## Spans by division -/

lemma mem_span_iff_div (h : b.Aligned) : x ∈ b.span ↔ x / 2 ^ b.order = b.base / 2 ^ b.order := by
  obtain ⟨q, hq⟩ := h
  have hpos := Nat.two_pow_pos b.order
  rw [Block.mem_span, hq, Nat.mul_div_cancel_left _ hpos, Nat.div_eq_iff hpos, Nat.mul_comm q]
  omega

/-- A block and its buddy cover the next larger block. -/
lemma mem_span_or_buddy (h : b.Aligned) :
    x ∈ b.span ∨ x ∈ b.buddy.span ↔ x / 2 ^ (b.order + 1) = b.base / 2 ^ (b.order + 1) := by
  have hsum : ∀ q, 2 ^ (b.order + 1) ∣ q →
      (x / 2 ^ (b.order + 1) = q / 2 ^ (b.order + 1) ↔ q ≤ x ∧ x < q + 2 ^ (b.order + 1)) :=
    fun q hq => (mem_span_iff_div (b := ⟨q, b.order + 1⟩) hq).symm.trans Block.mem_span
  rcases xor_two_pow_cases h with ⟨hdvd, hxor⟩ | ⟨q, hbase, hdvd, hxor⟩
  · rw [hsum _ hdvd, Block.mem_span, Block.mem_span]
    simp only [Block.buddy, hxor, pow_succ]
    omega
  · have hq : b.base / 2 ^ (b.order + 1) = q / 2 ^ (b.order + 1) := by
      refine (mem_span_iff_div (b := ⟨q, b.order + 1⟩) hdvd).1 (Block.mem_span.2 ?_)
      simp only [pow_succ]
      omega
    rw [hq, hsum _ hdvd, Block.mem_span, Block.mem_span]
    simp only [Block.buddy, hxor, pow_succ]
    omega

lemma Block.Aligned.buddy (h : b.Aligned) : b.buddy.Aligned := by
  change 2 ^ b.order ∣ b.base ^^^ 2 ^ b.order
  rcases xor_two_pow_cases h with ⟨-, hxor⟩ | ⟨q, -, hdvd, hxor⟩
  · rw [hxor]
    exact (Nat.dvd_add_right h).2 dvd_rfl
  · rw [hxor]
    exact (pow_dvd_pow 2 (Nat.le_succ _)).trans hdvd

lemma buddy_buddy (b : Block) : b.buddy.buddy = b := by
  simp [Block.buddy]

/-- Numbers that a division by a small power of two makes equal stay equal. -/
lemma div_two_pow_eq (h : x / 2 ^ k = y / 2 ^ k) (hle : k ≤ m) : x / 2 ^ m = y / 2 ^ m := by
  obtain ⟨d, rfl⟩ := Nat.exists_eq_add_of_le hle
  rw [pow_add, ← Nat.div_div_eq_div_mul, ← Nat.div_div_eq_div_mul, h]

/-- A strictly larger block covers the buddy, too. -/
lemma buddy_subset_span (hb : b.Aligned) (hc : c.Aligned) (hxb : x ∈ b.span) (hxc : x ∈ c.span)
    (hlt : b.order < c.order) : b.buddy.span ⊆ c.span := by
  intro y hy
  have hx := (mem_span_or_buddy hb).1 (.inl hxb)
  have hy := (mem_span_or_buddy hb).1 (.inr hy)
  rw [mem_span_iff_div hc] at hxc ⊢
  rw [← hxc]
  exact div_two_pow_eq (hy.trans hx.symm) hlt

/-- Blocks of one order that share a number are the same. -/
lemma eq_of_mem_span (hb : b.Aligned) (hc : c.Aligned) (hxb : x ∈ b.span) (hxc : x ∈ c.span)
    (horder : b.order = c.order) : b = c := by
  rw [mem_span_iff_div hb] at hxb
  rw [mem_span_iff_div hc, ← horder] at hxc
  obtain ⟨p, hp⟩ := hb
  obtain ⟨q, hq⟩ := hc
  rw [← horder] at hq
  have hpos := Nat.two_pow_pos b.order
  rw [hp, Nat.mul_div_cancel_left _ hpos] at hxb
  rw [hq, Nat.mul_div_cancel_left _ hpos] at hxc
  have hbase : b.base = c.base := by rw [hp, hq, ← hxb, ← hxc]
  cases b
  cases c
  cases horder
  cases hbase
  rfl

/-- The buddy of a left half is the right half. -/
lemma buddy_left {p : ℕ} (h : (Block.mk p (k + 1)).Aligned) :
    (Block.mk p k).buddy = ⟨p + 2 ^ k, k⟩ := by
  have hdvd : 2 ^ (k + 1) ∣ p := h
  rcases xor_two_pow_cases ((pow_dvd_pow 2 (Nat.le_succ k)).trans hdvd) with
    ⟨-, hxor⟩ | ⟨q, rfl, hq, -⟩
  · exact congrArg (Block.mk · k) hxor
  · have hle := Nat.le_of_dvd (Nat.two_pow_pos k) ((Nat.dvd_add_right hq).1 hdvd)
    omega

/-! ## Coalesced blocks are maximal -/

/-- A covered block that no larger one overlaps is one of the blocks. -/
lemma Coalesced.mem_of_covered (h : Coalesced m bs) (hbs : Apart m bs) (hc : c.Aligned)
    (horder : c.order ≤ m) (hcover : ∀ x ∈ c.span, ∃ d ∈ bs, x ∈ d.span ∧ d.order ≤ c.order) :
    c ∈ bs := by
  obtain ⟨p, k⟩ := c
  induction k generalizing p with
  | zero =>
    obtain ⟨d, hd, hx, hle⟩ := hcover p (Block.base_mem_span _)
    rwa [eq_of_mem_span hc (hbs.aligned d hd) (Block.base_mem_span _) hx
      (Nat.le_zero.1 hle).symm]
  | succ k ih =>
    -- either the block is there, or its two halves would be, and they are buddies
    by_contra hnot
    have hhalf : ∀ q, (Block.mk q k).Aligned → (Block.mk q k).span ⊆ (Block.mk p (k + 1)).span →
        ⟨q, k⟩ ∈ bs := by
      intro q hq hsub
      refine ih q hq (by simp only at horder ⊢; omega) fun x hx => ?_
      obtain ⟨d, hd, hxd, hle⟩ := hcover x (hsub hx)
      refine ⟨d, hd, hxd, Nat.le_of_lt_succ (lt_of_le_of_ne hle fun heq => hnot ?_)⟩
      rwa [eq_of_mem_span hc (hbs.aligned d hd) (hsub hx) hxd heq.symm]
    have halign : (Block.mk p k).Aligned := (pow_dvd_pow 2 (Nat.le_succ k)).trans hc
    have hbuddy := buddy_left hc
    have hleft := hhalf p halign (by rw [Block.span_succ]; exact subset_append_left _ _)
    have hright := hhalf (p + 2 ^ k) (hbuddy ▸ halign.buddy)
      (by rw [Block.span_succ]; exact subset_append_right _ _)
    refine h _ hleft horder ?_
    rwa [hbuddy]

/-- **The buddy of a coalesced block is not covered.** -/
lemma Coalesced.buddy_not_covered (h : Coalesced m bs) (hbs : Apart m bs) (hb : b ∈ bs)
    (horder : b.order < m) : ∃ x ∈ b.buddy.span, ∀ d ∈ bs, x ∉ d.span := by
  by_contra hall
  push Not at hall
  have halign := hbs.aligned b hb
  refine h b hb horder (h.mem_of_covered hbs halign.buddy horder.le fun x hx => ?_)
  obtain ⟨d, hd, hxd⟩ := hall x hx
  refine ⟨d, hd, hxd, ?_⟩
  -- a larger block around the buddy would cover the block itself
  by_contra hlt
  have hsub := buddy_subset_span halign.buddy (hbs.aligned d hd) hx hxd (not_le.1 hlt)
  rw [buddy_buddy] at hsub
  have heq := hbs.eq_of_mem b hb d hd b.base b.base_mem_span (hsub b.base_mem_span)
  rw [heq] at hlt
  exact hlt le_rfl

/-- Blocks with uncovered buddies are coalesced. -/
lemma coalesced_of_not_covered
    (h : ∀ b ∈ bs, b.order < m → ∃ x ∈ b.buddy.span, ∀ d ∈ bs, x ∉ d.span) : Coalesced m bs := by
  intro b hb horder hbuddy
  obtain ⟨x, hx, hnot⟩ := h b hb horder
  exact hnot _ hbuddy hx

lemma Coalesced.perm (h : Coalesced m bs) (hperm : bs.Perm bs') : Coalesced m bs' :=
  fun b hb horder hbuddy => h b (hperm.mem_iff.2 hb) horder (hperm.mem_iff.2 hbuddy)

lemma Coalesced.tail (h : Coalesced m (b :: bs)) : Coalesced m bs := fun c hc horder hbuddy =>
  h c (mem_cons_of_mem b hc) horder (mem_cons_of_mem b hbuddy)

lemma buddy_ne (b : Block) : b.buddy ≠ b := by
  intro h
  have hbase : b.base ^^^ 2 ^ b.order = b.base := congrArg Block.base h
  have hpos := Nat.two_pow_pos b.order
  have hzero : 2 ^ b.order = 0 :=
    Nat.xor_right_injective (x := b.base) (hbase.trans (Nat.xor_zero _).symm)
  omega

/-- A block joins coalesced ones if its buddy is not among them. -/
lemma Coalesced.cons (h : Coalesced m bs) (hb : b.order < m → b.buddy ∉ bs) :
    Coalesced m (b :: bs) := by
  intro c hc horder hbuddy
  rcases mem_cons.1 hc with rfl | hc
  · exact hb horder ((mem_cons.1 hbuddy).resolve_left (buddy_ne c))
  · rcases mem_cons.1 hbuddy with heq | hbuddy
    · refine hb (heq ▸ horder) ?_
      rwa [← heq, buddy_buddy]
    · exact h c hc horder hbuddy

section

variable (h : Coalesced m bs) (hbs : Apart m bs) (h' : Coalesced m bs') (hbs' : Apart m bs')
  (hcover : ∀ x, (∃ b ∈ bs, x ∈ b.span) ↔ ∃ b ∈ bs', x ∈ b.span)

include h hbs h' hbs' hcover

/-- Coalesced blocks that cover the same numbers are the same, one inclusion. -/
lemma Coalesced.subset : bs ⊆ bs' := by
  intro b hb
  obtain ⟨c, hc, hbase⟩ := (hcover b.base).1 ⟨b, hb, b.base_mem_span⟩
  have hba := hbs.aligned b hb
  have hca := hbs'.aligned c hc
  rcases lt_trichotomy b.order c.order with hlt | heq | hgt
  · obtain ⟨x, hx, hnot⟩ := h.buddy_not_covered hbs hb (hlt.trans_le (hbs'.order_le c hc))
    obtain ⟨d, hd, hxd⟩ := (hcover x).2
      ⟨c, hc, buddy_subset_span hba hca b.base_mem_span hbase hlt hx⟩
    exact absurd hxd (hnot d hd)
  · rwa [eq_of_mem_span hba hca b.base_mem_span hbase heq]
  · obtain ⟨x, hx, hnot⟩ := h'.buddy_not_covered hbs' hc (hgt.trans_le (hbs.order_le b hb))
    obtain ⟨d, hd, hxd⟩ := (hcover x).1
      ⟨b, hb, buddy_subset_span hca hba hbase b.base_mem_span hgt hx⟩
    exact absurd hxd (hnot d hd)

/-- **Coalesced blocks are determined by the numbers they cover.** -/
lemma Coalesced.mem_iff (b : Block) : b ∈ bs ↔ b ∈ bs' :=
  ⟨fun hb => h.subset hbs h' hbs' hcover hb,
    fun hb => h'.subset hbs' h hbs (fun x => (hcover x).symm) hb⟩

end

end Aurora.Lib
