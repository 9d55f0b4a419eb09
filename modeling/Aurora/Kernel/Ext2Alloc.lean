import Aurora.Kernel.Ext2

/-!
# What allocation does to an ext2 filesystem

The allocator takes a clear bit of a group, sets it and writes the bitmap and the
descriptor of the group. The lemmas say which bit it takes and what stays.

## Main definitions

* `Ready`: memory does not run out.
* `allocBit_cases`: nothing is found, or a clear bit is marked used.
* `bitSet_setBit`: the bits after one of them has been set.
* `PaddingSet`: no clear bit names a block behind the end.
* `Taken`, `taken_alloc`: what `ext2_alloc_block` does to the blocks in use.
-/

namespace Aurora.Ext2

open Lib Function

/-- Memory does not run out. -/
def Ready (s : Sbi) : Prop := ∀ n, s.mem n = true

variable {s : Sbi} {k : Kind} {group i j : ℕ}

lemma Ready.next (h : Ready s) : Ready (kmalloc s).2 := fun n => h (n + 1)

lemma Ready.ok (h : Ready s) : (kmalloc s).1 = true := h 0

/-- Only the answers of `kmalloc` differ. -/
def SameFs (s s' : Sbi) : Prop := ∃ mem, s' = { s with mem := mem }

lemma SameFs.refl (s : Sbi) : SameFs s s := ⟨s.mem, rfl⟩

lemma sameFs_kmalloc (s : Sbi) : SameFs s (kmalloc s).2 := ⟨_, rfl⟩

lemma SameFs.trans {s1 s2 s3 : Sbi} (h : SameFs s1 s2) (h' : SameFs s2 s3) : SameFs s1 s3 := by
  obtain ⟨_, rfl⟩ := h
  obtain ⟨mem, rfl⟩ := h'
  exact ⟨mem, rfl⟩

/-! ## Bits -/

lemma bitSet_setBit (bitmap : Bytes) (i j : ℕ) :
    bitSet (setBit bitmap i) j = (decide (j = i) || bitSet bitmap j) := by
  have hbit : (UInt8.ofNat (2 ^ (i % 8))).toNat = 2 ^ (i % 8) := by
    have hlt : 2 ^ (i % 8) < 2 ^ 8 := Nat.pow_lt_pow_right (by decide) (Nat.mod_lt _ (by decide))
    rw [UInt8.toNat_ofNat', Nat.mod_eq_of_lt hlt]
  unfold bitSet setBit
  by_cases hbyte : j / 8 = i / 8
  · rw [hbyte, update_self, UInt8.toNat_or, hbit, Nat.testBit_or, Nat.testBit_two_pow, Bool.or_comm]
    congr 1
    rw [decide_eq_decide]
    omega
  · rw [update_of_ne hbyte]
    have hne : j ≠ i := fun he => hbyte (by rw [he])
    simp [hne]

/-! ## The search -/

/-- The search finds nothing, or it marks a clear bit of a group with something free. -/
lemma allocBit_cases (k : Kind) (n group : ℕ) (s : Sbi) :
    ((allocBit k n group s).1 = none ∧ SameFs s (allocBit k n group s).2) ∨
      ∃ g i s', SameFs s s' ∧ (allocBit k n group s).1 = some (g, i) ∧
        (allocBit k n group s).2 = s'.markUsed k g i ∧ g < group + n ∧ i < s.geo.scanned k ∧
        0 < s.freeCount k g ∧ bitSet (s.disk (s.bitmapBlock k g)) i = false := by
  induction n generalizing group s with
  | zero => exact .inl ⟨rfl, SameFs.refl s⟩
  | succ n ih =>
    rw [allocBit]
    by_cases hfree : s.freeCount k group > 0
    · rw [if_pos hfree]
      by_cases hmem : (kmalloc s).1 = false
      · simp only [hmem, if_true]
        exact .inl ⟨trivial, sameFs_kmalloc s⟩
      simp only [if_neg hmem]
      cases hfind : (List.range (s.geo.scanned k)).find?
          fun i => !bitSet (s.disk (s.bitmapBlock k group)) i with
      | some i =>
        have hlt := List.mem_range.1 (List.mem_of_find?_eq_some hfind)
        have hclear : bitSet (s.disk (s.bitmapBlock k group)) i = false := by
          simpa using List.find?_some hfind
        exact .inr ⟨group, i, _, sameFs_kmalloc s, rfl, rfl, by omega, hlt, hfree, hclear⟩
      | none =>
        rcases ih (group + 1) (kmalloc s).2 with ⟨hnone, hsame⟩ |
          ⟨g, i, s', hsame, hsome, heq, hlt, hrest⟩
        · exact .inl ⟨hnone, (sameFs_kmalloc s).trans hsame⟩
        · exact .inr ⟨g, i, s', (sameFs_kmalloc s).trans hsame, hsome, heq, by omega, hrest⟩
    · rw [if_neg hfree]
      rcases ih (group + 1) s with h | ⟨g, i, s', hsame, hsome, heq, hlt, hrest⟩
      · exact .inl h
      · exact .inr ⟨g, i, s', hsame, hsome, heq, by omega, hrest⟩

/-! ## What is left of the filesystem -/

@[simp] lemma markUsed_geo (s : Sbi) (k : Kind) (g i : ℕ) : (s.markUsed k g i).geo = s.geo := rfl

/-- Marking writes the bitmap and the descriptor and no other block. -/
lemma markUsed_disk_of_ne {blk : ℕ} (hbm : blk ≠ s.bitmapBlock k group)
    (hgd : blk ≠ s.geo.gdBlock group) : (s.markUsed k group i).disk blk = s.disk blk := by
  simp [Sbi.markUsed, ext2WriteGd, Sbi.writeBlock, hbm, hgd]

lemma markUsed_disk_bitmap (hgd : s.bitmapBlock k group ≠ s.geo.gdBlock group) :
    (s.markUsed k group i).disk (s.bitmapBlock k group)
      = setBit (s.disk (s.bitmapBlock k group)) i := by
  simp [Sbi.markUsed, ext2WriteGd, Sbi.writeBlock, hgd]

/-- A field of a descriptor that is not the free count stays. -/
lemma markUsed_getLE {off n : ℕ} (h : off + n ≤ 32 * group + k.countOff ∨
    32 * group + k.countOff + 2 ≤ off) : getLE (s.markUsed k group i).gd off n = getLE s.gd off n :=
  getLE_putLE_of_disjoint h

/-! ## Blocks in use -/

/-- The group has blocks of the filesystem. -/
def Geometry.Real (g : Geometry) (group : ℕ) : Prop :=
  group < g.numGroups ∧ group * g.blocksPerGroup + g.firstDataBlock < g.blocksCount

/-- The block is marked used in the bitmap of its group. -/
def Sbi.Used (s : Sbi) (blk : ℕ) : Prop :=
  blk < s.geo.blocksCount ∧ s.geo.firstDataBlock ≤ blk ∧
    (blk - s.geo.firstDataBlock) / s.geo.blocksPerGroup < s.geo.numGroups ∧
    bitSet (s.disk (s.bitmapBlock s.geo.blocks
        ((blk - s.geo.firstDataBlock) / s.geo.blocksPerGroup)))
      ((blk - s.geo.firstDataBlock) % s.geo.blocksPerGroup) = true

/-- The block is a block bitmap or holds a group descriptor. -/
def Sbi.Meta (s : Sbi) (blk : ℕ) : Prop :=
  ∃ group, s.geo.Real group ∧
    (blk = s.bitmapBlock s.geo.blocks group ∨ blk = s.geo.gdBlock group)

/-- The block bitmaps are different blocks, and none of them holds a group descriptor. -/
structure BitmapsApart (s : Sbi) : Prop where
  inj : ∀ g g', s.geo.Real g → s.geo.Real g' →
    s.bitmapBlock s.geo.blocks g = s.bitmapBlock s.geo.blocks g' → g = g'
  gd : ∀ g g', s.geo.Real g → s.geo.Real g' →
    s.bitmapBlock s.geo.blocks g ≠ s.geo.gdBlock g'

/-- The bits behind the end are set: a clear bit that the allocator can find names a
block of the filesystem. -/
def PaddingSet (s : Sbi) : Prop :=
  ∀ g < s.geo.numGroups, 0 < s.freeCount s.geo.blocks g → s.geo.Real g ∧
    ∀ i < s.geo.scanned s.geo.blocks,
      bitSet (s.disk (s.bitmapBlock s.geo.blocks g)) i = false →
      g * s.geo.blocksPerGroup + i + s.geo.firstDataBlock < s.geo.blocksCount

variable {s' : Sbi} {b : ℕ}

/-- Block `b` was free in `s` and is marked used in `s'`; the bitmaps are where they
were, and no other block has become used or free. -/
structure Taken (s : Sbi) (b : ℕ) (s' : Sbi) : Prop where
  geo : s'.geo = s.geo
  bitmaps : ∀ g, s'.bitmapBlock s.geo.blocks g = s.bitmapBlock s.geo.blocks g
  inRange : b < s.geo.blocksCount
  fresh : ¬ s.Used b
  used : ∀ blk, s'.Used blk ↔ s.Used blk ∨ blk = b
  padding : PaddingSet s'

/-- The group and the bit of a block. -/
lemma group_of_block {g : Geometry} (group : ℕ) {i : ℕ} (hi : i < g.blocksPerGroup) :
    (group * g.blocksPerGroup + i + g.firstDataBlock - g.firstDataBlock) / g.blocksPerGroup
        = group ∧
      (group * g.blocksPerGroup + i + g.firstDataBlock - g.firstDataBlock) % g.blocksPerGroup
        = i := by
  rw [Nat.add_sub_cancel, Nat.mul_comm, Nat.mul_add_div g.blocksPerGroup_pos,
    Nat.div_eq_of_lt hi, Nat.mul_add_mod, Nat.mod_eq_of_lt hi]
  exact ⟨Nat.add_zero _, rfl⟩

lemma real_of_lt {g : Geometry} {blk : ℕ} (hlt : blk < g.blocksCount) (hge : g.firstDataBlock ≤ blk)
    (hgroup : (blk - g.firstDataBlock) / g.blocksPerGroup < g.numGroups) :
    g.Real ((blk - g.firstDataBlock) / g.blocksPerGroup) := by
  refine ⟨hgroup, ?_⟩
  have hle := Nat.div_mul_le_self (blk - g.firstDataBlock) g.blocksPerGroup
  omega

/-- The bitmap of a real group after a bit of one of them has been marked. -/
lemma bitSet_markUsed (hapart : BitmapsApart s) {g i g' i' : ℕ} (hg : s.geo.Real g)
    (hg' : s.geo.Real g') :
    bitSet ((s.markUsed s.geo.blocks g i).disk (s.bitmapBlock s.geo.blocks g')) i'
      = (decide (g' = g ∧ i' = i) || bitSet (s.disk (s.bitmapBlock s.geo.blocks g')) i') := by
  by_cases heq : g' = g
  · subst heq
    rw [markUsed_disk_bitmap (hapart.gd g' g' hg' hg'), bitSet_setBit]
    simp
  · have hne : s.bitmapBlock s.geo.blocks g' ≠ s.bitmapBlock s.geo.blocks g := fun h =>
      heq (hapart.inj g' g hg' hg h)
    rw [markUsed_disk_of_ne hne (hapart.gd g' g hg' hg)]
    simp [heq]

lemma bitmapBlock_markUsed (s : Sbi) (g i g' : ℕ) :
    (s.markUsed s.geo.blocks g i).bitmapBlock s.geo.blocks g' = s.bitmapBlock s.geo.blocks g' := by
  refine markUsed_getLE ?_
  simp only [Geometry.blocks]
  omega

/-- A free count is smaller by one at the marked group. -/
lemma freeCount_markUsed_pos {g i g' : ℕ} (hfree : 0 < s.freeCount s.geo.blocks g)
    (h : 0 < (s.markUsed s.geo.blocks g i).freeCount s.geo.blocks g') :
    0 < s.freeCount s.geo.blocks g' := by
  by_cases heq : g' = g
  · rwa [heq]
  · have hsame : (s.markUsed s.geo.blocks g i).freeCount s.geo.blocks g'
        = s.freeCount s.geo.blocks g' := by
      refine markUsed_getLE ?_
      omega
    rwa [hsame] at h

/-- Marking a clear bit of a real group takes a block. -/
lemma taken_markUsed (hapart : BitmapsApart s) (hpad : PaddingSet s)
    {g i : ℕ} (hg : g < s.geo.numGroups) (hi : i < s.geo.scanned s.geo.blocks)
    (hfree : 0 < s.freeCount s.geo.blocks g)
    (hclear : bitSet (s.disk (s.bitmapBlock s.geo.blocks g)) i = false) :
    Taken s (g * s.geo.blocksPerGroup + i + s.geo.firstDataBlock)
      (s.markUsed s.geo.blocks g i) := by
  obtain ⟨hreal, hrange⟩ := hpad g hg hfree
  have hlt := hrange i hi hclear
  have hper : i < s.geo.blocksPerGroup := lt_of_lt_of_le hi (min_le_left _ _)
  obtain ⟨hdiv, hmod⟩ := group_of_block (g := s.geo) g hper
  refine ⟨rfl, bitmapBlock_markUsed s g i, hlt, ?_, fun blk => ?_, ?_⟩
  · rintro ⟨-, -, -, hbit⟩
    rw [hdiv, hmod, hclear] at hbit
    cases hbit
  · simp only [Sbi.Used, markUsed_geo, bitmapBlock_markUsed]
    constructor
    · rintro ⟨hb, hge, hgroup, hbit⟩
      rw [bitSet_markUsed hapart hreal (real_of_lt hb hge hgroup)] at hbit
      simp only [Bool.or_eq_true, decide_eq_true_eq] at hbit
      rcases hbit with ⟨hg', hi'⟩ | hbit
      · -- the same group and bit
        have hdm := Nat.div_add_mod' (blk - s.geo.firstDataBlock) s.geo.blocksPerGroup
        rw [hg', hi'] at hdm
        exact .inr (by omega)
      · exact .inl ⟨hb, hge, hgroup, hbit⟩
    · rintro (⟨hb, hge, hgroup, hbit⟩ | rfl)
      · refine ⟨hb, hge, hgroup, ?_⟩
        rw [bitSet_markUsed hapart hreal (real_of_lt hb hge hgroup), hbit, Bool.or_true]
      · refine ⟨hlt, Nat.le_add_left _ _, ?_, ?_⟩
        · rwa [hdiv]
        · rw [hdiv, hmod, bitSet_markUsed hapart hreal hreal]
          simp
  · intro g' hg' hfree'
    obtain ⟨hreal', hrange'⟩ := hpad g' hg' (freeCount_markUsed_pos hfree hfree')
    refine ⟨hreal', fun i' hi' hclear' => hrange' i' hi' ?_⟩
    simp only [markUsed_geo, bitmapBlock_markUsed] at hclear'
    rw [bitSet_markUsed hapart hreal hreal', Bool.or_eq_false_iff] at hclear'
    exact hclear'.2

/-- A block that `ext2_alloc_block` returns was free and is used now; only a bitmap and a
descriptor have been written. -/
lemma taken_alloc (hapart : BitmapsApart s) (hpad : PaddingSet s)
    (halloc : ext2AllocBlock s = (b, s')) (hne : b ≠ 0) :
    Taken s b s' ∧ ∀ blk, ¬ s.Meta blk → s'.disk blk = s.disk blk := by
  unfold ext2AllocBlock at halloc
  rcases allocBit_cases s.geo.blocks s.geo.numGroups 0 s with ⟨hnone, -⟩ |
    ⟨g, i, s0, hsame, hsome, heq, hlt, hi, hfree, hclear⟩
  · simp only [hnone] at halloc
    exact absurd (Prod.ext_iff.1 halloc).1.symm hne
  · simp only [hsome, heq] at halloc
    rw [Nat.zero_add] at hlt
    obtain ⟨hreal, hrange⟩ := hpad g hlt hfree
    have hb := hrange i hi hclear
    have hcount := s.geo.blocksCount_lt
    rw [Nat.mod_eq_of_lt (by omega)] at halloc
    obtain ⟨rfl, rfl⟩ := Prod.ext_iff.1 halloc
    obtain ⟨mem, rfl⟩ := hsame
    have htaken := taken_markUsed (s := { s with mem := mem })
      ⟨hapart.inj, hapart.gd⟩ hpad hlt hi hfree hclear
    refine ⟨⟨htaken.geo, htaken.bitmaps, htaken.inRange, htaken.fresh, htaken.used,
      htaken.padding⟩, fun blk hmeta => ?_⟩
    exact markUsed_disk_of_ne (fun h => hmeta ⟨g, hreal, .inl h⟩)
      (fun h => hmeta ⟨g, hreal, .inr h⟩)

end Aurora.Ext2
