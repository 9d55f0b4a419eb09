import Aurora.Kernel.Ext2Alloc

/-!
# The block map of an ext2 inode

The block pointers of an inode are a forest with fifteen roots; a logical block number is a
position in it.

## Main definitions

* `levels`: the root and the indices of a logical block.
* `Consistent`: pointers in range, to blocks marked used, no block twice.
-/

namespace Aurora.Ext2

open Lib Function

/-! ## Positions -/

/-- How many levels of pointers there are below a root. -/
def depth (k : ℕ) : ℕ := k - 11

/-- The positions of the forest. -/
def Valid (g : Geometry) (k : ℕ) (js : List ℕ) : Prop :=
  k < 15 ∧ js.length ≤ depth k ∧ ∀ j ∈ js, j < g.ptrsPerBlock

/-- The root and the indices of a logical block. -/
def levels (ptrs logicalBlock : ℕ) : ℕ × List ℕ :=
  if logicalBlock < 12 then (logicalBlock, [])
  else if logicalBlock - 12 < ptrs then (12, [logicalBlock - 12])
  else if logicalBlock - 12 - ptrs < ptrs * ptrs then
    (13, [(logicalBlock - 12 - ptrs) / ptrs, (logicalBlock - 12 - ptrs) % ptrs])
  else
    (14, [(logicalBlock - 12 - ptrs - ptrs * ptrs) / (ptrs * ptrs),
      (logicalBlock - 12 - ptrs - ptrs * ptrs) / ptrs % ptrs,
      (logicalBlock - 12 - ptrs - ptrs * ptrs) % ptrs])

/-! ## Consistent filesystems -/

/-- The pointer behind `p` along the indices; null has nothing behind it. -/
def follow (entry : ℕ → ℕ → ℕ) : ℕ → List ℕ → ℕ
  | p, [] => p
  | p, j :: js => if p = 0 then 0 else follow entry (entry p j) js

lemma follow_zero (entry : ℕ → ℕ → ℕ) (js : List ℕ) : follow entry 0 js = 0 := by
  cases js <;> simp [follow]

/-- The pointer at a position of the block map. -/
def ptr (s : Sbi) (raw : Bytes) (k : ℕ) (js : List ℕ) : ℕ :=
  follow (fun blk => pointer (s.disk blk)) (iBlock raw k) js

/-- The filesystem is consistent as far as one inode is concerned. -/
structure Consistent (s : Sbi) (raw : Bytes) : Prop where
  inRange : ∀ k js, Valid s.geo k js → ptr s raw k js < s.geo.blocksCount
  used : ∀ k js, Valid s.geo k js → ptr s raw k js ≠ 0 → s.Used (ptr s raw k js)
  inj : ∀ k js k' js', Valid s.geo k js → Valid s.geo k' js' → ptr s raw k js ≠ 0 →
    ptr s raw k js = ptr s raw k' js' → k = k' ∧ js = js'
  metaUsed : ∀ blk, s.Meta blk → s.Used blk
  metaApart : ∀ k js, Valid s.geo k js → ptr s raw k js ≠ 0 → ¬ s.Meta (ptr s raw k js)
  bitmapInj : ∀ g g', s.geo.Real g → s.geo.Real g' →
    s.bitmapBlock s.geo.blocks g = s.bitmapBlock s.geo.blocks g' → g = g'
  bitmapGd : ∀ g g', s.geo.Real g → s.geo.Real g' →
    s.bitmapBlock s.geo.blocks g ≠ s.geo.gdBlock g'

/-! ## New pointers -/

lemma iBlock_addIBlocks (raw : Bytes) (n k : ℕ) : iBlock (addIBlocks raw n) k = iBlock raw k :=
  getLE_putLE_of_disjoint (by omega)

lemma iBlock_setIBlock (raw : Bytes) {k0 b : ℕ} (hb : b < 2 ^ 32) :
    iBlock (setIBlock raw k0 b) = update (iBlock raw) k0 b := by
  funext k
  by_cases h : k = k0
  · subst h
    rw [update_self]
    exact (getLE_putLE_self _ _ _ _).trans (Nat.mod_eq_of_lt hb)
  · rw [update_of_ne h]
    exact getLE_putLE_of_disjoint (by omega)

end Aurora.Ext2
