import Aurora.Kernel.Ext2Entries
import Aurora.Kernel.Ext2Alloc

/-!
# Lookup in an ext2 directory

A directory of at most twelve blocks, each of them tiled, is a list of entries, and
`ext2_dir_lookup` opens the inode of the first live entry with the name. Which inode
number the new `struct ext2_inode_info` then holds depends on the size of an inode: only
one of up to 128 bytes leaves the number alone.

## Main definitions

* `DirView`: the entries of a directory of direct blocks.
* `lookupResult`: what a lookup answers, with enough memory.
* `lookupResult_of_view`: it is found in the list of entries.
-/

namespace Aurora.Ext2

open Lib List

/-- The directory has `n` blocks, all of them direct, and block `k` is tiled by
`entries k`. -/
structure DirView (s : Sbi) (dirInfo : Bytes) (n : ℕ) (entries : ℕ → List DirEntry) : Prop where
  few : n ≤ 12
  size : getLE dirInfo 4 4 = n * s.geo.blockSize
  ne_zero : ∀ k < n, iBlock dirInfo k ≠ 0
  inRange : ∀ k < n, iBlock dirInfo k < s.geo.blocksCount
  tiled : ∀ k < n, Tiled s.geo.blockSize (s.disk (iBlock dirInfo k)) 0 (entries k)

/-- The entries of a directory, one block after the other. -/
def allEntries (n : ℕ) (entries : ℕ → List DirEntry) : List DirEntry :=
  (range' 0 n).flatMap entries

/-- What a lookup answers if memory does not run out: the error, or the inode number of
the inode that has been opened. -/
def lookupResult (s : Sbi) (dirInfo : Bytes) (name : List UInt8) : Option (Except Errno ℕ) :=
  (ext2DirLookup { s with mem := fun _ => true } dirInfo name).map fun r => r.1.map inodeNum

variable {s s' : Sbi} {dirInfo : Bytes} {n : ℕ} {entries : ℕ → List DirEntry}

lemma blockSize_pos (g : Geometry) : 0 < g.blockSize := by
  rcases g.blockSize_mem with h | h | h <;> omega

/-! ## The loops -/

lemma ext2ReadDataBlock_of_view (h : DirView s dirInfo n entries) {k : ℕ} (hk : k < n)
    (buf : Bytes) :
    ext2ReadDataBlock s dirInfo k buf = ((0, s.disk (iBlock dirInfo k)), s) := by
  have hdirect : k < 12 := hk.trans_le h.few
  rw [ext2ReadDataBlock, readTarget]
  simp only [if_pos hdirect, walk, if_neg (h.ne_zero k hk), if_neg (not_le.2 (h.inRange k hk))]

/-- The loop over the blocks from `k` on finds the first live entry with the name. -/
lemma lookupLoop_of_view (h : DirView s dirInfo n entries) (name : List UInt8) {k m fuel : ℕ}
    (hm : k + m = n) (hfuel : m < fuel) (buf : Bytes) :
    lookupLoop dirInfo name fuel (k * s.geo.blockSize) buf s
      = some ((findName name ((range' k m).flatMap entries)).elim (.error .ENOENT) .ok, s) := by
  have hbs := blockSize_pos s.geo
  induction m generalizing k fuel buf with
  | zero =>
    obtain ⟨fuel, rfl⟩ := Nat.exists_eq_add_of_lt hfuel
    rw [Nat.add_zero] at hm
    rw [lookupLoop, h.size, hm, if_neg (lt_irrefl _)]
    rfl
  | succ m ih =>
    obtain ⟨fuel, rfl⟩ : ∃ f, fuel = f + 1 := ⟨fuel - 1, by omega⟩
    have hk : k < n := by omega
    have hoff : k * s.geo.blockSize + s.geo.blockSize ≤ n * s.geo.blockSize := by
      rw [← Nat.succ_mul]
      exact Nat.mul_le_mul_right _ hk
    have htiled := h.tiled k hk
    have hlen : (entries k).length < s.geo.blockSize + 1 := by
      have := htiled.length_le
      omega
    have hin : k * s.geo.blockSize + (s.geo.blockSize - 0) ≤ n * s.geo.blockSize := hoff
    have hscan := scanBlock_of_tiled name htiled hlen hin
    rw [lookupLoop, h.size]
    simp only [if_pos (by omega : k * s.geo.blockSize < n * s.geo.blockSize),
      Nat.mul_div_cancel k hbs, Nat.mul_mod_left, ext2ReadDataBlock_of_view h hk buf,
      lt_irrefl, if_false, hscan, range'_succ, flatMap_cons, findName_append]
    cases hfind : findName name (entries k) with
    | some _ => rfl
    | none =>
      have hrest := ih (by omega : k + 1 + m = n) (by omega : m < fuel) (s.disk (iBlock dirInfo k))
      rw [Nat.succ_mul] at hrest
      simpa using hrest

/-! ## Opening the inode -/

lemma inodeNum_newInfo {ino : ℕ} (hino : ino < 2 ^ 32) : inodeNum (newInfo ino) = ino := by
  rw [inodeNum, newInfo, getLE_putLE_self, Nat.mod_eq_of_lt (by simpa using hino)]

/-- The inode table has an inode of this number. -/
def Geometry.HasInode (g : Geometry) (ino : ℕ) : Prop :=
  ino ≠ 0 ∧ ino ≤ g.inodesCount ∧ g.inodeGroup ino < g.numGroups

/-- The size of an inode is one that the driver can work with. -/
def Geometry.InodeFits (g : Geometry) : Prop := g.inodeSize ≠ 0 ∧ g.inodeSize ≤ g.blockSize

instance (g : Geometry) (ino : ℕ) : Decidable (g.HasInode ino) := by
  unfold Geometry.HasInode
  infer_instance

instance (g : Geometry) : Decidable g.InodeFits := by
  unfold Geometry.InodeFits
  infer_instance

/-- With enough memory an inode is read if it is there. -/
lemma ext2ReadInodeRaw_of_ready (hready : Ready s) (ino : ℕ) (raw : Bytes) :
    (s.geo.HasInode ino ∧ s.geo.InodeFits ∧ ∃ s', Ready s' ∧
      ext2ReadInodeRaw s ino raw = (0, blit raw 0
        (slice (s.disk (s.inodeBlock ino)) (s.geo.inodeOffset ino) s.geo.inodeSize), s')) ∨
    (¬ (s.geo.HasInode ino ∧ s.geo.InodeFits) ∧ (ext2ReadInodeRaw s ino raw).1 < 0) := by
  have hneg : -Errno.EINVAL.code < 0 := by decide
  unfold ext2ReadInodeRaw Geometry.HasInode Geometry.InodeFits
  simp only [hready.ok, Bool.true_eq_false, if_false]
  split_ifs with h0 hcount hsize hgroup
  · exact .inr ⟨fun h => h.1.1 h0, hneg⟩
  · exact .inr ⟨fun h => absurd h.1.2.1 (by omega), hneg⟩
  · exact .inr ⟨fun h => hsize.elim h.2.1 (not_lt.2 h.2.2), hneg⟩
  · exact .inr ⟨fun h => absurd h.1.2.2 (by omega), hneg⟩
  · rw [not_or, not_lt] at hsize
    exact .inl ⟨⟨h0, by omega, by omega⟩, hsize, _, hready.next, rfl⟩

/-- The inode number that the inode of an entry comes out with. -/
def childNum (s : Sbi) (ino : ℕ) : Except Errno ℕ :=
  if ino = 0 ∨ ino > s.geo.inodesCount then .error .ENOENT
  else if s.geo.HasInode ino ∧ s.geo.InodeFits then
    .ok (inodeNum (blit (newInfo ino) 0
      (slice (s.disk (s.inodeBlock ino)) (s.geo.inodeOffset ino) s.geo.inodeSize)))
  else .error Errno.EIO

lemma openChild_of_ready (hready : Ready s) (ino : ℕ) :
    (openChild s ino).1.map inodeNum = childNum s ino := by
  unfold openChild childNum
  by_cases hno : ino = 0 ∨ ino > s.geo.inodesCount
  · rw [if_pos hno, if_pos hno]
    rfl
  rw [if_neg hno, if_neg hno]
  simp only [hready.ok, Bool.true_eq_false, if_false]
  rcases ext2ReadInodeRaw_of_ready hready.next ino (newInfo ino) with
    ⟨hhas, hfits, s1, hready1, heq⟩ | ⟨hnot, hneg⟩
  · have hread : s.geo.HasInode ino ∧ s.geo.InodeFits := ⟨hhas, hfits⟩
    simp only [if_pos hread, heq, lt_irrefl, if_false, hready1.ok, hready1.next.ok,
      Bool.true_eq_false]
    rfl
  · have hnot' : ¬ (s.geo.HasInode ino ∧ s.geo.InodeFits) := hnot
    simp only [if_neg hnot', if_pos hneg]
    rfl

/-- **A lookup opens the inode of the first live entry with the name.** -/
lemma lookupResult_of_view (h : DirView s dirInfo n entries) (name : List UInt8) :
    lookupResult s dirInfo name
      = some ((findName name (allEntries n entries)).elim (.error .ENOENT) (childNum s)) := by
  have hready : Ready { s with mem := fun _ => true } := fun _ => rfl
  have hview : DirView (kmalloc { s with mem := fun _ => true }).2 dirInfo n entries :=
    ⟨h.few, h.size, h.ne_zero, h.inRange, h.tiled⟩
  have hfuel : n < getLE dirInfo 4 4 + 1 := by
    have := Nat.le_mul_of_pos_right n (blockSize_pos s.geo)
    rw [h.size]
    omega
  have hloop := lookupLoop_of_view hview name (Nat.zero_add n) hfuel fun _ => 0
  rw [Nat.zero_mul] at hloop
  simp only [lookupResult, ext2DirLookup, hready.ok, Bool.true_eq_false, if_false, hloop]
  unfold allEntries
  cases findName name ((range' 0 n).flatMap entries) with
  | none => rfl
  | some ino =>
    have hopen := openChild_of_ready hready.next ino
    exact congrArg some hopen

/-! ## Inode sizes -/

/-- An inode of up to 128 bytes leaves the inode number alone. -/
lemma childNum_of_small (hsize : s.geo.inodeSize ≤ 128) (ino : ℕ) :
    childNum s ino = if ino = 0 ∨ ino > s.geo.inodesCount then .error .ENOENT
      else if s.geo.HasInode ino ∧ s.geo.InodeFits then .ok ino else .error Errno.EIO := by
  unfold childNum
  split_ifs with hno hread
  · rfl
  · have hino : ino < 2 ^ 32 := hread.1.2.1.trans_lt s.geo.inodesCount_lt
    have hkept : inodeNum (blit (newInfo ino) 0
        (slice (s.disk (s.inodeBlock ino)) (s.geo.inodeOffset ino) s.geo.inodeSize))
        = inodeNum (newInfo ino) :=
      getLE_congr fun i _ => blit_of_ge (by rw [length_slice]; omega)
    rw [hkept, inodeNum_newInfo hino]
  · rfl

/-- A larger one brings at least the low byte of the number from the disk. -/
lemma childNum_of_large (hsize : 128 < s.geo.inodeSize) {ino num : ℕ}
    (h : childNum s ino = .ok num) :
    num % 256 = (s.disk (s.inodeBlock ino) (s.geo.inodeOffset ino + 128)).toNat := by
  unfold childNum at h
  split_ifs at h with hno hread
  obtain rfl := Except.ok.inj h
  rw [inodeNum, getLE_mod]
  congr 1
  simp [blit, slice, hsize]

end Aurora.Ext2
