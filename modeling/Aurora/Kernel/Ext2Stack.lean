import Aurora.Kernel.Ext2Create

/-!
# What `ext2_create` takes from the stack

With inodes of more than 128 bytes a creation goes wrong. `ext2_create` copies
`inode_size` bytes from a local `struct ext2_inode` of 128, and a lookup copies
`inode_size` bytes over the 128 bytes at the start of a `struct ext2_inode_info` after it
has set the inode number that follows them. So the number that a lookup of the new name
ends up with is what lay on the stack.

Whether the creation succeeds does not depend on that: two runs with different stacks
differ in the block with the new inode only, which nothing reads in between.

## Main definitions

* `SameBut`: two filesystems that differ in one block at most.
* `create_of_create`: success with one stack is success with every stack.
* `kept_iff`: the directory is kept in order, whatever is on the stack, exactly for
  inodes of up to 128 bytes.
-/

namespace Aurora.Ext2

variable {s1 : Sbi}

open Lib Function Option

variable {s s' : Sbi} {dirInfo dirInfo' : Bytes} {n ino : ℕ} {entries : ℕ → List DirEntry}
  {name : List UInt8} {mode : ℕ} {stack : Bytes}

/-! ## Whatever is on the stack -/

/-- The filesystems differ in block `blk` at most. -/
def SameBut (blk : ℕ) (s s' : Sbi) : Prop := ∃ buf, s' = s.writeBlock blk buf

variable {blk : ℕ}

section

variable (h : SameBut blk s s')

include h

lemma SameBut.kmalloc :
    (kmalloc s').1 = (kmalloc s).1 ∧ SameBut blk (kmalloc s).2 (kmalloc s').2 := by
  obtain ⟨buf, rfl⟩ := h
  exact ⟨rfl, buf, rfl⟩

lemma SameBut.writeBlock (b : ℕ) (x : Bytes) :
    SameBut blk (s.writeBlock b x) (s'.writeBlock b x) := by
  obtain ⟨buf, rfl⟩ := h
  by_cases hb : b = blk
  · exact ⟨x, by simp [Sbi.writeBlock, hb]⟩
  · exact ⟨buf, by simp [Sbi.writeBlock, update_comm hb]⟩

lemma SameBut.disk {b : ℕ} (hb : b ≠ blk) : s'.disk b = s.disk b := by
  obtain ⟨_, rfl⟩ := h
  exact update_of_ne hb _ _

lemma SameBut.markUsed {k : Kind} {g i : ℕ}
    (hbm : s.bitmapBlock k g ≠ blk) : SameBut blk (s.markUsed k g i) (s'.markUsed k g i) := by
  have hdisk := h.disk hbm
  obtain ⟨buf, rfl⟩ := h
  have hgd : SameBut blk
      { s with gd := putLE s.gd (32 * g + k.countOff) 2 (s.freeCount k g - 1) }
      { s.writeBlock blk buf with
        gd := putLE s.gd (32 * g + k.countOff) 2 (s.freeCount k g - 1) } := ⟨buf, rfl⟩
  have hbitmap := hgd.writeBlock (s.bitmapBlock k g) (setBit (s.disk (s.bitmapBlock k g)) i)
  have hwrite := hbitmap.writeBlock (s.geo.gdBlock g) fun j =>
    putLE s.gd (32 * g + k.countOff) 2 (s.freeCount k g - 1)
      (g * 32 / s.geo.blockSize * s.geo.blockSize + j)
  rw [← hdisk] at hwrite
  nth_rewrite 1 [hdisk] at hwrite
  exact hwrite

lemma SameBut.allocBit {k : Kind} {n : ℕ} (group : ℕ)
    (hbm : ∀ g < group + n, 0 < s.freeCount k g → s.bitmapBlock k g ≠ blk) :
    (allocBit k n group s').1 = (allocBit k n group s).1 ∧
      SameBut blk (allocBit k n group s).2 (allocBit k n group s').2 := by
  induction n generalizing group s s' with
  | zero => exact ⟨rfl, h⟩
  | succ n ih =>
    have hfields : s'.freeCount k group = s.freeCount k group ∧
        s'.bitmapBlock k group = s.bitmapBlock k group ∧ s'.geo = s.geo := by
      obtain ⟨_, rfl⟩ := h
      exact ⟨rfl, rfl, rfl⟩
    obtain ⟨hcount, hblk, hgeo⟩ := hfields
    obtain ⟨hmem, hnext⟩ := h.kmalloc
    rw [Ext2.allocBit, Ext2.allocBit, hcount, hblk, hgeo]
    by_cases hfree : s.freeCount k group > 0
    · have hne := hbm group (by omega) hfree
      rw [if_pos hfree, if_pos hfree]
      simp only [hmem]
      by_cases hnomem : (Ext2.kmalloc s).1 = false
      · simp only [hnomem, if_true]
        exact ⟨trivial, hnext⟩
      simp only [if_neg hnomem, h.disk hne]
      split
      next i _ => exact ⟨rfl, hnext.markUsed hne⟩
      next => exact ih hnext (group + 1) fun g hg => hbm g (by omega)
    · rw [if_neg hfree, if_neg hfree]
      exact ih h (group + 1) fun g hg => hbm g (by omega)

section

variable
  (hbm : ∀ g < s.geo.numGroups, 0 < s.freeCount s.geo.blocks g → s.bitmapBlock s.geo.blocks g ≠ blk)

include hbm

lemma SameBut.allocBlock : (ext2AllocBlock s').1 = (ext2AllocBlock s).1 ∧
      SameBut blk (ext2AllocBlock s).2 (ext2AllocBlock s').2 := by
  have hgeo : s'.geo = s.geo := by
    obtain ⟨_, rfl⟩ := h
    rfl
  obtain ⟨hbit, hsame⟩ := h.allocBit (k := s.geo.blocks) (n := s.geo.numGroups) 0
    (by simpa using hbm)
  simp only [ext2AllocBlock, hgeo, hbit]
  split
  next => exact ⟨rfl, hsame⟩
  next => exact ⟨rfl, hsame⟩

lemma SameBut.appendEntry {m : ℕ} {fileType : UInt8}
    (happend : appendEntry s dirInfo (m * s.geo.blockSize) ino fileType name
      = (true, dirInfo', s1)) :
    ∃ s1', appendEntry s' dirInfo (m * s.geo.blockSize) ino fileType name = (true, dirInfo', s1') ∧
      SameBut blk s1 s1' := by
  have hgeo : s'.geo = s.geo := by
    obtain ⟨_, rfl⟩ := h
    rfl
  obtain ⟨hb, hsame⟩ := h.allocBlock hbm
  simp only [Ext2.appendEntry, Nat.mul_mod_left, if_true, hgeo, hb] at happend ⊢
  split_ifs at happend ⊢ with hzero hidx
  all_goals simp only [Prod.mk.injEq, Bool.false_eq_true, false_and, true_and] at happend
  obtain ⟨rfl, rfl⟩ := happend
  exact ⟨_, rfl, hsame.writeBlock _ _⟩

lemma SameBut.addEntry (hsize : getLE dirInfo 4 4 = n * s.geo.blockSize)
    (htree : ∀ k < 12, iBlock dirInfo k ≠ 0 → iBlock dirInfo k ≠ blk) {fileType : UInt8}
    (hadd : addEntry s dirInfo ino fileType name = (true, dirInfo', s1)) :
    ∃ s1', addEntry s' dirInfo ino fileType name = (true, dirInfo', s1') ∧ SameBut blk s1 s1' := by
  have hgeo : s'.geo = s.geo := by
    obtain ⟨_, rfl⟩ := h
    rfl
  simp only [Ext2.addEntry, hgeo] at hadd ⊢
  split_ifs at hadd ⊢ with hlast
  · have hdisk := h.disk (htree _ hlast.2.1 hlast.2.2)
    rw [hdisk]
    split at hadd
    next off _ =>
      obtain ⟨rfl, rfl⟩ := hadd
      exact ⟨_, rfl, h.writeBlock _ _⟩
    next => exact h.appendEntry hbm hadd
  · rw [hsize] at hadd ⊢
    exact h.appendEntry hbm hadd

end

lemma SameBut.writeInode {raw : Bytes} {ret : ℤ}
    (hwrite : ext2WriteInodeRaw s ino raw = some (ret, s1)) :
    ∃ s1', ext2WriteInodeRaw s' ino raw = some (ret, s1') ∧ SameBut blk s1 s1' := by
  obtain ⟨hmem, hnext⟩ := h.kmalloc
  have hfields : s'.geo = s.geo ∧ s'.inodeBlock ino = s.inodeBlock ino := by
    obtain ⟨buf, rfl⟩ := h
    exact ⟨rfl, rfl⟩
  simp only [ext2WriteInodeRaw, hfields, hmem] at hwrite ⊢
  split_ifs at hwrite ⊢
  all_goals obtain ⟨rfl, rfl⟩ := Prod.ext_iff.1 (some.inj hwrite)
  iterate 3 exact ⟨_, rfl, h⟩
  · exact ⟨_, rfl, hnext⟩
  · -- the block of the inode is the one that may differ, or it is the same block
    refine ⟨_, rfl, ?_⟩
    by_cases hb : s.inodeBlock ino = blk
    · obtain ⟨buf, hnext'⟩ := hnext
      rw [hnext', hb]
      exact ⟨_, by simp only [Sbi.writeBlock, update_idem]; rfl⟩
    · rw [h.disk hb]
      exact hnext.writeBlock _ _

lemma SameBut.updateDir (hupdate : updateDir s dirInfo mode = some (dirInfo', s1)) :
    ∃ s1', updateDir s' dirInfo mode = some (dirInfo', s1') ∧ SameBut blk s1 s1' := by
  unfold Ext2.updateDir at hupdate ⊢
  split at hupdate
  next => cases hupdate
  next ret s2 hfirst =>
    obtain ⟨s2', hfirst', hsame⟩ := h.writeInode hfirst
    rw [hfirst']
    simp only at hupdate ⊢
    split_ifs at hupdate ⊢
    · split at hupdate
      next => cases hupdate
      next ret' s3 hsecond =>
        obtain ⟨s3', hsecond', hsame'⟩ := hsame.writeInode hsecond
        rw [hsecond']
        cases hupdate
        exact ⟨s3', rfl, hsame'⟩
    · cases hupdate
      exact ⟨s2', rfl, hsame⟩

lemma SameBut.readInodeRaw (ino : ℕ) (raw : Bytes) :
    (ext2ReadInodeRaw s' ino raw).1 = (ext2ReadInodeRaw s ino raw).1 ∧
      SameBut blk (ext2ReadInodeRaw s ino raw).2.2 (ext2ReadInodeRaw s' ino raw).2.2 := by
  obtain ⟨hmem, hnext⟩ := h.kmalloc
  have hgeo : s'.geo = s.geo := by
    obtain ⟨_, rfl⟩ := h
    rfl
  simp only [ext2ReadInodeRaw, hgeo, hmem]
  split_ifs
  all_goals first | exact ⟨rfl, h⟩ | exact ⟨rfl, hnext⟩

lemma SameBut.readInode {child : Bytes} (hread : (ext2ReadInode s ino).1 = some child) :
    ∃ child', (ext2ReadInode s' ino).1 = some child' := by
  obtain ⟨hmem, hnext⟩ := h.kmalloc
  obtain ⟨hret, hraw⟩ := hnext.readInodeRaw ino (newInfo ino)
  obtain ⟨hmem', -⟩ := hraw.kmalloc
  simp only [ext2ReadInode, hmem, hret, hmem'] at hread ⊢
  split_ifs at hread ⊢
  exact ⟨_, rfl⟩

end

/-- Other bytes to write make a difference in the block of the inode only. -/
lemma sameBut_writeInode {raw : Bytes} (raw' : Bytes)
    (hwrite : ext2WriteInodeRaw s ino raw = some (0, s1)) :
    ∃ s1', ext2WriteInodeRaw s ino raw' = some (0, s1') ∧ SameBut (s.inodeBlock ino) s1 s1' := by
  have hinval : -Errno.EINVAL.code ≠ 0 := by decide
  have hnomem : -Errno.ENOMEM.code ≠ 0 := by decide
  unfold ext2WriteInodeRaw at hwrite ⊢
  simp only at hwrite ⊢
  split_ifs at hwrite ⊢
  all_goals obtain ⟨hret, rfl⟩ := Prod.ext_iff.1 (some.inj hwrite)
  iterate 3 exact absurd hret hinval
  · exact absurd hret hnomem
  exact ⟨_, rfl, _, by simp only [Sbi.writeBlock, update_idem]; rfl⟩

lemma create_of_steps {s2 s3 s4 : Sbi} {dirInfo3 : Bytes}
    (h : Steps s dirInfo name mode stack dirInfo' s4 ino s1 s2 dirInfo3 s3) :
    ext2Create s dirInfo name mode stack
      = some ((ext2ReadInode s4 ino).1, dirInfo', (ext2ReadInode s4 ino).2) := by
  have hshort : ¬ name.length > 255 := by
    have := h.short
    omega
  simp only [ext2Create, if_neg hshort, h.alloc, if_neg h.ne_zero, h.write, lt_irrefl, if_false,
    h.memory, Bool.true_eq_false, h.add, h.update]

/-- **Whether the creation succeeds does not depend on what is on the stack.** -/
lemma create_of_create (hdir : Directory s dirInfo n entries) (hfs : DirFs s dirInfo)
    {child : Bytes} (h : ext2Create s dirInfo name mode stack = some (some child, dirInfo', s'))
    (stack' : Bytes) :
    ∃ child' dirInfo'' s'', ext2Create s dirInfo name mode stack'
      = some (some child', dirInfo'', s'') := by
  obtain ⟨ino, s1, s2, dirInfo3, _, _, hsteps, hread, -⟩ := steps_of_create h
  obtain ⟨honly, hreal, -, -⟩ := inodesOnly_allocInode hfs hsteps.alloc hsteps.ne_zero
  obtain ⟨honly2, -, -⟩ := inodesOnly_of_steps hfs hsteps.alloc hsteps.ne_zero hsteps.write
  have hblk : s1.inodeBlock ino = s.inodeBlock ino := by
    simp only [Sbi.inodeBlock, honly.geo, honly.tables]
  have hmeta := hfs.inodeMeta_inodeBlock hreal
  obtain ⟨s2', hwrite', hsame2⟩ := sameBut_writeInode (newRaw mode stack') hsteps.write
  obtain ⟨hmem, hsame⟩ := hsame2.kmalloc
  rw [hblk] at hsame
  have hbm : ∀ g < (kmalloc s2).2.geo.numGroups,
      0 < (kmalloc s2).2.freeCount (kmalloc s2).2.geo.blocks g →
      (kmalloc s2).2.bitmapBlock (kmalloc s2).2.geo.blocks g ≠ s.inodeBlock ino := by
    rw [honly2.geo]
    intro g hg hfree he
    rw [honly2.counts] at hfree
    rw [honly2.bitmaps] at he
    exact (hfs.inodeMetaUsed _ hmeta).2 ⟨g, (hfs.padding g hg hfree).1, .inl he.symm⟩
  have htree : ∀ k < 12, iBlock dirInfo k ≠ 0 → iBlock dirInfo k ≠ s.inodeBlock ino :=
    fun k hk hne he => hfs.inodeMetaApart k [] (valid_direct s.geo hk) hne
      (show s.InodeMeta (iBlock dirInfo k) from he ▸ hmeta)
  obtain ⟨s3', hadd', hsame3⟩ := hsame.addEntry hbm (by rw [honly2.geo]; exact hdir.size) htree
    hsteps.add
  obtain ⟨s4', hupdate', hsame4⟩ := hsame3.updateDir hsteps.update
  obtain ⟨child', hread'⟩ := hsame4.readInode hread
  have hsteps' : Steps s dirInfo name mode stack' dirInfo' s4' ino s1 s2' dirInfo3 s3' :=
    ⟨hsteps.short, hsteps.alloc, hsteps.ne_zero, hwrite', hmem.trans hsteps.memory, hadd', hupdate'⟩
  have hcreate := create_of_steps hsteps'
  rw [hread'] at hcreate
  exact ⟨child', _, _, hcreate⟩

/-! ## Inode sizes and creation -/

/-- **Exactly with inodes of up to 128 bytes a successful creation keeps the directory in
order, whatever is on the stack.** -/
theorem kept_iff (s : Sbi) (dirInfo : Bytes) (n : ℕ) (entries : ℕ → List DirEntry)
    (name : List UInt8) (mode : ℕ) (hdir : Directory s dirInfo n entries) (hfs : DirFs s dirInfo)
    (habsent : ∀ k < n, findName name (entries k) = none)
    (hsucceeds : ∃ stack child dirInfo' s',
      ext2Create s dirInfo name mode stack = some (some child, dirInfo', s')) :
    (∀ stack child dirInfo' s',
      ext2Create s dirInfo name mode stack = some (some child, dirInfo', s') →
        Kept s dirInfo name (ext2AllocInode s).1 s' dirInfo') ↔ s.geo.inodeSize ≤ 128 := by
  constructor
  · intro hkept
    by_contra hsize
    rw [not_le] at hsize
    -- a stack whose bytes are not the low byte of the new inode number
    obtain ⟨_, _, _, _, h0⟩ := hsucceeds
    obtain ⟨child, dirInfo', s', h⟩ := create_of_create hdir hfs h0
      fun _ => UInt8.ofNat ((ext2AllocInode s).1 + 1)
    have hcreated := created_of_create hdir hfs habsent h
    obtain ⟨_, _, hview, hnew, -⟩ := hcreated.view
    have hlookup := (hkept _ _ _ _ h).new
    rw [lookupResult_of_view hview, hnew, elim_some, some.injEq] at hlookup
    have hlow := childNum_of_large (by rwa [hcreated.geo]) hlookup
    rw [hcreated.geo, hcreated.byte hsize, UInt8.toNat_ofNat'] at hlow
    omega
  · intro hsize stack child dirInfo' s' h
    exact kept_of_small hdir hfs habsent hsize h

/-! ## A filesystem with a small directory -/

/-- The block of a directory with the entry `.`. -/
def dotBlock : Bytes := fun i => [2, 0, 0, 0, 0, 4, 1, 2, 46].getD i 0

/-- The directory, of one block, which is block 7; it is inode 2. -/
def dotInfo : Bytes := fun i => if i = 5 then 4 else if i = 40 then 7 else if i = 128 then 2 else 0

/-- One group of seven blocks from block 1 on, which are all used: the descriptors, the two bitmaps
and the inode table are in blocks 2 to 6. Of eight inodes the first two are used. -/
def fileFs (inodeSize : ℕ) : Sbi where
  geo := ⟨1024, inodeSize, 8, 8, 1, 1, 2, 8, 8, .inl rfl, by decide, by decide, by decide,
    by decide⟩
  gd i := if i = 0 then 3 else if i = 4 then 4 else if i = 8 then 5 else if i = 14 then 6 else 0
  disk blk i := if blk = 3 ∧ i = 0 then 255 else if blk = 4 ∧ i = 0 then 3
    else if blk = 7 then dotBlock i else 0
  mem _ := true

section

variable {sz blk : ℕ}

lemma fileFs_directory : Directory (fileFs sz) dotInfo 1 fun _ => [⟨2, 1024, 2, [46]⟩] where
  size := (by decide : getLE dotInfo 4 4 = 1 * 1024)
  there k hk := by
    obtain rfl := Nat.lt_one_iff.1 hk
    rw [dirBlock_direct (by decide)]
    decide
  tiled k hk := by
    obtain rfl := Nat.lt_one_iff.1 hk
    have hblock : iBlock dotInfo 0 = 7 := by decide
    have hdisk : (fileFs sz).disk 7 = dotBlock := by
      funext i
      simp [fileFs]
    rw [dirBlock_direct (by decide), hblock, hdisk]
    exact ⟨by decide, by decide, by decide, rfl⟩

/-- Block 7 is the only one that the directory has. -/
lemma ptr_dotInfo {s : Sbi} {k : ℕ} {js : List ℕ} (hv : Valid s.geo k js)
    (hne : ptr s dotInfo k js ≠ 0) : k = 0 ∧ js = [] ∧ ptr s dotInfo k js = 7 := by
  obtain ⟨hk, hlen, -⟩ := hv
  have hnull : ∀ k < 15, k ≠ 0 → iBlock dotInfo k = 0 := by decide
  by_cases h0 : k = 0
  · subst h0
    obtain rfl := List.length_eq_zero_iff.1 (Nat.le_zero.1 hlen)
    exact ⟨rfl, rfl, show iBlock dotInfo 0 = 7 by decide⟩
  · rw [ptr, hnull k hk h0, follow_zero] at hne
    exact absurd rfl hne

lemma fileFs_used (h1 : 1 ≤ blk) (h7 : blk ≤ 7) : (fileFs sz).Used blk := by
  have hgroup : (blk - 1) / 8 = 0 := by omega
  have hbits : ∀ i < 8, bitSet ((fileFs sz).disk 3) i = true := by
    have hdisk : (fileFs sz).disk 3 = fun i => if i = 0 then 255 else 0 := by
      funext i
      simp [fileFs]
    rw [hdisk]
    decide
  refine ⟨(by omega : blk < 8), h1, (by omega : (blk - 1) / 8 < 1), ?_⟩
  change bitSet ((fileFs sz).disk (getLE (fileFs sz).gd (32 * ((blk - 1) / 8) + 0) 4))
    ((blk - 1) % 8) = true
  rw [hgroup]
  exact hbits _ (Nat.mod_lt _ (by decide))

lemma fileFs_real {g : ℕ} (h : (fileFs sz).geo.Real g) : g = 0 := Nat.lt_one_iff.1 h.1

lemma fileFs_gdBlock : (fileFs sz).geo.gdBlock 0 = 2 := by
  simp [Geometry.gdBlock, fileFs]

lemma fileFs_meta (h : (fileFs sz).Meta blk) : blk = 3 ∨ blk = 2 := by
  obtain ⟨g, hg, hblk⟩ := h
  rwa [fileFs_real hg, fileFs_gdBlock] at hblk

lemma fileFs_inodeMeta (hsz : sz = 128 ∨ sz = 256) (h : (fileFs sz).InodeMeta blk) :
    4 ≤ blk ∧ blk ≤ 6 := by
  obtain ⟨g, hg, hblk⟩ := h
  rw [fileFs_real hg] at hblk
  rcases hblk with rfl | ⟨i, hi, rfl⟩
  · exact (by decide : 4 ≤ 4 ∧ 4 ≤ 6)
  · have hi' : i < 8 := hi
    rcases hsz with rfl | rfl
    · change 4 ≤ 5 + i / 8 ∧ 5 + i / 8 ≤ 6
      omega
    · change 4 ≤ 5 + i / 4 ∧ 5 + i / 4 ≤ 6
      omega

lemma fileFs_dirFs (hsz : sz = 128 ∨ sz = 256) : DirFs (fileFs sz) dotInfo where
  consistent := by
    refine ⟨fun k js hv => ?_, fun k js hv hne => ?_, fun k js k' js' hv hv' hne heq => ?_,
      fun blk hmeta => ?_, fun k js hv hne hmeta => ?_,
      fun g g' hg hg' _ => (fileFs_real hg).trans (fileFs_real hg').symm, fun g g' hg hg' => ?_⟩
    · by_cases hne : ptr (fileFs sz) dotInfo k js = 0
      · rw [hne]
        exact (by decide : 0 < 8)
      · rw [(ptr_dotInfo hv hne).2.2]
        exact (by decide : 7 < 8)
    · rw [(ptr_dotInfo hv hne).2.2]
      exact fileFs_used (by decide) (by decide)
    · obtain ⟨rfl, rfl, -⟩ := ptr_dotInfo hv hne
      obtain ⟨rfl, rfl, -⟩ := ptr_dotInfo hv' (heq ▸ hne)
      exact ⟨rfl, rfl⟩
    · rcases fileFs_meta hmeta with rfl | rfl <;> exact fileFs_used (by decide) (by decide)
    · rw [(ptr_dotInfo hv hne).2.2] at hmeta
      rcases fileFs_meta hmeta with h | h <;> cases h
    · rw [fileFs_real hg, fileFs_real hg', fileFs_gdBlock]
      exact (by decide : 3 ≠ 2)
  padding g hg hfree := by
    obtain rfl : g = 0 := Nat.lt_one_iff.1 hg
    exact absurd hfree (by decide : ¬ 0 < 0)
  inodePadding g hg _ := by
    obtain rfl : g = 0 := Nat.lt_one_iff.1 hg
    refine ⟨⟨Nat.zero_lt_one, (by decide : 0 * 8 + 1 < 8)⟩, fun i hi _ => ?_⟩
    have hlt : i < 8 := hi.trans_le (min_le_left _ _)
    change 0 * 8 + i + 1 ≤ 8
    omega
  inodeMetaUsed blk hmeta := by
    obtain ⟨h4, h6⟩ := fileFs_inodeMeta hsz hmeta
    refine ⟨fileFs_used (by omega) (by omega), fun hm => ?_⟩
    have := fileFs_meta hm
    omega
  inodeMetaApart k js hv hne hmeta := by
    rw [(ptr_dotInfo hv hne).2.2] at hmeta
    have := fileFs_inodeMeta hsz hmeta
    omega
  tablesApart g g' hg hg' _ _ _ _ _ := (fileFs_real hg).trans (fileFs_real hg').symm
  dirInode := ⟨by decide, (by decide : inodeNum dotInfo ≤ 8),
    (by decide : (inodeNum dotInfo - 1) / 8 < 1)⟩
  dirGroup := ⟨(by decide : (inodeNum dotInfo - 1) / 8 < 1),
    (by decide : (inodeNum dotInfo - 1) / 8 * 8 + 1 < 8)⟩
  dirUsed := by rcases hsz with rfl | rfl <;> decide

end

/-- A file in a directory of a filesystem with inodes of 128 bytes. -/
theorem kept_fileFs : ∃ child dirInfo' s',
    ext2Create (fileFs 128) dotInfo [97] 0x8000 (fun _ => 255)
      = some (some child, dirInfo', s') ∧
    Kept (fileFs 128) dotInfo [97] (ext2AllocInode (fileFs 128)).1 s' dirInfo' := by
  obtain ⟨child, dirInfo', s', hcreate⟩ : ∃ child dirInfo' s',
      ext2Create (fileFs 128) dotInfo [97] 0x8000 (fun _ => 255)
        = some (some child, dirInfo', s') := ⟨_, _, _, rfl⟩
  have hkept := (kept_iff (fileFs 128) dotInfo 1 (fun _ => [⟨2, 1024, 2, [46]⟩]) [97] 0x8000
    fileFs_directory (fileFs_dirFs (.inl rfl)) (by decide) ⟨_, _, _, _, hcreate⟩).2
      (le_refl 128)
  exact ⟨child, dirInfo', s', hcreate, hkept _ _ _ _ hcreate⟩

/-- With inodes of 256 bytes and a stack of ones the new name leads to inode
`0xFFFFFFFF`. -/
theorem not_kept_fileFs :
    Directory (fileFs 256) dotInfo 1 (fun _ => [⟨2, 1024, 2, [46]⟩]) ∧ DirFs (fileFs 256) dotInfo ∧
      ∃ child dirInfo' s',
        ext2Create (fileFs 256) dotInfo [97] 0x8000 (fun _ => 255)
          = some (some child, dirInfo', s') ∧
        lookupResult s' dirInfo' [97] = some (.ok 0xFFFFFFFF) ∧
        ¬ Kept (fileFs 256) dotInfo [97] (ext2AllocInode (fileFs 256)).1 s' dirInfo' := by
  have hlookup : ((ext2Create (fileFs 256) dotInfo [97] 0x8000 fun _ => 255).map
      fun r => lookupResult r.2.2 r.2.1 [97]) = some (some (.ok 0xFFFFFFFF)) := by
    decide +kernel
  obtain ⟨child, dirInfo', s', hcreate⟩ : ∃ child dirInfo' s',
      ext2Create (fileFs 256) dotInfo [97] 0x8000 (fun _ => 255)
        = some (some child, dirInfo', s') := ⟨_, _, _, rfl⟩
  rw [hcreate, map_some, some.injEq] at hlookup
  refine ⟨fileFs_directory, fileFs_dirFs (.inr rfl), child, dirInfo', s', hcreate, hlookup,
    fun hkept => ?_⟩
  have hnew := hkept.new
  have hino : (ext2AllocInode (fileFs 256)).1 = 3 := rfl
  rw [hlookup, hino] at hnew
  exact absurd hnew (by decide)

end Aurora.Ext2
