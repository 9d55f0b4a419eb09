import Aurora.Kernel.Ext2Insert

/-!
# Creating a file in an ext2 directory

`ext2_create` takes an inode, writes it, puts its entry into the directory and writes
the inode of the directory. With inodes of up to 128 bytes the directory stays tiled,
the new name leads to the new inode and every other name to where it led.

## Main definitions

* `Directory`, `DirFs`: a tiled directory, and a filesystem whose bitmaps are right.
* `Kept`: what a successful creation has to give.
* `created_of_create`: the list of entries and the new inode after a creation.
* `kept_of_small`: with small inodes it gives what it has to.
-/

namespace Aurora.Ext2

open Lib Function Option

/-! ## The directory and the filesystem -/

/-- The block of the directory at a position. -/
def dirBlock (s : Sbi) (dirInfo : Bytes) (k : ℕ) : ℕ :=
  ptr s dirInfo (levels s.geo.ptrsPerBlock k).1 (levels s.geo.ptrsPerBlock k).2

/-- A directory of `n` blocks; block `k` is tiled by `entries k`. -/
structure Directory (s : Sbi) (dirInfo : Bytes) (n : ℕ) (entries : ℕ → List DirEntry) : Prop where
  size : getLE dirInfo 4 4 = n * s.geo.blockSize
  there : ∀ k < n, dirBlock s dirInfo k ≠ 0
  tiled : ∀ k < n, Tiled s.geo.blockSize (s.disk (dirBlock s dirInfo k)) 0 (entries k)

/-- The block is an inode bitmap or belongs to an inode table. -/
def Sbi.InodeMeta (s : Sbi) (blk : ℕ) : Prop :=
  ∃ group, s.geo.Real group ∧ (blk = s.bitmapBlock s.geo.inodes group ∨
    ∃ i < s.geo.inodesPerGroup, blk = s.inodeTable group + i / s.geo.inodesPerBlock)

/-- The bitmaps have a set bit for what is in use and for the padding, and no block has
two uses, as far as the directory is concerned. -/
structure DirFs (s : Sbi) (dirInfo : Bytes) : Prop where
  consistent : Consistent s dirInfo
  padding : PaddingSet s
  inodePadding : ∀ g < s.geo.numGroups, 0 < s.freeCount s.geo.inodes g → s.geo.Real g ∧
    ∀ i < s.geo.scanned s.geo.inodes,
      bitSet (s.disk (s.bitmapBlock s.geo.inodes g)) i = false →
      g * s.geo.inodesPerGroup + i + 1 ≤ s.geo.inodesCount
  inodeMetaUsed : ∀ blk, s.InodeMeta blk → s.Used blk ∧ ¬ s.Meta blk
  inodeMetaApart : ∀ k js, Valid s.geo k js → ptr s dirInfo k js ≠ 0 →
    ¬ s.InodeMeta (ptr s dirInfo k js)
  tablesApart : ∀ g g', s.geo.Real g → s.geo.Real g' →
    ∀ i < s.geo.inodesPerGroup, ∀ i' < s.geo.inodesPerGroup,
      s.inodeTable g + i / s.geo.inodesPerBlock = s.inodeTable g' + i' / s.geo.inodesPerBlock →
      g = g'
  dirInode : s.geo.HasInode (inodeNum dirInfo)
  dirGroup : s.geo.Real (s.geo.inodeGroup (inodeNum dirInfo))
  dirUsed : bitSet (s.disk (s.bitmapBlock s.geo.inodes (s.geo.inodeGroup (inodeNum dirInfo))))
    (s.geo.inodeIndex (inodeNum dirInfo)) = true

/-- What the creation of a file has to give: a tiled directory in which the new name
leads to the new inode, and every other name to where it led. -/
structure Kept (s : Sbi) (dirInfo : Bytes) (name : List UInt8) (ino : ℕ) (s' : Sbi)
    (dirInfo' : Bytes) : Prop where
  tiled : ∃ n entries, Directory s' dirInfo' n entries
  new : lookupResult s' dirInfo' name = some (.ok ino)
  others : ∀ name', name' ≠ name → lookupResult s' dirInfo' name' = lookupResult s dirInfo name'

variable {s s' : Sbi} {dirInfo dirInfo' : Bytes} {n ino : ℕ} {entries : ℕ → List DirEntry}
  {name : List UInt8} {mode : ℕ} {stack : Bytes}

variable {k : ℕ}

lemma dirBlock_direct (hk : k < 12) : dirBlock s dirInfo k = iBlock dirInfo k := by
  simp [dirBlock, levels, hk, ptr, follow]

lemma valid_direct (g : Geometry) (hk : k < 12) : Valid g k [] :=
  ⟨by omega, Nat.zero_le _, by simp⟩

lemma Directory.view (h : Directory s dirInfo n entries) (hcons : Consistent s dirInfo)
    (hn : n ≤ 12) : DirView s dirInfo n entries := by
  have hdirect : ∀ k < n, dirBlock s dirInfo k = iBlock dirInfo k := fun k hk =>
    dirBlock_direct (by omega)
  refine ⟨hn, h.size, fun k hk => ?_, fun k hk => ?_, fun k hk => ?_⟩
  · rw [← hdirect k hk]
    exact h.there k hk
  · exact hcons.inRange k [] (valid_direct s.geo (by omega))
  · rw [← hdirect k hk]
    exact h.tiled k hk

lemma DirView.directory (h : DirView s dirInfo n entries) : Directory s dirInfo n entries := by
  have hfew := h.few
  have hdirect : ∀ k < n, dirBlock s dirInfo k = iBlock dirInfo k := fun k hk =>
    dirBlock_direct (by omega)
  refine ⟨h.size, fun k hk => ?_, fun k hk => ?_⟩
  · rw [hdirect k hk]
    exact h.ne_zero k hk
  · rw [hdirect k hk]
    exact h.tiled k hk

/-! ## Writing inodes -/

/-- Only the place of one inode in the table has been written. -/
structure SlotOnly (s : Sbi) (ino : ℕ) (s' : Sbi) : Prop where
  geo : s'.geo = s.geo
  gd : s'.gd = s.gd
  disk : ∀ blk i, (blk ≠ s.inodeBlock ino ∨ i < s.geo.inodeOffset ino ∨
    s.geo.inodeOffset ino + s.geo.inodeSize ≤ i) → s'.disk blk i = s.disk blk i

lemma SlotOnly.inodeBlock (h : SlotOnly s ino s') (i : ℕ) : s'.inodeBlock i = s.inodeBlock i := by
  simp only [Sbi.inodeBlock, Sbi.inodeTable, h.geo, h.gd]

lemma SlotOnly.trans {s'' : Sbi} (h : SlotOnly s ino s') (h' : SlotOnly s' ino s'') :
    SlotOnly s ino s'' := by
  refine ⟨h'.geo.trans h.geo, h'.gd.trans h.gd, fun blk i hi => ?_⟩
  rw [h'.disk blk i (by rwa [h.inodeBlock, h.geo]), h.disk blk i hi]

lemma SlotOnly.disk_of_ne (h : SlotOnly s ino s') {blk : ℕ} (hne : blk ≠ s.inodeBlock ino) :
    s'.disk blk = s.disk blk :=
  funext fun i => h.disk blk i (.inl hne)

lemma SameFs.slotOnly (h : SameFs s s') (ino : ℕ) : SlotOnly s ino s' := by
  obtain ⟨_, rfl⟩ := h
  exact ⟨rfl, rfl, fun _ _ _ => rfl⟩

variable {raw : Bytes}

/-- A write that comes back has written the place of the inode, or nothing. -/
lemma writeInode_cases {ret : ℤ} (h : ext2WriteInodeRaw s ino raw = some (ret, s')) :
    (ret < 0 ∧ SameFs s s') ∨ (ret = 0 ∧ s.geo.HasInode ino ∧ s.geo.InodeFits ∧
      ∃ mem, s' = Sbi.writeBlock { s with mem := mem } (s.inodeBlock ino)
        (blit (s.disk (s.inodeBlock ino)) (s.geo.inodeOffset ino)
          (slice raw 0 s.geo.inodeSize))) := by
  have hinval : -Errno.EINVAL.code < 0 := by decide
  unfold ext2WriteInodeRaw at h
  split at h
  next =>
    cases h
    exact .inl ⟨hinval, SameFs.refl _⟩
  next h0 =>
    split at h
    next =>
      cases h
      exact .inl ⟨hinval, SameFs.refl _⟩
    next hcount =>
      split at h
      next =>
        cases h
        exact .inl ⟨hinval, SameFs.refl _⟩
      next hgroup =>
        split at h
        next => cases h
        next hsize =>
          simp only at h
          split at h
          next =>
            cases h
            exact .inl ⟨by decide, sameFs_kmalloc s⟩
          next =>
            cases h
            rw [not_or, not_lt] at hsize
            exact .inr ⟨rfl, ⟨h0, by omega, by omega⟩, hsize, _, rfl⟩

lemma slotOnly_writeInode {ret : ℤ} (h : ext2WriteInodeRaw s ino raw = some (ret, s')) :
    SlotOnly s ino s' := by
  rcases writeInode_cases h with ⟨-, hsame⟩ | ⟨-, -, -, _, rfl⟩
  · exact hsame.slotOnly ino
  · refine ⟨rfl, rfl, fun blk i hi => ?_⟩
    rw [writeBlock_disk]
    by_cases hblk : blk = s.inodeBlock ino
    · subst hblk
      rw [update_self]
      rcases hi with hne | hlt | hge
      · exact absurd rfl hne
      · exact blit_of_lt hlt
      · exact blit_of_ge (by rwa [length_slice])
    · simp [hblk]

/-- Writing the inode of the directory leaves the fields that a lookup reads alone. -/
lemma updateDir_spec (h : updateDir s dirInfo mode = some (dirInfo', s')) :
    SlotOnly s (inodeNum dirInfo) s' ∧ (∀ k, iBlock dirInfo' k = iBlock dirInfo k) ∧
      getLE dirInfo' 4 4 = getLE dirInfo 4 4 := by
  unfold updateDir at h
  split at h
  next => cases h
  next ret s₁ hfirst =>
    have hslot := slotOnly_writeInode hfirst
    split at h
    next =>
      simp only at h
      split at h
      next => cases h
      next ret2 s₂ hsecond =>
        cases h
        exact ⟨hslot.trans (slotOnly_writeInode hsecond),
          fun k => iBlock_putLE (by decide) k, getLE_putLE_of_disjoint (by decide)⟩
    next =>
      cases h
      exact ⟨hslot, fun _ => rfl, rfl⟩

/-! ## The new inode -/

lemma inodeGroup_of_index {g : Geometry} (group : ℕ) {i : ℕ} (hi : i < g.inodesPerGroup) :
    g.inodeGroup (group * g.inodesPerGroup + i + 1) = group ∧
      g.inodeIndex (group * g.inodesPerGroup + i + 1) = i := by
  rw [Geometry.inodeGroup, Geometry.inodeIndex, Nat.add_sub_cancel, Nat.mul_comm,
    Nat.mul_add_div g.inodesPerGroup_pos, Nat.div_eq_of_lt hi, Nat.mul_add_mod,
    Nat.mod_eq_of_lt hi]
  exact ⟨Nat.add_zero _, rfl⟩

lemma Geometry.inodeIndex_lt (g : Geometry) (ino : ℕ) : g.inodeIndex ino < g.inodesPerGroup :=
  Nat.mod_lt _ g.inodesPerGroup_pos

/-- The block of an inode of a real group is one of its inode table. -/
lemma DirFs.inodeBlock_eq (hfs : DirFs s dirInfo) (hreal : s.geo.Real (s.geo.inodeGroup ino)) :
    s.inodeBlock ino = s.inodeTable (s.geo.inodeGroup ino)
      + s.geo.inodeIndex ino / s.geo.inodesPerBlock := by
  have hused := (hfs.inodeMetaUsed _ ⟨_, hreal, .inr ⟨_, s.geo.inodeIndex_lt ino, rfl⟩⟩).1.1
  exact Nat.mod_eq_of_lt (hused.trans s.geo.blocksCount_lt)

lemma DirFs.inodeMeta_inodeBlock (hfs : DirFs s dirInfo)
    (hreal : s.geo.Real (s.geo.inodeGroup ino)) : s.InodeMeta (s.inodeBlock ino) :=
  ⟨_, hreal, .inr ⟨_, s.geo.inodeIndex_lt ino, hfs.inodeBlock_eq hreal⟩⟩

/-- Inodes of up to the end of a block do not overlap. -/
lemma DirFs.slots_apart (hfs : DirFs s dirInfo) {ino' : ℕ} (hne : ino ≠ ino') (h0 : ino ≠ 0)
    (h0' : ino' ≠ 0) (hreal : s.geo.Real (s.geo.inodeGroup ino))
    (hreal' : s.geo.Real (s.geo.inodeGroup ino')) (hblk : s.inodeBlock ino = s.inodeBlock ino') :
    s.geo.inodeOffset ino + s.geo.inodeSize ≤ s.geo.inodeOffset ino' ∨
      s.geo.inodeOffset ino' + s.geo.inodeSize ≤ s.geo.inodeOffset ino := by
  rw [hfs.inodeBlock_eq hreal, hfs.inodeBlock_eq hreal'] at hblk
  have hgroup := hfs.tablesApart _ _ hreal hreal' _ (s.geo.inodeIndex_lt ino) _
    (s.geo.inodeIndex_lt ino') hblk
  rw [hgroup, Nat.add_left_cancel_iff] at hblk
  -- same group and same block of the table, so another place in the block
  have hindex : s.geo.inodeIndex ino ≠ s.geo.inodeIndex ino' := by
    intro he
    have h1 := Nat.div_add_mod (ino - 1) s.geo.inodesPerGroup
    have h2 := Nat.div_add_mod (ino' - 1) s.geo.inodesPerGroup
    unfold Geometry.inodeGroup at hgroup
    unfold Geometry.inodeIndex at he
    rw [hgroup, he, h2] at h1
    omega
  have hplace : s.geo.inodeIndex ino % s.geo.inodesPerBlock
      ≠ s.geo.inodeIndex ino' % s.geo.inodesPerBlock := by
    intro he
    have h1 := Nat.div_add_mod (s.geo.inodeIndex ino) s.geo.inodesPerBlock
    have h2 := Nat.div_add_mod (s.geo.inodeIndex ino') s.geo.inodesPerBlock
    rw [hblk, he, h2] at h1
    exact hindex h1.symm
  unfold Geometry.inodeOffset
  rcases Nat.lt_or_gt_of_ne hplace with hlt | hlt
  · left
    rw [← Nat.succ_mul]
    exact Nat.mul_le_mul_right _ hlt
  · right
    rw [← Nat.succ_mul]
    exact Nat.mul_le_mul_right _ hlt

/-- Nothing has happened to the bitmaps of blocks and to the blocks of the directory: only
blocks with inodes and with descriptors have been written. -/
structure InodesOnly (s s' : Sbi) : Prop where
  geo : s'.geo = s.geo
  bitmaps : ∀ g, s'.bitmapBlock s.geo.blocks g = s.bitmapBlock s.geo.blocks g
  counts : ∀ g, s'.freeCount s.geo.blocks g = s.freeCount s.geo.blocks g
  tables : ∀ g, s'.inodeTable g = s.inodeTable g
  disk : ∀ blk, ¬ s.InodeMeta blk → (∀ g, s.geo.Real g → blk ≠ s.geo.gdBlock g) →
    s'.disk blk = s.disk blk

/-- What `ext2_alloc_inode` returns is an inode that was free. -/
lemma inodesOnly_allocInode (hfs : DirFs s dirInfo) (halloc : ext2AllocInode s = (ino, s'))
    (hne : ino ≠ 0) :
    InodesOnly s s' ∧ s.geo.Real (s.geo.inodeGroup ino) ∧ s.geo.HasInode ino ∧
      bitSet (s.disk (s.bitmapBlock s.geo.inodes (s.geo.inodeGroup ino)))
        (s.geo.inodeIndex ino) = false := by
  unfold ext2AllocInode at halloc
  rcases allocBit_cases s.geo.inodes s.geo.numGroups 0 s with ⟨hnone, -⟩ |
    ⟨g, i, _, ⟨mem, rfl⟩, hsome, heq, hlt, hi, hfree, hclear⟩
  · simp only [hnone] at halloc
    exact absurd (Prod.ext_iff.1 halloc).1.symm hne
  · simp only [hsome, heq] at halloc
    rw [Nat.zero_add] at hlt
    obtain ⟨hreal, hrange⟩ := hfs.inodePadding g hlt hfree
    have hcount := hrange i hi hclear
    have hmax := s.geo.inodesCount_lt
    rw [Nat.mod_eq_of_lt (by omega)] at halloc
    obtain ⟨rfl, rfl⟩ := Prod.ext_iff.1 halloc
    have hper : i < s.geo.inodesPerGroup := hi.trans_le (min_le_left _ _)
    obtain ⟨hgroup, hindex⟩ := inodeGroup_of_index (g := s.geo) g hper
    rw [hgroup, hindex]
    refine ⟨⟨rfl, fun g' => ?_, fun g' => ?_, fun g' => ?_, fun blk hmeta hgd => ?_⟩, hreal,
      ⟨hne, hcount, by rwa [hgroup]⟩, hclear⟩
    · refine markUsed_getLE ?_
      simp only [Geometry.blocks, Geometry.inodes]
      omega
    · refine markUsed_getLE ?_
      simp only [Geometry.blocks, Geometry.inodes]
      omega
    · refine markUsed_getLE ?_
      simp only [Geometry.inodes]
      omega
    · exact markUsed_disk_of_ne (fun h => hmeta ⟨g, hreal, .inl h⟩) (hgd g hreal)

/-- The place of an inode in the table is behind the inode bitmaps and the descriptors. -/
lemma InodesOnly.slotOnly {s₁ s₂ : Sbi} (h : InodesOnly s s₁) (hslot : SlotOnly s₁ ino s₂)
    (hmeta : s.InodeMeta (s.inodeBlock ino)) : InodesOnly s s₂ := by
  have hblk : s₁.inodeBlock ino = s.inodeBlock ino := by
    simp only [Sbi.inodeBlock, h.geo, h.tables]
  refine ⟨hslot.geo.trans h.geo, fun g => ?_, fun g => ?_, fun g => ?_, fun blk hnot hgd => ?_⟩
  · rw [← h.bitmaps, Sbi.bitmapBlock, hslot.gd, Sbi.bitmapBlock]
  · rw [← h.counts, Sbi.freeCount, hslot.gd, Sbi.freeCount]
  · rw [← h.tables, Sbi.inodeTable, hslot.gd, Sbi.inodeTable]
  · have hne : blk ≠ s₁.inodeBlock ino := fun he => hnot (by rwa [he, hblk])
    rw [hslot.disk_of_ne hne, h.disk blk hnot hgd]

lemma InodesOnly.meta_iff (h : InodesOnly s s') (blk : ℕ) : s'.Meta blk ↔ s.Meta blk := by
  simp only [Sbi.Meta, h.geo, h.bitmaps]

section
variable (h : InodesOnly s s') (hfs : DirFs s dirInfo)
include h hfs

lemma InodesOnly.disk_bitmap {g : ℕ} (hg : s.geo.Real g) :
    s'.disk (s.bitmapBlock s.geo.blocks g) = s.disk (s.bitmapBlock s.geo.blocks g) :=
  h.disk _ (fun hm => (hfs.inodeMetaUsed _ hm).2 ⟨g, hg, .inl rfl⟩)
    fun g' hg' => hfs.consistent.bitmapGd g g' hg hg'

lemma InodesOnly.used_iff (blk : ℕ) : s'.Used blk ↔ s.Used blk := by
  simp only [Sbi.Used, h.geo, h.bitmaps]
  refine and_congr_right fun hb => and_congr_right fun hge => and_congr_right fun hgroup => ?_
  rw [h.disk_bitmap hfs (real_of_lt hb hge hgroup)]

lemma InodesOnly.disk_ptr (hk : k < 12) (hne : iBlock dirInfo k ≠ 0) :
    s'.disk (iBlock dirInfo k) = s.disk (iBlock dirInfo k) :=
  h.disk _ (hfs.inodeMetaApart k [] (valid_direct s.geo hk) hne) fun g hg he =>
    hfs.consistent.metaApart k [] (valid_direct s.geo hk) hne ⟨g, hg, .inr he⟩

lemma InodesOnly.view (hview : DirView s dirInfo n entries) : DirView s' dirInfo n entries := by
  refine ⟨hview.few, ?_, hview.ne_zero, ?_, fun k hk => ?_⟩
  · rw [h.geo]
    exact hview.size
  · rw [h.geo]
    exact hview.inRange
  · rw [h.geo, h.disk_ptr hfs (hk.trans_le hview.few) (hview.ne_zero k hk)]
    exact hview.tiled k hk

lemma InodesOnly.dirBlocks (hview : DirView s dirInfo n entries) : DirBlocks s' dirInfo n := by
  have hvalid : ∀ k < n, Valid s.geo k [] := fun k hk => valid_direct s.geo (hk.trans_le hview.few)
  refine ⟨fun j hj k hk he => ?_, fun k hk => ?_, fun k hk => ?_, ⟨?_, ?_⟩, fun g hg hfree => ?_⟩
  · exact (hfs.consistent.inj j [] k [] (hvalid j hj) (hvalid k hk) (hview.ne_zero j hj) he).1
  · rw [h.used_iff hfs]
    exact hfs.consistent.used k [] (hvalid k hk) (hview.ne_zero k hk)
  · rw [h.meta_iff]
    exact hfs.consistent.metaApart k [] (hvalid k hk) (hview.ne_zero k hk)
  · simp only [h.geo, h.bitmaps]
    exact hfs.consistent.bitmapInj
  · simp only [h.geo, h.bitmaps]
    exact hfs.consistent.bitmapGd
  · rw [h.geo] at hg hfree ⊢
    rw [h.counts] at hfree
    obtain ⟨hreal, hrange⟩ := hfs.padding g hg hfree
    refine ⟨hreal, fun i hi hclear => hrange i hi ?_⟩
    rwa [h.bitmaps, h.disk_bitmap hfs hreal] at hclear

end

/-! ## The whole creation -/

lemma sameFs_readInode (s : Sbi) (ino : ℕ) : SameFs s (ext2ReadInode s ino).2 := by
  have hraw : ∀ (s : Sbi) (raw : Bytes), SameFs s (ext2ReadInodeRaw s ino raw).2.2 := by
    intro s raw
    unfold ext2ReadInodeRaw
    simp only
    split_ifs
    all_goals first | exact SameFs.refl s | exact sameFs_kmalloc s
  unfold ext2ReadInode
  simp only
  split_ifs
  · exact sameFs_kmalloc s
  · exact (sameFs_kmalloc s).trans (hraw _ _)
  all_goals exact ((sameFs_kmalloc s).trans (hraw _ _)).trans (sameFs_kmalloc _)

/-- The steps of a creation that succeeds. -/
structure Steps (s : Sbi) (dirInfo : Bytes) (name : List UInt8) (mode : ℕ) (stack : Bytes)
    (dirInfo' : Bytes) (s' : Sbi) (ino : ℕ) (s₁ s₂ : Sbi) (dirInfo₃ : Bytes) (s₃ : Sbi) : Prop where
  short : name.length < 256
  alloc : ext2AllocInode s = (ino, s₁)
  ne_zero : ino ≠ 0
  write : ext2WriteInodeRaw s₁ ino (newRaw mode stack) = some (0, s₂)
  memory : (kmalloc s₂).1 = true
  add : addEntry (kmalloc s₂).2 dirInfo ino (fileTypeOf mode) name = (true, dirInfo₃, s₃)
  update : updateDir s₃ dirInfo₃ mode = some (dirInfo', s')

variable {child : Bytes}

lemma steps_of_create
    (h : ext2Create s dirInfo name mode stack = some (some child, dirInfo', s')) :
    ∃ ino s₁ s₂ dirInfo₃ s₃ s4, Steps s dirInfo name mode stack dirInfo' s4 ino s₁ s₂ dirInfo₃ s₃ ∧
      (ext2ReadInode s4 ino).1 = some child ∧ SameFs s4 s' := by
  unfold ext2Create at h
  split at h
  next => cases h
  next hshort =>
    obtain ⟨⟨ino, s₁⟩, halloc⟩ : ∃ r, ext2AllocInode s = r := ⟨_, rfl⟩
    simp only [halloc] at h
    split at h
    next => cases h
    next hzero =>
      split at h
      next => cases h
      next ret s₂ hwrite =>
        split at h
        next => cases h
        next hret =>
          obtain rfl : ret = 0 := by
            rcases writeInode_cases hwrite with ⟨hneg, -⟩ | ⟨hzero', -⟩
            · exact absurd hneg hret
            · exact hzero'
          split at h
          next => cases h
          next hmem =>
            split at h
            next => cases h
            next dirInfo₃ s₃ hadd =>
              split at h
              next => cases h
              next dirInfo4 s4 hupdate =>
                simp only [some.injEq, Prod.mk.injEq] at h
                obtain ⟨hread, rfl, rfl⟩ := h
                exact ⟨ino, s₁, s₂, dirInfo₃, s₃, s4, ⟨by omega, halloc, hzero, hwrite,
                  by simpa using hmem, hadd, hupdate⟩, hread, sameFs_readInode s4 ino⟩

lemma findName_allEntries (h : ∀ k < n, findName name (entries k) = none) :
    findName name (allEntries n entries) = none := by
  induction n with
  | zero => rfl
  | succ n ih =>
    rw [allEntries_succ, findName_append, ih fun k hk => h k (by omega), none_or]
    exact h n (Nat.lt_succ_self n)

/-- The directory and the new inode after a creation that succeeds. -/
structure Created (s : Sbi) (dirInfo : Bytes) (n : ℕ) (entries : ℕ → List DirEntry)
    (name : List UInt8) (stack : Bytes) (ino : ℕ) (s' : Sbi) (dirInfo' : Bytes) : Prop where
  old : DirView s dirInfo n entries
  geo : s'.geo = s.geo
  has : s.geo.HasInode ino
  fits : s.geo.InodeFits
  view : ∃ n' entries', DirView s' dirInfo' n' entries' ∧
    findName name (allEntries n' entries') = some ino ∧
    ∀ name', name' ≠ name →
      findName name' (allEntries n' entries') = findName name' (allEntries n entries)
  /-- The first byte behind the 128 bytes of the inode. -/
  byte : 128 < s.geo.inodeSize →
    s'.disk (s'.inodeBlock ino) (s.geo.inodeOffset ino + 128) = stack 128

/-- The first two steps: the inode is taken and written. -/
lemma inodesOnly_of_steps {s₁ s₂ : Sbi} (hfs : DirFs s dirInfo)
    (halloc : ext2AllocInode s = (ino, s₁)) (hzero : ino ≠ 0)
    (hwrite : ext2WriteInodeRaw s₁ ino raw = some (0, s₂)) :
    InodesOnly s (kmalloc s₂).2 ∧ s.geo.InodeFits ∧
      s₂.disk (s.inodeBlock ino) = blit (s₁.disk (s.inodeBlock ino)) (s.geo.inodeOffset ino)
        (slice raw 0 s.geo.inodeSize) := by
  obtain ⟨honly, hreal, -, -⟩ := inodesOnly_allocInode hfs halloc hzero
  have hblk : s₁.inodeBlock ino = s.inodeBlock ino := by
    simp only [Sbi.inodeBlock, honly.geo, honly.tables]
  have honly2 := honly.slotOnly (slotOnly_writeInode hwrite) (hfs.inodeMeta_inodeBlock hreal)
  refine ⟨⟨honly2.geo, honly2.bitmaps, honly2.counts, honly2.tables, honly2.disk⟩, ?_⟩
  rcases writeInode_cases hwrite with ⟨hneg, -⟩ | ⟨-, -, hfits, _, rfl⟩
  · exact absurd hneg (lt_irrefl 0)
  · rw [honly.geo] at hfits
    refine ⟨hfits, ?_⟩
    simp [writeBlock_disk, hblk, honly.geo]

section

variable (hdir : Directory s dirInfo n entries) (hfs : DirFs s dirInfo)
  (habsent : ∀ k < n, findName name (entries k) = none)

include hdir hfs habsent

lemma created_of_create
    (h : ext2Create s dirInfo name mode stack = some (some child, dirInfo', s')) :
    Created s dirInfo n entries name stack (ext2AllocInode s).1 s' dirInfo' := by
  obtain ⟨ino, _, s₂, dirInfo₃, s₃, s4, hsteps, -, _, rfl⟩ := steps_of_create h
  obtain ⟨-, hreal, hhas, hclear⟩ := inodesOnly_allocInode hfs hsteps.alloc hsteps.ne_zero
  obtain ⟨honly, hfits, hslot⟩ := inodesOnly_of_steps hfs hsteps.alloc hsteps.ne_zero hsteps.write
  have hn : n ≤ 12 := le_of_addEntry (by rw [honly.geo]; exact hdir.size) hsteps.add
  have hview := hdir.view hfs.consistent hn
  have hino : ino < 2 ^ 32 := hhas.2.1.trans_lt s.geo.inodesCount_lt
  obtain ⟨n', entries', hadded⟩ := added_of_addEntry (honly.view hfs hview)
    (honly.dirBlocks hfs hview) hino hsteps.ne_zero hsteps.short
    (findName_allEntries habsent) hsteps.add
  obtain ⟨hupdate, hiBlock, hsize⟩ := updateDir_spec hsteps.update
  rw [hadded.num] at hupdate
  have hgeo3 : s₃.geo = s.geo := hadded.geo.trans honly.geo
  have hblk : ∀ i, s₃.inodeBlock i = s.inodeBlock i := fun i => by
    simp only [Sbi.inodeBlock, hgeo3, hadded.tables, honly.tables]
  have hdirMeta := hfs.inodeMeta_inodeBlock hfs.dirGroup
  have hnewMeta := hfs.inodeMeta_inodeBlock hreal
  -- the inode of the directory is not in one of the blocks of the directory
  have htree : ∀ k < n, ¬ s.InodeMeta (iBlock dirInfo k) := fun k hk =>
    hfs.inodeMetaApart k [] (valid_direct s.geo (by omega)) (hview.ne_zero k hk)
  have hapart : ∀ k < n', iBlock dirInfo₃ k ≠ s₃.inodeBlock (inodeNum dirInfo) := by
    intro k hk he
    rw [hblk] at he
    rcases hadded.blocks k hk with hfree | ⟨j, hj, hold⟩
    · refine hfree ((honly.used_iff hfs _).2 ?_)
      rw [he]
      exact (hfs.inodeMetaUsed _ hdirMeta).1
    · refine htree j hj ?_
      rwa [← hold, he]
  rw [hsteps.alloc]
  refine ⟨hview, hupdate.geo.trans hgeo3, hhas, hfits,
    ⟨n', entries', ?_, hadded.new, hadded.others⟩, fun hlarge => ?_⟩
  · have hold := hadded.view
    refine ⟨hold.few, ?_, fun k hk => ?_, fun k hk => ?_, fun k hk => ?_⟩
    · rw [hsize]
      exact hold.size.trans (congrArg _ (congrArg _ hupdate.geo.symm))
    · rw [hiBlock]
      exact hold.ne_zero k hk
    · rw [hiBlock]
      exact (hold.inRange k hk).trans_eq (congrArg _ hupdate.geo.symm)
    · have htiled := hold.tiled k hk
      rwa [← hupdate.disk_of_ne (hapart k hk), ← hupdate.geo, ← hiBlock] at htiled
  · -- nothing later writes the place of the new inode
    have hne : ino ≠ inodeNum dirInfo := by
      rintro rfl
      simp [hfs.dirUsed] at hclear
    have hblk4 : s4.inodeBlock ino = s.inodeBlock ino := (hupdate.inodeBlock ino).trans (hblk ino)
    have hnew := hfs.inodeMetaUsed _ hnewMeta
    have hdisk3 : s₃.disk (s.inodeBlock ino) = s₂.disk (s.inodeBlock ino) := by
      refine hadded.disk _ ((honly.used_iff hfs _).2 hnew.1)
        (fun hm => hnew.2 ((honly.meta_iff _).1 hm)) fun k hk he => ?_
      exact htree k hk (he ▸ hnewMeta)
    have hkept : s4.disk (s.inodeBlock ino) (s.geo.inodeOffset ino + 128)
        = s₃.disk (s.inodeBlock ino) (s.geo.inodeOffset ino + 128) := by
      refine hupdate.disk _ _ ?_
      rw [hblk, hgeo3]
      by_cases hsame : s.inodeBlock ino = s.inodeBlock (inodeNum dirInfo)
      · have := hfs.slots_apart hne hsteps.ne_zero hfs.dirInode.1 hreal hfs.dirGroup hsame
        omega
      · exact .inl hsame
    change s4.disk (s4.inodeBlock ino) (s.geo.inodeOffset ino + 128) = stack 128
    rw [hblk4, hkept, hdisk3, hslot]
    simp [blit, slice, hlarge, newRaw]

/-- With inodes of up to 128 bytes a successful creation keeps the directory in order. -/
lemma kept_of_small (hsize : s.geo.inodeSize ≤ 128)
    (h : ext2Create s dirInfo name mode stack = some (some child, dirInfo', s')) :
    Kept s dirInfo name (ext2AllocInode s).1 s' dirInfo' := by
  have hcreated := created_of_create hdir hfs habsent h
  obtain ⟨n', entries', hview, hnew, hothers⟩ := hcreated.view
  have hsize' : s'.geo.inodeSize ≤ 128 := by rwa [hcreated.geo]
  refine ⟨⟨n', entries', hview.directory⟩, ?_, fun name' hne => ?_⟩
  · have hhas := hcreated.has
    have hvalid : ¬ ((ext2AllocInode s).1 = 0 ∨ (ext2AllocInode s).1 > s.geo.inodesCount) := by
      rintro (hzero | hlarge)
      · exact hhas.1 hzero
      · exact absurd hhas.2.1 (by omega)
    rw [lookupResult_of_view hview, hnew, elim_some, childNum_of_small hsize',
      hcreated.geo, if_neg hvalid, if_pos ⟨hhas, hcreated.fits⟩]
  · have hsame : childNum s' = childNum s := funext fun ino => by
      rw [childNum_of_small hsize', childNum_of_small hsize, hcreated.geo]
    rw [lookupResult_of_view hview, lookupResult_of_view hcreated.old, hothers name' hne, hsame]

end

end Aurora.Ext2
