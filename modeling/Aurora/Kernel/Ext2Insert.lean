import Aurora.Kernel.Ext2Lookup
import Aurora.Kernel.Ext2Map

/-!
# Putting an entry into an ext2 directory

The middle part of `ext2_create`: the new entry goes into the slack of an entry of the
last block, or into a new block. Either way the directory stays tiled, and its list of
entries is the old one with the new entry in it.

## Main definitions

* `DirBlocks`: what the blocks of the directory and the bitmaps have to do with each other.
* `Added`: the directory after an entry has been put into it.
* `added_of_addEntry`: `addEntry` does that.
-/

namespace Aurora.Ext2

open Lib Function Option

/-- The blocks of the directory are different blocks in use, apart from the bitmaps and
the descriptors, and a clear bit is a block of the filesystem. -/
structure DirBlocks (s : Sbi) (dirInfo : Bytes) (n : ℕ) : Prop where
  inj : ∀ j < n, ∀ k < n, iBlock dirInfo j = iBlock dirInfo k → j = k
  used : ∀ k < n, s.Used (iBlock dirInfo k)
  notMeta : ∀ k < n, ¬ s.Meta (iBlock dirInfo k)
  apart : BitmapsApart s
  padding : PaddingSet s

/-- Inode `ino` has been entered into the directory under a name. -/
structure Added (s : Sbi) (dirInfo : Bytes) (n : ℕ) (entries : ℕ → List DirEntry)
    (name : List UInt8) (ino : ℕ) (s' : Sbi) (dirInfo' : Bytes) (n' : ℕ)
    (entries' : ℕ → List DirEntry) : Prop where
  view : DirView s' dirInfo' n' entries'
  new : findName name (allEntries n' entries') = some ino
  others : ∀ name', name' ≠ name →
    findName name' (allEntries n' entries') = findName name' (allEntries n entries)
  num : inodeNum dirInfo' = inodeNum dirInfo
  geo : s'.geo = s.geo
  tables : ∀ g, s'.inodeTable g = s.inodeTable g
  disk : ∀ blk, s.Used blk → ¬ s.Meta blk → (∀ k < n, blk ≠ iBlock dirInfo k) →
    s'.disk blk = s.disk blk
  blocks : ∀ k < n', ¬ s.Used (iBlock dirInfo' k) ∨ ∃ j < n, iBlock dirInfo' k = iBlock dirInfo j

variable {s s' : Sbi} {dirInfo dirInfo' : Bytes} {n ino : ℕ} {entries : ℕ → List DirEntry}
  {name : List UInt8} {fileType : UInt8}

/-! ## Lists of entries -/

lemma allEntries_succ (n : ℕ) (entries : ℕ → List DirEntry) :
    allEntries (n + 1) entries = allEntries n entries ++ entries n := by
  simp [allEntries, List.range'_1_concat]

lemma allEntries_update (n : ℕ) (entries : ℕ → List DirEntry) (es : List DirEntry) :
    allEntries (n + 1) (update entries n es) = allEntries n entries ++ es := by
  rw [allEntries_succ, update_self]
  congr 1
  refine List.flatMap_congr fun k hk => ?_
  rw [update_of_ne]
  have := List.mem_range'_1.1 hk
  omega

/-! ## Fields of the inode -/

lemma inodeNum_putLE {raw : Bytes} {off len v : ℕ} (h : off + len ≤ 128) :
    inodeNum (putLE raw off len v) = inodeNum raw :=
  getLE_putLE_of_disjoint (.inr h)

lemma iBlock_putLE {raw : Bytes} {off len v : ℕ} (h : off + len ≤ 40) (k : ℕ) :
    iBlock (putLE raw off len v) k = iBlock raw k :=
  getLE_putLE_of_disjoint (.inr (by omega))

/-! ## The slack of an entry -/

lemma added_split (hview : DirView s dirInfo (n + 1) entries)
    (hblocks : DirBlocks s dirInfo (n + 1)) (hino : ino < 2 ^ 32) (hzero : ino ≠ 0)
    (hname : name.length < 256) (habsent : findName name (allEntries (n + 1) entries) = none)
    {fuel off : ℕ} (hslot : findSlot s.geo.blockSize (s.disk (iBlock dirInfo n))
      (recLenForName name.length) fuel 0 = some off) :
    ∃ entries', Added s dirInfo (n + 1) entries name ino
      (s.writeBlock (iBlock dirInfo n)
        (splitEntry (s.disk (iBlock dirInfo n)) off ino fileType name))
      dirInfo (n + 1) entries' := by
  obtain ⟨-, _, es', rfl, rfl, hins, htiled⟩ := inserted_of_findSlot fileType
    (hview.tiled n (Nat.lt_succ_self n)) hino hname hslot
  rw [allEntries_succ, findName_append, or_eq_none_iff] at habsent
  refine ⟨update entries n es', ?_, ?_, ?_, rfl, rfl, fun _ => rfl, ?_, ?_⟩
  · refine ⟨hview.few, hview.size, hview.ne_zero, hview.inRange, fun k hk => ?_⟩
    rw [writeBlock_disk]
    by_cases hkn : k = n
    · subst hkn
      rwa [update_self, update_self]
    · have hne : iBlock dirInfo k ≠ iBlock dirInfo n := fun he =>
        hkn (hblocks.inj k hk n (Nat.lt_succ_self n) he)
      rw [update_of_ne hne, update_of_ne hkn]
      exact hview.tiled k hk
  · rw [allEntries_update, findName_append, habsent.1, none_or]
    exact hins.findName_self hzero habsent.2
  · intro _ hne
    rw [allEntries_update, allEntries_succ, findName_append, findName_append,
      hins.findName_of_ne hne]
  · intro _ _ _ hout
    rw [writeBlock_disk, update_of_ne (hout n (Nat.lt_succ_self n))]
  · exact fun k hk => .inr ⟨k, hk, rfl⟩

/-! ## A new block -/

lemma inodeTable_of_allocBlock {b : ℕ} (halloc : ext2AllocBlock s = (b, s')) (g : ℕ) :
    s'.inodeTable g = s.inodeTable g := by
  unfold ext2AllocBlock at halloc
  rcases allocBit_cases s.geo.blocks s.geo.numGroups 0 s with ⟨hnone, mem, hsame⟩ |
    ⟨g0, i, _, ⟨mem, rfl⟩, hsome, heq, -⟩
  · simp only [hnone, hsame] at halloc
    obtain ⟨-, rfl⟩ := Prod.ext_iff.1 halloc
    rfl
  · simp only [hsome, heq] at halloc
    obtain ⟨-, rfl⟩ := Prod.ext_iff.1 halloc
    refine markUsed_getLE ?_
    simp only [Geometry.blocks]
    omega

lemma blockSize_facts (g : Geometry) :
    g.blockSize % 4 = 0 ∧ g.blockSize < 2 ^ 16 ∧ 1024 ≤ g.blockSize := by
  rcases g.blockSize_mem with h | h | h <;> rw [h] <;> decide

lemma added_append (hview : DirView s dirInfo n entries) (hblocks : DirBlocks s dirInfo n)
    (hino : ino < 2 ^ 32) (hzero : ino ≠ 0) (hname : name.length < 256)
    (habsent : findName name (allEntries n entries) = none)
    (happend : appendEntry s dirInfo (n * s.geo.blockSize) ino fileType name
      = (true, dirInfo', s')) :
    ∃ entries', Added s dirInfo n entries name ino s' dirInfo' (n + 1) entries' := by
  obtain ⟨hbs4, hbs16, hbs⟩ := blockSize_facts s.geo
  have hpos := blockSize_pos s.geo
  obtain ⟨⟨b, s1⟩, halloc⟩ : ∃ r, ext2AllocBlock s = r := ⟨_, rfl⟩
  unfold appendEntry at happend
  simp only [Nat.mul_mod_left, Nat.mul_div_cancel n hpos, if_true, halloc, Nat.sub_zero] at happend
  by_cases hb : b = 0
  · simp [hb] at happend
  by_cases hn : n ≥ 12
  · simp [hb, hn] at happend
  simp only [if_neg hb, if_neg hn, Prod.mk.injEq, true_and] at happend
  obtain ⟨rfl, rfl⟩ := happend
  set new : DirEntry := ⟨ino, s.geo.blockSize, fileType, name⟩ with hnew
  obtain ⟨htaken, hdisk⟩ := taken_alloc hblocks.apart hblocks.padding halloc hb
  have hlt : b < 2 ^ 32 := htaken.inRange.trans s.geo.blocksCount_lt
  have hfresh : ∀ k < n, iBlock dirInfo k ≠ b := fun k hk he =>
    htaken.fresh (he ▸ hblocks.used k hk)
  have hiBlock : ∀ k, iBlock (putLE (addIBlocks (setIBlock dirInfo n b) s.geo.blockSize) 4 4
      ((n + 1) * s.geo.blockSize)) k = if k = n then b else iBlock dirInfo k := fun k => by
    rw [iBlock_putLE (by decide), iBlock_addIBlocks, iBlock_setIBlock _ hlt, update_apply]
  have hfind : ∀ name', findName name' [new] = if name = name' then some ino else none := by
    intro name'
    simp [findName, hnew, hzero]
  have hsingle : Tiled s.geo.blockSize (blit (fun _ => 0) 0 new.bytes) 0 [new] :=
    tiled_single hino hname rfl (by change 8 + name.length ≤ s.geo.blockSize; omega) hbs4 hbs16 _
  have htables := inodeTable_of_allocBlock halloc
  refine ⟨update entries n [new], ?_, ?_, ?_, ?_, htaken.geo, htables, ?_, ?_⟩
  · refine ⟨by omega, ?_, fun k hk => ?_, fun k hk => ?_, fun k hk => ?_⟩
    · -- twelve blocks are far from the limit of the field
      have hsize : (n + 1) * s.geo.blockSize ≤ 12 * s.geo.blockSize :=
        Nat.mul_le_mul_right _ (by omega)
      rw [getLE_putLE_self, Nat.mod_eq_of_lt (by omega)]
      exact congrArg _ (congrArg _ htaken.geo.symm)
    all_goals
      rw [hiBlock]
      by_cases hkn : k = n
    · rwa [if_pos hkn]
    · rw [if_neg hkn]
      exact hview.ne_zero k (by omega)
    · rw [if_pos hkn]
      exact htaken.inRange.trans_eq (congrArg _ htaken.geo.symm)
    · rw [if_neg hkn]
      exact (hview.inRange k (by omega)).trans_eq (congrArg _ htaken.geo.symm)
    · rw [if_pos hkn, hkn, writeBlock_disk, update_self, update_self]
      have hgeo : (s1.writeBlock b (blit (fun _ => 0) 0 new.bytes)).geo = s.geo := htaken.geo
      rwa [hgeo]
    · have hk' : k < n := by omega
      rw [if_neg hkn, writeBlock_disk, update_of_ne (hfresh k hk'),
        update_of_ne hkn, hdisk _ (hblocks.notMeta k hk')]
      have hgeo : (s1.writeBlock b (blit (fun _ => 0) 0 new.bytes)).geo = s.geo := htaken.geo
      rw [hgeo]
      exact hview.tiled k hk'
  · rw [allEntries_update, findName_append, habsent, none_or, hfind, if_pos rfl]
  · intro name' hne
    rw [allEntries_update, findName_append, hfind, if_neg (Ne.symm hne), or_none]
  · rw [inodeNum_putLE (by decide)]
    exact (inodeNum_putLE (by decide)).trans (inodeNum_putLE (by omega))
  · intro blk hused hmeta _
    have hne : blk ≠ b := fun he => htaken.fresh (he ▸ hused)
    rw [writeBlock_disk, update_of_ne hne, hdisk _ hmeta]
  · intro k hk
    rw [hiBlock]
    by_cases hkn : k = n
    · rw [if_pos hkn]
      exact .inl htaken.fresh
    · rw [if_neg hkn]
      exact .inr ⟨k, by omega, rfl⟩

/-! ## Both cases -/

/-- An entry behind twelve blocks is refused. -/
lemma le_of_addEntry (hsize : getLE dirInfo 4 4 = n * s.geo.blockSize)
    (hadd : addEntry s dirInfo ino fileType name = (true, dirInfo', s')) : n ≤ 12 := by
  by_contra hn
  have hpos := blockSize_pos s.geo
  have hlast : 12 ≤ (n * s.geo.blockSize - 1) / s.geo.blockSize := by
    rw [Nat.le_div_iff_mul_le hpos]
    have := Nat.mul_le_mul_right s.geo.blockSize (by omega : 13 ≤ n)
    omega
  simp only [addEntry, hsize] at hadd
  rw [if_neg (fun h => absurd h.2.1 (by omega)), appendEntry] at hadd
  simp only [Nat.mul_mod_left, Nat.mul_div_cancel n hpos, if_true,
    if_pos (by omega : n ≥ 12)] at hadd
  split at hadd <;> simp at hadd

/-- **The entry of the new inode is put into the directory**: the blocks stay tiled, the
name is found, and the other names are found where they were. -/
lemma added_of_addEntry (hview : DirView s dirInfo n entries) (hblocks : DirBlocks s dirInfo n)
    (hino : ino < 2 ^ 32) (hzero : ino ≠ 0) (hname : name.length < 256)
    (habsent : findName name (allEntries n entries) = none)
    (hadd : addEntry s dirInfo ino fileType name = (true, dirInfo', s')) :
    ∃ n' entries', Added s dirInfo n entries name ino s' dirInfo' n' entries' := by
  have hpos := blockSize_pos s.geo
  simp only [addEntry, hview.size] at hadd
  cases n with
  | zero =>
    rw [if_neg (by simp), Nat.zero_mul] at hadd
    have happend : appendEntry s dirInfo (0 * s.geo.blockSize) ino fileType name
        = (true, dirInfo', s') := by rwa [Nat.zero_mul]
    exact ⟨1, added_append hview hblocks hino hzero hname habsent happend⟩
  | succ n =>
    have hlast : ((n + 1) * s.geo.blockSize - 1) / s.geo.blockSize = n := by
      rw [Nat.succ_mul, Nat.add_sub_assoc hpos, Nat.mul_comm, Nat.mul_add_div hpos,
        Nat.div_eq_of_lt (by omega), Nat.add_zero]
    have hfew := hview.few
    rw [hlast, if_pos ⟨Nat.mul_pos (Nat.succ_pos n) hpos, by omega,
      hview.ne_zero n (Nat.lt_succ_self n)⟩] at hadd
    split at hadd
    next off hslot =>
      obtain ⟨rfl, rfl⟩ := hadd
      exact ⟨n + 1, added_split hview hblocks hino hzero hname habsent hslot⟩
    next => exact ⟨n + 1 + 1, added_append hview hblocks hino hzero hname habsent hadd⟩

end Aurora.Ext2
