import Aurora.Kernel.Ext2

/-!
# Directories of an ext2 filesystem

The model of the inode table and of `ext2_dir_lookup` and `ext2_create` in `ext2.c`. A
directory entry has variable length; the entries of a directory follow each other in
the blocks of the directory.

The driver keeps an inode in a `struct ext2_inode_info`: the 128 bytes of `struct
ext2_inode`, then the inode number, then more. `ext2_read_inode_raw` and
`ext2_write_inode_raw` copy `inode_size` bytes to and from the place of the 128 bytes,
whatever `inode_size` is, so both are given the memory from there on.

## Main definitions

* `ext2ReadInodeRaw`, `ext2WriteInodeRaw`: the inode table.
* `DirEntry`, `dirEntry`: the entry at an offset of a block.
* `ext2DirLookup`, `ext2Create`: the operations on a directory.
-/

namespace Aurora.Ext2

open Lib

/-! ## Giving blocks and inodes back -/

/-- `bitmap[i / 8] &= ~(1u << (i % 8))`. -/
def clearBit (bitmap : Bytes) (i : ℕ) : Bytes :=
  Function.update bitmap (i / 8) (bitmap (i / 8) &&& ~~~UInt8.ofNat (2 ^ (i % 8)))

/-- A bit is marked free, if there is memory for the bitmap. -/
def freeBit (s : Sbi) (k : Kind) (group i : ℕ) : Sbi :=
  let m := kmalloc s
  if m.1 = false then m.2
  else
    let blk := s.bitmapBlock k group
    let s := m.2.writeBlock blk (clearBit (s.disk blk) i)
    ext2WriteGd
      { s with gd := putLE s.gd (32 * group + k.countOff) 2 (s.freeCount k group + 1) } group

/-- `ext2_free_block`. -/
def ext2FreeBlock (s : Sbi) (blk : ℕ) : Sbi :=
  let rel := (blk + 2 ^ 32 - s.geo.firstDataBlock) % 2 ^ 32
  if blk = 0 then s
  else if rel / s.geo.blocksPerGroup ≥ s.geo.numGroups then s
  else freeBit s s.geo.blocks (rel / s.geo.blocksPerGroup) (rel % s.geo.blocksPerGroup)

/-- `ext2_free_inode`. -/
def ext2FreeInode (s : Sbi) (ino : ℕ) : Sbi :=
  if ino = 0 then s
  else if (ino - 1) / s.geo.inodesPerGroup ≥ s.geo.numGroups then s
  else freeBit s s.geo.inodes ((ino - 1) / s.geo.inodesPerGroup) ((ino - 1) % s.geo.inodesPerGroup)

/-! ## The inode table -/

/-- `bg_inode_table`. -/
def Sbi.inodeTable (s : Sbi) (group : ℕ) : ℕ := getLE s.gd (32 * group + 8) 4

/-- `inode_group`. -/
def Geometry.inodeGroup (g : Geometry) (ino : ℕ) : ℕ := (ino - 1) / g.inodesPerGroup

/-- `inode_index`. -/
def Geometry.inodeIndex (g : Geometry) (ino : ℕ) : ℕ := (ino - 1) % g.inodesPerGroup

/-- `inodes_per_block`. -/
def Geometry.inodesPerBlock (g : Geometry) : ℕ := g.blockSize / g.inodeSize

/-- The block of the inode table with an inode. -/
def Sbi.inodeBlock (s : Sbi) (ino : ℕ) : ℕ :=
  (s.inodeTable (s.geo.inodeGroup ino) + s.geo.inodeIndex ino / s.geo.inodesPerBlock) % 2 ^ 32

/-- `offset_in_block`. -/
def Geometry.inodeOffset (g : Geometry) (ino : ℕ) : ℕ :=
  g.inodeIndex ino % g.inodesPerBlock * g.inodeSize

/-- `ext2_read_inode_raw`: the value it returns, and the memory from `raw` on. -/
def ext2ReadInodeRaw (s : Sbi) (inum : ℕ) (raw : Bytes) : ℤ × Bytes × Sbi :=
  if inum = 0 then (-Errno.EINVAL.code, raw, s)
  else if inum > s.geo.inodesCount then (-Errno.EINVAL.code, raw, s)
  else if s.geo.inodeSize = 0 ∨ s.geo.inodeSize > s.geo.blockSize then
    (-Errno.EINVAL.code, raw, s)
  else if s.geo.inodeGroup inum ≥ s.geo.numGroups then (-Errno.EINVAL.code, raw, s)
  else
    let m := kmalloc s
    if m.1 = false then (-Errno.ENOMEM.code, raw, m.2)
    else
      let buf := s.disk (s.inodeBlock inum)
      (0, blit raw 0 (slice buf (s.geo.inodeOffset inum) s.geo.inodeSize), m.2)

/-- `ext2_write_inode_raw`, given the memory from `raw` on. Inodes that do not fit into
a block, or have no size, make it divide by zero: it does not come back. -/
def ext2WriteInodeRaw (s : Sbi) (inum : ℕ) (raw : Bytes) : Option (ℤ × Sbi) :=
  if inum = 0 then some (-Errno.EINVAL.code, s)
  else if inum > s.geo.inodesCount then some (-Errno.EINVAL.code, s)
  else if s.geo.inodeGroup inum ≥ s.geo.numGroups then some (-Errno.EINVAL.code, s)
  else if s.geo.inodeSize = 0 ∨ s.geo.inodeSize > s.geo.blockSize then none
  else
    let m := kmalloc s
    if m.1 = false then some (-Errno.ENOMEM.code, m.2)
    else
      let blk := s.inodeBlock inum
      some (0, m.2.writeBlock blk
        (blit (s.disk blk) (s.geo.inodeOffset inum) (slice raw 0 s.geo.inodeSize)))

/-- `info->inode_num`, behind the 128 bytes of the inode. -/
def inodeNum (info : Bytes) : ℕ := getLE info 128 4

/-- A `struct ext2_inode_info` with the inode number set, before the inode is read. -/
def newInfo (inum : ℕ) : Bytes := putLE (fun _ => 0) 128 4 inum

/-- `ext2_read_inode`: the memory of the new `struct ext2_inode_info`. -/
def ext2ReadInode (s : Sbi) (inum : ℕ) : Option Bytes × Sbi :=
  let m := kmalloc s
  if m.1 = false then (none, m.2)
  else
    let r := ext2ReadInodeRaw m.2 inum (newInfo inum)
    if r.1 < 0 then (none, r.2.2)
    else
      let m := kmalloc r.2.2
      if m.1 = false then (none, m.2) else (some r.2.1, m.2)

/-! ## Directory entries -/

/-- `struct ext2_dir_entry`, with the `name_len` bytes of the name. -/
structure DirEntry where
  inode : ℕ
  recLen : ℕ
  fileType : UInt8
  name : List UInt8
  deriving DecidableEq

/-- The entry at an offset of a block. -/
def dirEntry (buf : Bytes) (off : ℕ) : DirEntry where
  inode := getLE buf off 4
  recLen := getLE buf (off + 4) 2
  fileType := buf (off + 7)
  name := slice buf (off + 8) (buf (off + 6)).toNat

/-- The bytes of an entry. -/
def DirEntry.bytes (e : DirEntry) : List UInt8 :=
  toLE 4 e.inode ++ (toLE 2 e.recLen ++ (UInt8.ofNat e.name.length :: e.fileType :: e.name))

/-- `rec_len_for_name`. -/
def recLenForName (nameLen : ℕ) : ℕ := (8 + nameLen + 3) / 4 * 4

/-! ## Lookup -/

/-- How the search of one block ends. -/
inductive Scan where
  | found (inode : ℕ)
  | stop
  | next (off : ℕ)

/-- The inner loop of `ext2_dir_lookup`; `fuel` bounds its rounds. -/
def scanBlock (blockSize dirSize : ℕ) (buf : Bytes) (name : List UInt8) : ℕ → ℕ → ℕ → Scan
  | 0, _, _ => .stop
  | fuel + 1, off, blockOffset =>
    if blockOffset < blockSize then
      if off ≥ dirSize then .stop
      else
        let de := dirEntry buf blockOffset
        if de.recLen = 0 then .stop
        else if de.inode = 0 then
          scanBlock blockSize dirSize buf name fuel (off + de.recLen) (blockOffset + de.recLen)
        else if de.name = name then .found de.inode
        else
          scanBlock blockSize dirSize buf name fuel (off + de.recLen) (blockOffset + de.recLen)
    else .next off

/-- The outer loop of `ext2_dir_lookup`, over the blocks: the inode number of the entry
with the name. `none` is a loop that has not ended within `fuel` rounds. -/
def lookupLoop (dirInfo : Bytes) (name : List UInt8) :
    ℕ → ℕ → Bytes → Sbi → Option (Except Errno ℕ × Sbi)
  | 0, _, _, _ => none
  | fuel + 1, off, buf, s =>
    let blockSize := s.geo.blockSize
    let dirSize := getLE dirInfo 4 4
    if off < dirSize then
      let r := ext2ReadDataBlock s dirInfo (off / blockSize) buf
      if r.1.1 < 0 then some (.error Errno.EIO, r.2)
      else
        match scanBlock blockSize dirSize r.1.2 name (blockSize + 1) off (off % blockSize) with
        | .found inode => some (.ok inode, r.2)
        | .stop => some (.error .ENOENT, r.2)
        | .next off => lookupLoop dirInfo name fuel off r.1.2 r.2
    else some (.error .ENOENT, s)

/-- What `ext2_dir_lookup` does with the inode number of the entry that it has found. -/
def openChild (s : Sbi) (inode : ℕ) : Except Errno Bytes × Sbi :=
  if inode = 0 ∨ inode > s.geo.inodesCount then (.error .ENOENT, s)
  else
    let m := kmalloc s
    if m.1 = false then (.error .ENOMEM, m.2)
    else
      let r := ext2ReadInodeRaw m.2 inode (newInfo inode)
      if r.1 < 0 then (.error Errno.EIO, r.2.2)
      else
        let m := kmalloc r.2.2
        if m.1 = false then (.error .ENOMEM, m.2)
        else
          let m := kmalloc m.2
          if m.1 = false then (.error .ENOMEM, m.2) else (.ok r.2.1, m.2)

/-- `ext2_dir_lookup`: the error, or the memory of the new `struct ext2_inode_info`.
Every round of the outer loop goes forward, so `i_size` bounds their number. -/
def ext2DirLookup (s : Sbi) (dirInfo : Bytes) (name : List UInt8) :
    Option (Except Errno Bytes × Sbi) :=
  let m := kmalloc s
  if m.1 = false then some (.error .ENOMEM, m.2)
  else
    match lookupLoop dirInfo name (getLE dirInfo 4 4 + 1) 0 (fun _ => 0) m.2 with
    | none => none
    | some (.error e, s) => some (.error e, s)
    | some (.ok inode, s) => some (openChild s inode)

/-! ## Creation -/

/-- The memory at `new_raw` in `ext2_create`: the new inode, and what the stack holds
behind it. `0x1A4` are the four permission bits. -/
def newRaw (mode : ℕ) (stack : Bytes) : Bytes := fun i =>
  if i < 128 then putLE (putLE (fun _ => 0) 0 2 (mode ||| 0x1A4)) 26 2 1 i else stack i

/-- `(mode & EXT2_S_IFDIR) ? EXT2_FT_DIR : EXT2_FT_REG_FILE`. -/
def fileTypeOf (mode : ℕ) : UInt8 := if mode &&& 0x4000 ≠ 0 then 2 else 1

/-- The search of the last block for an entry with room for `newRecLen` bytes behind its
name. -/
def findSlot (blockSize : ℕ) (buf : Bytes) (newRecLen : ℕ) : ℕ → ℕ → Option ℕ
  | 0, _ => none
  | fuel + 1, off =>
    if off < blockSize then
      let de := dirEntry buf off
      if de.recLen = 0 then none
      else if de.recLen ≥ recLenForName de.name.length + newRecLen then some off
      else findSlot blockSize buf newRecLen fuel (off + de.recLen)
    else none

/-- The entry at `off` is cut to the length of its name, and the new one gets the rest. -/
def splitEntry (buf : Bytes) (off ino : ℕ) (fileType : UInt8) (name : List UInt8) : Bytes :=
  let de := dirEntry buf off
  let minRec := recLenForName de.name.length
  blit (putLE buf (off + 4) 2 minRec) (off + minRec)
    (DirEntry.bytes ⟨ino, de.recLen - minRec, fileType, name⟩)

/-- The new entry goes behind the last block, or where the directory ends in a block.
The answer is false where the source goes to `out_free_inode`. -/
def appendEntry (s : Sbi) (dirInfo : Bytes) (newOffset ino : ℕ) (fileType : UInt8)
    (name : List UInt8) : Bool × Bytes × Sbi :=
  let blockSize := s.geo.blockSize
  let blkIdx := newOffset / blockSize
  let blkOff := newOffset % blockSize
  let entry := DirEntry.bytes ⟨ino, blockSize - blkOff, fileType, name⟩
  let size := (blkIdx + 1) * blockSize
  if blkOff = 0 then
    let r := ext2AllocBlock s
    if r.1 = 0 then (false, dirInfo, r.2)
    else if blkIdx ≥ 12 then (false, dirInfo, ext2FreeBlock r.2 r.1)
    else
      let dirInfo := addIBlocks (setIBlock dirInfo blkIdx r.1) blockSize
      (true, putLE dirInfo 4 4 size, r.2.writeBlock r.1 (blit (fun _ => 0) blkOff entry))
  else
    let blk := iBlock dirInfo blkIdx
    (true, putLE dirInfo 4 4 size, s.writeBlock blk (blit (s.disk blk) blkOff entry))

/-- The entry of the new inode is put into the directory. -/
def addEntry (s : Sbi) (dirInfo : Bytes) (ino : ℕ) (fileType : UInt8) (name : List UInt8) :
    Bool × Bytes × Sbi :=
  let blockSize := s.geo.blockSize
  let dirSize := getLE dirInfo 4 4
  let last := (dirSize - 1) / blockSize
  if dirSize > 0 ∧ last < 12 ∧ iBlock dirInfo last ≠ 0 then
    let blk := iBlock dirInfo last
    match findSlot blockSize (s.disk blk) (recLenForName name.length) blockSize 0 with
    | some off => (true, dirInfo, s.writeBlock blk (splitEntry (s.disk blk) off ino fileType name))
    | none => appendEntry s dirInfo ((last + 1) * blockSize) ino fileType name
  else appendEntry s dirInfo dirSize ino fileType name

/-- The inode of the directory is written, for a new directory twice; what the writes
return is not looked at. -/
def updateDir (s : Sbi) (dirInfo : Bytes) (mode : ℕ) : Option (Bytes × Sbi) :=
  match ext2WriteInodeRaw s (inodeNum dirInfo) dirInfo with
  | none => none
  | some (_, s) =>
    if mode &&& 0x4000 ≠ 0 then
      let dirInfo := putLE dirInfo 26 2 (getLE dirInfo 26 2 + 1)
      match ext2WriteInodeRaw s (inodeNum dirInfo) dirInfo with
      | none => none
      | some (_, s) => some (dirInfo, s)
    else some (dirInfo, s)

/-- `ext2_create`: the memory of the new `struct ext2_inode_info` if it succeeds, and the
inode of the directory and the filesystem afterwards; `none` if it does not come back. -/
def ext2Create (s : Sbi) (dirInfo : Bytes) (name : List UInt8) (mode : ℕ) (stack : Bytes) :
    Option (Option Bytes × Bytes × Sbi) :=
  if name.length > 255 then some (none, dirInfo, s)
  else
    let a := ext2AllocInode s
    let ino := a.1
    if ino = 0 then some (none, dirInfo, a.2)
    else
      match ext2WriteInodeRaw a.2 ino (newRaw mode stack) with
      | none => none
      | some (ret, s) =>
        if ret < 0 then some (none, dirInfo, ext2FreeInode s ino)
        else
          let m := kmalloc s
          if m.1 = false then some (none, dirInfo, ext2FreeInode m.2 ino)
          else
            match addEntry m.2 dirInfo ino (fileTypeOf mode) name with
            | (false, dirInfo, s) => some (none, dirInfo, ext2FreeInode s ino)
            | (true, dirInfo, s) =>
              match updateDir s dirInfo mode with
              | none => none
              | some (dirInfo, s) =>
                let r := ext2ReadInode s ino
                some (r.1, dirInfo, r.2)

end Aurora.Ext2
