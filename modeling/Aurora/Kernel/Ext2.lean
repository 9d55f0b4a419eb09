import Aurora.Kernel.Task
import Aurora.Lib.Bytes

/-!
# Blocks of an ext2 filesystem

The model of block allocation and of the walker over the block pointers of an inode that
reads in `ext2.c`. The device is a sequence of blocks and its transfers succeed; the
memory for block buffers comes from `kmalloc`, whose answers are part of the state. The
group descriptors and an inode are pieces of memory with little-endian fields, as in the
source.

## Main definitions

* `Geometry`, `Sbi`: the layout of the filesystem, and the state of the driver.
* `allocBit`, `ext2AllocBlock`, `ext2AllocInode`: taking a clear bit of a bitmap.
* `ext2ReadDataBlock`: the walker.
-/

namespace Aurora.Ext2

open Lib

/-! ## The filesystem -/

/-- The fields of `struct ext2_sb_info` and of the superblock that mounting sets. -/
structure Geometry where
  blockSize : ℕ
  inodeSize : ℕ
  blocksPerGroup : ℕ
  inodesPerGroup : ℕ
  firstDataBlock : ℕ
  numGroups : ℕ
  gdStart : ℕ
  blocksCount : ℕ
  inodesCount : ℕ
  /-- `1024 << s_log_block_size` between the limits. -/
  blockSize_mem : blockSize = 1024 ∨ blockSize = 2048 ∨ blockSize = 4096
  blocksPerGroup_pos : 0 < blocksPerGroup
  inodesPerGroup_pos : 0 < inodesPerGroup
  blocksCount_lt : blocksCount < 2 ^ 32
  inodesCount_lt : inodesCount < 2 ^ 32

/-- The contents of a block or of another piece of memory. -/
abbrev Bytes := ℕ → UInt8

/-- `struct ext2_sb_info` with the device behind it. -/
structure Sbi where
  geo : Geometry
  /-- The group descriptors in memory. -/
  gd : Bytes
  disk : ℕ → Bytes
  /-- What the next calls of `kmalloc` answer. -/
  mem : ℕ → Bool

def kmalloc (s : Sbi) : Bool × Sbi := (s.mem 0, { s with mem := fun n => s.mem (n + 1) })

/-- `write_block`. -/
def Sbi.writeBlock (s : Sbi) (blk : ℕ) (buf : Bytes) : Sbi :=
  { s with disk := Function.update s.disk blk buf }

@[simp] lemma writeBlock_disk (s : Sbi) (blk : ℕ) (buf : Bytes) :
    (s.writeBlock blk buf).disk = Function.update s.disk blk buf := rfl

/-- The block of the descriptor table with the descriptor of a group. -/
def Geometry.gdBlock (g : Geometry) (group : ℕ) : ℕ := g.gdStart + group * 32 / g.blockSize

/-- `ext2_write_gd`: the block with the descriptor of the group is written. -/
def ext2WriteGd (s : Sbi) (group : ℕ) : Sbi :=
  s.writeBlock (s.geo.gdBlock group)
    fun j => s.gd (group * 32 / s.geo.blockSize * s.geo.blockSize + j)

/-! ## Bitmaps -/

/-- `bitmap[i / 8] & (1u << (i % 8))`. -/
def bitSet (bitmap : Bytes) (i : ℕ) : Bool := (bitmap (i / 8)).toNat.testBit (i % 8)

/-- `bitmap[i / 8] |= 1u << (i % 8)`. -/
def setBit (bitmap : Bytes) (i : ℕ) : Bytes :=
  Function.update bitmap (i / 8) (bitmap (i / 8) ||| UInt8.ofNat (2 ^ (i % 8)))

/-- One kind of thing that a group has: the offsets of its bitmap and of its free count
in the descriptor, and how many there are. -/
structure Kind where
  bitmapOff : ℕ
  countOff : ℕ
  perGroup : ℕ

/-- `bg_block_bitmap` or `bg_inode_bitmap`. -/
def Sbi.bitmapBlock (s : Sbi) (k : Kind) (group : ℕ) : ℕ := getLE s.gd (32 * group + k.bitmapOff) 4

/-- `bg_free_blocks_count` or `bg_free_inodes_count`. -/
def Sbi.freeCount (s : Sbi) (k : Kind) (group : ℕ) : ℕ := getLE s.gd (32 * group + k.countOff) 2

/-- A bit is marked used, the free count goes down, and both are written. -/
def Sbi.markUsed (s : Sbi) (k : Kind) (group i : ℕ) : Sbi :=
  let blk := s.bitmapBlock k group
  let s := s.writeBlock blk (setBit (s.disk blk) i)
  ext2WriteGd
    { s with gd := putLE s.gd (32 * group + k.countOff) 2 (s.freeCount k group - 1) } group

/-- The bits of a group that the search looks at. -/
def Geometry.scanned (g : Geometry) (k : Kind) : ℕ := min k.perGroup (g.blockSize * 8)

/-- The loop of `ext2_alloc_block` and of `ext2_alloc_inode` over `n` groups: the first
clear bit of a group with something free. -/
def allocBit (k : Kind) : ℕ → ℕ → Sbi → Option (ℕ × ℕ) × Sbi
  | 0, _, s => (none, s)
  | n + 1, group, s =>
    if s.freeCount k group > 0 then
      let m := kmalloc s
      if m.1 = false then (none, m.2)
      else
        let bitmap := s.disk (s.bitmapBlock k group)
        match (List.range (s.geo.scanned k)).find? fun i => !bitSet bitmap i with
        | some i => (some (group, i), m.2.markUsed k group i)
        | none => allocBit k n (group + 1) m.2
    else allocBit k n (group + 1) s

def Geometry.blocks (g : Geometry) : Kind := ⟨0, 12, g.blocksPerGroup⟩

def Geometry.inodes (g : Geometry) : Kind := ⟨4, 14, g.inodesPerGroup⟩

/-- `ext2_alloc_block`; 0 if there is none. -/
def ext2AllocBlock (s : Sbi) : ℕ × Sbi :=
  let r := allocBit s.geo.blocks s.geo.numGroups 0 s
  match r.1 with
  | some (group, i) =>
    ((group * s.geo.blocksPerGroup + i + s.geo.firstDataBlock) % 2 ^ 32, r.2)
  | none => (0, r.2)

/-- `ext2_alloc_inode`; 0 if there is none. -/
def ext2AllocInode (s : Sbi) : ℕ × Sbi :=
  let r := allocBit s.geo.inodes s.geo.numGroups 0 s
  match r.1 with
  | some (group, i) => ((group * s.geo.inodesPerGroup + i + 1) % 2 ^ 32, r.2)
  | none => (0, r.2)

/-! ## Block pointers -/

/-- `raw->i_block[k]`. -/
def iBlock (raw : Bytes) (k : ℕ) : ℕ := getLE raw (40 + 4 * k) 4

/-- `raw->i_block[k] = blk`. -/
def setIBlock (raw : Bytes) (k blk : ℕ) : Bytes := putLE raw (40 + 4 * k) 4 blk

/-- `raw->i_blocks += block_size / 512`. -/
def addIBlocks (raw : Bytes) (blockSize : ℕ) : Bytes :=
  putLE raw 28 4 (getLE raw 28 4 + blockSize / 512)

/-- `buf[idx]` of a block of pointers. -/
def pointer (buf : Bytes) (idx : ℕ) : ℕ := getLE buf (4 * idx) 4

/-- `ptrs_per_block`. -/
def Geometry.ptrsPerBlock (g : Geometry) : ℕ := g.blockSize / 4

/-- What a walk over block pointers comes to. -/
inductive Target where
  | hole
  | error (e : Errno)
  | block (blk : ℕ)
  deriving DecidableEq

/-- One level after the other: a null pointer ends the walk, a pointer has to be in
range, and a block of pointers is read into a new buffer. -/
def walk (null : Target) : List ℕ → ℕ → Sbi → Target × Sbi
  | [], blk, s =>
    if blk = 0 then (null, s)
    else if blk ≥ s.geo.blocksCount then (.error Errno.EIO, s)
    else (.block blk, s)
  | idx :: rest, blk, s =>
    if blk = 0 then (null, s)
    else if blk ≥ s.geo.blocksCount then (.error Errno.EIO, s)
    else
      let m := kmalloc s
      if m.1 = false then (.error .ENOMEM, m.2)
      else walk null rest (pointer (s.disk blk) idx) m.2

/-- The block that `ext2_read_data_block` reads; a hole is a block of zeros. -/
def readTarget (s : Sbi) (raw : Bytes) (logicalBlock : ℕ) : Target × Sbi :=
  let ptrs := s.geo.ptrsPerBlock
  if logicalBlock < 12 then walk .hole [] (iBlock raw logicalBlock) s
  else
    let l := logicalBlock - 12
    if l < ptrs then walk .hole [l] (iBlock raw 12) s
    else
      let l := l - ptrs
      if l < ptrs * ptrs then walk .hole [l / ptrs, l % ptrs] (iBlock raw 13) s
      else
        let l := l - ptrs * ptrs
        walk .hole [l / (ptrs * ptrs), l / ptrs % ptrs, l % ptrs] (iBlock raw 14) s

/-- `ext2_read_data_block`: the value it returns and the contents of `buf`. -/
def ext2ReadDataBlock (s : Sbi) (raw : Bytes) (logicalBlock : ℕ) (buf : Bytes) :
    (ℤ × Bytes) × Sbi :=
  match readTarget s raw logicalBlock with
  | (.hole, s) => ((0, fun _ => 0), s)
  | (.error e, s) => ((-e.code, buf), s)
  | (.block blk, s) => ((0, s.disk blk), s)

end Aurora.Ext2
