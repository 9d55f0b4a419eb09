import Aurora.Lib.Bytes

/-!
# The write-ahead journal (`journal.c`)

A device is its bytes. `journalCommit` returns the images the device goes through,
one for each block write that succeeds, so that a crash is the choice of one of them;
`journalRecover` is what a later boot does with such an image.

## Main definitions

* `Geometry`, `Handle`: the in-memory handle.
* `journalBegin`, `journalWrite`, `journalCommit`: a transaction.
* `scan`, `journalRecover`: the replay of the log.
-/

namespace Aurora.Journal

open Lib

/-! ## The block device -/

/-- The bytes of a device. -/
abbrev Disk := ℕ → UInt8

/-- The geometry of a device: bytes per sector and number of sectors. -/
structure BlockDevice where
  blockSize : ℕ
  totalSectors : ℕ
  deriving DecidableEq, Repr

/-- Both transfers check that the sectors exist. -/
def BlockDevice.inRange (bdev : BlockDevice) (sector count : ℕ) : Bool :=
  0 < count && (sector ≤ bdev.totalSectors && count ≤ bdev.totalSectors - sector)

def blockDevRead (bdev : BlockDevice) (disk : Disk) (sector count : ℕ) : Option (List UInt8) :=
  if bdev.inRange sector count then
    some (slice disk (sector * bdev.blockSize) (count * bdev.blockSize))
  else none

def blockDevWrite (bdev : BlockDevice) (disk : Disk) (data : List UInt8) (sector count : ℕ) :
    Option Disk :=
  if bdev.inRange sector count then
    some (blit disk (sector * bdev.blockSize) (data.take (count * bdev.blockSize)))
  else none

/-! ## The handle -/

def magicSb : ℕ := 0x4A524E4C
def magicDesc : ℕ := 0x5452414E
def magicCommit : ℕ := 0x434F4D54

/-- The part of `struct journal_handle` that `journal_init` fixes. -/
structure Geometry where
  bdev : BlockDevice
  blockSize : ℕ
  journalStart : ℕ
  journalBlocks : ℕ
  fsTotalBlocks : ℕ
  deriving DecidableEq, Repr

/-- `struct journal_handle`, with the blocks of the open transaction. -/
structure Handle extends Geometry where
  head : ℕ
  tail : ℕ
  sequence : ℕ
  initialized : Bool
  inTransaction : Bool
  txnCapacity : ℕ
  txn : List (ℕ × List UInt8)
  dirty : Bool
  deriving DecidableEq, Repr

/-- `calc_checksum`: rotate left by one and exclusive or, on 32 bits. -/
def calcChecksum (data : List UInt8) : UInt32 :=
  data.foldl (fun sum b => ((sum <<< 1) ||| (sum >>> 31)) ^^^ b.toUInt32) 0

namespace Geometry

variable (g : Geometry)

def sectorsPerBlock : ℕ := g.blockSize / g.bdev.blockSize

/-- The first sector of a block of the journal area. -/
def journalSector (offset : ℕ) : ℕ :=
  (g.journalStart + offset) % 2 ^ 64 * g.sectorsPerBlock % 2 ^ 64

def readBlock (disk : Disk) (offset : ℕ) : Option (List UInt8) :=
  blockDevRead g.bdev disk (g.journalSector offset) g.sectorsPerBlock

end Geometry

/-! ## Records -/

/-- The fields of the superblock before its checksum. -/
def jsbFields (g : Handle) : List UInt8 :=
  toLE 4 magicSb ++ (toLE 4 g.blockSize ++ (toLE 4 0 ++ (toLE 8 g.journalStart ++
    (toLE 8 g.journalBlocks ++ (toLE 8 g.head ++ (toLE 8 g.tail ++ (toLE 8 g.sequence ++
      toLE 4 (if g.dirty then 1 else 0))))))))

/-- The block that `write_jsb` writes. -/
def jsbBlock (g : Handle) : List UInt8 :=
  jsbFields g ++ (toLE 4 (calcChecksum (jsbFields g)).toNat ++
    List.replicate (g.blockSize - 60) 0)

/-- The entries of a descriptor block. -/
def jdbBytes (e : ℕ × List UInt8) : List UInt8 :=
  toLE 8 e.1 ++ (toLE 4 (calcChecksum e.2).toNat ++ toLE 8 0)

/-- The descriptor block; the checksum of the header is taken while its own field is zero
and covers all but the last four bytes of the header. -/
def descBlock (g : Handle) (seq : ℕ) : List UInt8 :=
  let front := toLE 4 magicDesc ++ (toLE 8 seq ++ toLE 4 g.txn.length)
  let checksum := calcChecksum (front ++ toLE 4 0 ++ List.replicate 12 0)
  let entries := g.txn.flatMap jdbBytes
  front ++ (toLE 4 checksum.toNat ++ (List.replicate 16 0 ++
    (entries ++ List.replicate (g.blockSize - 36 - entries.length) 0)))

/-- The commit block. The record is a local variable shorter than a block, so the rest of
the block is whatever lies behind it on the stack. -/
def commitBlock (seq : ℕ) (stack : List UInt8) : List UInt8 :=
  let front := toLE 4 magicCommit ++ toLE 8 seq
  let checksum := calcChecksum (front ++ toLE 4 0 ++ List.replicate 12 0)
  front ++ (toLE 4 checksum.toNat ++ (List.replicate 16 0 ++ stack))

/-! ## Transactions -/

def journalBegin (g : Handle) (maxBlocks : ℕ) (kmallocOk : Bool) : ℤ × Handle :=
  if !g.initialized then (-1, g)
  else if g.inTransaction then (-1, g)
  else
    let maxBlocks := if maxBlocks = 0 then 1 else maxBlocks
    let descCapacity := (g.blockSize - 36) / 20
    let maxBlocks := if maxBlocks > descCapacity then descCapacity else maxBlocks
    if kmallocOk then
      (0, { g with inTransaction := true, txn := [], txnCapacity := maxBlocks })
    else (-1, g)

/-- `journal_write`: the block number is stored in 32 bits. -/
def journalWrite (g : Handle) (fsBlock : ℕ) (data : List UInt8) (kmallocOk : Bool) :
    ℤ × Handle :=
  if !g.initialized || !g.inTransaction then (-1, g)
  else if g.txn.length ≥ g.txnCapacity then (-1, g)
  else if kmallocOk then (0, { g with txn := g.txn ++ [(fsBlock % 2 ^ 32, data)] })
  else (-1, g)

/-- A block write that a commit issues: what is written where, whether the commit gives up
when it fails, and whether the commit record is on the device afterwards. -/
structure Write where
  sector : ℕ
  data : List UInt8
  fatal : Bool
  committed : Bool

/-- Issues the writes in order. Returns the image after each write that succeeds, and the
last image unless a fatal write failed. -/
def issue (g : Geometry) : Disk → List Write → List (Bool × Disk) × Option Disk
  | disk, [] => ([], some disk)
  | disk, w :: ws =>
    match blockDevWrite g.bdev disk w.data w.sector g.sectorsPerBlock with
    | none => if w.fatal then ([], none) else issue g disk ws
    | some disk =>
      let rest := issue g disk ws
      ((w.committed, disk) :: rest.1, rest.2)

def jsbWrite (g : Handle) (committed : Bool) : Write :=
  { sector := g.journalSector 0, data := jsbBlock g, fatal := false, committed }

/-- Phases 1 and 2 of `journal_commit`: the descriptor and the data. -/
def logWrites (g : Handle) (seq : ℕ) : List Write :=
  { sector := g.journalSector g.head, data := descBlock g seq, fatal := true,
    committed := false } ::
  g.txn.mapIdx fun i e =>
    { sector := g.journalSector (g.head + 1 + i), data := e.2, fatal := true,
      committed := false }

/-- Phase 3: the commit record. -/
def commitWrite (g : Handle) (seq : ℕ) (stack : List UInt8) : Write :=
  { sector := g.journalSector (g.head + 1 + g.txn.length), data := commitBlock seq stack,
    fatal := true, committed := true }

/-- Phase 4: the checkpoint, whose sector number is a 32-bit product. -/
def checkpointWrites (g : Handle) : List Write :=
  g.txn.map fun e =>
    { sector := e.1 * g.sectorsPerBlock % 2 ^ 32, data := e.2, fatal := true, committed := true }

/-- The superblock is marked dirty before the four phases. -/
def commitWrites (g : Handle) (seq : ℕ) (stack : List UInt8) : List Write :=
  jsbWrite g false :: (logWrites g seq ++ commitWrite g seq stack :: checkpointWrites g)

/-- The loop of `advance_head` that gives up the oldest transactions. The size of a transaction
is a sum of 32 bits, and the loop stands still where it comes to 0. -/
def evict (g : Handle) (disk : Disk) : ℕ → ℕ → Option ℕ
  | 0, _ => none
  | fuel + 1, tail =>
    if g.head ≥ (tail + (g.journalBlocks - 1)) % 2 ^ 64 then
      match g.readBlock disk tail with
      | some block =>
        if field block 0 4 = magicDesc then
          evict g disk fuel ((tail + (1 + field block 12 4 + 1) % 2 ^ 32) % 2 ^ 64)
        else evict g disk fuel ((tail + 1) % 2 ^ 64)
      | none => evict g disk fuel ((tail + 1) % 2 ^ 64)
    else some tail

/-- `advance_head`, without its write of the superblock; `none` if it does not return. A turn of
the loop that does not stand still raises the tail, so the head bounds the number of turns. -/
def advanceHead (g : Handle) (disk : Disk) (n : ℕ) : Option Handle :=
  let g := { g with head := g.head + n }
  match evict g disk (g.head + 3) g.tail with
  | none => none
  | some tail =>
    if g.head ≥ g.journalBlocks then
      some { g with head := g.head - g.journalBlocks
                    tail := if tail ≥ g.journalBlocks then tail - g.journalBlocks else tail }
    else some { g with tail }

/-- `journal_commit`: the images the device goes through. -/
def journalCommit (g : Handle) (disk : Disk) (stack : List UInt8) : List (Bool × Disk) :=
  if !g.initialized || !g.inTransaction then []
  else if g.txn = [] then []
  else
    let seq := g.sequence
    let g := { g with sequence := g.sequence + 1, dirty := true }
    let result := issue g.toGeometry disk (commitWrites g seq stack)
    match result.2 with
    | none => result.1
    | some disk =>
      match advanceHead g disk (1 + g.txn.length + 1) with
      | none => result.1
      | some g =>
        result.1 ++
          (issue g.toGeometry disk [jsbWrite g true, jsbWrite { g with dirty := false } true]).1

/-! ## Recovery -/

/-- One entry of a committed transaction is replayed when its block exists and its data has
the checksum that was recorded. -/
def replayEntry (g : Geometry) (pos : ℕ) (desc : List UInt8) (disk : Disk) (i : ℕ) : Disk :=
  let fsBlock := field desc (36 + 20 * i) 8
  if g.fsTotalBlocks > 0 ∧ fsBlock ≥ g.fsTotalBlocks then disk
  else
    match g.readBlock disk ((pos + 1 + i) % 2 ^ 64) with
    | none => disk
    | some data =>
      if (calcChecksum data).toNat = field desc (36 + 20 * i + 8) 4 then
        (blockDevWrite g.bdev disk data (fsBlock * g.sectorsPerBlock % 2 ^ 64)
          g.sectorsPerBlock).getD disk
      else disk

/-- The loop of `journal_recover` up to the position `last`; `beyond` is the memory behind
the block buffer, read when a descriptor announces more entries than fit. -/
def scan (g : Geometry) (beyond : List UInt8) (last : ℕ) : ℕ → ℕ → Disk → Option Disk
  | 0, _, _ => none
  | fuel + 1, pos, disk =>
    if pos < last then
      match g.readBlock disk pos with
      | none => some disk
      | some hdr =>
        if field hdr 0 4 ≠ magicDesc then scan g beyond last fuel ((pos + 1) % 2 ^ 64) disk
        else
          let n := field hdr 12 4
          let commitPos := (pos + 1 + n) % 2 ^ 64
          if commitPos ≥ last then some disk
          else
            match g.readBlock disk commitPos with
            | none => some disk
            | some cmt =>
              -- the header pointer still points into the buffer, so the second test
              -- compares the sequence number of the commit record with itself
              if field cmt 0 4 ≠ magicCommit ∨ field cmt 4 8 ≠ field cmt 4 8 then
                scan g beyond last fuel ((commitPos + 1) % 2 ^ 64) disk
              else
                let disk := (List.range n).foldl (replayEntry g pos (hdr ++ beyond)) disk
                scan g beyond last fuel ((commitPos + 1) % 2 ^ 64) disk
    else some disk

/-- What a boot after a crash does: the superblock is read back, the log is scanned from its
tail to its head, and a clean superblock is written. -/
def journalRecover (g : Handle) (beyond : List UInt8) (disk : Disk) : Option Disk := do
  let jsb ← g.readBlock disk 0
  let g := { g with head := field jsb 28 8, tail := field jsb 36 8, sequence := field jsb 44 8 }
  let disk ← scan g.toGeometry beyond g.head (g.head + 1) g.tail disk
  let g := { g with tail := g.head, dirty := false }
  some ((blockDevWrite g.bdev disk (jsbBlock g) (g.journalSector 0) g.sectorsPerBlock).getD disk)

end Aurora.Journal
