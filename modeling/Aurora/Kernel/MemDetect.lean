import Mathlib.Algebra.Group.Nat.Defs
import Mathlib.Order.Basic

/-!
# Detecting the amount of memory (`phys_mem_init`)

The first part of `phys_mem_init` reads the boot information that the boot loader
left in memory and computes the amount of RAM, capped at 256 MiB. Memory is a
function from addresses to bytes. The loops over tags and map entries follow sizes
found in memory and may not end, so they take fuel.

## Main definitions

* `mb2TotalRam`, `mb1TotalRam`: the two Multiboot formats.
* `totalRam`: the detected amount; `totalRam_le`: it is at most 256 MiB.
-/

namespace Aurora.MemDetect

open Option

variable {fuel ram res : ℕ} {mem : Memory}

/-- Physical memory, byte by byte. -/
abbrev Memory := ℕ → UInt8

/-- A little-endian 32-bit word. -/
def load32 (mem : Memory) (a : ℕ) : ℕ :=
  (mem a).toNat + (mem (a + 1)).toNat * 2 ^ 8 + (mem (a + 2)).toNat * 2 ^ 16
    + (mem (a + 3)).toNat * 2 ^ 24

/-- A little-endian 64-bit word. -/
def load64 (mem : Memory) (a : ℕ) : ℕ := load32 mem a + load32 mem (a + 4) * 2 ^ 32

/-- The largest amount of memory the allocator manages, 256 MiB. -/
def ramCap : ℕ := 256 * 1024 * 1024

/-- An available region raises the total to its end, capped. -/
def raiseTo (totalRam baseAddr length : ℕ) : ℕ :=
  let endAddr := (baseAddr + length) % 2 ^ 64
  if endAddr > totalRam ∧ baseAddr < ramCap then
    if endAddr > ramCap then ramCap else endAddr
  else totalRam

/-! ## Multiboot 2 -/

/-- The memory map of a tag: `entries` up to `tagEnd`. -/
def mb2Entries (mem : Memory) (entrySize tagEnd : ℕ) : ℕ → ℕ → ℕ → Option ℕ
  | 0, _, _ => none
  | fuel + 1, entries, totalRam =>
    if entries + entrySize ≤ tagEnd then
      let totalRam :=
        if load32 mem (entries + 16) = 1 then
          raiseTo totalRam (load64 mem entries) (load64 mem (entries + 8))
        else totalRam
      mb2Entries mem entrySize tagEnd fuel (entries + entrySize) totalRam
    else some totalRam

/-- The tags of the boot information. -/
def mb2Tags (mem : Memory) (mbInfo totalSize : ℕ) : ℕ → ℕ → ℕ → Option ℕ
  | 0, _, _ => none
  | fuel + 1, tag, totalRam =>
    let type := load32 mem tag
    let size := load32 mem (tag + 4)
    if type ≠ 0 ∧ tag < mbInfo + totalSize then do
      let totalRam :=
        if type = 4 then
          -- `mem_upper + 1024` is a 32-bit sum
          let ram := (load32 mem (tag + 12) + 1024) % 2 ^ 32 * 1024
          if ram > ramCap then ramCap else ram
        else totalRam
      let totalRam ←
        if type = 6 then
          mb2Entries mem (load32 mem (tag + 8)) ((tag + size) % 2 ^ 32) fuel (tag + 16) totalRam
        else some totalRam
      let tagSize := if size < 8 then 8 else size
      -- `(tag_size + 7) & ~7U` in 32 bits
      let tagSize := (tagSize + 7) % 2 ^ 32 / 8 * 8
      mb2Tags mem mbInfo totalSize fuel (tag + tagSize) totalRam
    else some totalRam

def mb2TotalRam (mem : Memory) (mbInfo fuel : ℕ) : Option ℕ :=
  mb2Tags mem mbInfo (load32 mem mbInfo) fuel (mbInfo + 8) 0

/-! ## Multiboot 1 -/

/-- The E820 map from `entries` to `last`; the entry structure is not packed, so its
64-bit fields are at offsets 8 and 16. -/
def mb1Entries (mem : Memory) (last : ℕ) : ℕ → ℕ → ℕ → Option ℕ
  | 0, _, _ => none
  | fuel + 1, entries, e820Total =>
    if entries < last then
      let size := load32 mem entries
      if size < 20 then some e820Total
      else
        let e820Total :=
          if load32 mem (entries + 24) = 1 then
            raiseTo e820Total (load64 mem (entries + 8)) (load64 mem (entries + 16))
          else e820Total
        if size > 2 ^ 32 - 1 - 4 then some e820Total
        else mb1Entries mem last fuel (entries + (size + 4)) e820Total
    else some e820Total

def mb1TotalRam (mem : Memory) (mbInfo fuel : ℕ) : Option ℕ := do
  let flags := load32 mem mbInfo
  let totalRam :=
    if flags % 2 = 1 then
      let ram := (load32 mem (mbInfo + 4) + load32 mem (mbInfo + 8)) * 1024
      if ram > ramCap then ramCap else ram
    else 0
  if flags / 2 ^ 6 % 2 = 1 then
    let mmapAddr := load32 mem (mbInfo + 48)
    let e820Total ← mb1Entries mem (mmapAddr + load32 mem (mbInfo + 44)) fuel mmapAddr 0
    some (if e820Total > 0 then e820Total else totalRam)
  else some totalRam

/-- The amount of RAM found in the boot information; `none` is a null pointer. -/
def detectedRam (mem : Memory) (mbInfo : Option ℕ) (fuel : ℕ) : Option ℕ :=
  match mbInfo with
  | none => some 0
  | some mbInfo =>
    if load32 mem (mbInfo + 4) = 0 ∧ load32 mem mbInfo > 0 ∧ load32 mem mbInfo < 0x100000 then
      mb2TotalRam mem mbInfo fuel
    else mb1TotalRam mem mbInfo fuel

/-- The amount of RAM `phys_mem_init` works with: 64 MiB when nothing was detected. -/
def totalRam (mem : Memory) (mbInfo : Option ℕ) (fuel : ℕ) : Option ℕ := do
  let detected ← detectedRam mem mbInfo fuel
  some (if detected = 0 then 64 * 1024 * 1024 else detected)

/-! ## The cap -/

lemma raiseTo_le {base length : ℕ} (h : ram ≤ ramCap) : raiseTo ram base length ≤ ramCap := by
  simp only [raiseTo]
  split_ifs <;> omega

lemma mb2Entries_le {entrySize tagEnd entries : ℕ}
    (h : mb2Entries mem entrySize tagEnd fuel entries ram = some res) (hram : ram ≤ ramCap) :
    res ≤ ramCap := by
  induction fuel generalizing entries ram with
  | zero => cases h
  | succ fuel ih =>
    simp only [mb2Entries] at h
    split at h
    · refine ih h ?_
      split
      · exact raiseTo_le hram
      · exact hram
    · cases h
      exact hram

lemma mb2Tags_le {mbInfo totalSize tag : ℕ}
    (h : mb2Tags mem mbInfo totalSize fuel tag ram = some res) (hram : ram ≤ ramCap) :
    res ≤ ramCap := by
  induction fuel generalizing tag ram with
  | zero => cases h
  | succ fuel ih =>
    have hbasic : ∀ v, (if load32 mem tag = 4 then if v > ramCap then ramCap else v else ram)
        ≤ ramCap := by
      intro v
      split_ifs <;> omega
    simp only [mb2Tags] at h
    split at h
    · split at h
      · obtain ⟨_, hram', h⟩ := bind_eq_some_iff.1 h
        exact ih h (mb2Entries_le hram' (hbasic _))
      · exact ih h (hbasic _)
    · cases h
      exact hram

lemma mb1Entries_le {last entries : ℕ}
    (h : mb1Entries mem last fuel entries ram = some res) (hram : ram ≤ ramCap) :
    res ≤ ramCap := by
  induction fuel generalizing entries ram with
  | zero => cases h
  | succ fuel ih =>
    simp only [mb1Entries] at h
    have hstep : (if load32 mem (entries + 24) = 1 then
        raiseTo ram (load64 mem (entries + 8)) (load64 mem (entries + 16)) else ram) ≤ ramCap := by
      split
      · exact raiseTo_le hram
      · exact hram
    split at h
    · split at h
      · cases h
        exact hram
      · split at h
        · cases h
          exact hstep
        · exact ih h hstep
    · cases h
      exact hram

lemma mb1TotalRam_le {mbInfo : ℕ} (h : mb1TotalRam mem mbInfo fuel = some res) : res ≤ ramCap := by
  simp only [mb1TotalRam] at h
  have hbasic : ∀ v c, (if c % 2 = 1 then if v > ramCap then ramCap else v else 0) ≤ ramCap := by
    intro v c
    split_ifs <;> omega
  split at h
  · obtain ⟨_, he820, h⟩ := bind_eq_some_iff.1 h
    cases h
    split
    · exact mb1Entries_le he820 (Nat.zero_le _)
    · exact hbasic _ _
  · cases h
    exact hbasic _ _

lemma detectedRam_le {mbInfo : Option ℕ}
    (h : detectedRam mem mbInfo fuel = some res) : res ≤ ramCap := by
  cases mbInfo with
  | none =>
    cases h
    exact Nat.zero_le _
  | some mbInfo =>
    simp only [detectedRam] at h
    split at h
    · exact mb2Tags_le h (Nat.zero_le _)
    · exact mb1TotalRam_le h

/-- Whatever the boot information says, at most 256 MiB are managed. -/
lemma totalRam_le {mbInfo : Option ℕ} (h : totalRam mem mbInfo fuel = some res) : res ≤ ramCap := by
  obtain ⟨_, hdet, h⟩ := bind_eq_some_iff.1 h
  cases h
  split
  · decide
  · exact detectedRam_le hdet

end Aurora.MemDetect
