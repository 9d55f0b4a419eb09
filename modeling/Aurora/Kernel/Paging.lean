import Mathlib.Algebra.Group.Nat.Defs
import Mathlib.Data.Nat.Basic
import Mathlib.Logic.Function.Basic

/-!
# Page tables (`pagetable.h`)

Physical memory is a sequence of page frames, each of 512 words of 64 bits. A word is given
by the fields of a page-table entry; it is the same word when it is read as data, byte by
byte. The hardware translates an address through four tables, and a large page ends the
translation early.

## Main definitions

* `Entry`, `Memory`: words and memory.
* `translate`: the address translation of the processor.
* `Machine`, `load`, `store`: the kernel's own accesses through it.
* `userPagePresent`: the walk of `user_page_present`.
-/

namespace Aurora.Paging

/-! ## Memory -/

/-- A word as a page-table entry; `avail` holds the bits that have no name here. -/
structure Entry where
  present : Bool := false
  rw : Bool := false
  user : Bool := false
  accessed : Bool := false
  dirty : Bool := false
  ps : Bool := false
  nx : Bool := false
  /-- The bits of `PTE_ADDR_MASK`: the number of a page frame. -/
  frame : ℕ := 0
  avail : ℕ := 0
  deriving DecidableEq, Repr

namespace Entry

/-- The word: bits 0 to 7, 8 to 11, 12 to 51, 52 to 62 and 63. -/
def toNat (e : Entry) : ℕ :=
  e.present.toNat + 2 * e.rw.toNat + 4 * e.user.toNat + 8 * (e.avail % 4) + 32 * e.accessed.toNat +
    64 * e.dirty.toNat + 128 * e.ps.toNat + 2 ^ 8 * (e.avail / 4 % 2 ^ 4) +
    2 ^ 12 * (e.frame % 2 ^ 40) + 2 ^ 52 * (e.avail / 2 ^ 6 % 2 ^ 11) + 2 ^ 63 * e.nx.toNat

def ofNat (n : ℕ) : Entry where
  present := n % 2 = 1
  rw := n / 2 % 2 = 1
  user := n / 4 % 2 = 1
  accessed := n / 32 % 2 = 1
  dirty := n / 64 % 2 = 1
  ps := n / 128 % 2 = 1
  nx := n / 2 ^ 63 % 2 = 1
  frame := n / 2 ^ 12 % 2 ^ 40
  avail := n / 8 % 4 + 4 * (n / 2 ^ 8 % 2 ^ 4) + 2 ^ 6 * (n / 2 ^ 52 % 2 ^ 11)

end Entry

/-- The words of each page frame. -/
abbrev Memory := ℕ → ℕ → Entry

/-- The byte at a physical address. -/
def getByte (m : Memory) (a : ℕ) : ℕ := (m (a / 4096) (a % 4096 / 8)).toNat / 256 ^ (a % 8) % 256

def setWord (m : Memory) (f i : ℕ) (e : Entry) : Memory :=
  Function.update m f (Function.update (m f) i e)

def putByte (m : Memory) (a b : ℕ) : Memory :=
  let n := (m (a / 4096) (a % 4096 / 8)).toNat
  let n := n - n / 256 ^ (a % 8) % 256 * 256 ^ (a % 8) + b * 256 ^ (a % 8)
  setWord m (a / 4096) (a % 4096 / 8) (Entry.ofNat n)

/-! ## Translation -/

def pml4Idx (va : ℕ) : ℕ := va / 2 ^ 39 % 512
def pdptIdx (va : ℕ) : ℕ := va / 2 ^ 30 % 512
def pdIdx (va : ℕ) : ℕ := va / 2 ^ 21 % 512
def ptIdx (va : ℕ) : ℕ := va / 2 ^ 12 % 512

/-- Where a translation ends: the physical address, and what all levels permit. -/
structure Leaf where
  addr : ℕ
  rw : Bool
  user : Bool
  nx : Bool
  deriving DecidableEq, Repr

/-- The permissions of a path of entries. -/
def Leaf.of (addr : ℕ) (es : List Entry) : Leaf where
  addr := addr
  rw := es.all Entry.rw
  user := es.all Entry.user
  nx := es.any Entry.nx

/-- The translation of an address through the tables at `cr3`. -/
def translate (m : Memory) (cr3 va : ℕ) : Option Leaf :=
  let e₄ := m cr3 (pml4Idx va)
  if !e₄.present then none
  else
    let e₃ := m e₄.frame (pdptIdx va)
    if !e₃.present then none
    else if e₃.ps then some (.of (e₃.frame / 2 ^ 18 * 2 ^ 30 + va % 2 ^ 30) [e₄, e₃])
    else
      let e₂ := m e₃.frame (pdIdx va)
      if !e₂.present then none
      else if e₂.ps then some (.of (e₂.frame / 2 ^ 9 * 2 ^ 21 + va % 2 ^ 21) [e₄, e₃, e₂])
      else
        let e₁ := m e₂.frame (ptIdx va)
        if !e₁.present then none
        else some (.of (e₁.frame * 2 ^ 12 + va % 2 ^ 12) [e₄, e₃, e₂, e₁])

/-- The state that a memory access of the kernel depends on: memory, the current tables, and
whether the processor write-protects pages against the kernel. -/
structure Machine where
  mem : Memory
  cr3 : ℕ
  wp : Bool

/-- A byte that the kernel reads, where `stac` has lifted the protection of user pages; without
a translation there is a fault. -/
def load (s : Machine) (va : ℕ) : Option ℕ :=
  match translate s.mem s.cr3 va with
  | none => none
  | some leaf => some (getByte s.mem leaf.addr)

def store (s : Machine) (va b : ℕ) : Option Machine :=
  match translate s.mem s.cr3 va with
  | none => none
  | some leaf =>
    if s.wp && !leaf.rw then none else some { s with mem := putByte s.mem leaf.addr b }

/-! ## Walking the tables -/

/-- The page frames below `KERNEL_PHYS_MAX`. -/
def identityFrames : ℕ := 2 ^ 18

/-- A page frame that a table can be in: not the first one, whose pointer is null, and
identity-mapped. -/
abbrev InReach (f : ℕ) : Prop := 0 < f ∧ f < identityFrames

/-- `phys_to_virt`, for page frames: a table beyond the identity-mapped range is a panic. -/
def physToVirt (f : ℕ) : Option ℕ := if f ≥ identityFrames then none else some f

/-- `user_page_present`. -/
def userPagePresent (s : Machine) (vaddr : ℕ) : Option Bool :=
  if vaddr > 0x00007FFFFFFFFFFF then some false
  else do
    let pml4 ← physToVirt s.cr3
    let e := s.mem pml4 (pml4Idx vaddr)
    if !e.present then some false
    else
      let pdpt ← physToVirt e.frame
      let e := s.mem pdpt (pdptIdx vaddr)
      if !e.present then some false
      else
        let pd ← physToVirt e.frame
        let e := s.mem pd (pdIdx vaddr)
        if !e.present then some false
        else if e.ps then some true
        else
          let pt ← physToVirt e.frame
          some (s.mem pt (ptIdx vaddr)).present

end Aurora.Paging
