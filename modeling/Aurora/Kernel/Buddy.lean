import Aurora.Kernel.MemDetect
import Aurora.Lib.PtrList

/-!
# The buddy allocator (`mem.c`)

Page descriptors are named by their index in `page_array`, the page frame number; a
null pointer is `none`. Functions that walk a list return an `Option`: `none` stands
for a walk that has not ended after more steps than there are descriptors.

## Main definitions

* `Page`, `PhysMem`: a descriptor, and the allocator's static data.
* `listAdd`, `listDel`: the free lists.
* `buddySplit`, `buddyMerge`: the core.
* `physMemInit`, `allocPages`, `freePages`: the interface.
-/

namespace Aurora.Buddy

open Lib

/-! ## Data -/

def pageSize : ℕ := 4096
def maxOrder : ℕ := 10
def buddyMaxPages : ℕ := 65536
def physMemBase : ℕ := 0x100000
def kernelPhysMax : ℕ := 0x40000000

/-- The bits of `flags` that the allocator reads. -/
structure PageFlags where
  free : Bool := false
  reserved : Bool := false
  deriving DecidableEq, Repr

/-- `struct page`, without the fields that the page allocator never reads. -/
structure Page where
  flags : PageFlags := {}
  order : ℕ := 0
  refCount : ℕ := 0
  physAddr : ℕ := 0
  next : Option ℕ := none
  deriving DecidableEq, Repr

/-- The static data of the allocator. -/
structure PhysMem where
  pageArray : ℕ → Page
  freeArea : ℕ → Option ℕ
  totalPhysPages : ℕ
  statTotalPages : ℕ
  statUsedPages : ℕ

namespace PhysMem

/-- The `next` links. -/
def next (s : PhysMem) (p : ℕ) : Option ℕ := (s.pageArray p).next

/-- A write to one descriptor. -/
def modifyPage (s : PhysMem) (p : ℕ) (f : Page → Page) : PhysMem :=
  { s with pageArray := Function.update s.pageArray p (f (s.pageArray p)) }

def setHead (s : PhysMem) (k : ℕ) (p : Option ℕ) : PhysMem :=
  { s with freeArea := Function.update s.freeArea k p }

end PhysMem

/-! ## Helpers -/

def physToPfn (pa : ℕ) : Option ℕ :=
  if pa < physMemBase then none else some ((pa - physMemBase) / pageSize)

def pfnToPhys (pfn : ℕ) : ℕ := physMemBase + pfn * pageSize

def getBuddy (s : PhysMem) (p order : ℕ) : Option ℕ :=
  let buddyPfn := p ^^^ 2 ^ order
  if buddyPfn ≥ s.totalPhysPages then none else some buddyPfn

def listAdd (s : PhysMem) (k p : ℕ) : PhysMem :=
  (s.modifyPage p fun page => { page with next := s.freeArea k }).setHead k (some p)

def listDel (s : PhysMem) (k p : ℕ) : Option PhysMem :=
  if s.freeArea k = some p then
    some ((s.setHead k (s.next p)).modifyPage p fun page => { page with next := none })
  else do
    let prev ← findPrev s.next p (buddyMaxPages + 1) (s.freeArea k)
    match prev with
    | none => some s
    | some prev =>
      some ((s.modifyPage prev fun page => { page with next := s.next p }).modifyPage p
        fun page => { page with next := none })

/-! ## Building the page array -/

/-- Both loops over a range of page frames clamp it to the array. -/
def clampedRange (startPfn endPfn : ℕ) : List ℕ :=
  if startPfn ≥ buddyMaxPages then []
  else List.range' startPfn (min endPfn buddyMaxPages - startPfn)

/-- The body of the loop of `buddy_mark_reserved`. -/
def markReserved (s : PhysMem) (pfn : ℕ) : PhysMem :=
  s.modifyPage pfn fun page => { page with flags := { page.flags with reserved := true } }

def buddyMarkReserved (s : PhysMem) (startPfn endPfn : ℕ) : PhysMem :=
  (clampedRange startPfn endPfn).foldl markReserved s

/-- The body of the loop of `buddy_mark_available`. -/
def markAvailable (s : PhysMem) (pfn : ℕ) : PhysMem :=
  if (s.pageArray pfn).flags.reserved then s
  else
    let s := s.modifyPage pfn fun _ =>
      { flags := { free := true }, order := 0, refCount := 0, physAddr := pfnToPhys pfn,
        next := none }
    let s := listAdd s 0 pfn
    { s with statTotalPages := s.statTotalPages + 1 }

def buddyMarkAvailable (s : PhysMem) (startPfn endPfn : ℕ) : PhysMem :=
  (clampedRange startPfn endPfn).foldl markAvailable s

/-! ## Splitting and merging -/

/-- The two halves of a split become free blocks of the next smaller order. -/
def splitPage (s : PhysMem) (pfn newOrder : ℕ) : PhysMem :=
  s.modifyPage pfn fun page =>
    { page with flags := { free := true }, order := newOrder, physAddr := pfnToPhys pfn,
                refCount := 0 }

/-- `buddy_split`: the result is null on failure. -/
def buddySplit (s : PhysMem) (order : ℕ) : Option (PhysMem × Option ℕ) :=
  if order = 0 ∨ order > maxOrder then some (s, none)
  else
    match s.freeArea order with
    | none => some (s, none)
    | some pfn => do
      let s ← listDel s order pfn
      let newOrder := order - 1
      let buddyPfn := pfn + 2 ^ newOrder
      if buddyPfn ≥ s.totalPhysPages then some (listAdd s order pfn, none)
      else
        let s := splitPage s pfn newOrder
        let s := splitPage s buddyPfn newOrder
        let s := listAdd s newOrder pfn
        let s := listAdd s newOrder buddyPfn
        some (s, some pfn)

/-- The descriptors after a merge: the base takes the larger order, the other half is
cleared. -/
def mergePages (s : PhysMem) (basePfn other order : ℕ) : PhysMem :=
  let s := s.modifyPage basePfn fun page =>
    { page with flags := { free := true }, order := order + 1, physAddr := pfnToPhys basePfn }
  s.modifyPage other fun page => { page with flags := {}, order := 0, next := none }

/-- One level of `buddy_merge`: the block and its buddy become one block, whose base is
returned; null when there is nothing to merge with. -/
def mergeOnce (s : PhysMem) (p : ℕ) : Option (PhysMem × Option ℕ) :=
  let order := (s.pageArray p).order
  if order ≥ maxOrder then some (s, none)
  else
    match getBuddy s p order with
    | none => some (s, none)
    | some buddy =>
      if !(s.pageArray buddy).flags.free then some (s, none)
      else if (s.pageArray buddy).order ≠ order then some (s, none)
      else do
        let s ← listDel s order p
        let s ← listDel s order buddy
        let basePfn := if p < buddy then p else buddy
        let other := if p < buddy then buddy else p
        let s := mergePages s basePfn other order
        some (listAdd s (order + 1) basePfn, some basePfn)

/-- `buddy_merge`: the recursion ends because each level raises the order. -/
def buddyMergeFrom : ℕ → PhysMem → ℕ → Option (PhysMem × ℕ)
  | 0, _, _ => none
  | fuel + 1, s, p => do
    let (s, merged) ← mergeOnce s p
    match merged with
    | none => some (s, p)
    | some merged => buddyMergeFrom fuel s merged

def buddyMerge (s : PhysMem) (p : ℕ) : Option (PhysMem × ℕ) := buddyMergeFrom (maxOrder + 1) s p

/-! ## Coalescing at boot -/

/-- The inner loop of `buddy_coalesce_all`: it stops at the first merge that moved the
block, and reports it. -/
def coalesceWalk : ℕ → PhysMem → Option ℕ → Option (PhysMem × Bool)
  | 0, _, _ => none
  | _ + 1, s, none => some (s, false)
  | fuel + 1, s, some p =>
    if !(s.pageArray p).flags.free then coalesceWalk fuel s (s.next p)
    else do
      let (s, result) ← buddyMerge s p
      if result ≠ p then some (s, true) else coalesceWalk fuel s (s.next p)

/-- More steps than any walk takes: between two merges it advances along a list. -/
def walkFuel : ℕ := (buddyMaxPages + 1) * (buddyMaxPages + 1)

/-- The `do … while (merged)` loop at one order. -/
def coalesceOrder : ℕ → PhysMem → ℕ → Option PhysMem
  | 0, _, _ => none
  | fuel + 1, s, order => do
    let (s, merged) ← coalesceWalk walkFuel s (s.freeArea order)
    if merged then coalesceOrder fuel s order else some s

def buddyCoalesceAll (s : PhysMem) : Option PhysMem :=
  (List.range maxOrder).foldlM (coalesceOrder (buddyMaxPages + 1)) s

/-! ## The interface -/

/-- The allocator's data before any page is added. -/
def emptyMem (totalPhysPages statTotalPages statUsedPages : ℕ) : PhysMem :=
  { pageArray := fun _ => {}, freeArea := fun _ => none, totalPhysPages, statTotalPages,
    statUsedPages }

def kernelReservedPages : ℕ := 2 * 1024 * 1024 / pageSize

/-- The part of both boots that reserves the low region and the heap. -/
def reserveKernel (s : PhysMem) : PhysMem :=
  let s := buddyMarkReserved s 0 kernelReservedPages
  let heapStartPfn := 8 * 1024 * 1024 / pageSize
  let heapEndPfn := 32 * 1024 * 1024 / pageSize
  let heapEndPfn := if heapEndPfn > s.totalPhysPages then s.totalPhysPages else heapEndPfn
  buddyMarkReserved s heapStartPfn heapEndPfn

/-- The part of `phys_mem_init` after the detection of memory. -/
def buildBuddy (totalRam : ℕ) : Option PhysMem :=
  let s := emptyMem (totalRam / pageSize) 0 0
  let s := reserveKernel s
  let s := buddyMarkAvailable s kernelReservedPages s.totalPhysPages
  buddyCoalesceAll s

/-- `phys_mem_init` at boot; `fuel` bounds the reading of the boot information. -/
def physMemInit (mem : MemDetect.Memory) (mbInfo : Option ℕ) (fuel : ℕ) : Option PhysMem := do
  let totalRam ← MemDetect.totalRam mem mbInfo fuel
  buildBuddy totalRam

/-- The smallest order from `order` on with a free block; `maxOrder + 1` when there is
none. -/
def findOrder (s : PhysMem) : ℕ → ℕ → ℕ
  | 0, order => order
  | steps + 1, order =>
    if order ≤ maxOrder ∧ s.freeArea order = none then findOrder s steps (order + 1) else order

/-- Splitting from `order + steps` down to `order`; `false` when a split fails. -/
def splitDown (order : ℕ) : ℕ → PhysMem → Option (PhysMem × Bool)
  | 0, s => some (s, true)
  | steps + 1, s => do
    let (s, left) ← buddySplit s (order + steps + 1)
    match left with
    | none => some (s, false)
    | some _ => splitDown order steps s

/-- Giving `2 ^ order` pages back to the count of used pages, without underflow. -/
def releaseUsed (s : PhysMem) (order : ℕ) : PhysMem :=
  { s with statUsedPages :=
      if s.statUsedPages ≥ 2 ^ order then s.statUsedPages - 2 ^ order else 0 }

/-- Handing out the first block of a free list. -/
def takeHead (s : PhysMem) (order : ℕ) : Option (PhysMem × Option ℕ) :=
  match s.freeArea order with
  | none => some (s, none)
  | some p => do
    let s ← listDel s order p
    let s := s.modifyPage p fun page =>
      { page with flags := { page.flags with free := false }, order := order, refCount := 1 }
    let s := { s with statUsedPages := s.statUsedPages + 2 ^ order }
    let pa := (s.pageArray p).physAddr
    if pa ≥ kernelPhysMax then
      let s := s.modifyPage p fun page =>
        { page with flags := { page.flags with free := true }, order := order, refCount := 0 }
      some (releaseUsed (listAdd s order p) order, none)
    else some (s, some pa)

/-- `alloc_pages`: the physical address, or null. -/
def allocPages (s : PhysMem) (order : ℕ) : Option (PhysMem × Option ℕ) :=
  if order > maxOrder then some (s, none)
  else
    let currentOrder := findOrder s (maxOrder + 1) order
    if currentOrder > maxOrder then some (s, none)
    else do
      let (s, ok) ← splitDown order (currentOrder - order) s
      if ok then takeHead s order else some (s, none)

/-- `free_pages`; `ptr = 0` is the null pointer. -/
def freePages (s : PhysMem) (ptr order : ℕ) : Option PhysMem :=
  if ptr = 0 then some s
  else if order > maxOrder then some s
  else
    match physToPfn ptr with
    | none => some s
    | some pfn =>
      if pfn ≥ s.totalPhysPages then some s
      else if (s.pageArray pfn).flags.reserved then some s
      else if (s.pageArray pfn).flags.free then some s
      else if order > (s.pageArray pfn).order ∧ (s.pageArray pfn).order ≠ 0 then some s
      else do
        let s := s.modifyPage pfn fun page =>
          { page with flags := { page.flags with free := true }, order := order, refCount := 0 }
        let s := releaseUsed (listAdd s order pfn) order
        let (s, _) ← buddyMerge s pfn
        some s

end Aurora.Buddy
