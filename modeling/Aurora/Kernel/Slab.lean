import Aurora.Kernel.Buddy

/-!
# The kernel heap (`mem.c`)

`kmalloc` takes small objects from slab pages and large ones from the page allocator. The
free objects of a cache are linked through their first words, so the heap has memory: words
of 64 bits by their addresses. A pointer is an address, the null pointer is `0`.

The bit `PAGE_FLAG_SLAB` is kept with the fields of a descriptor that belong to the slab
allocator; the page allocator writes the flags of page frames that are on its lists, and
those have not got it. `growing` is set only while `slab_grow` runs, so a sequence of calls
never finds it set.

## Main definitions

* `SlabPage`, `Heap`: the fields of descriptors, and the state.
* `slabGrow`, `kmalloc`, `kfree`: the functions.
-/

namespace Aurora.Slab

open Aurora.Buddy

/-- The fields of `struct page` that belong to the slab allocator; a cache is its index. -/
structure SlabPage where
  isSlab : Bool := false
  slabCache : Option ℕ := none
  slabFreeCount : ℕ := 0
  deriving DecidableEq

/-- The heap. -/
structure Heap where
  buddy : PhysMem
  mem : ℕ → ℕ
  page : ℕ → SlabPage
  /-- `slab_caches[i].free_list`. -/
  freeList : ℕ → ℕ

/-- `slab_size_to_index`. -/
def slabSizeToIndex (size : ℕ) : ℕ :=
  if size ≤ 32 then 0
  else if size ≤ 64 then 1
  else if size ≤ 128 then 2
  else if size ≤ 256 then 3
  else if size ≤ 512 then 4
  else if size ≤ 1024 then 5
  else if size ≤ 2048 then 6
  else 7

/-- `slab_index_to_size`, the `obj_size` of a cache. -/
def slabIndexToSize (idx : ℕ) : ℕ := 32 * 2 ^ idx

/-- The `objs_per_page` of a cache. -/
def objsPerPage (idx : ℕ) : ℕ := pageSize / slabIndexToSize idx

/-- `SLAB_FREE_MAGIC`. -/
def slabFreeMagic : ℕ := 0xDEADBEEFDEADBEEF

/-- `get_page_struct`. -/
def getPageStruct (s : PhysMem) (pa : ℕ) : Option ℕ :=
  match physToPfn pa with
  | none => none
  | some pfn => if pfn ≥ s.totalPhysPages then none else some pfn

/-- `memset(ptr, 0, size)`. -/
def zero (mem : ℕ → ℕ) (ptr size : ℕ) : ℕ → ℕ :=
  fun a => if ptr ≤ a ∧ a < ptr + size then 0 else mem a

namespace Heap

def store (h : Heap) (a v : ℕ) : Heap := { h with mem := Function.update h.mem a v }

def setFreeList (h : Heap) (idx v : ℕ) : Heap :=
  { h with freeList := Function.update h.freeList idx v }

def modifyPage (h : Heap) (pfn : ℕ) (f : SlabPage → SlabPage) : Heap :=
  { h with page := Function.update h.page pfn (f (h.page pfn)) }

/-- `alloc_pages`, which clears what it hands out unless it is of the largest order. -/
def allocPages (h : Heap) (order : ℕ) : Option (Heap × Option ℕ) := do
  let (buddy, ptr) ← Buddy.allocPages h.buddy order
  match ptr with
  | none => some ({ h with buddy }, none)
  | some ptr =>
    let mem := if order < maxOrder then zero h.mem ptr (pageSize * 2 ^ order) else h.mem
    some ({ h with buddy, mem }, some ptr)

def freePages (h : Heap) (ptr order : ℕ) : Option Heap := do
  let buddy ← Buddy.freePages h.buddy ptr order
  some { h with buddy }

/-- An object becomes the first one of the free list. -/
def push (idx : ℕ) (h : Heap) (obj : ℕ) : Heap :=
  (h.store obj (h.freeList idx)).setFreeList idx obj

end Heap

/-! ## Allocating -/

/-- The object size as `slab_grow` adjusts it. -/
def alignedSize (objSize : ℕ) : ℕ :=
  let objSize := if objSize < 8 then 8 else objSize
  (objSize + 7) / 8 * 8

/-- The loop of `slab_grow`: it runs as long as another object fits into the page. -/
def carve (idx base : ℕ) (h : Heap) : Heap :=
  let objSize := alignedSize (slabIndexToSize idx)
  (List.range (pageSize / objSize)).foldl (fun h i => h.push idx (base + i * objSize)) h

/-- `slab_grow`; the answer is false without a page. -/
def slabGrow (h : Heap) (idx : ℕ) : Option (Heap × Bool) := do
  let (h, page) ← h.allocPages 0
  match page with
  | none => some (h, false)
  | some page =>
    let h := carve idx page h
    match getPageStruct h.buddy page with
    | none => some (h, true)
    | some pfn =>
      some (h.modifyPage pfn fun pg =>
        { pg with isSlab := true, slabCache := some idx, slabFreeCount := objsPerPage idx }, true)

/-- The first object of the free list is handed out. -/
def slabPop (h : Heap) (idx : ℕ) : Heap × ℕ :=
  let obj := h.freeList idx
  let h := h.setFreeList idx (h.mem obj)
  let h :=
    match getPageStruct h.buddy obj with
    | none => h
    | some pfn =>
      if (h.page pfn).isSlab ∧ (h.page pfn).slabFreeCount > 0 then
        h.modifyPage pfn fun pg => { pg with slabFreeCount := pg.slabFreeCount - 1 }
      else h
  ({ h with mem := zero h.mem obj (slabIndexToSize idx) }, obj)

/-- `while ((1ULL << order) < pages_needed && order <= MAX_ORDER) order++`. -/
def orderLoop (pagesNeeded : ℕ) : ℕ → ℕ → ℕ
  | 0, order => order
  | steps + 1, order =>
    if 2 ^ order < pagesNeeded ∧ order ≤ maxOrder then orderLoop pagesNeeded steps (order + 1)
    else order

/-- The order of a large allocation. -/
def orderOf (size : ℕ) : ℕ := orderLoop ((size + pageSize - 1) / pageSize) (maxOrder + 1) 0

/-- `kmalloc`. -/
def kmalloc (h : Heap) (size : ℕ) : Option (Heap × Option ℕ) :=
  if size = 0 then some (h, none)
  else if size ≤ pageSize then
    let idx := slabSizeToIndex size
    if h.freeList idx = 0 then do
      let (h, grown) ← slabGrow h idx
      if grown = false ∨ h.freeList idx = 0 then some (h, none)
      else
        let (h, obj) := slabPop h idx
        some (h, some obj)
    else
      let (h, obj) := slabPop h idx
      some (h, some obj)
  else if size > 2 ^ 64 - 1 - pageSize then some (h, none)
  else if orderOf size > maxOrder then some (h, none)
  else h.allocPages (orderOf size)

/-! ## Freeing -/

/-- `*prev_ptr`, where `prev_ptr` points to the free list or to an object. -/
def readLink (h : Heap) (idx : ℕ) : Option ℕ → ℕ
  | none => h.freeList idx
  | some prev => h.mem prev

def writeLink (h : Heap) (idx : ℕ) (v : ℕ) : Option ℕ → Heap
  | none => h.setFreeList idx v
  | some prev => h.store prev v

/-- The loop of `kfree` that takes the objects of a page off the free list. -/
def unlinkPage (idx pageStart pageEnd : ℕ) : ℕ → Option ℕ → ℕ → Heap → Option Heap
  | 0, _, _, _ => none
  | fuel + 1, prev, cur, h =>
    if cur = 0 then some h
    else if cur ≥ pageStart ∧ cur < pageEnd then
      let h := writeLink h idx (h.mem cur) prev
      unlinkPage idx pageStart pageEnd fuel prev (readLink h idx prev) h
    else unlinkPage idx pageStart pageEnd fuel (some cur) (h.mem cur) h

/-- More steps than there are addresses of objects. -/
def unlinkFuel : ℕ := 2 ^ 29

/-- The page goes back to the page allocator. -/
def reclaim (h : Heap) (idx pfn : ℕ) : Option Heap := do
  let physAddr := (h.buddy.pageArray pfn).physAddr
  let h ← unlinkPage idx physAddr (physAddr + pageSize) unlinkFuel none (h.freeList idx) h
  let h := h.modifyPage pfn fun pg =>
    { pg with isSlab := false, slabCache := none, slabFreeCount := 0 }
  h.freePages physAddr 0

/-- The object is cleared, marked and pushed, and the free objects of the page are counted. -/
def giveBack (h : Heap) (idx pfn ptr : ℕ) : Heap :=
  let h := { h with mem := zero h.mem ptr (slabIndexToSize idx) }
  let h := h.store (ptr + 8) slabFreeMagic
  let h := h.push idx ptr
  h.modifyPage pfn fun pg => { pg with slabFreeCount := pg.slabFreeCount + 1 }

/-- `kfree` of an object of a slab page. -/
def slabFree (h : Heap) (idx pfn ptr : ℕ) : Option Heap :=
  if h.mem (ptr + 8) = slabFreeMagic then some h
  else
    let h := giveBack h idx pfn ptr
    if (h.page pfn).slabFreeCount ≥ objsPerPage idx then reclaim h idx pfn
    else some h

/-- `kfree`. -/
def kfree (h : Heap) (ptr : ℕ) : Option Heap :=
  if ptr = 0 then some h
  else
    match getPageStruct h.buddy ptr with
    | none => h.freePages ptr 0
    | some pfn =>
      if (h.page pfn).isSlab then
        match (h.page pfn).slabCache with
        | none => h.freePages (h.buddy.pageArray pfn).physAddr 0
        | some idx => slabFree h idx pfn ptr
      else h.freePages ptr (h.buddy.pageArray pfn).order

end Aurora.Slab
