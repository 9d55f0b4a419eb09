import Aurora.Kernel.Paging
import Mathlib.Data.List.Basic

/-!
# Building and cloning page tables (`pagetable.c`)

The functions that build, clone and free page tables, and the part of the page-fault handler
that copies a page on write. A page of physical memory is named by its frame; the allocator
is seen from outside: it hands out any free page frame below the identity-mapped limit, with
cleared memory and a count of one, and the answers it gives are part of the state. A panic in
`phys_to_virt` is a missing result. Reference counts are natural numbers; there are too few
page-table entries for them to reach `2 ^ 32`.

## Main definitions

* `Vm`: memory, page descriptors and the allocator.
* `mapPage`, `unmapPage`, `cloneCurrentPml4`, `cloneKernelPml4`, `freePagetable`.
* `cowFault`, `userLoad`, `userStore`: accesses from user mode.
-/

namespace Aurora.Paging

open List Function

/-! ## Page descriptors -/

/-- What the page allocator knows about a page frame. -/
inductive FrameState where
  /-- There is no descriptor. -/
  | outside
  | reserved
  | free
  | used
  deriving DecidableEq, Repr

/-- Memory, the page descriptors, and the answers of the allocator to come. -/
structure Vm where
  mem : Memory
  state : ℕ → FrameState
  refCount : ℕ → ℕ
  answers : ℕ → Option ℕ
  asked : ℕ

namespace Vm

def write (v : Vm) (f i : ℕ) (e : Entry) : Vm := { v with mem := setWord v.mem f i e }

def setCount (v : Vm) (f n : ℕ) : Vm := { v with refCount := update v.refCount f n }

/-- The next answer of the allocator, if it is a page frame that it may hand out. -/
def offered (v : Vm) : Option ℕ :=
  match v.answers v.asked with
  | none => none
  | some f => if v.state f = .free ∧ InReach f then some f else none

/-- `alloc_page`. -/
def allocPage (v : Vm) : Vm × Option ℕ :=
  match v.offered with
  | none => ({ v with asked := v.asked + 1 }, none)
  | some f =>
    ({ v with mem := update v.mem f fun _ => {}, state := update v.state f .used,
              refCount := update v.refCount f 1, asked := v.asked + 1 }, some f)

/-- `free_page`: it does nothing unless the page frame was handed out. -/
def freePage (v : Vm) (f : ℕ) : Vm :=
  if v.state f = .used then
    { v with state := update v.state f .free, refCount := update v.refCount f 0 }
  else v

/-- `page_ref_inc`. -/
def refInc (v : Vm) (f : ℕ) : Vm :=
  if v.state f = .outside then v else v.setCount f (v.refCount f + 1)

/-- `page_ref_dec`, which recovers from an underflow. -/
def refDec (v : Vm) (f : ℕ) : Vm :=
  if v.state f = .outside then v else v.setCount f (v.refCount f - 1)

/-- The page frame loses a reference, and is freed with the last one. -/
def release (v : Vm) (f : ℕ) : Vm :=
  if v.state f = .outside then v
  else if v.refCount f = 1 then (v.setCount f 0).freePage f
  else v.refDec f

end Vm

/-- A loop over indices that a step may leave; the answer is whether it ran to its end. -/
def loop (body : ℕ → Vm → Option (Vm × Bool)) : List ℕ → Vm → Option (Vm × Bool)
  | [], v => some (v, true)
  | i :: is, v => do
    let (v, ok) ← body i v
    if ok then loop body is v else some (v, false)

/-! ## Mapping and unmapping -/

/-- A table with `PTE_STRUCT_FLAGS`. -/
def structEntry (f : ℕ) : Entry :=
  { present := true, rw := true, user := true, accessed := true, frame := f }

/-- `split_huge_page`: the page frame of the new table, or null. -/
def splitHugePage (v : Vm) (pd idx : ℕ) : Vm × Option ℕ :=
  let e := v.mem pd idx
  if !e.ps then (v, none)
  else
    match v.allocPage with
    | (v, none) => (v, none)
    | (v, some pt) =>
      let v := (range 512).foldl (fun v i =>
        (v.write pt i { e with frame := e.frame + i, ps := false, nx := false, present := true,
                               accessed := true, dirty := true, avail := e.avail % 2 ^ 6 }).refInc
          (e.frame + i)) v
      let v := v.write pd idx (structEntry pt)
      (v.refDec e.frame, some pt)

/-- The table behind an entry, which is created if there is none; null without memory. -/
def nextTable (v : Vm) (f i : ℕ) : Vm × Option ℕ :=
  if !(v.mem f i).present then
    match v.allocPage with
    | (v, none) => (v, none)
    | (v, some t) => (v.write f i (structEntry t), some t)
  else (v, some (v.mem f i).frame)

/-- The table behind an entry of a page directory, where a large page is split. -/
def nextPt (v : Vm) (pd i : ℕ) : Vm × Option ℕ :=
  if (v.mem pd i).present ∧ (v.mem pd i).ps then splitHugePage v pd i else nextTable v pd i

/-- The last step of `map_page`: the entry is written, and the page frame it replaces loses a
reference. -/
def setPte (v : Vm) (pt i frame : ℕ) (flags : Entry) : Vm :=
  let old := v.mem pt i
  let e : Entry := { flags with present := true, frame := frame, avail := flags.avail % 2 ^ 6 }
  if old.present ∧ v.state old.frame ≠ .outside then
    let n := v.refCount old.frame
    let v := v.setCount old.frame (n - 1)
    let v := v.write pt i e
    let v := v.refInc frame
    if n = 1 then v.freePage old.frame else v
  else (v.write pt i e).refInc frame

/-- `map_page`, for the page frame `frame`; the answer is whether it succeeded. -/
def mapPage (v : Vm) (pml4 va frame : ℕ) (flags : Entry) : Option (Vm × Bool) := do
  let pml4 ← physToVirt pml4
  match nextTable v pml4 (pml4Idx va) with
  | (v, none) => some (v, false)
  | (v, some pdpt) =>
    let pdpt ← physToVirt pdpt
    match nextTable v pdpt (pdptIdx va) with
    | (v, none) => some (v, false)
    | (v, some pd) =>
      let pd ← physToVirt pd
      match nextPt v pd (pdIdx va) with
      | (v, none) => some (v, false)
      | (v, some pt) =>
        let pt ← physToVirt pt
        some (setPte v pt (ptIdx va) frame flags, true)

/-- Whether all words of a table are zero. -/
def isEmpty (v : Vm) (f : ℕ) : Bool := (range 512).all fun i => v.mem f i = {}

/-- A table that has become empty is freed, or loses a reference, and its entry is cleared. -/
def dropTable (v : Vm) (f i : ℕ) : Vm :=
  let t := (v.mem f i).frame
  let v := if v.state t = .outside then v
    else if v.refCount t ≤ 1 then v.freePage t else v.refDec t
  v.write f i {}

/-- `unmap_page`. -/
def unmapPage (v : Vm) (pml4 va : ℕ) : Option Vm := do
  let pml4 ← physToVirt pml4
  let e₄ := v.mem pml4 (pml4Idx va)
  if !e₄.present then some v
  else
    let pdpt ← physToVirt e₄.frame
    let e₃ := v.mem pdpt (pdptIdx va)
    if !e₃.present then some v
    else
      let pd ← physToVirt e₃.frame
      let e₂ := v.mem pd (pdIdx va)
      if !e₂.present then some v
      else if e₂.ps then some v
      else
        let pt ← physToVirt e₂.frame
        if !(v.mem pt (ptIdx va)).present then some v
        else
          let v := v.write pt (ptIdx va) {}
          if !isEmpty v pt then some v
          else
            let v := dropTable v pd (pdIdx va)
            if !isEmpty v pd then some v
            else
              let v := dropTable v pdpt (pdptIdx va)
              if !isEmpty v pdpt then some v
              else some (dropTable v pml4 (pml4Idx va))

/-! ## Freeing -/

/-- The page frames of the entries of a last-level table are released, then the table. -/
def freePt (v : Vm) (pt : ℕ) : Vm :=
  ((range 512).foldl
    (fun v l => if (v.mem pt l).present then v.release (v.mem pt l).frame else v) v).freePage pt

/-- The loop over a page directory, which skips large pages; then the directory is freed. -/
def freePd (v : Vm) (pd : ℕ) : Option Vm := do
  let v ← (range 512).foldlM (fun v k =>
    let e := v.mem pd k
    if !e.present ∨ e.ps then some v
    else do
      let pt ← physToVirt e.frame
      some (freePt v pt)) v
  some (v.freePage pd)

/-- `free_pagetable_subtree`. -/
def freePagetableSubtree (v : Vm) (pdpt start : ℕ) : Option Vm :=
  if pdpt = 0 then some v
  else do
    let pdpt ← physToVirt pdpt
    let v ← (range' start (512 - start)).foldlM (fun v j =>
      let e := v.mem pdpt j
      if !e.present ∨ e.ps then some v
      else do
        let pd ← physToVirt e.frame
        freePd v pd) v
    some (v.freePage pdpt)

/-- The loop of `free_pagetable` over a PDPT other than the first: a large page is released. -/
def freePdpt (v : Vm) (pdpt : ℕ) : Option Vm := do
  let pdpt ← physToVirt pdpt
  let v ← (range 512).foldlM (fun v j =>
    let e := v.mem pdpt j
    if !e.present then some v
    else if e.ps then some (v.release e.frame)
    else do
      let pd ← physToVirt e.frame
      freePd v pd) v
  some (v.freePage pdpt)

/-- `free_pagetable`. -/
def freePagetable (v : Vm) (pml4 : ℕ) : Option Vm :=
  if pml4 = 0 then some v
  else do
    let pml4 ← physToVirt pml4
    let v ← (range 256).foldlM (fun v i =>
      let e := v.mem pml4 i
      if !e.present then some v
      else if i = 0 then freePagetableSubtree v e.frame 1
      else freePdpt v e.frame) v
    some (v.freePage pml4)

/-! ## Cloning -/

/-- An entry as it is shared: without write permission. -/
def Entry.cow (e : Entry) : Entry := { e with rw := false }

/-- One entry of a last-level table: shared read-only by parent and child. -/
def clonePte (srcPt dstPt l : ℕ) (v : Vm) : Vm :=
  let e := v.mem srcPt l
  if !e.present then v.write dstPt l {}
  else ((v.refInc e.frame).write srcPt l e.cow).write dstPt l e.cow

/-- One entry of a page directory; large pages are skipped. -/
def clonePde (srcPd dstPd k : ℕ) (v : Vm) : Option (Vm × Bool) :=
  let e := v.mem srcPd k
  if !e.present then some (v.write dstPd k {}, true)
  else if e.ps then some (v.write dstPd k {}, true)
  else
    match v.allocPage with
    | (v, none) => some (v, false)
    | (v, some pt) => do
      let v := v.write dstPd k (structEntry pt)
      let srcPt ← physToVirt e.frame
      let v := (range 512).foldl (fun v l => clonePte srcPt pt l v) v
      some (v, true)

/-- The page directory behind an entry of a PDPT. -/
def clonePd (dstPdpt j : ℕ) (e : Entry) (v : Vm) : Option (Vm × Bool) :=
  match v.allocPage with
  | (v, none) => some (v, false)
  | (v, some pd) => do
    let v := v.write dstPdpt j (structEntry pd)
    let srcPd ← physToVirt e.frame
    loop (clonePde srcPd pd) (range 512) v

/-- One entry of the first PDPT, where large pages are shared read-only. -/
def clonePdpte0 (srcPdpt dstPdpt j : ℕ) (v : Vm) : Option (Vm × Bool) :=
  let e := v.mem srcPdpt j
  if !e.present then some (v.write dstPdpt j {}, true)
  else if e.ps then
    some (((v.refInc e.frame).write srcPdpt j e.cow).write dstPdpt j e.cow, true)
  else clonePd dstPdpt j e v

/-- One entry of any other PDPT, where large pages are not looked for. -/
def clonePdpte (srcPdpt dstPdpt j : ℕ) (v : Vm) : Option (Vm × Bool) :=
  let e := v.mem srcPdpt j
  if !e.present then some (v.write dstPdpt j {}, true)
  else clonePd dstPdpt j e v

/-- One entry of the upper user part of the PML4. -/
def clonePml4e (srcPml4 dstPml4 i : ℕ) (v : Vm) : Option (Vm × Bool) :=
  let e := v.mem srcPml4 i
  if !e.present then some (v.write dstPml4 i {}, true)
  else
    match v.allocPage with
    | (v, none) => some (v, false)
    | (v, some pdpt) => do
      let v := v.write dstPml4 i (structEntry pdpt)
      let srcPdpt ← physToVirt e.frame
      loop (clonePdpte srcPdpt pdpt) (range 512) v

/-- The entries of the kernel half, which are shared. -/
def copyKernelHalf (src dst : ℕ) (v : Vm) : Vm :=
  (range' 256 256).foldl (fun v i => v.write dst i (v.mem src i)) v

/-- The first entry of the PML4: a new PDPT shares its first entry, the identity mapping, and
clones the others. -/
def cloneLow (src dst : ℕ) (v : Vm) : Option (Vm × Bool) := do
  let v := v.write dst 0 (v.mem src 0)
  let srcPdpt ← physToVirt (v.mem src 0).frame
  match v.allocPage with
  | (v, none) => some (v.write dst 0 {}, false)
  | (v, some pdpt) =>
    let v := v.write pdpt 0 (v.mem srcPdpt 0)
    let (v, ok) ← loop (clonePdpte0 srcPdpt pdpt) (range' 1 511) v
    if ok then some (v.write dst 0 (structEntry pdpt), true)
    else
      let v ← freePagetableSubtree v pdpt 1
      some (v.write dst 0 {}, false)

/-- `clone_current_pml4` in the address space `cr3`: the new PML4, or null. -/
def cloneCurrentPml4 (v : Vm) (cr3 : ℕ) : Option (Vm × Option ℕ) :=
  match v.allocPage with
  | (v, none) => some (v, none)
  | (v, some dst) => do
    let src ← physToVirt cr3
    let v := copyKernelHalf src dst v
    let (v, ok) ← cloneLow src dst v
    let (v, ok) ← if ok then loop (clonePml4e src dst) (range' 1 255) v else some (v, false)
    if ok then some (v, some dst)
    else
      let v ← freePagetable v dst
      some (v, none)

/-- `clone_kernel_pml4`; without memory the kernel's own tables are returned. -/
def cloneKernelPml4 (v : Vm) (kernelCr3 : ℕ) : Option (Vm × ℕ) :=
  match v.allocPage with
  | (v, none) => some (v, kernelCr3)
  | (v, some dst) => do
    let src ← physToVirt kernelCr3
    let v := copyKernelHalf src dst v
    some (v.write dst 0 (v.mem src 0), dst)

/-! ## Accesses from user mode -/

/-- The part of `pf_handler_c` for a write to a page that is present; the answer is false when
the task gets a signal instead. The page is copied through its virtual address. -/
def cowFault (v : Vm) (cr3 va : ℕ) : Option (Vm × Bool) := do
  let pml4 ← physToVirt cr3
  let e₄ := v.mem pml4 (pml4Idx va)
  if !e₄.present then none
  else
    let pdpt ← physToVirt e₄.frame
    let e₃ := v.mem pdpt (pdptIdx va)
    if !e₃.present then none
    else
      let pd ← physToVirt e₃.frame
      let e₂ := v.mem pd (pdIdx va)
      if !e₂.present then none
      else
        let v ← if e₂.ps then
            match splitHugePage v pd (pdIdx va) with
            | (_, none) => none
            | (v, some _) => some v
          else some v
        let pt ← physToVirt (v.mem pd (pdIdx va)).frame
        let pte := v.mem pt (ptIdx va)
        if !pte.present then none
        else
          let ref := if v.state pte.frame = .outside then 0 else v.refCount pte.frame
          if ref ≤ 1 then some (v.write pt (ptIdx va) { pte with rw := true }, true)
          else
            match v.allocPage with
            | (v, none) => some (v, false)
            | (v, some new) =>
              match translate v.mem cr3 (va / 4096 * 4096) with
              | none => none
              | some leaf =>
                let v := { v with mem := update v.mem new (v.mem (leaf.addr / 4096)) }
                let v := v.write pt (ptIdx va)
                  { present := true, rw := true, user := pte.user, nx := pte.nx, frame := new }
                some (v.release pte.frame, true)

/-- The word that user mode reads at an address. -/
def userLoad (v : Vm) (cr3 va : ℕ) : Option Entry :=
  match translate v.mem cr3 va with
  | none => none
  | some leaf =>
    if leaf.user then some (v.mem (leaf.addr / 4096) (leaf.addr % 4096 / 8)) else none

/-- A store that the tables permit. -/
def directStore (v : Vm) (cr3 va : ℕ) (w : Entry) : Option Vm :=
  match translate v.mem cr3 va with
  | none => none
  | some leaf =>
    if leaf.user ∧ leaf.rw then
      some (v.write (leaf.addr / 4096) (leaf.addr % 4096 / 8) w)
    else none

/-- A store from user mode: to a page that is not writable it is tried again after the fault. -/
def userStore (v : Vm) (cr3 va : ℕ) (w : Entry) : Option Vm :=
  match translate v.mem cr3 va with
  | none => none
  | some leaf =>
    if !leaf.user then none
    else if leaf.rw then directStore v cr3 va w
    else
      match cowFault v cr3 va with
      | some (v, true) => directStore v cr3 va w
      | _ => none

end Aurora.Paging
