import Aurora.Lib.Run
import Mathlib.Algebra.Group.Int.Defs
import Mathlib.Algebra.GroupWithZero.Nat

/-!
# Where `mmap` places a region

`sys_mmap` (`syscall.c`) without `MAP_FIXED` takes address ranges from a cursor of the process:
random at first, moved on by every call, and put back to the start of the area by a call that
would run past the end of user space. It looks neither at the break, which `sys_brk` and
`sys_sbrk` move, nor at the stack.

## Main definitions

* `Process`, `sysMmap`, `sysBrk`, `sysSbrk`: the cursor, the break and the calls.
* `Lap`, `Process.position`: the calls since the cursor was last put back, and where the next
  region comes by their lengths.
* `Placed`: a region that a call returns lies in user space, apart from all others.
* `Clear`: the heap, the stack and the regions of earlier laps are not in the way.
* `placed_iff`: when regions are placed well.
-/

namespace Aurora.Mmap

open Lib

/-- The last address of user space. -/
def userEnd : ℕ := 0x7FFFFFFFFFFF

/-- The start of the area for regions. -/
def areaStart : ℕ := 0x7F0000000000

/-- `ASLR_MMAP_BASE` -/
def aslrMmapBase : ℕ := 0x70000000000

/-- The start of the heap. -/
def heapStart : ℕ := 0x70000000

/-- The addresses from `start` up to, not including, `stop`. -/
structure Range where
  start : ℕ
  stop : ℕ
  deriving DecidableEq, Repr

def Range.Apart (r t : Range) : Prop := r.stop ≤ t.start ∨ t.stop ≤ r.start

instance (r t : Range) : Decidable (r.Apart t) := inferInstanceAs (Decidable (_ ∨ _))

/-- What the calls since the cursor was last put back come to: where they started, their rounded
lengths, and the regions returned before. -/
structure Lap where
  base : ℕ := 0
  sizes : List ℕ := []
  old : List Range := []

/-- The fields of a task that the calls use, its stack and the regions that were returned; and,
for the statements only, the lap of the cursor. -/
structure Process where
  mmapBase : ℕ := 0
  brk : ℕ := heapStart
  stack : Range
  regions : List Range := []
  lap : Lap := {}

def Process.heap (p : Process) : Range := ⟨heapStart, p.brk⟩

/-- A process with the stack of `elf_setup_user_stack`: 16 pages below an address that
`aslr_randomize_stack` takes from a random number. -/
def Process.start (rand : ℕ) : Process :=
  let top := 0x7FFFF0000000 + rand % 2 ^ 18 * 4096
  { stack := ⟨top - 16 * 4096, top⟩ }

/-- The arguments of `sys_mmap`: with `MAP_HUGETLB` the address is rounded up, which fails at the
end of the address space. -/
structure Call where
  addr : ℕ
  length : ℕ
  anonymous : Bool := true
  hugetlb : Bool := false
  deriving DecidableEq, Repr

inductive Errno where
  | enosys | einval | enomem
  deriving DecidableEq, Repr

/-- The checks of the arguments. -/
def Call.check (c : Call) : Except Errno Unit :=
  if !c.anonymous then .error .enosys
  else if c.length = 0 then .error .einval
  else if 2 ^ 64 - 4096 < c.length then .error .enomem
  else if c.hugetlb ∧ 2 ^ 64 - 1 - 0x1FFFFF < c.addr then .error .einval
  else .ok ()

/-- `num_pages`, in bytes. -/
def Call.size (c : Call) : ℕ := (c.length + 4095) / 4096 * 4096

/-- The cursor a call finds; `rand` is what `chacha20_random_bytes` yields. -/
def Process.cursor (p : Process) (rand : Option ℕ) : ℕ :=
  if p.mmapBase = 0 then
    let base := areaStart + (rand.map fun r => r % 2 ^ 30 * 4096).getD 0
    if base = 0 then aslrMmapBase else base
  else p.mmapBase

/-- A range of this length from `va` on wraps around or leaves user space. -/
def Leaves (va length : ℕ) : Prop :=
  (va + length) % 2 ^ 64 < va ∨ userEnd < (va + length) % 2 ^ 64

instance (va length : ℕ) : Decidable (Leaves va length) := inferInstanceAs (Decidable (_ ∨ _))

/-- `sys_mmap` without `MAP_FIXED`; `memory` says whether the pages can be allocated and
mapped. -/
def sysMmap (p : Process) (c : Call) (rand : Option ℕ) (memory : Bool) :
    Process × Except Errno ℕ :=
  match c.check with
  | .error e => (p, .error e)
  | .ok () =>
    let va := p.cursor rand
    let base := if Leaves va c.length then areaStart else va
    let p := { p with mmapBase := (base + c.size) % 2 ^ 64 }
    if Leaves va c.length then (p, .error .enomem)
    else if !memory then (p, .error .enomem)
    else ({ p with regions := ⟨va, va + c.length⟩ :: p.regions }, .ok va)

/-- `sys_brk`, which has no upper bound. -/
def sysBrk (p : Process) (addr : ℕ) : Process :=
  if addr = 0 then p else if addr < heapStart then p else { p with brk := addr }

/-- `sys_sbrk` -/
def sysSbrk (p : Process) (increment : ℤ) (memory : Bool) : Process :=
  let brk := ((p.brk + increment) % 2 ^ 64).toNat
  if increment = 0 then p
  else if increment < 0 ∧ brk < heapStart then p
  else if 0 < increment ∧ brk < p.brk then p
  else if userEnd < brk then p
  else if 0 < increment ∧ !memory then p
  else { p with brk := brk }

/-- Where a lap starts: at a random page of the area, if no call has been made or the cursor has
come to 0. -/
def Lap.start (l : Lap) (rand : Option ℕ) : ℕ :=
  if l.base = 0 then areaStart + (rand.map fun r => r % 2 ^ 30 * 4096).getD 0 else l.base

/-- Where the next region comes: behind the rounded lengths of the calls of the lap. -/
def Process.position (p : Process) (rand : Option ℕ) : ℕ := p.lap.start rand + p.lap.sizes.sum

/-- A call goes on with the lap, or begins another one if it passes the end of user space. -/
def Process.nextLap (p : Process) (c : Call) (rand : Option ℕ) : Lap :=
  if c.check = .ok () then
    if p.position rand + c.length ≤ userEnd then
      { p.lap with base := p.lap.start rand, sizes := c.size :: p.lap.sizes }
    else ⟨(areaStart + c.size) % 2 ^ 64, [], p.regions⟩
  else p.lap

inductive Op where
  | mmap (c : Call) (rand : Option ℕ) (memory : Bool)
  | brk (addr : ℕ)
  | sbrk (increment : ℤ) (memory : Bool)
  deriving DecidableEq, Repr

def step (p : Process) : Op → Option Process
  | .mmap c rand memory => some { (sysMmap p c rand memory).1 with lap := p.nextLap c rand }
  | .brk addr => some (sysBrk p addr)
  | .sbrk increment memory => some (sysSbrk p increment memory)

/-- The region that a call returns lies in user space, apart from the regions returned before,
the heap and the stack. -/
def Placed (p : Process) : Op → Prop
  | .mmap c rand memory => ∀ va, (sysMmap p c rand memory).2 = .ok va →
      va + c.length ≤ userEnd ∧ (∀ r ∈ p.regions, Range.Apart ⟨va, va + c.length⟩ r) ∧
        Range.Apart ⟨va, va + c.length⟩ p.heap ∧ Range.Apart ⟨va, va + c.length⟩ p.stack
  | _ => True

/-- Where there is room for a region at its position in user space, and memory, the break is below
that position, the stack ends below it or starts behind the region, and no region of an earlier lap
is in the way. -/
def Clear (p : Process) : Op → Prop
  | .mmap c rand memory =>
      c.check = .ok () → memory = true → p.position rand + c.length ≤ userEnd →
      (p.brk ≤ p.position rand ∨ p.position rand + c.length ≤ heapStart) ∧
        (p.stack.stop ≤ p.position rand ∨ p.position rand + c.length ≤ p.stack.start) ∧
        ∀ r ∈ p.lap.old, r.stop ≤ p.position rand ∨ p.position rand + c.length ≤ r.start
  | _ => True

/-- **The invariant**: the cursor is where the lap says, behind every region of the lap. -/
structure Tracked (p : Process) : Prop where
  cursor : p.mmapBase = p.lap.base + p.lap.sizes.sum
  fresh : p.lap.base = 0 → p.lap.sizes = []
  lt : p.mmapBase < 2 ^ 64
  old : ∀ r ∈ p.lap.old, r ∈ p.regions
  regions : ∀ r ∈ p.regions, r ∈ p.lap.old ∨ p.lap.base ≠ 0 ∧ r.stop ≤ p.mmapBase

section

variable {p : Process} {c : Call} {rand : Option ℕ} {memory : Bool}

lemma not_leaves_iff {va length : ℕ} (hva : va < 2 ^ 64) (hl : length < 2 ^ 64) :
    ¬ Leaves va length ↔ va + length ≤ userEnd := by
  unfold Leaves userEnd
  omega

/-- A length that passes the checks is a machine word other than zero. -/
lemma Call.length_bounds (h : c.check = .ok ()) : 0 < c.length ∧ c.length < 2 ^ 64 := by
  unfold Call.check at h
  split_ifs at h
  omega

/-- When a call returns a region. -/
lemma sysMmap_eq_ok {va : ℕ} : (sysMmap p c rand memory).2 = .ok va ↔
    c.check = .ok () ∧ memory = true ∧ ¬ Leaves (p.cursor rand) c.length ∧ va = p.cursor rand := by
  cases h : c.check with
  | error e => simp [sysMmap, h]
  | ok u =>
    by_cases hleaves : Leaves (p.cursor rand) c.length
    · simp [sysMmap, h, hleaves]
    · cases memory <;> simp [sysMmap, h, hleaves, eq_comm]

namespace Tracked

variable (h : Tracked p)

include h

/-- The cursor that a call finds is the sum of the lengths. -/
lemma cursor_eq (rand : Option ℕ) : p.cursor rand = p.position rand := by
  unfold Process.cursor Process.position Lap.start
  by_cases hbase : p.lap.base = 0
  · have hzero : p.mmapBase = 0 := by rw [h.cursor, hbase, h.fresh hbase]; rfl
    rw [if_pos hzero, if_pos hbase, h.fresh hbase]
    exact if_neg (by unfold areaStart; omega)
  · have hcursor := h.cursor
    rw [if_neg (by omega), if_neg hbase, hcursor]

lemma position_lt (rand : Option ℕ) : p.position rand < 2 ^ 64 := by
  have hlt := h.lt
  rw [← h.cursor_eq]
  unfold Process.cursor areaStart aslrMmapBase
  cases rand with
  | none => simp only [Option.map_none, Option.getD_none]; split_ifs <;> omega
  | some r => simp only [Option.map_some, Option.getD_some]; split_ifs <;> omega

lemma not_leaves_iff (hcheck : c.check = .ok ()) (rand : Option ℕ) :
    ¬ Leaves (p.position rand) c.length ↔ p.position rand + c.length ≤ userEnd := by
  exact Mmap.not_leaves_iff (h.position_lt rand) (Call.length_bounds hcheck).2

/-- A region of this lap ends below the position. -/
lemma stop_le {r : Range} (hr : r ∈ p.regions) (rand : Option ℕ) :
    r ∈ p.lap.old ∨ r.stop ≤ p.position rand := by
  refine (h.regions r hr).imp_right ?_
  rintro ⟨hbase, hle⟩
  rwa [Process.position, Lap.start, if_neg hbase, ← h.cursor]

lemma mmap (c : Call) (rand : Option ℕ) (memory : Bool) :
    Tracked { (sysMmap p c rand memory).1 with lap := p.nextLap c rand } := by
  cases hcheck : c.check with
  | error e => simpa [sysMmap, Process.nextLap, hcheck] using h
  | ok u =>
    have hleaves := h.not_leaves_iff hcheck rand
    by_cases hroom : p.position rand + c.length ≤ userEnd
    · have hsize : c.length ≤ c.size ∧ c.size ≤ c.length + 4095 := by
        unfold Call.size
        omega
      have hmod : (p.position rand + c.size) % 2 ^ 64 = p.position rand + c.size := by
        unfold userEnd at hroom
        omega
      have hstart : p.lap.start rand ≠ 0 := by
        unfold Lap.start areaStart
        split_ifs
        · omega
        · assumption
      have hsum : p.lap.start rand + (c.size :: p.lap.sizes).sum = p.position rand + c.size := by
        rw [List.sum_cons, Process.position]
        omega
      have hold : ∀ r ∈ p.regions, r ∈ p.lap.old ∨ p.lap.start rand ≠ 0 ∧
          r.stop ≤ p.position rand + c.size := fun r hr =>
        (h.stop_le hr rand).imp_right fun hle => ⟨hstart, by omega⟩
      have hno := hleaves.2 hroom
      simp only [sysMmap, Process.nextLap, hcheck, hroom, h.cursor_eq, hno, if_true, if_false, hmod]
      have hlt : p.position rand + c.size < 2 ^ 64 := by
        unfold userEnd at hroom
        omega
      cases memory with
      | false => exact ⟨hsum.symm, fun hz => absurd hz hstart, hlt, h.old, hold⟩
      | true =>
        refine ⟨hsum.symm, fun hz => absurd hz hstart, hlt,
          fun r hr => List.mem_cons_of_mem _ (h.old r hr), fun r hr => ?_⟩
        obtain rfl | hr := List.mem_cons.1 hr
        · exact .inr ⟨hstart, by show _ + _ ≤ _ + _; omega⟩
        · exact hold r hr
    · have hbad : Leaves (p.position rand) c.length := not_not.1 fun hno => hroom (hleaves.1 hno)
      simp only [sysMmap, Process.nextLap, hcheck, hroom, h.cursor_eq, hbad, if_true, if_false]
      exact ⟨rfl, fun _ => rfl, Nat.mod_lt _ (by decide), fun r hr => hr, fun r hr => .inl hr⟩

lemma exec (op : Op) : Tracked (exec step p op) := by
  cases op with
  | mmap c rand memory => exact h.mmap c rand memory
  | brk addr =>
    show Tracked (sysBrk p addr)
    unfold sysBrk
    split_ifs <;> exact ⟨h.cursor, h.fresh, h.lt, h.old, h.regions⟩
  | sbrk increment memory =>
    show Tracked (sysSbrk p increment memory)
    simp only [sysSbrk]
    split_ifs <;> exact ⟨h.cursor, h.fresh, h.lt, h.old, h.regions⟩

lemma placed_iff_clear (op : Op) : Placed p op ↔ Clear p op := by
  cases op with
  | mmap c rand memory =>
    constructor
    · intro hplaced hcheck hmem hroom
      obtain ⟨-, hold, hheap, hstack⟩ := hplaced _
        (sysMmap_eq_ok.2 ⟨hcheck, hmem, by rwa [h.cursor_eq, h.not_leaves_iff hcheck], rfl⟩)
      rw [h.cursor_eq] at hold hheap hstack
      refine ⟨hheap.symm, hstack.symm, fun r hr => ?_⟩
      exact (hold r (h.old r hr)).symm
    · intro hclear _ hva
      obtain ⟨hcheck, hmem, hroom, rfl⟩ := sysMmap_eq_ok.1 hva
      rw [h.cursor_eq, h.not_leaves_iff hcheck] at hroom
      obtain ⟨hheap, hstack, hold⟩ := hclear hcheck hmem hroom
      rw [h.cursor_eq]
      refine ⟨hroom, fun r hr => ?_, hheap.symm, hstack.symm⟩
      rcases h.stop_le hr rand with hr | hle
      · exact (hold r hr).symm
      · exact .inr hle
  | brk _ => exact Iff.rfl
  | sbrk _ memory => exact Iff.rfl

end Tracked

end

lemma tracked_start (rand : ℕ) : Tracked (.start rand) where
  cursor := rfl
  fresh _ := rfl
  lt := Nat.two_pow_pos 64
  old _ hr := absurd hr List.not_mem_nil
  regions _ hr := absurd hr List.not_mem_nil

/-- **Placement.** Every region is placed well exactly if at every call neither the heap nor the
stack nor a region from before the cursor was put back is in the way of the place that the random
word and the rounded lengths give. -/
theorem placed_iff (rand : ℕ) (ops : List Op) :
    Along step Placed (.start rand) ops ↔ Along step Clear (.start rand) ops :=
  along_congr (I := Tracked) (fun _ op h => h.placed_iff_clear op) (fun _ op h _ => h.exec op)
    (tracked_start rand) ops

/-- A random number that makes the cursor start in the stack. -/
theorem not_placed_stack :
    ¬ Along step Placed (.start 0) [.mmap ⟨0, 4096, true, false⟩ (some 0xFFEFFF0) true] := by
  rintro ⟨hplaced, -⟩
  obtain ⟨-, -, -, hstack⟩ := hplaced 0x7FFFEFFF0000 (by decide)
  revert hstack
  decide

/-- Two pages from the start of the area, with a heap of one page; after a call that passes the
end, the last page of user space. -/
theorem placed_threePages :
    Along step Placed (.start 0)
      [.sbrk 4096 true, .mmap ⟨0, 4096, true, false⟩ (some 0) true,
        .mmap ⟨0, 1, true, false⟩ none true, .mmap ⟨0, 0xFFFFFFF000, true, false⟩ none true,
        .mmap ⟨0, 1, true, false⟩ none true] := by
  refine (placed_iff 0 _).2 ?_
  exact ⟨trivial, fun _ _ _ => by decide, fun _ _ _ => by decide,
    fun _ _ hroom => absurd hroom (by decide), fun _ _ _ => by decide, trivial⟩

end Aurora.Mmap
