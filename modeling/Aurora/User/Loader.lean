import Aurora.Lib.Run
import Mathlib.Algebra.Group.Nat.Defs
import Mathlib.Order.CompletePartialOrder
import Mathlib.Order.Interval.Set.Disjoint

/-!
# The address layout of the dynamic loader

`userspace/ld-so/ld-so.c`, with the place that `exec_elf_interp` of `kernel/elfloader.c` gives to
the loader itself. The library in slot `i` is mapped from `LD_LIB_BASE + i * LD_LIB_STRIDE` on,
whatever its size, and the mapping replaces what is there. The heap of the loader begins after
three and a half slots.

## Main definitions

* `ldAlloc`, `ldMapLibrary`: the functions of the loader.
* `Ldso`, `Request`: its state; a library file with the answers of the kernel.
* `Program`, `Ldso.images`: the main program and the interpreter; everything that is mapped.
* `Fits`: a library ends inside its slot and below the heap, and gets the address it asks for.
* `images_disjoint`: loads of libraries that fit.
-/

namespace Aurora.Loader

open Lib

/-- `LD_HEAP_START` -/
def ldHeapStart : ℕ := 0x7F800000

/-- `LD_HEAP_MAX` -/
def ldHeapMax : ℕ := 0x7FC00000

/-- `LD_LIB_BASE` -/
def ldLibBase : ℕ := 0x7F100000

/-- `LD_LIB_STRIDE` -/
def ldLibStride : ℕ := 0x00200000

/-- `INTERP_BASE` -/
def interpBase : ℕ := 0x7F000000

/-- A program header of type `PT_LOAD`. -/
structure Segment where
  vaddr : ℕ
  memsz : ℕ
  deriving DecidableEq, Repr

/-- The addresses from `start` on. -/
structure Range where
  start : ℕ
  size : ℕ
  deriving DecidableEq, Repr

def Range.toSet (r : Range) : Set ℕ := Set.Ico r.start (r.start + r.size)

/-- The state of the loader: `ld_brk`, `ld_lib_slot` and the libraries of the list. -/
structure Ldso where
  brk : ℕ
  slot : ℕ
  libs : List Range
  deriving DecidableEq, Repr

/-- `_start` has allocated the entry of the main program. -/
def Ldso.start : Ldso := { brk := ldHeapStart + 336, slot := 0, libs := [] }

/-- A call of `ld_map_library`: what is read from the file, which system calls succeed, and where
the kernel puts a mapping without `MAP_FIXED`. -/
structure Request where
  phnum : ℕ
  loads : List Segment
  headerOk : Bool := true
  reopened : Bool := true
  readOk : Bool := true
  fixed : Bool := true
  anywhere : Option ℕ := none
  deriving DecidableEq, Repr

def pageDown (a : ℕ) : ℕ := a / 4096 * 4096

def pageUp (a : ℕ) : ℕ := pageDown ((a + 4095) % 2 ^ 64)

/-- `ld_alloc`: the new `ld_brk`. -/
def ldAlloc (brk size : ℕ) : Option ℕ :=
  let next := (brk + (size + 15) % 2 ^ 64 / 16 * 16) % 2 ^ 64
  if next > ldHeapMax then none else some next

/-- One program header in the loop for `min_vaddr` and `max_vaddr`. -/
def widen (b : ℕ × ℕ) (g : Segment) : ℕ × ℕ :=
  let e := (g.vaddr + g.memsz) % 2 ^ 64
  (if g.vaddr < b.1 then g.vaddr else b.1, if e > b.2 then e else b.2)

def loadBounds (gs : List Segment) : ℕ × ℕ := gs.foldl widen (2 ^ 64 - 1, 0)

/-- The address of the mapping: the one asked for, or another one after a failure. -/
def Request.mmap (r : Request) (addr : ℕ) : Option ℕ := if r.fixed then some addr else r.anywhere

/-- `map_base + min_vaddr` and `map_size`. -/
def window (slot : ℕ) (gs : List Segment) : Range :=
  let lo := pageDown (loadBounds gs).1
  ⟨(ldLibBase + slot * ldLibStride + lo) % 2 ^ 64,
    (pageUp (loadBounds gs).2 + (2 ^ 64 - lo)) % 2 ^ 64⟩

/-- The second half of `ld_map_library`: the slot, the mapping, and the entry of the list. -/
def mapSegments (s : Ldso) (r : Request) : Ldso :=
  if (loadBounds r.loads).1 = 2 ^ 64 - 1 then s
  else
    let w := window s.slot r.loads
    match r.mmap w.start, ldAlloc s.brk 328 with
    | some base, some brk => ⟨brk, s.slot + 1, s.libs ++ [⟨base, w.size⟩]⟩
    | _, _ => { s with slot := s.slot + 1 }

/-- `ld_map_library`, with the append of `ld_load_dependencies`. The program headers are read
twice, and there are three buffers for them. -/
def ldMapLibrary (s : Ldso) (r : Request) : Ldso :=
  if r.headerOk = false ∨ r.phnum = 0 ∨ r.phnum > 128 then s
  else
    match ldAlloc s.brk (r.phnum * 56) with
    | none => s
    | some brk =>
      if r.reopened = false then { s with brk }
      else
        match ldAlloc brk (64 + r.phnum * 56) with
        | none => { s with brk }
        | some brk =>
          if r.readOk = false then { s with brk }
          else
            match ldAlloc brk (r.phnum * 56) with
            | none => { s with brk }
            | some brk => mapSegments { s with brk } r

/-- `ld_load_dependencies` maps one library after another. -/
def step (s : Ldso) (r : Request) : Option Ldso := some (ldMapLibrary s r)

/-- The pages of a segment that the kernel has loaded. -/
def pages (base : ℕ) (g : Segment) : Range :=
  ⟨pageDown (base + g.vaddr), pageUp ((base + g.vaddr) % 4096 + g.memsz)⟩

/-- The main program, which is loaded at its own addresses, and the loader. -/
structure Program where
  main : List Segment
  interp : List Segment

/-- The union of the pages of some segments. -/
def image (base : ℕ) (gs : List Segment) : Set ℕ := { a | ∃ g ∈ gs, a ∈ (pages base g).toSet }

/-- The main program, the interpreter, the heap of the loader and the libraries. -/
def Ldso.images (s : Ldso) (p : Program) : List (Set ℕ) :=
  image 0 p.main :: image interpBase p.interp :: Set.Ico ldHeapStart s.brk ::
    s.libs.map Range.toSet

/-- The loader takes at most a megabyte, and the main program is not where the loader, the
libraries and the heap are. -/
structure Program.Fits (p : Program) : Prop where
  interp : ∀ g ∈ p.interp, interpBase + g.vaddr + g.memsz ≤ ldLibBase
  main : ∀ g ∈ p.main, g.vaddr + g.memsz ≤ interpBase ∨ ldHeapMax ≤ g.vaddr

/-- The segments end inside the slot and below the heap, and the kernel grants the address. -/
def Fits (s : Ldso) (r : Request) : Prop :=
  (∀ g ∈ r.loads, g.vaddr + g.memsz ≤ ldLibStride ∧
    ldLibBase + s.slot * ldLibStride + g.vaddr + g.memsz ≤ ldHeapStart) ∧
  (r.fixed = true ∨ r.anywhere = none)

/-! ## One library -/

variable {s : Ldso} {r : Request}

lemma ldAlloc_le {brk size next : ℕ} (h : ldAlloc brk size = some next) : next ≤ ldHeapMax := by
  simp only [ldAlloc] at h
  split_ifs at h
  cases h
  omega

/-- The bounds of segments that end below `b`, when there is one. -/
lemma loadBounds_spec {gs : List Segment} {b : ℕ} (hb : b < 2 ^ 64 - 1)
    (h : ∀ g ∈ gs, g.vaddr + g.memsz ≤ b) : (loadBounds gs).2 ≤ b ∧
      ((loadBounds gs).1 = 2 ^ 64 - 1 ∨ (loadBounds gs).1 ≤ (loadBounds gs).2) := by
  have hfold : ∀ c : ℕ × ℕ, c.2 ≤ b ∧ (c.1 = 2 ^ 64 - 1 ∨ c.1 ≤ c.2) → (gs.foldl widen c).2 ≤ b ∧
        ((gs.foldl widen c).1 = 2 ^ 64 - 1 ∨ (gs.foldl widen c).1 ≤ (gs.foldl widen c).2) := by
    induction gs with
    | nil => exact fun _ => id
    | cons g gs ih =>
      intro c _
      have hg := h g List.mem_cons_self
      refine ih (fun g' hg' => h g' (List.mem_cons_of_mem g hg')) (widen c g) ?_
      simp only [widen]
      split <;> split <;> omega
  exact hfold _ ⟨Nat.zero_le b, .inl rfl⟩

/-- What a call does: it uses heap and perhaps a slot, and a library in the list gets its slot. -/
lemma ldMapLibrary_cases (hs : s.brk ≤ ldHeapMax) : (ldMapLibrary s r).brk ≤ ldHeapMax ∧
    ((ldMapLibrary s r).libs = s.libs ∧ s.slot ≤ (ldMapLibrary s r).slot ∨
      ∃ base, (loadBounds r.loads).1 ≠ 2 ^ 64 - 1 ∧
        r.mmap (window s.slot r.loads).start = some base ∧
        (ldMapLibrary s r).slot = s.slot + 1 ∧
        (ldMapLibrary s r).libs = s.libs ++ [⟨base, (window s.slot r.loads).size⟩]) := by
  unfold ldMapLibrary
  split
  · exact ⟨hs, .inl ⟨rfl, le_rfl⟩⟩
  cases h1 : ldAlloc s.brk (r.phnum * 56) with
  | none => exact ⟨hs, .inl ⟨rfl, le_rfl⟩⟩
  | some brk1 =>
    dsimp only
    split
    · exact ⟨ldAlloc_le h1, .inl ⟨rfl, le_rfl⟩⟩
    cases h2 : ldAlloc brk1 (64 + r.phnum * 56) with
    | none => exact ⟨ldAlloc_le h1, .inl ⟨rfl, le_rfl⟩⟩
    | some brk2 =>
      dsimp only
      split
      · exact ⟨ldAlloc_le h2, .inl ⟨rfl, le_rfl⟩⟩
      cases h3 : ldAlloc brk2 (r.phnum * 56) with
      | none => exact ⟨ldAlloc_le h2, .inl ⟨rfl, le_rfl⟩⟩
      | some _ =>
        have hbrk := ldAlloc_le h3
        simp only [mapSegments]
        split
        · exact ⟨hbrk, .inl ⟨rfl, le_rfl⟩⟩
        · rename_i hload
          split
          · rename_i base brk4 hmap h4
            exact ⟨ldAlloc_le h4, .inr ⟨base, hload, hmap, rfl, rfl⟩⟩
          · exact ⟨hbrk, .inl ⟨rfl, Nat.le_succ _⟩⟩

/-! ## Runs -/

/-- The libraries lie between the first slot and the heap, below the slots that are free, and in
the order of the list. -/
structure Placed (s : Ldso) : Prop where
  brk : s.brk ≤ ldHeapMax
  above : ∀ l ∈ s.libs, ldLibBase ≤ l.start
  below : ∀ l ∈ s.libs, l.start + l.size ≤ ldHeapStart ∧
    l.start + l.size ≤ ldLibBase + s.slot * ldLibStride
  apart : s.libs.Pairwise fun l l' => l.start + l.size ≤ l'.start

/-- A library that fits lies in its slot. -/
lemma Fits.window (h : Fits s r) (hload : (loadBounds r.loads).1 ≠ 2 ^ 64 - 1) :
    ldLibBase + s.slot * ldLibStride ≤ (window s.slot r.loads).start ∧
      (window s.slot r.loads).start + (window s.slot r.loads).size ≤
        min ldHeapStart (ldLibBase + (s.slot + 1) * ldLibStride) := by
  have hslot : ldLibBase + s.slot * ldLibStride ≤ ldHeapStart := by
    cases hl : r.loads with
    | nil => simp [hl, loadBounds] at hload
    | cons g _ =>
      have hg := (h.1 g (by rw [hl]; exact List.mem_cons_self)).2
      omega
  obtain ⟨hhi, hlo⟩ := loadBounds_spec
    (show min ldLibStride (ldHeapStart - (ldLibBase + s.slot * ldLibStride)) < 2 ^ 64 - 1 by
      simp only [ldLibStride]
      omega)
    (fun g hg => by have hg := h.1 g hg; omega)
  unfold Loader.window
  generalize loadBounds r.loads = c at *
  simp only [pageUp, pageDown, ldLibBase, ldLibStride, ldHeapStart] at *
  omega

lemma Fits.mmap_eq (h : Fits s r) {addr base : ℕ} (hmap : r.mmap addr = some base) :
    base = addr := by
  rw [Request.mmap] at hmap
  split at hmap
  · exact (Option.some.inj hmap).symm
  · rename_i hfixed
    simp [h.2.resolve_left hfixed] at hmap

lemma Placed.mapLibrary (h : Placed s) (hfit : Fits s r) : Placed (ldMapLibrary s r) := by
  obtain ⟨hbrk, ⟨hlibs, hslot⟩ | ⟨_, hload, hmap, hslot, hlibs⟩⟩ :=
    ldMapLibrary_cases (r := r) h.brk
  · refine ⟨hbrk, by rw [hlibs]; exact h.above, fun l hl => ?_, by rw [hlibs]; exact h.apart⟩
    rw [hlibs] at hl
    obtain ⟨hheap, hfree⟩ := h.below l hl
    exact ⟨hheap, hfree.trans (Nat.add_le_add_left (Nat.mul_le_mul_right _ hslot) _)⟩
  · obtain ⟨hlow, hhigh⟩ := hfit.window hload
    obtain rfl := hfit.mmap_eq hmap
    refine ⟨hbrk, ?_, ?_, ?_⟩ <;> rw [hlibs]
    · rw [List.forall_mem_append, List.forall_mem_singleton]
      exact ⟨h.above, Nat.le_of_add_right_le hlow⟩
    · rw [hslot, List.forall_mem_append, List.forall_mem_singleton]
      refine ⟨fun l hl => ?_, le_min_iff.1 hhigh⟩
      obtain ⟨hheap, hfree⟩ := h.below l hl
      exact ⟨hheap, hfree.trans (Nat.add_le_add_left (Nat.mul_le_mul_right _ s.slot.le_succ) _)⟩
    · rw [List.pairwise_append]
      refine ⟨h.apart, List.pairwise_singleton _ _, fun l hl => ?_⟩
      rw [List.forall_mem_singleton]
      exact (h.below l hl).2.trans hlow

lemma placed_run {rs : List Request} (hrs : Along step Fits .start rs) :
    Placed (run step .start rs) := by
  have hstart : Placed .start := ⟨by decide, nofun, nofun, .nil⟩
  refine run_invariant_along (fun s r s' h hfit hstep => ?_) hstart hrs
  cases hstep
  exact h.mapLibrary hfit

/-- The pages of the loader. -/
lemma image_interp_subset {p : Program} (hp : p.Fits) :
    image interpBase p.interp ⊆ Set.Ico interpBase ldLibBase := by
  rintro a ⟨g, hg, hlow, hhigh⟩
  have hfit := hp.interp g hg
  simp only [pages, pageUp, pageDown, interpBase, ldLibBase, Set.mem_Ico] at *
  omega

lemma image_main_disjoint {p : Program} (hp : p.Fits) :
    Disjoint (image 0 p.main) (Set.Ico interpBase ldHeapMax) := by
  rw [Set.disjoint_left]
  rintro a ⟨g, hg, hlow, hhigh⟩
  have hfit := hp.main g hg
  simp only [pages, pageUp, pageDown, interpBase, ldHeapMax, Set.mem_Ico] at *
  omega

/-- **The layout of the loader.** If every library fits, and the program and the loader leave room
for them, the main program, the loader, its heap and the libraries are disjoint. -/
theorem images_disjoint {p : Program} (hp : p.Fits) {rs : List Request}
    (hrs : Along step Fits .start rs) : ((run step .start rs).images p).Pairwise Disjoint := by
  have h := placed_run hrs
  generalize run step .start rs = s at h
  have hinterp := image_interp_subset hp
  have hheap : Set.Ico ldHeapStart s.brk ⊆ Set.Ico ldHeapStart ldHeapMax :=
    Set.Ico_subset_Ico_right h.brk
  have hlib : ∀ l ∈ s.libs, l.toSet ⊆ Set.Ico ldLibBase ldHeapStart := fun l hl =>
    Set.Ico_subset_Ico (h.above l hl) (h.below l hl).1
  have hmain := image_main_disjoint hp
  refine .cons ?_ (.cons ?_ (.cons ?_ ?_))
  · simp only [List.forall_mem_cons, List.forall_mem_map]
    refine ⟨hmain.mono_right (hinterp.trans (Set.Ico_subset_Ico_right (by decide))),
      hmain.mono_right (hheap.trans (Set.Ico_subset_Ico_left (by decide))), fun l hl => ?_⟩
    exact hmain.mono_right ((hlib l hl).trans (Set.Ico_subset_Ico (by decide) (by decide)))
  · simp only [List.forall_mem_cons, List.forall_mem_map]
    constructor
    · exact (Set.Ico_disjoint_Ico.2 (by decide)).mono hinterp hheap
    · exact fun l hl => (Set.Ico_disjoint_Ico.2 (by decide)).mono hinterp (hlib l hl)
  · simp only [List.forall_mem_map]
    exact fun l hl => (Set.Ico_disjoint_Ico.2 (by decide)).mono hheap (hlib l hl)
  · rw [List.pairwise_map]
    refine h.apart.imp fun {l l'} hle => ?_
    rw [Range.toSet, Range.toSet, Set.Ico_disjoint_Ico]
    omega

/-- A program at four megabytes, with a loader of two pages. -/
def smallProgram : Program := { main := [⟨0x400000, 0x2000⟩], interp := [⟨0, 0x2000⟩] }

/-- Three libraries of two megabytes each. -/
theorem images_disjoint_three :
    ((run step .start (List.replicate 3 { phnum := 1, loads := [⟨0, 0x200000⟩] })).images
      smallProgram).Pairwise Disjoint := by
  refine images_disjoint ⟨by decide, by decide⟩ ?_
  exact ⟨⟨by decide, .inl rfl⟩, ⟨by decide, .inl rfl⟩, ⟨by decide, .inl rfl⟩, trivial⟩

/-- A library of three megabytes and one of a page: the second one is mapped over the first. -/
theorem images_overlap : smallProgram.Fits ∧
    ¬ ((run step .start [{ phnum := 1, loads := [⟨0, 0x300000⟩] },
      { phnum := 1, loads := [⟨0, 0x1000⟩] }]).images smallProgram).Pairwise Disjoint := by
  refine ⟨⟨by decide, by decide⟩, fun h => ?_⟩
  rw [Ldso.images, show (run step .start _).libs =
    [⟨0x7F100000, 0x300000⟩, ⟨0x7F300000, 0x1000⟩] by decide] at h
  have hdisj := (List.pairwise_cons.1 h.of_cons.of_cons.of_cons).1 _ List.mem_cons_self
  have hmem : 0x7F300000 ∈ Range.toSet ⟨0x7F100000, 0x300000⟩ := ⟨by decide, by decide⟩
  exact Set.disjoint_left.1 hdisj hmem ⟨by decide, by decide⟩

end Aurora.Loader
