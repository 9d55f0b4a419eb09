import Mathlib.Data.Int.Notation
import Mathlib.Data.Nat.Notation
import Mathlib.Tactic.SplitIfs

/-!
# Loading kernel modules

`module_load` (`module.c`) adds up the sizes of the sections of a relocatable file, allocates
memory for them, places them, applies the relocations and registers the module. But the loop that
adds up rounds the total to the alignment of each section without adding its size: the total stays
0, for which `kmalloc` has no memory.

The allocator answers at each place as `mem` says. The contents of the sections, the name of the
module and its `init` and `exit` functions are left out.

## Main definitions

* `Shdr`, `Sym`, `Rela`, `File`: a relocatable file.
* `collect`, `place`: the sizing pass and the placement pass.
* `relocate`: one relocation.
* `loadWith`, `moduleLoad`: the whole function.
* `allocate_moduleLoad`: no file gets memory.
-/

namespace Aurora.Module

/-! ### The file -/

/-- The fields of `Elf64_Ehdr` that are read. -/
structure Ehdr where
  ident : List UInt8
  machine : UInt16
  type : UInt16
  shoff : UInt64
  shnum : UInt16
  shstrndx : UInt16

/-- The fields of `Elf64_Shdr` that are read. -/
structure Shdr where
  type : UInt32
  flags : UInt64
  offset : UInt64
  size : UInt64
  info : UInt32
  addralign : UInt64
  deriving DecidableEq

def shtProgbits : UInt32 := 1
def shtSymtab : UInt32 := 2
def shtStrtab : UInt32 := 3
def shtRela : UInt32 := 4
def shtNobits : UInt32 := 8

/-- `SHF_ALLOC` is set. -/
def Shdr.Alloc (sh : Shdr) : Prop := sh.flags &&& 0x2 ≠ 0

instance (sh : Shdr) : Decidable sh.Alloc := inferInstanceAs (Decidable (_ ≠ _))

/-- The alignment of a section, at least 16. -/
def Shdr.align (sh : Shdr) : UInt64 := if sh.addralign < 16 then 16 else sh.addralign

/-- `Elf64_Sym`; `bind` is the upper half of `st_info`. -/
structure Sym where
  name : UInt32
  bind : UInt8
  shndx : UInt16
  value : UInt64

def stbGlobal : UInt8 := 1
def stbWeak : UInt8 := 2

/-- `Elf64_Rela`, with the two halves of `r_info`. -/
structure Rela where
  offset : UInt64
  type : UInt32
  sym : UInt32
  addend : UInt64

/-- The size of an `Elf64_Sym` and of an `Elf64_Rela`. -/
def entrySize : UInt64 := 24

/-- A file: the header and the section headers if they can be read, its size, and what the tables
in its sections say: the symbols, the string at an offset, and the relocations if they can be
read. -/
structure File where
  ehdr : Option Ehdr
  shdrs : Option (List Shdr)
  size : UInt64
  sym : Shdr → ℕ → Sym
  str : Shdr → UInt32 → String
  rela : Shdr → Option (ℕ → Rela)

/-! ### The passes over the sections -/

/-- `align_up`. -/
def alignUp (val align : UInt64) : UInt64 :=
  if align = 0 then val else (val + align - 1) &&& ~~~(align - 1)

/-- `MAX_SECTIONS`. -/
def maxSections : ℕ := 64

/-- What the first pass collects: the headers of the sections to load, the total size, and the
symbol and string tables. -/
structure Pass where
  secs : List Shdr := []
  totalSize : UInt64 := 0
  symtab : Option Shdr := none
  strtab : Option Shdr := none

/-- The first pass sees a symbol table or a string table that is not the one of the section
names; the last symbol table and the first string table count. -/
def Pass.tables (p : Pass) (ehdr : Ehdr) (i : ℕ) (sh : Shdr) : Pass :=
  { p with
    symtab := if sh.type = shtSymtab then some sh else p.symtab
    strtab := if sh.type = shtStrtab ∧ i ≠ ehdr.shstrndx.toNat ∧ p.strtab.isNone then some sh
      else p.strtab }

/-- The alignment is a power of two and at most a page. -/
def Shdr.GoodAlign (sh : Shdr) : Prop :=
  ¬ (sh.addralign = 0 ∨ sh.addralign &&& (sh.addralign - 1) ≠ 0 ∨ sh.addralign > 4096)

instance (sh : Shdr) : Decidable sh.GoodAlign := inferInstanceAs (Decidable (¬ _))

/-- The first pass, from the header `i` on; there is no result for a bad alignment or an
overflow. -/
def collect (ehdr : Ehdr) : List Shdr → ℕ → Pass → Option Pass
  | [], _, p => some p
  | sh :: shs, i, p =>
    if p.secs.length < maxSections then
      let p := p.tables ehdr i sh
      if ¬ sh.Alloc ∨ sh.size = 0 then collect ehdr shs (i + 1) p
      else if ¬ sh.GoodAlign then none
      else
        let total := alignUp p.totalSize sh.align
        if total < p.totalSize then none
        else collect ehdr shs (i + 1) { p with secs := p.secs ++ [sh], totalSize := total }
    else some p

/-- `struct section_info`: the header with the address. -/
structure Placed where
  hdr : Shdr
  addr : UInt64

/-- The second pass, from the offset `offset` on. -/
def place (base : UInt64) : List Shdr → UInt64 → List Placed
  | [], _ => []
  | sh :: shs, offset =>
    let offset := alignUp offset sh.align
    ⟨sh, base + offset⟩ :: place base shs (offset + sh.size)

/-! ### Relocations -/

/-- What the relocations are applied with: the memory of the module, the symbol table with its
size, the string table with its size, and the symbols that the kernel exports. -/
structure Link where
  base : UInt64
  totalSize : UInt64
  symtab : Option (ℕ × (ℕ → Sym))
  strtab : Option (UInt64 × (UInt32 → String))
  kernelSyms : List (String × UInt64)

/-- `module_lookup_symbol`; no module has symbols of its own. -/
def moduleLookupSymbol (kernelSyms : List (String × UInt64)) (name : String) : Option UInt64 :=
  (kernelSyms.find? fun s => s.1 = name).map Prod.snd

/-- The address of the section with the header `t`, which is found by its size and offset. -/
def findSection (secs : List Placed) (t : Shdr) : Option UInt64 :=
  (secs.find? fun p => p.hdr.size = t.size ∧ p.hdr.offset = t.offset).map Placed.addr

/-- The address of the section that is relocated, or 0. -/
def targetBase (shdrs : List Shdr) (secs : List Placed) (targetSec : UInt32) : UInt64 :=
  match shdrs[targetSec.toNat]? with
  | some t =>
    if t.Alloc ∧ (t.type = shtProgbits ∨ t.type = shtNobits) then (findSection secs t).getD 0 else 0
  | none => 0

/-- A write of `width` bytes. -/
structure Patch where
  addr : UInt64
  width : ℕ
  value : UInt64
  deriving DecidableEq

/-- What a relocation comes to: what is written, and whether an error is counted. -/
structure Outcome where
  patch : Option Patch
  error : Bool

/-- The value of the symbol, and whether an error is counted; `none` if the relocation is
skipped with an error. -/
def symbolValue (c : Link) (r : Rela) : Option (UInt64 × Bool) :=
  match c.symtab, c.strtab with
  | some (count, sym), some (size, str) =>
    if 0 < r.sym.toNat ∧ r.sym.toNat < count then
      let s := sym r.sym.toNat
      if s.name.toUInt64 ≥ size then none
      else if s.bind = stbGlobal ∨ s.bind = stbWeak then
        match moduleLookupSymbol c.kernelSyms (str s.name) with
        | some addr => some (addr, false)
        | none => some (0, s.bind ≠ stbWeak)
      else some (0, false)
    else some (0, false)
  | _, _ => some (0, false)

/-- The width of a relocation and the value before it is cut off: `S + A`, `S + A - P` or
`B + A`. -/
def rawValue (base addr : UInt64) (r : Rela) (S : UInt64) : Option (ℕ × UInt64) :=
  if r.type = 1 then some (8, S + r.addend)
  else if r.type = 2 then some (4, S + r.addend - addr)
  else if r.type = 10 ∨ r.type = 11 then some (4, S + r.addend)
  else if r.type = 8 then some (8, base + r.addend)
  else none

/-- The low bytes of a value. -/
def cutOff (width : ℕ) (v : UInt64) : UInt64 := if width = 4 then v.toUInt32.toUInt64 else v

/-- One relocation of the section at `target`. -/
def relocate (c : Link) (target : UInt64) (r : Rela) : Outcome :=
  if r.offset ≥ c.totalSize ∨ target + r.offset < target then ⟨none, true⟩
  else
    match symbolValue c r with
    | none => ⟨none, true⟩
    | some (S, error) =>
      match rawValue c.base (target + r.offset) r S with
      | some (width, v) => ⟨some ⟨target + r.offset, width, cutOff width v⟩, error⟩
      | none => ⟨none, true⟩

/-! ### `module_load` -/

/-- `kmalloc` of memory for which the allocator has the answer. -/
def kmalloc (size : UInt64) (answer : Option UInt64) : Option UInt64 :=
  if size = 0 then none else answer

/-- The header of the section with the names of the sections. -/
def shstrtabHdr (ehdr : Ehdr) (shdrs : List Shdr) : Option Shdr :=
  if ehdr.shstrndx ≥ ehdr.shnum then none else shdrs[ehdr.shstrndx.toNat]?

/-- `module_load` up to the allocation of a region whose size is `sizing` of the first pass: the
section headers, the first pass, and the region. The file is `none` if it cannot be opened. -/
def allocate (sizing : Pass → UInt64) (file : Option File) (mem : ℕ → Option UInt64) :
    Option (File × List Shdr × Pass × UInt64) := do
  let f ← file
  let ehdr ← f.ehdr
  if ehdr.ident ≠ [0x7F, 0x45, 0x4C, 0x46] ∨ ehdr.machine ≠ 0x3E ∨ ehdr.type ≠ 1 then none
  else if ehdr.shnum = 0 ∨ ehdr.shoff = 0 then none
  else
    let _ ← kmalloc (ehdr.shnum.toUInt64 * 64) (mem 0)
    let shdrs ← f.shdrs
    let shstrtab ← shstrtabHdr ehdr shdrs
    if shstrtab.size > 65536 ∨ shstrtab.offset + shstrtab.size > f.size ∨
        shstrtab.offset + shstrtab.size < shstrtab.offset then none
    else
      let _ ← kmalloc shstrtab.size (mem 1)
      let p ← collect ehdr shdrs 0 {}
      if p.secs.isEmpty then none
      else
        let base ← kmalloc (sizing p) (mem 2)
        some (f, shdrs, p, base)

/-- The tables, as far as there is memory for them. -/
def link (f : File) (p : Pass) (base totalSize : UInt64) (mem : ℕ → Option UInt64)
    (kernelSyms : List (String × UInt64)) : Link where
  base := base
  totalSize := totalSize
  symtab := p.symtab.bind fun sh => if sh.size < entrySize then none
    else (mem 4).map fun _ => ((sh.size / entrySize).toUInt32.toNat, f.sym sh)
  strtab := p.strtab.bind fun sh => (kmalloc sh.size (mem 3)).map fun _ => (sh.size, f.str sh)
  kernelSyms := kernelSyms

/-- The relocations of a section with its address; none if it is skipped. -/
def relas (f : File) (shdrs : List Shdr) (secs : List Placed) (mem : ℕ → Option UInt64) (i : ℕ)
    (sh : Shdr) : List (UInt64 × Rela) :=
  let target := targetBase shdrs secs sh.info
  if sh.type ≠ shtRela ∨ target = 0 ∨ sh.size > 0x100000 then []
  else
    match kmalloc sh.size (mem (6 + i)), f.rela sh with
    | some _, some r => (List.range (sh.size / entrySize).toNat).map fun j => (target, r j)
    | _, _ => []

/-- A registered module: its region. -/
structure Loaded where
  base : UInt64
  size : UInt64
  deriving DecidableEq

/-- `module_load` with a size for the region and a function that says whether a relocation
counts as an error: the result and the registered modules. -/
def loadWith (sizing : Pass → UInt64)
    (bad : Link → List Shdr → List Placed → UInt64 → Rela → Bool) (file : Option File)
    (mem : ℕ → Option UInt64) (kernelSyms : List (String × UInt64)) (modules : List Loaded) :
    ℤ × List Loaded :=
  match allocate sizing file mem with
  | none => (-1, modules)
  | some (f, shdrs, p, base) =>
    let secs := place base p.secs 0
    let c := link f p base (sizing p) mem kernelSyms
    let entries := shdrs.zipIdx.flatMap fun (sh, i) => relas f shdrs secs mem i sh
    if p.strtab.any (·.size > 0x100000) then (-1, modules)
    else if entries.any fun e => bad c shdrs secs e.1 e.2 then (-1, modules)
    else
      match mem 5 with
      | none => (-1, modules)
      | some _ => (0, ⟨base, sizing p⟩ :: modules)

/-- `module_load`. -/
def moduleLoad : Option File → (ℕ → Option UInt64) → List (String × UInt64) → List Loaded →
    ℤ × List Loaded :=
  loadWith Pass.totalSize fun c _ _ target r => (relocate c target r).error

/-! ### No file gets memory -/

lemma alignUp_zero (align : UInt64) : alignUp 0 align = 0 := by
  unfold alignUp
  split_ifs
  · rfl
  · rw [UInt64.zero_add, UInt64.and_not_self]

/-- The total size stays 0, and the sections have a good alignment and a size. -/
lemma collect_spec {ehdr : Ehdr} {shs : List Shdr} {i : ℕ} {p p' : Pass}
    (h : collect ehdr shs i p = some p') (htotal : p.totalSize = 0)
    (hsecs : ∀ sh ∈ p.secs, sh.GoodAlign ∧ sh.size ≠ 0) :
    p'.totalSize = 0 ∧ ∀ sh ∈ p'.secs, sh.GoodAlign ∧ sh.size ≠ 0 := by
  induction shs generalizing i p with
  | nil =>
    cases h
    exact ⟨htotal, hsecs⟩
  | cons sh shs ih =>
    have htables : (p.tables ehdr i sh).totalSize = 0 := htotal
    simp only [collect, htables, alignUp_zero] at h
    split_ifs at h with hroom hskip hgood
    · exact ih h htotal hsecs
    · refine ih h rfl fun sh' hsh' => ?_
      rcases List.mem_append.1 hsh' with hsh' | hsh'
      · exact hsecs sh' hsh'
      · obtain rfl := List.mem_singleton.1 hsh'
        exact ⟨hgood, fun hzero => hskip (.inr hzero)⟩
    · cases h
      exact ⟨htotal, hsecs⟩

/-- No file gets memory. -/
lemma allocate_moduleLoad (file : Option File) (mem : ℕ → Option UInt64) :
    allocate Pass.totalSize file mem = none := by
  refine Option.eq_none_iff_forall_ne_some.2 fun memory h => ?_
  simp only [allocate, bind, Option.bind_eq_some_iff] at h
  obtain ⟨f, -, _, -, h⟩ := h
  split_ifs at h
  simp only [Option.bind_eq_some_iff] at h
  obtain ⟨-, -, _, -, _, -, h⟩ := h
  split_ifs at h
  simp only [Option.bind_eq_some_iff] at h
  obtain ⟨-, -, _, hcollect, h⟩ := h
  split_ifs at h
  obtain ⟨_, hbase, -⟩ := Option.bind_eq_some_iff.1 h
  simp [(collect_spec hcollect rfl (by simp)).1, kmalloc] at hbase

end Aurora.Module
