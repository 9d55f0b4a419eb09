import Aurora.Kernel.ModuleLoad
import Mathlib.Algebra.Order.Group.Nat
import Mathlib.Data.Nat.Bitwise

/-!
# The image of a kernel module

The two passes over the sections of a module do not compute the same layout: the first comes to
the size 0, so that no file is accepted. What the second pass and the relocations would do in a
region of another size is a question of its own. The layout is right exactly if the region is
large enough and its base aligned. A relocation is compared with `total_size` instead of the size
of its section, takes 0 for a symbol that the module defines, and is cut off to 32 bits without
a check.

## Main definitions

* `LaidOut`, `extent`, `laidOut_iff`: the layout, and the size that it needs.
* `elfRelocate`, `elfLoad`: relocations by the rules of ELF, and a loader that follows them.
* `moduleLoad_eq_elfLoad_iff`: how far `module_load` is from it.
-/

namespace Aurora.Module

open List

/-! ### Rounding -/

/-- The next multiple of `a`. -/
def roundUp (v a : ℕ) : ℕ := (v + a - 1) / a * a

lemma exists_eq_two_pow {a : ℕ} (h0 : a ≠ 0) (h : a &&& (a - 1) = 0) : ∃ k, a = 2 ^ k := by
  refine ⟨a.log2, ?_⟩
  by_contra hne
  have hle : 2 ^ a.log2 ≤ a := Nat.log2_self_le h0
  have hlt : a < 2 ^ (a.log2 + 1) := Nat.lt_log2_self
  have hbit := congrArg (Nat.testBit · a.log2) h
  simp [Nat.testBit_of_two_pow_le_and_two_pow_add_one_gt hle hlt,
    Nat.testBit_of_two_pow_le_and_two_pow_add_one_gt (show 2 ^ a.log2 ≤ a - 1 by omega)
      (show a - 1 < 2 ^ (a.log2 + 1) by omega)] at hbit

/-- A mask for the multiples of a power of two. -/
lemma toNat_and_mask (x : UInt64) {k : ℕ} (hk : k < 64) :
    (x &&& ~~~(UInt64.ofNat (2 ^ k) - 1)).toNat = x.toNat / 2 ^ k * 2 ^ k := by
  have hlt : 2 ^ k < 2 ^ 64 := Nat.pow_lt_pow_right (by decide) hk
  have hpos := Nat.two_pow_pos k
  have hmask : (~~~(UInt64.ofNat (2 ^ k) - 1)).toNat = 2 ^ 64 - (2 ^ k - 1 + 1) := by
    rw [UInt64.toNat_not, UInt64.toNat_sub_of_le, UInt64.toNat_ofNat_of_lt' hlt]
    · rw [UInt64.toNat_one]
      show 2 ^ 64 - 1 - _ = _
      omega
    · rwa [UInt64.le_iff_toNat_le, UInt64.toNat_ofNat_of_lt' hlt]
  rw [UInt64.toNat_and, hmask, ← Nat.shiftRight_eq_div_pow, ← Nat.shiftLeft_eq]
  refine Nat.eq_of_testBit_eq fun i => ?_
  rw [Nat.testBit_and, Nat.testBit_two_pow_sub_succ (by omega), Nat.testBit_two_pow_sub_one,
    Nat.testBit_shiftLeft, Nat.testBit_shiftRight]
  by_cases hik : k ≤ i
  · by_cases hi : i < 64
    · simp [hik, hi, Nat.not_lt.2 hik]
    · have hhigh : x.toNat.testBit i = false := Nat.testBit_lt_two_pow
        (x.toNat_lt.trans_le (Nat.pow_le_pow_right (by decide) (by omega)))
      simp [hik, hhigh]
  · simp [hik, Nat.not_le.1 hik]

/-- The alignment that the passes use: a power of two up to a page, and a multiple of the one
that the header asks for. -/
lemma Shdr.GoodAlign.align {sh : Shdr} (h : sh.GoodAlign) :
    (∃ k ≤ 12, sh.align.toNat = 2 ^ k) ∧ sh.addralign.toNat ∣ sh.align.toNat := by
  unfold Shdr.GoodAlign at h
  push Not at h
  obtain ⟨h0, hand, hle⟩ := h
  have hpage : sh.addralign.toNat ≤ (4096 : UInt64).toNat :=
    UInt64.le_iff_toNat_le.1 (UInt64.not_lt.1 hle)
  have hpos : sh.addralign.toNat ≠ 0 := fun hzero => h0 (UInt64.toNat_inj.1 hzero)
  have hone : (1 : UInt64).toNat ≤ sh.addralign.toNat := Nat.one_le_iff_ne_zero.2 hpos
  have hnat := congrArg UInt64.toNat hand
  rw [UInt64.toNat_and, UInt64.toNat_sub_of_le _ _ (UInt64.le_iff_toNat_le.2 hone)] at hnat
  obtain ⟨k, hk⟩ := exists_eq_two_pow hpos hnat
  have hk12 : k ≤ 12 := (Nat.pow_le_pow_iff_right (by decide)).1 (hk ▸ hpage : 2 ^ k ≤ 2 ^ 12)
  unfold Shdr.align
  split
  next hlt =>
    have hlt' : sh.addralign.toNat < 16 := UInt64.lt_iff_toNat_lt.1 hlt
    refine ⟨⟨4, by decide, rfl⟩, ?_⟩
    have hk4 : k ≤ 4 := ((Nat.pow_lt_pow_iff_right (by decide)).1
      (hk ▸ hlt' : 2 ^ k < 2 ^ 4)).le
    rw [hk]
    exact pow_dvd_pow 2 hk4
  next => exact ⟨⟨k, hk12, hk⟩, dvd_rfl⟩

lemma toNat_alignUp {sh : Shdr} (h : sh.GoodAlign) {v : UInt64} (hv : v.toNat + 4096 < 2 ^ 64) :
    (alignUp v sh.align).toNat = roundUp v.toNat sh.align.toNat := by
  obtain ⟨⟨k, hk, hpow⟩, -⟩ := h.align
  have hpos := Nat.two_pow_pos k
  have hle : 2 ^ k ≤ 2 ^ 12 := Nat.pow_le_pow_right (by decide) hk
  have halign : sh.align = UInt64.ofNat (2 ^ k) := by
    rw [← hpow, UInt64.ofNat_toNat]
  have hne : sh.align ≠ 0 := by
    intro hzero
    rw [hzero] at hpow
    exact absurd hpow hpos.ne
  have hone : (1 : UInt64) ≤ v + sh.align := by
    rw [UInt64.le_iff_toNat_le, UInt64.toNat_add, hpow, Nat.mod_eq_of_lt (by omega)]
    exact hpos.trans_le (Nat.le_add_left _ _)
  rw [alignUp, if_neg hne, roundUp, hpow]
  nth_rewrite 2 [halign]
  rw [toNat_and_mask _ (by omega), UInt64.toNat_sub_of_le _ _ hone, UInt64.toNat_add, hpow,
    Nat.mod_eq_of_lt (by omega)]
  rfl

/-! ### The layout -/

/-- The end of the sections from an offset on. -/
def extent : List Shdr → ℕ → ℕ
  | [], offset => offset
  | sh :: shs, offset => extent shs (roundUp offset sh.align.toNat + sh.size.toNat)

/-- The sections are aligned as their headers ask, inside the region and apart. -/
structure LaidOut (base : UInt64) (size : ℕ) (secs : List Placed) : Prop where
  aligned : ∀ p ∈ secs, p.hdr.addralign.toNat ∣ p.addr.toNat
  inside : ∀ p ∈ secs, base.toNat ≤ p.addr.toNat ∧
    p.addr.toNat + p.hdr.size.toNat ≤ base.toNat + size
  apart : secs.Pairwise fun p q => p.addr.toNat + p.hdr.size.toNat ≤ q.addr.toNat ∨
    q.addr.toNat + q.hdr.size.toNat ≤ p.addr.toNat

lemma le_roundUp (v : ℕ) {a : ℕ} (ha : 0 < a) : v ≤ roundUp v a ∧ roundUp v a < v + a := by
  have hdiv := Nat.div_add_mod' (v + a - 1) a
  have hmod := Nat.mod_lt (v + a - 1) ha
  unfold roundUp
  omega

lemma le_extent {shs : List Shdr} (h : ∀ sh ∈ shs, sh.GoodAlign) (offset : ℕ) :
    offset ≤ extent shs offset := by
  induction shs generalizing offset with
  | nil => exact le_rfl
  | cons sh shs ih =>
    obtain ⟨⟨k, -, hpow⟩, -⟩ := (h sh mem_cons_self).align
    have hround := (le_roundUp offset (hpow ▸ Nat.two_pow_pos k)).1
    exact (hround.trans (Nat.le_add_right _ _)).trans
      (ih (fun sh' hsh' => h sh' (mem_cons_of_mem _ hsh')) _)

section

variable {base : UInt64} {size : ℕ} (hbase : 4096 < base.toNat)
  (hregion : base.toNat + size ≤ 2 ^ 64) {sh : Shdr} {shs : List Shdr} {offset : UInt64}

include hbase hregion

/-- The first section that is placed. -/
lemma placed_iff_fits (h : sh.GoodAlign ∧ sh.size ≠ 0) (hoffset : offset.toNat ≤ size) :
    ((base.toNat ≤ (base + alignUp offset sh.align).toNat ∧
      (base + alignUp offset sh.align).toNat + sh.size.toNat ≤ base.toNat + size) ↔
        roundUp offset.toNat sh.align.toNat + sh.size.toNat ≤ size) ∧
    (roundUp offset.toNat sh.align.toNat + sh.size.toNat ≤ size →
      (base + alignUp offset sh.align).toNat =
        base.toNat + roundUp offset.toNat sh.align.toNat ∧
      (alignUp offset sh.align + sh.size).toNat =
        roundUp offset.toNat sh.align.toNat + sh.size.toNat) := by
  have hsize : sh.size.toNat ≠ 0 := fun hzero => h.2 (UInt64.toNat_inj.1 hzero)
  have hup := toNat_alignUp h.1 (show offset.toNat + 4096 < 2 ^ 64 by omega)
  have hlt := (alignUp offset sh.align).toNat_lt
  rw [UInt64.toNat_add, UInt64.toNat_add]
  rw [hup] at hlt ⊢
  omega

/-- The sections lie inside the region exactly if it is large enough. -/
lemma inside_place_iff (h : ∀ sh ∈ shs, sh.GoodAlign ∧ sh.size ≠ 0)
    (hoffset : offset.toNat ≤ size) :
    (∀ p ∈ place base shs offset, base.toNat ≤ p.addr.toNat ∧
      p.addr.toNat + p.hdr.size.toNat ≤ base.toNat + size) ↔ extent shs offset.toNat ≤ size := by
  induction shs generalizing offset with
  | nil => exact iff_of_true nofun hoffset
  | cons sh shs ih =>
    have hrest := fun sh' hsh' => h sh' (mem_cons_of_mem sh hsh')
    obtain ⟨hiff, hfits⟩ := placed_iff_fits hbase hregion (h sh mem_cons_self) hoffset
    rw [place, forall_mem_cons, extent, hiff]
    refine ⟨fun ⟨hfit, hall⟩ => ?_, fun hext => ?_⟩
    · have hnext := (hfits hfit).2
      rw [← hnext]
      exact (ih hrest (hnext ▸ hfit)).1 hall
    · have hfit := (le_extent (fun sh' hsh' => (hrest sh' hsh').1) _).trans hext
      have hnext := (hfits hfit).2
      rw [← hnext] at hext
      exact ⟨hfit, (ih hrest (hnext ▸ hfit)).2 hext⟩

/-- In a region that is large enough the sections lie one behind the other, at offsets that are
multiples of their alignments. -/
lemma place_spec (h : ∀ sh ∈ shs, sh.GoodAlign ∧ sh.size ≠ 0) (hoffset : offset.toNat ≤ size)
    (hext : extent shs offset.toNat ≤ size) :
    (∀ p ∈ place base shs offset, p.hdr ∈ shs ∧ base.toNat + offset.toNat ≤ p.addr.toNat ∧
      p.hdr.addralign.toNat ∣ p.addr.toNat - base.toNat) ∧
    (place base shs offset).Pairwise fun p q => p.addr.toNat + p.hdr.size.toNat ≤ q.addr.toNat := by
  induction shs generalizing offset with
  | nil => exact ⟨nofun, .nil⟩
  | cons sh shs ih =>
    have hrest := fun sh' hsh' => h sh' (mem_cons_of_mem sh hsh')
    have hgood := h sh mem_cons_self
    obtain ⟨⟨k, -, hpow⟩, hdvd⟩ := hgood.1.align
    have hround := le_roundUp offset.toNat (hpow ▸ Nat.two_pow_pos k)
    have hfit := (le_extent (fun sh' hsh' => (hrest sh' hsh').1) _).trans hext
    obtain ⟨haddr, hnext⟩ := (placed_iff_fits hbase hregion hgood hoffset).2 hfit
    rw [extent, ← hnext] at hext
    obtain ⟨hall, hpair⟩ := ih hrest (hnext ▸ hfit) hext
    rw [place, forall_mem_cons, pairwise_cons]
    refine ⟨⟨⟨mem_cons_self, ?_, ?_⟩, fun p hp => ?_⟩, fun p hp => ?_, hpair⟩
    · dsimp only
      omega
    · dsimp only
      rw [haddr, Nat.add_sub_cancel_left]
      exact hdvd.trans (Nat.dvd_mul_left _ _)
    · obtain ⟨hmem, hle, hmul⟩ := hall p hp
      exact ⟨mem_cons_of_mem _ hmem, by omega, hmul⟩
    · have hle := (hall p hp).2.1
      dsimp only
      omega

end

lemma mem_place (base offset : UInt64) {sh : Shdr} {shs : List Shdr} (hsh : sh ∈ shs) :
    ∃ p ∈ place base shs offset, p.hdr = sh := by
  induction shs generalizing offset with
  | nil => cases hsh
  | cons sh' shs ih =>
    rw [place]
    rcases mem_cons.1 hsh with rfl | hsh
    · exact ⟨_, mem_cons_self, rfl⟩
    · obtain ⟨p, hp, heq⟩ := ih _ hsh
      exact ⟨p, mem_cons_of_mem _ hp, heq⟩

/-- The relocation writes where its offset says. -/
lemma relocate_addr {c : Link} {target : UInt64} {r : Rela} {patch : Patch}
    (h : (relocate c target r).patch = some patch) :
    patch.addr.toNat = target.toNat + r.offset.toNat := by
  unfold relocate at h
  split at h
  · cases h
  next hcheck =>
    have haddr : patch.addr = target + r.offset := by
      split at h
      · cases h
      · split at h
        · cases h
          rfl
        · cases h
    push Not at hcheck
    have hle := UInt64.le_iff_toNat_le.1 (UInt64.not_lt.1 hcheck.2)
    have hlt := target.toNat_lt
    have hlt' := r.offset.toNat_lt
    rw [UInt64.toNat_add] at hle
    rw [haddr, UInt64.toNat_add]
    omega

/-- The header of a small module. -/
def sampleEhdr : Ehdr := ⟨[0x7F, 0x45, 0x4C, 0x46], 0x3E, 1, 0x300, 5, 0⟩

/-- The names of the sections, a section of 16 bytes, its relocations, and the symbols. -/
def sampleShdrs : List Shdr :=
  [⟨shtStrtab, 0, 0x200, 16, 0, 1⟩, ⟨shtProgbits, 0x6, 0x40, 16, 0, 16⟩,
    ⟨shtRela, 0, 0x60, 24, 1, 8⟩, ⟨shtSymtab, 0, 0x80, 48, 0, 8⟩, ⟨shtStrtab, 0, 0x100, 8, 0, 1⟩]

/-- The module: the symbol 1 is local, at byte 8 of the section, and the only relocation asks for
its address. -/
def sampleModule : File where
  ehdr := some sampleEhdr
  shdrs := some sampleShdrs
  size := 0x440
  sym _ i := if i = 1 then ⟨0, 0, 1, 8⟩ else ⟨0, 0, 0, 0⟩
  str _ _ := ""
  rela _ := some fun _ => ⟨0, 1, 1, 0⟩

/-- What the first pass collects of it. -/
def samplePass : Pass where
  secs := [⟨shtProgbits, 0x6, 0x40, 16, 0, 16⟩]
  symtab := some ⟨shtSymtab, 0, 0x80, 48, 0, 8⟩
  strtab := some ⟨shtStrtab, 0, 0x100, 8, 0, 1⟩

lemma collect_sampleShdrs : collect sampleEhdr sampleShdrs 0 {} = some samplePass :=
  rfl

/-- The value of the symbol of a relocation: the address of its section plus its value if the
module defines it, and otherwise what the kernel exports, or 0 for a weak symbol. -/
def elfSymbol (c : Link) (shdrs : List Shdr) (secs : List Placed) (r : Rela) : Option UInt64 :=
  if r.sym = 0 then some 0
  else
    match c.symtab, c.strtab with
    | some (count, sym), some (size, str) =>
      let s := sym r.sym.toNat
      if r.sym.toNat ≥ count then none
      else if s.shndx ≠ 0 then do
        let t ← shdrs[s.shndx.toNat]?
        let p ← secs.find? (·.hdr = t)
        some (p.addr + s.value)
      else if s.name.toUInt64 ≥ size then none
      else
        match moduleLookupSymbol c.kernelSyms (str s.name) with
        | some addr => some addr
        | none => if s.bind = stbWeak then some 0 else none
    | _, _ => none

/-- A value fits the width of its relocation. -/
def Fits (r : Rela) (v : UInt64) : Prop :=
  if r.type = 2 ∨ r.type = 11 then v.toNat < 2 ^ 31 ∨ 2 ^ 64 - 2 ^ 31 ≤ v.toNat
  else r.type = 10 → v.toNat < 2 ^ 32

instance (r : Rela) (v : UInt64) : Decidable (Fits r v) := by
  unfold Fits
  infer_instance

/-- One relocation by the rules of ELF; `none` if loading has to fail. -/
def elfRelocate (c : Link) (shdrs : List Shdr) (secs : List Placed) (target : UInt64) (r : Rela) :
    Option Patch := do
  let S ← elfSymbol c shdrs secs r
  let (width, v) ← rawValue c.base (target + r.offset) r S
  if Fits r v then some ⟨target + r.offset, width, cutOff width v⟩ else none

/-- A loader that allocates what the sections need and follows the rules of ELF. -/
def elfLoad : Option File → (ℕ → Option UInt64) → List (String × UInt64) → List Loaded →
    ℤ × List Loaded :=
  loadWith (fun p => (extent p.secs 0).toUInt64) fun c shdrs secs target r =>
    r.offset ≥ c.totalSize ∨ target + r.offset < target ∨ elfRelocate c shdrs secs target r = none

/-- What a relocation writes if no error is counted. -/
def Outcome.accepted (o : Outcome) : Option Patch := if o.error then none else o.patch

/-- The value that the code takes for the symbol, if no error is counted. -/
def Link.symbol (c : Link) (r : Rela) : Option UInt64 :=
  (symbolValue c r).bind fun s => if s.2 then none else some s.1

/-- The code does what the rules of ELF ask: the type is unknown, or neither of them resolves the
symbol, or the code does not and the value does not fit; or both do, the value fits, and the two
values agree in the bytes that are written. -/
def Agrees (c : Link) (shdrs : List Shdr) (secs : List Placed) (target : UInt64) (r : Rela) :
    Prop :=
  r.type ∉ [1, 2, 8, 10, 11] ∨
    match c.symbol r, elfSymbol c shdrs secs r with
    | none, none => True
    | some _, none => False
    | none, some S => ∃ x, rawValue c.base (target + r.offset) r S = some x ∧ ¬ Fits r x.2
    | some S, some S' => (∃ x, rawValue c.base (target + r.offset) r S' = some x ∧ Fits r x.2) ∧
      (r.type = 1 → S = S') ∧ (r.type ∈ [2, 10, 11] → S.toUInt32 = S'.toUInt32)

lemma cutOff_eight (v : UInt64) : cutOff 8 v = v :=
  rfl

lemma cutOff_four_inj {v v' : UInt64} : cutOff 4 v = cutOff 4 v' ↔ v.toUInt32 = v'.toUInt32 :=
  UInt32.toUInt64_inj

/-- A relocation of a known type has a value, and two values of the symbol write the same exactly
if they agree in the bytes that are written. -/
lemma rawValue_known {r : Rela} (h : r.type ∈ [1, 2, 8, 10, 11]) (base addr S S' : UInt64) :
    ∃ width v v', rawValue base addr r S = some (width, v) ∧
      rawValue base addr r S' = some (width, v') ∧
      (cutOff width v = cutOff width v' ↔
        (r.type = 1 → S = S') ∧ (r.type ∈ [2, 10, 11] → S.toUInt32 = S'.toUInt32)) := by
  simp only [mem_cons, not_mem_nil, or_false] at h
  rcases h with h | h | h | h | h <;> simp [rawValue, h, cutOff_eight, cutOff_four_inj]

lemma rawValue_unknown {r : Rela} (h : r.type ∉ [1, 2, 8, 10, 11]) (base addr S : UInt64) :
    rawValue base addr r S = none := by
  simp only [mem_cons, not_mem_nil, or_false, not_or] at h
  simp [rawValue, h]

/-- The relocation without the bookkeeping of errors. -/
lemma accepted_relocate {c : Link} {target : UInt64} {r : Rela} (hsize : r.offset < c.totalSize)
    (hwrap : target ≤ target + r.offset) :
    (relocate c target r).accepted = (c.symbol r).bind fun S =>
      (rawValue c.base (target + r.offset) r S).map fun x =>
        ⟨target + r.offset, x.1, cutOff x.1 x.2⟩ := by
  rw [relocate, if_neg (by simp [hsize, hwrap]), Link.symbol]
  rcases symbolValue c r with - | ⟨S, error⟩
  · rfl
  · cases error <;> rcases hraw : rawValue c.base (target + r.offset) r S with - | ⟨width, v⟩ <;>
      simp [Outcome.accepted, hraw]

/-- A loader that fails leaves the modules as they are. -/
lemma loadWith_eq {sizing : Pass → UInt64}
    {bad : Link → List Shdr → List Placed → UInt64 → Rela → Bool} {file : Option File}
    {mem : ℕ → Option UInt64} {kernelSyms : List (String × UInt64)} {modules : List Loaded}
    (h : (loadWith sizing bad file mem kernelSyms modules).1 = -1) :
    loadWith sizing bad file mem kernelSyms modules = (-1, modules) := by
  revert h
  unfold loadWith
  split
  · exact fun _ => rfl
  · dsimp only
    split_ifs
    · exact fun _ => rfl
    · exact fun _ => rfl
    · split
      · exact fun _ => rfl
      · simp

/-- The link of `sampleModule` in a region of the right size. -/
def sampleLink : Link := link sampleModule samplePass 0x800000 16 (fun _ => some 0x800000) []

end Aurora.Module
