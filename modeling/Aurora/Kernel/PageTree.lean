import Aurora.Kernel.PageTable
import Aurora.Lib.Holders
import Mathlib.Data.List.Infix

/-!
# The tables of an address space

The tables that belong to one address space alone form a tree under its PML4: all entries of
the user half, except the first entry of the first PDPT, through which every address space
shares the identity mapping. A table is named by the path of indices that leads to it. An
owner map says which page frame is the table of which address space at which path; since it is
a function, no table stands at two places.

## Main definitions

* `privateIndices`, `pathsFrom`: the paths of an address space.
* `walk`, `lookup`: the table and the entry at a path.
* `uses`: how many paths lead to a page frame.
* `Owner`, `Tables`: the owners of page frames, and that tables are where the owners say.
-/

namespace Aurora.Paging

open Lib Function List Option

variable {e : Entry} {n : ℕ} {p q : List ℕ}

/-! ## Paths -/

/-- The entries of the table at a path that belong to the address space alone. -/
def privateIndices (q : List ℕ) : List ℕ :=
  if q = [] then List.range 256 else if q = [0] then List.range' 1 511 else List.range 512

/-- The paths with `n` more indices below a path. -/
def pathsFrom : ℕ → List ℕ → List (List ℕ)
  | 0, _ => [[]]
  | n + 1, q => (privateIndices q).flatMap fun i => (pathsFrom n (q ++ [i])).map (i :: ·)

/-- The paths below a path that go on with one of some indices. -/
def pathsVia (n : ℕ) (q is : List ℕ) : List (List ℕ) :=
  is.flatMap fun i => (pathsFrom n (q ++ [i])).map (i :: ·)

lemma pathsFrom_succ (n : ℕ) (q : List ℕ) :
    pathsFrom (n + 1) q = pathsVia n q (privateIndices q) := rfl

@[simp] lemma pathsVia_nil (n : ℕ) (q : List ℕ) : pathsVia n q [] = [] := rfl

lemma pathsVia_cons (n : ℕ) (q : List ℕ) (i : ℕ) (is : List ℕ) :
    pathsVia n q (i :: is) = (pathsFrom n (q ++ [i])).map (i :: ·) ++ pathsVia n q is := rfl

lemma mem_pathsVia {is : List ℕ} :
    p ∈ pathsVia n q is ↔ ∃ i ∈ is, ∃ p' ∈ pathsFrom n (q ++ [i]), p = i :: p' := by
  simp only [pathsVia, mem_flatMap, List.mem_map]
  constructor
  · rintro ⟨i, hi, p', hp', rfl⟩
    exact ⟨i, hi, p', hp', rfl⟩
  · rintro ⟨i, hi, p', hp', rfl⟩
    exact ⟨i, hi, p', hp', rfl⟩

lemma mem_pathsFrom_succ :
    p ∈ pathsFrom (n + 1) q ↔ ∃ i ∈ privateIndices q, ∃ p' ∈ pathsFrom n (q ++ [i]), p = i :: p' :=
  mem_pathsVia

lemma length_of_mem_pathsFrom (h : p ∈ pathsFrom n q) : p.length = n := by
  induction n generalizing q p with
  | zero =>
    rw [pathsFrom, mem_singleton] at h
    rw [h, length_nil]
  | succ n ih =>
    obtain ⟨i, -, _, hp', rfl⟩ := mem_pathsFrom_succ.1 h
    rw [length_cons, ih hp']

lemma ne_nil_of_mem_pathsFrom (hn : n ≠ 0) (h : p ∈ pathsFrom n q) : p ≠ [] := by
  rintro rfl
  exact hn (length_of_mem_pathsFrom h).symm

lemma nodup_privateIndices (q : List ℕ) : (privateIndices q).Nodup := by
  unfold privateIndices
  split
  · exact nodup_range
  · split
    · exact nodup_range'
    · exact nodup_range

lemma nodup_pathsFrom (n : ℕ) (q : List ℕ) : (pathsFrom n q).Nodup := by
  induction n generalizing q with
  | zero => exact nodup_singleton _
  | succ n ih =>
    rw [pathsFrom, nodup_flatMap]
    refine ⟨fun i _ => (ih _).map (cons_injective), ?_⟩
    refine (nodup_privateIndices q).imp fun {i j} hij => ?_
    intro p hi hj
    obtain ⟨_, -, rfl⟩ := mem_map.1 hi
    obtain ⟨_, -, h⟩ := mem_map.1 hj
    exact hij (List.cons.inj h).1.symm

/-- The paths of all pages that belong to an address space alone. -/
def userPaths : List (List ℕ) := pathsFrom 4 []

/-- The path of a page. -/
def pathOf (va : ℕ) : List ℕ := [pml4Idx va, pdptIdx va, pdIdx va, ptIdx va]

lemma pathOf_mem {va : ℕ} (hlow : 2 ^ 30 ≤ va) (hhigh : va < 2 ^ 47) : pathOf va ∈ userPaths := by
  have h4 : pml4Idx va < 256 := by unfold pml4Idx; omega
  have h3 : pdptIdx va < 512 := Nat.mod_lt _ (by decide)
  have h2 : pdIdx va < 512 := Nat.mod_lt _ (by decide)
  have h1 : ptIdx va < 512 := Nat.mod_lt _ (by decide)
  have h3' : pml4Idx va = 0 → 1 ≤ pdptIdx va := by unfold pml4Idx pdptIdx; omega
  refine mem_pathsFrom_succ.2 ⟨_, by simpa [privateIndices] using h4, _, ?_, rfl⟩
  refine mem_pathsFrom_succ.2 ⟨_, ?_, _, ?_, rfl⟩
  · by_cases h0 : pml4Idx va = 0
    · simp only [privateIndices, nil_append, cons_ne_nil, if_false, h0, if_true, mem_range'_1]
      omega
    · simpa [privateIndices, h0] using h3
  refine mem_pathsFrom_succ.2 ⟨_, by simpa [privateIndices] using h2, _, ?_, rfl⟩
  refine mem_pathsFrom_succ.2 ⟨_, by simpa [privateIndices] using h1, _, ?_, rfl⟩
  exact mem_singleton.2 rfl

/-! ## Following a path -/

/-- The table behind an entry that is not a large page. -/
def Entry.table (e : Entry) : Option ℕ := if e.present && !e.ps then some e.frame else none

/-- The entry, if it is present. -/
def Entry.leaf (e : Entry) : Option Entry := if e.present then some e else none

variable {t : ℕ}

lemma Entry.table_eq_some : e.table = some t ↔ e.present = true ∧ e.ps = false ∧ e.frame = t := by
  unfold Entry.table
  cases e.present <;> cases e.ps <;> simp

lemma Entry.table_eq_none : e.table = none ↔ e.present = false ∨ e.ps = true := by
  unfold Entry.table
  cases e.present <;> cases e.ps <;> simp

lemma Entry.leaf_eq_some {e' : Entry} : e.leaf = some e' ↔ e.present = true ∧ e = e' := by
  unfold Entry.leaf
  cases e.present <;> simp

lemma Entry.leaf_eq_none : e.leaf = none ↔ e.present = false := by
  unfold Entry.leaf
  cases e.present <;> simp

/-- The page frame that an entry maps. -/
def Entry.maps (e : Entry) : Option ℕ := e.leaf.map Entry.frame

variable {g : ℕ}

lemma Entry.maps_eq_some : e.maps = some g ↔ e.present = true ∧ e.frame = g := by
  unfold Entry.maps Entry.leaf
  cases e.present <;> simp

/-- The table at a path below a table. -/
def walk (m : Memory) : ℕ → List ℕ → Option ℕ
  | f, [] => some f
  | f, i :: q => (m f i).table.bind fun t => walk m t q

/-- The entry of the last table at a path below a table. -/
def lookup (m : Memory) : ℕ → List ℕ → Option Entry
  | _, [] => none
  | f, [i] => (m f i).leaf
  | f, i :: j :: p => (m f i).table.bind fun t => lookup m t (j :: p)

lemma lookup_cons (m : Memory) (f i : ℕ) (hp : p ≠ []) :
    lookup m f (i :: p) = (m f i).table.bind fun t => lookup m t p := by
  cases p with
  | nil => exact absurd rfl hp
  | cons j p => rfl

lemma lookup_append (m : Memory) (f : ℕ) (q : List ℕ) (l : ℕ) :
    lookup m f (q ++ [l]) = (walk m f q).bind fun t => (m t l).leaf := by
  induction q generalizing f with
  | nil => rfl
  | cons i q ih =>
    rw [cons_append, lookup_cons m f i (by simp)]
    cases ht : (m f i).table with
    | none => simp [walk, ht]
    | some t => simp [walk, ht, ih]

lemma walk_append (m : Memory) (f : ℕ) (q q' : List ℕ) :
    walk m f (q ++ q') = (walk m f q).bind fun t => walk m t q' := by
  induction q generalizing f with
  | nil => rfl
  | cons i q ih =>
    cases ht : (m f i).table with
    | none => simp [walk, ht]
    | some t => simp [walk, ht, ih]

/-! ## Owners -/

/-- Which table of which address space a page frame is. -/
abbrev Owner := ℕ → Option (ℕ × List ℕ)

variable {x : ℕ × List ℕ}

section Ne

variable {own : Owner} {f g r r' : ℕ} {q q' : List ℕ}

lemma ne_of_own {y : ℕ × List ℕ} (hf : own f = some x) (hg : own g = some y) (hxy : x ≠ y) :
    f ≠ g := by
  rintro rfl
  exact hxy (some.inj (hf.symm.trans hg))

lemma ne_of_none (hf : own f = some x) (hg : own g = none) : f ≠ g := by
  rintro rfl
  simp [hf] at hg

lemma ne_of_root (hf : own f = some (r, q)) (hg : own g = some (r', q')) (hr : r ≠ r') :
    f ≠ g := ne_of_own hf hg fun h => hr (congrArg Prod.fst h)

lemma ne_of_level (hf : own f = some (r, q)) (hg : own g = some (r', q'))
    (hq : q.length ≠ q'.length) : f ≠ g :=
  ne_of_own hf hg fun h => hq (congrArg (fun x => x.2.length) h)

end Ne

/-- The tables that the entries lead to are where the owner map says, and what is mapped is in
use and no table. -/
structure Tables (v : Vm) (own : Owner) : Prop where
  depth : ∀ {f r q}, own f = some (r, q) → q.length ≤ 3
  inside : ∀ {f r q}, own f = some (r, q) → InReach f
  busy : ∀ {f r q}, own f = some (r, q) → v.state f ≠ .free
  rooted : ∀ {f r q}, own f = some (r, q) → v.state r ≠ .free
  small : ∀ {f r q i}, own f = some (r, q) → q.length < 2 → i ∈ privateIndices q →
    (v.mem f i).present = true → (v.mem f i).ps = false
  child : ∀ {f r q i t}, own f = some (r, q) → q.length < 3 → i ∈ privateIndices q →
    (v.mem f i).table = some t → own t = some (r, q ++ [i])
  data : ∀ {f r q i}, own f = some (r, q) → q.length = 3 → i ∈ privateIndices q →
    (v.mem f i).present = true →
    own (v.mem f i).frame = none ∧ v.state (v.mem f i).frame ≠ .free

variable {m : Memory} {e : Entry}

namespace Tables

variable {f n r : ℕ} {p q : List ℕ}

variable {v : Vm} {own : Owner}

section

variable (h : Tables v own) (hf : own f = some (r, q)) (hn : n + q.length = 4)
  (hp : p ∈ pathsFrom n q) (he : lookup v.mem f p = some e)

include h hf hn hp he

omit he in
/-- A path only depends on the words that it reads. -/
lemma lookup_congr
    (hm : ∀ q' i g, q <+: q' → q' ++ [i] <+: q ++ p → own g = some (r, q') → m g i = v.mem g i) :
    lookup m f p = lookup v.mem f p := by
  -- the path is followed one table at a time
  induction n generalizing f q p with
  | zero =>
    have := h.depth hf
    omega
  | succ n ih =>
    obtain ⟨i, hi, p', hp', rfl⟩ := mem_pathsFrom_succ.1 hp
    have hword : m f i = v.mem f i :=
      hm q i f (prefix_refl _) ⟨p', by simp⟩ hf
    by_cases hnil : p' = []
    · subst hnil
      simp only [lookup, hword]
    rw [lookup_cons _ _ _ hnil, lookup_cons _ _ _ hnil, hword]
    cases ht : (v.mem f i).table with
    | none => rfl
    | some t =>
      have hlen := length_of_mem_pathsFrom hp'
      have hn0 : n ≠ 0 := fun h0 => hnil (length_eq_zero_iff.1 (by omega))
      have hown := h.child hf (by omega) hi ht
      refine ih hown (by rw [length_append, length_singleton]; omega) hp' ?_
      intro q' x g hpre hpath hg
      refine hm q' x g ((prefix_append q [i]).trans hpre) ?_ hg
      simpa using hpath

/-- What a path finds is in a last-level table of the address space. -/
lemma exists_of_lookup :
    ∃ p' l g, p = p' ++ [l] ∧ walk v.mem f p' = some g ∧ own g = some (r, q ++ p') ∧
      l ∈ privateIndices (q ++ p') ∧ v.mem g l = e ∧ e.present = true := by
  induction n generalizing f q p with
  | zero =>
    have := h.depth hf
    omega
  | succ n ih =>
    obtain ⟨i, hi, p', hp', rfl⟩ := mem_pathsFrom_succ.1 hp
    by_cases hnil : p' = []
    · subst hnil
      obtain ⟨hpres, rfl⟩ := Entry.leaf_eq_some.1 (by simpa only [lookup] using he)
      exact ⟨[], i, f, rfl, rfl, by simpa using hf, by simpa using hi, rfl, hpres⟩
    rw [lookup_cons _ _ _ hnil] at he
    obtain ⟨t, ht, he⟩ := bind_eq_some_iff.1 he
    have hlen := length_of_mem_pathsFrom hp'
    have hn0 : n ≠ 0 := fun h0 => hnil (length_eq_zero_iff.1 (by omega))
    have hown := h.child hf (by omega) hi ht
    obtain ⟨p'', l, g, rfl, hwalk, hg, hl, hgl, hpres⟩ :=
      ih hown (by rw [length_append, length_singleton]; omega) hp' he
    refine ⟨i :: p'', l, g, rfl, ?_, ?_, ?_, hgl, hpres⟩
    · simp only [walk, ht, bind_some]
      exact hwalk
    · simpa using hg
    · simpa using hl

/-- What a path finds maps memory in use that is no table. -/
lemma data_of_lookup : own e.frame = none ∧ v.state e.frame ≠ .free := by
  obtain ⟨_, l, g, rfl, -, hg, hl, rfl, hpres⟩ := h.exists_of_lookup hf hn hp he
  have hlen := length_of_mem_pathsFrom hp
  rw [length_append, length_singleton] at hlen
  exact h.data hg (by rw [length_append]; omega) hl hpres

end

end Tables

/-! ## Allocating and writing -/

variable {f i : ℕ}

namespace Vm

/-- The state after the allocator has handed out a page frame. -/
def give (v : Vm) (f : ℕ) : Vm :=
  { v with mem := Function.update v.mem f fun _ => {}, state := Function.update v.state f .used,
           refCount := Function.update v.refCount f 1, asked := v.asked + 1 }

/-- The state after the allocator has refused. -/
def refuse (v : Vm) : Vm := { v with asked := v.asked + 1 }

lemma offered_eq_some {v : Vm} (h : v.offered = some f) :
    v.state f = .free ∧ InReach f := by
  unfold offered at h
  split at h
  · cases h
  · split_ifs at h with hf
    cases h
    exact hf

section

variable (v : Vm)

lemma allocPage_cases : v.allocPage = (v.refuse, none) ∨
      ∃ f, v.state f = .free ∧ InReach f ∧ v.allocPage = (v.give f, some f) := by
  unfold allocPage
  cases ho : v.offered with
  | none => exact .inl rfl
  | some f => exact .inr ⟨f, (offered_eq_some ho).1, (offered_eq_some ho).2, rfl⟩

lemma give_frame (h : g ≠ f) : (v.give f).mem g = v.mem g :=
  update_of_ne h ..

lemma give_blank (f i : ℕ) : (v.give f).mem f i = {} := by
  simp [give]

lemma give_state (h : g ≠ f) : (v.give f).state g = v.state g :=
  update_of_ne h ..

lemma give_used (f : ℕ) : (v.give f).state f = .used := update_self ..

lemma give_refCount (h : g ≠ f) : (v.give f).refCount g = v.refCount g :=
  update_of_ne h ..

@[simp] lemma write_state (f i : ℕ) (e : Entry) : (v.write f i e).state = v.state := rfl

@[simp] lemma write_refCount (f i : ℕ) (e : Entry) : (v.write f i e).refCount = v.refCount := rfl

lemma write_self (f i : ℕ) (e : Entry) : (v.write f i e).mem f i = e := by
  simp [write, setWord]

lemma write_index (f : ℕ) {j : ℕ} (e : Entry) (h : j ≠ i) :
    (v.write f i e).mem f j = v.mem f j := by
  simp [write, setWord, h]

lemma write_write (f i : ℕ) (e e' : Entry) : (v.write f i e).write f i e' = v.write f i e' := by
  simp [write, setWord]

lemma write_frame (i : ℕ) (e : Entry) (h : g ≠ f) : (v.write f i e).mem g = v.mem g := by
  simp [write, setWord, h]

lemma write_apply (f i : ℕ) (e : Entry) (g x : ℕ) :
    (v.write f i e).mem g x = if g = f ∧ x = i then e else v.mem g x := by
  simp only [write, setWord, update_apply]
  split_ifs <;> simp_all

lemma clear_word (t i : ℕ) (g x : ℕ) :
    (v.write t i {}).mem g x = v.mem g x ∨ (v.write t i {}).mem g x = {} := by
  rw [write_apply]
  split
  · exact .inr rfl
  · exact .inl rfl

@[simp] lemma refInc_mem (f : ℕ) : (v.refInc f).mem = v.mem := by
  unfold refInc
  split <;> rfl

@[simp] lemma refInc_state (f : ℕ) : (v.refInc f).state = v.state := by
  unfold refInc
  split <;> rfl

lemma refInc_refCount (hg : v.state g ≠ .outside) :
    (v.refInc f).refCount g = v.refCount g + if f = g then 1 else 0 := by
  unfold refInc
  split_ifs with hf h h
  · exact absurd (h ▸ hf) hg
  · rfl
  · subst h
    exact update_self ..
  · exact update_of_ne (Ne.symm h) ..

end

end Vm

lemma physToVirt_of_inReach (h : InReach f) : physToVirt f = some f := by
  rw [physToVirt, if_neg (by omega)]

/-- **What processes share after `clone_kernel_pml4`**: each has the first entry of the kernel's
PML4, so that all of them translate the addresses below 512 GiB through the kernel's tables. -/
lemma translate_cloneKernelPml4 {v v' : Vm} {kernelCr3 d va : ℕ}
    (h : cloneKernelPml4 v kernelCr3 = some (v', d)) (hva : pml4Idx va = 0) :
    translate v'.mem d va = translate v'.mem kernelCr3 va := by
  have hword : v'.mem d 0 = v'.mem kernelCr3 0 := by
    unfold cloneKernelPml4 physToVirt at h
    split at h
    next =>
      cases h
      rfl
    next t _ =>
      split_ifs at h
      · cases h
      obtain ⟨rfl, rfl⟩ := Prod.ext_iff.1 (some.inj h)
      rw [Vm.write_self]
      by_cases ht : kernelCr3 = t
      · rw [ht, Vm.write_self]
      · rw [Vm.write_frame _ _ _ ht]
  rw [translate, translate, hva, hword]

@[simp] lemma structEntry_table (f : ℕ) : (structEntry f).table = some f := rfl

@[simp] lemma Entry.table_empty : ({} : Entry).table = none := rfl

@[simp] lemma Entry.leaf_empty : ({} : Entry).leaf = none := rfl

lemma lookup_cons_blank (h : m f i = {}) (p : List ℕ) : lookup m f (i :: p) = none := by
  cases p <;> simp [lookup, h]

variable {q : List ℕ}

lemma lookup_of_blank {n : ℕ} {p : List ℕ} (h : ∀ i ∈ privateIndices q, m f i = {})
    (hp : p ∈ pathsFrom n q) : lookup m f p = none := by
  cases n with
  | zero =>
    rw [pathsFrom, mem_singleton] at hp
    rw [hp, lookup]
  | succ n =>
    obtain ⟨i, hi, p', -, rfl⟩ := mem_pathsFrom_succ.1 hp
    exact lookup_cons_blank (h i hi) p'

/-! ## Uses of a page frame -/

/-- How many of the paths below a table lead to a page frame. -/
def uses (m : Memory) (f : ℕ) (ps : List (List ℕ)) (g : ℕ) : ℕ :=
  holders (fun p => (lookup m f p).map Entry.frame) ps g

section Uses

variable {m' : Memory} {t g : ℕ} {ps : List (List ℕ)}

@[simp] lemma uses_nil (m : Memory) (f g : ℕ) : uses m f [] g = 0 := rfl

lemma uses_append (m : Memory) (f : ℕ) (ps ps' : List (List ℕ)) (g : ℕ) :
    uses m f (ps ++ ps') g = uses m f ps g + uses m f ps' g := holders_append ..

lemma uses_congr (h : ∀ p ∈ ps,
    (lookup m f p).map Entry.frame = (lookup m' t p).map Entry.frame) :
    uses m f ps g = uses m' t ps g :=
  holders_congr fun p hp => by rw [h p hp]

lemma uses_eq_zero (h : ∀ p ∈ ps, lookup m f p = none) : uses m f ps g = 0 :=
  holders_eq_zero.2 fun p hp => by simp [h p hp]

/-- The paths below an entry are those of the table that it points to. -/
lemma uses_descend (h : (m f i).table = some t) (hps : ∀ p ∈ ps, p ≠ []) :
    uses m f (ps.map (i :: ·)) g = uses m t ps g := by
  rw [uses, holders_map]
  refine holders_congr fun p hp => ?_
  rw [comp_apply, lookup_cons _ _ _ (hps p hp), h, bind_some]

lemma uses_leaf {l : ℕ} (h : lookup m f [l] = some e) :
    uses m f [[l]] g = if e.frame = g then 1 else 0 := by
  simp [uses, holders, countP_singleton, h]

end Uses

namespace Tables

variable {v : Vm} {own : Owner}

lemma ne_of_free (h : Tables v own) (hfree : v.state t = .free) (hf : own f = some x) : f ≠ t := by
  rintro rfl
  exact h.busy hf hfree

lemma own_eq_none (h : Tables v own) (hfree : v.state t = .free) : own t = none := by
  cases ho : own t with
  | none => rfl
  | some x => exact absurd rfl (h.ne_of_free hfree ho)

/-- Only the words matter that belong to an address space alone, and that page frames stay in
use. -/
lemma of_words (h : Tables v own) {v' : Vm}
    (hmem : ∀ {f x q i}, own f = some (x, q) → i ∈ privateIndices q → v'.mem f i = v.mem f i)
    (hstate : ∀ {f}, v.state f ≠ .free → v'.state f ≠ .free) : Tables v' own where
  depth := h.depth
  inside := h.inside
  busy := fun hf => hstate (h.busy hf)
  rooted := fun hf => hstate (h.rooted hf)
  small := fun hf hq hi => by rw [hmem hf hi]; exact h.small hf hq hi
  child := fun hf hq hi => by rw [hmem hf hi]; exact h.child hf hq hi
  data := fun hf hq hi => by
    rw [hmem hf hi]
    exact fun hp => ⟨(h.data hf hq hi hp).1, hstate (h.data hf hq hi hp).2⟩

lemma of_owned (h : Tables v own) {v' : Vm} (hmem : ∀ {f x}, own f = some x → v'.mem f = v.mem f)
    (hstate : ∀ {f}, v.state f ≠ .free → v'.state f ≠ .free) : Tables v' own :=
  h.of_words (fun hf _ => by rw [hmem hf]) hstate

/-- Only memory and the states of page frames matter. -/
lemma of_eq (h : Tables v own) {v' : Vm} (hmem : v'.mem = v.mem) (hstate : v'.state = v.state) :
    Tables v' own :=
  h.of_owned (fun _ => by rw [hmem]) fun hf => by rwa [hstate]

/-- A word of a table is set to an entry that is right for it. -/
lemma write (h : Tables v own) (t i : ℕ) (e : Entry)
    (hsmall : ∀ {r q}, own t = some (r, q) → q.length < 2 → e.present = true → e.ps = false)
    (hchild : ∀ {r q u}, own t = some (r, q) → q.length < 3 → e.table = some u →
      own u = some (r, q ++ [i]))
    (hdata : ∀ {r q}, own t = some (r, q) → q.length = 3 → e.present = true →
      own e.frame = none ∧ v.state e.frame ≠ .free) : Tables (v.write t i e) own where
  depth := h.depth
  inside := h.inside
  busy := h.busy
  rooted := h.rooted
  small {g r q x} hg hq hx := by
    rw [v.write_apply]
    split_ifs with hgx
    · exact hsmall (hgx.1 ▸ hg) hq
    · exact h.small hg hq hx
  child {g r q x u} hg hq hx := by
    rw [v.write_apply]
    split_ifs with hgx
    · exact hgx.2 ▸ hchild (hgx.1 ▸ hg) hq
    · exact h.child hg hq hx
  data {g r q x} hg hq hx := by
    rw [v.write_apply]
    split_ifs with hgx
    · exact hdata (hgx.1 ▸ hg) hq
    · exact h.data hg hq hx

/-- Clearing an entry removes what is below it. -/
lemma clear (h : Tables v own) (t i : ℕ) : Tables (v.write t i {}) own :=
  h.write t i {} (fun _ _ => nofun) (fun _ _ => nofun) fun _ _ => nofun

end Tables

/-- No table maps the page frame. -/
def NotMapped (v : Vm) (own : Owner) (d : ℕ) : Prop :=
  ∀ f r q i, own f = some (r, q) → q.length = 3 → i ∈ privateIndices q →
    (v.mem f i).present = true → (v.mem f i).frame ≠ d

/-- The owner map with one more table. -/
def Owner.grow (own : Owner) (f r : ℕ) (q : List ℕ) : Owner := Function.update own f (some (r, q))

@[simp] lemma Owner.grow_self (own : Owner) (f r : ℕ) (q : List ℕ) :
    own.grow f r q f = some (r, q) := update_self ..

lemma Owner.grow_of_ne (own : Owner) (r : ℕ) (q : List ℕ) (h : g ≠ f) :
    own.grow f r q g = own g := update_of_ne h ..

variable {r : ℕ}

lemma Owner.grow_eq_some {own : Owner} :
    own.grow f r q g = some x ↔ g = f ∧ x = (r, q) ∨ g ≠ f ∧ own g = some x := by
  by_cases hg : g = f <;> simp [grow, hg, eq_comm]

namespace Tables

variable {v : Vm} {own : Owner}

/-- A page frame in use that nothing maps becomes an empty table. -/
lemma grow (h : Tables v own) (hnone : own f = none) (hf : InReach f) (hbusy : v.state f ≠ .free)
    (hr : v.state r ≠ .free) (hq : q.length ≤ 3) (hmap : NotMapped v own f)
    (hblank : ∀ i ∈ privateIndices q, v.mem f i = {}) : Tables v (own.grow f r q) := by
  constructor
  · intro g r' q' hg
    obtain ⟨-, ⟨⟩⟩ | ⟨-, hg⟩ := Owner.grow_eq_some.1 hg
    · exact hq
    · exact h.depth hg
  · intro g r' q' hg
    obtain ⟨rfl, -⟩ | ⟨-, hg⟩ := Owner.grow_eq_some.1 hg
    · exact hf
    · exact h.inside hg
  · intro g r' q' hg
    obtain ⟨rfl, -⟩ | ⟨-, hg⟩ := Owner.grow_eq_some.1 hg
    · exact hbusy
    · exact h.busy hg
  · intro g r' q' hg
    obtain ⟨-, ⟨⟩⟩ | ⟨-, hg⟩ := Owner.grow_eq_some.1 hg
    · exact hr
    · exact h.rooted hg
  · intro g r' q' x hg hlen hx hp
    obtain ⟨rfl, ⟨⟩⟩ | ⟨-, hg⟩ := Owner.grow_eq_some.1 hg
    · rw [hblank x hx]
    · exact h.small hg hlen hx hp
  · intro g r' q' x u hg hlen hx hu
    obtain ⟨rfl, ⟨⟩⟩ | ⟨-, hg⟩ := Owner.grow_eq_some.1 hg
    · simp [hblank x hx] at hu
    · have hown := h.child hg hlen hx hu
      rw [own.grow_of_ne r q (ne_of_none hown hnone), hown]
  · intro g r' q' x hg hlen hx hp
    obtain ⟨rfl, ⟨⟩⟩ | ⟨-, hg⟩ := Owner.grow_eq_some.1 hg
    · simp [hblank x hx] at hp
    · obtain ⟨hown, hused⟩ := h.data hg hlen hx hp
      exact ⟨by rw [own.grow_of_ne r q (hmap g r' q' x hg hlen hx hp), hown], hused⟩

/-- A page frame from the allocator becomes an empty table. -/
lemma give (h : Tables v own) (hfree : v.state f = .free) (hf : InReach f)
    (hr : r = f ∨ v.state r ≠ .free) (hq : q.length ≤ 3) : Tables (v.give f) (own.grow f r q) := by
  have hstate : ∀ {g}, v.state g ≠ .free → (v.give f).state g ≠ .free := fun {g} hg =>
    (v.give_state fun (he : g = f) => hg (he ▸ hfree)).trans_ne hg
  have hused : (v.give f).state f ≠ .free := by simp [v.give_used f]
  have hmem : ∀ {g x}, own g = some x → (v.give f).mem g = v.mem g := fun hg =>
    v.give_frame (h.ne_of_free hfree hg)
  refine (h.of_owned hmem hstate).grow (h.own_eq_none hfree) hf hused ?_ hq ?_
    fun i _ => v.give_blank f i
  · obtain rfl | hr := hr
    · exact hused
    · exact hstate hr
  · intro g r' q' x hg hlen hx hp
    rw [hmem hg] at hp ⊢
    rintro rfl
    exact (h.data hg hlen hx hp).2 hfree

/-- An entry is pointed to a table that stands below it. -/
lemma link (h : Tables v own) {t' : ℕ} (ht : own t = some (r, q)) (hq : q.length < 3)
    (ht' : own t' = some (r, q ++ [i])) : Tables (v.write t i (structEntry t')) own := by
  refine h.write t i _ (fun _ _ _ => rfl) (fun hr _ hu => ?_) fun hr hlen => ?_
  · cases ht.symm.trans hr
    cases hu
    exact ht'
  · cases ht.symm.trans hr
    omega

/-- The entry of a last-level table is set to one that maps memory in use. -/
lemma setLeaf (h : Tables v own) (i : ℕ) (ht : own t = some (r, q)) (hq : q.length = 3)
    (hdata : e.present = true → own e.frame = none ∧ v.state e.frame ≠ .free) :
    Tables (v.write t i e) own := by
  refine h.write t i e (fun hr hlen => ?_) (fun hr hlen => ?_) fun _ _ => hdata
  all_goals
    cases ht.symm.trans hr
    omega

end Tables

end Aurora.Paging
