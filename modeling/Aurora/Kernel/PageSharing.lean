import Aurora.Kernel.PageFork
import Mathlib.Data.List.ProdSigma

/-!
# Sharing page frames between address spaces

Several address spaces may map a page frame, as long as none of them may write to it, and its
count is at least the number of their mappings. A clone keeps this, and so does a write fault:
with a count of one there is no other mapping, and otherwise the page is copied.

## Main definitions

* `Route`: the tables through which the hardware reaches a page.
* `spots`, `frameAt`: the places at which page frames are mapped.
* `Sharing`: the invariant.
* `Sharing.fork`, `Sharing.cowFault`, `Sharing.store`: what keeps it.
-/

namespace Aurora.Paging

open Lib Function List Option

/-! ## The route to a page -/

section Indices

variable {va : ℕ}

lemma pathOf_indices (h : pathOf va ∈ userPaths) :
    pml4Idx va ∈ privateIndices [] ∧ pdptIdx va ∈ privateIndices [pml4Idx va] ∧
      pdIdx va ∈ privateIndices [pml4Idx va, pdptIdx va] ∧
      ptIdx va ∈ privateIndices [pml4Idx va, pdptIdx va, pdIdx va] := by
  obtain ⟨_, h4, _, hp3, heq⟩ := mem_pathsFrom_succ.1 h
  obtain ⟨_, h3, _, hp2, rfl⟩ := mem_pathsFrom_succ.1 hp3
  obtain ⟨_, h2, _, hp1, rfl⟩ := mem_pathsFrom_succ.1 hp2
  obtain ⟨_, h1, _, -, rfl⟩ := mem_pathsFrom_succ.1 hp1
  cases heq
  exact ⟨h4, h3, h2, h1⟩

end Indices

/-- An address space without large pages. -/
def Flat (v : Vm) (own : Owner) (r : ℕ) : Prop :=
  ∀ f q i, own f = some (r, q) → q.length < 3 → i ∈ privateIndices q →
    (v.mem f i).present = true → (v.mem f i).ps = false

/-- The three tables below the PML4 through which an address is reached. -/
structure Route (v : Vm) (own : Owner) (r va pdpt pd pt : ℕ) : Prop where
  pdpt_eq : (v.mem r (pml4Idx va)).table = some pdpt
  pd_eq : (v.mem pdpt (pdptIdx va)).table = some pd
  pt_eq : (v.mem pd (pdIdx va)).table = some pt
  pdpt_own : own pdpt = some (r, [pml4Idx va])
  pd_own : own pd = some (r, [pml4Idx va, pdptIdx va])
  pt_own : own pt = some (r, [pml4Idx va, pdptIdx va, pdIdx va])

variable {e : Entry}

section Route

variable {v : Vm} {own : Owner} {r va : ℕ}

/-- What a path finds is reached by a route. -/
lemma Tables.exists_route (h : Tables v own) (hr : own r = some (r, []))
    (hp : pathOf va ∈ userPaths) (he : lookup v.mem r (pathOf va) = some e) :
    ∃ pdpt pd pt, Route v own r va pdpt pd pt ∧ v.mem pt (ptIdx va) = e ∧ e.present = true := by
  obtain ⟨h4, h3, h2, -⟩ := pathOf_indices hp
  obtain ⟨pdpt, hpdpt, he⟩ := bind_eq_some_iff.1 he
  obtain ⟨pd, hpd, he⟩ := bind_eq_some_iff.1 he
  obtain ⟨pt, hpt, he⟩ := bind_eq_some_iff.1 he
  obtain ⟨hpres, rfl⟩ := Entry.leaf_eq_some.1 he
  have ho3 := h.child hr (by decide) h4 hpdpt
  have ho2 := h.child ho3 (by simp) h3 hpd
  have ho1 := h.child ho2 (by simp) h2 hpt
  exact ⟨pdpt, pd, pt, ⟨hpdpt, hpd, hpt, ho3, ho2, ho1⟩, rfl, hpres⟩

namespace Route

variable {pdpt pd pt : ℕ}

section

variable (h : Route v own r va pdpt pd pt)

include h

lemma lookup_eq : lookup v.mem r (pathOf va) = (v.mem pt (ptIdx va)).leaf := by
  simp [pathOf, lookup, h.pdpt_eq, h.pd_eq, h.pt_eq]

/-- The hardware follows the route. -/
lemma translate_eq (hp : (v.mem pt (ptIdx va)).present = true) :
    translate v.mem r va = some (.of ((v.mem pt (ptIdx va)).frame * 2 ^ 12 + va % 2 ^ 12)
      [v.mem r (pml4Idx va), v.mem pdpt (pdptIdx va), v.mem pd (pdIdx va),
        v.mem pt (ptIdx va)]) := by
  obtain ⟨hp4, -, hf4⟩ := Entry.table_eq_some.1 h.pdpt_eq
  obtain ⟨hp3, hs3, hf3⟩ := Entry.table_eq_some.1 h.pd_eq
  obtain ⟨hp2, hs2, hf2⟩ := Entry.table_eq_some.1 h.pt_eq
  simp [translate, hp4, hf4, hp3, hs3, hf3, hp2, hs2, hf2, hp]

/-- The entry of the last table is replaced. -/
lemma set (hr : own r = some (r, [])) (e : Entry) :
    Route (v.write pt (ptIdx va) e) own r va pdpt pd pt := by
  have hne : ∀ {f q}, own f = some (r, q) → q.length < 3 → f ≠ pt := fun hf hq =>
    ne_of_level hf h.pt_own (by simp; omega)
  refine ⟨?_, ?_, ?_, h.pdpt_own, h.pd_own, h.pt_own⟩
  · rw [v.write_frame _ _ (hne hr (by decide))]
    exact h.pdpt_eq
  · rw [v.write_frame _ _ (hne h.pdpt_own (by simp))]
    exact h.pd_eq
  · rw [v.write_frame _ _ (hne h.pd_own (by simp))]
    exact h.pt_eq

/-- A route only depends on the tables. -/
lemma congr (hr : own r = some (r, [])) (v' : Vm)
    (hmem : ∀ {f x}, own f = some x → v'.mem f = v.mem f) : Route v' own r va pdpt pd pt where
  pdpt_eq := by rw [hmem hr, h.pdpt_eq]
  pd_eq := by rw [hmem h.pdpt_own, h.pd_eq]
  pt_eq := by rw [hmem h.pd_own, h.pt_eq]
  pdpt_own := h.pdpt_own
  pd_own := h.pd_own
  pt_own := h.pt_own

/-- No other path sees it. -/
lemma lookup_set (ht : Tables v own) (e : Entry) {r2 : ℕ} {p : List ℕ}
    (hr2 : own r2 = some (r2, [])) (hp : p ∈ userPaths) (hne : (r2, p) ≠ (r, pathOf va)) :
    lookup (v.write pt (ptIdx va) e).mem r2 p = lookup v.mem r2 p := by
  refine ht.lookup_congr hr2 rfl hp ?_
  intro q i g _ hpath hg
  by_cases hgt : g = pt
  · subst hgt
    rw [h.pt_own] at hg
    cases hg
    refine v.write_index _ _ ?_
    rintro rfl
    refine hne ?_
    have hlen := length_of_mem_pathsFrom hp
    rw [nil_append] at hpath
    rw [← hpath.eq_of_length (by rw [hlen]; rfl)]
    rfl
  · rw [v.write_frame _ _ hgt]

end

end Route

/-- Without large pages the hardware finds nothing that a path does not find. -/
lemma Tables.translate_eq_none (h : Tables v own) (hr : own r = some (r, []))
    (hp : pathOf va ∈ userPaths) (hflat : Flat v own r)
    (he : lookup v.mem r (pathOf va) = none) : translate v.mem r va = none := by
  obtain ⟨h4, h3, h2, -⟩ := pathOf_indices hp
  simp only [pathOf, lookup] at he
  have htable : ∀ {f q i}, own f = some (r, q) → q.length < 3 → i ∈ privateIndices q →
      (v.mem f i).present = true → (v.mem f i).table = some (v.mem f i).frame :=
    fun hf hq hi hpres => Entry.table_eq_some.2 ⟨hpres, hflat _ _ _ hf hq hi hpres, rfl⟩
  unfold translate
  cases hp4 : (v.mem r (pml4Idx va)).present with
  | false => simp [hp4]
  | true =>
  have ht4 := htable hr (by decide) h4 hp4
  have ho3 := h.child hr (by decide) h4 ht4
  rw [ht4, bind_some] at he
  cases hp3 : (v.mem (v.mem r (pml4Idx va)).frame (pdptIdx va)).present with
  | false => simp [hp4, hp3]
  | true =>
  have ht3 := htable ho3 (by simp) h3 hp3
  have ho2 := h.child ho3 (by simp) h3 ht3
  obtain ⟨-, hs3, -⟩ := Entry.table_eq_some.1 ht3
  rw [ht3, bind_some] at he
  cases hp2 :
    (v.mem (v.mem (v.mem r (pml4Idx va)).frame (pdptIdx va)).frame (pdIdx va)).present with
  | false => simp [hp4, hp3, hs3, hp2]
  | true =>
  have ht2 := htable ho2 (by simp) h2 hp2
  obtain ⟨-, hs2, -⟩ := Entry.table_eq_some.1 ht2
  rw [ht2, bind_some, Entry.leaf_eq_none] at he
  simp [hp4, hp3, hs3, hp2, hs2, he]

end Route

/-! ## The invariant -/

/-- The places at which some address spaces may map page frames. -/
def spots (procs : List ℕ) : List (ℕ × List ℕ) := procs ×ˢ userPaths

variable {procs : List ℕ} {k : ℕ × List ℕ}

lemma mem_spots : k ∈ spots procs ↔ k.1 ∈ procs ∧ k.2 ∈ userPaths := mem_product

lemma nodup_spots (h : procs.Nodup) : (spots procs).Nodup :=
  h.product (nodup_pathsFrom 4 [])

/-- The page frame that is mapped at a place. -/
def frameAt (v : Vm) (k : ℕ × List ℕ) : Option ℕ := (lookup v.mem k.1 k.2).map Entry.frame

/-- Whether the entry at a place permits user mode. -/
def userAt (v : Vm) (k : ℕ × List ℕ) : Option Bool := (lookup v.mem k.1 k.2).map Entry.user

/-- The contents of the page at a place. -/
def pageAt (v : Vm) (k : ℕ × List ℕ) : Option (ℕ → Entry) := (frameAt v k).map v.mem

/-- Page frames are shared read-only, and counted. -/
structure Sharing (v : Vm) (own : Owner) (procs : List ℕ) : Prop where
  tables : Tables v own
  nodup : procs.Nodup
  root : ∀ r ∈ procs, own r = some (r, [])
  first : ∀ r ∈ procs, (v.mem r 0).present = true
  flat : ∀ r ∈ procs, Flat v own r
  managed : ∀ k ∈ spots procs, ∀ g, frameAt v k = some g → v.state g ≠ .outside
  counted : ∀ g, holders (frameAt v) (spots procs) g ≤ v.refCount g
  exclusive : ∀ k ∈ spots procs, ∀ e, lookup v.mem k.1 k.2 = some e → e.rw = true →
    ∀ k' ∈ spots procs, frameAt v k' = some e.frame → k' = k

variable {v : Vm} {g : ℕ}

lemma frameAt_eq_some : frameAt v k = some g ↔ ∃ e, lookup v.mem k.1 k.2 = some e ∧ e.frame = g :=
  map_eq_some_iff

lemma frameAt_congr {v' : Vm} (h : lookup v'.mem k.1 k.2 = lookup v.mem k.1 k.2 ∨
      lookup v'.mem k.1 k.2 = (lookup v.mem k.1 k.2).map Entry.cow) :
    frameAt v' k = frameAt v k := by
  obtain h | h := h
  · rw [frameAt, h, frameAt]
  · rw [frameAt, h, Option.map_map, frameAt]
    rfl

lemma pageAt_eq {v' : Vm} (hframe : frameAt v' k = frameAt v k)
    (hmem : ∀ g, frameAt v k = some g → v'.mem g = v.mem g) : pageAt v' k = pageAt v k := by
  unfold pageAt
  rw [hframe]
  cases hg : frameAt v k with
  | none => rfl
  | some g => rw [map_some, map_some, hmem g hg]

variable {x : ℕ}

namespace Sharing

variable {f : ℕ} {k : ℕ × List ℕ}

variable {v v' : Vm} {own : Owner} {procs : List ℕ}

section

variable (h : Sharing v own procs)

include h

/-- What is mapped is in use and no table. -/
lemma data (hk : k ∈ spots procs) (hg : frameAt v k = some g) :
    own g = none ∧ v.state g ≠ .free := by
  obtain ⟨hr, hp⟩ := mem_spots.1 hk
  obtain ⟨e, he, rfl⟩ := frameAt_eq_some.1 hg
  exact h.tables.data_of_lookup (h.root _ hr) rfl hp he

lemma holders_of_free (hg : v.state g = .free) : holders (frameAt v) (spots procs) g = 0 :=
  holders_eq_zero.2 fun _ hk hf => (h.data hk hf).2 hg

/-- Paths only depend on the tables. -/
lemma lookup_same (hmem : ∀ {f x}, own f = some x → v'.mem f = v.mem f)
    (hk : k ∈ spots procs) : lookup v'.mem k.1 k.2 = lookup v.mem k.1 k.2 := by
  obtain ⟨hr, hp⟩ := mem_spots.1 hk
  exact h.tables.lookup_congr (h.root _ hr) rfl hp fun q i g _ _ hg => by rw [hmem hg]

/-- Paths of an address space do not depend on the tables of another. -/
lemma lookup_other
    (houter : ∀ f, v.state f ≠ .free → (∀ q, own f ≠ some (x, q)) → v'.mem f = v.mem f)
    (hk : k ∈ spots procs) (hne : k.1 ≠ x) : lookup v'.mem k.1 k.2 = lookup v.mem k.1 k.2 := by
  obtain ⟨hr, hp⟩ := mem_spots.1 hk
  refine h.tables.lookup_congr (h.root _ hr) rfl hp fun q i g _ _ hg => ?_
  rw [houter g (h.tables.busy hg)]
  intro _
  rw [hg]
  rintro ⟨⟩
  exact hne rfl

/-- Tables above the last level are the same if those of one address space are, and no table of
another has changed. -/
lemma stem_of_outer
    (houter : ∀ f, v.state f ≠ .free → (∀ q, own f ≠ some (x, q)) → v'.mem f = v.mem f)
    (hstem : ∀ f q, own f = some (x, q) → q.length < 3 → v'.mem f = v.mem f) {y : ℕ} {q : List ℕ}
    (hf : own f = some (y, q)) (hq : q.length < 3) : v'.mem f = v.mem f := by
  by_cases hyx : y = x
  · subst hyx
    exact hstem f q hf hq
  · refine houter f (h.tables.busy hf) fun q' => ?_
    rw [hf]
    rintro ⟨⟩
    exact hyx rfl

/-- Where nothing is mapped, the way through the tables ends at an entry that is not present. -/
lemma walk_ends {va : ℕ} (hx : x ∈ procs) (hp : pathOf va ∈ userPaths)
    (he : lookup v.mem x (pathOf va) = none) :
    physToVirt x = some x ∧ ((v.mem x (pml4Idx va)).present = false ∨
      ∃ pdpt, (v.mem x (pml4Idx va)).present = true ∧
        physToVirt (v.mem x (pml4Idx va)).frame = some pdpt ∧
        ((v.mem pdpt (pdptIdx va)).present = false ∨
      ∃ pd, (v.mem pdpt (pdptIdx va)).present = true ∧
        physToVirt (v.mem pdpt (pdptIdx va)).frame = some pd ∧
        ((v.mem pd (pdIdx va)).present = false ∨
      ∃ pt, (v.mem pd (pdIdx va)).present = true ∧ (v.mem pd (pdIdx va)).ps = false ∧
        physToVirt (v.mem pd (pdIdx va)).frame = some pt ∧
        (v.mem pt (ptIdx va)).present = false))) := by
  obtain ⟨h4, h3, h2, -⟩ := pathOf_indices hp
  have hroot := h.root x hx
  simp only [pathOf, lookup] at he
  have hnext : ∀ {f q i}, own f = some (x, q) → q.length < 3 → i ∈ privateIndices q →
      (v.mem f i).present ≠ false → ∃ t, (v.mem f i).present = true ∧ (v.mem f i).ps = false ∧
        physToVirt (v.mem f i).frame = some t ∧ (v.mem f i).table = some t ∧
        own t = some (x, q ++ [i]) := by
    intro f q i hf hq hi hpres
    replace hpres := eq_true_of_ne_false hpres
    have hps := h.flat x hx _ _ _ hf hq hi hpres
    have ht := Entry.table_eq_some.2 ⟨hpres, hps, rfl⟩
    have hown := h.tables.child hf hq hi ht
    exact ⟨_, hpres, hps, physToVirt_of_inReach (h.tables.inside hown), ht, hown⟩
  refine ⟨physToVirt_of_inReach (h.tables.inside hroot), or_iff_not_imp_left.2 fun hp4 => ?_⟩
  obtain ⟨pdpt, hp4, -, hv3, ht4, ho3⟩ := hnext hroot (by decide) h4 hp4
  rw [ht4, bind_some] at he
  refine ⟨pdpt, hp4, hv3, or_iff_not_imp_left.2 fun hp3 => ?_⟩
  obtain ⟨pd, hp3, -, hv2, ht3, ho2⟩ := hnext ho3 (by simp) h3 hp3
  rw [ht3, bind_some] at he
  refine ⟨pd, hp3, hv2, or_iff_not_imp_left.2 fun hp2 => ?_⟩
  obtain ⟨pt, hp2, hs2, hv1, ht2, -⟩ := hnext ho2 (by simp) h2 hp2
  rw [ht2, bind_some, Entry.leaf_eq_none] at he
  exact ⟨pt, hp2, hs2, hv1, he⟩

/-- Other tables for some of the address spaces, which map the same page frames, no more of them
writable, and the counts are still large enough. -/
lemma of_lookups {own' : Owner} {ps : List ℕ} (hnodup : ps.Nodup)
    (hsub : ps ⊆ procs) (htables : Tables v' own') (hroot : ∀ r ∈ ps, own' r = some (r, []))
    (hfirst : ∀ r ∈ ps, (v'.mem r 0).present = true) (hflat : ∀ r ∈ ps, Flat v' own' r)
    (hlook : ∀ k ∈ spots ps, lookup v'.mem k.1 k.2 = lookup v.mem k.1 k.2 ∨
      lookup v'.mem k.1 k.2 = (lookup v.mem k.1 k.2).map Entry.cow)
    (hdata : ∀ k ∈ spots ps, ∀ g, frameAt v k = some g → v'.state g = v.state g ∧
      holders (frameAt v) (spots ps) g ≤ v'.refCount g) : Sharing v' own' ps := by
  have hspots : ∀ {k}, k ∈ spots ps → k ∈ spots procs := fun hk =>
    mem_spots.2 ⟨hsub (mem_spots.1 hk).1, (mem_spots.1 hk).2⟩
  have hframe : ∀ k ∈ spots ps, frameAt v' k = frameAt v k := fun k hk =>
    frameAt_congr (hlook k hk)
  refine ⟨htables, hnodup, hroot, hfirst, hflat, ?_, ?_, ?_⟩
  · intro k hk g hg
    rw [hframe k hk] at hg
    rw [(hdata k hk g hg).1]
    exact h.managed k (hspots hk) g hg
  · intro g
    rw [holders_congr fun k hk => by rw [hframe k hk]]
    by_cases hnone : ∃ k ∈ spots ps, frameAt v k = some g
    · obtain ⟨k, hk, hg⟩ := hnone
      exact (hdata k hk g hg).2
    · rw [holders_eq_zero.2 fun k hk hg => hnone ⟨k, hk, hg⟩]
      exact Nat.zero_le _
  · intro k hk e he hrw k' hk' hf
    rw [hframe k' hk'] at hf
    obtain hsame | hcow := hlook k hk
    · rw [hsame] at he
      exact h.exclusive k (hspots hk) e he hrw k' (hspots hk') hf
    · rw [hcow] at he
      obtain ⟨_, -, rfl⟩ := map_eq_some_iff.1 he
      cases hrw

/-- The invariant only depends on the tables and on page frames in use. -/
lemma congr (hmem : ∀ {f x}, own f = some x → v'.mem f = v.mem f)
    (hstate : ∀ {f}, v.state f ≠ .free → v'.state f = v.state f)
    (hcount : ∀ {f}, v.state f ≠ .free → v'.refCount f = v.refCount f) :
    Sharing v' own procs := by
  refine h.of_lookups h.nodup (fun _ hr => hr) ?_ h.root ?_ ?_
    (fun k hk => .inl (h.lookup_same hmem hk)) ?_
  · refine h.tables.of_owned hmem fun hf => ?_
    rwa [hstate hf]
  · intro r hr
    rw [hmem (h.root r hr)]
    exact h.first r hr
  · intro r hr f q i hf
    rw [hmem hf]
    exact h.flat r hr f q i hf
  · intro k hk g hg
    rw [hcount (h.data hk hg).2]
    exact ⟨hstate (h.data hk hg).2, h.counted g⟩

omit h in
/-- What replacing the entry at a place changes in the address spaces and in memory. -/
structure Replaced (r va : ℕ) (e : Entry) (v : Vm) (own : Owner) (procs : List ℕ) (v' : Vm) :
    Prop where
  sharing : Sharing v' own procs
  entry : lookup v'.mem r (pathOf va) = e.leaf
  others : ∀ k ∈ spots procs, k ≠ (r, pathOf va) → lookup v'.mem k.1 k.2 = lookup v.mem k.1 k.2
  frames : ∀ k ∈ spots procs, frameAt v' k = Function.update (frameAt v) (r, pathOf va) e.maps k
  stem : ∀ {f x q}, own f = some (x, q) → q.length < 3 → v'.mem f = v.mem f
  outer : ∀ {f}, (∀ q, own f ≠ some (r, q)) → v'.mem f = v.mem f

/-- The entry at a place is replaced by one that maps memory in use, or nothing, and the counts
are adjusted. -/
lemma setEntry (v' : Vm) {r va pdpt pd pt : ℕ} (hr : r ∈ procs)
    (hroute : Route v own r va pdpt pd pt) (hdata : e.present = true →
      own e.frame = none ∧ v.state e.frame ≠ .free ∧ v.state e.frame ≠ .outside)
    (hmem : v'.mem = (v.write pt (ptIdx va) e).mem) (hstate : v'.state = v.state)
    (hcount : ∀ g, holders (update (frameAt v) (r, pathOf va) e.maps) (spots procs) g ≤
      v'.refCount g)
    (hexcl : ∀ k ∈ spots procs, k ≠ (r, pathOf va) → ∀ e', lookup v.mem k.1 k.2 = some e' →
      e.maps = some e'.frame → e.rw = false ∧ e'.rw = false) : Replaced r va e v own procs v' := by
  have hself : lookup v'.mem r (pathOf va) = e.leaf := by
    rw [hmem, (hroute.set (h.root r hr) e).lookup_eq, Vm.write_self]
  have helse : ∀ k ∈ spots procs, k ≠ (r, pathOf va) →
      lookup v'.mem k.1 k.2 = lookup v.mem k.1 k.2 := by
    intro k hk hne
    obtain ⟨hk1, hk2⟩ := mem_spots.1 hk
    rw [hmem]
    exact hroute.lookup_set h.tables e (h.root _ hk1) hk2 hne
  have hframe : ∀ k ∈ spots procs, frameAt v' k = update (frameAt v) (r, pathOf va) e.maps k := by
    intro k hk
    by_cases hne : k = (r, pathOf va)
    · subst hne
      simp [frameAt, hself, Entry.maps]
    · simp [hne, frameAt, helse k hk hne, frameAt]
  have hstem : ∀ {f x q}, own f = some (x, q) → q.length < 3 → v'.mem f = v.mem f := by
    intro f x q hf hq
    rw [hmem, v.write_frame]
    exact ne_of_level hf hroute.pt_own (by simp; omega)
  have houter : ∀ {f}, (∀ q, own f ≠ some (r, q)) → v'.mem f = v.mem f := by
    intro f hf
    rw [hmem, v.write_frame]
    rintro rfl
    exact hf _ hroute.pt_own
  refine ⟨⟨?_, h.nodup, h.root, ?_, ?_, ?_, ?_, ?_⟩, hself, helse, hframe, hstem, houter⟩
  · refine (h.tables.setLeaf (ptIdx va) hroute.pt_own rfl fun hp => ?_).of_eq hmem hstate
    exact ⟨(hdata hp).1, (hdata hp).2.1⟩
  · intro x hx
    rw [hstem (h.root x hx) (by decide)]
    exact h.first x hx
  · intro x hx f q i hf hq
    rw [hstem hf hq]
    exact h.flat x hx f q i hf hq
  · intro k hk g hg
    rw [hframe k hk] at hg
    rw [hstate]
    by_cases hne : k = (r, pathOf va)
    · rw [hne, update_self] at hg
      obtain ⟨hp, rfl⟩ := Entry.maps_eq_some.1 hg
      exact (hdata hp).2.2
    · rw [update_of_ne hne] at hg
      exact h.managed k hk g hg
  · intro g
    rw [holders_congr fun k hk => by rw [hframe k hk]]
    exact hcount g
  · intro k hk e1 he1 hrw k' hk' hf
    rw [hframe k' hk'] at hf
    by_cases hne : k = (r, pathOf va)
    · -- the new entry is the only one, or not writable
      subst hne
      rw [hself] at he1
      obtain ⟨hp, rfl⟩ := Entry.leaf_eq_some.1 he1
      by_contra hne'
      rw [update_of_ne hne'] at hf
      obtain ⟨e2, he2, hfr⟩ := frameAt_eq_some.1 hf
      simp [(hexcl k' hk' hne' e2 he2 (Entry.maps_eq_some.2 ⟨hp, hfr.symm⟩)).1] at hrw
    · rw [helse k hk hne] at he1
      by_cases hne' : k' = (r, pathOf va)
      · rw [hne', update_self] at hf
        simp [(hexcl k hk hne e1 he1 hf).2] at hrw
      · rw [update_of_ne hne'] at hf
        exact h.exclusive k hk e1 he1 hrw k' hk' hf

/-- The allocator hands out a page that is not a table. -/
lemma give (hfree : v.state f = .free) : Sharing (v.give f) own procs := by
  have hne : ∀ {g}, v.state g ≠ .free → g ≠ f := by
    rintro g hg rfl
    exact hg hfree
  exact h.congr (fun hg => v.give_frame (hne (h.tables.busy hg))) (fun hg => v.give_state (hne hg))
    fun hg => v.give_refCount (hne hg)

lemma lookup_give (hfree : v.state f = .free) (hk : k ∈ spots procs) :
    lookup (v.give f).mem k.1 k.2 = lookup v.mem k.1 k.2 :=
  h.lookup_same (fun hg => v.give_frame fun heq => h.tables.busy hg (heq ▸ hfree)) hk

/-- A page that is no table is written. -/
lemma setPage (hf : own f = none) (page : ℕ → Entry) :
    Sharing { v with mem := update v.mem f page } own procs := by
  exact h.congr (fun hg => update_of_ne (ne_of_none hg hf) ..) (fun _ => rfl) fun _ => rfl

end

end Sharing

/-! ## Write faults -/

section Fault

variable {v : Vm} {own : Owner} {r va pdpt pd pt : ℕ}

lemma pathOf_page (va : ℕ) : pathOf (va / 4096 * 4096) = pathOf va := by
  simp only [pathOf, pml4Idx, pdptIdx, pdIdx, ptIdx, List.cons.injEq, and_true]
  omega

/-- The walk of the handler ends at the table of the route. -/
lemma cowFault_eq (ht : Tables v own) (hr : own r = some (r, []))
    (h : Route v own r va pdpt pd pt) (he : v.mem pt (ptIdx va) = e) (hpres : e.present = true)
    (hin : v.state e.frame ≠ .outside) :
    cowFault v r va =
      if v.refCount e.frame ≤ 1 then some (v.write pt (ptIdx va) { e with rw := true }, true)
      else
        match v.allocPage with
        | (v, none) => some (v, false)
        | (v, some new) =>
          match translate v.mem r (va / 4096 * 4096) with
          | none => none
          | some leaf =>
            some ((Vm.write { v with mem := update v.mem new (v.mem (leaf.addr / 4096)) }
              pt (ptIdx va) { present := true, rw := true, user := e.user, nx := e.nx,
                              frame := new }).release e.frame, true) := by
  obtain ⟨hp4, -, hf4⟩ := Entry.table_eq_some.1 h.pdpt_eq
  obtain ⟨hp3, -, hf3⟩ := Entry.table_eq_some.1 h.pd_eq
  obtain ⟨hp2, hs2, hf2⟩ := Entry.table_eq_some.1 h.pt_eq
  unfold cowFault
  simp only [physToVirt_of_inReach (ht.inside hr), physToVirt_of_inReach (ht.inside h.pdpt_own),
    physToVirt_of_inReach (ht.inside h.pd_own), physToVirt_of_inReach (ht.inside h.pt_own), hp4,
    hf4, hp3, hf3, hp2, hs2, hf2, he, hpres, hin, bind_eq_bind, bind_some, if_false]
  rfl

/-- The copy of a page is read from the page frame that is mapped. -/
lemma Route.translate_page (h : Route v own r va pdpt pd pt) (he : v.mem pt (ptIdx va) = e)
    (hpres : e.present = true) :
    ∃ leaf, translate v.mem r (va / 4096 * 4096) = some leaf ∧ leaf.addr / 4096 = e.frame := by
  have hpath := pathOf_page va
  simp only [pathOf, List.cons.injEq, and_true] at hpath
  obtain ⟨h4, h3, h2, h1⟩ := hpath
  have hroute : Route v own r (va / 4096 * 4096) pdpt pd pt := by
    refine ⟨?_, ?_, ?_, ?_, ?_, ?_⟩
    · rw [h4]; exact h.pdpt_eq
    · rw [h3]; exact h.pd_eq
    · rw [h2]; exact h.pt_eq
    · rw [h4]; exact h.pdpt_own
    · rw [h4, h3]; exact h.pd_own
    · rw [h4, h3, h2]; exact h.pt_own
  refine ⟨_, hroute.translate_eq (by rw [h1, he, hpres]), ?_⟩
  rw [h1, he]
  show (e.frame * 2 ^ 12 + va / 4096 * 4096 % 2 ^ 12) / 4096 = e.frame
  omega

end Fault

variable {f : ℕ}

namespace Vm

variable (v : Vm)

@[simp] lemma release_mem (f : ℕ) : (v.release f).mem = v.mem := by
  unfold release freePage refDec setCount
  split_ifs <;> rfl

lemma release_of_two (h : 2 ≤ v.refCount f) (hin : v.state f ≠ .outside) :
    v.release f = v.setCount f (v.refCount f - 1) := by
  rw [release, refDec, if_neg hin, if_neg (by omega), if_neg hin]

end Vm

namespace Sharing

variable {e : Entry} {r va : ℕ}

variable {v v' : Vm} {own : Owner} {procs : List ℕ}

/-- What a write fault does to the address spaces: the page becomes writable for the one that
wrote, and all pages keep their contents. -/
structure Faulted (r va : ℕ) (e : Entry) (v : Vm) (own : Owner) (procs : List ℕ) (v' : Vm)
    (e' : Entry) : Prop where
  sharing : Sharing v' own procs
  entry : lookup v'.mem r (pathOf va) = some e'
  rw_eq : e'.rw = true
  others : ∀ k ∈ spots procs, k ≠ (r, pathOf va) →
    lookup v'.mem k.1 k.2 = lookup v.mem k.1 k.2
  user : ∀ k ∈ spots procs, userAt v' k = userAt v k
  pages : ∀ k ∈ spots procs, pageAt v' k = pageAt v k
  frames : ∀ k ∈ spots procs, ∀ g, frameAt v' k = some g → v.state g ≠ .free →
    frameAt v k = some g
  stem : ∀ {f x q}, own f = some (x, q) → q.length < 3 → v'.mem f = v.mem f
  state : ∀ {f}, v.state f ≠ .free → v'.state f = v.state f
  count : ∀ {f}, v.state f ≠ .free → v'.refCount f + holders (frameAt v) (spots procs) f =
    v.refCount f + holders (frameAt v') (spots procs) f ∧ (v.refCount f ≠ 0 → v'.refCount f ≠ 0)
  fresh : ∀ k ∈ spots procs, ∀ g, frameAt v' k = some g → v.state g = .free →
    v'.state g = .used ∧ v'.refCount g = holders (frameAt v') (spots procs) g

section

variable (h : Sharing v own procs) (hr : r ∈ procs) (hp : pathOf va ∈ userPaths)
  (he : lookup v.mem r (pathOf va) = some e)

include h hr hp he

/-- A page is mapped to a page frame that is in use and holds no table. -/
lemma page_at : (r, pathOf va) ∈ spots procs ∧ frameAt v (r, pathOf va) = some e.frame ∧
    own e.frame = none ∧ v.state e.frame ≠ .free ∧ v.state e.frame ≠ .outside := by
  have hspot : (r, pathOf va) ∈ spots procs := mem_spots.2 ⟨hr, hp⟩
  have hat : frameAt v (r, pathOf va) = some e.frame := frameAt_eq_some.2 ⟨e, he, rfl⟩
  exact ⟨hspot, hat, (h.data hspot hat).1, (h.data hspot hat).2, h.managed _ hspot _ hat⟩

/-- The entry of a page is replaced by a writable one, for the same page frame if nothing else
maps it, and otherwise for a new one with the same contents. -/
lemma faulted_of_write {pdpt pd pt : ℕ} (hroute : Route v own r va pdpt pd pt) {w : Vm}
    (hw : Sharing w own procs) (hmem : ∀ {g}, v.state g ≠ .free → w.mem g = v.mem g)
    (hstate : ∀ {g}, v.state g ≠ .free → w.state g = v.state g) {e' : Entry}
    (hpres : e'.present = true) (hrw : e'.rw = true) (huser : e'.user = e.user)
    (hframe : e'.frame = e.frame ∧ v.refCount e.frame ≤ 1 ∨
      v.state e'.frame = .free ∧ w.state e'.frame = .used ∧ v'.refCount e'.frame = 1)
    (hpage : w.mem e'.frame = v.mem e.frame) (hmem' : v'.mem = (w.write pt (ptIdx va) e').mem)
    (hstate' : v'.state = w.state)
    (hcount : ∀ {g}, v.state g ≠ .free → v'.refCount g + (if e.frame = g then 1 else 0) =
      v.refCount g + if e'.frame = g then 1 else 0)
    (hpos : ∀ {g}, v.state g ≠ .free → v.refCount g ≠ 0 → v'.refCount g ≠ 0) :
    Faulted r va e v own procs v' e' := by
  have hroot := h.root r hr
  obtain ⟨hspot, hat, hdata, hbusy, hin⟩ := h.page_at hr hp he
  have hlook : ∀ k ∈ spots procs, lookup w.mem k.1 k.2 = lookup v.mem k.1 k.2 :=
    fun k hk => h.lookup_same (fun hf => hmem (h.tables.busy hf)) hk
  have hframes : ∀ k ∈ spots procs, frameAt w k = frameAt v k := by
    intro k hk
    rw [frameAt, hlook k hk, frameAt]
  have hnew : own e'.frame = none ∧ w.state e'.frame ≠ .free ∧ w.state e'.frame ≠ .outside := by
    obtain ⟨hsame, -⟩ | ⟨hfree, hused, -⟩ := hframe
    · rw [hsame, hstate hbusy]
      exact ⟨hdata, hbusy, hin⟩
    · rw [hused]
      exact ⟨h.tables.own_eq_none hfree, by decide, by decide⟩
  have hsole : ∀ k ∈ spots procs, k ≠ (r, pathOf va) → frameAt v k ≠ some e'.frame := by
    intro k hk hne hg
    obtain ⟨hsame, href⟩ | ⟨hfree, -⟩ := hframe
    · exact hne (eq_of_holders_le_one ((h.counted _).trans href) hk hspot (hsame ▸ hg) hat)
    · exact (h.data hk hg).2 hfree
  -- the old page frame loses a mapping and the new one gets one
  have hheld : ∀ g, holders (update (frameAt w) (r, pathOf va) (some e'.frame))
      (spots procs) g + (if e.frame = g then 1 else 0) =
      holders (frameAt v) (spots procs) g + if e'.frame = g then 1 else 0 := by
    intro g
    have hchange := holders_update (f := frameAt w) (x := g) (nodup_spots h.nodup) hspot
      (some e'.frame)
    have hsame : holders (frameAt w) (spots procs) g = holders (frameAt v) (spots procs) g :=
      holders_congr fun k hk => by rw [hframes k hk]
    simpa only [hframes _ hspot, hat, some.injEq, hsame] using hchange
  have hfirst : v.state e'.frame = .free → v'.state e'.frame = .used ∧
      v'.refCount e'.frame = holders (update (frameAt w) (r, pathOf va) (some e'.frame))
        (spots procs) e'.frame := by
    intro hfree
    have hne : e.frame ≠ e'.frame := fun heq => hbusy (heq ▸ hfree)
    obtain ⟨hsame, -⟩ | ⟨-, hused, hone⟩ := hframe
    · exact absurd hsame.symm hne
    · have hheld := hheld e'.frame
      rw [if_neg hne, if_pos rfl, h.holders_of_free hfree] at hheld
      exact ⟨by rw [hstate', hused], by omega⟩
  have hle : ∀ g, holders (update (frameAt w) (r, pathOf va) (some e'.frame))
      (spots procs) g ≤ v'.refCount g := by
    intro g
    by_cases hfree : v.state g = .free
    · by_cases hg : e'.frame = g
      · rw [← hg] at hfree ⊢
        exact (hfirst hfree).2.ge
      · have hheld := hheld g
        rw [if_neg hg, h.holders_of_free hfree] at hheld
        omega
    · have hheld := hheld g
      have hcount := hcount hfree
      have hcounted := h.counted g
      omega
  have hmaps : e'.maps = some e'.frame := Entry.maps_eq_some.2 ⟨hpres, rfl⟩
  have hset := hw.setEntry v' hr (hroute.congr hroot w fun hf => hmem (h.tables.busy hf))
    (fun _ => hnew) hmem' hstate' (hmaps ▸ hle) fun k hk hne e1 he1 hfr =>
      absurd (frameAt_eq_some.2 ⟨e1, hlook k hk ▸ he1, rfl⟩)
        (some.inj (hmaps.symm.trans hfr) ▸ hsole k hk hne)
  have hnow := hset.frames
  rw [hmaps] at hnow
  have houter : ∀ {f}, own f = none → v'.mem f = w.mem f := fun hf =>
    hset.outer fun q hq => by
      simp [hf] at hq
  have hheld' : ∀ g, holders (frameAt v') (spots procs) g =
      holders (update (frameAt w) (r, pathOf va) (some e'.frame)) (spots procs) g :=
    fun g => holders_congr fun k hk => by rw [hnow k hk]
  have hentry := hset.entry.trans (Entry.leaf_eq_some.2 ⟨hpres, rfl⟩)
  refine ⟨hset.sharing, hentry, hrw, fun k hk hne => by rw [hset.others k hk hne, hlook k hk],
    ?_, ?_, ?_, fun hf hq => (hset.stem hf hq).trans (hmem (h.tables.busy hf)),
    fun hf => by rw [hstate', hstate hf], ?_, ?_⟩
  · intro k hk
    by_cases hne : k = (r, pathOf va)
    · rw [hne, userAt, userAt, hentry, he, map_some, map_some, huser]
    · rw [userAt, hset.others k hk hne, hlook k hk, userAt]
  · intro k hk
    have hnow := hnow k hk
    by_cases hne : k = (r, pathOf va)
    · rw [hne, update_self] at hnow
      rw [hne, pageAt, pageAt, hat, hnow, map_some, map_some, houter hnew.1, hpage]
    · rw [update_of_ne hne, hframes k hk] at hnow
      refine pageAt_eq hnow fun g hg => ?_
      rw [houter (h.data hk hg).1, hmem (h.data hk hg).2]
  · intro k hk g hg hgbusy
    rw [hnow k hk] at hg
    by_cases hne : k = (r, pathOf va)
    · rw [hne, update_self] at hg
      cases hg
      obtain ⟨hsame, -⟩ | ⟨hfree, -⟩ := hframe
      · rw [hne, hat, hsame]
      · exact absurd hfree hgbusy
    · rwa [update_of_ne hne, hframes k hk] at hg
  · intro f hf
    have hheld := hheld f
    have hcount := hcount hf
    rw [hheld' f]
    exact ⟨by omega, hpos hf⟩
  · intro k hk g hg hfree
    rw [hnow k hk] at hg
    by_cases hne : k = (r, pathOf va)
    · rw [hne, update_self] at hg
      cases hg
      rw [hheld']
      exact hfirst hfree
    · rw [update_of_ne hne, hframes k hk] at hg
      exact absurd hfree (h.data hk hg).2

/-- **A write fault** with a count of one makes the page writable, and otherwise copies it. -/
lemma faulted (hrun : cowFault v r va = some (v', true)) :
    ∃ e', Faulted r va e v own procs v' e' := by
  have hroot := h.root r hr
  obtain ⟨-, -, -, hbusy, hin⟩ := h.page_at hr hp he
  obtain ⟨_, _, pt, hroute, hpt, hpres⟩ := h.tables.exists_route hroot hp he
  rw [cowFault_eq h.tables hroot hroute hpt hpres hin] at hrun
  by_cases href : v.refCount e.frame ≤ 1
  · -- there is no other mapping
    rw [if_pos href] at hrun
    obtain rfl : v.write pt (ptIdx va) { e with rw := true } = v' := by simpa using hrun
    exact ⟨{ e with rw := true }, h.faulted_of_write hr hp he hroute h (fun _ => rfl)
      (fun _ => rfl) hpres rfl rfl (.inl ⟨rfl, href⟩) rfl rfl rfl (fun _ => rfl) fun _ hg => hg⟩
  · rw [if_neg href] at hrun
    obtain hno | ⟨new, hfree, -, hyes⟩ := v.allocPage_cases
    · simp [hno] at hrun
    rw [hyes] at hrun
    have hnew : ∀ {g}, v.state g ≠ .free → g ≠ new := by
      rintro g hg rfl
      exact hg hfree
    have hpt1 : (v.give new).mem pt (ptIdx va) = e := by
      rw [v.give_frame (hnew (h.tables.busy hroute.pt_own)), hpt]
    obtain ⟨_, hleaf, haddr⟩ := (hroute.congr hroot (v.give new)
      fun hf => v.give_frame (hnew (h.tables.busy hf))).translate_page hpt1 hpres
    simp only [hleaf, haddr, v.give_frame (hnew hbusy)] at hrun
    set w := { v.give new with mem := update (v.give new).mem new (v.mem e.frame) } with hw
    have hmem : ∀ {g}, v.state g ≠ .free → w.mem g = v.mem g := by
      intro g hg
      rw [hw]
      show update _ new _ g = _
      simp [(hnew hg), v.give_frame (hnew hg)]
    have hstate : ∀ {g}, v.state g ≠ .free → w.state g = v.state g := by
      intro g hg
      rw [hw]
      exact v.give_state (hnew hg)
    have hcount : ∀ {g}, v.state g ≠ .free → w.refCount g = v.refCount g := by
      intro g hg
      rw [hw]
      exact v.give_refCount (hnew hg)
    set e' : Entry := { present := true, rw := true, user := e.user, nx := e.nx, frame := new }
      with he'
    have hcount_old := hcount hbusy
    have hin' : (w.write pt (ptIdx va) e').state e.frame ≠ .outside := by
      rwa [Vm.write_state, hstate hbusy]
    rw [Vm.release_of_two _ (by rw [Vm.write_refCount]; omega) hin'] at hrun
    obtain rfl : (w.write pt (ptIdx va) e').setCount e.frame (w.refCount e.frame - 1) = v' := by
      simpa using hrun
    have hfr : e'.frame = new := by rw [he']
    -- the old page frame loses a reference
    have hdec : ∀ {g}, g ≠ e.frame → ((w.write pt (ptIdx va) e').setCount e.frame
        (w.refCount e.frame - 1)).refCount g = w.refCount g := fun hg =>
      update_of_ne hg ..
    have hdec_old : ((w.write pt (ptIdx va) e').setCount e.frame
        (w.refCount e.frame - 1)).refCount e.frame = w.refCount e.frame - 1 :=
      update_self ..
    refine ⟨e', h.faulted_of_write hr hp he hroute
      (hw ▸ (h.give hfree).setPage (h.tables.own_eq_none hfree) _) hmem hstate (by rw [he'])
      (by rw [he']) (by rw [he']) (.inr ?_) ?_ rfl rfl ?_ ?_⟩
    · rw [hfr, hdec (hnew hbusy).symm, hw]
      exact ⟨hfree, v.give_used new, update_self ..⟩
    · rw [hfr, hw]
      exact update_self ..
    · intro g hg
      rw [hfr, if_neg (hnew hg).symm, Nat.add_zero]
      by_cases hge : g = e.frame
      · rw [hge, hdec_old, if_pos rfl]
        omega
      · simp [hdec hge, (Ne.symm hge), hcount hg]
    · intro g hg _
      by_cases hge : g = e.frame
      · rw [hge, hdec_old]
        omega
      · rwa [hdec hge, hcount hg]

omit h hr hp he in
/-- What a store does to the address spaces: one word of the page changes, for one of them. -/
structure Stored (r va : ℕ) (w : Entry) (v : Vm) (own : Owner) (procs : List ℕ) (v' : Vm) :
    Prop where
  sharing : Sharing v' own procs
  here : ∃ page, pageAt v (r, pathOf va) = some page ∧
    pageAt v' (r, pathOf va) = some (Function.update page (va % 4096 / 8) w)
  others : ∀ k ∈ spots procs, k ≠ (r, pathOf va) → pageAt v' k = pageAt v k
  user : ∀ k ∈ spots procs, userAt v' k = userAt v k
  stem : ∀ {f x q}, own f = some (x, q) → q.length < 3 → v'.mem f = v.mem f

/-- A store through a writable entry reaches no other address space. -/
lemma direct {w : Entry} (hrw : e.rw = true) (hrun : directStore v r va w = some v') :
    Stored r va w v own procs v' := by
  obtain ⟨hspot, hat, hdata, -⟩ := h.page_at hr hp he
  obtain ⟨_, _, _, hroute, hpt, hpres⟩ := h.tables.exists_route (h.root r hr) hp he
  have htrans := hroute.translate_eq (by rw [hpt, hpres])
  rw [hpt] at htrans
  have haddr : (e.frame * 2 ^ 12 + va % 2 ^ 12) / 4096 = e.frame ∧
      (e.frame * 2 ^ 12 + va % 2 ^ 12) % 4096 / 8 = va % 4096 / 8 := by omega
  have hv' : v.write e.frame (va % 4096 / 8) w = v' := by
    simp only [directStore, htrans, Leaf.of, haddr.1, haddr.2] at hrun
    split_ifs at hrun
    exact some.inj hrun
  subst hv'
  have hmem : ∀ {f x}, own f = some x → (v.write e.frame (va % 4096 / 8) w).mem f = v.mem f :=
    fun hf => v.write_frame _ _ (ne_of_none hf hdata)
  have hframe : ∀ k ∈ spots procs, frameAt (v.write e.frame (va % 4096 / 8) w) k = frameAt v k := by
    intro k hk
    rw [frameAt, h.lookup_same hmem hk, frameAt]
  refine ⟨h.setPage hdata _, ⟨v.mem e.frame, ?_, ?_⟩, ?_, ?_, fun hf _ => hmem hf⟩
  · rw [pageAt, hat, map_some]
  · rw [pageAt, hframe _ hspot, hat, map_some]
    simp [Vm.write, setWord]
  · intro k hk hne
    refine pageAt_eq (hframe k hk) fun g hg => v.write_frame _ _ ?_
    rintro rfl
    exact hne (h.exclusive _ hspot e he hrw k hk hg)
  · intro k hk
    rw [userAt, h.lookup_same hmem hk, userAt]

end

end Sharing

/-! ## Clones -/

lemma spots_cons (r : ℕ) (procs : List ℕ) :
    spots (r :: procs) = userPaths.map (fun p => (r, p)) ++ spots procs := product_cons ..

lemma spots_cons_cases {r : ℕ} (hk : k ∈ spots (r :: procs)) :
    (∃ p ∈ userPaths, k = (r, p)) ∨ k ∈ spots procs := by
  rw [spots_cons, mem_append, List.mem_map] at hk
  obtain ⟨p, hp, rfl⟩ | hk := hk
  · exact .inl ⟨p, hp, rfl⟩
  · exact .inr hk

/-- The mappings of one address space, and those of the others. -/
lemma holders_spots_cons (v : Vm) (r : ℕ) (procs : List ℕ) (g : ℕ) :
    holders (frameAt v) (spots (r :: procs)) g =
      uses v.mem r userPaths g + holders (frameAt v) (spots procs) g := by
  rw [spots_cons, holders_append, holders_map]
  rfl

section Fork

variable {v v' : Vm} {own own' : Owner} {procs : List ℕ} {r r' : ℕ}

/-- What a clone does to the address spaces: the child sees the pages of its parent. -/
structure Spawned (r r' : ℕ) (v : Vm) (procs : List ℕ) (v' : Vm) (own' : Owner) : Prop where
  sharing : Sharing v' own' (r' :: procs)
  fresh : r' ∉ procs
  held : ∀ g, holders (frameAt v') (spots (r' :: procs)) g =
    uses v.mem r userPaths g + holders (frameAt v) (spots procs) g
  frames : ∀ k ∈ spots (r' :: procs), ∀ g, frameAt v' k = some g →
    ∃ k' ∈ spots procs, frameAt v k' = some g
  pages : ∀ k ∈ spots procs, pageAt v' k = pageAt v k
  child : ∀ p ∈ userPaths, pageAt v' (r', p) = pageAt v (r, p)

/-- The tables of the other address spaces are the old ones. -/
lemma Forked.own_of_ne (hf : Forked r r' v own v' own') {q : List ℕ} (hfx : own' f = some (x, q))
    (hx : x ≠ r') : own f = some (x, q) := by
  by_contra hno
  obtain ⟨-, _, hq'⟩ := hf.grown f (by rw [hfx]; exact Ne.symm hno)
  cases hfx.symm.trans hq'
  exact hx rfl

/-- **A clone** shares the pages read-only, and counts them. -/
lemma Sharing.fork (h : Sharing v own procs) (hr : r ∈ procs) (hf : Forked r r' v own v' own') :
    Spawned r r' v procs v' own' := by
  have hfresh : r' ∉ procs := fun hmem => h.tables.busy (h.root r' hmem) hf.fresh
  have hother : ∀ k ∈ spots procs, k.1 ≠ r → lookup v'.mem k.1 k.2 = lookup v.mem k.1 k.2 :=
    fun k hk hne => h.lookup_other hf.outer hk hne
  -- the same page frames are mapped
  have hframe : ∀ k ∈ spots procs, frameAt v' k = frameAt v k := by
    intro k hk
    by_cases hkr : k.1 = r
    · have hk2 := (mem_spots.1 hk).2
      rw [frameAt, frameAt, hkr, hf.parent _ hk2, Option.map_map]
      rfl
    · rw [frameAt, hother k hk hkr, frameAt]
  have hchild : ∀ p ∈ userPaths, frameAt v' (r', p) = frameAt v (r, p) := by
    intro p hp
    rw [frameAt, frameAt, hf.child p hp, Option.map_map]
    rfl
  have hspot : ∀ p ∈ userPaths, (r, p) ∈ spots procs := fun p hp => mem_spots.2 ⟨hr, hp⟩
  -- every page frame mapped now was mapped before
  have hbefore : ∀ {k g}, k ∈ spots (r' :: procs) → frameAt v' k = some g →
      ∃ k' ∈ spots procs, frameAt v k' = some g := by
    intro k g hk hg
    obtain ⟨p, hp, rfl⟩ | hk := spots_cons_cases hk
    · exact ⟨(r, p), hspot p hp, by rw [← hchild p hp, hg]⟩
    · exact ⟨k, hk, by rw [← hframe k hk, hg]⟩
  have hpage : ∀ {k g}, k ∈ spots procs → frameAt v k = some g → v'.mem g = v.mem g := by
    intro k g hk hg
    obtain ⟨hown, hbusy⟩ := h.data hk hg
    refine hf.outer g hbusy fun q => ?_
    rw [hown]
    exact nofun
  have hkept : ∀ {f x}, own f = some x → own' f = some x := fun {f x} hx => by
    rw [hf.kept f (h.tables.busy hx), hx]
  have hstem : ∀ {f x q}, own f = some (x, q) → q.length < 3 → v'.mem f = v.mem f :=
    fun hfx hq => h.stem_of_outer hf.outer hf.stem hfx hq
  have hheld : ∀ g, holders (frameAt v') (spots (r' :: procs)) g =
      uses v.mem r userPaths g + holders (frameAt v) (spots procs) g := by
    intro g
    rw [holders_spots_cons, uses_congr hchild, holders_congr fun k hk => by rw [hframe k hk]]
  refine ⟨⟨hf.tables, nodup_cons.2 ⟨hfresh, h.nodup⟩, ?_, ?_, ?_, ?_, ?_, ?_⟩, hfresh,
    hheld, fun k hk g hg => hbefore hk hg, ?_, ?_⟩
  · exact forall_mem_cons.2 ⟨hf.root, fun x hx => hkept (h.root x hx)⟩
  · refine forall_mem_cons.2 ⟨hf.first, fun x hx => ?_⟩
    rw [hstem (h.root x hx) (by decide)]
    exact h.first x hx
  · intro x hx f q i hfx hq hi
    obtain rfl | hx := mem_cons.1 hx
    · exact fun hp => (hf.plain f q i hfx hq hi hp).1
    · have hold := hf.own_of_ne hfx fun hxr => hfresh (hxr ▸ hx)
      rw [hstem hold hq]
      exact h.flat x hx f q i hold hq hi
  · intro k hk g hg
    obtain ⟨k', hk', hg'⟩ := hbefore hk hg
    rw [hf.state g (hf.kept g (h.data hk' hg').2)]
    exact h.managed k' hk' g hg'
  · intro g
    by_cases hzero : holders (frameAt v') (spots (r' :: procs)) g = 0
    · rw [hzero]
      exact Nat.zero_le _
    -- some place maps the page frame, so it is in use, managed and no table
    obtain ⟨k, hk, hg⟩ : ∃ k ∈ spots (r' :: procs), frameAt v' k = some g := by
      by_contra hno
      exact hzero (holders_eq_zero.2 fun k hk hg => hno ⟨k, hk, hg⟩)
    obtain ⟨k', hk', hg'⟩ := hbefore hk hg
    rw [hheld, hf.count g (hf.kept g (h.data hk' hg').2) (h.managed k' hk' g hg')]
    have hle := h.counted g
    omega
  · intro k hk e he hrw k' hk' hg'
    -- a writable entry belongs to an address space that was not cloned
    have hk_old : k ∈ spots procs ∧ k.1 ≠ r := by
      obtain ⟨p, hp, rfl⟩ | hk := spots_cons_cases hk
      · rw [hf.child p hp] at he
        obtain ⟨e0, -, rfl⟩ := map_eq_some_iff.1 he
        cases hrw
      · refine ⟨hk, fun hkr => ?_⟩
        rw [hkr, hf.parent _ (mem_spots.1 hk).2] at he
        obtain ⟨e0, -, rfl⟩ := map_eq_some_iff.1 he
        cases hrw
    obtain ⟨hk, hkr⟩ := hk_old
    rw [hother k hk hkr] at he
    obtain ⟨p, hp, rfl⟩ | hk' := spots_cons_cases hk'
    · rw [hchild p hp] at hg'
      have heq := h.exclusive k hk e he hrw (r, p) (hspot p hp) hg'
      exact absurd (by rw [← heq]) hkr
    · rw [hframe k' hk'] at hg'
      exact h.exclusive k hk e he hrw k' hk' hg'
  · intro k hk
    exact pageAt_eq (hframe k hk) fun g hg => hpage hk hg
  · intro p hp
    unfold pageAt
    rw [hchild p hp]
    cases hg : frameAt v (r, p) with
    | none => rfl
    | some g => rw [map_some, map_some, hpage (hspot p hp) hg]

end Fork

end Aurora.Paging
