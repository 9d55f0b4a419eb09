import Aurora.Kernel.PageSharing

/-!
# Freeing an address space (`free_pagetable`)

Freeing an address space writes no memory. Every mapping of a page frame is released once, and
the page frame is freed with its last reference; the tables of the address space are freed, and
no table of another one is touched.

## Main definitions

* `dropOne`: what releasing a reference does to the descriptor of a page frame.
* `Released`: the paths below a table have been released.
* `freePagetable_released`: `free_pagetable` does that.
-/

namespace Aurora.Paging

open Lib Function List Option

/-! ## Descriptors -/

/-- One reference to a page frame is released. -/
def dropOne : FrameState × ℕ → FrameState × ℕ := fun x =>
  if x.1 = .outside then x
  else if x.2 = 1 then (if x.1 = .used then .free else x.1, 0)
  else (x.1, x.2 - 1)

lemma dropOne_iterate_of_lt {s : FrameState} {n c : ℕ} (h : n < c) :
    dropOne^[n] (s, c) = if s = .outside then (s, c) else (s, c - n) := by
  induction n generalizing c with
  | zero => simp
  | succ n ih =>
    rw [iterate_succ_apply]
    by_cases hs : s = .outside
    · have hone : dropOne (s, c) = (s, c) := if_pos hs
      rw [hone, ih (by omega), if_pos hs, if_pos hs]
    · have hone : dropOne (s, c) = (s, c - 1) := by
        rw [dropOne, if_neg hs, if_neg (by simp only; omega)]
      rw [hone, ih (by omega), if_neg hs, if_neg hs]
      congr 1
      omega

/-- With the last reference a page frame is freed. -/
lemma dropOne_iterate_self {c : ℕ} (hc : 0 < c) : dropOne^[c] (.used, c) = (.free, 0) := by
  obtain ⟨n, rfl⟩ : ∃ n, c = n + 1 := ⟨c - 1, by omega⟩
  rw [iterate_succ_apply', dropOne_iterate_of_lt (Nat.lt_succ_self n)]
  have hsub : n + 1 - n = 1 := by omega
  rw [if_neg (by decide), hsub]
  rfl

namespace Vm

variable (v : Vm)

/-- The state and the count of a page frame. -/
def desc (g : ℕ) : FrameState × ℕ := (v.state g, v.refCount g)

lemma desc_eq (g : ℕ) : v.desc g = (v.state g, v.refCount g) := rfl

lemma desc_eq_iff {v : Vm} {g n : ℕ} {s : FrameState} :
    v.desc g = (s, n) ↔ v.state g = s ∧ v.refCount g = n := Prod.mk.injEq .. ▸ Iff.rfl

lemma freePage_desc {f g : ℕ} (h : g ≠ f) : (v.freePage f).desc g = v.desc g := by
  unfold freePage
  split_ifs
  · simp [desc, h]
  · rfl

@[simp] lemma freePage_mem (f : ℕ) : (v.freePage f).mem = v.mem := by
  unfold freePage
  split_ifs <;> rfl

lemma release_desc {f g : ℕ} (h : g ≠ f) : (v.release f).desc g = v.desc g := by
  unfold release refDec
  split_ifs
  · rfl
  · rw [freePage_desc _ h]
    simp [desc, setCount, h]
  · simp [desc, setCount, h]

lemma release_self (f : ℕ) : (v.release f).desc f = dropOne (v.desc f) := by
  unfold release refDec
  split_ifs with hout hone
  · simp [dropOne, desc, hout]
  · by_cases hused : v.state f = .used
    · simp [dropOne, desc, hone, freePage, setCount, hused]
    · simp [dropOne, desc, hout, hone, freePage, setCount, hused]
  · simp [dropOne, desc, hout, hone, setCount]

end Vm

/-! ## Paths -/

/-- The paths `ps` below the table `t` of the address space `d`, at `q`, have been released;
tables of `d` below `q` may have been freed. -/
structure Released (own : Owner) (d : ℕ) (q : List ℕ) (t : ℕ) (ps : List (List ℕ)) (v v' : Vm) :
    Prop where
  mem : v'.mem = v.mem
  data : ∀ g, own g = none → v'.desc g =
    dropOne^[uses v.mem t ps g] (v.desc g)
  others : ∀ g x q', own g = some (x, q') → ¬ (x = d ∧ q <+: q') → v'.desc g = v.desc g

namespace Released

variable {own : Owner} {d t : ℕ} {q : List ℕ} {ps ps1 ps2 : List (List ℕ)} {v v1 v2 : Vm}

lemma append (h1 : Released own d q t ps1 v v1) (h2 : Released own d q t ps2 v1 v2) :
    Released own d q t (ps1 ++ ps2) v v2 where
  mem := by rw [h2.mem, h1.mem]
  data := fun g hg => by
    rw [h2.data g hg, h1.data g hg, uses_append, Nat.add_comm, iterate_add_apply, h1.mem]
  others := fun g x q' hg hnot => by rw [h2.others g x q' hg hnot, h1.others g x q' hg hnot]

/-- Nothing is released on paths that find nothing. -/
lemma skip (hnone : ∀ p ∈ ps, lookup v.mem t p = none) : Released own d q t ps v v where
  mem := rfl
  data := fun g _ => by
    rw [uses_eq_zero hnone]
    rfl
  others := fun _ _ _ _ _ => rfl

lemma table (ht : own t = some (d, q)) : Released own d q t [] v (v.freePage t) where
  mem := v.freePage_mem t
  data := fun g hg => v.freePage_desc (ne_of_none ht hg).symm
  others := fun g x q' hg hnot => by
    refine v.freePage_desc ?_
    rintro rfl
    rw [ht] at hg
    cases hg
    exact hnot ⟨rfl, prefix_refl q⟩

/-- Paths below an entry. -/
lemma descend {i t' : ℕ} (ht' : (v.mem t i).table = some t') (hps : ∀ p ∈ ps, p ≠ [])
    (h : Released own d (q ++ [i]) t' ps v v1) :
    Released own d q t (ps.map (i :: ·)) v v1 where
  mem := h.mem
  data := fun g hg => by rw [h.data g hg, uses_descend ht' hps]
  others := fun g x q' hg hnot => by
    refine h.others g x q' hg fun hbelow => hnot ⟨hbelow.1, ?_⟩
    exact (prefix_append q [i]).trans hbelow.2

/-- The page frame of one entry of a last-level table is released. -/
lemma leaf {l g : ℕ} (hp : (v.mem t l).present = true) (hframe : (v.mem t l).frame = g)
    (hown : own g = none) : Released own d q t [[l]] v (v.release g) where
  mem := v.release_mem g
  data := fun g' _ => by
    have hlookup : lookup v.mem t [l] = some (v.mem t l) := Entry.leaf_eq_some.2 ⟨hp, rfl⟩
    rw [uses_leaf hlookup, hframe]
    by_cases hg : g' = g
    · rw [hg, if_pos rfl]
      exact v.release_self g
    · rw [if_neg (Ne.symm hg)]
      exact v.release_desc hg
  others := fun g' x q' hg' _ => v.release_desc (ne_of_none hg' hown)

end Released

/-! ## The loops -/

section Loops

variable {v0 v : Vm} {own : Owner} {d t : ℕ} {q : List ℕ}

/-- A loop releases what its steps release. -/
lemma foldlM_released {body : Vm → ℕ → Option Vm} {n : ℕ} {is : List ℕ}
    (hbody : ∀ i ∈ is, ∀ w : Vm, w.mem = v0.mem → ∃ w', body w i = some w' ∧
      Released own d q t ((pathsFrom n (q ++ [i])).map (i :: ·)) w w') (hv : v.mem = v0.mem) :
    ∃ v', is.foldlM body v = some v' ∧ Released own d q t (pathsVia n q is) v v' := by
  induction is generalizing v with
  | nil => exact ⟨v, rfl, .skip (by simp)⟩
  | cons i is ih =>
    obtain ⟨w, hrun, hrel⟩ := hbody i mem_cons_self v hv
    obtain ⟨v', hrun', hrel'⟩ := ih (fun j hj => hbody j (mem_cons_of_mem _ hj))
      (by rw [hrel.mem, hv])
    refine ⟨v', ?_, ?_⟩
    · rwa [foldlM_cons, hrun]
    · rw [pathsVia_cons]
      exact hrel.append hrel'

lemma foldlM_some (f : Vm → ℕ → Vm) (is : List ℕ) (v : Vm) :
    is.foldlM (fun v i => some (f v i)) v = some (is.foldl f v) := by
  induction is generalizing v with
  | nil => rfl
  | cons i is ih => exact ih (f v i)

section

variable (h : Tables v0 own) (hv : v.mem = v0.mem)

include h hv

/-- A last-level table. -/
lemma freePt_released (ht : own t = some (d, q)) (hq : q.length = 3) :
    Released own d q t (pathsFrom 1 q) v (freePt v t) := by
  have hstep : ∀ i ∈ List.range 512, ∀ w : Vm, w.mem = v0.mem → ∃ w',
      some (if (w.mem t i).present then w.release (w.mem t i).frame else w) = some w' ∧
      Released own d q t ((pathsFrom 0 (q ++ [i])).map (i :: ·)) w w' := by
    intro i hi w hw
    rw [← privateIndices_of_long (q := q) (by omega)] at hi
    refine ⟨_, rfl, ?_⟩
    split_ifs with hp
    · rw [hw] at hp
      exact Released.leaf (by rw [hw, hp]) rfl (by rw [hw]; exact (h.data ht hq hi hp).1)
    · refine Released.skip fun p hmem => ?_
      rw [mem_singleton.1 hmem, lookup]
      exact Entry.leaf_eq_none.2 (by simpa using hp)
  obtain ⟨v', hrun, hrel⟩ := foldlM_released hstep hv
  rw [foldlM_some] at hrun
  have hloop := some.inj hrun
  rw [← privateIndices_of_long (q := q) (by omega), ← pathsFrom_succ] at hrel
  have hfree := hrel.append (Released.table (v := v') ht)
  rw [append_nil] at hfree
  rwa [freePt, hloop]

omit h hv in
/-- An entry that leads to no table is passed over. -/
lemma Released.skipEntry {n i : ℕ} {w : Vm} (hnone : (w.mem t i).table = none) :
    Released own d q t ((pathsFrom (n + 1) (q ++ [i])).map (i :: ·)) w w := by
  refine Released.skip fun p hp => ?_
  obtain ⟨_, hp', rfl⟩ := mem_map.1 hp
  rw [lookup_cons _ _ _ (ne_nil_of_mem_pathsFrom (by simp) hp'), hnone, bind_none]

/-- A loop over the entries of a table that is freed in the end: an entry that leads to no table
is passed over, the others release what is below them. -/
lemma foldlM_freed {body : Vm → ℕ → Option Vm} {n : ℕ} {is : List ℕ}
    (his : is = privateIndices q) (ht : own t = some (d, q)) (hq : q.length < 3)
    (hskip : ∀ i ∈ privateIndices q, ∀ w : Vm, w.mem = v0.mem → (w.mem t i).table = none →
      body w i = some w)
    (hchild : ∀ i ∈ privateIndices q, ∀ w : Vm, w.mem = v0.mem → ∀ t',
      (w.mem t i).table = some t' → own t' = some (d, q ++ [i]) → ∃ w', body w i = some w' ∧
        Released own d (q ++ [i]) t' (pathsFrom (n + 1) (q ++ [i])) w w') :
    ∃ v', (is.foldlM body v).bind (fun w => some (w.freePage t)) = some v' ∧
      Released own d q t (pathsFrom (n + 2) q) v v' := by
  subst his
  have hbody : ∀ i ∈ privateIndices q, ∀ w : Vm, w.mem = v0.mem → ∃ w', body w i = some w' ∧
      Released own d q t ((pathsFrom (n + 1) (q ++ [i])).map (i :: ·)) w w' := by
    intro i hi w hw
    cases htable : (w.mem t i).table with
    | none => exact ⟨w, hskip i hi w hw htable, .skipEntry htable⟩
    | some t' =>
      have hown := h.child ht hq hi (by rwa [← hw])
      obtain ⟨w', hrun, hrel⟩ := hchild i hi w hw t' htable hown
      exact ⟨w', hrun, hrel.descend htable fun p hp => ne_nil_of_mem_pathsFrom (by simp) hp⟩
  obtain ⟨w, hrun, hrel⟩ := foldlM_released hbody hv
  have hfree := hrel.append (Released.table (v := w) ht)
  rw [append_nil] at hfree
  exact ⟨w.freePage t, by rw [hrun, bind_some], hfree⟩

/-- A page directory. -/
lemma freePd_released (ht : own t = some (d, q)) (hq : q.length = 2) :
    ∃ v', freePd v t = some v' ∧ Released own d q t (pathsFrom 2 q) v v' := by
  rw [freePd, bind_eq_bind]
  refine foldlM_freed h hv (privateIndices_of_long (by omega)).symm ht (by omega)
    (fun k _ w _ hnone => if_pos (by simpa using Entry.table_eq_none.1 hnone))
    fun k _ w hw t' htable hown => ?_
  obtain ⟨hp, hps, rfl⟩ := Entry.table_eq_some.1 htable
  refine ⟨freePt w (w.mem t k).frame, ?_, freePt_released h hw hown (by simp [hq])⟩
  rw [if_neg (by simp [hp, hps]), physToVirt_of_inReach (h.inside hown)]
  rfl

/-- The first PDPT, whose first entry is shared. -/
lemma freePagetableSubtree_released (ht : own t = some (d, [0])) :
    ∃ v', freePagetableSubtree v t 1 = some v' ∧ Released own d [0] t (pathsFrom 3 [0]) v v' := by
  rw [freePagetableSubtree, if_neg (h.inside ht).1.ne', physToVirt_of_inReach (h.inside ht),
    bind_eq_bind, bind_some, bind_eq_bind]
  refine foldlM_freed h hv rfl ht (by simp)
    (fun j _ w _ hnone => if_pos (by simpa using Entry.table_eq_none.1 hnone))
    fun j _ w hw t' htable hown => ?_
  obtain ⟨hp, hps, rfl⟩ := Entry.table_eq_some.1 htable
  rw [if_neg (by simp [hp, hps]), physToVirt_of_inReach (h.inside hown), bind_some]
  exact freePd_released h hw hown rfl

omit hv in
/-- There are no large pages in the upper tables. -/
lemma absent_of_table_eq_none {w : Vm} (hw : w.mem = v0.mem) (ht : own t = some (d, q))
    (hq : q.length < 2) {i : ℕ} (hi : i ∈ privateIndices q) (hnone : (w.mem t i).table = none) :
    (!(w.mem t i).present) = true := by
  rw [hw] at hnone ⊢
  cases hp : (v0.mem t i).present with
  | false => rfl
  | true => simp [Entry.table, hp, h.small ht hq hi hp] at hnone

/-- Another PDPT; the tables have no large page there. -/
lemma freePdpt_released {i : ℕ} (hi : i ≠ 0) (ht : own t = some (d, [i])) :
    ∃ v', freePdpt v t = some v' ∧ Released own d [i] t (pathsFrom 3 [i]) v v' := by
  rw [freePdpt, physToVirt_of_inReach (h.inside ht), bind_eq_bind, bind_some, bind_eq_bind]
  refine foldlM_freed h hv (by simp [privateIndices, hi]) ht (by simp)
    (fun j hj w hw hnone => if_pos (absent_of_table_eq_none h hw ht (by simp) hj hnone))
    fun j _ w hw t' htable hown => ?_
  obtain ⟨hp, hps, rfl⟩ := Entry.table_eq_some.1 htable
  rw [if_neg (by simp [hp]), if_neg (by simp [hps]), physToVirt_of_inReach (h.inside hown),
    bind_some]
  exact freePd_released h hw hown rfl

/-- **An address space is freed.** -/
lemma freePagetable_released (ht : own d = some (d, [])) :
    ∃ v', freePagetable v d = some v' ∧ Released own d [] d userPaths v v' := by
  rw [freePagetable, if_neg (h.inside ht).1.ne', physToVirt_of_inReach (h.inside ht),
    bind_eq_bind, bind_some, bind_eq_bind]
  refine foldlM_freed h hv rfl ht (by simp)
    (fun i hi w hw hnone => if_pos (absent_of_table_eq_none h hw ht (by simp) hi hnone))
    fun i _ w hw t' htable hown => ?_
  obtain ⟨hp, -, rfl⟩ := Entry.table_eq_some.1 htable
  rw [if_neg (by simp [hp])]
  by_cases hi : i = 0
  · subst hi
    rw [if_pos rfl]
    exact freePagetableSubtree_released h hw hown
  · rw [if_neg hi]
    exact freePdpt_released h hw hi hown

end

end Loops

end Aurora.Paging
