import Aurora.Kernel.PageMap

/-!
# Unmapping a page (`unmap_page`)

`unmap_page` clears the entry of a page, and then frees the tables above it that have become
empty. The last one it can free is the PDPT; the first PDPT is never empty, because it holds the
entry of the identity mapping. Nothing is done to the page frame: its release is left to the
caller.

## Main definitions

* `Rooted`: every table with an owner is reached from its root.
* `Pruned`: empty tables have been removed.
* `Cleared`, `unmapPage_cleared`: what `unmap_page` does.
-/

namespace Aurora.Paging

open Lib Function List Option

/-! ## Tables that are reached -/

/-- Every table with an owner is reached from its root. -/
def Rooted (v : Vm) (own : Owner) (procs : List ℕ) : Prop :=
  ∀ {f x q}, own f = some (x, q) →
    x ∈ procs ∧ q ∈ pathsFrom q.length [] ∧ walk v.mem x q = some f

section Rooted

variable {x f i t : ℕ} {q : List ℕ} {procs : List ℕ} {v : Vm} {own : Owner}

/-- Tables that are not reached need no owner. -/
lemma Sharing.clean (h : Sharing v own procs) :
    Sharing v (own.reach v procs) procs ∧ Rooted v (own.reach v procs) procs := by
  refine ⟨h.reach h.nodup (fun _ hx => hx) (fun _ _ _ => rfl) (fun _ _ => .inl rfl) ?_
    fun k hk g hg => ⟨rfl, h.counted g⟩, fun hf => (Owner.reach_eq_some.1 hf).2⟩
  rintro f ⟨x, q⟩ hf
  exact h.tables.busy (Owner.reach_eq_some.1 hf).1

lemma lt_of_mem_privateIndices (hi : i ∈ privateIndices q) : i < 512 := by
  unfold privateIndices at hi
  split_ifs at hi
  · rw [mem_range] at hi
    omega
  · rw [mem_range'_1] at hi
    omega
  · exact mem_range.1 hi

/-- Below an empty table there is nothing. -/
lemma lookup_of_empty {m : Memory} {n : ℕ} {p : List ℕ} (h : ∀ j, j < 512 → m t j = {})
    (hp : p ∈ pathsFrom n q) : lookup m t p = none :=
  lookup_of_blank (fun j hj => h j (lt_of_mem_privateIndices hj)) hp

lemma mem_pathsFrom_append {n : ℕ} {p p' : List ℕ} (h : p ++ p' ∈ pathsFrom n q) :
    p ∈ pathsFrom p.length q ∧ p' ∈ pathsFrom p'.length (q ++ p) := by
  induction p generalizing n q with
  | nil =>
    rw [append_nil]
    have hlen := length_of_mem_pathsFrom h
    rw [nil_append] at h hlen
    exact ⟨mem_singleton_self _, by rwa [hlen]⟩
  | cons j p ih =>
    cases n with
    | zero =>
      have hlen := length_of_mem_pathsFrom h
      cases hlen
    | succ n =>
      obtain ⟨_, hj, _, hp'', heq⟩ := mem_pathsFrom_succ.1 h
      obtain ⟨rfl, rfl⟩ := List.cons.inj heq
      obtain ⟨h1, h2⟩ := ih hp''
      refine ⟨mem_pathsFrom_succ.2 ⟨j, hj, p, h1, rfl⟩, ?_⟩
      simpa using h2

end Rooted

/-! ## Removing an empty table -/

/-- Some empty tables of the address space `x` have been removed. -/
structure Pruned (x : ℕ) (procs : List ℕ) (v : Vm) (own : Owner) (v' : Vm) (own' : Owner) :
    Prop where
  sharing : Sharing v' own' procs
  rooted : Rooted v' own' procs
  lookups : ∀ k ∈ spots procs, lookup v'.mem k.1 k.2 = lookup v.mem k.1 k.2
  owned : ∀ {f y}, own' f = some y → own f = some y
  others : ∀ {f}, (∀ q, own f ≠ some (x, q)) → own' f = own f ∧ v'.desc f = v.desc f
  word : ∀ f i, v'.mem f i = v.mem f i ∨ v'.mem f i = {} ∧
    ∃ q, own f = some (x, q) ∧ q.length < 3 ∧ i ∈ privateIndices q ∧ (q = [] → i ≠ 0)

section Drop

variable {x f i t : ℕ} {q : List ℕ} {procs : List ℕ} {v : Vm} {own : Owner}

lemma dropTable_mem (v : Vm) (f i : ℕ) : (dropTable v f i).mem = (v.write f i {}).mem := by
  unfold dropTable Vm.freePage Vm.refDec Vm.setCount
  simp only
  split_ifs <;> rfl

lemma dropTable_desc (v : Vm) (f i : ℕ) {g : ℕ} (hg : g ≠ (v.mem f i).frame) :
    (dropTable v f i).desc g = v.desc g := by
  unfold dropTable
  simp only
  split_ifs
  · rfl
  · exact v.freePage_desc hg
  · unfold Vm.refDec
    split_ifs
    simp [Vm.desc, Vm.setCount, Vm.write, hg]

/-- An empty table is removed. -/
lemma Sharing.drop (h : Sharing v own procs) (hr : Rooted v own procs)
    (hf : own f = some (x, q)) (hq : q.length < 3) (hi : i ∈ privateIndices q)
    (h0 : q = [] → i ≠ 0) (ht : (v.mem f i).table = some t)
    (hempty : ∀ j, j < 512 → v.mem t j = {}) :
    Pruned x procs v own (dropTable v f i) (update own t none) := by
  obtain ⟨-, -, hframe⟩ := Entry.table_eq_some.1 ht
  obtain ⟨hx, hpath, hwf⟩ := hr hf
  have htown := h.tables.child hf hq hi ht
  have hdesc : ∀ {g}, g ≠ t → (dropTable v f i).desc g = v.desc g := fun hg =>
    dropTable_desc v f i (by rwa [hframe])
  have hword : ∀ {g j}, (g = f → j ≠ i) → (v.write f i {}).mem g j = v.mem g j := by
    intro g j hne
    rw [v.write_apply, if_neg fun hg => hne hg.1 hg.2]
  -- behind the entry there was nothing
  have hlook : ∀ k ∈ spots procs, lookup (v.write f i {}).mem k.1 k.2 = lookup v.mem k.1 k.2 := by
    refine h.lookup_switch hx hf hq hpath hwf (fun _ => hword) (fun p _ hp => ?_) fun p _ _ => ?_
    · rw [← singleton_append, ← append_assoc] at hp
      have hp' := (mem_pathsFrom_append hp).2
      rw [ht, bind_some, lookup_of_empty hempty hp']
    · rw [v.write_self]
      rfl
  have hclear : Sharing (v.write f i {}) own procs := by
    refine h.of_lookups h.nodup (fun _ hy => hy) (h.tables.clear f i) h.root ?_ ?_
      (fun k hk => .inl (hlook k hk)) fun _ _ g _ => ⟨rfl, h.counted g⟩
    · intro y hy
      rw [hword]
      · exact h.first y hy
      · rintro rfl hi0
        cases hf.symm.trans (h.root y hy)
        exact h0 rfl hi0.symm
    · intro y hy g q' j hg hlen hj hp
      obtain hsame | hblank := v.clear_word f i g j
      · rw [hsame] at hp ⊢
        exact h.flat y hy g q' j hg hlen hj hp
      · rw [hblank]
  -- what is not behind the cleared entry is walked to as before
  have hwalk : ∀ {y p}, y ∈ procs → p ∈ pathsFrom p.length [] → p.length ≤ 3 →
      ¬ (y = x ∧ q ++ [i] <+: p) → walk (v.write f i {}).mem y p = walk v.mem y p := by
    intro y p hy hp hlen hnot
    refine h.tables.walk_congr (h.root y hy) (by simpa using hlen) hp fun q' j g hpre hg => ?_
    refine hword ?_
    rintro rfl rfl
    cases hf.symm.trans hg
    exact hnot ⟨rfl, by simpa using hpre⟩
  have hreach : own.reach (v.write f i {}) procs = update own t none := by
    funext g
    by_cases hgt : g = t
    · rw [hgt, update_self]
      refine eq_none_iff_forall_ne_some.2 ?_
      rintro ⟨y, q'⟩ hg
      obtain ⟨hown, -, -, hw⟩ := Owner.reach_eq_some.1 hg
      cases htown.symm.trans hown
      have hnot : ¬ (x = x ∧ q ++ [i] <+: q) := fun hpre => by
        have := hpre.2.length_le
        rw [length_append, length_singleton] at this
        omega
      simp [walk_append, hwalk hx hpath (by omega) hnot, hwf, bind_some, walk, v.write_self] at hw
    rw [update_of_ne hgt]
    cases hown : own g with
    | none => exact Owner.reach_eq_none hown
    | some y =>
      obtain ⟨hy, hpath', hwg⟩ := hr hown
      refine Owner.reach_eq_some.2 ⟨hown, hy, hpath', ?_⟩
      rw [hwalk hy hpath' (h.tables.depth hown), hwg]
      rintro ⟨hyx, p, hp⟩
      -- the table would stand behind the empty one
      rw [← hp] at hpath'
      rw [hyx, ← hp, append_assoc, walk_append, hwf, bind_some, singleton_append] at hwg
      simp only [walk, ht, bind_some] at hwg
      cases p with
      | nil => exact hgt (some.inj hwg).symm
      | cons j p =>
        obtain ⟨_, hj', _, -, heq⟩ := mem_pathsFrom_succ.1 (mem_pathsFrom_append hpath').2
        obtain ⟨rfl, rfl⟩ := List.cons.inj heq
        simp [walk, hempty j (lt_of_mem_privateIndices hj')] at hwg
  have hold : ∀ {g y}, update own t none g = some y → g ≠ t ∧ own g = some y := by
    intro g y hg
    rw [update_apply] at hg
    split_ifs at hg with hgt
    exact ⟨hgt, hg⟩
  refine ⟨hreach ▸ hclear.reach h.nodup (fun _ hy => hy) (fun _ _ _ => by rw [dropTable_mem])
    (fun _ _ => .inl (by rw [dropTable_mem])) ?_ ?_, ?_, ?_, fun hg => (hold hg).2, ?_, ?_⟩
  · rintro g ⟨y, q'⟩ hg
    rw [hreach] at hg
    rw [(Vm.desc_eq_iff.1 (hdesc (hold hg).1)).1]
    exact h.tables.busy (hold hg).2
  · intro k hk g hg
    have hgt : g ≠ t := by
      rintro rfl
      cases htown.symm.trans (hclear.data hk hg).1
    obtain ⟨hstate, hcount⟩ := Vm.desc_eq_iff.1 (hdesc hgt)
    exact ⟨hstate, hcount ▸ hclear.counted g⟩
  · intro g y q' hg
    rw [← hreach] at hg
    rw [dropTable_mem]
    exact (Owner.reach_eq_some.1 hg).2
  · rwa [dropTable_mem]
  · intro g hg
    have hgt : g ≠ t := by
      rintro rfl
      exact hg _ htown
    exact ⟨update_of_ne hgt .., hdesc hgt⟩
  · intro g j
    rw [dropTable_mem, v.write_apply]
    split_ifs with hgf
    · obtain ⟨rfl, rfl⟩ := hgf
      exact .inr ⟨rfl, q, hf, hq, hi, h0⟩
    · exact .inl rfl

end Drop

/-! ## The whole function -/

section Unmap

variable {x va pdpt pd pt : ℕ} {procs : List ℕ} {v : Vm} {own : Owner}

/-- What `unmap_page` has done: one mapping is gone. -/
structure Cleared (x va : ℕ) (procs : List ℕ) (v : Vm) (own : Owner) (v' : Vm) (own' : Owner) :
    Prop where
  sharing : Sharing v' own' procs
  entry : lookup v'.mem x (pathOf va) = none
  lookups : ∀ k ∈ spots procs, k ≠ (x, pathOf va) → lookup v'.mem k.1 k.2 = lookup v.mem k.1 k.2
  owned : ∀ {f y}, own' f = some y → own f = some y
  others : ∀ {f}, (∀ q, own f ≠ some (x, q)) → own' f = own f ∧ v'.desc f = v.desc f
  word : ∀ f i, v'.mem f i = v.mem f i ∨ v'.mem f i = {} ∧
    ∃ q, own f = some (x, q) ∧ i ∈ privateIndices q ∧ (q = [] → i ≠ 0)

/-- The entry is cleared. -/
lemma Sharing.clearEntry (h : Sharing v own procs) (hr : Rooted v own procs) (hx : x ∈ procs)
    (hp : pathOf va ∈ userPaths) (hroute : Route v own x va pdpt pd pt) :
    Cleared x va procs v own (v.write pt (ptIdx va) {}) own ∧
      Rooted (v.write pt (ptIdx va) {}) own procs := by
  have hspot : (x, pathOf va) ∈ spots procs := mem_spots.2 ⟨hx, hp⟩
  have hcount : ∀ g, holders (update (frameAt v) (x, pathOf va) none) (spots procs) g ≤
      v.refCount g := by
    intro g
    have hchange := holders_update (f := frameAt v) (x := g) (nodup_spots h.nodup) hspot none
    have hle := h.counted g
    simp only [reduceCtorEq, if_false, Nat.add_zero] at hchange
    omega
  have hset := h.setEntry (e := {}) (v.write pt (ptIdx va) {}) hx hroute (by simp) rfl rfl hcount
    fun _ _ _ _ _ hmaps => by cases hmaps
  refine ⟨⟨hset.sharing, hset.entry, hset.others, id, fun _ => ⟨rfl, rfl⟩, ?_⟩, ?_⟩
  · intro f i
    rw [v.write_apply]
    split_ifs with hfi
    · obtain ⟨rfl, rfl⟩ := hfi
      exact .inr ⟨rfl, _, hroute.pt_own, (pathOf_indices hp).2.2.2, by simp⟩
    · exact .inl rfl
  · intro f y q hf
    obtain ⟨hy, hpath, hwalk⟩ := hr hf
    refine ⟨hy, hpath, ?_⟩
    rw [← hwalk]
    have hlen := h.tables.depth hf
    refine h.tables.walk_congr (h.root y hy) (by simpa using hlen) hpath fun q' j g hpre hg => ?_
    have := hpre.length_le
    rw [nil_append, length_append, length_singleton] at this
    rw [hset.stem hg (by omega)]

/-- Then tables are removed. -/
lemma Cleared.prune {v1 v2 : Vm} {own1 own2 : Owner} (h1 : Cleared x va procs v own v1 own1)
    (hspot : (x, pathOf va) ∈ spots procs) (h2 : Pruned x procs v1 own1 v2 own2) :
    Cleared x va procs v own v2 own2 where
  sharing := h2.sharing
  entry := by rw [h2.lookups _ hspot, h1.entry]
  lookups := fun k hk hne => by rw [h2.lookups k hk, h1.lookups k hk hne]
  owned := fun hf => h1.owned (h2.owned hf)
  others := fun {f} hf => by
    obtain ⟨hown1, hdesc1⟩ := h1.others hf
    obtain ⟨hown2, hdesc2⟩ := h2.others (f := f) (by rwa [hown1])
    exact ⟨by rw [hown2, hown1], by rw [hdesc2, hdesc1]⟩
  word := fun f i => by
    obtain hw2 | ⟨hw2, q, hq, -, hi, h0⟩ := h2.word f i
    · obtain hw1 | ⟨hw1, hown⟩ := h1.word f i
      · exact .inl (by rw [hw2, hw1])
      · exact .inr ⟨by rw [hw2, hw1], hown⟩
    · exact .inr ⟨hw2, q, h1.owned hq, hi, h0⟩

lemma isEmpty_iff {v : Vm} {t : ℕ} : isEmpty v t = true ↔ ∀ j, j < 512 → v.mem t j = {} := by
  simp [isEmpty]

/-- **`unmap_page`** removes one mapping, and the tables that have become empty. -/
lemma unmapPage_cleared (h : Sharing v own procs) (hr : Rooted v own procs) (hx : x ∈ procs)
    (hp : pathOf va ∈ userPaths) (hlow : v.mem (v.mem x 0).frame 0 ≠ {}) {e : Entry}
    (he : lookup v.mem x (pathOf va) = some e) :
    ∃ v' own', unmapPage v x va = some v' ∧ Cleared x va procs v own v' own' := by
  have hroot := h.root x hx
  obtain ⟨h4, h3, h2, -⟩ := pathOf_indices hp
  have hspot : (x, pathOf va) ∈ spots procs := mem_spots.2 ⟨hx, hp⟩
  obtain ⟨pdpt, pd, pt, hroute, hpt, hpres⟩ := h.tables.exists_route hroot hp he
  obtain ⟨hp4, -, hf4⟩ := Entry.table_eq_some.1 hroute.pdpt_eq
  obtain ⟨hp3, -, hf3⟩ := Entry.table_eq_some.1 hroute.pd_eq
  obtain ⟨hp2, hs2, hf2⟩ := Entry.table_eq_some.1 hroute.pt_eq
  obtain ⟨hc, hr1⟩ := h.clearEntry hr hx hp hroute
  unfold unmapPage
  simp only [physToVirt_of_inReach (h.tables.inside hroot),
    physToVirt_of_inReach (h.tables.inside hroute.pdpt_own),
    physToVirt_of_inReach (h.tables.inside hroute.pd_own),
    physToVirt_of_inReach (h.tables.inside hroute.pt_own), hp4, hf4, hp3, hf3, hp2, hs2, hf2, hpt,
    hpres, bind_eq_bind, bind_some, Bool.not_true, Bool.false_eq_true, if_false]
  obtain ⟨v1, hv1⟩ : ∃ v1, v1 = v.write pt (ptIdx va) {} := ⟨_, rfl⟩
  have hroute1 := hroute.set hroot {}
  rw [← hv1] at hc hr1 hroute1 ⊢
  have hs1 := hc.sharing
  by_cases hempty1 : isEmpty v1 pt = true
  swap
  · exact ⟨v1, own, by simp [hempty1], hc⟩
  simp only [hempty1, Bool.not_true, Bool.false_eq_true, if_false]
  have hd2 := hs1.drop hr1 hroute1.pd_own (by simp) h2 (by simp) hroute1.pt_eq
    (isEmpty_iff.1 hempty1)
  have hc2 := hc.prune hspot hd2
  set v2 := dropTable v1 pd (pdIdx va) with hv2
  by_cases hempty2 : isEmpty v2 pd = true
  swap
  · exact ⟨v2, _, by simp [hempty2], hc2⟩
  simp only [hempty2, Bool.not_true, Bool.false_eq_true, if_false]
  -- the tables are different, because they stand at different places
  have hpdpt_pd := ne_of_own hroute.pdpt_own hroute.pd_own (by simp)
  have hroot_pd := ne_of_own hroot hroute.pd_own (by simp)
  have hroot_pdpt := ne_of_own hroot hroute.pdpt_own (by simp)
  have hpdpt2 : update own pt none pdpt = some (x, [pml4Idx va]) := by
    rw [update_of_ne (ne_of_own hroute.pdpt_own hroute.pt_own (by simp)), hroute.pdpt_own]
  have hroot2 : update own pt none x = some (x, []) := by
    rw [update_of_ne (ne_of_own hroot hroute.pt_own (by simp)), hroot]
  have hpd2 : (v2.mem pdpt (pdptIdx va)).table = some pd := by
    rw [hv2, dropTable_mem, v1.write_frame _ _ hpdpt_pd]
    exact hroute1.pd_eq
  have hd3 := hd2.sharing.drop hd2.rooted hpdpt2 (by simp) h3 (by simp) hpd2
    (isEmpty_iff.1 hempty2)
  have hc3 := hc2.prune hspot hd3
  set v3 := dropTable v2 pdpt (pdptIdx va) with hv3
  by_cases hempty3 : isEmpty v3 pdpt = true
  swap
  · exact ⟨v3, _, by simp [hempty3], hc3⟩
  simp only [hempty3, Bool.not_true, Bool.false_eq_true, if_false]
  have hzero : pml4Idx va ≠ 0 := by
    intro hzero
    have hpdpt : (v.mem x 0).frame = pdpt := by rw [← hf4, hzero]
    rw [hpdpt] at hlow
    obtain hsame | ⟨-, q, hq, hprivate, -⟩ := hc3.word pdpt 0
    · exact hlow (by rw [← hsame, isEmpty_iff.1 hempty3 0 (by decide)])
    · rw [hroute.pdpt_own, hzero] at hq
      cases hq
      exact zero_not_mem hprivate
  have hroot3 : update (update own pt none) pd none x = some (x, []) := by
    rw [update_of_ne hroot_pd, hroot2]
  have hpdpt3 : (v3.mem x (pml4Idx va)).table = some pdpt := by
    rw [hv3, dropTable_mem, v2.write_frame _ _ hroot_pdpt, hv2, dropTable_mem,
      v1.write_frame _ _ hroot_pd]
    exact hroute1.pdpt_eq
  have hd4 := hd3.sharing.drop hd3.rooted hroot3 (by simp) h4 (fun _ => hzero) hpdpt3
    (isEmpty_iff.1 hempty3)
  exact ⟨_, _, rfl, hc3.prune hspot hd4⟩

/-- Where nothing is mapped, `unmap_page` does nothing. -/
lemma unmapPage_eq_self (h : Sharing v own procs) (hx : x ∈ procs) (hp : pathOf va ∈ userPaths)
    (he : lookup v.mem x (pathOf va) = none) : unmapPage v x va = some v := by
  obtain ⟨hv4, hp4 | ⟨_, hp4, hv3, hp3 | ⟨_, hp3, hv2, hp2 | ⟨_, hp2, hs2, hv1, hp1⟩⟩⟩⟩ :=
    h.walk_ends hx hp he
  · simp [unmapPage, hv4, hp4]
  · simp [unmapPage, hv4, hp4, hv3, hp3]
  · simp [unmapPage, hv4, hp4, hv3, hp3, hv2, hp2]
  · simp [unmapPage, hv4, hp4, hv3, hp3, hv2, hp2, hs2, hv1, hp1]

end Unmap

end Aurora.Paging
