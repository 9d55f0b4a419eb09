import Aurora.Kernel.PageFree
import Mathlib.Data.List.Perm.Basic

/-!
# Exits and failed clones

An address space that is freed, and a clone that runs out of memory, leave the address spaces
that remain as they were: a page frame that one of them still maps has lost exactly the
references of the mappings that are gone.

## Main definitions

* `Owner.reach`: the owners of the tables that some address spaces reach.
* `Abandoned`: what a failed clone has done.
* `Sharing.exit`, `Sharing.abandoned`: both keep the invariant.
-/

namespace Aurora.Paging

open Lib Function List Option Owner

/-! ## Reachable tables -/

variable {q : List ℕ}

lemma pathsFrom_snoc {n i : ℕ} {p : List ℕ} (hp : p ∈ pathsFrom n q)
    (hi : i ∈ privateIndices (q ++ p)) : p ++ [i] ∈ pathsFrom (n + 1) q := by
  induction n generalizing q p with
  | zero =>
    rw [pathsFrom, mem_singleton] at hp
    subst hp
    rw [append_nil] at hi
    exact mem_pathsFrom_succ.2 ⟨i, hi, [], mem_singleton_self _, rfl⟩
  | succ n ih =>
    obtain ⟨j, hj, p', hp', rfl⟩ := mem_pathsFrom_succ.1 hp
    refine mem_pathsFrom_succ.2 ⟨j, hj, p' ++ [i], ih hp' ?_, rfl⟩
    rwa [append_assoc, singleton_append]

/-- The owners of the tables that some address spaces reach. -/
def Owner.reach (own : Owner) (v : Vm) (procs : List ℕ) : Owner := fun f =>
  (own f).filter fun x => x.1 ∈ procs ∧ x.2 ∈ pathsFrom x.2.length [] ∧ walk v.mem x.1 x.2 = some f

variable {own : Owner} {v : Vm} {procs : List ℕ} {f : ℕ}

lemma Owner.reach_eq_some {x : ℕ} :
    own.reach v procs f = some (x, q) ↔ own f = some (x, q) ∧ x ∈ procs ∧
      q ∈ pathsFrom q.length [] ∧ walk v.mem x q = some f := by
  simp [reach, filter_eq_some_iff]

lemma Owner.reach_eq_none (h : own f = none) : own.reach v procs f = none := by
  simp [reach, h]

lemma Owner.reach_root {x : ℕ} (hroot : own x = some (x, [])) (hx : x ∈ procs) :
    own.reach v procs x = some (x, []) :=
  reach_eq_some.2 ⟨hroot, hx, mem_singleton_self _, rfl⟩

section Reach

variable {v v' : Vm} {own : Owner} {procs ps : List ℕ}

/-- Which table a path leads to only depends on the words that it reads. -/
lemma Tables.walk_congr (h : Tables v own) {m : Memory} {n r : ℕ} {p : List ℕ}
    (hf : own f = some (r, q)) (hn : n + q.length ≤ 3) (hp : p ∈ pathsFrom n q)
    (hm : ∀ q' i g, q' ++ [i] <+: q ++ p → own g = some (r, q') → m g i = v.mem g i) :
    walk m f p = walk v.mem f p := by
  induction n generalizing f q p with
  | zero =>
    rw [mem_singleton.1 hp]
    rfl
  | succ n ih =>
    obtain ⟨i, hi, p', hp', rfl⟩ := mem_pathsFrom_succ.1 hp
    simp only [walk]
    rw [hm q i f ⟨p', by simp⟩ hf]
    cases ht : (v.mem f i).table with
    | none => rfl
    | some t =>
      have hown := h.child hf (by omega) hi ht
      refine ih hown (by rw [length_append, length_singleton]; omega) hp' ?_
      intro q' j g hpath hg
      exact hm q' j g (by simpa using hpath) hg

/-- The tables that some address spaces reach, in a state in which these tables lead to the same
page frames and nothing they lead to has been freed. -/
lemma Tables.reach (h : Tables v own) (hroot : ∀ x ∈ ps, own x = some (x, []))
    (hstem : ∀ {f x q}, own f = some (x, q) → x ∈ ps → q.length < 3 → v'.mem f = v.mem f)
    (hframe : ∀ k ∈ spots ps, frameAt v' k = frameAt v k)
    (hbusy : ∀ {f x}, own.reach v ps f = some x → v'.state f ≠ .free)
    (hdata : ∀ k ∈ spots ps, ∀ g, frameAt v k = some g → v'.state g ≠ .free) :
    Tables v' (own.reach v ps) := by
  refine ⟨?_, ?_, hbusy, ?_, ?_, ?_, ?_⟩
  · intro f x q hf
    exact h.depth (reach_eq_some.1 hf).1
  · intro f x q hf
    exact h.inside (reach_eq_some.1 hf).1
  · intro f x q hf
    obtain ⟨-, hx, -⟩ := reach_eq_some.1 hf
    exact hbusy (reach_root (hroot x hx) hx)
  · intro f x q i hf hq
    obtain ⟨hown, hx, -⟩ := reach_eq_some.1 hf
    rw [hstem hown hx (by omega)]
    exact h.small hown hq
  · intro f x q i t hf hq hi ht
    obtain ⟨hown, hx, hpath, hwalk⟩ := reach_eq_some.1 hf
    rw [hstem hown hx hq] at ht
    refine reach_eq_some.2 ⟨h.child hown hq hi ht, hx, ?_, ?_⟩
    · rw [length_append, length_singleton]
      exact pathsFrom_snoc hpath hi
    · rw [walk_append, hwalk, bind_some]
      simp only [walk, ht, bind_some]
  · intro f x q i hf hq hi hp
    obtain ⟨hown, hx, hpath, hwalk⟩ := reach_eq_some.1 hf
    -- the entry stands at a place of the address space
    have hspot : (x, q ++ [i]) ∈ spots ps := by
      refine mem_spots.2 ⟨hx, ?_⟩
      have hmem := pathsFrom_snoc hpath hi
      rwa [hq] at hmem
    have hwalk' : walk v'.mem x q = some f := by
      rw [← hwalk]
      refine h.walk_congr (hroot x hx) (by simp [hq]) hpath fun q' j g hpre hg => ?_
      have hlen := hpre.length_le
      rw [nil_append, length_append, length_singleton] at hlen
      rw [hstem hg hx (by omega)]
    have hat : frameAt v' (x, q ++ [i]) = some (v'.mem f i).frame := by
      refine frameAt_eq_some.2 ⟨_, ?_, rfl⟩
      rw [lookup_append, hwalk', bind_some]
      exact Entry.leaf_eq_some.2 ⟨hp, rfl⟩
    rw [hframe _ hspot] at hat
    obtain ⟨e, he, hfr⟩ := frameAt_eq_some.1 hat
    have hnone := (h.data_of_lookup (hroot x hx) rfl (mem_spots.1 hspot).2 he).1
    rw [hfr] at hnone
    exact ⟨reach_eq_none hnone, hdata _ hspot _ hat⟩

/-- The invariant for some of the address spaces, in a state in which they map the same page
frames, no more of them writable, and the counts are still large enough. -/
lemma Sharing.reach (h : Sharing v own procs) (hnodup : ps.Nodup) (hsub : ps ⊆ procs)
    (hstem : ∀ {f x q}, own f = some (x, q) → x ∈ ps → q.length < 3 → v'.mem f = v.mem f)
    (hlook : ∀ k ∈ spots ps, lookup v'.mem k.1 k.2 = lookup v.mem k.1 k.2 ∨
      lookup v'.mem k.1 k.2 = (lookup v.mem k.1 k.2).map Entry.cow)
    (hbusy : ∀ {f x}, own.reach v ps f = some x → v'.state f ≠ .free)
    (hdata : ∀ k ∈ spots ps, ∀ g, frameAt v k = some g → v'.state g = v.state g ∧
      holders (frameAt v) (spots ps) g ≤ v'.refCount g) :
    Sharing v' (own.reach v ps) ps := by
  have hroot : ∀ x ∈ ps, own x = some (x, []) := fun x hx => h.root x (hsub hx)
  refine h.of_lookups hnodup hsub ?_ (fun x hx => reach_root (hroot x hx) hx) ?_ ?_ hlook
    hdata
  · refine h.tables.reach hroot hstem (fun k hk => frameAt_congr (hlook k hk)) hbusy
      fun k hk g hg => ?_
    rw [(hdata k hk g hg).1]
    exact (h.data (mem_spots.2 ⟨hsub (mem_spots.1 hk).1, (mem_spots.1 hk).2⟩) hg).2
  · intro x hx
    rw [hstem (hroot x hx) hx (by decide)]
    exact h.first x (hsub hx)
  · intro x hx f q i hf hq
    have hown := (reach_eq_some.1 hf).1
    rw [hstem hown hx hq]
    exact h.flat x (hsub hx) f q i hown hq

end Reach

/-! ## Exits -/

section Exit

variable {v v' : Vm} {own : Owner} {procs : List ℕ} {x : ℕ}

/-- The mappings of one address space, and those of the others. -/
lemma holders_erase (v : Vm) (hx : x ∈ procs) (g : ℕ) : holders (frameAt v) (spots procs) g =
      uses v.mem x userPaths g + holders (frameAt v) (spots (procs.erase x)) g := by
  have hperm : (spots procs).Perm (spots (x :: procs.erase x)) :=
    (perm_cons_erase hx).product_right userPaths
  rw [← holders_spots_cons]
  exact hperm.countP_eq _

/-- **An exit** leaves the other address spaces as they are. -/
lemma Sharing.exit (h : Sharing v own procs) (hx : x ∈ procs)
    (hrel : Released own x [] x userPaths v v') :
    Sharing v' (own.reach v (procs.erase x)) (procs.erase x) := by
  have hne : ∀ {y}, y ∈ procs.erase x → y ≠ x := by
    rintro y hy rfl
    exact h.nodup.not_mem_erase hy
  refine h.reach (h.nodup.erase x) erase_subset ?_ ?_ ?_ ?_
  · intro f y q _ _ _
    rw [hrel.mem]
  · intro k _
    rw [hrel.mem]
    exact .inl rfl
  · rintro f ⟨y, q⟩ hf
    obtain ⟨hf, hy, -⟩ := reach_eq_some.1 hf
    have hdesc := hrel.others f y q hf fun hyx => hne hy hyx.1
    rw [(Vm.desc_eq_iff.1 hdesc).1]
    exact h.tables.busy hf
  · intro k hk g hg
    have hk' : k ∈ spots procs :=
      mem_spots.2 ⟨erase_subset (mem_spots.1 hk).1, (mem_spots.1 hk).2⟩
    have hin := h.managed k hk' g hg
    have hdesc := hrel.data g (h.data hk' hg).1
    have hcounted := h.counted g
    have hone := one_le_holders hk hg
    rw [holders_erase v hx g] at hcounted
    -- one of the references is not released
    rw [v.desc_eq, dropOne_iterate_of_lt (by omega), if_neg hin] at hdesc
    obtain ⟨hstate, hcount⟩ := Vm.desc_eq_iff.1 hdesc
    exact ⟨hstate, by omega⟩

end Exit

/-! ## Failed clones -/

/-- What a failed clone of `r` has done: some pages of `r` are no longer writable. -/
structure Abandoned (r : ℕ) (v : Vm) (own : Owner) (v' : Vm) : Prop where
  parent : ∀ p ∈ userPaths, lookup v'.mem r p = lookup v.mem r p ∨
    lookup v'.mem r p = (lookup v.mem r p).map Entry.cow
  outer : ∀ f, v.state f ≠ .free → (∀ q, own f ≠ some (r, q)) → v'.mem f = v.mem f
  stem : ∀ f q, own f = some (r, q) → q.length < 3 → v'.mem f = v.mem f
  owned : ∀ f x, own f = some x → v'.state f = v.state f
  data : ∀ g, own g = none → v.state g ≠ .free → v.state g ≠ .outside → v.refCount g ≠ 0 →
    v'.desc g = v.desc g

section Failed

variable {result : Option (Vm × Option ℕ)}

variable {v v' v1 w : Vm} {own : Owner} {procs : List ℕ} {r d : ℕ}

/-- **A failed clone** leaves all address spaces as they are, except that some pages have to be
made writable again. -/
lemma Sharing.abandoned (h : Sharing v own procs) (hf : Abandoned r v own v') :
    Sharing v' (own.reach v procs) procs := by
  refine h.reach h.nodup (fun _ hx => hx) ?_ ?_ ?_ ?_
  · intro f x q hx _ hq
    exact h.stem_of_outer hf.outer hf.stem hx hq
  · intro k hk
    by_cases hkr : k.1 = r
    · rw [hkr]
      exact hf.parent k.2 (mem_spots.1 hk).2
    · exact .inl (h.lookup_other hf.outer hk hkr)
  · rintro f ⟨x, q⟩ hx
    have hx := (reach_eq_some.1 hx).1
    rw [hf.owned f _ hx]
    exact h.tables.busy hx
  · intro k hk g hg
    obtain ⟨hnone, hbusy⟩ := h.data hk hg
    have hone := one_le_holders hk hg
    have hle := h.counted g
    have hdesc := hf.data g hnone hbusy (h.managed k hk g hg) (by omega)
    obtain ⟨hstate, hcount⟩ := Vm.desc_eq_iff.1 hdesc
    exact ⟨hstate, by rwa [hcount]⟩

section

variable (hs : Started d v own v1) (h : Tables v own) (hr : own r = some (r, []))

include hs h hr

/-- What has been cloned is released again. -/
lemma Started.abandoned {ownw : Owner} {ps : List (List ℕ)}
    (hc : Cloned r d [] r d ps v1 (own.grow d d []) w ownw) (hsub : ps.Sublist userPaths)
    (hmem : ∀ f, f ≠ d → v'.mem f = w.mem f)
    (howned : ∀ f x q, ownw f = some (x, q) → x ≠ d → v'.desc f = w.desc f)
    (hdata : ∀ g, ownw g = none → v'.desc g = dropOne^[uses w.mem d userPaths g] (w.desc g)) :
    Abandoned r v own v' := by
  have hr1 := hs.owned h hr
  have hrd := hs.ne_of_owned h hr
  have hwroot := hc.own_of_own hs.tables hr1
  have hd1 : own.grow d d [] d = some (d, []) := grow_self ..
  have hdw := hc.own_of_own hs.tables hd1
  have hkept : ∀ {f x}, own f = some x → ownw f = some x := fun hf =>
    hc.own_of_own hs.tables (hs.owned h hf)
  have hparent : ∀ {p}, p ∈ userPaths → lookup v'.mem r p = lookup w.mem r p := by
    intro p hp
    refine hc.tables.lookup_congr hwroot rfl hp fun q i g _ _ hg => ?_
    rw [hmem g]
    rintro rfl
    rw [hdw] at hg
    exact hrd (congrArg Prod.fst (some.inj hg)).symm
  refine ⟨?_, ?_, ?_, ?_, ?_⟩
  · intro p hp
    rw [hparent hp, ← hs.lookup_eq h hr hp]
    by_cases hmem : p ∈ ps
    · exact .inr (hc.src p hmem)
    · exact .inl (hc.srcElse p hp hmem)
  · intro f hf hout
    have hfd := hs.ne_of_busy hf
    rw [hmem f hfd, hc.outer f (by rwa [hs.state hfd]), hs.mem hfd]
    intro q' _
    rw [own.grow_of_ne _ _ hfd]
    exact ⟨hout q', fun hfd' => h.rooted hfd' hs.fresh⟩
  · intro f q hf hq
    have hfd := hs.ne_of_owned h hf
    rw [hmem f hfd, hc.stem f q (hs.owned h hf) hq, hs.mem hfd]
  · rintro f ⟨x, q⟩ hf
    have hxd : x ≠ d := by
      rintro rfl
      exact h.rooted hf hs.fresh
    have hsame : ownw f = own.grow d d [] f := by rw [hkept hf, hs.owned h hf]
    rw [(Vm.desc_eq_iff.1 (howned f x q (hkept hf) hxd)).1, hc.state f hsame,
      hs.state (hs.ne_of_owned h hf)]
  · intro g hnone hbusy hin _
    have hgd := hs.ne_of_busy hbusy
    have hgrow : own.grow d d [] g = none := by rw [own.grow_of_ne _ _ hgd, hnone]
    have hwg : ownw g = own.grow d d [] g := hc.kept g (by rwa [hs.state hgd])
    have hstate : w.state g = v.state g := by rw [hc.state g hwg, hs.state hgd]
    have href := hc.count g hwg (by rwa [hs.state hgd])
    -- the child's mappings of the page frame are those that have been counted
    have hpaths : uses w.mem d userPaths g = uses v1.mem r ps g := by
      have hout : ∀ p ∈ userPaths, p ∉ ps → (lookup w.mem d p).map Entry.frame ≠ some g := by
        intro p hp hnot
        simp [hc.dstElse p hp hnot, lookup_of_blank hs.blank hp]
      refine (holders_of_sublist hsub (nodup_pathsFrom 4 []) hout).trans ?_
      refine uses_congr fun p hp => ?_
      rw [hc.dst p hp, Option.map_map]
      rfl
    have hdesc := hdata g (by rw [hwg, hgrow])
    rw [hpaths, w.desc_eq, href, hs.count hgd, hstate, dropOne_iterate_of_lt (by omega),
      if_neg hin] at hdesc
    rw [hdesc, v.desc_eq, Nat.add_sub_cancel]

omit hs h hr in
/-- A PML4 without entries is freed, and nothing else. -/
lemma freePagetable_blank (hd : InReach d) (hblank : ∀ i ∈ privateIndices [], w.mem d i = {}) :
    ∃ v', freePagetable w d = some v' ∧ v'.mem = w.mem ∧ ∀ g, g ≠ d → v'.desc g = w.desc g := by
  have hself : ∀ {f r q}, grow (fun _ => none) d d [] f = some (r, q) →
      f = d ∧ r = d ∧ q = [] := by
    intro f r q hf
    obtain ⟨rfl, heq⟩ | ⟨-, hf⟩ := grow_eq_some.1 hf
    · cases heq
      exact ⟨rfl, rfl, rfl⟩
    · cases hf
  have htables : Tables { w with state := fun _ => .used } (grow (fun _ => none) d d []) := by
    refine ⟨?_, ?_, fun _ => nofun, fun _ => nofun, ?_, ?_, ?_⟩
    · intro f r q hf
      rw [(hself hf).2.2]
      decide
    · intro f r q hf
      rwa [(hself hf).1]
    · intro f r q i hf _ hi hp
      obtain ⟨rfl, -, rfl⟩ := hself hf
      rw [hblank i hi]
    · intro f r q i t hf _ hi ht
      obtain ⟨rfl, -, rfl⟩ := hself hf
      simp [hblank i hi] at ht
    · intro f r q i hf hq
      simp [(hself hf).2.2] at hq
  obtain ⟨v', hrun, hrel⟩ := freePagetable_released (v := w) htables rfl (grow_self ..)
  refine ⟨v', hrun, hrel.mem, fun g hg => ?_⟩
  have hzero : uses w.mem d userPaths g = 0 := uses_eq_zero fun p hp => lookup_of_blank hblank hp
  rw [hrel.data g (grow_of_ne _ _ _ hg), hzero]
  rfl

lemma LowRefused.abandoned (hfail : LowRefused d v1 result) :
    ∃ v', result = some (v', none) ∧ Abandoned r v own v' := by
  obtain ⟨w, hmem, hblank, hstate, hcount, rfl⟩ := hfail
  obtain ⟨v', hrun, hsame, hdesc⟩ := freePagetable_blank hs.inside hblank
  have hframe : ∀ {f}, f ≠ d → v'.mem f = v.mem f := by
    intro f hf
    rw [hsame, hmem f hf, hs.mem hf]
  have hall : ∀ {f}, f ≠ d → v'.desc f = v.desc f := by
    intro f hf
    rw [hdesc f hf, w.desc_eq, hstate, hcount, hs.state hf, hs.count hf, v.desc_eq]
  refine ⟨v', by rw [hrun]; rfl, ?_, ?_, ?_, ?_, ?_⟩
  · intro p hp
    exact .inl (h.lookup_congr hr rfl hp fun q i g _ _ hg => by
      rw [hframe (hs.ne_of_owned h hg)])
  · intro f hf _
    exact hframe (hs.ne_of_busy hf)
  · intro f q hf _
    exact hframe (hs.ne_of_owned h hf)
  · intro f x hf
    exact (Vm.desc_eq_iff.1 (hall (hs.ne_of_owned h hf))).1
  · intro g _ hbusy _ _
    exact hall (hs.ne_of_busy hbusy)

omit hs h hr in
/-- The paths of the child when only its first entry is set. -/
lemma uses_userPaths_low {t g : ℕ} (h0 : (w.mem d 0).table = some t)
    (hblank : ∀ i ∈ privateIndices [], i ≠ 0 → w.mem d i = {}) :
    uses w.mem d userPaths g = uses w.mem t (pathsFrom 3 [0]) g := by
  rw [userPaths_eq, uses_append, uses_descend h0 fun p hp => ne_nil_of_mem_pathsFrom (by simp) hp]
  refine Nat.add_eq_left.2 (uses_eq_zero fun p hp => ?_)
  obtain ⟨i, hi, p', -, rfl⟩ := mem_pathsVia.1 hp
  rw [mem_range'_1] at hi
  exact lookup_cons_blank (hblank i (by simpa [privateIndices] using hi.2) (by omega)) p'

lemma LowFailed.abandoned (hfail : LowFailed r d v1 (own.grow d d []) result) :
    ∃ v', result = some (v', none) ∧ Abandoned r v own v' := by
  obtain ⟨t, v2, _, _, hsub, ht2, ht, hd, hblank, hc, rfl⟩ := hfail
  obtain ⟨v3, hrun3, hrel⟩ := freePagetableSubtree_released ht2 rfl ht
  have hblank3 : ∀ i ∈ privateIndices [], (v3.write d 0 {}).mem d i = {} := by
    intro i hi
    by_cases hi0 : i = 0
    · subst hi0
      rw [Vm.write_self]
    · rw [Vm.write_index _ _ _ hi0, hrel.mem, hblank i hi hi0]
  obtain ⟨v', hrun', hmem, hdesc⟩ := freePagetable_blank hs.inside hblank3
  refine ⟨v', by rw [hrun3, bind_some, hrun', bind_some], ?_⟩
  refine hs.abandoned h hr hc ?_ ?_ ?_ ?_
  · rw [userPaths_eq]
    exact (hsub.map _).trans (sublist_append_left _ _)
  · intro f hf
    rw [hmem, Vm.write_frame _ _ _ hf, hrel.mem, Vm.write_frame _ _ _ hf]
  · intro f x q hf hxd
    obtain ⟨-, heq⟩ | ⟨hfd, hf⟩ := grow_eq_some.1 hf
    · exact absurd (congrArg Prod.fst heq) hxd
    · rw [hdesc f hfd]
      exact hrel.others f x q hf fun hx => hxd hx.1
  · intro g hg
    have hgd : g ≠ d := by
      rintro rfl
      simp [grow_self] at hg
    rw [grow_of_ne _ _ _ hgd] at hg
    rw [hdesc g hgd, uses_userPaths_low (t := t) (by rw [Vm.write_self]; rfl)
      fun i hi hi0 => by rw [Vm.write_index _ _ _ hi0, hblank i hi hi0]]
    have hsame : uses (v2.write d 0 (structEntry t)).mem t (pathsFrom 3 [0]) g =
        uses v2.mem t (pathsFrom 3 [0]) g := by
      refine uses_congr fun p hp => ?_
      rw [ht2.lookup_congr ht rfl hp fun q i f _ _ hf => ?_]
      rw [Vm.write_frame _ _ _ (ne_of_none hf hd)]
    rw [hsame]
    exact hrel.data g hg

lemma Reached.abandoned (hend : Reached r d v1 (own.grow d d []) result) :
    (∃ v', result = some (v', some d)) ∨ ∃ v', result = some (v', none) ∧ Abandoned r v own v' := by
  obtain ⟨t, v2, _, ok, _, hsub, -, hc, -, -, rfl⟩ := hend
  cases ok with
  | true => exact .inl ⟨v2, rfl⟩
  | false =>
    have hd := hc.own_of_own hs.tables (grow_self ..)
    obtain ⟨v', hrun, hrel⟩ := freePagetable_released hc.tables rfl hd
    refine .inr ⟨v', ?_, ?_⟩
    · rw [hrun]
      rfl
    · exact hs.abandoned h hr hc hsub (fun f _ => by rw [hrel.mem])
        (fun f x q hf hxd => hrel.others f x q hf fun hx => hxd hx.1) hrel.data

end

/-- **A clone** always returns: it has cloned everything, or left the parent its pages. -/
lemma cloneCurrentPml4_total (h : Tables v own) (hr : own r = some (r, []))
    (h0 : (v.mem r 0).present = true) :
    (∃ v' r' own', cloneCurrentPml4 v r = some (v', some r') ∧ Forked r r' v own v' own') ∨
    ∃ v', cloneCurrentPml4 v r = some (v', none) ∧ Abandoned r v own v' := by
  obtain hno | ⟨d, _, hs, hfail | hfail | hend⟩ := cloneCurrentPml4_cases h hr h0
  · refine .inr ⟨v.refuse, hno, fun p _ => .inl rfl, fun _ _ _ => rfl, fun _ _ _ _ => rfl,
      fun _ _ _ => rfl, fun _ _ _ _ _ => rfl⟩
  · exact .inr (hfail.abandoned hs h hr)
  · exact .inr (hfail.abandoned hs h hr)
  · obtain ⟨v', hrun⟩ | hfail := hend.abandoned hs h hr
    · obtain ⟨own', hf⟩ := cloneCurrentPml4_forked h hr h0 hrun
      exact .inl ⟨v', d, own', hrun, hf⟩
    · exact .inr hfail

end Failed

end Aurora.Paging
