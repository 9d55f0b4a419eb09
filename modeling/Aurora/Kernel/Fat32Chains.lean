import Aurora.Kernel.Fat32
import Aurora.Lib.PtrList
import Aurora.Lib.Run
import Mathlib.Order.Interval.Finset.Nat

/-!
# Cluster chains

A volume is the driver with a family of chains: lists of clusters that are linked by
their entries and end in an end-of-chain mark. Its events start a chain, append to one
and free one; each event brings the answers of `kmalloc` to it.

While no `kmalloc` fails, the chains stay what they are and the copies of the table
agree. A failure inside `fat32_set_cluster` is not noticed by its callers: the cluster
is handed out or linked with its entry unwritten.

## Main definitions

* `Volume`, `Op`, `step`: the chains and the calls on them.
* `ChainsOk`, `Consistent`: chains in the table, and the table in all its copies.
* `Confined`: a call changes only entries of its own chain.
* `chains_consistent`: both hold all along a run in which memory suffices.
-/

namespace Aurora.Fat32

open Lib Function List Option

/-- The driver and the chains in use. -/
structure Volume where
  sbi : Sbi
  chains : List (List ℕ)

inductive Op where
  | start
  | append (i : ℕ)
  | free (i : ℕ)

/-- A call and what `kmalloc` answers during it. -/
structure Call where
  op : Op
  mem : ℕ → Bool

/-- `fat32_find_free_cluster`, `fat32_append_cluster` at the last cluster of a chain, or
`fat32_free_cluster_chain` of a whole chain that is not too long. -/
def step (v : Volume) (call : Call) : Option Volume :=
  let s := { v.sbi with mem := call.mem }
  match call.op with
  | .start =>
    let r := fat32FindFreeCluster s
    some ⟨r.2, if r.1 = 0 then v.chains else v.chains ++ [[r.1]]⟩
  | .append i =>
    match v.chains[i]? with
    | none => none
    | some cs =>
      let r := fat32AppendCluster s (cs.getLast?.getD 0)
      some ⟨r.2, if r.1 = 0 then v.chains else v.chains.set i (cs ++ [r.1])⟩
  | .free i =>
    match v.chains[i]? with
    | none => none
    | some cs =>
      if cs.length ≤ maxClusterChain then
        some ⟨(fat32FreeClusterChain s (cs.head?.getD 0)).2, v.chains.eraseIdx i⟩
      else none

/-- The cluster after `c`; an end-of-chain mark has none. -/
def link (t : ℕ → ℕ) (c : ℕ) : Option ℕ := if eocMin ≤ t c then none else some (t c)

/-- The chains are linked in the table up to their marks, no cluster is in two places,
and none is free. -/
structure ChainsOk (g : Geometry) (t : ℕ → ℕ) (chains : List (List ℕ)) : Prop where
  nonempty : ∀ cs ∈ chains, cs ≠ []
  has : ∀ cs ∈ chains, ∀ c ∈ cs, g.Has c
  linked : ∀ cs ∈ chains, IsList (link t) cs.head? cs
  nodup : chains.flatten.Nodup
  inUse : ∀ cs ∈ chains, ∀ c ∈ cs, t c ≠ clusterFree

/-- There is one table in the cache and in all copies, and the chains are in it. -/
def Consistent (v : Volume) : Prop := ∃ t, Synced v.sbi t ∧ ChainsOk v.sbi.geo t v.chains

/-- The chain that a call is applied to. -/
def Op.chain (op : Op) (before after : Volume) : List ℕ :=
  match op with
  | .start => (after.chains.drop before.chains.length).flatten
  | .append i => after.chains[i]?.getD []
  | .free i => before.chains[i]?.getD []

/-- A call changes entries of its own chain only, and no other chain. -/
structure Confined (op : Op) (before after : Volume) : Prop where
  entries : ∀ c, before.sbi.geo.Has c → c ∉ op.chain before after →
    ∀ fat < before.sbi.geo.numFats, after.sbi.entry fat c = before.sbi.entry fat c
  chains : ∀ cs ∈ before.chains, (∀ c ∈ cs, c ∉ op.chain before after) → cs ∈ after.chains

/-- Every `kmalloc` of the call succeeds. -/
def Call.Ready (call : Call) : Prop := ∀ n, call.mem n = true

/-! ## Chains in a table -/

variable {g : Geometry} {t : ℕ → ℕ} {s : Sbi} {chains : List (List ℕ)} {cs : List ℕ} {a c : ℕ}

lemma link_update (t : ℕ → ℕ) (a v : ℕ) : link (update t a v)
      = update (link t) a (if eocMin ≤ v then none else some v) := by
  funext c
  by_cases h : c = a
  · subst h
    simp [link]
  · simp [link, h]

/-- No cluster of a chain is free. -/
lemma ne_free_of_linked {p : Option ℕ} (h : IsList (link t) p cs) (hhas : ∀ c ∈ cs, g.Has c)
    (hc : c ∈ cs) : t c ≠ clusterFree := by
  induction cs generalizing p with
  | nil => cases hc
  | cons b cs ih =>
    rcases mem_cons.1 hc with rfl | hc
    · intro hfree
      have hlink : link t c = some 0 := by simp [link, hfree, eocMin, clusterFree]
      have hhead := h.2.head_eq
      rw [hlink] at hhead
      have hzero : g.Has 0 := hhas 0 (mem_cons_of_mem c (mem_of_head? hhead.symm))
      exact absurd hzero.1 (by decide)
    · exact ih h.2 (fun c hc => hhas c (mem_cons_of_mem b hc)) hc

/-- What is not in any chain can be written. -/
lemma ChainsOk.congr {t' : ℕ → ℕ} (h : ChainsOk g t chains)
    (hsame : ∀ c ∈ chains.flatten, t' c = t c) : ChainsOk g t' chains := by
  have hsame' : ∀ cs ∈ chains, ∀ c ∈ cs, t' c = t c := fun cs hcs c hc =>
    hsame c (mem_flatten_of_mem hcs hc)
  refine ⟨h.nonempty, h.has, fun cs hcs => ?_, h.nodup, fun cs hcs c hc => ?_⟩
  · exact (h.linked cs hcs).congr fun c hc => by simp only [link, hsame' cs hcs c hc]
  · rw [hsame' cs hcs c hc]
    exact h.inUse cs hcs c hc

lemma ChainsOk.not_mem_of_free (h : ChainsOk g t chains) (ha : t a = clusterFree) :
    a ∉ chains.flatten := by
  intro hmem
  obtain ⟨cs, hcs, hac⟩ := mem_flatten.1 hmem
  exact h.inUse cs hcs a hac ha

/-- The order of the family does not matter. -/
lemma ChainsOk.perm {chains' : List (List ℕ)} (h : ChainsOk g t chains)
    (hperm : chains'.Perm chains) : ChainsOk g t chains' := by
  refine ⟨fun cs hcs => h.nonempty cs (hperm.mem_iff.1 hcs),
    fun cs hcs => h.has cs (hperm.mem_iff.1 hcs),
    fun cs hcs => h.linked cs (hperm.mem_iff.1 hcs), ?_,
    fun cs hcs => h.inUse cs (hperm.mem_iff.1 hcs)⟩
  exact hperm.flatten.nodup_iff.2 h.nodup

lemma ChainsOk.tail (h : ChainsOk g t (cs :: chains)) : ChainsOk g t chains := by
  refine ⟨fun ds hds => h.nonempty ds (mem_cons_of_mem cs hds),
    fun ds hds => h.has ds (mem_cons_of_mem cs hds),
    fun ds hds => h.linked ds (mem_cons_of_mem cs hds), ?_,
    fun ds hds => h.inUse ds (mem_cons_of_mem cs hds)⟩
  exact (nodup_append.1 (flatten_cons ▸ h.nodup)).2.1

lemma ChainsOk.cons (h : ChainsOk g t chains) (hne : cs ≠ []) (hhas : ∀ c ∈ cs, g.Has c)
    (hlinked : IsList (link t) cs.head? cs) (hnodup : (cs ++ chains.flatten).Nodup) :
    ChainsOk g t (cs :: chains) := by
  refine ⟨?_, ?_, ?_, flatten_cons ▸ hnodup, ?_⟩
  · exact forall_mem_cons.2 ⟨hne, h.nonempty⟩
  · exact forall_mem_cons.2 ⟨hhas, h.has⟩
  · exact forall_mem_cons.2 ⟨hlinked, h.linked⟩
  · exact forall_mem_cons.2 ⟨fun c hc => ne_free_of_linked hlinked hhas hc, h.inUse⟩

/-- A free cluster becomes a chain of its own. -/
lemma ChainsOk.start (h : ChainsOk g t chains) (ha : g.Has a) (hfree : t a = clusterFree) :
    ChainsOk g (update t a eocMax) ([a] :: chains) := by
  have hnot := h.not_mem_of_free hfree
  have hrest : ChainsOk g (update t a eocMax) chains :=
    h.congr fun c hc => update_of_ne (fun he : c = a => hnot (he ▸ hc)) _ _
  refine hrest.cons (cons_ne_nil _ _) (by simpa using ha) ?_ ?_
  · simp [link, eocMin, eocMax]
  · exact nodup_cons.2 ⟨hnot, h.nodup⟩

/-- A free cluster is appended to a chain. -/
lemma ChainsOk.append (h : ChainsOk g t ((cs ++ [c]) :: chains)) (ha : g.Has a)
    (hfree : t a = clusterFree) :
    ChainsOk g (update (update t a eocMax) c a) ((cs ++ [c, a]) :: chains) := by
  have hnot := h.not_mem_of_free hfree
  have hnodup := h.nodup
  simp only [flatten_cons, mem_append, not_or] at hnot hnodup
  have hsplit := nodup_append.1 hnodup
  have hc : c ∉ chains.flatten := fun hmem => hsplit.2.2 c (by simp) c hmem rfl
  have hrest : ChainsOk g (update (update t a eocMax) c a) chains := by
    refine h.tail.congr fun d hd => ?_
    rw [update_of_ne (fun he : d = c => hc (he ▸ hd)),
      update_of_ne (fun he : d = a => hnot.2 (he ▸ hd))]
  have hhas := h.has _ mem_cons_self
  have hlt := ha.lt
  have hnew : cs ++ [c, a] = (cs ++ [c]) ++ [a] := by simp
  refine hrest.cons (by simp) ?_ ?_ ?_
  · intro d hd
    rw [hnew, mem_append, mem_singleton] at hd
    rcases hd with hd | rfl
    · exact hhas d hd
    · exact ha
  · have hlinked := (h.linked _ mem_cons_self).snoc (by simpa using hnot.1)
    have hhead : (cs ++ [c, a]).head? = (cs ++ [c]).head? := by cases cs <;> rfl
    rwa [hhead, link_update, link_update, if_pos (by decide), if_neg (by unfold eocMin; omega)]
  · rw [hnew, append_assoc, singleton_append]
    refine nodup_middle.2 (nodup_cons.2 ⟨?_, hnodup⟩)
    simpa [not_or, and_assoc] using hnot

/-- The table after a chain has been freed. -/
def clear (t : ℕ → ℕ) (cs : List ℕ) (c : ℕ) : ℕ := if c ∈ cs then clusterFree else t c

lemma ChainsOk.free (h : ChainsOk g t (cs :: chains)) : ChainsOk g (clear t cs) chains := by
  have hsplit := nodup_append.1 (flatten_cons ▸ h.nodup)
  refine h.tail.congr fun c hc => ?_
  exact if_neg fun hcs => hsplit.2.2 c hcs c hc rfl

lemma clear_cons (t : ℕ → ℕ) (c : ℕ) (cs : List ℕ) :
    clear t (c :: cs) = clear (update t c clusterFree) cs := by
  funext d
  by_cases hd : d = c <;> simp [clear, hd]

/-- One round of the loop of `fat32_free_cluster_chain`. -/
lemma Holds.freeFrom_succ (h : Holds g t s) (hc : g.Has c) {count : ℕ}
    (hcount : count < maxClusterChain) (steps : ℕ) :
    ∃ s', Holds g (update t c clusterFree) s' ∧ freeFrom s c count (steps + 1)
      = if validCluster (t c) then freeFrom s' (t c) (count + 1) steps else (0, s') := by
  obtain ⟨hval, hnext⟩ := h.getCluster hc
  refine ⟨_, hnext.setCluster hc clusterFree, ?_⟩
  rw [freeFrom, if_pos hc.validCluster, if_neg (by omega)]
  simp only [hval]

/-- The loop of `fat32_free_cluster_chain` clears a chain from one of its clusters on. -/
lemma Holds.freeFrom (h : Holds g t s) (hhas : ∀ d ∈ c :: cs, g.Has d)
    (hlinked : IsList (link t) (some c) (c :: cs)) (hnodup : (c :: cs).Nodup) {count maxSteps : ℕ}
    (hcount : count + (c :: cs).length ≤ maxClusterChain) (hsteps : (c :: cs).length ≤ maxSteps) :
    Holds g (clear t (c :: cs)) (Fat32.freeFrom s c count maxSteps).2 := by
  induction cs generalizing s t c count maxSteps with
  | nil =>
    obtain ⟨steps, rfl⟩ : ∃ k, maxSteps = k + 1 := ⟨maxSteps - 1, by simp at hsteps; omega⟩
    have hend : validCluster (t c) = false := by
      have hmark : eocMin ≤ t c := by simpa [link] using hlinked.2
      simp [validCluster, hmark]
    have hlt : count < maxClusterChain := hcount
    obtain ⟨s', hs', heq⟩ := h.freeFrom_succ (hhas c mem_cons_self) hlt steps
    rwa [heq, hend, clear_cons]
  | cons b cs ih =>
    obtain ⟨steps, rfl⟩ : ∃ k, maxSteps = k + 1 := ⟨maxSteps - 1, by simp at hsteps; omega⟩
    have hc := hhas c mem_cons_self
    have hb : g.Has b := hhas b (by simp)
    obtain ⟨-, hcb, hrest⟩ := hlinked
    have hval : t c = b := by
      unfold link at hcb
      split_ifs at hcb
      exact some.inj hcb
    have hlt : count < maxClusterChain := by
      simp only [length_cons] at hcount
      omega
    obtain ⟨s', hs', heq⟩ := h.freeFrom_succ hc hlt steps
    rw [heq, hval, if_pos hb.validCluster, clear_cons]
    have hnot : c ∉ b :: cs := (nodup_cons.1 hnodup).1
    have hsuffix : IsList (link t) (some b) (b :: cs) := ⟨rfl, hrest⟩
    have hlinked' : IsList (link (update t c clusterFree)) (some b) (b :: cs) := by
      rw [link_update]
      exact hsuffix.update hnot _
    exact ih hs' (fun d hd => hhas d (mem_cons_of_mem c hd)) hlinked'
      (nodup_cons.1 hnodup).2 (by simp at hcount ⊢; omega) (by simp at hsteps ⊢; omega)

/-- A chain has no more clusters than the volume. -/
lemma length_le_totalClusters (hhas : ∀ c ∈ cs, g.Has c) (hnodup : cs.Nodup) :
    cs.length ≤ g.totalClusters := by
  have hsub : cs.toFinset ⊆ Finset.Ico 2 (g.totalClusters + 2) := by
    intro c hc
    exact Finset.mem_Ico.2 (hhas c (mem_toFinset.1 hc))
  have hcard := Finset.card_le_card hsub
  rwa [toFinset_card_of_nodup hnodup, Nat.card_Ico, Nat.add_sub_cancel] at hcard

lemma Holds.freeClusterChain (h : Holds g t s) (hok : ChainsOk g t (cs :: chains))
    (hlen : cs.length ≤ maxClusterChain) :
    Holds g (clear t cs) (fat32FreeClusterChain s (cs.head?.getD 0)).2 := by
  have hne := hok.nonempty _ mem_cons_self
  have hhas := hok.has _ mem_cons_self
  have hlinked := hok.linked _ mem_cons_self
  have hnodup : cs.Nodup := (nodup_append.1 (flatten_cons ▸ hok.nodup)).1
  have hsteps := length_le_totalClusters hhas hnodup
  have hgeo := h.geo
  subst hgeo
  cases cs with
  | nil => exact absurd rfl hne
  | cons c cs => exact h.freeFrom hhas hlinked hnodup (by omega) (by omega)

/-! ## Runs -/

variable {v : Volume} {call : Call}

/-- The table, the chains and what a call may have changed. -/
structure Outcome (t : ℕ → ℕ) (v : Volume) (op : Op) (v' : Volume) : Prop where
  geo : v'.sbi.geo = v.sbi.geo
  table : ∃ t', Synced v'.sbi t' ∧ ChainsOk v'.sbi.geo t' v'.chains ∧
    ∀ c, c ∉ op.chain v v' → t' c = t c
  chains : ∀ cs ∈ v.chains, (∀ c ∈ cs, c ∉ op.chain v v') → cs ∈ v'.chains

lemma Outcome.consistent {v' : Volume} {op : Op} (h : Outcome t v op v') : Consistent v' := by
  obtain ⟨t', hsync, hok, -⟩ := h.table
  exact ⟨t', hsync, hok⟩

lemma Outcome.confined {v' : Volume} {op : Op} (h : Outcome t v op v') (hsync : Synced v.sbi t) :
    Confined op v v' := by
  obtain ⟨_, hsync', -, hsame⟩ := h.table
  refine ⟨fun c hc hnot fat hfat => ?_, h.chains⟩
  rw [hsync.copies c hc fat hfat, hsync'.copies c (h.geo ▸ hc) fat (h.geo ▸ hfat), hsame c hnot]

lemma outcome_of_holds {op : Op} {s' : Sbi} {t' : ℕ → ℕ} {chains' : List (List ℕ)}
    (h : Holds v.sbi.geo t' s') (hok : ChainsOk v.sbi.geo t' chains')
    (hsame : ∀ c, c ∉ op.chain v ⟨s', chains'⟩ → t' c = t c)
    (hchains : ∀ cs ∈ v.chains, (∀ c ∈ cs, c ∉ op.chain v ⟨s', chains'⟩) → cs ∈ chains') :
    Outcome t v op ⟨s', chains'⟩ := by
  refine ⟨h.geo, ⟨t', h.synced, ?_, hsame⟩, hchains⟩
  rwa [h.geo]

section

variable (hsync : Synced v.sbi t) (hok : ChainsOk v.sbi.geo t v.chains) (hmem : call.Ready)

include hsync hok hmem

omit hok hmem in
/-- The driver at the start of a call. -/
lemma holds_of_synced (hmem : call.Ready) : Holds v.sbi.geo t { v.sbi with mem := call.mem } :=
  ⟨rfl, ⟨hsync.copies, hsync.cache⟩, hmem⟩

lemma outcome_start (hop : call.op = .start) : Outcome t v .start (exec step v call) := by
  simp only [exec, step, hop, getD_some]
  rcases (holds_of_synced hsync hmem).findFreeCluster with
    ⟨hzero, hnext⟩ | ⟨a, ha, hfree, hval, hnext⟩
  · rw [if_pos hzero]
    exact outcome_of_holds hnext hok (fun _ _ => rfl) fun cs hcs _ => hcs
  · have ha0 : a ≠ 0 := fun h0 => absurd (h0 ▸ ha.1) (by decide)
    rw [hval, if_neg ha0]
    refine outcome_of_holds hnext ?_ (fun c hc => ?_) fun cs hcs _ => ?_
    · exact (hok.start ha hfree).perm (perm_append_singleton _ _)
    · have hca : c ≠ a := by simpa [Op.chain] using hc
      exact update_of_ne hca _ _
    · exact mem_append_left _ hcs

lemma outcome_append {i : ℕ} (hop : call.op = .append i) :
    Outcome t v (.append i) (exec step v call) := by
  simp only [exec, step, hop]
  cases hi : v.chains[i]? with
  | none => exact ⟨rfl, ⟨t, hsync, hok, fun _ _ => rfl⟩, fun cs hcs _ => hcs⟩
  | some cs =>
    obtain ⟨hlt, hget⟩ := List.getElem?_eq_some_iff.1 hi
    have hperm : (cs :: v.chains.eraseIdx i).Perm v.chains :=
      hget ▸ getElem_cons_eraseIdx_perm hlt
    have hok' := hok.perm hperm
    have hne := hok'.nonempty cs mem_cons_self
    obtain ⟨ds, c, rfl⟩ : ∃ ds c, cs = ds ++ [c] :=
      ⟨cs.dropLast, cs.getLast hne, (dropLast_append_getLast hne).symm⟩
    have hlast : (ds ++ [c]).getLast?.getD 0 = c := by simp
    have hc : v.sbi.geo.Has c := hok'.has _ mem_cons_self c (by simp)
    simp only [getD_some, hlast]
    rcases (holds_of_synced hsync hmem).appendCluster hc with
      ⟨hzero, hnext⟩ | ⟨a, ha, hfree, hval, hnext⟩
    · rw [if_pos hzero]
      exact outcome_of_holds hnext hok (fun _ _ => rfl) fun cs hcs _ => hcs
    · have ha0 : a ≠ 0 := fun h0 => absurd (h0 ▸ ha.1) (by decide)
      rw [hval, if_neg ha0]
      have hset : (v.chains.set i (ds ++ [c] ++ [a])).Perm
          ((ds ++ [c, a]) :: v.chains.eraseIdx i) := by
        simpa using set_perm_cons_eraseIdx hlt (ds ++ [c] ++ [a])
      have hchain : ∀ s', Op.chain (.append i) v ⟨s', v.chains.set i (ds ++ [c] ++ [a])⟩
          = ds ++ [c] ++ [a] := fun s' => by
        simp [Op.chain, List.getElem?_set_self hlt]
      refine outcome_of_holds hnext ?_ (fun d hd => ?_) fun es hes hnot => ?_
      · exact (hok'.append ha hfree).perm hset
      · rw [hchain] at hd
        simp only [mem_append, mem_singleton, not_or] at hd
        simp [hd.1.2, hd.2]
      · -- a chain that keeps away from this one is another one
        rw [hchain] at hnot
        rcases mem_cons.1 (hperm.mem_iff.2 hes) with rfl | hmem
        · exact absurd (by simp) (hnot c (by simp))
        · exact hset.mem_iff.2 (mem_cons_of_mem _ hmem)

lemma outcome_free {i : ℕ} (hop : call.op = .free i) :
    Outcome t v (.free i) (exec step v call) := by
  have hidle : Outcome t v (.free i) v :=
    ⟨rfl, ⟨t, hsync, hok, fun _ _ => rfl⟩, fun cs hcs _ => hcs⟩
  simp only [exec, step, hop]
  cases hi : v.chains[i]? with
  | none => exact hidle
  | some cs =>
    by_cases hlen : cs.length ≤ maxClusterChain
    · simp only [if_pos hlen, getD_some]
      obtain ⟨hlt, hget⟩ := List.getElem?_eq_some_iff.1 hi
      have hperm : (cs :: v.chains.eraseIdx i).Perm v.chains :=
        hget ▸ getElem_cons_eraseIdx_perm hlt
      have hok' := hok.perm hperm
      have hnext := (holds_of_synced hsync hmem).freeClusterChain hok' hlen
      have hchain : ∀ v', Op.chain (.free i) v v' = cs := fun v' => by simp [Op.chain, hi]
      refine outcome_of_holds hnext hok'.free (fun c hc => ?_) fun es hes hnot => ?_
      · rw [hchain] at hc
        exact if_neg hc
      · rw [hchain] at hnot
        rcases mem_cons.1 (hperm.mem_iff.2 hes) with rfl | hmem
        · obtain ⟨c, hc⟩ := exists_mem_of_ne_nil _ (hok'.nonempty _ mem_cons_self)
          exact absurd hc (hnot c hc)
        · exact hmem
    · simp only [if_neg hlen]
      exact hidle

/-- Each call keeps the chains and the copies of the table while memory suffices. -/
lemma outcome : Outcome t v call.op (exec step v call) := by
  cases hop : call.op with
  | start => exact outcome_start hsync hok hmem hop
  | append i => exact outcome_append hsync hok hmem hop
  | free i => exact outcome_free hsync hok hmem hop

end

/-- **Cluster chains.** In a run in which every `kmalloc` succeeds, the chains stay
linked, disjoint and terminated, the cache and all copies of the table agree, and each
call changes its own chain only. -/
theorem chains_consistent (v : Volume) (hv : Consistent v) (calls : List Call)
    (hmem : ∀ call ∈ calls, call.Ready) :
    Consistent (run step v calls) ∧ ∀ call : Call, call.Ready →
      Confined call.op (run step v calls) (exec step (run step v calls) call) := by
  have hrun : Consistent (run step v calls) := by
    induction calls generalizing v with
    | nil => exact hv
    | cons call calls ih =>
      obtain ⟨t, hsync, hok⟩ := hv
      obtain ⟨hcall, hcalls⟩ := List.forall_mem_cons.1 hmem
      exact ih _ (outcome hsync hok hcall).consistent hcalls
  refine ⟨hrun, fun call hcall => ?_⟩
  obtain ⟨t, hsync, hok⟩ := hrun
  exact (outcome hsync hok hcall).confined hsync

/-- A volume of four clusters, all free, with two copies of the table and no cache. -/
def emptyVolume : Volume where
  sbi :=
    { geo := ⟨512, 2, 1, 32, 4, by decide, by decide, by decide, by decide, by decide⟩
      fatCache := none
      disk := fun _ _ => 0
      mem := fun _ => true }
  chains := []

lemma emptyVolume_consistent : Consistent emptyVolume := by
  refine ⟨fun _ => 0, ⟨fun c _ fat _ => ?_, fun cache hcache => ?_⟩, ?_⟩
  · have hslice : ∀ off, slice (fun _ => (0 : UInt8)) off 4 = [0, 0, 0, 0] := fun _ => rfl
    have hzero : clusterMask (ofLE [0, 0, 0, 0]) = 0 := by decide
    simp only [Sbi.entry, emptyVolume, getLE, hslice, hzero]
  · cases hcache
  · exact ⟨by simp [emptyVolume], by simp [emptyVolume], by simp [emptyVolume],
      nodup_nil, by simp [emptyVolume]⟩

theorem chains_consistent_emptyVolume :
    Consistent emptyVolume ∧ Consistent (run step emptyVolume
      [⟨.start, fun _ => true⟩, ⟨.append 0, fun _ => true⟩, ⟨.free 0, fun _ => true⟩]) :=
  ⟨emptyVolume_consistent,
    (chains_consistent emptyVolume emptyVolume_consistent _ (by simp [Call.Ready])).1⟩

/-- The second `kmalloc` of the first call fails, and cluster 2 is given out twice. -/
theorem not_consistent_emptyVolume : ¬ Consistent (run step emptyVolume
    [⟨.start, fun n => n == 0⟩, ⟨.start, fun _ => true⟩]) := by
  rintro ⟨t, -, hok⟩
  have hnodup := hok.nodup
  exact absurd hnodup (by decide)

end Aurora.Fat32
