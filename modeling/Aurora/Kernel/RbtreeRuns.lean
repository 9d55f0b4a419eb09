import Aurora.Kernel.RbtreeErase

/-!
# Runs of insertions and deletions

A history inserts nodes that are not in the tree and erases nodes that are; the
set of such nodes is carried along as `members`. Every history runs to the end and
leaves a red-black search tree with exactly the members. The main result reads the
balance conditions off the pointers.

## Main definitions

* `Op`, `runOps`: histories.
* `InTree`, `BlackPath`, `RbInvariants`: the red-black conditions on the pointers.
-/

namespace Aurora.Rbtree

open Lib.RedBlack Aurora.Lib.RedBlack.ColorTree List Option

/-! ## Histories -/

/-- An operation of a caller: insert node `a` with its key set to `key`, or erase `a`. -/
inductive Op
  | insert (a : Addr) (key : ℕ)
  | erase (a : Addr)
  deriving Repr

/-- The tree and the nodes inserted and not yet erased. -/
structure RunState where
  tree : RbTree
  members : List Label

/-- One operation. An insertion of a member and a deletion of a node that is not a
member are not operations of a history; they are skipped. -/
def applyOp (fuel : ℕ) (s : RunState) : Op → Option RunState
  | .insert a key =>
    if a ∈ s.members.map Label.addr then some s
    else (rbInsert fuel (s.tree.modify a ({ · with key := key })) a).map
      (⟨·, ⟨key, a⟩ :: s.members⟩)
  | .erase a =>
    match s.members.find? (·.addr = a) with
    | none => some s
    | some x => (rbErase fuel s.tree a).map (⟨·, s.members.erase x⟩)

/-- A history from the empty tree, over arbitrary node memory. -/
def runOps (fuel : ℕ) (memory : Addr → RbNode) (ops : List Op) : Option RunState :=
  ops.foldlM (applyOp fuel) ⟨rbInit ⟨memory, none, false⟩, []⟩

/-- The tree is a search tree with exactly the members. -/
structure RunOk (s : RunState) (T : ColorTree Label) : Prop where
  isTree : IsTree s.tree T
  members : T.toList.Perm s.members
  malformed : s.tree.malformed = false

variable {t : RbTree} {T : ColorTree Label}

lemma Rep.setKey {p : Option Addr} (h : Rep t.node p T) {a : Addr} (ha : a ∉ addrs T) (key : ℕ) :
    Rep (t.modify a ({ · with key := key })).node p T :=
  h.of_keeps (keeps_modify _ _ _) (by simpa using ha)

/-- The caller may set the key of a node outside the tree. -/
lemma IsTree.setKey (h : IsTree t T) {a : Addr} (ha : a ∉ addrs T) (key : ℕ) :
    IsTree (t.modify a ({ · with key := key })) T :=
  ⟨⟨h.represents.root, h.represents.rep.setKey ha key, h.represents.nodup⟩, h.balanced, h.sorted⟩

/-- One operation keeps the tree a search tree with exactly the members. -/
lemma applyOp_spec {fuel : ℕ} {s : RunState} (h : RunOk s T) (hfuel : s.members.length < fuel)
    (op : Op) :
    ∃ s' T', applyOp fuel s op = some s' ∧ RunOk s' T' ∧
      s'.members.length ≤ s.members.length + 1 := by
  have haddrs : (addrs T).Perm (s.members.map Label.addr) := h.members.map _
  have hlen : T.toList.length < fuel := by rwa [h.members.length_eq]
  cases op with
  | insert a key =>
    by_cases ha : a ∈ s.members.map Label.addr
    · exact ⟨s, T, by rw [applyOp, if_pos ha], h, Nat.le_succ _⟩
    · have haT : a ∉ addrs T := fun hv => ha (haddrs.mem_iff.1 hv)
      obtain ⟨t', T', hins, htree, hperm, hmal⟩ :=
        rbInsert_spec (x := ⟨key, a⟩) (h.isTree.setKey haT key) haT (by simp) hlen
      refine ⟨⟨t', ⟨key, a⟩ :: s.members⟩, T', ?_, ⟨htree, ?_, ?_⟩, by simp⟩
      · rw [applyOp, if_neg ha, hins]
        rfl
      · exact hperm.trans (h.members.cons _)
      · exact hmal.trans h.malformed
  | erase a =>
    cases hfind : s.members.find? (·.addr = a) with
    | none => exact ⟨s, T, by rw [applyOp, hfind], h, Nat.le_succ _⟩
    | some x =>
      have hmem : x ∈ s.members := mem_of_find?_eq_some hfind
      obtain rfl : x.addr = a := by simpa using find?_some hfind
      obtain ⟨t', T', herase, htree, hperm, hmal⟩ :=
        rbErase_spec h.isTree (h.members.mem_iff.2 hmem) hlen
      refine ⟨⟨t', s.members.erase x⟩, T', ?_, ⟨htree, ?_, hmal.trans h.malformed⟩, ?_⟩
      · rw [applyOp, hfind]
        simp only [herase, map_some]
      · exact (cons_perm_iff_perm_erase.1 (hperm.symm.trans h.members)).2
      · exact Nat.le_trans length_erase_le (Nat.le_succ _)

lemma runOk_init (memory : Addr → RbNode) : RunOk ⟨rbInit ⟨memory, none, false⟩, []⟩ nil :=
  ⟨⟨⟨rfl, trivial, nodup_nil⟩, ⟨0, rfl⟩, List.Pairwise.nil⟩, .nil, rfl⟩

/-- **Every history runs to the end**, in a search tree with exactly the members. -/
lemma runOps_spec (memory : Addr → RbNode) {ops : List Op} {fuel : ℕ} (hfuel : ops.length < fuel) :
    ∃ s T, runOps fuel memory ops = some s ∧ RunOk s T ∧ s.members.length < fuel := by
  have hrun : ∀ (ops : List Op) (s : RunState) (T : ColorTree Label), RunOk s T →
      s.members.length + ops.length < fuel →
      ∃ s' T', ops.foldlM (applyOp fuel) s = some s' ∧ RunOk s' T' ∧ s'.members.length < fuel := by
    intro ops
    induction ops with
    | nil =>
      intro s T h hlen
      exact ⟨s, T, rfl, h, by simpa using hlen⟩
    | cons op ops ih =>
      intro s T h hlen
      simp only [length_cons] at hlen
      obtain ⟨s1, T1, hop, h1, hlen1⟩ := applyOp_spec h (show s.members.length < fuel by omega) op
      obtain ⟨s2, T2, hops, h2, hlen2⟩ := ih s1 T1 h1 (by omega)
      exact ⟨s2, T2, by rwa [foldlM_cons, hop], h2, hlen2⟩
  exact hrun ops _ nil (runOk_init memory) (by simpa using hfuel)

/-! ## The red-black conditions on the pointers -/

/-- The nodes reached from the root through child pointers. -/
inductive InTree (t : RbTree) : Addr → Prop
  | root {a} : t.root = some a → InTree t a
  | child {a d b} : InTree t a → (t.node a).child d = some b → InTree t b

/-- A path from a pointer down to a null pointer that meets `n` black nodes. -/
inductive BlackPath (t : RbTree) : Option Addr → ℕ → Prop
  | leaf : BlackPath t none 0
  | red {a d n} : (t.node a).color = .red → BlackPath t ((t.node a).child d) n →
      BlackPath t (some a) n
  | black {a d n} : (t.node a).color = .black → BlackPath t ((t.node a).child d) n →
      BlackPath t (some a) (n + 1)

/-- The red-black conditions, and that no exit for malformed trees was taken. -/
structure RbInvariants (t : RbTree) : Prop where
  rootBlack : ∀ a, t.root = some a → (t.node a).color = .black
  rootParent : ∀ a, t.root = some a → (t.node a).parent = none
  noRedRed : ∀ a d b, InTree t a → (t.node a).color = .red → (t.node a).child d = some b →
    (t.node b).color = .black
  blackHeight : ∃ n, ∀ m, BlackPath t t.root m ↔ m = n
  parent : ∀ a d b, InTree t a → (t.node a).child d = some b → (t.node b).parent = some a
  wellFormed : t.malformed = false

/-- The child of a represented node is the root of a subtree. -/
lemma HoldsAt.child {ctx : List (Frame Label)} {c : Color} {l r : ColorTree Label} {x : Label}
    (h : HoldsAt t ctx (node c l x r)) {d : Dir} {b : Addr}
    (hb : (t.node x.addr).child d = some b) :
    ∃ ctx' c' l' y r', y.addr = b ∧ HoldsAt t (⟨d, c, x, ctx'⟩ :: ctx) (node c' l' y r') ∧
      bin d c (node c' l' y r') x ctx' = node c l x r := by
  obtain ⟨near, far, heq⟩ := node_eq_bin d c l x r
  rw [heq] at h ⊢
  rw [h.child_eq] at hb
  match near, hb with
  | node c' l' y r', hb => exact ⟨far, c', l', y, r', some.inj hb, h.near, rfl⟩

/-- Reachable nodes are the nodes of the represented tree. -/
lemma InTree.exists_holdsAt (h : Represents t T) {a : Addr} (ha : InTree t a) :
    ∃ ctx c l x r, x.addr = a ∧ HoldsAt t ctx (node c l x r) ∧ plug ctx (node c l x r) = T := by
  induction ha with
  | root hroot =>
    rw [h.root] at hroot
    match T, h, hroot with
    | node c l x r, h, hroot =>
      exact ⟨[], c, l, x, r, some.inj hroot, represents_plug.1 h, rfl⟩
  | child _ hchild ih =>
    obtain ⟨ctx, c, l, x, r, rfl, hat, hplug⟩ := ih
    obtain ⟨s, c', l', y, r', hy, hat', hbin⟩ := hat.child hchild
    exact ⟨_, c', l', y, r', hy, hat', by rw [plug_cons, hbin, hplug]⟩

/-- Paths through a balanced subtree meet its black height. -/
lemma blackPath_iff {p : Option Addr} (h : Rep t.node p T) {q : Color} {n : ℕ} (hT : Below q n T)
    (m : ℕ) : BlackPath t (ptr T) m ↔ m = n := by
  induction T generalizing p q n m with
  | nil =>
    rw [(below_nil q n).1 hT]
    constructor
    · rintro ⟨⟩
      rfl
    · rintro rfl
      exact .leaf
  | node c l x r ihl ihr =>
    obtain ⟨hx, hl, hr⟩ := h
    have hdown : ∀ {q k}, Below q k l → Below q k r → ∀ d j,
        BlackPath t ((t.node x.addr).child d) j ↔ j = k := by
      intro q k hl' hr' d j
      rw [hx]
      cases d
      · exact ihl hl hl' j
      · exact ihr hr hr' j
    have hcolor : (t.node x.addr).color = c := by rw [hx]
    cases c with
    | red =>
      obtain ⟨-, hl', hr'⟩ := hT
      constructor
      · intro hpath
        cases hpath with
        | red _ hpath => exact (hdown hl' hr' _ _).1 hpath
        | black hblack _ => rw [hcolor] at hblack; cases hblack
      · intro hm
        exact .red (d := .left) hcolor ((hdown hl' hr' _ _).2 hm)
    | black =>
      obtain ⟨k, rfl, hl', hr'⟩ : ∃ k, n = k + 1 ∧ Below .black k l ∧ Below .black k r :=
        (below_bin_black q n .left l x r).1 hT
      constructor
      · intro hpath
        cases hpath with
        | red hred _ => rw [hcolor] at hred; cases hred
        | black _ hpath => rw [(hdown hl' hr' _ _).1 hpath]
      · rintro rfl
        exact .black (d := .left) hcolor ((hdown hl' hr' _ _).2 rfl)

lemma rbInvariants_of_isTree (h : IsTree t T) (hmal : t.malformed = false) : RbInvariants t := by
  obtain ⟨n, hn⟩ := h.balanced
  refine ⟨?_, ?_, ?_, ⟨n, fun m => ?_⟩, ?_, hmal⟩
  · intro a ha
    rw [h.represents.root] at ha
    match T, hn, h.represents.rep, ha with
    | node .black l x r, _, hrep, ha =>
      rw [← some.inj ha, hrep.1]
  · intro a ha
    rw [h.represents.root] at ha
    match T, h.represents.rep, ha with
    | node c l x r, hrep, ha => rw [← some.inj ha, hrep.1]
  · intro a d b ha hred hchild
    obtain ⟨ctx, c, l, x, r, rfl, hat, hplug⟩ := ha.exists_holdsAt h.represents
    obtain ⟨s, c', l', y, r', rfl, hat', hbin⟩ := hat.child hchild
    have hc : c = .red := by rw [← hred, hat.sub.1]
    obtain ⟨k, -, hbelow⟩ := exists_fits (hplug ▸ h.balanced)
    rw [← hbin, hc, below_bin_red] at hbelow
    rw [hat'.sub.1]
    cases c' with
    | red => cases hbelow.2.1.1
    | black => rfl
  · rw [h.represents.root]
    exact blackPath_iff h.represents.rep hn m
  · intro a d b ha hchild
    obtain ⟨ctx, c, l, x, r, rfl, hat, hplug⟩ := ha.exists_holdsAt h.represents
    obtain ⟨s, c', l', y, r', rfl, hat', -⟩ := hat.child hchild
    rw [hat'.sub.1]
    rfl

/-- **Red-black invariants.** After every history the pointers form a red-black
tree with consistent parent pointers, and no exit for malformed trees was taken. -/
theorem runOps_rbInvariants (memory : Addr → RbNode) (ops : List Op) (fuel : ℕ)
    (hfuel : ops.length < fuel) :
    ∃ s, runOps fuel memory ops = some s ∧ RbInvariants s.tree := by
  obtain ⟨s, T, hrun, hok, -⟩ := runOps_spec memory hfuel
  exact ⟨s, hrun, rbInvariants_of_isTree hok.isTree hok.malformed⟩

/-- A history that inserts four nodes, two with equal keys, and erases an inner one. -/
def sampleOps : List Op := [.insert 3 10, .insert 1 10, .insert 2 5, .insert 4 20, .erase 3]

theorem runOps_rbInvariants_sample :
    ∃ s, runOps 6 (fun _ => default) sampleOps = some s ∧ RbInvariants s.tree :=
  runOps_rbInvariants (fun _ => default) sampleOps 6 (by decide)

end Aurora.Rbtree
