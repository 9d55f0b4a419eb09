import Aurora.Kernel.RbtreeRuns

/-!
# The tree as a sorted set

What the searches of `rbtree.c` see of a represented tree: `rb_first` and `rb_next`
enumerate its labels in order, and `rb_find` finds a key exactly when some label has
it.

## Main definitions

* `inorder`: the in-order traversal of the pointers.
* `rbWalk`: `rb_first`, then `rb_next` until it returns null.
* `SortedSet`, `runOps_sorted`: both are the sorted members, after every history.
-/

namespace Aurora.Rbtree

open Lib.RedBlack Aurora.Lib.RedBlack.ColorTree List

/-- The in-order traversal of the subtree at a pointer. -/
def inorder (t : RbTree) : ℕ → Option Addr → Option (List Addr)
  | _, none => some []
  | 0, some _ => none
  | fuel + 1, some a => do
    let l ← inorder t fuel (t.node a).left
    let r ← inorder t fuel (t.node a).right
    some (l ++ a :: r)

/-- `rb_next` from a pointer until it returns null. -/
def walkFrom (fuel : ℕ) (t : RbTree) : ℕ → Option Addr → Option (List Addr)
  | _, none => some []
  | 0, some _ => none
  | n + 1, some a => do
    let next ← rbNext fuel t a
    let rest ← walkFrom fuel t n next
    some (a :: rest)

/-- `rb_first`, then `rb_next` until it returns null. -/
def rbWalk (fuel : ℕ) (t : RbTree) : Option (List Addr) := do
  let first ← rbFirst fuel t
  walkFrom fuel t fuel first

variable {t : RbTree} {ctx : List (Frame Label)} {c : Color} {l r : ColorTree Label} {x : Label}

variable {T : ColorTree Label} {fuel : ℕ}

lemma inorder_eq {p : Option Addr} (h : Rep t.node p T) (hfuel : T.toList.length ≤ fuel) :
    inorder t fuel (ptr T) = some (addrs T) := by
  induction T generalizing p fuel with
  | nil => cases fuel <;> rfl
  | node c l x r ihl ihr =>
    obtain ⟨hx, hl, hr⟩ := h
    simp only [toList, length_append, length_cons] at hfuel
    obtain ⟨fuel, rfl⟩ : ∃ k, fuel = k + 1 := ⟨fuel - 1, by omega⟩
    have hleft := ihl hl (show l.toList.length ≤ fuel by omega)
    have hright := ihr hr (show r.toList.length ≤ fuel by omega)
    rw [ptr, inorder, hx]
    simp [hleft, hright, addrs, toList]

/-- The leftmost node of a subtree is its first label. -/
lemma leftmost_eq_head (h : HoldsAt t ctx (node c l x r)) (hfuel : l.toList.length < fuel) :
    (leftmost t fuel x.addr).map some = some ((node c l x r).toList.head?.map Label.addr) := by
  obtain ⟨_, cy, y, X, hmost, hplug, hleft⟩ := leftmost_spec h hfuel
  rw [hmost, hplug, toList_plug_left hleft cy cy]
  rfl

/-- The climb of `rb_next` ends at the first label to the right of the context. -/
lemma climb_eq (h : HoldsAt t ctx (node c l x r)) (hfuel : ctx.length < fuel) :
    climb t fuel x.addr (parentOf ctx) = some ((after ctx).head?.map Label.addr) := by
  induction ctx generalizing c l x r fuel with
  | nil =>
    obtain ⟨fuel, rfl⟩ := Nat.exists_eq_add_of_lt hfuel
    rfl
  | cons f fs ih =>
    simp only [length_cons] at hfuel
    obtain ⟨fuel, rfl⟩ := Nat.exists_eq_add_of_lt hfuel
    obtain ⟨d, fc, y, s⟩ := f
    have hup : HoldsAt t fs (bin d fc (node c l x r) y s) := h.up
    have hnode : t.node y.addr = dnode d fc (parentOf fs) (some x.addr) (ptr s) y.key := hup.node_eq
    rw [parentOf_cons, climb]
    cases d with
    | left =>
      rw [if_neg (by rw [hnode]; exact HoldsAt.ptr_ne_sib (d := .left) h)]
      rfl
    | right =>
      rw [if_pos (by rw [hnode]; rfl), hnode]
      exact ih hup (by omega)

/-- `rb_next` is the next label. -/
lemma rbNext_eq (h : HoldsAt t ctx (node c l x r)) (hctx : ctx.length < fuel)
    (hr : r.toList.length < fuel) :
    rbNext fuel t x.addr = some ((r.toList ++ after ctx).head?.map Label.addr) := by
  have hnode : t.node x.addr = ⟨c, parentOf ctx, ptr l, ptr r, x.key⟩ := h.sub.1
  have hfar : HoldsAt t (⟨.right, c, x, l⟩ :: ctx) r := HoldsAt.far (d := .left) h
  rw [rbNext, hnode]
  cases r with
  | nil => exact climb_eq h hctx
  | node rc rl rx rr =>
    have hlen : rl.toList.length < fuel := by
      simp only [toList, length_append, length_cons] at hr
      omega
    have hmost := leftmost_eq_head hfar hlen
    have hhead : ((node rc rl rx rr).toList ++ after ctx).head? =
      (node rc rl rx rr).toList.head? := by
      cases hl : rl.toList <;> simp [toList, hl]
    rwa [hhead]

/-- Walking with `rb_next` lists the labels from any of them on. -/
lemma walkFrom_eq (h : Represents t T) (hfuel : T.toList.length < fuel) (l1 l2 : List Label)
    (hT : T.toList = l1 ++ l2) {n : ℕ} (hn : l2.length ≤ n) :
    walkFrom fuel t n (l2.head?.map Label.addr) = some (l2.map Label.addr) := by
  induction l2 generalizing l1 n with
  | nil => cases n <;> rfl
  | cons x rest ih =>
    obtain ⟨n, rfl⟩ : ∃ k, n = k + 1 := ⟨n - 1, by simp only [length_cons] at hn; omega⟩
    obtain ⟨ctx, c, l, r, hplug⟩ : ∃ ctx c l r, T = plug ctx (node c l x r) :=
      exists_plug_of_mem (by rw [hT]; simp)
    have hat : HoldsAt t ctx (node c l x r) := represents_plug.1 (hplug ▸ h)
    -- the label occurs once, so the two splittings of the list agree
    have hlist : T.toList = (before ctx ++ l.toList) ++ x :: (r.toList ++ after ctx) := by
      rw [hplug, toList_plug]
      simp [toList]
    have hnd : T.toList.Nodup := h.nodup.of_map _
    have hrest : rest = r.toList ++ after ctx := by
      rw [hT] at hlist hnd
      have hx1 : x ∉ l1 := by
        rw [nodup_append'] at hnd
        exact fun hx => hnd.2.2 hx mem_cons_self
      have hx2 : x ∉ rest := by
        rw [nodup_append', nodup_cons] at hnd
        exact hnd.2.1.1
      exact ((append_cons_inj_of_notMem hx1 hx2).1 hlist).2.2
    have hlen := congrArg List.length hlist
    simp only [length_append, length_cons] at hlen
    have hctxlen := length_le_toList_plug ctx (node c l x r)
    rw [← hplug] at hctxlen
    have hnext := rbNext_eq hat (show ctx.length < fuel by omega) (by omega)
    rw [← hrest] at hnext
    have hwalk := ih (l1 ++ [x]) (by simpa using hT) (n := n)
      (by simp only [length_cons] at hn; omega)
    simp [List.head?_cons, Option.map_some, walkFrom, hnext, hwalk, map_cons]

lemma rbWalk_eq (h : Represents t T) (hfuel : T.toList.length < fuel) :
    rbWalk fuel t = some (addrs T) := by
  have hfirst : rbFirst fuel t = some (T.toList.head?.map Label.addr) := by
    rw [rbFirst, rbFindMin, h.root]
    cases T with
    | nil => rfl
    | node c l x r =>
      simp only [toList, length_append, length_cons] at hfuel
      exact leftmost_eq_head h.holdsAt (by omega)
  rw [rbWalk, hfirst]
  exact walkFrom_eq h hfuel [] T.toList rfl (by omega)

/-- `rb_find` answers for the keys of the labels. -/
lemma findLoop_spec {p : Option Addr} (h : Rep t.node p T) (hsorted : T.toList.Pairwise labelLt)
    (key : ℕ) (hfuel : T.toList.length < fuel) :
    ∃ res, findLoop t key fuel (ptr T) = some res ∧
      (∀ a, res = some a → ⟨key, a⟩ ∈ T.toList) ∧ (res = none → ∀ y ∈ T.toList, y.key ≠ key) := by
  induction T generalizing p fuel with
  | nil =>
    obtain ⟨fuel, rfl⟩ := Nat.exists_eq_add_of_lt hfuel
    exact ⟨none, rfl, by simp, by simp [toList]⟩
  | node c l x r ihl ihr =>
    obtain ⟨hx, hl, hr⟩ := h
    simp only [toList, length_append, length_cons] at hfuel
    obtain ⟨fuel, rfl⟩ : ∃ k, fuel = k + 1 := ⟨fuel - 1, by omega⟩
    simp only [toList, pairwise_append, pairwise_cons] at hsorted
    obtain ⟨hsl, ⟨hxr, hsr⟩, hlr⟩ := hsorted
    -- keys are weakly sorted, so the other side cannot hold the key
    have hkl : ∀ y ∈ l.toList, y.key ≤ x.key := fun y hy => by
      obtain hlt | heq := hlr y hy x mem_cons_self
      · exact Nat.le_of_lt hlt
      · exact Nat.le_of_eq heq.1
    have hkr : ∀ y ∈ r.toList, x.key ≤ y.key := fun y hy => by
      obtain hlt | heq := hxr y hy
      · exact Nat.le_of_lt hlt
      · exact Nat.le_of_eq heq.1
    have hkey : (t.node x.addr).key = x.key := by rw [hx]
    have hmem : ∀ y, y ∈ (node c l x r).toList ↔ y ∈ l.toList ∨ y = x ∨ y ∈ r.toList := by
      simp [toList]
    rw [ptr, findLoop, hkey]
    by_cases hlt : key < x.key
    · rw [if_pos hlt, hx]
      obtain ⟨res, hloop, hfound, hnone⟩ := ihl hl hsl (show l.toList.length < fuel by omega)
      refine ⟨res, hloop, fun a ha => (hmem _).2 (.inl (hfound a ha)), fun hres y hy => ?_⟩
      obtain hy | rfl | hy := (hmem y).1 hy
      · exact hnone hres y hy
      · omega
      · have := hkr y hy
        omega
    · rw [if_neg hlt]
      by_cases hgt : key > x.key
      · rw [if_pos hgt, hx]
        obtain ⟨res, hloop, hfound, hnone⟩ := ihr hr hsr (show r.toList.length < fuel by omega)
        refine ⟨res, hloop, fun a ha => (hmem _).2 (.inr (.inr (hfound a ha))),
          fun hres y hy => ?_⟩
        obtain hy | rfl | hy := (hmem y).1 hy
        · have := hkl y hy
          omega
        · omega
        · exact hnone hres y hy
      · rw [if_neg hgt]
        refine ⟨some x.addr, rfl, fun a ha => (hmem _).2 (.inr (.inl ?_)),
          fun hres => by cases hres⟩
        cases ha
        have heq : key = x.key := by omega
        rw [heq]

/-- What the searches of `rbtree.c` see in a state: the members as the list `L`. -/
structure SortedSet (fuel : ℕ) (s : RunState) (L : List Label) : Prop where
  /-- Strictly sorted by key, then address. -/
  sorted : L.Pairwise labelLt
  /-- Exactly the nodes inserted and not yet erased, each with the key it was inserted with. -/
  members : L.Perm s.members
  keys : ∀ x ∈ L, (s.tree.node x.addr).key = x.key
  /-- The in-order traversal of the pointers. -/
  inorder : inorder s.tree fuel s.tree.root = some (L.map Label.addr)
  /-- `rb_first` and `rb_next` visit the list and then return null. -/
  walk : rbWalk fuel s.tree = some (L.map Label.addr)
  /-- `rb_find` returns a member with the key exactly when there is one. -/
  find : ∀ key, ∃ res, rbFind fuel s.tree key = some res ∧
    (∀ a, res = some a → ⟨key, a⟩ ∈ s.members) ∧ (res.isSome ↔ ∃ x ∈ s.members, x.key = key)

lemma sortedSet_of_runOk {s : RunState} (h : RunOk s T) (hfuel : s.members.length < fuel) :
    SortedSet fuel s T.toList := by
  have hrep := h.isTree.represents
  have hlen : T.toList.length < fuel := by rwa [h.members.length_eq]
  refine ⟨h.isTree.sorted, h.members, ?_, ?_, rbWalk_eq hrep hlen, ?_⟩
  · intro x hx
    obtain ⟨ctx, c, l, r, hplug⟩ := exists_plug_of_mem hx
    have hat : HoldsAt s.tree ctx (node c l x r) := represents_plug.1 (hplug ▸ hrep)
    rw [hat.sub.1]
  · rw [hrep.root]
    exact inorder_eq hrep.rep (by omega)
  · intro key
    obtain ⟨res, hfind, hfound, hnone⟩ := findLoop_spec hrep.rep h.isTree.sorted key hlen
    refine ⟨res, by rwa [rbFind, hrep.root],
      fun a ha => h.members.mem_iff.1 (hfound a ha), ?_⟩
    constructor
    · intro hsome
      obtain ⟨a, ha⟩ := Option.isSome_iff_exists.1 hsome
      exact ⟨⟨key, a⟩, h.members.mem_iff.1 (hfound a ha), rfl⟩
    · rintro ⟨x, hx, hkey⟩
      by_contra hres
      rw [Bool.not_eq_true, Option.isSome_eq_false_iff, Option.isNone_iff_eq_none] at hres
      exact hnone hres x (h.members.mem_iff.2 hx) hkey

/-- **The tree is a sorted set**, after every history. -/
theorem runOps_sorted (memory : Addr → RbNode) (ops : List Op) (fuel : ℕ)
    (hfuel : ops.length < fuel) :
    ∃ s L, runOps fuel memory ops = some s ∧ SortedSet fuel s L := by
  obtain ⟨s, T, hrun, hok, hlen⟩ := runOps_spec memory hfuel
  exact ⟨s, T.toList, hrun, sortedSet_of_runOk hok hlen⟩

theorem runOps_sorted_sample :
    ∃ s L, runOps 6 (fun _ => default) sampleOps = some s ∧ SortedSet 6 s L :=
  runOps_sorted (fun _ => default) sampleOps 6 (by decide)

/-- The members of `sampleOps` in order: node 2 with key 5, node 1 with key 10, node 4. -/
example : (runOps 6 (fun _ => default) sampleOps).bind (rbWalk 6 ·.tree) = some [2, 1, 4] := by
  decide

end Aurora.Rbtree
