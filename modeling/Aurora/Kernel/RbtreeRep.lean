import Aurora.Kernel.Rbtree

/-!
# Node memory and red-black trees

`Represents t T` says that the pointers of `t` spell out the tree `T` of labels:
colours, child pointers, parent pointers and keys. The primitive writes of
`rbtree.c` are then described at a position of the tree, a context together with
the subtree in its hole: recolouring a node, a rotation, the replacement of a
subtree by one of its children.

## Main definitions

* `Label`: what a node contributes to the tree: its key and its address.
* `Rep`, `RepCtx`, `Represents`, `HoldsAt`: memory represents a subtree, a context, a
  tree, a tree with a focus.
* `Keeps`: memory outside a set of addresses is as it was.
-/

namespace Aurora.Rbtree

open Lib.RedBlack Aurora.Lib.RedBlack.ColorTree Function

/-- A node in the tree: its key and its address. -/
structure Label where
  key : ℕ
  addr : Addr
  deriving DecidableEq, Repr

/-- The pointer to a subtree. -/
def ptr : ColorTree Label → Option Addr
  | nil => none
  | node _ _ x _ => some x.addr

@[simp] lemma ptr_nil : ptr nil = none := rfl

@[simp] lemma ptr_bin (d : Dir) (c : Color) (a : ColorTree Label) (x : Label)
    (b : ColorTree Label) :
    ptr (bin d c a x b) = some x.addr := by cases d <;> rfl

/-- The addresses of a subtree. -/
def addrs (t : ColorTree Label) : List Addr := t.toList.map Label.addr

@[simp] lemma addrs_nil : addrs nil = [] := rfl

variable {d : Dir} {c : Color} {a b : ColorTree Label} {x : Label}

@[simp] lemma mem_addrs_bin {v : Addr} :
    v ∈ addrs (bin d c a x b) ↔ v = x.addr ∨ v ∈ addrs a ∨ v ∈ addrs b := by
  cases d <;> simp only [addrs, bin, toList, List.map_append, List.map_cons, List.mem_append,
    List.mem_cons] <;> tauto

lemma mem_addrs_node {v : Addr} :
    v ∈ addrs (node c a x b) ↔ v = x.addr ∨ v ∈ addrs a ∨ v ∈ addrs b :=
  mem_addrs_bin (d := .left)

lemma mem_addrs_of_ptr {T : ColorTree Label} {v : Addr} (h : ptr T = some v) : v ∈ addrs T := by
  cases T with
  | nil => cases h
  | node c l x r => exact mem_addrs_node.2 (.inl (Option.some.inj h).symm)

lemma nodup_addrs_bin : (addrs (bin d c a x b)).Nodup ↔
      x.addr ∉ addrs a ∧ x.addr ∉ addrs b ∧ (addrs a).Nodup ∧ (addrs b).Nodup ∧
        (addrs a).Disjoint (addrs b) := by
  cases d <;> simp only [addrs, bin, toList, List.map_append, List.map_cons, List.nodup_append',
    List.nodup_cons, List.disjoint_cons_right]
  · tauto
  · rw [List.disjoint_comm]
    tauto

/-! ## A node seen from a direction -/

/-- A node record with the child `near` on side `d`. -/
def dnode (d : Dir) (c : Color) (p near far : Option Addr) (key : ℕ) : RbNode :=
  match d with
  | .left => ⟨c, p, near, far, key⟩
  | .right => ⟨c, p, far, near, key⟩

section dnode

variable (d : Dir) (c : Color) (p near far v : Option Addr) (key : ℕ)

@[simp] lemma dnode_color : (dnode d c p near far key).color = c := by cases d <;> rfl

@[simp] lemma dnode_parent : (dnode d c p near far key).parent = p := by cases d <;> rfl

@[simp] lemma dnode_key : (dnode d c p near far key).key = key := by cases d <;> rfl

@[simp] lemma child_dnode : (dnode d c p near far key).child d = near := by cases d <;> rfl

@[simp] lemma child_flip_dnode : (dnode d c p near far key).child d.flip = far := by
  cases d <;> rfl

@[simp] lemma withChild_dnode :
    (dnode d c p near far key).withChild d v = dnode d c p v far key := by cases d <;> rfl

@[simp] lemma withChild_flip_dnode :
    (dnode d c p near far key).withChild d.flip v = dnode d c p near v key := by cases d <;> rfl

@[simp] lemma withParent_dnode :
    { dnode d c p near far key with parent := v } = dnode d c v near far key := by
  cases d <;> rfl

@[simp] lemma withColor_dnode (c' : Color) :
    { dnode d c p near far key with color := c' } = dnode d c' p near far key := by
  cases d <;> rfl

end dnode

/-! ## Representation -/

/-- Memory `m` holds the subtree below the parent pointer `p`. -/
def Rep (m : Addr → RbNode) : Option Addr → ColorTree Label → Prop
  | _, nil => True
  | p, node c l x r =>
    m x.addr = ⟨c, p, ptr l, ptr r, x.key⟩ ∧ Rep m (some x.addr) l ∧ Rep m (some x.addr) r

variable {m : Addr → RbNode} {p : Option Addr}

lemma rep_bin : Rep m p (bin d c a x b) ↔
      m x.addr = dnode d c p (ptr a) (ptr b) x.key ∧ Rep m (some x.addr) a ∧
        Rep m (some x.addr) b := by
  cases d
  · rfl
  · exact and_congr_right fun _ => and_comm

/-- The pointer to the innermost frame. -/
def parentOf : List (Frame Label) → Option Addr
  | [] => none
  | f :: _ => some f.label.addr

@[simp] lemma parentOf_cons (f : Frame Label) (fs : List (Frame Label)) :
    parentOf (f :: fs) = some f.label.addr := rfl

/-- Memory holds the context, with the pointer `hole` where the hole is. -/
def RepCtx (m : Addr → RbNode) (root : Option Addr) : Option Addr → List (Frame Label) → Prop
  | hole, [] => root = hole
  | hole, f :: fs =>
    m f.label.addr = dnode f.dir f.color (parentOf fs) hole (ptr f.sib) f.label.key ∧
      Rep m (some f.label.addr) f.sib ∧ RepCtx m root (some f.label.addr) fs

/-- The addresses of a context. -/
def ctxAddrs : List (Frame Label) → List Addr
  | [] => []
  | f :: fs => f.label.addr :: addrs f.sib ++ ctxAddrs fs

@[simp] lemma ctxAddrs_nil : ctxAddrs [] = [] := rfl

@[simp] lemma ctxAddrs_cons (f : Frame Label) (fs : List (Frame Label)) :
    ctxAddrs (f :: fs) = f.label.addr :: addrs f.sib ++ ctxAddrs fs := rfl

/-- The pointers of `t` spell out the tree `T`. -/
structure Represents (t : RbTree) (T : ColorTree Label) : Prop where
  root : t.root = ptr T
  rep : Rep t.node none T
  nodup : (addrs T).Nodup

/-- The pointers of `t` spell out the context `ctx` with `T` in its hole. -/
structure HoldsAt (t : RbTree) (ctx : List (Frame Label)) (T : ColorTree Label) : Prop where
  context : RepCtx t.node t.root (ptr T) ctx
  sub : Rep t.node (parentOf ctx) T
  nodup : (addrs T).Nodup
  nodupCtx : (ctxAddrs ctx).Nodup
  disjoint : (ctxAddrs ctx).Disjoint (addrs T)

variable {t : RbTree} {T : ColorTree Label}

/-- Moving the focus one frame up. -/
lemma holdsAt_cons {f : Frame Label} {fs : List (Frame Label)} :
    HoldsAt t (f :: fs) T ↔ HoldsAt t fs (bin f.dir f.color T f.label f.sib) := by
  constructor
  · rintro ⟨⟨hf, hsib, hctx⟩, hsub, hnd, hndc, hdis⟩
    simp only [ctxAddrs_cons, List.cons_append, List.nodup_cons, List.nodup_append',
      List.mem_append, not_or, List.disjoint_cons_left, List.disjoint_append_left] at hndc hdis
    refine ⟨by simpa using hctx, rep_bin.2 ⟨hf, hsub, hsib⟩,
      nodup_addrs_bin.2 ⟨hdis.1, hndc.1.1, hnd, hndc.2.1,
        fun _ hT hS => hdis.2.1 hS hT⟩, hndc.2.2.1, ?_⟩
    intro v hv hmem
    rw [mem_addrs_bin] at hmem
    obtain rfl | hT | hS := hmem
    · exact hndc.1.2 hv
    · exact hdis.2.2 hv hT
    · exact hndc.2.2.2 hS hv
  · rintro ⟨hctx, hsub, hnd, hndc, hdis⟩
    obtain ⟨hf, hT, hsib⟩ := rep_bin.1 hsub
    obtain ⟨hxT, hxS, hndT, hndS, hTS⟩ := nodup_addrs_bin.1 hnd
    have hmem : ∀ v ∈ ctxAddrs fs, v ≠ f.label.addr ∧ v ∉ addrs T ∧ v ∉ addrs f.sib := by
      intro v hv
      have hnot := hdis hv
      rw [mem_addrs_bin] at hnot
      tauto
    refine ⟨⟨hf, hsib, by simpa using hctx⟩, hT, hndT, ?_, ?_⟩
    · simp only [ctxAddrs_cons, List.cons_append, List.nodup_cons, List.nodup_append',
        List.mem_append, not_or]
      exact ⟨⟨hxS, fun h => (hmem _ h).1 rfl⟩, hndS, hndc, fun v hS hv => (hmem v hv).2.2 hS⟩
    · simp only [ctxAddrs_cons, List.cons_append, List.disjoint_cons_left,
        List.disjoint_append_left]
      exact ⟨hxT, fun _ hS hT => hTS hT hS, fun v hv => (hmem v hv).2.1⟩

variable {ctx : List (Frame Label)}

/-- A tree with a focus is a tree. -/
lemma represents_plug : Represents t (plug ctx T) ↔ HoldsAt t ctx T := by
  induction ctx generalizing T with
  | nil =>
    constructor
    · rintro ⟨hroot, hrep, hnd⟩
      exact ⟨hroot, hrep, hnd, List.nodup_nil, List.disjoint_nil_left _⟩
    · rintro ⟨hctx, hsub, hnd, -, -⟩
      exact ⟨hctx, hsub, hnd⟩
  | cons f _ ih => rw [plug_cons, ih, holdsAt_cons]

lemma Represents.holdsAt (h : Represents t T) : HoldsAt t [] T :=
  represents_plug.1 h

/-! ## Single writes -/

namespace RbTree

variable (t : RbTree) (a : Addr) (f : RbNode → RbNode) (d : Dir) (v : Option Addr) (c : Color)

@[simp] lemma modify_root : (t.modify a f).root = t.root := rfl
@[simp] lemma modify_malformed : (t.modify a f).malformed = t.malformed := rfl
@[simp] lemma modify_node : (t.modify a f).node a = f (t.node a) := update_self _ _ _

lemma modify_node_of_ne {b : Addr} (h : b ≠ a) : (t.modify a f).node b = t.node b :=
  update_of_ne h _ _

@[simp] lemma setParentOf_some : t.setParentOf (some a) v = t.setParent a v := rfl
@[simp] lemma setColorOf_none : t.setColorOf none c = t := rfl
@[simp] lemma setColorOf_some : t.setColorOf (some a) c = t.setColor a c := rfl

end RbTree

/-- Only addresses in `A` differ between `t` and `t'`. -/
def Keeps (A : List Addr) (t t' : RbTree) : Prop := ∀ v ∉ A, t'.node v = t.node v

variable {A : List Addr} {t' : RbTree}

lemma Keeps.trans {t'' : RbTree} (h : Keeps A t t') (h' : Keeps A t' t'') :
    Keeps A t t'' := fun v hv => (h' v hv).trans (h v hv)

lemma Keeps.mono {B : List Addr} (h : Keeps A t t') (hAB : A ⊆ B) :
    Keeps B t t' := fun v hv => h v fun hA => hv (hAB hA)

lemma keeps_modify (t : RbTree) (a : Addr) (f : RbNode → RbNode) : Keeps [a] t (t.modify a f) :=
  fun _ hv => t.modify_node_of_ne a f fun h => hv (List.mem_singleton.2 h)

lemma Rep.congr {m' : Addr → RbNode} (h : Rep m p T) (hm : ∀ v ∈ addrs T, m' v = m v) :
    Rep m' p T := by
  induction T generalizing p with
  | nil => trivial
  | node c l x r ihl ihr =>
    obtain ⟨hx, hl, hr⟩ := h
    have hmem : ∀ v, v = x.addr ∨ v ∈ addrs l ∨ v ∈ addrs r → m' v = m v := fun v hv =>
      hm v (mem_addrs_node.2 hv)
    exact ⟨by rw [hmem _ (.inl rfl), hx], ihl hl fun v hv => hmem v (.inr (.inl hv)),
      ihr hr fun v hv => hmem v (.inr (.inr hv))⟩

lemma RepCtx.congr {m' : Addr → RbNode} {root hole : Option Addr} (h : RepCtx m root hole ctx)
    (hm : ∀ v ∈ ctxAddrs ctx, m' v = m v) : RepCtx m' root hole ctx := by
  induction ctx generalizing hole with
  | nil => exact h
  | cons f _ ih =>
    obtain ⟨hf, hsib, hfs⟩ := h
    simp only [ctxAddrs_cons, List.cons_append, List.mem_cons, List.mem_append] at hm
    exact ⟨by rw [hm _ (.inl rfl), hf], hsib.congr fun v hv => hm v (.inr (.inl hv)),
      ih hfs fun v hv => hm v (.inr (.inr hv))⟩

lemma Rep.of_keeps (h : Rep t.node p T) (hk : Keeps A t t') (hA : A.Disjoint (addrs T)) :
    Rep t'.node p T :=
  h.congr fun v hv => hk v fun hA' => hA hA' hv

lemma RepCtx.of_keeps {hole : Option Addr} (h : RepCtx t.node t.root hole ctx) (hk : Keeps A t t')
    (hroot : t'.root = t.root) (hA : A.Disjoint (ctxAddrs ctx)) :
    RepCtx t'.node t'.root hole ctx := by
  rw [hroot]
  exact h.congr fun v hv => hk v fun hA' => hA hA' hv

/-! ## Reading at the focus -/

section Read

variable {t : RbTree} {ctx : List (Frame Label)} {d : Dir} {c : Color} {a b : ColorTree Label}
  {x : Label}

section

variable (h : HoldsAt t ctx (bin d c a x b))

include h

lemma HoldsAt.node_eq :
    t.node x.addr = dnode d c (parentOf ctx) (ptr a) (ptr b) x.key := (rep_bin.1 h.sub).1

lemma HoldsAt.child_eq : (t.node x.addr).child d = ptr a := by rw [h.node_eq, child_dnode]

lemma HoldsAt.child_flip_eq :
    (t.node x.addr).child d.flip = ptr b := by rw [h.node_eq, child_flip_dnode]

lemma HoldsAt.parent_eq : (t.node x.addr).parent = parentOf ctx := by rw [h.node_eq, dnode_parent]

lemma HoldsAt.color_eq : (t.node x.addr).color = c := by
  rw [h.node_eq, dnode_color]

omit h in
lemma HoldsAt.isRed_ptr (h : HoldsAt t ctx T) : t.isRed (ptr T) = T.isRed := by
  cases T with
  | nil => rfl
  | node c l x r =>
    have hcolor := HoldsAt.color_eq (d := .left) h
    cases c <;> simp [ptr, RbTree.isRed, hcolor, ColorTree.isRed]

omit h in
lemma HoldsAt.isBlack_ptr (h : HoldsAt t ctx T) : t.isBlack (ptr T) = !T.isRed := by
  cases T with
  | nil => rfl
  | node c l x r =>
    have hcolor := HoldsAt.color_eq (d := .left) h
    cases c <;> simp [ptr, RbTree.isBlack, hcolor, ColorTree.isRed]

lemma HoldsAt.near : HoldsAt t (⟨d, c, x, b⟩ :: ctx) a :=
  holdsAt_cons.2 h

lemma HoldsAt.far : HoldsAt t (⟨d.flip, c, x, a⟩ :: ctx) b :=
  holdsAt_cons.2 (by simpa using h)

end

lemma HoldsAt.up (h : HoldsAt t (⟨d, c, x, b⟩ :: ctx) T) :
    HoldsAt t ctx (bin d c T x b) := holdsAt_cons.1 h

lemma HoldsAt.ptr_ne_sib {f : Frame Label} {fs : List (Frame Label)}
    (h : HoldsAt t (f :: fs) (bin d c a x b)) : some x.addr ≠ ptr f.sib := fun hptr =>
  h.disjoint (by simp [mem_addrs_of_ptr hptr.symm]) (mem_addrs_bin.2 (.inl rfl))

/-- The side of a child whose pointer is not that of the other child. -/
lemma sideOf_of_ne {f : Frame Label} {q v : Option Addr} (hne : v ≠ ptr f.sib)
    (hf : t.node f.label.addr = dnode f.dir f.color q v (ptr f.sib) f.label.key) :
    t.sideOf v f.label.addr = f.dir := by
  rw [RbTree.sideOf, hf]
  cases f.dir with
  | left => simp [dnode]
  | right => simp [dnode, hne]

lemma HoldsAt.sideOf_eq {f : Frame Label} {fs : List (Frame Label)}
    (h : HoldsAt t (f :: fs) (bin d c a x b)) : t.sideOf (some x.addr) f.label.addr = f.dir :=
  sideOf_of_ne h.ptr_ne_sib (by simpa using h.context.1)

end Read

/-! ## Writes at the focus -/

section Write

variable {t t' : RbTree} {ctx : List (Frame Label)} {d : Dir} {c : Color} {a b : ColorTree Label}
  {x : Label} {T T' : ColorTree Label}

/-- A new subtree over addresses of the old one. -/
lemma HoldsAt.rebuild (h : HoldsAt t ctx T) (hnd : (addrs T').Nodup) (hsubset : addrs T' ⊆ addrs T)
    (hctx : RepCtx t'.node t'.root (ptr T') ctx) (hsub : Rep t'.node (parentOf ctx) T') :
    HoldsAt t' ctx T' :=
  ⟨hctx, hsub, hnd, h.nodupCtx, fun _ hv hT => h.disjoint hv (hsubset hT)⟩

lemma addrs_bin_color (d : Dir) (c c' : Color) (a : ColorTree Label) (x : Label)
    (b : ColorTree Label) :
    addrs (bin d c' a x b) = addrs (bin d c a x b) := by cases d <;> rfl

/-- The addresses at a node: the node itself, its subtrees and the context do not
share any. -/
lemma HoldsAt.disjoint_focus (h : HoldsAt t ctx (bin d c a x b)) :
    [x.addr].Disjoint (ctxAddrs ctx) ∧ [x.addr].Disjoint (addrs a) ∧
      [x.addr].Disjoint (addrs b) := by
  obtain ⟨hxa, hxb, -, -, -⟩ := nodup_addrs_bin.1 h.nodup
  simp only [List.singleton_disjoint]
  exact ⟨fun hx => h.disjoint hx (mem_addrs_bin.2 (.inl rfl)), hxa, hxb⟩

lemma HoldsAt.setColor (h : HoldsAt t ctx (bin d c a x b)) (c' : Color) :
    HoldsAt (t.setColor x.addr c') ctx (bin d c' a x b) := by
  obtain ⟨hxc, hxa, hxb⟩ := h.disjoint_focus
  obtain ⟨hx, ha, hb⟩ := rep_bin.1 h.sub
  have hk : Keeps [x.addr] t (t.setColor x.addr c') := keeps_modify _ _ _
  refine h.rebuild ?_ ?_ ?_ (rep_bin.2 ⟨?_, ha.of_keeps hk hxa, hb.of_keeps hk hxb⟩)
  · rw [addrs_bin_color d c]
    exact h.nodup
  · rw [addrs_bin_color d c]
    exact List.Subset.refl _
  · have hctx := h.context.of_keeps hk rfl hxc
    simpa using hctx
  · rw [RbTree.setColor, RbTree.modify_node, hx, withColor_dnode]

lemma Rep.setParentOf (h : Rep t.node p T) (hnd : (addrs T).Nodup) (p' : Option Addr) :
    Rep (t.setParentOf (ptr T) p').node p' T := by
  cases T with
  | nil => trivial
  | node c l x r =>
    obtain ⟨hx, hl, hr⟩ := h
    obtain ⟨hxl, hxr, -, -, -⟩ := nodup_addrs_bin (d := .left) (c := c).1 hnd
    have hk : Keeps [x.addr] t (t.setParent x.addr p') := keeps_modify _ _ _
    refine ⟨?_, hl.of_keeps hk (by simpa using hxl), hr.of_keeps hk (by simpa using hxr)⟩
    rw [ptr, RbTree.setParentOf_some, RbTree.setParent, RbTree.modify_node, hx]

lemma keeps_setParentOf (t : RbTree) (T : ColorTree Label) (p : Option Addr) :
    Keeps (addrs T) t (t.setParentOf (ptr T) p) := by
  cases T with
  | nil => exact fun _ _ => rfl
  | node c l x r =>
    have hk : Keeps [x.addr] t (t.setParent x.addr p) := keeps_modify _ _ _
    exact hk.mono fun v hv => mem_addrs_node.2 (.inl (List.mem_singleton.1 hv))

@[simp] lemma setParentOf_root (t : RbTree) (v p : Option Addr) :
    (t.setParentOf v p).root = t.root := by cases v <;> rfl

@[simp] lemma setParentOf_malformed (t : RbTree) (v p : Option Addr) :
    (t.setParentOf v p).malformed = t.malformed := by cases v <;> rfl

@[simp] lemma replaceChild_malformed (t : RbTree) (u : Addr) (v : Option Addr) :
    (t.replaceChild u v).malformed = t.malformed := by
  rw [RbTree.replaceChild]
  split <;> rfl

/-- The pointer a context hangs its hole on. -/
def linkOf : List (Frame Label) → Link
  | [] => .root
  | f :: _ => .child f.label.addr f.dir

/-- Changing the pointer in the hole of a context. -/
lemma RepCtx.store {hole : Option Addr} (h : RepCtx t.node t.root hole ctx)
    (hnd : (ctxAddrs ctx).Nodup) (v : Option Addr) :
    RepCtx (t.store (linkOf ctx) v).node (t.store (linkOf ctx) v).root v ctx := by
  cases ctx with
  | nil => rfl
  | cons f _ =>
    obtain ⟨hf, hsib, hfs⟩ := h
    simp only [ctxAddrs_cons, List.cons_append, List.nodup_cons, List.mem_append, not_or] at hnd
    have hk : Keeps [f.label.addr] t (t.setChild f.label.addr f.dir v) := keeps_modify _ _ _
    refine ⟨?_, hsib.of_keeps hk (by simpa using hnd.1.1),
      hfs.of_keeps hk rfl (by simpa using hnd.1.2)⟩
    rw [linkOf, RbTree.store, RbTree.setChild, RbTree.modify_node, hf, withChild_dnode]

lemma keeps_store (t : RbTree) (ctx : List (Frame Label)) (v : Option Addr) :
    Keeps (ctxAddrs ctx) t (t.store (linkOf ctx) v) := by
  cases ctx with
  | nil => exact fun _ _ => rfl
  | cons f _ =>
    have hk : Keeps [f.label.addr] t (t.setChild f.label.addr f.dir v) := keeps_modify _ _ _
    refine hk.mono fun w hw => ?_
    rw [List.mem_singleton] at hw
    simp [hw]

lemma RepCtx.replaceChild_eq {u : Addr} (h : RepCtx t.node t.root (some u) ctx)
    (hparent : (t.node u).parent = parentOf ctx) (hu : u ∉ ctxAddrs ctx) (v : Option Addr) :
    t.replaceChild u v = t.store (linkOf ctx) v := by
  rw [RbTree.replaceChild, hparent]
  cases ctx with
  | nil => rfl
  | cons f _ =>
    have hside : t.sideOf (some u) f.label.addr = f.dir :=
      sideOf_of_ne (fun hptr => hu (by simp [mem_addrs_of_ptr hptr.symm])) h.1
    simp only [parentOf_cons, hside]
    rfl

end Write

/-! ## Rotation and transplantation -/

section Rotate

variable {t : RbTree} {ctx : List (Frame Label)} {d : Dir} {c c' : Color}
  {a b e : ColorTree Label} {x y : Label} {T : ColorTree Label}

@[simp] lemma rbRotate_malformed (d : Dir) (t : RbTree) (x : Addr) :
    (rbRotate d t x).malformed = t.malformed := by
  rw [rbRotate]
  split
  · rfl
  · simp [RbTree.setParent, RbTree.setChild]

/-- The memory a rotation leaves, cell by cell. -/
lemma rbRotate_spec (h : HoldsAt t ctx (bin d c a x (bin d c' b y e))) :
    HoldsAt (rbRotate d t x.addr) ctx (bin d c' (bin d c a x b) y e) := by
  obtain ⟨hx, ha, hbin⟩ := rep_bin.1 h.sub
  obtain ⟨hy, hb, he⟩ := rep_bin.1 hbin
  obtain ⟨hxa, hxb, -, hndb, hab⟩ := nodup_addrs_bin.1 h.nodup
  obtain ⟨hyb, hye, hndb', -, hbe⟩ := nodup_addrs_bin.1 hndb
  have hctx : ∀ v ∈ ctxAddrs ctx, v ≠ x.addr ∧ v ≠ y.addr ∧ v ∉ addrs a ∧ v ∉ addrs b ∧
      v ∉ addrs e := by
    intro v hv
    have hnot := h.disjoint hv
    simp only [mem_addrs_bin] at hnot
    tauto
  simp only [mem_addrs_bin, not_or] at hxb
  have hya : y.addr ∉ addrs a := fun hv => hab hv (mem_addrs_bin.2 (.inl rfl))
  have hab' : ∀ v ∈ addrs a, v ∉ addrs b := fun v hv hv' =>
    hab hv (mem_addrs_bin.2 (.inr (.inl hv')))
  -- the tree after each of the six writes
  set t1 := t.setChild x.addr d.flip (ptr b) with ht1
  set t2 := t1.setParentOf (ptr b) (some x.addr) with ht2
  set t3 := t2.setParent y.addr (t2.node x.addr).parent with ht3
  set t4 := t3.replaceChild x.addr (some y.addr) with ht4
  set t5 := t4.setChild y.addr d (some x.addr) with ht5
  set t6 := t5.setParent x.addr (some y.addr) with ht6
  have hrot : rbRotate d t x.addr = t6 := by
    rw [rbRotate, h.child_flip_eq]
    simp only [ptr_bin]
    rw [h.far.child_eq, ht6, ht5, ht4, ht3, ht2, ht1]
  have k1 : Keeps [x.addr] t t1 := ht1 ▸ keeps_modify _ _ _
  have k2 : Keeps (addrs b) t1 t2 := ht2 ▸ keeps_setParentOf t1 b _
  have k3 : Keeps [y.addr] t2 t3 := ht3 ▸ keeps_modify _ _ _
  have k5 : Keeps [y.addr] t4 t5 := ht5 ▸ keeps_modify _ _ _
  have k6 : Keeps [x.addr] t5 t6 := ht6 ▸ keeps_modify _ _ _
  -- the cell of `x` is written first and last, that of `y` in between
  have hx1 : t1.node x.addr = dnode d c (parentOf ctx) (ptr a) (ptr b) x.key := by
    rw [ht1, RbTree.setChild, RbTree.modify_node, hx, withChild_flip_dnode]
  have hx2 : t2.node x.addr = dnode d c (parentOf ctx) (ptr a) (ptr b) x.key :=
    (k2 _ hxb.2.1).trans hx1
  have hx3 : t3.node x.addr = dnode d c (parentOf ctx) (ptr a) (ptr b) x.key :=
    (k3 _ (by simpa using hxb.1)).trans hx2
  have hparent : (t3.node x.addr).parent = parentOf ctx := by rw [hx3, dnode_parent]
  have hxctx : x.addr ∉ ctxAddrs ctx := fun hv => (hctx _ hv).1 rfl
  have hctx3 : RepCtx t3.node t3.root (some x.addr) ctx := by
    have hroot : t3.root = t.root := by rw [ht3, ht2, ht1]; simp [RbTree.setParent, RbTree.setChild]
    have hsame : ∀ v ∈ ctxAddrs ctx, t3.node v = t.node v := fun v hv => by
      obtain ⟨hvx, hvy, -, hvb, -⟩ := hctx v hv
      rw [k3 _ (by simpa using hvy), k2 _ hvb, k1 _ (by simpa using hvx)]
    have h0 := h.context.congr hsame
    rw [hroot]
    simpa using h0
  have hstore : t4 = t3.store (linkOf ctx) (some y.addr) :=
    ht4.trans (hctx3.replaceChild_eq hparent hxctx _)
  have k4 : Keeps (ctxAddrs ctx) t3 t4 := hstore ▸ keeps_store _ _ _
  have hyctx : y.addr ∉ ctxAddrs ctx := fun hv => (hctx _ hv).2.1 rfl
  have hx6 : t6.node x.addr = dnode d c (some y.addr) (ptr a) (ptr b) x.key := by
    rw [ht6, RbTree.setParent, RbTree.modify_node, k5 _ (by simpa using hxb.1), k4 _ hxctx, hx3,
      withParent_dnode]
  have hy2 : t2.node y.addr = dnode d c' (some x.addr) (ptr b) (ptr e) y.key := by
    rw [k2 _ hyb, k1 _ (by simpa using Ne.symm hxb.1), hy]
  have hy6 : t6.node y.addr = dnode d c' (parentOf ctx) (some x.addr) (ptr e) y.key := by
    rw [k6 _ (by simpa using Ne.symm hxb.1), ht5, RbTree.setChild, RbTree.modify_node,
      k4 _ hyctx, ht3, RbTree.setParent, RbTree.modify_node, hy2, hx2, dnode_parent,
      withParent_dnode, withChild_dnode]
  -- the rest is one write each: the parent of `b`, the hole of the context
  have hb2 : Rep t2.node (some x.addr) b := by
    have hb1 : Rep t1.node (some y.addr) b := hb.of_keeps k1 (by simpa using hxb.2.1)
    exact ht2 ▸ hb1.setParentOf hndb' _
  have hctx4 : RepCtx t4.node t4.root (some y.addr) ctx := hstore ▸ hctx3.store h.nodupCtx _
  have hkeeps : ∀ v, v ≠ x.addr → v ≠ y.addr → v ∉ ctxAddrs ctx → t6.node v = t2.node v := by
    intro v hvx hvy hvc
    rw [k6 _ (by simpa using hvx), k5 _ (by simpa using hvy), k4 _ hvc, k3 _ (by simpa using hvy)]
  have hkeeps' : ∀ v, v ≠ x.addr → v ≠ y.addr → v ∉ ctxAddrs ctx → v ∉ addrs b →
      t6.node v = t.node v := by
    intro v hvx hvy hvc hvb
    rw [hkeeps v hvx hvy hvc, k2 _ hvb, k1 _ (by simpa using hvx)]
  rw [hrot]
  refine h.rebuild ?_ ?_ ?_ (rep_bin.2 ⟨by simpa using hy6, rep_bin.2 ⟨hx6, ?_, ?_⟩, ?_⟩)
  · rw [addrs, toList_rotate d c c' c c']
    exact h.nodup
  · rw [addrs, toList_rotate d c c' c c']
    exact List.Subset.refl _
  · have hroot : t6.root = t4.root := by rw [ht6, ht5]; rfl
    have hsame : ∀ v ∈ ctxAddrs ctx, t6.node v = t4.node v := fun v hv => by
      obtain ⟨hvx, hvy, -⟩ := hctx v hv
      rw [k6 _ (by simpa using hvx), k5 _ (by simpa using hvy)]
    rw [hroot, ptr_bin]
    exact hctx4.congr hsame
  · refine ha.congr fun v hv => hkeeps' v ?_ ?_ ?_ (hab' v hv)
    · rintro rfl; exact hxa hv
    · rintro rfl; exact hya hv
    · exact fun hvc => (hctx v hvc).2.2.1 hv
  · refine hb2.congr fun v hv => hkeeps v ?_ ?_ ?_
    · rintro rfl; exact hxb.2.1 hv
    · rintro rfl; exact hyb hv
    · exact fun hvc => (hctx v hvc).2.2.2.1 hv
  · refine he.congr fun v hv => hkeeps' v ?_ ?_ ?_ fun hvb => hbe hvb hv
    · rintro rfl; exact hxb.2.2 hv
    · rintro rfl; exact hye hv
    · exact fun hvc => (hctx v hvc).2.2.2.2 hv

end Rotate

/-! ## Rewriting a tree in place -/

lemma mem_addrs_plug {v : Addr} : v ∈ addrs (plug ctx T) ↔ v ∈ ctxAddrs ctx ∨ v ∈ addrs T := by
  induction ctx generalizing T with
  | nil => simp
  | cons f _ ih =>
    rw [plug_cons, ih, mem_addrs_bin, ctxAddrs_cons]
    simp only [List.cons_append, List.mem_cons, List.mem_append]
    tauto

/-- `t'` holds `T'`, got from `T` in `t` without changing the order of the labels or
leaving through a malformed exit. -/
structure Rewrites (T T' : ColorTree Label) (t t' : RbTree) : Prop where
  represents : Represents t' T'
  toList : T'.toList = T.toList
  malformed : t'.malformed = t.malformed

lemma Rewrites.refl (h : Represents t T) : Rewrites T T t t :=
  ⟨h, rfl, rfl⟩

lemma Rewrites.trans {T' T'' : ColorTree Label} {t'' : RbTree} (h : Rewrites T T' t t')
    (h' : Rewrites T' T'' t' t'') : Rewrites T T'' t t'' :=
  ⟨h'.represents, h'.toList.trans h.toList, h'.malformed.trans h.malformed⟩

lemma Rewrites.holdsAt {T' : ColorTree Label} (h : Rewrites T (plug ctx T') t t') :
    HoldsAt t' ctx T' := represents_plug.1 h.represents

section Rewrite

variable {t : RbTree} {ctx : List (Frame Label)} {d : Dir} {c c' : Color}
  {a b e T : ColorTree Label} {x y : Label}

lemma HoldsAt.rewrites_setColor (h : HoldsAt t ctx (bin d c a x b)) (c' : Color) :
    Rewrites (plug ctx (bin d c a x b)) (plug ctx (bin d c' a x b)) t (t.setColor x.addr c') :=
  ⟨represents_plug.2 (h.setColor c'), toList_plug_congr ctx (toList_bin_congr d x rfl rfl), rfl⟩

lemma HoldsAt.rewrites_blacken (h : HoldsAt t ctx T) :
    Rewrites (plug ctx T) (plug ctx T.blacken) t (t.setColorOf (ptr T) .black) := by
  cases T with
  | nil => exact .refl (represents_plug.2 h)
  | node c l x r => exact HoldsAt.rewrites_setColor (d := .left) h .black

lemma HoldsAt.rewrites_rotate (h : HoldsAt t ctx (bin d c a x (bin d c' b y e))) :
    Rewrites (plug ctx (bin d c a x (bin d c' b y e))) (plug ctx (bin d c' (bin d c a x b) y e))
      t (rbRotate d t x.addr) :=
  ⟨represents_plug.2 (rbRotate_spec h),
    toList_plug_congr ctx (toList_rotate d c c' c c' a b e x y), rbRotate_malformed ..⟩

end Rewrite

end Aurora.Rbtree
