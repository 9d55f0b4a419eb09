import Aurora.Kernel.RbtreeRep

/-!
# Insertion into the red-black tree

The fix-up climbs from a red node that may hang below a red parent. The context of
that node always fits a tree of the node's black height, so a red parent has a black
parent of its own: the exit for a missing grandparent is never taken.

## Main definitions

* `insertFixupLoop_spec`: the loop ends in a tree that is balanced once its root is
  black.
* `labelLt`: the order of the labels; `insertDescend_spec`: the search follows it.
* `rbInsert_spec`: one insertion.
-/

namespace Aurora.Rbtree

open Lib.RedBlack Aurora.Lib.RedBlack.ColorTree List

/-! ## The fix-up -/

variable {ctx : List (Frame Label)}

section Fixup

variable {t : RbTree} {rest : List (Frame Label)} {e d : Dir} {N s u a b : ColorTree Label}
  {x p g : Label}

/-- Case 3: recolour and rotate at the grandparent. -/
lemma rewrites_case3 (h : HoldsAt t rest (bin e .black (bin e .red N p s) g u)) :
    Rewrites (plug rest (bin e .black (bin e .red N p s) g u))
      (plug rest (bin e .black N p (bin e .red s g u))) t
      (rbRotate e.flip ((t.setColor p.addr .black).setColor g.addr .red) g.addr) := by
  have hp := h.near.rewrites_setColor .black
  have hg := (HoldsAt.up hp.holdsAt).rewrites_setColor .red
  have hshape : bin e .red (bin e .black N p s) g u
      = bin e.flip .red u g (bin e.flip .black s p N) := by simp
  have hg' : HoldsAt ((t.setColor p.addr .black).setColor g.addr .red) rest
      (bin e.flip .red u g (bin e.flip .black s p N)) := hshape ▸ hg.holdsAt
  have hr := hg'.rewrites_rotate
  rw [← hshape] at hr
  have hall := hp.trans (hg.trans hr)
  simpa using hall

/-- Case 1: both children of the grandparent turn black. -/
lemma insertFixupBody_red (hu : u.isRed = true)
    (h : HoldsAt t (⟨d, .red, p, s⟩ :: ⟨e, .black, g, u⟩ :: rest) N) (node : Addr) :
    ∃ t', insertFixupBody e t node p.addr g.addr = (t', g.addr) ∧
      Rewrites (plug rest (bin e .black (bin d .red N p s) g u))
        (plug rest (bin e .red (bin d .black N p s) g u.blacken)) t t' := by
  have hgu := h.up.up
  refine ⟨((t.setColor p.addr .black).setColorOf (ptr u) .black).setColor g.addr .red, ?_, ?_⟩
  · simp only [insertFixupBody, hgu.child_flip_eq, hgu.far.isRed_ptr, hu, if_true]
  · have hp := h.up.rewrites_setColor .black
    have hu' := (HoldsAt.up hp.holdsAt).far.rewrites_blacken
    have hg := (HoldsAt.up (d := e.flip) hu'.holdsAt).rewrites_setColor .red
    have hall := hp.trans (Rewrites.trans (by simpa using hu') hg)
    simpa using hall

/-- Cases 2 and 3: the two red nodes end up below a black one. -/
lemma insertFixupBody_black (hu : u.isRed = false)
    (h : HoldsAt t (⟨d, .red, p, s⟩ :: ⟨e, .black, g, u⟩ :: rest) (bin e .red a x b)) :
    ∃ t' q y a' b' s', insertFixupBody e t x.addr p.addr g.addr = (t', q.addr) ∧
      Rewrites (plug rest (bin e .black (bin d .red (bin e .red a x b) p s) g u))
        (plug rest (bin e .black (bin e .red a' q b') y (bin e .red s' g u))) t t' ∧
      (∀ n, Below .red n a → Below .red n b → Below .red n s →
        Below .red n a' ∧ Below .red n b' ∧ Below .red n s') := by
  have hgu := h.up.up
  have huncle : t.isRed ((t.node g.addr).child e.flip) = false := by
    rw [hgu.child_flip_eq, hgu.far.isRed_ptr, hu]
  obtain rfl | rfl := d.eq_or_eq_flip e
  · -- an outer child
    refine ⟨_, x, p, a, b, s, ?_, rewrites_case3 hgu, fun n ha hb hs => ⟨ha, hb, hs⟩⟩
    have hinner : ¬ some x.addr = (t.node p.addr).child d.flip := by
      rw [h.up.child_flip_eq]
      exact h.ptr_ne_sib
    simp only [insertFixupBody, huncle, Bool.false_eq_true, if_false, if_neg hinner,
      RbTree.setColorOf_some]
  · -- an inner child is rotated outwards
    have hp : HoldsAt t (⟨e, .black, g, u⟩ :: rest) (bin e .red s p (bin e .red a x b)) := by
      simpa using h.up
    have hrot := hp.rewrites_rotate
    have hout := rewrites_case3 (HoldsAt.up hrot.holdsAt)
    refine ⟨rbRotate e.flip (((rbRotate e t p.addr).setColor x.addr .black).setColor g.addr .red)
      g.addr, p, x, s, a, b, ?_, ?_, fun n ha hb hs => ⟨hs, ha, hb⟩⟩
    · have hinner : some x.addr = (t.node p.addr).child e.flip := by
        rw [hp.child_flip_eq, ptr_bin]
      have hparent : ((rbRotate e t p.addr).node p.addr).parent = some x.addr :=
        hrot.holdsAt.near.parent_eq
      simp only [insertFixupBody, huncle, Bool.false_eq_true, if_false, if_pos hinner, hparent,
        RbTree.setColorOf_some]
    · have hall := hrot.trans hout
      simpa using hall

/-- The loop ends at once below a black parent. -/
lemma insertFixupLoop_black (hctx : above ctx = .black) (h : HoldsAt t ctx (bin e .red a x b))
    (fuel : ℕ) : insertFixupLoop (fuel + 1) t x.addr = some t := by
  cases ctx with
  | nil => cases hctx
  | cons f _ =>
    have hcolor : (t.node f.label.addr).color = .black := h.up.color_eq.trans hctx
    rw [insertFixupLoop, h.parent_eq]
    simp [RbTree.isRed, hcolor]

/-- **The fix-up loop.** From a red node whose subtrees and context agree on the
black height, at most one frame of the context is used up per unit of fuel. -/
lemma insertFixupLoop_spec (fuel : ℕ) {n : ℕ} (hfuel : ctx.length < fuel)
    (h : HoldsAt t ctx (bin e .red a x b)) (hctx : Fits n ctx) (ha : Below .red n a)
    (hb : Below .red n b) :
    ∃ t' T', insertFixupLoop fuel t x.addr = some t' ∧
      Rewrites (plug ctx (bin e .red a x b)) T' t t' ∧ Balanced T'.blacken := by
  induction fuel generalizing ctx t e a b x n with
  | zero => omega
  | succ fuel ih =>
    match ctx, hctx, h, hfuel with
    | [], _, h, _ =>
      refine ⟨t, _, ?_, .refl (represents_plug.2 h), n + 1, ?_⟩
      · rw [insertFixupLoop, h.parent_eq]
        rfl
      · rw [plug_nil, blacken_bin, below_bin_black]
        exact ⟨n, rfl, ha.weaken _, hb.weaken _⟩
    | ⟨d, .black, p, s⟩ :: rest, hctx, h, _ =>
      refine ⟨t, _, insertFixupLoop_black rfl h fuel, .refl (represents_plug.2 h), ?_⟩
      have hbal := hctx.plug (t := bin e .red a x b) ((below_bin_red _ _ _ _ _ _).2 ⟨rfl, ha, hb⟩)
      rwa [hbal.blacken_eq]
    | [⟨d, .red, p, s⟩], ⟨_, habove, _⟩, _, _ => cases habove
    | ⟨d, .red, p, s⟩ :: ⟨_, .red, g, u⟩ :: rest, ⟨_, habove, _⟩, _, _ => cases habove
    | ⟨d, .red, p, s⟩ :: ⟨e', .black, g, u⟩ :: rest, ⟨hs, _, hu, hrest⟩, h, hfuel =>
      have hred : t.isRed (some p.addr) = true := by
        simpa using h.up.isRed_ptr
      have hside : t.sideOf (some p.addr) g.addr = e' := h.up.sideOf_eq
      have hstep : insertFixupLoop (fuel + 1) t x.addr =
          insertFixupLoop fuel (insertFixupBody e' t x.addr p.addr g.addr).1
            (insertFixupBody e' t x.addr p.addr g.addr).2 := by
        rw [insertFixupLoop, h.parent_eq]
        simp [parentOf_cons, hred, h.up.parent_eq, hside]
      rw [hstep]
      cases huc : u.isRed with
      | true =>
        -- the grandparent becomes the red node, two frames up
        obtain ⟨t', hbody, hrw⟩ := insertFixupBody_red huc h x.addr
        have hT : Below .red (n + 1) (bin d .black (bin e .red a x b) p s) :=
          (below_bin_black _ _ _ _ _ _).2
            ⟨n, rfl, (below_bin_red _ _ _ _ _ _).2 ⟨rfl, ha, hb⟩, hs.weaken _⟩
        have hu' : Below .red (n + 1) u.blacken := hu.blacken huc
        obtain ⟨t'', T'', hloop, hrw', hbal⟩ :=
          ih (by simp only [length_cons] at hfuel; omega) hrw.holdsAt hrest hT hu'
        rw [hbody]
        exact ⟨t'', T'', hloop, hrw.trans hrw', hbal⟩
      | false =>
        have hbin : ∃ a' b', bin e .red a x b = bin e' .red a' x b' ∧ Below .red n a' ∧
            Below .red n b' := by
          obtain rfl | rfl := e.eq_or_eq_flip e'
          · exact ⟨a, b, rfl, ha, hb⟩
          · exact ⟨b, a, bin_flip .., hb, ha⟩
        obtain ⟨_, _, heq, ha1, hb1⟩ := hbin
        rw [heq] at h ⊢
        obtain ⟨t', q, y, a', b', s', hbody, hrw, hsub⟩ := insertFixupBody_black huc h
        obtain ⟨ha', hb', hs'⟩ := hsub n ha1 hb1 hs
        obtain ⟨fuel, rfl⟩ : ∃ k, fuel = k + 1 := ⟨fuel - 1, by
          simp only [length_cons] at hfuel; omega⟩
        rw [hbody]
        refine ⟨t', _, insertFixupLoop_black rfl hrw.holdsAt.near fuel, hrw, ?_⟩
        have hT : Below (above rest) (n + 1) (bin e' .black (bin e' .red a' q b') y
            (bin e' .red s' g u)) := by
          simp only [below_bin_black, below_bin_red]
          exact ⟨n, rfl, ⟨trivial, ha', hb'⟩, trivial, hs', hu.of_not_isRed huc _⟩
        have hbal := hrest.plug hT
        rwa [hbal.blacken_eq]

end Fixup

/-! ## The search -/

/-- The order of the tree: by key, then by address. -/
def labelLt (x y : Label) : Prop := x.key < y.key ∨ (x.key = y.key ∧ x.addr < y.addr)

instance : DecidableRel labelLt := fun x y =>
  inferInstanceAs (Decidable (x.key < y.key ∨ (x.key = y.key ∧ x.addr < y.addr)))

lemma labelLt_trans (x y z : Label) (h : labelLt x y) (h' : labelLt y z) : labelLt x z := by
  simp only [labelLt] at h h' ⊢
  grind

variable {x : Label}

lemma labelLt_total (y : Label) (h : ¬ labelLt x y) : y = x ∨ labelLt y x := by
  obtain ⟨_, _⟩ := x
  obtain ⟨_, _⟩ := y
  simp only [labelLt, Label.mk.injEq] at h ⊢
  grind

variable {t : RbTree}

lemma RepCtx.load_eq {hole : Option Addr} (h : RepCtx t.node t.root hole ctx) :
    t.load (linkOf ctx) = hole := by
  cases ctx with
  | nil => exact h
  | cons f _ => rw [linkOf, RbTree.load, h.1, child_dnode]

lemma store_malformed (t : RbTree) (link : Link) (v : Option Addr) :
    (t.store link v).malformed = t.malformed := by cases link <;> rfl

lemma insertSide_eq {y : Label} (hx : (t.node x.addr).key = x.key)
    (hy : (t.node y.addr).key = y.key) :
    insertSide t x.addr y.addr = if labelLt x y then .left else .right := by
  simp only [insertSide, hx, hy, labelLt]
  grind

/-- The search follows the order of the labels. -/
lemma insertDescend_spec (hx : (t.node x.addr).key = x.key) (T : ColorTree Label)
    (h : HoldsAt t ctx T) {fuel : ℕ} (hfuel : T.toList.length < fuel) :
    insertDescend t x.addr fuel (parentOf ctx) (linkOf ctx)
      = some (parentOf (descend labelLt x T ctx), linkOf (descend labelLt x T ctx)) := by
  induction T generalizing ctx fuel with
  | nil =>
    obtain ⟨fuel, rfl⟩ := Nat.exists_eq_add_of_lt hfuel
    rw [insertDescend, h.context.load_eq]
    rfl
  | node c l y r ihl ihr =>
    simp only [toList, length_append, length_cons] at hfuel
    obtain ⟨fuel, rfl⟩ := Nat.exists_eq_add_of_lt hfuel
    have h' : HoldsAt t ctx (bin .left c l y r) := h
    have hkey : (t.node y.addr).key = y.key := by rw [h'.node_eq, dnode_key]
    rw [insertDescend, h.context.load_eq]
    simp only [ptr, insertSide_eq hx hkey, descend]
    split
    · exact ihl h'.near (by omega)
    · exact ihr h'.far (by omega)

lemma length_descend_le (x : Label) (T : ColorTree Label) (ctx : List (Frame Label)) :
    (descend labelLt x T ctx).length ≤ ctx.length + T.toList.length := by
  induction T generalizing ctx with
  | nil => simp [descend, toList]
  | node c l y r ihl ihr =>
    simp only [descend, toList, length_append, length_cons]
    split
    · have := ihl (⟨.left, c, y, r⟩ :: ctx)
      simp only [length_cons] at this
      omega
    · have := ihr (⟨.right, c, y, l⟩ :: ctx)
      simp only [length_cons] at this
      omega

/-! ## One insertion -/

/-- The pointers of `t` form a red-black search tree with the labels of `T`. -/
structure IsTree (t : RbTree) (T : ColorTree Label) : Prop where
  represents : Represents t T
  balanced : Balanced T
  sorted : T.toList.Pairwise labelLt

/-- Linking a fresh red node in the hole of a context. -/
lemma link_spec (h : HoldsAt t ctx nil) (hx : x.addr ∉ ctxAddrs ctx)
    (hkey : (t.node x.addr).key = x.key) :
    HoldsAt ((t.modify x.addr fun n => ⟨.red, parentOf ctx, none, none, n.key⟩).store
      (linkOf ctx) (some x.addr)) ctx (node .red nil x nil) := by
  obtain ⟨t1, ht1⟩ : ∃ t1, t1 = t.modify x.addr fun n => ⟨.red, parentOf ctx, none, none, n.key⟩ :=
    ⟨_, rfl⟩
  have hk : Keeps [x.addr] t t1 := ht1 ▸ keeps_modify _ _ _
  have hctx : RepCtx t1.node t1.root none ctx :=
    h.context.of_keeps hk (by rw [ht1]; rfl) (by simpa using hx)
  rw [← ht1]
  refine ⟨hctx.store h.nodupCtx _, ⟨?_, trivial, trivial⟩, by simp [addrs, toList], h.nodupCtx,
    by simpa [addrs, toList] using hx⟩
  rw [keeps_store t1 ctx _ _ hx, ht1, RbTree.modify_node, hkey]
  rfl

/-- **One insertion**: the node joins the labels, the tree stays a red-black search
tree and no malformed exit is taken. -/
lemma rbInsert_spec {T : ColorTree Label} {fuel : ℕ} (h : IsTree t T) (hx : x.addr ∉ addrs T)
    (hkey : (t.node x.addr).key = x.key) (hfuel : T.toList.length < fuel) :
    ∃ t' T', rbInsert fuel t x.addr = some t' ∧ IsTree t' T' ∧ T'.toList.Perm (x :: T.toList) ∧
      t'.malformed = t.malformed := by
  set ctx := descend labelLt x T [] with hctx
  have hplug : plug ctx nil = T := hctx ▸ plug_descend x T []
  have hat : HoldsAt t ctx nil := represents_plug.1 (hplug ▸ h.represents)
  have haddrs : ∀ v, v ∈ ctxAddrs ctx ↔ v ∈ addrs T := fun v => by
    rw [← hplug, mem_addrs_plug]
    simp
  obtain ⟨n, hfits, hnil⟩ := exists_fits (hplug ▸ h.balanced)
  set t1 := (t.modify x.addr fun n => ⟨.red, parentOf ctx, none, none, n.key⟩).store
    (linkOf ctx) (some x.addr) with ht1
  have hat1 : HoldsAt t1 ctx (bin .left .red nil x nil) :=
    ht1 ▸ link_spec hat (by rwa [haddrs]) hkey
  have hlen : ctx.length < fuel := by
    have := length_descend_le x T []
    rw [← hctx, length_nil, Nat.zero_add] at this
    omega
  have hnil' : Below .red n (nil : ColorTree Label) := (below_nil _ _).2 hnil
  obtain ⟨t2, T2, hloop, hrw, hbal⟩ := insertFixupLoop_spec fuel hlen hat1 hfits hnil' hnil'
  have hblack := hrw.represents.holdsAt.rewrites_blacken
  have hall := hrw.trans hblack
  have hroot : t2.root = ptr T2 := hrw.represents.root
  have hlist : T2.blacken.toList = (plug ctx (node .red nil x nil)).toList := hall.toList
  refine ⟨t2.setColorOf (ptr T2) .black, T2.blacken, ?_, ⟨hall.represents, hbal, ?_⟩, ?_, ?_⟩
  · have hdesc : insertDescend t x.addr fuel none .root = some (parentOf ctx, linkOf ctx) :=
      hctx ▸ insertDescend_spec hkey T h.represents.holdsAt hfuel
    simp only [rbInsert, hdesc, Option.bind_eq_bind, Option.bind_some]
    rw [← ht1, rbInsertFixup, hloop, Option.map_some, hroot]
  · rw [hlist, hctx]
    refine pairwise_insert labelLt_trans labelLt_total ?_ h.sorted .red
    exact fun hmem => hx (mem_map_of_mem hmem)
  · rw [hlist, hctx]
    exact perm_insert x T .red
  · rw [hall.malformed, ht1, store_malformed]
    rfl

end Aurora.Rbtree
