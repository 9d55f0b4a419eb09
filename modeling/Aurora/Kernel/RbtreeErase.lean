import Aurora.Kernel.RbtreeInsert

/-!
# Deletion from the red-black tree

Unlinking a black node leaves a subtree that is one black node short: its context
fits a tree of black height `n + 1`, the subtree has black height `n`. Such a
context always offers a sibling, so none of the exits for malformed trees is taken.
Each iteration of the fix-up either moves the deficit one node up or removes it.

## Main definitions

* `eraseFixupLoop_spec`: the deficit is removed.
* `eraseUnlink_spec`: what is left after the node is unlinked.
* `rbErase_spec`: one deletion.
-/

namespace Aurora.Rbtree

open Lib.RedBlack Aurora.Lib.RedBlack.ColorTree

/-! ## The fix-up -/

section Fixup

variable {ctx : List (Frame Label)}

variable {t : RbTree} {fs : List (Frame Label)} {d : Dir} {c : Color} {T W a b : ColorTree Label}
  {p w : Label} {n : ℕ}

/-- Below a frame the focus is not the root. -/
lemma HoldsAt.ptr_ne_root {f : Frame Label} (h : HoldsAt t (f :: fs) T) : ptr T ≠ t.root := by
  have hroot : ∃ v ∈ ctxAddrs (f :: fs), t.root = some v := by
    obtain ⟨hctx, -⟩ := h
    clear * - hctx
    induction fs generalizing f T with
    | nil => exact ⟨f.label.addr, by simp, hctx.2.2⟩
    | cons g _ ih =>
      obtain ⟨v, hv, hroot⟩ := ih (f := g) (T := node .red nil f.label nil) hctx.2.2
      refine ⟨v, ?_, hroot⟩
      simp only [ctxAddrs_cons, List.cons_append, List.mem_cons, List.mem_append] at hv ⊢
      tauto
  obtain ⟨v, hv, hroot⟩ := hroot
  rw [hroot]
  exact fun hptr => h.disjoint hv (mem_addrs_of_ptr hptr)

lemma HoldsAt.rewrites_setColor_far {e : Dir} {c1 : Color} {a1 b1 : ColorTree Label} {y : Label}
    (h : HoldsAt t fs (bin d c T p (bin e c1 a1 y b1))) (c2 : Color) :
    Rewrites (plug fs (bin d c T p (bin e c1 a1 y b1))) (plug fs (bin d c T p (bin e c2 a1 y b1)))
      t (t.setColor y.addr c2) := by
  simpa using h.far.rewrites_setColor c2

/-- The side the source computes for the focus is that of the innermost frame. -/
lemma HoldsAt.sideAt_eq (h : HoldsAt t ctx (bin d c a p b)) (e : Dir) :
    ∀ f ∈ ctx.head?, t.sideAt p.addr e = f.dir := by
  intro f hf
  cases ctx with
  | nil => cases hf
  | cons g _ =>
    obtain rfl : g = f := by simpa using hf
    rw [RbTree.sideAt, h.parent_eq]
    exact h.sideOf_eq

/-- Case 1 leaves a black sibling; when it rotates, the parent becomes red. -/
lemma eraseFixupCase1_spec (h : HoldsAt t (⟨d, c, p, W⟩ :: fs) T)
    (hfits : Fits (n + 1) (⟨d, c, p, W⟩ :: fs)) :
    ∃ t' w0 w c' fs' a b, (t.node p.addr).child d.flip = some w0 ∧
      eraseFixupCase1 d t p.addr w0 = (t', some w.addr) ∧
      Rewrites (plug (⟨d, c, p, W⟩ :: fs) T) (plug (⟨d, c', p, bin d .black a w b⟩ :: fs') T) t t' ∧
      Fits (n + 1) (⟨d, c', p, bin d .black a w b⟩ :: fs') ∧ (c' = .black → fs' = fs) := by
  have hW : Below c (n + 1) W := hfits.sib
  obtain ⟨wc, a, w, b, rfl⟩ := hW.exists_bin d
  have hw := h.up.far
  cases wc with
  | black =>
    refine ⟨t, w.addr, w, c, fs, a, b, ?_, ?_, .refl (represents_plug.2 h), hfits, fun _ => rfl⟩
    · rw [h.up.child_flip_eq, ptr_bin]
    · have hred : t.isRed (some w.addr) = false := by simpa using hw.isRed_ptr
      simp [eraseFixupCase1, hred]
  | red =>
    obtain ⟨rfl, ha, hb⟩ := (below_bin_red _ _ _ _ _ _).1 hW
    obtain ⟨-, hfs⟩ := hfits
    have h1 := h.up.rewrites_setColor_far .black
    have h2 := (Rewrites.holdsAt h1).rewrites_setColor .red
    have h3 := (Rewrites.holdsAt h2).rewrites_rotate
    have hall := h1.trans (h2.trans h3)
    obtain ⟨ac, a1, y, a2, rfl⟩ := ha.exists_bin d
    have hac : ac = .black := by
      cases ac with
      | red => cases ((below_bin_red _ _ _ _ _ _).1 ha).1
      | black => rfl
    subst hac
    refine ⟨rbRotate d ((t.setColor w.addr .black).setColor p.addr .red) p.addr, w.addr, y, .red,
      ⟨d, .black, w, b⟩ :: fs, a1, a2, ?_, ?_, hall, ?_, ?_⟩
    · rw [h.up.child_flip_eq, ptr_bin]
    · have hred : t.isRed (some w.addr) = true := by simpa using hw.isRed_ptr
      have hchild := hall.holdsAt.near.child_flip_eq
      simp only [eraseFixupCase1, hred, if_true]
      rw [hchild, ptr_bin]
    · exact ⟨ha, rfl, hb.weaken _, hfs⟩
    · intro hc
      cases hc

/-- Case 4: the red outer child of the sibling pays for the deficit. -/
lemma rewrites_case4 (h : HoldsAt t (⟨d, c, p, bin d .black a w b⟩ :: fs) T) :
    ∃ t', rbRotate d
        ((((t.setColor w.addr (t.node p.addr).color).setColor p.addr .black)).setColorOf
          (((t.setColor w.addr (t.node p.addr).color).setColor p.addr .black).node w.addr
            |>.child d.flip) .black) p.addr = t' ∧
      Rewrites (plug (⟨d, c, p, bin d .black a w b⟩ :: fs) T)
        (plug fs (bin d c (bin d .black T p a) w b.blacken)) t t' := by
  refine ⟨_, rfl, ?_⟩
  rw [h.up.color_eq]
  have h1 := h.up.rewrites_setColor_far c
  have h2 := (Rewrites.holdsAt h1).rewrites_setColor .black
  have hw := (Rewrites.holdsAt h2).far
  have h3 := hw.far.rewrites_blacken
  rw [hw.child_flip_eq]
  simp only [plug_cons, bin_flip] at h3
  have h4 := (Rewrites.holdsAt h3).rewrites_rotate
  exact h1.trans (h2.trans (h3.trans h4))

/-- The tree after Case 4 is balanced. -/
lemma balanced_case4 (hb : b.isRed = true) (hT : Below .black n T)
    (hfits : Fits (n + 1) (⟨d, c, p, bin d .black a w b⟩ :: fs)) :
    Balanced (plug fs (bin d c (bin d .black T p a) w b.blacken)) := by
  have hW : Below .black (n + 1) (bin d .black a w b) := hfits.sib.toBlack
  obtain ⟨m, hm, ha, hb'⟩ := (below_bin_black _ _ _ _ _ _).1 hW
  obtain rfl : n = m := by omega
  have hp : ∀ q, Below q (n + 1) (bin d .black T p a) := fun q =>
    (below_bin_black _ _ _ _ _ _).2 ⟨n, rfl, hT, ha⟩
  cases c with
  | red =>
    obtain ⟨-, habove, hfs⟩ := hfits
    refine hfs.plug ?_
    rw [habove, below_bin_red]
    exact ⟨rfl, hp _, hb'.blacken hb⟩
  | black =>
    obtain ⟨-, hfs⟩ := hfits
    refine hfs.plug ?_
    rw [below_bin_black]
    exact ⟨n + 1, rfl, hp _, hb'.blacken hb⟩

/-- After Case 2 the parent, coloured black, has the height its context asks for. -/
lemma below_case2 (hfits : Fits (n + 1) (⟨d, c, p, bin d .black a w b⟩ :: fs))
    (hab : a.isRed = false ∧ b.isRed = false) (hT : Below .black n T) (q : Color) :
    Below q (n + 1) (bin d .black T p (bin d .red a w b)) := by
  have hW : Below .black (n + 1) (bin d .black a w b) := hfits.sib.toBlack
  obtain ⟨m, hm, ha, hb⟩ := (below_bin_black _ _ _ _ _ _).1 hW
  obtain rfl : n = m := by omega
  rw [below_bin_black]
  exact ⟨n, rfl, hT, (below_bin_red _ _ _ _ _ _).2
    ⟨rfl, ha.of_not_isRed hab.1 _, hb.of_not_isRed hab.2 _⟩⟩

lemma HoldsAt.isBlack_children (h : HoldsAt t ctx (bin d c a w b)) :
    (t.isBlack (t.node w.addr).left = true ∧ t.isBlack (t.node w.addr).right = true) ↔
      a.isRed = false ∧ b.isRed = false := by
  have ha := h.near.isBlack_ptr
  have hb := h.far.isBlack_ptr
  have hnode := h.node_eq
  cases d with
  | left => rw [hnode]; simp [dnode, ha, hb]
  | right => rw [hnode]; simp [dnode, ha, hb, and_comm]

/-- Cases 3 and 4: one or two rotations remove the deficit. -/
lemma eraseFixupRotate_spec (h : HoldsAt t (⟨d, c, p, bin d .black a w b⟩ :: fs) T)
    (hfits : Fits (n + 1) (⟨d, c, p, bin d .black a w b⟩ :: fs)) (hT : Below .black n T)
    (hab : a.isRed = true ∨ b.isRed = true) (x : Option Addr) :
    ∃ t' T', eraseFixupRotate d t x p.addr w.addr = (t', ptr T') ∧
      Rewrites (plug (⟨d, c, p, bin d .black a w b⟩ :: fs) T) T' t t' ∧ Balanced T' := by
  have hw : HoldsAt t (⟨d.flip, c, p, T⟩ :: fs) (bin d .black a w b) := h.up.far
  have hblack : t.isBlack ((t.node w.addr).child d.flip) = !b.isRed := by
    rw [hw.child_flip_eq, hw.far.isBlack_ptr]
  cases hb : b.isRed with
  | true =>
    obtain ⟨t', ht', hrw⟩ := rewrites_case4 h
    refine ⟨t', _, ?_, hrw, balanced_case4 hb hT hfits⟩
    simp only [eraseFixupRotate, hblack, hb, Bool.not_true, Bool.false_eq_true, if_false, ht']
    rw [hrw.represents.root]
  | false =>
    -- the inner child is red: rotate it into the place of the sibling
    have ha : a.isRed = true := hab.resolve_right (by simp [hb])
    obtain ⟨a1, y, a2, rfl⟩ : ∃ a1 y a2, a = bin d .red a1 y a2 := by
      match a, ha with
      | node .red l y r, _ =>
        obtain ⟨near, far, heq⟩ := node_eq_bin d .red l y r
        exact ⟨near, y, far, heq⟩
    have h1 := hw.near.rewrites_setColor .black
    have h2 := (HoldsAt.up h1.holdsAt).rewrites_setColor .red
    have hshape : bin d .red (bin d .black a1 y a2) w b
        = bin d.flip .red b w (bin d.flip .black a2 y a1) := by simp
    have h2' : HoldsAt ((t.setColor y.addr .black).setColor w.addr .red) (⟨d.flip, c, p, T⟩ :: fs)
        (bin d.flip .red b w (bin d.flip .black a2 y a1)) := hshape ▸ h2.holdsAt
    have h3 := h2'.rewrites_rotate
    rw [← hshape] at h3
    have hall := h1.trans (h2.trans h3)
    simp only [plug_cons, bin_flip] at hall
    have hfits' : Fits (n + 1) (⟨d, c, p, bin d .black a1 y (bin d .red a2 w b)⟩ :: fs) := by
      have hW : Below .black (n + 1) (bin d .black (bin d .red a1 y a2) w b) := hfits.sib.toBlack
      simp only [below_bin_black, below_bin_red] at hW
      obtain ⟨m, hm, ⟨-, ha1, ha2⟩, hb'⟩ := hW
      have hW' : ∀ q, Below q (n + 1) (bin d .black a1 y (bin d .red a2 w b)) := fun q => by
        simp only [below_bin_black, below_bin_red]
        exact ⟨m, hm, ha1.weaken _, trivial, ha2, hb'.of_not_isRed hb _⟩
      cases c with
      | red => exact ⟨hW' _, hfits.2⟩
      | black => exact ⟨hW' _, hfits.2⟩
    have hat := Rewrites.holdsAt hall
    obtain ⟨t', ht', hrw⟩ := rewrites_case4 (HoldsAt.near hat)
    refine ⟨t', _, ?_, hall.trans hrw, balanced_case4 (by simp) hT hfits'⟩
    have hchild : (t.node w.addr).child d = some y.addr := by rw [hw.child_eq, ptr_bin]
    have hw' := hat.child_flip_eq
    rw [ptr_bin] at hw'
    simp only [eraseFixupRotate, hblack, hb, Bool.not_false, if_true, hchild,
      RbTree.setColorOf_some, hw', ht']
    rw [hrw.represents.root]

/-- The loop ends at the root and at a red node. -/
lemma eraseFixupLoop_exit {x xParent : Option Addr} (h : ¬ (x ≠ t.root ∧ t.isBlack x = true))
    (fuel : ℕ) : eraseFixupLoop (fuel + 1) t x xParent d = some (t, x) := by
  rw [eraseFixupLoop.eq_def]
  exact if_neg h

/-- One iteration with a sibling. -/
lemma eraseFixupLoop_step {x : Option Addr} {q w0 w1 : Addr} {t1 : RbTree}
    (h : x ≠ t.root ∧ t.isBlack x = true) (hw0 : (t.node q).child d.flip = some w0)
    (hcase1 : eraseFixupCase1 d t q w0 = (t1, some w1)) (fuel : ℕ) :
    eraseFixupLoop (fuel + 1) t x (some q) d =
      if t1.isBlack (t1.node w1).left ∧ t1.isBlack (t1.node w1).right then
        eraseFixupLoop fuel (t1.setColor w1 .red) (some q) ((t1.setColor w1 .red).node q).parent
          ((t1.setColor w1 .red).sideAt q d)
      else some (eraseFixupRotate d t1 x q w1) := by
  rw [eraseFixupLoop.eq_def]
  simp [h, hw0, hcase1]

/-- **The fix-up loop.** A subtree that is one black node short ends in a tree that
is balanced once the final node is black. -/
lemma eraseFixupLoop_spec (fuel : ℕ) (hfuel : ctx.length < fuel)
    (h : HoldsAt t ctx T) (hfits : Fits (n + 1) ctx) (hT : Below .black n T)
    (hd : ∀ f ∈ ctx.head?, d = f.dir) :
    ∃ t' ctx' T', eraseFixupLoop fuel t (ptr T) (parentOf ctx) d = some (t', ptr T') ∧
      Rewrites (plug ctx T) (plug ctx' T') t t' ∧ Balanced (plug ctx' T'.blacken) := by
  induction fuel generalizing ctx t T d n with
  | zero => omega
  | succ fuel ih =>
    cases hred : T.isRed with
    | true =>
      refine ⟨t, ctx, T, eraseFixupLoop_exit ?_ fuel, .refl (represents_plug.2 h),
        hfits.plug (hT.blacken hred)⟩
      simp [h.isBlack_ptr, hred]
    | false =>
      match ctx, h, hfits, hd with
      | [], h, _, _ =>
        refine ⟨t, [], T, eraseFixupLoop_exit ?_ fuel, .refl (represents_plug.2 h), ?_⟩
        · have hroot : t.root = ptr T := h.context
          simp [hroot]
        · have hbal : Balanced T := ⟨n, hT.of_not_isRed hred _⟩
          rwa [hbal.blacken_eq]
      | ⟨d', c, p, W⟩ :: fs, h, hfits, hd =>
        obtain rfl : d = d' := hd _ rfl
        obtain ⟨t1, _, w, c', fs', a, b, hw0, hcase1, hrw1, hfits1, hfs'⟩ :=
          eraseFixupCase1_spec h hfits
        have h1 : HoldsAt t1 (⟨d, c', p, bin d .black a w b⟩ :: fs') T := hrw1.holdsAt
        have hw : HoldsAt t1 (⟨d.flip, c', p, T⟩ :: fs') (bin d .black a w b) := h1.up.far
        have hcond : ptr T ≠ t.root ∧ t.isBlack (ptr T) = true :=
          ⟨h.ptr_ne_root, by rw [h.isBlack_ptr, hred]; rfl⟩
        have hkids := hw.isBlack_children
        rw [parentOf_cons, eraseFixupLoop_step hcond hw0 hcase1]
        by_cases hab : a.isRed = false ∧ b.isRed = false
        · -- Case 2: the sibling turns red and the deficit moves up
          rw [if_pos (hkids.2 hab)]
          have hrw2 := h1.up.rewrites_setColor_far .red
          have hall := hrw1.trans hrw2
          have h2 := hrw2.holdsAt
          rw [h2.parent_eq]
          have hW : ∀ q, Below q (n + 1) (bin d .black T p (bin d .red a w b)) :=
            below_case2 hfits1 hab hT
          cases c' with
          | red =>
            -- the parent is red: the loop ends there
            obtain ⟨fuel, rfl⟩ : ∃ k, fuel = k + 1 := ⟨fuel - 1, by
              simp only [List.length_cons] at hfuel; omega⟩
            refine ⟨_, fs', bin d .red T p (bin d .red a w b), ?_, hall, ?_⟩
            · have hpred := h2.isBlack_ptr
              rw [ptr_bin] at hpred ⊢
              exact eraseFixupLoop_exit (by simp [hpred]) fuel
            · rw [blacken_bin]
              exact hfits1.2.2.plug (hW _)
          | black =>
            obtain rfl := hfs' rfl
            have hlen : fs'.length < fuel := by simp only [List.length_cons] at hfuel; omega
            obtain ⟨t3, ctx3, T3, hloop, hrw3, hbal⟩ :=
              ih hlen h2 hfits1.2 (hW _) (h2.sideAt_eq d)
            rw [ptr_bin] at hloop
            exact ⟨t3, ctx3, T3, hloop, hall.trans hrw3, hbal⟩
        · rw [if_neg fun hk => hab (hkids.1 hk)]
          have hab' : a.isRed = true ∨ b.isRed = true := by
            rwa [not_and_or, Bool.not_eq_false, Bool.not_eq_false] at hab
          obtain ⟨t2, T2, hbody, hrw2, hbal⟩ := eraseFixupRotate_spec h1 hfits1 hT hab' (ptr T)
          refine ⟨t2, [], T2, by rw [hbody], hrw1.trans hrw2, ?_⟩
          rwa [plug_nil, hbal.blacken_eq]

end Fixup

variable {T : ColorTree Label} {d : Dir}

/-- `rb_erase_fixup` removes the deficit. -/
lemma rbEraseFixup_spec {t : RbTree} {ctx : List (Frame Label)} {n fuel : ℕ}
    (hfuel : ctx.length < fuel) (h : HoldsAt t ctx T) (hfits : Fits (n + 1) ctx)
    (hT : Below .black n T) (hd : ∀ f ∈ ctx.head?, d = f.dir) :
    ∃ t' T', rbEraseFixup fuel t (ptr T) (parentOf ctx) d = some t' ∧
      Rewrites (plug ctx T) T' t t' ∧ Balanced T' := by
  obtain ⟨t1, _, T1, hloop, hrw, hbal⟩ := eraseFixupLoop_spec fuel hfuel h hfits hT hd
  refine ⟨t1.setColorOf (ptr T1) .black, _, ?_, hrw.trans hrw.holdsAt.rewrites_blacken, hbal⟩
  rw [rbEraseFixup, hloop]
  rfl

/-! ## Unlinking -/

section Unlink

variable {cy : Color} {fuel : ℕ}

variable {t : RbTree} {ctx : List (Frame Label)} {c : Color} {L R V X : ColorTree Label}
  {y z : Label}

@[simp] lemma rbTransplant_malformed (t : RbTree) (u : Addr) (v : Option Addr) :
    (rbTransplant t u v).malformed = t.malformed := by simp [rbTransplant]

/-- `rb_transplant` puts a detached subtree in the place of `u`. -/
lemma rbTransplant_spec {u : Addr} {p : Option Addr} (hctx : RepCtx t.node t.root (some u) ctx)
    (hparent : (t.node u).parent = parentOf ctx) (hu : u ∉ ctxAddrs ctx)
    (hnd : (ctxAddrs ctx).Nodup) (hV : Rep t.node p V) (hndV : (addrs V).Nodup)
    (hdis : (ctxAddrs ctx).Disjoint (addrs V)) :
    HoldsAt (rbTransplant t u (ptr V)) ctx V ∧
      Keeps (ctxAddrs ctx ++ addrs V) t (rbTransplant t u (ptr V)) := by
  set t1 := t.replaceChild u (ptr V) with ht1
  have hstore := ht1.trans (hctx.replaceChild_eq hparent hu _)
  have k1 : Keeps (ctxAddrs ctx) t t1 := hstore ▸ keeps_store _ _ _
  have hparent1 : (t1.node u).parent = parentOf ctx := by rw [k1 _ hu, hparent]
  have hctx1 : RepCtx t1.node t1.root (ptr V) ctx := hstore ▸ hctx.store hnd _
  have hV1 : Rep t1.node p V := hV.of_keeps k1 hdis
  have k2 : Keeps (addrs V) t1 (t1.setParentOf (ptr V) (parentOf ctx)) := keeps_setParentOf _ _ _
  have heq : rbTransplant t u (ptr V) = t1.setParentOf (ptr V) (parentOf ctx) := by
    rw [rbTransplant, ← ht1, hparent1]
  rw [heq]
  refine ⟨⟨?_, hV1.setParentOf hndV _, hndV, hnd, hdis⟩, ?_⟩
  · exact hctx1.of_keeps k2 (setParentOf_root ..) fun v hv hc => hdis hc hv
  · exact (k1.mono (List.subset_append_left _ _)).trans (k2.mono (List.subset_append_right _ _))

/-- Hanging a detached subtree below a node without a left child. -/
lemma attachLeft_spec {p : Option Addr} (h : HoldsAt t ctx (node c nil y R))
    (hL : Rep t.node p L) (hndL : (addrs L).Nodup) (hyL : y.addr ∉ addrs L)
    (hcL : (ctxAddrs ctx).Disjoint (addrs L)) (hLR : (addrs L).Disjoint (addrs R)) :
    HoldsAt ((t.setChild y.addr .left (ptr L)).setParentOf (ptr L) (some y.addr)) ctx
      (node c L y R) := by
  obtain ⟨t1, ht1⟩ : ∃ t1, t1 = t.setChild y.addr .left (ptr L) := ⟨_, rfl⟩
  obtain ⟨hy, -, hR⟩ := h.sub
  obtain ⟨-, hyR, -, hndR, -⟩ := nodup_addrs_bin (d := .left) (c := c).1 h.nodup
  have hyc : y.addr ∉ ctxAddrs ctx := fun hv =>
    h.disjoint hv (mem_addrs_node.2 (.inl rfl))
  have hcR : (ctxAddrs ctx).Disjoint (addrs R) := fun v hc hv =>
    h.disjoint hc (mem_addrs_node.2 (.inr (.inr hv)))
  have k1 : Keeps [y.addr] t t1 := ht1 ▸ keeps_modify _ _ _
  have k2 : Keeps (addrs L) t1 (t1.setParentOf (ptr L) (some y.addr)) := keeps_setParentOf _ _ _
  have hctx1 : RepCtx t1.node t1.root (some y.addr) ctx :=
    h.context.of_keeps k1 (by rw [ht1]; rfl) (by simpa using hyc)
  have hL1 : Rep t1.node p L := hL.of_keeps k1 (by simpa using hyL)
  have hR1 : Rep t1.node (some y.addr) R := hR.of_keeps k1 (by simpa using hyR)
  have hy1 : t1.node y.addr = ⟨c, parentOf ctx, ptr L, ptr R, y.key⟩ := by
    rw [ht1, RbTree.setChild, RbTree.modify_node, hy]
    rfl
  rw [← ht1]
  refine ⟨?_, ⟨?_, hL1.setParentOf hndL _, hR1.of_keeps k2 hLR⟩, ?_, h.nodupCtx, ?_⟩
  · exact hctx1.of_keeps k2 (setParentOf_root ..) fun v hv hc => hcL hc hv
  · rw [k2 _ hyL, hy1]
  · exact nodup_addrs_bin (d := .left).2 ⟨hyL, hyR, hndL, hndR, hLR⟩
  · intro v hc hv
    rw [mem_addrs_node] at hv
    obtain rfl | hv | hv := hv
    · exact hyc hc
    · exact hcL hc hv
    · exact hcR hc hv

/-- The situation before the successor takes the place of `z`: the context of `z`,
its left subtree, and the detached subtree below the successor. -/
structure Detached (t : RbTree) (ctx : List (Frame Label)) (c : Color) (L : ColorTree Label)
    (z : Label) (V : ColorTree Label) : Prop where
  context : RepCtx t.node t.root (some z.addr) ctx
  node : ∃ right, t.node z.addr = ⟨c, parentOf ctx, ptr L, right, z.key⟩
  left : Rep t.node (some z.addr) L
  sub : ∃ p, Rep t.node p V
  nodup : (z.addr :: (ctxAddrs ctx ++ (addrs L ++ addrs V))).Nodup

lemma takePlace_spec (h : Detached t ctx c L z (node cy nil y R)) :
    HoldsAt (takePlace t z.addr y.addr) ctx (node c L y R) := by
  obtain ⟨right, hz⟩ := h.node
  obtain ⟨p, hV⟩ := h.sub
  have hnd := h.nodup
  simp only [List.nodup_cons, List.nodup_append', List.mem_append, not_or,
    List.disjoint_append_right] at hnd
  obtain ⟨⟨hzc, hzL, hzV⟩, hndc, ⟨hndL, hndV, hLV⟩, hcL, hcV⟩ := hnd
  have hmemV : ∀ v, v ∈ addrs (node cy nil y R) ↔ v = y.addr ∨ v ∈ addrs R := fun v => by
    simp [mem_addrs_node]
  obtain ⟨hat1, k1⟩ := rbTransplant_spec h.context (by rw [hz]) hzc hndc hV hndV hcV
  set t1 := rbTransplant t z.addr (some y.addr) with ht1
  have hat1' : HoldsAt t1 ctx (node cy nil y R) := ht1 ▸ hat1
  have k1' : Keeps (ctxAddrs ctx ++ addrs (node cy nil y R)) t t1 := ht1 ▸ k1
  have hz1 : t1.node z.addr = ⟨c, parentOf ctx, ptr L, right, z.key⟩ := by
    rw [k1' _ (by simp [hzc, hzV]), hz]
  have hyL : y.addr ∉ addrs L := fun hv => hLV hv ((hmemV _).2 (.inl rfl))
  have hL1 : Rep t1.node (some z.addr) L := h.left.of_keeps k1' (by
    simp only [List.disjoint_append_left]
    exact ⟨hcL, fun v hv hv' => hLV hv' hv⟩)
  have hat2 := attachLeft_spec hat1' hL1 hndL hyL hcL
    fun v hv hR => hLV hv ((hmemV v).2 (.inr hR))
  set t2 := (t1.setChild y.addr .left (ptr L)).setParentOf (ptr L)
    (some y.addr) with ht2
  have k2 : Keeps [y.addr] t1 (t1.setChild y.addr .left (ptr L)) := keeps_modify _ _ _
  have k3 : Keeps (addrs L) (t1.setChild y.addr .left (ptr L)) t2 := ht2 ▸ keeps_setParentOf _ _ _
  have hzy : z.addr ≠ y.addr := fun he => hzV ((hmemV _).2 (.inl he))
  have heq : takePlace t z.addr y.addr = t2.setColor y.addr c := by
    have hchild : ((t1.setChild y.addr .left (ptr L)).node y.addr).left = ptr L := by
      rw [RbTree.setChild, RbTree.modify_node]
      rfl
    have hcolor : (t2.node z.addr).color = c := by
      rw [k3 _ hzL, k2 _ (by simpa using hzy), hz1]
    simp only [takePlace, ← ht1, hz1, hchild, ← ht2, hcolor]
  rw [heq]
  exact HoldsAt.setColor (d := .left) (ht2 ▸ hat2) c

@[simp] lemma takePlace_malformed (t : RbTree) (z y : Addr) :
    (takePlace t z y).malformed = t.malformed := by
  simp [takePlace, RbTree.setColor, RbTree.setChild]

/-- The addresses at a node, listed. -/
lemma HoldsAt.nodup_list (h : HoldsAt t ctx (bin d c L z R)) :
    (z.addr :: (ctxAddrs ctx ++ (addrs L ++ addrs R))).Nodup := by
  obtain ⟨hzL, hzR, hndL, hndR, hLR⟩ := nodup_addrs_bin.1 h.nodup
  have hdis : ∀ v ∈ ctxAddrs ctx, v ≠ z.addr ∧ v ∉ addrs L ∧ v ∉ addrs R := fun v hv => by
    have hnot := h.disjoint hv
    rw [mem_addrs_bin] at hnot
    tauto
  simp only [List.nodup_cons, List.nodup_append', List.mem_append, not_or,
    List.disjoint_append_right]
  exact ⟨⟨fun hv => (hdis _ hv).1 rfl, hzL, hzR⟩, h.nodupCtx, ⟨hndL, hndR, hLR⟩,
    fun v hv => (hdis v hv).2.1, fun v hv => (hdis v hv).2.2⟩

/-- `while (y->left) y = y->left` ends at the first label. -/
lemma leftmost_spec {l r : ColorTree Label} {x : Label} (h : HoldsAt t ctx (node c l x r))
    (hfuel : l.toList.length < fuel) :
    ∃ path cy y X, leftmost t fuel x.addr = some y.addr ∧
      node c l x r = plug path (node cy nil y X) ∧ ∀ f ∈ path, f.dir = .left := by
  induction l generalizing ctx c x r fuel with
  | nil =>
    obtain ⟨fuel, rfl⟩ := Nat.exists_eq_add_of_lt hfuel
    refine ⟨[], c, x, r, ?_, rfl, by simp⟩
    rw [leftmost, h.sub.1]
    rfl
  | node c' l' x' r' ihl _ =>
    obtain ⟨fuel, rfl⟩ : ∃ k, fuel = k + 1 := ⟨fuel - 1, by omega⟩
    simp only [toList, List.length_append, List.length_cons] at hfuel
    have hl : HoldsAt t (⟨.left, c, x, r⟩ :: ctx) (node c' l' x' r') := HoldsAt.near h
    obtain ⟨path, cy, y, X, hmost, hplug, hleft⟩ := ihl hl (show l'.toList.length < fuel by omega)
    refine ⟨path ++ [⟨.left, c, x, r⟩], cy, y, X, ?_, ?_, ?_⟩
    · rwa [leftmost, h.sub.1]
    · rw [plug_append, ← hplug]
      rfl
    · intro f hf
      obtain hf | rfl := List.mem_append.1 hf |>.imp_right List.mem_singleton.1
      · exact hleft f hf
      · rfl

@[simp] lemma setChild_malformed (t : RbTree) (a : Addr) (d : Dir) (v : Option Addr) :
    (t.setChild a d v).malformed = t.malformed := rfl

/-- The successor is the right child itself. -/
lemma detachSuccessor_adjacent (h : HoldsAt t ctx (node c L z (node cy nil y X))) :
    ∃ t', detachSuccessor t z.addr y.addr = some (t', y.addr, .right) ∧
      Detached t' ctx c L z (node cy nil y X) ∧ t'.malformed = t.malformed := by
  have hy : HoldsAt t (⟨.right, c, z, L⟩ :: ctx) (node cy nil y X) := HoldsAt.far (d := .left) h
  have hnd := HoldsAt.nodup_list (d := .left) h
  have k : Keeps (addrs X) t (t.setParentOf (ptr X) (some y.addr)) := keeps_setParentOf _ _ _
  have hmemV : ∀ v, v ∈ addrs (node cy nil y X) ↔ v = y.addr ∨ v ∈ addrs X := fun v => by
    simp [mem_addrs_node]
  have hnd' := hnd
  simp only [List.nodup_cons, List.nodup_append', List.mem_append, not_or,
    List.disjoint_append_right, hmemV] at hnd'
  obtain ⟨⟨-, -, -, hzX⟩, -, ⟨-, -, hLV⟩, -, hcV⟩ := hnd'
  obtain ⟨-, hyX, -, hndX, -⟩ := nodup_addrs_bin (d := .left) (c := cy).1 hy.nodup
  obtain ⟨hynode, -, hX⟩ := hy.sub
  refine ⟨t.setParentOf (ptr X) (some y.addr), ?_, ⟨?_, ⟨some y.addr, ?_⟩, ?_, ⟨some z.addr, ?_⟩,
    hnd⟩, setParentOf_malformed ..⟩
  · simp [detachSuccessor, hynode]
  · exact h.context.of_keeps k (setParentOf_root ..) fun v hv hc => hcV hc ((hmemV v).2 (.inr hv))
  · rw [k _ hzX, h.sub.1]
    rfl
  · exact h.sub.2.1.of_keeps k fun v hv hL => hLV hL ((hmemV v).2 (.inr hv))
  · exact ⟨by rw [k _ hyX, hynode]; rfl, trivial, hX.setParentOf hndX _⟩

/-- The successor lies deeper: its right child moves up first. -/
lemma detachSuccessor_deep {f : Frame Label} {path : List (Frame Label)}
    (hleft : ∀ g ∈ f :: path, g.dir = .left)
    (h : HoldsAt t ctx (node c L z (plug (f :: path) (node cy nil y X)))) :
    ∃ t', detachSuccessor t z.addr y.addr = some (t', f.label.addr, f.dir) ∧
      Detached t' ctx c L z (node cy nil y (plug (f :: path) X)) ∧
      t'.malformed = t.malformed := by
  set R := plug (f :: path) X with hR
  set full := f :: path ++ ⟨.right, c, z, L⟩ :: ctx with hfull
  have hplug : ∀ S, plug full S = plug ctx (node c L z (plug (f :: path) S)) := fun S => by
    rw [hfull, plug_append]
    rfl
  have hy : HoldsAt t full (node cy nil y X) := represents_plug.1 (by
    rw [hplug]
    exact represents_plug.2 h)
  obtain ⟨hynode, -, hX⟩ := hy.sub
  obtain ⟨-, hyX, -, hndX, -⟩ := nodup_addrs_bin (d := .left) (c := cy).1 hy.nodup
  have hmem : ∀ S v, v ∈ addrs (node cy nil y S) ↔ v = y.addr ∨ v ∈ addrs S := fun S v => by
    simp [mem_addrs_node]
  -- the detached subtree has the addresses of the right subtree
  have hnd : (z.addr :: (ctxAddrs ctx ++ (addrs L ++ addrs (node cy nil y R)))).Nodup := by
    have hlist := HoldsAt.nodup_list (d := .left) h
    rwa [addrs, addrs, toList_plug_left hleft cy cy, ← hR] at hlist
  have hnd' := hnd
  simp only [List.nodup_cons, List.nodup_append', List.mem_append, not_or,
    List.disjoint_append_right, hmem] at hnd'
  obtain ⟨⟨-, -, hzy, hzR⟩, -, ⟨-, hndV, hLV⟩, -, hcV⟩ := hnd'
  obtain ⟨-, hyR, -, hndR, -⟩ := nodup_addrs_bin (d := .left) (c := cy).1 hndV
  have hyL : y.addr ∉ addrs L := fun hv => hLV hv ((hmem R _).2 (.inl rfl))
  have hyc : y.addr ∉ ctxAddrs ctx := fun hv => hcV hv ((hmem R _).2 (.inl rfl))
  have hLR : (addrs R).Disjoint (addrs L) := fun v hv hL => hLV hL ((hmem R _).2 (.inr hv))
  have hcR : (addrs R).Disjoint (ctxAddrs ctx) := fun v hv hc => hcV hc ((hmem R _).2 (.inr hv))
  -- the right child of `y` moves up
  have hyfull : y.addr ∉ ctxAddrs full := fun hv => hy.disjoint hv ((hmem X _).2 (.inl rfl))
  have hparent : (t.node y.addr).parent = parentOf full := by rw [hynode]
  obtain ⟨hat1, k1⟩ := rbTransplant_spec (u := y.addr) hy.context hparent hyfull hy.nodupCtx hX hndX
    fun v hv hv' => hy.disjoint hv ((hmem X v).2 (.inr hv'))
  set t1 := rbTransplant t y.addr (ptr X) with ht1
  have h1 : HoldsAt t1 ctx (node c L z R) := represents_plug.1 (by
    rw [hR, ← hplug]
    exact represents_plug.2 hat1)
  have hy1 : t1.node y.addr = ⟨cy, parentOf full, none, ptr X, y.key⟩ := by
    rw [k1 _ (by simp [hyfull, hyX]), hynode]
    rfl
  -- `y` takes over the right subtree of `z`
  set t2 := t1.setChild y.addr .right (ptr R) with ht2
  have k2 : Keeps [y.addr] t1 t2 := ht2 ▸ keeps_modify _ _ _
  have hy2 : t2.node y.addr = ⟨cy, parentOf full, none, ptr R, y.key⟩ := by
    rw [ht2, RbTree.setChild, RbTree.modify_node, hy1]
    rfl
  set t3 := t2.setParentOf (ptr R) (some y.addr) with ht3
  have k3 : Keeps (addrs R) t2 t3 := ht3 ▸ keeps_setParentOf _ _ _
  have hR2 : Rep t2.node (some z.addr) R := h1.sub.2.2.of_keeps k2 (by simpa using hyR)
  have hroot3 : t3.root = t1.root := by rw [ht3, setParentOf_root, ht2]; rfl
  refine ⟨t3, ?_, ⟨?_, ⟨ptr R, ?_⟩, ?_, ⟨parentOf full, ?_⟩, hR ▸ hnd⟩, ?_⟩
  · have hne : (t.node y.addr).parent ≠ some z.addr := by
      rw [hparent, hfull]
      intro he
      refine hzR ?_
      rw [hR, mem_addrs_plug, ← Option.some.inj he]
      simp
    have hside : t.sideOf (some y.addr) f.label.addr = f.dir := by
      rw [hfull] at hy
      exact HoldsAt.sideOf_eq (d := .left) hy
    have hpf : (t.node y.addr).parent = some f.label.addr := by rw [hparent, hfull]; rfl
    have hyright : (t.node y.addr).right = ptr X := by rw [hynode]
    have hzright : (t1.node z.addr).right = ptr R := by rw [h1.sub.1]
    have hyright2 : (t2.node y.addr).right = ptr R := by rw [hy2]
    rw [detachSuccessor, if_neg hne, hpf]
    simp only [hside, hyright, ← ht1, hzright, ← ht2, hyright2, ← ht3]
  · have hctx : ∀ v ∈ ctxAddrs ctx, t3.node v = t1.node v := fun v hv => by
      have hvy : v ≠ y.addr := fun he => hyc (he ▸ hv)
      rw [k3 _ (fun hR' => hcR hR' hv), k2 _ (by simpa using hvy)]
    rw [hroot3]
    exact h1.context.congr hctx
  · rw [k3 _ hzR, k2 _ (by simpa using hzy), h1.sub.1]
  · exact (h1.sub.2.1.of_keeps k2 (by simpa using hyL)).of_keeps k3 hLR
  · exact hR ▸ ⟨by rw [k3 _ hyR, hy2]; rfl, trivial, ht3 ▸ hR2.setParentOf hndR _⟩
  · rw [ht3, setParentOf_malformed, ht2, setChild_malformed, ht1, rbTransplant_malformed]

/-- What unlinking leaves: the focus `X` of the fix-up, one black node short when the
removed colour is black. -/
structure Unlinked (T : ColorTree Label) (z : Label) (t t' : RbTree) (ctx : List (Frame Label))
    (X : ColorTree Label) (d : Dir) (cy : Color) : Prop where
  holdsAt : HoldsAt t' ctx X
  side : ∀ f ∈ ctx.head?, d = f.dir
  toList : ∃ l r, T.toList = l ++ z :: r ∧ (plug ctx X).toList = l ++ r
  balance : ∃ n, match cy with
    | .red => Fits n ctx ∧ Below (above ctx) n X
    | .black => Fits (n + 1) ctx ∧ Below .black n X
  malformed : t'.malformed = t.malformed

/-- A node with at most one child is replaced by that child. -/
lemma unlinked_transplant {e : Dir} (h : HoldsAt t ctx (bin e c nil z X))
    (hbal : Balanced (plug ctx (bin e c nil z X))) :
    Unlinked (plug ctx (bin e c nil z X)) z t (rbTransplant t z.addr (ptr X)) ctx X
      (t.sideAt z.addr .right) c := by
  obtain ⟨-, -, hX⟩ := rep_bin.1 h.sub
  obtain ⟨-, -, -, hndX, -⟩ := nodup_addrs_bin.1 h.nodup
  have hzc : z.addr ∉ ctxAddrs ctx := fun hv => h.disjoint hv (mem_addrs_bin.2 (.inl rfl))
  have hctx : RepCtx t.node t.root (some z.addr) ctx := by simpa using h.context
  have ⟨hat, _⟩ := rbTransplant_spec hctx h.parent_eq hzc h.nodupCtx hX hndX
    fun v hv hv' => h.disjoint hv (mem_addrs_bin.2 (.inr (.inr hv')))
  refine ⟨hat, h.sideAt_eq .right, ?_, ?_, rbTransplant_malformed ..⟩
  · cases e with
    | left => exact ⟨before ctx, X.toList ++ after ctx, by simp [toList_plug, bin, toList],
        by simp [toList_plug]⟩
    | right => exact ⟨before ctx ++ X.toList, after ctx, by simp [toList_plug, bin, toList],
        by simp [toList_plug]⟩
  · obtain ⟨n, hfits, hbelow⟩ := exists_fits hbal
    cases c with
    | red =>
      obtain ⟨-, -, hX'⟩ := (below_bin_red _ _ _ _ _ _).1 hbelow
      exact ⟨n, hfits, hX'.weaken _⟩
    | black =>
      obtain ⟨m, rfl, -, hX'⟩ := (below_bin_black _ _ _ _ _ _).1 hbelow
      exact ⟨m, hfits, hX'⟩

/-- A node with two children is replaced by its successor. -/
lemma unlinked_successor {path : List (Frame Label)} {t' : RbTree}
    (hleft : ∀ g ∈ path, g.dir = .left)
    (hbal : Balanced (plug ctx (node c L z (plug path (node cy nil y X)))))
    (h' : Detached t' ctx c L z (node cy nil y (plug path X))) (hmal : t'.malformed = t.malformed)
    (hd : ∀ f ∈ (path ++ ⟨.right, c, y, L⟩ :: ctx).head?, d = f.dir) :
    Unlinked (plug ctx (node c L z (plug path (node cy nil y X)))) z t
      (takePlace t' z.addr y.addr) (path ++ ⟨.right, c, y, L⟩ :: ctx) X d cy := by
  have hplug : ∀ (w : Label) S, plug (path ++ ⟨.right, c, w, L⟩ :: ctx) S
      = plug ctx (node c L w (plug path S)) := fun w S => by
    rw [plug_append]
    rfl
  have hlist := toList_plug_left hleft cy cy y X
  refine ⟨represents_plug.1 ?_, hd, ?_, ?_, ?_⟩
  · rw [hplug]
    exact represents_plug.2 (takePlace_spec h')
  · refine ⟨before ctx ++ L.toList, y :: (plug path X).toList ++ after ctx, ?_, ?_⟩
    · rw [toList_plug, toList, hlist]
      simp [toList]
    · rw [hplug, toList_plug]
      simp [toList]
  · rw [← hplug] at hbal
    obtain ⟨n, hfits, hbelow⟩ := exists_fits hbal
    cases cy with
    | red =>
      obtain ⟨-, -, hX'⟩ := (below_bin_red _ _ .left _ _ _).1 hbelow
      exact ⟨n, hfits.relabel, hX'.weaken _⟩
    | black =>
      obtain ⟨m, rfl, -, hX'⟩ := (below_bin_black _ _ .left _ _ _).1 hbelow
      exact ⟨m, hfits.relabel, hX'⟩
  · rw [takePlace_malformed, hmal]

/-- **Unlinking a node.** -/
lemma eraseUnlink_spec (h : IsTree t T) (hz : z ∈ T.toList) (hfuel : T.toList.length < fuel) :
    ∃ t' ctx X d cy, eraseUnlink fuel t z.addr = some (t', ptr X, parentOf ctx, d, cy) ∧
      Unlinked T z t t' ctx X d cy := by
  obtain ⟨ctx, c, L, R, rfl⟩ := exists_plug_of_mem hz
  have hat : HoldsAt t ctx (node c L z R) := represents_plug.1 h.represents
  have hnode : t.node z.addr = ⟨c, parentOf ctx, ptr L, ptr R, z.key⟩ := hat.sub.1
  match L, R, hat, hnode, h.balanced, hfuel with
  | nil, R, hat, hnode, hbal, _ =>
    refine ⟨_, ctx, R, _, c, ?_, unlinked_transplant (e := .left) hat hbal⟩
    simp [eraseUnlink, hnode]
  | node lc ll lx lr, nil, hat, hnode, hbal, _ =>
    refine ⟨_, ctx, node lc ll lx lr, _, c, ?_, unlinked_transplant (e := .right) hat hbal⟩
    simp [eraseUnlink, hnode, ptr]
  | node lc ll lx lr, node rc rl rx rr, hat, hnode, hbal, hfuel =>
    have hfuel' : rl.toList.length < fuel := by
      have := length_le_toList_plug ctx (node c (node lc ll lx lr) z (node rc rl rx rr))
      simp only [toList, List.length_append, List.length_cons] at this hfuel
      omega
    obtain ⟨path, cy, y, X, hmost, hplug, hleft⟩ :=
      leftmost_spec (HoldsAt.far (d := .left) hat) hfuel'
    rw [hplug] at hat hbal ⊢
    have hyX : (t.node y.addr).right = ptr X ∧ (t.node y.addr).color = cy := by
      have hy : HoldsAt t (path ++ ⟨.right, c, z, node lc ll lx lr⟩ :: ctx) (node cy nil y X) :=
        represents_plug.1 (by
          rw [plug_append]
          exact represents_plug.2 (HoldsAt.far (d := .left) hat))
      rw [hy.sub.1]
      exact ⟨rfl, rfl⟩
    have hstep : ∀ t' (q : Addr) d, detachSuccessor t z.addr y.addr = some (t', q, d) →
        eraseUnlink fuel t z.addr = some (takePlace t' z.addr y.addr, ptr X, some q, d, cy) := by
      intro t' q d hdetach
      simp [eraseUnlink, hnode, ptr, hmost, hdetach, hyX]
    cases path with
    | nil =>
      obtain ⟨t', hdetach, hdet, hmal⟩ := detachSuccessor_adjacent hat
      exact ⟨_, _, X, .right, cy, hstep _ _ _ hdetach, unlinked_successor hleft hbal hdet hmal
        (by simp)⟩
    | cons f path =>
      obtain ⟨t', hdetach, hdet, hmal⟩ := detachSuccessor_deep hleft hat
      exact ⟨_, _, X, f.dir, cy, hstep _ _ _ hdetach, unlinked_successor hleft hbal hdet hmal
        (by simp)⟩

/-- **One deletion**: the node leaves the labels, the tree stays a red-black search
tree and no malformed exit is taken. -/
lemma rbErase_spec (h : IsTree t T) (hz : z ∈ T.toList) (hfuel : T.toList.length < fuel) :
    ∃ t' T', rbErase fuel t z.addr = some t' ∧ IsTree t' T' ∧ T.toList.Perm (z :: T'.toList) ∧
      t'.malformed = t.malformed := by
  obtain ⟨t1, ctx, X, d, cy, hunlink, hun⟩ := eraseUnlink_spec h hz hfuel
  obtain ⟨l, r, hT, hlist⟩ := hun.toList
  have hsorted : (plug ctx X).toList.Pairwise labelLt := by
    rw [hlist]
    exact h.sorted.sublist (hT ▸ List.Sublist.append_left (List.sublist_cons_self z r) l)
  have hperm : T.toList.Perm (z :: (plug ctx X).toList) := by
    rw [hT, hlist]
    exact List.perm_middle
  obtain ⟨n, hbal⟩ := hun.balance
  cases cy with
  | red =>
    refine ⟨t1, plug ctx X, ?_, ⟨represents_plug.2 hun.holdsAt, hbal.1.plug hbal.2, hsorted⟩,
      hperm, hun.malformed⟩
    simp [rbErase, hunlink]
  | black =>
    have hlen : ctx.length < fuel := by
      have hle := length_le_toList_plug ctx X
      rw [hlist] at hle
      rw [hT] at hfuel
      simp only [List.length_append, List.length_cons] at hle hfuel
      omega
    obtain ⟨t2, T2, hfix, hrw, hbal2⟩ :=
      rbEraseFixup_spec hlen hun.holdsAt hbal.1 hbal.2 hun.side
    refine ⟨t2, T2, ?_, ⟨hrw.represents, hbal2, hrw.toList ▸ hsorted⟩, hrw.toList ▸ hperm,
      hrw.malformed.trans hun.malformed⟩
    simp [rbErase, hunlink, hfix]

end Unlink

end Aurora.Rbtree
