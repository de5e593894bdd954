/-
# Wk.Library.PathTree -- a tree seen by its paths

A tree of branches and labelled leaves is the function that says what stands at each
path.  Three changes are made to it: a region is cut (`cut`), branches are grown along a
path (`grow`), and a leaf is put at a path, in place of what stands there and below, with
branches above it (`put`).  The last two stop at a leaf in their way and then change
nothing.

Cuts can be exchanged, and so can two changes that add, unless both put a leaf at one
path (`change_change`): also where one path lies below the other.  So what a list of
additions leaves does not depend on its order (`make_perm`), and which of them stand in
the end is known from the tree before (`stands_iff`).  Made from nothing, a list of which no
leaf is above another addition leaves what was last put at each path (`make_settled`); some of
a list, in some order, leave what the list means exactly where they carry it
(`make_meant_iff`).
-/
import Mathlib.Data.List.Infix
import Mathlib.Data.List.Nodup

namespace Wk.Library

set_option autoImplicit false

/-- What stands at a path. -/
inductive Stand (V : Type) where
  | free
  | branch
  | leaf (v : V)

/-- What stands at each path: a branch at the root, and above everything that stands. -/
@[ext] structure PathTree (K V : Type) where
  stand : List K → Stand V
  root : stand [] = .branch
  rooted : ∀ {path : List K} {k : K}, stand (path ++ [k]) ≠ .free → stand path = .branch

/-- `q` lies strictly above `p`. -/
def Above {K : Type} (q p : List K) : Prop := q <+: p ∧ q ≠ p

section Paths

variable {K : Type} {p q r : List K}

theorem prefix_antisymm (down : p <+: q) (up : q <+: p) : p = q :=
  down.eq_of_length_le up.length_le

theorem Above.trans_prefix (above : Above q p) (down : p <+: r) : Above q r := by
  refine ⟨above.1.trans down, ?_⟩
  rintro rfl
  exact above.2 (prefix_antisymm above.1 down)

theorem above_of_append (down : r <+: q) (above : Above q p) : Above r p := by
  refine ⟨down.trans above.1, ?_⟩
  rintro rfl
  exact above.2 (prefix_antisymm above.1 down)

theorem above_concat {k : K} : Above q (p ++ [k]) ↔ q <+: p := by
  constructor
  · rintro ⟨down, other⟩
    exact (List.prefix_concat_iff.1 down).resolve_left other
  · intro down
    refine ⟨down.trans (List.prefix_append p [k]), ?_⟩
    rintro rfl
    exact absurd down.length_le (by simp)

theorem not_above_nil : ¬ Above q [] := fun above => above.2 (List.prefix_nil.1 above.1)

end Paths

/-- A set of paths with everything below them, without the root. -/
structure Region (K : Type) where
  has : List K → Prop
  down : ∀ {path : List K} {k : K}, has path → has (path ++ [k])
  root : ¬ has []

namespace Region

variable {K : Type}

/-- A path and everything below it; nothing, of the root. -/
def under (p : List K) : Region K where
  has q := p ≠ [] ∧ p <+: q
  down := fun ⟨notRoot, below⟩ => ⟨notRoot, below.trans (List.prefix_append _ _)⟩
  root := fun ⟨notRoot, below⟩ => notRoot (List.prefix_nil.1 below)

end Region

namespace PathTree

variable {K V : Type} (t : PathTree K V) {p q : List K}

def LeafAt (q : List K) : Prop := ∃ v, t.stand q = .leaf v

/-- A leaf stands at or above `p`. -/
def Sealed (p : List K) : Prop := ∃ q, q <+: p ∧ t.LeafAt q

/-- Nothing can be put at `p`: it is the root, or a leaf stands above it. -/
def Blocked (p : List K) : Prop := p = [] ∨ ∃ q, Above q p ∧ t.LeafAt q

variable {t}

/-- Above what stands are branches. -/
theorem stand_above (above : Above q p) (stands : t.stand p ≠ .free) : t.stand q = .branch := by
  induction p using List.reverseRecOn with
  | nil => exact absurd above not_above_nil
  | append_singleton p k ih =>
    have parent := t.rooted stands
    by_cases here : q = p
    · exact here ▸ parent
    · exact ih ⟨above_concat.1 above, here⟩ (by rw [parent]; nofun)

theorem LeafAt.free_below (leaf : t.LeafAt q) (above : Above q p) : t.stand p = .free := by
  by_contra stands
  obtain ⟨v, here⟩ := leaf
  rw [stand_above above stands] at here
  cases here

theorem Sealed.mono (closed : t.Sealed p) (down : p <+: q) : t.Sealed q := by
  obtain ⟨r, above, leaf⟩ := closed
  exact ⟨r, above.trans down, leaf⟩

theorem blocked_concat {k : K} : t.Blocked (p ++ [k]) ↔ t.Sealed p := by
  simp [Blocked, Sealed, above_concat]

/-! ## Cutting -/

open Classical in
/-- Nothing stands in `region` any more. -/
noncomputable def cut (t : PathTree K V) (region : Region K) : PathTree K V where
  stand q := if region.has q then .free else t.stand q
  root := by rw [if_neg region.root, t.root]
  rooted {path k} stands := by
    by_cases gone : region.has (path ++ [k])
    · exact absurd (if_pos gone) stands
    · rw [if_neg gone] at stands
      rw [if_neg fun above => gone (region.down above), t.rooted stands]

open Classical in
theorem cut_stand (region : Region K) :
    (t.cut region).stand q = if region.has q then .free else t.stand q := rfl

/-! ## Adding -/

open Classical in
/-- Branches along `p`, unless a leaf is in the way. -/
noncomputable def grow (t : PathTree K V) (p : List K) : PathTree K V where
  stand q := if ¬ t.Sealed p ∧ q <+: p then .branch else t.stand q
  root := by
    split
    · rfl
    · exact t.root
  rooted {path k} stands := by
    by_cases grown : ¬ t.Sealed p ∧ path <+: p
    · exact if_pos grown
    · rw [if_neg grown]
      rw [if_neg fun there => grown ⟨there.1, (List.prefix_append path [k]).trans there.2⟩] at stands
      exact t.rooted stands

theorem grow_within (free : ¬ t.Sealed p) (within : q <+: p) : (t.grow p).stand q = .branch :=
  if_pos ⟨free, within⟩

theorem grow_outside (outside : ¬ q <+: p) : (t.grow p).stand q = t.stand q :=
  if_neg fun grown => outside grown.2

theorem grow_closed (closed : t.Sealed p) : t.grow p = t := by
  ext q
  exact if_neg fun grown => grown.1 closed

open Classical in
/-- A leaf at `p` and branches above it, in place of what stood there and below. -/
noncomputable def put (t : PathTree K V) (p : List K) (v : V) : PathTree K V where
  stand q :=
    if t.Blocked p then t.stand q
    else if q = p then .leaf v
    else if p <+: q then .free
    else if q <+: p then .branch
    else t.stand q
  root := by
    by_cases blocked : t.Blocked p
    · rw [if_pos blocked, t.root]
    · have notRoot : p ≠ [] := fun same => blocked (.inl same)
      rw [if_neg blocked, if_neg notRoot.symm, if_neg fun below => notRoot (List.prefix_nil.1 below),
        if_pos List.nil_prefix]
  rooted {path k} stands := by
    by_cases blocked : t.Blocked p
    · rw [if_pos blocked] at stands ⊢
      exact t.rooted stands
    rw [if_neg blocked] at stands ⊢
    by_cases here : path ++ [k] = p
    · have above : Above path p := here ▸ above_concat.2 List.prefix_rfl
      rw [if_neg above.2, if_neg fun below => above.2 (prefix_antisymm above.1 below), if_pos above.1]
    · rw [if_neg here] at stands
      by_cases below : p <+: path ++ [k]
      · exact absurd (if_pos below) stands
      · have notBelow : ¬ p <+: path := fun down => below (down.trans (List.prefix_append path [k]))
        have other : path ≠ p := fun same => notBelow (same ▸ List.prefix_rfl)
        rw [if_neg below] at stands
        rw [if_neg other, if_neg notBelow]
        by_cases above : path <+: p
        · exact if_pos above
        · rw [if_neg fun there => above ((List.prefix_append path [k]).trans there)] at stands
          rw [if_neg above]
          exact t.rooted stands

theorem put_blocked {v : V} (blocked : t.Blocked p) : t.put p v = t := by
  ext q
  exact if_pos blocked

section Put

variable {v : V} (free : ¬ t.Blocked p)

include free

theorem put_here : (t.put p v).stand p = .leaf v := by
  simp only [put, if_neg free, if_true]

theorem put_below (below : Above p q) : (t.put p v).stand q = .free := by
  simp only [put, if_neg free, if_neg below.2.symm, if_pos below.1]

theorem put_above (above : Above q p) : (t.put p v).stand q = .branch := by
  have notBelow : ¬ p <+: q := fun below => above.2 (prefix_antisymm above.1 below)
  simp only [put, if_neg free, if_neg above.2, if_neg notBelow, if_pos above.1]

theorem put_apart (notBelow : ¬ p <+: q) (notAbove : ¬ q <+: p) : (t.put p v).stand q = t.stand q := by
  have other : q ≠ p := fun same => notBelow (same ▸ List.prefix_rfl)
  simp only [put, if_neg free, if_neg other, if_neg notBelow, if_neg notAbove]

/-- What stands after a leaf is put depends on what stood beside it only. -/
theorem put_congr {t' : PathTree K V} (free' : ¬ t'.Blocked p)
    (same : ¬ p <+: q → ¬ q <+: p → t.stand q = t'.stand q) : (t.put p v).stand q = (t'.put p v).stand q := by
  by_cases down : p <+: q
  · by_cases here : p = q
    · rw [← here, put_here free, put_here free']
    · rw [put_below free ⟨down, here⟩, put_below free' ⟨down, here⟩]
  · by_cases up : q <+: p
    · have above : Above q p := ⟨up, fun same => down (same ▸ List.prefix_rfl)⟩
      rw [put_above free above, put_above free' above]
    · rw [put_apart free down up, put_apart free' down up, same down up]

/-- The leaves that are not below `p` are those there were. -/
theorem put_leafAt (notBelow : ¬ p <+: q) : (t.put p v).LeafAt q ↔ t.LeafAt q := by
  by_cases above : q <+: p
  · have strict : Above q p := ⟨above, fun same => notBelow (same ▸ List.prefix_rfl)⟩
    constructor
    · rintro ⟨w, leaf⟩
      rw [put_above free strict] at leaf
      cases leaf
    · intro leaf
      exact absurd (.inr ⟨q, strict, leaf⟩) free
  · simp only [LeafAt, put_apart free notBelow above]

theorem put_sealed_iff (notBelow : ¬ p <+: q) : (t.put p v).Sealed q ↔ t.Sealed q :=
  exists_congr fun _ => and_congr_right fun up => put_leafAt free fun down => notBelow (down.trans up)

theorem put_blocked_iff (notBelow : ¬ Above p q) : (t.put p v).Blocked q ↔ t.Blocked q := by
  refine or_congr_right (exists_congr fun r => and_congr_right fun up => put_leafAt free ?_)
  exact fun down => notBelow (above_of_append down up)

end Put

/-- Whatever is put at `p`, a leaf is there or above. -/
theorem put_seals {v : V} (notRoot : p ≠ []) : (t.put p v).Sealed p := by
  by_cases blocked : t.Blocked p
  · rw [put_blocked blocked]
    obtain ⟨q, above, leaf⟩ := blocked.resolve_left notRoot
    exact ⟨q, above.1, leaf⟩
  · exact ⟨p, List.prefix_rfl, v, put_here blocked⟩

theorem grow_leafAt : (t.grow p).LeafAt q ↔ t.LeafAt q := by
  by_cases closed : t.Sealed p
  · rw [grow_closed closed]
  · by_cases within : q <+: p
    · have notLeaf : ¬ t.LeafAt q := fun leaf => closed ⟨q, within, leaf⟩
      refine iff_of_false ?_ notLeaf
      rintro ⟨v, leaf⟩
      rw [grow_within closed within] at leaf
      cases leaf
    · simp only [LeafAt, grow_outside within]

theorem grow_sealed : (t.grow p).Sealed q ↔ t.Sealed q := by
  simp only [Sealed, grow_leafAt]

theorem grow_blocked : (t.grow p).Blocked q ↔ t.Blocked q := by
  simp only [Blocked, grow_leafAt]

/-! ## One step further down -/

theorem not_sealed_of_branch (branch : t.stand p = .branch) : ¬ t.Sealed p := by
  rintro ⟨r, up, leaf⟩
  by_cases same : r = p
  · obtain ⟨v, leaf⟩ := leaf
    exact absurd ((same ▸ leaf).symm.trans branch) nofun
  · exact absurd ((leaf.free_below ⟨up, same⟩).symm.trans branch) nofun

/-- Branches grown along what are branches are there. -/
theorem grow_standing (branch : t.stand p = .branch) : t.grow p = t := by
  ext q
  by_cases within : q <+: p
  · rw [grow_within (not_sealed_of_branch branch) within]
    by_cases same : q = p
    · rw [same, branch]
    · rw [stand_above ⟨within, same⟩ (by rw [branch]; nofun)]
  · exact grow_outside within

/-- Branches along the beginning of a path grow with those along it. -/
theorem grow_grow_prefix (up : p <+: q) : (t.grow p).grow q = t.grow q := by
  by_cases closed : t.Sealed q
  · rw [grow_closed (grow_sealed.2 closed), grow_closed closed]
    by_cases closed' : t.Sealed p
    · exact grow_closed closed'
    · -- a leaf between the two is below all that grows
      ext r
      by_cases within : r <+: p
      · obtain ⟨l, up', leaf⟩ := closed
        have above : Above r l := by
          rcases List.prefix_or_prefix_of_prefix up up' with down | past
          · exact ⟨within.trans down, fun same => closed' ⟨l, same ▸ within, leaf⟩⟩
          · exact absurd ⟨l, past, leaf⟩ closed'
        rw [grow_within closed' within, stand_above above (by obtain ⟨v, leaf⟩ := leaf; rw [leaf]; nofun)]
      · exact grow_outside within
  · have free : ¬ t.Sealed p := fun there => closed (there.mono up)
    ext r
    by_cases within : r <+: q
    · rw [grow_within (fun there => closed (grow_sealed.1 there)) within, grow_within closed within]
    · rw [grow_outside within, grow_outside within, grow_outside fun there => within (there.trans up)]

/-- Under a branch, one branch more grows. -/
theorem grow_concat [DecidableEq K] {k : K} (branch : t.stand p = .branch) (free : t.stand (p ++ [k]) = .free) :
    (t.grow (p ++ [k])).stand q = if q = p ++ [k] then .branch else t.stand q := by
  have open_ : ¬ t.Sealed (p ++ [k]) := by
    rintro ⟨r, up, leaf⟩
    rcases List.prefix_concat_iff.1 up with rfl | up
    · obtain ⟨v, leaf⟩ := leaf
      exact absurd (leaf.symm.trans free) nofun
    · exact not_sealed_of_branch branch ⟨r, up, leaf⟩
  split
  · next same =>
      rw [same]
      exact grow_within open_ List.prefix_rfl
  · next other =>
      by_cases within : q <+: p ++ [k]
      · have up := (List.prefix_concat_iff.1 within).resolve_left other
        rw [grow_within open_ within]
        by_cases same : q = p
        · rw [same, branch]
        · rw [stand_above ⟨up, same⟩ (by rw [branch]; nofun)]
      · exact grow_outside within

/-- A leaf is put where its branches have grown. -/
theorem put_grow {k : K} {v : V} : (t.grow p).put (p ++ [k]) v = t.put (p ++ [k]) v := by
  by_cases blocked : t.Blocked (p ++ [k])
  · rw [put_blocked blocked, put_blocked (grow_blocked.2 blocked), grow_closed (blocked_concat.1 blocked)]
  · have free : ¬ (t.grow p).Blocked (p ++ [k]) := fun there => blocked (grow_blocked.1 there)
    ext q
    by_cases down : p ++ [k] <+: q
    · by_cases here : p ++ [k] = q
      · rw [← here, put_here free, put_here blocked]
      · rw [put_below free ⟨down, here⟩, put_below blocked ⟨down, here⟩]
    · by_cases up : q <+: p ++ [k]
      · have above : Above q (p ++ [k]) := ⟨up, fun same => down (same ▸ List.prefix_rfl)⟩
        rw [put_above free above, put_above blocked above]
      · rw [put_apart free down up, put_apart blocked down up,
          grow_outside fun within => up (within.trans (List.prefix_append _ _))]

/-- Under a branch, a leaf takes the place of what was cut. -/
theorem put_concat [DecidableEq K] {k : K} {v : V} (branch : t.stand p = .branch) :
    (t.put (p ++ [k]) v).stand q =
      if q = p ++ [k] then .leaf v else (t.cut (.under (p ++ [k]))).stand q := by
  have free : ¬ t.Blocked (p ++ [k]) := fun there => not_sealed_of_branch branch (blocked_concat.1 there)
  have notRoot : p ++ [k] ≠ [] := by simp
  split
  · next same =>
      rw [same]
      exact put_here free
  · next other =>
      rw [cut_stand]
      by_cases down : p ++ [k] <+: q
      · rw [if_pos ⟨notRoot, down⟩, put_below free ⟨down, Ne.symm other⟩]
      · rw [if_neg fun there => down there.2]
        by_cases up : q <+: p ++ [k]
        · rw [put_above free ⟨up, other⟩]
          have up := (List.prefix_concat_iff.1 up).resolve_left other
          by_cases same : q = p
          · rw [same, branch]
          · rw [stand_above ⟨up, same⟩ (by rw [branch]; nofun)]
        · exact put_apart free down up

/-! ## Exchanging -/

theorem grow_grow : (t.grow p).grow q = (t.grow q).grow p := by
  by_cases closed : t.Sealed p
  · rw [grow_closed closed, grow_closed (grow_sealed.2 closed)]
  by_cases closed' : t.Sealed q
  · rw [grow_closed closed', grow_closed (grow_sealed.2 closed')]
  have free : ¬ (t.grow q).Sealed p := fun there => closed (grow_sealed.1 there)
  have free' : ¬ (t.grow p).Sealed q := fun there => closed' (grow_sealed.1 there)
  ext r
  by_cases up : r <+: p <;> by_cases up' : r <+: q
  · rw [grow_within free' up', grow_within free up]
  · rw [grow_outside up', grow_within closed up, grow_within free up]
  · rw [grow_within free' up', grow_outside up, grow_within closed' up']
  · rw [grow_outside up', grow_outside up, grow_outside up, grow_outside up']

/-- Branches and a leaf can be added in either order. -/
theorem grow_put {v : V} : (t.grow p).put q v = (t.put q v).grow p := by
  by_cases blocked : t.Blocked q
  · rw [put_blocked blocked, put_blocked (grow_blocked.2 blocked)]
  by_cases closed : t.Sealed p
  · rw [grow_closed closed]
    by_cases below : q <+: p
    · rw [grow_closed ((put_seals fun same => blocked (.inl same)).mono below)]
    · rw [grow_closed ((put_sealed_iff blocked below).2 closed)]
  have free : ¬ (t.grow p).Blocked q := fun there => blocked (grow_blocked.1 there)
  by_cases below : q <+: p
  · -- the leaf takes the branches that were there before, and is in the way of later ones
    rw [grow_closed ((put_seals fun same => blocked (.inl same)).mono below)]
    ext r
    refine put_congr free blocked fun down up => grow_outside fun within => ?_
    exact (List.prefix_or_prefix_of_prefix below within).elim down up
  · have open_ : ¬ (t.put q v).Sealed p := fun there => closed ((put_sealed_iff blocked below).1 there)
    ext r
    by_cases within : r <+: p
    · have notBelow : ¬ q <+: r := fun down => below (down.trans within)
      rw [grow_within open_ within]
      by_cases up : r <+: q
      · exact put_above free ⟨up, fun same => notBelow (same ▸ List.prefix_rfl)⟩
      · rw [put_apart free notBelow up, grow_within closed within]
    · rw [grow_outside within]
      exact put_congr free blocked fun _ _ => grow_outside within

/-- A leaf takes what was put below it before. -/
theorem put_swallows {v w : V} (above : Above p q) (notRoot : p ≠ []) :
    (t.put q w).put p v = t.put p v := by
  by_cases blocked' : t.Blocked q
  · rw [put_blocked blocked']
  have blocked : ¬ t.Blocked p := by
    intro there
    obtain ⟨r, up, leaf⟩ := there.resolve_left notRoot
    exact blocked' (.inr ⟨r, up.trans_prefix above.1, leaf⟩)
  have notUp : ¬ q <+: p := fun up => above.2 (prefix_antisymm above.1 up)
  have free : ¬ (t.put q w).Blocked p := fun there =>
    blocked ((put_blocked_iff blocked' fun up => notUp up.1).1 there)
  ext r
  by_cases down : p <+: r
  · by_cases here : p = r
    · rw [← here, put_here free, put_here blocked]
    · rw [put_below free ⟨down, here⟩, put_below blocked ⟨down, here⟩]
  · by_cases up : r <+: p
    · have strict : Above r p := ⟨up, fun same => down (same ▸ List.prefix_rfl)⟩
      rw [put_above free strict, put_above blocked strict]
    · have apart : ¬ r <+: q := fun there => (List.prefix_or_prefix_of_prefix above.1 there).elim down up
      rw [put_apart free down up, put_apart blocked down up,
        put_apart blocked' (fun there => down (above.1.trans there)) apart]

/-- Two leaves of which neither is above the other can be put in either order. -/
theorem put_put_apart {v w : V} (notBelow : ¬ p <+: q) (notAbove : ¬ q <+: p) :
    (t.put p v).put q w = (t.put q w).put p v := by
  by_cases blocked : t.Blocked p
  · rw [put_blocked blocked]
    by_cases blocked' : t.Blocked q
    · rw [put_blocked blocked', put_blocked blocked]
    · rw [put_blocked ((put_blocked_iff blocked' fun up => notAbove up.1).2 blocked)]
  by_cases blocked' : t.Blocked q
  · rw [put_blocked blocked', put_blocked ((put_blocked_iff blocked fun up => notBelow up.1).2 blocked')]
  have free : ¬ (t.put q w).Blocked p := fun there =>
    blocked ((put_blocked_iff blocked' fun up => notAbove up.1).1 there)
  have free' : ¬ (t.put p v).Blocked q := fun there =>
    blocked' ((put_blocked_iff blocked fun up => notBelow up.1).1 there)
  ext r
  by_cases downP : p <+: r
  · have downQ : ¬ q <+: r := fun down => (List.prefix_or_prefix_of_prefix downP down).elim notBelow notAbove
    have upQ : ¬ r <+: q := fun up => notBelow (downP.trans up)
    rw [put_apart free' downQ upQ]
    by_cases here : p = r
    · rw [← here, put_here free, put_here blocked]
    · rw [put_below free ⟨downP, here⟩, put_below blocked ⟨downP, here⟩]
  by_cases downQ : q <+: r
  · have upP : ¬ r <+: p := fun up => notAbove (downQ.trans up)
    rw [put_apart free downP upP]
    by_cases here : q = r
    · rw [← here, put_here free', put_here blocked']
    · rw [put_below free' ⟨downQ, here⟩, put_below blocked' ⟨downQ, here⟩]
  have strictly : ∀ {p}, ¬ p <+: r → r <+: p → Above r p :=
    fun down up => ⟨up, fun same => down (same ▸ List.prefix_rfl)⟩
  by_cases upQ : r <+: q <;> by_cases upP : r <+: p
  · rw [put_above free' (strictly downQ upQ), put_above free (strictly downP upP)]
  · rw [put_above free' (strictly downQ upQ), put_apart free downP upP, put_above blocked' (strictly downQ upQ)]
  · rw [put_apart free' downQ upQ, put_above blocked (strictly downP upP), put_above free (strictly downP upP)]
  · rw [put_apart free' downQ upQ, put_apart blocked downP upP, put_apart free downP upP,
      put_apart blocked' downQ upQ]

/-- Leaves can be put in either order, unless they are for one path: of two of which one is
above the other, the upper one stands in the end. -/
theorem put_put {v w : V} (other : p ≠ q) : (t.put p v).put q w = (t.put q w).put p v := by
  have root : ∀ (t : PathTree K V) (v : V), t.put [] v = t := fun t v => put_blocked (.inl rfl)
  by_cases atRoot : p = []
  · rw [atRoot, root, root]
  by_cases atRoot' : q = []
  · rw [atRoot', root, root]
  by_cases down : p <+: q
  · have closed : (t.put p v).Blocked q := by
      obtain ⟨r, up, leaf⟩ := put_seals (t := t) (v := v) atRoot
      exact .inr ⟨r, above_of_append up ⟨down, other⟩, leaf⟩
    rw [put_blocked closed, put_swallows ⟨down, other⟩ atRoot]
  by_cases up : q <+: p
  · have closed : (t.put q w).Blocked p := by
      obtain ⟨r, up', leaf⟩ := put_seals (t := t) (v := w) atRoot'
      exact .inr ⟨r, above_of_append up' ⟨up, other.symm⟩, leaf⟩
    rw [put_blocked closed, put_swallows ⟨up, other.symm⟩ atRoot']
  exact put_put_apart down up

end PathTree

/-! ## A list of additions -/

/-- One addition to a tree. -/
inductive Addition (K V : Type) where
  | grow (path : List K)
  | put (path : List K) (v : V)

namespace Addition

variable {K V : Type}

def path : Addition K V → List K
  | grow path => path
  | put path _ => path

/-- An addition that puts a leaf, and not at the root. -/
def Puts : Addition K V → Prop
  | grow _ => False
  | put path _ => path ≠ []

/-- What is to stand at the path. -/
def stand : Addition K V → Stand V
  | grow _ => .branch
  | put _ v => .leaf v

theorem stand_ne_free (a : Addition K V) : a.stand ≠ .free := by
  cases a <;> nofun

end Addition

namespace PathTree

variable {K V : Type} {t : PathTree K V} {p : List K} {a : Addition K V} {as : List (Addition K V)}

noncomputable def add (t : PathTree K V) : Addition K V → PathTree K V
  | .grow path => t.grow path
  | .put path v => t.put path v

/-- The tree with all of `as` added, one after the other. -/
noncomputable def make (t : PathTree K V) (as : List (Addition K V)) : PathTree K V := as.foldl add t

/-- Nothing stands in the way of an addition. -/
def Admits (t : PathTree K V) : Addition K V → Prop
  | .grow path => ¬ t.Sealed path
  | .put path _ => ¬ t.Blocked path

theorem add_add {b : Addition K V} (apart : a.path ≠ b.path) : (t.add a).add b = (t.add b).add a := by
  cases a with
  | grow p =>
    cases b with
    | grow q => exact grow_grow
    | put q w => exact grow_put
  | put p v =>
    cases b with
    | grow q => exact grow_put.symm
    | put q w => exact put_put apart

/-- What is added at different paths may be added in any order. -/
theorem make_perm {bs : List (Addition K V)} (same : as.Perm bs) (once : (as.map Addition.path).Nodup) :
    t.make as = t.make bs := by
  refine same.foldl_eq' (fun a first b second t => ?_) t
  by_cases together : a.path = b.path
  · rw [List.inj_on_of_nodup_map once first second together]
  · exact add_add together

theorem add_sealed (closed : t.Sealed p) : (t.add a).Sealed p := by
  cases a with
  | grow q => exact grow_sealed.2 closed
  | put q v =>
    by_cases blocked : t.Blocked q
    · rw [add, put_blocked blocked]
      exact closed
    · by_cases below : q <+: p
      · exact (put_seals fun same => blocked (.inl same)).mono below
      · exact (put_sealed_iff blocked below).2 closed

theorem make_sealed (closed : t.Sealed p) : ∀ as : List (Addition K V), (t.make as).Sealed p := by
  intro as
  induction as generalizing t with
  | nil => exact closed
  | cons a as ih => exact ih (add_sealed closed)

theorem add_seals (puts : a.Puts) : (t.add a).Sealed a.path := by
  cases a with
  | grow q => exact puts.elim
  | put q v => exact put_seals puts

/-- What stands stays, unless a leaf is put there or above. -/
theorem add_keeps (stands : t.stand p ≠ .free) (spared : a.Puts → ¬ a.path <+: p) :
    (t.add a).stand p = t.stand p := by
  cases a with
  | grow q =>
    by_cases closed : t.Sealed q
    · rw [add, grow_closed closed]
    · by_cases within : p <+: q
      · rw [add, grow_within closed within]
        cases here : t.stand p with
        | free => exact absurd here stands
        | branch => rfl
        | leaf v => exact absurd ⟨p, within, v, here⟩ closed
      · exact grow_outside within
  | put q v =>
    by_cases blocked : t.Blocked q
    · rw [add, put_blocked blocked]
    · have notBelow : ¬ q <+: p := spared fun same => blocked (.inl same)
      by_cases above : p <+: q
      · have strict : Above p q := ⟨above, fun same => notBelow (same ▸ List.prefix_rfl)⟩
        rw [add, put_above blocked strict]
        cases here : t.stand p with
        | free => exact absurd here stands
        | branch => rfl
        | leaf w => exact absurd (.inr ⟨p, strict, w, here⟩) blocked
      · exact put_apart blocked notBelow above

theorem make_keeps (as : List (Addition K V)) (stands : t.stand p ≠ .free)
    (spared : ∀ a ∈ as, a.Puts → ¬ a.path <+: p) : (t.make as).stand p = t.stand p := by
  induction as generalizing t with
  | nil => rfl
  | cons a as ih =>
    have here := add_keeps stands (spared a List.mem_cons_self)
    have further := ih (t := t.add a) (by rwa [here]) fun b member => spared b (List.mem_cons_of_mem _ member)
    exact further.trans here

/-- An addition is let in where it was before, unless a leaf is put above it. -/
theorem add_admits {b : Addition K V} (spared : a.Puts → ¬ a.path <+: b.path) :
    (t.add a).Admits b ↔ t.Admits b := by
  cases a with
  | grow q =>
    cases b with
    | grow p => exact not_congr grow_sealed
    | put p w => exact not_congr grow_blocked
  | put q v =>
    by_cases blocked : t.Blocked q
    · rw [add, put_blocked blocked]
    · have notBelow : ¬ q <+: b.path := spared fun same => blocked (.inl same)
      cases b with
      | grow p => exact not_congr (put_sealed_iff blocked notBelow)
      | put p w => exact not_congr (put_blocked_iff blocked fun up => notBelow up.1)

theorem make_admits (as : List (Addition K V)) {b : Addition K V}
    (spared : ∀ a ∈ as, a.Puts → ¬ a.path <+: b.path) : (t.make as).Admits b ↔ t.Admits b := by
  induction as generalizing t with
  | nil => rfl
  | cons a as ih =>
    exact (ih fun b member => spared b (List.mem_cons_of_mem _ member)).trans
      (add_admits (spared a List.mem_cons_self))

/-- What is let in stands. -/
theorem add_stand (open_ : t.Admits a) : (t.add a).stand a.path = a.stand := by
  cases a with
  | grow q => exact grow_within open_ List.prefix_rfl
  | put q v => exact put_here open_

/-- What a leaf is in the way of does not stand. -/
theorem stand_ne (notIn : ¬ t.Admits a) : t.stand a.path ≠ a.stand := by
  cases a with
  | grow q =>
    obtain ⟨r, up, leaf⟩ := Classical.not_not.1 notIn
    intro there
    by_cases here : r = q
    · obtain ⟨v, leaf⟩ := leaf
      rw [here] at leaf
      exact absurd (leaf.symm.trans there) nofun
    · exact absurd (leaf.free_below ⟨up, here⟩ |>.symm.trans there) nofun
  | put q v =>
    intro there
    rcases Classical.not_not.1 notIn with rfl | ⟨r, up, leaf⟩
    · exact absurd (t.root.symm.trans there) nofun
    · exact absurd ((leaf.free_below up).symm.trans there) nofun

theorem make_notIn {b : Addition K V} (as : List (Addition K V)) (notIn : ¬ t.Admits b) :
    ¬ (t.make as).Admits b := by
  cases b with
  | grow q => exact fun open_ => open_ (make_sealed (Classical.not_not.1 notIn) as)
  | put q v =>
    intro open_
    rcases Classical.not_not.1 notIn with rfl | ⟨r, up, leaf⟩
    · exact open_ (.inl rfl)
    · obtain ⟨r', up', leaf'⟩ := make_sealed ⟨r, List.prefix_rfl, leaf⟩ as
      exact open_ (.inr ⟨r', above_of_append up' up, leaf'⟩)

/-- Of additions at different paths those stand in the end that the tree let in and above
which no leaf was put. -/
theorem stands_iff (once : (as.map Addition.path).Nodup) (member : a ∈ as) :
    (t.make as).stand a.path = a.stand ↔
      t.Admits a ∧ ∀ b ∈ as, b.Puts → ¬ Above b.path a.path := by
  constructor
  · intro stands
    have open_ : (t.make as).Admits a := by
      by_contra notIn
      exact stand_ne notIn stands
    refine ⟨Classical.not_not.1 fun notIn => make_notIn as notIn open_, ?_⟩
    intro b there puts above
    obtain ⟨before, after, rfl⟩ := List.append_of_mem there
    have closed : (t.make (before ++ b :: after)).Sealed b.path := by
      simp only [make, List.foldl_append, List.foldl_cons]
      exact make_sealed (add_seals puts) after
    obtain ⟨r, up, leaf⟩ := closed
    refine absurd ((leaf.free_below (above_of_append up above)).symm.trans stands) ?_
    exact a.stand_ne_free.symm
  · rintro ⟨open_, spared⟩
    obtain ⟨before, after, rfl⟩ := List.append_of_mem member
    have other : ∀ b ∈ before ++ after, b.Puts → ¬ b.path <+: a.path := by
      intro b there puts up
      refine spared b ?_ puts ⟨up, ?_⟩
      · rcases List.mem_append.1 there with first | last
        · exact List.mem_append_left _ first
        · exact List.mem_append_right _ (List.mem_cons_of_mem _ last)
      · intro same
        rw [List.map_append, List.map_cons, List.nodup_middle] at once
        refine (List.nodup_cons.1 once).1 ?_
        rw [← List.map_append, ← same]
        exact List.mem_map_of_mem there
    have letIn : (t.make before).Admits a :=
      (make_admits before fun b there => other b (List.mem_append_left _ there)).2 open_
    have here : ((t.make before).add a).stand a.path = a.stand := add_stand letIn
    have kept := make_keeps after (t := (t.make before).add a) (p := a.path)
      (by rw [here]; exact a.stand_ne_free) fun b there => other b (List.mem_append_right _ there)
    simp only [make, List.foldl_append, List.foldl_cons] at kept here ⊢
    exact kept.trans here

/-! ## What is made from nothing -/

variable {q : List K}

/-- The root alone. -/
def empty : PathTree K V where
  stand
    | [] => .branch
    | _ :: _ => .free
  root := rfl
  rooted {path k} stands := by cases path <;> simp at stands

@[simp] theorem empty_nil : (empty : PathTree K V).stand [] = .branch := rfl

theorem empty_free (below : q ≠ []) : (empty : PathTree K V).stand q = .free := by
  cases q with
  | nil => exact absurd rfl below
  | cons k q => rfl

/-- Above what stands something stands. -/
theorem stand_prefix (up : q <+: p) (stands : t.stand p ≠ .free) : t.stand q ≠ .free := by
  by_cases same : q = p
  · rwa [same]
  · rw [stand_above ⟨up, same⟩ stands]
    nofun

theorem make_concat : t.make (as ++ [a]) = (t.make as).add a := List.foldl_concat ..

/-- No leaf is put at the root, or above anything that is added. -/
def Settled (as : List (Addition K V)) : Prop :=
  ∀ q, (∃ v, .put q v ∈ as) → q ≠ [] ∧ ∀ a ∈ as, ¬ Above q a.path

theorem Settled.left {bs : List (Addition K V)} (settled : Settled (as ++ bs)) : Settled as := by
  rintro q ⟨v, member⟩
  obtain ⟨below, clear⟩ := settled q ⟨v, List.mem_append_left _ member⟩
  exact ⟨below, fun a there => clear a (List.mem_append_left _ there)⟩

section LastPut

variable [DecidableEq K]

/-- The leaf last put at a path. -/
def lastPut (as : List (Addition K V)) (q : List K) : Option V :=
  as.reverse.findSome? fun
    | .grow _ => none
    | .put p v => if p = q then some v else none

@[simp] theorem lastPut_grow : lastPut (as ++ [.grow p]) q = lastPut as q := by
  simp [lastPut]

theorem lastPut_put {v : V} : lastPut (as ++ [.put p v]) q = if p = q then some v else lastPut as q := by
  simp only [lastPut, List.reverse_append, List.reverse_singleton, List.singleton_append, List.findSome?_cons]
  split <;> simp_all

theorem lastPut_append {bs : List (Addition K V)} : lastPut (as ++ bs) q = (lastPut bs q).or (lastPut as q) := by
  simp [lastPut, List.findSome?_append]

theorem mem_of_lastPut {v : V} (last : lastPut as q = some v) : .put q v ∈ as := by
  obtain ⟨a, member, found⟩ := List.exists_of_findSome?_eq_some last
  cases a with
  | grow p => cases found
  | put p w =>
    simp only [Option.ite_none_right_eq_some] at found
    obtain ⟨rfl, same⟩ := found
    cases same
    exact List.mem_reverse.1 member

theorem lastPut_isSome {v : V} (member : .put q v ∈ as) : ∃ w, lastPut as q = some w := by
  rw [← Option.isSome_iff_exists, lastPut, List.findSome?_isSome_iff]
  exact ⟨_, List.mem_reverse.2 member, by simp⟩

/-- A leaf is the one last put there. -/
theorem make_leaf {v : V} : ∀ {as : List (Addition K V)}, ((empty : PathTree K V).make as).stand q = .leaf v →
    lastPut as q = some v := by
  intro as
  induction as using List.reverseRecOn generalizing v with
  | nil =>
    intro here
    by_cases root : q = []
    · subst root
      exact absurd (empty_nil.symm.trans here) nofun
    · exact absurd ((empty_free root).symm.trans here) nofun
  | append_singleton as a ih =>
    rw [make_concat]
    intro here
    cases a with
    | grow p =>
      rw [lastPut_grow]
      by_cases closed : (empty.make as).Sealed p
      · rw [add, grow_closed closed] at here
        exact ih here
      · by_cases within : q <+: p
        · rw [add, grow_within closed within] at here
          cases here
        · rw [add, grow_outside within] at here
          exact ih here
    | put p w =>
      rw [lastPut_put]
      by_cases blocked : (empty.make as).Blocked p
      · rw [add, put_blocked blocked] at here
        rw [if_neg, ih here]
        rintro rfl
        rcases blocked with rfl | ⟨r, above, leaf⟩
        · exact absurd ((empty.make as).root.symm.trans here) nofun
        · exact absurd ((leaf.free_below above).symm.trans here) nofun
      · by_cases same : p = q
        · subst same
          rw [add, put_here blocked] at here
          cases here
          rw [if_pos rfl]
        · rw [if_neg same]
          by_cases below : p <+: q
          · rw [add, put_below blocked ⟨below, same⟩] at here
            cases here
          · by_cases above : q <+: p
            · rw [add, put_above blocked ⟨above, Ne.symm same⟩] at here
              cases here
            · rw [add, put_apart blocked below above] at here
              exact ih here

/-- A branch is the root, or above or at something that was added. -/
theorem make_branch : ∀ {as : List (Addition K V)}, ((empty : PathTree K V).make as).stand q = .branch →
    q = [] ∨ ∃ a ∈ as, q <+: a.path := by
  intro as
  induction as using List.reverseRecOn with
  | nil =>
    intro here
    by_contra other
    exact absurd ((empty_free fun root => other (.inl root)).symm.trans here) nofun
  | append_singleton as a ih =>
    rw [make_concat]
    intro here
    by_cases within : q <+: a.path
    · exact .inr ⟨a, by simp, within⟩
    · have before : (empty.make as).stand q = .branch := by
        cases a with
        | grow p => exact (grow_outside within).symm.trans here
        | put p w =>
          by_cases blocked : (empty.make as).Blocked p
          · rwa [add, put_blocked blocked] at here
          · by_cases below : p <+: q
            · by_cases same : p = q
              · exact absurd (same ▸ List.prefix_rfl) within
              · rw [add, put_below blocked ⟨below, same⟩] at here
                cases here
            · rwa [add, put_apart blocked below within] at here
      rcases ih before with root | ⟨b, member, above⟩
      · exact .inl root
      · exact .inr ⟨b, List.mem_append_left _ member, above⟩

/-- Where a leaf was put, no branch stands in the end. -/
theorem lastPut_ne_branch {v : V} (last : lastPut as q = some v) (below : q ≠ []) :
    (t.make as).stand q ≠ .branch := by
  obtain ⟨before, after, rfl⟩ := List.append_of_mem (mem_of_lastPut last)
  have closed : (t.make (before ++ .put q v :: after)).Sealed q := by
    simp only [make, List.foldl_append, List.foldl_cons]
    exact make_sealed (put_seals below) after
  obtain ⟨r, above, leaf⟩ := closed
  intro here
  by_cases same : r = q
  · obtain ⟨w, leaf⟩ := leaf
    exact absurd ((same ▸ leaf).symm.trans here) nofun
  · exact absurd ((leaf.free_below ⟨above, same⟩).symm.trans here) nofun

/-- Of settled additions each stands. -/
theorem Settled.stands : ∀ {as : List (Addition K V)}, Settled as → ∀ a ∈ as,
    ((empty : PathTree K V).make as).stand a.path ≠ .free := by
  intro as
  induction as using List.reverseRecOn with
  | nil => exact fun _ a member => absurd member List.not_mem_nil
  | append_singleton as b ih =>
    intro settled a member
    rw [make_concat]
    -- a leaf at or above an added path is at it
    have leaf_at : ∀ {r p : List K}, (empty.make as).LeafAt r → p ∈ (as ++ [b]).map Addition.path → ¬ Above r p := by
      rintro r p ⟨v, leaf⟩ there above
      obtain ⟨c, member, rfl⟩ := List.mem_map.1 there
      exact (settled r ⟨v, List.mem_append_left _ (mem_of_lastPut (make_leaf leaf))⟩).2 c member above
    rcases List.mem_append.1 member with before | last
    · have stands := ih settled.left a before
      by_cases spared : b.Puts → ¬ b.path <+: a.path
      · rwa [add_keeps stands spared]
      · obtain ⟨puts, up⟩ := Classical.not_imp.1 spared
        have up := Classical.not_not.1 up
        cases b with
        | grow p => exact puts.elim
        | put p v =>
          have same : p = a.path := by
            by_contra other
            exact (settled p ⟨v, by simp⟩).2 a member ⟨up, other⟩
          by_cases blocked : (empty.make as).Blocked p
          · rwa [add, put_blocked blocked]
          · rw [← same, add, put_here blocked]
            nofun
    · rw [List.mem_singleton.1 last]
      cases b with
      | grow p =>
        by_cases closed : (empty.make as).Sealed p
        · obtain ⟨r, up, leaf⟩ := closed
          have same : r = p := by
            by_contra other
            exact leaf_at leaf (List.mem_map.2 ⟨.grow p, by simp, rfl⟩) ⟨up, other⟩
          obtain ⟨v, leaf⟩ := leaf
          rw [add, grow_closed ⟨r, up, v, leaf⟩]
          show (empty.make as).stand p ≠ .free
          rw [← same, leaf]
          nofun
        · rw [add_stand (t := empty.make as) (a := .grow p) closed]
          nofun
      | put p v =>
        have free : ¬ (empty.make as).Blocked p := by
          rintro (root | ⟨r, above, leaf⟩)
          · exact (settled p ⟨v, by simp⟩).1 root
          · exact leaf_at leaf (List.mem_map.2 ⟨.put p v, by simp, rfl⟩) above
        rw [add_stand (t := empty.make as) (a := .put p v) free]
        nofun

open Classical in
/-- Of settled additions every leaf stands that was put last at its path, and the branches above
what was added. -/
theorem make_settled (settled : Settled as) :
    ((empty : PathTree K V).make as).stand q =
      match lastPut as q with
      | some v => .leaf v
      | none => if q = [] ∨ ∃ a ∈ as, q <+: a.path then .branch else .free := by
  cases last : lastPut as q with
  | some v =>
    have member := mem_of_lastPut last
    have stands := settled.stands _ member
    cases here : ((empty : PathTree K V).make as).stand q with
    | free => exact absurd here stands
    | branch => exact absurd here (lastPut_ne_branch last (settled q ⟨v, member⟩).1)
    | leaf w => rw [Option.some.inj ((make_leaf here).symm.trans last)]
  | none =>
    cases here : ((empty : PathTree K V).make as).stand q with
    | free =>
      rw [if_neg]
      rintro (rfl | ⟨a, member, up⟩)
      · exact absurd ((PathTree.root _).symm.trans here) nofun
      · exact stand_prefix up (settled.stands a member) here
    | branch => rw [if_pos (make_branch here)]
    | leaf w =>
      rw [make_leaf here] at last
      cases last

/-! ## What is meant and what is made -/

/-- The last addition at a path. -/
def lastAt (as : List (Addition K V)) (q : List K) : Option (Addition K V) :=
  as.reverse.find? fun a => a.path = q

theorem lastAt_mem (last : lastAt as q = some a) : a ∈ as ∧ a.path = q :=
  ⟨List.mem_reverse.1 (List.mem_of_find?_eq_some last), by simpa using List.find?_some last⟩

theorem lastAt_isSome (member : a ∈ as) : ∃ b, lastAt as a.path = some b := by
  rw [← Option.isSome_iff_exists, lastAt, List.find?_isSome]
  exact ⟨a, List.mem_reverse.2 member, by simp⟩

theorem lastAt_none : lastAt as q = none ↔ ∀ a ∈ as, a.path ≠ q := by
  simp [lastAt]

open Classical in
/-- What a list of additions means: at each path the last of them, branches above them, and
nothing else. -/
noncomputable def meant (as : List (Addition K V)) (q : List K) : Stand V :=
  match lastAt as q with
  | some a => a.stand
  | none => if q = [] ∨ ∃ a ∈ as, q <+: a.path then .branch else .free

theorem meant_ne_free (up : q = [] ∨ ∃ a ∈ as, q <+: a.path) : meant as q ≠ .free := by
  rw [meant]
  cases lastAt as q with
  | some b => exact b.stand_ne_free
  | none =>
    rw [if_pos up]
    nofun

/-- Where the additions of `bs`, some of those of `as` in some order, leave what `as` means. -/
def Carries (as bs : List (Addition K V)) : Prop :=
  ∀ q a, lastAt as q = some a →
    match a with
    | .put _ v => q ≠ [] ∧ lastPut bs q = some v ∧ ∀ b ∈ as, ¬ Above q b.path
    | .grow _ => lastPut bs q = none ∧ (q = [] ∨ ∃ b ∈ bs, q <+: b.path)

/-- Of some of the additions of `as`, none of them a leaf at the root, is made what `as` means
exactly where they carry it. -/
theorem make_meant_iff {bs : List (Addition K V)} (some_of : ∀ b ∈ bs, b ∈ as) (noRoot : ∀ v, .put [] v ∉ bs) :
    (∀ q, ((empty : PathTree K V).make bs).stand q = meant as q) ↔ Carries as bs := by
  constructor
  · intro same q a last
    have here := same q
    obtain ⟨member, rfl⟩ := lastAt_mem last
    rw [meant, last] at here
    cases a with
    | put p v =>
      refine ⟨?_, make_leaf here, fun b there above => ?_⟩
      · rintro root
        rw [root] at here
        exact absurd ((PathTree.root _).symm.trans here) nofun
      · have stands := meant_ne_free (.inr ⟨b, there, List.prefix_rfl⟩)
        rw [← same b.path, LeafAt.free_below ⟨v, here⟩ above] at stands
        exact stands rfl
    | grow p =>
      refine ⟨?_, make_branch here⟩
      by_contra some_put
      obtain ⟨v, put⟩ := Option.ne_none_iff_exists'.1 some_put
      refine lastPut_ne_branch put ?_ here
      intro root
      exact noRoot v (root ▸ mem_of_lastPut put)
  · intro carries q
    have settled : Settled bs := by
      rintro q ⟨v, member⟩
      obtain ⟨a, last⟩ := lastAt_isSome (some_of _ member)
      obtain ⟨w, put⟩ := lastPut_isSome member
      have carried := carries _ a last
      cases a with
      | put p u => exact ⟨carried.1, fun b there => carried.2.2 b (some_of b there)⟩
      | grow p => exact absurd (carried.1.symm.trans put) nofun
    rw [make_settled settled, meant]
    cases last : lastAt as q with
    | some a =>
      have carried := carries q a last
      cases a with
      | put p v => rw [carried.2.1]; rfl
      | grow p => rw [carried.1, if_pos carried.2]; rfl
    | none =>
      have none_put : lastPut bs q = none := by
        by_contra some_put
        obtain ⟨v, put⟩ := Option.ne_none_iff_exists'.1 some_put
        exact lastAt_none.1 last _ (some_of _ (mem_of_lastPut put)) rfl
      rw [none_put]
      refine if_congr (or_congr_right ⟨?_, ?_⟩) rfl rfl
      · rintro ⟨b, member, up⟩
        exact ⟨b, some_of b member, up⟩
      · rintro ⟨a, member, up⟩
        obtain ⟨a', last'⟩ := lastAt_isSome member
        have carried := carries _ a' last'
        cases a' with
        | put p v => exact ⟨_, mem_of_lastPut carried.2.1, up⟩
        | grow p =>
          rcases carried.2 with root | ⟨b, there, further⟩
          · rw [root] at up
            exact absurd (root.trans (List.prefix_nil.1 up).symm) (lastAt_none.1 last a member)
          · exact ⟨b, there, up.trans further⟩

end LastPut

end PathTree

end Wk.Library
