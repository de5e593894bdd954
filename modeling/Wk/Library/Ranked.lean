/-
# Wk.Library.Ranked -- relations without cycles, edited one edge at a time

A relation is `Ranked` when some height grows along every edge.  That is kept when
edges are dropped and when one edge is grafted whose target does not lead back to
its source, it excludes cycles, and it turns the local fact "every node is a
source or has a predecessor" into "every node is reached from a source".
-/
import Mathlib

namespace Wk.Library

open Relation

set_option autoImplicit false

variable {α : Type} {r s : α → α → Prop}

/-- Some height grows along every edge. -/
def Ranked (r : α → α → Prop) : Prop := ∃ height : α → Nat, ∀ a b, r a b → height a < height b

namespace Ranked

theorem mono (ranked : Ranked r) (fewer : ∀ a b, s a b → r a b) : Ranked s := by
  obtain ⟨height, grows⟩ := ranked
  exact ⟨height, fun a b edge => grows a b (fewer a b edge)⟩

/-- Graft the edge from `p` to `c`: everything below `c` is lifted above `p`. -/
theorem graft (ranked : Ranked r) {p c : α} (apart : ¬ ReflTransGen r c p)
    (edges : ∀ a b, s a b → r a b ∨ (a = p ∧ b = c)) : Ranked s := by
  classical
  obtain ⟨height, grows⟩ := ranked
  refine ⟨fun x => if ReflTransGen r c x then height x + height p + 1 else height x, ?_⟩
  intro a b edge
  rcases edges a b edge with old | ⟨rfl, rfl⟩
  · have up := grows a b old
    by_cases below : ReflTransGen r c a
    · have belowToo : ReflTransGen r c b := below.tail old
      simp only [below, belowToo, if_true]
      omega
    · simp only [below, if_false]
      split <;> omega
  · simp only [apart, if_false, ReflTransGen.refl, if_true]
    omega

theorem acyclic (ranked : Ranked r) (a : α) : ¬ TransGen r a a := by
  obtain ⟨height, grows⟩ := ranked
  have climbs : ∀ b, TransGen r a b → height a < height b := by
    intro b path
    induction path with
    | single edge => exact grows _ _ edge
    | tail _ edge ih => exact ih.trans (grows _ _ edge)
  exact fun loop => absurd (climbs a loop) (lt_irrefl _)

theorem wellFounded (ranked : Ranked r) : WellFounded r := by
  obtain ⟨height, grows⟩ := ranked
  exact Subrelation.wf (fun {a b} edge => grows a b edge) (measure height).wf

/-- If every member is a source or has a member before it, then every member is
reached from a source. -/
theorem grounded (ranked : Ranked r) {member source : α → Prop}
    (step : ∀ x, member x → source x ∨ ∃ d, member d ∧ r d x) {x : α} (inside : member x) :
    ∃ d, source d ∧ ReflTransGen r d x := by
  induction x using ranked.wellFounded.induction with
  | h x ih =>
    rcases step x inside with here | ⟨d, before, edge⟩
    · exact ⟨x, here, .refl⟩
    · obtain ⟨d', start, path⟩ := ih d edge before
      exact ⟨d', start, path.tail edge⟩

end Ranked

/-- What holds at the start of a path and along each edge holds at its end. -/
theorem reaches_within {P : α → Prop} {a b : α} (path : ReflTransGen r a b) (start : P a)
    (closed : ∀ x y, P x → r x y → P y) : P b := by
  induction path with
  | refl => exact start
  | tail _ edge ih => exact closed _ _ ih edge

end Wk.Library
