/-
# Wk.Library.Fuel -- computations that run out and may be taken further

A search without a bound is computed with one, and an error of its own (`out`) stands for
running past it.  A computation with more room goes `Further`: it is the same wherever the
first did not run out.  Sequencing and fallible loops keep that.
-/
import Wk.Library.Run

namespace Wk.Library

set_option autoImplicit false

variable {α β ε : Type} {out : ε}

/-- `x'` is `x` wherever that did not run out. -/
def Further (out : ε) (x x' : Except ε α) : Prop := x = .error out ∨ x' = x

namespace Further

theorem refl (x : Except ε α) : Further out x x := .inr rfl

/-- A result that is no running out is the result with more room. -/
theorem same {x x' r : Except ε α} (further : Further out x x') (ended : x = r) (stands : r ≠ .error out) :
    x' = r := by
  rcases further with stuck | same
  · exact absurd (ended.symm.trans stuck) stands
  · exact same.trans ended

theorem bind {x x' : Except ε α} {f f' : α → Except ε β} (first : Further out x x')
    (rest : ∀ a, x = .ok a → Further out (f a) (f' a)) : Further out (x >>= f) (x' >>= f') := by
  rcases first with stuck | rfl
  · exact .inl (by rw [stuck]; rfl)
  · cases turn : x' with
    | error e => exact .inr rfl
    | ok a => exact rest a turn

theorem foldlM {f f' : β → α → Except ε β} : ∀ {xs : List α} {b : β},
    (∀ b, ∀ x ∈ xs, Further out (f b x) (f' b x)) → Further out (xs.foldlM f b) (xs.foldlM f' b)
  | [], _, _ => .refl _
  | x :: xs, b, turn => by
    rw [List.foldlM_cons, List.foldlM_cons]
    exact (turn b x List.mem_cons_self).bind fun c _ =>
      foldlM fun b y member => turn b y (List.mem_cons_of_mem _ member)

end Further

/-! ## Loops read turn by turn -/

/-- A fallible loop over a list laid out in parts. -/
theorem foldlM_flatMap {γ : Type} {f : β → γ → Except ε β} {g : α → List γ} : ∀ (xs : List α) (b : β),
    (xs.flatMap g).foldlM f b = xs.foldlM (fun b x => (g x).foldlM f b) b
  | [], _ => rfl
  | x :: xs, b => by
    rw [List.flatMap_cons, List.foldlM_append, List.foldlM_cons]
    congr 1
    funext c
    exact foldlM_flatMap xs c

/-- A fallible loop counts its items as it goes. -/
theorem foldlM_zipIdx {f : β → α → Except ε β} : ∀ (xs : List α) (b : β) (n : Nat),
    xs.foldlM f b = (xs.zipIdx n).foldlM (fun b x => f b x.1) b
  | [], _, _ => rfl
  | x :: xs, b, n => by
    rw [List.zipIdx_cons, List.foldlM_cons, List.foldlM_cons]
    congr 1
    funext c
    exact foldlM_zipIdx xs c (n + 1)

end Wk.Library
