/-
# Wk.Library.Routes -- the order a walk finds things in

A route says at each hop which place of the neighbours' list to take.  Routes are ranked:
the fewer hops the better, and of as many the one that is first at the first difference.
A walk finds what it can reach in the order of the best routes there (`Chart`).

* `walk_charted`: every finished walk has a chart.
* `Chart.find_iff`: so the first item with a property is the one with a route better than
  every route to another item with it.
-/
import Wk.Library.Reach

namespace Wk.Library

set_option autoImplicit false
set_option linter.unusedSectionVars false

variable {α : Type}

/-! ## Routes -/

/-- Where a route leads. -/
def follow (adj : α → List α) (start : α) (route : List Nat) : Option α :=
  route.foldlM (fun x p => (adj x)[p]?) start

theorem follow_concat (adj : α → List α) (start : α) (route : List Nat) (p : Nat) :
    follow adj start (route ++ [p]) = (follow adj start route).bind fun x => (adj x)[p]? := by
  simp [follow, List.foldlM_append]

/-- What routes are compared by: their hops, then their places. -/
def rank (route : List Nat) : ℕ ×ₗ List ℕ := toLex (route.length, route)

theorem rank_lt_iff {u v : List Nat} : rank u < rank v ↔ u.length < v.length ∨ u.length = v.length ∧ u < v :=
  Prod.Lex.lt_iff

theorem rank_injective {u v : List Nat} (same : rank u = rank v) : u = v :=
  congrArg (fun key => (ofLex key).2) same

theorem lt_concat : ∀ {u v : List Nat} (p q : Nat), u.length = v.length → u < v → u ++ [p] < v ++ [q]
  | [], [], _, _, _, less => absurd less (lt_irrefl _)
  | a :: u, b :: v, p, q, length, less => by
    rw [List.cons_append, List.cons_append, List.cons_lt_cons_iff]
    rcases List.cons_lt_cons_iff.1 less with here | ⟨same, later⟩
    · exact .inl here
    · exact .inr ⟨same, lt_concat p q (Nat.succ.inj length) later⟩

/-- A better route stays better, whatever hop follows on either. -/
theorem rank_concat_lt {u v : List Nat} (p q : Nat) (less : rank u < rank v) : rank (u ++ [p]) < rank (v ++ [q]) := by
  rw [rank_lt_iff, List.length_append, List.length_append, List.length_singleton, List.length_singleton]
  rcases rank_lt_iff.1 less with fewer | ⟨length, before⟩
  · exact .inl (by omega)
  · exact .inr ⟨by omega, lt_concat p q length before⟩

theorem rank_concat_le {u v : List Nat} (p : Nat) (le : rank u ≤ rank v) : rank (u ++ [p]) ≤ rank (v ++ [p]) := by
  rcases le.lt_or_eq with less | same
  · exact (rank_concat_lt p p less).le
  · rw [rank_injective same]

theorem rank_hop_lt (u : List Nat) {p q : Nat} (less : p < q) : rank (u ++ [p]) < rank (u ++ [q]) := by
  rw [rank_lt_iff, List.length_append, List.length_append, List.length_singleton, List.length_singleton]
  exact .inr ⟨rfl, List.append_left_lt (List.cons_lt_cons_iff.2 (.inl less))⟩

theorem rank_nil_lt (u : List Nat) (p : Nat) : rank [] < rank (u ++ [p]) := by
  rw [rank_lt_iff]
  exact .inl (by simp)

/-! ## Charts -/

/-- Items in the order of their routes, each of them the best one there. -/
structure Chart (adj : α → List α) (start : α) (found : List (α × List Nat)) : Prop where
  leads : ∀ e ∈ found, follow adj start e.2 = some e.1
  ordered : found.Pairwise fun e e' => rank e.2 < rank e'.2
  best : ∀ route x, follow adj start route = some x → ∃ e ∈ found, e.1 = x ∧ rank e.2 ≤ rank route

/-- The first item with a property is the one with a route better than every route to
another item with it. -/
theorem Chart.find_iff {adj : α → List α} {start : α} {found : List (α × List Nat)} (chart : Chart adj start found)
    {P : α → Bool} {m : α} : (found.map Prod.fst).find? P = some m ↔ P m = true ∧
      ∃ ps, follow adj start ps = some m ∧
        ∀ qs k, follow adj start qs = some k → P k = true → k ≠ m → rank ps < rank qs := by
  have first : ∀ n, (found.map Prod.fst).find? P = some n → P n = true ∧
      ∃ ps, follow adj start ps = some n ∧
        ∀ qs k, follow adj start qs = some k → P k = true → k ≠ n → rank ps < rank qs := by
    intro n here
    obtain ⟨passes, before, after, split, none⟩ := List.find?_eq_some_iff_append.1 here
    obtain ⟨es, later, rfl, rfl, sameLater⟩ := List.map_eq_append_iff.1 split
    obtain ⟨e, es', rfl, rfl, rfl⟩ := List.map_eq_cons_iff.1 sameLater
    refine ⟨passes, e.2, chart.leads e (by simp), fun qs k leads passesToo other => ?_⟩
    obtain ⟨e', member, rfl, better⟩ := chart.best qs k leads
    rcases List.mem_append.1 member with early | late
    · have fails := none e'.1 (List.mem_map_of_mem early)
      rw [passesToo] at fails
      cases fails
    · have behind : e' ∈ es' := (List.mem_cons.1 late).resolve_left fun same => other (congrArg Prod.fst same)
      have order := (List.pairwise_append.1 chart.ordered).2.1
      exact ((List.pairwise_cons.1 order).1 e' behind).trans_le better
  refine ⟨first m, ?_⟩
  rintro ⟨passes, ps, leads, nearest⟩
  obtain ⟨e, member, rfl, _⟩ := chart.best ps m leads
  cases here : (found.map Prod.fst).find? P with
  | none => exact absurd passes (List.find?_eq_none.1 here e.1 (List.mem_map_of_mem member))
  | some n =>
    obtain ⟨passesToo, qs, leadsToo, nearestToo⟩ := first n here
    by_contra other
    have apart : n ≠ e.1 := fun same => other (congrArg some same)
    exact lt_asymm (nearest qs n leadsToo passesToo apart) (nearestToo ps e.1 leads passes apart.symm)

/-! ## Charting a walk -/

variable [DecidableEq α]

/-- `absorb` with the routes: the items that are new lie one hop beyond route `r`. -/
def chartNear (r : List Nat) : List (α × List Nat) → List α → Nat → List (α × List Nat)
  | es, [], _ => es
  | es, y :: ys, p => chartNear r (if y ∈ es.map Prod.fst then es else es ++ [(y, r ++ [p])]) ys (p + 1)

theorem chartNear_map (r : List Nat) : ∀ (ys : List α) (es : List (α × List Nat)) (p : Nat),
    (chartNear r es ys p).map Prod.fst = absorb (es.map Prod.fst) ys
  | [], _, _ => rfl
  | y :: ys, es, p => by
    have rest : absorb (es.map Prod.fst) (y :: ys) =
        absorb (if y ∈ es.map Prod.fst then es.map Prod.fst else es.map Prod.fst ++ [y]) ys := rfl
    rw [chartNear, chartNear_map r ys, rest]
    by_cases known : y ∈ es.map Prod.fst
    · rw [if_pos known, if_pos known]
    · rw [if_neg known, if_neg known, List.map_append]
      rfl

theorem prefix_chartNear (r : List Nat) : ∀ (ys : List α) (es : List (α × List Nat)) (p : Nat),
    es <+: chartNear r es ys p
  | [], _, _ => List.prefix_rfl
  | y :: ys, es, p => by
    have grown : es <+: if y ∈ es.map Prod.fst then es else es ++ [(y, r ++ [p])] := by
      split
      · exact List.prefix_rfl
      · exact List.prefix_append _ _
    exact grown.trans (prefix_chartNear r ys _ (p + 1))

/-- What is new is a neighbour, by the hop to its place. -/
theorem mem_chartNear {r : List Nat} {e : α × List Nat} : ∀ {ys : List α} {es : List (α × List Nat)} {p : Nat},
    e ∈ chartNear r es ys p → e ∈ es ∨ ∃ n, ys[n]? = some e.1 ∧ e.2 = r ++ [p + n]
  | [], _, _, member => .inl member
  | y :: ys, es, p, member => by
    have rest : e ∈ chartNear r (if y ∈ es.map Prod.fst then es else es ++ [(y, r ++ [p])]) ys (p + 1) := member
    rcases mem_chartNear rest with early | ⟨n, here, route⟩
    · by_cases known : y ∈ es.map Prod.fst
      · rw [if_pos known] at early
        exact .inl early
      · rw [if_neg known] at early
        rcases List.mem_append.1 early with old | new
        · exact .inl old
        · rw [List.mem_singleton.1 new]
          exact .inr ⟨0, rfl, rfl⟩
    · exact .inr ⟨n + 1, here, by rw [route, Nat.add_right_comm, Nat.add_assoc]⟩

/-- As long as the routes so far are better than the next hop, they stay in order. -/
theorem ordered_chartNear {r : List Nat} : ∀ {ys : List α} {es : List (α × List Nat)} {p : Nat},
    (es.Pairwise fun e e' => rank e.2 < rank e'.2) → (∀ e ∈ es, rank e.2 < rank (r ++ [p])) →
      (chartNear r es ys p).Pairwise fun e e' => rank e.2 < rank e'.2
  | [], _, _, ordered, _ => ordered
  | y :: ys, es, p, ordered, below => by
    have next : rank (r ++ [p]) < rank (r ++ [p + 1]) := rank_hop_lt r (Nat.lt_succ_self p)
    rw [chartNear]
    split
    · exact ordered_chartNear ordered fun e member => (below e member).trans next
    · refine ordered_chartNear ?_ fun e member => ?_
      · rw [List.pairwise_append]
        refine ⟨ordered, List.pairwise_singleton _ _, fun e member e' new => ?_⟩
        rw [List.mem_singleton.1 new]
        exact below e member
      · rcases List.mem_append.1 member with old | new
        · exact (below e old).trans next
        · rw [List.mem_singleton.1 new]
          exact next

/-- Every neighbour is there, at least as well as by the hop to its place. -/
theorem covered_chartNear {r : List Nat} : ∀ {ys : List α} {es : List (α × List Nat)} {p n : Nat} {y : α},
    (∀ e ∈ es, rank e.2 < rank (r ++ [p])) → ys[n]? = some y →
      ∃ e ∈ chartNear r es ys p, e.1 = y ∧ rank e.2 ≤ rank (r ++ [p + n])
  | [], _, _, _, _, _, here => by
    cases here
  | y :: ys, es, p, 0, _, below, rfl => by
    rw [chartNear]
    by_cases known : y ∈ es.map Prod.fst
    · obtain ⟨e, member, same⟩ := List.mem_map.1 known
      rw [if_pos known]
      exact ⟨e, (prefix_chartNear r ys es (p + 1)).subset member, same, (below e member).le⟩
    · rw [if_neg known]
      exact ⟨(y, r ++ [p]), (prefix_chartNear r ys _ (p + 1)).subset (by simp), rfl, le_refl _⟩
  | y :: ys, es, p, n + 1, z, below, here => by
    have next : rank (r ++ [p]) < rank (r ++ [p + 1]) := rank_hop_lt r (Nat.lt_succ_self p)
    have shift : p + (n + 1) = p + 1 + n := by omega
    rw [chartNear, shift]
    refine covered_chartNear (fun e member => ?_) here
    split at member
    · exact (below e member).trans next
    · rcases List.mem_append.1 member with old | new
      · exact (below e old).trans next
      · rw [List.mem_singleton.1 new]
        exact next

/-- The loop invariant: the items of `es` in the order of their routes, each one hop
beyond one of the first `i`, whose neighbours are all there. -/
structure Charting (adj : α → List α) (start : α) (es : List (α × List Nat)) (i : Nat) : Prop where
  first : (start, []) ∈ es
  leads : ∀ e ∈ es, follow adj start e.2 = some e.1
  ordered : es.Pairwise fun e e' => rank e.2 < rank e'.2
  beyond : ∀ e ∈ es, e.2 = [] ∨ ∃ e' ∈ es.take i, ∃ p, e.2 = e'.2 ++ [p]
  covered : ∀ e ∈ es.take i, ∀ p y, (adj e.1)[p]? = some y → ∃ e' ∈ es, e'.1 = y ∧ rank e'.2 ≤ rank (e.2 ++ [p])

namespace Charting

variable {adj : α → List α} {start : α} {es : List (α × List Nat)} {i : Nat}

theorem begin (adj : α → List α) (start : α) : Charting adj start [(start, [])] 0 where
  first := List.mem_singleton_self _
  leads e member := by
    rw [List.mem_singleton.1 member]
    rfl
  ordered := List.pairwise_singleton _ _
  beyond e member := .inl (by rw [List.mem_singleton.1 member])
  covered e member := absurd member List.not_mem_nil

/-- One item is read. -/
theorem step (charting : Charting adj start es i) {x : α} {r : List Nat} (found : es[i]? = some (x, r)) :
    Charting adj start (chartNear r es (adj x) 0) (i + 1) := by
  obtain ⟨more, grown⟩ := prefix_chartNear r (adj x) es 0
  have inside : i < es.length := (List.getElem?_eq_some_iff.1 found).1
  have read : (chartNear r es (adj x) 0).take (i + 1) = es.take i ++ [(x, r)] := by
    rw [← grown, List.take_append_of_le_length inside, List.take_add_one, found]
    rfl
  have below : ∀ e ∈ es, rank e.2 < rank (r ++ [0]) := by
    intro e member
    rcases charting.beyond e member with nil | ⟨e', early, p, route⟩
    · rw [nil]
      exact rank_nil_lt r 0
    · have there : (es.drop i)[0]? = some (x, r) := by
        rw [List.getElem?_drop]
        exact found
      have order := charting.ordered
      rw [← List.take_append_drop i es] at order
      rw [route]
      exact rank_concat_lt p 0 ((List.pairwise_append.1 order).2.2 e' early _ (List.mem_of_getElem? there))
  refine ⟨(prefix_chartNear r (adj x) es 0).subset charting.first, fun e member => ?_,
    ordered_chartNear charting.ordered below, fun e member => ?_, fun e member p y near => ?_⟩
  · rcases mem_chartNear member with old | ⟨n, here, route⟩
    · exact charting.leads e old
    · have reached : follow adj start r = some x := charting.leads (x, r) (List.mem_of_getElem? found)
      rw [route, follow_concat, reached, Nat.zero_add]
      exact here
  · rw [read]
    rcases mem_chartNear member with old | ⟨n, _, route⟩
    · rcases charting.beyond e old with nil | ⟨e', early, p, route⟩
      · exact .inl nil
      · exact .inr ⟨e', List.mem_append_left _ early, p, route⟩
    · exact .inr ⟨(x, r), List.mem_append_right _ (List.mem_singleton_self _), 0 + n, route⟩
  · rw [read] at member
    rcases List.mem_append.1 member with early | now
    · obtain ⟨e', old, same, better⟩ := charting.covered e early p y near
      exact ⟨e', (prefix_chartNear r (adj x) es 0).subset old, same, better⟩
    · rw [List.mem_singleton.1 now] at near ⊢
      obtain ⟨e', there, same, better⟩ := covered_chartNear below near
      rw [Nat.zero_add] at better
      exact ⟨e', there, same, better⟩

/-- Once every item is read, the routes are the best ones. -/
theorem chart (charting : Charting adj start es es.length) : Chart adj start es where
  leads := charting.leads
  ordered := charting.ordered
  best route := by
    induction route using List.reverseRecOn with
    | nil =>
      rintro x ⟨⟩
      exact ⟨_, charting.first, rfl, le_refl _⟩
    | append_singleton route p ih =>
      intro x leads
      rw [follow_concat] at leads
      obtain ⟨w, reached, near⟩ := Option.bind_eq_some_iff.1 leads
      obtain ⟨e, member, rfl, better⟩ := ih w reached
      obtain ⟨e', there, same, short⟩ := charting.covered e (by rwa [List.take_length]) p x near
      exact ⟨e', there, same, short.trans (rank_concat_le p better)⟩

end Charting

/-- **A finished walk has a chart.** -/
theorem walk_charted {adj : α → List α} {start : α} : ∀ {fuel : Nat} {es : List (α × List Nat)} {i : Nat}
    {seen : List α}, Charting adj start es i → i ≤ es.length → walk adj fuel (es.map Prod.fst) i = some seen →
      ∃ found, found.map Prod.fst = seen ∧ Chart adj start found
  | 0, _, _, _, _, _, ended => by
    cases ended
  | fuel + 1, es, i, seen, charting, le, ended => by
    unfold walk at ended
    rw [List.getElem?_map] at ended
    cases found : es[i]? with
    | none =>
      rw [found] at ended
      have last : es.length = i := le_antisymm (List.getElem?_eq_none_iff.1 found) le
      exact ⟨es, Option.some.inj ended, (last.symm ▸ charting : Charting adj start es es.length).chart⟩
    | some e =>
      rw [found, Option.map_some] at ended
      have unread : i < es.length := (List.getElem?_eq_some_iff.1 found).1
      have grown : es.length ≤ (chartNear e.2 es (adj e.1) 0).length :=
        (prefix_chartNear e.2 (adj e.1) es 0).length_le
      dsimp only at ended
      rw [← chartNear_map e.2] at ended
      exact walk_charted (charting.step found) (unread.trans_le grown) ended

end Wk.Library
