/-
# Wk.Library.DepthFirst -- a depth-first walk that goes to each thing once

A `Walker` reads an item, folds what it read into a state and goes on to what the item leads
to.  Items are told apart by a key, and one whose key has been seen is passed over.  What a
walk does is a fold over its `Tour`, the items it read in the order it read them.

* `explore_ok`: a walk that ends well makes a tour, from the item it began with.
* `explore_error`: a walk fails where it comes to an item that cannot be read, and runs out of
  room only where there are more keys than room.
-/
import Wk.Library.Run

namespace Wk.Library

set_option autoImplicit false

/-- A fallible loop that fails does so at one of its turns, in a state the turns before it
lead to. -/
theorem foldlM_error {α β ε : Type} {f : β → α → Except ε β} {e : ε} (P : β → Prop)
    (keeps : ∀ b x c, f b x = .ok c → P b → P c) :
    ∀ {xs : List α} {b : β}, P b → xs.foldlM f b = .error e → ∃ x ∈ xs, ∃ b, P b ∧ f b x = .error e
  | [], _, _, failed => nomatch failed
  | x :: xs, b, start, failed => by
    rw [List.foldlM_cons] at failed
    cases turn : f b x with
    | error e' =>
      rw [turn] at failed
      cases failed
      exact ⟨x, List.mem_cons_self, b, start, turn⟩
    | ok c =>
      rw [turn] at failed
      obtain ⟨y, member, here⟩ := foldlM_error P keeps (keeps b x c turn start) failed
      exact ⟨y, List.mem_cons_of_mem _ member, here⟩

structure Walker (α β κ σ ε : Type) where
  key : α → κ
  read : α → Except ε β
  visit : σ → α → β → σ
  next : α → β → List α

namespace Walker

variable {α β κ σ ε : Type} (w : Walker α β κ σ ε) (out : ε)

/-- Go to an item, with the keys seen and the state so far; `out` when the room runs out. -/
def explore [DecidableEq κ] : Nat → List κ × σ → α → Except ε (List κ × σ)
  | 0, _, _ => .error out
  | room + 1, st, a =>
    if w.key a ∈ st.1 then .ok st
    else w.read a >>= fun b => (w.next a b).foldlM (explore room) (st.1 ++ [w.key a], w.visit st.2 a b)

/-- One item leads to another. -/
def Leads (a c : α) : Prop := ∃ b, w.read a = .ok b ∧ c ∈ w.next a b

abbrev Reaches : α → α → Prop := Relation.ReflTransGen w.Leads

def keys (order : List (α × β)) : List κ := order.map fun x => w.key x.1

/-- What the visits of a tour make of a state. -/
def tell (s : σ) (order : List (α × β)) : σ := order.foldl (fun s x => w.visit s x.1 x.2) s

/-! ## Tours -/

/-- The items read from `starts` on, where `seen` had been seen. -/
structure Tour (starts : List α) (seen : List κ) (order : List (α × β)) : Prop where
  taken : ∀ x ∈ order, w.read x.1 = .ok x.2
  once : (w.keys order).Nodup
  fresh : ∀ k ∈ w.keys order, k ∉ seen
  reached : ∀ x ∈ order, ∃ a ∈ starts, w.Reaches a x.1
  started : ∀ a ∈ starts, w.key a ∈ seen ++ w.keys order
  closed : ∀ x ∈ order, ∀ c ∈ w.next x.1 x.2, w.key c ∈ seen ++ w.keys order

variable {w} {out}

@[simp] theorem keys_append {order more : List (α × β)} : w.keys (order ++ more) = w.keys order ++ w.keys more :=
  List.map_append

namespace Tour

variable {starts : List α} {seen : List κ} {order more : List (α × β)} {a : α} {b : β}

/-- Items seen before are passed over. -/
theorem known (here : ∀ a ∈ starts, w.key a ∈ seen) : w.Tour starts seen [] where
  taken := nofun
  once := List.nodup_nil
  fresh := nofun
  reached := nofun
  started a member := List.mem_append_left _ (here a member)
  closed := nofun

/-- A new item comes before what it leads to. -/
theorem visit (read : w.read a = .ok b) (new : w.key a ∉ seen)
    (rest : w.Tour (w.next a b) (seen ++ [w.key a]) order) : w.Tour [a] seen ((a, b) :: order) where
  taken := List.forall_mem_cons.2 ⟨read, rest.taken⟩
  once := by
    refine List.nodup_cons.2 ⟨fun again => rest.fresh _ again ?_, rest.once⟩
    exact List.mem_append_right _ List.mem_cons_self
  fresh := List.forall_mem_cons.2 ⟨new, fun k member here => rest.fresh k member (List.mem_append_left _ here)⟩
  reached := by
    refine List.forall_mem_cons.2 ⟨⟨a, List.mem_cons_self, .refl⟩, fun x member => ?_⟩
    obtain ⟨c, led, reach⟩ := rest.reached x member
    exact ⟨a, List.mem_cons_self, .head ⟨b, read, led⟩ reach⟩
  started c member := by
    rw [List.mem_singleton.1 member]
    exact List.mem_append_right _ List.mem_cons_self
  closed := by
    have grown : seen ++ w.keys ((a, b) :: order) = seen ++ [w.key a] ++ w.keys order := by simp [keys]
    rw [grown]
    exact List.forall_mem_cons.2 ⟨rest.started, rest.closed⟩

/-- One tour after another. -/
theorem append {xs ys : List α} (first : w.Tour xs seen order) (rest : w.Tour ys (seen ++ w.keys order) more) :
    w.Tour (xs ++ ys) seen (order ++ more) where
  taken := List.forall_mem_append.2 ⟨first.taken, rest.taken⟩
  once := by
    rw [keys_append]
    exact first.once.append rest.once fun k here there => rest.fresh k there (List.mem_append_right _ here)
  fresh := by
    rw [keys_append]
    exact List.forall_mem_append.2 ⟨first.fresh, fun k member here => rest.fresh k member (List.mem_append_left _ here)⟩
  reached := by
    refine List.forall_mem_append.2 ⟨fun x member => ?_, fun x member => ?_⟩
    · obtain ⟨a, start, reach⟩ := first.reached x member
      exact ⟨a, List.mem_append_left _ start, reach⟩
    · obtain ⟨a, start, reach⟩ := rest.reached x member
      exact ⟨a, List.mem_append_right _ start, reach⟩
  started := by
    rw [keys_append, ← List.append_assoc]
    exact List.forall_mem_append.2 ⟨fun a start => List.mem_append_left _ (first.started a start), rest.started⟩
  closed := by
    rw [keys_append, ← List.append_assoc]
    exact List.forall_mem_append.2
      ⟨fun x member c led => List.mem_append_left _ (first.closed x member c led), rest.closed⟩

end Tour

/-! ## Walks -/

variable [DecidableEq κ] {room : Nat} {st st' : List κ × σ} {a : α}

theorem explore_known (here : w.key a ∈ st.1) : w.explore out (room + 1) st a = .ok st := if_pos here

theorem explore_new (new : w.key a ∉ st.1) : w.explore out (room + 1) st a =
    w.read a >>= fun b => (w.next a b).foldlM (w.explore out room) (st.1 ++ [w.key a], w.visit st.2 a b) := if_neg new

/-- What a walk from some items that ends well has done. -/
def Walked (w : Walker α β κ σ ε) (starts : List α) (st st' : List κ × σ) : Prop :=
  ∃ order, w.Tour starts st.1 order ∧ st' = (st.1 ++ w.keys order, w.tell st.2 order)

/-- The items of a loop are toured one after another, where each of them is. -/
theorem exploreAll_ok (turn : ∀ {st st' a}, w.explore out room st a = .ok st' → w.Walked [a] st st') :
    ∀ {xs : List α} {st st' : List κ × σ}, xs.foldlM (w.explore out room) st = .ok st' → w.Walked xs st st'
  | [], st, _, ended => by
    cases ended
    exact ⟨[], .known nofun, by simp [keys, tell]⟩
  | x :: xs, st, st', ended => by
    obtain ⟨mid, first, rest⟩ := foldlM_cons_ok ended
    obtain ⟨order, here, rfl⟩ := turn first
    obtain ⟨more, there, rfl⟩ := exploreAll_ok turn rest
    exact ⟨order ++ more, here.append there, by simp [tell]⟩

/-- A walk from a new item that ends well has read it first. -/
theorem explore_ok : ∀ {room : Nat} {st st' : List κ × σ} {a : α}, w.explore out room st a = .ok st' →
    w.Walked [a] st st' ∧ (w.key a ∉ st.1 → ∃ b rest, w.Tour [a] st.1 ((a, b) :: rest) ∧
      st' = (st.1 ++ w.keys ((a, b) :: rest), w.tell (w.visit st.2 a b) rest))
  | 0, _, _, _, ended => nomatch ended
  | room + 1, st, st', a, ended => by
    by_cases here : w.key a ∈ st.1
    · rw [explore_known here] at ended
      cases ended
      exact ⟨⟨[], .known (by simpa using here), by simp [keys, tell]⟩, fun new => absurd here new⟩
    · rw [explore_new here] at ended
      cases read : w.read a with
      | error e =>
        rw [read] at ended
        cases ended
      | ok b =>
        rw [read] at ended
        obtain ⟨order, tour, rfl⟩ := exploreAll_ok (fun ended => (explore_ok ended).1) ended
        have first := Tour.visit read here tour
        exact ⟨⟨(a, b) :: order, first, by simp [keys, tell]⟩, fun _ => ⟨b, order, first, by simp [keys]⟩⟩

/-- The keys a walk has yet to see. -/
def unseen (all : Finset κ) (seen : List κ) : Finset κ := all.filter (· ∉ seen)

theorem unseen_append (all : Finset κ) (seen more : List κ) : unseen all (seen ++ more) ⊆ unseen all seen :=
  Finset.monotone_filter_right _ fun _ _ new here => new (List.mem_append_left _ here)

theorem card_unseen_lt {all : Finset κ} {seen : List κ} {k : κ} (inside : k ∈ all) (new : k ∉ seen) :
    (unseen all (seen ++ [k])).card < (unseen all seen).card := by
  refine Finset.card_lt_card ⟨unseen_append all seen [k], fun back => ?_⟩
  have gone := back (Finset.mem_filter.2 ⟨inside, new⟩)
  exact (Finset.mem_filter.1 gone).2 (List.mem_append_right _ List.mem_cons_self)

/-- A walk fails where it comes to an item that cannot be read, or without room for the keys it
has yet to see. -/
theorem explore_error {all : Finset κ} (inside : ∀ a b, w.read a = .ok b → w.key a ∈ all) :
    ∀ {room : Nat} {st : List κ × σ} {a : α} {e : ε}, w.explore out room st a = .error e →
      (e = out ∧ room ≤ (unseen all st.1).card) ∨ ∃ x, w.Reaches a x ∧ w.read x = .error e
  | 0, _, _, _, failed => by
    cases failed
    exact .inl ⟨rfl, Nat.zero_le _⟩
  | room + 1, st, a, e, failed => by
    by_cases here : w.key a ∈ st.1
    · rw [explore_known here] at failed
      cases failed
    · rw [explore_new here] at failed
      cases read : w.read a with
      | error e' =>
        rw [read] at failed
        cases failed
        exact .inr ⟨a, .refl, read⟩
      | ok b =>
        rw [read] at failed
        -- what is still unseen only shrinks along the loop
        have fewer := card_unseen_lt (inside a b read) here
        obtain ⟨c, led, mid, few, stopped⟩ := foldlM_error
          (fun mid => (unseen all mid.1).card ≤ (unseen all (st.1 ++ [w.key a])).card)
          (fun mid c mid' turn few => by
            obtain ⟨order, _, rfl⟩ := (explore_ok turn).1
            exact (Finset.card_le_card (unseen_append all _ _)).trans few) le_rfl failed
        rcases explore_error inside stopped with ⟨full, short⟩ | ⟨x, reach, failing⟩
        · exact .inl ⟨full, by omega⟩
        · exact .inr ⟨x, .head ⟨b, read, led⟩ reach, failing⟩

end Walker

end Wk.Library
