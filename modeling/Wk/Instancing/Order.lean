/-
# Wk.Instancing.Order -- the order of definitions does not matter

The walk looks definitions up by name and goes through the tabs in document order.  So
two documents with the same workspaces and their tabs in one order expand alike, wherever
the definitions stand; where two definitions have one name neither expands, and the two
refusals may name another pair.

* `definitions_ok_iff`: a document is indexed exactly where no name is defined twice.
* `group_congr`: the walk sees the table of definitions through its lookups.
* `expand_shuffled`: expansion of a shuffled document.

Pole: `voices_shuffled` (a definition before its tab, and after it).
-/
import Wk.Instancing.Scopes

namespace Wk.Instancing

open Wk.Library

set_option autoImplicit false

/-- The same workspaces in another order, the tabs in the same one. -/
structure Shuffled (doc doc' : Document) : Prop where
  perm : doc.workspaces.Perm doc'.workspaces
  tabs : tabs doc = tabs doc'

/-- The names a document defines, in document order. -/
def definedNames (doc : Document) : List String :=
  (doc.workspaces.filter fun ws => !ws.tab).filterMap Workspace.name

/-! ## Indexing -/

/-- A table takes in definitions exactly where their names are new to it and to each
other. -/
theorem indexing_ok_iff : ∀ (list : List Workspace) (defs : Table String Workspace),
    (∃ defs', list.foldlM indexDefinition defs = .ok defs') ↔
      (list.filterMap Workspace.name).Nodup ∧
        ∀ name ∈ list.filterMap Workspace.name, defs.lookup name = none
  | [], defs => by
    simp only [List.filterMap_nil, List.nodup_nil, List.not_mem_nil, false_implies, implies_true, and_self,
      iff_true]
    exact ⟨defs, rfl⟩
  | ws :: list, defs => by
    rw [List.foldlM_cons]
    cases named : ws.name with
    | none =>
      have turn : indexDefinition defs ws = .ok defs := by rw [indexDefinition, named]
      rw [turn, List.filterMap_cons_none named]
      exact indexing_ok_iff list defs
    | some name =>
      rw [List.filterMap_cons_some named, List.nodup_cons, List.forall_mem_cons]
      cases found : defs.lookup name with
      | some first =>
        have turn : indexDefinition defs ws = .error (.duplicateDefinition name first.id ws.id) := by
          rw [indexDefinition, named]
          simp only [found]
        rw [turn]
        constructor
        · rintro ⟨_, ended⟩
          cases ended
        · rintro ⟨_, absent, _⟩
          cases absent
      | none =>
        have turn : indexDefinition defs ws = .ok (defs.insert name ws) := by
          rw [indexDefinition, named]
          simp only [found]
        rw [turn]
        refine (indexing_ok_iff list (defs.insert name ws)).trans ?_
        simp only [Table.lookup_insert_eq, true_and]
        constructor
        · rintro ⟨nodup, fresh⟩
          refine ⟨⟨fun again => ?_, nodup⟩, fun n member => ?_⟩
          · have taken := fresh name again
            rw [if_pos rfl] at taken
            cases taken
          · have free := fresh n member
            split at free
            · cases free
            · exact free
        · rintro ⟨⟨once, nodup⟩, fresh⟩
          refine ⟨nodup, fun n member => ?_⟩
          have other : n ≠ name := by
            rintro rfl
            exact once member
          rw [if_neg other]
          exact fresh n member

/-- A failed indexing names two definitions. -/
theorem indexing_refuses {list : List Workspace} : ∀ {defs : Table String Workspace} {e : ExpandError},
    list.foldlM indexDefinition defs = .error e → ∃ name first second, e = .duplicateDefinition name first second := by
  induction list with
  | nil => exact fun ended => nomatch ended
  | cons ws list ih =>
    intro defs e ended
    rw [List.foldlM_cons] at ended
    cases turn : indexDefinition defs ws with
    | ok defs' =>
      rw [turn] at ended
      exact ih ended
    | error e' =>
      rw [turn] at ended
      cases ended
      simp only [indexDefinition] at turn
      split at turn
      · cases turn
      · split at turn
        · cases turn
          exact ⟨_, _, _, rfl⟩
        · cases turn

/-- **A document is indexed** exactly where no name is defined twice. -/
theorem definitions_ok_iff (doc : Document) :
    (∃ defs, definitions doc = .ok defs) ↔ (definedNames doc).Nodup := by
  refine (indexing_ok_iff _ ∅).trans (and_iff_left fun name _ => ?_)
  exact AList.lookup_empty name

/-- What a name is looked up to, by the document. -/
theorem definitions_lookup_iff {doc : Document} {defs : Table String Workspace}
    (indexed : definitions doc = .ok defs) {name : String} {defn : Workspace} :
    defs.lookup name = some defn ↔ defn ∈ doc.workspaces ∧ defn.tab = false ∧ defn.name = some name :=
  ⟨definitions_lookup indexed, fun ⟨member, isDefinition, named⟩ =>
    definitions_names_unique indexed member isDefinition named⟩

theorem expand_indexed (dg : Digests) {doc : Document} {defs : Table String Workspace}
    (indexed : definitions doc = .ok defs) :
    expand dg doc = (tabs doc).foldlM (expandTab dg doc defs) [] := by
  simp only [expand, indexed]
  rfl

theorem expand_refused (dg : Digests) {doc : Document} {e : ExpandError}
    (indexed : definitions doc = .error e) : expand dg doc = .error e := by
  simp only [expand, indexed]
  rfl

/-! ## The walk -/

section Walk

variable {dg : Digests} {doc doc' : Document} {defs defs' : Table String Workspace}

theorem resolveDefinition_congr (same : ∀ name, defs.lookup name = defs'.lookup name)
    (perm : doc.workspaces.Perm doc'.workspaces) (room : Nat) (path : List String) (expanded : Nat)
    (site definition : String) :
    resolveDefinition doc defs room path expanded site definition =
      resolveDefinition doc' defs' room path expanded site definition := by
  have tabNamed : (doc.workspaces.any fun w => w.tab && w.name = some definition) =
      doc'.workspaces.any fun w => w.tab && w.name = some definition := perm.any_eq
  simp only [resolveDefinition, same, tabNamed]

/-- **The walk sees the table through its lookups.**  Induction on the room left. -/
theorem group_congr (same : ∀ name, defs.lookup name = defs'.lookup name)
    (perm : doc.workspaces.Perm doc'.workspaces) (room : Nat) :
    group dg doc defs room = group dg doc' defs' room := by
  induction room with
  | zero =>
    funext path out at_ inst parent node name outer
    simp only [group, resolveDefinition_congr same perm]
  | succ room ih =>
    funext path out at_ inst parent node name outer
    simp only [group, resolveDefinition_congr same perm, ih]

theorem expandTab_congr (same : ∀ name, defs.lookup name = defs'.lookup name)
    (perm : doc.workspaces.Perm doc'.workspaces) : expandTab dg doc defs = expandTab dg doc' defs' := by
  funext out ws
  simp only [expandTab, group_congr same perm]

end Walk

/-! ## Shuffled documents -/

variable {doc doc' : Document}

theorem Shuffled.names (shuffled : Shuffled doc doc') : (definedNames doc).Nodup ↔ (definedNames doc').Nodup :=
  ((shuffled.perm.filter fun ws : Workspace => !ws.tab).filterMap Workspace.name).nodup_iff

theorem Shuffled.lookup (shuffled : Shuffled doc doc') {defs defs' : Table String Workspace}
    (indexed : definitions doc = .ok defs) (indexed' : definitions doc' = .ok defs') (name : String) :
    defs.lookup name = defs'.lookup name := by
  refine Option.ext fun defn => ?_
  rw [definitions_lookup_iff indexed, definitions_lookup_iff indexed', shuffled.perm.mem_iff]

/-- **The order of definitions does not matter**: a document and its shuffle expand to the
same instances, or stop at the same error, or both define a name twice. -/
theorem expand_shuffled (dg : Digests) (shuffled : Shuffled doc doc') :
    expand dg doc = expand dg doc' ∨
      ((∃ name first second, expand dg doc = .error (.duplicateDefinition name first second)) ∧
        ∃ name first second, expand dg doc' = .error (.duplicateDefinition name first second)) := by
  cases indexed : definitions doc with
  | ok defs =>
    obtain ⟨defs', indexed'⟩ :=
      (definitions_ok_iff doc').2 (shuffled.names.1 ((definitions_ok_iff doc).1 ⟨defs, indexed⟩))
    have walk := @expandTab_congr dg _ _ _ _ (shuffled.lookup indexed indexed') shuffled.perm
    rw [expand_indexed dg indexed, expand_indexed dg indexed', walk, shuffled.tabs]
    exact .inl rfl
  | error e =>
    obtain ⟨e', indexed'⟩ : ∃ e', definitions doc' = .error e' := by
      cases indexed' : definitions doc' with
      | error e' => exact ⟨e', rfl⟩
      | ok defs' =>
        have nodup := shuffled.names.2 ((definitions_ok_iff doc').1 ⟨defs', indexed'⟩)
        obtain ⟨defs, ended⟩ := (definitions_ok_iff doc).2 nodup
        rw [ended] at indexed
        cases indexed
    obtain ⟨name, first, second, rfl⟩ := indexing_refuses indexed
    obtain ⟨name', first', second', rfl⟩ := indexing_refuses indexed'
    exact .inr ⟨⟨name, first, second, expand_refused dg indexed⟩,
      name', first', second', expand_refused dg indexed'⟩

/-- A definition after the tab that uses it, and before. -/
theorem voices_shuffled :
    Shuffled chorusDocument { workspaces := chorusDocument.workspaces.reverse } ∧
      (∃ out, expand Digests.apart chorusDocument = .ok out ∧ out.length = 2) ∧
      expand Digests.apart chorusDocument =
        expand Digests.apart { workspaces := chorusDocument.workspaces.reverse } := by
  have shuffled : Shuffled chorusDocument { workspaces := chorusDocument.workspaces.reverse } :=
    ⟨(List.reverse_perm _).symm, rfl⟩
  have some_ : ∃ out, expand Digests.apart chorusDocument = .ok out ∧ out.length = 2 :=
    ok_of_observed (by decide)
  refine ⟨shuffled, some_, ?_⟩
  obtain ⟨out, expanded, _⟩ := some_
  rcases expand_shuffled Digests.apart shuffled with same | ⟨⟨_, _, _, refused⟩, _⟩
  · exact same
  · rw [expanded] at refused
    cases refused

end Wk.Instancing
