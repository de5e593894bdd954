/-
# Wk.Vfs.Paths -- paths and their components

A path is read as the list of its components: joining two paths with a slash joins their
components (`components_slash`), and joining component names gives a path with just these
components (`components_join`).  `Leads` is the walk of component names down the
directories, with no link followed and no `..`.
-/
import Wk.Vfs.Names

namespace Wk.Vfs

open Wk.Library

set_option autoImplicit false

theorem splitSlash_ne_nil : ∀ xs : List Char, splitSlash xs ≠ []
  | [] => nofun
  | c :: xs => by
    unfold splitSlash
    split
    · cases ‹_ :: _ = []›
    · nofun
    · split <;> nofun

theorem splitSlash_slash : ∀ xs ys : List Char, splitSlash (xs ++ '/' :: ys) = splitSlash xs ++ splitSlash ys
  | [], ys => rfl
  | c :: xs, ys => by
    have ih := splitSlash_slash xs ys
    by_cases slash : c = '/'
    · subst slash
      simp [splitSlash, ih]
    · obtain ⟨part, parts, here⟩ := List.exists_cons_of_ne_nil (splitSlash_ne_nil xs)
      simp [splitSlash, ih, here]

theorem splitSlash_part {xs : List Char} (no_slash : '/' ∉ xs) : splitSlash xs = [xs] := by
  induction xs with
  | nil => rfl
  | cons c xs ih =>
    simp only [List.mem_cons, not_or] at no_slash
    have slash : c ≠ '/' := fun same => no_slash.1 same.symm
    simp [splitSlash, ih no_slash.2]

theorem slash_not_mem_part : ∀ {xs part : List Char}, part ∈ splitSlash xs → '/' ∉ part
  | [], part, member => by
    simp only [splitSlash, List.mem_singleton] at member
    simp [member]
  | c :: xs, part, member => by
    have ih : ∀ part, part ∈ splitSlash xs → '/' ∉ part := fun part => slash_not_mem_part
    by_cases slash : c = '/'
    · subst slash
      simp only [splitSlash, List.mem_cons] at member
      rcases member with rfl | member
      · exact List.not_mem_nil
      · exact ih part member
    · obtain ⟨first, parts, here⟩ := List.exists_cons_of_ne_nil (splitSlash_ne_nil xs)
      simp only [splitSlash, here, List.mem_cons] at member
      rcases member with rfl | member
      · have apart := ih first (here ▸ List.mem_cons_self)
        simp only [List.mem_cons, not_or]
        exact ⟨fun same => slash same.symm, apart⟩
      · exact ih part (here ▸ List.mem_cons_of_mem _ member)

/-- The name of a component: not empty, not `.`, and without a slash. -/
def IsName (name : String) : Prop := name ≠ "" ∧ name ≠ "." ∧ '/' ∉ name.toList

theorem isName_of_mem {path comp : String} (member : comp ∈ components path) : IsName comp := by
  simp only [components, List.mem_map, List.mem_filter, Bool.and_eq_true, decide_eq_true_eq] at member
  obtain ⟨part, ⟨split, notEmpty, notDot⟩, rfl⟩ := member
  refine ⟨?_, ?_, ?_⟩
  · intro same
    exact notEmpty (by simpa using congrArg String.toList same)
  · intro same
    exact notDot (by simpa using congrArg String.toList same)
  · rw [String.toList_ofList]
    exact slash_not_mem_part split

@[simp] theorem components_empty : components "" = [] := by decide +kernel

theorem components_name {name : String} (named : IsName name) : components name = [name] := by
  obtain ⟨notEmpty, notDot, no_slash⟩ := named
  have nonempty : name.toList ≠ [] := fun same => notEmpty (String.toList_inj.1 same)
  have other : name.toList ≠ ['.'] := fun same => notDot (String.toList_inj.1 same)
  rw [components, splitSlash_part no_slash, List.filter_singleton]
  simp [nonempty, other]

/-- The components of two paths joined by a slash. -/
theorem components_slash (path rest : String) :
    components (path ++ "/" ++ rest) = components path ++ components rest := by
  have split : (path ++ "/" ++ rest).toList = path.toList ++ '/' :: rest.toList := by simp
  rw [components, split, splitSlash_slash, List.filter_append, List.map_append]
  rfl

/-- Joined names are the components of the path. -/
theorem components_join : ∀ {names : List String}, (∀ name ∈ names, IsName name) →
    components ("/".intercalate names) = names
  | [], _ => by rw [String.intercalate_nil, components_empty]
  | [name], named => by
    rw [String.intercalate_singleton]
    exact components_name (named name List.mem_cons_self)
  | name :: next :: rest, named => by
    rw [String.intercalate_cons_cons, components_slash, components_name (named name List.mem_cons_self),
      components_join fun name member => named name (List.mem_cons_of_mem _ member)]
    rfl

namespace Fs

variable {fs : Fs}

/-- Walking the names down from `cur`, one directory to the next, leads to `id`. -/
def Leads (fs : Fs) : Nat → List String → Nat → Prop
  | cur, [], id => id = cur
  | cur, name :: rest, id => ∃ next, fs.child cur name = some next ∧ fs.Leads next rest id

theorem leads_append : ∀ {names more : List String} {cur id : Nat},
    fs.Leads cur (names ++ more) id ↔ ∃ mid, fs.Leads cur names mid ∧ fs.Leads mid more id
  | [], more, cur, id => by simp [Leads]
  | name :: names, more, cur, id => by
    simp only [List.cons_append, Leads, leads_append]
    constructor
    · rintro ⟨next, named, mid, down, on⟩
      exact ⟨mid, ⟨next, named, down⟩, on⟩
    · rintro ⟨mid, ⟨next, named, down⟩, on⟩
      exact ⟨next, named, mid, down, on⟩

theorem Leads.isDir_of_ne {cur id : Nat} {names : List String} (leads : fs.Leads cur names id) (some_left : names ≠ []) :
    fs.isDir cur = true := by
  cases names with
  | nil => exact absurd rfl some_left
  | cons name rest =>
    obtain ⟨next, named, _⟩ := leads
    exact isDir_of_child named

/-- What one or more names lead to is named. -/
theorem Leads.named {cur id : Nat} {names : List String} (leads : fs.Leads cur names id) (some_left : names ≠ []) :
    ∃ p k, fs.child p k = some id := by
  obtain ⟨names, last, rfl⟩ := (List.eq_nil_or_concat' names).resolve_left some_left
  obtain ⟨p, _, _, named, rfl⟩ := leads_append.1 leads
  exact ⟨p, last, named⟩

end Fs

end Wk.Vfs
