/-
# Wk.Library.Table -- finite tables with one row per key

A `Table` is Mathlib's `AList` at a constant value type: a list of rows in which
no key occurs twice, so two rows for one key cannot be built.  This module adds
the three operations a mutable map has that `AList` does not: dropping the rows
that fail a test (`retain`), rewriting every value in place (`mapValues`) and
enumerating the values (`values`), each with the equation that says what a
lookup sees afterwards.
-/
import Mathlib

namespace Wk.Library

set_option autoImplicit false

/-- A finite table: every key has at most one row. -/
abbrev Table (α β : Type) := AList fun _ : α => β

namespace Table

variable {α β γ : Type}

/-- Keep the rows that pass `keep`. -/
def retain (keep : α → β → Bool) (t : Table α β) : Table α β where
  entries := t.entries.filter fun row => keep row.1 row.2
  nodupKeys := by
    have sub : (t.entries.filter fun row => keep row.1 row.2).Sublist t.entries :=
      List.filter_sublist
    exact (sub.map Sigma.fst).nodup t.nodupKeys

/-- Rewrite every value, leaving the keys where they are. -/
def mapValues (f : β → γ) (t : Table α β) : Table α γ where
  entries := t.entries.map fun row => ⟨row.1, f row.2⟩
  nodupKeys := by
    have keys : (t.entries.map fun row => (⟨row.1, f row.2⟩ : Sigma fun _ : α => γ)).keys =
        t.entries.keys := by
      simp [List.keys, List.map_map, Function.comp_def]
    unfold List.NodupKeys
    rw [keys]
    exact t.nodupKeys

/-- The values of a table, in row order. -/
def values (t : Table α β) : List β :=
  t.entries.map fun row => row.2

/-- The rows of a table as pairs. -/
def rows (t : Table α β) : List (α × β) :=
  t.entries.map fun row => (row.1, row.2)

/-- A table with the given rows; a later row for a key wins. -/
def ofRows [DecidableEq α] (pairs : List (α × β)) : Table α β :=
  pairs.foldl (fun t row => t.insert row.1 row.2) ∅

variable [DecidableEq α]

theorem mem_entries_iff {t : Table α β} {a : α} {b : β} :
    (⟨a, b⟩ : Sigma fun _ : α => β) ∈ t.entries ↔ t.lookup a = some b :=
  AList.mem_lookup_iff.symm

theorem mem_rows {t : Table α β} {a : α} {b : β} :
    (a, b) ∈ rows t ↔ t.lookup a = some b := by
  rw [← mem_entries_iff, rows, List.mem_map]
  constructor
  · rintro ⟨⟨k, v⟩, member, same⟩
    cases same
    exact member
  · intro member
    exact ⟨_, member, rfl⟩

theorem mem_iff_lookup {t : Table α β} {a : α} : a ∈ t ↔ ∃ b, t.lookup a = some b := by
  rw [← AList.lookup_isSome, Option.isSome_iff_exists]

theorem mem_of_lookup {t : Table α β} {a : α} {b : β} (found : t.lookup a = some b) : a ∈ t :=
  mem_iff_lookup.2 ⟨b, found⟩

theorem mem_values {t : Table α β} {b : β} : b ∈ values t ↔ ∃ a, t.lookup a = some b := by
  simp only [values, List.mem_map]
  constructor
  · rintro ⟨⟨a, v⟩, member, rfl⟩
    exact ⟨a, mem_entries_iff.1 member⟩
  · rintro ⟨a, found⟩
    exact ⟨⟨a, b⟩, mem_entries_iff.2 found, rfl⟩

/-- A new row's value comes first. -/
theorem values_insert {t : Table α β} {a : α} (b : β) (fresh : a ∉ t) :
    values (t.insert a b) = b :: values t := by
  rw [AList.insert_of_notMem fresh]
  rfl

/-- Erasing a row takes away one of its value. -/
theorem values_erase {t : Table α β} {a : α} {b : β} (found : t.lookup a = some b) :
    (values t).Perm (b :: values (t.erase a)) := by
  have member : a ∈ t.entries.keys := AList.mem_keys.1 (mem_of_lookup found)
  obtain ⟨b', before, after, _, rows, rest⟩ := List.exists_of_kerase member
  have same : b' = b := by
    have row : (⟨a, b'⟩ : Sigma fun _ : α => β) ∈ t.entries := by rw [rows]; simp
    exact Option.some.inj ((mem_entries_iff.1 row).symm.trans found)
  have erased : values (t.erase a) = (before ++ after).map fun row => row.2 := by
    rw [← rest]
    rfl
  rw [erased, values, rows, List.map_append, List.map_append, List.map_cons, same]
  exact List.perm_middle

/-- One equation for both cases of `AList.lookup_insert`. -/
theorem lookup_insert_eq (t : Table α β) (a a' : α) (b : β) :
    (t.insert a b).lookup a' = if a' = a then some b else t.lookup a' := by
  split
  · next same => subst same; exact AList.lookup_insert t
  · next different => exact AList.lookup_insert_ne different

theorem lookup_erase_eq (t : Table α β) (a a' : α) :
    (t.erase a).lookup a' = if a' = a then none else t.lookup a' := by
  split
  · next same => subst same; exact AList.lookup_erase a' t
  · next different => exact AList.lookup_erase_ne different

/-- What a table made of rows holds is one of them. -/
theorem mem_of_lookup_ofRows {pairs : List (α × β)} {a : α} {b : β}
    (found : (ofRows pairs).lookup a = some b) : (a, b) ∈ pairs := by
  have all : ∀ (rows : List (α × β)) (t : Table α β),
      (rows.foldl (fun t row => t.insert row.1 row.2) t).lookup a = some b → t.lookup a = some b ∨ (a, b) ∈ rows := by
    intro rows
    induction rows with
    | nil => exact fun t found => .inl found
    | cons row rows ih =>
      intro t found
      rcases ih _ found with here | there
      · rw [lookup_insert_eq] at here
        split at here
        · next same =>
            cases here
            subst same
            exact .inr (List.mem_cons_self ..)
        · exact .inl here
      · exact .inr (List.mem_cons_of_mem _ there)
  exact (all pairs ∅ found).resolve_left (by simp)

/-- Where no key has two values, a table made of rows holds each of them. -/
theorem lookup_ofRows {pairs : List (α × β)} (once : ∀ a b b', (a, b) ∈ pairs → (a, b') ∈ pairs → b = b') {a : α} {b : β} :
    (ofRows pairs).lookup a = some b ↔ (a, b) ∈ pairs := by
  have some_value : ∀ (rows : List (α × β)) (t : Table α β), (∃ b, t.lookup a = some b) ∨ (∃ b, (a, b) ∈ rows) →
      ∃ b, (rows.foldl (fun t row => t.insert row.1 row.2) t).lookup a = some b := by
    intro rows
    induction rows with
    | nil => exact fun t there => there.resolve_right fun ⟨_, member⟩ => absurd member List.not_mem_nil
    | cons row rows ih =>
      intro t there
      refine ih _ ?_
      by_cases here : a = row.1
      · exact .inl ⟨row.2, by rw [lookup_insert_eq, if_pos here]⟩
      · refine there.imp (fun ⟨b, found⟩ => ⟨b, by rw [lookup_insert_eq, if_neg here, found]⟩) fun ⟨b, member⟩ => ⟨b, ?_⟩
        rcases List.mem_cons.1 member with rfl | later
        · exact absurd rfl here
        · exact later
  refine ⟨mem_of_lookup_ofRows, fun member => ?_⟩
  obtain ⟨b', found⟩ := some_value pairs ∅ (.inr ⟨b, member⟩)
  have found : (ofRows pairs).lookup a = some b' := found
  rw [found, once a b' b (mem_of_lookup_ofRows found) member]

/-- Rows whose keys are renamed are found under the new name of a key that shares it with no other. -/
theorem lookup_ofRows_rename {δ : Type} [DecidableEq δ] (f : α → δ) {a : α} :
    ∀ {pairs : List (α × β)}, (∀ p ∈ pairs, f p.1 = f a → p.1 = a) →
      (ofRows (pairs.map fun p => (f p.1, p.2))).lookup (f a) = (ofRows pairs).lookup a := by
  suffices same : ∀ (pairs : List (α × β)) (t : Table δ β) (t' : Table α β),
      (∀ p ∈ pairs, f p.1 = f a → p.1 = a) → t.lookup (f a) = t'.lookup a →
        ((pairs.map fun p => (f p.1, p.2)).foldl (fun t row => t.insert row.1 row.2) t).lookup (f a) =
          (pairs.foldl (fun t row => t.insert row.1 row.2) t').lookup a from
    fun {pairs} alone => same pairs ∅ ∅ alone rfl
  intro pairs
  induction pairs with
  | nil => exact fun _ _ _ same => same
  | cons row rows ih =>
    intro t t' alone same
    refine ih _ _ (fun p member => alone p (List.mem_cons_of_mem _ member)) ?_
    have here : f a = f row.1 ↔ a = row.1 :=
      ⟨fun renamed => (alone row List.mem_cons_self renamed.symm).symm, congrArg f⟩
    simp only [lookup_insert_eq, here, same]

/-- A row more, or one row written again. -/
theorem length_insert_le (t : Table α β) (a : α) (b : β) :
    (t.insert a b).entries.length ≤ t.entries.length + 1 := by
  show (List.kerase a t.entries).length + 1 ≤ t.entries.length + 1
  exact Nat.succ_le_succ (List.kerase_sublist a t.entries).length_le

omit [DecidableEq α] in
/-- Fewer keys, fewer rows. -/
theorem length_le_of_mem {t t' : Table α β} (fewer : ∀ a, a ∈ t' → a ∈ t) :
    t'.entries.length ≤ t.entries.length := by
  have keys : t'.keys.length ≤ t.keys.length :=
    (List.subperm_of_subset t'.keys_nodup fun a member =>
      AList.mem_keys.1 (fewer a (AList.mem_keys.2 member))).length_le
  simpa [AList.keys, List.keys] using keys

theorem lookup_retain (keep : α → β → Bool) (t : Table α β) (a : α) :
    (retain keep t).lookup a = (t.lookup a).filter (keep a) := by
  apply Option.ext
  intro b
  have kept : (retain keep t).lookup a = some b ↔ t.lookup a = some b ∧ keep a b = true := by
    rw [← mem_entries_iff, ← mem_entries_iff]
    simp [retain]
  rw [kept, Option.filter_eq_some_iff]

theorem lookup_mapValues (f : β → γ) (t : Table α β) (a : α) :
    (mapValues f t).lookup a = (t.lookup a).map f := by
  apply Option.ext
  intro c
  rw [← mem_entries_iff, Option.map_eq_some_iff]
  simp only [mapValues, List.mem_map, Sigma.mk.injEq]
  constructor
  · rintro ⟨⟨k, v⟩, member, rfl, same⟩
    exact ⟨v, mem_entries_iff.1 member, eq_of_heq same⟩
  · rintro ⟨v, found, rfl⟩
    exact ⟨⟨a, v⟩, mem_entries_iff.2 found, rfl, HEq.rfl⟩

theorem mem_retain {keep : α → β → Bool} {t : Table α β} {a : α} :
    a ∈ retain keep t ↔ ∃ b, t.lookup a = some b ∧ keep a b = true := by
  simp [mem_iff_lookup, lookup_retain, Option.filter_eq_some_iff]

@[simp] theorem mem_mapValues {f : β → γ} {t : Table α β} {a : α} :
    a ∈ mapValues f t ↔ a ∈ t := by
  simp [mem_iff_lookup, lookup_mapValues]

/-- Copy the rows of some keys. -/
def copy (source t : Table α β) (keys : List α) : Table α β :=
  keys.foldl (fun t a => (source.lookup a).elim t fun b => t.insert a b) t

@[simp] theorem copy_cons (source t : Table α β) (a : α) (keys : List α) :
    copy source t (a :: keys) = copy source (copy source t [a]) keys := rfl

theorem copy_of_none {source : Table α β} {a : α} (absent : source.lookup a = none) (t : Table α β) :
    copy source t [a] = t := by
  rw [copy, List.foldl_cons, absent]
  rfl

theorem copy_of_some {source : Table α β} {a : α} {b : β} (found : source.lookup a = some b) (t : Table α β) :
    copy source t [a] = t.insert a b := by
  rw [copy, List.foldl_cons, found]
  rfl

theorem lookup_copy (source : Table α β) (a : α) : ∀ (keys : List α) (t : Table α β),
    (copy source t keys).lookup a = if a ∈ keys then (source.lookup a).or (t.lookup a) else t.lookup a
  | [], t => (if_neg (List.not_mem_nil)).symm
  | key :: keys, t => by
    have one : (copy source t [key]).lookup a = if a = key then (source.lookup a).or (t.lookup a) else t.lookup a := by
      cases found : source.lookup key with
      | none =>
        rw [copy_of_none found]
        split
        · next same => rw [same, found, Option.none_or]
        · rfl
      | some b =>
        rw [copy_of_some found, lookup_insert_eq]
        split
        · next same => rw [same, found, Option.some_or]
        · rfl
    rw [copy_cons, lookup_copy source a keys, one]
    by_cases here : a = key
    · rw [if_pos here, if_pos (List.mem_cons.2 (.inl here)), ← Option.or_assoc, Option.or_self, ite_self]
    · have same : a ∈ key :: keys ↔ a ∈ keys := List.mem_cons.trans (or_iff_right here)
      simp only [if_neg here, same]

/-- What is copied is the whole table, if none of its rows is left out. -/
theorem lookup_copy_empty {source : Table α β} {keys : List α} (all : ∀ a b, source.lookup a = some b → a ∈ keys) (a : α) :
    (copy source ∅ keys).lookup a = source.lookup a := by
  rw [lookup_copy, AList.lookup_empty, Option.or_none, ite_eq_left_iff]
  intro absent
  exact (Option.eq_none_iff_forall_ne_some.2 fun b found => absent (all a b found)).symm

end Table

end Wk.Library
