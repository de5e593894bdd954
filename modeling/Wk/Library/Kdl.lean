/-
# Wk.Library.Kdl -- the node tree of a KDL document

A document is a list of nodes; a node has a name, entries (arguments, and properties,
which have a name) and perhaps a block of children.  Reading looks a child up by name and
an argument up by position; a block that was put together from lines reads back line by
line.
-/
import Mathlib

namespace Wk.Library

set_option autoImplicit false

/-- A value; a number with a fraction is the bit pattern of an IEEE double. -/
inductive KdlValue where
  | string (s : String)
  | integer (i : Int)
  | float (bits : UInt64)
  | bool (b : Bool)
  | null
  deriving DecidableEq, Repr

namespace KdlValue

def asString : KdlValue → Option String
  | string s => some s
  | _ => none

def asInteger : KdlValue → Option Int
  | integer i => some i
  | _ => none

def asFloat : KdlValue → Option UInt64
  | float bits => some bits
  | _ => none

def asBool : KdlValue → Option Bool
  | bool b => some b
  | _ => none

@[simp] theorem asString_string (s : String) : (string s).asString = some s := rfl
@[simp] theorem asInteger_integer (i : Int) : (integer i).asInteger = some i := rfl
@[simp] theorem asFloat_float (bits : UInt64) : (float bits).asFloat = some bits := rfl
@[simp] theorem asBool_bool (b : Bool) : (bool b).asBool = some b := rfl

end KdlValue

/-- An argument, or with a name a property. -/
structure KdlEntry where
  name : Option String := none
  value : KdlValue
  deriving DecidableEq, Repr

structure KdlNode where
  name : String
  entries : List KdlEntry := []
  children : Option (List KdlNode) := none
  deriving Repr

abbrev KdlDocument := List KdlNode

namespace KdlNode

/-- The argument at a position; properties do not count. -/
def get (n : KdlNode) (i : Nat) : Option KdlValue :=
  (n.entries.filter fun e => e.name.isNone)[i]?.map KdlEntry.value

/-- A node with arguments only. -/
def line (name : String) (args : List KdlValue) : KdlNode :=
  { name, entries := args.map fun value => { value } }

/-- The nodes of a node's block, if it has one. -/
def block (n : KdlNode) : KdlDocument := n.children.getD []

theorem get_args {n : KdlNode} {args : List KdlValue}
    (entries : n.entries = args.map fun value => { value }) (i : Nat) : n.get i = args[i]? := by
  have all : n.entries.filter (fun e => e.name.isNone) = n.entries := by
    rw [entries, List.filter_eq_self]
    intro e member
    obtain ⟨_, _, rfl⟩ := List.mem_map.1 member
    rfl
  rw [get, all, entries, List.getElem?_map, Option.map_map]
  exact Option.map_id' ..

@[simp] theorem line_name (name : String) (args : List KdlValue) : (line name args).name = name := rfl

@[simp] theorem line_get (name : String) (args : List KdlValue) (i : Nat) : (line name args).get i = args[i]? :=
  get_args rfl i

@[simp] theorem line_values {α : Type} (name : String) (args : List KdlValue) (f : KdlValue → Option α) :
    (line name args).entries.filterMap (fun e => f e.value) = args.filterMap f := by
  rw [line, List.filterMap_map]
  rfl

@[simp] theorem line_children (name : String) (args : List KdlValue) : (line name args).children = none := rfl

end KdlNode

namespace KdlDocument

variable {α : Type}

/-- The first node of a name. -/
def get (doc : KdlDocument) (name : String) : Option KdlNode := doc.find? fun n => n.name = name

/-- The nodes of a name. -/
def named (doc : KdlDocument) (name : String) : KdlDocument := doc.filter fun n => n.name = name

@[simp] theorem get_nil (name : String) : get [] name = none := rfl

@[simp] theorem get_cons (n : KdlNode) (doc : KdlDocument) (name : String) :
    get (n :: doc) name = if n.name = name then some n else get doc name := by
  rw [get, List.find?_cons]
  split <;> simp_all [get]

@[simp] theorem get_append (doc doc' : KdlDocument) (name : String) :
    get (doc ++ doc') name = (get doc name).or (get doc' name) :=
  List.find?_append

/-- Lines of other names are passed over. -/
theorem get_of_ne {doc : KdlDocument} {name : String} (other : ∀ n ∈ doc, n.name ≠ name) : get doc name = none :=
  List.find?_eq_none.2 fun n member => by simpa using other n member

@[simp] theorem get_map (xs : List α) (f : α → KdlNode) {key name : String} (lines : ∀ x, (f x).name = key) (other : key ≠ name) :
    get (xs.map f) name = none := by
  refine get_of_ne fun n member => ?_
  obtain ⟨x, _, rfl⟩ := List.mem_map.1 member
  exact lines x ▸ other

@[simp] theorem named_nil (name : String) : named [] name = [] := rfl

@[simp] theorem named_cons (n : KdlNode) (doc : KdlDocument) (name : String) :
    named (n :: doc) name = if n.name = name then n :: named doc name else named doc name := by
  rw [named, List.filter_cons]
  simp only [decide_eq_true_eq]
  rfl

@[simp] theorem named_append (doc doc' : KdlDocument) (name : String) :
    named (doc ++ doc') name = named doc name ++ named doc' name :=
  List.filter_append ..

theorem named_self {doc : KdlDocument} {name : String} (all : ∀ n ∈ doc, n.name = name) : named doc name = doc :=
  List.filter_eq_self.2 fun n member => decide_eq_true (all n member)

theorem named_of_ne {doc : KdlDocument} {name : String} (other : ∀ n ∈ doc, n.name ≠ name) : named doc name = [] :=
  List.filter_eq_nil_iff.2 fun n member => by simpa using other n member

end KdlDocument

end Wk.Library
