import Rollout.Yaml.Token

/-!
# Nodes

The tree that a document spells out: scalars as they are written, collections, and aliases that
stand for an anchored node. `Node α` names anchors by `α`: by their text as read, and by numbers
once every alias has been tied to its anchor (`Node.link?`).

Anchors are numbered by how many different names came before them. A name that is used again gets
a new number while the count stays, so the next new name shares that number, and an alias means
the last node with its number.
-/

namespace Rollout.Yaml

/-- The octets of a tag. -/
abbrev Tag := List UInt8

/-- A node of a document, with its anchor and its tag. -/
inductive Node (α : Type) where
  | scalar (anchor : Option α) (tag : Option Tag) (style : Style) (text : String)
  | sequence (anchor : Option α) (tag : Option Tag) (items : List (Node α))
  | mapping (anchor : Option α) (tag : Option Tag) (entries : List (Node α × Node α))
  | alias (anchor : α)
deriving Inhabited

namespace Node

/-- The scalar that stands where nothing is written. -/
def absent {α : Type} : Node α := .scalar none none .plain ""

mutual

/-- How many parsing events spell the node: one for a scalar or an alias, two around a
collection. -/
def events {α : Type} : Node α → Nat
  | .scalar .. => 1
  | .alias _ => 1
  | .sequence _ _ items => eventsOfItems items + 2
  | .mapping _ _ entries => eventsOfEntries entries + 2
termination_by structural n => n

/-- The events of the items of a sequence. -/
def eventsOfItems {α : Type} : List (Node α) → Nat
  | [] => 0
  | n :: ns => n.events + eventsOfItems ns
termination_by structural ns => ns

/-- The events of the entries of a mapping. -/
def eventsOfEntries {α : Type} : List (Node α × Node α) → Nat
  | [] => 0
  | (k, v) :: es => k.events + v.events + eventsOfEntries es
termination_by structural es => es

end

mutual

/-- The anchored nodes with their anchors, in the order of the document. -/
def anchored {α : Type} : Node α → List (α × Node α)
  | n@(.scalar anchor _ _ _) => (anchor.map (·, n)).toList
  | .alias _ => []
  | n@(.sequence anchor _ items) => (anchor.map (·, n)).toList ++ anchoredItems items
  | n@(.mapping anchor _ entries) => (anchor.map (·, n)).toList ++ anchoredEntries entries
termination_by structural n => n

/-- The anchored nodes among the items of a sequence. -/
def anchoredItems {α : Type} : List (Node α) → List (α × Node α)
  | [] => []
  | n :: ns => n.anchored ++ anchoredItems ns
termination_by structural ns => ns

/-- The anchored nodes among the entries of a mapping. -/
def anchoredEntries {α : Type} : List (Node α × Node α) → List (α × Node α)
  | [] => []
  | (k, v) :: es => k.anchored ++ v.anchored ++ anchoredEntries es
termination_by structural es => es

end

/-- The names of the anchors so far with their numbers, each name once. -/
abbrev Names := List (String × Nat)

/-- Gives a name the next number. -/
def Names.define (names : Names) (name : String) : Names :=
  if names.any (·.1 == name) then
    names.map fun (n, i) => if n = name then (n, names.length) else (n, i)
  else names ++ [(name, names.length)]

/-- Defines the anchor of a node, if it has one. -/
def Names.defineAnchor (names : Names) : Option String → Option Nat × Names
  | none => (none, names)
  | some name => (some names.length, names.define name)

mutual

/-- The node with numbers for anchors. An alias whose anchor has not come yet has no meaning. -/
def link? : Node String → Names → Option (Node Nat × Names)
  | .scalar anchor tag style text, names =>
    let (id, names) := names.defineAnchor anchor
    some (.scalar id tag style text, names)
  | .alias name, names => do
    let (_, id) ← names.find? (·.1 == name)
    return (.alias id, names)
  | .sequence anchor tag items, names => do
    let (id, names) := names.defineAnchor anchor
    let (items, names) ← linkItems? items names
    return (.sequence id tag items, names)
  | .mapping anchor tag entries, names => do
    let (id, names) := names.defineAnchor anchor
    let (entries, names) ← linkEntries? entries names
    return (.mapping id tag entries, names)
termination_by structural n => n

/-- Links the items of a sequence from left to right. -/
def linkItems? : List (Node String) → Names → Option (List (Node Nat) × Names)
  | [], names => some ([], names)
  | n :: ns, names => do
    let (n, names) ← n.link? names
    let (ns, names) ← linkItems? ns names
    return (n :: ns, names)
termination_by structural ns => ns

/-- Links the entries of a mapping, each key before its value. -/
def linkEntries? : List (Node String × Node String) → Names →
    Option (List (Node Nat × Node Nat) × Names)
  | [], names => some ([], names)
  | (k, v) :: es, names => do
    let (k, names) ← k.link? names
    let (v, names) ← v.link? names
    let (es, names) ← linkEntries? es names
    return ((k, v) :: es, names)
termination_by structural es => es

end

end Node

/-- A document: its node, unless the text holds none, the anchored nodes, and the number of
aliases that may be followed while it is read. -/
structure Document where
  root : Option (Node Nat)
  anchors : List (Nat × Node Nat)
  aliasLimit : Nat

namespace Document

/-- The document without a node. -/
def empty : Document := ⟨none, [], 100⟩

/-- The document with the given node; a hundred aliases may be followed per event. -/
def ofNode (n : Node Nat) : Document := ⟨some n, n.anchored, 100 * n.events⟩

/-- The node that an alias with the given number stands for. -/
def target? (d : Document) (id : Nat) : Option (Node Nat) :=
  (d.anchors.reverse.find? (·.1 == id)).map (·.2)

end Document

end Rollout.Yaml
