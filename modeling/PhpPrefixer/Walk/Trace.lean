import PhpPrefixer.Walk

/-!
# Traces of walks

A watcher does nothing but write down what it is shown, and asks the walk to stay above nodes of some
types. The trace of a walk is what its watchers wrote.
-/

namespace PhpPrefixer

/-- A visitor that writes down what it is shown. -/
structure Watcher where
  /-- Its name. -/
  name : String
  /-- The types of nodes it wants the walk to stay above. -/
  stops : List String
  deriving DecidableEq, Repr

namespace Walk

/-- What a watcher writes down. -/
inductive Event where
  /-- The walk begins. -/
  | before (watcher : String)
  /-- A node of a type is entered. -/
  | enter (watcher type : String)
  /-- A node of a type is left. -/
  | leave (watcher type : String)
  /-- The walk has ended. -/
  | after (watcher : String)
  deriving DecidableEq, Repr

/-- Writing down an event. -/
def tell (e : Event) : StateM (List Event) Unit := modify (· ++ [e])

/-- A watcher as a visitor. -/
def watching (w : Watcher) : Visitor (StateM (List Event)) where
  before := tell (.before w.name)
  enter s := do
    tell (.enter w.name s.node.type)
    return if w.stops.contains s.node.type then .skip else .onward
  leave s := tell (.leave w.name s.node.type)
  after := tell (.after w.name)

/-- The number of nodes entered in a walk with some watchers, and what they wrote. -/
def trace (watchers : List Watcher) (root : Node) : Nat × List Event :=
  (through (watchers.map watching) root).run []

end Walk

end PhpPrefixer
