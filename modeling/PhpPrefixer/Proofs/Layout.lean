import Mathlib.Data.List.Pairwise
import PhpPrefixer.Prefixer
import PhpPrefixer.Proofs.Trees

/-!
# The layout of trees

What a parser promises about its trees: the span of a node holds those of its children, which follow
one another; names hold nothing but names and punctuation, and the contents of a string have nothing
below them. Two spans are apart when one ends before the other starts; an empty span is apart from
another one unless it is strictly inside it.
-/

namespace PhpPrefixer

namespace Span

/-- One span ends before the other starts. -/
def Apart (a b : Span) : Prop := a.stop ≤ b.start ∨ b.stop ≤ a.start

instance (a b : Span) : Decidable (a.Apart b) := inferInstanceAs (Decidable (_ ∨ _))

/-- One span lies in another. -/
def Within (a b : Span) : Prop := b.start ≤ a.start ∧ a.stop ≤ b.stop

instance (a b : Span) : Decidable (a.Within b) := inferInstanceAs (Decidable (_ ∧ _))

variable {a b c d : Span}

/-- If a span is apart from another one, so is the other one from it. -/
theorem Apart.symm (h : a.Apart b) : b.Apart a := Or.symm h

/-- A span lies within itself. -/
theorem Within.refl (a : Span) : a.Within a := ⟨Nat.le_refl _, Nat.le_refl _⟩

/-- What lies within a span within a span lies within it. -/
theorem Within.trans (hab : a.Within b) (hbc : b.Within c) : a.Within c :=
  ⟨Nat.le_trans hbc.1 hab.1, Nat.le_trans hab.2 hbc.2⟩

/-- What lies in spans that are apart is apart. -/
theorem Apart.within (h : a.Apart b) (hc : c.Within a) (hd : d.Within b) : c.Apart d := by
  unfold Apart Within at *
  omega

end Span

/-- The bytes an edit replaces. -/
def Edit.span (e : Edit) : Span := ⟨e.start, e.stop⟩

namespace Node

/-- The types of literals. -/
def literalTypes : List String := ["string", "encapsed_string"]

/-- What a parser promises about each node of its trees. -/
structure IsRegular (n : Node) : Prop where
  /-- The span of a node does not end before it starts. -/
  forward : n.span.start ≤ n.span.stop
  /-- The children lie in the node. -/
  inside : ∀ c ∈ n.children, c.span.Within n.span
  /-- The children follow one another. -/
  ordered : n.children.Pairwise fun a b => a.span.stop ≤ b.span.start
  /-- A namespace declaration is named by a name. -/
  namespaceName : n.type = Prefixing.namespaceType → ∀ c ∈ n.child? "name", c.isName = true
  /-- A name holds nothing but names and punctuation. -/
  names : n.isName = true → ∀ c ∈ n.namedChildren, c.isName = true
  /-- The contents of a literal have nothing below them. -/
  contents : n.type ∈ literalTypes → ∀ c ∈ n.namedChildren, c.type ∈ Literal.contentTypes →
    c.children = []

instance (n : Node) : Decidable n.IsRegular :=
  decidable_of_iff
    (n.span.start ≤ n.span.stop ∧ (∀ c ∈ n.children, c.span.Within n.span)
      ∧ (n.children.Pairwise fun a b => a.span.stop ≤ b.span.start)
      ∧ (n.type = Prefixing.namespaceType → ∀ c ∈ n.child? "name", c.isName = true)
      ∧ (n.isName = true → ∀ c ∈ n.namedChildren, c.isName = true)
      ∧ (n.type ∈ literalTypes → ∀ c ∈ n.namedChildren, c.type ∈ Literal.contentTypes →
        c.children = []))
    ⟨fun ⟨h₁, h₂, h₃, h₄, h₅, h₆⟩ => ⟨h₁, h₂, h₃, h₄, h₅, h₆⟩,
      fun h => ⟨h.forward, h.inside, h.ordered, h.namespaceName, h.names, h.contents⟩⟩

/-- All nodes of a tree are as a parser promises. -/
def IsRegularTree (root : Node) : Prop := ∀ n ∈ root.preorder, n.IsRegular

instance (root : Node) : Decidable root.IsRegularTree :=
  inferInstanceAs (Decidable (∀ n ∈ root.preorder, n.IsRegular))

variable {n : Node}

/-- The root of a regular tree is regular. -/
theorem IsRegularTree.self (h : n.IsRegularTree) : n.IsRegular := h n (mem_preorder_self n)

/-- The tree of a child of a regular tree is regular. -/
theorem IsRegularTree.child (h : n.IsRegularTree) {c : Node} (hc : c ∈ n.children) :
    c.IsRegularTree :=
  fun m hm => h m (mem_preorder_trans hm (mem_preorder_child hc))

/-- The children of a node follow one another. -/
structure HasOrderedChildren (n : Node) : Prop where
  /-- No child ends before it starts. -/
  forward : ∀ c ∈ n.children, c.span.start ≤ c.span.stop
  /-- Each child ends before the next ones start. -/
  ordered : n.children.Pairwise fun a b => a.span.stop ≤ b.span.start

instance (n : Node) : Decidable n.HasOrderedChildren :=
  decidable_of_iff
    ((∀ c ∈ n.children, c.span.start ≤ c.span.stop)
      ∧ n.children.Pairwise fun a b => a.span.stop ≤ b.span.start)
    ⟨fun h => ⟨h.1, h.2⟩, fun h => ⟨h.forward, h.ordered⟩⟩

/-- The children of a regular tree follow each other. -/
theorem IsRegularTree.hasOrderedChildren (h : n.IsRegularTree) : n.HasOrderedChildren :=
  ⟨fun _ hc => (h.child hc).self.forward, h.self.ordered⟩

/-- An offset between the children of a node, in front of them or behind them. -/
def IsBoundary (n : Node) (offset : Nat) : Prop :=
  ∀ c ∈ n.children, c.span.stop ≤ offset ∨ offset ≤ c.span.start

namespace HasOrderedChildren

/-- Two children of a node are the same or apart. -/
theorem eq_or_apart (h : n.HasOrderedChildren) {c d : Node} (hc : c ∈ n.children)
    (hd : d ∈ n.children) : c = d ∨ c.span.Apart d.span := by
  by_cases heq : c = d
  · exact .inl heq
  · right
    have hapart : n.children.Pairwise fun a b => a.span.Apart b.span :=
      h.ordered.imp fun hab => .inl hab
    have hsymm : Std.Symm fun a b : Node => a.span.Apart b.span := ⟨fun _ _ => Span.Apart.symm⟩
    exact hapart.forall hc hd heq

/-- Behind a child is a boundary. -/
theorem isBoundary_stop (h : n.HasOrderedChildren) {c : Node} (hc : c ∈ n.children) :
    n.IsBoundary c.span.stop := by
  intro d hd
  have hforward := h.forward c hc
  rcases h.eq_or_apart hc hd with rfl | hbefore | hafter
  · exact .inl (Nat.le_refl _)
  · exact .inr hbefore
  · exact .inl (by omega)

/-- In front of a child is a boundary. -/
theorem isBoundary_start (h : n.HasOrderedChildren) {c : Node} (hc : c ∈ n.children) :
    n.IsBoundary c.span.start := by
  intro d hd
  have hforward := h.forward c hc
  rcases h.eq_or_apart hc hd with rfl | hbefore | hafter
  · exact .inr (Nat.le_refl _)
  · exact .inr (by omega)
  · exact .inl hafter

end HasOrderedChildren

/-- What lies in a child is apart from an insertion between the children. -/
theorem IsBoundary.apart {offset : Nat} (h : n.IsBoundary offset) {c : Node} (hc : c ∈ n.children)
    {x : Span} (hx : x.Within c.span) : Span.Apart ⟨offset, offset⟩ x := by
  have hchild := h c hc
  unfold Span.Apart Span.Within at *
  simp only
  omega

end Node

end PhpPrefixer
