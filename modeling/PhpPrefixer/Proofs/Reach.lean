import PhpPrefixer.Proofs.EditSites

/-!
# The reach of a visit

The spans a visit to a site may touch, and that they are apart from one another. By induction over the
tree: what is replaced on entering a node is apart from all that is in the reach of the sites below
it, because a name that is replaced has nothing in its reach, and neither has a literal.
-/

namespace PhpPrefixer

open Prefixing

namespace Site

/-- The spans that may be replaced, or at which something may be inserted, on entering a site. -/
def targets (s : Site) : List Span :=
  if s.node.isName then if isConstantSite s then [s.node.span] else []
  else if s.node.type = namespaceType then s.node.namespaceTargets
  else
    (s.node.nameTargets
      ++ if s.node.type ∈ Node.callTypes then s.node.literalArguments else []).map (·.span)

/-- The spans that may be touched while a site is visited. -/
def reach (s : Site) : List Span :=
  if s.node.type = Node.useType then [s.node.span]
  else s.targets ++ s.below.attach.flatMap fun t => reach t.1
termination_by s.node.size
decreasing_by
  exact Node.size_lt_of_mem (mem_children_of_below t.2)

/-- An import statement is reached as a whole. Elsewhere, what may be touched at the node is reached, and
what is reached below it. -/
theorem reach_eq (s : Site) :
    s.reach = if s.node.type = Node.useType then [s.node.span]
      else s.targets ++ s.below.flatMap reach := by
  have hbelow : (s.below.attach.flatMap fun t => reach t.1) = s.below.flatMap reach :=
    calc (s.below.attach.flatMap fun t => reach t.1)
        = (s.below.attach.map (·.1)).flatMap reach := (List.flatMap_map ..).symm
      _ = s.below.flatMap reach := by rw [List.attach_map_subtype_val]
  rw [reach, hbelow]

/-- Every site has a property that a site has when the sites below it do. -/
@[elab_as_elim]
theorem induction {P : Site → Prop} (step : ∀ s, (∀ t ∈ s.below, P t) → P s) (s : Site) : P s := by
  induction hsize : s.node.size using Nat.strongRecOn generalizing s with
  | ind size ih =>
    apply step
    intro t ht
    have hless := Node.size_lt_of_mem (mem_children_of_below ht)
    exact ih t.node.size (by omega) t rfl

/-- What may be touched on entering a site. -/
inductive IsTarget (s : Site) (x : Span) : Prop where
  /-- The node itself, which is the name of a constant. -/
  | self (hname : s.node.isName = true) (hsite : isConstantSite s = true) (hx : x = s.node.span)
  /-- A name directly below the node, which is no constant if it covers something. -/
  | name (c : Node) (hc : c ∈ s.node.children) (hname : c.isName = true)
    (hsite : ∀ t ∈ s.below, t.node = c →
      isConstantSite t = false ∨ t.node.span.stop ≤ t.node.span.start) (hx : x = c.span)
  /-- The end of a child. -/
  | keyword (c : Node) (hc : c ∈ s.node.children) (hx : x = ⟨c.span.stop, c.span.stop⟩)
  /-- A literal among the arguments of a call. -/
  | literal (hcall : s.node.type ∈ Node.callTypes) (v : Node) (hv : v ∈ s.node.literalArguments)
    (hx : x = v.span)

variable {s t : Site} {x y : Span}

/-- What may be touched at a site is one of its names, literals or words. -/
theorem isTarget_of_mem_targets (hregular : s.node.IsRegular) (h : x ∈ s.targets) :
    s.IsTarget x := by
  unfold targets at h
  split at h
  · next hname =>
    split at h
    · next hsite => exact .self hname hsite (List.mem_singleton.mp h)
    · exact absurd h List.not_mem_nil
  split at h
  · next hspace =>
    unfold Node.namespaceTargets at h
    split at h
    · next c hc =>
      have htypes : s.node.type ∉ constantTypes := by
        rw [hspace]
        decide
      refine .name c (Node.mem_children_of_child? hc).1 (hregular.namespaceName hspace c hc) ?_
        (List.mem_singleton.mp h)
      intro t ht _
      exact .inl (isConstantSite_of_parent (parent_of_mem_below ht) htypes)
    · split at h
      · exact absurd h List.not_mem_nil
      · next keyword rest hchildren =>
        exact .keyword keyword (by simp [hchildren]) (List.mem_singleton.mp h)
  · obtain ⟨c, hc, rfl⟩ := List.mem_map.mp h
    rcases List.mem_append.mp hc with hname | hliteral
    · refine .name c ((Node.nameTargets_sublist s.node).mem hname)
        (Node.isName_of_mem_nameTargets hname) ?_ rfl
      rintro t ht rfl
      exact isConstantSite_of_mem_nameTargets hregular ht hname
    · split at hliteral
      · next hcall => exact .literal hcall c hliteral rfl
      · exact absurd hliteral List.not_mem_nil

/-- A literal argument is passed by an argument in the list, and lies in the list. -/
theorem exists_argument {n v : Node} (hregular : n.IsRegularTree) (hv : v ∈ n.literalArguments) :
    v.isLiteral = true ∧ ∃ list, n.argumentList? = some list ∧ list ∈ n.children
      ∧ v.span.Within list.span ∧ ∃ k ∈ list.namedChildren, k.Passes v := by
  obtain ⟨hliteral, list, hlist, k, hk, hpasses⟩ := Node.exists_passes_of_mem_literalArguments hv
  have hmem := Node.mem_children_of_argumentList? hlist
  have hchild := Node.mem_children_of_namedChildren hk
  have hlistRegular := hregular.child hmem
  have hvalue := hpasses.within (hlistRegular.child hchild).self
  have hwithin := hvalue.trans (hlistRegular.self.inside k hchild)
  exact ⟨hliteral, list, hlist, hmem, hwithin, k, hk, hpasses⟩

/-- A value that is passed covers a span that does not end before it starts. -/
theorem forward_of_passes {k v : Node} (hregular : k.IsRegularTree) (hpasses : k.Passes v) :
    v.span.start ≤ v.span.stop := by
  rcases hpasses with ⟨-, rfl⟩ | ⟨-, hlast⟩
  · exact hregular.self.forward
  · have hchild := Node.mem_children_of_namedChildren (List.mem_of_getLast? hlast)
    exact (hregular.child hchild).self.forward

/-- What may be touched at a site lies within its node. -/
theorem IsTarget.within (hregular : s.node.IsRegularTree) (h : s.IsTarget x) :
    x.Within s.node.span ∧ x.start ≤ x.stop := by
  cases h with
  | self _ _ hx =>
    rw [hx]
    exact ⟨Span.Within.refl _, hregular.self.forward⟩
  | name c hc _ _ hx =>
    rw [hx]
    exact ⟨hregular.self.inside c hc, (hregular.child hc).self.forward⟩
  | keyword c hc hx =>
    have hinside := hregular.self.inside c hc
    have hforward := (hregular.child hc).self.forward
    rw [hx]
    exact ⟨⟨Nat.le_trans hinside.1 hforward, hinside.2⟩, Nat.le_refl _⟩
  | literal _ v hv hx =>
    obtain ⟨-, list, -, hmem, hwithin, k, hk, hpasses⟩ := exists_argument hregular hv
    have hlistRegular := hregular.child hmem
    have hkRegular := hlistRegular.child (Node.mem_children_of_namedChildren hk)
    rw [hx]
    exact ⟨hwithin.trans (hregular.self.inside list hmem), forward_of_passes hkRegular hpasses⟩

/-- What a site reaches is the whole import statement, or it may be touched at the node, or is reached below
it. -/
theorem mem_reach (h : x ∈ s.reach) :
    (s.node.type = Node.useType ∧ x = s.node.span)
      ∨ (s.node.type ≠ Node.useType ∧ (x ∈ s.targets ∨ ∃ t ∈ s.below, x ∈ t.reach)) := by
  rw [reach_eq] at h
  split at h
  · next huse => exact .inl ⟨huse, List.mem_singleton.mp h⟩
  · next huse =>
    rcases List.mem_append.mp h with htarget | hbelow
    · exact .inr ⟨huse, .inl htarget⟩
    · exact .inr ⟨huse, .inr (List.mem_flatMap.mp hbelow)⟩

/-- All that is in the reach of a site lies in its node. -/
theorem within_of_mem_reach (hregular : s.node.IsRegularTree) (h : x ∈ s.reach) :
    x.Within s.node.span ∧ x.start ≤ x.stop := by
  induction s using Site.induction with
  | step s ih =>
    rcases mem_reach h with ⟨-, rfl⟩ | ⟨-, htarget | ⟨t, ht, hx⟩⟩
    · exact ⟨Span.Within.refl _, hregular.self.forward⟩
    · exact (isTarget_of_mem_targets hregular.self htarget).within hregular
    · have hchild := mem_children_of_below ht
      obtain ⟨hwithin, hforward⟩ := ih t ht (hregular.child hchild) hx
      exact ⟨hwithin.trans (hregular.self.inside _ hchild), hforward⟩

/-- The types of nodes at which something may be touched on entering them. -/
def editedTypes : List String :=
  nameTypes ++ [namespaceType, "function_call_expression", "object_creation_expression",
    "class_constant_access_expression", "named_type", "attribute", "base_clause",
    "class_interface_clause", "type_list", "use_declaration", "use_instead_of_clause",
    "scoped_call_expression", "scoped_property_access_expression", "binary_expression",
    "catch_clause"]

/-- At a node of another type nothing may be touched. -/
theorem targets_of_type (h : s.node.type ∉ editedTypes) : s.targets = [] := by
  simp only [editedTypes, nameTypes, namespaceType, List.cons_append, List.nil_append,
    List.mem_cons, List.not_mem_nil, or_false, not_or] at h
  simp [targets, Node.isName, nameTypes, namespaceType, Node.nameTargets, classReferences,
    isInstanceTest, Node.callTypes, h]

/-- A name has one of the types of names. -/
theorem type_mem_of_isName {n : Node} (h : n.isName = true) : n.type ∈ nameTypes :=
  List.contains_iff_mem.mp h

/-- Below a name stand only names, and none of them stands for a constant. -/
theorem below_of_name (hregular : s.node.IsRegular) (hname : s.node.isName = true) (ht : t ∈ s.below) :
    t.node.isName = true ∧ isConstantSite t = false := by
  have htypes : ∀ type ∈ nameTypes, type ∉ constantTypes := by decide
  have hparent := htypes _ (type_mem_of_isName hname)
  exact ⟨hregular.names hname _ (mem_namedChildren_of_below ht),
    isConstantSite_of_parent (parent_of_mem_below ht) hparent⟩

/-- A name that is no constant has nothing in its reach. -/
theorem not_mem_reach_of_name (hregular : s.node.IsRegularTree) (hname : s.node.isName = true)
    (hsite : isConstantSite s = false) : x ∉ s.reach := by
  induction s using Site.induction with
  | step s ih =>
    intro h
    have huse : ∀ type ∈ nameTypes, type ≠ Node.useType := by decide
    rcases mem_reach h with ⟨htype, -⟩ | ⟨-, htarget | ⟨t, ht, hx⟩⟩
    · exact huse _ (type_mem_of_isName hname) htype
    · simp [targets, hname, hsite] at htarget
    · obtain ⟨hnameBelow, hsiteBelow⟩ := below_of_name hregular.self hname ht
      exact ih t ht (hregular.child (mem_children_of_below ht)) hnameBelow hsiteBelow hx

/-- A literal has nothing in its reach. -/
theorem not_mem_reach_of_literal (hregular : s.node.IsRegularTree)
    (hliteral : s.node.isLiteral = true) : x ∉ s.reach := by
  intro h
  simp only [Node.isLiteral, Bool.and_eq_true, List.contains_iff_mem, List.all_eq_true] at hliteral
  obtain ⟨htype, hcontents⟩ := hliteral
  have hliteralTypes : ∀ type ∈ Node.literalTypes, type ≠ Node.useType ∧ type ∉ editedTypes := by
    decide
  have hcontentTypes : ∀ type ∈ Literal.contentTypes, type ≠ Node.useType ∧ type ∉ editedTypes := by
    decide
  rcases mem_reach h with ⟨huse, -⟩ | ⟨-, htarget | ⟨t, ht, hx⟩⟩
  · exact (hliteralTypes _ htype).1 huse
  · rw [targets_of_type (hliteralTypes _ htype).2] at htarget
    exact absurd htarget List.not_mem_nil
  · have hnamed := mem_namedChildren_of_below ht
    have hcontent := hcontents _ hnamed
    have hleaf := hregular.self.contents htype _ hnamed hcontent
    rcases mem_reach hx with ⟨huse, -⟩ | ⟨-, htarget | ⟨u, hu, -⟩⟩
    · exact (hcontentTypes _ hcontent).1 huse
    · rw [targets_of_type (hcontentTypes _ hcontent).2] at htarget
      exact absurd htarget List.not_mem_nil
    · rw [below, hleaf] at hu
      exact absurd hu List.not_mem_nil

/-- A literal passed directly below a call is apart from the literals the call itself passes: these
stand below its list of arguments, which passes nothing itself. -/
theorem apart_of_literalArguments {n k v w : Node} (hregular : n.IsRegularTree)
    (hplain : n.HasPlainArguments) (hcall : n.type ∈ Node.callTypes) (hk : k ∈ n.children)
    (hpasses : k.Passes v) (hv : v.isLiteral = true) (hw : w ∈ n.literalArguments) :
    v.span.Apart w.span := by
  obtain ⟨hliteral, list, hlist, hmem, hwithin, j, hj, hjw⟩ := exists_argument hregular hw
  have hvalue := hpasses.within (hregular.child hk).self
  rcases hregular.hasOrderedChildren.eq_or_apart hk hmem with rfl | hapart
  · rcases hpasses with ⟨-, rfl⟩ | ⟨htype, -⟩
    · simp only [Node.isLiteral, Bool.and_eq_true, List.contains_iff_mem, List.all_eq_true] at hv
      have hcontent := hv.2 j hj
      have htypes : ∀ type ∈ Literal.contentTypes, type ≠ "argument" ∧ type ∉ Node.literalTypes := by
        decide
      rcases hjw with ⟨-, rfl⟩ | ⟨hargument, -⟩
      · simp only [Node.isLiteral, Bool.and_eq_true, List.contains_iff_mem] at hliteral
        exact absurd hliteral.1 (htypes _ hcontent).2
      · exact absurd hargument (htypes _ hcontent).1
    · exact absurd htype (hplain hcall _ hlist).1
  · exact hapart.within hvalue hwithin

/-- What is in the reach of an argument is apart from the literal it passes. -/
theorem apart_of_argument {v : Node} (hregular : s.node.IsRegularTree) (hpasses : s.node.Passes v)
    (hv : v.isLiteral = true) (hx : x ∈ s.reach) : v.span.Apart x := by
  rcases hpasses with ⟨-, heq⟩ | ⟨htype, hlast⟩
  · rw [← heq] at hv
    exact absurd hx (not_mem_reach_of_literal hregular hv)
  · have hchild := Node.mem_children_of_namedChildren (List.mem_of_getLast? hlast)
    rcases mem_reach hx with ⟨huse, -⟩ | ⟨-, htarget | ⟨t, ht, hxt⟩⟩
    · rw [htype] at huse
      exact absurd huse (by decide)
    · rw [targets_of_type (by rw [htype]; decide)] at htarget
      exact absurd htarget List.not_mem_nil
    · have hbelow := mem_children_of_below ht
      have htRegular := hregular.child hbelow
      rcases hregular.hasOrderedChildren.eq_or_apart hchild hbelow with rfl | hapart
      · exact absurd hxt (not_mem_reach_of_literal htRegular hv)
      · exact hapart.within (Span.Within.refl _) (within_of_mem_reach htRegular hxt).1

/-- Below a list of arguments, all that is in reach is apart from a literal that is passed. -/
theorem apart_of_passes (hregular : t.node.IsRegularTree) (hplain : t.node.HasPlainCalls)
    (huse : t.node.type ≠ Node.useType) {k v : Node} (hk : k ∈ t.node.namedChildren)
    (hpasses : k.Passes v) (hv : v.isLiteral = true) (hy : y ∈ t.reach) : v.span.Apart y := by
  have hchild := Node.mem_children_of_namedChildren hk
  have hkRegular := hregular.child hchild
  have hvalue := hpasses.within hkRegular.self
  have hnoName := hpasses.isName_eq_false hv
  rcases mem_reach hy with ⟨htype, -⟩ | ⟨-, htarget | ⟨u, hu, hyu⟩⟩
  · exact absurd htype huse
  · cases isTarget_of_mem_targets hregular.self htarget with
    | self hname _ _ =>
      have hkName := hregular.self.names hname k hk
      simp [hnoName] at hkName
    | name c hc hname _ hx =>
      rw [hx]
      rcases hregular.hasOrderedChildren.eq_or_apart hchild hc with rfl | hapart
      · simp [hnoName] at hname
      · exact hapart.within hvalue (Span.Within.refl _)
    | keyword c hc hx =>
      rw [hx]
      exact ((hregular.hasOrderedChildren.isBoundary_stop hc).apart hchild hvalue).symm
    | literal hcall w hw hx =>
      rw [hx]
      have hself := hplain t.node (Node.mem_preorder_self _)
      exact apart_of_literalArguments hregular hself hcall hchild hpasses hv hw
  · have hbelow := mem_children_of_below hu
    have huRegular := hregular.child hbelow
    rcases hregular.hasOrderedChildren.eq_or_apart hchild hbelow with heq | hapart
    · rw [heq] at hpasses
      exact apart_of_argument huRegular hpasses hv hyu
    · exact hapart.within hvalue (within_of_mem_reach huRegular hyu).1

/-- What is touched on entering a site is apart from all that is in the reach of the sites below. -/
theorem apart_of_isTarget (hregular : s.node.IsRegularTree) (hplain : s.node.HasPlainCalls)
    (hx : s.IsTarget x) (ht : t ∈ s.below) (hy : y ∈ t.reach) : x.Apart y := by
  have hchild := mem_children_of_below ht
  have htRegular := hregular.child hchild
  have hyWithin := (within_of_mem_reach htRegular hy).1
  cases hx with
  | self hname _ _ =>
    obtain ⟨hnameBelow, hsiteBelow⟩ := below_of_name hregular.self hname ht
    exact absurd hy (not_mem_reach_of_name htRegular hnameBelow hsiteBelow)
  | name c hc hname hsite hx =>
    rw [hx]
    rcases hregular.hasOrderedChildren.eq_or_apart hc hchild with heq | hapart
    · rw [heq] at hname
      rcases hsite t ht heq.symm with hsite | hempty
      · exact absurd hy (not_mem_reach_of_name htRegular hname hsite)
      · rw [heq]
        exact .inl (Nat.le_trans hempty hyWithin.1)
    · exact hapart.within (Span.Within.refl _) hyWithin
  | keyword c hc hx =>
    rw [hx]
    exact (hregular.hasOrderedChildren.isBoundary_stop hc).apart hchild hyWithin
  | literal hcall v hv hx =>
    rw [hx]
    obtain ⟨hliteral, list, hlist, hmem, hwithin, k, hk, hpasses⟩ := exists_argument hregular hv
    rcases hregular.hasOrderedChildren.eq_or_apart hmem hchild with rfl | hapart
    · have huse := (hplain s.node (Node.mem_preorder_self _) hcall _ hlist).2
      exact apart_of_passes htRegular (hplain.child hchild) huse hk hpasses hliteral hy
    · exact hapart.within hwithin hyWithin

/-- Children of a regular node are apart. -/
theorem pairwise_children {n : Node} (h : n.IsRegular) {ns : List Node} (hns : ns.Sublist n.children) :
    (ns.map (·.span)).Pairwise Span.Apart := by
  rw [List.pairwise_map]
  exact (h.ordered.sublist hns).imp fun hab => .inl hab

/-- The literals that a call passes are apart. -/
theorem pairwise_literalArguments {n : Node} (hregular : n.IsRegularTree) :
    (n.literalArguments.map (·.span)).Pairwise Span.Apart := by
  have hvalues : (n.argumentValues.filterMap id).Pairwise
      fun a b => a.span.stop ≤ b.span.start := by
    unfold Node.argumentValues
    split
    · next list hlist =>
      have hlistRegular := hregular.child (Node.mem_children_of_argumentList? hlist)
      apply Node.pairwise_positional
      · intro k hk
        exact (hlistRegular.child (Node.mem_children_of_namedChildren hk)).self
      · exact hlistRegular.self.ordered.sublist List.filter_sublist
    · exact List.Pairwise.nil
  rw [List.pairwise_map]
  exact (hvalues.sublist List.filter_sublist).imp fun hab => .inl hab

/-- The spans touched on entering a site are apart. -/
theorem pairwise_targets (hregular : s.node.IsRegularTree) : s.targets.Pairwise Span.Apart := by
  unfold targets
  split
  · split
    · exact List.pairwise_singleton _ _
    · exact List.Pairwise.nil
  split
  · unfold Node.namespaceTargets
    split
    · exact List.pairwise_singleton _ _
    · split
      · exact List.Pairwise.nil
      · exact List.pairwise_singleton _ _
  · rw [List.map_append, List.pairwise_append]
    have hnames := Node.nameTargets_sublist s.node
    refine ⟨pairwise_children hregular.self hnames, ?_, ?_⟩
    · split
      · exact pairwise_literalArguments hregular
      · exact List.Pairwise.nil
    · intro x hx y hy
      obtain ⟨c, hc, rfl⟩ := List.mem_map.mp hx
      obtain ⟨v, hv, rfl⟩ := List.mem_map.mp hy
      have hv' : v ∈ s.node.literalArguments := by
        split at hv
        · exact hv
        · exact absurd hv List.not_mem_nil
      obtain ⟨hliteral, list, -, hmem, hwithin, k, hk, hpasses⟩ := exists_argument hregular hv'
      rcases hregular.hasOrderedChildren.eq_or_apart (hnames.mem hc) hmem with rfl | hapart
      · have hname := (hregular.child hmem).self.names (Node.isName_of_mem_nameTargets hc) k hk
        simp [hpasses.isName_eq_false hliteral] at hname
      · exact hapart.within (Span.Within.refl _) hwithin

/-- All spans in the reach of a site are apart. -/
theorem pairwise_reach (hregular : s.node.IsRegularTree) (hplain : s.node.HasPlainCalls) :
    s.reach.Pairwise Span.Apart := by
  induction s using Site.induction with
  | step s ih =>
    rw [reach_eq]
    split
    · exact List.pairwise_singleton _ _
    · rw [List.pairwise_append, List.pairwise_flatMap]
      refine ⟨pairwise_targets hregular, ⟨?_, ?_⟩, ?_⟩
      · intro t ht
        have hchild := mem_children_of_below ht
        exact ih t ht (hregular.child hchild) (hplain.child hchild)
      · have hordered : s.below.Pairwise fun a b => a.node.span.stop ≤ b.node.span.start := by
          rw [← @List.pairwise_map _ _ Site.node fun a b => a.span.stop ≤ b.span.start,
            below_map_node]
          exact hregular.self.ordered.sublist List.filter_sublist
        refine hordered.imp_of_mem ?_
        intro a b ha hb hab x hx y hy
        have hxWithin := (within_of_mem_reach (hregular.child (mem_children_of_below ha)) hx).1
        have hyWithin := (within_of_mem_reach (hregular.child (mem_children_of_below hb)) hy).1
        exact Span.Apart.within (.inl hab) hxWithin hyWithin
      · intro x hx y hy
        obtain ⟨t, ht, hyt⟩ := List.mem_flatMap.mp hy
        exact apart_of_isTarget hregular hplain (isTarget_of_mem_targets hregular.self hx) ht hyt

/-- An insertion between the children of a node is apart from all that is in the reach of the node,
unless the node as a whole is. -/
theorem apart_of_isBoundary (hregular : s.node.IsRegularTree) (huse : s.node.type ≠ Node.useType)
    (hsite : isConstantSite s = false) {offset : Nat} (hoffset : s.node.IsBoundary offset)
    (hy : y ∈ s.reach) : Span.Apart ⟨offset, offset⟩ y := by
  rcases mem_reach hy with ⟨htype, -⟩ | ⟨-, htarget | ⟨t, ht, hyt⟩⟩
  · exact absurd htype huse
  · cases isTarget_of_mem_targets hregular.self htarget with
    | self _ hconstant _ => simp [hsite] at hconstant
    | name c hc _ _ hx =>
      rw [hx]
      exact hoffset.apart hc (Span.Within.refl _)
    | keyword c _ hx =>
      rw [hx]
      exact Nat.le_total _ _
    | literal _ v hv hx =>
      obtain ⟨-, list, -, hmem, hwithin, -⟩ := exists_argument hregular hv
      rw [hx]
      exact hoffset.apart hmem hwithin
  · have hchild := mem_children_of_below ht
    exact hoffset.apart hchild (within_of_mem_reach (hregular.child hchild) hyt).1

end Site

end PhpPrefixer
