import PhpPrefixer.Proofs.Layout

/-!
# Where edits may fall

Which spans may be replaced on entering a node is decided by the tree alone: `Site.targets`. The spans
that a whole visit may touch are `Site.reach`; an import statement counts as a whole, since it is not
gone into. In a regular tree all spans in the reach of a site are apart from one another
(`Site.pairwise_reach`), if the arguments of calls are lists of arguments and not something else.
-/

namespace PhpPrefixer

open Prefixing

namespace Node

/-- The type of import statements. -/
def useType : String := "namespace_use_declaration"

/-- The types of calls that may pass names in strings. -/
def callTypes : List String := ["function_call_expression", "object_creation_expression"]

/-- Whether a node is a literal without interpolation. -/
def isLiteral (n : Node) : Bool :=
  literalTypes.contains n.type && n.namedChildren.all fun c => Literal.contentTypes.contains c.type

/-- Only literals are read as literals. -/
theorem isLiteral_of_literal? {n : Node} {text : Text} {l : Literal}
    (h : n.literal? text = some l) : n.isLiteral = true := by
  unfold literal? Literal.read? at h
  split at h
  · next hshape => simpa [isLiteral, literalTypes] using hshape
  · cases h

/-- The literals among the arguments a call passes by position. -/
def literalArguments (call : Node) : List Node :=
  (call.argumentValues.filterMap id).filter (·.isLiteral)

/-- The arguments of a call are not taken for a single argument or for an import statement. -/
def HasPlainArguments (n : Node) : Prop :=
  n.type ∈ callTypes → ∀ list ∈ n.argumentList?, list.type ≠ "argument" ∧ list.type ≠ useType

instance (n : Node) : Decidable n.HasPlainArguments :=
  inferInstanceAs (Decidable (n.type ∈ callTypes → ∀ list ∈ n.argumentList?, _ ∧ _))

/-- All calls of a tree have plain lists of arguments. -/
def HasPlainCalls (root : Node) : Prop := ∀ n ∈ root.preorder, n.HasPlainArguments

instance (root : Node) : Decidable root.HasPlainCalls :=
  inferInstanceAs (Decidable (∀ n ∈ root.preorder, n.HasPlainArguments))

/-- Calls below a child are plain where those below the parent are. -/
theorem HasPlainCalls.child {n c : Node} (h : n.HasPlainCalls) (hc : c ∈ n.children) :
    c.HasPlainCalls :=
  fun m hm => h m (mem_preorder_trans hm (mem_preorder_child hc))

/-- One of the arguments of a call passes a value: it is the value, or holds it at its end. -/
def Passes (argument value : Node) : Prop :=
  (argument.type ≠ "argument" ∧ argument = value)
    ∨ (argument.type = "argument" ∧ argument.namedChildren.getLast? = some value)

/-- A value at a position is passed by one of the arguments. -/
theorem exists_passes_of_mem_positional {ns : List Node} {v : Node} (h : some v ∈ positional ns) :
    ∃ k ∈ ns, k.Passes v := by
  fun_induction positional ns with
  | case1 => exact absurd h List.not_mem_nil
  | case2 n ns _ ih =>
    obtain ⟨k, hk, hpasses⟩ := ih h
    exact ⟨k, List.mem_cons_of_mem n hk, hpasses⟩
  | case3 => exact absurd h List.not_mem_nil
  | case4 n ns _ hargument _ ih =>
    rcases List.mem_cons.mp h with hv | hrest
    · exact ⟨n, List.mem_cons_self, .inr ⟨hargument, hv.symm⟩⟩
    · obtain ⟨k, hk, hpasses⟩ := ih hrest
      exact ⟨k, List.mem_cons_of_mem n hk, hpasses⟩
  | case5 n ns _ hargument ih =>
    rcases List.mem_cons.mp h with hv | hrest
    · cases hv
      exact ⟨v, List.mem_cons_self, .inl ⟨hargument, rfl⟩⟩
    · obtain ⟨k, hk, hpasses⟩ := ih hrest
      exact ⟨k, List.mem_cons_of_mem n hk, hpasses⟩

/-- A value lies within the argument that passes it. -/
theorem Passes.within {k v : Node} (h : k.Passes v) (hk : k.IsRegular) :
    v.span.Within k.span := by
  rcases h with ⟨-, rfl⟩ | ⟨-, hlast⟩
  · exact Span.Within.refl _
  · exact hk.inside v (mem_children_of_namedChildren (List.mem_of_getLast? hlast))

/-- The values passed by position follow one another as the arguments do. -/
theorem pairwise_positional {ns : List Node} (hregular : ∀ n ∈ ns, n.IsRegular)
    (hordered : ns.Pairwise fun a b => a.span.stop ≤ b.span.start) :
    ((positional ns).filterMap id).Pairwise fun a b => a.span.stop ≤ b.span.start := by
  have hcons : ∀ {n v : Node} {ns : List Node}, n.Passes v → n.IsRegular →
      (∀ m ∈ ns, m.IsRegular) → (∀ m ∈ ns, n.span.stop ≤ m.span.start) →
      ∀ u ∈ (positional ns).filterMap id, v.span.stop ≤ u.span.start := by
    intro n v ns hpasses hn hns hlater u hu
    obtain ⟨k, hk, hku⟩ := exists_passes_of_mem_positional (by simpa using hu)
    have hv := hpasses.within hn
    have hu := hku.within (hns k hk)
    have hnk := hlater k hk
    exact Nat.le_trans hv.2 (Nat.le_trans hnk hu.1)
  fun_induction positional ns with
  | case1 => exact List.Pairwise.nil
  | case2 n ns _ ih =>
    exact ih (List.forall_mem_cons.mp hregular).2 (List.pairwise_cons.mp hordered).2
  | case3 => exact List.Pairwise.nil
  | case4 n ns _ hargument _ ih =>
    obtain ⟨hn, hns⟩ := List.forall_mem_cons.mp hregular
    obtain ⟨hlater, hrest⟩ := List.pairwise_cons.mp hordered
    cases hlast : n.namedChildren.getLast? with
    | none => exact ih hns hrest
    | some v =>
      exact List.pairwise_cons.mpr ⟨hcons (.inr ⟨hargument, hlast⟩) hn hns hlater, ih hns hrest⟩
  | case5 n ns _ hargument ih =>
    obtain ⟨hn, hns⟩ := List.forall_mem_cons.mp hregular
    obtain ⟨hlater, hrest⟩ := List.pairwise_cons.mp hordered
    exact List.pairwise_cons.mpr ⟨hcons (.inl ⟨hargument, rfl⟩) hn hns hlater, ih hns hrest⟩

/-- The list of arguments of a call is one of its children. -/
theorem mem_children_of_argumentList? {n list : Node} (h : n.argumentList? = some list) :
    list ∈ n.children := by
  unfold argumentList? at h
  split at h
  · next found hfield =>
    cases h
    exact (mem_children_of_child? hfield).1
  · exact mem_children_of_namedChildren (List.mem_of_find?_eq_some h)

/-- A literal argument is passed by an argument in the list. -/
theorem exists_passes_of_mem_literalArguments {n v : Node} (h : v ∈ n.literalArguments) :
    v.isLiteral = true ∧ ∃ list, n.argumentList? = some list ∧ ∃ k ∈ list.namedChildren,
      k.Passes v := by
  obtain ⟨hvalue, hliteral⟩ := List.mem_filter.mp h
  refine ⟨hliteral, ?_⟩
  have hpassed : some v ∈ n.argumentValues := by simpa using hvalue
  unfold argumentValues at hpassed
  split at hpassed
  · next list hlist => exact ⟨list, hlist, exists_passes_of_mem_positional hpassed⟩
  · exact absurd hpassed List.not_mem_nil

/-- What a call passes is a node of it. -/
theorem mem_preorder_of_argument? {call value : Node} {position : Nat}
    (h : call.argument? position = some value) : value ∈ call.preorder := by
  have hpassed : some value ∈ call.argumentValues :=
    List.mem_of_getElem? (Option.join_eq_some_iff.mp h)
  unfold argumentValues at hpassed
  split at hpassed
  · next list hlist =>
    obtain ⟨k, hk, hvalue⟩ := exists_passes_of_mem_positional hpassed
    have hlistMem := mem_preorder_child (mem_children_of_argumentList? hlist)
    have hkMem := mem_preorder_trans (mem_preorder_child (mem_children_of_namedChildren hk)) hlistMem
    obtain ⟨-, rfl⟩ | ⟨-, hlast⟩ := hvalue
    · exact hkMem
    · have hchild := mem_children_of_namedChildren (List.mem_of_getLast? hlast)
      exact mem_preorder_trans (mem_preorder_child hchild) hkMem
  · cases hpassed

/-- A name is no argument. -/
theorem type_ne_argument_of_isName {n : Node} (h : n.isName = true) : n.type ≠ "argument" := by
  intro htype
  simp [isName, nameTypes, htype] at h

/-- A name is no literal. -/
theorem not_isLiteral_of_isName {n : Node} (h : n.isName = true) : n.isLiteral = false := by
  simp only [isName, nameTypes, List.contains_iff_mem, List.mem_cons, List.not_mem_nil,
    or_false] at h
  rcases h with h | h | h | h <;> simp [isLiteral, literalTypes, h]

/-- An argument that passes a literal is no name. -/
theorem Passes.isName_eq_false {k v : Node} (h : k.Passes v) (hv : v.isLiteral = true) :
    k.isName = false := by
  by_contra hname
  rw [Bool.not_eq_false] at hname
  rcases h with ⟨-, rfl⟩ | ⟨htype, -⟩
  · exact absurd (not_isLiteral_of_isName hname) (by simp [hv])
  · exact type_ne_argument_of_isName hname htype

/-- The names directly below a node that are written anew on entering it. -/
def nameTargets (n : Node) : List Node :=
  if n.type = "function_call_expression" then (n.child? "function").toList.filter (·.isName)
  else classReferences n

/-- The child in a field is one of the children, or there is none. -/
theorem sublist_of_child? (n : Node) (field : String) : (n.child? field).toList.Sublist n.children := by
  cases hchild : n.child? field with
  | none => exact List.nil_sublist _
  | some c => exact List.singleton_sublist.mpr (mem_children_of_child? hchild).1

/-- The references to classes at a node are children of it, in their order. -/
theorem classReferences_sublist (n : Node) : (classReferences n).Sublist n.children := by
  have hnamed : n.namedChildren.Sublist n.children := List.filter_sublist
  unfold classReferences
  split
  · exact List.filter_sublist.trans ((List.take_sublist _ _).trans hnamed)
  split
  · exact List.filter_sublist.trans hnamed
  split
  · exact List.filter_sublist.trans ((List.drop_sublist _ _).trans hnamed)
  split
  · exact List.filter_sublist.trans (sublist_of_child? n _)
  split
  · exact List.filter_sublist.trans (sublist_of_child? n _)
  split
  · exact List.filter_sublist.trans (sublist_of_child? n _)
  · exact List.nil_sublist _

/-- The names at a node that may be written anew are children of it, in their order. -/
theorem nameTargets_sublist (n : Node) : n.nameTargets.Sublist n.children := by
  unfold nameTargets
  split
  · exact List.filter_sublist.trans (sublist_of_child? n _)
  · exact classReferences_sublist n

/-- What may be written anew as a name is a name. -/
theorem isName_of_mem_nameTargets {n c : Node} (h : c ∈ n.nameTargets) : c.isName = true := by
  unfold nameTargets at h
  split at h
  · exact (mem_filter_child? h).2
  · exact (mem_classReferences h).2

/-- The spans that are touched on entering a namespace declaration: its name, or the end of its
keyword if it has no name. -/
def namespaceTargets (n : Node) : List Span :=
  match n.child? "name" with
  | some c => [c.span]
  | none =>
    match n.children with
    | [] => []
    | keyword :: _ => [⟨keyword.span.stop, keyword.span.stop⟩]

end Node

/-- The types of nodes below which a name may stand for a constant, in whatever field. -/
def constantTypes : List String := "const_element" :: constantParents ++ constantFields.map (·.1)

/-- A name whose parent has no place for constants does not stand for one. -/
theorem isConstantSite_of_parent {s : Site} {parent : Node} (hparent : s.parent = some parent)
    (htype : parent.type ∉ constantTypes) : isConstantSite s = false := by
  simp only [constantTypes, List.cons_append, List.mem_cons, List.mem_append, List.mem_map,
    not_or] at htype
  obtain ⟨helement, hparents, hfields⟩ := htype
  have hfind : constantFields.find? (fun entry => entry.1 = parent.type) = none := by
    rw [List.find?_eq_none]
    intro entry hentry heq
    exact hfields ⟨entry, hentry, of_decide_eq_true heq⟩
  simp only [isConstantSite, hparent, if_neg helement, List.contains_iff_mem, if_neg hparents, hfind]

namespace Site

/-- The sites of children have the node above them for parent. -/
theorem among_parent {parent : Node} {nth : Nat} {children : List Node} {t : Site}
    (h : t ∈ among parent nth children) : t.parent = some parent := by
  induction children generalizing nth with
  | nil => exact absurd h List.not_mem_nil
  | cons c cs ih =>
    unfold among at h
    split at h
    · rcases List.mem_cons.mp h with rfl | hrest
      · rfl
      · exact ih hrest
    · exact ih h

/-- Below a site stand the sites whose parent is its node. -/
theorem parent_of_mem_below {s t : Site} (h : t ∈ s.below) : t.parent = some s.node :=
  among_parent h

/-- Below a site stand named children. -/
theorem mem_namedChildren_of_below {s t : Site} (h : t ∈ s.below) : t.node ∈ s.node.namedChildren := by
  rw [← below_map_node]
  exact List.mem_map_of_mem h

/-- Among siblings that follow one another, a site with the first node in a field is at the place of this
node, unless the node covers nothing and stands there twice. -/
theorem place_of_mem_among {parent : Node} {t : Site} {field : String} {nth : Nat} {children : List Node}
    (hordered : children.Pairwise fun a b => a.span.stop ≤ b.span.start)
    (ht : t ∈ among parent nth children)
    (hchild : children.find? (fun c => c.field = some field) = some t.node) :
    (Node.placeAmong? field children).map (nth + ·) = some t.nth
      ∨ t.node.span.stop ≤ t.node.span.start := by
  induction children generalizing nth with
  | nil => exact absurd ht List.not_mem_nil
  | cons c cs ih =>
    obtain ⟨hlater, hrest⟩ := List.pairwise_cons.mp hordered
    have hmem : ∀ {nth : Nat}, t ∈ among parent nth cs → t.node ∈ cs := fun h =>
      (List.mem_filter.mp (among_map_node parent _ cs ▸ List.mem_map_of_mem h)).1
    rw [List.find?_cons] at hchild
    unfold among at ht
    by_cases hfield : c.field = some field
    · obtain rfl : c = t.node := by simpa [hfield] using hchild
      split at ht
      · next hnamed =>
        rcases List.mem_cons.mp ht with heq | ht
        · left
          rw [Node.placeAmong?, if_pos hfield, if_pos hnamed, heq]
          rfl
        · exact .inr (hlater _ (hmem ht))
      · exact .inr (hlater _ (hmem ht))
    · replace hchild : cs.find? (fun c => c.field = some field) = some t.node := by
        simpa [hfield] using hchild
      rw [Node.placeAmong?, if_neg hfield, Option.map_map]
      split at ht
      · next hnamed =>
        rcases List.mem_cons.mp ht with heq | ht
        · right
          have hnode : t.node = c := by rw [heq]
          exact hnode ▸ hlater _ (hnode ▸ List.mem_of_find?_eq_some hchild)
        · refine (ih hrest ht hchild).imp_left fun hplace => ?_
          rw [← hplace]
          refine congrArg (fun f => Option.map f (Node.placeAmong? field cs)) (funext fun place => ?_)
          simp only [hnamed, if_true, Function.comp_apply]
          omega
      · next hnamed =>
        simp only [hnamed]
        exact ih hrest ht hchild

/-- In an ordered tree a site with the node in a field occupies it, unless the node covers nothing. -/
theorem occupies_of_child? {s t : Site} {field : String} (hordered : s.node.IsRegular) (ht : t ∈ s.below)
    (hchild : s.node.child? field = some t.node) :
    t.occupies field = true ∨ t.node.span.stop ≤ t.node.span.start := by
  refine (place_of_mem_among hordered.ordered ht hchild).imp_left fun hplace => ?_
  have hat : s.node.place? field = some t.nth := by simpa [Node.place?] using hplace
  simp [occupies, parent_of_mem_below ht, hat]

/-- A name that is written anew on entering the node above it does not stand for a constant, unless it
covers nothing. -/
theorem isConstantSite_of_mem_nameTargets {s t : Site} (hregular : s.node.IsRegular) (ht : t ∈ s.below)
    (hname : t.node ∈ s.node.nameTargets) :
    isConstantSite t = false ∨ t.node.span.stop ≤ t.node.span.start := by
  have hparent := parent_of_mem_below ht
  have htypes : ∀ types : List String, (∀ type ∈ types, type ∉ constantTypes) →
      s.node.type ∈ types → isConstantSite t = false ∨ t.node.span.stop ≤ t.node.span.start := by
    intro types hall htype
    exact .inl (isConstantSite_of_parent hparent (hall _ htype))
  unfold Node.nameTargets at hname
  split at hname
  · next hcall => exact htypes ["function_call_expression"] (by decide) (by simp [hcall])
  · unfold classReferences at hname
    split at hname
    · next hfirst => exact htypes _ (by decide) (List.contains_iff_mem.mp hfirst)
    split at hname
    · next hall => exact htypes _ (by decide) (List.contains_iff_mem.mp hall)
    split at hname
    · next hrest => exact htypes ["use_instead_of_clause"] (by decide) (by simp [hrest])
    split at hname
    · next hscope =>
      exact htypes ["scoped_call_expression", "scoped_property_access_expression"] (by decide)
        (by simpa using hscope)
    split at hname
    · next htest =>
      refine (occupies_of_child? hregular ht (mem_filter_child? hname).1).imp_left fun hright => ?_
      have hbinary : s.node.type = "binary_expression" := by
        simp only [isInstanceTest, Bool.and_eq_true, decide_eq_true_eq] at htest
        exact htest.1
      simp [isConstantSite, hparent, hbinary, constantParents, htest, hright]
    split at hname
    · next hcatch => exact htypes ["catch_clause"] (by decide) (by simp [hcatch])
    · exact absurd hname List.not_mem_nil

end Site

end PhpPrefixer
