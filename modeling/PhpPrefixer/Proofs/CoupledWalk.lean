import PhpPrefixer.Proofs.Coupling

/-!
# Walks through the same code in two files

A walk comes to the same code in both files at sites that match: the nodes are the same but for their
offsets, and what a visitor asks about the node above is answered alike. At such sites all visitors but
the one for namespaces keep every coupling. If the visitor for namespaces does so as well, so does the
walk through the code: `Walk.couples_run`.
-/

namespace PhpPrefixer

open PrefixingM Prefixing FileSetting

/-- The sites of a node in two files. Above the first nodes of the code there may be different ones, if
they are the tops of the files. -/
inductive Site.Matches (k₁ k₂ : Nat) (n : Node) : Site → Site → Prop where
  /-- The node above is the same as well. -/
  | inside (parent : Option Node) (nth : Nat) :
    Matches k₁ k₂ n ⟨n.shift k₁, parent.map (Node.shift k₁), nth⟩
      ⟨n.shift k₂, parent.map (Node.shift k₂), nth⟩
  /-- The node is a statement of both files. -/
  | statement {top₁ top₂ : Node} (nth₁ nth₂ : Nat) (h₁ : top₁.type = "program")
    (h₂ : top₂.type = "program") :
    Matches k₁ k₂ n ⟨n.shift k₁, some top₁, nth₁⟩ ⟨n.shift k₂, some top₂, nth₂⟩

namespace Site

variable {k₁ k₂ : Nat} {n : Node} {s₁ s₂ : Site}

/-- The first of two matching sites is that of the node, moved to its place in the first file. -/
theorem Matches.node_left (h : Matches k₁ k₂ n s₁ s₂) : s₁.node = n.shift k₁ := by
  cases h with
  | inside => rfl
  | statement => rfl

/-- The second of two matching sites is that of the node, moved to its place in the second file. -/
theorem Matches.node_right (h : Matches k₁ k₂ n s₁ s₂) : s₂.node = n.shift k₂ := by
  cases h with
  | inside => rfl
  | statement => rfl

/-- A site matches itself. -/
theorem matches_self (s : Site) : Matches 0 0 s.node s s := by
  have hparent : s.parent.map (Node.shift 0) = s.parent := by
    rw [funext Node.shift_zero, Option.map_id']
  have hs : s = ⟨s.node.shift 0, s.parent.map (Node.shift 0), s.nth⟩ := by
    rw [hparent, Node.shift_zero]
  have hmatches : Matches 0 0 s.node ⟨s.node.shift 0, s.parent.map (Node.shift 0), s.nth⟩
      ⟨s.node.shift 0, s.parent.map (Node.shift 0), s.nth⟩ := .inside s.parent s.nth
  rwa [← hs] at hmatches

/-- The place of the node in a field does not depend on where the siblings are in their file. -/
theorem placeAmong?_shift (k : Nat) (field : String) (ns : List Node) :
    Node.placeAmong? field (ns.map (Node.shift k)) = Node.placeAmong? field ns := by
  induction ns with
  | nil => rfl
  | cons n ns ih => simp only [List.map_cons, Node.placeAmong?, Node.field_shift, Node.named_shift, ih]

/-- A site occupies a field wherever it is in its file. -/
theorem occupies_shift (k : Nat) (parent : Node) (nth : Nat) (field : String) :
    occupies ⟨n.shift k, some (parent.shift k), nth⟩ field = occupies ⟨n, some parent, nth⟩ field := by
  have hplace : (parent.shift k).place? field = parent.place? field := by
    rw [Node.place?, Node.children_shift, placeAmong?_shift, Node.place?]
  simp only [occupies, Option.any_some, hplace]

/-- A constant stands at a site wherever it is in its file. -/
theorem isConstantSite_shift (k : Nat) (parent : Option Node) (nth : Nat) :
    isConstantSite ⟨n.shift k, parent.map (Node.shift k), nth⟩ = isConstantSite ⟨n, parent, nth⟩ := by
  cases parent with
  | none => rfl
  | some p =>
    simp only [isConstantSite, Option.map_some, Node.type_shift, occupies_shift,
      isInstanceTest_shift]

/-- Directly below the top of a file no name stands for a constant. -/
theorem isConstantSite_of_program {top : Node} (htop : top.type = "program") (nth : Nat) :
    isConstantSite ⟨n, some top, nth⟩ = false := by
  simp [isConstantSite, htop, constantParents, constantFields]

/-- At matching sites a name stands for a constant in both files or in neither. -/
theorem Matches.isConstantSite_eq (h : Matches k₁ k₂ n s₁ s₂) :
    isConstantSite s₁ = isConstantSite s₂ := by
  cases h with
  | inside parent nth => rw [isConstantSite_shift, isConstantSite_shift]
  | statement nth₁ nth₂ h₁ h₂ => rw [isConstantSite_of_program h₁, isConstantSite_of_program h₂]

/-- The names of the constants declared by a node, whatever is above it. -/
def constantNames (n : Node) : List Node :=
  (n.namedChildren.filter fun c => c.type = "const_element").filterMap fun c => c.namedChildren.head?

/-- Shifting a node shifts the names of the constants that it declares. -/
theorem constantNames_shift (k : Nat) (n : Node) :
    constantNames (n.shift k) = (constantNames n).map (Node.shift k) := by
  rw [constantNames, Node.namedChildren_shift, Node.filter_map_shift fun m => by rw [Node.type_shift],
    List.filterMap_map, constantNames, List.map_filterMap]
  congr 1
  funext c
  rw [Function.comp_apply, Node.namedChildren_shift, List.head?_map]

/-- Constants are declared by a node unless it stands in a class body. -/
theorem declaredConstants_eq (s : Site) :
    declaredConstants s = if s.parent.any fun p => classBodyTypes.contains p.type then []
      else constantNames s.node := rfl

/-- The same constants are declared at matching sites. -/
theorem Matches.declaredConstants_eq (h : Matches k₁ k₂ n s₁ s₂) :
    ∃ ns : List Node, (∀ m ∈ ns, m ∈ constantNames n) ∧ declaredConstants s₁ = ns.map (Node.shift k₁)
      ∧ declaredConstants s₂ = ns.map (Node.shift k₂) := by
  cases h with
  | inside parent nth =>
    have hbody : ∀ k, ((parent.map (Node.shift k)).any fun p => classBodyTypes.contains p.type)
        = parent.any fun p => classBodyTypes.contains p.type := by
      intro k
      cases parent with
      | none => rfl
      | some p => simp
    simp only [Site.declaredConstants_eq, hbody, constantNames_shift]
    split
    · exact ⟨[], nofun, rfl, rfl⟩
    · exact ⟨constantNames n, fun _ hm => hm, rfl, rfl⟩
  | @statement top₁ top₂ nth₁ nth₂ h₁ h₂ =>
    have hprogram : classBodyTypes.contains "program" = false := by decide
    simp only [Site.declaredConstants_eq, Option.any_some, h₁, h₂, hprogram, constantNames_shift]
    exact ⟨constantNames n, fun _ hm => hm, rfl, rfl⟩

/-- The name of a declared constant is below the declaration. -/
theorem mem_preorder_of_constantNames {m : Node} (h : m ∈ constantNames n) : m ∈ n.preorder := by
  obtain ⟨c, hc, hm⟩ := List.mem_filterMap.mp h
  have hc' := Node.mem_children_of_namedChildren (List.mem_filter.mp hc).1
  have hm' := Node.mem_children_of_namedChildren (List.mem_of_mem_head? hm)
  exact Node.mem_preorder_trans (Node.mem_preorder_child hm') (Node.mem_preorder_child hc')

/-- Below the same node the walk comes to matching sites. -/
theorem among_matches (n : Node) (nth : Nat) (children : List Node) :
    List.Forall₂ (fun a b => ∃ m ∈ children, Matches k₁ k₂ m a b)
      (among (n.shift k₁) nth (children.map (Node.shift k₁)))
      (among (n.shift k₂) nth (children.map (Node.shift k₂))) := by
  induction children generalizing nth with
  | nil => exact List.Forall₂.nil
  | cons c cs ih =>
    have hmono : ∀ {a b : Site}, (∃ m ∈ cs, Matches k₁ k₂ m a b) →
        ∃ m ∈ c :: cs, Matches k₁ k₂ m a b := by
      rintro a b ⟨m, hm, hab⟩
      exact ⟨m, List.mem_cons_of_mem c hm, hab⟩
    simp only [List.map_cons, among, Node.named_shift]
    split
    · exact List.Forall₂.cons ⟨c, List.mem_cons_self, .inside (some n) nth⟩
        ((ih (nth + 1)).imp fun _ _ => hmono)
    · exact (ih nth).imp fun _ _ => hmono

/-- Below matching sites are matching sites. -/
theorem Matches.below (h : Matches k₁ k₂ n s₁ s₂) :
    List.Forall₂ (fun a b => ∃ m ∈ n.children, Matches k₁ k₂ m a b) s₁.below s₂.below := by
  rw [Site.below, Site.below, h.node_left, h.node_right, Node.children_shift, Node.children_shift]
  exact among_matches n 0 n.children

end Site

namespace Prefixing

variable {k₁ k₂ : Nat} {C : Coupling k₁ k₂} {w₁ w₂ : FileSetting} {n : Node} {s₁ s₂ : Site}

/-- Imports of the same code are treated alike in two files. -/
theorem couples_imports (h : SameCode w₁ w₂ k₁ k₂ n) (hs : Site.Matches k₁ k₂ n s₁ s₂) :
    Couples C.holds ((imports w₁).enter s₁) ((imports w₂).enter s₂) (· = ·) := by
  have hgroup : ∀ k, ((n.shift k).namedChildren.find? fun c => c.type = groupType)
      = (n.namedChildren.find? fun c => c.type = groupType).map (Node.shift k) := by
    intro k
    rw [Node.namedChildren_shift, Node.find?_map_shift fun m => by rw [Node.type_shift]]
  simp only [imports, hs.node_left, hs.node_right, Node.type_shift, hgroup, Import.kindWord?_shift]
  refine Couples.ite ?_ (Couples.pure rfl)
  cases hfound : n.namedChildren.find? fun c => c.type = groupType with
  | none => exact (couples_enterPlain h _).bind fun _ _ _ => Couples.pure rfl
  | some group =>
    have hmem := Node.mem_children_of_namedChildren (List.mem_of_find?_eq_some hfound)
    exact (couples_enterGroup h hmem _).bind fun _ _ _ => Couples.pure rfl

/-- References in the same code are treated alike in two files. -/
theorem couples_moveReferences (kind : SymbolKind) {ns : List Node}
    (h : ∀ m ∈ ns, SameCode w₁ w₂ k₁ k₂ m) :
    Couples C.holds (moveReferences w₁ kind (ns.map (Node.shift k₁)))
      (moveReferences w₂ kind (ns.map (Node.shift k₂))) fun _ _ => True := by
  induction ns with
  | nil => exact Couples.pure trivial
  | cons m ns ih =>
    obtain ⟨hm, hns⟩ := List.forall_mem_cons.mp h
    exact (couples_moveReference hm kind).bind fun _ _ _ => ih hns

/-- Declarations in the same code are recorded alike in two files. -/
theorem couples_recordAll (kind : SymbolKind) {ns : List Node}
    (h : ∀ m ∈ ns, SameCode w₁ w₂ k₁ k₂ m) :
    Couples C.holds (recordAll w₁ kind (ns.map (Node.shift k₁)))
      (recordAll w₂ kind (ns.map (Node.shift k₂))) fun _ _ => True := by
  induction ns with
  | nil => exact Couples.pure trivial
  | cons m ns ih =>
    obtain ⟨hm, hns⟩ := List.forall_mem_cons.mp h
    have hfirst : ∀ m' ∈ some m, SameCode w₁ w₂ k₁ k₂ m' :=
      fun m' hm' => Option.mem_some_iff.mp hm' ▸ hm
    exact (couples_recordDeclaration kind hfirst).bind fun _ _ _ => ih hns

/-- Names in the same code are treated alike in two files. -/
theorem couples_names (h : SameCode w₁ w₂ k₁ k₂ n) (hs : Site.Matches k₁ k₂ n s₁ s₂) :
    Couples C.holds ((names w₁).enter s₁) ((names w₂).enter s₂) (· = ·) := by
  have hfield : ∀ field, ∀ m ∈ n.child? field, SameCode w₁ w₂ k₁ k₂ m :=
    fun field m hm => h.child (Node.mem_children_of_child? hm).1
  obtain ⟨constants, hconstants, hleft, hright⟩ := hs.declaredConstants_eq
  have hnames : Couples C.holds (enterNames w₁ s₁) (enterNames w₂ s₂) fun _ _ => True := by
    unfold enterNames
    simp only [hleft, hright, ← hs.isConstantSite_eq, hs.node_left, hs.node_right, Node.isName_shift,
      Node.type_shift, Node.child?_shift, classReferences_shift,
      Node.filter_toList_shift (Node.isName_shift _)]
    refine Couples.ite (Couples.ite (couples_moveReference h _) (Couples.pure trivial)) ?_
    refine Couples.ite (couples_recordDeclaration _ (hfield _)) ?_
    refine Couples.ite (couples_recordDeclaration _ (hfield _)) ?_
    refine Couples.ite (couples_recordAll _ fun m hm => ?_) ?_
    · exact h.below (Site.mem_preorder_of_constantNames (hconstants m hm))
    refine Couples.ite (couples_moveReferences _ fun m hm => ?_)
      (couples_moveReferences _ fun m hm => h.child (mem_classReferences hm).1)
    exact hfield _ m (mem_filter_child? hm).1
  exact hnames.bind fun _ _ _ => Couples.pure rfl

/-- A literal that is passed for a name is treated alike in two files. -/
theorem couples_moveArgument (h : SameCode w₁ w₂ k₁ k₂ n) (callee : Text) (kind : SymbolKind) :
    Couples C.holds (moveArgument w₁ callee kind (n.shift k₁)) (moveArgument w₂ callee kind (n.shift k₂))
      fun _ _ => True := by
  refine couples_textOf_bind h fun text _ => ?_
  simp only [Node.literal?_shift, Node.type_shift]
  cases n.literal? text with
  | none => exact Couples.ite couples_reportDynamic (Couples.pure trivial)
  | some literal =>
    refine (couples_prefixMention h.relocation kind literal.value).bind ?_
    rintro spelled - rfl
    cases spelled with
    | none => exact Couples.pure trivial
    | some t => exact C.replace n _

/-- The literals of a call are treated alike in two files. -/
theorem couples_moveArguments (h : SameCode w₁ w₂ k₁ k₂ n) (callee : Text)
    (taken : List (Nat × SymbolKind)) :
    Couples C.holds (moveArguments w₁ callee (n.shift k₁) taken)
      (moveArguments w₂ callee (n.shift k₂) taken) fun _ _ => True := by
  induction taken with
  | nil => exact Couples.pure trivial
  | cons entry rest ih =>
    simp only [moveArguments, Node.argument?_shift]
    cases hvalue : n.argument? entry.1 with
    | none => exact ih
    | some value =>
      have hsame := h.below (Node.mem_preorder_of_argument? hvalue)
      exact (couples_moveArgument hsame callee entry.2).bind fun _ _ _ => ih

/-- Literals in the same code are treated alike in two files. -/
theorem couples_literals (h : SameCode w₁ w₂ k₁ k₂ n) (hs : Site.Matches k₁ k₂ n s₁ s₂) :
    Couples C.holds ((literals w₁).enter s₁) ((literals w₂).enter s₂) (· = ·) := by
  have hliterals : Couples C.holds (enterLiterals w₁ (n.shift k₁)) (enterLiterals w₂ (n.shift k₂))
      fun _ _ => True := by
    unfold enterLiterals
    simp only [Node.type_shift, Node.namedChildren_shift, List.head?_map]
    refine Couples.ite ?_ (Couples.ite ?_ (Couples.pure trivial))
    · refine couples_callee?_bind h fun callee => ?_
      cases callee with
      | none => exact Couples.pure trivial
      | some callee => exact couples_moveArguments h callee _
    · cases hclass : n.namedChildren.head? with
      | none => exact Couples.pure trivial
      | some classNode =>
        have hmem := Node.mem_children_of_namedChildren (List.mem_of_mem_head? hclass)
        simp only [Option.map_some, Node.isName_shift]
        refine Couples.ite ?_ (Couples.pure trivial)
        refine couples_textOf_bind (h.child hmem) fun text _ => Couples.get_bind fun t₁ t₂ ht => ?_
        rw [← C.scope_eq ht]
        exact couples_moveArguments h _ _
  simp only [literals, hs.node_left, hs.node_right]
  exact hliterals.bind fun _ _ _ => Couples.pure rfl

/-- Code that is embedded in both files is treated alike wherever both treatments end well. -/
def TreatedAlike (w₁ w₂ : FileSetting) (treat₁ treat₂ : Text → Plan Text) : Prop :=
  ∀ m₁ m₂ text literal, w₁.source.text? m₁ = some text → w₂.source.text? m₂ = some text →
    m₁.literal? text = some literal → m₂.literal? text = some literal →
    ∀ a b, (treat₁ (asFile literal.value)).outcome = .ok a →
      (treat₂ (asFile literal.value)).outcome = .ok b → a = b

variable {treat₁ treat₂ : Text → Plan Text}

/-- One treatment treats embedded code as it does itself. -/
theorem treatedAlike_self (w : FileSetting) (treat : Text → Plan Text) :
    TreatedAlike w w treat treat :=
  fun _ _ _ _ _ _ _ _ _ _ ha hb => Except.ok.inj (ha.symm.trans hb)

/-- Embedded code that is treated alike leaves two files alike. -/
theorem couples_embedded (h : SameCode w₁ w₂ k₁ k₂ n) (hs : Site.Matches k₁ k₂ n s₁ s₂)
    (htreat : TreatedAlike w₁ w₂ treat₁ treat₂) :
    Couples C.holds ((embedded w₁ treat₁).enter s₁) ((embedded w₂ treat₂).enter s₂) (· = ·) := by
  simp only [embedded, hs.node_left, hs.node_right, enterEmbedded, Node.type_shift,
    Node.argument?_shift]
  refine Couples.ite (Couples.pure rfl) ?_
  refine couples_callee?_bind h fun callee => Couples.ite (Couples.pure rfl) ?_
  cases hvalue : n.argument? 0 with
  | none => exact Couples.pure rfl
  | some value =>
    have hsame := h.below (Node.mem_preorder_of_argument? hvalue)
    refine couples_textOf_bind hsame fun text htext => ?_
    simp only [Node.literal?_shift]
    cases hliteral : value.literal? text with
    | none => exact couples_reportDynamic.bind fun _ _ _ => Couples.pure rfl
    | some literal =>
      have hfound : ∀ k, (value.shift k).literal? text = some literal := by
        intro k
        rw [Node.literal?_shift, hliteral]
      have htext₂ := hsame.self.symm.trans htext
      have hinner : Couples C.holds (liftM (treat₁ (asFile literal.value)))
          (liftM (treat₂ (asFile literal.value))) (· = ·) :=
        Couples.lift (htreat _ _ text literal htext htext₂ (hfound k₁) (hfound k₂))
      refine hinner.bind ?_
      rintro file - rfl
      exact (C.replace value _).bind fun _ _ _ => Couples.pure rfl

/-- All visitors but the one for namespaces keep every coupling at matching sites. -/
theorem couples_others (C : Coupling k₁ k₂) (h : SameCode w₁ w₂ k₁ k₂ n)
    (hs : Site.Matches k₁ k₂ n s₁ s₂) (htreat : TreatedAlike w₁ w₂ treat₁ treat₂) :
    List.Forall₂ (fun v₁ v₂ : Visitor PrefixingM =>
        Couples C.holds (v₁.enter s₁) (v₂.enter s₂) (· = ·))
      [imports w₁, names w₁, literals w₁, embedded w₁ treat₁]
      [imports w₂, names w₂, literals w₂, embedded w₂ treat₂] :=
  .cons (couples_imports h hs) (.cons (couples_names h hs) (.cons (couples_literals h hs)
    (.cons (couples_embedded h hs htreat) .nil)))

end Prefixing

namespace Walk

/-- What is left to do in two files is the same, up to where it stands. -/
inductive Task.Matches (k₁ k₂ : Nat) (n : Node) : Task → Task → Prop where
  /-- A site is entered in both. -/
  | enter {s₁ s₂ : Site} (h : s₁.Matches k₁ k₂ n s₂) : Matches k₁ k₂ n (.enter s₁) (.enter s₂)
  /-- A site is left in both. -/
  | leave {s₁ s₂ : Site} (h : s₁.Matches k₁ k₂ n s₂) : Matches k₁ k₂ n (.leave s₁) (.leave s₂)

variable {k₁ k₂ : Nat} {C : FileState → FileState → Prop}
  {vs₁ vs₂ : List (Visitor PrefixingM)}

/-- Entering with visitors that keep a relation, each with its partner, keeps it. -/
theorem couples_enterAll {s₁ s₂ : Site}
    (h : List.Forall₂ (fun v₁ v₂ => Couples C (v₁.enter s₁) (v₂.enter s₂) (· = ·)) vs₁ vs₂) :
    Couples C (enterAll vs₁ s₁) (enterAll vs₂ s₂) (· = ·) := by
  induction h with
  | nil => exact Couples.pure rfl
  | cons hv _ ih =>
    refine hv.bind ?_
    rintro descent - rfl
    refine ih.bind ?_
    rintro more - rfl
    exact Couples.pure rfl

/-- Visitors that leave matching sites alike do so together. -/
theorem couples_leaveAll {s₁ s₂ : Site}
    (h : List.Forall₂ (fun v₁ v₂ => Couples C (v₁.leave s₁) (v₂.leave s₂) fun _ _ => True) vs₁ vs₂) :
    Couples C (leaveAll vs₁ s₁) (leaveAll vs₂ s₂) fun _ _ => True := by
  induction h with
  | nil => exact Couples.pure trivial
  | cons hv _ ih => exact hv.bind fun _ _ _ => ih

/-- The same nodes are left to be entered or left. -/
def Alike (k₁ k₂ : Nat) (V : Node → Prop) (tasks₁ tasks₂ : List Task) : Prop :=
  List.Forall₂ (fun a b => ∃ n, V n ∧ Task.Matches k₁ k₂ n a b) tasks₁ tasks₂

variable {V : Node → Prop}

/-- Entering matching sites is the same to do. -/
theorem alike_enter {P : Node → Prop} (hP : ∀ n, P n → V n) {sites₁ sites₂ : List Site}
    (h : List.Forall₂ (fun a b => ∃ n, P n ∧ a.Matches k₁ k₂ n b) sites₁ sites₂) :
    Alike k₁ k₂ V (sites₁.map .enter) (sites₂.map .enter) := by
  rw [Alike, List.forall₂_map_left_iff, List.forall₂_map_right_iff]
  refine h.imp ?_
  rintro a b ⟨n, hn, hab⟩
  exact ⟨n, hP n hn, .enter hab⟩

/-- After a node is entered in both files, the same nodes are left. -/
theorem Alike.pushed (hbelow : ∀ n, V n → ∀ c ∈ n.children, V c) {n : Node} (hn : V n) {s₁ s₂ : Site}
    (hs : s₁.Matches k₁ k₂ n s₂) {rest₁ rest₂ : List Task} (hrest : Alike k₁ k₂ V rest₁ rest₂)
    (skip : Bool) : Alike k₁ k₂ V (pushed skip s₁ rest₁) (pushed skip s₂ rest₂) := by
  have hlater : Alike k₁ k₂ V (.leave s₁ :: rest₁) (.leave s₂ :: rest₂) :=
    List.Forall₂.cons ⟨n, hn, .leave hs⟩ hrest
  cases skip with
  | true => exact hlater
  | false => exact List.rel_append (alike_enter (hbelow n hn) hs.below) hlater

/-- What is left to do weighs less when a site has been left. -/
theorem weight_lt_leave (s : Site) (rest : List Task) : weight rest < weight (.leave s :: rest) := by
  simp only [weight, Task.weight]
  omega

/-- A relation that is kept whenever a node is entered or left in both files is kept by the walks. -/
theorem couples_run (hbelow : ∀ n, V n → ∀ c ∈ n.children, V c)
    (henter : ∀ n s₁ s₂, V n → Site.Matches k₁ k₂ n s₁ s₂ →
      Couples C (enterAll vs₁ s₁) (enterAll vs₂ s₂) (· = ·))
    (hleave : ∀ n s₁ s₂, V n → Site.Matches k₁ k₂ n s₁ s₂ →
      Couples C (leaveAll vs₁ s₁) (leaveAll vs₂ s₂) fun _ _ => True)
    (entered₁ entered₂ : Nat) {tasks₁ tasks₂ : List Task} (h : Alike k₁ k₂ V tasks₁ tasks₂) :
    Couples C (run vs₁ entered₁ tasks₁) (run vs₂ entered₂ tasks₂) fun _ _ => True := by
  induction hw : weight tasks₁ using Nat.strongRecOn
    generalizing entered₁ entered₂ tasks₁ tasks₂ with
  | ind w ih =>
    cases h with
    | nil =>
      rw [run, run]
      exact Couples.pure trivial
    | @cons task₁ task₂ rest₁ rest₂ htask hrest =>
      obtain ⟨n, hn, htask⟩ := htask
      cases htask with
      | @leave s₁ s₂ hs =>
        rw [run, run]
        have hless : weight rest₁ < w := hw ▸ weight_lt_leave s₁ rest₁
        exact (hleave n s₁ s₂ hn hs).bind fun _ _ _ => ih _ hless entered₁ entered₂ hrest rfl
      | @enter s₁ s₂ hs =>
        rw [run, run]
        refine (henter n s₁ s₂ hn hs).bind ?_
        rintro skip - rfl
        have hless : weight (pushed skip s₁ rest₁) < w := hw ▸ weight_entered_lt s₁ rest₁ skip
        exact ih _ hless _ _ (Alike.pushed hbelow hn hs hrest skip) rfl

end Walk

end PhpPrefixer
