import PhpPrefixer.Proofs.HandFiles
import PhpPrefixer.Proofs.ImportReading
import PhpPrefixer.Proofs.Renames
import PhpPrefixer.Proofs.Stages

/-!
# What a walk records

Each of the five visitors records justified renames only, and keeps the imports tidy. So does the
walk through a file, and so does the whole treatment of a file with all the code embedded in it:
`Prefixer.keeps_treatWithin`. Of the parser it is needed that the names in its trees are well formed.
-/

namespace PhpPrefixer

open PrefixingM FileSetting

variable {c : Conduct} {w : FileSetting} {named : Prop}

/-- The names of the namespaces in a tree are well formed, if they can be read at all. -/
def FileSetting.ReadsSpaces (w : FileSetting) (tree : Node) : Prop :=
  ∀ n ∈ tree.preorder, n.type = Prefixing.namespaceType → ∀ m, n.child? "name" = some m →
    ∀ t, w.source.text? m = some t → Name.WellFormed t

/-- Where the namespaces of a tree can be read, those below a child can be. -/
theorem FileSetting.ReadsSpaces.child {tree n : Node} (h : w.ReadsSpaces tree)
    (hn : n ∈ tree.children) : w.ReadsSpaces n :=
  fun m hm => h m (Node.mem_preorder_trans hm (Node.mem_preorder_child hn))

namespace Prefixing

/-- Entering a namespace leaves the scope tidy. -/
theorem preserves_enterNamespace (space : Text) (moved : Bool) :
    Preserves c FileState.IsTidy (enterNamespace space moved) :=
  Spec.modify fun _ _ => Lexical.isTidy_entered space moved

/-- Telling something leaves the scope tidy. -/
theorem preserves_note (hc : c.Allows w.relocation w.path named) {level : Level} {channel : Channel}
    {message : String} : Preserves c FileState.IsTidy (note level channel message) :=
  Spec.note (hc.note _) fun _ hs => hs

/-- Wrapping global code leaves the scope tidy. -/
theorem preserves_wrapGlobal (hc : c.Allows w.relocation w.path named) (root : Node) :
    Preserves c FileState.IsTidy (wrapGlobal w root) := by
  unfold wrapGlobal
  dsimp only
  split
  · exact Preserves.pure _
  · split
    · exact preserves_enterNamespace _ _
    · split
      · refine (preserves_enterNamespace _ _).bind fun _ => ?_
        exact (preserves_queue _).bind fun _ => preserves_note hc
      · refine (preserves_enterNamespace _ _).bind fun _ => ?_
        split
        · exact spec_reportUnsupported hc.isLenient
        · exact Preserves.pure _

/-- A declaration of a namespace records a justified rename, if any. -/
theorem preserves_enterDeclaration (hc : c.Allows w.relocation w.path named) {n : Node}
    (htype : n.type = namespaceType) (hspaces : named → w.ReadsSpaces n) :
    Preserves c FileState.IsTidy (enterDeclaration w n) := by
  unfold enterDeclaration
  split
  · split
    · exact Spec.fail hc.isLenient.missingKeyword
    · exact (preserves_queue _).bind fun _ => preserves_enterNamespace _ _
  · next nameNode hname =>
    refine spec_textOf_bind hc.isLenient fun text htext => ?_
    dsimp only
    split
    · exact preserves_enterNamespace _ _
    · next hunmoved =>
      split
      · exact (preserves_note hc).bind fun _ => preserves_enterNamespace _ _
      · next hmoves =>
        have hrename : w.relocation.moves .nameSpace (Name.bare text) = true := by
          simpa [Relocation.moves_iff, Classification.keeps] using And.intro hunmoved hmoves
        have htrimmed : SymbolKind.nameSpace ≠ .nameSpace ∨ named → Name.IsTrimmed (Name.bare text) := by
          rintro (hkind | hnamed)
          · exact absurd rfl hkind
          · have hself := Node.mem_preorder_self n
            exact (hspaces hnamed n hself htype nameNode hname text htext).isTrimmed_bare
        refine (preserves_queue _).bind fun _ => ?_
        refine Preserves.bind ?_ fun _ => preserves_enterNamespace _ _
        exact spec_record hc (Relocation.justifies_of_moves hrename htrimmed)

/-- Leaving a namespace leaves the scope tidy. -/
theorem preserves_namespaces_leave (root : Node) (s : Site) :
    Preserves c FileState.IsTidy ((namespaces w root).leave s) := by
  simp only [namespaces]
  split
  · exact preserves_enterNamespace _ _
  · exact Preserves.pure _

/-- Adopting an import records a justified rename, if any. -/
theorem preserves_adopt (hc : c.Allows w.relocation w.path named) {i : Import}
    (hi : Name.IsTrimmed i.name) : Preserves c FileState.IsTidy (adopt w i) := by
  have himport : Preserves c FileState.IsTidy (importName i.kind i.localName i.name) :=
    Spec.modify fun _ hs => Lexical.IsTidy.importing hs hi _ _
  unfold adopt
  dsimp only
  split
  · next hmoves =>
    exact (spec_record hc (Relocation.justifies_of_moves hmoves fun _ => hi)).bind fun _ => himport
  · exact himport

/-- Adopting imports records justified renames only. -/
theorem preserves_adoptAll (hc : c.Allows w.relocation w.path named) {is : List Import}
    (h : ∀ i ∈ is, Name.IsTrimmed i.name) : Preserves c FileState.IsTidy (adoptAll w is) := by
  induction is with
  | nil => exact Preserves.pure _
  | cons i is ih =>
    obtain ⟨hi, his⟩ := List.forall_mem_cons.mp h
    exact (preserves_adopt hc hi).bind fun _ => ih his

/-- Moving imports records justified renames only. -/
theorem preserves_moveAll (hc : c.Allows w.relocation w.path named) {is : List Import}
    (h : ∀ i ∈ is, Name.IsTrimmed i.name) : Preserves c FileState.IsTidy (moveAll w is) := by
  induction is with
  | nil => exact Preserves.pure _
  | cons i is ih =>
    obtain ⟨hi, his⟩ := List.forall_mem_cons.mp h
    have hrest : Preserves c FileState.IsTidy (do adopt w i; moveAll w is) :=
      (preserves_adopt hc hi).bind fun _ => ih his
    unfold moveAll
    dsimp only
    split
    · exact (preserves_queue _).bind fun _ => hrest
    · exact hrest

/-- A plain import statement records justified renames only. -/
theorem preserves_enterPlain (hc : c.Allows w.relocation w.path named) (n : Node) (kind : SymbolKind) :
    Preserves c FileState.IsTidy (enterPlain w n kind) := by
  refine (spec_readClauses hc.isLenient kind _).bind fun read => Spec.of_fact fun hread => ?_
  split
  · exact preserves_moveAll hc (Import.isTrimmed_of_isFrom (hread _ rfl))
  · exact spec_reportUnsupported hc.isLenient

/-- A group of imports records justified renames only. -/
theorem preserves_enterGroup (hc : c.Allows w.relocation w.path named) (n group : Node)
    (kind : SymbolKind) : Preserves c FileState.IsTidy (enterGroup w n group kind) := by
  unfold enterGroup
  split
  · exact spec_reportUnsupported hc.isLenient
  · refine spec_textOf_bind hc.isLenient fun text _ => ?_
    refine (spec_readGroup hc.isLenient kind _ _).bind fun read => Spec.of_fact fun hread => ?_
    cases read with
    | error clause => exact spec_reportUnsupported hc.isLenient
    | ok is =>
      have hadopt : Preserves c FileState.IsTidy (adoptAll w is) :=
        preserves_adoptAll hc (Import.isTrimmed_of_isFrom (hread is rfl))
      dsimp only
      split
      · refine (preserves_queue _).bind fun _ => ?_
        split
        · exact (preserves_note hc).bind fun _ => hadopt
        · exact hadopt
      · split
        · exact (preserves_note hc).bind fun _ => hadopt
        · exact hadopt

/-- Import statements record justified renames only. -/
theorem preserves_imports_enter (hc : c.Allows w.relocation w.path named) (s : Site) :
    Preserves c FileState.IsTidy ((imports w).enter s) := by
  simp only [imports]
  split
  · split
    · exact (preserves_enterGroup hc _ _ _).bind fun _ => Preserves.pure _
    · exact (preserves_enterPlain hc _ _).bind fun _ => Preserves.pure _
  · exact Preserves.pure _

/-- References record justified renames only. -/
theorem preserves_moveReferences (hc : c.Allows w.relocation w.path named) (kind : SymbolKind)
    {ns : List Node} (h : ∀ n ∈ ns, w.ReadsNames n ∧ n.isName = true) :
    Preserves c FileState.IsTidy (moveReferences w kind ns) := by
  induction ns with
  | nil => exact Preserves.pure _
  | cons n ns ih =>
    obtain ⟨hn, hns⟩ := List.forall_mem_cons.mp h
    exact (spec_moveReference hc kind hn.1 hn.2).bind fun _ => ih hns

/-- Declarations record justified renames only. -/
theorem preserves_recordAll (hc : c.Allows w.relocation w.path named) (kind : SymbolKind)
    (ns : List Node) : Preserves c FileState.IsTidy (recordAll w kind ns) := by
  induction ns with
  | nil => exact Preserves.pure _
  | cons n ns ih => exact (spec_recordDeclaration hc kind (some n)).bind fun _ => ih

/-- The names at a node record justified renames only. -/
theorem preserves_enterNames (hc : c.Allows w.relocation w.path named) {s : Site}
    (hs : w.ReadsNames s.node) : Preserves c FileState.IsTidy (enterNames w s) := by
  unfold enterNames
  dsimp only
  split
  · next hname =>
    split
    · exact spec_moveReference hc .constant hs hname
    · exact Preserves.pure _
  split
  · exact spec_recordDeclaration hc _ _
  split
  · exact spec_recordDeclaration hc _ _
  split
  · exact preserves_recordAll hc _ _
  split
  · apply preserves_moveReferences hc
    intro n hn
    obtain ⟨hchild, hname⟩ := mem_filter_child? hn
    exact ⟨hs.child (Node.mem_children_of_child? hchild).1, hname⟩
  · apply preserves_moveReferences hc
    intro n hn
    obtain ⟨hchild, hname⟩ := mem_classReferences hn
    exact ⟨hs.child hchild, hname⟩

/-- A literal that is passed for a name records justified renames only. -/
theorem preserves_moveArgument (hc : c.Allows w.relocation w.path named) (callee : Text)
    (kind : SymbolKind) (value : Node) :
    Preserves c FileState.IsTidy (moveArgument w callee kind value) := by
  refine spec_textOf_bind hc.isLenient fun text _ => ?_
  split
  · split
    · exact spec_reportDynamic hc.isLenient
    · exact Preserves.pure _
  · refine (spec_prefixMention hc _ _).bind fun spelled => ?_
    cases spelled with
    | none => exact Preserves.pure _
    | some t => exact preserves_queue _

/-- The literals of a call record justified renames only. -/
theorem preserves_moveArguments (hc : c.Allows w.relocation w.path named) (callee : Text) (call : Node)
    (taken : List (Nat × SymbolKind)) :
    Preserves c FileState.IsTidy (moveArguments w callee call taken) := by
  induction taken with
  | nil => exact Preserves.pure _
  | cons entry rest ih =>
    unfold moveArguments
    dsimp only
    split
    · exact (preserves_moveArgument hc _ _ _).bind fun _ => ih
    · exact ih

/-- The literals at a node record justified renames only. -/
theorem preserves_enterLiterals (hc : c.Allows w.relocation w.path named) (n : Node) :
    Preserves c FileState.IsTidy (enterLiterals w n) := by
  unfold enterLiterals
  split
  · refine spec_callee?_bind hc.isLenient ?_
    cases calleeOf w n with
    | none => exact Preserves.pure _
    | some name => exact preserves_moveArguments hc _ _ _
  split
  · split
    · split
      · refine spec_textOf_bind hc.isLenient fun text _ => ?_
        exact Spec.get_bind fun s _ => preserves_moveArguments hc _ _ _
      · exact Preserves.pure _
    · exact Preserves.pure _
  · exact Preserves.pure _

/-- Embedded code records justified renames only, if its treatment does. -/
theorem preserves_enterEmbedded (hc : c.Allows w.relocation w.path named) {treat : Text → Plan Text}
    (htreat : ∀ code, (treat code).Keeps c fun _ => True) (n : Node) :
    Preserves c FileState.IsTidy (enterEmbedded w treat n) := by
  unfold enterEmbedded
  split
  · exact Preserves.pure _
  · refine spec_callee?_bind hc.isLenient ?_
    split
    · exact Preserves.pure _
    · split
      · exact Preserves.pure _
      · refine spec_textOf_bind hc.isLenient fun text _ => ?_
        split
        · exact (spec_reportDynamic hc.isLenient).bind fun _ => Preserves.pure _
        · next literal _ =>
          have hinner : Preserves c FileState.IsTidy (liftM (treat (asFile literal.value))) :=
            Spec.lift fun s hs => (htreat _).mono fun _ _ => hs
          exact hinner.bind fun _ => (preserves_queue _).bind fun _ => Preserves.pure _

end Prefixing

namespace Prefixer

/-- The names in the trees of a parser are well formed, in every text without a syntax error. -/
def NamesWellFormed (p : Prefixer) : Prop :=
  ∀ code source tree, (p.parse code).check code = .ok (source, tree) →
    ∀ n ∈ tree.preorder, n.isName = true → ∀ t, source.text? n = some t → Name.WellFormed t

/-- The names of the namespaces are well formed, in every text without a syntax error. -/
def SpacesWellFormed (p : Prefixer) : Prop :=
  ∀ code source tree, (p.parse code).check code = .ok (source, tree) →
    ∀ n ∈ tree.preorder, n.type = Prefixing.namespaceType → ∀ m, n.child? "name" = some m →
      ∀ t, source.text? m = some t → Name.WellFormed t

/-- The names in the trees of a parser are well formed: of the nodes that spell names, and of those that
name a namespace. -/
structure ReadsWell (p : Prefixer) : Prop where
  /-- The names that nodes spell are well formed. -/
  names : p.NamesWellFormed
  /-- The names of namespaces are well formed. -/
  spaces : p.SpacesWellFormed

/-- A walk records justified renames only. -/
theorem preserves_through (hc : c.Allows w.relocation w.path named) {root : Node}
    (hroot : w.ReadsNames root) (hspaces : named → w.ReadsSpaces root) {treat : Text → Plan Text}
    (htreat : ∀ code, (treat code).Keeps c fun _ => True) :
    Preserves c FileState.IsTidy (Walk.through (visitors w root treat) root) := by
  refine Walk.spec_through
    (V := fun s => w.ReadsNames s.node ∧ (named → w.ReadsSpaces s.node)) ⟨hroot, hspaces⟩ ?_ ?_ ?_ ?_ ?_
  · intro s hs t ht
    have hchild := Site.mem_children_of_below ht
    exact ⟨hs.1.child hchild, fun hnamed => (hs.2 hnamed).child hchild⟩
  · simp only [visitors, List.forall_mem_cons]
    exact ⟨Prefixing.preserves_wrapGlobal hc root, Preserves.pure _, Preserves.pure _,
      Preserves.pure _, Preserves.pure _, List.forall_mem_nil _⟩
  · simp only [visitors, List.forall_mem_cons]
    refine ⟨?_, ?_, ?_, ?_, ?_, List.forall_mem_nil _⟩
    · intro s hs
      simp only [Prefixing.namespaces]
      split
      · next htype =>
        refine Preserves.bind ?_ fun _ => Preserves.pure _
        exact Prefixing.preserves_enterDeclaration hc htype hs.2
      · exact Preserves.pure _
    · intro s _
      exact Prefixing.preserves_imports_enter hc s
    · intro s hs
      exact (Prefixing.preserves_enterNames hc hs.1).bind fun _ => Preserves.pure _
    · intro s _
      exact (Prefixing.preserves_enterLiterals hc _).bind fun _ => Preserves.pure _
    · intro s _
      exact Prefixing.preserves_enterEmbedded hc htreat _
  · simp only [visitors, List.forall_mem_cons]
    exact ⟨fun s _ => Prefixing.preserves_namespaces_leave root s, fun _ _ => Preserves.pure _,
      fun _ _ => Preserves.pure _, fun _ _ => Preserves.pure _, fun _ _ => Preserves.pure _,
      List.forall_mem_nil _⟩
  · simp only [visitors, List.forall_mem_cons]
    exact ⟨Preserves.pure _, Preserves.pure _, Preserves.pure _, Preserves.pure _,
      Preserves.pure _, List.forall_mem_nil _⟩

variable {r : Relocation} {path : Text}

/-- Printing a file records nothing. -/
theorem keeps_printFile (hc : c.Allows r path named) (s : Source) (edits : List Edit) :
    (printFile s edits).Keeps c fun _ => True := by
  unfold printFile
  split
  · exact Plan.Keeps.pure trivial
  · exact Plan.Keeps.fail (hc.failure _ fun _ => Failure.noConfusion)
  · exact Plan.Keeps.fail (hc.failure _ fun _ => Failure.noConfusion)

/-- A walk with its entry records justified renames only. -/
theorem keeps_walk (hc : c.Allows w.relocation w.path named) {root : Node} (hroot : w.ReadsNames root)
    (hspaces : named → w.ReadsSpaces root) {treat : Text → Plan Text}
    (htreat : ∀ code, (treat code).Keeps c fun _ => True) :
    (walk w root treat).Keeps c fun _ => True := by
  have hstart : FileState.start.IsTidy := Lexical.isTidy_entered [] true
  refine (preserves_through hc hroot hspaces htreat _ hstart).bind fun result _ => ?_
  refine Plan.Keeps.bind (Plan.Keeps.single (hc.note _) trivial) fun _ (_ : True) => ?_
  exact Plan.Keeps.pure trivial

/-- The treatment of a file, with all the code embedded in it, records justified renames only, and
never fails by a conflict of its own. -/
theorem keeps_treatWithin {p : Prefixer} (hnames : p.NamesWellFormed)
    (hspaces : named → p.SpacesWellFormed) {whitelist : Whitelist} {root : Text}
    (hroot : Prefix.validate (some root) = .ok root)
    (hc : c.Allows ⟨root, ⟨p.natives, whitelist⟩⟩ path named) (levels : Nat) (contents : Text) :
    (p.treatWithin whitelist path levels (some root) contents).Keeps c fun _ => True := by
  refine keeps_treatWithin_of (G := (· = some root)) hc.isLenient ?_ ?_ ?_ levels rfl contents
  · rintro _ e rfl he
    exact hc.failure _ fun _ => Failure.noConfusion
  · rintro _ checked rfl hchecked
    rw [hroot] at hchecked
    cases hchecked
    rfl
  · intro checked heq treat htreat code
    cases heq
    refine keeps_moveCode hc.isLenient ?_ fun source s (_ : True) => keeps_printFile hc source s.edits
    intro tree hcheck
    have hreads : FileSetting.ReadsNames
        ⟨path, ⟨root, ⟨p.natives, whitelist⟩⟩, p.policy, p.warnDynamic, tree.1⟩ tree.2 :=
      hnames code tree.1 tree.2 hcheck
    exact keeps_walk hc hreads (fun hnamed => hspaces hnamed code tree.1 tree.2 hcheck) htreat

end Prefixer

/-- Files by hand are read well if their names are well-formed and no namespace is declared in them. -/
theorem HandFile.readsWell_prefixer {f : HandFile} {natives : NativeSymbols}
    (hnames : ∀ n ∈ f.root.preorder, n.isName = true →
      ∀ t ∈ f.setting.source.text? n, Name.WellFormed t)
    (hspaces : ∀ n ∈ f.root.preorder, n.type ≠ Prefixing.namespaceType) :
    Prefixer.ReadsWell { f.prefixer with natives := natives } where
  names code source tree hcheck := by
    obtain ⟨hknown, rfl, rfl⟩ := Parsed.check_eq_ok_iff.mp hcheck
    have hcode : code = f.code.toList := by simpa [HandFile.prefixer] using hknown
    rw [hcode]
    exact hnames
  spaces code source tree hcheck n hn htype := by
    obtain ⟨-, -, rfl⟩ := Parsed.check_eq_ok_iff.mp hcheck
    exact absurd htype (hspaces n hn)

/-- The names in the two files that create an object are well-formed. -/
theorem namesWellFormed_creationPrefixer : creationPrefixer.NamesWellFormed := by
  intro code source tree hcheck
  have hnames : ∀ text ∈ [creation 'A', creation 'a'], ∀ n ∈ creationTree.preorder,
      n.isName = true → ∀ t ∈ (Source.ofText text).text? n, Name.WellFormed t := by
    decide +kernel
  obtain ⟨hknown, rfl, rfl⟩ := Parsed.check_eq_ok_iff.mp hcheck
  simp only [creationPrefixer, Bool.not_eq_false', Bool.or_eq_true, decide_eq_true_eq] at hknown
  rcases hknown with rfl | rfl
  · exact hnames _ List.mem_cons_self
  · exact hnames _ (List.mem_cons_of_mem _ List.mem_cons_self)

end PhpPrefixer
