import PhpPrefixer.Proofs.Accounting
import PhpPrefixer.Proofs.HandFiles
import PhpPrefixer.Proofs.Regions
import PhpPrefixer.Proofs.Remainder

/-!
# Nothing but names is changed

`FileSetting.Touches` lists the places an edit may be made at: two places where a namespace is put in,
names, import statements of which only a part moves, and literals that are known to hold a name or code.
Which class a constructor is of depends on the scope in which the walk comes to the call, so the states a
walk goes through are told by `Walk.Reaches`; every edit of such a state is made at such a place. The
main result is `Prefixer.walk_changes_names_only`.
-/

namespace PhpPrefixer

open Prefixing PrefixingM FileSetting

namespace Walk

variable {visitors : List (Visitor PrefixingM)} {root : Node} {tasks : List Task} {st : FileState}

/-- All sites that a walk comes to are sites of the tree. -/
theorem Reaches.isOf (h : Reaches visitors root tasks st) : ∀ task ∈ tasks, task.site.IsOf root := by
  induction h with
  | start => exact List.forall_mem_singleton.mpr .top
  | @enter s rest _ _ skip _ _ ih =>
    obtain ⟨hs, hrest⟩ := List.forall_mem_cons.mp ih
    have hlater : ∀ task ∈ Task.leave s :: rest, task.site.IsOf root :=
      List.forall_mem_cons.mpr ⟨hs, hrest⟩
    unfold pushed
    split
    · exact hlater
    · refine List.forall_mem_append.mpr ⟨fun task htask => ?_, hlater⟩
      obtain ⟨t, ht, rfl⟩ := List.mem_map.mp htask
      exact hs.inside ht
  | leave _ _ ih => exact (List.forall_mem_cons.mp ih).2

/-- A walk that ends well comes to a state in which nothing is left to do. -/
theorem exists_reaches_of_through {entered : Nat} {s : FileState}
    (h : ((through visitors root).run .start).outcome = .ok (entered, s)) :
    ∃ st, Reaches visitors root [] st ∧ ((afterAll visitors).run st).outcome = .ok ((), s) := by
  have hrun : Spec .any (Reaches visitors root [.enter (.ofRoot root)])
      (run visitors 0 [.enter (.ofRoot root)]) fun _ => Reaches visitors root [] := by
    refine spec_run ?_ ?_ 0 _
    · exact fun s rest st hst => ⟨fun _ _ => trivial, fun _ _ => trivial, fun _ hr => hst.enter hr⟩
    · exact fun s rest st hst => ⟨fun _ _ => trivial, fun _ _ => trivial, fun _ hr => hst.leave hr⟩
  obtain ⟨⟨_, st⟩, hbefore, hrest, -⟩ := Plan.exists_of_bind h
  obtain ⟨⟨count, st'⟩, hwalk, hend, -⟩ := Plan.exists_of_bind hrest
  obtain ⟨⟨_, last⟩, hafter, hlast, -⟩ := Plan.exists_of_bind hend
  cases hlast
  exact ⟨st', (hrun st (.start hbefore)).result _ hwalk, hafter⟩

end Walk

/-- A call that is come to in some scope takes a name at a position. -/
inductive FileSetting.TakesNameIn (w : FileSetting) (scope : Lexical) (call : Node)
    (position : Nat) : Prop where
  /-- It calls a function that does. -/
  | function {callee : Text} {kind : SymbolKind} (htype : call.type = "function_call_expression")
    (hcallee : calleeOf w call = some callee)
    (htaken : (position, kind) ∈ namesTaken nameTakingFunctions callee)
  /-- It makes an object of a class whose constructor does. -/
  | creation {classNode : Node} {text : Text} {kind : SymbolKind}
    (htype : call.type = "object_creation_expression")
    (hclass : call.namedChildren.head? = some classNode) (hname : classNode.isName = true)
    (htext : w.source.text? classNode = some text)
    (htaken : (position, kind) ∈
      namesTaken nameTakingClasses (Text.lower (scope.resolve .classLike text).name))

/-- An edit replaces a literal that a call, come to in some scope, passes where it takes a name. -/
def FileSetting.RenamesArgument (w : FileSetting) (scope : Lexical) (call : Node) (e : Edit) : Prop :=
  ∃ position value, w.TakesNameIn scope call position ∧ call.argument? position = some value
    ∧ value.type ∈ Node.literalTypes ∧ e.span = value.span

/-- The places of a tree that an edit may be made at; `Sees` tells in which scope a node is come to. -/
inductive FileSetting.Touches (w : FileSetting) (tree : Node) (Sees : Node → Lexical → Prop) :
    Edit → Prop where
  /-- A namespace is declared in front of global code. -/
  | wrapped {first : Node} {rest : List Node} {offset : Nat} {text : Text}
    (hstatements : tree.namedChildren = first :: rest)
    (hglobal : ∀ n ∈ tree.namedChildren, n.type ≠ namespaceType)
    (hwrapping : wrapping w.relocation.root first rest = .inserting offset text) :
    Touches w tree Sees (.inserting offset text)
  /-- A namespace without a name is given that of the prefix, behind its keyword. -/
  | unnamed {n keyword : Node} {rest : List Node} (hn : n ∈ tree.preorder)
    (htype : n.type = namespaceType) (hname : n.child? "name" = none)
    (hkeyword : n.children = keyword :: rest) :
    Touches w tree Sees (.inserting keyword.span.stop (' ' :: w.relocation.root))
  /-- A name is replaced. -/
  | name {n : Node} {e : Edit} (hn : n ∈ tree.preorder) (hname : n.isName = true)
    (hspan : e.span = n.span) : Touches w tree Sees e
  /-- What a namespace is called is replaced. -/
  | space {n nameNode : Node} {e : Edit} (hn : n ∈ tree.preorder) (htype : n.type = namespaceType)
    (hname : n.child? "name" = some nameNode) (hspan : e.span = nameNode.span) : Touches w tree Sees e
  /-- An import statement is replaced, of whose group one member moves and another one is kept. -/
  | group {n base : Node} {text : Text} {is : List Import} {moved kept : Import} {e : Edit}
    (hn : n ∈ tree.preorder) (htype : n.type = Node.useType) (his : w.ReadsGroup n base text is)
    (hmoved : moved ∈ is ∧ w.relocation.movesImport moved = true)
    (hkept : kept ∈ is ∧ w.relocation.movesImport kept = false)
    (hspan : e.span = n.span) : Touches w tree Sees e
  /-- A literal is replaced that a call passes where it takes a name. -/
  | argument {call : Node} {scope : Lexical} {e : Edit} (hcall : call ∈ tree.preorder)
    (hseen : Sees call scope) (he : w.RenamesArgument scope call e) : Touches w tree Sees e
  /-- A literal is replaced whose contents are evaluated. -/
  | code {call value : Node} {e : Edit} (hcall : call ∈ tree.preorder)
    (htype : call.type = "function_call_expression")
    (hcallee : calleeOf w call = some "eval".toList) (hvalue : call.argument? 0 = some value)
    (hliteral : value.type ∈ Node.literalTypes) (hspan : e.span = value.span) : Touches w tree Sees e

/-- A walk comes to a node in some scope. -/
def FileSetting.Sees (w : FileSetting) (tree : Node) (treat : Text → Plan Text) (n : Node)
    (scope : Lexical) : Prop :=
  ∃ s rest st, Walk.Reaches (Prefixer.visitors w tree treat) tree (.enter s :: rest) st
    ∧ s.node = n ∧ st.scope = scope

/-- A literal has one of the types of literals. -/
theorem Node.type_mem_of_isLiteral {n : Node} (h : n.isLiteral = true) : n.type ∈ literalTypes := by
  simp only [isLiteral, Bool.and_eq_true, List.contains_iff_mem] at h
  exact h.1

section

variable {w : FileSetting} {tree : Node} {Sees : Node → Lexical → Prop} {s : Site} {c : Conduct}

namespace Prefixing

/-- The declaration that global code is given is inserted. -/
theorem isInsertion_wrapping (root : Text) (first : Node) (rest : List Node) :
    ∃ offset text, wrapping root first rest = .inserting offset text := by
  unfold wrapping
  dsimp only
  split
  · exact ⟨_, _, rfl⟩
  · split
    · exact ⟨_, _, rfl⟩
    · exact ⟨_, _, rfl⟩

/-- Wrapping global code touches the tree at its declaration only. -/
theorem touches_wrapGlobal (hc : c.IsOpen) :
    Queues c (wrapGlobal w tree) fun _ es => ∀ e ∈ es, w.Touches tree Sees e := by
  refine (queues_wrapGlobal_eq hc tree).mono fun _ es hes => ?_
  obtain rfl | ⟨first, rest, hstatements, hglobal, rfl⟩ := hes
  · exact List.forall_mem_nil _
  · obtain ⟨offset, text, hwrapping⟩ := isInsertion_wrapping w.relocation.root first rest
    rw [List.forall_mem_singleton, hwrapping]
    exact .wrapped hstatements hglobal hwrapping

/-- Entering a namespace touches the tree at its name only. -/
theorem touches_enterNamespaces (hc : c.IsOpen) (hs : s.node ∈ tree.preorder) :
    Queues c ((namespaces w tree).enter s) fun _ es => ∀ e ∈ es, w.Touches tree Sees e := by
  unfold namespaces
  dsimp only
  split
  · next htype =>
    refine ((queues_enterDeclaration_eq hc s.node).mono fun _ es hes => ?_).bind_pure
    obtain ⟨keyword, rest, hname, hkeyword, rfl⟩ | ⟨nameNode, text, hname, -, rfl⟩ := hes
    · exact List.forall_mem_singleton.mpr (.unnamed hs htype hname hkeyword)
    · unfold spaceEdits
      split
      · exact List.forall_mem_singleton.mpr (.space hs htype hname rfl)
      · exact List.forall_mem_nil _
  · exact Queues.pure (List.forall_mem_nil _)

/-- An import statement is edited where names are, or replaced if it is to be split. -/
theorem touches_enterImports (hc : c.IsOpen) (hs : s.node ∈ tree.preorder) :
    Queues c ((imports w).enter s) fun _ es => ∀ e ∈ es, w.Touches tree Sees e := by
  have hchild : ∀ {m : Node}, m ∈ s.node.children → m ∈ tree.preorder :=
    fun hm => Node.mem_preorder_trans (Node.mem_preorder_child hm) hs
  unfold imports
  dsimp only
  split
  · next htype =>
    split
    · next group hgroup =>
      refine ((queues_enterGroup_eq hc s.node group _).mono fun _ es hes => ?_).bind_pure
      obtain ⟨rfl, -⟩ | ⟨base, text, is, hbase, htext, his, rfl⟩ := hes
      · exact List.forall_mem_nil _
      · have hreads : w.ReadsGroup s.node base text is := ⟨hbase, htext, group, hgroup, his⟩
        unfold groupEdit?
        split
        · exact List.forall_mem_singleton.mpr
            (.name (hchild (mem_of_groupBase? hbase)) (isName_of_groupBase? hbase) rfl)
        split
        · next hall hany =>
          obtain ⟨moved, hmoved⟩ := List.any_eq_true.mp hany
          obtain ⟨kept, hkept⟩ : ∃ i ∈ is, w.relocation.movesImport i = false := by simpa using hall
          exact List.forall_mem_singleton.mpr (.group hs htype hreads hmoved hkept rfl)
        · exact List.forall_mem_nil _
    · refine ((queues_enterPlain_eq hc s.node _).mono fun _ es hes => ?_).bind_pure
      obtain ⟨rfl, -⟩ | ⟨is, his, rfl⟩ := hes
      · exact List.forall_mem_nil _
      · intro e he
        obtain ⟨i, hi, rfl⟩ := List.mem_map.mp he
        obtain ⟨clause, hclause, hfrom⟩ := Import.exists_isFrom his i (List.mem_filter.mp hi).1
        have hmem := hchild (Node.mem_children_of_namedChildren (List.mem_filter.mp hclause).1)
        exact .name (Node.mem_preorder_trans (Node.mem_preorder_child hfrom.node) hmem)
          (Import.isName_of_target? hfrom.target) rfl
  · exact Queues.pure (List.forall_mem_nil _)

/-- The names at a node are touched as names. -/
theorem touches_enterNames (hc : c.IsOpen) (hs : s.node ∈ tree.preorder) :
    Queues c ((names w).enter s) fun _ es => ∀ e ∈ es, w.Touches tree Sees e := by
  refine ((queues_enterNames hc s).mono fun _ es hes e he => ?_).bind_pure
  have hspan : e.span ∈ nameSpans s := hes.mem (List.mem_map_of_mem he)
  unfold nameSpans at hspan
  split at hspan
  · next hname =>
    split at hspan
    · exact .name hs hname (List.mem_singleton.mp hspan)
    · cases hspan
  · obtain ⟨n, hn, hspan⟩ := List.mem_map.mp hspan
    have hchild := (Node.nameTargets_sublist s.node).mem hn
    exact .name (Node.mem_preorder_trans (Node.mem_preorder_child hchild) hs)
      (Node.isName_of_mem_nameTargets hn) hspan.symm

/-- Embedded code is touched as a whole. -/
theorem touches_enterEmbedded (hc : c.IsOpen) {treat : Text → Plan Text}
    (htreat : ∀ code, (treat code).Keeps c fun _ => True) (hs : s.node ∈ tree.preorder) :
    Queues c ((embedded w treat).enter s) fun _ es => ∀ e ∈ es, w.Touches tree Sees e := by
  refine (queues_enterEmbedded_eq hc htreat s.node).mono fun _ es hes => ?_
  obtain rfl | ⟨htype, heval, value, text, hvalue, hliteral, rfl⟩ := hes
  · exact List.forall_mem_nil _
  · exact List.forall_mem_singleton.mpr
      (.code hs htype heval hvalue (Node.type_mem_of_isLiteral hliteral) rfl)

/-- The literals that are edited in a call are those at positions where names are taken. -/
theorem exists_taken_of_over {call : Node} {taken : List (Nat × SymbolKind)} {es : List Edit}
    (h : Edit.Over
      ((((taken.map (·.1)).filterMap call.argument?).filter (·.isLiteral)).map (·.span)) es) :
    ∀ e ∈ es, ∃ entry ∈ taken, ∃ value, call.argument? entry.1 = some value
      ∧ value.type ∈ Node.literalTypes ∧ e.span = value.span := by
  intro e he
  obtain ⟨value, hvalue, hspan⟩ := List.mem_map.mp (h.mem (List.mem_map_of_mem he))
  obtain ⟨hpassed, hliteral⟩ := List.mem_filter.mp hvalue
  obtain ⟨position, hposition, hargument⟩ := List.mem_filterMap.mp hpassed
  obtain ⟨entry, htaken, rfl⟩ := List.mem_map.mp hposition
  exact ⟨entry, htaken, value, hargument, Node.type_mem_of_isLiteral hliteral, hspan.symm⟩

/-- In a call that is come to in some scope, literals are edited at positions where it takes names. -/
theorem spec_enterLiterals (hc : c.IsOpen) (call : Node) (scope : Lexical) (queue : List Edit) :
    Spec c (fun st => st.edits = queue ∧ st.scope = scope) (enterLiterals w call) fun _ st =>
      ∃ es, st.edits = queue ++ es ∧ ∀ e ∈ es, w.RenamesArgument scope call e := by
  have hmove : ∀ {taken : List (Nat × SymbolKind)} (callee : Text),
      (∀ entry ∈ taken, w.TakesNameIn scope call entry.1) →
      Spec c (fun st => st.edits = queue ∧ st.scope = scope) (moveArguments w callee call taken)
        fun _ st => ∃ es, st.edits = queue ++ es ∧ ∀ e ∈ es, w.RenamesArgument scope call e := by
    intro taken callee htaken
    refine (queues_moveArguments hc callee call taken queue).mono (fun _ hst => hst.1) ?_
    rintro - st ⟨es, hes, hover⟩
    refine ⟨es, hes, fun e he => ?_⟩
    obtain ⟨entry, hentry, value, hvalue⟩ := exists_taken_of_over hover e he
    exact ⟨entry.1, value, htaken entry hentry, hvalue⟩
  have hnone : Spec c (fun st => st.edits = queue ∧ st.scope = scope) (pure () : PrefixingM Unit)
      fun _ st => ∃ es, st.edits = queue ++ es ∧ ∀ e ∈ es, w.RenamesArgument scope call e :=
    Spec.pure fun st hst => ⟨[], by rw [hst.1, List.append_nil], List.forall_mem_nil _⟩
  unfold enterLiterals
  split
  · next htype =>
    refine spec_callee?_bind hc.toIsLenient ?_
    cases hcallee : calleeOf w call with
    | none => exact hnone
    | some callee => exact hmove callee fun entry hentry => .function htype hcallee hentry
  split
  · next htype =>
    split
    · next classNode hclass =>
      split
      · next hname =>
        refine spec_textOf_bind hc.toIsLenient fun text htext => Spec.get_bind fun st hst => ?_
        exact hmove _ fun entry hentry => .creation htype hclass hname htext (hst.2 ▸ hentry)
      · exact hnone
    · exact hnone
  · exact hnone

variable {scope : Lexical}

/-- Recording a rename leaves the scope as it is. -/
theorem keepsScope_record (hc : c.IsOpen) (kind : SymbolKind) (name target : Text) :
    Preserves c (fun st => st.scope = scope) (w.record kind name target) := by
  have hstep : Preserves c (fun st => st.scope = scope)
      (liftM (Plan.record ⟨name, target, kind, some w.path⟩)) :=
    Spec.lift fun _ hst => Plan.Keeps.single (hc.record _) hst
  refine hstep.bind fun _ => Spec.modify fun st hst => ?_
  unfold FileState.withRename
  split
  · exact hst
  · exact hst

/-- Moving references leaves the scope as it is. -/
theorem keepsScope_moveReferences (hc : c.IsOpen) (kind : SymbolKind) (ns : List Node) :
    Preserves c (fun st => st.scope = scope) (moveReferences w kind ns) := by
  have hmove : ∀ n, Preserves c (fun st => st.scope = scope) (w.moveReference kind n) := by
    intro n
    refine spec_textOf_bind hc.toIsLenient fun text _ => Spec.get_bind fun st _ => ?_
    have hrecord : Preserves c (fun st => st.scope = scope)
        (w.recordDecided kind (w.relocation.reference st.scope kind text).rename) := by
      cases (w.relocation.reference st.scope kind text).rename with
      | none => exact Preserves.pure _
      | some rename => exact keepsScope_record hc _ _ _
    dsimp only
    split
    · next written _ =>
      have hqueue : Preserves c (fun st => st.scope = scope)
          (PrefixingM.queue (.replacing n written)) := Spec.queue fun _ hst => hst
      exact hqueue.bind fun _ => hrecord
    · exact hrecord
  induction ns with
  | nil => exact Preserves.pure _
  | cons n ns ih => exact (hmove n).bind fun _ => ih

/-- At a call, the visitor for names writes references anew. -/
theorem exists_enterNames_eq (w : FileSetting) (hcall : s.node.type ∈ Node.callTypes) :
    ∃ kind ns, enterNames w s = moveReferences w kind ns := by
  simp only [Node.callTypes, List.mem_cons, List.not_mem_nil, or_false] at hcall
  rcases hcall with htype | htype
  · exact ⟨.function, (s.node.child? "function").toList.filter (·.isName),
      by simp [enterNames, Node.isName, nameTypes, classDeclarationTypes, htype]⟩
  · exact ⟨.classLike, classReferences s.node,
      by simp [enterNames, Node.isName, nameTypes, classDeclarationTypes, htype]⟩

end Prefixing

end

/-- Work that makes all its edits at certain places keeps all edits there. -/
theorem PrefixingM.Queues.forall_edits {α : Type} {c : Conduct} {m : PrefixingM α} {E : Edit → Prop}
    {st st' : FileState} {a : α} (hm : Queues c m fun _ es => ∀ e ∈ es, E e)
    (hrun : (m.run st).outcome = .ok (a, st')) (hst : ∀ e ∈ st.edits, E e) :
    ∀ e ∈ st'.edits, E e := by
  obtain ⟨es, hes, hE⟩ := (hm st.edits st rfl).result _ hrun
  rw [hes]
  exact List.forall_mem_append.mpr ⟨hst, hE⟩

/-- Only calls take names. -/
theorem FileSetting.TakesNameIn.type_mem {w : FileSetting} {scope : Lexical} {call : Node}
    {position : Nat} (h : w.TakesNameIn scope call position) : call.type ∈ Node.callTypes := by
  cases h with
  | function htype => simp [Node.callTypes, htype]
  | creation htype => simp [Node.callTypes, htype]

namespace Walk

variable {w : FileSetting} {tree : Node} {treat : Text → Plan Text}

/-- Before a site of a call is searched for strings, the scope stays as the walk has come with it. -/
theorem scope_of_call {s : Site} {st afterSpaces afterImports afterNames : FileState}
    {d d' d'' : Descent} (hcall : s.node.type ∈ Node.callTypes)
    (hspaces : (((namespaces w tree).enter s).run st).outcome = .ok (d, afterSpaces))
    (himports : (((imports w).enter s).run afterSpaces).outcome = .ok (d', afterImports))
    (hnames : (((names w).enter s).run afterImports).outcome = .ok (d'', afterNames)) :
    afterNames.scope = st.scope := by
  have htypes : ∀ type ∈ Node.callTypes, type ≠ namespaceType ∧ type ≠ Node.useType := by decide
  obtain ⟨hspace, huse⟩ := htypes _ hcall
  have hspacesEq : (namespaces w tree).enter s = pure .onward := by simp [namespaces, hspace]
  have himportsEq : (imports w).enter s = pure .onward := if_neg huse
  rw [hspacesEq] at hspaces
  rw [himportsEq] at himports
  cases hspaces
  cases himports
  obtain ⟨kind, ns, hmove⟩ := exists_enterNames_eq w hcall
  have hkeeps : Preserves .any (fun t => t.scope = st.scope) ((names w).enter s) := by
    unfold names
    dsimp only
    rw [hmove]
    exact (keepsScope_moveReferences Conduct.isOpen_any kind ns).bind fun _ => Preserves.pure _
  exact (hkeeps st rfl).result _ hnames

/-- Entering a site keeps all edits at places they may be made at. -/
theorem touches_of_enter {s : Site} {rest : List Task} {st st' : FileState} {skip : Bool}
    (hreach : Reaches (Prefixer.visitors w tree treat) tree (.enter s :: rest) st)
    (hrun : ((enterAll (Prefixer.visitors w tree treat) s).run st).outcome = .ok (skip, st'))
    (hst : ∀ e ∈ st.edits, w.Touches tree (w.Sees tree treat) e) :
    ∀ e ∈ st'.edits, w.Touches tree (w.Sees tree treat) e := by
  have hs : s.node ∈ tree.preorder := (hreach.isOf _ List.mem_cons_self).mem_preorder
  have htreat : ∀ code, (treat code).Keeps .any fun _ => True :=
    fun _ => ⟨fun _ _ => trivial, fun _ _ => trivial, fun _ _ => trivial⟩
  obtain ⟨_, afterSpaces, _, hspaces, hrest⟩ := exists_of_enterAll_cons hrun
  obtain ⟨_, afterImports, _, himports, hrest⟩ := exists_of_enterAll_cons hrest
  obtain ⟨_, afterNames, _, hnames, hrest⟩ := exists_of_enterAll_cons hrest
  obtain ⟨_, afterLiterals, _, hliterals, hrest⟩ := exists_of_enterAll_cons hrest
  obtain ⟨_, afterEmbedded, _, hembedded, hend⟩ := exists_of_enterAll_cons hrest
  cases hend
  have hst := (touches_enterNamespaces Conduct.isOpen_any hs).forall_edits hspaces hst
  have hst := (touches_enterImports Conduct.isOpen_any hs).forall_edits himports hst
  have hst := (touches_enterNames Conduct.isOpen_any hs).forall_edits hnames hst
  refine (touches_enterEmbedded Conduct.isOpen_any htreat hs).forall_edits hembedded ?_
  obtain ⟨⟨_, between⟩, hmove, hlast, -⟩ := Plan.exists_of_bind hliterals
  cases hlast
  obtain ⟨es, hes, htaken⟩ :=
    (spec_enterLiterals Conduct.isOpen_any s.node _ _ afterNames ⟨rfl, rfl⟩).result _ hmove
  rw [hes]
  refine List.forall_mem_append.mpr ⟨hst, fun e he => ?_⟩
  obtain ⟨position, value, htake, hvalue⟩ := htaken e he
  have hscope := scope_of_call htake.type_mem hspaces himports hnames
  exact .argument hs ⟨s, rest, st, hreach, rfl, hscope.symm⟩ ⟨position, value, htake, hvalue⟩

/-- In every state that a walk comes to, all edits are at places they may be made at. -/
theorem Reaches.touches {tasks : List Task} {st : FileState}
    (h : Reaches (Prefixer.visitors w tree treat) tree tasks st) :
    ∀ e ∈ st.edits, w.Touches tree (w.Sees tree treat) e := by
  induction h with
  | start hbefore =>
    obtain ⟨⟨_, between⟩, hwrap, hothers, -⟩ := Plan.exists_of_bind hbefore
    cases hothers
    exact (touches_wrapGlobal Conduct.isOpen_any).forall_edits hwrap (List.forall_mem_nil _)
  | enter hreach hrun ih => exact touches_of_enter hreach hrun ih
  | @leave s _ _ _ _ hrun ih =>
    have hsilent : Queues .any (leaveAll (Prefixer.visitors w tree treat) s) fun _ es =>
        ∀ e ∈ es, w.Touches tree (w.Sees tree treat) e :=
      (isSilent_leaveAll tree treat s).queues fun _ => List.forall_mem_nil _
    exact hsilent.forall_edits hrun ih

end Walk

/-- No edit ends before it starts, if no node does. -/
theorem FileSetting.Touches.forward {w : FileSetting} {tree : Node} {Sees : Node → Lexical → Prop}
    {e : Edit} (h : w.Touches tree Sees e)
    (htree : ∀ n ∈ tree.preorder, n.span.start ≤ n.span.stop) : e.start ≤ e.stop := by
  have hnode : ∀ n ∈ tree.preorder, e.span = n.span → e.start ≤ e.stop := by
    intro n hn hspan
    have hstart : e.start = n.span.start := congrArg Span.start hspan
    have hstop : e.stop = n.span.stop := congrArg Span.stop hspan
    rw [hstart, hstop]
    exact htree n hn
  cases h with
  | wrapped => exact Nat.le_refl _
  | unnamed => exact Nat.le_refl _
  | name hn _ hspan => exact hnode _ hn hspan
  | space hn _ hname hspan =>
    have hchild := (Node.mem_children_of_child? hname).1
    exact hnode _ (Node.mem_preorder_trans (Node.mem_preorder_child hchild) hn) hspan
  | group hn _ _ _ _ hspan => exact hnode _ hn hspan
  | argument hcall _ he =>
    obtain ⟨_, value, -, hvalue, -, hspan⟩ := he
    exact hnode _ (Node.mem_preorder_trans (Node.mem_preorder_of_argument? hvalue) hcall) hspan
  | code hcall _ _ hvalue _ hspan =>
    exact hnode _ (Node.mem_preorder_trans (Node.mem_preorder_of_argument? hvalue) hcall) hspan

/-- A text that is rendered has the bytes that the edits lead to. -/
theorem Source.encode_of_render {s : Source} {queue : List Edit} {bytes : List UInt8} {t : Text}
    (hbytes : Edit.splice s queue = .ok bytes) (h : s.render queue = .ok t) :
    Text.encode t = bytes := by
  rw [render, hbytes] at h
  cases hdecode : Text.decode? bytes with
  | none =>
    simp only [hdecode] at h
    cases h
  | some found =>
    simp only [hdecode] at h
    cases h
    exact Text.encode_of_decode? hdecode

namespace Prefixer

variable {w : FileSetting} {tree : Node} {treat : Text → Plan Text} {s : FileState}

/-- The state that a walk gives is one that it has come to. -/
theorem reaches_of_walk (h : (walk w tree treat).outcome = .ok s) :
    Walk.Reaches (visitors w tree treat) tree [] s := by
  obtain ⟨⟨entered, last⟩, hthrough, hrest, -⟩ := Plan.exists_of_bind h
  obtain ⟨_, -, hend, -⟩ := Plan.exists_of_bind hrest
  cases hend
  obtain ⟨st, hreach, hafter⟩ := Walk.exists_reaches_of_through hthrough
  cases hafter
  exact hreach

/-- Whatever the tree, the prefix, the rules and the policy are and however embedded code is treated,
each edit of a walk puts a namespace in or replaces just one of the places that `FileSetting.Touches`
lists. If the edits are apart, they can be applied. The output has the text of each edit at a place of
its own, and without these it is, byte for byte, the source without what the edits replace. What is apart
from all edits, a comment or a string for example, is in the output as it was. -/
theorem walk_changes_names_only (h : (walk w tree treat).outcome = .ok s) :
    (∀ e ∈ s.edits, w.Touches tree (w.Sees tree treat) e)
      ∧ ((∀ n ∈ tree.preorder, n.span.start ≤ n.span.stop) → s.edits.Pairwise Edit.Apart →
        ∃ out : Source, Edit.splice w.source s.edits = .ok out.bytes
          ∧ (∀ t, w.source.render s.edits = .ok t → Text.encode t = out.bytes)
          ∧ (∃ landings, List.Forall₂ (Edit.LandsAt out) (Edit.inOrder s.edits) landings
            ∧ landings.Pairwise (fun p q => p.stop ≤ q.start)
            ∧ Span.outside landings 0 out.bytes
              = Span.outside (s.edits.map Edit.span) 0 w.source.bytes)
          ∧ ∀ n ∈ tree.preorder, (∀ e ∈ s.edits, n.span.Apart e.span) →
            ∃ offset, offset + Edit.replaced (Edit.upTo s.edits n.span.start)
                = n.span.start + Edit.written (Edit.upTo s.edits n.span.start)
              ∧ out.slice offset (offset + (w.source.bytesOf n).length) = w.source.bytesOf n) := by
  have htouches := (reaches_of_walk h).touches
  refine ⟨htouches, fun htree hapart => ?_⟩
  have hforward : ∀ e ∈ s.edits, e.start ≤ e.stop := fun e he => (htouches e he).forward htree
  obtain ⟨bytes, hbytes⟩ := (Edit.exists_splice_iff w.source hforward).mpr hapart
  refine ⟨⟨bytes⟩, hbytes, fun t ht => Source.encode_of_render hbytes ht,
    Edit.exists_landings hforward hbytes, fun n hn hapartNode => ?_⟩
  exact Edit.exists_slice_of_apart hforward hbytes (htree n hn) hapartNode

end Prefixer

/-- A group of imports, a comment that mentions one of them, and the name of a class in a string. -/
def HandFile.commented : HandFile where
  code := "<?php use A\\\x7bB,C\x7d; # A\\B\nnew ReflectionClass('X\\Y');"
  root := .program 52
    [.part "namespace_use_declaration" 6 18 (Node.groupUse 6 ++ [.token ";" 17 18]),
      .part "comment" 19 24 [],
      .part "expression_statement" 25 52
        [.part "object_creation_expression" 25 51
          [.token "new" 25 28, .part "name" 29 44 [],
            .part "arguments" 44 51
              [.token "(" 44 45, .part "argument" 45 50 [.threeQuoted 45], .token ")" 50 51]],
          .token ";" 51 52]]

/-- A declaration is put in front of global code, a group of imports is split, and a string is changed
that the constructor of `ReflectionClass` takes; the comment is as it was, 31 bytes further on. -/
theorem Prefixer.walk_changes_names_only_commented :
    let f := HandFile.commented
    ∃ s, f.walk.outcome = .ok s
      ∧ s.edits = [⟨6, 6, "namespace Humbug;\n\n".toList⟩,
        ⟨6, 18, "use Humbug\\A\\B;\nuse A\\C;".toList⟩, ⟨45, 50, "'Humbug\\X\\Y'".toList⟩]
      ∧ s.edits.Pairwise Edit.Apart
      ∧ (∀ e ∈ s.edits, f.setting.Touches f.root (f.setting.Sees f.root pure) e)
      ∧ ∃ out : Source, Edit.splice f.setting.source s.edits = .ok out.bytes
        ∧ (∃ landings, List.Forall₂ (Edit.LandsAt out) (Edit.inOrder s.edits) landings
          ∧ landings.Pairwise (fun p q => p.stop ≤ q.start)
          ∧ Span.outside landings 0 out.bytes
            = Span.outside (s.edits.map Edit.span) 0 f.setting.source.bytes)
        ∧ out.slice 50 55 = Text.encode "# A\\B".toList := by
  intro f
  let edits : List Edit := [⟨6, 6, "namespace Humbug;\n\n".toList⟩,
    ⟨6, 18, "use Humbug\\A\\B;\nuse A\\C;".toList⟩, ⟨45, 50, "'Humbug\\X\\Y'".toList⟩]
  have hdecided : (f.walk.outcome.toOption.map fun s => s.edits) = some edits := by
    rw [HandFile.walk, walk, Walk.through_eq]
    decide +kernel
  obtain ⟨s, hout, hedits⟩ := exists_eq_ok_of_toOption hdecided
  have hapart : s.edits.Pairwise Edit.Apart := by
    rw [hedits]
    decide
  have htree : ∀ n ∈ f.root.preorder, n.span.start ≤ n.span.stop := by decide +kernel
  obtain ⟨htouches, happlied⟩ := walk_changes_names_only hout
  obtain ⟨out, hsplice, -, hlandings, hkept⟩ := happlied htree hapart
  have hcomment : Node.part "comment" 19 24 [] ∈ f.root.preorder :=
    Node.mem_preorder_child (List.mem_cons_of_mem _ (List.mem_cons_of_mem _ List.mem_cons_self))
  obtain ⟨offset, hoffset, hslice⟩ := hkept _ hcomment (by rw [hedits]; decide)
  have hshift : Edit.replaced (Edit.upTo edits 19) = 12 ∧ Edit.written (Edit.upTo edits 19) = 43 := by
    decide +kernel
  have hbytes : f.setting.source.bytesOf (.part "comment" 19 24 []) = Text.encode "# A\\B".toList := by
    decide +kernel
  have hlength : (Text.encode "# A\\B".toList).length = 5 := by decide +kernel
  have hfifty : offset = 50 := by
    rw [hedits] at hoffset
    change offset + Edit.replaced (Edit.upTo edits 19) = 19 + Edit.written (Edit.upTo edits 19)
      at hoffset
    omega
  rw [hbytes, hlength, hfifty] at hslice
  exact ⟨s, hout, hedits, hapart, htouches, out, hsplice, hlandings, hslice⟩

end PhpPrefixer
