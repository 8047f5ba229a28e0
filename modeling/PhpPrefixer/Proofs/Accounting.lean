import PhpPrefixer.Proofs.PlanRuns
import PhpPrefixer.Proofs.Queueing
import PhpPrefixer.Proofs.Renames

/-!
# Edits and the renames behind them

Every edit of a file is one of ten: `FileSetting.Respells` lists them, with the place in the tree each
is made at. Where an edit spells the name of a symbol under the prefix, the symbol is one of which a
parameter says that its move is accounted for. Here the move of a symbol is accounted for when a rename
is recorded among the steps of the same work. An edit is often queued before its rename is recorded, so
`PrefixingM.Balanced` speaks of work that ends well as a whole: all it queued is covered by all it
recorded. Every visitor is balanced, and so is the walk: `Prefixer.balanced_through`.
-/

namespace PhpPrefixer

open Prefixing

variable {α β : Type}

/-- The sites of a tree: its top, and what is below a site. -/
inductive Site.IsOf (tree : Node) : Site → Prop where
  /-- The top of the tree. -/
  | top : IsOf tree (.ofRoot tree)
  /-- A site below another one. -/
  | inside {s t : Site} (hs : IsOf tree s) (ht : t ∈ s.below) : IsOf tree t

/-- The node of a site of a tree is in the tree. -/
theorem Site.IsOf.mem_preorder {tree : Node} {s : Site} (h : s.IsOf tree) :
    s.node ∈ tree.preorder := by
  induction h with
  | top => exact Node.mem_preorder_self tree
  | inside _ ht ih =>
    exact Node.mem_preorder_trans (Node.mem_preorder_child (Site.mem_children_of_below ht)) ih

/-- A name in code refers to a symbol of some kind. -/
inductive Node.RefersTo (tree : Node) : SymbolKind → Node → Prop where
  /-- It stands where constants do. -/
  | constant {s : Site} (hs : s.IsOf tree) (hname : s.node.isName = true)
    (hsite : isConstantSite s = true) : RefersTo tree .constant s.node
  /-- It is called. -/
  | function {call n : Node} (hcall : call ∈ tree.preorder)
    (htype : call.type = "function_call_expression") (hn : call.child? "function" = some n)
    (hname : n.isName = true) : RefersTo tree .function n
  /-- It stands for a class below another node. -/
  | classLike {above n : Node} (habove : above ∈ tree.preorder) (hn : n ∈ classReferences above) :
    RefersTo tree .classLike n

/-- A call takes the name of a symbol of some kind at a position. -/
inductive FileSetting.TakesName (w : FileSetting) (call : Node) (position : Nat)
    (kind : SymbolKind) : Prop where
  /-- It calls a function that does. -/
  | function {callee : Text} (htype : call.type = "function_call_expression")
    (hcallee : calleeOf w call = some callee)
    (htaken : (position, kind) ∈ namesTaken nameTakingFunctions callee)
  /-- It makes an object of a class whose constructor does. -/
  | creation {classNode : Node} {text : Text} {scope : Lexical}
    (htype : call.type = "object_creation_expression")
    (hclass : call.namedChildren.head? = some classNode)
    (htext : w.source.text? classNode = some text)
    (htaken : (position, kind) ∈
      namesTaken nameTakingClasses (Text.lower (scope.resolve .classLike text).name))

/-- The edits that may be made to a file. Of each symbol that is spelled under the prefix, `Moved`
holds; `Embeds` relates the code embedded in the file to what it is replaced by. -/
inductive FileSetting.Respells (w : FileSetting) (tree : Node) (Moved : SymbolKind → Text → Prop)
    (Embeds : Text → Text → Prop) : Edit → Prop where
  /-- Global code is put into the namespace of the prefix. -/
  | wrapped {first : Node} {rest : List Node} (hstatements : tree.namedChildren = first :: rest)
    (hglobal : ∀ n ∈ tree.namedChildren, n.type ≠ namespaceType) :
    Respells w tree Moved Embeds (wrapping w.relocation.root first rest)
  /-- So is a namespace without a name. -/
  | unnamed {n keyword : Node} {rest : List Node} (hn : n ∈ tree.preorder)
    (htype : n.type = namespaceType) (hname : n.child? "name" = none)
    (hkeyword : n.children = keyword :: rest) :
    Respells w tree Moved Embeds (.inserting keyword.span.stop (' ' :: w.relocation.root))
  /-- The name of a namespace is moved. -/
  | space {n nameNode : Node} {text : Text} (hn : n ∈ tree.preorder)
    (htype : n.type = namespaceType) (hname : n.child? "name" = some nameNode)
    (htext : w.source.text? nameNode = some text) (hmoved : Moved .nameSpace (Name.bare text)) :
    Respells w tree Moved Embeds (.replacing nameNode (w.relocation.relocate (Name.bare text)))
  /-- The target of an import is moved. -/
  | clause {n clause : Node} {i : Import} (hn : n ∈ tree.preorder) (htype : n.type = Node.useType)
    (hclause : clause ∈ n.namedChildren) (hi : i.IsFrom w (Import.kindOf n) [] clause)
    (hmoved : Moved i.kind i.name) :
    Respells w tree Moved Embeds (.replacing i.node
      ((if i.leading then [Name.separator] else []) ++ w.relocation.relocate i.name))
  /-- The common part of a group of imports is moved, and with it all of them. -/
  | group {n base : Node} {text : Text} {is : List Import} (hn : n ∈ tree.preorder)
    (htype : n.type = Node.useType) (his : w.ReadsGroup n base text is)
    (hmoved : ∀ i ∈ is, Moved i.kind i.name) :
    Respells w tree Moved Embeds (.replacing base (w.relocation.relocate (Name.bare text)))
  /-- A group of imports is split, and some of them are moved. -/
  | split {n base : Node} {text : Text} {is : List Import} (hn : n ∈ tree.preorder)
    (htype : n.type = Node.useType) (his : w.ReadsGroup n base text is)
    (hmoved : ∀ i ∈ is, w.relocation.movesImport i = true → Moved i.kind i.name) :
    Respells w tree Moved Embeds (.replacing n (w.relocation.splitGroup is))
  /-- A reference is written out under the prefix. -/
  | reference {n : Node} {kind : SymbolKind} {scope : Lexical} {text : Text}
    (hn : tree.RefersTo kind n) (htext : w.source.text? n = some text)
    (hmoved : Moved kind (scope.resolve kind text).name) :
    Respells w tree Moved Embeds
      (.replacing n (Name.separator :: w.relocation.relocate (scope.resolve kind text).name))
  /-- A reference to a symbol that is kept, and that is not under the prefix, is written out as it
  is. -/
  | pinned {n : Node} {kind : SymbolKind} {scope : Lexical} {text : Text}
    (hn : tree.RefersTo kind n) (htext : w.source.text? n = some text)
    (hunmoved : w.relocation.hasMoved (scope.resolve kind text).name = false)
    (hkept : w.relocation.classifier.classify kind (scope.resolve kind text).name ≠ .rename) :
    Respells w tree Moved Embeds (.replacing n (Name.separator :: (scope.resolve kind text).name))
  /-- The name in a string is moved. -/
  | literal {call value : Node} {position : Nat} {kind : SymbolKind} {text : Text} {l : Literal}
    {m : Mention} (hcall : call ∈ tree.preorder) (htaken : w.TakesName call position kind)
    (hvalue : call.argument? position = some value) (htext : w.source.text? value = some text)
    (hliteral : value.literal? text = some l) (hmention : w.relocation.mention? kind l.value = some m)
    (hmoved : Moved m.kind m.name) :
    Respells w tree Moved Embeds (.replacing value (l.encode m.spelled))
  /-- Embedded code is replaced by what becomes of it. -/
  | code {call value : Node} {text file : Text} {l : Literal} (hcall : call ∈ tree.preorder)
    (hcallee : calleeOf w call = some "eval".toList) (hvalue : call.argument? 0 = some value)
    (htext : w.source.text? value = some text) (hliteral : value.literal? text = some l)
    (hembeds : Embeds (asFile l.value) file) :
    Respells w tree Moved Embeds (.replacing value (Literal.singleQuoted (asEmbedded file)))

/-- What is accounted for stays so when more is. -/
theorem FileSetting.Respells.mono {w : FileSetting} {tree : Node}
    {Moved Moved' : SymbolKind → Text → Prop} {Embeds Embeds' : Text → Text → Prop} {e : Edit}
    (h : w.Respells tree Moved Embeds e) (hmoves : ∀ kind name, Moved kind name → Moved' kind name)
    (hembeds : ∀ code file, Embeds code file → Embeds' code file) :
    w.Respells tree Moved' Embeds' e := by
  cases h with
  | wrapped hstatements hglobal => exact .wrapped hstatements hglobal
  | unnamed hn htype hname hkeyword => exact .unnamed hn htype hname hkeyword
  | space hn htype hname htext hmoved => exact .space hn htype hname htext (hmoves _ _ hmoved)
  | clause hn htype hclause hi hmoved => exact .clause hn htype hclause hi (hmoves _ _ hmoved)
  | group hn htype his hmoved =>
    exact .group hn htype his fun i hi => hmoves _ _ (hmoved i hi)
  | split hn htype his hmoved =>
    exact .split hn htype his fun i hi hi' => hmoves _ _ (hmoved i hi hi')
  | reference hn htext hmoved => exact .reference hn htext (hmoves _ _ hmoved)
  | pinned hn htext hunmoved hkept => exact .pinned hn htext hunmoved hkept
  | literal hcall htaken hvalue htext hliteral hmention hmoved =>
    exact .literal hcall htaken hvalue htext hliteral hmention (hmoves _ _ hmoved)
  | code hcall hcallee hvalue htext hliteral hcode =>
    exact .code hcall hcallee hvalue htext hliteral (hembeds _ _ hcode)

/-- When work ends well, its result, its steps and the edits it adds have a property together. -/
def PrefixingM.Yields (m : PrefixingM α) (Q : α → List Step → List Edit → Prop) : Prop :=
  ∀ s a s', (m.run s).outcome = .ok (a, s') →
    ∃ es, s'.edits = s.edits ++ es ∧ Q a (m.run s).steps es

namespace PrefixingM.Yields

variable {m : PrefixingM α} {Q : α → List Step → List Edit → Prop}

/-- What is known of the edits alone is known whatever the steps are. -/
theorem of_queues {R : α → List Edit → Prop} (hm : Queues .any m R)
    (h : ∀ a es, R a es → ∀ steps, Q a steps es) : Yields m Q := by
  intro s a s' hrun
  obtain ⟨es, hes, hR⟩ := (hm s.edits s rfl).result _ hrun
  exact ⟨es, hes, h a es hR _⟩

/-- Work that adds no edits. -/
theorem of_silent (hm : IsSilent .any m) (h : ∀ a steps, Q a steps []) : Yields m Q := by
  refine of_queues (hm.queues (Q := fun _ es => es = []) fun _ => rfl) ?_
  rintro a _ rfl steps
  exact h a steps

/-- Giving a result takes no steps and makes no edits. -/
protected theorem pure {a : α} (h : Q a [] []) : Yields (pure a) Q := by
  intro s b s' hrun
  cases hrun
  exact ⟨[], (List.append_nil _).symm, h⟩

/-- Queueing an edit makes this edit. -/
protected theorem queue {e : Edit} {Q : Unit → List Step → List Edit → Prop} (h : Q () [] [e]) :
    Yields (PrefixingM.queue e) Q := by
  intro s b s' hrun
  cases hrun
  exact ⟨[e], rfl, h⟩

/-- The steps and edits of two pieces of work follow each other. -/
protected theorem bind {next : α → PrefixingM β} {R : β → List Step → List Edit → Prop}
    (hm : Yields m Q)
    (hnext : ∀ a steps es, Q a steps es →
      Yields (next a) fun b more fs => R b (steps ++ more) (es ++ fs)) :
    Yields (m >>= next) R := by
  intro s b s' hrun
  rw [StateT.run_bind] at hrun ⊢
  obtain ⟨⟨a, t⟩, hfirst, hlast, hsteps⟩ := Plan.exists_of_bind hrun
  obtain ⟨es, hes, hQ⟩ := hm s a t hfirst
  obtain ⟨fs, hfs, hR⟩ := hnext a _ es hQ t b s' hlast
  exact ⟨es ++ fs, by rw [hfs, hes, List.append_assoc], hsteps ▸ hR⟩

/-- What is known of the steps and edits may be weakened. -/
protected theorem mono {R : α → List Step → List Edit → Prop} (hm : Yields m Q)
    (h : ∀ a steps es, Q a steps es → R a steps es) : Yields m R := by
  intro s a s' hrun
  obtain ⟨es, hes, hQ⟩ := hm s a s' hrun
  exact ⟨es, hes, h a _ es hQ⟩

/-- A plan takes its own steps and makes no edits. -/
protected theorem lift (p : Plan α) :
    Yields (liftM p : PrefixingM α) fun a steps es =>
      p.outcome = .ok a ∧ steps = p.steps ∧ es = [] := by
  intro s a s' hrun
  have heq : (liftM p : PrefixingM α).run s = p >>= fun b => pure (b, s) := rfl
  rw [heq] at hrun ⊢
  obtain ⟨b, hout, hlast, hsteps⟩ := Plan.exists_of_bind hrun
  cases hlast
  exact ⟨[], (List.append_nil _).symm, hout, hsteps.trans (List.append_nil _), rfl⟩

/-- Work that depends on the state is known if it is known for every state. -/
theorem get_bind {next : FileState → PrefixingM β} {R : β → List Step → List Edit → Prop}
    (h : ∀ s, Yields (next s) R) : Yields (get >>= next) R :=
  fun s => h s s

end PrefixingM.Yields

/-- What the steps of some work cover of its edits; further steps cover no less. -/
structure Account where
  /-- Whether the steps cover the edit. -/
  covers : List Step → Edit → Prop
  /-- With more steps no less is covered. -/
  mono : ∀ {steps more : List Step} {e : Edit}, steps ⊆ more → covers steps e → covers more e

/-- Whenever work ends well, its steps cover all its edits. -/
def PrefixingM.Balanced (A : Account) (m : PrefixingM α) : Prop :=
  Yields m fun _ steps es => ∀ e ∈ es, A.covers steps e

namespace PrefixingM.Balanced

variable {A : Account} {m : PrefixingM α}

/-- Work that neither records nor edits is balanced. -/
theorem of_silent (hm : IsSilent .any m) : Balanced A m :=
  Yields.of_silent hm fun _ _ => List.forall_mem_nil _

/-- Giving a result is balanced. -/
protected theorem pure (a : α) : Balanced A (pure a) := of_silent (IsSilent.pure a)

/-- Balanced work goes on with balanced work. -/
protected theorem bind {next : α → PrefixingM β} (hm : Balanced A m)
    (hnext : ∀ a, Balanced A (next a)) : Balanced A (m >>= next) := by
  refine Yields.bind hm fun a steps es hes => (hnext a).mono fun b more fs hfs => ?_
  refine List.forall_mem_append.mpr ⟨fun e he => ?_, fun e he => ?_⟩
  · exact A.mono (List.subset_append_left _ _) (hes e he)
  · exact A.mono (List.subset_append_right _ _) (hfs e he)

/-- Work that adds no edits hands on what is known of its result. -/
theorem bind_fact {next : α → PrefixingM β} {F : α → Prop}
    (hm : Queues .any m fun a es => es = [] ∧ F a) (hnext : ∀ a, F a → Balanced A (next a)) :
    Balanced A (m >>= next) := by
  have hyields : Yields m fun a _ es => es = [] ∧ F a := Yields.of_queues hm fun _ _ h _ => h
  refine hyields.bind fun a steps es hes => (hnext a hes.2).mono fun b more fs hfs => ?_
  rw [hes.1, List.nil_append]
  exact fun e he => A.mono (List.subset_append_right _ _) (hfs e he)

/-- Work on a text that is read is balanced if it is for every text that can be read. -/
theorem textOf_bind {w : FileSetting} {n : Node} {next : Text → PrefixingM β}
    (h : ∀ t, w.source.text? n = some t → Balanced A (next t)) :
    Balanced A (w.textOf n >>= next) := by
  unfold FileSetting.textOf
  cases htext : w.source.text? n with
  | some t =>
    rw [pure_bind]
    exact h t htext
  | none =>
    intro s a s' hrun
    cases hrun

/-- Work that depends on the state is balanced if it is for every state. -/
theorem get_bind {next : FileState → PrefixingM β} (h : ∀ s, Balanced A (next s)) :
    Balanced A (get >>= next) := Yields.get_bind h

/-- An edit is queued, and what follows adds no edits but covers this one. -/
theorem queue_bind {e : Edit} {next : Unit → PrefixingM β}
    (h : Yields (next ()) fun _ steps es => es = [] ∧ A.covers steps e) :
    Balanced A (queue e >>= next) := by
  have hqueue : Yields (queue e) fun _ _ es => es = [e] := Yields.queue rfl
  refine hqueue.bind fun _ steps es hes => h.mono fun b more fs hfs => ?_
  rw [hes, hfs.1, List.append_nil, List.forall_mem_singleton]
  exact A.mono (List.subset_append_right _ _) hfs.2

end PrefixingM.Balanced

open PrefixingM

/-- Among some steps, a symbol is recorded as moved under the prefix in a file. -/
def Step.Moves (root path : Text) (steps : List Step) (kind : SymbolKind) (name : Text) : Prop :=
  .record ⟨name, Name.relocate root name, kind, some path⟩ ∈ steps

/-- The steps cover an edit when they record all symbols it moves, and what is required of the code
embedded in the file. -/
def FileSetting.account (w : FileSetting) (tree : Node)
    (Embeds : List Step → Text → Text → Prop)
    (hembeds : ∀ {steps more : List Step}, steps ⊆ more →
      ∀ code file, Embeds steps code file → Embeds more code file) : Account where
  covers steps := w.Respells tree (Step.Moves w.relocation.root w.path steps) (Embeds steps)
  mono hsub h := h.mono (fun _ _ hrecord => hsub hrecord) (hembeds hsub)

namespace FileSetting

variable {w : FileSetting}

/-- Recording a rename makes no edits, and the rename is among the steps. -/
theorem yields_record (kind : SymbolKind) (name target : Text) :
    Yields (w.record kind name target) fun _ steps es =>
      es = [] ∧ .record ⟨name, target, kind, some w.path⟩ ∈ steps := by
  refine (Yields.lift _).bind fun _ steps es hes => ?_
  have hmodify : IsSilent .any (modify fun s : FileState =>
      s.withRename ⟨name, target, kind, some w.path⟩) :=
    IsSilent.of_modify fun s => withRename_edits s _
  refine Yields.of_silent hmodify fun _ more => ?_
  rw [hes.2.1, hes.2.2]
  exact ⟨rfl, by simp [Plan.record]⟩

end FileSetting

open FileSetting

section

variable {w : FileSetting} {tree : Node} {Embeds : List Step → Text → Text → Prop}
  {hembeds : ∀ {steps more : List Step}, steps ⊆ more →
    ∀ code file, Embeds steps code file → Embeds more code file}

namespace FileSetting

/-- A reference is balanced: the edit in its place comes with the rename. -/
theorem balanced_moveReference {kind : SymbolKind} {n : Node} (hn : tree.RefersTo kind n) :
    Balanced (w.account tree Embeds hembeds) (w.moveReference kind n) := by
  refine Balanced.textOf_bind fun text htext => Balanced.get_bind fun s => ?_
  have hrecord : IsSilent .any
      (w.recordDecided kind (w.relocation.reference s.scope kind text).rename) := by
    cases (w.relocation.reference s.scope kind text).rename with
    | none => exact IsSilent.pure _
    | some rename => exact isSilent_record Conduct.isOpen_any _ _ _
  dsimp only
  split
  · next written hwritten =>
    apply Balanced.queue_bind
    rcases Relocation.replacement_cases hwritten with ⟨rfl, hrename⟩ | ⟨rfl, hunmoved, hkept⟩
    · rw [hrename]
      refine (yields_record kind _ _).mono fun _ steps es hes => ⟨hes.1, ?_⟩
      exact .reference hn htext hes.2
    · exact Yields.of_silent hrecord fun _ _ => ⟨rfl, .pinned hn htext hunmoved hkept⟩
  · exact Balanced.of_silent hrecord

end FileSetting

namespace Prefixing

/-- Wrapping global code is balanced: the declaration that is inserted comes with no rename. -/
theorem balanced_wrapGlobal :
    Balanced (w.account tree Embeds hembeds) (wrapGlobal w tree) := by
  have hspace : ∀ space moved, Balanced (w.account tree Embeds hembeds)
      (enterNamespace space moved) := fun space moved =>
    Balanced.of_silent (isSilent_enterNamespace space moved)
  unfold wrapGlobal
  dsimp only
  split
  · exact Balanced.pure _
  · next hglobal =>
    split
    · exact hspace _ _
    · next first rest hstatements =>
      split
      · refine (hspace _ _).bind fun _ => Balanced.queue_bind ?_
        refine Yields.of_silent (isSilent_note Conduct.isOpen_any.toIsLenient) fun _ _ => ?_
        refine ⟨rfl, .wrapped hstatements fun n hn htype => hglobal ?_⟩
        exact List.any_eq_true.mpr ⟨n, hn, decide_eq_true htype⟩
      · refine (hspace _ _).bind fun _ => ?_
        split
        · exact Balanced.of_silent fun _ => spec_reportUnsupported Conduct.isOpen_any.toIsLenient
        · exact Balanced.pure _

/-- Entering a namespace is balanced. -/
theorem balanced_enterDeclaration {n : Node} (hn : n ∈ tree.preorder)
    (htype : n.type = namespaceType) :
    Balanced (w.account tree Embeds hembeds) (enterDeclaration w n) := by
  have hspace : ∀ space moved, IsSilent .any (enterNamespace space moved) :=
    isSilent_enterNamespace
  unfold enterDeclaration
  split
  · next hname =>
    split
    · intro s a s' hrun
      cases hrun
    · next keyword rest hkeyword =>
      apply Balanced.queue_bind
      exact Yields.of_silent (hspace _ _) fun _ _ => ⟨rfl, .unnamed hn htype hname hkeyword⟩
  · next nameNode hname =>
    refine Balanced.textOf_bind fun text htext => ?_
    dsimp only
    split
    · exact Balanced.of_silent (hspace _ _)
    split
    · exact Balanced.of_silent
        ((isSilent_note Conduct.isOpen_any.toIsLenient).bind fun _ => hspace _ _)
    · apply Balanced.queue_bind
      refine (yields_record .nameSpace _ _).bind fun _ steps es hes => ?_
      refine Yields.of_silent (hspace _ _) fun _ more => ?_
      refine ⟨by rw [hes.1]; rfl, .space hn htype hname htext ?_⟩
      exact List.mem_append_left _ hes.2

/-- An import that moves is recorded when it is made known. -/
theorem yields_adopt (i : Import) :
    Yields (adopt w i) fun _ steps es =>
      es = [] ∧ (w.relocation.movesImport i = true →
        Step.Moves w.relocation.root w.path steps i.kind i.name) := by
  have himport : IsSilent .any (importName i.kind i.localName i.name) :=
    IsSilent.of_modify fun _ => rfl
  unfold adopt
  dsimp only
  split
  · refine (yields_record i.kind i.name _).bind fun _ steps es hes => ?_
    refine Yields.of_silent himport fun _ more => ?_
    exact ⟨by rw [hes.1]; rfl, fun _ => List.mem_append_left _ hes.2⟩
  · next hstays =>
    exact Yields.of_silent himport fun _ _ => ⟨rfl, fun hmoves => absurd hmoves hstays⟩

/-- Of some imports, those that move are recorded when they are made known. -/
theorem yields_adoptAll (is : List Import) :
    Yields (adoptAll w is) fun _ steps es =>
      es = [] ∧ ∀ i ∈ is, w.relocation.movesImport i = true →
        Step.Moves w.relocation.root w.path steps i.kind i.name := by
  induction is with
  | nil => exact Yields.pure ⟨rfl, List.forall_mem_nil _⟩
  | cons i is ih =>
    refine (yields_adopt i).bind fun _ steps es hes => ih.mono fun _ more fs hfs => ?_
    refine ⟨by rw [hes.1, hfs.1]; rfl, List.forall_mem_cons.mpr ⟨fun hmoves => ?_, ?_⟩⟩
    · exact List.mem_append_left _ (hes.2 hmoves)
    · exact fun j hj hmoves => List.mem_append_right _ (hfs.2 j hj hmoves)

/-- Moving the imports of a plain statement is balanced: each edit comes with the rename of its import. -/
theorem balanced_moveAll {n : Node} (hn : n ∈ tree.preorder) (htype : n.type = Node.useType)
    {is : List Import}
    (his : ∀ i ∈ is, ∃ clause ∈ n.namedChildren, i.IsFrom w (Import.kindOf n) [] clause) :
    Balanced (w.account tree Embeds hembeds) (moveAll w is) := by
  induction is with
  | nil => exact Balanced.pure _
  | cons i is ih =>
    obtain ⟨⟨clause, hclause, hi⟩, hrest⟩ := List.forall_mem_cons.mp his
    have hadopt : Balanced (w.account tree Embeds hembeds) (adopt w i) :=
      Balanced.of_silent (isSilent_adopt Conduct.isOpen_any i)
    unfold moveAll
    dsimp only
    split
    · next hmoves =>
      rw [← bind_assoc]
      refine Balanced.bind (Balanced.queue_bind ?_) fun _ => ih hrest
      refine (yields_adopt i).mono fun _ steps es hes => ⟨hes.1, ?_⟩
      exact .clause hn htype hclause hi (hes.2 hmoves)
    · exact hadopt.bind fun _ => ih hrest

/-- A plain import statement is balanced. -/
theorem balanced_enterPlain {n : Node} (hn : n ∈ tree.preorder) (htype : n.type = Node.useType) :
    Balanced (w.account tree Embeds hembeds) (enterPlain w n (Import.kindOf n)) := by
  refine Balanced.bind_fact
    (Queues.of_preserves fun _ => spec_readClauses Conduct.isOpen_any.toIsLenient _ _) ?_
  intro read hread
  split
  · next i is =>
    have hfrom : ∀ j ∈ i :: is, ∃ clause ∈ n.namedChildren,
        j.IsFrom w (Import.kindOf n) [] clause := by
      intro j hj
      obtain ⟨clause, hclause, hj⟩ := Import.exists_isFrom (hread _ rfl) j hj
      exact ⟨clause, (List.mem_filter.mp hclause).1, hj⟩
    exact balanced_moveAll hn htype hfrom
  · exact Balanced.of_silent fun _ => spec_reportUnsupported Conduct.isOpen_any.toIsLenient

/-- The change to a group of imports is covered when those that move are recorded. -/
theorem respells_groupEdit? {n base : Node} {text : Text} {is : List Import} {e : Edit}
    {Moved : SymbolKind → Text → Prop} {Code : Text → Text → Prop} (hn : n ∈ tree.preorder)
    (htype : n.type = Node.useType) (his : w.ReadsGroup n base text is)
    (hmoved : ∀ i ∈ is, w.relocation.movesImport i = true → Moved i.kind i.name)
    (h : groupEdit? w.relocation n base (Name.bare text) is = some e) :
    w.Respells tree Moved Code e := by
  unfold groupEdit? at h
  split at h
  · next hall =>
    cases h
    exact .group hn htype his fun i hi => hmoved i hi (List.all_eq_true.mp hall i hi)
  split at h
  · cases h
    exact .split hn htype his hmoved
  · cases h

/-- A group of imports is balanced, also where it is split into statements. -/
theorem balanced_enterGroup {n group : Node} (hn : n ∈ tree.preorder)
    (htype : n.type = Node.useType)
    (hgroup : n.namedChildren.find? (fun c => c.type = groupType) = some group) :
    Balanced (w.account tree Embeds hembeds) (enterGroup w n group (Import.kindOf n)) := by
  have hreport : ∀ line reason, Balanced (w.account tree Embeds hembeds)
      (w.reportUnsupported line reason) := fun _ _ =>
    Balanced.of_silent fun _ => spec_reportUnsupported Conduct.isOpen_any.toIsLenient
  unfold enterGroup
  split
  · exact hreport _ _
  · next base hbase =>
    refine Balanced.textOf_bind fun text htext => ?_
    dsimp only
    refine Balanced.bind_fact
      (Queues.of_preserves fun _ => spec_readGroup Conduct.isOpen_any.toIsLenient _ _ _) ?_
    intro read hread
    split
    · exact hreport _ _
    · next is =>
      have hadopt : Yields (do
          if is.any w.relocation.movesImport && !is.all w.relocation.movesImport then
            note .debug .namespaces
              (w.shownPath ++ ": split group use of " ++ String.ofList (Name.bare text) ++ " into "
                ++ toString is.length ++ " statements")
          adoptAll w is) fun _ steps es => es = []
            ∧ ∀ i ∈ is, w.relocation.movesImport i = true →
              Step.Moves w.relocation.root w.path steps i.kind i.name := by
        dsimp only
        split
        · have hnote : ∀ message, Yields (note .debug .namespaces message) fun _ _ es => es = [] :=
            fun _ => Yields.of_silent (isSilent_note Conduct.isOpen_any.toIsLenient) fun _ _ => rfl
          refine (hnote _).bind fun _ steps es hes => ?_
          rw [hes]
          refine (yields_adoptAll is).mono fun _ more fs hfs => ⟨hfs.1, fun i hi hmoves => ?_⟩
          exact List.mem_append_right _ (hfs.2 i hi hmoves)
        · exact yields_adoptAll is
      split
      · next e he =>
        refine Balanced.queue_bind (hadopt.mono fun _ steps es hes => ⟨hes.1, ?_⟩)
        exact respells_groupEdit? hn htype ⟨hbase, htext, group, hgroup, hread is rfl⟩ hes.2 he
      · refine hadopt.mono fun _ steps es hes => ?_
        rw [hes.1]
        exact List.forall_mem_nil _

/-- Several references are balanced. -/
theorem balanced_moveReferences {kind : SymbolKind} {ns : List Node}
    (h : ∀ n ∈ ns, tree.RefersTo kind n) :
    Balanced (w.account tree Embeds hembeds) (moveReferences w kind ns) := by
  induction ns with
  | nil => exact Balanced.pure _
  | cons n ns ih =>
    obtain ⟨hn, hns⟩ := List.forall_mem_cons.mp h
    exact (balanced_moveReference hn).bind fun _ => ih hns

/-- The names at a node are balanced. -/
theorem balanced_enterNames {s : Site} (hs : s.IsOf tree) :
    Balanced (w.account tree Embeds hembeds) (enterNames w s) := by
  have hdeclare : ∀ kind name, Balanced (w.account tree Embeds hembeds)
      (w.recordDeclaration kind name) := fun kind name =>
    Balanced.of_silent (isSilent_recordDeclaration Conduct.isOpen_any kind name)
  unfold enterNames
  dsimp only
  split
  · next hname =>
    split
    · next hsite => exact balanced_moveReference (.constant hs hname hsite)
    · exact Balanced.pure _
  split
  · exact hdeclare _ _
  split
  · exact hdeclare _ _
  split
  · exact Balanced.of_silent (isSilent_recordAll Conduct.isOpen_any _ _)
  split
  · next htype =>
    apply balanced_moveReferences
    intro n hn
    obtain ⟨hfield, hname⟩ := mem_filter_child? hn
    exact .function hs.mem_preorder htype hfield hname
  · exact balanced_moveReferences fun n hn => .classLike hs.mem_preorder hn

/-- What is given back for the name in a string: nothing, or a spelling whose symbol is recorded. -/
theorem yields_prefixMention (kind : SymbolKind) (value : Text) :
    Yields (w.prefixMention kind value) fun spelled steps es => es = []
      ∧ ∀ t, spelled = some t → ∃ m, w.relocation.mention? kind value = some m ∧ t = m.spelled
        ∧ Step.Moves w.relocation.root w.path steps m.kind m.name := by
  unfold prefixMention
  split
  · exact Yields.pure ⟨rfl, fun t ht => nomatch ht⟩
  · next m hmention =>
    have hjustified : w.relocation.Justifies w.path True ⟨m.name, m.renamed, m.kind, some w.path⟩ :=
      Relocation.justifies_of_mention? hmention
    have hrenamed : m.renamed = w.relocation.relocate m.name := hjustified.renamed
    refine (yields_record m.kind m.name m.renamed).bind fun _ steps es hes => Yields.pure ?_
    refine ⟨by rw [hes.1]; rfl, fun t ht => ⟨m, hmention, (Option.some_inj.mp ht).symm, ?_⟩⟩
    rw [hrenamed] at hes
    exact List.mem_append_left _ hes.2

/-- A literal that is passed for a name is balanced. -/
theorem balanced_moveArgument {call value : Node} {position : Nat} {kind : SymbolKind}
    (hcall : call ∈ tree.preorder) (htaken : w.TakesName call position kind)
    (hvalue : call.argument? position = some value) (callee : Text) :
    Balanced (w.account tree Embeds hembeds) (moveArgument w callee kind value) := by
  refine Balanced.textOf_bind fun text htext => ?_
  split
  · split
    · exact Balanced.of_silent fun _ => spec_reportDynamic Conduct.isOpen_any.toIsLenient
    · exact Balanced.pure _
  · next l hliteral =>
    refine (yields_prefixMention kind l.value).bind fun spelled steps es hes => ?_
    rw [hes.1]
    cases spelled with
    | none => exact Yields.pure (List.forall_mem_nil _)
    | some t =>
      obtain ⟨m, hmention, rfl, hrecord⟩ := hes.2 t rfl
      apply Yields.queue
      rw [List.nil_append, List.forall_mem_singleton]
      exact .literal hcall htaken hvalue htext hliteral hmention (List.mem_append_left _ hrecord)

/-- The literals of a call are balanced, if names are taken at their positions. -/
theorem balanced_moveArguments {call : Node} (hcall : call ∈ tree.preorder) (callee : Text)
    {taken : List (Nat × SymbolKind)} (h : ∀ entry ∈ taken, w.TakesName call entry.1 entry.2) :
    Balanced (w.account tree Embeds hembeds) (moveArguments w callee call taken) := by
  induction taken with
  | nil => exact Balanced.pure _
  | cons entry rest ih =>
    obtain ⟨hentry, hrest⟩ := List.forall_mem_cons.mp h
    unfold moveArguments
    dsimp only
    split
    · next value hvalue =>
      exact (balanced_moveArgument hcall hentry hvalue callee).bind fun _ => ih hrest
    · exact ih hrest

/-- Looking up the function a call calls adds no edits. -/
theorem queues_callee? (call : Node) :
    Queues .any (callee? w call) fun callee es => es = [] ∧ callee = calleeOf w call := by
  refine Queues.of_preserves fun P => ?_
  have hcallee : Spec .any P (callee? w call >>= pure) fun callee s =>
      P s ∧ callee = calleeOf w call :=
    spec_callee?_bind Conduct.isOpen_any.toIsLenient (Spec.pure fun s hs => ⟨hs, rfl⟩)
  rwa [bind_pure] at hcallee

/-- The literals at a node are balanced. -/
theorem balanced_enterLiterals {n : Node} (hn : n ∈ tree.preorder) :
    Balanced (w.account tree Embeds hembeds) (enterLiterals w n) := by
  unfold enterLiterals
  split
  · next htype =>
    refine Balanced.bind_fact (queues_callee? n) fun callee hcallee => ?_
    cases callee with
    | none => exact Balanced.pure _
    | some name =>
      refine balanced_moveArguments hn name fun entry hentry => ?_
      exact .function htype hcallee.symm hentry
  split
  · next htype =>
    split
    · next classNode hclass =>
      split
      · refine Balanced.textOf_bind fun text htext => Balanced.get_bind fun s => ?_
        refine balanced_moveArguments hn _ fun entry hentry => ?_
        exact .creation htype hclass htext hentry
      · exact Balanced.pure _
    · exact Balanced.pure _
  · exact Balanced.pure _

/-- Embedded code is balanced: its edit accounts for what was done in it. -/
theorem balanced_enterEmbedded {treat : Text → Plan Text}
    (htreat : ∀ code file, (treat code).outcome = .ok file → Embeds (treat code).steps code file)
    {n : Node} (hn : n ∈ tree.preorder) :
    Balanced (w.account tree Embeds hembeds) (enterEmbedded w treat n) := by
  unfold enterEmbedded
  split
  · exact Balanced.pure _
  · refine Balanced.bind_fact (queues_callee? n) fun callee hcallee => ?_
    split
    · exact Balanced.pure _
    · next heval =>
      rw [Decidable.not_not.mp heval] at hcallee
      split
      · exact Balanced.pure _
      · next value hvalue =>
        refine Balanced.textOf_bind fun text htext => ?_
        split
        · refine Balanced.bind (Balanced.of_silent fun _ => ?_) fun _ => Balanced.pure _
          exact spec_reportDynamic Conduct.isOpen_any.toIsLenient
        · next l hliteral =>
          refine (Yields.lift _).bind fun file steps es hes => ?_
          obtain ⟨hout, rfl, rfl⟩ := hes
          have hcode := htreat _ _ hout
          have hqueue : Yields (queue (.replacing value (Literal.singleQuoted (asEmbedded file))))
              fun _ _ es => es = [.replacing value (Literal.singleQuoted (asEmbedded file))] :=
            Yields.queue rfl
          refine hqueue.bind fun _ more fs hfs => Yields.pure ?_
          rw [hfs, List.append_nil, List.nil_append, List.forall_mem_singleton]
          refine .code hn hcallee.symm hvalue htext hliteral ?_
          exact hembeds (List.subset_append_left _ _) _ _ hcode

end Prefixing

namespace Walk

variable {A : Account}

/-- Visitors that are balanced at a site are balanced together. -/
theorem balanced_enterAll {visitors : List (Visitor PrefixingM)} {s : Site}
    (h : ∀ v ∈ visitors, Balanced A (v.enter s)) : Balanced A (enterAll visitors s) := by
  induction visitors with
  | nil => exact Balanced.pure _
  | cons v vs ih =>
    obtain ⟨hv, hvs⟩ := List.forall_mem_cons.mp h
    exact hv.bind fun _ => (ih hvs).bind fun _ => Balanced.pure _

/-- A walk is balanced when entering and leaving its sites is. -/
theorem balanced_run {visitors : List (Visitor PrefixingM)} {V : Site → Prop}
    (hbelow : ∀ s, V s → ∀ t ∈ s.below, V t)
    (henter : ∀ s, V s → Balanced A (enterAll visitors s))
    (hleave : ∀ s, Balanced A (leaveAll visitors s)) (entered : Nat) (tasks : List Task)
    (htasks : ∀ task ∈ tasks, V task.site) : Balanced A (run visitors entered tasks) := by
  -- The weight of the stack falls with every task, as in the definition of the walk.
  induction hw : weight tasks using Nat.strongRecOn generalizing entered tasks with
  | ind w ih =>
    cases tasks with
    | nil =>
      rw [run]
      exact Balanced.pure _
    | cons task rest =>
      obtain ⟨hsite, hrest⟩ := List.forall_mem_cons.mp htasks
      cases task with
      | leave s =>
        rw [run]
        have hless : weight rest < w := by
          rw [← hw]
          simp only [weight, Task.weight]
          omega
        exact (hleave s).bind fun _ => ih _ hless entered rest hrest rfl
      | enter s =>
        rw [run]
        refine (henter s hsite).bind fun skip => ?_
        have hless : weight (pushed skip s rest) < w := by
          rw [← hw]
          exact weight_entered_lt s rest skip
        refine ih _ hless (entered + 1) (pushed skip s rest) ?_ rfl
        have hlater : ∀ task ∈ Task.leave s :: rest, V task.site :=
          List.forall_mem_cons.mpr ⟨hsite, hrest⟩
        unfold pushed
        split
        · exact hlater
        · refine List.forall_mem_append.mpr ⟨fun task htask => ?_, hlater⟩
          obtain ⟨t, ht, rfl⟩ := List.mem_map.mp htask
          exact hbelow s hsite t ht

end Walk

namespace Prefixer

/-- Entering a site of a tree is balanced for every visitor. -/
theorem balanced_enter {treat : Text → Plan Text}
    (htreat : ∀ code file, (treat code).outcome = .ok file → Embeds (treat code).steps code file)
    {s : Site} (hs : s.IsOf tree) :
    ∀ v ∈ visitors w tree treat, Balanced (w.account tree Embeds hembeds) (v.enter s) := by
  simp only [visitors, List.forall_mem_cons]
  refine ⟨?_, ?_, ?_, ?_, ?_, List.forall_mem_nil _⟩
  · simp only [Prefixing.namespaces]
    split
    · next htype =>
      exact (Prefixing.balanced_enterDeclaration hs.mem_preorder htype).bind fun _ => Balanced.pure _
    · exact Balanced.pure _
  · simp only [Prefixing.imports]
    split
    · next htype =>
      split
      · next group hgroup =>
        exact (Prefixing.balanced_enterGroup hs.mem_preorder htype hgroup).bind
          fun _ => Balanced.pure _
      · exact (Prefixing.balanced_enterPlain hs.mem_preorder htype).bind fun _ => Balanced.pure _
    · exact Balanced.pure _
  · exact (Prefixing.balanced_enterNames hs).bind fun _ => Balanced.pure _
  · exact (Prefixing.balanced_enterLiterals hs.mem_preorder).bind fun _ => Balanced.pure _
  · exact Prefixing.balanced_enterEmbedded htreat hs.mem_preorder

/-- A walk through a tree is balanced, if the treatment of embedded code is. -/
theorem balanced_through {treat : Text → Plan Text}
    (htreat : ∀ code file, (treat code).outcome = .ok file → Embeds (treat code).steps code file) :
    Balanced (w.account tree Embeds hembeds) (Walk.through (visitors w tree treat) tree) := by
  have hbefore : Balanced (w.account tree Embeds hembeds)
      (Walk.beforeAll (visitors w tree treat)) :=
    Prefixing.balanced_wrapGlobal.bind fun _ => Balanced.pure _
  have hrun : Balanced (w.account tree Embeds hembeds)
      (Walk.run (visitors w tree treat) 0 [.enter (.ofRoot tree)]) := by
    refine Walk.balanced_run (V := Site.IsOf tree) ?_ ?_ ?_ 0 _ ?_
    · exact fun s hs t ht => hs.inside ht
    · exact fun s hs => Walk.balanced_enterAll (balanced_enter htreat hs)
    · exact fun s => Balanced.of_silent (Prefixing.isSilent_leaveAll tree treat s)
    · exact List.forall_mem_singleton.mpr .top
  refine hbefore.bind fun _ => hrun.bind fun entered => ?_
  exact Balanced.bind (Balanced.pure ()) fun _ => Balanced.pure entered

end Prefixer

end

end PhpPrefixer
