import PhpPrefixer.Proofs.CoupledFiles
import PhpPrefixer.Proofs.HandFiles

/-!
# Blocks of a file

A declaration of a namespace starts a block, and the block knows nothing of what stands in front of it.
Two files whose statements are the same from some declaration on may differ in all that precedes it: the
walks queue the same edits from there, each at its own place. This is `CodeFile.blocks_stay_apart`.

Where a walk comes to the declaration is told by `Walk.Reaches`. From a state that is reached, what is
left to do leads to the end of the walk, `Walk.Reaches.exists_run`; and when the upper part of a stack is
done, the lower part is reached, `Walk.Reaches.later`.
-/

namespace PhpPrefixer

open PrefixingM Prefixing FileSetting

namespace Walk

/-- What is pushed goes on top of all that is left. -/
theorem pushed_append (skip : Bool) (s : Site) (rest more : List Task) :
    pushed skip s (rest ++ more) = pushed skip s rest ++ more := by
  unfold pushed
  split
  · rfl
  · rw [List.append_assoc, List.cons_append]

/-- Two stacks are done one after the other. -/
theorem run_append {m : Type → Type} [Monad m] [LawfulMonad m] (visitors : List (Visitor m))
    (entered : Nat) (tasks more : List Task) :
    run visitors entered (tasks ++ more)
      = run visitors entered tasks >>= fun count => run visitors count more := by
  induction hw : weight tasks using Nat.strongRecOn generalizing entered tasks with
  | ind w ih =>
    match tasks with
    | [] => rw [List.nil_append, run, pure_bind]
    | .leave s :: rest =>
      have hless : weight rest < w := hw ▸ weight_lt_leave s rest
      rw [List.cons_append, run, run, bind_assoc]
      congr 1
      funext _
      exact ih _ hless entered rest rfl
    | .enter s :: rest =>
      rw [List.cons_append, run, run, bind_assoc]
      congr 1
      funext skip
      have hless : weight (pushed skip s rest) < w := hw ▸ weight_entered_lt s rest skip
      calc run visitors (entered + 1) (pushed skip s (rest ++ more))
          = run visitors (entered + 1) (pushed skip s rest ++ more) := by rw [pushed_append]
        _ = run visitors (entered + 1) (pushed skip s rest) >>= fun count => run visitors count more :=
          ih _ hless _ _ rfl

variable {visitors : List (Visitor PrefixingM)} {root : Node} {tasks more : List Task}
  {start st mid last : FileState} {entered count : Nat}

/-- What is left to do in a state that a walk reaches leads to the end of the walk. -/
theorem Reaches.exists_run (h : Reaches visitors root tasks st)
    (hbefore : ((beforeAll visitors).run .start).outcome = .ok ((), start))
    (hrun : ((run visitors 0 [.enter (.ofRoot root)]).run start).outcome = .ok (count, last)) :
    ∃ entered total, ((run visitors entered tasks).run st).outcome = .ok (total, last) := by
  induction h with
  | start h =>
    cases hbefore.symm.trans h
    exact ⟨0, count, hrun⟩
  | enter _ hfirst ih =>
    obtain ⟨entered, total, hlater⟩ := ih
    rw [run] at hlater
    obtain ⟨_, hfirst', hrest, -⟩ := Plan.exists_of_bind hlater
    cases hfirst.symm.trans hfirst'
    exact ⟨entered + 1, total, hrest⟩
  | leave _ hfirst ih =>
    obtain ⟨entered, total, hlater⟩ := ih
    rw [run] at hlater
    obtain ⟨_, hfirst', hrest, -⟩ := Plan.exists_of_bind hlater
    cases hfirst.symm.trans hfirst'
    exact ⟨entered, total, hrest⟩

/-- After the upper part of a stack is done, the walk comes to the lower part. -/
theorem Reaches.later (h : Reaches visitors root (tasks ++ more) st)
    (hrun : ((run visitors entered tasks).run st).outcome = .ok (count, mid)) :
    Reaches visitors root more mid := by
  have hspec : Spec .any (Reaches visitors root (tasks ++ more)) (run visitors entered tasks)
      fun _ => Reaches visitors root ([] ++ more) := by
    refine spec_run (J := fun upper => Reaches visitors root (upper ++ more)) ?_ ?_ entered tasks
    · refine fun s rest st hst => ⟨fun _ _ => trivial, fun _ _ => trivial, fun r hr => ?_⟩
      have hentered : Reaches visitors root (pushed r.1 s (rest ++ more)) r.2 := hst.enter hr
      rwa [pushed_append] at hentered
    · exact fun s rest st hst => ⟨fun _ _ => trivial, fun _ _ => trivial, fun r hr => hst.leave hr⟩
  exact (hspec st h).result _ hrun

/-- What a walk has still to do when it comes to a statement of a file. -/
def fromStatement (tree : Node) (nth : Nat) : List Task :=
  ((Site.ofRoot tree).below.drop nth).map .enter ++ [.leave (.ofRoot tree)]

end Walk

section

variable {w : FileSetting} {tree : Node} {treat : Text → Plan Text}

/-- Nothing is done on entering the top of a file. -/
theorem Prefixer.enterAll_top (htop : tree.type = "program") :
    Walk.enterAll (visitors w tree treat) (.ofRoot tree) = pure false := by
  have hname : tree.isName = false := by simp [Node.isName, nameTypes, htop]
  have hreferences : classReferences tree = [] := by
    simp [classReferences, isInstanceTest, htop]
  simp [Walk.enterAll, visitors, namespaces, namespaceType, imports, names, enterNames,
    classDeclarationTypes, literals, enterLiterals, embedded, enterEmbedded, moveReferences, Site.ofRoot,
    htop, hname, hreferences]

/-- Nothing happens when a file is left. -/
theorem Prefixer.leaveAll_top (htop : tree.type = "program") :
    Walk.leaveAll (visitors w tree treat) (.ofRoot tree) = pure () := by
  have hother : tree.type ≠ namespaceType := by
    rw [htop]
    decide
  simp [Walk.leaveAll, visitors, namespaces, imports, names, literals, embedded, Site.ofRoot, hother]

end

/-- Statements that are the same but for their offsets are come to at matching sites. -/
theorem Site.forall₂_matches {k₁ k₂ : Nat} {top₁ top₂ : Node} (htop₁ : top₁.type = "program")
    (htop₂ : top₂.type = "program") {rest : List Node} {sites₁ sites₂ : List Site}
    (hnodes₁ : sites₁.map (·.node) = rest.map (Node.shift k₁))
    (hnodes₂ : sites₂.map (·.node) = rest.map (Node.shift k₂))
    (hparents₁ : ∀ s ∈ sites₁, s.parent = some top₁) (hparents₂ : ∀ s ∈ sites₂, s.parent = some top₂) :
    List.Forall₂ (fun a b => ∃ n ∈ rest, Matches k₁ k₂ n a b) sites₁ sites₂ := by
  induction rest generalizing sites₁ sites₂ with
  | nil =>
    rw [List.map_eq_nil_iff.mp hnodes₁, List.map_eq_nil_iff.mp hnodes₂]
    exact .nil
  | cons n rest ih =>
    obtain ⟨⟨_, parent₁, nth₁⟩, others₁, rfl, rfl, hothers₁⟩ := List.map_eq_cons_iff.mp hnodes₁
    obtain ⟨⟨_, parent₂, nth₂⟩, others₂, rfl, rfl, hothers₂⟩ := List.map_eq_cons_iff.mp hnodes₂
    obtain ⟨hparent₁, hlater₁⟩ := List.forall_mem_cons.mp hparents₁
    obtain ⟨hparent₂, hlater₂⟩ := List.forall_mem_cons.mp hparents₂
    cases hparent₁
    cases hparent₂
    refine .cons ⟨n, List.mem_cons_self, .statement nth₁ nth₂ htop₁ htop₂⟩ ?_
    refine (ih hothers₁ hothers₂ hlater₁ hlater₂).imp ?_
    rintro a b ⟨m, hm, hab⟩
    exact ⟨m, List.mem_cons_of_mem n hm, hab⟩

namespace CodeFile

/-- The statements of a file end with some that stand further on. -/
structure EndsWith {p : Prefixer} (f : CodeFile p) (k : Nat) (pre rest : List Node) : Prop where
  /-- The tree is that of a whole file. -/
  top : f.tree.type = "program"
  /-- The statements. -/
  statements : f.tree.namedChildren = pre ++ rest.map (Node.shift k)

variable {p : Prefixer} {whitelist : Whitelist} {root : Text} {f : CodeFile p} {s mid : FileState}
  {k : Nat} {pre rest : List Node}

/-- A walk that ends well comes to every statement of the file. -/
theorem exists_reaches (htop : f.tree.type = "program")
    (h : (f.walk whitelist root).outcome = .ok s) (nth : Nat) :
    ∃ mid, Walk.Reaches (f.visitors whitelist root) f.tree (Walk.fromStatement f.tree nth) mid := by
  obtain ⟨start, total, hbefore, hrun⟩ := Prefixer.exists_run_of_walk h
  have htopRun : ((Walk.enterAll (f.visitors whitelist root) (.ofRoot f.tree)).run start).outcome
      = .ok (false, start) := by
    rw [visitors, Prefixer.enterAll_top htop]
    rfl
  have hstatements : Walk.pushed false (.ofRoot f.tree) []
      = ((Site.ofRoot f.tree).below.take nth).map .enter ++ Walk.fromStatement f.tree nth := by
    rw [Walk.fromStatement, ← List.append_assoc, ← List.map_append, List.take_append_drop]
    rfl
  have hentered := (Walk.Reaches.start hbefore).enter htopRun
  rw [hstatements] at hentered
  obtain ⟨entered, _, hlater⟩ := hentered.exists_run hbefore hrun
  rw [Walk.run_append] at hlater
  obtain ⟨⟨_, mid⟩, hupper, -, -⟩ := Plan.exists_of_bind hlater
  exact ⟨mid, hentered.later hupper⟩

/-- From a statement on, a walk that ends well has only the statements to enter that are left. -/
theorem exists_run_of_reaches (htop : f.tree.type = "program")
    (h : (f.walk whitelist root).outcome = .ok s) {nth : Nat}
    (hreach : Walk.Reaches (f.visitors whitelist root) f.tree (Walk.fromStatement f.tree nth) mid) :
    ∃ entered total, ((Walk.run (f.visitors whitelist root) entered
      (((Site.ofRoot f.tree).below.drop nth).map .enter)).run mid).outcome = .ok (total, s) := by
  obtain ⟨start, _, hbefore, hrun⟩ := Prefixer.exists_run_of_walk h
  obtain ⟨entered, _, hlater⟩ := hreach.exists_run hbefore hrun
  have hleave : ∀ count, Walk.run (f.visitors whitelist root) count [.leave (.ofRoot f.tree)]
      = pure count := by
    intro count
    rw [Walk.run, visitors, Prefixer.leaveAll_top htop, pure_bind, Walk.run]
  simp only [Walk.fromStatement, Walk.run_append, hleave, bind_pure] at hlater
  exact ⟨entered, _, hlater⟩

/-- The last statements of a file are those that it ends with, moved to their place. -/
theorem EndsWith.map_node (h : f.EndsWith k pre rest) :
    ((Site.ofRoot f.tree).below.drop pre.length).map (·.node) = rest.map (Node.shift k) := by
  rw [List.map_drop, Site.below_map_node]
  change f.tree.namedChildren.drop pre.length = _
  rw [h.statements, List.drop_left]

/-- The statements of a file are directly below it. -/
theorem parent_of_mem_drop {nth : Nat} :
    ∀ t ∈ (Site.ofRoot f.tree).below.drop nth, t.parent = some f.tree :=
  fun _ ht => Site.parent_of_mem_below (List.mem_of_mem_drop ht)

end CodeFile

/-- A plan that was carried out to its end has that result. -/
theorem Plan.outcome_of_run {α : Type} {p : Plan α} {r : Run} {a : α} (h : (p.run r).1 = .ok a) :
    p.outcome = .ok a := by
  unfold run at h
  split at h
  · cases h
  · exact h

/-- A namespace is declared whose name has one letter. -/
def Node.spaceStatement : Node :=
  .part "namespace_definition" 6 18
    [.token "namespace" 6 15, .mk "namespace_name" true false ⟨16, 17⟩ (some "name") [],
      .token ";" 17 18]

/-- A namespace is declared, and code that creates an object is embedded. -/
def Node.embeddingBlock : List Node :=
  [spaceStatement,
    .part "expression_statement" 19 36
      [.callTo 19 23 (.part "arguments" 23 35
          [.token "(" 23 24,
            .part "argument" 24 34 [.part "string" 24 34 [.part "string_content" 25 33 []]],
            .token ")" 34 35]),
        .token ";" 35 36]]

/-- A namespace is declared, and a class is imported. -/
def Node.importingBlock : List Node :=
  [spaceStatement,
    .part "namespace_use_declaration" 19 29
      [.token "use" 19 22, .part "namespace_use_clause" 23 28 [.part "qualified_name" 23 28 []],
        .token ";" 28 29]]

namespace HandFile

/-- There is one block. -/
def oneBlock : HandFile where
  code := "<?php namespace D; eval('new Foo;');"
  root := .program 36 Node.embeddingBlock

/-- The same block stands behind another one. -/
def twoBlocks : HandFile where
  code := "<?php namespace A; use B\\Foo; namespace D; eval('new Foo;');"
  root := .program 60 (Node.importingBlock ++ Node.embeddingBlock.map (Node.shift 24))

/-- A prefixer whose parser knows both files, and the code embedded in them. -/
def blocksPrefixer : Prefixer where
  parse text :=
    if text = twoBlocks.code.toList then ⟨twoBlocks.root, false⟩
    else if text = oneBlock.code.toList then ⟨oneBlock.root, false⟩
    else ⟨inGlobal.root, text ≠ inGlobal.code.toList⟩
  natives := natives
  extensions := ["php".toList]
  policy := .skip
  warnDynamic := false

end HandFile

namespace CodeFile

/-- The file with one block. -/
def oneBlock : CodeFile HandFile.blocksPrefixer where
  path := "a.php".toList
  contents := HandFile.oneBlock.code.toList
  levels := 2
  holdsCode := by decide +kernel
  parsed := by decide +kernel
  quotes_le := by decide +kernel

/-- The file with two blocks. -/
def twoBlocks : CodeFile HandFile.blocksPrefixer where
  path := "b.php".toList
  contents := HandFile.twoBlocks.code.toList
  levels := 2
  holdsCode := by decide +kernel
  parsed := by decide +kernel
  quotes_le := by decide +kernel

/-- The first file ends with the block that has embedded code. -/
theorem endsWith_oneBlock :
    oneBlock.EndsWith 0 [.part "php_tag" 0 5 []] Node.embeddingBlock :=
  ⟨rfl, rfl⟩

/-- The second file ends with the same block, further on. -/
theorem endsWith_twoBlocks :
    twoBlocks.EndsWith 24 (.part "php_tag" 0 5 [] :: Node.importingBlock) Node.embeddingBlock :=
  ⟨rfl, rfl⟩

end CodeFile

/-- Blocks of a file do not see what stands in front of them. Two files end with the same statements, the
first of which declares a namespace, and the walks through both end well. They come to the declaration,
and whatever has been queued by then, imported or recorded, the edits that they queue from there on are
the same, each at its own place. -/
theorem CodeFile.blocks_stay_apart {p : Prefixer} (whitelist : Whitelist) (root : Text)
    (f₁ f₂ : CodeFile p) (k₁ k₂ : Nat) (pre₁ pre₂ : List Node) (first : Node) (others : List Node)
    (hends₁ : f₁.EndsWith k₁ pre₁ (first :: others)) (hends₂ : f₂.EndsWith k₂ pre₂ (first :: others))
    (hfirst : first.type = namespaceType)
    (htext : ∀ n ∈ Node.preorderAll (first :: others),
      f₁.source.text? (n.shift k₁) = f₂.source.text? (n.shift k₂))
    (run₁ run₂ : Run) (s₁ s₂ : FileState) (h₁ : ((f₁.walk whitelist root).run run₁).1 = .ok s₁)
    (h₂ : ((f₂.walk whitelist root).run run₂).1 = .ok s₂) :
    (∃ mid, Walk.Reaches (f₁.visitors whitelist root) f₁.tree
        (Walk.fromStatement f₁.tree pre₁.length) mid)
      ∧ (∃ mid, Walk.Reaches (f₂.visitors whitelist root) f₂.tree
        (Walk.fromStatement f₂.tree pre₂.length) mid)
      ∧ ∀ mid₁ mid₂,
        Walk.Reaches (f₁.visitors whitelist root) f₁.tree
          (Walk.fromStatement f₁.tree pre₁.length) mid₁ →
        Walk.Reaches (f₂.visitors whitelist root) f₂.tree
          (Walk.fromStatement f₂.tree pre₂.length) mid₂ →
        ∃ later : List Edit, s₁.edits = mid₁.edits ++ later.map (Edit.shift k₁)
          ∧ s₂.edits = mid₂.edits ++ later.map (Edit.shift k₂) := by
  have hwalk₁ := Plan.outcome_of_run h₁
  have hwalk₂ := Plan.outcome_of_run h₂
  refine ⟨exists_reaches hends₁.top hwalk₁ _, exists_reaches hends₂.top hwalk₂ _, ?_⟩
  intro mid₁ mid₂ hreach₁ hreach₂
  obtain ⟨entered₁, total₁, hrun₁⟩ := exists_run_of_reaches hends₁.top hwalk₁ hreach₁
  obtain ⟨entered₂, total₂, hrun₂⟩ := exists_run_of_reaches hends₂.top hwalk₂ hreach₂
  have hsame : ∀ n ∈ first :: others,
      SameCode (f₁.setting whitelist root) (f₂.setting whitelist root) k₁ k₂ n :=
    fun n hn => ⟨rfl, fun m hm => htext m (Node.mem_preorderAll_iff.mpr ⟨n, hn, hm⟩)⟩
  have hsites := Site.forall₂_matches hends₁.top hends₂.top hends₁.map_node hends₂.map_node
    parent_of_mem_drop parent_of_mem_drop
  obtain ⟨site₁, rest₁, hsites₁, hnode₁, -⟩ := List.map_eq_cons_iff.mp hends₁.map_node
  generalize (Site.ofRoot f₂.tree).below.drop pre₂.length = sites₂ at hsites hrun₂
  rw [hsites₁] at hsites hrun₁
  cases hsites with
  | @cons _ site₂ _ rest₂ hmatches hrest =>
    obtain ⟨n, hn, hmatches⟩ := hmatches
    have htype : n.type = namespaceType := by
      rw [← Node.type_shift k₁ n, ← hmatches.node_left, hnode₁, Node.type_shift, hfirst]
    have hothers := Walk.alike_enter hsame hrest
    exact Prefixer.addedAlike_of_declaration (f₁.treatedAlike f₂ whitelist root) (hsame n hn) hmatches
      htype hothers hrun₁ hrun₂

/-- The walk through the file with two blocks finds a class in the registry that it records itself. Both
walks come to the last block, one of them with two edits queued and the other one with none, and go on
to queue two edits for the declaration and for the embedded code. -/
theorem CodeFile.blocks_stay_apart_import :
    let known : Rename := ⟨"B\\Foo".toList, "Humbug\\B\\Foo".toList, .classLike, some "c.php".toList⟩
    ∃ s₁ s₂ mid₁ mid₂,
      ((twoBlocks.walk .empty "Humbug".toList).run ⟨⟨[known]⟩, .withThreshold .warning⟩).1 = .ok s₁
        ∧ ((oneBlock.walk .empty "Humbug".toList).run ⟨.empty, .withThreshold .warning⟩).1 = .ok s₂
        ∧ Walk.Reaches (twoBlocks.visitors .empty "Humbug".toList) twoBlocks.tree
          (Walk.fromStatement twoBlocks.tree 3) mid₁
        ∧ Walk.Reaches (oneBlock.visitors .empty "Humbug".toList) oneBlock.tree
          (Walk.fromStatement oneBlock.tree 1) mid₂
        ∧ mid₁.edits.length = 2 ∧ mid₂.edits = []
        ∧ ∃ later : List Edit, later.length = 2 ∧ s₁.edits = mid₁.edits ++ later.map (Edit.shift 24)
          ∧ s₂.edits = mid₂.edits ++ later.map (Edit.shift 0) := by
  intro known
  have hcount₁ : (((twoBlocks.walk .empty "Humbug".toList).run
      ⟨⟨[known]⟩, .withThreshold .warning⟩).1.toOption.map fun s => s.edits.length) = some 4 := by
    decide +kernel
  have hcount₂ : (((oneBlock.walk .empty "Humbug".toList).run
      ⟨.empty, .withThreshold .warning⟩).1.toOption.map fun s => s.edits.length) = some 2 := by
    decide +kernel
  obtain ⟨s₁, hs₁, hedits₁⟩ := exists_eq_ok_of_toOption hcount₁
  obtain ⟨s₂, hs₂, hedits₂⟩ := exists_eq_ok_of_toOption hcount₂
  obtain ⟨mid₂, _, hstand₂, hmid₂⟩ : ∃ st region,
      Walk.stand? (oneBlock.visitors .empty "Humbug".toList) oneBlock.tree 3
        = some (Walk.fromStatement oneBlock.tree 1, st, region) ∧ st.edits = [] :=
    ⟨_, _, rfl, rfl⟩
  have hreach₂ := (Walk.stands_of_stand? hstand₂).reaches
  obtain ⟨⟨mid₁, hreach₁⟩, -, hblocks⟩ := blocks_stay_apart .empty "Humbug".toList twoBlocks oneBlock
    24 0 _ _ _ _ endsWith_twoBlocks endsWith_oneBlock rfl (by decide +kernel) _ _ s₁ s₂ hs₁ hs₂
  obtain ⟨later, hlater₁, hlater₂⟩ := hblocks mid₁ mid₂ hreach₁ hreach₂
  rw [hlater₁, List.length_append, List.length_map] at hedits₁
  rw [hlater₂, hmid₂, List.nil_append, List.length_map] at hedits₂
  exact ⟨s₁, s₂, mid₁, mid₂, hs₁, hs₂, hreach₁, hreach₂, by omega, hmid₂, later, hedits₂, hlater₁,
    hlater₂⟩

end PhpPrefixer
