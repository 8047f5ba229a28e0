import Mathlib.Data.List.Forall2
import PhpPrefixer.Proofs.ImportReading
import PhpPrefixer.Proofs.Stages
import PhpPrefixer.Proofs.Trees

/-!
# Work that is alike

A likeness is a relation between plans that holds between a plan and itself, and that is kept when both
plans go on alike. Work on a file asks in two places only for something that is not decided by the file
and the rules: where something is reported, and where embedded code is treated. So whatever likeness
there is between two ways to report and between two treatments of embedded code is there between the
whole work as well: `Prefixer.alike_treatOnce`.

The embedded code that is treated is what calls evaluate, told by `Source.evaluated?`, and a file embeds
what its calls evaluate: `Prefixer.embeddedTexts`. No other text is asked about.
-/

namespace PhpPrefixer

open PrefixingM Prefixing

variable {α β : Type}

/-- A way in which plans for the same kind of result can be alike. -/
structure Plan.Likeness where
  /-- Whether a plan is like another one. -/
  holds : ∀ {α : Type}, Plan α → Plan α → Prop
  /-- Every plan is like itself. -/
  refl : ∀ {α : Type} (p : Plan α), holds p p
  /-- Plans that are alike stay so when they go on alike from every result of the first one. -/
  bind : ∀ {α β : Type} {p q : Plan α} {next other : α → Plan β}, holds p q →
    (∀ a, p.outcome = .ok a → holds (next a) (other a)) → holds (p >>= next) (q >>= other)

/-- Work on a file that is alike from every state. -/
def PrefixingM.Alike (L : Plan.Likeness) (m₁ m₂ : PrefixingM α) : Prop :=
  ∀ s, L.holds (m₁.run s) (m₂.run s)

variable {L : Plan.Likeness}

namespace PrefixingM.Alike

variable {m₁ m₂ : PrefixingM α}

/-- Work is like itself. -/
protected theorem refl (m : PrefixingM α) : Alike L m m := fun s => L.refl (m.run s)

/-- Work that goes on alike from alike work is alike. -/
protected theorem bind {next₁ next₂ : α → PrefixingM β} (hm : Alike L m₁ m₂)
    (hnext : ∀ a, Alike L (next₁ a) (next₂ a)) : Alike L (m₁ >>= next₁) (m₂ >>= next₂) := by
  intro s
  rw [StateT.run_bind, StateT.run_bind]
  exact L.bind (hm s) fun r _ => hnext r.1 r.2

/-- The same work goes on alike. -/
theorem bind_left (m : PrefixingM α) {next₁ next₂ : α → PrefixingM β}
    (hnext : ∀ a, Alike L (next₁ a) (next₂ a)) : Alike L (m >>= next₁) (m >>= next₂) :=
  (Alike.refl m).bind hnext

/-- Plans that are alike are alike as work. -/
protected theorem lift {p₁ p₂ : Plan α} (h : L.holds p₁ p₂) :
    Alike L (liftM p₁ : PrefixingM α) (liftM p₂) :=
  fun s => L.bind h fun a _ => L.refl (pure (a, s))

/-- Work is alike if it is in either case. -/
protected theorem ite {b : Prop} [Decidable b] {m₁' m₂' : PrefixingM α} (h : b → Alike L m₁ m₂)
    (h' : ¬b → Alike L m₁' m₂') : Alike L (if b then m₁ else m₁') (if b then m₂ else m₂') := by
  split
  · next hb => exact h hb
  · next hb => exact h' hb

end PrefixingM.Alike

/-- The setting with another way to report. -/
def FileSetting.reporting (w : FileSetting) (policy : UnsupportedPolicy) (warnDynamic : Bool) :
    FileSetting :=
  { w with policy, warnDynamic }

/-- The reports of a setting are like those with another way to report. -/
structure FileSetting.ReportsLike (L : Plan.Likeness) (w : FileSetting) (policy : UnsupportedPolicy)
    (warnDynamic : Bool) : Prop where
  /-- Constructs that cannot be handled are reported alike. -/
  unsupported : ∀ line reason, Alike L (w.reportUnsupported line reason)
    ((w.reporting policy warnDynamic).reportUnsupported line reason)
  /-- Names computed at run time are reported alike. -/
  dynamic : ∀ line callee, Alike L (w.reportDynamic line callee)
    ((w.reporting policy warnDynamic).reportDynamic line callee)

section

variable {w : FileSetting} {policy : UnsupportedPolicy} {warnDynamic : Bool}

/-- What goes on with the text of a node knows that it is the text of the node. -/
theorem FileSetting.alike_textOf_bind {n : Node} {next₁ next₂ : Text → PrefixingM α}
    (h : ∀ t, w.source.text? n = some t → Alike L (next₁ t) (next₂ t)) :
    Alike L (w.textOf n >>= next₁) (w.textOf n >>= next₂) := by
  unfold textOf
  cases htext : w.source.text? n with
  | some t =>
    rw [pure_bind, pure_bind]
    exact h t htext
  | none =>
    intro s
    exact L.refl _

namespace Prefixing

/-- What goes on with the function a call calls knows what its text tells. -/
theorem alike_callee?_bind {call : Node} {next₁ next₂ : Option Text → PrefixingM α}
    (h : Alike L (next₁ (calleeOf w call)) (next₂ (calleeOf w call))) :
    Alike L (callee? w call >>= next₁) (callee? w call >>= next₂) := by
  obtain hread | hfail := callee?_cases w call
  · rw [hread, pure_bind, pure_bind]
    exact h
  · rw [hfail, fail_bind, fail_bind]
    exact Alike.refl _

/-- How a file reports makes no difference to reading a local name. -/
theorem readGiven_reporting (nodes : List (Option Node)) :
    readGiven (w.reporting policy warnDynamic) nodes = readGiven w nodes := by
  fun_induction readGiven w nodes with
  | case1 => rfl
  | case2 => rfl
  | case3 n => rfl
  | case4 rest hrest ih =>
    rw [readGiven]
    · exact ih
    · exact hrest
  | case5 n rest hrest ih =>
    rw [readGiven]
    · exact bind_congr fun _ => ih
    · exact hrest

/-- How a file reports makes no difference to reading a clause. -/
theorem readClause_reporting (kind : SymbolKind) (base : Text) (clause : Node) :
    readClause (w.reporting policy warnDynamic) kind base clause = readClause w kind base clause := by
  rw [readClause, readGiven_reporting]
  rfl

/-- How a file reports makes no difference to reading the clauses of a statement. -/
theorem readClauses_reporting (kind : SymbolKind) (clauses : List Node) :
    readClauses (w.reporting policy warnDynamic) kind clauses = readClauses w kind clauses := by
  induction clauses with
  | nil => rfl
  | cons clause rest ih => rw [readClauses, readClause_reporting, ih, readClauses]

/-- How a file reports makes no difference to reading a group. -/
theorem readGroup_reporting (kind : SymbolKind) (base : Text) (clauses : List Node) :
    readGroup (w.reporting policy warnDynamic) kind base clauses = readGroup w kind base clauses := by
  induction clauses with
  | nil => rfl
  | cons clause rest ih => rw [readGroup, readClause_reporting, ih, readGroup]

/-- How a file reports makes no difference to adopting imports. -/
theorem adoptAll_reporting (is : List Import) :
    adoptAll (w.reporting policy warnDynamic) is = adoptAll w is := by
  induction is with
  | nil => rfl
  | cons i is ih =>
    rw [adoptAll, ih]
    rfl

/-- How a file reports makes no difference to moving imports. -/
theorem moveAll_reporting (is : List Import) :
    moveAll (w.reporting policy warnDynamic) is = moveAll w is := by
  induction is with
  | nil => rfl
  | cons i is ih =>
    rw [moveAll, ih]
    rfl

/-- How a file reports makes no difference to moving references. -/
theorem moveReferences_reporting (kind : SymbolKind) (ns : List Node) :
    moveReferences (w.reporting policy warnDynamic) kind ns = moveReferences w kind ns := by
  induction ns with
  | nil => rfl
  | cons n ns ih =>
    rw [moveReferences, ih]
    rfl

/-- How a file reports makes no difference to recording declarations. -/
theorem recordAll_reporting (kind : SymbolKind) (ns : List Node) :
    recordAll (w.reporting policy warnDynamic) kind ns = recordAll w kind ns := by
  induction ns with
  | nil => rfl
  | cons n ns ih =>
    rw [recordAll, ih]
    rfl

/-- How a file reports makes no difference to the names at a node. -/
theorem enterNames_reporting (s : Site) :
    enterNames (w.reporting policy warnDynamic) s = enterNames w s := by
  unfold enterNames
  simp only [moveReferences_reporting, recordAll_reporting]
  rfl

/-- Wrapping global code is alike where reports are. -/
theorem alike_wrapGlobal (h : w.ReportsLike L policy warnDynamic) (root : Node) :
    Alike L (wrapGlobal w root) (wrapGlobal (w.reporting policy warnDynamic) root) := by
  unfold wrapGlobal
  refine Alike.ite (fun _ => Alike.refl _) fun _ => ?_
  cases root.namedChildren with
  | nil => exact Alike.refl _
  | cons first rest =>
    refine Alike.ite (fun _ => Alike.refl _) fun _ => Alike.bind_left _ fun _ => ?_
    exact Alike.ite (fun _ => h.unsupported _ _) fun _ => Alike.refl _

/-- A plain import statement is treated alike where reports are alike. -/
theorem alike_enterPlain (h : w.ReportsLike L policy warnDynamic) (n : Node) (kind : SymbolKind) :
    Alike L (enterPlain w n kind) (enterPlain (w.reporting policy warnDynamic) n kind) := by
  unfold enterPlain
  dsimp only
  rw [readClauses_reporting]
  refine Alike.bind_left _ fun imports => ?_
  match imports with
  | none => exact h.unsupported _ _
  | some [] => exact h.unsupported _ _
  | some (i :: is) =>
    dsimp only
    rw [moveAll_reporting]
    exact Alike.refl _

/-- A group of imports is treated alike where reports are alike. -/
theorem alike_enterGroup (h : w.ReportsLike L policy warnDynamic) (n group : Node)
    (kind : SymbolKind) :
    Alike L (enterGroup w n group kind) (enterGroup (w.reporting policy warnDynamic) n group kind) := by
  unfold enterGroup
  cases groupBase? n with
  | none => exact h.unsupported _ _
  | some base =>
    refine Alike.bind_left _ fun text => ?_
    dsimp only
    rw [readGroup_reporting]
    refine Alike.bind_left _ fun imports => ?_
    cases imports with
    | error clause => exact h.unsupported _ _
    | ok imports =>
      simp only [adoptAll_reporting]
      exact Alike.refl _

/-- Imports are treated alike where reports are alike. -/
theorem alike_imports (h : w.ReportsLike L policy warnDynamic) (s : Site) :
    Alike L ((imports w).enter s) ((imports (w.reporting policy warnDynamic)).enter s) := by
  refine Alike.ite (fun _ => ?_) fun _ => Alike.refl _
  cases s.node.namedChildren.find? fun c => c.type = groupType with
  | none => exact (alike_enterPlain h _ _).bind fun _ => Alike.refl _
  | some group => exact (alike_enterGroup h _ _ _).bind fun _ => Alike.refl _

/-- A literal that is passed for a name is treated alike where reports are alike. -/
theorem alike_moveArgument (h : w.ReportsLike L policy warnDynamic) (callee : Text)
    (kind : SymbolKind) (value : Node) :
    Alike L (moveArgument w callee kind value)
      (moveArgument (w.reporting policy warnDynamic) callee kind value) := by
  refine Alike.bind_left _ fun text => ?_
  cases value.literal? text with
  | none => exact Alike.ite (fun _ => h.dynamic _ _) fun _ => Alike.refl _
  | some literal => exact Alike.refl _

/-- The literals of a call are treated alike where reports are alike. -/
theorem alike_moveArguments (h : w.ReportsLike L policy warnDynamic) (callee : Text) (call : Node)
    (taken : List (Nat × SymbolKind)) :
    Alike L (moveArguments w callee call taken)
      (moveArguments (w.reporting policy warnDynamic) callee call taken) := by
  induction taken with
  | nil => exact Alike.refl _
  | cons entry rest ih =>
    unfold moveArguments
    cases call.argument? entry.1 with
    | none => exact ih
    | some value => exact (alike_moveArgument h callee entry.2 value).bind fun _ => ih

/-- Literals are treated alike where reports are alike. -/
theorem alike_enterLiterals (h : w.ReportsLike L policy warnDynamic) (n : Node) :
    Alike L (enterLiterals w n) (enterLiterals (w.reporting policy warnDynamic) n) := by
  unfold enterLiterals
  refine Alike.ite (fun _ => ?_) fun _ => Alike.ite (fun _ => ?_) fun _ => Alike.refl _
  · refine Alike.bind_left _ fun callee => ?_
    cases callee with
    | none => exact Alike.refl _
    | some callee => exact alike_moveArguments h callee n _
  · cases n.namedChildren.head? with
    | none => exact Alike.refl _
    | some classNode =>
      refine Alike.ite (fun _ => ?_) fun _ => Alike.refl _
      refine Alike.bind_left _ fun text => Alike.bind_left _ fun st => ?_
      exact alike_moveArguments h _ n _

end Prefixing

end

/-- The code that a call evaluates, as the code of a file: the literal that is the first argument of a call
of `eval`. -/
def Source.evaluated? (s : Source) (call : Node) : Option Text :=
  if call.type = "function_call_expression"
      && ((call.child? "function").bind fun n => (s.text? n).bind (globalCallee? n))
        = some "eval".toList then do
    let value ← call.argument? 0
    let text ← s.text? value
    let literal ← value.literal? text
    return asFile literal.value
  else none

section

variable {w : FileSetting} {policy : UnsupportedPolicy} {warnDynamic : Bool}
  {treat₁ treat₂ : Text → Plan Text}

/-- Embedded code is treated alike where reports are alike, and the treatments of the code itself. -/
theorem Prefixing.alike_enterEmbedded (h : w.ReportsLike L policy warnDynamic) {n : Node}
    (htreat : ∀ inner, w.source.evaluated? n = some inner → L.holds (treat₁ inner) (treat₂ inner)) :
    Alike L (enterEmbedded w treat₁ n)
      (enterEmbedded (w.reporting policy warnDynamic) treat₂ n) := by
  unfold enterEmbedded
  refine Alike.ite (fun _ => Alike.refl _) fun htype => ?_
  refine alike_callee?_bind (Alike.ite (fun _ => Alike.refl _) fun hcallee => ?_)
  cases hvalue : n.argument? 0 with
  | none => exact Alike.refl _
  | some value =>
    refine w.alike_textOf_bind fun text htext => ?_
    cases hliteral : value.literal? text with
    | none => exact (h.dynamic _ _).bind fun _ => Alike.refl _
    | some literal =>
      have hcall : (n.type = "function_call_expression" && calleeOf w n = some "eval".toList) = true := by
        rw [not_not.mp htype, not_not.mp hcallee]
        rfl
      have hevaluated : w.source.evaluated? n = some (asFile literal.value) := by
        rw [Source.evaluated?]
        unfold calleeOf at hcall
        rw [if_pos hcall, hvalue, Option.bind_eq_bind, Option.bind_some, htext, Option.bind_eq_bind,
          Option.bind_some, hliteral]
        rfl
      exact (Alike.lift (htreat _ hevaluated)).bind fun _ => Alike.refl _

namespace Walk

variable {vs₁ vs₂ : List (Visitor PrefixingM)}

/-- Visitors that are alike at a site are alike together. -/
theorem alike_enterAll {s : Site}
    (h : List.Forall₂ (fun v₁ v₂ : Visitor PrefixingM => Alike L (v₁.enter s) (v₂.enter s)) vs₁ vs₂) :
    Alike L (enterAll vs₁ s) (enterAll vs₂ s) := by
  induction h with
  | nil => exact Alike.refl _
  | cons hv _ ih => exact hv.bind fun _ => ih.bind fun _ => Alike.refl _

/-- What holds of a node, of all nodes below it and of what is left to do holds of what is to be done
after the node has been entered. -/
theorem forall_mem_pushed {V : Node → Prop} (hbelow : ∀ n, V n → ∀ c ∈ n.children, V c) {s : Site}
    (hs : V s.node) {rest : List Task} (hrest : ∀ task ∈ rest, V task.site.node) (skip : Bool) :
    ∀ task ∈ pushed skip s rest, V task.site.node := by
  have hlater : ∀ task ∈ Task.leave s :: rest, V task.site.node := List.forall_mem_cons.mpr ⟨hs, hrest⟩
  cases skip with
  | true => exact hlater
  | false =>
    refine List.forall_mem_append.mpr ⟨fun task htask => ?_, hlater⟩
    obtain ⟨t, ht, rfl⟩ := List.mem_map.mp htask
    exact hbelow _ hs _ (Site.mem_children_of_below ht)

/-- Walks with visitors that are alike wherever a node of the tree is entered are alike. -/
theorem alike_run {V : Node → Prop} (hbelow : ∀ n, V n → ∀ c ∈ n.children, V c)
    (henter : ∀ s : Site, V s.node → Alike L (enterAll vs₁ s) (enterAll vs₂ s))
    (hleave : ∀ s, Alike L (leaveAll vs₁ s) (leaveAll vs₂ s)) (entered : Nat) {tasks : List Task}
    (htasks : ∀ task ∈ tasks, V task.site.node) :
    Alike L (run vs₁ entered tasks) (run vs₂ entered tasks) := by
  induction hw : weight tasks using Nat.strongRecOn generalizing entered tasks with
  | ind w ih =>
    cases tasks with
    | nil =>
      rw [run, run]
      exact Alike.refl _
    | cons task rest =>
      obtain ⟨htask, hrest⟩ := List.forall_mem_cons.mp htasks
      cases task with
      | leave s =>
        rw [run, run]
        have hless : weight rest < w := by
          rw [← hw]
          simp only [weight, Task.weight]
          omega
        exact (hleave s).bind fun _ => ih _ hless entered hrest rfl
      | enter s =>
        rw [run, run]
        refine (henter s htask).bind fun skip => ?_
        have hless : weight (pushed skip s rest) < w := hw ▸ weight_entered_lt s rest skip
        exact ih _ hless (entered + 1) (forall_mem_pushed hbelow htask hrest skip) rfl

end Walk

namespace Prefixer

variable {tree : Node}

/-- A node is visited alike where reports are alike. -/
theorem alike_enterAll_visitors (h : w.ReportsLike L policy warnDynamic) {s : Site}
    (htreat : ∀ inner, w.source.evaluated? s.node = some inner → L.holds (treat₁ inner) (treat₂ inner)) :
    Alike L (Walk.enterAll (visitors w tree treat₁) s)
      (Walk.enterAll (visitors (w.reporting policy warnDynamic) tree treat₂) s) := by
  have hnames : Alike L ((names w).enter s) ((names (w.reporting policy warnDynamic)).enter s) := by
    simp only [names, enterNames_reporting]
    exact Alike.refl _
  have hliterals : Alike L ((literals w).enter s)
      ((literals (w.reporting policy warnDynamic)).enter s) :=
    (alike_enterLiterals h s.node).bind fun _ => Alike.refl _
  exact Walk.alike_enterAll (.cons (Alike.refl _) (.cons (alike_imports h s) (.cons hnames
    (.cons hliterals (.cons (alike_enterEmbedded h htreat) .nil)))))

/-- Walks through a file are alike if the reports are and the embedded code is treated alike. -/
theorem alike_walk (h : w.ReportsLike L policy warnDynamic)
    (htreat : ∀ call ∈ tree.preorder, ∀ inner, w.source.evaluated? call = some inner →
      L.holds (treat₁ inner) (treat₂ inner)) :
    L.holds (walk w tree treat₁) (walk (w.reporting policy warnDynamic) tree treat₂) := by
  have hbefore : Alike L (Walk.beforeAll (visitors w tree treat₁))
      (Walk.beforeAll (visitors (w.reporting policy warnDynamic) tree treat₂)) := by
    simp only [Walk.beforeAll, visitors, namespaces, imports, names, literals, embedded]
    exact (alike_wrapGlobal h tree).bind fun _ => Alike.refl _
  have hleave : ∀ s, Alike L (Walk.leaveAll (visitors w tree treat₁) s)
      (Walk.leaveAll (visitors (w.reporting policy warnDynamic) tree treat₂) s) := by
    intro s
    simp only [Walk.leaveAll, visitors, namespaces, imports, names, literals, embedded]
    exact Alike.refl _
  have hafter : Alike L (Walk.afterAll (visitors w tree treat₁))
      (Walk.afterAll (visitors (w.reporting policy warnDynamic) tree treat₂)) := by
    simp only [Walk.afterAll, visitors, namespaces, imports, names, literals, embedded]
    exact Alike.refl _
  have hrun : Alike L (Walk.run (visitors w tree treat₁) 0 [.enter (.ofRoot tree)])
      (Walk.run (visitors (w.reporting policy warnDynamic) tree treat₂) 0 [.enter (.ofRoot tree)]) := by
    refine Walk.alike_run (V := (· ∈ tree.preorder)) ?_ ?_ hleave 0 ?_
    · exact fun n hn c hc => Node.mem_preorder_trans (Node.mem_preorder_child hc) hn
    · exact fun s hs => alike_enterAll_visitors h (htreat s.node hs)
    · exact List.forall_mem_singleton.mpr (Node.mem_preorder_self tree)
  have hthrough : Alike L (Walk.through (visitors w tree treat₁) tree)
      (Walk.through (visitors (w.reporting policy warnDynamic) tree treat₂) tree) :=
    hbefore.bind fun _ => hrun.bind fun _ => hafter.bind fun _ => Alike.refl _
  exact L.bind (hthrough .start) fun r _ => L.refl _

end Prefixer

end

/-- The prefixer with another way to report. -/
def Prefixer.reporting (p : Prefixer) (policy : UnsupportedPolicy) (warnDynamic : Bool) : Prefixer :=
  { p with policy, warnDynamic }

namespace Prefixer

/-- The treatment of a file, where `self` treats the code embedded in it. -/
def treatOnce (p : Prefixer) (whitelist : Whitelist) (path : Text)
    (self : Option Text → Text → Plan Text) (given : Option Text) (contents : Text) : Plan Text :=
  if Recognition.holdsCode p.extensions path contents then
    match Prefix.validate given with
    | .error e => Plan.fail (.badPrefix e)
    | .ok root => do
      let (line, code) := Recognition.splitShebang contents
      let moved ← p.moveCode whitelist path root (self (some root)) code
      return line ++ moved
  else do
    Plan.note .debug .files (String.ofList path ++ ": NOT_SOURCE, delegating")
    return contents

/-- One more level treats a file, and the code embedded in it with the levels before. -/
theorem treatWithin_succ (p : Prefixer) (whitelist : Whitelist) (path : Text) (levels : Nat)
    (given : Option Text) (contents : Text) :
    p.treatWithin whitelist path (levels + 1) given contents
      = p.treatOnce whitelist path (p.treatWithin whitelist path levels) given contents := rfl

/-- The texts that a file embeds, in the order of its tree. A file that holds no code or cannot be parsed
embeds nothing. -/
def embeddedTexts (p : Prefixer) (path contents : Text) : List Text :=
  let code := (Recognition.splitShebang contents).2
  if Recognition.holdsCode p.extensions path contents then
    match (p.parse code).check code with
    | .ok (source, tree) => tree.preorder.filterMap source.evaluated?
    | .error _ => []
  else []

variable {p : Prefixer} {policy : UnsupportedPolicy} {warnDynamic : Bool} {whitelist : Whitelist}
  {path root code : Text} {treat₁ treat₂ : Text → Plan Text}

/-- There are five visitors. -/
theorem length_visitors (w : FileSetting) (tree : Node) (treat : Text → Plan Text) :
    (visitors w tree treat).length = 5 := rfl

/-- The code of a file is moved alike if the reports are alike and the code that calls evaluate is treated
alike. -/
theorem alike_moveCode
    (h : ∀ w : FileSetting, w.policy = p.policy → w.warnDynamic = p.warnDynamic →
      w.ReportsLike L policy warnDynamic)
    (htreat : ∀ source tree, (p.parse code).check code = .ok (source, tree) →
      ∀ inner ∈ tree.preorder.filterMap source.evaluated?,
        L.holds (treat₁ inner) (treat₂ inner)) :
    L.holds (p.moveCode whitelist path root treat₁ code)
      ((p.reporting policy warnDynamic).moveCode whitelist path root treat₂ code) := by
  unfold moveCode
  refine L.bind (L.refl (p.parseFile path code)) fun file hfile => ?_
  have hcheck : (p.parse code).check code = .ok file := by
    unfold parseFile at hfile
    cases hparsed : (p.parse code).check code with
    | error e =>
      rw [hparsed] at hfile
      cases hfile
    | ok tree =>
      rw [hparsed] at hfile
      cases hfile
      rfl
  obtain ⟨source, tree⟩ := file
  simp only [length_visitors]
  refine L.bind (L.refl _) fun _ _ => ?_
  refine L.bind (L.refl _) fun _ _ => ?_
  refine L.bind (alike_walk (h _ rfl rfl) fun call hcall inner hinner => ?_) fun s _ => L.refl _
  exact htreat source tree hcheck inner (List.mem_filterMap.mpr ⟨call, hcall, hinner⟩)

/-- A file is treated alike if the reports are alike and the code that it embeds is treated alike. -/
theorem alike_treatOnce {self₁ self₂ : Option Text → Text → Plan Text} {contents : Text}
    (h : ∀ w : FileSetting, w.policy = p.policy → w.warnDynamic = p.warnDynamic →
      w.ReportsLike L policy warnDynamic)
    (hself : ∀ inner ∈ p.embeddedTexts path contents, ∀ given,
      L.holds (self₁ given inner) (self₂ given inner)) (given : Option Text) :
    L.holds (p.treatOnce whitelist path self₁ given contents)
      ((p.reporting policy warnDynamic).treatOnce whitelist path self₂ given contents) := by
  have hextensions : (p.reporting policy warnDynamic).extensions = p.extensions := rfl
  rw [treatOnce, treatOnce, hextensions]
  split
  · next hcode =>
    cases Prefix.validate given with
    | error e => exact L.refl _
    | ok root =>
      let code := (Recognition.splitShebang contents).2
      have htreat : ∀ source tree, (p.parse code).check code = .ok (source, tree) →
          ∀ inner ∈ tree.preorder.filterMap source.evaluated?,
            L.holds (self₁ (some root) inner) (self₂ (some root) inner) := by
        intro source tree hcheck inner hinner
        have hmem : inner ∈ p.embeddedTexts path contents := by
          rw [embeddedTexts, if_pos hcode, hcheck]
          exact hinner
        exact hself inner hmem (some root)
      exact L.bind (alike_moveCode h htreat) fun _ _ => L.refl _
  · exact L.refl _

end Prefixer

end PhpPrefixer
