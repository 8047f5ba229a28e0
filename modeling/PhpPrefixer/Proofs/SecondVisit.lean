import PhpPrefixer.Proofs.MovedOnce
import PhpPrefixer.Proofs.Queueing
import PhpPrefixer.Proofs.Remainder

/-!
# Visiting a file again

After a run, a second one reads other texts at other nodes: where the first run made an edit, what it
wrote, and the text as it was everywhere else. `Prefixing.DeclaredAfter` and `Prefixing.ImportedAfter`
say how it reads the declaration of a namespace and an import statement. At both it is idle: it ends
well, adds no edits and records nothing.
-/

namespace PhpPrefixer

/-- Work ends well, adds no edits and records nothing, whatever the state is. -/
def PrefixingM.IsIdle {α : Type} (m : PrefixingM α) : Prop :=
  ∀ t, ∃ a t', (m.run t).outcome = .ok (a, t') ∧ t'.edits = t.edits
    ∧ ∀ r, Step.record r ∉ (m.run t).steps

namespace PrefixingM.IsIdle

variable {α β : Type}

/-- Giving a result is idle. -/
protected theorem pure (a : α) : IsIdle (pure a) :=
  fun t => ⟨a, t, rfl, rfl, fun _ => List.not_mem_nil⟩

/-- Work is idle if both of its parts are. -/
protected theorem bind {m : PrefixingM α} {next : α → PrefixingM β} (hm : IsIdle m)
    (hnext : ∀ a, IsIdle (next a)) : IsIdle (m >>= next) := by
  intro t
  obtain ⟨a, s, hout, hedits, hsteps⟩ := hm t
  obtain ⟨b, s', hout', hedits', hsteps'⟩ := hnext a s
  have hrun : (m >>= next).run t
      = ⟨(m.run t).steps ++ ((next a).run s).steps, ((next a).run s).outcome⟩ :=
    Plan.bind_of_ok hout
  rw [hrun]
  refine ⟨b, s', hout', hedits'.trans hedits, fun r hr => ?_⟩
  exact (List.mem_append.mp hr).elim (hsteps r) (hsteps' r)

/-- A change that leaves the edits is idle. -/
theorem of_modify {f : FileState → FileState} (h : ∀ s, (f s).edits = s.edits) :
    IsIdle (modify f : PrefixingM Unit) :=
  fun t => ⟨(), f t, rfl, h t, fun _ => List.not_mem_nil⟩

/-- Telling something is idle. -/
theorem note (level : Level) (channel : Channel) (message : String) :
    IsIdle (PrefixingM.note level channel message) :=
  fun t => ⟨(), t, rfl, rfl, fun r hr => by cases List.mem_singleton.mp hr⟩

end PrefixingM.IsIdle

/-- A node of another file has the text that some edits leave where a node of this file was. -/
def FileSetting.LeavesAt (w again : FileSetting) (es : List Edit) (n m : Node) : Prop :=
  ∃ text, w.source.text? n = some text ∧ again.source.text? m = some (Edit.textLeft es n text)

/-- No node of a tree cuts a character of the source. -/
def FileSetting.IsReadable (w : FileSetting) (n : Node) : Prop :=
  ∀ k ∈ n.preorder, ∃ t, w.source.text? k = some t

/-- A child of a tree that can be read can be read. -/
theorem FileSetting.IsReadable.child {w : FileSetting} {c n : Node} (h : w.IsReadable n)
    (hc : c ∈ n.children) : w.IsReadable c :=
  fun k hk => h k (Node.mem_preorder_trans hk (Node.mem_preorder_child hc))

/-- A clause has a name, and everything in it can be read. -/
structure FileSetting.ReadsClause (w : FileSetting) (clause : Node) : Prop where
  /-- Everything in it can be read. -/
  readable : w.IsReadable clause
  /-- It has a name. -/
  named : ∃ n, Import.target? clause.children = some n

/-- In a clause in which everything can be read, the names can be read. -/
theorem FileSetting.ReadsClause.readsClauseNames {w : FileSetting} {clause : Node}
    (h : w.ReadsClause clause) : w.ReadsClauseNames clause := by
  obtain ⟨n, hn⟩ := h.named
  obtain ⟨text, htext⟩ := h.readable n (Node.mem_preorder_child (Import.mem_of_target? hn))
  refine ⟨⟨n, text, hn, htext⟩, fun k hk => ?_⟩
  obtain ⟨part, hpart, hin⟩ := Import.exists_part_of_givenNames hk
  exact h.readable k (Node.mem_preorder_trans hin (Node.mem_preorder_child hpart))

open PrefixingM FileSetting

namespace Prefixing

variable {c : Conduct} {w again : FileSetting} {es : List Edit} {n m : Node}

/-- The declaration of a namespace as a second run reads it, after the first one made some edits. A
declaration without a name has been given that of the prefix. -/
inductive DeclaredAfter (w again : FileSetting) (es : List Edit) (n m : Node) : Prop where
  /-- The namespace was named. -/
  | named {nameNode nameAgain : Node} (hname : n.child? "name" = some nameNode)
    (hagain : m.child? "name" = some nameAgain) (hleft : w.LeavesAt again es nameNode nameAgain)
  /-- The namespace was not named. -/
  | unnamed {nameAgain : Node} (hname : n.child? "name" = none)
    (hagain : m.child? "name" = some nameAgain)
    (hleft : again.source.text? nameAgain = some w.relocation.root)

/-- A namespace that does not move is left alone. -/
theorem isIdle_enterDeclaration {nameNode : Node} {text : Text}
    (hname : n.child? "name" = some nameNode) (htext : w.source.text? nameNode = some text)
    (hstays : w.relocation.moves .nameSpace (Name.bare text) = false) :
    IsIdle (enterDeclaration w n) := by
  have hread : w.textOf nameNode = pure text := by
    rw [textOf, htext]
  have henter : ∀ space moved, IsIdle (enterNamespace space moved) :=
    fun _ _ => IsIdle.of_modify fun _ => rfl
  unfold enterDeclaration
  simp only [hname, hread, pure_bind]
  split
  · exact henter _ _
  split
  · exact (IsIdle.note _ _ _).bind fun _ => henter _ _
  · next hmoved hkeeps =>
    simp only [Classification.keeps, decide_eq_true_eq, Decidable.not_not] at hkeeps
    simp [Relocation.moves, Classifier.renames, hmoved, hkeeps] at hstays

/-- A namespace with the name of the prefix is left alone. -/
theorem isIdle_enterDeclaration_root (hroot : Name.IsRoot w.relocation.root) {nameNode : Node}
    (hname : n.child? "name" = some nameNode)
    (htext : w.source.text? nameNode = some w.relocation.root) : IsIdle (enterDeclaration w n) := by
  refine isIdle_enterDeclaration hname htext ?_
  have hempty : w.relocation.relocate [] = w.relocation.root := by
    rw [Relocation.relocate, Name.relocate_eq_beside hroot]
    exact Name.beside_nil _
  rw [Name.bare_of_isTrimmed hroot.isTrimmed, ← hempty]
  exact Relocation.moves_of_hasMoved (Relocation.hasMoved_relocate hroot _) _

/-- A file that has a namespace is given no other one. -/
theorem isIdle_wrapGlobal {tree : Node} (hn : n ∈ tree.namedChildren) (htype : n.type = namespaceType) :
    IsIdle (wrapGlobal w tree) := by
  have hany : tree.namedChildren.any (fun n => n.type = namespaceType) = true :=
    List.any_eq_true.mpr ⟨n, hn, decide_eq_true htype⟩
  unfold wrapGlobal
  rw [if_pos hany]
  exact IsIdle.pure ()

/-- The second run leaves the declaration of a namespace alone. -/
theorem isIdle_enterDeclaration_again (hroot : Name.IsRoot w.relocation.root)
    (hagain : again.relocation = w.relocation) {s s' : FileState}
    (hrun : ((enterDeclaration w n).run s).outcome = .ok ((), s')) (hes : s'.edits = s.edits ++ es)
    (h : DeclaredAfter w again es n m) : IsIdle (enterDeclaration again m) := by
  have hfirst := (queues_enterDeclaration_eq Conduct.isOpen_any n).of_run hrun hes
  cases h with
  | named hname hnameAgain hleft =>
    obtain ⟨text, htext, htextAgain⟩ := hleft
    refine isIdle_enterDeclaration hnameAgain htextAgain ?_
    rw [hagain]
    obtain ⟨_, _, hnone, -⟩ | ⟨nameNode, read, hsome, hread, rfl⟩ := hfirst
    · rw [hname] at hnone
      cases hnone
    · obtain rfl := Option.some_inj.mp (hname.symm.trans hsome)
      obtain rfl := Option.some_inj.mp (htext.symm.trans hread)
      unfold spaceEdits
      split
      · rw [Edit.textLeft_replacing, Relocation.bare_relocate]
        exact Relocation.moves_of_hasMoved (Relocation.hasMoved_relocate hroot _) _
      · next hstays => exact Bool.eq_false_iff.mpr hstays
  | unnamed hname hnameAgain hleft =>
    rw [← hagain] at hroot hleft
    exact isIdle_enterDeclaration_root hroot hnameAgain hleft

/-- A clause as a second run reads it: it has the same word for a kind, and its name is spelled as the
edits of the first run leave it. -/
structure ClauseAfter (w again : FileSetting) (es : List Edit) (clause after : Node) : Prop where
  /-- The clause has the same word for a kind. -/
  word : Import.kindWord? after = Import.kindWord? clause
  /-- Its name is spelled as it was left. -/
  target : ∃ n m, Import.target? clause.children = some n ∧ Import.target? after.children = some m
    ∧ w.LeavesAt again es n m

/-- An import statement as a second run reads it, after the first one made some edits. It imports
something: all members of an empty group move, so its common part would be moved once more. -/
inductive ImportedAfter (w again : FileSetting) (es : List Edit) (n m : Node) : Prop where
  /-- A plain statement, with the same clauses as before. -/
  | plain (hword : Import.kindWord? m = Import.kindWord? n)
    (hplain : n.namedChildren.find? (fun c => c.type = groupType) = none)
    (hagain : m.namedChildren.find? (fun c => c.type = groupType) = none)
    (hne : plainClauses m ≠ [])
    (hclauses : List.Forall₂ (ClauseAfter w again es) (plainClauses n) (plainClauses m))
  /-- A group that was not split, with the same clauses as before. -/
  | group {group groupAgain base baseAgain : Node} (hword : Import.kindWord? m = Import.kindWord? n)
    (hgroup : n.namedChildren.find? (fun c => c.type = groupType) = some group)
    (hagain : m.namedChildren.find? (fun c => c.type = groupType) = some groupAgain)
    (hbase : groupBase? n = some base) (hbaseAgain : groupBase? m = some baseAgain)
    (hleft : w.LeavesAt again es base baseAgain) (hwhole : ∀ e ∈ es, e.span ≠ n.span)
    (hne : groupClauses groupAgain ≠ [])
    (hclauses : List.Forall₂ (ClauseAfter w again es) (groupClauses group) (groupClauses groupAgain))
  /-- One of the statements that a group was split into. -/
  | split {base : Node} {text : Text} {is : List Import} {i : Import}
    (hread : w.ReadsGroup n base text is)
    (hsplit : Edit.replacing n (w.relocation.splitGroup is) ∈ es) (hi : i ∈ is)
    (hagain : m.namedChildren.find? (fun c => c.type = groupType) = none)
    (hne : plainClauses m ≠ [])
    (hclauses : ∀ clause ∈ plainClauses m,
      (Import.kindWord? clause).getD (Import.kindOf m) = i.kind
        ∧ ∃ k, Import.target? clause.children = some k
          ∧ again.source.text? k = some (w.relocation.importName i))

/-- A list that is related to one with members has members. -/
theorem ne_nil_of_forall₂ {α β : Type} {R : α → β → Prop} {as : List α} {bs : List β}
    (h : List.Forall₂ R as bs) (hne : as ≠ []) : bs ≠ [] := by
  rintro rfl
  exact hne (List.forall₂_nil_right_iff.mp h)

/-- Imports that do not move are only made known. -/
theorem isIdle_adoptAll {is : List Import} (h : ∀ i ∈ is, w.relocation.movesImport i = false) :
    IsIdle (adoptAll w is) := by
  induction is with
  | nil => exact IsIdle.pure _
  | cons i is ih =>
    obtain ⟨hi, his⟩ := List.forall_mem_cons.mp h
    have hadopt : IsIdle (adopt w i) := by
      simp only [adopt, hi]
      exact IsIdle.of_modify fun _ => rfl
    exact hadopt.bind fun _ => ih his

/-- Where no import moves, moving them is adopting them. -/
theorem moveAll_of_stays {is : List Import} (h : ∀ i ∈ is, w.relocation.movesImport i = false) :
    moveAll w is = adoptAll w is := by
  induction is with
  | nil => rfl
  | cons i is ih =>
    obtain ⟨hi, his⟩ := List.forall_mem_cons.mp h
    simp only [moveAll, adoptAll, hi, ih his]
    rfl

/-- A plain statement is left alone if it has imports and none of them moves. -/
theorem isIdle_enterPlain {kind : SymbolKind} (hne : plainClauses n ≠ [])
    (hclauses : ∀ clause ∈ plainClauses n, w.ReadsClause clause)
    (h : ∀ is, List.Forall₂ (Import.IsFrom w kind []) (plainClauses n) is →
      ∀ i ∈ is, w.relocation.movesImport i = false) : IsIdle (enterPlain w n kind) := by
  obtain ⟨is, hread, his⟩ := exists_readClauses (fun clause hc => (hclauses clause hc).readsClauseNames) kind
  have hstays := h is (his.imp fun _ _ hi => hi.toIsFrom)
  obtain ⟨i, rest, rfl⟩ := List.exists_cons_of_ne_nil (ne_nil_of_forall₂ his hne)
  have henter : enterPlain w n kind = moveAll w (i :: rest) := by
    rw [plainClauses] at hread
    simp only [enterPlain, hread, pure_bind]
  rw [henter, moveAll_of_stays hstays]
  exact isIdle_adoptAll hstays

/-- A group is left alone if it has imports and none of them moves. -/
theorem isIdle_enterGroup {group base : Node} {kind : SymbolKind} {text : Text}
    (hbase : groupBase? n = some base) (htext : w.source.text? base = some text)
    (hne : groupClauses group ≠ [])
    (hclauses : ∀ clause ∈ groupClauses group, w.ReadsClause clause)
    (h : ∀ is, List.Forall₂ (Import.IsFrom w kind (Name.bare text)) (groupClauses group) is →
      ∀ i ∈ is, w.relocation.movesImport i = false) : IsIdle (enterGroup w n group kind) := by
  obtain ⟨is, hread, his⟩ := exists_readGroup (fun clause hc => (hclauses clause hc).readsClauseNames) kind
    (Name.bare text)
  have hstays := h is (his.imp fun _ _ hi => hi.toIsFrom)
  have hany : is.any w.relocation.movesImport = false := by
    simpa using hstays
  have hall : is.all w.relocation.movesImport = false := by
    obtain ⟨i, rest, rfl⟩ := List.exists_cons_of_ne_nil (ne_nil_of_forall₂ his hne)
    simp [hstays i List.mem_cons_self]
  have henter : enterGroup w n group kind = adoptAll w is := by
    rw [groupClauses] at hread
    simp only [enterGroup, hbase, textOf, htext, pure_bind, hread, groupEdit?, hany, hall]
    rfl
  rw [henter]
  exact isIdle_adoptAll hstays

/-- An import of the second run comes from a clause of the first one, with the name that was left. -/
theorem exists_clause_of_again {kind : SymbolKind} {base : Text} {clauses after : List Node}
    {js : List Import} (hclauses : List.Forall₂ (ClauseAfter w again es) clauses after)
    (hjs : List.Forall₂ (Import.IsFrom again kind base) after js) :
    ∀ j ∈ js, ∃ clause ∈ clauses, ∃ n text, Import.target? clause.children = some n
      ∧ w.source.text? n = some text ∧ j.kind = (Import.kindWord? clause).getD kind
      ∧ j.name = Name.join [base, Name.bare (Edit.textLeft es n text)] := by
  intro j hj
  obtain ⟨last, hlast, hfrom⟩ := Import.exists_isFrom hjs j hj
  obtain ⟨clause, hclause, hafter⟩ := exists_mem_of_forall₂ hclauses last hlast
  obtain ⟨n, m, htarget, htargetAgain, text, htext, hleft⟩ := hafter.target
  obtain rfl := Option.some_inj.mp (htargetAgain.symm.trans hfrom.target)
  obtain ⟨read, hread, hname, -⟩ := hfrom.spelled
  obtain rfl := Option.some_inj.mp (hleft.symm.trans hread)
  exact ⟨clause, hclause, n, text, htarget, htext, hafter.word ▸ hfrom.kind, hname⟩

/-- Each clause of the first run has a name. -/
theorem not_lacksName_of_again {clauses after : List Node}
    (hclauses : List.Forall₂ (ClauseAfter w again es) clauses after) :
    ¬Import.LacksName clauses := by
  rintro ⟨clause, hclause, hnone⟩
  obtain ⟨_, -, hafter⟩ := exists_partner_of_forall₂ hclauses clause hclause
  obtain ⟨n, _, htarget, -⟩ := hafter.target
  rw [hnone] at htarget
  cases htarget

/-- An import that is read from a clause as another one was before moves as the other one did. -/
theorem exists_movesImport_eq {kind : SymbolKind} {base : Text} {clauses : List Node}
    {is : List Import} (his : List.Forall₂ (Import.IsFrom w kind base) clauses is) {clause k : Node}
    {text : Text} (hclause : clause ∈ clauses) (htarget : Import.target? clause.children = some k)
    (htext : w.source.text? k = some text) {j : Import}
    (hkind : j.kind = (Import.kindWord? clause).getD kind)
    (hname : j.name = Name.join [base, Name.bare text]) :
    ∃ i ∈ is, i.node = k ∧ w.relocation.movesImport j = w.relocation.movesImport i := by
  obtain ⟨i, hi, hfrom⟩ := exists_partner_of_forall₂ his clause hclause
  obtain ⟨read, hread, hiname, -⟩ := hfrom.spelled
  obtain rfl := Option.some_inj.mp (htarget.symm.trans hfrom.target)
  obtain rfl := Option.some_inj.mp (htext.symm.trans hread)
  refine ⟨i, hi, rfl, ?_⟩
  rw [Relocation.movesImport, Relocation.movesImport, hkind, hname, hiname, hfrom.kind]

/-- No import of a plain statement moves again. -/
theorem stays_of_plain (hroot : Name.IsRoot w.relocation.root) {kind : SymbolKind}
    (hfirst : (es = [] ∧ (plainClauses n = [] ∨ Import.LacksName (plainClauses n)))
      ∨ ∃ is, List.Forall₂ (Import.IsFrom w kind []) (plainClauses n) is
        ∧ es = moveEdits w.relocation is)
    (hclauses : List.Forall₂ (ClauseAfter w again es) (plainClauses n) (plainClauses m))
    {js : List Import} (hjs : List.Forall₂ (Import.IsFrom again kind []) (plainClauses m) js) :
    ∀ j ∈ js, w.relocation.movesImport j = false := by
  intro j hj
  obtain ⟨clause, hclause, k, text, htarget, htext, hkind, hname⟩ :=
    exists_clause_of_again hclauses hjs j hj
  obtain ⟨-, hnone⟩ | ⟨is, his, rfl⟩ := hfirst
  · obtain hnil | hlacks := hnone
    · rw [hnil] at hclause
      cases hclause
    · exact absurd hlacks (not_lacksName_of_again hclauses)
  · obtain hleft | ⟨e, he, hleft⟩ := Edit.textLeft_cases (moveEdits w.relocation is) k text
    · rw [hleft.1] at hname
      obtain ⟨i, hi, rfl, hsame⟩ := exists_movesImport_eq his hclause htarget htext hkind hname
      rw [hsame, Bool.eq_false_iff]
      intro hmoves
      have hmem := List.mem_map_of_mem (f := fun i : Import => Edit.replacing i.node
        ((if i.leading then [Name.separator] else []) ++ w.relocation.relocate i.name))
        (List.mem_filter.mpr ⟨hi, hmoves⟩)
      exact hleft.2 _ hmem rfl
    · obtain ⟨i, -, rfl⟩ := List.mem_map.mp he
      have hjname : j.name = w.relocation.relocate i.name := by
        rw [hname, hleft]
        exact Relocation.join_written w.relocation i.leading i.name
      rw [Relocation.movesImport, hjname]
      exact Relocation.moves_of_hasMoved (Relocation.hasMoved_relocate hroot _) _

/-- No import of a group that was not split moves again. -/
theorem stays_of_group (hroot : Name.IsRoot w.relocation.root) {group groupAgain base : Node}
    {kind : SymbolKind} {text : Text}
    (hfirst : (es = [] ∧ (groupBase? n = none ∨ Import.LacksName (groupClauses group)))
      ∨ ∃ base text is, groupBase? n = some base ∧ w.source.text? base = some text
        ∧ List.Forall₂ (Import.IsFrom w kind (Name.bare text)) (groupClauses group) is
        ∧ es = (groupEdit? w.relocation n base (Name.bare text) is).toList)
    (hbase : groupBase? n = some base) (htext : w.source.text? base = some text)
    (hwhole : ∀ e ∈ es, e.span ≠ n.span)
    (hclauses : List.Forall₂ (ClauseAfter w again es) (groupClauses group) (groupClauses groupAgain))
    {js : List Import}
    (hjs : List.Forall₂ (Import.IsFrom again kind (Name.bare (Edit.textLeft es base text)))
      (groupClauses groupAgain) js) :
    ∀ j ∈ js, w.relocation.movesImport j = false := by
  intro j hj
  obtain ⟨clause, hclause, k, spelled, htarget, hspelled, hkind, hname⟩ :=
    exists_clause_of_again hclauses hjs j hj
  obtain ⟨-, hnone⟩ | ⟨found, read, is, hfound, hread, his, rfl⟩ := hfirst
  · obtain hnil | hlacks := hnone
    · rw [hnil] at hbase
      cases hbase
    · exact absurd hlacks (not_lacksName_of_again hclauses)
  · obtain rfl := Option.some_inj.mp (hbase.symm.trans hfound)
    obtain rfl := Option.some_inj.mp (htext.symm.trans hread)
    unfold groupEdit? at hname hwhole
    split at hname
    · rw [Option.toList_some, Edit.textLeft_replacing, Relocation.bare_relocate,
        Relocation.relocate, Name.relocate_join hroot] at hname
      rw [Relocation.movesImport, hname]
      exact Relocation.moves_of_hasMoved (Relocation.hasMoved_relocate hroot _) _
    · next hall =>
      rw [if_neg hall] at hwhole
      split at hname
      · next hany =>
        rw [if_pos hany] at hwhole
        exact absurd rfl (hwhole _ (List.mem_singleton_self _))
      · next hany =>
        obtain ⟨i, hi, -, hsame⟩ := exists_movesImport_eq his hclause htarget hspelled hkind hname
        rw [hsame, Bool.eq_false_iff]
        exact fun hmoves => hany (List.any_eq_true.mpr ⟨i, hi, hmoves⟩)

/-- No import that a group was split into moves again. -/
theorem stays_of_split (hroot : Name.IsRoot w.relocation.root) {i : Import}
    (hi : Name.IsTrimmed i.name)
    (hclauses : ∀ clause ∈ plainClauses m, (Import.kindWord? clause).getD (Import.kindOf m) = i.kind
      ∧ ∃ k, Import.target? clause.children = some k
        ∧ again.source.text? k = some (w.relocation.importName i))
    {js : List Import}
    (hjs : List.Forall₂ (Import.IsFrom again (Import.kindOf m) []) (plainClauses m) js) :
    ∀ j ∈ js, w.relocation.movesImport j = false := by
  intro j hj
  obtain ⟨clause, hclause, hfrom⟩ := Import.exists_isFrom hjs j hj
  obtain ⟨hkind, k, htarget, htext⟩ := hclauses clause hclause
  obtain ⟨read, hread, hname, -⟩ := hfrom.spelled
  obtain rfl := Option.some_inj.mp (htarget.symm.trans hfrom.target)
  obtain rfl := Option.some_inj.mp (htext.symm.trans hread)
  have htrimmed : Name.IsTrimmed (w.relocation.importName i) := by
    unfold Relocation.importName
    split
    · exact Name.isTrimmed_relocate _ _
    · exact hi
  rw [Name.join_nil_left, Name.trimmed_bare, Name.trimmed_of_isTrimmed htrimmed] at hname
  rw [Relocation.movesImport, hname, hfrom.kind, hkind]
  exact Relocation.moves_nameAfter hroot i.kind i.name

/-- The second run leaves an import statement alone. -/
theorem isIdle_imports_again (hroot : Name.IsRoot w.relocation.root)
    (hagain : again.relocation = w.relocation) {site siteAgain : Site} {s s' : FileState} {d : Descent}
    (huse : site.node.type = Node.useType) (huseAgain : siteAgain.node.type = Node.useType)
    (hrun : (((imports w).enter site).run s).outcome = .ok (d, s')) (hes : s'.edits = s.edits ++ es)
    (hreadable : again.IsReadable siteAgain.node)
    (h : ImportedAfter w again es site.node siteAgain.node) :
    IsIdle ((imports again).enter siteAgain) := by
  have hend : ∀ {m : PrefixingM Unit}, IsIdle m → IsIdle (do m; pure Descent.skip) :=
    fun hm => hm.bind fun _ => IsIdle.pure _
  have hclause : ∀ {clauses after : List Node}, (∀ clause ∈ after, again.IsReadable clause) →
      List.Forall₂ (ClauseAfter w again es) clauses after →
        ∀ clause ∈ after, again.ReadsClause clause := by
    intro clauses after hread hclauses clause hclause
    obtain ⟨_, -, hafter⟩ := exists_mem_of_forall₂ hclauses clause hclause
    obtain ⟨_, m, -, htarget, -⟩ := hafter.target
    exact ⟨hread clause hclause, m, htarget⟩
  have hplainReads : ∀ clause ∈ plainClauses siteAgain.node, again.IsReadable clause :=
    fun clause hclause => hreadable.child
      (Node.mem_children_of_namedChildren (List.mem_filter.mp hclause).1)
  cases h with
  | plain hword hplain hplainAgain hne hclauses =>
    have hkind : Import.kindOf siteAgain.node = Import.kindOf site.node := by
      rw [Import.kindOf, hword]
      rfl
    rw [enter_imports_plain huse hplain] at hrun
    have hfirst := (queues_enterPlain_eq Conduct.isOpen_any site.node _).bind_pure.of_run hrun hes
    rw [enter_imports_plain huseAgain hplainAgain, hkind]
    refine hend (isIdle_enterPlain hne (hclause hplainReads hclauses) fun js hjs => ?_)
    rw [hagain]
    exact stays_of_plain hroot hfirst hclauses hjs
  | @group group groupAgain base baseAgain hword hgroup hgroupAgain hbase hbaseAgain hleft hwhole hne
      hclauses =>
    have hkind : Import.kindOf siteAgain.node = Import.kindOf site.node := by
      rw [Import.kindOf, hword]
      rfl
    have hreads : ∀ clause ∈ groupClauses groupAgain, again.IsReadable clause := by
      intro clause hclause
      have hmem := List.mem_of_find?_eq_some hgroupAgain
      exact (hreadable.child (Node.mem_children_of_namedChildren hmem)).child
        (Node.mem_children_of_namedChildren (List.mem_filter.mp hclause).1)
    rw [enter_imports_group huse hgroup] at hrun
    have hfirst :=
      (queues_enterGroup_eq Conduct.isOpen_any site.node _ _).bind_pure.of_run hrun hes
    obtain ⟨text, htext, htextAgain⟩ := hleft
    rw [enter_imports_group huseAgain hgroupAgain, hkind]
    refine hend (isIdle_enterGroup hbaseAgain htextAgain hne (hclause hreads hclauses)
      fun js hjs => ?_)
    rw [hagain]
    exact stays_of_group hroot hfirst hbase htext hwhole hclauses hjs
  | split hread _ hi hplainAgain hne hclauses =>
    obtain ⟨group, -, his⟩ := hread.clauses
    have hreads : ∀ clause ∈ plainClauses siteAgain.node, again.ReadsClause clause := by
      intro clause hclause
      obtain ⟨-, k, htarget, -⟩ := hclauses clause hclause
      exact ⟨hplainReads clause hclause, k, htarget⟩
    rw [enter_imports_plain huseAgain hplainAgain]
    refine hend (isIdle_enterPlain hne hreads fun js hjs => ?_)
    rw [hagain]
    exact stays_of_split hroot (Import.isTrimmed_of_isFrom his _ hi) hclauses hjs

end Prefixing

end PhpPrefixer
