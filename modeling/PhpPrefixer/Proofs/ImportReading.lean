import Mathlib.Data.List.Forall2
import PhpPrefixer.Prefixing.Imports
import PhpPrefixer.Proofs.Conduct
import PhpPrefixer.Proofs.NameAlgebra
import PhpPrefixer.Proofs.Trees

/-!
# Reading imports

The clauses of an import statement are read without changing anything. Each import that is read is
spelled by a part of its clause, and its name has no separators around it. Where the names in the clauses
can be read, one import is read from each, with the local name that the clause gives
(`Prefixing.exists_readClauses`, `Prefixing.exists_readGroup`).
-/

namespace PhpPrefixer

/-- The node that spells an imported name is one of the parts it is looked for among. -/
theorem Import.mem_of_target? {parts : List Node} {n : Node} (h : target? parts = some n) :
    n ∈ parts :=
  (List.takeWhile_prefix _).sublist.mem (List.mem_of_find?_eq_some h)

/-- The node that spells an imported name is a name. -/
theorem Import.isName_of_target? {parts : List Node} {n : Node} (h : target? parts = some n) :
    n.isName = true :=
  List.find?_some h

/-- An import that was read from a clause of a statement for some kind of symbol, below the common
part of the names of the statement. -/
structure Import.IsFrom (w : FileSetting) (kind : SymbolKind) (base : Text) (clause : Node)
    (i : Import) : Prop where
  /-- The import is spelled in the clause. -/
  target : Import.target? clause.children = some i.node
  /-- Its name is what is spelled there, below the common part. -/
  spelled : ∃ text, w.source.text? i.node = some text ∧ i.name = Name.join [base, Name.bare text]
    ∧ i.leading = decide (text.head? = some Name.separator)
  /-- Its kind is the one the clause has a word for, or that of the statement. -/
  kind : i.kind = (Import.kindWord? clause).getD kind

namespace Import.IsFrom

variable {w : FileSetting} {kind : SymbolKind} {base : Text} {clause : Node} {i : Import}

/-- The node of an import is a part of its clause. -/
theorem node (h : i.IsFrom w kind base clause) : i.node ∈ clause.children := mem_of_target? h.target

/-- The name of an import has no separators around it. -/
theorem name (h : i.IsFrom w kind base clause) : Name.IsTrimmed i.name := by
  obtain ⟨text, -, hname, -⟩ := h.spelled
  rw [hname]
  exact Name.isTrimmed_join _

end Import.IsFrom

/-- The local name that is given by the last of some nodes, if there is one and it is not empty. -/
def Import.givenText? (read : Node → Option Text) (nodes : List (Option Node)) : Option (Option Text) :=
  match nodes.getLast? with
  | some (some n) => (read n).map fun t => if t = [] then none else some t
  | _ => some none

/-- An import that was read from a clause, together with the local name that the clause gives. -/
structure Import.IsReadFrom (w : FileSetting) (kind : SymbolKind) (base : Text) (clause : Node) (i : Import) :
    Prop extends i.IsFrom w kind base clause where
  /-- The local name is the one that the clause gives. -/
  given : givenText? w.source.text? (givenNames false clause.children) = some i.given

/-- The local name that is given depends on the texts of the nodes only. -/
theorem Import.givenText?_congr {read read' : Node → Option Text} {nodes : List (Option Node)}
    (h : ∀ k, some k ∈ nodes → read' k = read k) : givenText? read' nodes = givenText? read nodes := by
  unfold givenText?
  split
  · next k hlast => rw [h k (List.mem_of_getLast? hlast)]
  · rfl

/-- A local name that is given is the text of one of the nodes. -/
theorem Import.exists_of_givenText? {read : Node → Option Text} {nodes : List (Option Node)}
    {g : Text} (h : givenText? read nodes = some (some g)) :
    g ≠ [] ∧ ∃ k, some k ∈ nodes ∧ read k = some g := by
  unfold givenText? at h
  split at h
  · next k hlast =>
    obtain ⟨t, ht, hgiven⟩ := Option.map_eq_some_iff.mp h
    split at hgiven
    · cases hgiven
    · next hne =>
      obtain rfl := Option.some_inj.mp hgiven
      exact ⟨hne, k, List.mem_of_getLast? hlast, ht⟩
  · cases h

/-- A node that gives a local name is a name. -/
theorem Import.isName_of_givenNames {afterAs : Bool} {parts : List Node} {k : Node}
    (h : some k ∈ givenNames afterAs parts) : k.isName = true := by
  fun_induction givenNames afterAs parts with
  | case1 => cases h
  | case2 _ _ _ _ ih => exact ih h
  | case3 afterAs part parts _ _ ih =>
    obtain hhere | hlater := List.mem_cons.mp h
    · have hfound := List.find?_some hhere.symm
      rw [Node.isName, of_decide_eq_true hfound]
      decide
    · exact ih hlater
  | case4 afterAs part parts _ _ hpart ih =>
    obtain hhere | hlater := List.mem_cons.mp h
    · cases hhere
      exact (Bool.and_eq_true_iff.mp hpart).2
    · exact ih hlater
  | case5 _ _ _ _ _ _ ih => exact ih h

/-- A node that gives a local name is in one of the parts of the clause. -/
theorem Import.exists_part_of_givenNames {afterAs : Bool} {parts : List Node} {n : Node}
    (h : some n ∈ givenNames afterAs parts) : ∃ part ∈ parts, n ∈ part.preorder := by
  fun_induction givenNames afterAs parts with
  | case1 => cases h
  | case2 afterAs part parts _ ih =>
    obtain ⟨k, hk, hn⟩ := ih h
    exact ⟨k, List.mem_cons_of_mem part hk, hn⟩
  | case3 afterAs part parts _ _ ih =>
    obtain hhere | hlater := List.mem_cons.mp h
    · have hnamed := List.mem_of_find?_eq_some hhere.symm
      exact ⟨part, List.mem_cons_self,
        Node.mem_preorder_child (Node.mem_children_of_namedChildren hnamed)⟩
    · obtain ⟨k, hk, hn⟩ := ih hlater
      exact ⟨k, List.mem_cons_of_mem part hk, hn⟩
  | case4 afterAs part parts _ _ _ ih =>
    obtain hhere | hlater := List.mem_cons.mp h
    · cases hhere
      exact ⟨n, List.mem_cons_self, Node.mem_preorder_self n⟩
    · obtain ⟨k, hk, hn⟩ := ih hlater
      exact ⟨k, List.mem_cons_of_mem part hk, hn⟩
  | case5 afterAs part parts _ _ _ ih =>
    obtain ⟨k, hk, hn⟩ := ih h
    exact ⟨k, List.mem_cons_of_mem part hk, hn⟩

/-- The names in a clause can be read: the imported one, which there is, and every local name that is
given. -/
structure FileSetting.ReadsClauseNames (w : FileSetting) (clause : Node) : Prop where
  /-- The imported name can be read. -/
  target : ∃ n text, Import.target? clause.children = some n ∧ w.source.text? n = some text
  /-- Every local name can be read. -/
  given : ∀ n, some n ∈ Import.givenNames false clause.children → ∃ t, w.source.text? n = some t

/-- Of two lists that are related one by one, each member of the second has a partner in the first. -/
theorem exists_mem_of_forall₂ {α β : Type} {R : α → β → Prop} {as : List α} {bs : List β}
    (h : List.Forall₂ R as bs) : ∀ b ∈ bs, ∃ a ∈ as, R a b := by
  induction h with
  | nil => exact List.forall_mem_nil _
  | @cons a b as bs hab _ ih =>
    refine List.forall_mem_cons.mpr ⟨⟨a, List.mem_cons_self, hab⟩, fun d hd => ?_⟩
    obtain ⟨e, he, hed⟩ := ih d hd
    exact ⟨e, List.mem_cons_of_mem a he, hed⟩

/-- Each member of the first list has a partner in the second. -/
theorem exists_partner_of_forall₂ {α β : Type} {R : α → β → Prop} {as : List α} {bs : List β}
    (h : List.Forall₂ R as bs) : ∀ a ∈ as, ∃ b ∈ bs, R a b :=
  exists_mem_of_forall₂ (List.Forall₂.flip (R := flip R) h)

/-- Each of the imports comes from a clause. -/
theorem Import.exists_isFrom {w : FileSetting} {kind : SymbolKind} {base : Text}
    {clauses : List Node} {is : List Import} (h : List.Forall₂ (IsFrom w kind base) clauses is) :
    ∀ i ∈ is, ∃ clause ∈ clauses, IsFrom w kind base clause i :=
  exists_mem_of_forall₂ h

/-- The names of imports have no separators around them. -/
theorem Import.isTrimmed_of_isFrom {w : FileSetting} {kind : SymbolKind} {base : Text}
    {clauses : List Node} {is : List Import} (h : List.Forall₂ (IsFrom w kind base) clauses is) :
    ∀ i ∈ is, Name.IsTrimmed i.name := by
  intro i hi
  obtain ⟨clause, -, hfrom⟩ := exists_isFrom h i hi
  exact hfrom.name

/-- The kind of the symbols that an import statement is for. -/
def Import.kindOf (n : Node) : SymbolKind := (Import.kindWord? n).getD .classLike

/-- The imports that are read from the group of an import statement: one from each clause, below the
common part of their names. -/
structure FileSetting.ReadsGroup (w : FileSetting) (n base : Node) (text : Text)
    (is : List Import) : Prop where
  /-- The common part has a node of its own. -/
  found : Prefixing.groupBase? n = some base
  /-- This is how it is spelled. -/
  spelled : w.source.text? base = some text
  /-- There is one import for each clause of the group. -/
  clauses : ∃ group, n.namedChildren.find? (fun c => c.type = Prefixing.groupType) = some group
    ∧ List.Forall₂ (Import.IsFrom w (Import.kindOf n) (Name.bare text))
      (group.namedChildren.filter fun c =>
        c.type = "namespace_use_clause" || c.type = "namespace_use_group_clause") is

/-- One of the clauses has no name. -/
def Import.LacksName (clauses : List Node) : Prop :=
  ∃ clause ∈ clauses, Import.target? clause.children = none

namespace Prefixing

open PrefixingM FileSetting

/-- The common part of a group of imports is a child of the statement. -/
theorem mem_of_groupBase? {n base : Node} (h : groupBase? n = some base) : base ∈ n.children :=
  Node.mem_children_of_namedChildren
    ((List.takeWhile_prefix _).sublist.mem (List.mem_filter.mp (List.mem_of_getLast? h)).1)

/-- The common part of a group of imports is a name. -/
theorem isName_of_groupBase? {n base : Node} (h : groupBase? n = some base) : base.isName = true :=
  (List.mem_filter.mp (List.mem_of_getLast? h)).2

variable {c : Conduct} {w : FileSetting} {P : FileState → Prop}

/-- Reading the local name that is given reads the last of the nodes. -/
theorem exists_readGiven {nodes : List (Option Node)}
    (h : ∀ k, some k ∈ nodes → ∃ t, w.source.text? k = some t) :
    ∃ given, readGiven w nodes = pure given ∧ Import.givenText? w.source.text? nodes = some given := by
  have hlast : ∀ (first : Option Node) {rest : List (Option Node)}, rest ≠ [] →
      Import.givenText? w.source.text? (first :: rest) = Import.givenText? w.source.text? rest := by
    intro first rest hne
    rw [Import.givenText?, List.getLast?_cons_of_ne_nil hne]
    rfl
  fun_induction readGiven w nodes with
  | case1 => exact ⟨none, rfl, rfl⟩
  | case2 => exact ⟨none, rfl, rfl⟩
  | case3 k =>
    obtain ⟨t, ht⟩ := h k List.mem_cons_self
    exact ⟨if t = [] then none else some t, by simp [textOf, ht], by simp [Import.givenText?, ht]⟩
  | case4 rest hrest ih =>
    obtain ⟨given, hread, hgiven⟩ := ih fun k hk => h k (List.mem_cons_of_mem _ hk)
    exact ⟨given, hread, (hlast none hrest).trans hgiven⟩
  | case5 k rest hrest ih =>
    obtain ⟨t, ht⟩ := h k List.mem_cons_self
    obtain ⟨given, hread, hgiven⟩ := ih fun k hk => h k (List.mem_cons_of_mem _ hk)
    exact ⟨given, by simp [textOf, ht, hread], (hlast (some k) hrest).trans hgiven⟩

/-- An import is read from a clause whose names can be read. -/
theorem exists_readClause {clause : Node} (h : w.ReadsClauseNames clause) (kind : SymbolKind)
    (base : Text) :
    ∃ i, readClause w kind base clause = pure (some i) ∧ i.IsReadFrom w kind base clause := by
  obtain ⟨given, hread, hgiven⟩ := exists_readGiven h.given
  obtain ⟨n, text, hn, htext⟩ := h.target
  refine ⟨⟨n, Name.join [base, Name.bare text], (Import.kindWord? clause).getD kind, given,
    text.head? = some Name.separator⟩, ?_, ⟨hn, ⟨text, htext, rfl, rfl⟩, rfl⟩, hgiven⟩
  simp [readClause, hread, hn, textOf, htext]

/-- One import is read from each clause of a statement, if the names in all of them can be read. -/
theorem exists_readClauses {clauses : List Node} (h : ∀ clause ∈ clauses, w.ReadsClauseNames clause)
    (kind : SymbolKind) :
    ∃ is, readClauses w kind clauses = pure (some is)
      ∧ List.Forall₂ (Import.IsReadFrom w kind []) clauses is := by
  induction clauses with
  | nil => exact ⟨[], rfl, List.Forall₂.nil⟩
  | cons clause rest ih =>
    obtain ⟨hclause, hrest⟩ := List.forall_mem_cons.mp h
    obtain ⟨i, hread, hi⟩ := exists_readClause hclause kind []
    obtain ⟨is, hreads, his⟩ := ih hrest
    exact ⟨i :: is, by simp [readClauses, hread, hreads], List.Forall₂.cons hi his⟩

/-- One import is read from each clause of a group, if the names in all of them can be read. -/
theorem exists_readGroup {clauses : List Node} (h : ∀ clause ∈ clauses, w.ReadsClauseNames clause)
    (kind : SymbolKind) (base : Text) :
    ∃ is, readGroup w kind base clauses = pure (.ok is)
      ∧ List.Forall₂ (Import.IsReadFrom w kind base) clauses is := by
  induction clauses with
  | nil => exact ⟨[], rfl, List.Forall₂.nil⟩
  | cons clause rest ih =>
    obtain ⟨hclause, hrest⟩ := List.forall_mem_cons.mp h
    obtain ⟨i, hread, hi⟩ := exists_readClause hclause kind base
    obtain ⟨is, hreads, his⟩ := ih hrest
    exact ⟨i :: is, by simp [readGroup, hread, hreads], List.Forall₂.cons hi his⟩

/-- The clauses of an import statement without a group. -/
def plainClauses (n : Node) : List Node :=
  n.namedChildren.filter fun c => c.type = "namespace_use_clause"

/-- The clauses of a group of imports. -/
def groupClauses (group : Node) : List Node :=
  group.namedChildren.filter fun c =>
    c.type = "namespace_use_clause" || c.type = "namespace_use_group_clause"

/-- Reading local names changes nothing. -/
theorem spec_readGiven (hc : c.IsLenient) (nodes : List (Option Node)) :
    Preserves c P (readGiven w nodes) := by
  fun_induction readGiven w nodes with
  | case1 => exact Preserves.pure _
  | case2 => exact Preserves.pure _
  | case3 n => exact spec_textOf_bind hc fun _ _ => Preserves.pure _
  | case4 rest hrest ih => exact ih
  | case5 n rest hrest ih => exact spec_textOf_bind hc fun _ _ => ih

/-- An import is read from a clause, unless the clause has no name. -/
theorem spec_readClause (hc : c.IsLenient) (kind : SymbolKind) (base : Text) (clause : Node) :
    Spec c P (readClause w kind base clause) fun read s =>
      P s ∧ (∀ i ∈ read, i.IsFrom w kind base clause)
        ∧ (read = none → Import.target? clause.children = none) := by
  refine (spec_readGiven hc _).bind fun given => ?_
  split
  · next htarget => exact Spec.pure fun s hs => ⟨hs, by simp, fun _ => htarget⟩
  · next node htarget =>
    refine spec_textOf_bind hc fun text htext => Spec.pure fun s hs => ⟨hs, ?_, nofun⟩
    intro i hi
    cases hi
    exact ⟨htarget, ⟨text, htext, rfl, rfl⟩, rfl⟩

/-- One import is read from each clause, unless a clause has no name. -/
theorem spec_readClauses_cases (hc : c.IsLenient) (kind : SymbolKind) (clauses : List Node) :
    Spec c P (readClauses w kind clauses) fun read s =>
      P s ∧ (∀ is ∈ read, List.Forall₂ (Import.IsFrom w kind []) clauses is)
        ∧ (read = none → Import.LacksName clauses) := by
  induction clauses with
  | nil =>
    refine Spec.pure fun s hs => ⟨hs, ?_, nofun⟩
    intro is his
    cases his
    exact List.Forall₂.nil
  | cons clause rest ih =>
    refine (spec_readClause hc kind [] clause).bind fun first => Spec.of_fact fun hfirst => ?_
    refine ih.bind fun others => Spec.of_fact fun hothers => ?_
    refine Spec.pure fun s hs => ⟨hs, ?_⟩
    cases first with
    | none => exact ⟨nofun, fun _ => ⟨clause, List.mem_cons_self, hfirst.2 rfl⟩⟩
    | some i =>
      cases others with
      | none =>
        obtain ⟨lacking, hlacking, hnone⟩ := hothers.2 rfl
        exact ⟨nofun, fun _ => ⟨lacking, List.mem_cons_of_mem clause hlacking, hnone⟩⟩
      | some js =>
        refine ⟨fun is his => ?_, nofun⟩
        cases his
        exact List.Forall₂.cons (hfirst.1 i rfl) (hothers.1 js rfl)

/-- One import is read from each clause of a statement. -/
theorem spec_readClauses (hc : c.IsLenient) (kind : SymbolKind) (clauses : List Node) :
    Spec c P (readClauses w kind clauses) fun read s =>
      P s ∧ ∀ is ∈ read, List.Forall₂ (Import.IsFrom w kind []) clauses is :=
  (spec_readClauses_cases hc kind clauses).mono (fun _ hs => hs) fun _ _ h => ⟨h.1, h.2.1⟩

/-- One import is read from each clause of a group, unless a clause has no name. -/
theorem spec_readGroup_cases (hc : c.IsLenient) (kind : SymbolKind) (base : Text)
    (clauses : List Node) :
    Spec c P (readGroup w kind base clauses) fun read s =>
      P s ∧ (∀ is, read = .ok is → List.Forall₂ (Import.IsFrom w kind base) clauses is)
        ∧ (∀ n, read = .error n → Import.LacksName clauses) := by
  induction clauses with
  | nil =>
    refine Spec.pure fun s hs => ⟨hs, ?_, nofun⟩
    intro is his
    cases his
    exact List.Forall₂.nil
  | cons clause rest ih =>
    refine (spec_readClause hc kind base clause).bind fun first => Spec.of_fact fun hfirst => ?_
    cases first with
    | none =>
      exact Spec.pure fun s hs => ⟨hs, nofun, fun _ _ => ⟨clause, List.mem_cons_self, hfirst.2 rfl⟩⟩
    | some i =>
      refine ih.bind fun others => Spec.of_fact fun hothers => ?_
      cases others with
      | error n =>
        obtain ⟨lacking, hlacking, hnone⟩ := hothers.2 n rfl
        exact Spec.pure fun s hs =>
          ⟨hs, nofun, fun _ _ => ⟨lacking, List.mem_cons_of_mem clause hlacking, hnone⟩⟩
      | ok js =>
        refine Spec.pure fun s hs => ⟨hs, fun is his => ?_, nofun⟩
        cases his
        exact List.Forall₂.cons (hfirst.1 i rfl) (hothers.1 js rfl)

/-- One import is read from each clause of a group. -/
theorem spec_readGroup (hc : c.IsLenient) (kind : SymbolKind) (base : Text) (clauses : List Node) :
    Spec c P (readGroup w kind base clauses) fun read s =>
      P s ∧ ∀ is, read = .ok is → List.Forall₂ (Import.IsFrom w kind base) clauses is :=
  (spec_readGroup_cases hc kind base clauses).mono (fun _ hs => hs) fun _ _ h => ⟨h.1, h.2.1⟩

end Prefixing

end PhpPrefixer
