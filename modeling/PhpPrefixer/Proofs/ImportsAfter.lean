import PhpPrefixer.Proofs.ImportLists
import PhpPrefixer.Proofs.PrefixWords
import PhpPrefixer.Proofs.Queueing
import PhpPrefixer.Proofs.References
import PhpPrefixer.Proofs.Remainder
import PhpPrefixer.Proofs.Renames

/-!
# Import statements after edits

After some edits a statement is read as they leave it (`FileSetting.importsAfter?`): from the new text if
all of it was replaced, and else from its tree, with the new texts at the nodes that were replaced.

What is done about an import statement shows in what is read afterwards: each symbol that moves is
imported under its new name, and nothing else is changed. This is so for a group, be it left alone, moved
as a whole or split (`FileSetting.ReadsGroupUse.importsAfter?_groupEdit`), and for a statement that imports
one symbol (`FileSetting.ReadsPlainUse.importsAfter?_moveEdits`).
-/

namespace PhpPrefixer

open Prefixing Imported

/-- A span that covers something is not the one it is apart from. -/
theorem Span.Apart.ne {a b : Span} (h : a.Apart b) (ha : a.start < a.stop) : a ≠ b := by
  rintro rfl
  unfold Apart at h
  omega

/-- Every node of a regular tree lies within its root. -/
theorem Node.IsRegularTree.within {n k : Node} (h : n.IsRegularTree) (hk : k ∈ n.preorder) :
    k.span.Within n.span := by
  induction n using Node.induction with
  | step n ih =>
    rcases Node.mem_preorder_iff.mp hk with rfl | ⟨c, hc, hkc⟩
    · exact Span.Within.refl _
    · exact (ih c hc (h.child hc) hkc).trans (h.self.inside c hc)

/-- A text that is not empty takes some bytes. -/
theorem Source.start_lt_stop {s : Source} {n : Node} {t : Text} (h : s.text? n = some t)
    (hne : t ≠ []) : n.span.start < n.span.stop := by
  by_contra hnot
  have hbytes : s.bytesOf n = [] := by
    have hlength := List.length_take_le n.span.stop s.bytes
    exact List.drop_eq_nil_iff.mpr (by omega)
  rw [text?, hbytes] at h
  exact hne (Option.some_inj.mp h).symm

/-- A well-formed name is not empty. -/
theorem Name.WellFormed.ne_nil {name : Text} (h : WellFormed name) : name ≠ [] := by
  rintro rfl
  exact h.bare_ne_nil rfl

namespace FileSetting

/-- The text of a node as some edits leave it. -/
def textAfter? (w : FileSetting) (es : List Edit) (n : Node) : Option Text :=
  (w.source.text? n).map (Edit.textLeft es n)

/-- The imports that a statement makes. -/
def importsOf? (w : FileSetting) (n : Node) : Option (List Imported) := ofUse? w.source.text? n

/-- The imports that a statement makes after some edits. -/
def importsAfter? (w : FileSetting) (es : List Edit) (n : Node) : Option (List Imported) :=
  match es.find? fun e => e.span = n.span with
  | some e => ofText? e.text
  | none => ofUse? (w.textAfter? es) n

/-- A statement is written as an import statement is: after a word of the language there are names, and
none of them has an empty segment or a gap in it. -/
structure IsUse (w : FileSetting) (n : Node) : Prop where
  /-- It is an import statement. -/
  type : n.type = Node.useType
  /-- It is laid out as a parser promises. -/
  regular : n.IsRegularTree
  /-- There is something in it besides the named parts. -/
  worded : ∃ word ∈ n.children, word.named = false ∧ word.span.start < word.span.stop
  /-- Its names can be read. -/
  spelled : ∀ k ∈ n.preorder, k.isName = true →
    ∃ t ∈ w.source.text? k, Name.WellFormed t ∧ IsUnbroken t

/-- A statement imports a group of symbols, each of which has a name. -/
structure IsGroupUse (w : FileSetting) (n group base : Node) : Prop extends w.IsUse n where
  /-- The group. -/
  hasGroup : n.namedChildren.find? (fun c => c.type = groupType) = some group
  /-- The common part of the names. -/
  hasBase : groupBase? n = some base
  /-- Something is imported. -/
  clauses : groupClauses group ≠ []
  /-- Each clause has a name. -/
  targets : ∀ clause ∈ groupClauses group, (Import.target? clause.children).isSome = true

/-- A statement imports symbols without a group. -/
structure IsPlainUse (w : FileSetting) (n : Node) : Prop extends w.IsUse n where
  /-- There is no group. -/
  plain : n.namedChildren.find? (fun c => c.type = groupType) = none

section Reading

variable {w : FileSetting} {es : List Edit} {n : Node}

/-- A node that no edit replaces keeps its text. -/
theorem textAfter?_of_ne (h : ∀ e ∈ es, e.span ≠ n.span) :
    w.textAfter? es n = w.source.text? n := by
  have hfind : es.find? (fun e => e.span = n.span) = none :=
    List.find?_eq_none.mpr fun e he => by simpa using h e he
  have hleft : ∀ t, Edit.textLeft es n t = t := by
    intro t
    rw [Edit.textLeft, hfind]
    rfl
  cases htext : w.source.text? n with
  | none => simp [textAfter?, htext]
  | some t => simp [textAfter?, htext, hleft]

/-- A node that is replaced has the text that is written. -/
theorem textAfter?_replacing {t written : Text} (h : w.source.text? n = some t) :
    w.textAfter? [.replacing n written] n = some written := by
  rw [textAfter?, h, Option.map_some, Edit.textLeft_replacing]

/-- Without edits, a statement imports what it did. -/
theorem importsAfter?_nil (w : FileSetting) (n : Node) : w.importsAfter? [] n = w.importsOf? n := by
  have hread : w.textAfter? [] = w.source.text? := by
    funext k
    exact textAfter?_of_ne (List.forall_mem_nil _)
  rw [importsAfter?, List.find?_nil, hread]
  rfl

/-- A statement of which a part was replaced is read from its tree. -/
theorem importsAfter?_part {m : Node} (h : m.span ≠ n.span) (written : Text) :
    w.importsAfter? [.replacing m written] n = ofUse? (w.textAfter? [.replacing m written]) n := by
  have hfind : [Edit.replacing m written].find? (fun e => e.span = n.span) = none :=
    List.find?_cons_of_neg (mt of_decide_eq_true h)
  rw [importsAfter?, hfind]

/-- A statement that was replaced is read from the new text. -/
theorem importsAfter?_whole (w : FileSetting) (n : Node) (written : Text) :
    w.importsAfter? [.replacing n written] n = ofText? written := by
  have hfind : [Edit.replacing n written].find? (fun e => e.span = n.span)
      = some (.replacing n written) :=
    List.find?_cons_of_pos (decide_eq_true rfl)
  rw [importsAfter?, hfind]
  rfl

end Reading

namespace IsUse

variable {w : FileSetting} {n : Node}

/-- A name takes some bytes. -/
theorem start_lt_stop (h : w.IsUse n) {k : Node} (hk : k ∈ n.preorder) (hname : k.isName = true) :
    k.span.start < k.span.stop := by
  obtain ⟨t, ht, hwell, -⟩ := h.spelled k hk hname
  exact Source.start_lt_stop ht hwell.ne_nil

/-- What is in a named part is not the whole statement. -/
theorem span_ne (h : w.IsUse n) {c k : Node} (hc : c ∈ n.namedChildren) (hk : k ∈ c.preorder) :
    k.span ≠ n.span := by
  obtain ⟨word, hword, hunnamed, hsome⟩ := h.worded
  have hchild := Node.mem_children_of_namedChildren hc
  have hne : word ≠ c := by
    rintro rfl
    exact Bool.false_ne_true (hunnamed.symm.trans (List.mem_filter.mp hc).2)
  have hwithin := (h.regular.child hchild).within hk
  have hinside := h.regular.self.inside word hword
  have hapart := (h.regular.hasOrderedChildren.eq_or_apart hword hchild).resolve_left hne
  intro heq
  rw [← heq] at hinside
  have hself : word.span.Apart word.span := hapart.within (Span.Within.refl _) (hinside.trans hwithin)
  exact hself.ne hsome rfl

end IsUse

end FileSetting

namespace Import

/-- What the import says. -/
def imported (i : Import) : Imported := .ofNames i.kind i.given i.name

/-- There is no word for namespaces in an import. -/
theorem kindWord?_ne_nameSpace (n : Node) : kindWord? n ≠ some .nameSpace := by
  intro h
  obtain ⟨c, -, hc⟩ := List.exists_of_findSome?_eq_some h
  split at hc
  · cases hc
  split at hc
  · cases hc
  · cases hc

/-- No import is one of a namespace, whatever word its clause has. -/
theorem getD_kindWord?_ne (n : Node) {kind : SymbolKind} (h : kind ≠ .nameSpace) :
    (kindWord? n).getD kind ≠ .nameSpace := by
  have hword := kindWord?_ne_nameSpace n
  cases hfound : kindWord? n with
  | none => exact h
  | some found =>
    rintro rfl
    exact hword hfound

/-- No import statement is for namespaces. -/
theorem kindOf_ne (n : Node) : kindOf n ≠ .nameSpace := getD_kindWord?_ne n nofun

/-- A node that gives a local name is in a part of the clause that is no name, or that stands behind the
imported name. -/
theorem exists_part_apart {parts : List Node} {n k : Node}
    (hordered : parts.Pairwise fun a b => a.span.stop ≤ b.span.start)
    (htarget : target? parts = some n) (hgiven : some k ∈ givenNames false parts) :
    ∃ part ∈ parts, k ∈ part.preorder ∧ (part.isName = false ∨ n.span.Apart part.span) := by
  induction parts with
  | nil => cases hgiven
  | cons p ps ih =>
    obtain ⟨hbehind, hrest⟩ := List.pairwise_cons.mp hordered
    by_cases has : p.type = "as"
    · simp [target?, has] at htarget
    have hlater : target? ps = some n → some k ∈ givenNames false ps → ∃ part ∈ p :: ps,
        k ∈ part.preorder ∧ (part.isName = false ∨ n.span.Apart part.span) := by
      intro hn hk
      obtain ⟨part, hpart, hin⟩ := ih hrest hn hk
      exact ⟨part, List.mem_cons_of_mem p hpart, hin⟩
    have hskip : p.isName = false → target? ps = some n := by
      intro hname
      rw [← htarget]
      simp [target?, has, hname]
    by_cases halias : p.type = "namespace_aliasing_clause"
    · have hname : p.isName = false := by
        rw [Node.isName, halias]
        decide
      simp only [givenNames, halias] at hgiven
      obtain hhere | hk := List.mem_cons.mp hgiven
      · have hnamed := List.mem_of_find?_eq_some hhere.symm
        exact ⟨p, List.mem_cons_self, Node.mem_preorder_child
          (Node.mem_children_of_namedChildren hnamed), .inl hname⟩
      · exact hlater (hskip hname) hk
    · have hk : some k ∈ givenNames false ps := by
        simpa [givenNames, has, halias] using hgiven
      cases hname : p.isName with
      | false => exact hlater (hskip hname) hk
      | true =>
        obtain rfl : p = n := by
          simpa [target?, has, hname] using htarget
        obtain ⟨part, hpart, hin⟩ := Import.exists_part_of_givenNames hk
        exact ⟨part, List.mem_cons_of_mem p hpart, hin, .inr (.inl (hbehind part hpart))⟩

end Import

namespace FileSetting.IsUse

variable {w : FileSetting} {n clause : Node}

/-- A node that gives a local name can be read. -/
theorem exists_given (h : w.IsUse n) (hclause : clause ∈ n.preorder) {k : Node}
    (hk : some k ∈ Import.givenNames false clause.children) :
    ∃ t ∈ w.source.text? k, Name.WellFormed t ∧ IsUnbroken t := by
  obtain ⟨part, hpart, hmem⟩ := Import.exists_part_of_givenNames hk
  have hin := Node.mem_preorder_trans hmem
    (Node.mem_preorder_trans (Node.mem_preorder_child hpart) hclause)
  exact h.spelled k hin (Import.isName_of_givenNames hk)

/-- The names of a clause that has one can be read. -/
theorem readsClauseNames (h : w.IsUse n) (hclause : clause ∈ n.preorder)
    (htarget : (Import.target? clause.children).isSome = true) : w.ReadsClauseNames clause := by
  obtain ⟨k, hk⟩ := Option.isSome_iff_exists.mp htarget
  have hin := Node.mem_preorder_trans (Node.mem_preorder_child (Import.mem_of_target? hk)) hclause
  obtain ⟨text, htext, -⟩ := h.spelled k hin (Import.isName_of_target? hk)
  refine ⟨⟨k, text, hk, htext⟩, fun k hgiven => ?_⟩
  obtain ⟨t, ht, -⟩ := h.exists_given hclause hgiven
  exact ⟨t, ht⟩

end FileSetting.IsUse

namespace Prefix

/-- A prefix that is accepted as it stands has no gaps, not even at its end. -/
theorem isUnbroken_of_validate {root : Text} (h : validate (some root) = .ok root) :
    IsUnbroken root := by
  have hwordy := isWordy_of_validate_self h
  intro c hc
  have hother : ∀ d, Text.isWord d = false → d ≠ Name.separator → c ≠ d := by
    rintro d hword hsep rfl
    obtain hc | hc := (isWordy_iff.mp hwordy).2.2 c hc
    · exact Bool.false_ne_true (hword.symm.trans hc)
    · exact hsep hc
  have hspace := hother ' ' (by decide) (by decide)
  have htab := hother '\t' (by decide) (by decide)
  have hline := hother '\n' (by decide) (by decide)
  have hreturn := hother '\r' (by decide) (by decide)
  exact ⟨by simp [isGap, hspace, htab, hline, hreturn], hother ';' (by decide) (by decide)⟩

end Prefix

namespace Name

/-- Well-formed names are joined with a separator between them. -/
theorem join_bare {a b : Text} (ha : WellFormed a) (hb : WellFormed b) :
    join [bare a, bare b] = bare a ++ separator :: bare b := by
  rw [join_pair, trimmed_of_isTrimmed ha.isTrimmed_bare, trimmed_of_isTrimmed hb.isTrimmed_bare,
    beside_of_ne_nil ha.bare_ne_nil hb.bare_ne_nil]

/-- A name keeps its short name when it is moved. -/
theorem shortOf_relocate {root name : Text} (hroot : IsRoot root) (hname : IsTrimmed name)
    (hne : name ≠ []) : shortOf (relocate root name) = shortOf name := by
  rw [relocate_eq_beside hroot, trimmed_of_isTrimmed hname, shortOf,
    split_beside hroot.isTrimmed hname hroot.ne_nil hne]
  rfl

end Name

/-- Two texts without gaps have none together. -/
theorem Imported.IsUnbroken.append {s t : Text} (hs : IsUnbroken s) (ht : IsUnbroken t) :
    IsUnbroken (s ++ t) :=
  fun c hc => (List.mem_append.mp hc).elim (hs c) (ht c)

/-- A name below another one has no gaps if neither has. -/
theorem Imported.IsUnbroken.under {s t : Text} (hs : IsUnbroken s) (ht : IsUnbroken t) :
    IsUnbroken (s ++ Name.separator :: t) :=
  hs.append (IsUnbroken.append (s := [Name.separator]) (by decide) ht)

/-- Taking a leading separator away makes no gaps. -/
theorem Imported.IsUnbroken.bare {t : Text} (h : IsUnbroken t) : IsUnbroken (Name.bare t) :=
  fun c hc => h c ((Name.bare_suffix t).mem hc)

namespace Relocation

variable {r : Relocation} {i : Import}

/-- What a statement says about a symbol when the names have moved: the symbol has its new name, unless
it is under the prefix already or something keeps it. -/
def importedAfter (r : Relocation) (x : Imported) : Imported :=
  { x with
    target :=
      if r.hasMoved x.target = false ∧ r.classifier.classify x.kind x.target = .rename then
        r.relocate x.target
      else x.target }

/-- An import of a symbol that moves has its target under the prefix afterwards. -/
theorem importedAfter_of_moves {x : Imported} (h : r.moves x.kind x.target = true) :
    r.importedAfter x = { x with target := r.relocate x.target } := by
  rw [importedAfter, if_pos (moves_iff.mp h)]

/-- An import of a symbol that stays is the same afterwards. -/
theorem importedAfter_of_stays {x : Imported} (h : r.moves x.kind x.target = false) :
    r.importedAfter x = x := by
  rw [importedAfter, if_neg fun hmoves => Bool.eq_false_iff.mp h (moves_iff.mpr hmoves)]

/-- An import that moves is written under the prefix. -/
theorem importName_of_moves (h : r.movesImport i = true) : r.importName i = r.relocate i.name :=
  if_pos h

/-- An import that stays is written as it was. -/
theorem importName_of_stays (h : r.movesImport i = false) : r.importName i = i.name :=
  if_neg (Bool.eq_false_iff.mp h)

/-- The name that an import is written with has no separators around it. -/
theorem isTrimmed_importName (h : Name.IsTrimmed i.name) : Name.IsTrimmed (r.importName i) := by
  unfold importName
  split
  · exact Name.isTrimmed_relocate _ _
  · exact h

/-- The local name of an import does not depend on where its symbol is moved. -/
theorem importedAfter_imported (hroot : Name.IsRoot r.root) (hname : Name.IsTrimmed i.name)
    (hne : i.name ≠ []) : r.importedAfter i.imported = .ofNames i.kind i.given (r.importName i) := by
  cases hmoves : r.movesImport i with
  | true =>
    have hshort : Name.shortOf (r.relocate i.name) = Name.shortOf i.name :=
      Name.shortOf_relocate hroot hname hne
    rw [importedAfter_of_moves (x := i.imported) hmoves, importName_of_moves hmoves, ofNames, hshort]
    rfl
  | false =>
    rw [importedAfter_of_stays (x := i.imported) hmoves, importName_of_stays hmoves]
    rfl

end Relocation

namespace Imported

variable {read : Node → Option Text} {n : Node}

/-- A statement without a group imports what its clauses do. -/
theorem ofUse?_plain (h : n.namedChildren.find? (fun c => c.type = groupType) = none) :
    ofUse? read n = (plainClauses n).mapM (ofClause? read (Import.kindOf n) []) := by
  rw [ofUse?, h]

/-- A statement with a group imports what the clauses of the group do, below their common part. -/
theorem ofUse?_group {group base : Node} {text : Text}
    (hgroup : n.namedChildren.find? (fun c => c.type = groupType) = some group)
    (hbase : groupBase? n = some base) (htext : read base = some text) :
    ofUse? read n
      = (groupClauses group).mapM (ofClause? read (Import.kindOf n) (Name.bare text)) := by
  rw [ofUse?, hgroup]
  simp only [hbase, htext, Option.bind_eq_bind, Option.bind_some]

/-- The import of a clause is read again, with the text that its name has then. -/
theorem ofClause?_of_isReadFrom {w : FileSetting} {kind : SymbolKind} {base text : Text}
    {clause : Node} {i : Import} (hi : i.IsReadFrom w kind base clause)
    (htext : read i.node = some text)
    (hgiven : ∀ k, some k ∈ Import.givenNames false clause.children → read k = w.source.text? k)
    (below : Text) :
    ofClause? read kind below clause
      = some (.ofNames i.kind i.given (Name.join [below, Name.bare text])) := by
  rw [ofClause?, hi.target, Import.givenText?_congr hgiven, hi.given, hi.kind]
  simp only [Option.bind_eq_bind, Option.bind_some, htext]
  rfl

/-- What is read from the clauses of a group while the common part of their names changes. -/
theorem mapM_ofClause? {w : FileSetting} {kind : SymbolKind} {base below : Text} {group : Node}
    {is : List Import} (hread : ∀ k ∈ group.preorder, read k = w.source.text? k) (moved : Text → Text)
    (hmoved : ∀ rest, Name.join [below, rest] = moved (Name.join [base, rest]))
    (his : List.Forall₂ (Import.IsReadFrom w kind base) (groupClauses group) is) :
    (groupClauses group).mapM (ofClause? read kind below)
      = some (is.map fun i => .ofNames i.kind i.given (moved i.name)) := by
  have hboth := (List.forall₂_and_left (groupClauses group) is).mpr
    ⟨fun clause (hclause : clause ∈ groupClauses group) => hclause, his⟩
  refine mapM_of_forall₂ (hboth.imp fun clause i ⟨hclause, hi⟩ => ?_)
  have hin : clause ∈ group.preorder :=
    Node.mem_preorder_child (Node.mem_children_of_namedChildren (List.mem_filter.mp hclause).1)
  have hbelow : ∀ {k : Node}, k ∈ clause.preorder → read k = w.source.text? k :=
    fun hk => hread _ (Node.mem_preorder_trans hk hin)
  obtain ⟨t, ht, hname, -⟩ := hi.spelled
  have htext := (hbelow (Node.mem_preorder_child hi.node)).trans ht
  have hgiven : ∀ k, some k ∈ Import.givenNames false clause.children → read k = w.source.text? k := by
    intro k hk
    obtain ⟨part, hpart, hmem⟩ := Import.exists_part_of_givenNames hk
    exact hbelow (Node.mem_preorder_trans hmem (Node.mem_preorder_child hpart))
  rw [ofClause?_of_isReadFrom hi htext hgiven, hmoved, hname]

end Imported

namespace FileSetting

namespace IsGroupUse

variable {w : FileSetting} {n group base clause : Node}

/-- The group is a named child of the statement. -/
theorem mem_namedChildren_group (h : w.IsGroupUse n group base) : group ∈ n.namedChildren :=
  List.mem_of_find?_eq_some h.hasGroup

/-- The common part is a named child of the statement. -/
theorem mem_namedChildren_base (h : w.IsGroupUse n group base) : base ∈ n.namedChildren :=
  (List.takeWhile_prefix _).sublist.mem (List.mem_filter.mp (List.mem_of_getLast? h.hasBase)).1

/-- A clause of the group is below the statement. -/
theorem mem_preorder_clause (h : w.IsGroupUse n group base) (hclause : clause ∈ groupClauses group) :
    clause ∈ n.preorder := by
  have hgroup := Node.mem_preorder_child (Node.mem_children_of_namedChildren h.mem_namedChildren_group)
  have hnamed := Node.mem_children_of_namedChildren (List.mem_filter.mp hclause).1
  exact Node.mem_preorder_trans (Node.mem_preorder_child hnamed) hgroup

/-- Nothing in the group has the span of the common part. -/
theorem base_span_ne (h : w.IsGroupUse n group base) {k : Node} (hk : k ∈ group.preorder) :
    base.span ≠ k.span := by
  have hne : base ≠ group := by
    rintro rfl
    have hbefore := List.all_eq_true.mp List.all_takeWhile base
      (List.mem_filter.mp (List.mem_of_getLast? h.hasBase)).1
    have htype := List.find?_some h.hasGroup
    exact of_decide_eq_true hbefore (of_decide_eq_true htype)
  have hbase := Node.mem_children_of_namedChildren h.mem_namedChildren_base
  have hgroup := Node.mem_children_of_namedChildren h.mem_namedChildren_group
  have hapart := (h.regular.hasOrderedChildren.eq_or_apart hbase hgroup).resolve_left hne
  have hwithin := (h.regular.child hgroup).within hk
  have hsome := h.start_lt_stop (Node.mem_preorder_child hbase) (isName_of_groupBase? h.hasBase)
  exact (hapart.within (Span.Within.refl _) hwithin).ne hsome

end IsGroupUse

/-- A group with what is read from it: the common part of the names, and an import from each clause. -/
structure ReadsGroupUse (w : FileSetting) (n group base : Node) (text : Text) (is : List Import) : Prop
    extends w.IsGroupUse n group base where
  /-- The common part. -/
  baseText : w.source.text? base = some text
  /-- It has no empty segment. -/
  wellFormed : Name.WellFormed text
  /-- It has no gap. -/
  unbroken : IsUnbroken text
  /-- The imports. -/
  imports : List.Forall₂ (Import.IsReadFrom w (Import.kindOf n) (Name.bare text))
    (groupClauses group) is

/-- The common part and all clauses of a group are read. -/
theorem IsGroupUse.exists_reading {w : FileSetting} {n group base : Node}
    (h : w.IsGroupUse n group base) :
    ∃ text is, w.ReadsGroupUse n group base text is
      ∧ readGroup w (Import.kindOf n) (Name.bare text) (groupClauses group) = pure (.ok is) := by
  have hbase := Node.mem_preorder_child (Node.mem_children_of_namedChildren h.mem_namedChildren_base)
  obtain ⟨text, htext, hwell, hunbroken⟩ := h.spelled base hbase (isName_of_groupBase? h.hasBase)
  have hnames : ∀ clause ∈ groupClauses group, w.ReadsClauseNames clause := fun clause hclause =>
    h.toIsUse.readsClauseNames (h.mem_preorder_clause hclause) (h.targets clause hclause)
  obtain ⟨is, hread, his⟩ := exists_readGroup hnames (Import.kindOf n) (Name.bare text)
  exact ⟨text, is, ⟨h, htext, hwell, hunbroken, his⟩, hread⟩

namespace ReadsGroupUse

variable {w : FileSetting} {n group base : Node} {text : Text} {is : List Import} {i : Import}

/-- The imports of a group have names without separators around them. -/
theorem isTrimmed_name (h : w.ReadsGroupUse n group base text is) (hi : i ∈ is) :
    Name.IsTrimmed i.name := by
  obtain ⟨clause, -, hread⟩ := exists_mem_of_forall₂ h.imports i hi
  exact hread.name

/-- The name of an import is below the common part, and without gaps. -/
theorem exists_name (h : w.ReadsGroupUse n group base text is) (hi : i ∈ is) :
    ∃ t, i.name = Name.bare text ++ Name.separator :: t ∧ IsUnbroken t := by
  obtain ⟨clause, hclause, hread⟩ := exists_mem_of_forall₂ h.imports i hi
  obtain ⟨t, ht, hname, -⟩ := hread.spelled
  have hin := Node.mem_preorder_trans (Node.mem_preorder_child hread.node) (h.mem_preorder_clause hclause)
  obtain ⟨t', ht', hwell, hunbroken⟩ := h.spelled i.node hin (Import.isName_of_target? hread.target)
  obtain rfl := Option.some_inj.mp (ht.symm.trans ht')
  exact ⟨Name.bare t, hname.trans (Name.join_bare h.wellFormed hwell), hunbroken.bare⟩

/-- The local name of an import is without gaps, if it is given. -/
theorem isUnbroken_given (h : w.ReadsGroupUse n group base text is) (hi : i ∈ is) :
    ∀ g ∈ i.given, g ≠ [] ∧ IsUnbroken g := by
  intro g hg
  obtain ⟨clause, hclause, hread⟩ := exists_mem_of_forall₂ h.imports i hi
  have hgiven := hread.given
  rw [Option.mem_def.mp hg] at hgiven
  obtain ⟨hne, k, hk, htext⟩ := Import.exists_of_givenText? hgiven
  obtain ⟨t, ht, -, hunbroken⟩ := h.toIsUse.exists_given (h.mem_preorder_clause hclause) hk
  obtain rfl := Option.some_inj.mp (htext.symm.trans ht)
  exact ⟨hne, hunbroken⟩

/-- Each import of a group can be written as a statement of its own, under its new name too. -/
theorem isWritable (h : w.ReadsGroupUse n group base text is)
    (hvalid : Prefix.validate (some w.relocation.root) = .ok w.relocation.root) (hi : i ∈ is) :
    i.IsWritable (w.relocation.importName i) := by
  obtain ⟨t, hname, ht⟩ := h.exists_name hi
  have hgiven := h.isUnbroken_given hi
  have hseparated : Name.separator ∈ i.name := by simp [hname]
  have hunbroken : IsUnbroken i.name := hname ▸ h.unbroken.bare.under ht
  have hkind : i.kind ≠ .nameSpace := by
    obtain ⟨clause, -, hread⟩ := exists_mem_of_forall₂ h.imports i hi
    exact hread.kind ▸ Import.getD_kindWord?_ne clause (Import.kindOf_ne n)
  have hrelocate : w.relocation.relocate i.name
      = w.relocation.root ++ Name.separator :: i.name := by
    have hroot := Name.isRoot_of_validate hvalid
    rw [Relocation.relocate, Name.relocate_eq_beside hroot,
      Name.trimmed_of_isTrimmed (h.isTrimmed_name hi),
      Name.beside_of_ne_nil hroot.ne_nil (List.ne_nil_of_mem hseparated)]
  cases hmoves : w.relocation.movesImport i with
  | true =>
    rw [Relocation.importName_of_moves hmoves, hrelocate]
    exact ⟨hkind, by simp, (Prefix.isUnbroken_of_validate hvalid).under hunbroken, hgiven⟩
  | false =>
    rw [Relocation.importName_of_stays hmoves]
    exact ⟨hkind, hseparated, hunbroken, hgiven⟩

/-- A group imports what is read from it. -/
theorem importsOf?_eq (h : w.ReadsGroupUse n group base text is) :
    w.importsOf? n = some (is.map Import.imported) := by
  rw [importsOf?, ofUse?_group h.hasGroup h.hasBase h.baseText]
  exact mapM_ofClause? (fun _ _ => rfl) id (fun _ => rfl) h.imports

/-- A group whose common part was moved imports every symbol under its new name. -/
theorem importsAfter?_base (h : w.ReadsGroupUse n group base text is)
    (hroot : Name.IsRoot w.relocation.root) :
    w.importsAfter? [.replacing base (w.relocation.relocate (Name.bare text))] n
      = some (is.map fun i => .ofNames i.kind i.given (w.relocation.relocate i.name)) := by
  have hwhole := h.span_ne h.mem_namedChildren_base (Node.mem_preorder_self base)
  rw [importsAfter?_part hwhole, ofUse?_group h.hasGroup h.hasBase (textAfter?_replacing h.baseText),
    Relocation.bare_relocate]
  refine mapM_ofClause? (fun k hk => ?_) w.relocation.relocate (Name.relocate_join hroot _) h.imports
  refine textAfter?_of_ne fun e he => ?_
  rw [List.mem_singleton.mp he]
  exact h.base_span_ne hk

/-- A group that was split imports each symbol under the name it has then. -/
theorem importsAfter?_split (h : w.ReadsGroupUse n group base text is)
    (hvalid : Prefix.validate (some w.relocation.root) = .ok w.relocation.root) :
    w.importsAfter? [.replacing n (w.relocation.splitGroup is)] n
      = some (is.map fun i => .ofNames i.kind i.given (w.relocation.importName i)) := by
  rw [importsAfter?_whole, ofText?_splitGroup fun i hi => h.isWritable hvalid hi]
  refine congrArg some (List.map_congr_left fun i hi => ?_)
  rw [Name.bare_of_isTrimmed (Relocation.isTrimmed_importName (h.isTrimmed_name hi))]

/-- Whatever is done about a group, it imports each symbol that moves under its new name and the others
as before. -/
theorem importsAfter?_groupEdit (h : w.ReadsGroupUse n group base text is)
    (hvalid : Prefix.validate (some w.relocation.root) = .ok w.relocation.root) :
    w.importsAfter? (groupEdit? w.relocation n base (Name.bare text) is).toList n
      = some ((is.map Import.imported).map w.relocation.importedAfter) := by
  have hroot := Name.isRoot_of_validate hvalid
  have hafter : (is.map Import.imported).map w.relocation.importedAfter
      = is.map fun i => .ofNames i.kind i.given (w.relocation.importName i) := by
    rw [List.map_map]
    refine List.map_congr_left fun i hi => ?_
    obtain ⟨t, hname, -⟩ := h.exists_name hi
    exact Relocation.importedAfter_imported hroot (h.isTrimmed_name hi) (by simp [hname])
  rw [hafter]
  unfold groupEdit?
  split
  · next hall =>
    rw [Option.toList_some, h.importsAfter?_base hroot]
    refine congrArg some (List.map_congr_left fun i hi => ?_)
    rw [Relocation.importName_of_moves (List.all_eq_true.mp hall i hi)]
  split
  · rw [Option.toList_some, h.importsAfter?_split hvalid]
  · next hany =>
    rw [Option.toList_none, importsAfter?_nil, h.importsOf?_eq]
    refine congrArg some (List.map_congr_left fun i hi => ?_)
    have hstays : w.relocation.movesImport i = false :=
      Bool.eq_false_iff.mpr fun hmoves => hany (List.any_eq_true.mpr ⟨i, hi, hmoves⟩)
    rw [Relocation.importName_of_stays hstays]
    rfl

end ReadsGroupUse

end FileSetting

/-- There is one result, so there was one member. -/
theorem exists_of_mapM_eq_singleton {α β : Type} {f : α → Option β} {as : List α} {b : β}
    (h : as.mapM f = some [b]) : ∃ a, as = [a] ∧ f a = some b := by
  cases as with
  | nil => cases h
  | cons a rest =>
    rw [List.mapM_cons] at h
    obtain ⟨b', hb', htail⟩ := Option.bind_eq_some_iff.mp h
    obtain ⟨bs, hbs, hcons⟩ := Option.bind_eq_some_iff.mp htail
    obtain ⟨rfl, rfl⟩ := List.cons.inj (Option.some_inj.mp hcons)
    cases rest with
    | nil => exact ⟨a, rfl, hb'⟩
    | cons c rest =>
      rw [List.mapM_cons] at hbs
      obtain ⟨_, -, hmore⟩ := Option.bind_eq_some_iff.mp hbs
      obtain ⟨_, -, hnil⟩ := Option.bind_eq_some_iff.mp hmore
      cases hnil

namespace FileSetting

/-- A statement that imports one symbol, with its clause and the import that is read from it. -/
structure ReadsPlainUse (w : FileSetting) (n clause : Node) (i : Import) : Prop
    extends w.IsPlainUse n where
  /-- The clause. -/
  clauses : plainClauses n = [clause]
  /-- The import. -/
  imports : i.IsReadFrom w (Import.kindOf n) [] clause

/-- The one clause of a statement is a named child of it. -/
theorem mem_namedChildren_of_plainClauses {n clause : Node} (h : plainClauses n = [clause]) :
    clause ∈ n.namedChildren := by
  have hmem : clause ∈ plainClauses n := h ▸ List.mem_singleton_self clause
  exact (List.mem_filter.mp hmem).1

/-- The clause of a statement that imports one symbol is read. -/
theorem IsPlainUse.exists_reading {w : FileSetting} {n : Node} {x : Imported} (h : w.IsPlainUse n)
    (hx : w.importsOf? n = some [x]) :
    ∃ clause i, w.ReadsPlainUse n clause i ∧ i.imported = x
      ∧ readClause w (Import.kindOf n) [] clause = pure (some i) := by
  rw [importsOf?, ofUse?_plain h.plain] at hx
  obtain ⟨clause, hclauses, hclause⟩ := exists_of_mapM_eq_singleton hx
  have hin := Node.mem_preorder_child
    (Node.mem_children_of_namedChildren (mem_namedChildren_of_plainClauses hclauses))
  have htarget : (Import.target? clause.children).isSome = true := by
    rw [ofClause?] at hclause
    obtain ⟨k, hk, -⟩ := Option.bind_eq_some_iff.mp hclause
    exact Option.isSome_iff_exists.mpr ⟨k, hk⟩
  obtain ⟨i, hread, hi⟩ := exists_readClause (h.toIsUse.readsClauseNames hin htarget) (Import.kindOf n) []
  obtain ⟨t, ht, hname, -⟩ := hi.spelled
  have hsame := ofClause?_of_isReadFrom hi ht (fun _ _ => rfl) []
  rw [← hname, hclause] at hsame
  exact ⟨clause, i, ⟨h, hclauses, hi⟩, (Option.some_inj.mp hsame).symm, hread⟩

namespace ReadsPlainUse

variable {w : FileSetting} {n clause : Node} {i : Import}

/-- The clause is a child of the statement. -/
theorem mem_children_clause (h : w.ReadsPlainUse n clause i) : clause ∈ n.children :=
  Node.mem_children_of_namedChildren (mem_namedChildren_of_plainClauses h.clauses)

/-- The imported name is below the statement. -/
theorem mem_preorder_node (h : w.ReadsPlainUse n clause i) : i.node ∈ n.preorder :=
  Node.mem_preorder_trans (Node.mem_preorder_child h.imports.node)
    (Node.mem_preorder_child h.mem_children_clause)

/-- The imported name is not empty. -/
theorem name_ne_nil (h : w.ReadsPlainUse n clause i) : i.name ≠ [] := by
  obtain ⟨t, ht, hname, -⟩ := h.imports.spelled
  obtain ⟨t', ht', hwell, -⟩ := h.spelled i.node h.mem_preorder_node (Import.isName_of_target? h.imports.target)
  obtain rfl := Option.some_inj.mp (ht.symm.trans ht')
  rw [hname, Name.join_nil_left, Name.trimmed_of_isTrimmed hwell.isTrimmed_bare]
  exact hwell.bare_ne_nil

/-- A node that gives a local name is not where the imported name is. -/
theorem node_span_ne (h : w.ReadsPlainUse n clause i) {k : Node}
    (hk : some k ∈ Import.givenNames false clause.children) : i.node.span ≠ k.span := by
  have hregular := h.regular.child h.mem_children_clause
  have hname := Import.isName_of_target? h.imports.target
  obtain ⟨part, hpart, hmem, hplace⟩ :=
    Import.exists_part_apart hregular.self.ordered h.imports.target hk
  have hapart : i.node.span.Apart part.span := by
    obtain hother | hapart := hplace
    · refine (hregular.hasOrderedChildren.eq_or_apart h.imports.node hpart).resolve_left ?_
      rintro rfl
      exact Bool.false_ne_true (hother.symm.trans hname)
    · exact hapart
  have hwithin := (hregular.child hpart).within hmem
  exact (hapart.within (Span.Within.refl _) hwithin).ne (h.start_lt_stop h.mem_preorder_node hname)

/-- A plain statement imports what is read from it. -/
theorem importsOf?_eq (h : w.ReadsPlainUse n clause i) : w.importsOf? n = some [i.imported] := by
  obtain ⟨t, ht, hname, -⟩ := h.imports.spelled
  have hread := ofClause?_of_isReadFrom h.imports ht (fun _ _ => rfl) []
  rw [importsOf?, ofUse?_plain h.plain, h.clauses, List.mapM_cons, hread, ← hname]
  rfl

/-- A statement whose symbol moves imports it under its new name afterwards. -/
theorem importsAfter?_target (h : w.ReadsPlainUse n clause i) :
    w.importsAfter? [.replacing i.node
        ((if i.leading then [Name.separator] else []) ++ w.relocation.relocate i.name)] n
      = some [.ofNames i.kind i.given (w.relocation.relocate i.name)] := by
  have hwhole := h.span_ne (mem_namedChildren_of_plainClauses h.clauses)
    (Node.mem_preorder_child h.imports.node)
  obtain ⟨t, ht, -⟩ := h.imports.spelled
  have hgiven : ∀ k, some k ∈ Import.givenNames false clause.children →
      w.textAfter? [.replacing i.node
        ((if i.leading then [Name.separator] else []) ++ w.relocation.relocate i.name)] k
        = w.source.text? k := by
    intro k hk
    refine textAfter?_of_ne fun e he => ?_
    rw [List.mem_singleton.mp he]
    exact h.node_span_ne hk
  have hread := ofClause?_of_isReadFrom h.imports (textAfter?_replacing ht) hgiven []
  rw [Relocation.join_written] at hread
  rw [importsAfter?_part hwhole, ofUse?_plain h.plain, h.clauses, List.mapM_cons, hread]
  rfl

/-- Whatever is done about a statement that imports one symbol, it imports the symbol under its new name
if it moves, and as before if not. -/
theorem importsAfter?_moveEdits (h : w.ReadsPlainUse n clause i)
    (hroot : Name.IsRoot w.relocation.root) :
    w.importsAfter? (moveEdits w.relocation [i]) n
      = some [w.relocation.importedAfter i.imported] := by
  rw [Relocation.importedAfter_imported hroot h.imports.name h.name_ne_nil]
  cases hmoves : w.relocation.movesImport i with
  | true =>
    have hedits : moveEdits w.relocation [i] = [.replacing i.node
        ((if i.leading then [Name.separator] else []) ++ w.relocation.relocate i.name)] := by
      simp [moveEdits, hmoves]
    rw [hedits, h.importsAfter?_target, Relocation.importName_of_moves hmoves]
  | false =>
    have hedits : moveEdits w.relocation [i] = [] := by simp [moveEdits, hmoves]
    rw [hedits, importsAfter?_nil, h.importsOf?_eq, Relocation.importName_of_stays hmoves]
    rfl

end ReadsPlainUse

end FileSetting

end PhpPrefixer
