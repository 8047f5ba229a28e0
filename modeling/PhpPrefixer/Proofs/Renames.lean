import PhpPrefixer.Prefixer
import PhpPrefixer.Proofs.Conduct
import PhpPrefixer.Proofs.References
import PhpPrefixer.Proofs.Trees

/-!
# What a file records

Renames are recorded in many places: for namespaces, imports, references, declarations, and names in
strings. All of them are justified in the same way (`Relocation.Justifies`): the name was not under
the prefix, it moves there, and the classifier says so. The work on a file, and on code embedded in
it, takes no other steps than telling something and recording justified renames.
-/

namespace PhpPrefixer

open PrefixingM

/-- A rename a file may record. `named` tells whether namespaces are known to have well-formed names,
as all other symbols are. -/
structure Relocation.Justifies (r : Relocation) (path : Text) (named : Prop) (rename : Rename) :
    Prop where
  /-- The symbol moves under the prefix. -/
  renamed : rename.renamed = r.relocate rename.name
  /-- It was not there before. -/
  unmoved : r.hasMoved rename.name = false
  /-- It is to be renamed, or it is exposed. -/
  decided : r.classifier.classify rename.kind rename.name = .rename
    ∨ r.classifier.exposes rename.kind rename.name = true
  /-- The name has no separators around it, but perhaps that of a namespace. -/
  isTrimmed : rename.kind ≠ .nameSpace ∨ named → Name.IsTrimmed rename.name
  /-- The file is named. -/
  file : rename.file = some path

/-- A rename that is justified where all names are well-formed has no separators to lose. -/
theorem Relocation.Justifies.bare_eq {r : Relocation} {path : Text} {rename : Rename}
    (h : r.Justifies path True rename) : rename.bare = rename := by
  have hname := Name.bare_of_isTrimmed (h.isTrimmed (.inr trivial))
  have hrenamed : Name.bare rename.renamed = rename.renamed := by
    rw [h.renamed]
    exact Name.bare_of_isTrimmed (Name.isTrimmed_relocate _ _)
  rw [Rename.bare, hname, hrenamed]

/-- Anything may be told and justified renames may be recorded, and work may fail in every way but by
a conflict. -/
structure Conduct.Allows (c : Conduct) (r : Relocation) (path : Text) (named : Prop) : Prop where
  /-- Anything may be told. -/
  note : ∀ e, c.step (.note e)
  /-- Justified renames may be recorded. -/
  record : ∀ rename, r.Justifies path named rename → c.step (.record rename)
  /-- Any failure but a conflict may occur. -/
  failure : ∀ f, (∀ x, f ≠ .conflict x) → c.failure f

/-- Where justified renames are allowed, everything is that lenient work needs. -/
theorem Conduct.Allows.isLenient {c : Conduct} {r : Relocation} {path : Text} {named : Prop}
    (hc : c.Allows r path named) : c.IsLenient where
  note := hc.note
  undecodable := hc.failure _ fun _ => Failure.noConfusion
  unsupported := fun _ => hc.failure _ fun _ => Failure.noConfusion
  missingKeyword := hc.failure _ fun _ => Failure.noConfusion
  unparsable := fun _ => hc.failure _ fun _ => Failure.noConfusion

/-- No import stands for a name with separators around it. -/
def Lexical.IsTidy (scope : Lexical) : Prop :=
  ∀ kind, ∀ entry ∈ scope.imports.table kind, Name.IsTrimmed entry.2

/-- The scope a file is at has tidy imports. -/
def FileState.IsTidy (s : FileState) : Prop := s.scope.IsTidy

namespace Lexical

/-- A namespace is entered with a tidy scope. -/
theorem isTidy_entered (space : Text) (moved : Bool) : (entered space moved).IsTidy := by
  intro kind entry hentry
  cases kind <;> exact absurd hentry List.not_mem_nil

/-- Putting an entry into a table adds no other target. -/
theorem mem_put {table : List (Text × Text)} {key target : Text} {entry : Text × Text}
    (h : entry ∈ Imports.put table key target) : entry ∈ table ∨ entry.2 = target := by
  rcases List.mem_append.mp h with hold | hnew
  · exact .inl (List.mem_filter.mp hold).1
  · cases List.mem_singleton.mp hnew
    exact .inr rfl

/-- One more import adds at most its target to each table. -/
theorem mem_table_add {i : Imports} {kind other : SymbolKind} {localName target : Text}
    {entry : Text × Text} (h : entry ∈ (i.add kind localName target).table other) :
    entry ∈ i.table other ∨ entry.2 = target := by
  cases kind with
  | nameSpace => exact .inl h
  | classLike =>
    cases other with
    | classLike => exact mem_put h
    | _ => exact .inl h
  | function =>
    cases other with
    | function => exact mem_put h
    | _ => exact .inl h
  | constant =>
    cases other with
    | constant => exact mem_put h
    | _ => exact .inl h

/-- A scope stays tidy when a name without separators around it is imported. -/
theorem IsTidy.importing {scope : Lexical} (h : scope.IsTidy) {target : Text}
    (htarget : Name.IsTrimmed target) (kind : SymbolKind) (localName : Text) :
    (scope.importing kind localName target).IsTidy := by
  intro other entry hentry
  rcases mem_table_add hentry with hold | hnew
  · exact h other entry hold
  · rw [hnew]
    exact htarget

/-- An import of a tidy scope has no separators around it. -/
theorem IsTidy.find? {scope : Lexical} (h : scope.IsTidy) {kind : SymbolKind}
    {localName target : Text} (hfind : scope.imports.find? kind localName = some target) :
    Name.IsTrimmed target := by
  obtain ⟨entry, hentry, rfl⟩ := Option.map_eq_some_iff.mp hfind
  exact h kind entry (List.mem_of_find?_eq_some hentry)

/-- What a well-formed name denotes has no separators around it, whichever way it is found. -/
theorem IsTidy.isTrimmed_resolve {scope : Lexical} (h : scope.IsTidy) {text : Text}
    (hwell : Name.WellFormed text) (kind : SymbolKind) :
    Name.IsTrimmed (scope.resolve kind text).name := by
  by_cases hhead : text.head? = some Name.separator
  · obtain ⟨name, rfl⟩ := List.head?_eq_some_iff.mp hhead
    rw [resolve_fullyQualified]
    simpa using hwell.isTrimmed_bare
  · by_cases hmark : relativeMark.isPrefixOf (Text.lower text) = true
    · rw [resolve_relative hhead hmark]
      exact Name.isTrimmed_join _
    · cases hcut : Text.cut? [Name.separator] text with
      | some parts =>
        rw [resolve_qualified hhead hmark hcut]
        split <;> exact Name.isTrimmed_join _
      | none =>
        rw [resolve_unqualified hhead hmark hcut]
        split
        · next target hfind => exact h.find? hfind
        · exact Name.isTrimmed_join _

end Lexical

/-- A text that is a name has no separators around it, but for a leading one. -/
theorem Name.isTrimmed_of_isSymbolName {t : Text} (h : isSymbolName t = true) :
    IsTrimmed (bare t) := by
  have hwell : ∀ line, (segments (bare line)).all isIdentifier = true → WellFormed line := by
    intro line hline p hp hnil
    have hid := List.all_eq_true.mp hline p hp
    rw [hnil] at hid
    exact Bool.false_ne_true hid
  simp only [isSymbolName, Text.holdsOfLine, Bool.or_eq_true, Bool.and_eq_true,
    decide_eq_true_eq] at h
  rcases h with hall | ⟨hlast, hline⟩
  · exact (hwell t hall).isTrimmed_bare
  · have hbare := (hwell _ hline).bare_ne_nil
    have htrimmed := (hwell _ hline).isTrimmed_bare
    obtain ⟨line, rfl⟩ := List.getLast?_eq_some_iff.mp hlast
    rw [List.dropLast_concat] at hbare htrimmed
    have hshape : bare (line ++ ['\n']) = bare line ++ ['\n'] := by
      cases line with
      | nil => exact absurd rfl hbare
      | cons c cs =>
        simp only [bare, List.cons_append]
        split <;> rfl
    rw [hshape]
    constructor
    · obtain ⟨c, cs, hcons⟩ := List.exists_cons_of_ne_nil hbare
      rw [hcons] at htrimmed ⊢
      exact htrimmed.1
    · rw [List.getLast?_concat]
      decide

namespace Relocation

variable {r : Relocation} {path : Text} {named : Prop}

/-- A symbol moves if it is not under the prefix yet and is renamed. -/
theorem moves_iff {kind : SymbolKind} {name : Text} :
    r.moves kind name = true
      ↔ r.hasMoved name = false ∧ r.classifier.classify kind name = .rename := by
  simp [moves, Classifier.renames]

/-- A rename of a symbol that moves is justified. -/
theorem justifies_of_moves {kind : SymbolKind} {name : Text} (h : r.moves kind name = true)
    (htrimmed : kind ≠ .nameSpace ∨ named → Name.IsTrimmed name) :
    r.Justifies path named ⟨name, r.relocate name, kind, some path⟩ where
  renamed := rfl
  unmoved := (moves_iff.mp h).1
  decided := .inl (moves_iff.mp h).2
  isTrimmed := htrimmed
  file := rfl

/-- What is renamed because of a reference moves. -/
theorem moves_of_reference {scope : Lexical} {kind : SymbolKind} {text name target : Text}
    (h : (r.reference scope kind text).rename = some (name, target)) :
    name = (scope.resolve kind text).name ∧ target = r.relocate name ∧ r.moves kind name = true := by
  unfold reference at h
  split at h
  · cases h
  · unfold referenceResolved at h
    split at h
    · cases h
    · next hsome =>
      split at h
      · next hrename =>
        cases h
        simp only [Bool.or_eq_true, not_or, Bool.not_eq_true] at hsome
        exact ⟨rfl, rfl, moves_iff.mpr ⟨hsome.2, hrename⟩⟩
      · split at h <;> cases h

/-- What is renamed because of a declaration is justified. -/
theorem justifies_of_declare {scope : Lexical} {kind : SymbolKind} {short name target : Text}
    (h : r.declare scope kind short = .renamed name target) :
    r.Justifies path named ⟨name, target, kind, some path⟩ := by
  simp only [declare] at h
  split at h
  · cases h
  · next hstays =>
    simp only [Bool.or_eq_true, not_or, Bool.not_eq_true] at hstays
    split at h
    · next hdecided =>
      cases h
      simp only [Bool.or_eq_true, decide_eq_true_eq] at hdecided
      exact ⟨rfl, hstays.2, hdecided, fun _ => Name.isTrimmed_join _, rfl⟩
    · split at h <;> cases h

/-- The rename of a symbol that a text mentions is justified. -/
theorem justifies_of_mentionOf? {kind : SymbolKind} {value : Text} {m : Mention}
    (h : r.mentionOf? kind value = some m) :
    r.Justifies path named ⟨m.name, m.renamed, m.kind, some path⟩ := by
  simp only [mentionOf?] at h
  split at h
  · cases h
  · next hname =>
    simp only [Bool.or_eq_true, not_or, Bool.not_eq_true, Bool.not_eq_false'] at hname
    by_cases hmoves : r.moves kind (Name.bare value) = true
    · rw [if_pos hmoves] at h
      cases h
      exact justifies_of_moves hmoves fun _ => Name.isTrimmed_of_isSymbolName hname.1
    · rw [if_neg hmoves] at h
      cases h

/-- What is renamed because of a name in a string is justified. -/
theorem justifies_of_mention? {kind : SymbolKind} {value : Text} {m : Mention}
    (h : r.mention? kind value = some m) :
    r.Justifies path named ⟨m.name, m.renamed, m.kind, some path⟩ := by
  unfold mention? at h
  split at h
  · obtain ⟨ofHolder, hholder, rfl⟩ := Option.map_eq_some_iff.mp h
    have hjustified : r.Justifies path named ⟨ofHolder.name, ofHolder.renamed, ofHolder.kind, some path⟩ :=
      justifies_of_mentionOf? hholder
    exact hjustified
  · exact justifies_of_mentionOf? h

end Relocation

/-- Every name in a tree is well formed, if it can be read at all. -/
def FileSetting.ReadsNames (w : FileSetting) (tree : Node) : Prop :=
  ∀ n ∈ tree.preorder, n.isName = true → ∀ t, w.source.text? n = some t → Name.WellFormed t

namespace FileSetting

variable {c : Conduct} {w : FileSetting} {named : Prop}

/-- Where the names of a tree can be read, those below a child can be. -/
theorem ReadsNames.child {tree n : Node} (h : w.ReadsNames tree) (hn : n ∈ tree.children) :
    w.ReadsNames n :=
  fun m hm => h m (Node.mem_preorder_trans hm (Node.mem_preorder_child hn))

/-- A name of a tree whose names can be read is well-formed. -/
theorem ReadsNames.wellFormed {n : Node} (h : w.ReadsNames n) (hname : n.isName = true) {t : Text}
    (htext : w.source.text? n = some t) : Name.WellFormed t :=
  h n (Node.mem_preorder_self n) hname t htext

/-- Queueing an edit leaves the scope tidy. -/
theorem preserves_queue (e : Edit) : Preserves c FileState.IsTidy (queue e) :=
  Spec.queue fun _ hs => hs

/-- Keeping a rename in mind leaves the scope tidy. -/
theorem isTidy_withRename {s : FileState} (h : s.IsTidy) (r : Rename) : (s.withRename r).IsTidy := by
  unfold FileState.withRename
  split <;> exact h

/-- A justified rename may be recorded. -/
theorem spec_record (hc : c.Allows w.relocation w.path named) {kind : SymbolKind} {name target : Text}
    (h : w.relocation.Justifies w.path named ⟨name, target, kind, some w.path⟩) :
    Preserves c FileState.IsTidy (w.record kind name target) := by
  have hstep : Preserves c FileState.IsTidy
      (liftM (Plan.record ⟨name, target, kind, some w.path⟩)) :=
    Spec.lift fun _ hs => Plan.Keeps.single (hc.record _ h) hs
  exact hstep.bind fun _ => Spec.modify fun _ hs => isTidy_withRename hs _

/-- The rename that a reference leads to is justified. -/
theorem spec_moveReference (hc : c.Allows w.relocation w.path named) {n : Node} (kind : SymbolKind)
    (hn : w.ReadsNames n) (hname : n.isName = true) :
    Preserves c FileState.IsTidy (w.moveReference kind n) := by
  refine spec_textOf_bind hc.isLenient fun text htext => ?_
  refine Spec.get_bind fun s hs => ?_
  have hrecord : Preserves c FileState.IsTidy
      (w.recordDecided kind (w.relocation.reference s.scope kind text).rename) := by
    cases hrename : (w.relocation.reference s.scope kind text).rename with
    | none => exact Preserves.pure _
    | some rename =>
      obtain ⟨name, target⟩ := rename
      obtain ⟨rfl, rfl, hmoves⟩ := Relocation.moves_of_reference hrename
      have htrimmed := hs.isTrimmed_resolve (hn.wellFormed hname htext) kind
      exact spec_record hc (Relocation.justifies_of_moves hmoves fun _ => htrimmed)
  dsimp only
  split
  · exact (preserves_queue _).bind fun _ => hrecord
  · exact hrecord

/-- The rename that a declaration leads to is justified. -/
theorem spec_recordDeclaration (hc : c.Allows w.relocation w.path named) (kind : SymbolKind)
    (name : Option Node) :
    Preserves c FileState.IsTidy (w.recordDeclaration kind name) := by
  cases name with
  | none => exact Preserves.pure _
  | some n =>
    refine spec_textOf_bind hc.isLenient fun short _ => ?_
    refine Spec.get_bind fun s _ => ?_
    dsimp only
    split
    · exact Preserves.pure _
    · next hrenamed => exact spec_record hc (Relocation.justifies_of_declare hrenamed)
    · exact Spec.note (hc.note _) fun _ hs => hs
    · exact Spec.note (hc.note _) fun _ hs => hs

/-- The renames that mentions in a text lead to are justified. -/
theorem spec_prefixMention (hc : c.Allows w.relocation w.path named) (kind : SymbolKind) (value : Text) :
    Preserves c FileState.IsTidy (w.prefixMention kind value) := by
  unfold prefixMention
  split
  · exact Preserves.pure _
  · next hmention =>
    refine (spec_record hc (Relocation.justifies_of_mention? hmention)).bind fun _ => ?_
    exact Preserves.pure _

end FileSetting

end PhpPrefixer
