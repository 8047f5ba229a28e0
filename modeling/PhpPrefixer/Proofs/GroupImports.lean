import PhpPrefixer.Proofs.HandFiles
import PhpPrefixer.Proofs.ImportsAfter
import PhpPrefixer.Proofs.PlanRuns

/-!
# Groups of imports

A group of imports is rewritten as if each of its clauses were a statement of its own: the same symbols
are imported under the same names afterwards, the same renames are recorded in the same order, and the
same local names are known in the file. What is done for each import is said by `PrefixingM.Adopts`; it
does not depend on how the import is written. The main result is `Prefixing.group_as_plain_statements`.
-/

namespace PhpPrefixer

open Prefixing PrefixingM

namespace FileState

/-- The state with some more edits. -/
def queueing (s : FileState) (es : List Edit) : FileState := { s with edits := s.edits ++ es }

/-- Queueing no edits changes nothing. -/
@[simp] theorem queueing_nil (s : FileState) : s.queueing [] = s := by
  rw [queueing, List.append_nil]

/-- Edits may be queued in two parts. -/
@[simp] theorem queueing_queueing (s : FileState) (es es' : List Edit) :
    (s.queueing es).queueing es' = s.queueing (es ++ es') := by
  simp [queueing]

/-- Queueing edits and keeping a rename in mind do not depend on each other. -/
theorem queueing_withRename (s : FileState) (es : List Edit) (r : Rename) :
    (s.queueing es).withRename r = (s.withRename r).queueing es := by
  unfold withRename
  rw [apply_ite (queueing · es)]
  rfl

/-- The state in which the local name of an import is known. -/
def importing (s : FileState) (x : Imported) : FileState :=
  { s with scope := s.scope.importing x.kind x.localName x.target }

end FileState

namespace FileSetting

/-- The rename that is recorded for an import, if its symbol moves. -/
def recorded (w : FileSetting) (x : Imported) : List Rename :=
  if w.relocation.moves x.kind x.target then
    [⟨x.target, w.relocation.relocate x.target, x.kind, some w.path⟩]
  else []

/-- The state after an import was recorded and made known. -/
def adopted (w : FileSetting) (s : FileState) (x : Imported) : FileState :=
  ((w.recorded x).foldl FileState.withRename s).importing x

/-- An import that moves records its rename. -/
theorem recorded_of_moves {w : FileSetting} {x : Imported}
    (h : w.relocation.moves x.kind x.target = true) :
    w.recorded x = [⟨x.target, w.relocation.relocate x.target, x.kind, some w.path⟩] :=
  if_pos h

/-- An import that stays records nothing. -/
theorem recorded_of_stays {w : FileSetting} {x : Imported}
    (h : w.relocation.moves x.kind x.target = false) : w.recorded x = [] :=
  if_neg (Bool.eq_false_iff.mp h)

/-- What an import records depends on what moves and on the path only. -/
theorem recorded_congr {w w' : FileSetting} (hrelocation : w'.relocation = w.relocation)
    (hpath : w'.path = w.path) : w'.recorded = w.recorded := by
  funext x
  rw [recorded, recorded, hrelocation, hpath]

/-- What an import leads to depends on what moves and on the path only. -/
theorem adopted_congr {w w' : FileSetting} (hrelocation : w'.relocation = w.relocation)
    (hpath : w'.path = w.path) : w'.adopted = w.adopted := by
  funext s x
  rw [adopted, adopted, recorded_congr hrelocation hpath]

variable (w : FileSetting)

/-- Making an import known and queueing edits do not depend on each other. -/
theorem adopted_queueing (s : FileState) (es : List Edit) (x : Imported) :
    w.adopted (s.queueing es) x = (w.adopted s x).queueing es := by
  cases hmoves : w.relocation.moves x.kind x.target with
  | true =>
    simp only [adopted, recorded_of_moves hmoves, List.foldl_cons, List.foldl_nil,
      FileState.queueing_withRename]
    rfl
  | false =>
    simp only [adopted, recorded_of_stays hmoves]
    rfl

/-- Making several imports known and queueing edits do not depend on each other. -/
theorem foldl_adopted_queueing (s : FileState) (es : List Edit) (xs : List Imported) :
    xs.foldl w.adopted (s.queueing es) = (xs.foldl w.adopted s).queueing es := by
  induction xs generalizing s with
  | nil => rfl
  | cons x xs ih => rw [List.foldl_cons, adopted_queueing, ih, List.foldl_cons]

/-- Making an import known queues nothing. -/
theorem edits_adopted (s : FileState) (x : Imported) : (w.adopted s x).edits = s.edits := by
  cases hmoves : w.relocation.moves x.kind x.target with
  | true =>
    simp only [adopted, recorded_of_moves hmoves]
    exact withRename_edits s _
  | false =>
    simp only [adopted, recorded_of_stays hmoves]
    rfl

/-- Making several imports known queues nothing. -/
theorem edits_foldl_adopted (s : FileState) (xs : List Imported) :
    (xs.foldl w.adopted s).edits = s.edits := by
  induction xs generalizing s with
  | nil => rfl
  | cons x xs ih => rw [List.foldl_cons, ih, edits_adopted]

end FileSetting

/-- Work ends well with a result, adds some edits and makes some imports known, whatever the state is. -/
def PrefixingM.Adopts {α : Type} (w : FileSetting) (m : PrefixingM α) (a : α) (es : List Edit)
    (xs : List Imported) : Prop :=
  ∀ s, (m.run s).outcome = .ok (a, (xs.foldl w.adopted s).queueing es)
    ∧ (m.run s).renames = xs.flatMap w.recorded

namespace PrefixingM.Adopts

variable {α β : Type} {w : FileSetting}

/-- Giving a result adopts nothing. -/
protected theorem pure (a : α) : Adopts w (pure a) a [] [] := by
  intro s
  rw [FileState.queueing_nil]
  exact ⟨rfl, rfl⟩

/-- The edits and the imports of two pieces of work follow each other. -/
protected theorem bind {m : PrefixingM α} {next : α → PrefixingM β} {a : α} {b : β}
    {es es' : List Edit} {xs xs' : List Imported} (hm : Adopts w m a es xs)
    (hnext : Adopts w (next a) b es' xs') : Adopts w (m >>= next) b (es ++ es') (xs ++ xs') := by
  intro s
  obtain ⟨hout, hrenames⟩ := hm s
  obtain ⟨hout', hrenames'⟩ := hnext ((xs.foldl w.adopted s).queueing es)
  have hrun : (m >>= next).run s
      = ⟨(m.run s).steps ++ ((next a).run ((xs.foldl w.adopted s).queueing es)).steps,
        ((next a).run ((xs.foldl w.adopted s).queueing es)).outcome⟩ :=
    Plan.bind_of_ok hout
  rw [hrun]
  constructor
  · rw [hout', w.foldl_adopted_queueing, FileState.queueing_queueing, List.foldl_append]
  · rw [Plan.renames, List.filterMap_append, List.flatMap_append]
    exact congrArg₂ (· ++ ·) hrenames hrenames'

/-- Nothing is added by what only computes with the result. -/
protected theorem map {m : PrefixingM α} {a : α} {es : List Edit} {xs : List Imported}
    (hm : Adopts w m a es xs) (f : α → β) : Adopts w (m >>= fun a => pure (f a)) (f a) es xs := by
  have hall : Adopts w (m >>= fun a => pure (f a)) (f a) (es ++ []) (xs ++ []) :=
    hm.bind (.pure (f a))
  rwa [List.append_nil, List.append_nil] at hall

/-- Queueing an edit adopts nothing. -/
theorem queue (e : Edit) : Adopts w (PrefixingM.queue e) () [e] [] := fun _ => ⟨rfl, rfl⟩

/-- Telling something adopts nothing. -/
theorem note (level : Level) (channel : Channel) (message : String) :
    Adopts w (PrefixingM.note level channel message) () [] [] := by
  intro s
  rw [FileState.queueing_nil]
  exact ⟨rfl, rfl⟩

/-- Adopting an import makes it known and edits nothing. -/
theorem adopt (w : FileSetting) (i : Import) : Adopts w (Prefixing.adopt w i) () [] [i.imported] := by
  intro s
  rw [FileState.queueing_nil, List.foldl_cons, List.foldl_nil, List.flatMap_singleton]
  cases hmoves : w.relocation.movesImport i with
  | true =>
    have hadopt : Prefixing.adopt w i = (w.record i.kind i.name (w.relocation.relocate i.name)
        >>= fun _ => importName i.kind i.localName i.name) := by
      rw [Prefixing.adopt, hmoves]
      rfl
    rw [hadopt, FileSetting.adopted, FileSetting.recorded_of_moves (x := i.imported) hmoves]
    exact ⟨rfl, rfl⟩
  | false =>
    have hadopt : Prefixing.adopt w i = importName i.kind i.localName i.name := by
      rw [Prefixing.adopt, hmoves]
      rfl
    rw [hadopt, FileSetting.adopted, FileSetting.recorded_of_stays (x := i.imported) hmoves]
    exact ⟨rfl, rfl⟩

/-- Adopting several imports makes them known in turn and edits nothing. -/
theorem adoptAll (w : FileSetting) (is : List Import) :
    Adopts w (Prefixing.adoptAll w is) () [] (is.map Import.imported) := by
  induction is with
  | nil => exact .pure ()
  | cons i is ih => exact (adopt w i).bind ih

/-- Moving several imports makes them known in turn, with the edits of those that move. -/
theorem moveAll (w : FileSetting) (is : List Import) :
    Adopts w (Prefixing.moveAll w is) () (moveEdits w.relocation is) (is.map Import.imported) := by
  induction is with
  | nil => exact .pure ()
  | cons i is ih =>
    have hrest : Adopts w (Prefixing.adopt w i >>= fun _ => Prefixing.moveAll w is) ()
        (moveEdits w.relocation is) (i.imported :: is.map Import.imported) := (adopt w i).bind ih
    cases hmoves : w.relocation.movesImport i with
    | true =>
      simp only [Prefixing.moveAll, moveEdits, List.filter_cons_of_pos hmoves, hmoves]
      exact (queue _).bind hrest
    | false =>
      have hskip := List.filter_cons_of_neg (l := is) (Bool.eq_false_iff.mp hmoves)
      simp only [Prefixing.moveAll, moveEdits, hskip, hmoves]
      exact hrest

end PrefixingM.Adopts

namespace Prefixing

variable {w : FileSetting} {n : Node}

/-- A group makes its imports known, with the one edit for the group if there is one. -/
theorem adopts_enterGroup {group base : Node} {kind : SymbolKind} {text : Text} {is : List Import}
    (hbase : groupBase? n = some base) (htext : w.source.text? base = some text)
    (hread : readGroup w kind (Name.bare text) (groupClauses group) = pure (.ok is)) :
    Adopts w (enterGroup w n group kind) ()
      (groupEdit? w.relocation n base (Name.bare text) is).toList (is.map Import.imported) := by
  rw [groupClauses] at hread
  simp only [enterGroup, hbase, FileSetting.textOf, htext, pure_bind, hread]
  have hlast : ∀ message, Adopts w
      (if (is.any w.relocation.movesImport && !is.all w.relocation.movesImport) = true then do
        note .debug .namespaces message
        adoptAll w is
      else adoptAll w is) () [] (is.map Import.imported) := by
    intro message
    split
    · exact (Adopts.note _ _ _).bind (Adopts.adoptAll w is)
    · exact Adopts.adoptAll w is
  cases groupEdit? w.relocation n base (Name.bare text) is with
  | some e => exact (Adopts.queue e).bind (hlast _)
  | none => exact hlast _

/-- A plain statement makes its import known, with the edit for it if it moves. -/
theorem adopts_enterPlain {clause : Node} {kind : SymbolKind} {i : Import}
    (hclauses : plainClauses n = [clause])
    (hread : readClause w kind [] clause = pure (some i)) :
    Adopts w (enterPlain w n kind) () (moveEdits w.relocation [i]) [i.imported] := by
  have hreads : readClauses w kind (plainClauses n) = pure (some [i]) := by
    simp [hclauses, readClauses, hread]
  rw [plainClauses] at hreads
  simp only [enterPlain, hreads, pure_bind]
  exact Adopts.moveAll w [i]

/-- Coming to an import statement, and what it imports when this is done. -/
def rewritten (w : FileSetting) (site : Site) : PrefixingM (Option (List Imported)) := do
  let before ← get
  let _ ← (imports w).enter site
  let after ← get
  return w.importsAfter? (after.edits.drop before.edits.length) site.node

/-- What an import statement imports in the end is what is read from it with its edits. -/
theorem adopts_rewritten {site : Site} {d : Descent} {es : List Edit} {xs : List Imported}
    (h : Adopts w ((imports w).enter site) d es xs) :
    Adopts w (rewritten w site) (w.importsAfter? es site.node) es xs := by
  intro s
  obtain ⟨hout, hrenames⟩ := h s
  have hdrop : ((xs.foldl w.adopted s).queueing es).edits.drop s.edits.length = es := by
    rw [FileState.queueing, w.edits_foldl_adopted, List.drop_left]
  have hrun : (rewritten w site).run s = (((imports w).enter site).run s >>= fun result =>
      pure (w.importsAfter? (result.2.edits.drop s.edits.length) site.node, result.2)) := rfl
  rw [hrun, Plan.bind_of_ok hout, hdrop]
  refine ⟨rfl, ?_⟩
  rw [← hrenames]
  exact congrArg (List.filterMap Step.rename?) (List.append_nil _)

variable {site : Site}

/-- A group is rewritten, and all its imports are made known. -/
theorem exists_adopts_group
    (hvalid : Prefix.validate (some w.relocation.root) = .ok w.relocation.root) {group base : Node}
    (h : w.IsGroupUse site.node group base) :
    ∃ before es, w.importsOf? site.node = some before
      ∧ Adopts w (rewritten w site) (some (before.map w.relocation.importedAfter)) es before := by
  obtain ⟨text, is, hreads, hread⟩ := h.exists_reading
  have henter : Adopts w ((imports w).enter site) .skip
      (groupEdit? w.relocation site.node base (Name.bare text) is).toList (is.map Import.imported) := by
    rw [enter_imports_group h.type h.hasGroup]
    exact (adopts_enterGroup h.hasBase hreads.baseText hread).map fun _ => Descent.skip
  have hrewritten := adopts_rewritten henter
  rw [hreads.importsAfter?_groupEdit hvalid] at hrewritten
  exact ⟨is.map Import.imported, _, hreads.importsOf?_eq, hrewritten⟩

/-- A statement that imports one symbol is rewritten, and the import is made known. -/
theorem exists_adopts_plain (hroot : Name.IsRoot w.relocation.root) (h : w.IsPlainUse site.node)
    {x : Imported} (hx : w.importsOf? site.node = some [x]) :
    ∃ es, Adopts w (rewritten w site) (some [w.relocation.importedAfter x]) es [x] := by
  obtain ⟨clause, i, hreads, rfl, hread⟩ := h.exists_reading hx
  have henter : Adopts w ((imports w).enter site) .skip (moveEdits w.relocation [i])
      [i.imported] := by
    rw [enter_imports_plain h.type h.plain]
    exact (adopts_enterPlain hreads.clauses hread).map fun _ => Descent.skip
  have hrewritten := adopts_rewritten henter
  rw [hreads.importsAfter?_moveEdits hroot] at hrewritten
  exact ⟨_, hrewritten⟩

/-- Statements that import one symbol each are rewritten one by one. -/
theorem exists_adopts_each (hroot : Name.IsRoot w.relocation.root) {xs : List Imported}
    {sites : List Site} (h : List.Forall₂ (fun x site => w.IsPlainUse site.node
      ∧ w.importsOf? site.node = some [x]) xs sites) :
    ∃ es, Adopts w (sites.mapM (rewritten w)) (xs.map fun x => some [w.relocation.importedAfter x])
      es xs := by
  induction h with
  | nil => exact ⟨[], .pure []⟩
  | @cons x site xs sites hfirst _ ih =>
    obtain ⟨es, hx⟩ := exists_adopts_plain hroot hfirst.1 hfirst.2
    obtain ⟨es', hxs⟩ := ih
    have hrest := hxs.map fun rest => some [w.relocation.importedAfter x] :: rest
    rw [List.mapM_cons]
    exact ⟨_, Adopts.bind hx hrest⟩

/-- A group of imports is rewritten clause by clause. It imports the same symbols as before in the same
order, with the same kinds and local names; a symbol that is not under the prefix and that nothing keeps
has its new name, the others have their names as before. The same comes of statements that import the
symbols one by one: as much is read from them afterwards, the same local names are known, and the same
renames are recorded. So, unless a rename is in conflict with the registry, both end well and leave the
same registry behind. -/
theorem group_as_plain_statements {w : FileSetting} {site : Site} {group base : Node}
    (hvalid : Prefix.validate (some w.relocation.root) = .ok w.relocation.root)
    (hgroup : w.IsGroupUse site.node group base) :
    ∃ before, w.importsOf? site.node = some before ∧ ∀ s, ∃ s',
      let whole := (rewritten w site).run s
      whole.outcome = .ok (some (before.map w.relocation.importedAfter), s')
      ∧ whole.renames = before.flatMap w.recorded
      ∧ ∀ (w' : FileSetting) (sites : List Site), w'.relocation = w.relocation → w'.path = w.path →
        List.Forall₂ (fun x single => w'.IsPlainUse single.node ∧ w'.importsOf? single.node = some [x])
          before sites →
        ∃ t,
          let each := (sites.mapM (rewritten w')).run s
          each.outcome = .ok (before.map fun x => some [w.relocation.importedAfter x], t)
          ∧ t.scope = s'.scope ∧ t.renames = s'.renames ∧ each.renames = whole.renames
          ∧ ∀ run g, run.registry.recordAll whole.renames = (g, none) →
            ∃ after after', whole.run run = (whole.outcome, after) ∧ after.registry = g
              ∧ each.run run = (each.outcome, after') ∧ after'.registry = g := by
  obtain ⟨before, es, hbefore, hwhole⟩ := exists_adopts_group hvalid hgroup
  refine ⟨before, hbefore, fun s => ⟨_, (hwhole s).1, (hwhole s).2, ?_⟩⟩
  intro w' sites hrelocation hpath hsites
  have hroot : Name.IsRoot w'.relocation.root := hrelocation ▸ Name.isRoot_of_validate hvalid
  obtain ⟨es', heach⟩ := exists_adopts_each hroot hsites
  have hadopted : w'.adopted = w.adopted := FileSetting.adopted_congr hrelocation hpath
  have hrenames : ((sites.mapM (rewritten w')).run s).renames = ((rewritten w site).run s).renames := by
    rw [(heach s).2, (hwhole s).2, FileSetting.recorded_congr hrelocation hpath]
  refine ⟨_, hrelocation ▸ (heach s).1, ?_, ?_, hrenames, ?_⟩
  · rw [hadopted]
    rfl
  · rw [hadopted]
    rfl
  · intro run g hrecorded
    obtain ⟨after, hrun, hafter⟩ := Plan.run_of_recorded hrecorded
    obtain ⟨after', hrun', hafter'⟩ := Plan.run_of_recorded (hrenames.symm ▸ hrecorded)
    exact ⟨after, after', hrun, hafter, hrun', hafter'⟩

end Prefixing

namespace HandFile

/-- A class that is imported under another name and a function, in a group. -/
def twoInGroup : HandFile where
  code := "<?php use A\\\x7bB as D,function c\x7d;"
  root := .part "namespace_use_declaration" 6 32
    [.token "use" 6 9, .part "namespace_name" 10 11 [.part "name" 10 11 []], .token "\\" 11 12,
      .part "namespace_use_group" 12 31
        [.token "\x7b" 12 13,
          .part "namespace_use_clause" 13 19
            [.part "name" 13 14 [], .token "as" 15 17, .part "name" 18 19 []],
          .token "," 19 20,
          .part "namespace_use_clause" 20 30 [.token "function" 20 28, .part "name" 29 30 []],
          .token "\x7d" 30 31],
      .token ";" 31 32]

/-- The same imports in statements of their own. -/
def twoApart : HandFile where
  code := "<?php use A\\B as D; use function A\\c;"
  root := .program 37
    [.part "namespace_use_declaration" 6 19
        [.token "use" 6 9,
          .part "namespace_use_clause" 10 18
            [.part "qualified_name" 10 13 [], .token "as" 14 16, .part "name" 17 18 []],
          .token ";" 18 19],
      .part "namespace_use_declaration" 20 37
        [.token "use" 20 23, .token "function" 24 32,
          .part "namespace_use_clause" 33 36 [.part "qualified_name" 33 36 []], .token ";" 36 37]]

/-- The setting of a file under other exclusion rules. -/
def under (f : HandFile) (whitelist : Whitelist) : FileSetting :=
  { f.setting with relocation := ⟨"Humbug".toList, ⟨HandFile.natives, whitelist⟩⟩ }

/-- All files have the same rules and the same path. -/
theorem under_alike (f g : HandFile) (whitelist : Whitelist) :
    (f.under whitelist).relocation = (g.under whitelist).relocation
      ∧ (f.under whitelist).path = (g.under whitelist).path :=
  ⟨rfl, rfl⟩

/-- The sites of the statements of a file. -/
def sites (f : HandFile) : List Site := (Site.mk f.root none 0).below.drop 1

/-- The imports of the class and the function under some names. -/
def twoImports (className functionName : String) : List Imported :=
  [⟨.classLike, "D".toList, className.toList⟩, ⟨.function, "c".toList, functionName.toList⟩]

variable (whitelist : Whitelist)

/-- The group is an import statement as a parser promises it. -/
theorem isGroupUse_twoInGroup :
    ∃ group base, (twoInGroup.under whitelist).IsGroupUse twoInGroup.root group base := by
  have hspelled : ∀ k ∈ twoInGroup.root.preorder, k.isName = true →
      ∃ t ∈ twoInGroup.setting.source.text? k, Name.WellFormed t ∧ Imported.IsUnbroken t := by
    decide +kernel
  exact ⟨_, _, ⟨rfl, by decide +kernel, by decide +kernel, hspelled⟩, rfl, rfl, by decide +kernel,
    by decide +kernel⟩

/-- The plain statements are import statements as a parser promises them. -/
theorem isPlainUse_twoApart :
    ∀ site ∈ twoApart.sites, (twoApart.under whitelist).IsPlainUse site.node := by
  have hspelled : ∀ site ∈ twoApart.sites, ∀ k ∈ site.node.preorder, k.isName = true →
      ∃ t ∈ twoApart.setting.source.text? k, Name.WellFormed t ∧ Imported.IsUnbroken t := by
    decide +kernel
  have hlayout : ∀ site ∈ twoApart.sites, site.node.type = Node.useType ∧ site.node.IsRegularTree
      ∧ (∃ word ∈ site.node.children, word.named = false ∧ word.span.start < word.span.stop)
      ∧ site.node.namedChildren.find? (fun c => c.type = Prefixing.groupType) = none := by
    decide +kernel
  intro site hsite
  obtain ⟨htype, hregular, hworded, hplain⟩ := hlayout site hsite
  exact ⟨⟨htype, hregular, hworded, hspelled site hsite⟩, hplain⟩

/-- The statements import what the group does, one by one. -/
theorem importsOf?_twoApart :
    List.Forall₂ (fun x site => (twoApart.under whitelist).IsPlainUse site.node
      ∧ (twoApart.under whitelist).importsOf? site.node = some [x])
      (twoImports "A\\B" "A\\c") twoApart.sites := by
  have hplain := isPlainUse_twoApart whitelist
  have hread : twoApart.sites.map (fun site =>
      Imported.ofUse? twoApart.setting.source.text? site.node)
      = (twoImports "A\\B" "A\\c").map fun x => some [x] := by decide +kernel
  obtain ⟨hfirst, hrest⟩ := List.cons.inj hread
  obtain ⟨hsecond, -⟩ := List.cons.inj hrest
  exact .cons ⟨hplain _ List.mem_cons_self, hfirst⟩
    (.cons ⟨hplain _ (List.mem_cons_of_mem _ List.mem_cons_self), hsecond⟩ .nil)

end HandFile

namespace Prefixing

open HandFile

/-- Under some rules, the class and the function have some names when the group was rewritten, and when
the statements were, and then the same is known of them. -/
def TwoRewritten (whitelist : Whitelist) (className functionName : String) : Prop :=
  let w := twoInGroup.under whitelist
  Prefix.validate (some w.relocation.root) = .ok w.relocation.root
    ∧ (∃ group base, w.IsGroupUse twoInGroup.root group base)
    ∧ ∃ s' t, ((rewritten w ⟨twoInGroup.root, none, 0⟩).run .start).outcome
        = .ok (some (twoImports className functionName), s')
      ∧ ((twoApart.sites.mapM (rewritten (twoApart.under whitelist))).run .start).outcome
        = .ok ((twoImports className functionName).map fun x => some [x], t)
      ∧ t.scope = s'.scope ∧ t.renames = s'.renames

/-- The group is moved as a whole, split, and left alone. -/
theorem group_as_plain_statements_twoImports :
    TwoRewritten .empty "Humbug\\A\\B" "Humbug\\A\\c"
      ∧ TwoRewritten { Whitelist.empty with functions := ["a\\c".toList] } "Humbug\\A\\B" "A\\c"
      ∧ TwoRewritten { Whitelist.empty with excludedNamespaces := ["a".toList] } "A\\B" "A\\c" := by
  have hvalid : Prefix.validate (some "Humbug".toList) = .ok "Humbug".toList := by decide +kernel
  have hread : Imported.ofUse? twoInGroup.setting.source.text? twoInGroup.root
      = some (twoImports "A\\B" "A\\c") := by decide +kernel
  have hrewritten : ∀ whitelist className functionName,
      (twoImports "A\\B" "A\\c").map (twoInGroup.under whitelist).relocation.importedAfter
        = twoImports className functionName → TwoRewritten whitelist className functionName := by
    intro whitelist className functionName hafter
    obtain ⟨group, base, hgroup⟩ := isGroupUse_twoInGroup whitelist
    obtain ⟨before, hbefore, hall⟩ := @group_as_plain_statements (twoInGroup.under whitelist)
      ⟨twoInGroup.root, none, 0⟩ group base hvalid hgroup
    obtain rfl := Option.some_inj.mp (hbefore.symm.trans hread)
    obtain ⟨s', hwhole, -, heach⟩ := hall .start
    obtain ⟨hrelocation, hpath⟩ := under_alike twoApart twoInGroup whitelist
    obtain ⟨t, hout, hscope, hrenames, -⟩ := heach (twoApart.under whitelist) twoApart.sites
      hrelocation hpath (importsOf?_twoApart whitelist)
    have hafterEach : (twoImports "A\\B" "A\\c").map
        (fun x => some [(twoInGroup.under whitelist).relocation.importedAfter x])
        = (twoImports className functionName).map fun x => some [x] := by
      rw [← hafter, List.map_map]
      rfl
    rw [hafter] at hwhole
    rw [hafterEach] at hout
    exact ⟨hvalid, ⟨group, base, hgroup⟩, s', t, hwhole, hout, hscope, hrenames⟩
  exact ⟨hrewritten _ _ _ (by decide +kernel), hrewritten _ _ _ (by decide +kernel),
    hrewritten _ _ _ (by decide +kernel)⟩

end Prefixing

end PhpPrefixer
