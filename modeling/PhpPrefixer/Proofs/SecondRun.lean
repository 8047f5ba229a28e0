import PhpPrefixer.Proofs.HandFiles
import PhpPrefixer.Proofs.SecondVisit

/-!
# A second run

A file that was moved under the prefix is left alone when it is moved again. The main result is
`FileSetting.second_run_leaves_alone`.
-/

namespace PhpPrefixer

open PrefixingM

namespace FileSetting

open Prefixing

variable {w again : FileSetting}

/-- The second run leaves a reference alone. -/
theorem edits_moveReference_again (hroot : Name.IsRoot w.relocation.root)
    (hagain : again.relocation = w.relocation) {kind : SymbolKind} {m : Node} {text : Text}
    {s t : FileState}
    (htext : again.source.text? m = some (w.relocation.rewritten s.scope kind text))
    (hscope : t.scope = w.relocation.scopeAgain s.scope) :
    ∃ t', ((again.moveReference kind m).run t).outcome = .ok ((), t') ∧ t'.edits = t.edits := by
  refine ⟨_, outcome_moveReference kind t htext, ?_⟩
  rw [edits_stateAfter, hagain, hscope, Relocation.replacement_rewritten hroot]
  exact List.append_nil t.edits

/-- The second run leaves the name in a string alone. -/
theorem prefixMention_again (hroot : Prefix.validate (some w.relocation.root) = .ok w.relocation.root)
    (hagain : again.relocation = w.relocation) {kind : SymbolKind} {value spelled : Text}
    {s s' : FileState}
    (hrun : ((w.prefixMention kind value).run s).outcome = .ok (some spelled, s')) :
    again.prefixMention kind spelled = pure none := by
  obtain ⟨m, hmention, hspelled⟩ := exists_mention?_of_run hrun
  simp only [prefixMention, hagain, hspelled, Relocation.mention?_spelled hroot hmention]

/-- Two runs with the same rules, whatever these and the two files are. What the first run wrote or
left in place of a reference is left alone where the second run finds it: in the namespace after the
move, which does not move again, with the imports after the move. So is the declaration of a namespace,
be it one that was named, one that was given the name of the prefix, or one that was put in front of
global code; an import statement that imports something, be it plain, a group or a part of a group that
was split; and the contents of a string in which a name was moved. -/
theorem second_run_leaves_alone
    (hroot : Prefix.validate (some w.relocation.root) = .ok w.relocation.root)
    (hagain : again.relocation = w.relocation) :
    (∀ kind n m text s t, w.source.text? n = some text → ∃ s' written,
      ((w.moveReference kind n).run s).outcome = .ok ((), s')
        ∧ ((s'.edits = s.edits ∧ written = text) ∨ s'.edits = s.edits ++ [.replacing n written])
        ∧ (again.source.text? m = some written → t.scope = w.relocation.scopeAgain s.scope →
          ∃ t', ((again.moveReference kind m).run t).outcome = .ok ((), t') ∧ t'.edits = t.edits))
      ∧ (∀ n m s s' es, ((enterDeclaration w n).run s).outcome = .ok ((), s') →
        s'.edits = s.edits ++ es → DeclaredAfter w again es n m → IsIdle (enterDeclaration again m))
      ∧ (∀ tree m nameNode, m ∈ tree.namedChildren → m.type = namespaceType →
        m.child? "name" = some nameNode → again.source.text? nameNode = some w.relocation.root →
          IsIdle (wrapGlobal again tree) ∧ IsIdle (enterDeclaration again m))
      ∧ (∀ site siteAgain s d s' es, site.node.type = Node.useType →
        siteAgain.node.type = Node.useType →
        (((imports w).enter site).run s).outcome = .ok (d, s') → s'.edits = s.edits ++ es →
        again.IsReadable siteAgain.node → ImportedAfter w again es site.node siteAgain.node →
          IsIdle ((imports again).enter siteAgain))
      ∧ (∀ kind value spelled s s',
        ((w.prefixMention kind value).run s).outcome = .ok (some spelled, s') →
          again.prefixMention kind spelled = pure none) := by
  have hrootOf := Name.isRoot_of_validate hroot
  refine ⟨fun kind n m text s t htext => ?_, fun n m s s' es hrun hes h => ?_,
    fun tree m nameNode hm htype hname htext => ⟨isIdle_wrapGlobal hm htype, ?_⟩,
    fun site siteAgain s d s' es huse huseAgain hrun hes hreadable h => ?_,
    fun kind value spelled s s' hrun => prefixMention_again hroot hagain hrun⟩
  · refine ⟨_, w.relocation.rewritten s.scope kind text, outcome_moveReference kind s htext,
      w.edits_stateAfter_rewritten kind n text s, fun htextAgain hscope => ?_⟩
    exact edits_moveReference_again hrootOf hagain htextAgain hscope
  · exact isIdle_enterDeclaration_again hrootOf hagain hrun hes h
  · rw [← hagain] at hrootOf htext
    exact isIdle_enterDeclaration_root hrootOf hname htext
  · exact isIdle_imports_again hrootOf hagain huse huseAgain hrun hes hreadable h

end FileSetting

/-- All files have the same rules. -/
theorem HandFile.relocation_setting (f g : HandFile) : f.setting.relocation = g.setting.relocation :=
  rfl

/-- The same file under the prefix: the class `A\C` is kept, so its name is pinned and the group is
split. -/
def HandFile.afterRun : HandFile where
  code := "<?php namespace Humbug\\A; new \\A\\C; use Humbug\\A\\B;\nuse A\\C;\n"
  root := .program 60
    [.spaceNamed 24, .part "object_creation_expression" 26 34 [.part "qualified_name" 30 34 []],
      .plainUse 36 50, .plainUse 52 59]

namespace FileSetting

open Prefixing

/-- A name that was pinned, a namespace that was moved, one that was put in front of global code, a
part of a group that was split, and a string that names a member. -/
theorem second_run_leaves_alone_split :
    let w := HandFile.beforeRun.setting
    let again := HandFile.afterRun.setting
    let inside : Lexical := .entered "A".toList true
    (∃ s' t', ((w.moveReference .classLike (.part "name" 23 24 [])).run ⟨inside, [], []⟩).outcome
        = .ok ((), s')
        ∧ s'.edits = [.replacing (.part "name" 23 24 []) "\\A\\C".toList]
        ∧ ((again.moveReference .classLike (.part "qualified_name" 30 34 [])).run
          ⟨w.relocation.scopeAgain inside, [], []⟩).outcome = .ok ((), t')
        ∧ t'.edits = [])
      ∧ IsIdle (enterDeclaration again (.spaceNamed 24))
      ∧ IsIdle (wrapGlobal again (.program 60 [.spaceNamed 22]))
      ∧ IsIdle ((imports again).enter ⟨.plainUse 36 50, none, 0⟩)
      ∧ again.prefixMention .function "Humbug\\X::run".toList = pure none := by
  intro w again inside
  obtain ⟨hreference, hspace, hglobal, himports, hmention⟩ :=
    @second_run_leaves_alone w again (by decide +kernel) (HandFile.relocation_setting _ _)
  refine ⟨?_, ?_, ?_, ?_, ?_⟩
  · obtain ⟨s', written, hrun, hwritten, hagain⟩ := hreference .classLike (.part "name" 23 24 [])
      (.part "qualified_name" 30 34 []) "C".toList ⟨inside, [], []⟩
      ⟨w.relocation.scopeAgain inside, [], []⟩ (by decide +kernel)
    have hedits : s'.edits = [.replacing (.part "name" 23 24 []) "\\A\\C".toList] := by
      have hdecided : (((w.moveReference .classLike (.part "name" 23 24 [])).run
          ⟨inside, [], []⟩).outcome.toOption.map fun result => result.2.edits)
          = some [.replacing (.part "name" 23 24 []) "\\A\\C".toList] := by decide +kernel
      rw [hrun] at hdecided
      exact Option.some_inj.mp hdecided
    have hspelled : written = "\\A\\C".toList := by
      obtain ⟨hnone, -⟩ | hsome := hwritten
      · rw [hedits] at hnone
        cases hnone
      · rw [hedits] at hsome
        simpa [Edit.replacing] using hsome.symm
    obtain ⟨t', hrunAgain, hkept⟩ := hagain (by rw [hspelled]; decide +kernel) rfl
    exact ⟨s', t', hrun, hedits, hrunAgain, hkept⟩
  · have hdecided : (((enterDeclaration w (.spaceNamed 17)).run .start).outcome.toOption.map
        fun result => result.2.edits)
        = some [.replacing (.mk "namespace_name" true false ⟨16, 17⟩ (some "name") [])
          "Humbug\\A".toList] := by decide +kernel
    obtain ⟨_, s', hrun, hedits⟩ := PrefixingM.exists_of_run hdecided
    refine hspace (.spaceNamed 17) (.spaceNamed 24) _ s' _ hrun hedits (.named rfl rfl ?_)
    exact ⟨"A".toList, by decide +kernel, by decide +kernel⟩
  · refine (hglobal (.program 60 [.spaceNamed 22]) (.spaceNamed 22) _ ?_ rfl rfl ?_).1
    · exact List.mem_cons_of_mem _ List.mem_cons_self
    · decide +kernel
  · let n : Node := .part "namespace_use_declaration" 26 38 (Node.groupUse 26 ++ [.token ";" 37 38])
    let moved : Import := ⟨.part "name" 33 34 [], "A\\B".toList, .classLike, none, false⟩
    let kept : Import := ⟨.part "name" 35 36 [], "A\\C".toList, .classLike, none, false⟩
    have hdecided : ((((imports w).enter ⟨n, none, 0⟩).run .start).outcome.toOption.map
        fun result => result.2.edits)
        = some [.replacing n (w.relocation.splitGroup [moved, kept])] := by decide +kernel
    obtain ⟨d, s', hrun, hedits⟩ := PrefixingM.exists_of_run hdecided
    have hreadable : ∀ k ∈ (Node.plainUse 36 50).preorder, (again.source.text? k).isSome = true := by
      decide +kernel
    have hgroup : w.ReadsGroup n (.part "namespace_name" 30 31 [.part "name" 30 31 []]) "A".toList
        [moved, kept] := by
      refine ⟨rfl, by decide +kernel, _, rfl, .cons ?_ (.cons ?_ .nil)⟩
      · exact ⟨rfl, ⟨"B".toList, by decide +kernel, by decide +kernel, by decide +kernel⟩, rfl⟩
      · exact ⟨rfl, ⟨"C".toList, by decide +kernel, by decide +kernel, by decide +kernel⟩, rfl⟩
    refine himports ⟨n, none, 0⟩ ⟨.plainUse 36 50, none, 0⟩ _ d s' _ rfl rfl hrun hedits
      (fun k hk => Option.isSome_iff_exists.mp (hreadable k hk))
      (.split hgroup (List.mem_singleton_self _) List.mem_cons_self rfl (List.cons_ne_nil _ _) ?_)
    intro clause hclause
    obtain rfl := List.mem_singleton.mp hclause
    exact ⟨rfl, _, rfl, by decide +kernel⟩
  · have hdecided : (((w.prefixMention .function "X::run".toList).run .start).outcome.toOption.map
        fun result => result.1) = some (some "Humbug\\X::run".toList) := by decide +kernel
    obtain ⟨_, s', hrun, rfl⟩ := PrefixingM.exists_of_run hdecided
    exact hmention _ _ _ _ s' hrun

end FileSetting

end PhpPrefixer
