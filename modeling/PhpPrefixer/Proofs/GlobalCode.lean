import Mathlib.Data.List.TakeWhile
import PhpPrefixer.Proofs.HandFiles
import PhpPrefixer.Proofs.Layout

/-!
# Global code

A file that declares no namespace is given a declaration of its own, if it starts with the opening tag. Only
`declare` statements and comments may stand in front of the declaration, and all leading `declare` statements
have to, since they must be the first of a file. `Prefixing.Declares` says what is inserted and where it may
stand. The declaration is put behind the last leading `declare` statement, or else in front of whatever
follows the tag, or else behind the tag, and each of these is such a place (`Prefixing.declares_wrapping`).

The main result is `Prefixing.global_code_wrapped`. Of the tree it needs no more than that the children of
its root follow one another.
-/

namespace PhpPrefixer

/-- The statements of a file follow one another. -/
theorem Node.HasOrderedChildren.statements {root first : Node} {rest : List Node}
    (h : root.HasOrderedChildren) (hstatements : root.namedChildren = first :: rest) :
    (∀ n ∈ first :: rest, n ∈ root.children) ∧ (∀ n ∈ rest, first.span.stop ≤ n.span.start)
      ∧ rest.Pairwise fun a b => a.span.stop ≤ b.span.start := by
  have hordered : root.namedChildren.Pairwise fun a b => a.span.stop ≤ b.span.start :=
    h.ordered.filter _
  rw [hstatements] at hordered
  refine ⟨fun n hn => ?_, List.pairwise_cons.mp hordered⟩
  rw [← hstatements] at hn
  exact Node.mem_children_of_namedChildren hn

/-- Inserting a text replaces nothing. -/
theorem Edit.isInsertion_inserting (position : Nat) (text : Text) :
    (Edit.inserting position text).isInsertion = true := by
  simp [Edit.inserting, Edit.isInsertion]

namespace Prefixing

open PrefixingM

/-- The type of `declare` statements. -/
def declareType : String := "declare_statement"

/-- Whether a statement may stand in front of the declaration of a namespace. -/
def mayPrecede (n : Node) : Bool := n.type = declareType || n.type = "comment"

variable {n first root : Node} {ns rest : List Node}

/-- The first statement behind the leading ones is a statement. -/
theorem mem_of_head?_dropWhile (h : n ∈ (ns.dropWhile mayPrecede).head?) : n ∈ ns :=
  (List.dropWhile_suffix _).mem (List.mem_of_mem_head? h)

/-- If there is no last `declare` statement among the leading ones, there is none. -/
theorem lastDeclare?_eq_none (h : lastDeclare? ns = none) :
    ∀ n ∈ ns.takeWhile mayPrecede, n.type ≠ declareType := by
  fun_induction lastDeclare? ns with
  | case1 => simp
  | case2 n ns hdeclare ih => cases h
  | case3 n ns hdeclare hcomment ih =>
    have hn : mayPrecede n = true := by simp [mayPrecede, hcomment]
    rw [List.takeWhile_cons_of_pos hn]
    exact List.forall_mem_cons.mpr ⟨hdeclare, ih h⟩
  | case4 n ns hdeclare hcomment =>
    have hn : ¬mayPrecede n = true := by simp [mayPrecede, hcomment, declareType, hdeclare]
    rw [List.takeWhile_cons_of_neg hn]
    simp

/-- Only `declare` statements and comments stand in front of the last `declare` statement, and behind it
comments and then another statement. -/
theorem exists_of_lastDeclare? (h : lastDeclare? ns = some n) :
    ∃ before after, ns = before ++ n :: after ∧ (∀ m ∈ before ++ [n], mayPrecede m = true)
      ∧ ∀ m ∈ after.takeWhile mayPrecede, m.type ≠ declareType := by
  fun_induction lastDeclare? ns with
  | case1 => cases h
  | case2 m ns hdeclare ih =>
    have hm : mayPrecede m = true := by simp [mayPrecede, declareType, hdeclare]
    cases hlast : lastDeclare? ns with
    | none =>
      rw [hlast] at h
      cases h
      exact ⟨[], ns, rfl, by simpa using hm, lastDeclare?_eq_none hlast⟩
    | some k =>
      rw [hlast] at h
      cases h
      obtain ⟨before, after, rfl, hbefore, hafter⟩ := ih hlast
      exact ⟨m :: before, after, rfl, List.forall_mem_cons.mpr ⟨hm, hbefore⟩, hafter⟩
  | case3 m ns hdeclare hcomment ih =>
    have hm : mayPrecede m = true := by simp [mayPrecede, hcomment]
    obtain ⟨before, after, rfl, hbefore, hafter⟩ := ih h
    exact ⟨m :: before, after, rfl, List.forall_mem_cons.mpr ⟨hm, hbefore⟩, hafter⟩
  | case4 m ns hdeclare hcomment => cases h

/-- The declaration of the namespace that a prefix names. -/
def declaration (name : Text) : Text := "namespace ".toList ++ name ++ [';']

/-- An edit gives global code its declaration, at a place where one may stand. The file starts with the tag
`first`, which the statements `rest` follow. -/
structure Declares (name : Text) (root first : Node) (rest : List Node) (e : Edit) : Prop where
  /-- Nothing is replaced. -/
  insertion : e.isInsertion = true
  /-- The declaration is set off from the statement that it is put to, behind it or in front of it. -/
  text : (e.text = ['\n', '\n'] ++ declaration name ∧ ∃ n ∈ first :: rest, e.start = n.span.stop)
    ∨ (e.text = declaration name ++ ['\n', '\n'] ∧ ∃ n ∈ rest, e.start = n.span.start)
  /-- It stands behind the opening tag. -/
  behindTag : first.span.stop ≤ e.start
  /-- It stands behind every leading `declare` statement. -/
  behindDeclares : ∀ n ∈ rest.takeWhile mayPrecede, n.type = declareType → n.span.stop ≤ e.start
  /-- It stands in front of the first other statement. -/
  inFront : ∀ n ∈ (rest.dropWhile mayPrecede).head?, e.start ≤ n.span.start
  /-- It stands in none of the children, named or not. -/
  isBoundary : root.IsBoundary e.start

/-- Behind the last leading `declare` statement. -/
theorem declares_behind_declare (hroot : root.HasOrderedChildren) {before after : List Node}
    (hstatements : root.namedChildren = first :: (before ++ n :: after))
    (hbefore : ∀ m ∈ before ++ [n], mayPrecede m = true)
    (hafter : ∀ m ∈ after.takeWhile mayPrecede, m.type ≠ declareType) (name : Text) :
    Declares name root first (before ++ n :: after)
      (.inserting n.span.stop (['\n', '\n'] ++ declaration name)) := by
  obtain ⟨hmem, htag, hrest⟩ := hroot.statements hstatements
  obtain ⟨-, hbehind, hacross⟩ := List.pairwise_append.mp hrest
  have hn : n ∈ first :: (before ++ n :: after) := by simp
  have hforward := hroot.forward n (hmem n hn)
  refine ⟨Edit.isInsertion_inserting _ _, .inl ⟨rfl, n, hn, rfl⟩, ?_, fun m hm hdeclare => ?_,
    fun m hm => ?_, hroot.isBoundary_stop (hmem n hn)⟩
  · exact Nat.le_trans (htag n (by simp)) hforward
  · rw [List.append_cons, List.takeWhile_append_of_pos hbefore, ← List.append_cons] at hm
    rcases List.mem_append.mp hm with hm | hm
    · exact Nat.le_trans (hacross m hm n List.mem_cons_self) hforward
    · rcases List.mem_cons.mp hm with rfl | hm
      · exact Nat.le_refl _
      · exact absurd hdeclare (hafter m hm)
  · rw [List.append_cons, List.dropWhile_append_of_pos hbefore] at hm
    exact (List.pairwise_cons.mp hbehind).1 m (mem_of_head?_dropWhile hm)

/-- In front of whatever follows the tag, if no `declare` statement is leading. -/
theorem declares_in_front (hroot : root.HasOrderedChildren)
    (hstatements : root.namedChildren = first :: n :: ns)
    (hnone : ∀ m ∈ (n :: ns).takeWhile mayPrecede, m.type ≠ declareType) (name : Text) :
    Declares name root first (n :: ns)
      (.inserting n.span.start (declaration name ++ ['\n', '\n'])) := by
  obtain ⟨hmem, htag, hrest⟩ := hroot.statements hstatements
  have hn : n ∈ root.children := hmem n (by simp)
  refine ⟨Edit.isInsertion_inserting _ _, .inr ⟨rfl, n, List.mem_cons_self, rfl⟩,
    htag n List.mem_cons_self, fun m hm hdeclare => absurd hdeclare (hnone m hm), fun m hm => ?_,
    hroot.isBoundary_start hn⟩
  rcases List.mem_cons.mp (mem_of_head?_dropWhile hm) with rfl | hm
  · exact Nat.le_refl _
  · exact Nat.le_trans (hroot.forward n hn) ((List.pairwise_cons.mp hrest).1 m hm)

/-- Behind the tag, if nothing follows it. -/
theorem declares_behind_tag (hroot : root.HasOrderedChildren)
    (hstatements : root.namedChildren = [first]) (name : Text) :
    Declares name root first [] (.inserting first.span.stop (['\n', '\n'] ++ declaration name)) := by
  obtain ⟨hmem, -, -⟩ := hroot.statements hstatements
  exact ⟨Edit.isInsertion_inserting _ _, .inl ⟨rfl, first, List.mem_cons_self, rfl⟩,
    Nat.le_refl _, by simp, by simp, hroot.isBoundary_stop (hmem first List.mem_cons_self)⟩

/-- The declaration is inserted where it may stand. -/
theorem declares_wrapping (hroot : root.HasOrderedChildren)
    (hstatements : root.namedChildren = first :: rest) (name : Text) :
    Declares name root first rest (wrapping name first rest) := by
  unfold wrapping
  dsimp only
  split
  · next n hlast =>
    obtain ⟨before, after, rfl, hbefore, hafter⟩ := exists_of_lastDeclare? hlast
    exact declares_behind_declare hroot hstatements hbefore hafter name
  · next hlast =>
    cases rest with
    | nil => exact declares_behind_tag hroot hstatements name
    | cons n ns => exact declares_in_front hroot hstatements (lastDeclare?_eq_none hlast) name

/-- A report of what cannot be handled leaves the state alone, and fails if the file is to be given up. -/
theorem exists_report (w : FileSetting) (line : Nat) (reason : String) :
    ∃ report : Plan Unit, (∀ s, (w.reportUnsupported line reason).run s = do report; return ((), s))
      ∧ ∀ f, report.outcome = .error f ↔ w.policy = .fail ∧ f = .unsupported ⟨w.path, line, reason⟩ := by
  cases hpolicy : w.policy with
  | fail =>
    refine ⟨Plan.fail (.unsupported ⟨w.path, line, reason⟩), fun s => ?_, fun f => ?_⟩
    · rw [FileSetting.reportUnsupported, hpolicy]
      rfl
    · simp [Plan.fail, eq_comm]
  | skip =>
    refine ⟨Plan.note .warning .traversal
      (w.shownPath ++ ":" ++ toString line ++ ": " ++ reason ++ ", left unprefixed"), fun s => ?_,
      fun f => ?_⟩
    · rw [FileSetting.reportUnsupported, hpolicy]
      rfl
    · simp [Plan.note]

/-- Why global code behind other contents stays as it is. -/
def precededReason : String := "global code preceded by inline HTML cannot be namespaced"

/-- Global code gets its declaration at the right place. In a file without a declaration of a namespace that
starts with the opening tag, one edit is queued and no other: it inserts the declaration, behind the tag and
the leading `declare` statements and in front of the first statement that is neither such a statement nor a
comment, and in none of the statements. The walk then starts in the global namespace, which moves, without
any import. In a file that starts otherwise, or is empty, no edit is queued and the namespace does not move;
if there is an opening tag further on, this is reported, which gives the file up if the policy is to fail. -/
theorem global_code_wrapped (w : FileSetting) (s : FileState) {root : Node}
    (hglobal : ∀ n ∈ root.namedChildren, n.type ≠ namespaceType) (hroot : root.HasOrderedChildren) :
    (∀ first rest, root.namedChildren = first :: rest → first.type = "php_tag" →
      ∃ e, ((wrapGlobal w root).run s).outcome
          = .ok ((), ⟨⟨[], true, .empty⟩, s.edits ++ [e], s.renames⟩)
        ∧ Declares w.relocation.root root first rest e)
    ∧ ((∀ first ∈ root.namedChildren.head?, first.type ≠ "php_tag") →
      ∃ report : Plan Unit,
        (wrapGlobal w root).run s = (do report; return ((), ⟨⟨[], false, .empty⟩, s.edits, s.renames⟩))
          ∧ ∀ f, report.outcome = .error f ↔ w.policy = .fail ∧ ∃ first rest,
            root.namedChildren = first :: rest ∧ (∃ n ∈ rest, n.type = "php_tag")
              ∧ f = .unsupported ⟨w.path, w.source.lineOf first, precededReason⟩) := by
  have hnone : ¬(root.namedChildren.any fun n => n.type = namespaceType) = true := by simpa using hglobal
  constructor
  · intro first rest hstatements htag
    refine ⟨wrapping w.relocation.root first rest, ?_, declares_wrapping hroot hstatements _⟩
    rw [wrapGlobal, if_neg hnone, hstatements]
    dsimp only
    rw [if_pos htag]
    rfl
  · intro hother
    cases hstatements : root.namedChildren with
    | nil =>
      refine ⟨pure (), ?_, by simp [Plan.pure_eq]⟩
      rw [wrapGlobal, if_neg hnone, hstatements]
      rfl
    | cons first rest =>
      rw [hstatements] at hother
      have htag : first.type ≠ "php_tag" := hother first rfl
      rw [wrapGlobal, if_neg hnone, hstatements]
      dsimp only
      rw [if_neg htag]
      by_cases hlater : (rest.any fun n => n.type = "php_tag") = true
      · obtain ⟨report, hrun, hfails⟩ := exists_report w (w.source.lineOf first) precededReason
        refine ⟨report, ?_, fun f => ?_⟩
        · rw [if_pos hlater]
          exact hrun _
        · have hexists : ∃ n ∈ rest, n.type = "php_tag" := by simpa using hlater
          rw [hfails]
          refine and_congr_right fun _ => ⟨fun hf => ⟨first, rest, rfl, hexists, hf⟩, ?_⟩
          rintro ⟨_, _, heq, -, hf⟩
          cases heq
          exact hf
      · refine ⟨pure (), ?_, fun f => ?_⟩
        · rw [if_neg hlater]
          rfl
        · have hnot : ¬∃ n ∈ rest, n.type = "php_tag" := by simpa using hlater
          constructor
          · rintro ⟨⟩
          · rintro ⟨-, _, _, heq, htagged, -⟩
            cases heq
            exact absurd htagged hnot

end Prefixing

namespace HandFile

/-- Comments stand around two leading `declare` statements. -/
def declaring : HandFile where
  code := "<?php /*c*/ declare(ticks=1); #d\ndeclare(a=1); #e\nnew Foo;"
  root := .program 58
    [.part "comment" 6 11 [], .part "declare_statement" 12 29 [], .part "comment" 30 32 [],
      .part "declare_statement" 33 46 [], .part "comment" 47 49 [],
      .part "expression_statement" 50 58 []]

/-- The code stands behind other contents. -/
def precededCode : HandFile where
  code := "<p><?php new Foo;"
  root := .part "program" 0 17
    [.part "text" 0 3 [], .part "php_tag" 3 8 [], .part "expression_statement" 9 17 []]

end HandFile

/-- Global code with comments around two `declare` statements gets its declaration behind the second one,
and code behind other contents gets none. -/
theorem Prefixing.global_code_wrapped_declaring :
    let f := HandFile.declaring
    let g := HandFile.precededCode
    let e : Edit := .inserting 46 "\n\nnamespace Humbug;".toList
    (∀ n ∈ f.root.namedChildren, n.type ≠ namespaceType) ∧ f.root.HasOrderedChildren
      ∧ ((wrapGlobal f.setting f.root).run .start).outcome = .ok ((), ⟨⟨[], true, .empty⟩, [e], []⟩)
      ∧ (∀ first rest, f.root.namedChildren = first :: rest → Declares "Humbug".toList f.root first rest e)
      ∧ ((wrapGlobal g.setting g.root).run .start).outcome = .ok ((), ⟨⟨[], false, .empty⟩, [], []⟩) := by
  intro f g e
  have hf : (∀ n ∈ f.root.namedChildren, n.type ≠ namespaceType) ∧ f.root.HasOrderedChildren := by
    decide +kernel
  have hg : (∀ n ∈ g.root.namedChildren, n.type ≠ namespaceType) ∧ g.root.HasOrderedChildren := by
    decide +kernel
  have hwrapped : ((wrapGlobal f.setting f.root).run .start).outcome
      = .ok ((), ⟨⟨[], true, .empty⟩, [e], []⟩) := rfl
  obtain ⟨hplace, -⟩ := global_code_wrapped f.setting .start hf.1 hf.2
  obtain ⟨-, hother⟩ := global_code_wrapped g.setting .start hg.1 hg.2
  refine ⟨hf.1, hf.2, hwrapped, fun first rest hstatements => ?_, ?_⟩
  · obtain ⟨placed, hrun, hdeclares⟩ := hplace first rest hstatements (by cases hstatements; rfl)
    cases hrun.symm.trans hwrapped
    exact hdeclares
  · obtain ⟨report, hrun, hfails⟩ := hother (by rintro _ ⟨⟩; decide)
    cases hreport : report.outcome with
    | error f => exact nomatch ((hfails f).mp hreport).1
    | ok a =>
      rw [hrun, Plan.bind_of_ok hreport]
      rfl

end PhpPrefixer
