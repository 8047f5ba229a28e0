import PhpPrefixer.Proofs.HandFiles
import PhpPrefixer.Proofs.PlanRuns
import PhpPrefixer.Proofs.Queueing
import PhpPrefixer.Proofs.Splicing
import PhpPrefixer.Proofs.Stages

/-!
# Edits never overlap

While a walk goes on, the spans of the edits that are queued and the spans in the reach of what is still
to be entered are apart from one another, all together. Entering a site keeps this: its edits take
spans out of its own reach. So the edits of a whole walk are apart, and no file fails because two of
them overlap.
-/

namespace PhpPrefixer

open Prefixing PrefixingM

/-- Among spans that are apart, one may be replaced by spans inside it that are apart. -/
theorem Span.pairwise_apart_inside {before inner after : List Span} {x : Span}
    (h : (before ++ x :: after).Pairwise Apart) (hinner : inner.Pairwise Apart)
    (hwithin : ∀ y ∈ inner, y.Within x) : (before ++ (inner ++ after)).Pairwise Apart := by
  obtain ⟨hbefore, htail, hcross⟩ := List.pairwise_append.mp h
  obtain ⟨hx, hafter⟩ := List.pairwise_cons.mp htail
  have hinside : (inner ++ after).Pairwise Apart := by
    refine List.pairwise_append.mpr ⟨hinner, hafter, ?_⟩
    intro y hy z hz
    exact (hx z hz).within (hwithin y hy) (Within.refl z)
  refine List.pairwise_append.mpr ⟨hbefore, hinside, ?_⟩
  intro y hy z hz
  rcases List.mem_append.mp hz with hzInner | hzAfter
  · exact (hcross y hy x List.mem_cons_self).within (Within.refl y) (hwithin z hzInner)
  · exact hcross y hy z (List.mem_cons_of_mem x hzAfter)

namespace Walk

/-- The spans a task may still touch. -/
def Task.reach : Task → List Span
  | enter s => s.reach
  | leave _ => []

/-- What is queued and what may still be touched is apart. -/
structure IsClear (tasks : List Task) (queue : List Edit) : Prop where
  /-- All spans are apart. -/
  apart : (queue.map Edit.span ++ tasks.flatMap Task.reach).Pairwise Span.Apart
  /-- No edit ends before it starts. -/
  forward : ∀ e ∈ queue, e.start ≤ e.stop
  /-- The trees of the tasks are as a parser promises. -/
  regular : ∀ task ∈ tasks, task.site.node.IsRegularTree

variable {s : Site} {rest : List Task} {queue es : List Edit}

/-- What the sites that are to be entered reach is what they reach as tasks. -/
theorem flatMap_reach_enter (sites : List Site) :
    (sites.map Task.enter).flatMap Task.reach = sites.flatMap Site.reach := by
  rw [List.flatMap_map]
  rfl

/-- The tasks that take the place of a site are about the site and the sites below it. -/
theorem regular_pushed (h : IsClear (.enter s :: rest) queue) (skip : Bool) :
    ∀ task ∈ pushed skip s rest, task.site.node.IsRegularTree := by
  have hs : s.node.IsRegularTree := h.regular (.enter s) List.mem_cons_self
  have hleave : ∀ task ∈ Task.leave s :: rest, task.site.node.IsRegularTree :=
    List.forall_mem_cons.mpr ⟨hs, fun task htask => h.regular task (List.mem_cons_of_mem _ htask)⟩
  intro task htask
  unfold pushed at htask
  split at htask
  · exact hleave task htask
  · rcases List.mem_append.mp htask with hbelow | hlater
    · obtain ⟨t, ht, rfl⟩ := List.mem_map.mp hbelow
      exact hs.child (Site.mem_children_of_below ht)
    · exact hleave task hlater

/-- An import statement hands its span to the edits inside it. -/
theorem IsClear.enter_use (h : IsClear (.enter s :: rest) queue) (huse : s.node.type = Node.useType)
    (hes : s.node.Encloses es) : IsClear (pushed true s rest) (queue ++ es) := by
  have hreach : s.reach = [s.node.span] := by rw [Site.reach_eq, if_pos huse]
  have hapart := h.apart
  rw [List.flatMap_cons, Task.reach, hreach] at hapart
  have hwithin : ∀ y ∈ es.map Edit.span, y.Within s.node.span := by
    intro y hy
    obtain ⟨e, he, rfl⟩ := List.mem_map.mp hy
    exact hes.within e he
  refine ⟨?_, List.forall_mem_append.mpr ⟨h.forward, hes.forward⟩, regular_pushed h true⟩
  rw [List.map_append, List.append_assoc]
  exact Span.pairwise_apart_inside hapart hes.apart hwithin

/-- Any other site hands the spans in its reach to its edits and to the sites below it. -/
theorem IsClear.enter_other (h : IsClear (.enter s :: rest) queue)
    (huse : s.node.type ≠ Node.useType) (hes : Edit.Over s.targets es) (skip : Bool) :
    IsClear (pushed skip s rest) (queue ++ es) := by
  have hs : s.node.IsRegularTree := h.regular (.enter s) List.mem_cons_self
  have hreach : s.reach = s.targets ++ s.below.flatMap Site.reach := by
    rw [Site.reach_eq, if_neg huse]
  have hpushed : ((pushed skip s rest).flatMap Task.reach).Sublist
      (s.below.flatMap Site.reach ++ rest.flatMap Task.reach) := by
    unfold pushed
    split
    · exact List.sublist_append_right _ _
    · rw [List.flatMap_append, flatMap_reach_enter]
      exact List.Sublist.refl _
  refine ⟨?_, ?_, regular_pushed h skip⟩
  · refine h.apart.sublist ?_
    rw [List.flatMap_cons, Task.reach, hreach, List.map_append, List.append_assoc,
      List.append_assoc]
    exact (List.Sublist.refl _).append (List.Sublist.append hes hpushed)
  · refine List.forall_mem_append.mpr ⟨h.forward, fun e he => ?_⟩
    have htarget : e.span ∈ s.targets := hes.mem (List.mem_map_of_mem he)
    exact ((Site.isTarget_of_mem_targets hs.self htarget).within hs).2

/-- Entering a site keeps everything apart. -/
theorem IsClear.enter {skip : Bool} (h : IsClear (.enter s :: rest) queue)
    (hentered : Entered s skip es) : IsClear (pushed skip s rest) (queue ++ es) := by
  cases hentered with
  | use huse hes => exact h.enter_use huse hes
  | other huse hes => exact h.enter_other huse hes skip

/-- Leaving a site keeps what is queued apart from what may still be touched. -/
theorem IsClear.leave (h : IsClear (.leave s :: rest) queue) : IsClear rest queue :=
  ⟨h.apart, h.forward, fun task htask => h.regular task (List.mem_cons_of_mem _ htask)⟩

variable {c : Conduct} {w : FileSetting} {treat : Text → Plan Text}

/-- All tasks keep everything apart. -/
theorem spec_run_isClear (hc : c.IsOpen) (htreat : ∀ code, (treat code).Keeps c fun _ => True)
    (root : Node) (entered : Nat) (tasks : List Task) :
    Spec c (fun st => IsClear tasks st.edits) (run (Prefixer.visitors w root treat) entered tasks)
      fun _ st => IsClear [] st.edits := by
  refine spec_run (J := fun tasks st => IsClear tasks st.edits) ?_ ?_ entered tasks
  · intro s rest st hst
    have hregular := hst.regular (.enter s) List.mem_cons_self
    refine (queues_enterAll hc htreat root hregular st.edits st rfl).mono ?_
    rintro ⟨skip, after⟩ ⟨es, hes, hentered⟩
    rw [hes]
    exact hst.enter hentered
  · intro s rest st hst
    refine (isSilent_leaveAll root treat s st.edits st rfl).mono ?_
    rintro ⟨_, after⟩ (hafter : after.edits = st.edits)
    exact hafter ▸ hst.leave

/-- Before the walk, at most one declaration is queued, apart from all that may be touched. -/
theorem isClear_start {root : Node} (hregular : root.IsRegularTree) (hplain : root.HasPlainCalls)
    (huse : root.type ≠ Node.useType)
    (hes : es = [] ∨ ∃ offset, root.IsBoundary offset ∧ es.map Edit.span = [⟨offset, offset⟩]) :
    IsClear [.enter (.ofRoot root)] es := by
  have hreach : (Site.ofRoot root).reach.Pairwise Span.Apart := Site.pairwise_reach hregular hplain
  have hregularAll : ∀ task ∈ [Task.enter (.ofRoot root)], task.site.node.IsRegularTree := by
    intro task htask
    cases List.mem_singleton.mp htask
    exact hregular
  have htasks : [Task.enter (.ofRoot root)].flatMap Task.reach = (Site.ofRoot root).reach :=
    List.flatMap_singleton ..
  rcases hes with rfl | ⟨offset, hoffset, hspan⟩
  · exact ⟨htasks ▸ hreach, List.forall_mem_nil _, hregularAll⟩
  · refine ⟨?_, ?_, hregularAll⟩
    · rw [hspan, htasks]
      refine List.pairwise_cons.mpr ⟨fun y hy => ?_, hreach⟩
      exact Site.apart_of_isBoundary hregular huse rfl hoffset hy
    · intro e he
      have hmem : e.span ∈ [(⟨offset, offset⟩ : Span)] := hspan ▸ List.mem_map_of_mem he
      have heq : e.span = ⟨offset, offset⟩ := List.mem_singleton.mp hmem
      have hstart : e.start = offset := congrArg Span.start heq
      have hstop : e.stop = offset := congrArg Span.stop heq
      omega

/-- After a walk through a tree, all edits are apart. -/
theorem spec_through_isClear (hc : c.IsOpen) (htreat : ∀ code, (treat code).Keeps c fun _ => True)
    {root : Node} (hregular : root.IsRegularTree) (hplain : root.HasPlainCalls)
    (huse : root.type ≠ Node.useType) :
    Spec c (fun st => st.edits = []) (through (Prefixer.visitors w root treat) root)
      fun _ st => IsClear [] st.edits := by
  have hothers : IsSilent c (beforeAll [imports w, names w, literals w, embedded w treat]) :=
    IsSilent.pure ()
  have hqueued : Queues c (beforeAll (Prefixer.visitors w root treat)) fun _ =>
      IsClear [.enter (.ofRoot root)] := by
    refine (queues_wrapGlobal hc hregular).bind fun _ es hes => hothers.queues fun _ => ?_
    rw [List.append_nil]
    exact isClear_start hregular hplain huse hes
  have hbefore : Spec c (fun st => st.edits = []) (beforeAll (Prefixer.visitors w root treat))
      fun _ st => IsClear [.enter (.ofRoot root)] st.edits := by
    refine (hqueued []).mono (fun _ hst => hst) fun _ st hst => ?_
    obtain ⟨es, hes, hclear⟩ := hst
    rw [hes]
    exact hclear
  have hafter : Preserves c (fun st => IsClear [] st.edits)
      (afterAll (Prefixer.visitors w root treat)) := Preserves.pure ()
  refine hbefore.bind fun _ => ?_
  refine (spec_run_isClear hc htreat root 0 _).bind fun entered => ?_
  exact hafter.bind fun _ => Preserves.pure entered

end Walk

/-- A tree whose edits are apart: it is as a parser promises, its calls have plain lists of arguments,
and it is not itself an import statement. -/
structure Node.IsLaidOut (root : Node) : Prop where
  /-- The tree is as a parser promises. -/
  regular : root.IsRegularTree
  /-- The lists of arguments are plain. -/
  calls : root.HasPlainCalls
  /-- The tree is no import statement. -/
  root : root.type ≠ Node.useType

instance (root : Node) : Decidable root.IsLaidOut :=
  decidable_of_iff (root.IsRegularTree ∧ root.HasPlainCalls ∧ root.type ≠ Node.useType)
    ⟨fun ⟨h₁, h₂, h₃⟩ => ⟨h₁, h₂, h₃⟩, fun h => ⟨h.regular, h.calls, h.root⟩⟩

/-- Every step may be taken, and every failure may occur but those that are ruled out. -/
def Conduct.without (ruledOut : Failure → Prop) : Conduct where
  step _ := True
  failure f := ¬ruledOut f

/-- A conduct that rules out overlaps, or nothing, leaves everything open that work needs. -/
theorem Conduct.isOpen_without {ruledOut : Failure → Prop}
    (h : ∀ f, ruledOut f → ∃ o, f = .overlap o) : (Conduct.without ruledOut).IsOpen := by
  have hfailure : ∀ f, (∀ o, f ≠ .overlap o) → ¬ruledOut f := by
    intro f hne hout
    obtain ⟨o, ho⟩ := h f hout
    exact hne o ho
  exact
    { note := fun _ => trivial
      record := fun _ => trivial
      undecodable := hfailure _ fun _ => Failure.noConfusion
      unsupported := fun _ => hfailure _ fun _ => Failure.noConfusion
      missingKeyword := hfailure _ fun _ => Failure.noConfusion
      unparsable := fun _ => hfailure _ fun _ => Failure.noConfusion }

namespace Prefixer

variable {c : Conduct} {w : FileSetting} {treat : Text → Plan Text}

/-- The edits of a walk are apart, and none of them ends before it starts. -/
theorem keeps_walk_apart (hc : c.IsOpen) (htreat : ∀ code, (treat code).Keeps c fun _ => True)
    {root : Node} (hroot : root.IsLaidOut) :
    (walk w root treat).Keeps c fun s =>
      s.edits.Pairwise Edit.Apart ∧ ∀ e ∈ s.edits, e.start ≤ e.stop := by
  have hthrough := Walk.spec_through_isClear (w := w) hc htreat hroot.regular hroot.calls hroot.root
  refine (hthrough .start rfl).bind ?_
  rintro ⟨entered, s⟩ hclear
  have hwrite : (Plan.write (walkEntry w.path entered s.edits.length s.renames.length)).Keeps c
      fun _ => True := Plan.Keeps.single (hc.note _) trivial
  refine hwrite.bind fun _ _ => Plan.Keeps.pure ⟨?_, hclear.forward⟩
  have hapart : (s.edits.map Edit.span).Pairwise Span.Apart := by
    rw [← List.append_nil (s.edits.map Edit.span)]
    exact hclear.apart
  exact (List.pairwise_map.mp hapart).imp fun h => h

/-- Edits that are apart are printed. -/
theorem keeps_printFile_apart (hundecodable : c.failure .undecodable) {s : Source} {es : List Edit}
    (hes : es.Pairwise Edit.Apart ∧ ∀ e ∈ es, e.start ≤ e.stop) :
    (printFile s es).Keeps c fun _ => True := by
  unfold printFile
  split
  · exact Plan.Keeps.pure trivial
  · next o hoverlap => exact absurd hes.1 ((s.exists_overlap_iff hes.2).mp ⟨o, hoverlap⟩)
  · exact Plan.Keeps.fail hundecodable

/-- Every tree of the parser is laid out. -/
def LaysOut (p : Prefixer) : Prop :=
  ∀ code source tree, (p.parse code).check code = .ok (source, tree) → tree.IsLaidOut

/-- No file fails because its edits overlap, nor does the code embedded in it. -/
theorem keeps_treat_without_overlap {p : Prefixer} (hp : p.LaysOut) (whitelist : Whitelist)
    (path : Text) (given : Option Text) (contents : Text) :
    (p.treat whitelist path given contents).Keeps (.without fun f => ∃ o, f = .overlap o)
      fun _ => True := by
  have hc : (Conduct.without fun f => ∃ o, f = .overlap o).IsOpen :=
    Conduct.isOpen_without fun _ h => h
  refine keeps_treatWithin_of (G := fun _ => True) hc.toIsLenient ?_ ?_ ?_ _ trivial contents
  · rintro _ e - - ⟨o, ho⟩
    cases ho
  · exact fun _ _ _ _ => trivial
  · intro root _ treat htreat code
    refine keeps_moveCode hc.toIsLenient ?_ fun source s hs =>
      keeps_printFile_apart hc.undecodable hs
    intro tree hcheck
    exact keeps_walk_apart hc htreat (hp code tree.1 tree.2 hcheck)

end Prefixer

namespace HandFile

/-- The spans of the edits of the walk. -/
def editedSpans (f : HandFile) : Option (List Span) :=
  f.walk.outcome.toOption.map fun s => s.edits.map Edit.span

variable {f : HandFile} {spans : List Span}

/-- A walk whose edits are known by their spans ends well with these edits. -/
theorem exists_of_editedSpans (h : f.editedSpans = some spans) :
    ∃ s, f.walk.outcome = .ok s ∧ s.edits.map Edit.span = spans :=
  exists_eq_ok_of_toOption h

/-- The parser of a file by hand lays out its trees if the tree of the file is laid out. -/
theorem laysOut_prefixer (h : f.root.IsLaidOut) : f.prefixer.LaysOut := by
  intro text source tree hcheck
  obtain ⟨-, -, rfl⟩ := Parsed.check_eq_ok_iff.mp hcheck
  exact h

/-- The tree is as a parser promises, yet a walk through it queues edits that are not apart, and the
source is not printed. -/
def Overlaps (f : HandFile) : Prop :=
  f.root.IsRegularTree ∧ ∃ s, f.walk.outcome = .ok s ∧ ¬s.edits.Pairwise Edit.Apart
    ∧ ∃ o, f.setting.source.print s.edits = .error (.overlap o)

/-- A regular tree with edits that are not apart is one whose edits overlap. -/
theorem overlaps_of_editedSpans (hroot : f.root.IsRegularTree) (h : f.editedSpans = some spans)
    (hforward : ∀ x ∈ spans, x.start ≤ x.stop) (hnot : ¬spans.Pairwise Span.Apart) : f.Overlaps := by
  obtain ⟨s, hs, rfl⟩ := exists_of_editedSpans h
  have hedits : ¬s.edits.Pairwise Edit.Apart := fun hapart => hnot (List.pairwise_map.mpr hapart)
  have hes : ∀ e ∈ s.edits, e.start ≤ e.stop := fun e he => hforward _ (List.mem_map_of_mem he)
  exact ⟨hroot, s, hs, hedits, (f.setting.source.exists_overlap_iff hes).mpr hedits⟩

/-- A call whose list of arguments is a call whose list of arguments is an argument. -/
def callAsArguments : HandFile where
  code := "<?php is_a class_exists 'A\\B';"
  root := .program 30 [.part "expression_statement" 6 30
    [.callTo 6 10 (.callTo 11 23 (.part "argument" 24 29 [.threeQuoted 24])), .token ";" 29 30]]

/-- A file that is nothing but an import statement. -/
def useAsFile : HandFile where
  code := "<?php use A\\\x7bB,C\x7d;"
  root := .part "namespace_use_declaration" 0 18
    (.part "php_tag" 0 5 [] :: Node.groupUse 6 ++ [.token ";" 17 18])

/-- A call whose list of arguments is an import statement. -/
def useAsArguments : HandFile where
  code := "<?php class_exists('X\\Y', use A\\\x7bB,C\x7d);"
  root := .program 39 [.part "expression_statement" 6 39
    [.callTo 6 18 (.part "namespace_use_declaration" 18 38
        (.threeQuoted 19 :: Node.groupUse 26 ++ [.token ")" 37 38])),
      .token ";" 38 39]]

end HandFile

namespace Prefixer

open HandFile

/-- Of a tree that is laid out, all edits of a walk are apart, whatever the prefix, the whitelist and
the native symbols are and however embedded code is treated, and they can be applied to any source.
So, if all trees of the parser are laid out, no file fails because two edits overlap. -/
theorem edits_apart :
    (∀ (w : FileSetting) (root : Node) (treat : Text → Plan Text), root.IsLaidOut →
      ∀ s, (walk w root treat).outcome = .ok s →
        s.edits.Pairwise Edit.Apart ∧ ∀ source o, Source.print source s.edits ≠ .error (.overlap o))
    ∧ ∀ p : Prefixer, p.LaysOut → ∀ whitelist path given contents o,
      (p.treat whitelist path given contents).outcome ≠ .error (.overlap o) := by
  constructor
  · intro w root treat hroot s hs
    have hc : (Conduct.without fun _ => False).IsOpen :=
      Conduct.isOpen_without fun _ h => absurd h id
    have htreat : ∀ code, (treat code).Keeps (.without fun _ => False) fun _ => True :=
      fun code => ⟨fun _ _ => trivial, fun _ _ => id, fun _ _ => trivial⟩
    obtain ⟨hapart, hforward⟩ := (keeps_walk_apart (w := w) hc htreat hroot).result s hs
    exact ⟨hapart, fun source o h => (source.exists_overlap_iff hforward).mp ⟨o, h⟩ hapart⟩
  · intro p hp whitelist path given contents o hoverlap
    have htreat := keeps_treat_without_overlap hp whitelist path given contents
    exact htreat.failure _ hoverlap ⟨o, rfl⟩

/-- An inserted declaration, a group of imports that is split and a literal are edited apart. -/
theorem edits_apart_groupAndLiteral :
    groupAndLiteral.root.IsLaidOut
      ∧ (∃ s, groupAndLiteral.walk.outcome = .ok s
        ∧ s.edits.map Edit.span = [⟨6, 6⟩, ⟨6, 18⟩, ⟨32, 37⟩] ∧ s.edits.Pairwise Edit.Apart)
      ∧ ∀ o, (groupAndLiteral.prefixer.treat .empty "a.php".toList (some "Humbug".toList)
        groupAndLiteral.code.toList).outcome ≠ .error (.overlap o) := by
  have hroot : groupAndLiteral.root.IsLaidOut := by decide +kernel
  have hspans : groupAndLiteral.editedSpans = some [⟨6, 6⟩, ⟨6, 18⟩, ⟨32, 37⟩] := by
    rw [editedSpans, HandFile.walk, walk, Walk.through_eq]
    decide +kernel
  obtain ⟨s, hs, hedits⟩ := exists_of_editedSpans hspans
  have hapart := (edits_apart.1 _ _ _ hroot s hs).1
  exact ⟨hroot, ⟨s, hs, hedits, hapart⟩, edits_apart.2 _ (laysOut_prefixer hroot) _ _ _ _⟩

/-- What a parser promises of each node is not enough. A literal is edited twice where the list of
arguments of a call is taken for an argument; an import statement that is split holds the inserted
declaration where it is the whole file, and an edited literal where it is a list of arguments. The native
symbols of these files are ones that a prefixer keeps. -/
theorem edits_overlap_of_regular :
    NativeSymbols.orPhp (some HandFile.natives) = HandFile.natives
      ∧ callAsArguments.Overlaps ∧ useAsFile.Overlaps ∧ useAsArguments.Overlaps := by
  have hcall : callAsArguments.editedSpans = some [⟨6, 6⟩, ⟨24, 29⟩, ⟨24, 29⟩] := by
    rw [editedSpans, HandFile.walk, walk, Walk.through_eq]
    decide +kernel
  have hfile : useAsFile.editedSpans = some [⟨10, 10⟩, ⟨0, 18⟩] := by
    rw [editedSpans, HandFile.walk, walk, Walk.through_eq]
    decide +kernel
  have hlist : useAsArguments.editedSpans = some [⟨6, 6⟩, ⟨19, 24⟩, ⟨18, 38⟩] := by
    rw [editedSpans, HandFile.walk, walk, Walk.through_eq]
    decide +kernel
  have hsize : HandFile.natives.size ≠ 0 := by decide +kernel
  have hkept : NativeSymbols.orPhp (some HandFile.natives) = HandFile.natives := by
    rw [NativeSymbols.orPhp, if_neg hsize]
  exact ⟨hkept, overlaps_of_editedSpans (by decide +kernel) hcall (by decide) (by decide),
    overlaps_of_editedSpans (by decide +kernel) hfile (by decide) (by decide),
    overlaps_of_editedSpans (by decide +kernel) hlist (by decide) (by decide)⟩

end Prefixer

end PhpPrefixer
