import PhpPrefixer.Proofs.HandFiles
import PhpPrefixer.Proofs.Likeness
import PhpPrefixer.Proofs.PlanRuns

/-!
# What is reported

Two settings of a prefixer say what is reported: what happens with a construct that cannot be handled, and
whether names computed at run time are told. Neither changes the text. A file that is not given up over
such a construct is treated in the same steps where constructs are skipped, and the other setting only
adds notes. Both hold with all the code that is embedded in a file: `Prefixer.policies_keep_text`.
-/

namespace PhpPrefixer

open PrefixingM

variable {α : Type}

/-- Skipping goes on where failing ends. -/
inductive Plan.GoesOn (p q : Plan α) : Prop where
  /-- The work is the same. -/
  | same (h : q = p)
  /-- The work ends with a construct that cannot be handled, and the other work has taken the same steps up to
  there. -/
  | skipped (u : Unsupported) (more : List Step) (houtcome : p.outcome = .error (.unsupported u))
    (hsteps : q.steps = p.steps ++ more)

/-- Work that ends in the same way and records the same renames may tell different things. -/
structure Plan.TellsApart (p q : Plan α) : Prop where
  /-- The work ends in the same way. -/
  outcome : p.outcome = q.outcome
  /-- The same renames are recorded. -/
  renames : p.renames = q.renames

/-- Work that fails over a construct, and work that skips it. -/
def Plan.Likeness.goingOn : Plan.Likeness where
  holds := Plan.GoesOn
  refl _ := .same rfl
  bind {α β p q next other} h hnext := by
    cases h with
    | same h =>
      subst h
      cases hq : q.outcome with
      | error f => exact .same (by rw [Plan.bind_of_error hq, Plan.bind_of_error hq])
      | ok a =>
        rw [Plan.bind_of_ok hq, Plan.bind_of_ok hq]
        cases hnext a hq with
        | same h => exact .same (by rw [h])
        | skipped u more houtcome hsteps =>
          exact .skipped u more houtcome (by rw [hsteps, List.append_assoc])
    | skipped u more houtcome hsteps =>
      rw [Plan.bind_of_error houtcome]
      cases hq : q.outcome with
      | error f => exact .skipped u more rfl (by rw [Plan.bind_of_error hq, hsteps])
      | ok a =>
        refine .skipped u (more ++ (other a).steps) rfl ?_
        rw [Plan.bind_of_ok hq, hsteps, List.append_assoc]

/-- Work that tells of names computed at run time, and work that does not. -/
def Plan.Likeness.telling : Plan.Likeness where
  holds := Plan.TellsApart
  refl _ := ⟨rfl, rfl⟩
  bind {α β p q next other} h hnext := by
    obtain ⟨houtcome, hrenames⟩ := h
    cases hp : p.outcome with
    | error f =>
      rw [Plan.bind_of_error hp, Plan.bind_of_error (houtcome ▸ hp)]
      exact ⟨rfl, hrenames⟩
    | ok a =>
      obtain ⟨hlater, hlaterRenames⟩ := hnext a hp
      rw [Plan.bind_of_ok hp, Plan.bind_of_ok (houtcome ▸ hp)]
      refine ⟨hlater, ?_⟩
      simp only [Plan.renames, List.filterMap_append] at hrenames hlaterRenames ⊢
      rw [hrenames, hlaterRenames]

namespace Plan

variable {p q : Plan α}

/-- Work that is not given up over a construct is carried out in the same way where constructs are
skipped. A conflict stops both at the same step. -/
theorem GoesOn.run_eq (h : p.GoesOn q) (run : Run)
    (hrun : ∀ u, (p.run run).1 ≠ .error (.unsupported u)) : q.run run = p.run run := by
  cases h with
  | same h => rw [h]
  | skipped u more houtcome hsteps =>
    have hown := hrun u
    simp only [Plan.run, hsteps, Run.takeAll_append] at hown ⊢
    cases htaken : run.takeAll p.steps with
    | mk run' stopped =>
      rw [htaken] at hown
      cases stopped with
      | some c => rfl
      | none => exact absurd houtcome hown

/-- How work ends on a registry: by itself, or with the first conflict among its renames. -/
theorem fst_run (p : Plan α) (run : Run) :
    (p.run run).1 = match (run.registry.recordAll p.renames).2 with
      | some c => .error (.conflict c)
      | none => p.outcome := by
  rw [renames, ← Run.takeAll_recordAll, Plan.run]
  obtain ⟨run', stopped⟩ := run.takeAll p.steps
  cases stopped with
  | some c => rfl
  | none => rfl

/-- Work that only tells different things ends alike on every registry, and leaves the same one. -/
theorem TellsApart.run_eq (h : p.TellsApart q) (run : Run) :
    (p.run run).1 = (q.run run).1 ∧ (p.run run).2.registry = (q.run run).2.registry := by
  obtain ⟨houtcome, hrenames⟩ := h
  rw [fst_run, fst_run, registry_run, registry_run, houtcome, hrenames]
  exact ⟨rfl, rfl⟩

end Plan

namespace FileSetting

variable {w : FileSetting}

/-- The reports of a setting that fails are like those of one that skips: where one gives up, the other one
goes on. -/
theorem reportsLike_skip (hpolicy : w.policy = .fail) :
    w.ReportsLike .goingOn .skip w.warnDynamic where
  unsupported line reason s := by
    simp only [reportUnsupported, hpolicy]
    exact Plan.GoesOn.skipped ⟨w.path, line, reason⟩ _ rfl rfl
  dynamic line callee := Alike.refl _

/-- With and without warnings about dynamic calls, all is alike but what is told. -/
theorem reportsLike_quiet (hwarn : w.warnDynamic = true) : w.ReportsLike .telling w.policy false where
  unsupported line reason := Alike.refl _
  dynamic line callee s := by
    simp only [reportDynamic, reporting, hwarn, if_true]
    exact ⟨rfl, rfl⟩

end FileSetting

namespace Prefixer

/-- Files are treated alike if the reports about them are alike, with all the code embedded in them. -/
theorem alike_treatWithin {L : Plan.Likeness} {p : Prefixer} {policy : UnsupportedPolicy}
    {warnDynamic : Bool}
    (h : ∀ w : FileSetting, w.policy = p.policy → w.warnDynamic = p.warnDynamic →
      w.ReportsLike L policy warnDynamic)
    (whitelist : Whitelist) (path : Text) (levels : Nat) (given : Option Text) (contents : Text) :
    L.holds (p.treatWithin whitelist path levels given contents)
      ((p.reporting policy warnDynamic).treatWithin whitelist path levels given contents) := by
  induction levels generalizing given contents with
  | zero => exact L.refl _
  | succ levels ih =>
    rw [treatWithin_succ, treatWithin_succ]
    exact alike_treatOnce h (fun inner _ given => ih given inner) given

/-- What a file leads to in a run, with a given way to report. -/
def reported (p : Prefixer) (whitelist : Whitelist) (path : Text) (given : Option Text)
    (contents : Text) (run : Run) (policy : UnsupportedPolicy) (warnDynamic : Bool) :
    Except Failure Text × Run :=
  ((p.reporting policy warnDynamic).treat whitelist path given contents).run run

/-- Policies do not change the text. Where constructs that cannot be handled make a file fail, a file
that does not fail over one is treated in just the same way where they are skipped: it gives the same
text or fails in the same way, leaves the same registry and tells the same. Whether names computed at run
time are told changes neither the result nor the registry. -/
theorem policies_keep_text (p : Prefixer) (whitelist : Whitelist) (path : Text) (given : Option Text)
    (contents : Text) (run : Run) :
    let after := p.reported whitelist path given contents run
    (∀ warnDynamic, (∀ u, (after .fail warnDynamic).1 ≠ .error (.unsupported u)) →
        after .skip warnDynamic = after .fail warnDynamic)
      ∧ ∀ policy, (after policy true).1 = (after policy false).1
        ∧ (after policy true).2.registry = (after policy false).2.registry := by
  intro after
  refine ⟨fun warnDynamic hfail => ?_, fun policy => ?_⟩
  · refine Plan.GoesOn.run_eq ?_ run hfail
    refine alike_treatWithin (L := .goingOn) (p := p.reporting .fail warnDynamic)
      (fun w hpolicy hwarn => ?_) ..
    rw [← show w.warnDynamic = warnDynamic from hwarn]
    exact FileSetting.reportsLike_skip hpolicy
  · refine Plan.TellsApart.run_eq ?_ run
    refine alike_treatWithin (L := .telling) (p := p.reporting policy true)
      (fun w hpolicy hwarn => ?_) ..
    rw [← show w.policy = policy from hpolicy]
    exact FileSetting.reportsLike_quiet hwarn

end Prefixer

namespace HandFile

/-- Code is evaluated in a namespace. -/
def nestedEval : HandFile where
  code := "<?php namespace D; eval('class A\x7b\x7deval($x);');"
  root := .program 46
    [.part "namespace_definition" 6 18
        [.token "namespace" 6 15,
          .mk "namespace_name" true false ⟨16, 17⟩ (some "name") [.part "name" 16 17 []],
          .token ";" 17 18],
      .part "expression_statement" 19 46
        [.callTo 19 23 (.part "arguments" 23 45
            [.token "(" 23 24,
              .part "argument" 24 44 [.part "string" 24 44 [.part "string_content" 25 43 []]],
              .token ")" 44 45]),
          .token ";" 45 46]]

/-- A class is declared, and something computed at run time is evaluated. -/
def computedEval : HandFile where
  code := "<?php class A\x7b\x7deval($x);"
  root := .program 24
    [.part "class_declaration" 6 15
        [.token "class" 6 11, .mk "name" true false ⟨12, 13⟩ (some "name") [],
          .mk "declaration_list" true false ⟨13, 15⟩ (some "body")
            [.token "\x7b" 13 14, .token "\x7d" 14 15]],
      .part "expression_statement" 15 24
        [.callTo 15 19 (.part "arguments" 19 23
            [.token "(" 19 20, .part "argument" 20 22 [.part "variable_name" 20 22 []],
              .token ")" 22 23]),
          .token ";" 23 24]]

/-- The namespace that holds the evaluated code is excluded. -/
def evalWhitelist : Whitelist := { Whitelist.empty with excludedNamespaces := ["d".toList] }

/-- What the file leads to, with a given way to report. -/
def nestedReported (policy : UnsupportedPolicy) (warnDynamic : Bool) : Except Failure Text × Run :=
  (prefixerOfBoth .nestedEval .computedEval).reported evalWhitelist "a.php".toList
    (some "Humbug".toList) nestedEval.code.toList ⟨.empty, .withThreshold .warning⟩ policy warnDynamic

end HandFile

open HandFile

/-- What is computed at run time stands in embedded code. It is told just if that is asked for, and the
text and the one rename are the same in all cases. -/
theorem Prefixer.policies_keep_text_nestedEval :
    ∃ moved, (nestedReported .fail true).1 = .ok moved
      ∧ nestedReported .skip true = nestedReported .fail true
      ∧ (nestedReported .fail false).1 = .ok moved
      ∧ (nestedReported .fail false).2.registry = (nestedReported .fail true).2.registry
      ∧ (nestedReported .fail true).2.registry.records.length = 1
      ∧ (nestedReported .fail true).2.journal.entries.length = 1
      ∧ (nestedReported .fail false).2.journal.entries = [] := by
  have htold : (nestedReported .fail true).1.toOption.isSome = true
      ∧ (nestedReported .fail true).2.registry.records.length = 1
      ∧ (nestedReported .fail true).2.journal.entries.length = 1 := by decide +kernel
  have hquiet : (nestedReported .fail false).2.journal.entries = [] := by decide +kernel
  obtain ⟨hsome, hrecords, hentries⟩ := htold
  obtain ⟨moved, hfound⟩ := Option.isSome_iff_exists.mp hsome
  have hmoved := eq_ok_of_toOption hfound
  have hfail : ∀ u, (nestedReported .fail true).1 ≠ .error (.unsupported u) := by
    intro u hu
    rw [hmoved] at hu
    cases hu
  have hpolicies := policies_keep_text (prefixerOfBoth .nestedEval .computedEval) evalWhitelist
    "a.php".toList (some "Humbug".toList) nestedEval.code.toList ⟨.empty, .withThreshold .warning⟩
  -- Under its name the result is not computed again when the two are compared.
  rw [show reported _ _ _ _ _ _ = nestedReported from rfl] at hpolicies
  obtain ⟨hskip, hwarn⟩ := hpolicies
  obtain ⟨houtcome, hregistry⟩ := hwarn .fail
  exact ⟨moved, hmoved, hskip true hfail, houtcome.symm.trans hmoved, hregistry.symm, hrecords, hentries,
    hquiet⟩

end PhpPrefixer
