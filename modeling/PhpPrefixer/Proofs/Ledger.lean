import PhpPrefixer.Proofs.Accounting
import PhpPrefixer.Proofs.Agreement
import PhpPrefixer.Proofs.HandFiles
import PhpPrefixer.Proofs.PlanRuns
import PhpPrefixer.Proofs.Splicing

/-!
# The registry as a ledger

The registry is sound and complete for what was done to the files of a run. Whatever calls were made,
each of its renames moves a symbol under the prefix that was not there, and that the classifier renames
or exposes. And when a call has ended well, the registry knows every symbol that the call spelled under
the prefix: `Prefixer.Accounts` goes through all edits of the file, and of the code embedded in it.
The main result is `Call.registry_accounts`.
-/

namespace PhpPrefixer

namespace Prefixer

/-- The result of a treatment is accounted for. If the contents hold code, the result is their text
with the edits of a walk applied. Every edit is one of those listed by `FileSetting.Respells`; `Moved`
holds of each symbol it spells under the prefix, and the code it embeds is accounted for itself. -/
def Accounts (p : Prefixer) (whitelist : Whitelist) (path root : Text)
    (Moved : SymbolKind → Text → Prop) : (levels : Nat) → (contents result : Text) → Prop
  | 0, contents, result => result = contents
  | levels + 1, contents, result =>
    if Recognition.holdsCode p.extensions path contents then
      ∃ source tree s printed,
        let code := (Recognition.splitShebang contents).2
        let w : FileSetting :=
          ⟨path, ⟨root, ⟨p.natives, whitelist⟩⟩, p.policy, p.warnDynamic, source⟩
        (p.parse code).check code = .ok (source, tree)
          ∧ (walk w tree (p.treatWithin whitelist path levels (some root))).outcome = .ok s
          ∧ source.print s.edits = .ok printed
          ∧ result = (Recognition.splitShebang contents).1 ++ printed
          ∧ ∀ e ∈ s.edits, w.Respells tree Moved (p.Accounts whitelist path root Moved levels) e
    else result = contents

variable {p : Prefixer} {whitelist : Whitelist} {path root : Text}

/-- What accounts for a result still does if more has moved. -/
theorem Accounts.mono {Moved Moved' : SymbolKind → Text → Prop}
    (hmoves : ∀ kind name, Moved kind name → Moved' kind name) {levels : Nat}
    {contents result : Text} (h : p.Accounts whitelist path root Moved levels contents result) :
    p.Accounts whitelist path root Moved' levels contents result := by
  induction levels generalizing contents result with
  | zero => exact h
  | succ levels ih =>
    unfold Accounts at h ⊢
    split at h
    · next hcode =>
      rw [if_pos hcode]
      obtain ⟨source, tree, s, printed, hcheck, hwalk, hprint, hresult, hedits⟩ := h
      refine ⟨source, tree, s, printed, hcheck, hwalk, hprint, hresult, fun e he => ?_⟩
      exact (hedits e he).mono hmoves fun _ _ => ih
    · next hcode =>
      rw [if_neg hcode]
      exact h

/-- All edits of a walk that ends well are covered by its steps. -/
theorem respells_of_walk {w : FileSetting} {tree : Node} {treat : Text → Plan Text} {s : FileState}
    {Embeds : List Step → Text → Text → Prop}
    (hembeds : ∀ {steps more : List Step}, steps ⊆ more →
      ∀ code file, Embeds steps code file → Embeds more code file)
    (htreat : ∀ code file, (treat code).outcome = .ok file → Embeds (treat code).steps code file)
    (h : (walk w tree treat).outcome = .ok s) :
    ∀ e ∈ s.edits, (w.account tree Embeds hembeds).covers (walk w tree treat).steps e := by
  have hbalanced : PrefixingM.Balanced (w.account tree Embeds hembeds)
      (Walk.through (visitors w tree treat) tree) := balanced_through htreat
  unfold walk at h ⊢
  obtain ⟨⟨entered, s'⟩, hthrough, hrest, hsteps⟩ := Plan.exists_of_bind h
  have hs : s' = s := by
    cases hrest
    rfl
  obtain ⟨es, hes, hcovered⟩ := hbalanced .start entered s' hthrough
  have hedits : s'.edits = es := hes
  rw [← hs, hedits, hsteps]
  exact fun e he => Account.mono _ (List.subset_append_left _ _) (hcovered e he)

/-- A treatment that ends well is accounted for by the renames among its steps. -/
theorem accounts_of_treatWithin (hroot : Prefix.validate (some root) = .ok root) (levels : Nat)
    {contents result : Text}
    (h : (p.treatWithin whitelist path levels (some root) contents).outcome = .ok result) :
    p.Accounts whitelist path root
      (Step.Moves root path (p.treatWithin whitelist path levels (some root) contents).steps)
      levels contents result := by
  induction levels generalizing contents result with
  | zero =>
    cases h
    rfl
  | succ levels ih =>
    unfold Accounts
    split
    · next hcode =>
      rw [treatWithin_of_holdsCode hroot hcode] at h ⊢
      obtain ⟨printed, hmove, hend, hsteps⟩ := Plan.exists_of_bind h
      obtain ⟨source, tree, s, hcheck, hwalk, hprint, hsub⟩ := exists_walk_of_moveCode hmove
      refine ⟨source, tree, s, printed, hcheck, hwalk, hprint, ?_, fun e he => ?_⟩
      · cases hend
        rfl
      · let Embeds (steps : List Step) : Text → Text → Prop :=
          p.Accounts whitelist path root (Step.Moves root path steps) levels
        have hembeds : ∀ {steps more : List Step}, steps ⊆ more →
            ∀ code file, Embeds steps code file → Embeds more code file :=
          fun hmore _ _ hcode => hcode.mono fun _ _ hmoved => hmore hmoved
        have htreat : ∀ code file,
            (p.treatWithin whitelist path levels (some root) code).outcome = .ok file →
              Embeds (p.treatWithin whitelist path levels (some root) code).steps code file :=
          fun _ _ => ih
        have hcovered := respells_of_walk hembeds htreat hwalk e he
        rw [hsteps]
        exact Account.mono _ (List.subset_append_of_subset_left _ hsub) hcovered
    · next hcode =>
      rw [treatWithin, if_neg hcode] at h
      cases h
      rfl

end Prefixer

/-- The registry holds a rename of a symbol to its name under the prefix. -/
def Registry.KnowsMove (g : Registry) (root : Text) (kind : SymbolKind) (name : Text) : Prop :=
  g.target? (kind, Name.key kind name) = some (Name.key kind (Name.relocate root name))

/-- A rename that some file may record, in which all names are well formed. -/
def Relocation.IsJustified (r : Relocation) (rename : Rename) : Prop :=
  ∃ path, r.Justifies path True rename

/-- A justified rename has no separators to lose. -/
theorem Relocation.IsJustified.bare_eq {r : Relocation} {rename : Rename}
    (h : r.IsJustified rename) : rename.bare = rename :=
  h.elim fun _ hjustified => hjustified.bare_eq

/-- Justified renames may be recorded, and work may fail in every way but by a conflict. -/
def Conduct.justified (r : Relocation) : Conduct where
  step
    | .record rename => r.IsJustified rename
    | _ => True
  failure f := ∀ x, f ≠ .conflict x

/-- The conduct that records justified renames allows them. -/
theorem Conduct.justified_allows (r : Relocation) (path : Text) :
    (Conduct.justified r).Allows r path True where
  note := fun _ => trivial
  record := fun _ h => ⟨path, h⟩
  failure := fun _ hf => hf

/-- Work that records justified renames is work under the prefix. -/
theorem Plan.Keeps.under_of_justified {α : Type} {p : Plan α} {r : Relocation} {Q : α → Prop}
    (h : p.Keeps (.justified r) Q) : p.Keeps (.under r.root) Q where
  step := by
    intro step hstep
    cases step with
    | note e => trivial
    | threshold level => trivial
    | record rename =>
      obtain ⟨path, hjustified⟩ := h.step _ hstep
      exact ⟨hjustified.renamed, fun _ => hjustified.isTrimmed (.inr trivial)⟩
  failure := h.failure
  result := h.result

/-- All renames of a registry are justified. -/
def Registry.IsJustified (r : Relocation) (g : Registry) : Prop :=
  ∀ rename ∈ g.records, r.IsJustified rename

namespace Run

variable {r : Relocation} {run run' : Run}

/-- A step that records no more than a justified rename leaves the registry justified. -/
theorem isJustified_take (hrun : run.registry.IsJustified r) {step : Step}
    (hstep : (Conduct.justified r).step step) (h : run.take step = .ok run') :
    run'.registry.IsJustified r := by
  cases step with
  | note e =>
    cases h
    exact hrun
  | threshold level =>
    cases h
    exact hrun
  | record rename =>
    have hjustified : r.IsJustified rename := hstep
    unfold take record Registry.record at h
    cases hfind : run.registry.findKey? rename.bare.key with
    | none =>
      simp only [hfind, Registry.isNew, Option.isNone_none, if_true] at h
      cases h
      refine List.forall_mem_append.mpr ⟨hrun, List.forall_mem_singleton.mpr ?_⟩
      rw [hjustified.bare_eq]
      exact hjustified
    | some existing =>
      simp only [hfind, Registry.isNew] at h
      split at h
      · cases h
      · next g hg =>
        split at hg
        · cases hg
          cases h
          exact hrun
        · cases hg

/-- Steps that record justified renames leave all renames justified, also when they are stopped. -/
theorem isJustified_takeAll (hrun : run.registry.IsJustified r) {steps : List Step}
    (hsteps : ∀ step ∈ steps, (Conduct.justified r).step step) :
    (run.takeAll steps).1.registry.IsJustified r := by
  induction steps generalizing run with
  | nil => exact hrun
  | cons step steps ih =>
    obtain ⟨hstep, hrest⟩ := List.forall_mem_cons.mp hsteps
    unfold takeAll
    split
    · next run' htake => exact ih (isJustified_take hrun hstep htake) hrest
    · exact hrun

end Run

namespace Plan

variable {α : Type} {r : Relocation} {run : Run} {Q : α → Prop}

/-- A plan that records justified renames only leaves the registry justified. -/
theorem isJustified_run {p : Plan α} (hp : p.Keeps (.justified r) Q)
    (hrun : run.registry.IsJustified r) : (p.run run).2.registry.IsJustified r := by
  have hall := Run.isJustified_takeAll hrun hp.step
  unfold Plan.run
  split
  · next run' stopped htake =>
    rw [htake] at hall
    exact hall
  · next run' htake =>
    rw [htake] at hall
    exact hall

/-- Plans that record justified renames, one after the other, leave all renames justified, however
each of them ends. -/
theorem isJustified_runAll {ps : List (Plan α)} (hps : ∀ p ∈ ps, p.Keeps (.justified r) Q)
    (hrun : run.registry.IsJustified r) : (runAll ps run).2.registry.IsJustified r := by
  induction ps generalizing run with
  | nil => exact hrun
  | cons p ps ih =>
    obtain ⟨hp, hrest⟩ := List.forall_mem_cons.mp hps
    exact ih hrest (isJustified_run hp hrun)

/-- A plan that records justified renames comes to its own end, and afterwards the registry knows all
symbols it recorded as moved. -/
theorem knowsMove_run (hroot : Name.IsRoot r.root) {p : Plan α} (hp : p.Keeps (.justified r) Q)
    (hrun : run.registry.IsJustified r) :
    (p.run run).1 = p.outcome ∧ ∀ path kind name, Step.Moves r.root path p.steps kind name →
      (p.run run).2.registry.KnowsMove r.root kind name := by
  have hfollows : run.registry.Follows r.root := by
    intro rename hrename
    obtain ⟨path, hjustified⟩ := hrun rename hrename
    exact ⟨hjustified.renamed, fun _ => hjustified.isTrimmed (.inr trivial)⟩
  obtain ⟨last, hlast, -, hset⟩ :=
    Run.takeAll_of_follows hroot hfollows hp.under_of_justified.step
  have heq : p.run run = (p.outcome, last) := by rw [Plan.run, hlast]
  rw [heq]
  refine ⟨rfl, fun path kind name hmoved => (hset _ _).mpr (.inr ⟨_, hmoved, ?_⟩)⟩
  have hjustified : r.IsJustified ⟨name, Name.relocate r.root name, kind, some path⟩ :=
    hp.step _ hmoved
  rw [hjustified.bare_eq]
  exact ⟨rfl, rfl⟩

end Plan

namespace Call

variable {r : Relocation}

/-- What decides about the symbols of a call. -/
def classifier (call : Call) : Classifier := ⟨call.prefixer.natives, call.whitelist⟩

/-- A call with this classifier, whose parser reads names well. -/
structure Shares (c : Classifier) (call : Call) : Prop where
  /-- The native symbols and the exclusion rules are those of the classifier. -/
  classifier : call.classifier = c
  /-- The parser reads names well. -/
  readsWell : call.prefixer.ReadsWell

/-- A call records justified renames only. -/
theorem Shares.keeps_plan {call : Call} (h : call.Shares r.classifier)
    (hroot : Prefix.validate (some r.root) = .ok r.root) :
    (call.plan r.root).Keeps (.justified r) fun _ => True := by
  have hallows : (Conduct.justified r).Allows ⟨r.root, call.classifier⟩ call.path True := by
    rw [h.classifier]
    exact Conduct.justified_allows r call.path
  exact Prefixer.keeps_treatWithin h.readsWell.names (fun _ => h.readsWell.spaces) hroot hallows _ _

/-- After any calls that share a classifier, all renames of the registry are justified. -/
theorem isJustified_runAll (hroot : Prefix.validate (some r.root) = .ok r.root) {calls : List Call}
    (hcalls : ∀ call ∈ calls, call.Shares r.classifier) (journal : Journal) :
    (Plan.runAll (calls.map (plan r.root)) ⟨.empty, journal⟩).2.registry.IsJustified r := by
  have hkeeps : ∀ p ∈ calls.map (plan r.root), p.Keeps (.justified r) fun _ => True := by
    intro p hp
    obtain ⟨call, hcall, rfl⟩ := List.mem_map.mp hp
    exact (hcalls call hcall).keeps_plan hroot
  exact Plan.isJustified_runAll hkeeps (List.forall_mem_nil _)

/-- After any calls that share its classifier, a call ends as it does alone, and the registry knows
the symbols it recorded as moved. -/
theorem Shares.run_plan (hroot : Prefix.validate (some r.root) = .ok r.root) {call : Call}
    (h : call.Shares r.classifier) {before : List Call}
    (hbefore : ∀ call ∈ before, call.Shares r.classifier) (journal : Journal) :
    ∃ run', (call.plan r.root).run (Plan.runAll (before.map (plan r.root)) ⟨.empty, journal⟩).2
        = ((call.plan r.root).outcome, run')
      ∧ ∀ kind name, Step.Moves r.root call.path (call.plan r.root).steps kind name →
        run'.registry.KnowsMove r.root kind name := by
  obtain ⟨hend, hknows⟩ := Plan.knowsMove_run (Name.isRoot_of_validate hroot) (h.keeps_plan hroot)
    (isJustified_runAll hroot hbefore journal)
  exact ⟨_, Prod.ext hend rfl, hknows call.path⟩

/-- The registry is sound and complete for the renames that are made. Calls under one prefix are made
one after the other, on a registry that starts empty, and each of them ends well or fails. At the end
every rename moves a symbol that was not under the prefix, and that is to be renamed or is exposed. And
after each call that ended well, the registry knows the move of every symbol that the call spelled
under the prefix. -/
theorem registry_accounts (hroot : Prefix.validate (some r.root) = .ok r.root) (calls : List Call)
    (hcalls : ∀ call ∈ calls, call.Shares r.classifier) (journal : Journal) :
    (∀ rename ∈ (Plan.runAll (calls.map (plan r.root)) ⟨.empty, journal⟩).2.registry.records,
        rename.renamed = r.relocate rename.name ∧ r.hasMoved rename.name = false
          ∧ (r.classifier.classify rename.kind rename.name = .rename
            ∨ r.classifier.exposes rename.kind rename.name = true))
      ∧ ∀ before call after, calls = before ++ call :: after → ∀ result run',
        (call.plan r.root).run (Plan.runAll (before.map (plan r.root)) ⟨.empty, journal⟩).2
            = (.ok result, run') →
          call.prefixer.Accounts call.whitelist call.path r.root (run'.registry.KnowsMove r.root)
            (Prefixer.levelsOf call.contents) call.contents result := by
  constructor
  · intro rename hrename
    obtain ⟨path, hjustified⟩ := isJustified_runAll hroot hcalls journal rename hrename
    exact ⟨hjustified.renamed, hjustified.unmoved, hjustified.decided⟩
  · rintro before call after rfl result run' hrun
    have hbefore : ∀ other ∈ before, other.Shares r.classifier :=
      fun other hother => hcalls other (List.mem_append_left _ hother)
    have hshares := hcalls call (List.mem_append_right _ List.mem_cons_self)
    obtain ⟨last, hlast, hknows⟩ := hshares.run_plan hroot hbefore journal
    obtain ⟨hend, rfl⟩ := Prod.mk.inj (hlast.symm.trans hrun)
    exact (Prefixer.accounts_of_treatWithin hroot _ hend).mono hknows

/-- A call for a file written by hand, with these native symbols. -/
def ofHand (natives : NativeSymbols) (f : HandFile) (contents : Text) : Call :=
  ⟨{ f.prefixer with natives := natives }, f.setting.relocation.classifier.whitelist,
    f.setting.path, contents⟩

/-- A file by hand without namespaces, in which all names are well-formed, makes calls that share its
classifier. -/
theorem shares_ofHand {natives : NativeSymbols} {f : HandFile}
    (hnames : ∀ n ∈ f.root.preorder, n.isName = true →
      ∀ t ∈ f.setting.source.text? n, Name.WellFormed t)
    (hspaces : ∀ n ∈ f.root.preorder, n.type ≠ Prefixing.namespaceType) (contents : Text) :
    (ofHand natives f contents).Shares
      ⟨natives, f.setting.relocation.classifier.whitelist⟩ := by
  exact ⟨rfl, HandFile.readsWell_prefixer hnames hspaces⟩

/-- The walk of the call for the file written by hand itself. -/
def walkOfHand (natives : NativeSymbols) (f : HandFile) : Plan FileState :=
  let call := ofHand natives f f.code.toList
  let root := f.setting.relocation.root
  Prefixer.walk { f.setting with relocation := ⟨root, call.classifier⟩ } f.root
    (call.prefixer.treatWithin call.whitelist call.path (f.code.toList.countP Prefixer.isQuote)
      (some root))

/-- What comes of a file written by hand whose edits are queued in the order of application. -/
theorem outcome_plan_ofHand {natives : NativeSymbols} {f : HandFile} {spliced : Text}
    {edits : List Edit} (hcode : Recognition.splitShebang f.code.toList = ([], f.code.toList))
    (hedits : (walkOfHand natives f).outcome.toOption.map (·.edits) = some edits)
    (hordered : edits.Pairwise fun a b => a.appliedBefore b = true)
    (hspliced : (Edit.spliceFrom f.setting.source 0 edits).toOption.bind Text.decode?
      = some spliced) :
    ((ofHand natives f f.code.toList).plan f.setting.relocation.root).outcome
      = .ok (Source.endingLine spliced) := by
  let call := ofHand natives f f.code.toList
  let root := f.setting.relocation.root
  have hroot : Prefix.validate (some root) = .ok root := by
    rw [show root = "Humbug".toList from rfl]
    decide +kernel
  have hholds : Recognition.holdsCode call.prefixer.extensions call.path f.code.toList = true :=
    if_pos (show Path.matchesAny "a.php".toList ["php".toList] = true by decide +kernel)
  have hcheck : (call.prefixer.parse f.code.toList).check f.code.toList
      = .ok (.ofText f.code.toList, f.root) :=
    Parsed.check_eq_ok_iff.mpr ⟨by simp [call, ofHand, HandFile.prefixer], rfl, rfl⟩
  obtain ⟨s, hwalk, rfl⟩ := exists_eq_ok_of_toOption hedits
  have hmoved : (call.prefixer.moveCode call.whitelist call.path root
      (call.prefixer.treatWithin call.whitelist call.path (f.code.toList.countP Prefixer.isQuote)
        (some root)) f.code.toList).outcome = .ok (Source.endingLine spliced) :=
    Prefixer.outcome_moveCode hcheck hwalk (Source.print_of_inOrder hordered hspliced)
  have htreat : call.plan root = call.prefixer.treatWithin call.whitelist call.path
      (f.code.toList.countP Prefixer.isQuote + 1) (some root) f.code.toList := rfl
  rw [htreat, Prefixer.treatWithin_of_holdsCode hroot hholds, hcode, Plan.bind_of_ok hmoved]
  rfl

/-- The only native symbol is the function `class_exists`. -/
def classExists : NativeSymbols := NativeSymbols.empty.extend [] ["class_exists".toList] []

/-- A group of imports is split, the call of a native function is pinned, and a literal is moved. -/
theorem outcome_plan_groupAndLiteral :
    ((ofHand classExists .groupAndLiteral HandFile.groupAndLiteral.code.toList).plan
        HandFile.groupAndLiteral.setting.relocation.root).outcome
      = .ok ("<?php namespace Humbug;\n\nuse Humbug\\A\\B;\nuse A\\C; "
        ++ "\\class_exists('Humbug\\X\\Y');\n").toList := by
  have hedits : (walkOfHand classExists .groupAndLiteral).outcome.toOption.map (·.edits)
      = some [.inserting 6 "namespace Humbug;\n\n".toList,
        ⟨6, 18, "use Humbug\\A\\B;\nuse A\\C;".toList⟩, ⟨19, 31, "\\class_exists".toList⟩,
        ⟨32, 37, "'Humbug\\X\\Y'".toList⟩] := by
    rw [walkOfHand, Prefixer.walk, Walk.through_eq]
    decide +kernel
  have hspliced : (Edit.spliceFrom HandFile.groupAndLiteral.setting.source 0
      [.inserting 6 "namespace Humbug;\n\n".toList,
        ⟨6, 18, "use Humbug\\A\\B;\nuse A\\C;".toList⟩, ⟨19, 31, "\\class_exists".toList⟩,
        ⟨32, 37, "'Humbug\\X\\Y'".toList⟩]).toOption.bind Text.decode?
      = some ("<?php namespace Humbug;\n\nuse Humbug\\A\\B;\nuse A\\C; "
        ++ "\\class_exists('Humbug\\X\\Y');").toList := by decide +kernel
  have hending : Source.endingLine ("<?php namespace Humbug;\n\nuse Humbug\\A\\B;\nuse A\\C; "
      ++ "\\class_exists('Humbug\\X\\Y');").toList
      = ("<?php namespace Humbug;\n\nuse Humbug\\A\\B;\nuse A\\C; "
        ++ "\\class_exists('Humbug\\X\\Y');\n").toList := by decide +kernel
  rw [outcome_plan_ofHand (by decide +kernel) hedits (by decide +kernel) hspliced, hending]

/-- The file with a group and a literal makes calls that share its classifier. -/
theorem shares_groupAndLiteral (contents : Text) :
    (ofHand classExists .groupAndLiteral contents).Shares
      ⟨classExists, HandFile.groupAndLiteral.setting.relocation.classifier.whitelist⟩ :=
  shares_ofHand (by decide +kernel) (by decide +kernel) contents

/-- A file that cannot be parsed, and then one in which a group of imports is split, the call of a native
function is pinned and the name in a literal is moved. -/
theorem registry_accounts_groupAndLiteral :
    let broken := ofHand classExists .groupAndLiteral "<?php new".toList
    let last := ofHand classExists .groupAndLiteral HandFile.groupAndLiteral.code.toList
    let r : Relocation := ⟨HandFile.groupAndLiteral.setting.relocation.root, last.classifier⟩
    let journal := Journal.withThreshold .warning
    (∀ call ∈ [broken, last], call.Shares r.classifier)
      ∧ (∀ rename ∈ (Plan.runAll ([broken, last].map (plan r.root))
          ⟨.empty, journal⟩).2.registry.records,
        rename.renamed = r.relocate rename.name ∧ r.hasMoved rename.name = false
          ∧ (r.classifier.classify rename.kind rename.name = .rename
            ∨ r.classifier.exposes rename.kind rename.name = true))
      ∧ ∃ result run',
        (last.plan r.root).run (Plan.runAll ([broken].map (plan r.root)) ⟨.empty, journal⟩).2
            = (.ok result, run')
          ∧ result = ("<?php namespace Humbug;\n\nuse Humbug\\A\\B;\nuse A\\C; "
            ++ "\\class_exists('Humbug\\X\\Y');\n").toList
          ∧ last.prefixer.Accounts last.whitelist last.path r.root
            (run'.registry.KnowsMove r.root) (Prefixer.levelsOf last.contents) last.contents
            result := by
  intro broken last r journal
  have hroot : Prefix.validate (some r.root) = .ok r.root := by decide +kernel
  have hbefore : ∀ call ∈ [broken], call.Shares r.classifier :=
    List.forall_mem_singleton.mpr (shares_groupAndLiteral _)
  have hlast : last.Shares r.classifier := shares_groupAndLiteral _
  have hcalls : ∀ call ∈ [broken, last], call.Shares r.classifier :=
    List.forall_mem_append.mpr ⟨hbefore, List.forall_mem_singleton.mpr hlast⟩
  obtain ⟨run', hrun, -⟩ := hlast.run_plan hroot hbefore journal
  rw [outcome_plan_groupAndLiteral] at hrun
  obtain ⟨hsound, hcomplete⟩ := registry_accounts hroot [broken, last] hcalls journal
  exact ⟨hcalls, hsound, _, run', hrun, rfl, hcomplete [broken] last [] rfl _ _ hrun⟩

end Call

end PhpPrefixer
