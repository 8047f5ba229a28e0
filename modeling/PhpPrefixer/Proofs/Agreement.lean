import PhpPrefixer.Proofs.RecordedRenames
import PhpPrefixer.Proofs.RecordingWalk

/-!
# Renames under one prefix agree

All renames made under one prefix lead to the name under that prefix, so two of them that concern the
same symbol have the same target, whatever letter case the names are spelled in. A registry that holds
only such renames refuses none of them, and what it holds for a symbol does not depend on which of
them came first. This is seen through `Registry.target?`, the target of a symbol as targets are
compared.
-/

namespace PhpPrefixer

/-- A rename that moves its symbol under a prefix. -/
structure Rename.Follows (root : Text) (r : Rename) : Prop where
  /-- The name after is the name before under the prefix. -/
  renamed : r.renamed = Name.relocate root r.name
  /-- The name of a constant has no separators around it. -/
  isTrimmed : r.kind = .constant → Name.IsTrimmed r.name

namespace Rename

variable {root : Text} {r a b : Rename}

/-- Without separators in front, a rename still moves its symbol under the prefix. -/
theorem Follows.bare (hroot : Name.IsRoot root) (h : r.Follows root) : r.bare.Follows root where
  renamed := by
    have hname : Name.relocate root (Name.bare r.name) = Name.relocate root r.name := by
      rw [Name.relocate_eq_beside hroot, Name.relocate_eq_beside hroot, Name.trimmed_bare]
    have htarget : Name.bare (Name.relocate root r.name) = Name.relocate root r.name :=
      Name.bare_of_isTrimmed (Name.isTrimmed_relocate root r.name)
    simp only [Rename.bare]
    rw [h.renamed, hname, htarget]
  isTrimmed := by
    intro hkind
    have htrimmed := h.isTrimmed hkind
    simp only [Rename.bare]
    rwa [Name.bare_of_isTrimmed htrimmed]

/-- Renames of one symbol under one prefix have one target. -/
theorem target_eq_of_key_eq (hroot : Name.IsRoot root) (ha : a.Follows root) (hb : b.Follows root)
    (hkey : a.key = b.key) : a.target = b.target := by
  obtain ⟨hkind, hname⟩ := Prod.mk.inj hkey
  rw [← hkind] at hname
  rw [target, target, ha.renamed, hb.renamed, ← hkind]
  exact Name.key_relocate_congr hroot ha.isTrimmed (fun h => hb.isTrimmed (hkind ▸ h)) hname

end Rename

namespace Registry

variable {root : Text} {g : Registry} {r : Rename}

/-- All renames were made under one prefix. -/
def Follows (root : Text) (g : Registry) : Prop := ∀ r ∈ g.records, r.Follows root

/-- In the empty registry every symbol is moved under the prefix. -/
theorem follows_empty (root : Text) : empty.Follows root := by
  intro r hr
  exact absurd hr List.not_mem_nil

/-- What a symbol is renamed to under the prefix does not depend on the rename that is looked at. -/
theorem target_eq_of_target? (hroot : Name.IsRoot root) (hg : g.Follows root)
    (hr : r.Follows root) {target : Text} (h : g.target? r.key = some target) :
    r.target = target := by
  obtain ⟨existing, hfind, rfl⟩ := Option.map_eq_some_iff.mp h
  obtain ⟨hmem, hkey⟩ := mem_of_findKey? hfind
  exact Rename.target_eq_of_key_eq hroot hr (hg existing hmem) hkey.symm

/-- A registry with renames under one prefix takes a further one. Afterwards its symbol has its
target, and all others have the targets they had. -/
theorem record_of_follows (hroot : Name.IsRoot root) (hg : g.Follows root) (hr : r.Follows root) :
    ∃ g', g.record r = .ok g' ∧ g'.Follows root
      ∧ ∀ key, g'.target? key = if r.bare.key = key then some r.bare.target else g.target? key := by
  have hbare := hr.bare hroot
  cases hfind : g.findKey? r.bare.key with
  | some existing =>
    have hfound : g.target? r.bare.key = some existing.target := by
      rw [target?, hfind, Option.map_some]
    have htarget := target_eq_of_target? hroot hg hbare hfound
    refine ⟨g, record_of_confirmed hfind htarget.symm, hg, fun key => ?_⟩
    split
    · next heq => rw [← heq, hfound, htarget]
    · rfl
  | none =>
    refine ⟨_, record_of_new hfind, ?_, fun key => ?_⟩
    · intro s hs
      rcases List.mem_append.mp hs with hold | hnew
      · exact hg s hold
      · rw [List.mem_singleton.mp hnew]
        exact hbare
    · rw [target?, findKey?_concat]
      split
      · next heq => rw [← heq, hfind, Option.none_or, Option.map_some]
      · rw [Option.or_none]
        rfl

end Registry

/-- A step that records nothing but a rename under a prefix. -/
def Step.Follows (root : Text) : Step → Prop
  | .record r => r.Follows root
  | _ => True

/-- Some steps rename the symbol with a key to a target. -/
def Step.Sets (steps : List Step) (key : SymbolKind × Text) (target : Text) : Prop :=
  ∃ r, .record r ∈ steps ∧ r.bare.key = key ∧ r.bare.target = target

/-- What some steps and further ones set, one part of them sets. -/
theorem Step.sets_append {steps more : List Step} {key : SymbolKind × Text} {target : Text} :
    Step.Sets (steps ++ more) key target
      ↔ Step.Sets steps key target ∨ Step.Sets more key target := by
  simp only [Step.Sets, List.mem_append, or_and_right, exists_or]

namespace Run

variable {root : Text} {run : Run} {step : Step}

/-- A step under the prefix is taken without conflict. Afterwards the symbols have the targets they
had and the one the step sets. -/
theorem take_of_follows (hroot : Name.IsRoot root) (hrun : run.registry.Follows root)
    (hstep : step.Follows root) :
    ∃ run', run.take step = .ok run' ∧ run'.registry.Follows root
      ∧ ∀ key target, run'.registry.target? key = some target
        ↔ run.registry.target? key = some target ∨ Step.Sets [step] key target := by
  cases step with
  | note e => exact ⟨_, rfl, hrun, by simp [Step.Sets]⟩
  | threshold level => exact ⟨_, rfl, hrun, by simp [Step.Sets]⟩
  | record r =>
    obtain ⟨g', hrecord, hfollows, htarget⟩ := Registry.record_of_follows hroot hrun hstep
    have htake : ∃ run', run.take (.record r) = .ok run' ∧ run'.registry = g' := by
      rw [take, record, hrecord]
      refine ⟨_, rfl, ?_⟩
      split <;> rfl
    obtain ⟨run', htaken, rfl⟩ := htake
    refine ⟨run', htaken, hfollows, fun key target => ?_⟩
    have hsets : Step.Sets [.record r] key target ↔ r.bare.key = key ∧ r.bare.target = target := by
      simp [Step.Sets]
    rw [htarget, hsets]
    split
    · next heq =>
      rw [Option.some_inj]
      constructor
      · intro hnew
        exact .inr ⟨heq, hnew⟩
      · rintro (hold | ⟨-, hnew⟩)
        · exact Registry.target_eq_of_target? hroot hrun (hstep.bare hroot) (heq ▸ hold)
        · exact hnew
    · next hne =>
      constructor
      · intro hold
        exact .inl hold
      · rintro (hold | ⟨heq, -⟩)
        · exact hold
        · exact absurd heq hne

/-- Steps under the prefix are all taken. Afterwards the symbols have the targets they had and those
the steps set. -/
theorem takeAll_of_follows (hroot : Name.IsRoot root) {steps : List Step}
    (hrun : run.registry.Follows root) (hsteps : ∀ step ∈ steps, step.Follows root) :
    ∃ run', run.takeAll steps = (run', none) ∧ run'.registry.Follows root
      ∧ ∀ key target, run'.registry.target? key = some target
        ↔ run.registry.target? key = some target ∨ Step.Sets steps key target := by
  induction steps generalizing run with
  | nil => exact ⟨run, rfl, hrun, by simp [Step.Sets]⟩
  | cons step steps ih =>
    obtain ⟨hstep, hrest⟩ := List.forall_mem_cons.mp hsteps
    obtain ⟨run', htake, hfollows, hset⟩ := take_of_follows hroot hrun hstep
    obtain ⟨last, hlast, hlastFollows, hlastSet⟩ := ih hfollows hrest
    refine ⟨last, by rw [takeAll, htake]; exact hlast, hlastFollows, fun key target => ?_⟩
    have hcons : Step.Sets (step :: steps) key target
        ↔ Step.Sets [step] key target ∨ Step.Sets steps key target :=
      @Step.sets_append [step] steps key target
    rw [hlastSet, hset, hcons, or_assoc]

end Run

/-- Renames under a prefix may be recorded, and work may fail in every way but by a conflict. -/
def Conduct.under (root : Text) : Conduct where
  step := Step.Follows root
  failure f := ∀ x, f ≠ .conflict x

/-- A conduct that records renames under a prefix allows justified ones. -/
theorem Conduct.under_allows (r : Relocation) (path : Text) (named : Prop) :
    (Conduct.under r.root).Allows r path named where
  note := fun _ => trivial
  record := by
    intro rename h
    refine ⟨h.renamed, fun hkind => h.isTrimmed (.inl ?_)⟩
    rw [hkind]
    exact SymbolKind.noConfusion
  failure := fun _ hf => hf

/-- Work under the prefix comes to its own end. -/
theorem Plan.run_eq_outcome {α : Type} {p : Plan α} {root : Text} {Q : α → Prop} {r : Run}
    (hroot : Name.IsRoot root) (hp : p.Keeps (.under root) Q) (hr : r.registry.Follows root) :
    (p.run r).1 = p.outcome := by
  obtain ⟨last, hlast, -⟩ := Run.takeAll_of_follows hroot hr hp.step
  rw [run, hlast]

/-- The treatment of a file under a prefix records renames under that prefix only. -/
theorem Prefixer.keeps_treat {p : Prefixer} (hnames : p.NamesWellFormed) {root : Text}
    (hroot : Prefix.validate (some root) = .ok root) (whitelist : Whitelist)
    (path contents : Text) :
    (p.treat whitelist path (some root) contents).Keeps (.under root) fun _ => True :=
  keeps_treatWithin hnames False.elim hroot
    (Conduct.under_allows ⟨root, ⟨p.natives, whitelist⟩⟩ path False) _ _

end PhpPrefixer
