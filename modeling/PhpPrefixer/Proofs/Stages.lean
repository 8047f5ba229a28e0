import PhpPrefixer.Prefixer
import PhpPrefixer.Proofs.Conduct
import PhpPrefixer.Proofs.PlanRuns

/-!
# The stages of a file

What the walk through a tree and the printing of its edits keep to, the treatment of a file keeps to,
with all the code embedded in it. The levels of embedding are gone through by induction.
-/

namespace PhpPrefixer.Prefixer

variable {c : Conduct} {p : Prefixer} {whitelist : Whitelist} {path : Text}

/-- Going from one stage to the next one tells about it and nothing else. -/
theorem keeps_advance (hc : c.IsLenient) (a b : Stage) :
    (advance path a b).Keeps c fun _ => True :=
  Plan.Keeps.single (hc.note _) trivial

/-- Parsing a file gives a tree that passed the check. -/
theorem keeps_parseFile (hc : c.IsLenient) (p : Prefixer) (path code : Text) :
    (p.parseFile path code).Keeps c fun tree => (p.parse code).check code = .ok tree := by
  refine (keeps_advance hc _ _).bind fun _ _ => ?_
  split
  · next e _ =>
    refine (keeps_advance hc _ _).bind fun _ _ => ?_
    refine Plan.Keeps.bind (Plan.Keeps.single (hc.note _) trivial) fun _ (_ : True) => ?_
    exact Plan.Keeps.fail (hc.unparsable e)
  · next tree hcheck =>
    exact (keeps_advance hc _ _).bind fun _ _ => Plan.Keeps.pure hcheck

/-- The code of a file is moved by a walk through its tree and the printing of the edits. -/
theorem keeps_moveCode (hc : c.IsLenient) {root code : Text} {treat : Text → Plan Text}
    {Q : FileState → Prop}
    (hwalk : ∀ tree, (p.parse code).check code = .ok tree →
      (walk ⟨path, ⟨root, ⟨p.natives, whitelist⟩⟩, p.policy, p.warnDynamic, tree.1⟩ tree.2
        treat).Keeps c Q)
    (hprint : ∀ source s, Q s → (printFile source s.edits).Keeps c fun _ => True) :
    (p.moveCode whitelist path root treat code).Keeps c fun _ => True := by
  refine (keeps_parseFile hc p path code).bind fun tree hcheck => ?_
  refine Plan.Keeps.bind (Plan.Keeps.single (hc.note _) trivial) fun _ (_ : True) => ?_
  refine (keeps_advance hc _ _).bind fun _ _ => ?_
  refine (hwalk tree hcheck).bind fun s hs => ?_
  refine (hprint _ s hs).bind fun printed _ => ?_
  refine (keeps_advance hc _ _).bind fun _ _ => ?_
  refine Plan.Keeps.bind (Plan.Keeps.single (hc.note _) trivial) fun _ (_ : True) => ?_
  exact Plan.Keeps.pure trivial

/-- A file is treated by moving its code, and the code embedded in it by the same treatment with the
checked prefix. -/
theorem keeps_treatWithin_of (hc : c.IsLenient) {G : Option Text → Prop}
    (hbad : ∀ given e, G given → Prefix.validate given = .error e → c.failure (.badPrefix e))
    (hroot : ∀ given root, G given → Prefix.validate given = .ok root → G (some root))
    (hmove : ∀ root, G (some root) → ∀ treat, (∀ code, (treat code).Keeps c fun _ => True) →
      ∀ code, (p.moveCode whitelist path root treat code).Keeps c fun _ => True)
    (levels : Nat) {given : Option Text} (hgiven : G given) (contents : Text) :
    (p.treatWithin whitelist path levels given contents).Keeps c fun _ => True := by
  induction levels generalizing given contents with
  | zero => exact Plan.Keeps.pure trivial
  | succ levels ih =>
    unfold treatWithin
    split
    · split
      · next e he => exact Plan.Keeps.fail (hbad given e hgiven he)
      · next root hvalid =>
        have hchecked := hroot given root hgiven hvalid
        exact (hmove root hchecked _ (ih hchecked) _).bind fun _ _ => Plan.Keeps.pure trivial
    · refine Plan.Keeps.bind (Plan.Keeps.single (hc.note _) trivial) fun _ (_ : True) => ?_
      exact Plan.Keeps.pure trivial

/-- Code that is moved is parsed, walked through and printed, and the steps of the walk are taken. -/
theorem exists_walk_of_moveCode {treat : Text → Plan Text} {root code printed : Text}
    (h : (p.moveCode whitelist path root treat code).outcome = .ok printed) :
    ∃ source tree s,
      let w : FileSetting :=
        ⟨path, ⟨root, ⟨p.natives, whitelist⟩⟩, p.policy, p.warnDynamic, source⟩
      (p.parse code).check code = .ok (source, tree)
        ∧ (walk w tree treat).outcome = .ok s ∧ source.print s.edits = .ok printed
        ∧ (walk w tree treat).steps ⊆ (p.moveCode whitelist path root treat code).steps := by
  obtain ⟨⟨source, tree⟩, hparse, htraverse, hsteps⟩ := Plan.exists_of_bind h
  have hcheck := (keeps_parseFile Conduct.isOpen_any.toIsLenient p path code).result _ hparse
  obtain ⟨-, -, hadvance, hnoteSteps⟩ := Plan.exists_of_bind htraverse
  obtain ⟨-, -, hwalkOn, hadvanceSteps⟩ := Plan.exists_of_bind hadvance
  obtain ⟨s, hwalk, hprintOn, hwalkSteps⟩ := Plan.exists_of_bind hwalkOn
  obtain ⟨t, hprint, hend, -⟩ := Plan.exists_of_bind hprintOn
  have ht : t = printed := by
    cases hend
    rfl
  refine ⟨source, tree, s, hcheck, hwalk, ?_, ?_⟩
  · unfold printFile at hprint
    split at hprint
    · next text htext =>
      cases hprint
      rw [htext, ht]
    · cases hprint
    · cases hprint
  · intro step hstep
    unfold moveCode
    rw [hsteps, hnoteSteps, hadvanceSteps, hwalkSteps]
    simp [hstep]

/-- Code that can be parsed, walked through and printed is moved. -/
theorem outcome_moveCode {treat : Text → Plan Text} {root code printed : Text} {source : Source}
    {tree : Node} {s : FileState} (hcheck : (p.parse code).check code = .ok (source, tree))
    (hwalk : (walk ⟨path, ⟨root, ⟨p.natives, whitelist⟩⟩, p.policy, p.warnDynamic, source⟩ tree
      treat).outcome = .ok s)
    (hprint : source.print s.edits = .ok printed) :
    (p.moveCode whitelist path root treat code).outcome = .ok printed := by
  have hparse : (p.parseFile path code).outcome = .ok (source, tree) := by
    rw [parseFile, hcheck]
    rfl
  have hprinted : (printFile source s.edits).outcome = .ok printed := by
    rw [printFile, hprint]
    rfl
  have hrest : ∀ (m : Plan Unit) (next : Unit → Plan Text), m.outcome = .ok () →
      (m >>= next).outcome = (next ()).outcome := fun m next hm => by rw [Plan.bind_of_ok hm]
  rw [moveCode, Plan.bind_of_ok hparse]
  dsimp only
  rw [hrest _ _ rfl, hrest _ _ rfl, Plan.bind_of_ok hwalk]
  dsimp only
  rw [Plan.bind_of_ok hprinted]
  rfl

/-- A file that holds code is treated by moving the code behind its first line. -/
theorem treatWithin_of_holdsCode {root : Text} (hroot : Prefix.validate (some root) = .ok root)
    {contents : Text}
    (hcode : Recognition.holdsCode p.extensions path contents = true) (levels : Nat) :
    p.treatWithin whitelist path (levels + 1) (some root) contents = do
      let moved ← p.moveCode whitelist path root
        (p.treatWithin whitelist path levels (some root)) (Recognition.splitShebang contents).2
      return (Recognition.splitShebang contents).1 ++ moved := by
  rw [treatWithin, if_pos hcode, hroot]

end PhpPrefixer.Prefixer
