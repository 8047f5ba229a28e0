import PhpPrefixer.Proofs.RecordedRenames

/-!
# Registries only grow

Some registries, empty at first, are filled by recording renames in them and by merging them into one
another, in any order and whether or not an earlier action was refused. What a registry then holds is
told by the renames it was asked to record, in the order of asking (`Registry.Reflects`). A single rename
keeps this, and so do a merge and a run of actions: `Registries.first_rename_stays`.
-/

namespace PhpPrefixer

/-- Some registries, each with a number. -/
def Registries := Nat → Registry

namespace Registries

/-- What is done with some registries. -/
inductive Action where
  /-- A rename is recorded in one of them. -/
  | record (place : Nat) (r : Rename)
  /-- One of them is given the renames of another. -/
  | merge (place other : Nat)

/-- The registry that an action is about. -/
def Action.place : Action → Nat
  | record place _ => place
  | merge place _ => place

/-- The names in an action have at most one separator in front. -/
def Action.IsSinglyLed : Action → Prop
  | record _ r => r.IsSinglyLed
  | merge _ _ => True

instance (a : Action) : Decidable a.IsSinglyLed :=
  match a with
  | .record _ r => inferInstanceAs (Decidable r.IsSinglyLed)
  | .merge _ _ => inferInstanceAs (Decidable True)

/-- The registries, all of them empty. -/
def empty : Registries := fun _ => Registry.empty

/-- The registries with one of them replaced. -/
def put (gs : Registries) (place : Nat) (g : Registry) : Registries :=
  fun other => if other = place then g else gs other

/-- The registries after an action, and the conflict that stopped it. -/
def act (gs : Registries) : Action → Registries × Option Conflict
  | .record place r =>
    match (gs place).record r with
    | .ok g => (gs.put place g, none)
    | .error c => (gs, some c)
  | .merge place other =>
    let (g, conflict) := (gs place).merge (gs other)
    (gs.put place g, conflict)

/-- The registries after some actions, each of them done whatever became of those before. -/
def actAll (gs : Registries) : List Action → Registries
  | [] => gs
  | a :: actions => (gs.act a).1.actAll actions

/-- The renames that an action is to record. -/
def offered (gs : Registries) : Action → List Rename
  | .record _ r => [r]
  | .merge _ other => (gs other).all

/-- The renames that one of the registries is asked to record in the course of some actions, in order. -/
def calls (place : Nat) (gs : Registries) : List Action → List Rename
  | [] => []
  | a :: actions =>
    (if a.place = place then (gs place).tried (gs.offered a) else [])
      ++ calls place (gs.act a).1 actions

variable {gs : Registries} {a : Action} {actions : List Action} {place : Nat}

/-- An action records what it offers in the registry it is about, and leaves the others alone. -/
theorem act_apply (gs : Registries) (a : Action) (place : Nat) :
    (gs.act a).1 place
      = if a.place = place then ((gs place).recordAll (gs.offered a)).1 else gs place := by
  cases a with
  | record spot r =>
    simp only [act, Action.place, offered, Registry.recordAll]
    by_cases hplace : spot = place
    · subst hplace
      cases (gs spot).record r <;> simp [put]
    · cases (gs spot).record r <;> simp [put, hplace, Ne.symm hplace]
  | merge spot other =>
    simp only [act, Action.place, offered, Registry.merge, put]
    by_cases hplace : spot = place
    · simp [hplace]
    · simp [hplace, Ne.symm hplace]

/-- The calls of actions that follow each other follow each other. -/
theorem calls_append (place : Nat) (gs : Registries) (actions more : List Action) :
    calls place gs (actions ++ more)
      = calls place gs actions ++ calls place (gs.actAll actions) more := by
  induction actions generalizing gs with
  | nil => rfl
  | cons a actions ih => simp only [List.cons_append, calls, actAll, ih, List.append_assoc]

/-- Renames are only added to a registry, whatever is done. -/
theorem prefix_actAll (gs : Registries) (actions : List Action) (place : Nat) :
    (gs place).records <+: (gs.actAll actions place).records := by
  induction actions generalizing gs with
  | nil => exact List.prefix_refl _
  | cons a actions ih =>
    refine List.IsPrefix.trans ?_ (ih (gs.act a).1)
    rw [act_apply]
    split
    · exact Registry.prefix_recordAll ..
    · exact List.prefix_refl _

/-- What an action offers can be asked for if this is so of what the registries hold. -/
theorem singlyLed_offered {asked : Nat → List Rename} (h : ∀ place, (gs place).Reflects (asked place))
    (ha : a.IsSinglyLed) : ∀ r ∈ gs.offered a, r.IsSinglyLed := by
  cases a with
  | record place r => exact List.forall_mem_singleton.mpr ha
  | merge place other =>
    intro r hr
    exact (h other).singlyLed_of_mem (List.mem_mergeSort.mp hr)

/-- All registries go on reflecting what they are asked to record. -/
theorem reflects_actAll (asked : Nat → List Rename) (h : ∀ place, (gs place).Reflects (asked place))
    (hactions : ∀ a ∈ actions, a.IsSinglyLed) (place : Nat) :
    (gs.actAll actions place).Reflects (asked place ++ calls place gs actions) := by
  induction actions generalizing gs asked with
  | nil => exact (List.append_nil (asked place)).symm ▸ h place
  | cons a actions ih =>
    obtain ⟨ha, hactions⟩ := List.forall_mem_cons.mp hactions
    have hstep : ∀ place, ((gs.act a).1 place).Reflects
        (asked place ++ if a.place = place then (gs place).tried (gs.offered a) else []) := by
      intro place
      rw [act_apply]
      split
      · exact (h place).recordAll (singlyLed_offered h ha)
      · exact (List.append_nil (asked place)).symm ▸ h place
    have hrest := ih _ hstep hactions
    rwa [List.append_assoc] at hrest

/-- Recording a rename calls for it. -/
theorem calls_record (place : Nat) (gs : Registries) (r : Rename) :
    calls place gs [.record place r] = [r] := by
  simp only [calls, Action.place, offered, Registry.tried, if_true, List.append_nil]
  cases (gs place).record r <;> rfl

/-- A registry that was filled by any actions is a function of symbols that only grows. Each rename is
found under its symbol, and whatever is done later it stays there unchanged. A rename of a symbol is
refused just if the symbol has one whose target is another one, and then nothing changes. Otherwise the
symbol, however it is spelled, has the first target that it was ever given, and this one is the same
symbol as the target asked for. -/
theorem first_rename_stays (actions : List Action) (hactions : ∀ a ∈ actions, a.IsSinglyLed)
    (place : Nat) :
    let gs := empty.actAll actions
    (∀ r ∈ (gs place).records, (gs place).findKey? (r.kind, Name.key r.kind r.name) = some r) ∧
    (∀ more key r, (gs place).findKey? key = some r →
      (gs.actAll more place).findKey? key = some r) ∧
    ∀ r : Rename, r.IsSinglyLed →
      ((∃ c, (gs place).record r = .error c) ↔
        ∃ old, (gs place).find? r.kind r.name = some old ∧
          Name.key r.kind old.renamed ≠ Name.key r.kind r.renamed) ∧
      (∀ c, (gs place).record r = .error c → gs.act (.record place r) = (gs, some c)) ∧
      (∀ g, (gs place).record r = .ok g →
        ∀ name, Name.key r.kind name = Name.key r.kind r.name →
          ∃ first, (calls place empty (actions ++ [.record place r])).find?
              (fun call => call.key = (r.kind, Name.key r.kind name)) = some first ∧
            g.lookup? r.kind name = some (Name.bare first.renamed) ∧
            Name.key r.kind first.renamed = Name.key r.kind r.renamed) := by
  intro gs
  have hreflects : (gs place).Reflects (calls place empty actions) :=
    reflects_actAll (fun _ => []) (fun _ => Registry.reflects_empty) hactions place
  refine ⟨fun r hr => hreflects.findKey?_key hr, fun more key r hfind => ?_, fun r hr => ⟨?_, ?_, ?_⟩⟩
  · exact Registry.findKey?_of_prefix (prefix_actAll gs more place) hfind
  · rw [Registry.record_eq_error_iff, hr.key_bare, hr.target_bare]
    refine exists_congr fun old => and_congr_right fun hold => ?_
    have hkind : old.kind = r.kind := (Prod.mk.inj (Registry.mem_of_findKey? hold).2).1
    rw [Rename.target, Rename.target, hkind]
  · intro c hc
    simp only [act, hc]
  · intro g hg name hname
    obtain ⟨first, hfirst, hfind, htarget⟩ := hreflects.exists_first hr hg
    refine ⟨first, ?_, ?_, htarget⟩
    · rw [calls_append, calls_record, hname]
      exact hfirst
    · rw [Registry.lookup?, Registry.find?, hname, show (r.kind, _) = r.key from rfl, hfind]
      rfl

/-- A class that was renamed with leading separators, and then in other letter cases: after a merge, and
after a rename to something else that was refused. -/
theorem first_rename_stays_merged :
    let first : Rename :=
      ⟨"\\Acme\\Foo".toList, "\\Humbug\\Acme\\Foo".toList, .classLike, some "a.php".toList⟩
    let merged : Rename := ⟨"acme\\FOO".toList, "humbug\\Acme\\Foo".toList, .classLike, none⟩
    let refused : Rename := ⟨"Acme\\foo".toList, "Other\\Foo".toList, .classLike, none⟩
    let later : Rename := ⟨"ACME\\FOO".toList, "\\HUMBUG\\ACME\\FOO".toList, .classLike, none⟩
    let actions : List Action :=
      [.record 0 first, .record 1 merged, .merge 0 1, .record 0 refused]
    let gs := empty.actAll actions
    (∀ a ∈ actions, a.IsSinglyLed) ∧ refused.IsSinglyLed ∧ later.IsSinglyLed
      ∧ (gs 0).findKey? later.key = some first.bare
      ∧ (gs.actAll [.record 0 refused, .merge 0 1] 0).findKey? later.key = some first.bare
      ∧ (∃ c, gs.act (.record 0 refused) = (gs, some c))
      ∧ ∃ g, (gs 0).record later = .ok g
        ∧ g.lookup? .classLike "\\acme\\foo".toList = some "Humbug\\Acme\\Foo".toList := by
  intro first merged refused later actions gs
  have hactions : ∀ a ∈ actions, a.IsSinglyLed := by decide +kernel
  have hrefused : refused.IsSinglyLed := by decide +kernel
  have hlater : later.IsSinglyLed := by decide +kernel
  have hgs : gs 0 = ⟨[first.bare]⟩ := by decide +kernel
  have hfind : (gs 0).findKey? later.key = some first.bare := by
    rw [hgs]
    decide +kernel
  have hheld : (gs 0).find? refused.kind refused.name = some first.bare := by
    rw [hgs]
    decide +kernel
  obtain ⟨-, hstays, hrecord⟩ := first_rename_stays actions hactions 0
  obtain ⟨c, hc⟩ := (hrecord refused hrefused).1.mpr ⟨first.bare, hheld, by decide +kernel⟩
  have hok : (gs 0).record later = .ok (gs 0) := by
    rw [hgs]
    exact Registry.record_of_confirmed (s := first.bare) (by decide +kernel) (by decide +kernel)
  obtain ⟨found, hfound, hlookup, -⟩ :=
    (hrecord later hlater).2.2 _ hok "\\acme\\foo".toList (by decide +kernel)
  have hfirst : found = first := by
    rw [← Option.some_inj, ← hfound]
    decide +kernel
  refine ⟨hactions, hrefused, hlater, hfind, hstays _ _ _ hfind,
    ⟨c, (hrecord refused hrefused).2.1 c hc⟩, gs 0, hok, ?_⟩
  rw [hlookup, hfirst]
  decide +kernel

end Registries

end PhpPrefixer
