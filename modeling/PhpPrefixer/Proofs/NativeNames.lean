import PhpPrefixer.Config
import PhpPrefixer.Proofs.Ledger
import PhpPrefixer.Proofs.SymbolIdentity

/-!
# Native symbols

A native symbol stays as it is if its name is global: it is kept as native whatever the exclusion rules
say, no call records a rename of it, and none spells it under the prefix. The names of PHP are not all
global, though. A native symbol of a named namespace is treated as any other symbol, so it stays only
where it is excluded. The main result is `Classifier.native_kept`, and `Classifier.native_renamed` has a
class of PHP that is renamed. No prefixer is without native symbols: `Prefixer.natives_of_create`.
-/

namespace PhpPrefixer

namespace Name

/-- What is left of a global name without a leading separator has no separators around it. -/
theorem isTrimmed_bare {name : Text} (h : isGlobal name = true) : IsTrimmed (bare name) := by
  have hnone := isGlobal_iff.mp h
  exact ⟨fun hhead => hnone (List.mem_of_head? hhead),
    fun hlast => hnone (List.mem_of_getLast? hlast)⟩

variable {name : Text} (h : IsTrimmed (bare name))

include h

/-- A separator in front does not make a name global or otherwise. -/
theorem isGlobal_bare : isGlobal (bare name) = isGlobal name := by
  simp only [isGlobal, bare_of_isTrimmed h]

end Name

namespace NativeSymbols

/-- A table is extended by the keys of the new names. -/
theorem mem_extendTable {kind : SymbolKind} {table names : List Text} {key : Text} :
    key ∈ extendTable kind table names ↔ key ∈ table ∨ ∃ name ∈ names, Name.key kind name = key := by
  induction names generalizing table with
  | nil => simp [extendTable]
  | cons name names ih =>
    have hstep : extendTable kind table (name :: names)
        = extendTable kind (if table.contains (Name.key kind name) then table
          else table ++ [Name.key kind name]) names := rfl
    rw [hstep, ih, List.exists_mem_cons_iff, ← or_assoc]
    refine or_congr_left ?_
    split
    · next hold =>
      have hmem : Name.key kind name ∈ table := by simpa using hold
      exact ⟨.inl, fun h => h.elim id fun heq => heq ▸ hmem⟩
    · rw [List.mem_append, List.mem_singleton, eq_comm]

/-- There are symbols where classes are added. -/
theorem size_extend_ne_zero (n : NativeSymbols) {classes : List Text} (h : classes ≠ [])
    (functions constants : List Text) : (n.extend classes functions constants).size ≠ 0 := by
  obtain ⟨name, hname⟩ := List.exists_mem_of_ne_nil classes h
  have hmem : Name.key .classLike name ∈ (n.extend classes functions constants).classes :=
    mem_extendTable.mpr (.inr ⟨name, hname, rfl⟩)
  have hpos := List.length_pos_of_mem hmem
  rw [size]
  omega

/-- There are symbols of PHP. -/
theorem size_php_ne_zero : php.size ≠ 0 := by
  have hclasses : classNames.map String.toList ≠ [] :=
    mt List.map_eq_nil_iff.mp (List.cons_ne_nil _ _)
  exact size_extend_ne_zero empty hclasses _ _

/-- Whatever table is given or not, some symbols are native. -/
theorem size_orPhp_ne_zero (n : Option NativeSymbols) : (orPhp n).size ≠ 0 := by
  cases n with
  | none => exact size_php_ne_zero
  | some n =>
    rw [orPhp]
    split
    · exact size_php_ne_zero
    · next hsize => exact hsize

/-- A class that is added is native. -/
theorem contains_extend_classLike (n : NativeSymbols) {classes : List Text} {name : Text}
    (h : name ∈ classes) (functions constants : List Text) :
    (n.extend classes functions constants).contains .classLike name = true := by
  have hmem : Name.key .classLike name ∈ extendTable .classLike n.classes classes :=
    mem_extendTable.mpr (.inr ⟨name, h, rfl⟩)
  simpa [contains, extend] using hmem

/-- A separator in front does not change whether a symbol is native. -/
theorem contains_bare {name : Text} (h : Name.IsTrimmed (Name.bare name))
    (n : NativeSymbols) (kind : SymbolKind) :
    n.contains kind (Name.bare name) = n.contains kind name := by
  simp only [contains, Name.IsSinglyLed.key_bare h.1, Name.bare_of_isTrimmed h]

end NativeSymbols

namespace Classifier

variable {c : Classifier} {kind : SymbolKind} {name : Text}

/-- What becomes of a native symbol: only the exclusion rules keep it in a named namespace. -/
theorem classify_of_native (hname : Name.IsTrimmed (Name.bare name))
    (h : c.natives.contains kind name = true) :
    c.classify kind name = if Name.isGlobal name then .keepNative
      else if c.whitelist.excludes kind (Name.bare name) then .keepWhitelisted else .rename := by
  have hkind : kind ≠ .nameSpace := by
    rintro rfl
    cases h
  have hcontains : c.natives.contains kind (Name.bare name) = true := by
    rw [NativeSymbols.contains_bare hname, h]
  by_cases hglobal : Name.isGlobal name = true
  · simp [classify, hkind, Name.isGlobal_bare hname, hglobal, hcontains]
  · simp [classify, Name.isGlobal_bare hname, hglobal, Whitelist.exposes]

/-- A native symbol is never exposed. -/
theorem exposes_of_native (hname : Name.IsTrimmed (Name.bare name))
    (h : c.natives.contains kind name = true) : c.exposes kind name = false := by
  simp [exposes, NativeSymbols.contains_bare hname, h]

end Classifier

/-- A prefixer is never without native symbols: it has the table it was given, or that of PHP where it was
given none or an empty one. -/
theorem Prefixer.natives_of_create {parse : Text → Parsed} {natives : Option NativeSymbols}
    {config : Option Config} {dialect : Dialect} {p : Prefixer}
    (h : (create parse natives config dialect).outcome = .ok p) :
    p.natives = .orPhp natives ∧ p.natives.size ≠ 0 := by
  have hnatives : p.natives = .orPhp natives := by
    cases config with
    | none =>
      obtain ⟨_, -, hp, -⟩ := Plan.exists_of_bind h
      cases hp
      rfl
    | some c =>
      obtain ⟨_, -, hlisten, -⟩ := Plan.exists_of_bind h
      obtain ⟨_, -, hannounce, -⟩ := Plan.exists_of_bind hlisten
      obtain ⟨_, -, hp, -⟩ := Plan.exists_of_bind hannounce
      cases hp
      rfl
  exact ⟨hnatives, hnatives ▸ NativeSymbols.size_orPhp_ne_zero natives⟩

/-- A justified rename is not one of a native symbol with a global name, in any spelling. -/
theorem Relocation.IsJustified.key_ne_of_native {r : Relocation} {rename : Rename}
    (hrename : r.IsJustified rename) {kind : SymbolKind} {name : Text}
    (h : r.classifier.natives.contains kind name = true) (hglobal : Name.isGlobal name = true) :
    rename.key ≠ (kind, Name.key kind name) := by
  intro hkey
  obtain ⟨path, hjustified⟩ := hrename
  obtain ⟨hkind, hspelled⟩ := Prod.mk.inj hkey
  have hname := Name.isTrimmed_bare hglobal
  have htrimmed := hjustified.isTrimmed (.inr trivial)
  rw [hkind, ← Name.IsSinglyLed.key_bare hname.1] at hspelled
  have hcontains : r.classifier.natives.contains kind rename.name = true := by
    rw [NativeSymbols.contains_congr htrimmed hname hspelled, NativeSymbols.contains_bare hname, h]
  have hrecorded : Name.isGlobal rename.name = true := by
    rw [Name.isGlobal_congr htrimmed hname (Name.lower_eq_of_key_eq htrimmed hname hspelled),
      Name.isGlobal_bare hname, hglobal]
  have hbare := Name.isTrimmed_bare hrecorded
  rcases hjustified.decided with hclass | hexposed
  · rw [hkind, Classifier.classify_of_native hbare hcontains, if_pos hrecorded] at hclass
    cases hclass
  · rw [hkind, Classifier.exposes_of_native hbare hcontains] at hexposed
    cases hexposed

namespace Classifier

variable {c : Classifier} {kind : SymbolKind} {name : Text}

/-- A native symbol with a global name is kept as native. Whatever calls are made with the classifier,
the registry holds no rename of it, and in no file that a call returns is it spelled under the prefix.
A native symbol of a named namespace is not kept as native: it is renamed unless it is excluded. -/
theorem native_kept (h : c.natives.contains kind name = true) :
    (Name.isGlobal name = true →
        c.classify kind name = .keepNative ∧ c.renames kind name = false
          ∧ ∀ (root : Text) (calls : List Call) (journal : Journal),
            Prefix.validate (some root) = .ok root → (∀ call ∈ calls, call.Shares c) →
            (Plan.runAll (calls.map (Call.plan root)) ⟨.empty, journal⟩).2.registry.find? kind name
                = none
              ∧ ∀ call ∈ calls, ∀ result, (call.plan root).outcome = .ok result →
                call.prefixer.Accounts call.whitelist call.path root
                  (fun k n => (k, Name.key k n) ≠ (kind, Name.key kind name))
                  (Prefixer.levelsOf call.contents) call.contents result)
      ∧ (Name.isGlobal name = false → Name.IsTrimmed (Name.bare name) →
        c.classify kind name
          = if c.whitelist.excludes kind (Name.bare name) then .keepWhitelisted else .rename) := by
  constructor
  · intro hglobal
    have hclass : c.classify kind name = .keepNative := by
      rw [classify_of_native (Name.isTrimmed_bare hglobal) h, if_pos hglobal]
    refine ⟨hclass, by rw [renames, hclass]; rfl, fun root calls journal hroot hcalls => ?_⟩
    have hother : ∀ rename, Relocation.IsJustified ⟨root, c⟩ rename →
        rename.key ≠ (kind, Name.key kind name) :=
      fun rename hrename => hrename.key_ne_of_native h hglobal
    constructor
    · have hjustified := Call.isJustified_runAll (r := ⟨root, c⟩) hroot hcalls journal
      rw [Registry.find?, Registry.findKey?, List.find?_eq_none]
      intro rename hrename hkey
      exact hother rename (hjustified rename hrename) (of_decide_eq_true hkey)
    · intro call hcall result hresult
      have hsteps := ((hcalls call hcall).keeps_plan (r := ⟨root, c⟩) hroot).step
      refine (Prefixer.accounts_of_treatWithin hroot _ hresult).mono fun k n hmoved => ?_
      exact hother ⟨n, Name.relocate root n, k, some call.path⟩ (hsteps _ hmoved)
  · intro hnamed hname
    rw [classify_of_native hname h, if_neg (by rw [hnamed]; decide)]

/-- The call of a native function, spelled in another letter case than asked for. -/
theorem native_kept_classExists :
    let call := Call.ofHand Call.classExists .groupAndLiteral
      HandFile.groupAndLiteral.code.toList
    let root := HandFile.groupAndLiteral.setting.relocation.root
    let name := "\\Class_Exists".toList
    call.classifier.natives.contains .function name = true ∧ Name.isGlobal name = true
      ∧ call.classifier.classify .function name = .keepNative
      ∧ (Plan.runAll [call.plan root] ⟨.empty, .withThreshold .warning⟩).2.registry.find?
          .function name = none
      ∧ ∃ result, (call.plan root).outcome = .ok result
        ∧ call.prefixer.Accounts call.whitelist call.path root
          (fun k n => (k, Name.key k n) ≠ (.function, Name.key .function name))
          (Prefixer.levelsOf call.contents) call.contents result := by
  intro call root name
  have hnative : call.classifier.natives.contains .function name = true := by decide +kernel
  have hglobal : Name.isGlobal name = true := by decide +kernel
  obtain ⟨hclass, -, hcalls⟩ := (native_kept hnative).1 hglobal
  obtain ⟨hregistry, haccounts⟩ := hcalls root [call] (.withThreshold .warning) (by decide +kernel)
    (List.forall_mem_singleton.mpr (Call.shares_groupAndLiteral _))
  have hout := Call.outcome_plan_groupAndLiteral
  exact ⟨hnative, hglobal, hclass, hregistry, _, hout,
    haccounts call (List.mem_singleton.mpr rfl) _ hout⟩

/-- PHP has classes in named namespaces, and they are renamed. -/
theorem native_renamed :
    NativeSymbols.php.contains .classLike "Random\\Randomizer".toList = true
      ∧ (Classifier.mk .php .empty).classify .classLike "Random\\Randomizer".toList = .rename := by
  have hmem : "Random\\Randomizer" ∈ NativeSymbols.classNames := by decide +kernel
  have hnative : NativeSymbols.php.contains .classLike "Random\\Randomizer".toList = true := by
    rw [NativeSymbols.php]
    exact NativeSymbols.contains_extend_classLike _ (List.mem_map_of_mem hmem) _ _
  refine ⟨hnative, ?_⟩
  rw [classify_of_native (c := ⟨.php, .empty⟩) (by decide +kernel) hnative]
  decide +kernel

end Classifier

end PhpPrefixer
