import PhpPrefixer.Proofs.RecordedRenames

/-!
# Merging registries

A registry is merged into another one by recording its renames again, one after the other in the order in
which they are listed, and a conflict stops this halfway. The renames of a registry that was built by
recording have no separators in front and each symbol is there once (`Registry.IsTidy`), so recording them
again changes none of them and they do not stand in each other's way. Merging is therefore a union of
registries (`findKey?_merge`) that is checked for agreement (`merge_eq_none_iff`), and merging again adds
nothing (`merge_merge`). Of registries that agree, the targets of a merged list are those of its members,
whatever their order: `mergeAll_of_agrees`.
-/

namespace PhpPrefixer

namespace Registry

/-- The registry that some calls lead to, each of them made whatever became of those before. -/
def ofCalls (calls : List Rename) : Registry := calls.foldl (fun g r => (g.attempt r).1) empty

/-- The registry was built by recording names with at most one separator in front. -/
def IsRecorded (g : Registry) : Prop := ∃ calls, (∀ r ∈ calls, r.IsSinglyLed) ∧ g = ofCalls calls

/-- The renames can be recorded once more as they are, and each symbol is there once. -/
structure IsTidy (g : Registry) : Prop where
  /-- No symbol is there twice. -/
  nodup : (g.records.map Rename.key).Nodup
  /-- No separator stands in front of a name. -/
  bare : ∀ r ∈ g.records, r.bare = r

/-- Symbols that are in both registries have one target. -/
def Agrees (a b : Registry) : Prop :=
  ∀ key x y, a.findKey? key = some x → b.findKey? key = some y → x.target = y.target

/-- A registry agrees with itself. -/
theorem Agrees.refl (a : Registry) : a.Agrees a := by
  intro key x y hx hy
  rw [Option.some_inj.mp (hx.symm.trans hy)]

/-- If a registry agrees with another one, so does the other one with it. -/
theorem Agrees.symm {a b : Registry} (h : a.Agrees b) : b.Agrees a :=
  fun key x y hx hy => (h key y x hy hx).symm

/-- Registries agree if their renames do. -/
theorem agrees_of_records {a b : Registry}
    (h : ∀ x ∈ a.records, ∀ y ∈ b.records, x.key = y.key → x.target = y.target) : a.Agrees b := by
  intro key x y hx hy
  obtain ⟨hxmem, hxkey⟩ := mem_of_findKey? hx
  obtain ⟨hymem, hykey⟩ := mem_of_findKey? hy
  exact h x hxmem y hymem (hxkey.trans hykey.symm)

variable {g a b : Registry} {r : Rename} {rs calls : List Rename} {key : SymbolKind × Text}

/-- A call is one more call, whether it is refused or not. -/
theorem Reflects.attempt (h : g.Reflects calls) (hr : r.IsSinglyLed) :
    (g.attempt r).1.Reflects (calls ++ [r]) := by
  unfold Registry.attempt
  cases hrecord : g.record r with
  | ok g' => exact h.record hr hrecord
  | error c => exact h.refused hr hrecord

/-- Calls are as many more calls, whichever of them are refused. -/
theorem Reflects.foldl_attempt {more : List Rename} (h : g.Reflects calls)
    (hmore : ∀ r ∈ more, r.IsSinglyLed) :
    (more.foldl (fun g r => (g.attempt r).1) g).Reflects (calls ++ more) := by
  induction more generalizing g calls with
  | nil => exact (List.append_nil calls).symm ▸ h
  | cons r more ih =>
    have hr := List.forall_mem_cons.mp hmore
    have hrest := ih (h.attempt hr.1) hr.2
    rwa [List.append_assoc] at hrest

/-- A registry that some calls led to is tidy. -/
theorem Reflects.isTidy (h : g.Reflects calls) : g.IsTidy where
  nodup := h.nodup
  bare r hr := by
    have hfind := h.findKey?_key hr
    rw [h.first] at hfind
    obtain ⟨first, hfirst, rfl⟩ := Option.map_eq_some_iff.mp hfind
    have hled := h.singlyLed first (List.mem_of_find?_eq_some hfirst)
    simp only [Rename.bare, hled.name.bare_bare, hled.renamed.bare_bare]

/-- A registry that was built by recording is tidy. -/
theorem IsRecorded.isTidy (h : g.IsRecorded) : g.IsTidy := by
  obtain ⟨calls, hcalls, rfl⟩ := h
  exact (reflects_empty.foldl_attempt hcalls).isTidy

/-- What is found after some renames were recorded: what was found before, and else the first of them. -/
theorem findKey?_recordAll (h : (g.recordAll rs).2 = none) (key : SymbolKind × Text) :
    (g.recordAll rs).1.findKey? key
      = (g.findKey? key).or ((rs.map Rename.bare).find? fun r => r.key = key) := by
  induction rs generalizing g with
  | nil => exact (Option.or_none).symm
  | cons r rs ih =>
    cases hrecord : g.record r with
    | error c =>
      rw [recordAll_cons_of_error hrecord] at h
      cases h
    | ok g' =>
      rw [recordAll_cons_of_ok hrecord] at h ⊢
      have hrest := ih h
      rw [findKey?_record hrecord, Option.or_assoc] at hrest
      rw [List.map_cons, List.find?_cons]
      by_cases hkey : r.bare.key = key
      · simpa [hkey] using hrest
      · simpa [hkey] using hrest

/-- Renames of different symbols are all recorded just if each of them agrees with what is there. -/
theorem recordAll_eq_none_iff (hnodup : (rs.map fun r => r.bare.key).Nodup) :
    (g.recordAll rs).2 = none
      ↔ ∀ r ∈ rs, ∀ old, g.findKey? r.bare.key = some old → old.target = r.bare.target := by
  induction rs generalizing g with
  | nil => exact ⟨fun _ => List.forall_mem_nil _, fun _ => rfl⟩
  | cons r rs ih =>
    rw [List.map_cons, List.nodup_cons] at hnodup
    rw [List.forall_mem_cons]
    cases hrecord : g.record r with
    | error c =>
      obtain ⟨old, hold, hne⟩ := (record_eq_error_iff g r).mp ⟨c, hrecord⟩
      rw [recordAll_cons_of_error hrecord]
      exact ⟨nofun, fun h => absurd (h.1 old hold) hne⟩
    | ok g' =>
      have hhere : ∀ old, g.findKey? r.bare.key = some old → old.target = r.bare.target := by
        intro old hold
        by_contra hne
        obtain ⟨c, hc⟩ := (record_eq_error_iff g r).mpr ⟨old, hold, hne⟩
        cases hrecord.symm.trans hc
      have hsame : ∀ s ∈ rs, g'.findKey? s.bare.key = g.findKey? s.bare.key := by
        intro s hs
        have hne : r.bare.key ≠ s.bare.key := fun heq =>
          hnodup.1 (List.mem_map.mpr ⟨s, hs, heq.symm⟩)
        rw [findKey?_record hrecord, if_neg hne, Option.or_none]
      rw [recordAll_cons_of_ok hrecord, ih hnodup.2]
      constructor
      · intro h
        exact ⟨hhere, fun s hs old hold => h s hs old ((hsame s hs).trans hold)⟩
      · intro h s hs old hold
        exact h.2 s hs old ((hsame s hs).symm.trans hold)

/-- Recording some renames again changes nothing, and stops where it stopped before. -/
theorem recordAll_recordAll (g : Registry) (rs : List Rename) :
    (g.recordAll rs).1.recordAll rs = g.recordAll rs := by
  induction rs generalizing g with
  | nil => rfl
  | cons r rs ih =>
    cases hrecord : g.record r with
    | error c =>
      have hstop := recordAll_cons_of_error hrecord rs
      rw [hstop]
      exact hstop
    | ok g' =>
      obtain ⟨held, hheld, htarget⟩ := exists_of_record hrecord
      have hlast := findKey?_of_prefix (prefix_recordAll g' rs) hheld
      have hconfirmed := record_of_confirmed hlast htarget
      rw [recordAll_cons_of_ok hrecord, recordAll_cons_of_ok hconfirmed]
      exact ih g'

/-- Where each symbol is there once, its rename is the one that is found. -/
theorem find?_key_eq_some_iff (hnodup : (rs.map Rename.key).Nodup) :
    rs.find? (fun r => r.key = key) = some r ↔ r ∈ rs ∧ r.key = key := by
  constructor
  · intro hfind
    exact mem_of_findKey? (g := ⟨rs⟩) hfind
  · rintro ⟨hr, rfl⟩
    have hsome : (rs.find? fun s => s.key = r.key).isSome = true :=
      List.find?_isSome.mpr ⟨r, hr, decide_eq_true rfl⟩
    obtain ⟨found, hfound⟩ := Option.isSome_iff_exists.mp hsome
    obtain ⟨hmem, hkey⟩ := mem_of_findKey? (g := ⟨rs⟩) hfound
    rw [hfound, List.inj_on_of_nodup_map hnodup hmem hr hkey]

/-- The names of a tidy registry are listed without separators in front. -/
theorem IsTidy.map_bare_all (h : b.IsTidy) : b.all.map Rename.bare = b.all := by
  have hbare : ∀ r ∈ b.all, r.bare = id r := fun r hr => h.bare r (b.perm_all.mem_iff.mp hr)
  rw [List.map_congr_left hbare, List.map_id]

/-- Every symbol of a tidy registry is listed once. -/
theorem IsTidy.nodup_all (h : b.IsTidy) : (b.all.map Rename.key).Nodup :=
  (b.perm_all.map Rename.key).nodup_iff.mpr h.nodup

/-- Listing the renames does not change what is found. -/
theorem IsTidy.find?_all (h : b.IsTidy) (key : SymbolKind × Text) :
    b.all.find? (fun r => r.key = key) = b.findKey? key := by
  refine Option.ext fun r => ?_
  rw [find?_key_eq_some_iff h.nodup_all, b.perm_all.mem_iff, findKey?,
    find?_key_eq_some_iff h.nodup]

/-- A merge that is not stopped gives each symbol the rename it had, and else that of the other registry. -/
theorem findKey?_merge (hb : b.IsTidy) (h : (a.merge b).2 = none) (key : SymbolKind × Text) :
    (a.merge b).1.findKey? key = (a.findKey? key).or (b.findKey? key) := by
  rw [merge, findKey?_recordAll h, hb.map_bare_all, hb.find?_all]

/-- A merge is not stopped just if the registries agree. -/
theorem merge_eq_none_iff (hb : b.IsTidy) : (a.merge b).2 = none ↔ a.Agrees b := by
  have hkeys : (b.all.map fun r => r.bare.key) = b.all.map Rename.key :=
    (List.map_map (f := Rename.bare) (g := Rename.key)).symm.trans (by rw [hb.map_bare_all])
  have hbare : ∀ r ∈ b.records, r.bare = r := hb.bare
  rw [merge, recordAll_eq_none_iff (hkeys ▸ hb.nodup_all)]
  constructor
  · intro h key x y hx hy
    obtain ⟨hmem, rfl⟩ := mem_of_findKey? hy
    have htarget := h y (b.perm_all.mem_iff.mpr hmem) x
    rw [hbare y hmem] at htarget
    exact htarget hx
  · intro h r hr old hold
    have hmem := b.perm_all.mem_iff.mp hr
    rw [hbare r hmem] at hold ⊢
    exact h r.key old r hold ((find?_key_eq_some_iff hb.nodup).mpr ⟨hmem, rfl⟩)

/-- Merging only adds, and what it adds are renames of the other registry for symbols that had none. -/
theorem exists_added_merge (a : Registry) (hb : b.IsTidy) :
    ∃ added, (a.merge b).1.records = a.records ++ added
      ∧ ∀ r ∈ added, r ∈ b.records ∧ a.findKey? r.key = none := by
  obtain ⟨added, hrecords, hsub, hnew⟩ := exists_added_recordAll a b.all
  rw [hb.map_bare_all] at hsub
  exact ⟨added, hrecords, fun r hr => ⟨b.perm_all.mem_iff.mp (hsub.mem hr), hnew r hr⟩⟩

/-- Merging a registry a second time changes nothing. -/
theorem merge_merge (a b : Registry) : (a.merge b).1.merge b = a.merge b :=
  recordAll_recordAll a b.all

/-- The registry after some others were merged into it, and the conflict that stopped this. -/
def mergeAll (g : Registry) : List Registry → Registry × Option Conflict
  | [] => (g, none)
  | b :: bs =>
    match g.merge b with
    | (g', none) => g'.mergeAll bs
    | (g', some c) => (g', some c)

/-- Registries that agree have one target for a symbol that both have. -/
theorem Agrees.target?_eq (h : a.Agrees b) {s t : Text} (ha : a.target? key = some s)
    (hb : b.target? key = some t) : s = t := by
  obtain ⟨x, hx, rfl⟩ := Option.map_eq_some_iff.mp ha
  obtain ⟨y, hy, rfl⟩ := Option.map_eq_some_iff.mp hb
  exact h key x y hx hy

/-- After a merge a symbol has a target just if it has it in one of the two registries. -/
theorem target?_merge_eq_some_iff (hb : b.IsTidy) (h : a.Agrees b) {t : Text} :
    (a.merge b).1.target? key = some t ↔ a.target? key = some t ∨ b.target? key = some t := by
  have hfind := findKey?_merge hb ((merge_eq_none_iff hb).mpr h) key
  have htarget : (a.merge b).1.target? key = (a.target? key).or (b.target? key) := by
    rw [target?, hfind, Option.map_or]
    rfl
  rw [htarget]
  cases ha : a.target? key with
  | none => simp
  | some s =>
    rw [Option.some_or]
    refine ⟨.inl, fun ht => ht.elim id fun hbt => ?_⟩
    rw [h.target?_eq ha hbt]

/-- What agrees with two registries agrees with what they are merged to. -/
theorem Agrees.merge {c : Registry} (hb : b.IsTidy) (hab : a.Agrees b) (hac : a.Agrees c)
    (hbc : b.Agrees c) : (a.merge b).1.Agrees c := by
  intro key x y hx hy
  rw [findKey?_merge hb ((merge_eq_none_iff hb).mpr hab), Option.or_eq_some_iff] at hx
  rcases hx with hx | ⟨-, hx⟩
  · exact hac key x y hx hy
  · exact hbc key x y hx hy

/-- Registries that agree are merged without conflict, and a symbol then has just the targets that it has in
one of them. -/
theorem mergeAll_of_agrees {bs : List Registry} (htidy : ∀ b ∈ bs, b.IsTidy)
    (hagree : ∀ x ∈ g :: bs, ∀ y ∈ g :: bs, x.Agrees y) :
    (g.mergeAll bs).2 = none
      ∧ ∀ key t, (g.mergeAll bs).1.target? key = some t ↔ ∃ x ∈ g :: bs, x.target? key = some t := by
  induction bs generalizing g with
  | nil => exact ⟨rfl, fun key t => by simp [mergeAll]⟩
  | cons b bs ih =>
    obtain ⟨hb, hbs⟩ := List.forall_mem_cons.mp htidy
    have hgb : g.Agrees b := hagree g List.mem_cons_self b (by simp)
    have hmerge : g.merge b = ((g.merge b).1, none) :=
      Prod.ext rfl ((merge_eq_none_iff hb).mpr hgb)
    have hgo : g.mergeAll (b :: bs) = (g.merge b).1.mergeAll bs := by
      rw [mergeAll, hmerge]
    have hmerged : ∀ c ∈ bs, (g.merge b).1.Agrees c := fun c hc =>
      hgb.merge hb (hagree g (by simp) c (by simp [hc])) (hagree b (by simp) c (by simp [hc]))
    have hrest : ∀ x ∈ (g.merge b).1 :: bs, ∀ y ∈ (g.merge b).1 :: bs, x.Agrees y := by
      intro x hx y hy
      rcases List.mem_cons.mp hx with rfl | hx
      · rcases List.mem_cons.mp hy with rfl | hy
        · exact Agrees.refl _
        · exact hmerged y hy
      · rcases List.mem_cons.mp hy with rfl | hy
        · exact (hmerged x hx).symm
        · exact hagree x (by simp [hx]) y (by simp [hy])
    obtain ⟨hnone, htargets⟩ := ih hbs hrest
    rw [hgo]
    refine ⟨hnone, fun key t => ?_⟩
    rw [htargets, List.exists_mem_cons_iff, target?_merge_eq_some_iff hb hgb, List.exists_mem_cons_iff,
      List.exists_mem_cons_iff, or_assoc]

/-- A registry that was built by recording is merged into another one. This is refused just if a symbol is
in both with different targets. If it is not refused, each symbol has the rename it had, and a symbol that
had none has that of the other registry. Refused or not, the renames that were there stay as they are, and
what is added are renames of the other registry. Merging it again changes nothing and is refused again if
it was. Some registries that agree with one another are merged without conflict, and the targets of all
symbols depend on which registries these are, but not on their order or on how often one of them is
merged. -/
theorem merge_unites (hb : b.IsRecorded) (a : Registry) :
    ((∃ c, (a.merge b).2 = some c) ↔
      ∃ key x y, a.findKey? key = some x ∧ b.findKey? key = some y ∧ x.target ≠ y.target) ∧
    ((a.merge b).2 = none → ∀ key,
      (a.merge b).1.findKey? key = (a.findKey? key).or (b.findKey? key)) ∧
    (∃ added, (a.merge b).1.records = a.records ++ added
      ∧ ∀ r ∈ added, r ∈ b.records ∧ a.findKey? r.key = none) ∧
    (a.merge b).1.merge b = a.merge b ∧
    ∀ (g h : Registry) (gs hs : List Registry), (∀ x ∈ g :: gs, x.IsRecorded) →
      (∀ x ∈ g :: gs, ∀ y ∈ g :: gs, x.Agrees y) → (∀ x, x ∈ h :: hs ↔ x ∈ g :: gs) →
      (g.mergeAll gs).2 = none ∧ (h.mergeAll hs).2 = none
        ∧ ∀ key, (g.mergeAll gs).1.target? key = (h.mergeAll hs).1.target? key := by
  refine ⟨?_, findKey?_merge hb.isTidy, exists_added_merge a hb.isTidy, merge_merge a b, ?_⟩
  · rw [← Option.isSome_iff_exists, Option.isSome_iff_ne_none, ne_eq, merge_eq_none_iff hb.isTidy, Agrees]
    push Not
    rfl
  · intro g h gs hs hrecorded hagree hsame
    have htidy : ∀ x ∈ gs, x.IsTidy := fun x hx => (hrecorded x (List.mem_cons_of_mem g hx)).isTidy
    have htidy' : ∀ x ∈ hs, x.IsTidy := fun x hx =>
      (hrecorded x ((hsame x).mp (List.mem_cons_of_mem h hx))).isTidy
    have hagree' : ∀ x ∈ h :: hs, ∀ y ∈ h :: hs, x.Agrees y := fun x hx y hy =>
      hagree x ((hsame x).mp hx) y ((hsame y).mp hy)
    obtain ⟨hnone, htargets⟩ := mergeAll_of_agrees htidy hagree
    obtain ⟨hnone', htargets'⟩ := mergeAll_of_agrees htidy' hagree'
    refine ⟨hnone, hnone', fun key => Option.ext fun t => ?_⟩
    rw [htargets, htargets']
    exact exists_congr fun x => and_congr_left fun _ => (hsame x).symm

/-- A registry with one class. -/
def ofFoo : Registry := ofCalls [classRename "Acme\\Foo" "Humbug\\Acme\\Foo"]

/-- A registry with the same class in other letter case, and a constant. -/
def ofFooAndLimit : Registry :=
  ofCalls [⟨"Acme\\LIMIT".toList, "Humbug\\Acme\\LIMIT".toList, .constant, some "b.php".toList⟩,
    classRename "\\acme\\FOO" "\\humbug\\acme\\foo"]

/-- A registry with another class, and with another target for the one. -/
def ofRival : Registry :=
  ofCalls [classRename "Acme\\Bar" "Humbug\\Acme\\Bar", classRename "ACME\\Foo" "Rival\\Foo"]

/-- The registry with one class was recorded. -/
theorem isRecorded_ofFoo : ofFoo.IsRecorded := ⟨_, by decide +kernel, rfl⟩

/-- The registry with a class and a constant was recorded. -/
theorem isRecorded_ofFooAndLimit : ofFooAndLimit.IsRecorded := ⟨_, by decide +kernel, rfl⟩

/-- The registry that does not agree with the others was recorded. -/
theorem isRecorded_ofRival : ofRival.IsRecorded := ⟨_, by decide +kernel, rfl⟩

/-- Registries that spell a class differently are merged in both orders. The one with another target for it
is refused halfway: its other class comes before and is added. -/
theorem merge_unites_letterCase :
    let key : SymbolKind × Text := (.constant, "acme\\LIMIT".toList)
    ofFooAndLimit.IsRecorded ∧ ofRival.IsRecorded
      ∧ (ofFoo.merge ofFooAndLimit).1.findKey? key = ofFooAndLimit.findKey? key
      ∧ (∃ c, (ofFoo.merge ofRival).2 = some c)
      ∧ (ofFoo.merge ofRival).1.records
        = [classRename "Acme\\Foo" "Humbug\\Acme\\Foo", classRename "Acme\\Bar" "Humbug\\Acme\\Bar"]
      ∧ (ofFoo.merge ofRival).1.merge ofRival = ofFoo.merge ofRival
      ∧ (ofFoo.mergeAll [ofFooAndLimit]).2 = none
      ∧ ∀ key, (ofFoo.mergeAll [ofFooAndLimit]).1.target? key
        = (ofFooAndLimit.mergeAll [ofFoo, ofFooAndLimit]).1.target? key := by
  intro key
  have hagree : ofFoo.Agrees ofFooAndLimit := agrees_of_records (by decide +kernel)
  have hall : ∀ x ∈ [ofFoo, ofFooAndLimit], ∀ y ∈ [ofFoo, ofFooAndLimit], x.Agrees y := by
    simpa using ⟨⟨Agrees.refl ofFoo, hagree⟩, hagree.symm, Agrees.refl ofFooAndLimit⟩
  have hlisted : ofRival.all = ofRival.records := List.mergeSort_of_pairwise (by decide +kernel)
  have hfoo : ofFoo.findKey? key = none := by decide +kernel
  obtain ⟨-, hunion, -, -, hlists⟩ := merge_unites isRecorded_ofFooAndLimit ofFoo
  obtain ⟨hrefused, -, -, hagain, -⟩ := merge_unites isRecorded_ofRival ofFoo
  obtain ⟨hnone, -, htargets⟩ := hlists ofFoo ofFooAndLimit [ofFooAndLimit] [ofFoo, ofFooAndLimit]
    (by simp [isRecorded_ofFoo, isRecorded_ofFooAndLimit]) hall (by simp)
  refine ⟨isRecorded_ofFooAndLimit, isRecorded_ofRival, ?_, ?_, ?_, hagain, hnone, htargets⟩
  · have hmerged := (merge_eq_none_iff isRecorded_ofFooAndLimit.isTidy).mpr hagree
    rw [hunion hmerged, hfoo, Option.none_or]
  · exact hrefused.mpr ⟨(.classLike, "acme\\foo".toList),
      classRename "Acme\\Foo" "Humbug\\Acme\\Foo", classRename "ACME\\Foo" "Rival\\Foo",
      by decide +kernel⟩
  · rw [merge, hlisted]
    decide +kernel

end Registry

end PhpPrefixer
