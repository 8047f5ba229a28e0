import Mathlib.Data.Char
import PhpPrefixer.Proofs.RulesInForce
import PhpPrefixer.Proofs.SettledCase
import PhpPrefixer.Proofs.SymbolIdentity

/-!
# Rules written out

Rules in force are written out in the forms in which they are held: keys of symbols, namespaces in lower
case, patterns as a user wrote them. Each form is its own form (`Name.IsSinglyLed.key_key`,
`namespaceKey_namespaceKey`), no key of a class is taken for a namespace (`starred?_key`), and a sorted
set depends on its members only (`sortedSet_congr`). So rules written out are read back unchanged, and
neither the order nor a repetition of names matters: `Whitelist.written_rules_read_back`.
-/

namespace PhpPrefixer

namespace Text

/-- Only a star is lower-cased to a star. -/
theorem eq_star_of_lowerChar {c : Char} (h : lowerChar c = '*') : c = '*' := by
  unfold lowerChar at h
  split at h
  · next hascii =>
    have hall : ∀ n < 128, (Char.ofNat n).toLower = '*' → Char.ofNat n = '*' := by decide +kernel
    exact of_isAscii (P := fun d => d.toLower = '*' → d = '*') hall hascii h
  · next hascii =>
    have hc : ¬c.toNat < 128 := by simpa [isAscii] using hascii
    split at h
    · cases h
    · have hlow : 93 ≤ lowerIn lowerRuns c.toNat := le_lowerIn lowerRuns_above (by omega)
      have hstar : '*'.toNat = 42 := rfl
      obtain hnat | hnull := toNat_ofNat (lowerIn lowerRuns c.toNat)
      · rw [h] at hnat
        omega
      · rw [h] at hnull
        cases hnull

/-- Only a star is a star in lower case. -/
theorem eq_star_of_lower {t : Text} (h : lower t = ['*']) : t = ['*'] := by
  cases t with
  | nil => cases h
  | cons c cs =>
    rw [lower, lowerFrom_cons] at h
    obtain ⟨hform, -⟩ | ⟨hform, hrest⟩ := List.append_eq_singleton_iff.mp h
    · exact absurd hform (formAt_ne_nil _ _ _)
    · have hcs : cs = [] := by
        cases cs with
        | nil => rfl
        | cons d ds =>
          rw [lowerFrom_cons] at hrest
          exact absurd (List.append_eq_nil_iff.mp hrest).1 (formAt_ne_nil _ _ _)
      have hc : c = '*' := by
        unfold formAt lowerForm at hform
        split at hform
        · split at hform <;> cases hform
        · split at hform
          · cases hform
          · exact eq_star_of_lowerChar (List.singleton_inj.mp hform)
      rw [hc, hcs]

end Text

namespace Name

/-- A lower-cased name ends in a separator and a star only if the name does. -/
theorem starEnding_suffix_of_lower {name : Text} (h : WhitelistOptions.starEnding <:+ Text.lower name) :
    WhitelistOptions.starEnding <:+ name := by
  obtain ⟨space, hspace⟩ := h
  have hstar : segments (Text.lower name) = segments space ++ [['*']] := by
    rw [← hspace]
    exact Text.pieces_append_sep separator space ['*']
  rw [segments_lower, List.map_eq_append_iff] at hstar
  obtain ⟨init, tail, hname, hinit, htail⟩ := hstar
  obtain ⟨last, rfl, hlast⟩ := List.map_eq_singleton_iff.mp htail
  have hne : init ≠ [] := by
    rintro rfl
    exact segments_ne_nil space hinit.symm
  refine ⟨Text.glue separator init, ?_⟩
  rw [← glue_segments name, hname, Text.eq_star_of_lower hlast,
    glue_append hne (List.cons_ne_nil _ _), Text.glue_singleton]
  rfl

/-- A constant with a name of one segment is its own key. -/
theorem key_constant_of_not_mem {short : Text} (h : separator ∉ short) : key .constant short = short := by
  have hbare : bare short = short := bare_of_head fun hhead => h (List.mem_of_mem_head? hhead)
  have hsegments : segments (bare (bare short)) = [] ++ [short] := by
    rw [hbare, hbare]
    exact Text.pieces_of_not_mem h
  rw [key_constant_eq hsegments]
  rfl

/-- Of a constant the namespace is lower-cased, if no separator stands in front of it. -/
theorem key_constant_append {space short : Text} (hhead : space.head? ≠ some separator)
    (hne : space ≠ []) (hshort : separator ∉ short) :
    key .constant (space ++ separator :: short) = Text.lower space ++ separator :: short := by
  have hbare : bare (space ++ separator :: short) = space ++ separator :: short := by
    refine bare_of_head ?_
    obtain ⟨c, cs, rfl⟩ := List.exists_cons_of_ne_nil hne
    exact hhead
  have hsegments : segments (bare (bare (space ++ separator :: short)))
      = segments space ++ [short] := by
    rw [hbare, hbare, segments, Text.pieces_append_sep, Text.pieces_of_not_mem hshort]
    rfl
  rw [key_constant_eq hsegments, glue_segments, if_neg hne]

/-- A key is its own key. -/
theorem IsSinglyLed.key_key {name : Text} (h : IsSinglyLed name) (kind : SymbolKind) :
    key kind (key kind name) = key kind name := by
  by_cases hkind : kind = .constant
  · subst hkind
    obtain ⟨init, last, hs⟩ := segments_concat (Name.bare (Name.bare name))
    have hlast : separator ∉ last :=
      separator_not_mem_segment (by rw [hs]; exact List.mem_append_right _ List.mem_cons_self)
    rw [key_constant_eq hs]
    split
    · exact key_constant_of_not_mem hlast
    · next hspace =>
      have hhead : (Text.glue separator init).head? ≠ some separator := by
        intro hhead
        have hinit : init ≠ [] := by
          rintro rfl
          exact hspace rfl
        have hglue := glue_segments (Name.bare (Name.bare name))
        rw [hs, glue_append hinit (List.cons_ne_nil _ _)] at hglue
        refine h.bare ?_
        rw [← hglue, List.head?_append, hhead]
        rfl
      rw [key_constant_append (Text.head?_lower hhead) (mt Text.lower_eq_nil_iff.mp hspace) hlast,
        Text.lower_lower]
  · rw [key_of_ne_constant hkind, key_of_ne_constant hkind, ← lower_bare (Name.bare name),
      h.bare_bare, Text.lower_lower]

end Name

namespace Whitelist

open WhitelistOptions

/-- The key of a namespace is its own key. -/
theorem namespaceKey_namespaceKey (space : Text) :
    namespaceKey (namespaceKey space) = namespaceKey space := by
  rw [namespaceKey, namespaceKey, ← Name.lower_trimmed, Text.lower_lower,
    Name.trimmed_of_isTrimmed (Name.isTrimmed_trimmed space)]

/-- The key of a class that is no entry for a namespace is none either. -/
theorem starred?_key {entry : Text} (h : starred? entry = none) :
    starred? (Name.key .classLike entry) = none := by
  rw [starred?_eq_none_iff] at h ⊢
  intro hstar
  rw [Name.key_of_ne_constant (by decide)] at hstar
  exact h ((Name.starEnding_suffix_of_lower hstar).trans (Name.bare_suffix entry))

end Whitelist

/-- What comes next is accepted only on top of something accepted. -/
theorem exists_of_bind_eq_ok {ε α β : Type} {x : Except ε α} {next : α → Except ε β} {b : β}
    (h : x >>= next = .ok b) : ∃ a, x = .ok a ∧ next a = .ok b := by
  cases x with
  | error e => cases h
  | ok a => exact ⟨a, rfl, h⟩

namespace WhitelistOptions

/-- The name of the field with the entries for a kind. -/
def entriesField : SymbolKind → String
  | .nameSpace => "excluded_namespaces"
  | .classLike => "classes"
  | .function => "functions"
  | .constant => "constants"

/-- The name of the field with the patterns for a kind. -/
def patternsField : SymbolKind → String
  | .nameSpace => "namespace_patterns"
  | .classLike => "class_patterns"
  | .function => "function_patterns"
  | .constant => "constant_patterns"

/-- The name of the field that exposes global symbols of a kind. -/
def exposureField? : SymbolKind → Option String
  | .nameSpace => none
  | .classLike => some "expose_global_classes"
  | .function => some "expose_global_functions"
  | .constant => some "expose_global_constants"

/-- Whether global symbols of a kind are exposed. -/
def exposureOf (o : WhitelistOptions) : SymbolKind → Bool
  | .nameSpace => false
  | .classLike => o.exposeGlobalClasses
  | .function => o.exposeGlobalFunctions
  | .constant => o.exposeGlobalConstants

/-- The rules with other entries for a kind. -/
def withEntries (o : WhitelistOptions) (ts : List Text) : SymbolKind → WhitelistOptions
  | .nameSpace => { o with excludedNamespaces := ts }
  | .classLike => { o with classes := ts }
  | .function => { o with functions := ts }
  | .constant => { o with constants := ts }

/-- The rules with other patterns for a kind. -/
def withPatterns (o : WhitelistOptions) (ts : List Text) : SymbolKind → WhitelistOptions
  | .nameSpace => { o with namespacePatterns := ts }
  | .classLike => { o with classPatterns := ts }
  | .function => { o with functionPatterns := ts }
  | .constant => { o with constantPatterns := ts }

/-- The rules with global symbols of a kind exposed or not. -/
def withExposure (o : WhitelistOptions) (b : Bool) : SymbolKind → WhitelistOptions
  | .nameSpace => o
  | .classLike => { o with exposeGlobalClasses := b }
  | .function => { o with exposeGlobalFunctions := b }
  | .constant => { o with exposeGlobalConstants := b }

section Parts

variable (o : WhitelistOptions) (ts : List Text) (b : Bool) (kind other : SymbolKind)

/-- Setting the entries of a kind sets those of no other. -/
@[simp] theorem entriesOf_withEntries :
    (o.withEntries ts kind).entriesOf other = if other = kind then ts else o.entriesOf other := by
  cases kind <;> cases other <;> rfl

/-- Setting entries changes no patterns. -/
@[simp] theorem patternsOf_withEntries :
    (o.withEntries ts kind).patternsOf other = o.patternsOf other := by
  cases kind <;> cases other <;> rfl

/-- Setting entries changes no exposure. -/
@[simp] theorem exposureOf_withEntries :
    (o.withEntries ts kind).exposureOf other = o.exposureOf other := by
  cases kind <;> cases other <;> rfl

/-- Setting patterns changes no entries. -/
@[simp] theorem entriesOf_withPatterns :
    (o.withPatterns ts kind).entriesOf other = o.entriesOf other := by
  cases kind <;> cases other <;> rfl

/-- Setting the patterns of a kind sets those of no other. -/
@[simp] theorem patternsOf_withPatterns :
    (o.withPatterns ts kind).patternsOf other
      = if other = kind then ts else o.patternsOf other := by
  cases kind <;> cases other <;> rfl

/-- Setting patterns changes no exposure. -/
@[simp] theorem exposureOf_withPatterns :
    (o.withPatterns ts kind).exposureOf other = o.exposureOf other := by
  cases kind <;> cases other <;> rfl

/-- Setting an exposure changes no entries. -/
@[simp] theorem entriesOf_withExposure :
    (o.withExposure b kind).entriesOf other = o.entriesOf other := by
  cases kind <;> cases other <;> rfl

/-- Setting an exposure changes no patterns. -/
@[simp] theorem patternsOf_withExposure :
    (o.withExposure b kind).patternsOf other = o.patternsOf other := by
  cases kind <;> cases other <;> rfl

/-- Setting the exposure of a kind sets that of no other, and only where the kind has one. -/
@[simp] theorem exposureOf_withExposure :
    (o.withExposure b kind).exposureOf other
      = if other = kind then (exposureField? kind).isSome && b else o.exposureOf other := by
  cases kind <;> cases other <;> rfl

end Parts

section Setting

variable {o p o' : WhitelistOptions} {name : Text} {v : Value} {ts : List Text} {b : Bool}

/-- The field for the entries of a kind sets them. -/
theorem setField_entries (kind : SymbolKind) (hname : underscored name = entriesField kind)
    (hv : texts? v = some ts) : o.setField name v = .ok (o.withEntries ts kind) := by
  cases kind <;> simp [setField, hname, entriesField, hv, withEntries]

/-- The field for the patterns of a kind sets them. -/
theorem setField_patterns (kind : SymbolKind) (hname : underscored name = patternsField kind)
    (hv : texts? v = some ts) : o.setField name v = .ok (o.withPatterns ts kind) := by
  cases kind <;> simp [setField, hname, patternsField, hv, withPatterns]

/-- The field for the exposure of a kind sets it. -/
theorem setField_exposure (kind : SymbolKind) (hname : exposureField? kind = some (underscored name)) :
    o.setField name (.bool b) = .ok (o.withExposure b kind) := by
  cases kind with
  | nameSpace => cases hname
  | classLike => simp [setField, ← Option.some.inj hname, withExposure]
  | function => simp [setField, ← Option.some.inj hname, withExposure]
  | constant => simp [setField, ← Option.some.inj hname, withExposure]

/-- A list of texts that is accepted is one. -/
theorem exists_texts_of_ok {set : List Text → WhitelistOptions} {e : WhitelistError}
    (h : (match texts? v with
      | some ts => .ok (set ts)
      | none => .error e) = Except.ok o') : ∃ ts, texts? v = some ts ∧ o' = set ts := by
  split at h
  · next ts hts => exact ⟨ts, hts, (Except.ok.inj h).symm⟩
  · cases h

/-- A flag that is accepted is one. -/
theorem exists_flag_of_ok {set : Bool → WhitelistOptions} {e : WhitelistError}
    (h : (match v with
      | .bool b => .ok (set b)
      | _ => .error e) = Except.ok o') : ∃ b, v = .bool b ∧ o' = set b := by
  split at h
  · next b => exact ⟨b, rfl, (Except.ok.inj h).symm⟩
  · cases h

/-- A field that is accepted sets the entries or the patterns for a kind, or exposes a kind. -/
theorem setField_cases (h : o.setField name v = .ok o') :
    (∃ kind ts, underscored name = entriesField kind ∧ texts? v = some ts
      ∧ o' = o.withEntries ts kind)
    ∨ (∃ kind ts, underscored name = patternsField kind ∧ texts? v = some ts
      ∧ o' = o.withPatterns ts kind)
    ∨ ∃ kind b, exposureField? kind = some (underscored name) ∧ v = .bool b
      ∧ o' = o.withExposure b kind := by
  simp only [setField] at h
  split at h
  · next hname =>
    obtain ⟨ts, hts, rfl⟩ := exists_texts_of_ok h
    exact .inl ⟨.nameSpace, ts, hname, hts, rfl⟩
  · next hname =>
    obtain ⟨ts, hts, rfl⟩ := exists_texts_of_ok h
    exact .inr (.inl ⟨.nameSpace, ts, hname, hts, rfl⟩)
  · next hname =>
    obtain ⟨ts, hts, rfl⟩ := exists_texts_of_ok h
    exact .inl ⟨.classLike, ts, hname, hts, rfl⟩
  · next hname =>
    obtain ⟨ts, hts, rfl⟩ := exists_texts_of_ok h
    exact .inr (.inl ⟨.classLike, ts, hname, hts, rfl⟩)
  · next hname =>
    obtain ⟨ts, hts, rfl⟩ := exists_texts_of_ok h
    exact .inl ⟨.function, ts, hname, hts, rfl⟩
  · next hname =>
    obtain ⟨ts, hts, rfl⟩ := exists_texts_of_ok h
    exact .inr (.inl ⟨.function, ts, hname, hts, rfl⟩)
  · next hname =>
    obtain ⟨ts, hts, rfl⟩ := exists_texts_of_ok h
    exact .inl ⟨.constant, ts, hname, hts, rfl⟩
  · next hname =>
    obtain ⟨ts, hts, rfl⟩ := exists_texts_of_ok h
    exact .inr (.inl ⟨.constant, ts, hname, hts, rfl⟩)
  · next hname =>
    obtain ⟨b, hb, rfl⟩ := exists_flag_of_ok h
    exact .inr (.inr ⟨.classLike, b, by rw [hname]; rfl, hb, rfl⟩)
  · next hname =>
    obtain ⟨b, hb, rfl⟩ := exists_flag_of_ok h
    exact .inr (.inr ⟨.function, b, by rw [hname]; rfl, hb, rfl⟩)
  · next hname =>
    obtain ⟨b, hb, rfl⟩ := exists_flag_of_ok h
    exact .inr (.inr ⟨.constant, b, by rw [hname]; rfl, hb, rfl⟩)
  · cases h

end Setting

/-- The rules with the values of some fields set, one after the other. -/
def setAll (o : WhitelistOptions) (fields : List (Text × Value)) :
    Except WhitelistError WhitelistOptions :=
  fields.foldlM (fun o (name, v) => o.setField name v) o

/-- The first field is set, and then the others. -/
theorem setAll_cons (o : WhitelistOptions) (field : Text × Value) (fields : List (Text × Value)) :
    o.setAll (field :: fields) = o.setField field.1 field.2 >>= fun next => next.setAll fields :=
  List.foldlM_cons

/-- After a field that is accepted, the others are set. -/
theorem setAll_cons_of_ok {o o' : WhitelistOptions} {name : Text} {v : Value}
    {fields : List (Text × Value)} (h : o.setField name v = .ok o') :
    o.setAll ((name, v) :: fields) = o'.setAll fields := by
  rw [setAll_cons, h]
  rfl

/-- A list of texts is read back. -/
theorem texts?_list_map_text (ts : List Text) : texts? (.list (ts.map .text)) = some ts := by
  rw [texts?]
  induction ts with
  | nil => rfl
  | cons t ts ih =>
    rw [List.map_cons, List.mapM_cons, ih]
    rfl

/-- Rules that are written out as fields are read back. -/
theorem ofFields_toFields (o : WhitelistOptions) : ofFields o.toFields = .ok o := by
  have htexts := texts?_list_map_text
  have hread : setAll {} o.toFields = .ok o := by
    rw [toFields, setAll_cons_of_ok (setField_entries .nameSpace (by decide) (htexts _)),
      setAll_cons_of_ok (setField_patterns .nameSpace (by decide) (htexts _)),
      setAll_cons_of_ok (setField_entries .classLike (by decide) (htexts _)),
      setAll_cons_of_ok (setField_patterns .classLike (by decide) (htexts _)),
      setAll_cons_of_ok (setField_entries .function (by decide) (htexts _)),
      setAll_cons_of_ok (setField_patterns .function (by decide) (htexts _)),
      setAll_cons_of_ok (setField_entries .constant (by decide) (htexts _)),
      setAll_cons_of_ok (setField_patterns .constant (by decide) (htexts _)),
      setAll_cons_of_ok (setField_exposure .classLike (by decide)),
      setAll_cons_of_ok (setField_exposure .function (by decide)),
      setAll_cons_of_ok (setField_exposure .constant (by decide))]
    simp only [withEntries, withPatterns, withExposure]
    rfl
  exact hread

/-- Two sets of rules differ in the order and the repetition of names only. -/
structure SameRules (o p : WhitelistOptions) : Prop where
  /-- The names for each kind are the same. -/
  entries : ∀ kind t, t ∈ o.entriesOf kind ↔ t ∈ p.entriesOf kind
  /-- The patterns are the same, in the same order. -/
  patterns : ∀ kind, o.patternsOf kind = p.patternsOf kind
  /-- The same kinds are exposed. -/
  exposure : ∀ kind, o.exposureOf kind = p.exposureOf kind

/-- Two fields have the same value, or both hold names and the same ones. -/
structure SameField (field other : Text × Value) : Prop where
  /-- The names of the fields are the same. -/
  name : other.1 = field.1
  /-- The values differ in the order and the repetition of names only. -/
  value : other.2 = field.2 ∨ ∃ kind ts us, underscored field.1 = entriesField kind
    ∧ texts? field.2 = some ts ∧ texts? other.2 = some us ∧ ∀ t, t ∈ ts ↔ t ∈ us

namespace SameRules

variable {o p o' : WhitelistOptions}

/-- Rules are the same as themselves. -/
theorem refl (o : WhitelistOptions) : o.SameRules o :=
  ⟨fun _ _ => Iff.rfl, fun _ => rfl, fun _ => rfl⟩

/-- Rules stay the same when the same entries are set, in whatever order. -/
theorem withEntries (h : o.SameRules p) {ts us : List Text} (hts : ∀ t, t ∈ ts ↔ t ∈ us)
    (kind : SymbolKind) : (o.withEntries ts kind).SameRules (p.withEntries us kind) where
  entries other t := by
    by_cases hother : other = kind
    · simpa [hother] using hts t
    · simpa [hother] using h.entries other t
  patterns other := by simpa using h.patterns other
  exposure other := by simpa using h.exposure other

/-- Rules stay the same when the same patterns are set. -/
theorem withPatterns (h : o.SameRules p) (ts : List Text) (kind : SymbolKind) :
    (o.withPatterns ts kind).SameRules (p.withPatterns ts kind) where
  entries other t := by simpa using h.entries other t
  patterns other := by simp [h.patterns other]
  exposure other := by simpa using h.exposure other

/-- Rules stay the same when the same exposure is set. -/
theorem withExposure (h : o.SameRules p) (b : Bool) (kind : SymbolKind) :
    (o.withExposure b kind).SameRules (p.withExposure b kind) where
  entries other t := by simpa using h.entries other t
  patterns other := by simpa using h.patterns other
  exposure other := by simp [h.exposure other]

/-- Setting a field keeps rules the same. -/
theorem setField (h : o.SameRules p) {field other : Text × Value} (hfield : SameField field other)
    (hset : o.setField field.1 field.2 = .ok o') :
    ∃ p', p.setField other.1 other.2 = .ok p' ∧ o'.SameRules p' := by
  rw [hfield.name]
  obtain hvalue | ⟨kind, ts, us, hname, hts, hus, hmem⟩ := hfield.value
  · rw [hvalue]
    obtain ⟨kind, ts, hname, hts, rfl⟩ | ⟨kind, ts, hname, hts, rfl⟩ | ⟨kind, b, hname, hb, rfl⟩ :=
      setField_cases hset
    · exact ⟨_, setField_entries kind hname hts, h.withEntries (fun _ => Iff.rfl) kind⟩
    · exact ⟨_, setField_patterns kind hname hts, h.withPatterns ts kind⟩
    · rw [hb]
      exact ⟨_, setField_exposure kind hname, h.withExposure b kind⟩
  · rw [setField_entries kind hname hts] at hset
    cases hset
    exact ⟨_, setField_entries kind hname hus, h.withEntries hmem kind⟩

/-- Fields that say the same lead from the same rules to the same rules. -/
theorem setAll (h : o.SameRules p) {fields others : List (Text × Value)}
    (hfields : List.Forall₂ SameField fields others) (hset : o.setAll fields = .ok o') :
    ∃ p', p.setAll others = .ok p' ∧ o'.SameRules p' := by
  induction hfields generalizing o p with
  | nil =>
    cases hset
    exact ⟨p, rfl, h⟩
  | cons hfield _ ih =>
    rw [setAll_cons] at hset ⊢
    obtain ⟨next, hnext, hrest⟩ := exists_of_bind_eq_ok hset
    obtain ⟨next', hnext', hsame⟩ := h.setField hfield hnext
    rw [hnext']
    exact ih hsame hrest

end SameRules

/-- At most one separator stands in front of each entry for a symbol. -/
def IsSinglyLed (o : WhitelistOptions) : Prop :=
  ∀ kind ≠ .nameSpace, ∀ entry ∈ o.entriesOf kind, Name.IsSinglyLed entry

/-- At most one separator stands in front of each symbol that a field names. -/
def FieldIsSinglyLed (field : Text × Value) : Prop :=
  ∀ kind ≠ .nameSpace, underscored field.1 = entriesField kind →
    ∀ ts, texts? field.2 = some ts → ∀ entry ∈ ts, Name.IsSinglyLed entry

/-- A field whose names have at most one separator in front leaves rules of which this holds. -/
theorem IsSinglyLed.setField {o o' : WhitelistOptions} (h : o.IsSinglyLed) {field : Text × Value}
    (hfield : FieldIsSinglyLed field) (hset : o.setField field.1 field.2 = .ok o') :
    o'.IsSinglyLed := by
  intro kind hkind entry hentry
  obtain ⟨other, ts, hname, hts, rfl⟩ | ⟨other, ts, -, -, rfl⟩ | ⟨other, b, -, -, rfl⟩ :=
    setField_cases hset
  · rw [entriesOf_withEntries] at hentry
    split at hentry
    · next hother => exact hfield kind hkind (hother ▸ hname) ts hts entry hentry
    · exact h kind hkind entry hentry
  · rw [entriesOf_withPatterns] at hentry
    exact h kind hkind entry hentry
  · rw [entriesOf_withExposure] at hentry
    exact h kind hkind entry hentry

/-- Fields whose names have at most one separator in front leave rules of which this holds. -/
theorem IsSinglyLed.setAll {o o' : WhitelistOptions} (h : o.IsSinglyLed)
    {fields : List (Text × Value)} (hfields : ∀ field ∈ fields, FieldIsSinglyLed field)
    (hset : o.setAll fields = .ok o') : o'.IsSinglyLed := by
  induction fields generalizing o with
  | nil =>
    cases hset
    exact h
  | cons field fields ih =>
    rw [setAll_cons] at hset
    obtain ⟨next, hnext, hrest⟩ := exists_of_bind_eq_ok hset
    exact ih (h.setField (hfields field List.mem_cons_self) hnext)
      (fun other hother => hfields other (List.mem_cons_of_mem _ hother)) hrest

end WhitelistOptions

namespace Whitelist

open WhitelistOptions

variable {d : Dialect} {o : WhitelistOptions} {w : Whitelist} {patterns : SymbolKind → List Pattern}

/-- Patterns that are read are written out as they stood. -/
theorem map_written_of_mapM {ts : List Text} {ps : List Pattern}
    (h : ts.mapM d.read = .ok ps) : ps.map (·.written) = ts := by
  induction ts generalizing ps with
  | nil =>
    cases h
    rfl
  | cons t ts ih =>
    rw [List.mapM_cons] at h
    obtain ⟨p, hp, hrest⟩ := exists_of_bind_eq_ok h
    obtain ⟨qs, hqs, hcons⟩ := exists_of_bind_eq_ok hrest
    cases hcons
    rw [List.map_cons, d.written_of_read t p hp, ih hqs]

/-- Rules that are accepted have patterns that can be read. -/
theorem exists_patterns_of_ofOptions (h : ofOptions o d = .ok w) :
    ∃ patterns : SymbolKind → List Pattern,
      (∀ kind, (o.patternsOf kind).mapM d.read = .ok (patterns kind))
        ∧ w = ofParts o patterns := by
  obtain ⟨spaces, hspaces, h⟩ := exists_of_bind_eq_ok h
  obtain ⟨classes, hclasses, h⟩ := exists_of_bind_eq_ok h
  obtain ⟨functions, hfunctions, h⟩ := exists_of_bind_eq_ok h
  obtain ⟨constants, hconstants, h⟩ := exists_of_bind_eq_ok h
  cases h
  refine ⟨(fun
    | .nameSpace => spaces
    | .classLike => classes
    | .function => functions
    | .constant => constants), fun kind => ?_, rfl⟩
  cases kind with
  | nameSpace => exact hspaces
  | classLike => exact hclasses
  | function => exact hfunctions
  | constant => exact hconstants

/-- Fields are accepted if each of them is and then the rules that they set are. -/
theorem ofFields_eq_ok_iff {fields : List (Text × Value)} :
    ofFields fields d = .ok w ↔ ∃ o, setAll {} fields = .ok o ∧ ofOptions o d = .ok w := by
  constructor
  · intro h
    obtain ⟨o, ho, hw⟩ := exists_of_bind_eq_ok h
    refine ⟨o, ho, ?_⟩
    split at hw
    · next w' hoptions =>
      cases hw
      exact hoptions
    · cases hw
  · rintro ⟨o, ho, hw⟩
    have hread : WhitelistOptions.ofFields fields = .ok o := ho
    simp only [ofFields, hread, bind, Except.bind, hw]
    rfl

/-- The patterns of rules in force are written out as they stood. -/
theorem patternsOf_toOptions
    (h : ∀ kind, (o.patternsOf kind).mapM d.read = .ok (patterns kind)) (kind : SymbolKind) :
    (ofParts o patterns).toOptions.patternsOf kind = o.patternsOf kind := by
  have hwritten := map_written_of_mapM (h kind)
  cases kind <;> exact hwritten

/-- The classes of rules in force are no entries for namespaces. -/
theorem starred?_of_mem_classes {entry : Text} (h : entry ∈ (ofParts o patterns).classes) :
    starred? entry = none := by
  simp only [ofParts, mem_sortedSet, List.mem_map, List.mem_filter, Option.isNone_iff_eq_none] at h
  obtain ⟨written, ⟨-, hnone⟩, rfl⟩ := h
  exact starred?_key hnone

/-- Rules in force are their own form. -/
theorem ofParts_toOptions (hled : o.IsSinglyLed) :
    ofParts (ofParts o patterns).toOptions patterns = ofParts o patterns := by
  have hstarred : (ofParts o patterns).classes.filterMap starred? = [] :=
    List.filterMap_eq_nil_iff.mpr fun entry hentry => starred?_of_mem_classes hentry
  have hexact : (ofParts o patterns).classes.filter (fun entry => (starred? entry).isNone)
      = (ofParts o patterns).classes :=
    List.filter_eq_self.mpr fun entry hentry => by
      rw [starred?_of_mem_classes hentry]
      rfl
  have hspaces : sortedSet ((ofParts o patterns).excludedNamespaces.map namespaceKey)
      = (ofParts o patterns).excludedNamespaces :=
    sortedSet_map_sortedSet fun space _ => namespaceKey_namespaceKey space
  have hclasses : sortedSet ((ofParts o patterns).classes.map (Name.key .classLike))
      = (ofParts o patterns).classes :=
    sortedSet_map_sortedSet fun entry hentry =>
      (hled .classLike (by decide) entry (List.mem_filter.mp hentry).1).key_key .classLike
  have hfunctions : sortedSet ((ofParts o patterns).functions.map (Name.key .function))
      = (ofParts o patterns).functions :=
    sortedSet_map_sortedSet fun entry hentry =>
      (hled .function (by decide) entry hentry).key_key .function
  have hconstants : sortedSet ((ofParts o patterns).constants.map (Name.key .constant))
      = (ofParts o patterns).constants :=
    sortedSet_map_sortedSet fun entry hentry =>
      (hled .constant (by decide) entry hentry).key_key .constant
  rw [ofParts, toOptions]
  simp only [hstarred, hexact, List.append_nil, hspaces, hclasses, hfunctions, hconstants]
  rfl

/-- Rules in force, written out and read again, are the same. -/
theorem ofOptions_toOptions (hled : o.IsSinglyLed) (h : ofOptions o d = .ok w) :
    ofOptions w.toOptions d = .ok w := by
  obtain ⟨patterns, hpatterns, rfl⟩ := exists_patterns_of_ofOptions h
  have hagain : ∀ kind, ((ofParts o patterns).toOptions.patternsOf kind).mapM d.read
      = .ok (patterns kind) := fun kind => by
    rw [patternsOf_toOptions hpatterns kind]
    exact hpatterns kind
  rw [ofOptions_of_patterns hagain, ofParts_toOptions hled]

/-- Rules with the same names are the same in force. -/
theorem ofParts_congr {p : WhitelistOptions} (h : o.SameRules p) :
    ofParts o patterns = ofParts p patterns := by
  have hspaces : ∀ t, t ∈ o.excludedNamespaces ↔ t ∈ p.excludedNamespaces := h.entries .nameSpace
  have hclasses : ∀ t, t ∈ o.classes ↔ t ∈ p.classes := h.entries .classLike
  have hfunctions : ∀ t, t ∈ o.functions ↔ t ∈ p.functions := h.entries .function
  have hconstants : ∀ t, t ∈ o.constants ↔ t ∈ p.constants := h.entries .constant
  unfold ofParts
  congr 1
  · exact sortedSet_congr fun t => by
      simp only [List.mem_map, List.mem_append, List.mem_filterMap, hspaces, hclasses]
  · exact sortedSet_congr fun t => by simp only [List.mem_map, List.mem_filter, hclasses]
  · exact sortedSet_congr fun t => by simp only [List.mem_map, hfunctions]
  · exact sortedSet_congr fun t => by simp only [List.mem_map, hconstants]
  · exact h.exposure .classLike
  · exact h.exposure .function
  · exact h.exposure .constant

/-- The order and the repetition of names say nothing. -/
theorem ofOptions_congr {p : WhitelistOptions} (h : o.SameRules p) (ho : ofOptions o d = .ok w) :
    ofOptions p d = .ok w := by
  obtain ⟨patterns, hpatterns, rfl⟩ := exists_patterns_of_ofOptions ho
  rw [ofParts_congr h]
  exact ofOptions_of_patterns fun kind => by rw [← h.patterns kind, hpatterns kind]

/-- Rules that are accepted are written out as fields that give the same rules again, in whatever dialect
their patterns are written. Fields with the same names in another order, or with some of them repeated, give
the same rules too, so what is written out does not depend on either. -/
theorem written_rules_read_back (d : Dialect) {fields : List (Text × Value)}
    (h : ofFields fields d = .ok w) (hled : ∀ field ∈ fields, FieldIsSinglyLed field) :
    ofFields w.toFields d = .ok w
      ∧ ∀ others, List.Forall₂ SameField fields others → ofFields others d = .ok w := by
  obtain ⟨o, hread, hw⟩ := ofFields_eq_ok_iff.mp h
  have hsingly : o.IsSinglyLed := by
    refine IsSinglyLed.setAll (fun kind _ entry hentry => ?_) hled hread
    cases kind <;> cases hentry
  refine ⟨ofFields_eq_ok_iff.mpr ⟨_, ofFields_toFields w.toOptions, ofOptions_toOptions hsingly hw⟩,
    fun others hothers => ?_⟩
  obtain ⟨p, hp, hsame⟩ := (SameRules.refl {}).setAll hothers hread
  exact ofFields_eq_ok_iff.mpr ⟨p, hp, ofOptions_congr hsame hw⟩

/-- A field that holds names. -/
def namesField (name : String) (names : List String) : Text × Value :=
  (name.toList, .list ((names.map String.toList).map .text))

/-- A field with names is led by single separators if its names are. -/
theorem fieldIsSinglyLed_namesField {name : String} {names : List String}
    (h : ∀ t ∈ names.map String.toList, Name.IsSinglyLed t) :
    FieldIsSinglyLed (namesField name names) := by
  intro _ _ _ ts hts
  rw [namesField, texts?_list_map_text] at hts
  exact Option.some.inj hts ▸ h

/-- Fields with a namespace among the classes, spellings of one name, a pattern with a named group that looks
behind, and a flag. -/
def sampleFields : List (Text × Value) :=
  [namesField "excluded-namespaces" ["\\Acme\\", "Zend"],
   namesField "classes" ["\\Foo\\Bar", "Lib\\*", "foo\\BAR"],
   namesField "class-patterns" ["/^(?P<lead>Gen)[a-z]+(?<!Test)/i"],
   namesField "constants" ["App\\LIMIT"],
   ("expose-global-classes".toList, .bool true)]

/-- The same fields with the namespaces in another order and repeated. -/
def shuffledFields : List (Text × Value) :=
  namesField "excluded-namespaces" ["Zend", "\\Acme\\", "Zend"] :: sampleFields.tail

/-- The rules of the fields are read back from what is written out, and also from the shuffled fields. -/
theorem written_rules_read_back_sampleFields :
    (∀ field ∈ sampleFields, FieldIsSinglyLed field)
      ∧ List.Forall₂ SameField sampleFields shuffledFields
      ∧ ∃ w, ofFields sampleFields = .ok w
        ∧ w.excludedNamespaces = ["acme", "lib", "zend"].map String.toList
        ∧ ofFields w.toFields = .ok w ∧ ofFields shuffledFields = .ok w := by
  have hled : ∀ field ∈ sampleFields, FieldIsSinglyLed field := by
    simp only [sampleFields, List.forall_mem_cons]
    refine ⟨?_, ?_, ?_, ?_, ?_, fun _ h => absurd h List.not_mem_nil⟩
    · exact fieldIsSinglyLed_namesField (by decide)
    · exact fieldIsSinglyLed_namesField (by decide)
    · exact fieldIsSinglyLed_namesField (by decide)
    · exact fieldIsSinglyLed_namesField (by decide)
    · intro _ _ _ ts hts
      cases hts
  have hfield : ∀ field : Text × Value, SameField field field := fun _ => ⟨rfl, .inl rfl⟩
  have hsame : List.Forall₂ SameField sampleFields shuffledFields := by
    refine .cons ⟨rfl, .inr ⟨.nameSpace, _, _, by decide, texts?_list_map_text _,
      texts?_list_map_text _, fun t => ?_⟩⟩ (List.forall₂_same.mpr fun field _ => hfield field)
    simp only [List.map_cons, List.map_nil, List.mem_cons, List.not_mem_nil, or_false]
    tauto
  obtain ⟨w, hw, hspaces⟩ : ∃ w, ofFields sampleFields = .ok w
      ∧ w.excludedNamespaces = ["acme", "lib", "zend"].map String.toList :=
    ⟨_, rfl, by decide +kernel⟩
  obtain ⟨hagain, hothers⟩ := written_rules_read_back .standard hw hled
  exact ⟨hled, hsame, w, hw, hspaces, hagain, hothers shuffledFields hsame⟩

end Whitelist

end PhpPrefixer
