import PhpPrefixer.Prefixing.Basic
import PhpPrefixer.Proofs.HandFiles
import PhpPrefixer.Proofs.NameAlgebra
import PhpPrefixer.Proofs.Texts

/-!
# The grammar of names

A name is spelled as one or more identifiers with single separators between them, possibly with one separator
in front: `Name.Spelled`. A text is recognized by cutting it at its separators, and the pieces are identifiers
just if the text is so spelled (`Name.qualified_iff`). What is recognized is what is spelled by the grammar,
and also that with a line break behind it: `FileSetting.names_recognized`.
-/

namespace PhpPrefixer

namespace Name

/-- A character that an identifier may start with. -/
def StartsIdentifier (c : Char) : Prop :=
  ('A'.toNat ≤ c.toNat ∧ c.toNat ≤ 'Z'.toNat) ∨ ('a'.toNat ≤ c.toNat ∧ c.toNat ≤ 'z'.toNat) ∨ c = '_'
    ∨ (0x80 ≤ c.toNat ∧ c.toNat ≤ 0xFFFF)

/-- A character that may stand in an identifier behind its first one. -/
def ContinuesIdentifier (c : Char) : Prop :=
  StartsIdentifier c ∨ ('0'.toNat ≤ c.toNat ∧ c.toNat ≤ '9'.toNat)

/-- One identifier. -/
inductive Identifier : Text → Prop where
  /-- A first character and any number of others. -/
  | mk {c : Char} {cs : Text} (first : StartsIdentifier c) (others : ∀ d ∈ cs, ContinuesIdentifier d) :
    Identifier (c :: cs)

/-- One or more identifiers with single separators between them. -/
inductive Qualified : Text → Prop where
  /-- One identifier. -/
  | single {t : Text} (only : Identifier t) : Qualified t
  /-- One identifier in front of others. -/
  | under {s t : Text} (outer : Identifier s) (inner : Qualified t) : Qualified (s ++ separator :: t)

/-- A name as it is written, with or without a separator in front. -/
inductive Spelled : Text → Prop where
  /-- Without a separator in front. -/
  | plain {t : Text} (name : Qualified t) : Spelled t
  /-- With a separator in front. -/
  | led {t : Text} (name : Qualified t) : Spelled (separator :: t)

/-- The test for the first character of an identifier is that of the grammar. -/
theorem isIdentifierStart_iff {c : Char} : isIdentifierStart c = true ↔ StartsIdentifier c := by
  simp only [isIdentifierStart, StartsIdentifier, Bool.or_eq_true, Bool.and_eq_true, decide_eq_true_eq,
    Text.isAlpha_iff, or_assoc]

/-- The test for the later characters of an identifier is that of the grammar. -/
theorem isIdentifierPart_iff {c : Char} : isIdentifierPart c = true ↔ ContinuesIdentifier c := by
  rw [isIdentifierPart, Bool.or_eq_true, isIdentifierStart_iff, Char.isDigit_iff_toNat, ContinuesIdentifier]

/-- The test for an identifier is that of the grammar. -/
theorem isIdentifier_iff {t : Text} : isIdentifier t = true ↔ Identifier t := by
  cases t with
  | nil => exact ⟨nofun, nofun⟩
  | cons c cs =>
    rw [isIdentifier, Bool.and_eq_true, isIdentifierStart_iff, List.all_eq_true]
    simp only [isIdentifierPart_iff]
    exact ⟨fun h => .mk h.1 h.2, fun | .mk first others => ⟨first, others⟩⟩

/-- Every character of an identifier may continue one. -/
theorem Identifier.continues {t : Text} (h : Identifier t) : ∀ c ∈ t, ContinuesIdentifier c := by
  cases h with
  | mk first others => exact List.forall_mem_cons.mpr ⟨.inl first, others⟩

/-- No separator is in an identifier. -/
theorem Identifier.separator_not_mem {t : Text} (h : Identifier t) : separator ∉ t := by
  intro hmem
  have hpart := isIdentifierPart_iff.mpr (h.continues separator hmem)
  exact absurd hpart (by decide)

/-- An identifier is one segment. -/
theorem Identifier.segments_eq {t : Text} (h : Identifier t) : segments t = [t] :=
  Text.pieces_of_not_mem h.separator_not_mem

/-- Identifiers in a row, with separators between them, make a qualified name. -/
theorem qualified_glue {ps : List Text} (hne : ps ≠ []) (h : ∀ p ∈ ps, Identifier p) :
    Qualified (Text.glue separator ps) := by
  induction ps with
  | nil => exact absurd rfl hne
  | cons p ps ih =>
    obtain ⟨hp, hps⟩ := List.forall_mem_cons.mp h
    cases ps with
    | nil =>
      rw [Text.glue_singleton]
      exact .single hp
    | cons q qs =>
      rw [Text.glue_cons_cons]
      exact .under hp (ih (List.cons_ne_nil q qs) hps)

/-- The segments of a qualified name are identifiers. -/
theorem Qualified.identifier_of_mem {t : Text} (h : Qualified t) : ∀ p ∈ segments t, Identifier p := by
  induction h with
  | single only =>
    rw [only.segments_eq]
    exact List.forall_mem_singleton.mpr only
  | @under s t outer inner ih =>
    have hsegments : segments (s ++ separator :: t) = segments s ++ segments t :=
      Text.pieces_append_sep separator s t
    rw [hsegments, outer.segments_eq]
    exact List.forall_mem_cons.mpr ⟨outer, ih⟩

/-- A text is a qualified name just if it is cut into identifiers. -/
theorem qualified_iff {t : Text} : Qualified t ↔ ∀ p ∈ segments t, Identifier p := by
  refine ⟨Qualified.identifier_of_mem, fun h => ?_⟩
  rw [← glue_segments t]
  exact qualified_glue (segments_ne_nil t) h

/-- A qualified name has no separator in front. -/
theorem Qualified.head?_ne {t : Text} (h : Qualified t) : t.head? ≠ some separator := by
  cases h with
  | single only =>
    intro hhead
    exact only.separator_not_mem (List.mem_of_mem_head? hhead)
  | @under s t outer inner =>
    cases outer with
    | @mk c cs first others =>
      have hc := (Identifier.mk first others).separator_not_mem
      intro hhead
      exact hc (Option.some_inj.mp hhead ▸ List.mem_cons_self)

/-- A spelled name is a qualified name with or without a separator in front. -/
theorem spelled_iff {t : Text} : Spelled t ↔ Qualified (bare t) := by
  constructor
  · intro h
    cases h with
    | plain name => rwa [bare_of_head name.head?_ne]
    | led name => rwa [bare_separator_cons]
  · intro h
    by_cases hhead : t.head? = some separator
    · obtain ⟨cs, rfl⟩ := List.head?_eq_some_iff.mp hhead
      rw [bare_separator_cons] at h
      exact .led h
    · rw [bare_of_head hhead] at h
      exact .plain h

/-- A line is recognized just if it is spelled by the grammar. -/
theorem all_isIdentifier_iff {t : Text} : (segments (bare t)).all isIdentifier = true ↔ Spelled t := by
  rw [spelled_iff, qualified_iff, List.all_eq_true]
  simp only [isIdentifier_iff]

/-- What is recognized as a name: what is spelled by the grammar, and that with a line break behind it. -/
theorem isSymbolName_iff {t : Text} :
    isSymbolName t = true ↔ Spelled t ∨ ∃ line, t = line ++ ['\n'] ∧ Spelled line := by
  rw [isSymbolName, Text.holdsOfLine, Bool.or_eq_true, all_isIdentifier_iff, Bool.and_eq_true,
    decide_eq_true_eq, all_isIdentifier_iff]
  refine or_congr_right ⟨?_, ?_⟩
  · rintro ⟨hlast, hline⟩
    obtain ⟨line, rfl⟩ := List.getLast?_eq_some_iff.mp hlast
    rw [List.dropLast_concat] at hline
    exact ⟨line, rfl, hline⟩
  · rintro ⟨line, rfl, hline⟩
    rw [List.getLast?_concat, List.dropLast_concat]
    exact ⟨rfl, hline⟩

/-- A name holds no line break. -/
theorem Qualified.lineBreak_not_mem {t : Text} (h : Qualified t) : '\n' ∉ t := by
  have hidentifier : ∀ {s : Text}, Identifier s → '\n' ∉ s := by
    intro s hs hmem
    have hpart := isIdentifierPart_iff.mpr (hs.continues '\n' hmem)
    exact absurd hpart (by decide)
  induction h with
  | single only => exact hidentifier only
  | under outer inner ih => simp [hidentifier outer, ih, separator]

/-- There are no line breaks in a spelled name. -/
theorem Spelled.lineBreak_not_mem {t : Text} (h : Spelled t) : '\n' ∉ t := by
  cases h with
  | plain name => exact name.lineBreak_not_mem
  | led name => simp [name.lineBreak_not_mem, separator]

end Name

namespace FileSetting

open Name

/-- Nothing is done about the contents of a string that are not recognized as a name. -/
theorem prefixMention_of_not_isSymbolName {w : FileSetting} {kind : SymbolKind} {value : Text}
    (hmark : ¬Relocation.memberMark <:+: value) (h : isSymbolName value = false) :
    w.prefixMention kind value = pure none := by
  have hmention : w.relocation.mention? kind value = none := by
    rw [Relocation.mention?, Text.cut?_eq_none_iff.mpr hmark]
    simp [Relocation.mentionOf?, h]
  rw [prefixMention, hmention]

/-- A text is recognized as a name just if it is spelled by the grammar of names, or is so but for a line
break behind it. So what does not end in a line break is recognized just if it is spelled by the grammar. If
a string without a mark for a member has a name in it prefixed, its contents are so spelled. -/
theorem names_recognized (w : FileSetting) (kind : SymbolKind) (value : Text) :
    (isSymbolName value = true
      ↔ Spelled value ∨ ∃ line, value = line ++ ['\n'] ∧ Spelled line) ∧
    (value.getLast? ≠ some '\n' → (isSymbolName value = true ↔ Spelled value)) ∧
    (¬Relocation.memberMark <:+: value →
      w.prefixMention kind value = pure none
        ∨ Spelled value ∨ ∃ line, value = line ++ ['\n'] ∧ Spelled line) := by
  refine ⟨isSymbolName_iff, fun hlast => ?_, fun hmark => ?_⟩
  · rw [isSymbolName_iff, or_iff_left]
    rintro ⟨line, rfl, -⟩
    exact hlast List.getLast?_concat
  · cases hname : isSymbolName value with
    | true => exact .inr (isSymbolName_iff.mp hname)
    | false => exact .inl (prefixMention_of_not_isSymbolName hmark hname)

/-- A name with a letter beyond ASCII is recognized. A text with a gap in it is not, and is left alone. -/
theorem names_recognized_umlaut :
    isSymbolName "\\Acme\\Öl2".toList = true ∧ Spelled "\\Acme\\Öl2".toList
      ∧ ¬Relocation.memberMark <:+: "Acme Öl".toList ∧ ¬Spelled "Acme Öl".toList
      ∧ bareFile.prefixMention .classLike "Acme Öl".toList = pure none := by
  obtain ⟨-, hname, -⟩ := names_recognized bareFile .classLike "\\Acme\\Öl2".toList
  obtain ⟨-, hgap, hleft⟩ := names_recognized bareFile .classLike "Acme Öl".toList
  have hspelled : ¬Spelled "Acme Öl".toList := fun h => absurd ((hgap (by decide)).mpr h) (by decide)
  have hmark : ¬Relocation.memberMark <:+: "Acme Öl".toList := Text.cut?_eq_none_iff.mp rfl
  refine ⟨by decide, (hname (by decide)).mp (by decide), hmark, hspelled, ?_⟩
  obtain hnothing | hnamed | ⟨line, hline, -⟩ := hleft hmark
  · exact hnothing
  · exact absurd hnamed hspelled
  · exact absurd (congrArg List.getLast? hline) (by rw [List.getLast?_concat]; decide)

/-- A name with a line break behind it is not spelled by the grammar, but it is recognized, and prefixed in a
string. -/
theorem names_recognized_lineBreak :
    isSymbolName "Foo\n".toList = true ∧ ¬Spelled "Foo\n".toList
      ∧ ¬Relocation.memberMark <:+: "Foo\n".toList
      ∧ ((bareFile.prefixMention .classLike "Foo\n".toList).run .start).outcome.toOption.map Prod.fst
        = some (some "Humbug\\Foo\n".toList) := by
  refine ⟨by decide, fun h => h.lineBreak_not_mem (by decide), Text.cut?_eq_none_iff.mp rfl,
    by decide +kernel⟩

end FileSetting

end PhpPrefixer
