import PhpPrefixer.Proofs.NameGrammar
import PhpPrefixer.Proofs.PrefixWords

/-!
# Checked prefixes

A prefix is trimmed and then checked, and what is accepted is made of words with single separators between
them, which the check accepts again as they are. Two things are let through that are no names. A line break may
stand at the end, if separators were trimmed behind it (`Prefix.lineBreak_infix_of_validate`). And a word may
start with a digit or hold characters beyond those of names, so a prefix is the name of a namespace only if
none does: `Prefix.accepted_prefixes`.
-/

namespace PhpPrefixer

namespace Name

/-- The first characters of identifiers by their code points. -/
theorem startsIdentifier_iff_toNat {c : Char} :
    StartsIdentifier c ↔ (65 ≤ c.toNat ∧ c.toNat ≤ 90) ∨ (97 ≤ c.toNat ∧ c.toNat ≤ 122) ∨ c.toNat = 95
      ∨ (128 ≤ c.toNat ∧ c.toNat ≤ 0xFFFF) := by
  rw [StartsIdentifier, ← Char.toNat_inj]
  rfl

/-- A word character may start an identifier just if it is no digit of ASCII and none beyond U+FFFF. -/
theorem startsIdentifier_iff {c : Char} (h : Text.isWord c = true) :
    StartsIdentifier c ↔ c.isDigit = false ∧ c.toNat ≤ 0xFFFF := by
  rw [startsIdentifier_iff_toNat, Bool.eq_false_iff, ne_eq, Char.isDigit_iff_toNat]
  change _ ↔ ¬(48 ≤ c.toNat ∧ c.toNat ≤ 57) ∧ _
  have hword := Text.isWord_cases h
  omega

/-- A word character may stand in an identifier just if it is none beyond U+FFFF. -/
theorem continuesIdentifier_iff {c : Char} (h : Text.isWord c = true) :
    ContinuesIdentifier c ↔ c.toNat ≤ 0xFFFF := by
  have hword := Text.isWord_cases h
  unfold ContinuesIdentifier
  rw [startsIdentifier_iff_toNat]
  change _ ∨ (48 ≤ c.toNat ∧ c.toNat ≤ 57) ↔ _
  omega

/-- A name under another one. -/
theorem Qualified.under_qualified {s t : Text} (hs : Qualified s) (ht : Qualified t) :
    Qualified (s ++ separator :: t) := by
  have hsegments : segments (s ++ separator :: t) = segments s ++ segments t :=
    Text.pieces_append_sep separator s t
  rw [qualified_iff] at hs ht ⊢
  rw [hsegments]
  exact List.forall_mem_append.mpr ⟨hs, ht⟩

/-- A qualified name has no separators around it. -/
theorem Qualified.isTrimmed {t : Text} (h : Qualified t) : IsTrimmed t := by
  have hwell : WellFormed t := by
    intro s hs hnil
    rw [bare_of_head h.head?_ne] at hs
    have hempty := h.identifier_of_mem s hs
    rw [hnil] at hempty
    cases hempty
  rw [← bare_of_head h.head?_ne]
  exact hwell.isTrimmed_bare

/-- A qualified name is not empty. -/
theorem Qualified.ne_nil {t : Text} (h : Qualified t) : t ≠ [] := by
  rintro rfl
  exact nomatch h.identifier_of_mem [] List.mem_cons_self

/-- Segments without gaps between them are not empty. -/
theorem segments_ne_nil_of_isTrimmed {t : Text} (htrimmed : IsTrimmed t) (hne : t ≠ [])
    (hsingle : ¬[separator, separator] <:+: t) : ∀ s ∈ segments t, s ≠ [] := by
  rintro s hs rfl
  obtain ⟨before, after, hsplit⟩ := List.append_of_mem hs
  have hglue := glue_segments t
  rw [hsplit] at hglue
  have hbehind : Text.glue separator ([] :: after) = [] ∨
      ∃ rest, Text.glue separator ([] :: after) = separator :: rest := by
    cases after with
    | nil => exact .inl (Text.glue_singleton separator [])
    | cons p ps => exact .inr ⟨_, Text.glue_cons_cons separator [] p ps⟩
  by_cases hbefore : before = []
  · rw [hbefore, List.nil_append] at hglue
    obtain hnil | ⟨rest, hrest⟩ := hbehind
    · exact hne (hglue.symm.trans hnil)
    · exact htrimmed.1 (by rw [← hglue, hrest, List.head?_cons])
  · rw [glue_append hbefore (List.cons_ne_nil [] after)] at hglue
    obtain hnil | ⟨rest, hrest⟩ := hbehind
    · exact htrimmed.2 (by rw [← hglue, hnil, List.getLast?_concat])
    · exact hsingle ⟨Text.glue separator before, rest, by rw [← hglue, hrest]; simp⟩

end Name

namespace Prefix

open Name

/-- No word of a prefix starts with a digit of ASCII or holds a character beyond U+FFFF. -/
def IsNameable (t : Text) : Prop :=
  ∀ s ∈ segments t, (∀ c ∈ s.head?, c.isDigit = false) ∧ ∀ c ∈ s, c.toNat ≤ 0xFFFF

/-- The check of the words of a prefix is the one for what can be a name. -/
theorem all_eq_true_iff_isNameable {t : Text} :
    ((segments t).all fun s => s.head?.all (!·.isDigit) && s.all (·.toNat ≤ 0xFFFF)) = true ↔ IsNameable t := by
  simp only [IsNameable, List.all_eq_true, Bool.and_eq_true, Option.all_eq_true, Bool.not_eq_true',
    decide_eq_true_eq, Option.mem_def]

instance (t : Text) : Decidable (IsNameable t) :=
  decidable_of_iff _ all_eq_true_iff_isNameable

variable {given q t : Text}

/-- The words of a nameable prefix are identifiers. -/
theorem qualified_iff_isNameable (h : ∀ s ∈ segments t, s ≠ [] ∧ ∀ c ∈ s, Text.isWord c = true) :
    Qualified t ↔ IsNameable t := by
  rw [qualified_iff]
  refine forall₂_congr fun s hs => ?_
  obtain ⟨hne, hword⟩ := h s hs
  obtain ⟨c, cs, rfl⟩ := List.exists_cons_of_ne_nil hne
  obtain ⟨hc, hcs⟩ := List.forall_mem_cons.mp hword
  have hothers : (∀ d ∈ cs, ContinuesIdentifier d) ↔ ∀ d ∈ cs, d.toNat ≤ 0xFFFF :=
    forall₂_congr fun d hd => continuesIdentifier_iff (hcs d hd)
  have hcons : Identifier (c :: cs) ↔ StartsIdentifier c ∧ ∀ d ∈ cs, ContinuesIdentifier d :=
    ⟨fun | .mk first others => ⟨first, others⟩, fun h => .mk h.1 h.2⟩
  rw [hcons, startsIdentifier_iff hc, hothers, List.forall_mem_cons, and_assoc]
  simp

/-- No segment of an accepted prefix is empty. -/
theorem segments_ne_nil_of_validate (h : validate (some given) = .ok q) : ∀ s ∈ segments q, s ≠ [] := by
  obtain ⟨-, hne, -, hsingle⟩ := validate_eq_ok_iff.mp h
  exact segments_ne_nil_of_isTrimmed (isRoot_of_validate h).isTrimmed hne (hasDoubled_eq_false_iff.mp hsingle)

/-- Words are made of word characters. -/
theorem isWord_of_isWordy (h : isWordy t = true) : ∀ s ∈ segments t, ∀ c ∈ s, Text.isWord c = true := by
  intro s hs c hc
  refine ((isWordy_iff.mp h).2.2 c (Text.mem_of_mem_pieces hs hc)).resolve_right ?_
  rintro rfl
  exact Text.sep_not_mem_of_mem_pieces hs hc

/-- A line break at the end was given in front of a separator. -/
theorem lineBreak_infix_of_validate (h : validate (some given) = .ok q) (hlast : q.getLast? = some '\n') :
    ['\n', separator] <:+: given := by
  obtain ⟨hq, -⟩ := validate_eq_ok_iff.mp h
  obtain ⟨front, back, hgiven, -, -⟩ := Text.exists_trim_eq Text.isBlank given
  obtain ⟨seps, others, htrimmed, -, hothers⟩ :=
    Text.exists_trim_eq (· = separator) (Text.trimBlank given)
  obtain ⟨line, rfl⟩ := List.getLast?_eq_some_iff.mp hlast
  have hsplit : Text.trimBlank given = seps ++ (line ++ ['\n']) ++ others := by
    rw [hq]
    exact htrimmed
  cases others with
  | nil =>
    have hend : (Text.trimBlank given).getLast? = some '\n' := by
      rw [hsplit, List.append_nil, ← List.append_assoc, List.getLast?_concat]
    exact absurd (Text.not_of_getLast?_trim hend) (by decide)
  | cons c cs =>
    obtain rfl : c = separator := of_decide_eq_true (hothers c List.mem_cons_self)
    rw [← Text.trimBlank, hsplit] at hgiven
    exact ⟨front ++ seps ++ line, cs ++ back, by rw [hgiven]; simp⟩

/-- An accepted prefix is not empty, and none of its segments is. If it does not end in a line break, its
segments are made of word characters, it is accepted again as it stands, and it is a name just if no segment
starts with a digit of ASCII and none holds a character beyond U+FFFF; in that case all names under it are
names. A line break can only come to its end if a separator was given behind one. The prefix is no name then,
and another one is accepted in its place: the one without the line break, and without a separator in front of
that. -/
theorem accepted_prefixes (h : validate (some given) = .ok q) :
    q ≠ [] ∧ (∀ s ∈ segments q, s ≠ []) ∧
    (q.getLast? ≠ some '\n' →
      (∀ s ∈ segments q, ∀ c ∈ s, Text.isWord c = true ∧ Text.isBlank c = false) ∧
      validate (some q) = .ok q ∧
      (isSymbolName q = true ↔ IsNameable q) ∧
      (IsNameable q → Spelled q ∧ ∀ name, Spelled name → Spelled (relocate q name))) ∧
    (q.getLast? = some '\n' →
      ['\n', separator] <:+: given ∧ ¬Spelled q ∧
      ∃ root, validate (some q) = .ok root ∧ root.getLast? ≠ some '\n'
        ∧ (q = root ++ ['\n'] ∨ q = root ++ [separator, '\n'])) := by
  have hsegments := segments_ne_nil_of_validate h
  have hroot := isRoot_of_validate h
  refine ⟨hroot.ne_nil, hsegments, fun hlast => ?_, fun hlast => ?_⟩
  · have hword := isWord_of_isWordy (isWordy_of_validate h hlast)
    have hqualified := qualified_iff_isNameable fun s hs => ⟨hsegments s hs, hword s hs⟩
    have hspelled : Spelled q ↔ IsNameable q := by
      rw [spelled_iff, bare_of_isTrimmed hroot.isTrimmed, hqualified]
    refine ⟨fun s hs c hc => ⟨hword s hs c hc, Text.isBlank_of_isWord (hword s hs c hc)⟩,
      validate_of_validate h hlast, ?_, fun hnameable => ⟨hspelled.mpr hnameable, fun name hname => ?_⟩⟩
    · rw [isSymbolName_iff, or_iff_left, hspelled]
      rintro ⟨line, rfl, -⟩
      exact hlast List.getLast?_concat
    · have hbare := spelled_iff.mp hname
      rw [relocate_eq_beside hroot, ← trimmed_bare, trimmed_of_isTrimmed hbare.isTrimmed,
        beside_of_ne_nil hroot.ne_nil hbare.ne_nil]
      exact .plain ((hqualified.mpr hnameable).under_qualified hbare)
  · refine ⟨lineBreak_infix_of_validate h hlast,
      fun hspelled => hspelled.lineBreak_not_mem (List.mem_of_getLast? hlast), ?_⟩
    obtain ⟨root, haccepted, hwordy, hq⟩ := exists_validate_of_lineBreak h hlast
    exact ⟨root, haccepted, getLast?_ne_of_isWordy hwordy, hq⟩

/-- A prefix is accepted without the blanks and separators around it, and names under it are names. -/
theorem accepted_prefixes_trimmed :
    validate (some " \\Vendor\\Scoped2\\\n".toList) = .ok "Vendor\\Scoped2".toList
      ∧ validate (some "Vendor\\Scoped2".toList) = .ok "Vendor\\Scoped2".toList
      ∧ isSymbolName "Vendor\\Scoped2".toList = true
      ∧ Spelled (relocate "Vendor\\Scoped2".toList "\\Acme\\Foo".toList) := by
  have haccepted : validate (some " \\Vendor\\Scoped2\\\n".toList) = .ok "Vendor\\Scoped2".toList := rfl
  have hname : Spelled "\\Acme\\Foo".toList := spelled_iff.mpr (qualified_iff.mpr (by
    simpa only [← isIdentifier_iff] using by decide))
  obtain ⟨-, -, hwords, -⟩ := accepted_prefixes haccepted
  obtain ⟨-, hagain, hsymbol, hunder⟩ := hwords (by decide)
  have hnameable : IsNameable "Vendor\\Scoped2".toList := by decide
  exact ⟨haccepted, hagain, hsymbol.mpr hnameable, (hunder hnameable).2 _ hname⟩

/-- A line break stays at the end of a prefix if a separator is trimmed off behind it, and a prefix may start
with a digit. -/
theorem accepted_prefixes_noNames :
    validate (some "Humbug\n\\".toList) = .ok "Humbug\n".toList
      ∧ validate (some "Humbug\n".toList) = .ok "Humbug".toList
      ∧ ¬Spelled "Humbug\n".toList
      ∧ validate (some "1Foo".toList) = .ok "1Foo".toList
      ∧ isSymbolName "1Foo".toList = false :=
  ⟨rfl, rfl, fun h => h.lineBreak_not_mem (by decide), rfl, by decide⟩

end Prefix

end PhpPrefixer
