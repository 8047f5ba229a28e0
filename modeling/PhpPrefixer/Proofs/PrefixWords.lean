import PhpPrefixer.Proofs.NameAlgebra
import PhpPrefixer.Proofs.Texts

/-!
# Prefixes as lines of words

A prefix is trimmed and then checked. What is accepted is a line of words, or one with a line break behind it
(`Prefix.isWordy_or_of_validate`). A line of words is accepted again as it is
(`Prefix.validate_of_validate`), and in place of one with a line break another prefix is accepted
(`Prefix.exists_validate_of_lineBreak`).
-/

namespace PhpPrefixer.Prefix

open Name

variable {given q t line back : Text}

/-- There are no two separators in a row just if the check finds none. -/
theorem hasDoubled_eq_false_iff : hasDoubled t = false ↔ ¬[separator, separator] <:+: t := by
  rw [hasDoubled, ← Text.cut?_eq_none_iff, Option.isSome_eq_false_iff, Option.isNone_iff_eq_none]

/-- A line of words starts with a word character, and holds separators besides. -/
theorem isWordy_iff :
    isWordy t = true ↔ t ≠ [] ∧ (∀ c ∈ t.head?, Text.isWord c = true)
      ∧ ∀ c ∈ t, Text.isWord c = true ∨ c = separator := by
  cases t with
  | nil => simp [isWordy]
  | cons d ds =>
    simp only [isWordy, Bool.and_eq_true, List.all_eq_true, Bool.or_eq_true, decide_eq_true_eq, ne_eq,
      reduceCtorEq, not_false_eq_true, List.head?_cons, Option.mem_some_iff, forall_eq', List.mem_cons,
      forall_eq_or_imp, true_and]
    tauto

/-- There is no blank in a line of words. -/
theorem isBlank_of_isWordy (h : isWordy line = true) : ∀ c ∈ line, Text.isBlank c = false := by
  intro c hc
  obtain hword | rfl := (isWordy_iff.mp h).2.2 c hc
  · exact Text.isBlank_of_isWord hword
  · decide

/-- Nothing but blanks behind it is trimmed off a line of words. -/
theorem trimBlank_append (h : isWordy line = true) (hback : ∀ c ∈ back, Text.isBlank c = true) :
    Text.trimBlank (line ++ back) = line :=
  Text.trim_append (isWordy_iff.mp h).1 (fun c hc => isBlank_of_isWordy h c (List.mem_of_mem_head? hc))
    (fun c hc => isBlank_of_isWordy h c (List.mem_of_getLast? hc)) hback

/-- A separator at the end is trimmed off a line of words, and nothing else. -/
theorem exists_trimmed_eq (h : isWordy line = true) (hsingle : hasDoubled line = false) :
    ∃ root, trimmed line = root ∧ (line = root ∨ line = root ++ [separator]) ∧ isWordy root = true := by
  obtain ⟨hne, hfirst, hall⟩ := isWordy_iff.mp h
  have hhead : ∀ c ∈ line.head?, decide (c = separator) = false := by
    intro c hc
    have hword := hfirst c hc
    refine decide_eq_false ?_
    rintro rfl
    exact absurd hword (by decide)
  by_cases hlast : line.getLast? = some separator
  · obtain ⟨root, rfl⟩ := List.getLast?_eq_some_iff.mp hlast
    have hroot : root ≠ [] := by
      rintro rfl
      exact absurd (hhead separator rfl) (by simp)
    have hsame : (root ++ [separator]).head? = root.head? := by
      obtain ⟨c, cs, rfl⟩ := List.exists_cons_of_ne_nil hroot
      rfl
    rw [hsame] at hhead hfirst
    refine ⟨root, ?_, .inr rfl, isWordy_iff.mpr ⟨hroot, hfirst, fun c hc => hall c (by simp [hc])⟩⟩
    refine Text.trim_append hroot hhead (fun c hc => decide_eq_false ?_) (by simp)
    rintro rfl
    obtain ⟨front, rfl⟩ := List.getLast?_eq_some_iff.mp hc
    exact hasDoubled_eq_false_iff.mp hsingle ⟨front, [], by simp⟩
  · refine ⟨line, trimmed_of_isTrimmed ⟨fun hsep => ?_, hlast⟩, .inl rfl, h⟩
    exact absurd (hhead separator hsep) (by simp)

/-- A line of words with blanks behind it is accepted, without a separator at its end. -/
theorem validate_append (h : isWordy line = true) (hsingle : hasDoubled line = false)
    (hback : ∀ c ∈ back, Text.isBlank c = true) :
    ∃ root, validate (some (line ++ back)) = .ok root
      ∧ (line = root ∨ line = root ++ [separator]) ∧ isWordy root = true := by
  obtain ⟨root, htrimmed, hline, hroot⟩ := exists_trimmed_eq h hsingle
  have hinfix : root <:+: line := by
    obtain rfl | rfl := hline
    · exact List.infix_rfl
    · exact (List.prefix_append _ _).isInfix
  refine ⟨root, validate_eq_ok_iff.mpr ⟨?_, (isWordy_iff.mp hroot).1, ?_, ?_⟩, hline, hroot⟩
  · rw [normalized, trimBlank_append h hback, htrimmed]
  · rw [Text.holdsOfLine, hroot, Bool.true_or]
  · rw [hasDoubled_eq_false_iff] at hsingle ⊢
    exact fun hdoubled => hsingle (hdoubled.trans hinfix)

/-- A line of words does not end in a line break. -/
theorem getLast?_ne_of_isWordy (h : isWordy line = true) : line.getLast? ≠ some '\n' := by
  intro hlast
  exact absurd (isBlank_of_isWordy h '\n' (List.mem_of_getLast? hlast)) (by decide)

/-- An accepted prefix is a line of words, or one with a line break behind it. -/
theorem isWordy_or_of_validate (h : validate (some given) = .ok q) :
    isWordy q = true ∨ ∃ line, q = line ++ ['\n'] ∧ isWordy line = true := by
  obtain ⟨-, -, hline, -⟩ := validate_eq_ok_iff.mp h
  simp only [Text.holdsOfLine, Bool.or_eq_true, Bool.and_eq_true, decide_eq_true_eq] at hline
  refine hline.imp_right ?_
  rintro ⟨hlast, hwordy⟩
  obtain ⟨line, rfl⟩ := List.getLast?_eq_some_iff.mp hlast
  rw [List.dropLast_concat] at hwordy
  exact ⟨line, rfl, hwordy⟩

/-- An accepted prefix that does not end in a line break is a line of words. -/
theorem isWordy_of_validate (h : validate (some given) = .ok q) (hlast : q.getLast? ≠ some '\n') :
    isWordy q = true := by
  refine (isWordy_or_of_validate h).resolve_right ?_
  rintro ⟨line, rfl, -⟩
  exact hlast List.getLast?_concat

/-- What is accepted without a line break at its end is accepted again as it is. -/
theorem validate_of_validate (h : validate (some given) = .ok q) (hlast : q.getLast? ≠ some '\n') :
    validate (some q) = .ok q := by
  obtain ⟨-, -, -, hsingle⟩ := validate_eq_ok_iff.mp h
  obtain ⟨root, hroot, hq, -⟩ := validate_append (isWordy_of_validate h hlast) hsingle
    (List.forall_mem_nil fun c => Text.isBlank c = true)
  rw [List.append_nil] at hroot
  obtain rfl | rfl := hq
  · exact hroot
  · exact absurd List.getLast?_concat (isRoot_of_validate h).isTrimmed.2

/-- In place of what is accepted with a line break at its end, another prefix is accepted. -/
theorem exists_validate_of_lineBreak (h : validate (some given) = .ok q) (hlast : q.getLast? = some '\n') :
    ∃ root, validate (some q) = .ok root ∧ isWordy root = true
      ∧ (q = root ++ ['\n'] ∨ q = root ++ [separator, '\n']) := by
  obtain ⟨-, -, -, hsingle⟩ := validate_eq_ok_iff.mp h
  obtain hwordy | ⟨line, rfl, hwordy⟩ := isWordy_or_of_validate h
  · exact absurd hlast (getLast?_ne_of_isWordy hwordy)
  · have hsingleLine : hasDoubled line = false := by
      rw [hasDoubled_eq_false_iff] at hsingle ⊢
      exact fun hdoubled => hsingle (hdoubled.trans (List.prefix_append _ _).isInfix)
    have hbreak : ∀ c ∈ ['\n'], Text.isBlank c = true := List.forall_mem_singleton.mpr rfl
    obtain ⟨root, hroot, hline, hwords⟩ := validate_append hwordy hsingleLine hbreak
    refine ⟨root, hroot, hwords, hline.imp ?_ ?_⟩
    · rintro rfl
      rfl
    · rintro rfl
      simp

/-- A prefix that is accepted as it stands is a line of words. -/
theorem isWordy_of_validate_self (h : validate (some q) = .ok q) : isWordy q = true := by
  by_cases hlast : q.getLast? = some '\n'
  · obtain ⟨root, hroot, hwordy, -⟩ := exists_validate_of_lineBreak h hlast
    rw [h, Except.ok.injEq] at hroot
    rwa [hroot]
  · exact isWordy_of_validate h hlast

end PhpPrefixer.Prefix
