import PhpPrefixer.Text.Blank
import PhpPrefixer.Text.Word

/-!
# Texts

What is trimmed off a text, where a text is cut, what the pieces of a text have in common with it, and which
characters are word characters, which are blank, and that none is both.
-/

namespace PhpPrefixer.Text

/-- Trimming splits off characters at both ends. -/
theorem exists_trim_eq (p : Char → Bool) (t : Text) :
    ∃ front back, t = front ++ trim p t ++ back ∧ (∀ c ∈ front, p c = true) ∧ ∀ c ∈ back, p c = true := by
  refine ⟨t.takeWhile p, ((t.dropWhile p).reverse.takeWhile p).reverse, ?_,
    List.all_eq_true.mp List.all_takeWhile, fun c hc => ?_⟩
  · have hback : trim p t ++ ((t.dropWhile p).reverse.takeWhile p).reverse = t.dropWhile p := by
      rw [trim, trimEnd, ← List.reverse_append, List.takeWhile_append_dropWhile, List.reverse_reverse]
    rw [List.append_assoc, hback, List.takeWhile_append_dropWhile]
  · exact List.all_eq_true.mp List.all_takeWhile c (List.mem_reverse.mp hc)

/-- Behind a text that ends otherwise, characters are trimmed off again. -/
theorem trim_append {p : Char → Bool} {t back : Text} (hne : t ≠ [])
    (hfirst : ∀ c ∈ t.head?, p c = false) (hlast : ∀ c ∈ t.getLast?, p c = false)
    (hback : ∀ c ∈ back, p c = true) : trim p (t ++ back) = t := by
  have hkeep : ∀ u : Text, u ≠ [] → (∀ c ∈ u.head?, p c = false) → ∀ v, (u ++ v).dropWhile p = u ++ v := by
    intro u hu hhead v
    obtain ⟨c, cs, rfl⟩ := List.exists_cons_of_ne_nil hu
    have hc : p c = false := hhead c rfl
    simp [hc]
  have hend : t.reverse.dropWhile p = t.reverse := by
    have hreverse := hkeep t.reverse (by simpa using hne) (by simpa [List.head?_reverse] using hlast) []
    rwa [List.append_nil] at hreverse
  rw [trim, trimEnd, hkeep t hne hfirst, List.reverse_append,
    List.dropWhile_append_of_pos (by simpa using hback), hend, List.reverse_reverse]

/-- What was trimmed does not end in a character that is trimmed off. -/
theorem not_of_getLast?_trim {p : Char → Bool} {t : Text} {c : Char}
    (h : (trim p t).getLast? = some c) : p c = false := by
  have hfirst := List.head?_dropWhile_not p (t.dropWhile p).reverse
  rw [trim, trimEnd, List.getLast?_reverse] at h
  rw [h] at hfirst
  exact hfirst

/-- A piece stands in the text that the pieces are glued to. -/
theorem infix_glue {sep : Char} {ps : List Text} {piece : Text} (h : piece ∈ ps) :
    piece <:+: glue sep ps := by
  induction ps with
  | nil => cases h
  | cons p ps ih =>
    cases ps with
    | nil =>
      have hpiece : piece = glue sep [p] := (List.mem_singleton.mp h).trans (glue_singleton sep p).symm
      exact hpiece ▸ List.infix_rfl
    | cons q qs =>
      rw [glue_cons_cons]
      obtain rfl | hrest := List.mem_cons.mp h
      · exact (List.prefix_append _ _).isInfix
      · exact (ih hrest).trans ((List.suffix_cons _ _).trans (List.suffix_append _ _)).isInfix

/-- The characters of a piece are characters of the text. -/
theorem mem_of_mem_pieces {sep : Char} {t piece : Text} (h : piece ∈ pieces sep t) {c : Char}
    (hc : c ∈ piece) : c ∈ t := by
  have hwithin : piece <:+: glue sep (pieces sep t) := infix_glue h
  rw [glue_pieces] at hwithin
  exact hwithin.mem hc

/-- A character of a text is the separator or belongs to a piece. -/
theorem exists_piece_of_mem {sep c : Char} {t : Text} (h : c ∈ t) :
    c = sep ∨ ∃ p ∈ pieces sep t, c ∈ p := by
  induction t with
  | nil => cases h
  | cons d ds ih =>
    unfold pieces
    by_cases hd : d = sep
    · rw [if_pos hd]
      obtain rfl | hmem := List.mem_cons.mp h
      · exact .inl hd
      · obtain hc | ⟨p, hp, hc⟩ := ih hmem
        · exact .inl hc
        · exact .inr ⟨p, List.mem_cons_of_mem _ hp, hc⟩
    · rw [if_neg hd]
      obtain ⟨p, ps, hpieces⟩ := List.exists_cons_of_ne_nil (pieces_ne_nil sep ds)
      rw [hpieces] at ih ⊢
      obtain rfl | hmem := List.mem_cons.mp h
      · exact .inr ⟨_, List.mem_cons_self, List.mem_cons_self⟩
      · obtain hc | ⟨q, hq, hc⟩ := ih hmem
        · exact .inl hc
        · obtain rfl | hq := List.mem_cons.mp hq
          · exact .inr ⟨_, List.mem_cons_self, List.mem_cons_of_mem _ hc⟩
          · exact .inr ⟨q, List.mem_cons_of_mem _ hq, hc⟩

/-- A text is not cut at a mark just if the mark does not stand in it. -/
theorem cut?_eq_none_iff {mark t : Text} : cut? mark t = none ↔ ¬mark <:+: t := by
  induction t with
  | nil => simp [cut?]
  | cons c cs ih =>
    rw [List.infix_cons_iff, not_or, ← ih, cut?]
    by_cases hhere : mark <+: c :: cs
    · simp [hhere]
    · simp [hhere]

/-- A text is not cut at a mark whose first character it does not have. -/
theorem cut?_eq_none {sep : Char} {mark t : Text} (h : sep ∉ t) :
    cut? (sep :: mark) t = none :=
  cut?_eq_none_iff.mpr fun hwithin => h (hwithin.mem List.mem_cons_self)

/-- A text is cut at a mark whose first character does not occur before it. -/
theorem cut?_of_not_mem {sep : Char} {mark first : Text} (h : sep ∉ first) (rest : Text) :
    cut? (sep :: mark) (first ++ (sep :: mark ++ rest)) = some (first, rest) := by
  induction first with
  | nil => simp [cut?]
  | cons c cs ih =>
    obtain ⟨hc, hcs⟩ := not_or.mp (mt List.mem_cons.mpr h)
    simp only [List.cons_append] at ih
    simp [cut?, hc, ih hcs]

/-- What is no line break and is in no text that passes a test is in no line that passes it. -/
theorem not_mem_of_holdsOfLine {test : Text → Bool} {c : Char} {t : Text} (hc : c ≠ '\n')
    (htest : ∀ line, test line = true → c ∉ line) (h : holdsOfLine test t = true) : c ∉ t := by
  simp only [holdsOfLine, Bool.or_eq_true, Bool.and_eq_true, decide_eq_true_eq] at h
  obtain h | ⟨hlast, h⟩ := h
  · exact htest t h
  · obtain ⟨line, rfl⟩ := List.getLast?_eq_some_iff.mp hlast
    rw [List.dropLast_concat] at h
    simp [htest line h, hc]

/-- The letters of ASCII by their code points. -/
theorem isAlpha_iff {c : Char} : c.isAlpha = true ↔
    ('A'.toNat ≤ c.toNat ∧ c.toNat ≤ 'Z'.toNat) ∨ ('a'.toNat ≤ c.toNat ∧ c.toNat ≤ 'z'.toNat) := by
  change (decide ('A'.val ≤ c.val ∧ c.val ≤ 'Z'.val)
    || (decide ('a'.val ≤ c.val) && decide (c.val ≤ 'z'.val))) = true ↔ _
  simp only [Bool.or_eq_true, Bool.and_eq_true, decide_eq_true_eq, UInt32.le_iff_toNat_le]
  rfl

/-- The word characters by their code points. -/
theorem isWord_cases {c : Char} (h : isWord c = true) :
    (48 ≤ c.toNat ∧ c.toNat ≤ 57) ∨ (65 ≤ c.toNat ∧ c.toNat ≤ 90) ∨ c.toNat = 95
      ∨ (97 ≤ c.toNat ∧ c.toNat ≤ 122) ∨ (128 ≤ c.toNat ∧ inRanges wordRanges c = true) := by
  unfold isWord at h
  split at h
  · rw [Bool.or_eq_true, decide_eq_true_eq, Char.isAlphanum, Bool.or_eq_true, isAlpha_iff, Char.isDigit_iff_toNat,
      ← Char.toNat_inj] at h
    change (((65 ≤ c.toNat ∧ c.toNat ≤ 90) ∨ (97 ≤ c.toNat ∧ c.toNat ≤ 122))
      ∨ (48 ≤ c.toNat ∧ c.toNat ≤ 57)) ∨ c.toNat = 95 at h
    omega
  · next hascii =>
    have hbeyond : 128 ≤ c.toNat := by simpa [isAscii] using hascii
    exact .inr (.inr (.inr (.inr ⟨hbeyond, h⟩)))

/-- No range of blanks meets the word characters. -/
theorem blankRanges_apart :
    ∀ r ∈ blankRanges, (r.2 < 48 ∨ 122 < r.1) ∧ ∀ s ∈ wordRanges, r.2 < s.1 ∨ s.2 < r.1 := by
  have h : blankRanges.all (fun r => (r.2 < 48 || 122 < r.1)
      && wordRanges.all fun s => r.2 < s.1 || s.2 < r.1) = true := by decide +kernel
  simpa using h

/-- Word characters are not blank. -/
theorem isBlank_of_isWord {c : Char} (h : isWord c = true) : isBlank c = false := by
  rw [Bool.eq_false_iff]
  intro hblank
  obtain ⟨r, hr, hfirst, hlast⟩ := inRanges_iff.mp hblank
  obtain ⟨hascii, hother⟩ := blankRanges_apart r hr
  rcases isWord_cases h with hdigit | hupper | hunderscore | hlower | ⟨hbeyond, hword⟩
  · omega
  · omega
  · omega
  · omega
  · obtain ⟨s, hs, hlow, hhigh⟩ := inRanges_iff.mp hword
    have hapart := hother s hs
    omega

end PhpPrefixer.Text
