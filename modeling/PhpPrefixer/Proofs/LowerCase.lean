import PhpPrefixer.Lexical

/-!
# Lower case and separators

Lower-casing looks at the neighbours of a letter, but never across a separator: a separator is no
letter and no mark. So a name is lower-cased segment by segment (`segments_lower`), and lower-casing
makes no separator and loses none. Both hold for every text, whatever its script.
-/

namespace PhpPrefixer.Text

open Name (separator)

/-- Runs that lead above a bound keep above it what starts there. -/
theorem le_lowerIn {runs : List (Nat × Nat × Nat × Nat)} {bound n : Nat}
    (hruns : ∀ r ∈ runs, bound ≤ r.2.2.2) (hn : bound ≤ n) : bound ≤ lowerIn runs n := by
  unfold lowerIn
  split
  · next first last stride target hfound =>
    have hmem := List.mem_of_find?_eq_some hfound
    have htarget := hruns _ hmem
    dsimp only at htarget
    omega
  · exact hn

/-- Beyond ASCII, every lower-case form has a greater code point than the separator. -/
theorem lowerRuns_above : ∀ r ∈ lowerRuns, 93 ≤ r.2.2.2 := by
  have h : lowerRuns.all (fun r => 93 ≤ r.2.2.2) = true := by decide +kernel
  intro r hr
  exact of_decide_eq_true (List.all_eq_true.mp h r hr)

/-- Characters from the closing bracket on are no separators. -/
theorem ofNat_ne_separator {n : Nat} (h : 93 ≤ n) : Char.ofNat n ≠ separator := by
  intro e
  by_cases hv : n.isValidChar
  · have hn : (Char.ofNat n).toNat = n := by
      rw [Char.ofNat, dif_pos hv]
      rfl
    rw [e] at hn
    have hs : separator.toNat = 92 := rfl
    omega
  · rw [Char.ofNat, dif_neg hv] at e
    exact absurd e (by decide)

/-- Lower case of ASCII makes no separators. -/
theorem toLower_ne_separator {c : Char} (h : c ≠ separator) : c.toLower ≠ separator := by
  unfold Char.toLower
  split
  · next hupper =>
    intro e
    have hval : c.val + ('a'.val - 'A'.val) = 92 := congrArg Char.val e
    have hnat := congrArg UInt32.toNat hval
    have hshift : ('a'.val - 'A'.val).toNat = 32 := rfl
    have hgoal : UInt32.toNat 92 = 92 := rfl
    have hlow : 65 ≤ c.val.toNat := UInt32.le_iff_toNat_le.mp hupper.1
    have hhigh : c.val.toNat ≤ 90 := UInt32.le_iff_toNat_le.mp hupper.2
    rw [UInt32.toNat_add, hshift, hgoal] at hnat
    omega
  · exact h

/-- No other character is lower-cased to a separator. -/
theorem lowerChar_ne_separator {c : Char} (h : c ≠ separator) : lowerChar c ≠ separator := by
  unfold lowerChar
  split
  · exact toLower_ne_separator h
  · next hascii =>
    have hc : 93 ≤ c.toNat := by
      have : ¬ c.toNat < 128 := by simpa [isAscii] using hascii
      omega
    split
    · decide
    · exact ofNat_ne_separator (le_lowerIn lowerRuns_above hc)

/-- The lower case of a character has no separators. -/
theorem separator_not_mem_lowerForm {c : Char} (h : c ≠ separator) : separator ∉ lowerForm c := by
  unfold lowerForm
  split
  · decide
  · intro hmem
    exact lowerChar_ne_separator h (List.mem_singleton.mp hmem).symm

/-- The lower-case form of a character in front of a text. -/
def formAt (afterCased : Bool) (c : Char) (cs : Text) : Text :=
  if c.toNat = 0x3A3 then [Char.ofNat (if afterCased && !casedNext cs then 0x3C2 else 0x3C3)]
  else lowerForm c

/-- A text is put into lower case one character after another, each in view of those before it and behind
it. -/
theorem lowerFrom_cons (afterCased : Bool) (c : Char) (cs : Text) :
    lowerFrom afterCased (c :: cs) = formAt afterCased c cs
      ++ lowerFrom (if isCaseIgnorable c then afterCased else isCased c) cs := rfl

/-- No character disappears in lower case. -/
theorem formAt_ne_nil (afterCased : Bool) (c : Char) (cs : Text) : formAt afterCased c cs ≠ [] := by
  unfold formAt lowerForm
  split
  · simp
  · split <;> simp

/-- No character becomes a separator in lower case, whatever stands around it. -/
theorem separator_not_mem_formAt {c : Char} (h : c ≠ separator) (afterCased : Bool) (cs : Text) :
    separator ∉ formAt afterCased c cs := by
  unfold formAt
  split
  · split <;> decide
  · exact separator_not_mem_lowerForm h

/-- Lower case of a sigma does not look through a separator. -/
@[simp] theorem isCaseIgnorable_separator : isCaseIgnorable separator = false := by decide

/-- A separator is no cased character. -/
@[simp] theorem isCased_separator : isCased separator = false := by decide

/-- A separator hides what comes after it from a sigma. -/
theorem casedNext_append_separator (t u : Text) :
    casedNext (t ++ separator :: u) = casedNext t := by
  induction t with
  | nil => simp [casedNext]
  | cons c cs ih =>
    unfold casedNext at ih ⊢
    by_cases hc : isCaseIgnorable c
    · simpa [hc] using ih
    · simp [hc]

/-- A separator parts a text into two that are lower-cased on their own. -/
theorem lowerFrom_append_separator (afterCased : Bool) (t u : Text) :
    lowerFrom afterCased (t ++ separator :: u)
      = lowerFrom afterCased t ++ separator :: lowerFrom false u := by
  induction t generalizing afterCased with
  | nil =>
    have hform : formAt afterCased separator u = [separator] := rfl
    rw [List.nil_append, lowerFrom_cons, hform, isCaseIgnorable_separator, isCased_separator]
    rfl
  | cons c cs ih =>
    have hform : formAt afterCased c (cs ++ separator :: u) = formAt afterCased c cs := by
      rw [formAt, casedNext_append_separator, formAt]
    rw [List.cons_append, lowerFrom_cons, lowerFrom_cons, hform, ih, List.append_assoc]

/-- A text is put into lower case on both sides of a separator. -/
theorem lower_append_separator (t u : Text) :
    lower (t ++ separator :: u) = lower t ++ separator :: lower u :=
  lowerFrom_append_separator false t u

/-- A separator in front stays in front. -/
theorem lower_separator_cons (t : Text) : lower (separator :: t) = separator :: lower t :=
  lower_append_separator [] t

/-- Only the empty text is empty in lower case. -/
@[simp] theorem lower_eq_nil_iff {t : Text} : lower t = [] ↔ t = [] := by
  cases t with
  | nil => simp
  | cons c cs =>
    have hform := formAt_ne_nil false c cs
    simp [lower, lowerFrom_cons, hform]

/-- Where there are no separators, there are none in lower case, whatever stands in front. -/
theorem separator_not_mem_lowerFrom {t : Text} (h : separator ∉ t) (afterCased : Bool) :
    separator ∉ lowerFrom afterCased t := by
  induction t generalizing afterCased with
  | nil => exact List.not_mem_nil
  | cons c cs ih =>
    have hc : c ≠ separator := fun e => h (e ▸ List.mem_cons_self)
    have hcs : separator ∉ cs := fun hm => h (List.mem_cons_of_mem _ hm)
    rw [lowerFrom_cons, List.mem_append, not_or]
    exact ⟨separator_not_mem_formAt hc afterCased cs, ih hcs _⟩

/-- Where there are no separators, there are none in lower case. -/
theorem separator_not_mem_lower {t : Text} (h : separator ∉ t) : separator ∉ lower t :=
  separator_not_mem_lowerFrom h false

/-- Lower-casing puts no separator at the front. -/
theorem head?_lower {t : Text} (h : t.head? ≠ some separator) :
    (lower t).head? ≠ some separator := by
  cases t with
  | nil => exact h
  | cons c cs =>
    have hc : c ≠ separator := fun e => h (by rw [e, List.head?_cons])
    obtain ⟨d, ds, hform⟩ := List.exists_cons_of_ne_nil (formAt_ne_nil false c cs)
    have hd := separator_not_mem_formAt hc false cs
    rw [hform] at hd
    rw [lower, lowerFrom_cons, hform, List.cons_append, List.head?_cons]
    intro e
    exact hd (Option.some.inj e ▸ List.mem_cons_self)

/-- What a text with another last character than a separator is lower-cased to ends in no
separator. -/
theorem getLast?_lowerFrom_concat {c : Char} (hc : c ≠ separator) (afterCased : Bool) (t : Text) :
    (lowerFrom afterCased (t ++ [c])).getLast? ≠ some separator := by
  induction t generalizing afterCased with
  | nil =>
    rw [List.nil_append, lowerFrom_cons, lowerFrom, List.append_nil]
    intro h
    exact separator_not_mem_formAt hc afterCased [] (List.mem_of_getLast? h)
  | cons d ds ih =>
    rw [List.cons_append, lowerFrom_cons, List.getLast?_append]
    have hrest := ih (if isCaseIgnorable d then afterCased else isCased d)
    cases hlast : (lowerFrom (if isCaseIgnorable d then afterCased else isCased d)
        (ds ++ [c])).getLast? with
    | some e =>
      rw [hlast] at hrest
      exact hrest
    | none =>
      have hnil := List.getLast?_eq_none_iff.mp hlast
      cases ds <;> simp [lowerFrom_cons, formAt_ne_nil] at hnil

/-- Lower-casing puts no separator at the end. -/
theorem getLast?_lower {t : Text} (h : t.getLast? ≠ some separator) :
    (lower t).getLast? ≠ some separator := by
  rcases List.eq_nil_or_concat t with rfl | ⟨cs, c, rfl⟩
  · exact h
  · have hc : c ≠ separator := fun e => h (by rw [e, List.concat_eq_append, List.getLast?_concat])
    rw [List.concat_eq_append]
    exact getLast?_lowerFrom_concat hc false cs

/-- Only the dotted capital I has two characters in lower case, and an i is the first of them. -/
theorem length_lowerFrom {t : Text} {afterCased : Bool} (h : 'i' ∉ lowerFrom afterCased t) :
    (lowerFrom afterCased t).length = t.length := by
  induction t generalizing afterCased with
  | nil => rfl
  | cons c cs ih =>
    rw [lowerFrom_cons, List.mem_append, not_or] at h
    have hform : (formAt afterCased c cs).length = 1 := by
      have hi := h.1
      unfold formAt lowerForm at hi ⊢
      split
      · rfl
      · next hsigma =>
        rw [if_neg hsigma] at hi
        split
        · next hdotted =>
          rw [if_pos hdotted] at hi
          exact absurd List.mem_cons_self hi
        · rfl
    rw [lowerFrom_cons, List.length_append, hform, ih h.2, List.length_cons]
    omega

/-- Pieces are lower-cased one by one. -/
theorem lower_glue (ps : List Text) : lower (glue separator ps) = glue separator (ps.map lower) := by
  induction ps with
  | nil => rfl
  | cons p ps ih =>
    cases ps with
    | nil => simp [glue_singleton]
    | cons q qs =>
      rw [glue_cons_cons, lower_append_separator, ih]
      simp [glue_cons_cons]

end PhpPrefixer.Text

namespace PhpPrefixer.Name

/-- A name is lower-cased segment by segment. -/
theorem segments_lower (name : Text) : segments (Text.lower name) = (segments name).map Text.lower := by
  have hglue := Text.lower_glue (segments name)
  rw [glue_segments] at hglue
  rw [hglue]
  apply Text.pieces_glue
  · simpa using segments_ne_nil name
  · intro p hp
    obtain ⟨q, hq, rfl⟩ := List.mem_map.mp hp
    exact Text.separator_not_mem_lower (Text.sep_not_mem_of_mem_pieces hq)

end PhpPrefixer.Name
