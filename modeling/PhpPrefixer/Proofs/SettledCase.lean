import PhpPrefixer.Proofs.LowerCase

/-!
# Lower-casing twice

A character is settled if lower-casing keeps it, wherever it stands. Every character of a lower-cased
text is settled: no run of capital letters meets the lower-case forms that another one leads to
(`lowerRuns_apart`). So lower-casing a text again changes nothing: `lower_lower`.
-/

namespace PhpPrefixer.Text

/-- Whether a code point is one of the capital letters of a run. -/
def InRun (run : Nat × Nat × Nat × Nat) (n : Nat) : Prop :=
  run.1 ≤ n ∧ n ≤ run.2.1 ∧ (n - run.1) % run.2.2.1 = 0

/-- A code point is kept, or it is a capital letter of some run. -/
theorem lowerIn_cases (runs : List (Nat × Nat × Nat × Nat)) (n : Nat) :
    lowerIn runs n = n
      ∨ ∃ run ∈ runs, InRun run n ∧ lowerIn runs n = run.2.2.2 + (n - run.1) := by
  unfold lowerIn
  split
  · next first last stride target hfound =>
    have hmem := List.mem_of_find?_eq_some hfound
    have hrun := List.find?_some hfound
    simp only [Bool.and_eq_true, decide_eq_true_eq] at hrun
    exact .inr ⟨_, hmem, ⟨hrun.1.1, hrun.1.2, hrun.2⟩, rfl⟩
  · exact .inl rfl

/-- A code point in no run is its own lower case. -/
theorem lowerIn_of_not_inRun {runs : List (Nat × Nat × Nat × Nat)} {n : Nat}
    (h : ∀ run ∈ runs, ¬InRun run n) : lowerIn runs n = n := by
  obtain hkept | ⟨run, hmem, hrun, -⟩ := lowerIn_cases runs n
  · exact hkept
  · exact absurd hrun (h run hmem)

/-- Whether the lower-case forms of a run are seen to be no capital letters of another one: they lie
before it or after it, or between its letters, of which every second code point is one. -/
def areApart (run other : Nat × Nat × Nat × Nat) : Bool :=
  Nat.blt (run.2.2.2 + (run.2.1 - run.1)) other.1 || Nat.blt other.2.1 run.2.2.2
    || (run.1 = run.2.1 || run.2.2.1 = 2) && other.2.2.1 = 2 && run.2.2.2 % 2 ≠ other.1 % 2

/-- Runs that are apart do not lead into each other. -/
theorem not_inRun_of_areApart {run other : Nat × Nat × Nat × Nat} {n : Nat}
    (h : areApart run other = true) (hn : InRun run n) :
    ¬InRun other (run.2.2.2 + (n - run.1)) := by
  obtain ⟨first, last, stride, target⟩ := run
  obtain ⟨first', last', stride', target'⟩ := other
  simp only [areApart, Nat.blt_eq, Bool.or_eq_true, Bool.and_eq_true, decide_eq_true_eq,
    decide_not, Bool.not_eq_true', decide_eq_false_iff_not] at h
  obtain ⟨hfirst, hlast, hstride⟩ := hn
  rintro ⟨hfirst', hlast', hstride'⟩
  dsimp only at *
  obtain (hbefore | hafter) | ⟨⟨hstep, rfl⟩, hparity⟩ := h
  · omega
  · omega
  · have heven : (n - first) % 2 = 0 := by
      obtain rfl | rfl := hstep
      · omega
      · exact hstride
    omega

/-- The dotted capital I, which is in no run of the table. -/
def dottedRun : Nat × Nat × Nat × Nat := (0x130, 0x130, 1, 0x69)

/-- The runs of the table are apart, and apart from the letter with a dot. -/
theorem lowerRuns_apart {run other : Nat × Nat × Nat × Nat} (h : run ∈ lowerRuns)
    (hother : other ∈ dottedRun :: lowerRuns) : areApart run other = true := by
  have hall : lowerRuns.all (fun r => (dottedRun :: lowerRuns).all (areApart r)) = true := by
    decide +kernel
  exact List.all_eq_true.mp (List.all_eq_true.mp hall run h) other hother

/-- Lower-casing keeps a character, wherever it stands. -/
def IsSettled (c : Char) : Prop := c.toNat ≠ 0x3A3 ∧ lowerForm c = [c]

instance (c : Char) : Decidable (IsSettled c) := inferInstanceAs (Decidable (_ ∧ _))

/-- A number that is no code point gives the null character. -/
theorem toNat_ofNat (n : Nat) : (Char.ofNat n).toNat = n ∨ Char.ofNat n = '\x00' := by
  by_cases hvalid : n.isValidChar
  · left
    rw [Char.ofNat, dif_pos hvalid]
    rfl
  · right
    rw [Char.ofNat, dif_neg hvalid]
    rfl

/-- Beyond the capital letters of ASCII, its lower case changes nothing. -/
theorem toLower_of_le {c : Char} (h : 93 ≤ c.toNat) : c.toLower = c := by
  unfold Char.toLower
  split
  · next hupper =>
    have hhigh : c.toNat ≤ 90 := UInt32.le_iff_toNat_le.mp hupper.2
    omega
  · rfl

/-- A character above the ASCII capitals is settled if it is a capital letter of no run. -/
theorem isSettled_of_not_inRun {c : Char} (hlow : 93 ≤ c.toNat)
    (h : ∀ run ∈ dottedRun :: lowerRuns, ¬InRun run c.toNat) : IsSettled c := by
  have hdotted : c.toNat ≠ 0x130 := fun e =>
    h dottedRun List.mem_cons_self (by rw [e]; exact ⟨by decide, by decide, by decide⟩)
  have hsigma : c.toNat ≠ 0x3A3 := fun e =>
    h (931, 939, 1, 963) (by decide) (by rw [e]; exact ⟨by decide, by decide, by decide⟩)
  have hkept : lowerIn lowerRuns c.toNat = c.toNat :=
    lowerIn_of_not_inRun fun run hrun => h run (List.mem_cons_of_mem _ hrun)
  refine ⟨hsigma, ?_⟩
  rw [lowerForm, if_neg hdotted, lowerChar]
  split
  · rw [toLower_of_le hlow]
  · rw [hkept, Char.ofNat_toNat]

/-- What holds of the first 128 code points holds of every ASCII character. -/
theorem of_isAscii {P : Char → Prop} (h : ∀ n < 128, P (Char.ofNat n)) {c : Char}
    (hc : isAscii c = true) : P c := by
  have hnat : c.toNat < 128 := by simpa [isAscii] using hc
  have hp := h c.toNat hnat
  rwa [Char.ofNat_toNat] at hp

/-- A character of ASCII is settled in lower case. -/
theorem isSettled_toLower {c : Char} (h : isAscii c = true) : IsSettled c.toLower := by
  have hall : ∀ n < 128, IsSettled (Char.ofNat n).toLower := by decide +kernel
  exact of_isAscii (P := fun d => IsSettled d.toLower) hall h

/-- Lower-case forms beyond ASCII are settled. -/
theorem isSettled_lowerIn {c : Char} (hascii : ¬isAscii c = true) (hdotted : c.toNat ≠ 0x130)
    (hsigma : c.toNat ≠ 0x3A3) : IsSettled (Char.ofNat (lowerIn lowerRuns c.toNat)) := by
  have hc : ¬c.toNat < 128 := by simpa [isAscii] using hascii
  obtain hkept | ⟨run, hmem, hrun, htarget⟩ := lowerIn_cases lowerRuns c.toNat
  · rw [hkept, Char.ofNat_toNat]
    refine ⟨hsigma, ?_⟩
    rw [lowerForm, if_neg hdotted, lowerChar, if_neg hascii, if_neg hdotted, hkept,
      Char.ofNat_toNat]
  · have hlow := lowerRuns_above run hmem
    obtain hnat | hnull := toNat_ofNat (lowerIn lowerRuns c.toNat)
    · refine isSettled_of_not_inRun (by omega) fun other hother => ?_
      rw [hnat, htarget]
      exact not_inRun_of_areApart (lowerRuns_apart hmem hother) hrun
    · rw [hnull]
      decide

/-- Every character of a lower case is settled, but for sigma. -/
theorem isSettled_of_mem_lowerForm {c d : Char} (hsigma : c.toNat ≠ 0x3A3) (h : d ∈ lowerForm c) :
    IsSettled d := by
  unfold lowerForm at h
  split at h
  · have hletter : IsSettled 'i' := by decide +kernel
    have hdot : IsSettled (Char.ofNat 0x307) := by decide +kernel
    simp only [List.mem_cons, List.not_mem_nil, or_false] at h
    obtain rfl | rfl := h
    · exact hletter
    · exact hdot
  · next hdotted =>
    rw [List.mem_singleton.mp h, lowerChar]
    split
    · next hascii => exact isSettled_toLower hascii
    · next hascii => exact isSettled_lowerIn hascii hdotted hsigma

/-- Every character of a lower case is settled, that of a sigma included, whatever stands around it. -/
theorem isSettled_of_mem_formAt {afterCased : Bool} {c d : Char} {cs : Text}
    (h : d ∈ formAt afterCased c cs) : IsSettled d := by
  unfold formAt at h
  split at h
  · have hall : IsSettled (Char.ofNat 0x3C2) ∧ IsSettled (Char.ofNat 0x3C3) := by decide +kernel
    rw [List.mem_singleton.mp h]
    split
    · exact hall.1
    · exact hall.2
  · next hsigma => exact isSettled_of_mem_lowerForm hsigma h

/-- Every character of a lower-cased text is settled. -/
theorem isSettled_of_mem_lowerFrom {t : Text} {afterCased : Bool} {d : Char}
    (h : d ∈ lowerFrom afterCased t) : IsSettled d := by
  induction t generalizing afterCased with
  | nil => cases h
  | cons c cs ih =>
    rw [lowerFrom_cons] at h
    obtain hform | hrest := List.mem_append.mp h
    · exact isSettled_of_mem_formAt hform
    · exact ih hrest

/-- Settled characters stay as they are. -/
theorem lowerFrom_of_isSettled {t : Text} (h : ∀ c ∈ t, IsSettled c) (afterCased : Bool) :
    lowerFrom afterCased t = t := by
  induction t generalizing afterCased with
  | nil => rfl
  | cons c cs ih =>
    obtain ⟨hsigma, hform⟩ := h c List.mem_cons_self
    rw [lowerFrom_cons, formAt, if_neg hsigma, hform,
      ih (fun d hd => h d (List.mem_cons_of_mem _ hd)), List.singleton_append]

/-- Lower-casing a text twice is lower-casing it once. -/
@[simp] theorem lower_lower (t : Text) : lower (lower t) = lower t :=
  lowerFrom_of_isSettled (fun _ hd => isSettled_of_mem_lowerFrom hd) false

end PhpPrefixer.Text
