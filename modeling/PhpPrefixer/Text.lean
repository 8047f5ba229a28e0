/-!
# Texts

A text is kept as the list of its characters, the form in which its laws are stated. This module
has the operations that do not depend on a character class: trimming, cutting at a separator, and
putting pieces together again. Cutting loses nothing (`glue_pieces`), and no piece holds the
separator (`sep_not_mem_of_mem_pieces`).
-/

namespace PhpPrefixer

/-- A text is the list of its characters. -/
abbrev Text := List Char

namespace Text

/-- The text without the characters satisfying `p` at its end. -/
def trimEnd (p : Char → Bool) (t : Text) : Text :=
  (t.reverse.dropWhile p).reverse

/-- The text without the characters satisfying `p` at its two ends. -/
def trim (p : Char → Bool) (t : Text) : Text :=
  trimEnd p (t.dropWhile p)

/-- The pieces of a text between the occurrences of `sep`. There is always at least one. -/
def pieces (sep : Char) : Text → List Text
  | [] => [[]]
  | c :: cs =>
    if c = sep then [] :: pieces sep cs
    else
      match pieces sep cs with
      | [] => [[c]]
      | p :: ps => (c :: p) :: ps

/-- The pieces in a row, with `sep` between neighbours. -/
def glue (sep : Char) (ps : List Text) : Text :=
  [sep].intercalate ps

/-- What stands before and after the first occurrence of `mark`. -/
def cut? (mark : Text) : Text → Option (Text × Text)
  | [] => if mark = [] then some ([], []) else none
  | c :: cs =>
    if mark.isPrefixOf (c :: cs) then some ([], (c :: cs).drop mark.length)
    else (cut? mark cs).map fun (before, after) => (c :: before, after)

/-- The text with `inserted` in front of each character that satisfies `p`. -/
def escape (p : Char → Bool) (inserted : Char) (t : Text) : Text :=
  t.flatMap fun c => if p c then [inserted, c] else [c]

/-- Whether a test holds of a text or of the text without a line break at its end. -/
def holdsOfLine (test : Text → Bool) (t : Text) : Bool :=
  test t || (t.getLast? = some '\n' && test t.dropLast)

/-- Every text has a piece. -/
theorem pieces_ne_nil (sep : Char) (t : Text) : pieces sep t ≠ [] := by
  cases t with
  | nil => simp [pieces]
  | cons c cs =>
    unfold pieces
    split
    · simp
    · split <;> simp

/-- In front of a leading separator is an empty piece. -/
theorem pieces_sep_cons (sep : Char) (t : Text) :
    pieces sep (sep :: t) = [] :: pieces sep t := by
  simp [pieces]

/-- A text without the separator is its own only piece. -/
theorem pieces_of_not_mem {sep : Char} {t : Text} (h : sep ∉ t) : pieces sep t = [t] := by
  induction t with
  | nil => rfl
  | cons c cs ih =>
    have hc : c ≠ sep := fun e => h (e ▸ List.mem_cons_self ..)
    have ht : sep ∉ cs := fun m => h (List.mem_cons_of_mem _ m)
    simp [pieces, hc, ih ht]

/-- The separator ends the last piece of what stands before it. -/
theorem pieces_append_sep (sep : Char) (t u : Text) :
    pieces sep (t ++ sep :: u) = pieces sep t ++ pieces sep u := by
  induction t with
  | nil => simp [pieces]
  | cons c cs ih =>
    by_cases hc : c = sep
    · simp [pieces, hc, ih]
    · have hne := pieces_ne_nil sep cs
      cases hp : pieces sep cs with
      | nil => exact absurd hp hne
      | cons p ps => simp [pieces, hc, ih, hp]

/-- One piece is glued to nothing. -/
theorem glue_singleton (sep : Char) (t : Text) : glue sep [t] = t := by
  simp [glue, List.intercalate]

/-- A separator stands behind every piece but the last one. -/
theorem glue_cons_cons (sep : Char) (t u : Text) (ts : List Text) :
    glue sep (t :: u :: ts) = t ++ sep :: glue sep (u :: ts) := by
  simp [glue, List.intercalate]

/-- Cutting a text into pieces loses nothing. -/
theorem glue_pieces (sep : Char) (t : Text) : glue sep (pieces sep t) = t := by
  induction t with
  | nil => rfl
  | cons c cs ih =>
    have hne := pieces_ne_nil sep cs
    cases hp : pieces sep cs with
    | nil => exact absurd hp hne
    | cons p ps =>
      rw [hp] at ih
      by_cases hc : c = sep
      · simp [pieces, hc, hp, glue_cons_cons, ih]
      · cases ps with
        | nil => simp [pieces, hc, hp, glue_singleton] at ih ⊢; exact ih
        | cons q qs => simp [pieces, hc, hp, glue_cons_cons] at ih ⊢; exact ih

/-- No piece holds the separator. -/
theorem sep_not_mem_of_mem_pieces {sep : Char} {t p : Text} (h : p ∈ pieces sep t) : sep ∉ p := by
  induction t generalizing p with
  | nil => simp [pieces] at h; simp [h]
  | cons c cs ih =>
    by_cases hc : c = sep
    · simp [pieces, hc] at h
      rcases h with rfl | h
      · simp
      · exact ih h
    · cases hp : pieces sep cs with
      | nil => exact absurd hp (pieces_ne_nil sep cs)
      | cons q qs =>
        rw [hp] at ih
        simp [pieces, hc, hp] at h
        rcases h with rfl | h
        · have hq := @ih q (List.mem_cons_self ..)
          intro m
          rcases List.mem_cons.mp m with e | m
          · exact hc e.symm
          · exact hq m
        · exact ih (List.mem_cons_of_mem _ h)

/-- Pieces without the separator come back unchanged. -/
theorem pieces_glue {sep : Char} {ps : List Text} (hne : ps ≠ []) (h : ∀ p ∈ ps, sep ∉ p) :
    pieces sep (glue sep ps) = ps := by
  induction ps with
  | nil => exact absurd rfl hne
  | cons p ps ih =>
    cases ps with
    | nil => simpa [glue_singleton] using pieces_of_not_mem (h p (List.mem_cons_self ..))
    | cons q qs =>
      rw [glue_cons_cons, pieces_append_sep, pieces_of_not_mem (h p (List.mem_cons_self ..)),
        ih (by simp) (fun r hr => h r (List.mem_cons_of_mem _ hr))]
      rfl

end Text

end PhpPrefixer
