import Mathlib.Data.List.TakeWhile
import PhpPrefixer.Proofs.HandFiles
import PhpPrefixer.Proofs.PlanRuns
import PhpPrefixer.Proofs.Quotes

/-!
# The line in front of the code

A file can start with a line that names an interpreter. The line ends with the first end of a line in the
file, where a carriage return and a line feed behind it count as one, and a file without any end of a line
has no such line. What is behind the line is treated as if it were the file, and the line is put in front
of the result: `Prefixer.first_line_kept`.

The two treatments start with different numbers of levels, since there may be quotes in the line. That
does not matter, as the number of levels never does (`Prefixer.treat_eq_treatOnce`).
-/

namespace PhpPrefixer

namespace Recognition

/-- The ends of a line. A carriage return and a line feed behind it are one end. -/
def lineEnds : List Text := [['\r', '\n'], ['\n'], ['\r']]

/-- A text in front of `rest` is one line with its end, and the end goes on no further. -/
def IsLine (line rest : Text) : Prop :=
  ∃ body stop, line = body ++ stop ∧ (∀ c ∈ body, isLineEnd c = false) ∧ stop ∈ lineEnds
    ∧ (stop = ['\r'] → rest.head? ≠ some '\n')

variable {t line rest contents : Text}

/-- A line ends with a carriage return or a line feed. -/
theorem isLineEnd_iff {c : Char} : isLineEnd c = true ↔ c = '\r' ∨ c = '\n' := by simp [isLineEnd]

/-- A character that ends no line may be put in front of a line. -/
theorem IsLine.cons (h : IsLine line rest) {c : Char} (hc : isLineEnd c = false) :
    IsLine (c :: line) rest := by
  obtain ⟨body, stop, rfl, hbody, hstop⟩ := h
  exact ⟨c :: body, stop, rfl, List.forall_mem_cons.mpr ⟨hc, hbody⟩, hstop⟩

/-- What is cut off a text is a line. -/
theorem isLine_of_cutLine? (h : cutLine? t = some (line, rest)) : IsLine line rest := by
  have hbody : ∀ c ∈ t.takeWhile fun c => !isLineEnd c, isLineEnd c = false := fun c hc => by
    simpa using List.mem_takeWhile_imp hc
  have hfirst := List.head?_dropWhile_not (fun c => !isLineEnd c) t
  unfold cutLine? at h
  generalize t.dropWhile (fun c => !isLineEnd c) = tail at h hfirst
  split at h
  · cases h
    exact ⟨_, _, rfl, hbody, by simp [lineEnds], fun hlone => by simp at hlone⟩
  · next c behind hpair =>
    cases h
    have hc : c = '\r' ∨ c = '\n' := isLineEnd_iff.mp (by simpa using hfirst)
    refine ⟨_, _, rfl, hbody, by obtain rfl | rfl := hc <;> simp [lineEnds], fun hlone hhead => ?_⟩
    obtain ⟨further, hfurther⟩ := List.head?_eq_some_iff.mp hhead
    exact hpair further (List.singleton_inj.mp hlone) hfurther
  · cases h

/-- A text can be cut after its first line if the line has an end. -/
theorem cutLine?_eq_none_iff : cutLine? t = none ↔ ∀ c ∈ t, isLineEnd c = false := by
  have hnil : t.dropWhile (fun c => !isLineEnd c) = [] ↔ ∀ c ∈ t, isLineEnd c = false := by
    simp [List.dropWhile_eq_nil_iff]
  rw [← hnil, cutLine?]
  split
  · next htail => simp [htail]
  · next htail => simp [htail]
  · next htail => simp [htail]

/-- A file that does not start with the mark of an interpreter is all code. -/
theorem splitShebang_of_unmarked (h : ¬['#', '!'] <+: contents) :
    splitShebang contents = ([], contents) := by
  unfold splitShebang
  split
  · next t => exact absurd ⟨t, rfl⟩ h
  · rfl

/-- A file starts with such a line if it starts with the mark and has an end of a line. -/
theorem line_ne_nil_iff : (splitShebang contents).1 ≠ []
    ↔ ['#', '!'] <+: contents ∧ ∃ c ∈ contents, isLineEnd c = true := by
  by_cases hmark : ['#', '!'] <+: contents
  · obtain ⟨t, rfl⟩ := hmark
    have hends : (∃ c ∈ ['#', '!'] ++ t, isLineEnd c = true) ↔ cutLine? t ≠ none := by
      have hmark : isLineEnd '#' = false ∧ isLineEnd '!' = false := ⟨rfl, rfl⟩
      rw [Ne, cutLine?_eq_none_iff]
      simp [hmark]
    rw [hends]
    cases hcut : cutLine? t with
    | none => simp [splitShebang, hcut]
    | some parts => simp [splitShebang, hcut]
  · simp [splitShebang_of_unmarked hmark, hmark]

/-- What is split off a file is a line. -/
theorem isLine_splitShebang (h : (splitShebang contents).1 ≠ []) :
    IsLine (splitShebang contents).1 (splitShebang contents).2 := by
  obtain ⟨⟨t, rfl⟩, -⟩ := line_ne_nil_iff.mp h
  cases hcut : cutLine? t with
  | none => simp [splitShebang, hcut] at h
  | some parts =>
    have hline := ((isLine_of_cutLine? hcut).cons (c := '!') rfl).cons (c := '#') rfl
    simpa [splitShebang, hcut] using hline

end Recognition

namespace Prefixer

open Recognition

variable {p : Prefixer} {whitelist : Whitelist} {path contents : Text}

/-- A file of code is treated like the code behind its first line, and the line is put in front. -/
theorem treat_eq_behind_line (hpath : Path.matchesAny path p.extensions = true)
    (hcode : ¬['#', '!'] <+: (splitShebang contents).2) (given : Option Text) :
    p.treat whitelist path given contents = do
      let moved ← p.treat whitelist path given (splitShebang contents).2
      return (splitShebang contents).1 ++ moved := by
  have hholds : ∀ t, holdsCode p.extensions path t = true := fun t => by simp [holdsCode, hpath]
  rw [treat_eq_treatOnce, treat_eq_treatOnce p whitelist path given (splitShebang contents).2, treatOnce,
    treatOnce, if_pos (hholds _), if_pos (hholds _), splitShebang_of_unmarked hcode]
  cases Prefix.validate given with
  | error e => rfl
  | ok root => simp

/-- The line that names an interpreter is kept. A file is this line and its code, and nothing else; there
is such a line just if the file starts with the mark and has an end of a line, and the line goes up to the
first one. With and without the line, a file of code ends in the same way: with the same failure, or with
texts that differ by the line. The run is the same afterwards, its renames and what was told. -/
theorem first_line_kept (contents : Text) :
    let line := (splitShebang contents).1
    let code := (splitShebang contents).2
    line ++ code = contents
      ∧ (line ≠ [] ↔ ['#', '!'] <+: contents ∧ ∃ c ∈ contents, isLineEnd c = true)
      ∧ (line ≠ [] → IsLine line code)
      ∧ ∀ (p : Prefixer) (whitelist : Whitelist) (path : Text) (given : Option Text) (run : Run),
        Path.matchesAny path p.extensions = true → ¬['#', '!'] <+: code →
          let whole := (p.treat whitelist path given contents).run run
          let behind := (p.treat whitelist path given code).run run
          (∀ t, whole.1 = .ok t ↔ ∃ moved, behind.1 = .ok moved ∧ t = line ++ moved)
            ∧ (∀ f, whole.1 = .error f ↔ behind.1 = .error f)
            ∧ whole.2 = behind.2 := by
  intro line code
  refine ⟨splitShebang_append contents, line_ne_nil_iff, isLine_splitShebang, ?_⟩
  intro p whitelist path given run hpath hcode whole behind
  have hwhole : whole = (behind.1.map (line ++ ·), behind.2) := by
    rw [show whole = (p.treat whitelist path given contents).run run from rfl,
      treat_eq_behind_line hpath hcode, Plan.run_return]
  rw [hwhole]
  cases behind.1 with
  | ok moved => simp [Except.map, eq_comm]
  | error f => simp [Except.map]

/-- The treatment of the code that creates an object of a global class. -/
def treatedInGlobal : Plan Text :=
  HandFile.inGlobal.prefixer.treat .empty "bin/tool.PHP".toList (some "Humbug".toList)
    HandFile.inGlobal.code.toList

/-- The file is given its namespace, and its class is recorded. -/
theorem treatedInGlobal_ends :
    treatedInGlobal.renames
        = [⟨"Foo".toList, "Humbug\\Foo".toList, .classLike, some "bin/tool.PHP".toList⟩]
      ∧ treatedInGlobal.outcome = .ok "<?php namespace Humbug;\n\nnew Foo;\n".toList := by
  have hends : treatedInGlobal.renames
        = [⟨"Foo".toList, "Humbug\\Foo".toList, .classLike, some "bin/tool.PHP".toList⟩]
      ∧ treatedInGlobal.outcome.toOption
        = some "<?php namespace Humbug;\n\nnew Foo;\n".toList := by
    unfold treatedInGlobal treat treatWithin moveCode walk
    simp only [Walk.through_eq]
    decide +kernel
  exact ⟨hends.1, eq_ok_of_toOption hends.2⟩

/-- A line that is ended by two characters and has quotes in it, in front of that code. -/
theorem first_line_kept_inGlobal :
    let line := "#!/usr/bin/php -d 'x=\"1\"'\r\n".toList
    let code := HandFile.inGlobal.code.toList
    let p := HandFile.inGlobal.prefixer
    let path := "bin/tool.PHP".toList
    let run : Run := ⟨.empty, .withThreshold .warning⟩
    splitShebang (line ++ code) = (line, code) ∧ IsLine line code
      ∧ Path.matchesAny path p.extensions = true ∧ ¬['#', '!'] <+: code
      ∧ ∃ run', (p.treat .empty path (some "Humbug".toList) (line ++ code)).run run
          = (.ok (line ++ "<?php namespace Humbug;\n\nnew Foo;\n".toList), run')
        ∧ run'.registry.records = [⟨"Foo".toList, "Humbug\\Foo".toList, .classLike, some path⟩] := by
  intro line code p path run
  have hsplit : splitShebang (line ++ code) = (line, code) := by decide +kernel
  have hpath : Path.matchesAny path p.extensions = true := by decide +kernel
  have hcode : ¬['#', '!'] <+: code := by decide +kernel
  obtain ⟨hrenames, hends⟩ := treatedInGlobal_ends
  have hrecorded : run.registry.recordAll treatedInGlobal.renames
      = (⟨[⟨"Foo".toList, "Humbug\\Foo".toList, .classLike, some path⟩]⟩, none) := by
    rw [hrenames]
    decide +kernel
  obtain ⟨run', hrun, hregistry⟩ := Plan.run_of_recorded hrecorded
  have hbehind : (p.treat .empty path (some "Humbug".toList) code).run run
      = (.ok "<?php namespace Humbug;\n\nnew Foo;\n".toList, run') := hends ▸ hrun
  obtain ⟨-, -, hline, htreat⟩ := first_line_kept (line ++ code)
  rw [hsplit] at hline htreat
  obtain ⟨hok, -, hsame⟩ := htreat p .empty path (some "Humbug".toList) run hpath hcode
  refine ⟨hsplit, hline (by decide), hpath, hcode, run', ?_, ?_⟩
  · rw [hbehind] at hok hsame
    exact Prod.ext ((hok _).mpr ⟨_, rfl, rfl⟩) hsame
  · rw [hregistry]

end Prefixer

end PhpPrefixer
