import Mathlib.Data.List.Induction
import PhpPrefixer.Prefix
import PhpPrefixer.Proofs.LowerCase

/-!
# The algebra of names

Names are put together by `Name.beside`, which joins two names by one separator and has the empty
name as its unit. Joining parts is a fold of it over the trimmed parts (`join_cons`), so moving a
name under a prefix and looking a name up in a namespace can be exchanged (`relocate_join`). The key
of a moved name is the lower-cased prefix beside the key of the name (`key_beside`), so symbols with
one key are moved to targets with one key (`key_relocate_congr`).
-/

namespace PhpPrefixer.Name

/-- No separator stands at either end of a text. -/
def IsTrimmed (t : Text) : Prop := t.head? ≠ some separator ∧ t.getLast? ≠ some separator

instance (t : Text) : Decidable (IsTrimmed t) := inferInstanceAs (Decidable (_ ∧ _))

/-- Segments that are not empty, with single separators between them and possibly one in front. -/
def WellFormed (name : Text) : Prop := ∀ s ∈ segments (bare name), s ≠ []

instance (name : Text) : Decidable (WellFormed name) :=
  inferInstanceAs (Decidable (∀ s ∈ segments (bare name), s ≠ []))

/-- One name after another, with a separator between them unless one of them is empty. -/
def beside (a b : Text) : Text :=
  if a = [] then b else if b = [] then a else a ++ separator :: b

/-- Nothing stands in front of a name beside the empty one. -/
@[simp] theorem nil_beside (b : Text) : beside [] b = b := by simp [beside]

/-- Nothing stands behind a name beside the empty one. -/
@[simp] theorem beside_nil (a : Text) : beside a [] = a := by
  unfold beside
  split
  · next h => exact h.symm
  · rfl

/-- Two names that are not empty stand beside each other with a separator between them. -/
theorem beside_of_ne_nil {a b : Text} (ha : a ≠ []) (hb : b ≠ []) :
    beside a b = a ++ separator :: b := by
  simp [beside, ha, hb]

/-- Only empty names give the empty name. -/
theorem beside_eq_nil_iff {a b : Text} : beside a b = [] ↔ a = [] ∧ b = [] := by
  by_cases ha : a = []
  · simp [ha]
  · by_cases hb : b = []
    · simp [ha, hb]
    · simp [beside_of_ne_nil ha hb, ha]

/-- It does not matter which of three names are put beside each other first. -/
theorem beside_assoc (a b c : Text) : beside (beside a b) c = beside a (beside b c) := by
  by_cases ha : a = []
  · simp [ha]
  · by_cases hb : b = []
    · simp [hb]
    · by_cases hc : c = []
      · simp [hc]
      · have hab : beside a b ≠ [] := fun h => ha (beside_eq_nil_iff.mp h).1
        have hbc : beside b c ≠ [] := fun h => hb (beside_eq_nil_iff.mp h).1
        rw [beside_of_ne_nil hab hc, beside_of_ne_nil ha hbc, beside_of_ne_nil ha hb,
          beside_of_ne_nil hb hc]
        simp

/-- Lower case goes through names that stand beside each other. -/
theorem lower_beside (a b : Text) : Text.lower (beside a b) = beside (Text.lower a) (Text.lower b) := by
  by_cases ha : a = []
  · simp [ha]
  · by_cases hb : b = []
    · simp [hb]
    · rw [beside_of_ne_nil ha hb, Text.lower_append_separator,
        beside_of_ne_nil (by simpa using ha) (by simpa using hb)]

/-- No separator is left in front where all of them were dropped. -/
theorem head?_dropWhile_separator (t : Text) :
    (t.dropWhile (· = separator)).head? ≠ some separator := by
  intro h
  have hfirst := List.head?_dropWhile_not (fun c : Char => decide (c = separator)) t
  rw [h] at hfirst
  simp at hfirst

/-- Where no separator stands in front, none is dropped. -/
theorem dropWhile_separator_of_head {t : Text} (h : t.head? ≠ some separator) :
    t.dropWhile (· = separator) = t := by
  cases t with
  | nil => rfl
  | cons c cs =>
    have hc : c ≠ separator := fun e => h (by simp [e])
    simp [hc]

/-- Trimming a name leaves no separators around it. -/
theorem isTrimmed_trimmed (t : Text) : IsTrimmed (trimmed t) := by
  have hstart := head?_dropWhile_separator t
  have hend := head?_dropWhile_separator (t.dropWhile (· = separator)).reverse
  have hsuffix := List.dropWhile_suffix (l := (t.dropWhile (· = separator)).reverse)
    (fun c => decide (c = separator))
  obtain ⟨dropped, hsplit⟩ := List.reverse_prefix.mpr hsuffix
  rw [List.reverse_reverse] at hsplit
  unfold trimmed Text.trim Text.trimEnd
  constructor
  · intro h
    rw [← hsplit, List.head?_append, h] at hstart
    exact hstart rfl
  · rw [List.getLast?_reverse]
    exact hend

/-- Trimming a name without separators around it changes nothing. -/
theorem trimmed_of_isTrimmed {t : Text} (h : IsTrimmed t) : trimmed t = t := by
  unfold trimmed Text.trim Text.trimEnd
  rw [dropWhile_separator_of_head h.1]
  have hend : t.reverse.head? ≠ some separator := by
    rw [List.head?_reverse]
    exact h.2
  rw [dropWhile_separator_of_head hend, List.reverse_reverse]

/-- Trimming takes a separator in front away. -/
theorem trimmed_separator_cons (t : Text) : trimmed (separator :: t) = trimmed t := by
  simp [trimmed, Text.trim]

/-- Trimming takes more away than a leading separator. -/
@[simp] theorem trimmed_bare (t : Text) : trimmed (bare t) = trimmed t := by
  cases t with
  | nil => rfl
  | cons c cs =>
    by_cases hc : c = separator
    · rw [hc, bare_separator_cons, trimmed_separator_cons]
    · simp [bare, hc]

/-- A name without a separator in front is bare. -/
theorem bare_of_head {t : Text} (h : t.head? ≠ some separator) : bare t = t := by
  cases t with
  | nil => rfl
  | cons c cs =>
    have hc : c ≠ separator := fun e => h (by simp [e])
    simp [bare, hc]

/-- A name without separators around it is bare. -/
theorem bare_of_isTrimmed {t : Text} (h : IsTrimmed t) : bare t = t := bare_of_head h.1

/-- Names without separators around them have none around them when they stand beside each other. -/
theorem isTrimmed_beside {a b : Text} (ha : IsTrimmed a) (hb : IsTrimmed b) :
    IsTrimmed (beside a b) := by
  by_cases hna : a = []
  · simpa [hna] using hb
  · by_cases hnb : b = []
    · simpa [hnb] using ha
    · rw [beside_of_ne_nil hna hnb]
      have hlast := hb.2
      rw [List.getLast?_eq_some_getLast hnb] at hlast
      constructor
      · obtain ⟨c, cs, rfl⟩ := List.exists_cons_of_ne_nil hna
        simpa using ha.1
      · rw [List.getLast?_append, List.getLast?_cons, List.getLast?_eq_some_getLast hnb]
        exact hlast

/-- Joining nothing gives the empty name. -/
@[simp] theorem join_nil : join [] = [] := rfl

/-- A part is put in front of the name the other parts are joined to. -/
theorem join_cons (part : Text) (parts : List Text) :
    join (part :: parts) = beside (trimmed part) (join parts) := by
  unfold join
  by_cases hp : trimmed part = []
  · simp [hp]
  · simp only [List.map_cons, List.filter_cons, decide_not, hp, decide_false, Bool.not_false, if_true]
    cases hrest : (parts.map trimmed).filter (fun t => !decide (t = [])) with
    | nil => simp [Text.glue, List.intercalate]
    | cons q qs =>
      have hq : q ≠ [] := by
        have hmem : q ∈ (parts.map trimmed).filter (fun t => !decide (t = [])) := by
          rw [hrest]
          exact List.mem_cons_self
        simpa using (List.mem_filter.mp hmem).2
      have hglue : Text.glue separator (q :: qs) ≠ [] := by
        cases qs with
        | nil => simpa [Text.glue_singleton] using hq
        | cons r rs => simp [Text.glue_cons_cons]
      rw [Text.glue_cons_cons, beside_of_ne_nil hp hglue]

/-- Joining one part trims it. -/
theorem join_singleton (part : Text) : join [part] = trimmed part := by
  rw [join_cons, join_nil, beside_nil]

/-- Joining two parts trims them and puts them beside each other. -/
theorem join_pair (a b : Text) : join [a, b] = beside (trimmed a) (trimmed b) := by
  rw [join_cons, join_singleton]

/-- Joining a part to nothing trims it. -/
theorem join_nil_left (t : Text) : join [[], t] = trimmed t := by
  rw [join_pair]
  exact nil_beside _

/-- What is joined has no separators around it. -/
theorem isTrimmed_join (parts : List Text) : IsTrimmed (join parts) := by
  induction parts with
  | nil => decide
  | cons part parts ih =>
    rw [join_cons]
    exact isTrimmed_beside (isTrimmed_trimmed part) ih

/-- A prefix as it is accepted. -/
structure IsRoot (root : Text) : Prop where
  /-- It is not empty. -/
  ne_nil : root ≠ []
  /-- It has no separators around it. -/
  isTrimmed : IsTrimmed root

/-- A prefix that was checked is one that names can be moved under. -/
theorem isRoot_of_validate {given root : Text} (h : Prefix.validate (some given) = .ok root) :
    IsRoot root := by
  obtain ⟨hnormal, hne, -⟩ := Prefix.validate_eq_ok_iff.mp h
  refine ⟨hne, ?_⟩
  rw [hnormal]
  exact isTrimmed_trimmed _

/-- A name is moved by putting it, trimmed, beside the prefix. -/
theorem relocate_eq_beside {root : Text} (h : IsRoot root) (name : Text) :
    relocate root name = beside root (trimmed name) := by
  rw [relocate, join_pair, trimmed_of_isTrimmed h.isTrimmed, trimmed_bare]

/-- A name that was moved has no separators around it. -/
theorem isTrimmed_relocate (root name : Text) : IsTrimmed (relocate root name) := isTrimmed_join _

/-- Looking a name up in a moved namespace gives what is found in the namespace, moved. -/
theorem relocate_join {root : Text} (h : IsRoot root) (space rest : Text) :
    join [relocate root space, rest] = relocate root (join [space, rest]) := by
  have hjoin := trimmed_of_isTrimmed (isTrimmed_join [space, rest])
  rw [relocate_eq_beside h (join [space, rest]), hjoin, join_pair, join_pair,
    trimmed_of_isTrimmed (isTrimmed_relocate root space), relocate_eq_beside h, beside_assoc]

/-- A well-formed name is not only a separator. -/
theorem WellFormed.bare_ne_nil {name : Text} (h : WellFormed name) : bare name ≠ [] := by
  intro hnil
  exact h [] (by rw [hnil]; exact List.mem_singleton.mpr rfl) rfl

/-- A well-formed name has no separators around it but one in front. -/
theorem WellFormed.isTrimmed_bare {name : Text} (h : WellFormed name) : IsTrimmed (bare name) := by
  constructor
  · intro hhead
    obtain ⟨cs, hcs⟩ := List.head?_eq_some_iff.mp hhead
    have hsegments : segments (bare name) = [] :: segments cs := by
      rw [hcs]
      exact Text.pieces_sep_cons separator cs
    exact h [] (by rw [hsegments]; exact List.mem_cons_self) rfl
  · intro hlast
    obtain ⟨cs, hcs⟩ := List.getLast?_eq_some_iff.mp hlast
    have hsegments : segments (bare name) = segments cs ++ [[]] := by
      rw [hcs]
      exact Text.pieces_append_sep separator cs []
    exact h [] (by rw [hsegments]; simp) rfl

/-- Segments that are not empty make a trimmed name, and not an empty one. -/
theorem trimmed_glue_ne_nil {ps : List Text} (hne : ps ≠ []) (h : ∀ p ∈ ps, p ≠ [])
    (hsep : ∀ p ∈ ps, separator ∉ p) : trimmed (Text.glue separator ps) ≠ [] := by
  obtain ⟨p, ps, rfl⟩ := List.exists_cons_of_ne_nil hne
  obtain ⟨c, cs, rfl⟩ := List.exists_cons_of_ne_nil (h p List.mem_cons_self)
  have hc : c ≠ separator := fun e => hsep _ List.mem_cons_self (by rw [e]; exact List.mem_cons_self)
  have hhead : (Text.glue separator ((c :: cs) :: ps)).head? ≠ some separator := by
    cases ps with
    | nil => simpa [Text.glue_singleton] using hc
    | cons q qs => simpa [Text.glue_cons_cons] using hc
  have hwell : WellFormed (Text.glue separator ((c :: cs) :: ps)) := by
    intro s hs
    rw [bare_of_head hhead, segments, Text.pieces_glue hne hsep] at hs
    exact h s hs
  rw [← trimmed_bare, trimmed_of_isTrimmed hwell.isTrimmed_bare]
  exact hwell.bare_ne_nil

/-- Lower case leaves a leading separator. -/
theorem lower_bare (t : Text) : Text.lower (bare t) = bare (Text.lower t) := by
  by_cases h : t.head? = some separator
  · obtain ⟨cs, rfl⟩ : ∃ cs, t = separator :: cs := by
      cases t with
      | nil => simp at h
      | cons c cs => exact ⟨cs, by simpa using h⟩
    rw [bare_separator_cons, Text.lower_separator_cons, bare_separator_cons]
  · rw [bare_of_head h, bare_of_head (Text.head?_lower h)]

/-- Lower case leaves the separators that are dropped in front. -/
theorem lower_dropWhile_separator (t : Text) :
    Text.lower (t.dropWhile (· = separator)) = (Text.lower t).dropWhile (· = separator) := by
  induction t with
  | nil => rfl
  | cons c cs ih =>
    by_cases hc : c = separator
    · rw [hc, Text.lower_separator_cons]
      simpa using ih
    · have hhead : (c :: cs).head? ≠ some separator := by simpa using hc
      rw [dropWhile_separator_of_head hhead,
        dropWhile_separator_of_head (Text.head?_lower hhead)]

/-- Lower case leaves the separators that are dropped at the end. -/
theorem lower_trimEnd_separator (t : Text) :
    Text.lower (Text.trimEnd (· = separator) t) = Text.trimEnd (· = separator) (Text.lower t) := by
  have hkeep : ∀ u : Text, u.getLast? ≠ some separator → Text.trimEnd (· = separator) u = u := by
    intro u hu
    have hend : u.reverse.head? ≠ some separator := by rwa [List.head?_reverse]
    rw [Text.trimEnd, dropWhile_separator_of_head hend, List.reverse_reverse]
  induction t using List.reverseRecOn with
  | nil => rfl
  | append_singleton cs c ih =>
    by_cases hc : c = separator
    · rw [hc, Text.lower_append_separator]
      simpa [Text.trimEnd] using ih
    · have hlast : (cs ++ [c]).getLast? ≠ some separator := by simpa using hc
      rw [hkeep _ hlast, hkeep _ (Text.getLast?_lower hlast)]

/-- Trimming goes through lower case. -/
theorem lower_trimmed (t : Text) : Text.lower (trimmed t) = trimmed (Text.lower t) := by
  rw [trimmed, Text.trim, lower_trimEnd_separator, lower_dropWhile_separator, trimmed, Text.trim]

/-- The segments of two names that stand beside each other are those of the first and those of the second.
-/
theorem segments_beside {a b : Text} (ha : a ≠ []) (hb : b ≠ []) :
    segments (beside a b) = segments a ++ segments b := by
  rw [beside_of_ne_nil ha hb]
  exact Text.pieces_append_sep separator a b

/-- Segments are glued together in two groups with a separator between them. -/
theorem glue_append {ps qs : List Text} (hp : ps ≠ []) (hq : qs ≠ []) :
    Text.glue separator (ps ++ qs)
      = Text.glue separator ps ++ separator :: Text.glue separator qs := by
  obtain ⟨q, qs, rfl⟩ := List.exists_cons_of_ne_nil hq
  induction ps with
  | nil => exact absurd rfl hp
  | cons p ps ih =>
    cases ps with
    | nil => simp [Text.glue_singleton, Text.glue_cons_cons]
    | cons r rs =>
      have hrest := ih (List.cons_ne_nil r rs)
      simp only [List.cons_append, Text.glue_cons_cons] at hrest ⊢
      rw [hrest, List.append_assoc, List.cons_append]

/-- Every name has a last segment. -/
theorem segments_concat (t : Text) : ∃ init last, segments t = init ++ [last] :=
  ⟨_, _, (List.dropLast_concat_getLast (segments_ne_nil t)).symm⟩

/-- A name is split in front of its last segment. -/
theorem split_of_segments {t last : Text} {init : List Text} (h : IsTrimmed t)
    (hs : segments t = init ++ [last]) : split t = (Text.glue separator init, last) := by
  simp [split, bare_of_isTrimmed h, hs]

/-- What stands before the last segment of a trimmed name is not only separators. -/
theorem glue_init_ne_nil {t last : Text} {init : List Text} (h : IsTrimmed t)
    (hs : segments t = init ++ [last]) (hinit : init ≠ []) : Text.glue separator init ≠ [] := by
  intro hnil
  have hglue := glue_segments t
  rw [hs, glue_append hinit (List.cons_ne_nil last []), hnil] at hglue
  exact h.1 (by rw [← hglue]; rfl)

/-- The last segment of a trimmed name is not empty. -/
theorem last_segment_ne_nil {t last : Text} {init : List Text} (h : IsTrimmed t) (hne : t ≠ [])
    (hs : segments t = init ++ [last]) : last ≠ [] := by
  rintro rfl
  have hglue := glue_segments t
  rw [hs] at hglue
  cases init with
  | nil => exact hne hglue.symm
  | cons p ps =>
    rw [glue_append (List.cons_ne_nil p ps) (List.cons_ne_nil [] []), Text.glue_singleton] at hglue
    exact h.2 (by rw [← hglue, List.getLast?_concat])

/-- The namespace and the short name of a name under another one. -/
theorem split_beside {a b : Text} (ha : IsTrimmed a) (hb : IsTrimmed b) (hna : a ≠ [])
    (hnb : b ≠ []) : split (beside a b) = (beside a (split b).1, (split b).2) := by
  obtain ⟨init, last, hs⟩ := segments_concat b
  have hsegments : segments (beside a b) = (segments a ++ init) ++ [last] := by
    rw [segments_beside hna hnb, hs, List.append_assoc]
  rw [split_of_segments (isTrimmed_beside ha hb) hsegments, split_of_segments hb hs]
  by_cases hinit : init = []
  · rw [hinit, List.append_nil, glue_segments]
    simp [Text.glue, List.intercalate]
  · rw [glue_append (segments_ne_nil a) hinit, glue_segments,
      beside_of_ne_nil hna (glue_init_ne_nil hb hs hinit)]

/-- The key of a symbol that is no constant is its name in lower case. -/
theorem key_of_ne_constant {kind : SymbolKind} (h : kind ≠ .constant) (name : Text) :
    key kind name = Text.lower (bare name) := by
  simp [key, SymbolKind.caseSensitive, h]

/-- The key of a constant: the lower-cased namespace beside the short name as it is written. -/
theorem key_constant {name : Text} (h : IsTrimmed name) :
    key .constant name = beside (Text.lower (split name).1) (split name).2 := by
  have hkey : key .constant name
      = if (split name).1 = [] then (split name).2
        else Text.lower (split name).1 ++ separator :: (split name).2 := by
    simp [key, SymbolKind.caseSensitive, bare_of_isTrimmed h]
  rw [hkey]
  by_cases hne : name = []
  · rw [hne]
    rfl
  · obtain ⟨init, last, hs⟩ := segments_concat name
    have hlast := last_segment_ne_nil h hne hs
    rw [split_of_segments h hs]
    split
    · next hspace => rw [hspace, Text.lower_nil, nil_beside]
    · next hspace => rw [beside_of_ne_nil (by simpa using hspace) hlast]

/-- The key of a name under another one is the lower-cased other one beside its own key. -/
theorem key_beside {a b : Text} (kind : SymbolKind) (ha : IsTrimmed a) (hb : IsTrimmed b)
    (hnb : b ≠ []) : key kind (beside a b) = beside (Text.lower a) (key kind b) := by
  by_cases hna : a = []
  · rw [hna, nil_beside, Text.lower_nil, nil_beside]
  · have hab := isTrimmed_beside ha hb
    by_cases hkind : kind = .constant
    · rw [hkind, key_constant hab, key_constant hb, split_beside ha hb hna hnb, lower_beside,
        beside_assoc]
    · rw [key_of_ne_constant hkind, key_of_ne_constant hkind, bare_of_isTrimmed hab,
        bare_of_isTrimmed hb, lower_beside]

/-- Only the empty name has the empty key. -/
theorem key_eq_nil_iff {kind : SymbolKind} {name : Text} (h : IsTrimmed name) :
    key kind name = [] ↔ name = [] := by
  constructor
  · intro hkey
    by_contra hne
    by_cases hkind : kind = .constant
    · obtain ⟨init, last, hs⟩ := segments_concat name
      rw [hkind, key_constant h, split_of_segments h hs] at hkey
      exact last_segment_ne_nil h hne hs (beside_eq_nil_iff.mp hkey).2
    · rw [key_of_ne_constant hkind, bare_of_isTrimmed h] at hkey
      exact hne (Text.lower_eq_nil_iff.mp hkey)
  · rintro rfl
    cases kind <;> rfl

/-- Trimming a name that is no constant trims its key. -/
theorem key_trimmed {kind : SymbolKind} (hkind : kind ≠ .constant) (name : Text) :
    key kind (trimmed name) = trimmed (key kind name) := by
  rw [key_of_ne_constant hkind, key_of_ne_constant hkind, bare_of_isTrimmed (isTrimmed_trimmed name),
    lower_trimmed, lower_bare, trimmed_bare]

/-- Symbols with one key are moved to targets with one key. For constants this needs names without
separators around them: a separator at the end hides the case of the segment before it. -/
theorem key_relocate_congr {root a b : Text} {kind : SymbolKind} (hroot : IsRoot root)
    (ha : kind = .constant → IsTrimmed a) (hb : kind = .constant → IsTrimmed b)
    (hkey : key kind a = key kind b) :
    key kind (relocate root a) = key kind (relocate root b) := by
  have htrimmed : key kind (trimmed a) = key kind (trimmed b) := by
    by_cases hkind : kind = .constant
    · rw [trimmed_of_isTrimmed (ha hkind), trimmed_of_isTrimmed (hb hkind), hkey]
    · rw [key_trimmed hkind, key_trimmed hkind, hkey]
  have hnil : trimmed a = [] ↔ trimmed b = [] := by
    have hiffA := @key_eq_nil_iff kind _ (isTrimmed_trimmed a)
    have hiffB := @key_eq_nil_iff kind _ (isTrimmed_trimmed b)
    rw [← hiffA, ← hiffB, htrimmed]
  rw [relocate_eq_beside hroot, relocate_eq_beside hroot]
  by_cases hne : trimmed a = []
  · rw [hne, hnil.mp hne]
  · rw [key_beside kind hroot.isTrimmed (isTrimmed_trimmed a) hne,
      key_beside kind hroot.isTrimmed (isTrimmed_trimmed b) (fun h => hne (hnil.mpr h)), htrimmed]

/-- A name that was moved under a prefix is under it. -/
theorem isUnder_relocate {root : Text} (h : IsRoot root) (name : Text) :
    isUnder root (relocate root name) = true := by
  have hbare : bare (relocate root name) = beside root (trimmed name) := by
    rw [bare_of_isTrimmed (isTrimmed_relocate root name), relocate_eq_beside h]
  rw [isUnder, hbare]
  by_cases hnil : trimmed name = []
  · rw [hnil, beside_nil]
    simp
  · rw [beside_of_ne_nil h.ne_nil hnil, Text.lower_append_separator]
    simp [List.isPrefixOf_iff_prefix]

/-- Taking a separator away leaves the end of a name. -/
theorem bare_suffix (t : Text) : bare t <:+ t := by
  cases t with
  | nil => exact List.suffix_rfl
  | cons d ds =>
    simp only [bare]
    split
    · exact List.suffix_cons d ds
    · exact List.suffix_rfl

/-- A name of one segment. -/
structure IsShort (short : Text) : Prop where
  /-- It is not empty. -/
  ne_nil : short ≠ []
  /-- It has no namespace part. -/
  separator_not_mem : separator ∉ short

/-- A name of one segment has no separators around it. -/
theorem IsShort.isTrimmed {short : Text} (h : IsShort short) : IsTrimmed short :=
  ⟨fun hhead => h.separator_not_mem (List.mem_of_mem_head? hhead),
    fun hlast => h.separator_not_mem (List.mem_of_getLast? hlast)⟩

/-- At most one separator stands in front of a name. -/
def IsSinglyLed (name : Text) : Prop := (bare name).head? ≠ some separator

instance (name : Text) : Decidable (IsSinglyLed name) :=
  inferInstanceAs (Decidable ((bare name).head? ≠ some separator))

namespace IsSinglyLed

variable {name : Text}

/-- Taking a leading separator away a second time changes nothing. -/
theorem bare_bare (h : IsSinglyLed name) : Name.bare (Name.bare name) = Name.bare name :=
  bare_of_head h

/-- Without its separator in front, a name has none left there. -/
theorem bare (h : IsSinglyLed name) : IsSinglyLed (Name.bare name) := by
  rw [IsSinglyLed, h.bare_bare]
  exact h

/-- A separator in front does not change the key. -/
theorem key_bare (h : IsSinglyLed name) (kind : SymbolKind) :
    key kind (Name.bare name) = key kind name := by
  simp only [key, h.bare_bare]

end IsSinglyLed

end PhpPrefixer.Name
