import PhpPrefixer.Proofs.SymbolIdentity

/-!
# Joining, splitting and moving names

Joining is a fold of an associative operation, so parts may be joined in groups first
(`Name.join_map_join`). A well-formed name is put together again from its namespace and its short name
(`Name.WellFormed.join_split`), and its key under a prefix is the lower-cased prefix, a separator and its
own key (`Name.WellFormed.key_relocate`). So a prefix moves different symbols to different ones.

Lower-casing is that of the Unicode standard. That it goes segment by segment is not assumed of it but
proved, in `Name.segments_lower`.
-/

namespace PhpPrefixer.Name

/-- Parts may be joined in two groups, which are then put beside each other. -/
theorem join_append (parts more : List Text) :
    join (parts ++ more) = beside (join parts) (join more) := by
  induction parts with
  | nil => rw [List.nil_append, join_nil, nil_beside]
  | cons part parts ih => rw [List.cons_append, join_cons, join_cons, ih, beside_assoc]

/-- What groups of parts are joined to can be joined in their place. -/
theorem join_map_join (groups : List (List Text)) :
    join (groups.map join) = join groups.flatten := by
  induction groups with
  | nil => rfl
  | cons parts groups ih =>
    rw [List.map_cons, join_cons, trimmed_of_isTrimmed (isTrimmed_join parts), ih, List.flatten_cons,
      join_append]

/-- A text without separators has none around it. -/
theorem isTrimmed_of_not_mem {t : Text} (h : separator ∉ t) : IsTrimmed t :=
  ⟨fun hhead => h (List.mem_of_head? hhead), fun hlast => h (List.mem_of_getLast? hlast)⟩

/-- Segments that are not empty make a name without separators around it. -/
theorem isTrimmed_glue {ps : List Text} (h : ∀ p ∈ ps, p ≠ []) (hsep : ∀ p ∈ ps, separator ∉ p) :
    IsTrimmed (Text.glue separator ps) := by
  by_cases hnil : ps = []
  · rw [hnil]
    decide
  · have hsegments : segments (Text.glue separator ps) = ps := Text.pieces_glue hnil hsep
    refine isTrimmed_of_segments ?_ ?_
    · rw [hsegments]
      exact fun hhead => h [] (List.mem_of_head? hhead) rfl
    · rw [hsegments]
      exact fun hlast => h [] (List.mem_of_getLast? hlast) rfl

namespace WellFormed

variable {name : Text}

/-- A well-formed name has at most one separator in front. -/
theorem isSinglyLed (h : WellFormed name) : IsSinglyLed name := h.isTrimmed_bare.1

/-- A separator in front does not change how a name is split. -/
theorem split_bare (h : WellFormed name) : split (bare name) = split name := by
  rw [split, split, h.isSinglyLed.bare_bare]

/-- A name is its namespace and its short name, joined. -/
theorem join_split (h : WellFormed name) : join [(split name).1, (split name).2] = bare name := by
  obtain ⟨init, last, hs⟩ := segments_concat (bare name)
  have hmem : ∀ p ∈ init ++ [last], p ≠ [] ∧ separator ∉ p := fun p hp =>
    ⟨h p (hs ▸ hp), separator_not_mem_segment (hs ▸ hp)⟩
  have hspace : IsTrimmed (Text.glue separator init) :=
    isTrimmed_glue (fun p hp => (hmem p (List.mem_append_left _ hp)).1)
      fun p hp => (hmem p (List.mem_append_left _ hp)).2
  have hshort : IsTrimmed last := isTrimmed_of_not_mem (hmem last (by simp)).2
  rw [← h.split_bare, split_of_segments h.isTrimmed_bare hs, join_pair, trimmed_of_isTrimmed hspace,
    trimmed_of_isTrimmed hshort]
  by_cases hinit : init = []
  · rw [← glue_segments (bare name), hs, hinit, List.nil_append, Text.glue_singleton]
    exact nil_beside last
  · rw [beside_of_ne_nil (glue_init_ne_nil h.isTrimmed_bare hs hinit) (hmem last (by simp)).1,
      ← glue_segments (bare name), hs, glue_append hinit (List.cons_ne_nil last []),
      Text.glue_singleton]

/-- The key of a moved name is the key of the name behind the lower-cased prefix. -/
theorem key_relocate (h : WellFormed name) {root : Text} (hroot : IsRoot root) (kind : SymbolKind) :
    key kind (relocate root name) = Text.lower root ++ separator :: key kind name := by
  have htrimmed : trimmed name = bare name := by
    rw [← trimmed_bare, trimmed_of_isTrimmed h.isTrimmed_bare]
  have hkey : key kind (bare name) ≠ [] := fun hnil =>
    h.bare_ne_nil ((key_eq_nil_iff h.isTrimmed_bare).mp hnil)
  have hlower : Text.lower root ≠ [] := fun hnil => hroot.ne_nil (Text.lower_eq_nil_iff.mp hnil)
  rw [relocate_eq_beside hroot, htrimmed,
    key_beside kind hroot.isTrimmed h.isTrimmed_bare h.bare_ne_nil, beside_of_ne_nil hlower hkey,
    h.isSinglyLed.key_bare]

end WellFormed

/-- The laws of names. Parts can be joined in groups, in any way, and what parts are joined to has no
separators around it. A well-formed name is split and joined without loss, is under every prefix that it
is moved under, and has there the key that it had, behind the lower-cased prefix. So names of two symbols
are moved to names of two symbols. -/
theorem names_join_and_move :
    (∀ groups : List (List Text), join (groups.map join) = join groups.flatten)
      ∧ (∀ parts : List Text, IsTrimmed (join parts))
      ∧ ∀ name, WellFormed name →
        join [(split name).1, (split name).2] = bare name
          ∧ split (join [(split name).1, (split name).2]) = split name
          ∧ ∀ root, IsRoot root →
            isUnder root (relocate root name) = true
              ∧ (∀ kind, key kind (relocate root name) = Text.lower root ++ separator :: key kind name)
              ∧ ∀ kind other, WellFormed other →
                (key kind (relocate root name) = key kind (relocate root other)
                  ↔ key kind name = key kind other) := by
  refine ⟨join_map_join, isTrimmed_join, fun name hname => ⟨hname.join_split, ?_, fun root hroot => ?_⟩⟩
  · rw [hname.join_split, hname.split_bare]
  · refine ⟨isUnder_relocate hroot name, hname.key_relocate hroot, fun kind other hother => ?_⟩
    rw [hname.key_relocate hroot, hother.key_relocate hroot, List.append_cancel_left_eq,
      List.cons_inj_right]

/-- A prefix of two segments and a constant, whose short name keeps its case: two spellings of it, and
another constant. The parts of the namespace are joined first, with separators to spare. -/
theorem names_join_and_move_constant :
    let root := "Humbug\\Lib".toList
    let name := "\\Acme\\Sdk\\LIMIT".toList
    let spelled := "acme\\SDK\\LIMIT".toList
    let another := "Acme\\Sdk\\Limit".toList
    let groups := [["Acme\\".toList, [], "\\\\Sdk".toList], [], ["\\LIMIT".toList]]
    WellFormed name ∧ WellFormed spelled ∧ WellFormed another ∧ IsRoot root
      ∧ join (groups.map join) = join groups.flatten ∧ join groups.flatten = bare name
      ∧ split name = ("Acme\\Sdk".toList, "LIMIT".toList)
      ∧ join [(split name).1, (split name).2] = bare name
      ∧ isUnder root (relocate root name) = true
      ∧ key .constant (relocate root name) = "humbug\\lib\\acme\\sdk\\LIMIT".toList
      ∧ key .constant (relocate root name) = key .constant (relocate root spelled)
      ∧ key .constant (relocate root name) ≠ key .constant (relocate root another)
      ∧ key .classLike (relocate root name) = key .classLike (relocate root another) := by
  intro root name spelled another groups
  have hname : WellFormed name := by decide +kernel
  have hspelled : WellFormed spelled := by decide +kernel
  have hanother : WellFormed another := by decide +kernel
  have hroot : IsRoot root := ⟨by decide +kernel, by decide +kernel⟩
  obtain ⟨hgroups, -, hnames⟩ := names_join_and_move
  obtain ⟨hjoin, -, hmoved⟩ := hnames name hname
  obtain ⟨hunder, hkey, hsame⟩ := hmoved root hroot
  refine ⟨hname, hspelled, hanother, hroot, hgroups groups, by decide +kernel, by decide +kernel, hjoin,
    hunder, (hkey .constant).trans (by decide +kernel), ?_, ?_, ?_⟩
  · exact (hsame .constant spelled hspelled).mpr (by decide +kernel)
  · exact fun h => absurd ((hsame .constant another hanother).mp h) (by decide +kernel)
  · exact (hsame .classLike another hanother).mpr (by decide +kernel)

end PhpPrefixer.Name
