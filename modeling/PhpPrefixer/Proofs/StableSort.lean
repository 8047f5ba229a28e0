/-!
# Sorting without disturbing ties

Sorting by merging keeps the order of entries of which none has to stand before another. So what is sorted is
determined by the ties: two lists are sorted alike just if each group of tied entries stands in them in the
same order (`mergeSort_eq_mergeSort_iff`).
-/

namespace PhpPrefixer

variable {α : Type} {le : α → α → Bool}

/-- Whether neither of two entries has to stand before the other. -/
def tied (le : α → α → Bool) (a b : α) : Bool := le a b && le b a

/-- Two members are tied if each may stand before the other. -/
theorem tied_iff {a b : α} : tied le a b = true ↔ le a b = true ∧ le b a = true :=
  Bool.and_eq_true_iff

section

variable (htotal : ∀ a b : α, (le a b || le b a) = true)

include htotal

/-- The first entry of a sorted list stands before all entries of any list with the same groups. -/
theorem le_of_filter_tied {a b : α} {l₁ l₂ : List α}
    (h₁ : (a :: l₁).Pairwise fun a b => le a b = true)
    (hgroups : ∀ c, (a :: l₁).filter (tied le c) = l₂.filter (tied le c)) (hb : b ∈ l₂) :
    le a b = true := by
  have hrefl : le b b = true := by simpa using htotal b b
  have hmem : b ∈ l₂.filter (tied le b) := List.mem_filter.mpr ⟨hb, tied_iff.mpr ⟨hrefl, hrefl⟩⟩
  rw [← hgroups b] at hmem
  rcases List.mem_cons.mp (List.mem_filter.mp hmem).1 with rfl | htail
  · exact hrefl
  · exact (List.pairwise_cons.mp h₁).1 b htail

/-- Sorted lists with the same groups of tied entries are equal. -/
theorem eq_of_filter_tied {l₁ l₂ : List α} (h₁ : l₁.Pairwise fun a b => le a b = true)
    (h₂ : l₂.Pairwise fun a b => le a b = true)
    (hgroups : ∀ c, l₁.filter (tied le c) = l₂.filter (tied le c)) : l₁ = l₂ := by
  induction l₁ generalizing l₂ with
  | nil =>
    cases l₂ with
    | nil => rfl
    | cons b l₂ =>
      have hrefl : le b b = true := by simpa using htotal b b
      have hnil := hgroups b
      simp [tied, hrefl] at hnil
  | cons a l₁ ih =>
    have hrefl : le a a = true := by simpa using htotal a a
    have hself : tied le a a = true := tied_iff.mpr ⟨hrefl, hrefl⟩
    cases l₂ with
    | nil =>
      have hnil := hgroups a
      simp [hself] at hnil
    | cons b l₂ =>
      have hab : le a b = true := le_of_filter_tied htotal h₁ hgroups List.mem_cons_self
      have hba : le b a = true :=
        le_of_filter_tied htotal h₂ (fun c => (hgroups c).symm) List.mem_cons_self
      have hfirst := hgroups a
      rw [List.filter_cons_of_pos hself, List.filter_cons_of_pos (tied_iff.mpr ⟨hab, hba⟩)] at hfirst
      obtain ⟨rfl, -⟩ := List.cons_eq_cons.mp hfirst
      refine congrArg (a :: ·) (ih h₁.tail h₂.tail fun c => ?_)
      have hgroup := hgroups c
      rw [List.filter_cons, List.filter_cons] at hgroup
      split at hgroup
      · exact (List.cons_eq_cons.mp hgroup).2
      · exact hgroup

end

section

variable (htrans : ∀ a b c : α, le a b = true → le b c = true → le a c = true)
  (htotal : ∀ a b : α, (le a b || le b a) = true)

include htrans htotal

/-- Entries that may stand beside one another stay in their order. -/
theorem filter_mergeSort {p : α → Bool} {l : List α}
    (hbeside : (l.filter p).Pairwise fun a b => le a b = true) :
    (l.mergeSort le).filter p = l.filter p := by
  have hperm : (l.mergeSort le).Perm l := List.mergeSort_perm l le
  have hsublist : (l.filter p).Sublist (l.mergeSort le) :=
    List.sublist_mergeSort htrans htotal hbeside List.filter_sublist
  have hself : (l.filter p).filter p = l.filter p :=
    List.filter_eq_self.mpr fun a ha => (List.mem_filter.mp ha).2
  have hfiltered : (l.filter p).Sublist ((l.mergeSort le).filter p) := by
    rw [← hself]
    exact hsublist.filter p
  exact (hfiltered.eq_of_length (hperm.filter p).length_eq.symm).symm

/-- A group of tied entries stays in its order. -/
theorem filter_tied_mergeSort (a : α) (l : List α) :
    (l.mergeSort le).filter (tied le a) = l.filter (tied le a) := by
  refine filter_mergeSort htrans htotal (List.pairwise_of_forall_mem_list fun b hb c hc => ?_)
  have hba := (tied_iff.mp (List.mem_filter.mp hb).2).2
  have hac := (tied_iff.mp (List.mem_filter.mp hc).2).1
  exact htrans b a c hba hac

/-- Lists are sorted alike just if each group of tied entries stands in both in the same order. -/
theorem mergeSort_eq_mergeSort_iff {l₁ l₂ : List α} :
    l₁.mergeSort le = l₂.mergeSort le ↔ ∀ a, l₁.filter (tied le a) = l₂.filter (tied le a) := by
  constructor
  · intro heq a
    rw [← filter_tied_mergeSort htrans htotal, heq, filter_tied_mergeSort htrans htotal]
  · intro hgroups
    refine eq_of_filter_tied htotal (List.pairwise_mergeSort htrans htotal l₁)
      (List.pairwise_mergeSort htrans htotal l₂) fun a => ?_
    rw [filter_tied_mergeSort htrans htotal, filter_tied_mergeSort htrans htotal, hgroups]

end

end PhpPrefixer
