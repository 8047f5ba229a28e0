import PhpPrefixer.Proofs.Layout

/-!
# Edits that are apart can be applied

Edits are applied in the order of their offsets, insertions first. If the spans of all edits are apart,
then in this order each edit ends before the next one starts, so none of them is refused; and only then.
-/

namespace PhpPrefixer

namespace Edit

/-- The spans of two edits are apart. -/
def Apart (a b : Edit) : Prop := a.span.Apart b.span

instance (a b : Edit) : Decidable (a.Apart b) := inferInstanceAs (Decidable (a.span.Apart b.span))

/-- If an edit is apart from another one, so is the other one from it. -/
theorem Apart.symm {a b : Edit} (h : a.Apart b) : b.Apart a := Span.Apart.symm h

/-- An edit is applied before another one that starts later, and before one that starts with it unless the
other one alone is an insertion. -/
theorem appliedBefore_iff {a b : Edit} :
    a.appliedBefore b = true
      ↔ a.start < b.start ∨ (a.start = b.start ∧ (a.start = a.stop ∨ b.start ≠ b.stop)) := by
  simp [appliedBefore, isInsertion]

/-- The order in which edits are applied is transitive. -/
theorem appliedBefore_trans (a b c : Edit) (hab : a.appliedBefore b = true)
    (hbc : b.appliedBefore c = true) : a.appliedBefore c = true := by
  rw [appliedBefore_iff] at *
  omega

/-- Of two edits, one can be applied before the other. -/
theorem appliedBefore_total (a b : Edit) : (a.appliedBefore b || b.appliedBefore a) = true := by
  rw [Bool.or_eq_true, appliedBefore_iff, appliedBefore_iff]
  omega

/-- Of two edits that are apart, the one applied first ends before the other starts. -/
theorem stop_le_start {a b : Edit} (hforward : b.start ≤ b.stop) (hapart : a.Apart b)
    (hbefore : a.appliedBefore b = true) : a.stop ≤ b.start := by
  rw [appliedBefore_iff] at hbefore
  simp only [Apart, Span.Apart, span] at hapart
  omega

/-- In the order in which they are applied, edits that are apart follow one another. -/
theorem pairwise_inOrder {queue : List Edit} (hforward : ∀ e ∈ queue, e.start ≤ e.stop)
    (hapart : queue.Pairwise Apart) :
    (inOrder queue).Pairwise fun a b => a.stop ≤ b.start := by
  have hperm : (inOrder queue).Perm queue := List.mergeSort_perm queue appliedBefore
  have hsorted : (inOrder queue).Pairwise fun a b => a.appliedBefore b = true :=
    List.pairwise_mergeSort appliedBefore_trans appliedBefore_total queue
  have hapartInOrder : (inOrder queue).Pairwise Apart :=
    hapart.perm hperm.symm fun h => h.symm
  refine (hsorted.and hapartInOrder).imp_of_mem ?_
  intro a b _ hb hab
  exact stop_le_start (hforward b (hperm.mem_iff.mp hb)) hab.2 hab.1

/-- Edits that follow each other from the cursor on are spliced in. -/
theorem exists_spliceFrom (s : Source) {cursor : Nat} {es : List Edit}
    (hcursor : ∀ e ∈ es, cursor ≤ e.start) (hordered : es.Pairwise fun a b => a.stop ≤ b.start) :
    ∃ bytes, spliceFrom s cursor es = .ok bytes := by
  induction es generalizing cursor with
  | nil => exact ⟨_, rfl⟩
  | cons e es ih =>
    obtain ⟨hlater, hrest⟩ := List.pairwise_cons.mp hordered
    have hstart : ¬e.start < cursor := Nat.not_lt.mpr (hcursor e List.mem_cons_self)
    obtain ⟨bytes, hbytes⟩ := ih hlater hrest
    refine ⟨s.slice cursor e.start ++ Text.encode e.text ++ bytes, ?_⟩
    rw [spliceFrom, if_neg hstart, hbytes]
    rfl

/-- Where no edit is refused, each one starts where the ones before it have ended. -/
theorem pairwise_of_spliceFrom {s : Source} {cursor : Nat} {es : List Edit} {bytes : List UInt8}
    (hforward : ∀ e ∈ es, e.start ≤ e.stop) (h : spliceFrom s cursor es = .ok bytes) :
    (∀ e ∈ es, cursor ≤ e.start) ∧ es.Pairwise fun a b => a.stop ≤ b.start := by
  induction es generalizing cursor bytes with
  | nil => exact ⟨List.forall_mem_nil _, List.Pairwise.nil⟩
  | cons e es ih =>
    obtain ⟨he, hes⟩ := List.forall_mem_cons.mp hforward
    rw [spliceFrom] at h
    split at h
    · cases h
    · next hstart =>
      have hcursor : cursor ≤ e.start := Nat.not_lt.mp hstart
      cases hrest : spliceFrom s e.stop es with
      | error o =>
        rw [hrest] at h
        cases h
      | ok rest =>
        obtain ⟨hlater, hordered⟩ := ih hes hrest
        refine ⟨List.forall_mem_cons.mpr ⟨hcursor, fun f hf => ?_⟩,
          List.pairwise_cons.mpr ⟨hlater, hordered⟩⟩
        have hf := hlater f hf
        omega

/-- Edits are applied without one being refused exactly when they are apart. -/
theorem exists_splice_iff (s : Source) {queue : List Edit}
    (hforward : ∀ e ∈ queue, e.start ≤ e.stop) :
    (∃ bytes, splice s queue = .ok bytes) ↔ queue.Pairwise Apart := by
  have hperm : (inOrder queue).Perm queue := List.mergeSort_perm queue appliedBefore
  constructor
  · rintro ⟨bytes, hbytes⟩
    have hinOrder : ∀ e ∈ inOrder queue, e.start ≤ e.stop :=
      fun e he => hforward e (hperm.mem_iff.mp he)
    have hordered := (pairwise_of_spliceFrom hinOrder hbytes).2
    have hapart : (inOrder queue).Pairwise Apart := hordered.imp fun hab => .inl hab
    exact hapart.perm hperm fun h => h.symm
  · intro hapart
    exact exists_spliceFrom s (fun _ _ => Nat.zero_le _) (pairwise_inOrder hforward hapart)

end Edit

/-- A queue is refused for an overlap exactly when its edits are not apart. -/
theorem Source.exists_render_overlap_iff (s : Source) {queue : List Edit}
    (hforward : ∀ e ∈ queue, e.start ≤ e.stop) :
    (∃ o, s.render queue = .error (.overlap o)) ↔ ¬queue.Pairwise Edit.Apart := by
  rw [← Edit.exists_splice_iff s hforward, render]
  cases Edit.splice s queue with
  | error o => simp
  | ok bytes =>
    dsimp only
    cases Text.decode? bytes with
    | none => simp
    | some t => simp

/-- So it is when the source is printed. -/
theorem Source.exists_overlap_iff (s : Source) {queue : List Edit}
    (hforward : ∀ e ∈ queue, e.start ≤ e.stop) :
    (∃ o, s.print queue = .error (.overlap o)) ↔ ¬queue.Pairwise Edit.Apart := by
  rw [← exists_render_overlap_iff s hforward, print]
  cases s.render queue with
  | error e => simp [Except.map]
  | ok t => simp [Except.map]

/-- A queue that is in the order of application already is printed as it is. -/
theorem Source.print_of_inOrder {s : Source} {queue : List Edit} {t : Text}
    (hordered : queue.Pairwise fun a b => a.appliedBefore b = true)
    (h : (Edit.spliceFrom s 0 queue).toOption.bind Text.decode? = some t) :
    s.print queue = .ok (endingLine t) := by
  obtain ⟨bytes, hbytes, htext⟩ := Option.bind_eq_some_iff.mp h
  have hsplice : Edit.splice s queue = .ok bytes := by
    rw [Edit.splice, Edit.inOrder, List.mergeSort_of_pairwise hordered]
    cases hout : Edit.spliceFrom s 0 queue with
    | error o =>
      rw [hout] at hbytes
      cases hbytes
    | ok found =>
      rw [hout] at hbytes
      exact congrArg Except.ok (Option.some_inj.mp hbytes)
  rw [print, render, hsplice]
  dsimp only
  rw [htext]
  rfl

end PhpPrefixer
