import PhpPrefixer.Proofs.Weaving

/-!
# Edits of bytes and edits of characters

The offsets of edits count bytes. Where they lie between characters, the edits could as well be made on
the characters of the text: `Text.positionOf` takes an offset to the number of characters in front of it,
and `Source.render_ofText` says that both ways lead to the same text. In particular what is rendered can
be read.
-/

namespace PhpPrefixer

namespace Text

/-- The number of bytes in front of the character at a position. -/
def offsetOf (t : Text) (position : Nat) : Nat := (encode (t.take position)).length

/-- The number of characters in front of an offset. -/
def positionOf : Text → Nat → Nat
  | [], _ => 0
  | c :: t, offset => if offset = 0 then 0 else positionOf t (offset - c.utf8Size) + 1

/-- An offset in front of a character, or at the end. -/
def IsBoundary (t : Text) (offset : Nat) : Prop := ∃ position ≤ t.length, offsetOf t position = offset

variable {t : Text} {a b i j : Nat}

/-- The first character starts at offset zero. -/
@[simp] theorem offsetOf_zero (t : Text) : offsetOf t 0 = 0 := rfl

/-- An offset counts the bytes of the characters in front. -/
@[simp] theorem offsetOf_cons_succ (c : Char) (t : Text) (i : Nat) :
    offsetOf (c :: t) (i + 1) = c.utf8Size + offsetOf t i := by
  rw [offsetOf, List.take_succ_cons, encode_cons, List.length_append, String.length_utf8EncodeChar,
    offsetOf]

/-- Every character has a byte, so offsets grow with positions. -/
theorem offsetOf_lt (hij : i < j) (hj : j ≤ t.length) : offsetOf t i < offsetOf t j := by
  induction t generalizing i j with
  | nil =>
    rw [List.length_nil] at hj
    omega
  | cons c t ih =>
    rw [List.length_cons] at hj
    have hsize := c.utf8Size_pos
    cases j with
    | zero => omega
    | succ j =>
      cases i with
      | zero =>
        rw [offsetOf_zero, offsetOf_cons_succ]
        omega
      | succ i =>
        have hrest := @ih i j (by omega) (by omega)
        rw [offsetOf_cons_succ, offsetOf_cons_succ]
        omega

/-- The position of a character is found from its offset. -/
theorem positionOf_offsetOf (hi : i ≤ t.length) : positionOf t (offsetOf t i) = i := by
  induction t generalizing i with
  | nil =>
    rw [List.length_nil] at hi
    rw [positionOf]
    omega
  | cons c t ih =>
    rw [List.length_cons] at hi
    cases i with
    | zero => rw [offsetOf_zero, positionOf, if_pos rfl]
    | succ i =>
      have hsize := c.utf8Size_pos
      have hne : c.utf8Size + offsetOf t i ≠ 0 := by omega
      rw [offsetOf_cons_succ, positionOf, if_neg hne, Nat.add_sub_cancel_left, ih (by omega)]

/-- A boundary is in front of a character or at the end. -/
theorem IsBoundary.positionOf_le (h : IsBoundary t a) : positionOf t a ≤ t.length := by
  obtain ⟨i, hi, rfl⟩ := h
  rwa [positionOf_offsetOf hi]

/-- A boundary is found from its position. -/
theorem IsBoundary.offsetOf_positionOf (h : IsBoundary t a) : offsetOf t (positionOf t a) = a := by
  obtain ⟨i, hi, rfl⟩ := h
  rw [positionOf_offsetOf hi]

/-- Boundaries are ordered as the positions are. -/
theorem IsBoundary.positionOf_lt_iff (ha : IsBoundary t a) (hb : IsBoundary t b) :
    positionOf t a < positionOf t b ↔ a < b := by
  obtain ⟨i, hi, rfl⟩ := ha
  obtain ⟨j, hj, rfl⟩ := hb
  rw [positionOf_offsetOf hi, positionOf_offsetOf hj]
  refine ⟨fun hij => offsetOf_lt hij hj, fun hlt => ?_⟩
  by_contra hnot
  rcases Nat.eq_or_lt_of_le (Nat.not_lt.mp hnot) with heq | hji
  · rw [heq] at hlt
    omega
  · have hgt := offsetOf_lt hji hi
    omega

/-- Positions are in the order of their boundaries. -/
theorem IsBoundary.positionOf_le_iff (ha : IsBoundary t a) (hb : IsBoundary t b) :
    positionOf t a ≤ positionOf t b ↔ a ≤ b := by
  have hlt := hb.positionOf_lt_iff ha
  omega

/-- The bytes of a text are those in front of a position and those behind it. -/
theorem encode_take_append_drop (t : Text) (i : Nat) :
    encode t = encode (t.take i) ++ encode (t.drop i) := by
  rw [← encode_append, List.take_append_drop]

/-- The bytes from a character on are those of the characters from it on. -/
theorem drop_encode (t : Text) (i : Nat) : (encode t).drop (offsetOf t i) = encode (t.drop i) := by
  rw [encode_take_append_drop t i, offsetOf, List.drop_left]

/-- The bytes in front of an offset are those of the characters in front of it. -/
theorem take_encode (t : Text) (i : Nat) : (encode t).take (offsetOf t i) = encode (t.take i) := by
  rw [encode_take_append_drop t i, offsetOf, List.take_left]

/-- The bytes between two characters are those of the characters between them. -/
theorem drop_take_encode (t : Text) (hij : i ≤ j) :
    ((encode t).take (offsetOf t j)).drop (offsetOf t i) = encode ((t.take j).drop i) := by
  have hsame : offsetOf t i = offsetOf (t.take j) i := by
    rw [offsetOf, offsetOf, List.take_take, Nat.min_eq_left hij]
  rw [take_encode, hsame, drop_encode]

end Text

/-- An edit with its offsets counted in characters. -/
def Edit.inCharacters (t : Text) (e : Edit) : Edit :=
  ⟨Text.positionOf t e.start, Text.positionOf t e.stop, e.text⟩

/-- An overlap with its offsets counted in bytes. -/
def Overlap.inBytes (t : Text) (o : Overlap) : Overlap :=
  ⟨Text.offsetOf t o.start, Text.offsetOf t o.stop, Text.offsetOf t o.earlier⟩

/-- An edit that cuts no character. -/
def Edit.IsClean (t : Text) (e : Edit) : Prop := Text.IsBoundary t e.start ∧ Text.IsBoundary t e.stop

namespace Edit

variable {t : Text} {es queue : List Edit} {cursor : Nat}

/-- Applying edits to bytes, from a character on, is applying them to characters. -/
theorem spliceFrom_ofText (hcursor : cursor ≤ t.length) (hes : ∀ e ∈ es, IsClean t e) :
    spliceFrom (.ofText t) (Text.offsetOf t cursor) es
      = ((applyFrom id t cursor (es.map (inCharacters t))).mapError (Overlap.inBytes t)).map
        Text.encode := by
  induction es generalizing cursor with
  | nil => exact congrArg Except.ok (Text.drop_encode t cursor)
  | cons e es ih =>
    obtain ⟨⟨hstart, hstop⟩, hrest⟩ := List.forall_mem_cons.mp hes
    have hboundary : Text.IsBoundary t (Text.offsetOf t cursor) := ⟨cursor, hcursor, rfl⟩
    have hbefore : (inCharacters t e).start < cursor ↔ e.start < Text.offsetOf t cursor := by
      have hiff := hstart.positionOf_lt_iff hboundary
      rwa [Text.positionOf_offsetOf hcursor] at hiff
    rw [spliceFrom, List.map_cons, applyFrom]
    by_cases hrefused : e.start < Text.offsetOf t cursor
    · rw [if_pos hrefused, if_pos (hbefore.mpr hrefused)]
      simp [inCharacters, Overlap.inBytes, Except.mapError, Except.map, hstart.offsetOf_positionOf,
        hstop.offsetOf_positionOf]
    · have hreached : cursor ≤ (inCharacters t e).start := Nat.not_lt.mp (hbefore.not.mpr hrefused)
      have hkept : (Source.ofText t).slice (Text.offsetOf t cursor) e.start
          = Text.encode ((t.take (inCharacters t e).start).drop cursor) := by
        rw [← Text.drop_take_encode t hreached, inCharacters, hstart.offsetOf_positionOf]
        rfl
      have hlater := ih hstop.positionOf_le hrest
      rw [hstop.offsetOf_positionOf] at hlater
      rw [if_neg hrefused, if_neg (hbefore.not.mpr hrefused), hlater, hkept]
      simp only [inCharacters]
      cases applyFrom id t (Text.positionOf t e.stop) (es.map (inCharacters t)) with
      | error o => rfl
      | ok rest => simp [Except.mapError, Except.map, bind, Except.bind, pure, Except.pure]

/-- Edits are applied in the same order, however their offsets are counted. -/
theorem inOrder_inCharacters (hqueue : ∀ e ∈ queue, IsClean t e) :
    (inOrder queue).map (inCharacters t) = inOrder (queue.map (inCharacters t)) := by
  refine List.map_mergeSort fun a ha b hb => ?_
  obtain ⟨hastart, hastop⟩ := hqueue a ha
  obtain ⟨hbstart, hbstop⟩ := hqueue b hb
  have hfirst := hastart.positionOf_lt_iff hbstart
  have hsecond := hbstart.positionOf_lt_iff hastart
  have haforward := hastart.positionOf_lt_iff hastop
  have habackward := hastop.positionOf_lt_iff hastart
  have hbforward := hbstart.positionOf_lt_iff hbstop
  have hbbackward := hbstop.positionOf_lt_iff hbstart
  rw [Bool.eq_iff_iff, appliedBefore_iff, appliedBefore_iff]
  simp only [inCharacters]
  omega

/-- Splicing edits that cut no character into the bytes of a text is applying them to its characters. -/
theorem splice_ofText (hqueue : ∀ e ∈ queue, IsClean t e) :
    splice (.ofText t) queue
      = ((apply id t (queue.map (inCharacters t))).mapError (Overlap.inBytes t)).map Text.encode := by
  have hinOrder : ∀ e ∈ inOrder queue, IsClean t e := fun e he => hqueue e (mem_inOrder.mp he)
  rw [apply, ← inOrder_inCharacters hqueue]
  exact spliceFrom_ofText (Nat.zero_le _) hinOrder

/-- Edits that are apart stay apart when their offsets are counted in characters. -/
theorem pairwise_apart_inCharacters (hqueue : ∀ e ∈ queue, IsClean t e)
    (hapart : queue.Pairwise Apart) : (queue.map (inCharacters t)).Pairwise Apart := by
  refine List.pairwise_map.mpr (hapart.imp_of_mem fun {a b} ha hb hab => ?_)
  obtain ⟨hastart, hastop⟩ := hqueue a ha
  obtain ⟨hbstart, hbstop⟩ := hqueue b hb
  have hbefore := hastop.positionOf_le_iff hbstart
  have hbehind := hbstop.positionOf_le_iff hastart
  simp only [Apart, Span.Apart, span, inCharacters] at hab ⊢
  omega

end Edit

namespace Source

/-- Edits of the bytes of a text that cut no character are edits of its characters: what is rendered is
what the edits make of the characters, or it is refused for the same overlap. So it can always be read.
Where the edits are apart, it is told position by position; without edits it is the text. -/
theorem render_ofText (t : Text) {queue : List Edit}
    (hqueue : ∀ e ∈ queue, Text.IsBoundary t e.start ∧ Text.IsBoundary t e.stop) :
    (ofText t).render queue
        = (Edit.apply id t (queue.map (.inCharacters t))).mapError (fun o => .overlap (o.inBytes t))
      ∧ ((∀ e ∈ queue, e.start ≤ e.stop) → queue.Pairwise Edit.Apart →
        (ofText t).render queue = .ok (Edit.woven id t (queue.map (.inCharacters t))))
      ∧ (ofText t).render [] = .ok t := by
  have hrender : ∀ {es : List Edit}, (∀ e ∈ es, Edit.IsClean t e) → (ofText t).render es
      = (Edit.apply id t (es.map (.inCharacters t))).mapError fun o => .overlap (o.inBytes t) := by
    intro es hes
    rw [render, Edit.splice_ofText hes]
    cases Edit.apply id t (es.map (.inCharacters t)) with
    | error o => rfl
    | ok out => simp [Except.mapError, Except.map, Text.decode?_encode]
  refine ⟨hrender hqueue, fun hforward hapart => ?_, ?_⟩
  · have hbounds : ∀ f ∈ queue.map (Edit.inCharacters t), f.start ≤ f.stop ∧ f.stop ≤ t.length := by
      intro f hf
      obtain ⟨e, he, rfl⟩ := List.mem_map.mp hf
      obtain ⟨hstart, hstop⟩ := hqueue e he
      exact ⟨(hstart.positionOf_le_iff hstop).mpr (hforward e he), hstop.positionOf_le⟩
    rw [hrender hqueue, Edit.apply_eq_woven hbounds (Edit.pairwise_apart_inCharacters hqueue hapart)]
    rfl
  · rw [hrender (List.forall_mem_nil _), List.map_nil, Edit.apply, Edit.inOrder, List.mergeSort_nil]
    rfl

/-- Characters of two, four and one bytes: the second is replaced by one of another length, and something
is put in front of it and at the end. -/
theorem render_ofText_multibyte :
    let t : Text := "é🎉x".toList
    let queue : List Edit :=
      [⟨2, 6, "ß".toList⟩, .inserting 7 "!".toList, .inserting 2 "→".toList]
    (∀ e ∈ queue, Text.IsBoundary t e.start ∧ Text.IsBoundary t e.stop)
      ∧ (ofText t).render queue = .ok "é→ßx!".toList := by
  intro t queue
  have hone : Text.IsBoundary t 2 := ⟨1, by decide, by decide⟩
  have htwo : Text.IsBoundary t 6 := ⟨2, by decide, by decide⟩
  have hend : Text.IsBoundary t 7 := ⟨3, by decide, by decide⟩
  have hqueue : ∀ e ∈ queue, Text.IsBoundary t e.start ∧ Text.IsBoundary t e.stop := by
    simp only [queue, List.forall_mem_cons]
    exact ⟨⟨hone, htwo⟩, ⟨hend, hend⟩, ⟨hone, hone⟩, List.forall_mem_nil _⟩
  refine ⟨hqueue, ((render_ofText t hqueue).2.1 (by decide) (by decide)).trans ?_⟩
  exact congrArg Except.ok (by decide)

end Source

end PhpPrefixer
