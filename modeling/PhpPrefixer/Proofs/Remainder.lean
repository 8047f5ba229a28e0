import PhpPrefixer.Proofs.Splicing

/-!
# What edits leave

Edits that are apart change nothing but the spans they replace. `Span.outside` are the bytes that lie in
none of some spans. What lies outside the spans where the texts of the edits end up is what lay outside
the spans they replace: `Edit.exists_landings`. What is apart from all edits is found again, moved by
what the edits before it added and took away: `Edit.exists_slice_of_apart`. Where a node was, `Edit.textLeft`
is what is left.
-/

namespace PhpPrefixer

namespace Span

/-- Whether an offset is in a span. -/
def holds (p : Span) (offset : Nat) : Bool := p.start ≤ offset && offset < p.stop

/-- The bytes that lie in none of the spans, where the first byte is at `offset`. -/
def outside (spans : List Span) (offset : Nat) : List UInt8 → List UInt8
  | [] => []
  | b :: bs =>
    if spans.any (·.holds offset) then outside spans (offset + 1) bs
    else b :: outside spans (offset + 1) bs

variable {spans : List Span} {offset : Nat}

/-- What is outside some spans is told for the first bytes and then for those behind them. -/
theorem outside_append (spans : List Span) (offset : Nat) (as bs : List UInt8) :
    outside spans offset (as ++ bs)
      = outside spans offset as ++ outside spans (offset + as.length) bs := by
  induction as generalizing offset with
  | nil => rfl
  | cons a as ih =>
    have hlength : offset + (a :: as).length = offset + 1 + as.length := by
      rw [List.length_cons]
      omega
    simp only [List.cons_append, outside, ih, hlength]
    split
    · rfl
    · rfl

/-- It does not matter in which order the spans are given. -/
theorem outside_congr {others : List Span} (h : ∀ p, p ∈ spans ↔ p ∈ others) (as : List UInt8) :
    outside spans offset as = outside others offset as := by
  induction as generalizing offset with
  | nil => rfl
  | cons a as ih =>
    have hany : spans.any (·.holds offset) = others.any (·.holds offset) := by
      rw [Bool.eq_iff_iff]
      simp only [List.any_eq_true, h]
    rw [outside, outside, hany, ih]

/-- Bytes in front of all spans lie outside them. -/
theorem outside_of_before {as : List UInt8} (h : ∀ p ∈ spans, offset + as.length ≤ p.start) :
    outside spans offset as = as := by
  induction as generalizing offset with
  | nil => rfl
  | cons a as ih =>
    have hlength : ∀ p ∈ spans, offset + 1 + as.length ≤ p.start := by
      intro p hp
      have hbefore := h p hp
      rw [List.length_cons] at hbefore
      omega
    have hout : spans.any (·.holds offset) = false := by
      rw [List.any_eq_false]
      intro p hp hin
      have hbefore := hlength p hp
      simp only [holds, Bool.and_eq_true, decide_eq_true_eq] at hin
      omega
    rw [outside, hout, ih hlength]
    rfl

/-- Bytes in one of the spans do not lie outside them. -/
theorem outside_of_inside {p : Span} {as : List UInt8} (hp : p ∈ spans) (hstart : p.start ≤ offset)
    (hstop : offset + as.length ≤ p.stop) : outside spans offset as = [] := by
  induction as generalizing offset with
  | nil => rfl
  | cons a as ih =>
    rw [List.length_cons] at hstop
    have hin : spans.any (·.holds offset) = true := by
      refine List.any_eq_true.mpr ⟨p, hp, ?_⟩
      simp only [holds, Bool.and_eq_true, decide_eq_true_eq]
      omega
    rw [outside, if_pos hin]
    exact ih (by omega) (by omega)

/-- A span that ends in front of the bytes does not matter. -/
theorem outside_cons_of_behind {p : Span} (h : p.stop ≤ offset) (as : List UInt8) :
    outside (p :: spans) offset as = outside spans offset as := by
  induction as generalizing offset with
  | nil => rfl
  | cons a as ih =>
    have hnot : p.holds offset = false := by
      simp only [holds, Bool.and_eq_false_iff, decide_eq_false_iff_not]
      omega
    simp only [outside, List.any_cons, hnot, Bool.false_or, ih (Nat.le_succ_of_le h)]

end Span

namespace Source

variable (s : Source) {start stop : Nat}

/-- A slice ends where it is to stop, or earlier. -/
theorem length_slice_le (start stop : Nat) : start + (s.slice start stop).length ≤ max start stop := by
  simp only [slice, List.length_drop, List.length_take]
  omega

/-- The bytes from one offset on, cut at a later one. -/
theorem slice_append_drop (h : start ≤ stop) :
    s.slice start stop ++ s.bytes.drop stop = s.bytes.drop start := by
  have hcut : s.bytes.take stop ++ s.bytes.drop stop = s.bytes := List.take_append_drop stop s.bytes
  by_cases hlength : start ≤ (s.bytes.take stop).length
  · rw [slice, ← List.drop_append_of_le_length hlength, hcut]
  · rw [List.length_take] at hlength
    rw [slice, List.drop_eq_nil_of_le (by rw [List.length_take]; omega),
      List.drop_eq_nil_of_le (by omega), List.drop_eq_nil_of_le (by omega)]
    rfl

/-- What lies outside of spans from one offset on, cut at a later one. -/
theorem outside_drop (spans : List Span) (h : start ≤ stop) :
    Span.outside spans start (s.bytes.drop start)
      = Span.outside spans start (s.slice start stop)
        ++ Span.outside spans stop (s.bytes.drop stop) := by
  rw [← s.slice_append_drop h, Span.outside_append]
  congr 1
  by_cases hlength : stop ≤ s.bytes.length
  · have hreach : start + (s.slice start stop).length = stop := by
      simp only [slice, List.length_drop, List.length_take]
      omega
    rw [hreach]
  · rw [List.drop_eq_nil_of_le (by omega)]
    rfl

/-- Dropping the front of a slice gives the slice that starts later. -/
theorem drop_slice (h : start ≤ stop) (last : Nat) :
    (s.slice start last).drop (stop - start) = s.slice stop last := by
  rw [slice, List.drop_drop, Nat.add_sub_cancel' h, slice]

/-- A slice takes bytes from its start on. -/
theorem slice_eq_take (start stop : Nat) :
    s.slice start stop = (s.bytes.drop start).take (stop - start) :=
  List.drop_take

/-- A slice starts all that comes from its start on. -/
theorem slice_prefix_drop (start stop : Nat) : s.slice start stop <+: s.bytes.drop start := by
  rw [slice_eq_take]
  exact List.take_prefix _ _

/-- A slice begins every slice that stops later. -/
theorem slice_prefix_slice (start : Nat) {stop last : Nat} (h : stop ≤ last) :
    s.slice start stop <+: s.slice start last := by
  rw [slice_eq_take, slice_eq_take]
  exact List.take_prefix_take_left (Nat.sub_le_sub_right h start)

/-- What stands from an offset on is the slice there. -/
theorem slice_of_prefix_drop {bs : List UInt8} (h : bs <+: s.bytes.drop start) :
    s.slice start (start + bs.length) = bs := by
  rw [slice_eq_take, Nat.add_sub_cancel_left]
  exact (List.prefix_iff_eq_take.mp h).symm

end Source

namespace Edit

variable {s : Source} {es : List Edit} {cursor : Nat} {bytes : List UInt8}

/-- Applying edits one after another, taken apart. -/
theorem exists_of_spliceFrom_cons {e : Edit} (h : spliceFrom s cursor (e :: es) = .ok bytes) :
    cursor ≤ e.start ∧ ∃ rest, spliceFrom s e.stop es = .ok rest
      ∧ bytes = s.slice cursor e.start ++ Text.encode e.text ++ rest := by
  rw [spliceFrom] at h
  split at h
  · cases h
  · next hstart =>
    cases hrest : spliceFrom s e.stop es with
    | error o =>
      rw [hrest] at h
      cases h
    | ok rest =>
      rw [hrest] at h
      cases h
      exact ⟨Nat.not_lt.mp hstart, rest, rfl, rfl⟩

/-- What lies outside of the spans of edits, from the offset on up to which edits are applied. -/
theorem outside_span_cons {e : Edit} (hcursor : cursor ≤ e.start) (he : e.start ≤ e.stop)
    (hes : ∀ f ∈ es, e.stop ≤ f.start) :
    Span.outside ((e :: es).map span) cursor (s.bytes.drop cursor)
      = s.slice cursor e.start ++ Span.outside (es.map span) e.stop (s.bytes.drop e.stop) := by
  have hbefore : ∀ p ∈ (e :: es).map span, cursor + (s.slice cursor e.start).length ≤ p.start := by
    intro p hp
    have hlength := s.length_slice_le cursor e.start
    obtain ⟨f, hf, rfl⟩ := List.mem_map.mp hp
    obtain rfl | hf := List.mem_cons.mp hf
    · exact Nat.le_trans hlength (Nat.le_of_eq (Nat.max_eq_right hcursor))
    · have hstart := hes f hf
      simp only [span]
      omega
  have hinside : Span.outside ((e :: es).map span) e.start (s.slice e.start e.stop) = [] := by
    have hlength := s.length_slice_le e.start e.stop
    refine Span.outside_of_inside (List.mem_map_of_mem List.mem_cons_self) (Nat.le_refl _) ?_
    exact Nat.le_trans hlength (Nat.le_of_eq (Nat.max_eq_right he))
  have hbehind : e.span.stop ≤ e.stop := Nat.le_refl _
  rw [s.outside_drop _ hcursor, Span.outside_of_before hbefore, s.outside_drop _ he, hinside,
    List.nil_append, List.map_cons, Span.outside_cons_of_behind hbehind]

/-- Where the text of an edit ends up: a span with just this text. -/
def LandsAt (out : Source) (e : Edit) (p : Span) : Prop :=
  p.stop = p.start + (Text.encode e.text).length ∧ out.slice p.start p.stop = Text.encode e.text

/-- The texts of edits end up one behind the other, and without them the output is the source without
what the edits replace. The edits are those from some offset on; `front` is what the output has in front
of them. -/
theorem exists_landings_from (hforward : ∀ e ∈ es, e.start ≤ e.stop)
    (h : spliceFrom s cursor es = .ok bytes) (front : List UInt8) :
    ∃ landings, List.Forall₂ (LandsAt ⟨front ++ bytes⟩) es landings
      ∧ (∀ p ∈ landings, front.length ≤ p.start)
      ∧ landings.Pairwise (fun p q => p.stop ≤ q.start)
      ∧ Span.outside landings front.length bytes
        = Span.outside (es.map span) cursor (s.bytes.drop cursor) := by
  induction es generalizing cursor bytes front with
  | nil =>
    cases h
    refine ⟨[], .nil, List.forall_mem_nil _, .nil, ?_⟩
    rw [Span.outside_of_before (List.forall_mem_nil _), List.map_nil,
      Span.outside_of_before (List.forall_mem_nil _)]
  | cons e es ih =>
    obtain ⟨he, hes⟩ := List.forall_mem_cons.mp hforward
    obtain ⟨hcursor, rest, hrest, rfl⟩ := exists_of_spliceFrom_cons h
    have hlater := (pairwise_of_spliceFrom hes hrest).1
    let kept := s.slice cursor e.start
    let text := Text.encode e.text
    obtain ⟨landings, hlands, hbehind, hordered, hout⟩ := ih hes hrest (front ++ kept ++ text)
    have hwhole : front ++ (kept ++ text ++ rest) = front ++ kept ++ text ++ rest := by
      simp only [List.append_assoc]
    have hlength : (front ++ kept ++ text).length = front.length + kept.length + text.length := by
      simp only [List.length_append]
    let p : Span := ⟨front.length + kept.length, front.length + kept.length + text.length⟩
    have hstop : ∀ q ∈ landings, p.stop ≤ q.start :=
      fun q hq => Nat.le_trans (Nat.le_of_eq hlength.symm) (hbehind q hq)
    have hstart : ∀ q ∈ p :: landings, front.length + kept.length ≤ q.start := by
      refine List.forall_mem_cons.mpr ⟨Nat.le_refl _, fun q hq => ?_⟩
      exact Nat.le_trans (Nat.le_add_right _ _) (hstop q hq)
    refine ⟨p :: landings, .cons ⟨rfl, ?_⟩ (hwhole ▸ hlands),
      fun q hq => Nat.le_trans (Nat.le_add_right _ _) (hstart q hq),
      List.pairwise_cons.mpr ⟨hstop, hordered⟩, ?_⟩
    · rw [hwhole]
      have hfront : (front ++ kept).length = front.length + kept.length := List.length_append
      simp only [Source.slice, p, ← hfront]
      rw [List.append_assoc _ text, List.take_length_add_append, List.drop_left, List.take_left]
    · rw [outside_span_cons hcursor he hlater, ← hout, hlength, List.append_assoc,
        Span.outside_append, Span.outside_of_before hstart, Span.outside_append,
        Span.outside_of_inside List.mem_cons_self (Nat.le_refl _) (Nat.le_refl _), List.nil_append,
        Span.outside_cons_of_behind (Nat.le_refl _)]

/-- The edits that end before an offset or at it. -/
def upTo (es : List Edit) (offset : Nat) : List Edit := es.filter fun e => e.stop ≤ offset

/-- What edits come to together, where each counts for so much. -/
def total (amount : Edit → Nat) : List Edit → Nat
  | [] => 0
  | e :: es => amount e + total amount es

/-- The number of bytes that edits write. -/
def written (es : List Edit) : Nat := total (fun e => (Text.encode e.text).length) es

/-- The number of bytes that edits replace. -/
def replaced (es : List Edit) : Nat := total (fun e => e.stop - e.start) es

/-- The order of edits does not matter for what they come to. -/
theorem total_perm (amount : Edit → Nat) {es fs : List Edit} (h : es.Perm fs) :
    total amount es = total amount fs := by
  induction h with
  | nil => rfl
  | cons e _ ih => rw [total, total, ih]
  | swap e f es =>
    simp only [total]
    omega
  | trans _ _ ih ih' => exact ih.trans ih'

/-- No edits are up to an offset that all of them go beyond. -/
theorem upTo_eq_nil {offset : Nat} (h : ∀ e ∈ es, offset < e.stop) : upTo es offset = [] := by
  rw [upTo, List.filter_eq_nil_iff]
  intro e he
  have hbehind := h e he
  simpa using hbehind

/-- A span of the source that is apart from all edits is found again in the output, if it does not start
behind the end of the source. The edits are those from some offset on. -/
theorem exists_prefix_of_apart (hforward : ∀ e ∈ es, e.start ≤ e.stop)
    (h : spliceFrom s cursor es = .ok bytes) {p : Span} (hp : p.start ≤ p.stop)
    (hcursor : cursor ≤ p.start) (hapart : ∀ e ∈ es, p.Apart e.span) :
    ∃ offset, offset + replaced (upTo es p.start) = p.start - cursor + written (upTo es p.start)
      ∧ (p.start ≤ s.bytes.length → s.slice p.start p.stop <+: bytes.drop offset) := by
  induction es generalizing cursor bytes with
  | nil =>
    cases h
    refine ⟨p.start - cursor, rfl, fun _ => ?_⟩
    rw [List.drop_drop, Nat.add_sub_cancel' hcursor]
    exact s.slice_prefix_drop p.start p.stop
  | cons e es ih =>
    obtain ⟨he, hes⟩ := List.forall_mem_cons.mp hforward
    obtain ⟨hhere, hthere⟩ := List.forall_mem_cons.mp hapart
    obtain ⟨hstart, rest, hrest, rfl⟩ := exists_of_spliceFrom_cons h
    have hkept : (s.slice cursor e.start).length = min e.start s.bytes.length - cursor := by
      simp only [Source.slice, List.length_drop, List.length_take]
    by_cases hbefore : e.stop ≤ p.start
    · obtain ⟨offset, hoffset, hprefix⟩ := ih hes hrest hbefore hthere
      refine ⟨e.start - cursor + (Text.encode e.text).length + offset, ?_, fun hsource => ?_⟩
      · have hupTo : upTo (e :: es) p.start = e :: upTo es p.start :=
          List.filter_cons_of_pos (by simpa using hbefore)
        simp only [hupTo, replaced, written, total] at hoffset ⊢
        omega
      · have hlength : e.start - cursor + (Text.encode e.text).length
            = (s.slice cursor e.start ++ Text.encode e.text).length := by
          rw [List.length_append, hkept]
          omega
        rw [hlength, List.drop_length_add_append]
        exact hprefix hsource
    · have hstop : p.stop ≤ e.start := by
        simp only [Span.Apart, span] at hhere
        omega
      have hlater := (pairwise_of_spliceFrom hes hrest).1
      have hupTo : upTo (e :: es) p.start = [] := by
        refine upTo_eq_nil (List.forall_mem_cons.mpr ⟨by omega, fun f hf => ?_⟩)
        have hbehind := hlater f hf
        have hf := hes f hf
        omega
      refine ⟨p.start - cursor, by rw [hupTo]; rfl, fun hsource => ?_⟩
      have hreach : p.start - cursor ≤ (s.slice cursor e.start).length := by omega
      rw [List.append_assoc, List.drop_append_of_le_length hreach, s.drop_slice hcursor]
      exact (s.slice_prefix_slice p.start hstop).trans (List.prefix_append _ _)

variable {queue : List Edit}

/-- Putting edits in order changes none of them. -/
theorem mem_inOrder {e : Edit} : e ∈ inOrder queue ↔ e ∈ queue :=
  (List.mergeSort_perm queue appliedBefore).mem_iff

/-- The texts of edits end up one behind the other, and the output without them is the source without
what the edits replace. -/
theorem exists_landings (hforward : ∀ e ∈ queue, e.start ≤ e.stop)
    (h : splice s queue = .ok bytes) :
    ∃ landings, List.Forall₂ (LandsAt ⟨bytes⟩) (inOrder queue) landings
      ∧ landings.Pairwise (fun p q => p.stop ≤ q.start)
      ∧ Span.outside landings 0 bytes = Span.outside (queue.map span) 0 s.bytes := by
  have hinOrder : ∀ e ∈ inOrder queue, e.start ≤ e.stop := fun e he => hforward e (mem_inOrder.mp he)
  obtain ⟨landings, hlands, -, hordered, hout⟩ := exists_landings_from hinOrder h []
  refine ⟨landings, hlands, hordered, hout.trans ?_⟩
  rw [List.drop_zero]
  exact Span.outside_congr (fun p => by simp only [List.mem_map, mem_inOrder]) s.bytes

/-- A span of the source that is apart from all edits is found again in the output, further on by what
the edits before it write, and less far by what they replace. -/
theorem exists_slice_of_apart (hforward : ∀ e ∈ queue, e.start ≤ e.stop)
    (h : splice s queue = .ok bytes) {p : Span} (hp : p.start ≤ p.stop)
    (hapart : ∀ e ∈ queue, p.Apart e.span) :
    ∃ offset, offset + replaced (upTo queue p.start) = p.start + written (upTo queue p.start)
      ∧ (⟨bytes⟩ : Source).slice offset (offset + (s.slice p.start p.stop).length)
        = s.slice p.start p.stop := by
  have hinOrder : ∀ e ∈ inOrder queue, e.start ≤ e.stop := fun e he => hforward e (mem_inOrder.mp he)
  obtain ⟨offset, hoffset, hprefix⟩ := exists_prefix_of_apart hinOrder h hp (Nat.zero_le _)
    fun e he => hapart e (mem_inOrder.mp he)
  have hfound : s.slice p.start p.stop <+: bytes.drop offset := by
    by_cases hsource : p.start ≤ s.bytes.length
    · exact hprefix hsource
    · have hnil : s.slice p.start p.stop = [] := by
        rw [Source.slice_eq_take, List.drop_eq_nil_of_le (by omega), List.take_nil]
      rw [hnil]
      exact List.nil_prefix
  refine ⟨offset, ?_, Source.slice_of_prefix_drop _ hfound⟩
  have hperm : (upTo (inOrder queue) p.start).Perm (upTo queue p.start) :=
    (List.mergeSort_perm queue appliedBefore).filter _
  have hreplaced : replaced (upTo (inOrder queue) p.start) = replaced (upTo queue p.start) :=
    total_perm _ hperm
  have hwritten : written (upTo (inOrder queue) p.start) = written (upTo queue p.start) :=
    total_perm _ hperm
  rwa [hreplaced, hwritten, Nat.sub_zero] at hoffset

end Edit

namespace Edit

/-- What some edits leave where a node was: the text of the first one that replaces just this node, or
the text of the node. -/
def textLeft (es : List Edit) (n : Node) (text : Text) : Text :=
  ((es.find? fun e => e.span = n.span).map (·.text)).getD text

/-- Where a node was replaced, the new text is left. -/
@[simp] theorem textLeft_replacing (n : Node) (text written : Text) :
    textLeft [.replacing n written] n text = written := by
  simp [textLeft, replacing, span]

/-- Edits leave the text of a node, or that of one of them. -/
theorem textLeft_cases (es : List Edit) (n : Node) (text : Text) :
    (textLeft es n text = text ∧ ∀ e ∈ es, e.span ≠ n.span)
      ∨ ∃ e ∈ es, textLeft es n text = e.text := by
  cases hfind : es.find? fun e => e.span = n.span with
  | none =>
    refine .inl ⟨by rw [textLeft, hfind]; rfl, fun e he => ?_⟩
    simpa using List.find?_eq_none.mp hfind e he
  | some e => exact .inr ⟨e, List.mem_of_find?_eq_some hfind, by rw [textLeft, hfind]; rfl⟩

end Edit

end PhpPrefixer
