import Mathlib.Data.List.Basic
import PhpPrefixer.Proofs.Remainder
import PhpPrefixer.Proofs.StableSort

/-!
# Edits, position by position

Edits are applied by going through them in order with one cursor. What comes out can be told without an
order and without a cursor: `Edit.wovenAt` is what stands at a position afterwards, and `Edit.woven` is
all of it. The two agree when the edits are apart (`Edit.apply_eq_woven`); for the bytes of a source this
is `Source.render_woven`.

Offsets may count bytes or characters. So the units that are edited are of any type, and a text is put
among them by `spell`.
-/

namespace PhpPrefixer

namespace Edit

/-- Two edits share a unit, or one inserts strictly inside the other. -/
def Overlaps (a b : Edit) : Prop := a.start < b.stop ∧ b.start < a.stop

instance (a b : Edit) : Decidable (a.Overlaps b) := inferInstanceAs (Decidable (_ ∧ _))

/-- Edits that are not apart overlap. -/
theorem not_apart_iff {a b : Edit} : ¬a.Apart b ↔ a.Overlaps b := by
  simp only [Apart, Span.Apart, span, Overlaps]
  omega

/-- Edits are not all apart exactly when two entries of the queue overlap. -/
theorem not_pairwise_apart_iff {queue : List Edit} :
    ¬queue.Pairwise Apart
      ↔ ∃ i j : Nat, i ≠ j ∧ ∃ a ∈ queue[i]?, ∃ b ∈ queue[j]?, Overlaps a b := by
  constructor
  · intro hnot
    by_contra hnone
    refine hnot (List.pairwise_iff_getElem.mpr fun i j hi hj hij => ?_)
    by_contra hab
    exact hnone ⟨i, j, Nat.ne_of_lt hij, _, List.getElem?_eq_getElem hi, _,
      List.getElem?_eq_getElem hj, not_apart_iff.mp hab⟩
  · rintro ⟨i, j, hne, a, ha, b, hb, hab⟩ hapart
    obtain ⟨hi, rfl⟩ := List.getElem?_eq_some_iff.mp ha
    obtain ⟨hj, rfl⟩ := List.getElem?_eq_some_iff.mp hb
    rw [List.pairwise_iff_getElem] at hapart
    rcases Nat.lt_or_gt_of_ne hne with hlt | hgt
    · exact not_apart_iff.mpr hab (hapart i j hi hj hlt)
    · exact not_apart_iff.mpr hab (hapart j i hj hi hgt).symm

/-- Whether an edit inserts at a position. -/
def insertsAt (position : Nat) (e : Edit) : Bool := e.isInsertion && e.start = position

/-- Whether an edit replaces something from a position on. -/
def replacesFrom (position : Nat) (e : Edit) : Bool := !e.isInsertion && e.start = position

/-- Whether an edit replaces the unit at a position. -/
def covers (position : Nat) (e : Edit) : Bool := e.start ≤ position && position < e.stop

/-- The insertions at a position, in the order of the queue. -/
def insertionsAt (position : Nat) (queue : List Edit) : List Edit := queue.filter (insertsAt position)

/-- An edit inserts at a position if it starts and stops there. -/
theorem insertsAt_iff {position : Nat} {e : Edit} :
    insertsAt position e = true ↔ e.start = e.stop ∧ e.start = position := by
  simp [insertsAt, isInsertion]

/-- An edit replaces from a position on if it starts there and is no insertion. -/
theorem replacesFrom_iff {position : Nat} {e : Edit} :
    replacesFrom position e = true ↔ e.start ≠ e.stop ∧ e.start = position := by
  simp [replacesFrom, isInsertion]

/-- An edit covers a position if it starts there or before and stops behind it. -/
theorem covers_iff {position : Nat} {e : Edit} :
    covers position e = true ↔ e.start ≤ position ∧ position < e.stop := by
  simp [covers]

section

variable {α : Type} (spell : Text → List α) (units : List α)

/-- What stands at a position after a queue of edits: the texts inserted there, and then the text of the
replacement that starts there, or else the unit that was there unless it is replaced. -/
def wovenAt (queue : List Edit) (position : Nat) : List α :=
  (insertionsAt position queue).flatMap (fun e => spell e.text)
    ++ match queue.find? (replacesFrom position) with
      | some e => spell e.text
      | none => if queue.any (covers position) then [] else units[position]?.toList

/-- What a queue of edits makes of some units, from the first position to the one behind the last. -/
def woven (queue : List Edit) : List α :=
  (List.range (units.length + 1)).flatMap (wovenAt spell units queue)

/-- Applying edits that are in order, from a position on. -/
def applyFrom (cursor : Nat) : List Edit → Except Overlap (List α)
  | [] => .ok (units.drop cursor)
  | e :: es =>
    if e.start < cursor then .error ⟨e.start, e.stop, cursor⟩
    else do
      let rest ← applyFrom e.stop es
      return (units.take e.start).drop cursor ++ spell e.text ++ rest

/-- Applying a queue of edits. -/
def apply (queue : List Edit) : Except Overlap (List α) := applyFrom spell units 0 (inOrder queue)

end

/-- The bytes of a source are edited as any other units are. -/
theorem spliceFrom_eq_applyFrom (s : Source) (cursor : Nat) (es : List Edit) :
    spliceFrom s cursor es = applyFrom Text.encode s.bytes cursor es := by
  induction es generalizing cursor with
  | nil => rfl
  | cons e es ih => simp only [spliceFrom, applyFrom, ih, Source.slice]

/-- Splicing edits into bytes is applying them to units, with each text in bytes. -/
theorem splice_eq_apply (s : Source) (queue : List Edit) :
    splice s queue = apply Text.encode s.bytes queue :=
  spliceFrom_eq_applyFrom s 0 (inOrder queue)

variable {α : Type} {spell : Text → List α} {units : List α} {es : List Edit} {e : Edit}
  {position : Nat}

/-- In front of all edits stands what was there. -/
theorem wovenAt_of_before (h : ∀ f ∈ es, position < f.start) :
    wovenAt spell units es position = units[position]?.toList := by
  have hinsertions : insertionsAt position es = [] := by
    refine List.filter_eq_nil_iff.mpr fun f hf hinserts => ?_
    have hbefore := h f hf
    have hstart := (insertsAt_iff.mp hinserts).2
    omega
  have hreplacement : es.find? (replacesFrom position) = none := by
    refine List.find?_eq_none.mpr fun f hf hreplaces => ?_
    have hbefore := h f hf
    have hstart := (replacesFrom_iff.mp hreplaces).2
    omega
  have hcovered : es.any (covers position) = false := by
    refine List.any_eq_false.mpr fun f hf hcovers => ?_
    have hbefore := h f hf
    have hinside := covers_iff.mp hcovers
    omega
  rw [wovenAt, hinsertions, hreplacement, hcovered]
  rfl

/-- Behind an edit, the edit does not matter. -/
theorem wovenAt_cons_of_behind (hstart : e.start < position) (hstop : e.stop ≤ position) :
    wovenAt spell units (e :: es) position = wovenAt spell units es position := by
  have hinserts : ¬insertsAt position e = true := fun h => by
    have hhere := (insertsAt_iff.mp h).2
    omega
  have hreplaces : ¬replacesFrom position e = true := fun h => by
    have hhere := (replacesFrom_iff.mp h).2
    omega
  have hcovers : covers position e = false := by
    refine Bool.eq_false_iff.mpr fun h => ?_
    have hinside := covers_iff.mp h
    omega
  rw [wovenAt, wovenAt, insertionsAt, insertionsAt, List.filter_cons_of_neg hinserts,
    List.find?_cons_of_neg hreplaces, List.any_cons, hcovers, Bool.false_or]

/-- An insertion comes first at its position. -/
theorem wovenAt_cons_of_insertion (h : e.start = e.stop) :
    wovenAt spell units (e :: es) e.start = spell e.text ++ wovenAt spell units es e.start := by
  have hinserts : insertsAt e.start e = true := insertsAt_iff.mpr ⟨h, rfl⟩
  have hreplaces : ¬replacesFrom e.start e = true := fun hr => (replacesFrom_iff.mp hr).1 h
  have hcovers : covers e.start e = false := by
    refine Bool.eq_false_iff.mpr fun hc => ?_
    have hinside := covers_iff.mp hc
    omega
  rw [wovenAt, wovenAt, insertionsAt, insertionsAt, List.filter_cons_of_pos hinserts,
    List.find?_cons_of_neg hreplaces, List.any_cons, hcovers, Bool.false_or, List.flatMap_cons,
    List.append_assoc]

/-- Where the edits behind a replacement start, nothing is inserted at what it replaces. -/
theorem insertionsAt_cons_of_replaced (hstart : e.start ≠ e.stop) (hstop : position < e.stop)
    (hes : ∀ f ∈ es, e.stop ≤ f.start) : insertionsAt position (e :: es) = [] := by
  refine List.filter_eq_nil_iff.mpr (List.forall_mem_cons.mpr ⟨fun h => ?_, fun f hf h => ?_⟩)
  · exact hstart (insertsAt_iff.mp h).1
  · have hbehind := hes f hf
    have hhere := (insertsAt_iff.mp h).2
    omega

/-- Where a replacement starts stands its text. -/
theorem wovenAt_cons_of_replacement (h : e.start < e.stop) (hes : ∀ f ∈ es, e.stop ≤ f.start) :
    wovenAt spell units (e :: es) e.start = spell e.text := by
  have hne : e.start ≠ e.stop := Nat.ne_of_lt h
  have hreplaces : replacesFrom e.start e = true := replacesFrom_iff.mpr ⟨hne, rfl⟩
  rw [wovenAt, insertionsAt_cons_of_replaced hne h hes, List.find?_cons_of_pos hreplaces]
  rfl

/-- Inside a replacement stands nothing. -/
theorem wovenAt_cons_of_inside (hstart : e.start < position) (hstop : position < e.stop)
    (hes : ∀ f ∈ es, e.stop ≤ f.start) : wovenAt spell units (e :: es) position = [] := by
  have hne : e.start ≠ e.stop := by omega
  have hreplacement : (e :: es).find? (replacesFrom position) = none := by
    refine List.find?_eq_none.mpr (List.forall_mem_cons.mpr ⟨fun h => ?_, fun f hf h => ?_⟩)
    · have hhere := (replacesFrom_iff.mp h).2
      omega
    · have hbehind := hes f hf
      have hhere := (replacesFrom_iff.mp h).2
      omega
  have hcovered : (e :: es).any (covers position) = true := by
    rw [List.any_cons, covers_iff.mpr ⟨Nat.le_of_lt hstart, hstop⟩, Bool.true_or]
  rw [wovenAt, insertionsAt_cons_of_replaced hne hstop hes, hreplacement, hcovered]
  rfl

/-- Some positions in a row hold a slice. -/
theorem flatMap_range'_getElem? (units : List α) (start count : Nat) :
    (List.range' start count).flatMap (fun i => units[i]?.toList) = (units.drop start).take count := by
  induction count generalizing start with
  | zero => simp
  | succ count ih =>
    rw [List.range'_succ, List.flatMap_cons, ih]
    by_cases hstart : start < units.length
    · rw [List.getElem?_eq_getElem hstart, List.drop_eq_getElem_cons hstart, List.take_succ_cons]
      rfl
    · have hend : units.length ≤ start := Nat.not_lt.mp hstart
      rw [List.getElem?_eq_none hend, List.drop_eq_nil_of_le hend,
        List.drop_eq_nil_of_le (Nat.le_succ_of_le hend)]
      simp

/-- What stands at the positions up to the end, from an edit on, is its text and what stands at the
positions behind it. -/
theorem flatMap_wovenAt_cons (hforward : e.start ≤ e.stop) (hstop : e.stop ≤ units.length)
    (hes : ∀ f ∈ es, e.stop ≤ f.start) :
    (List.range' e.start (units.length + 1 - e.start)).flatMap (wovenAt spell units (e :: es))
      = spell e.text
        ++ (List.range' e.stop (units.length + 1 - e.stop)).flatMap (wovenAt spell units es) := by
  have hbehind : ∀ first count, e.start < first → e.stop ≤ first →
      (List.range' first count).flatMap (wovenAt spell units (e :: es))
        = (List.range' first count).flatMap (wovenAt spell units es) := by
    intro first count hfirst hafter
    refine List.flatMap_congr fun i hi => ?_
    have hle := (List.mem_range'_1.mp hi).1
    exact wovenAt_cons_of_behind (by omega) (by omega)
  rcases Nat.eq_or_lt_of_le hforward with heq | hlt
  · have hcount : units.length + 1 - e.start = units.length - e.start + 1 := by omega
    rw [← heq, hcount, List.range'_succ, List.flatMap_cons, List.flatMap_cons,
      wovenAt_cons_of_insertion heq, hbehind _ _ (Nat.lt_succ_self _) (by omega), List.append_assoc]
  · let inside := e.stop - e.start - 1
    let behind := units.length + 1 - e.stop
    have hcount : units.length + 1 - e.start = inside + behind + 1 := by omega
    have hnext : e.start + 1 + inside = e.stop := by omega
    have hinside : (List.range' (e.start + 1) inside).flatMap (wovenAt spell units (e :: es)) = [] := by
      refine List.flatMap_eq_nil_iff.mpr fun i hi => ?_
      have hbounds := List.mem_range'_1.mp hi
      exact wovenAt_cons_of_inside (by omega) (by omega) hes
    rw [hcount, List.range'_succ, List.flatMap_cons, wovenAt_cons_of_replacement hlt hes,
      ← List.range'_append_1, hnext, List.flatMap_append, hinside, List.nil_append,
      hbehind _ _ hlt (Nat.le_refl _)]

/-- Edits that follow one another are applied, and what comes out is told position by position. -/
theorem applyFrom_eq_woven {cursor : Nat} (hcursor : ∀ f ∈ es, cursor ≤ f.start)
    (hforward : ∀ f ∈ es, f.start ≤ f.stop ∧ f.stop ≤ units.length)
    (hordered : es.Pairwise fun a b => a.stop ≤ b.start) :
    applyFrom spell units cursor es
      = .ok ((List.range' cursor (units.length + 1 - cursor)).flatMap (wovenAt spell units es)) := by
  -- On the edits, as in the definition; the cursor stands where the last edit stopped.
  induction es generalizing cursor with
  | nil =>
    have hwoven : wovenAt spell units [] = fun i => units[i]?.toList := by
      funext i
      exact wovenAt_of_before (List.forall_mem_nil _)
    have hall : (units.drop cursor).length ≤ units.length + 1 - cursor := by
      rw [List.length_drop]
      omega
    rw [applyFrom, hwoven, flatMap_range'_getElem?, List.take_of_length_le hall]
  | cons e es ih =>
    obtain ⟨hlater, hrest⟩ := List.pairwise_cons.mp hordered
    obtain ⟨he, hes⟩ := List.forall_mem_cons.mp hforward
    have hstart : cursor ≤ e.start := hcursor e List.mem_cons_self
    have hkept : (List.range' cursor (e.start - cursor)).flatMap (wovenAt spell units (e :: es))
        = (units.take e.start).drop cursor := by
      have hbefore : ∀ i ∈ List.range' cursor (e.start - cursor),
          wovenAt spell units (e :: es) i = units[i]?.toList := by
        intro i hi
        have hbounds := List.mem_range'_1.mp hi
        refine wovenAt_of_before (List.forall_mem_cons.mpr ⟨by omega, fun f hf => ?_⟩)
        have hbehind := hlater f hf
        omega
      rw [List.flatMap_congr hbefore, flatMap_range'_getElem?, List.drop_take]
    have hcount : units.length + 1 - cursor
        = e.start - cursor + (units.length + 1 - e.start) := by omega
    have hnext : cursor + (e.start - cursor) = e.start := by omega
    rw [applyFrom, if_neg (Nat.not_lt.mpr hstart), ih hlater hes hrest, hcount,
      ← List.range'_append_1, hnext, List.flatMap_append, hkept,
      flatMap_wovenAt_cons he.1 he.2 hlater, ← List.append_assoc]
    rfl

variable {queue other : List Edit}

/-- Of edits that are apart, only one replaces something from a position on. -/
theorem eq_of_replacesFrom (hforward : ∀ f ∈ queue, f.start ≤ f.stop) (hapart : queue.Pairwise Apart)
    {a b : Edit} (ha : a ∈ queue) (hb : b ∈ queue) (hareplaces : replacesFrom position a = true)
    (hbreplaces : replacesFrom position b = true) : a = b := by
  by_contra hne
  have hsymm : Std.Symm Apart := ⟨fun _ _ => Apart.symm⟩
  have hab := hapart.forall ha hb hne
  have haforward := hforward a ha
  have hbforward := hforward b hb
  have hastart := replacesFrom_iff.mp hareplaces
  have hbstart := replacesFrom_iff.mp hbreplaces
  simp only [Apart, Span.Apart, span] at hab
  omega

/-- The order of the queue does not matter at a position, if the insertions there keep theirs. -/
theorem wovenAt_congr (hforward : ∀ f ∈ queue, f.start ≤ f.stop) (hapart : queue.Pairwise Apart)
    (hperm : other.Perm queue) (hinsertions : insertionsAt position other = insertionsAt position queue) :
    wovenAt spell units other position = wovenAt spell units queue position := by
  have hreplacement : other.find? (replacesFrom position) = queue.find? (replacesFrom position) := by
    cases hfound : queue.find? (replacesFrom position) with
    | none =>
      have hnone := List.find?_eq_none.mp hfound
      exact List.find?_eq_none.mpr fun f hf => hnone f (hperm.mem_iff.mp hf)
    | some e =>
      have hreplaces := List.find?_some hfound
      have hmem := List.mem_of_find?_eq_some hfound
      obtain ⟨f, hf⟩ := Option.isSome_iff_exists.mp
        (List.find?_isSome.mpr ⟨e, hperm.mem_iff.mpr hmem, hreplaces⟩)
      have hfmem := hperm.mem_iff.mp (List.mem_of_find?_eq_some hf)
      rw [hf, eq_of_replacesFrom hforward hapart hfmem hmem (List.find?_some hf) hreplaces]
  rw [wovenAt, wovenAt, hinsertions, hreplacement, hperm.any_eq]

/-- The order of edits that are apart makes no difference but for insertions at one offset. -/
theorem woven_congr (hforward : ∀ f ∈ queue, f.start ≤ f.stop) (hapart : queue.Pairwise Apart)
    (hperm : other.Perm queue)
    (hinsertions : ∀ offset, insertionsAt offset other = insertionsAt offset queue) :
    woven spell units other = woven spell units queue :=
  List.flatMap_congr fun offset _ => wovenAt_congr hforward hapart hperm (hinsertions offset)

/-- Insertions at one position are applied in the order of the queue. -/
theorem insertionsAt_inOrder (queue : List Edit) (position : Nat) :
    insertionsAt position (inOrder queue) = insertionsAt position queue := by
  refine filter_mergeSort appliedBefore_trans appliedBefore_total ?_
  refine List.pairwise_of_forall_mem_list fun a ha b hb => appliedBefore_iff.mpr ?_
  have hahere := insertsAt_iff.mp (List.mem_filter.mp ha).2
  have hbhere := insertsAt_iff.mp (List.mem_filter.mp hb).2
  omega

/-- Edits that are apart are applied, and what comes out is told position by position. -/
theorem apply_eq_woven (hqueue : ∀ f ∈ queue, f.start ≤ f.stop ∧ f.stop ≤ units.length)
    (hapart : queue.Pairwise Apart) : apply spell units queue = .ok (woven spell units queue) := by
  have hforward : ∀ f ∈ queue, f.start ≤ f.stop := fun f hf => (hqueue f hf).1
  have hperm : (inOrder queue).Perm queue := List.mergeSort_perm queue appliedBefore
  have hinOrder : ∀ f ∈ inOrder queue, f.start ≤ f.stop ∧ f.stop ≤ units.length :=
    fun f hf => hqueue f (mem_inOrder.mp hf)
  have hordered := pairwise_inOrder hforward hapart
  have happlied : apply spell units queue = .ok (woven spell units (inOrder queue)) := by
    rw [apply, woven, List.range_eq_range']
    exact applyFrom_eq_woven (fun _ _ => Nat.zero_le _) hinOrder hordered
  rw [happlied, woven_congr hforward hapart hperm (insertionsAt_inOrder queue)]

end Edit

namespace Source

variable {s : Source} {queue : List Edit}

/-- What bytes are rendered to. -/
def ofBytes (bytes : List UInt8) : Except RenderError Text :=
  match Text.decode? bytes with
  | none => .error .undecodable
  | some t => .ok t

/-- Rendering edits decodes the bytes that splicing them gives. -/
theorem render_of_splice {bytes : List UInt8} (h : Edit.splice s queue = .ok bytes) :
    s.render queue = ofBytes bytes := by
  rw [render, h]
  rfl

/-- A queue of edits of a source is refused exactly when two of its entries overlap. Otherwise the bytes
that are rendered are told position by position, from the start of the source to its end: the texts
inserted at the position in the order of the queue, and then the text of the replacement that starts
there, or else the byte of the source unless it is replaced. So the order of the queue does not matter,
but for the order of the insertions at one offset. -/
theorem render_woven (s : Source) (hqueue : ∀ e ∈ queue, e.start ≤ e.stop ∧ e.stop ≤ s.bytes.length) :
    ((∃ o, s.render queue = .error (.overlap o))
        ↔ ∃ i j : Nat, i ≠ j ∧ ∃ a ∈ queue[i]?, ∃ b ∈ queue[j]?, Edit.Overlaps a b)
      ∧ ((∀ o, s.render queue ≠ .error (.overlap o)) →
        Edit.splice s queue = .ok (Edit.woven Text.encode s.bytes queue)
          ∧ s.render queue = ofBytes (Edit.woven Text.encode s.bytes queue))
      ∧ ∀ other : List Edit, other.Perm queue →
        (∀ offset, Edit.insertionsAt offset other = Edit.insertionsAt offset queue) →
          ((∃ o, s.render other = .error (.overlap o)) ↔ ∃ o, s.render queue = .error (.overlap o))
            ∧ ((∀ o, s.render queue ≠ .error (.overlap o)) →
              Edit.splice s other = Edit.splice s queue ∧ s.render other = s.render queue) := by
  have hforward : ∀ e ∈ queue, e.start ≤ e.stop := fun e he => (hqueue e he).1
  have hrefused := s.exists_render_overlap_iff hforward
  have hapart : (∀ o, s.render queue ≠ .error (.overlap o)) → queue.Pairwise Edit.Apart := by
    intro hnever
    by_contra hnot
    obtain ⟨o, ho⟩ := hrefused.mpr hnot
    exact hnever o ho
  have hsplice : queue.Pairwise Edit.Apart →
      Edit.splice s queue = .ok (Edit.woven Text.encode s.bytes queue) :=
    fun h => (Edit.splice_eq_apply s queue).trans (Edit.apply_eq_woven hqueue h)
  refine ⟨hrefused.trans Edit.not_pairwise_apart_iff, fun hnever => ?_, fun other hperm hkept => ?_⟩
  · exact ⟨hsplice (hapart hnever), render_of_splice (hsplice (hapart hnever))⟩
  · have hother : ∀ e ∈ other, e.start ≤ e.stop ∧ e.stop ≤ s.bytes.length :=
      fun e he => hqueue e (hperm.mem_iff.mp he)
    have hiff : other.Pairwise Edit.Apart ↔ queue.Pairwise Edit.Apart :=
      ⟨fun h => h.perm hperm Edit.Apart.symm, fun h => h.perm hperm.symm Edit.Apart.symm⟩
    refine ⟨?_, fun hnever => ?_⟩
    · rw [s.exists_render_overlap_iff fun e he => (hother e he).1, hrefused, hiff]
    · have hqueueApart := hapart hnever
      have hotherApart := hiff.mpr hqueueApart
      have hsame : Edit.splice s other = Edit.splice s queue := by
        rw [hsplice hqueueApart, Edit.splice_eq_apply, Edit.apply_eq_woven hother hotherApart,
          Edit.woven_congr hforward hqueueApart hperm hkept]
      refine ⟨hsame, ?_⟩
      rw [render, render, hsame]

/-- Two insertions and a replacement at one offset, an insertion where the replacement stops, and one at
the end. Queueing the replacement later changes nothing; an insertion inside it is refused. -/
theorem render_woven_ties :
    let s : Source := .ofText "ABCD".toList
    let replacement : Edit := ⟨1, 3, "x".toList⟩
    let insertions : List Edit := [.inserting 1 "1".toList, .inserting 4 "e".toList,
      .inserting 1 "2".toList, .inserting 3 "3".toList]
    (∀ e ∈ replacement :: insertions, e.start ≤ e.stop ∧ e.stop ≤ s.bytes.length)
      ∧ Edit.splice s (replacement :: insertions) = .ok (Text.encode "A12x3De".toList)
      ∧ s.render (insertions ++ [replacement]) = .ok "A12x3De".toList
      ∧ ∃ o, s.render (.inserting 2 "2".toList :: replacement :: insertions) = .error (.overlap o) := by
  intro s replacement insertions
  have hqueue : ∀ e ∈ replacement :: insertions, e.start ≤ e.stop ∧ e.stop ≤ s.bytes.length := by
    decide
  obtain ⟨hrefused, hbytes, horder⟩ := s.render_woven hqueue
  have hnever : ∀ o, s.render (replacement :: insertions) ≠ .error (.overlap o) := by
    intro o ho
    have hforward : ∀ e ∈ replacement :: insertions, e.start ≤ e.stop := by decide
    exact (s.exists_render_overlap_iff hforward).mp ⟨o, ho⟩ (by decide)
  have hwoven : Edit.woven Text.encode s.bytes (replacement :: insertions)
      = Text.encode "A12x3De".toList := by decide
  obtain ⟨hsplice, hrender⟩ := hbytes hnever
  rw [hwoven] at hsplice hrender
  refine ⟨hqueue, hsplice, ?_, ?_⟩
  · have hperm : (insertions ++ [replacement]).Perm (replacement :: insertions) := by decide
    have hkept : ∀ offset, Edit.insertionsAt offset (insertions ++ [replacement])
        = Edit.insertionsAt offset (replacement :: insertions) := by
      intro offset
      have hnot : ∀ offset, ¬Edit.insertsAt offset replacement = true := fun _ => Bool.false_ne_true
      rw [Edit.insertionsAt, Edit.insertionsAt, List.filter_append, List.filter_cons_of_neg (hnot _),
        List.filter_cons_of_neg (hnot _), List.filter_nil, List.append_nil]
    rw [((horder _ hperm hkept).2 hnever).2, hrender, ofBytes, Text.decode?_encode]
  · have hmore : ∀ e ∈ Edit.inserting 2 "2".toList :: replacement :: insertions,
        e.start ≤ e.stop ∧ e.stop ≤ s.bytes.length := by decide
    exact (s.render_woven hmore).1.mpr ⟨0, 1, by decide, _, rfl, _, rfl, by decide⟩

end Source

end PhpPrefixer
