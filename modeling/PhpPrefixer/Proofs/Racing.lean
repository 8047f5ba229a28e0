import PhpPrefixer.Proofs.RecordedRenames

/-!
# Racing writers

Several workers record renames in one registry at the same time. Each call is one step, and a worker goes
on with its next call whether or not a call was refused, its own or that of another one. A schedule says
whose turn it is, so every interleaving of the calls is some schedule.

What a race has led to is told by the calls made so far, in their order (`Race.Reflects`): a symbol has the
rename that was the first to be called for it, and a call is refused just if the first one for its symbol
has another target. One call keeps this (`Reflects.advance`), and so does a schedule. What may depend on
the schedule is therefore only which call is the first; `Race.writers_agree` says what does not.

The symbol and the target of a call are those of the rename as it is kept, without leading separators.
-/

namespace PhpPrefixer

/-- A registry that several workers write to. -/
structure Race where
  /-- The registry. -/
  registry : Registry
  /-- The calls that each worker has still to make. -/
  left : List (List Rename)
  /-- The calls that were made, in order. -/
  made : List Attempt

namespace Race

/-- Before any call is made. -/
def start (workers : List (List Rename)) : Race := ⟨.empty, workers, []⟩

/-- The race after the turn of one worker, which makes its next call if it has one. -/
def advance (race : Race) (worker : Nat) : Race :=
  match race.left[worker]? with
  | some (r :: rest) =>
    { registry := (race.registry.attempt r).1
      left := race.left.set worker rest
      made := race.made ++ [(race.registry.attempt r).2] }
  | _ => race

/-- The race after the turns of a schedule. -/
def exec (race : Race) (schedule : List Nat) : Race := schedule.foldl advance race

/-- Every worker has made all its calls. -/
def IsOver (race : Race) : Prop := ∀ calls ∈ race.left, calls = []

instance (race : Race) : Decidable race.IsOver :=
  inferInstanceAs (Decidable (∀ calls ∈ race.left, calls = []))

/-- The first call that was made for a symbol. -/
def first? (race : Race) (key : SymbolKind × Text) : Option Attempt :=
  race.made.find? fun a => a.key = key

variable {race : Race} {workers : List (List Rename)}

/-- A turn changes nothing, or it takes the next call from one worker and makes it. -/
theorem advance_cases (race : Race) (worker : Nat) :
    race.advance worker = race ∨
    ∃ before r rest after, race.left = before ++ (r :: rest) :: after
      ∧ race.advance worker
        = ⟨(race.registry.attempt r).1, before ++ rest :: after,
          race.made ++ [(race.registry.attempt r).2]⟩ := by
  unfold advance
  split
  · next r rest hnext =>
    right
    obtain ⟨hlt, hget⟩ := List.getElem?_eq_some_iff.mp hnext
    refine ⟨race.left.take worker, r, rest, race.left.drop (worker + 1), ?_, ?_⟩
    · rw [← hget, List.getElem_cons_drop, List.take_append_drop]
    · rw [List.set_eq_take_append_cons_drop, if_pos hlt]
  · exact .inl rfl

/-- What a race has led to is told by the calls that were made. -/
structure Reflects (workers : List (List Rename)) (race : Race) : Prop where
  /-- Each call of a worker was made or is left. -/
  calls : (race.made.map Attempt.rename ++ race.left.flatten).Perm workers.flatten
  /-- No symbol is there twice. -/
  nodup : (race.registry.records.map Rename.key).Nodup
  /-- A symbol has the rename that was the first to be called for it. -/
  first : ∀ key, race.registry.findKey? key = (race.first? key).map fun a => a.rename.bare
  /-- A call was refused just if the first one for its symbol has another target. -/
  refused : ∀ a ∈ race.made, ∀ b, race.first? a.key = some b →
    (a.refusal = none ↔ b.target = a.target)

/-- Before a race no call has been made. -/
theorem reflects_start (workers : List (List Rename)) : (start workers).Reflects workers where
  calls := List.Perm.refl _
  nodup := List.nodup_nil
  first _ := rfl
  refused _ ha := absurd ha List.not_mem_nil

/-- A call that was made comes after the first one for its symbol, or is the first one. -/
theorem exists_first?_of_mem {a : Attempt} (h : a ∈ race.made) : ∃ b, race.first? a.key = some b :=
  Option.isSome_iff_exists.mp (List.find?_isSome.mpr ⟨a, h, decide_eq_true rfl⟩)

/-- The first call about a symbol was made, and is about this symbol. -/
theorem first?_eq_some {key : SymbolKind × Text} {b : Attempt} (h : race.first? key = some b) :
    b ∈ race.made ∧ b.key = key :=
  ⟨List.mem_of_find?_eq_some h, of_decide_eq_true (by simpa using List.find?_some h)⟩

/-- A further call is the first one for its symbol if there was none. -/
theorem first?_concat (made : List Attempt) (a : Attempt) (g g' : Registry)
    (left left' : List (List Rename)) (key : SymbolKind × Text) :
    (Race.mk g left (made ++ [a])).first? key
      = ((Race.mk g' left' made).first? key).or (if a.key = key then some a else none) := by
  simp only [first?, List.find?_append, List.find?_singleton, decide_eq_true_eq]

namespace Reflects

/-- A call is made: it is refused just if the first one for its symbol has another target. -/
theorem refusal_attempt (h : race.Reflects workers) (r : Rename) (b : Attempt)
    (hb : (race.first? r.bare.key).or (some (race.registry.attempt r).2) = some b) :
    (race.registry.attempt r).2.refusal = none ↔ b.target = r.bare.target := by
  obtain ⟨hnone, -, hmade⟩ | ⟨old, hold, -, hmade⟩ := race.registry.attempt_cases r
  · have hfirst : race.first? r.bare.key = none := by
      rw [h.first] at hnone
      exact Option.map_eq_none_iff.mp hnone
    rw [hfirst, Option.none_or, Option.some_inj] at hb
    simp [hmade, ← hb, Attempt.target]
  · rw [h.first] at hold
    obtain ⟨a, ha, rfl⟩ := Option.map_eq_some_iff.mp hold
    rw [ha, Option.some_or, Option.some_inj] at hb
    rw [hmade, ← hb, Attempt.target]

/-- One turn keeps the registry told by the calls that were made. -/
theorem advance (h : race.Reflects workers) (worker : Nat) :
    (race.advance worker).Reflects workers := by
  obtain hsame | ⟨before, r, rest, after, hleft, hnext⟩ := race.advance_cases worker
  · rw [hsame]
    exact h
  · rw [hnext]
    have hkey : (race.registry.attempt r).2.key = r.bare.key := by
      rw [Attempt.key, Registry.rename_attempt]
    have hfirst : ∀ key, (Race.mk (race.registry.attempt r).1 (before ++ rest :: after)
        (race.made ++ [(race.registry.attempt r).2])).first? key
          = (race.first? key).or
            (if r.bare.key = key then some (race.registry.attempt r).2 else none) := by
      intro key
      rw [← hkey]
      exact first?_concat _ _ _ race.registry _ race.left key
    refine ⟨?_, Registry.nodup_attempt r h.nodup, fun key => ?_, ?_⟩
    · have hmoved : ((race.made.map Attempt.rename ++ [r]) ++ (before ++ rest :: after).flatten).Perm
          (race.made.map Attempt.rename ++ (before ++ (r :: rest) :: after).flatten) := by
        simp only [List.flatten_append, List.flatten_cons, List.append_assoc, List.cons_append,
          List.nil_append]
        exact List.Perm.append_left _ List.perm_middle.symm
      rw [List.map_append, List.map_singleton, Registry.rename_attempt]
      exact hmoved.trans (hleft ▸ h.calls)
    · rw [Registry.findKey?_attempt, h.first, hfirst]
      cases race.first? key with
      | some b => rfl
      | none =>
        by_cases hnew : r.bare.key = key
        · simp [hnew]
        · simp [hnew]
    · intro a ha b hb
      rw [hfirst] at hb
      rcases List.mem_append.mp ha with hold | hnew
      · obtain ⟨c, hc⟩ := exists_first?_of_mem hold
        rw [hc, Option.some_or] at hb
        exact h.refused a hold b (hc.trans hb)
      · obtain rfl := List.mem_singleton.mp hnew
        rw [hkey, if_pos rfl] at hb
        rw [Attempt.target.eq_def (race.registry.attempt r).2, Registry.rename_attempt]
        exact h.refusal_attempt r b hb

/-- So does a whole schedule. -/
theorem exec (h : race.Reflects workers) (schedule : List Nat) :
    (race.exec schedule).Reflects workers := by
  induction schedule generalizing race with
  | nil => exact h
  | cons worker schedule ih => exact ih (h.advance worker)

/-- Only calls of the workers are made. -/
theorem mem_calls (h : race.Reflects workers) {a : Attempt} (ha : a ∈ race.made) :
    a.rename ∈ workers.flatten :=
  h.calls.subset (List.mem_append_left _ (List.mem_map_of_mem ha))

/-- In the end each call has been made, as often as the workers make it. -/
theorem perm_made (h : race.Reflects workers) (hover : race.IsOver) :
    (race.made.map Attempt.rename).Perm workers.flatten := by
  have hnone : race.left.flatten = [] := List.flatten_eq_nil_iff.mpr hover
  have hcalls := h.calls
  rwa [hnone, List.append_nil] at hcalls

/-- Every rename that the workers are to record has been tried when the race is over. -/
theorem exists_made (h : race.Reflects workers) (hover : race.IsOver) {r : Rename}
    (hr : r ∈ workers.flatten) : ∃ a ∈ race.made, a.rename = r :=
  List.mem_map.mp ((h.perm_made hover).mem_iff.mpr hr)

/-- The symbols of the registry are those that calls were made for. -/
theorem mem_keys_iff (h : race.Reflects workers) (key : SymbolKind × Text) :
    key ∈ race.registry.records.map Rename.key ↔ ∃ a ∈ race.made, a.key = key := by
  have hrecords : key ∈ race.registry.records.map Rename.key
      ↔ (race.registry.findKey? key).isSome = true := by
    simp [Registry.findKey?, List.find?_isSome]
  have hmade : (race.first? key).isSome = true ↔ ∃ a ∈ race.made, a.key = key := by
    simp [first?, List.find?_isSome]
  rw [hrecords, h.first, Option.isSome_map, hmade]

/-- The target of a symbol is that of the first call for it. -/
theorem target?_eq (h : race.Reflects workers) (key : SymbolKind × Text) :
    race.registry.target? key = (race.first? key).map Attempt.target := by
  rw [Registry.target?, h.first, Option.map_map]
  rfl

/-- No call is refused where the calls for each symbol agree. -/
theorem refusal_eq_none (h : race.Reflects workers)
    (hagree : ∀ a ∈ workers.flatten, ∀ b ∈ workers.flatten, a.bare.key = b.bare.key →
      a.bare.target = b.bare.target) : ∀ a ∈ race.made, a.refusal = none := by
  intro a ha
  obtain ⟨b, hb⟩ := exists_first?_of_mem ha
  obtain ⟨hbmade, hbkey⟩ := first?_eq_some hb
  exact (h.refused a ha b hb).mpr (hagree _ (h.mem_calls hbmade) _ (h.mem_calls ha) hbkey)

/-- Where the calls for each symbol agree, the target of a symbol is that of any call for it. -/
theorem target?_eq_some_iff (h : race.Reflects workers) (hover : race.IsOver)
    (hagree : ∀ a ∈ workers.flatten, ∀ b ∈ workers.flatten, a.bare.key = b.bare.key →
      a.bare.target = b.bare.target) (key : SymbolKind × Text) (target : Text) :
    race.registry.target? key = some target
      ↔ ∃ r ∈ workers.flatten, r.bare.key = key ∧ r.bare.target = target := by
  rw [h.target?_eq, Option.map_eq_some_iff]
  constructor
  · rintro ⟨a, ha, rfl⟩
    obtain ⟨hmade, hkey⟩ := first?_eq_some ha
    exact ⟨a.rename, h.mem_calls hmade, hkey, rfl⟩
  · rintro ⟨r, hr, rfl, rfl⟩
    obtain ⟨a, ha, rfl⟩ := h.exists_made hover hr
    obtain ⟨b, hb⟩ := exists_first?_of_mem ha
    obtain ⟨hbmade, hbkey⟩ := first?_eq_some hb
    exact ⟨b, hb, hagree _ (h.mem_calls hbmade) _ hr hbkey⟩

/-- Of two calls for a symbol that do not agree, one is refused. -/
theorem exists_refused (h : race.Reflects workers) (hover : race.IsOver) {r s : Rename}
    (hr : r ∈ workers.flatten) (hs : s ∈ workers.flatten) (hkey : r.bare.key = s.bare.key)
    (hne : r.bare.target ≠ s.bare.target) :
    ∃ a ∈ race.made, a.key = r.bare.key ∧ a.refusal ≠ none := by
  obtain ⟨a, ha, rfl⟩ := h.exists_made hover hr
  obtain ⟨b, hb, rfl⟩ := h.exists_made hover hs
  obtain ⟨c, hc⟩ := exists_first?_of_mem ha
  have hcb : race.first? b.key = some c := by
    rw [← hc]
    exact congrArg race.first? hkey.symm
  by_cases ha' : a.refusal = none
  · by_cases hb' : b.refusal = none
    · have hta := (h.refused a ha c hc).mp ha'
      have htb := (h.refused b hb c hcb).mp hb'
      exact absurd (hta.symm.trans htb) hne
    · exact ⟨b, hb, hkey.symm, hb'⟩
  · exact ⟨a, ha, rfl, ha'⟩

/-- Where all calls for a symbol differ, the first one is the only one that is not refused. -/
theorem countP_winners (h : race.Reflects workers) (hover : race.IsOver) {r : Rename}
    (hr : r ∈ workers.flatten)
    (hdiffer : ((workers.flatten.filter fun s => s.bare.key = r.bare.key).map
      fun s => s.bare.target).Nodup) :
    race.made.countP (fun a => a.key = r.bare.key ∧ a.refusal = none) = 1 := by
  obtain ⟨a, ha, rfl⟩ := h.exists_made hover hr
  obtain ⟨b, hb⟩ := exists_first?_of_mem ha
  obtain ⟨hbmade, hbkey⟩ := first?_eq_some hb
  let rivals := race.made.filter fun c => c.key = a.key
  have hrivals : (rivals.map Attempt.target).Nodup := by
    have hperm := (((h.perm_made hover).filter fun s => s.bare.key = a.key).map
      fun s => s.bare.target)
    rw [List.filter_map, List.map_map] at hperm
    exact hperm.nodup_iff.mpr hdiffer
  have hwinner : b.target ∈ rivals.map Attempt.target :=
    List.mem_map_of_mem (List.mem_filter.mpr ⟨hbmade, decide_eq_true hbkey⟩)
  have hcount : race.made.countP (fun c => c.key = a.key ∧ c.refusal = none)
      = (rivals.map Attempt.target).count b.target := by
    rw [List.count, List.countP_map, List.countP_filter]
    refine List.countP_congr fun c hc => ?_
    by_cases hkey : c.key = a.key
    · have hrefused : c.refusal = none ↔ c.target = b.target :=
        (h.refused c hc b (hkey ▸ hb)).trans eq_comm
      simp [hkey, hrefused]
    · simp [hkey]
  exact hcount.trans (List.count_eq_one_of_mem hrivals hwinner)

end Reflects

/-- Every race comes to its end. -/
theorem exists_isOver (race : Race) : ∃ schedule, (race.exec schedule).IsOver := by
  induction hlength : race.left.flatten.length generalizing race with
  | zero =>
    have hnone : race.left.flatten = [] := List.length_eq_zero_iff.mp hlength
    exact ⟨[], List.flatten_eq_nil_iff.mp hnone⟩
  | succ n ih =>
    have hleft : race.left.flatten ≠ [] := by
      intro hnil
      rw [hnil] at hlength
      cases hlength
    obtain ⟨calls, hcalls, hne⟩ : ∃ calls ∈ race.left, calls ≠ [] := by
      by_contra hall
      push Not at hall
      exact hleft (List.flatten_eq_nil_iff.mpr hall)
    obtain ⟨worker, hworker⟩ := List.mem_iff_getElem?.mp hcalls
    obtain ⟨next, later, rfl⟩ := List.exists_cons_of_ne_nil hne
    obtain hsame | ⟨before, r, rest, after, hsplit, hnext⟩ := race.advance_cases worker
    · have hmade := congrArg (fun race => race.made.length) hsame
      simp [Race.advance, hworker] at hmade
    · have hshorter : (race.advance worker).left.flatten.length = n := by
        rw [hsplit] at hlength
        rw [hnext]
        simp only [List.flatten_append, List.flatten_cons, List.length_append,
          List.length_cons] at hlength ⊢
        omega
      obtain ⟨schedule, hover⟩ := ih (race.advance worker) hshorter
      exact ⟨worker :: schedule, hover⟩

/-- Some workers make calls on one registry that starts empty, and every call is made, whatever becomes of
the others. In every interleaving the symbols of the registry are in the end those of all calls, each of
them once, and each has the rename that was the first to be called for it. If the calls for each symbol
agree on its target, none is ever refused, and the targets of all symbols do not depend on the
interleaving. If two calls for a symbol do not agree, one for this symbol is refused in every
interleaving. If no two calls for a symbol agree, just one of them succeeds. -/
theorem writers_agree (workers : List (List Rename)) :
    (∃ schedule, ((start workers).exec schedule).IsOver) ∧
    (∀ schedule, ((start workers).exec schedule).IsOver →
      let race := (start workers).exec schedule
      (race.made.map Attempt.rename).Perm workers.flatten
        ∧ (race.registry.records.map Rename.key).Nodup
        ∧ (∀ key, key ∈ race.registry.records.map Rename.key
          ↔ ∃ r ∈ workers.flatten, r.bare.key = key)
        ∧ ∀ key, race.registry.findKey? key
          = ((race.made.map Attempt.rename).find? fun r => r.bare.key = key).map Rename.bare) ∧
    ((∀ a ∈ workers.flatten, ∀ b ∈ workers.flatten, a.bare.key = b.bare.key →
        a.bare.target = b.bare.target) →
      (∀ schedule, ∀ a ∈ ((start workers).exec schedule).made, a.refusal = none)
        ∧ ∀ schedule other, ((start workers).exec schedule).IsOver →
          ((start workers).exec other).IsOver →
          ∀ key, ((start workers).exec schedule).registry.target? key
            = ((start workers).exec other).registry.target? key) ∧
    (∀ a ∈ workers.flatten, ∀ b ∈ workers.flatten, a.bare.key = b.bare.key →
      a.bare.target ≠ b.bare.target → ∀ schedule, ((start workers).exec schedule).IsOver →
        ∃ refused ∈ ((start workers).exec schedule).made,
          refused.rename.bare.key = a.bare.key ∧ refused.refusal ≠ none) ∧
    ∀ r ∈ workers.flatten,
      ((workers.flatten.filter fun s => s.bare.key = r.bare.key).map fun s => s.bare.target).Nodup →
      ∀ schedule, ((start workers).exec schedule).IsOver →
        ((start workers).exec schedule).made.countP
          (fun a => a.rename.bare.key = r.bare.key ∧ a.refusal = none) = 1 := by
  have hreflects : ∀ schedule, ((start workers).exec schedule).Reflects workers :=
    (reflects_start workers).exec
  refine ⟨exists_isOver _, fun schedule hover => ?_, fun hagree => ⟨fun schedule => ?_, ?_⟩, ?_, ?_⟩
  · have h := hreflects schedule
    refine ⟨h.perm_made hover, h.nodup, fun key => ?_, fun key => ?_⟩
    · rw [h.mem_keys_iff]
      constructor
      · rintro ⟨a, ha, hkey⟩
        exact ⟨a.rename, h.mem_calls ha, hkey⟩
      · rintro ⟨r, hr, hkey⟩
        obtain ⟨a, ha, rfl⟩ := h.exists_made hover hr
        exact ⟨a, ha, hkey⟩
    · rw [h.first, List.find?_map, Option.map_map]
      rfl
  · exact (hreflects schedule).refusal_eq_none hagree
  · intro schedule other hover hover' key
    refine Option.ext fun target => ?_
    rw [(hreflects schedule).target?_eq_some_iff hover hagree,
      (hreflects other).target?_eq_some_iff hover' hagree]
  · intro a ha b hb hkey hne schedule hover
    exact (hreflects schedule).exists_refused hover ha hb hkey hne
  · intro r hr hdiffer schedule hover
    exact (hreflects schedule).countP_winners hover hr hdiffer

/-- Two workers that spell a class differently agree on it, whoever is first. Three workers that give a
class different targets do not: here the last of them comes first, and both others are refused. -/
theorem writers_agree_letterCase :
    let call (name renamed : String) : Rename := ⟨name.toList, renamed.toList, .classLike, none⟩
    let agreed : List (List Rename) :=
      [[call "Acme\\Bar" "Humbug\\Acme\\Bar"],
        [call "\\acme\\BAR" "\\HUMBUG\\acme\\Bar", call "Acme\\Baz" "Humbug\\Acme\\Baz"]]
    let disputed : List (List Rename) :=
      [[call "Acme\\Foo" "P0\\Acme\\Foo"], [call "acme\\foo" "P1\\Acme\\Foo"],
        [call "\\Acme\\FOO" "P2\\Acme\\Foo"]]
    let key : SymbolKind × Text := (.classLike, "acme\\foo".toList)
    let race := (start disputed).exec [2, 0, 1]
    ((start agreed).exec [0, 1, 1]).IsOver ∧ ((start agreed).exec [1, 1, 0]).IsOver
      ∧ (∀ a ∈ ((start agreed).exec [1, 1, 0]).made, a.refusal = none)
      ∧ (∀ key, ((start agreed).exec [0, 1, 1]).registry.target? key
        = ((start agreed).exec [1, 1, 0]).registry.target? key)
      ∧ race.IsOver ∧ key ∈ race.registry.records.map Rename.key
      ∧ race.registry.findKey? key = some (call "Acme\\FOO" "P2\\Acme\\Foo")
      ∧ (∃ refused ∈ race.made, refused.rename.bare.key = key ∧ refused.refusal ≠ none)
      ∧ race.made.countP (fun a => a.rename.bare.key = key ∧ a.refusal = none) = 1 := by
  intro call agreed disputed key race
  obtain ⟨-, -, hagreed, -, -⟩ := writers_agree agreed
  obtain ⟨hnone, hsame⟩ := hagreed (by decide +kernel)
  obtain ⟨-, hends, -, hrefused, hwinner⟩ := writers_agree disputed
  have hfirst : ((start agreed).exec [0, 1, 1]).IsOver := by decide +kernel
  have hsecond : ((start agreed).exec [1, 1, 0]).IsOver := by decide +kernel
  have hover : race.IsOver := by decide +kernel
  obtain ⟨-, -, hkeys, hfound⟩ := hends _ hover
  have hzero : call "Acme\\Foo" "P0\\Acme\\Foo" ∈ disputed.flatten := by decide +kernel
  have hone : call "acme\\foo" "P1\\Acme\\Foo" ∈ disputed.flatten := by decide +kernel
  have hkey : (call "Acme\\Foo" "P0\\Acme\\Foo").bare.key = key := by decide +kernel
  refine ⟨hfirst, hsecond, hnone _, hsame _ _ hfirst hsecond, hover, (hkeys key).mpr ⟨_, hzero, hkey⟩,
    ?_, ?_, ?_⟩
  · rw [hfound]
    decide +kernel
  · rw [← hkey]
    exact hrefused _ hzero _ hone (by decide +kernel) (by decide +kernel) _ hover
  · rw [← hkey]
    exact hwinner _ hzero (by decide +kernel) _ hover

end Race

end PhpPrefixer
