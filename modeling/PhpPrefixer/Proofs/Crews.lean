import PhpPrefixer.Proofs.Turns

/-!
# Crews

The files of a batch are handed out in their order. A worker that has no file, or is done with the one it
has, takes the next one, and otherwise works on. A schedule of a crew says which worker has the next turn,
so that a worker can be slow, and files can be started, and look whether the batch was stopped, in another
order than they were handed out in.

A crew does nothing to a batch but give turns to its files: `Crew.exists_exec_eq`. Each file that was handed
out and is not over is in some worker's hands, so in rounds in which all workers have turns the batch comes
to its end: `Crew.isOver_of_rounds`. A single worker works on one file after the other, so that the batch
goes as `Batch.steps` says: `Crew.reports_of_single`.
-/

namespace PhpPrefixer.Batch

/-- Workers on a batch. -/
structure Crew where
  /-- The batch. -/
  state : State
  /-- The file that each worker took last. -/
  hands : List (Option Nat)
  /-- How many files have been handed out. -/
  taken : Nat

namespace Crew

/-- A crew that has not taken any file. -/
def start (work : Text → Text → Plan Text) (files : List (Text × Text)) (workers : Nat) (run : Run) :
    Crew :=
  ⟨State.start work files ⟨run, false⟩, List.replicate workers none, 0⟩

/-- The file that a worker has taken and is not done with. -/
def busyWith? (c : Crew) (worker : Nat) : Option Nat :=
  c.hands[worker]?.join.filter fun index =>
    c.state.items[index]?.any fun item => item.report?.isNone

/-- The crew after the turn of one worker. -/
def turn (strategy : Strategy) (c : Crew) (worker : Nat) : Crew :=
  match c.busyWith? worker with
  | some index => { c with state := c.state.advance strategy index }
  | none =>
    if worker < c.hands.length ∧ c.taken < c.state.items.length then
      { c with hands := c.hands.set worker (some c.taken), taken := c.taken + 1 }
    else c

/-- The crew after the turns of a schedule. -/
def exec (strategy : Strategy) (c : Crew) (schedule : List Nat) : Crew :=
  schedule.foldl (turn strategy) c

variable {strategy : Strategy} {c : Crew} {worker index : Nat}

/-- A worker is busy with the file in their hands if it has no report yet. -/
theorem busyWith?_eq_some_iff : c.busyWith? worker = some index ↔
    c.hands[worker]? = some (some index)
      ∧ ∃ item, c.state.items[index]? = some item ∧ item.report? = none := by
  simp only [busyWith?, Option.filter_eq_some_iff, Option.join_eq_some_iff, Option.any_eq_true,
    Option.isNone_iff_eq_none]

/-- What a turn can do: the file in the worker's hands goes on, or the next file is taken, or nothing is
left to do for the worker. -/
theorem turn_cases (strategy : Strategy) (c : Crew) (worker : Nat) :
    (∃ index item, c.hands[worker]? = some (some index) ∧ c.state.items[index]? = some item
        ∧ item.report? = none ∧ c.turn strategy worker = { c with state := c.state.advance strategy index })
      ∨ (c.busyWith? worker = none ∧ worker < c.hands.length ∧ c.taken < c.state.items.length
        ∧ c.turn strategy worker
          = { c with hands := c.hands.set worker (some c.taken), taken := c.taken + 1 })
      ∨ (¬(worker < c.hands.length ∧ c.taken < c.state.items.length) ∧ c.turn strategy worker = c) := by
  cases hbusy : c.busyWith? worker with
  | some index =>
    obtain ⟨hhand, item, hitem, hreport⟩ := busyWith?_eq_some_iff.mp hbusy
    exact .inl ⟨index, item, hhand, hitem, hreport, by simp only [turn, hbusy]⟩
  | none =>
    by_cases hnext : worker < c.hands.length ∧ c.taken < c.state.items.length
    · exact .inr (.inl ⟨rfl, hnext.1, hnext.2, by simp only [turn, hbusy, if_pos hnext]⟩)
    · exact .inr (.inr ⟨hnext, by simp only [turn, hbusy, if_neg hnext]⟩)

/-- The turns of a crew are turns of the files. -/
theorem exists_exec_eq (strategy : Strategy) (c : Crew) (schedule : List Nat) :
    ∃ turns, (c.exec strategy schedule).state = c.state.exec strategy turns := by
  induction schedule generalizing c with
  | nil => exact ⟨[], rfl⟩
  | cons worker schedule ih =>
    obtain ⟨turns, hturns⟩ := ih (c.turn strategy worker)
    obtain ⟨index, item, -, -, -, hturn⟩ | ⟨-, -, -, hturn⟩ | ⟨-, hturn⟩ :=
      turn_cases strategy c worker
    · rw [hturn] at hturns
      exact ⟨index :: turns, by rw [exec, List.foldl_cons, hturn]; exact hturns⟩
    · rw [hturn] at hturns
      exact ⟨turns, by rw [exec, List.foldl_cons, hturn]; exact hturns⟩
    · rw [hturn] at hturns
      exact ⟨turns, by rw [exec, List.foldl_cons, hturn]; exact hturns⟩

/-- Files are in the hands of the workers while they are worked on. -/
structure IsOrderly (c : Crew) : Prop where
  /-- Only files that were handed out are in someone's hands. -/
  handed : ∀ index, some index ∈ c.hands → index < c.taken
  /-- A file that was handed out and is not over is in someone's hands. -/
  held : ∀ index item, index < c.taken → c.state.items[index]? = some item → item.report? = none →
    some index ∈ c.hands

/-- Before the first turn, files are in no hands. -/
theorem isOrderly_start (work : Text → Text → Plan Text) (files : List (Text × Text)) (workers : Nat)
    (run : Run) : (start work files workers run).IsOrderly where
  handed index h := by
    cases List.eq_of_mem_replicate h
  held index item h := absurd h (Nat.not_lt_zero _)

/-- Files that are over stay so. -/
theorem report?_of_advance {s : State} {other : Nat} {item : Item}
    (hitem : (s.advance strategy other).items[index]? = some item) (hreport : item.report? = none) :
    ∃ before, s.items[index]? = some before ∧ before.report? = none := by
  unfold State.advance at hitem
  split at hitem
  · exact ⟨item, hitem, hreport⟩
  · next found hfound =>
    by_cases heq : other = index
    · subst heq
      rw [List.getElem?_set_self (List.getElem?_eq_some_iff.mp hfound).1] at hitem
      refine ⟨found, hfound, ?_⟩
      obtain ⟨path, work, standing⟩ := found
      cases standing with
      | waiting => rfl
      | working taken rest => rfl
      | finished report =>
        cases Option.some_inj.mp hitem
        cases hreport
    · rw [List.getElem?_set_ne heq] at hitem
      exact ⟨item, hitem, hreport⟩

/-- A turn leaves a crew orderly. -/
theorem IsOrderly.turn (h : c.IsOrderly) (strategy : Strategy) (worker : Nat) :
    (c.turn strategy worker).IsOrderly := by
  obtain ⟨index, item, -, -, -, hturn⟩ | ⟨hbusy, hworker, -, hturn⟩ | ⟨-, hturn⟩ :=
    turn_cases strategy c worker
  · rw [hturn]
    refine ⟨h.handed, fun i after hi hafter hreport => ?_⟩
    obtain ⟨before, hbefore, hnone⟩ := report?_of_advance hafter hreport
    exact h.held i before hi hbefore hnone
  · rw [hturn]
    constructor
    · intro i hi
      rcases List.mem_or_eq_of_mem_set hi with hold | hnew
      · exact Nat.lt_succ_of_lt (h.handed i hold)
      · cases hnew
        exact Nat.lt_succ_self _
    · intro i item hi hitem hreport
      rcases Nat.lt_succ_iff_lt_or_eq.mp hi with hold | rfl
      · obtain ⟨other, hother⟩ := List.mem_iff_getElem?.mp (h.held i item hold hitem hreport)
        have hne : worker ≠ other := by
          rintro rfl
          rw [busyWith?_eq_some_iff.mpr ⟨hother, item, hitem, hreport⟩] at hbusy
          cases hbusy
        exact List.mem_of_getElem? ((List.getElem?_set_ne hne).trans hother)
      · exact List.mem_of_getElem? (List.getElem?_set_self hworker)
  · rw [hturn]
    exact h

/-- A turn leaves as many workers. -/
theorem length_hands_turn (strategy : Strategy) (c : Crew) (worker : Nat) :
    (c.turn strategy worker).hands.length = c.hands.length := by
  obtain ⟨_, _, -, -, -, hturn⟩ | ⟨-, -, -, hturn⟩ | ⟨-, hturn⟩ := turn_cases strategy c worker
  · rw [hturn]
  · rw [hturn]
    exact List.length_set ..
  · rw [hturn]

/-- What is kept by every turn of a crew with its files in its workers' hands is kept by every schedule. -/
theorem exec_induction {P : Crew → Prop}
    (hturn : ∀ c worker, c.IsOrderly → P c → P (c.turn strategy worker)) (h : c.IsOrderly) (hc : P c)
    (schedule : List Nat) : (c.exec strategy schedule).IsOrderly ∧ P (c.exec strategy schedule) := by
  induction schedule generalizing c with
  | nil => exact ⟨h, hc⟩
  | cons worker schedule ih => exact ih (h.turn strategy worker) (hturn c worker h hc)

/-- Any turns leave as many workers. -/
theorem length_hands_exec (h : c.IsOrderly) (schedule : List Nat) :
    (c.exec strategy schedule).hands.length = c.hands.length :=
  (exec_induction (P := fun d => d.hands.length = c.hands.length)
    (fun d worker _ hd => (length_hands_turn strategy d worker).trans hd) h rfl schedule).2

/-- The most turns that are left for some files. -/
def turnsLeft : List Item → Nat
  | [] => 0
  | item :: items => item.left + turnsLeft items

/-- The turns left for two lists of files are those for both. -/
theorem turnsLeft_append (items more : List Item) :
    turnsLeft (items ++ more) = turnsLeft items + turnsLeft more := by
  induction items with
  | nil => exact (Nat.zero_add _).symm
  | cons item items ih => rw [List.cons_append, turnsLeft, turnsLeft, ih, Nat.add_assoc]

/-- One file needs no more turns than all. -/
theorem left_le_turnsLeft {items : List Item} {item : Item} (h : item ∈ items) :
    item.left ≤ turnsLeft items := by
  obtain ⟨before, after, rfl⟩ := List.append_of_mem h
  rw [turnsLeft_append, turnsLeft]
  omega

/-- Where turns are left, they are left for some file. -/
theorem exists_left_pos {items : List Item} (h : 0 < turnsLeft items) :
    ∃ item ∈ items, 0 < item.left := by
  induction items with
  | nil => cases h
  | cons item items ih =>
    rcases Nat.eq_zero_or_pos item.left with hzero | hpos
    · rw [turnsLeft, hzero, Nat.zero_add] at h
      obtain ⟨other, hother, hleft⟩ := ih h
      exact ⟨other, List.mem_cons_of_mem _ hother, hleft⟩
    · exact ⟨item, List.mem_cons_self, hpos⟩

/-- The most turns that are left until the batch is over: those of the files, and one to take each file. -/
def left (c : Crew) : Nat := turnsLeft c.state.items + (c.state.items.length - c.taken)

/-- A file without a report needs turns. -/
theorem left_pos_of_report? {item : Item} (h : item.report? = none) : 0 < item.left := by
  refine Nat.pos_of_ne_zero fun hleft => ?_
  have hsome := Item.report?_isSome_of_left hleft
  rw [h] at hsome
  cases hsome

/-- A turn of a file that is not over brings the batch nearer to its end. -/
theorem left_advance_lt {item : Item} (hitem : c.state.items[index]? = some item)
    (hreport : item.report? = none) :
    left { c with state := c.state.advance strategy index } < c.left := by
  obtain ⟨before, after, hsplit, hadvance⟩ := @State.exists_advance_eq strategy c.state index item hitem
  have hless := item.left_turn_le strategy c.state.progress
  have hpos := left_pos_of_report? hreport
  simp only [left, hadvance, hsplit, turnsLeft_append, turnsLeft, List.length_append, List.length_cons]
  omega

/-- A turn changes nothing, or it brings the batch nearer to its end. -/
theorem turn_eq_or_left_lt (strategy : Strategy) (c : Crew) (worker : Nat) :
    c.turn strategy worker = c ∨ (c.turn strategy worker).left < c.left := by
  obtain ⟨index, item, -, hitem, hreport, hturn⟩ | ⟨-, -, htaken, hturn⟩ | ⟨-, hturn⟩ :=
    turn_cases strategy c worker
  · rw [hturn]
    exact .inr (left_advance_lt hitem hreport)
  · rw [hturn]
    refine .inr ?_
    simp only [left]
    omega
  · exact .inl hturn

/-- While something is left to do, some worker has something to do. -/
theorem exists_left_turn_lt (h : c.IsOrderly) (hhands : c.hands ≠ []) (hleft : 0 < c.left)
    (strategy : Strategy) :
    ∃ worker < c.hands.length, (c.turn strategy worker).left < c.left := by
  by_cases htaken : c.taken < c.state.items.length
  · have hworker : 0 < c.hands.length := List.length_pos_iff.mpr hhands
    refine ⟨0, hworker, ?_⟩
    obtain ⟨index, item, -, hitem, hreport, hturn⟩ | ⟨-, -, -, hturn⟩ | ⟨hnone, -⟩ :=
      turn_cases strategy c 0
    · rw [hturn]
      exact left_advance_lt hitem hreport
    · rw [hturn]
      simp only [left]
      omega
    · exact absurd ⟨hworker, htaken⟩ hnone
  · have hturns : 0 < turnsLeft c.state.items := by
      simp only [left] at hleft
      omega
    obtain ⟨item, hmem, hpos⟩ := exists_left_pos hturns
    obtain ⟨index, hitem⟩ := List.mem_iff_getElem?.mp hmem
    have hreport : item.report? = none := by
      obtain ⟨path, work, standing⟩ := item
      cases standing with
      | waiting => rfl
      | working taken rest => rfl
      | finished report => cases hpos
    have hindex : index < c.taken := by
      have hlength := (List.getElem?_eq_some_iff.mp hitem).1
      omega
    obtain ⟨worker, hworker⟩ := List.mem_iff_getElem?.mp (h.held index item hindex hitem hreport)
    refine ⟨worker, (List.getElem?_eq_some_iff.mp hworker).1, ?_⟩
    have hbusy : c.busyWith? worker = some index :=
      busyWith?_eq_some_iff.mpr ⟨hworker, item, hitem, hreport⟩
    have hturn : c.turn strategy worker = { c with state := c.state.advance strategy index } := by
      simp only [turn, hbusy]
    rw [hturn]
    exact left_advance_lt hitem hreport

/-- Turns never make more of them necessary. -/
theorem left_exec_le (strategy : Strategy) (c : Crew) (schedule : List Nat) :
    (c.exec strategy schedule).left ≤ c.left := by
  induction schedule generalizing c with
  | nil => exact Nat.le_refl _
  | cons worker schedule ih =>
    refine Nat.le_trans (ih (c.turn strategy worker)) ?_
    rcases turn_eq_or_left_lt strategy c worker with heq | hless
    · exact Nat.le_of_eq (congrArg left heq)
    · exact Nat.le_of_lt hless

/-- A schedule with a worker that has something to do brings the batch nearer to its end: either nothing
happens before that worker's turn, or something does. -/
theorem left_exec_lt {schedule : List Nat} (hmem : worker ∈ schedule)
    (hless : (c.turn strategy worker).left < c.left) : (c.exec strategy schedule).left < c.left := by
  induction schedule with
  | nil => cases hmem
  | cons first schedule ih =>
    have hexec : c.exec strategy (first :: schedule) = (c.turn strategy first).exec strategy schedule :=
      rfl
    rw [hexec]
    rcases turn_eq_or_left_lt strategy c first with heq | hfirst
    · rw [heq]
      rcases List.mem_cons.mp hmem with rfl | hrest
      · rw [heq] at hless
        exact absurd hless (Nat.lt_irrefl _)
      · exact ih hrest
    · exact Nat.lt_of_le_of_lt (left_exec_le strategy _ schedule) hfirst

/-- Turns that follow each other can be taken in two parts. -/
theorem exec_append (strategy : Strategy) (c : Crew) (first second : List Nat) :
    c.exec strategy (first ++ second) = (c.exec strategy first).exec strategy second :=
  List.foldl_append

/-- Each round in which all workers have a turn brings the batch nearer to its end. -/
theorem left_exec_rounds_le (h : c.IsOrderly) (hhands : c.hands ≠ []) {rounds : List (List Nat)}
    (hrounds : ∀ round ∈ rounds, ∀ worker < c.hands.length, worker ∈ round) :
    (c.exec strategy rounds.flatten).left ≤ c.left - rounds.length := by
  induction rounds generalizing c with
  | nil => exact Nat.le_refl _
  | cons round rounds ih =>
    obtain ⟨hround, hrest⟩ := List.forall_mem_cons.mp hrounds
    have horderly : (c.exec strategy round).IsOrderly :=
      (exec_induction (P := fun _ => True) (fun _ _ _ _ => trivial) h trivial round).1
    have hlength : (c.exec strategy round).hands.length = c.hands.length := length_hands_exec h round
    have hsame : (c.exec strategy round).hands ≠ [] := by
      rw [← List.length_pos_iff, hlength, List.length_pos_iff]
      exact hhands
    have hlater := ih horderly hsame (by rw [hlength]; exact hrest)
    rw [List.flatten_cons, exec_append, List.length_cons]
    have hnow : (c.exec strategy round).left ≤ c.left - 1 := by
      rcases Nat.eq_zero_or_pos c.left with hzero | hpos
      · have hle := left_exec_le strategy c round
        omega
      · obtain ⟨worker, hworker, hless⟩ := exists_left_turn_lt h hhands hpos strategy
        have hround := left_exec_lt (hround worker hworker) hless
        omega
    omega

/-- A batch is over after enough rounds in which all workers have a turn. -/
theorem isOver_of_rounds {work : Text → Text → Plan Text} {files : List (Text × Text)} {workers : Nat}
    {run : Run} (hworkers : 1 ≤ workers) {rounds : List (List Nat)}
    (hrounds : ∀ round ∈ rounds, ∀ worker < workers, worker ∈ round)
    (henough : (start work files workers run).left ≤ rounds.length) :
    ((start work files workers run).exec strategy rounds.flatten).state.IsOver := by
  have hlength : (start work files workers run).hands.length = workers := List.length_replicate ..
  have hleft : ((start work files workers run).exec strategy rounds.flatten).left
      ≤ (start work files workers run).left - rounds.length :=
    left_exec_rounds_le (isOrderly_start work files workers run) (List.length_pos_iff.mp (by omega))
      (by rwa [hlength])
  intro item hitem
  have hzero : ((start work files workers run).exec strategy rounds.flatten).left = 0 := by omega
  have hle := left_le_turnsLeft hitem
  have hnone := (Nat.add_eq_zero_iff.mp hzero).1
  exact Item.report?_isSome_of_left (by omega)

end Crew

namespace Item

variable {strategy : Strategy}

/-- Turns beyond those that are left change nothing. -/
theorem turns_eq_of_left_le {n m : Nat} {item : Item} (hn : item.left ≤ n) (hm : item.left ≤ m)
    (p : Progress) : item.turns strategy n p = item.turns strategy m p := by
  induction n generalizing m item p with
  | zero =>
    obtain ⟨path, work, standing⟩ := item
    cases standing with
    | waiting => cases hn
    | working taken rest => cases hn
    | finished report => exact (turns_finished m path work report p).symm
  | succ n ih =>
    cases m with
    | zero =>
      obtain ⟨path, work, standing⟩ := item
      cases standing with
      | waiting => cases hm
      | working taken rest => cases hm
      | finished report => exact turns_finished (n + 1) path work report p
    | succ m =>
      have hturn := item.left_turn_le strategy p
      exact ih (by omega) (by omega) _

/-- A file with a report needs no turns. -/
theorem left_of_report? {item : Item} (h : item.report?.isSome = true) : item.left = 0 := by
  obtain ⟨path, work, standing⟩ := item
  cases standing with
  | waiting => cases h
  | working taken rest => cases h
  | finished report => rfl

end Item

namespace State

variable {strategy : Strategy} {s : State}

/-- Files that are over have no turns left. -/
theorem turnsFrom_append {before : List Item} (h : ∀ item ∈ before, item.left = 0) (index : Nat)
    (items : List Item) : turnsFrom index (before ++ items) = turnsFrom (index + before.length) items := by
  induction before generalizing index with
  | nil => rfl
  | cons item before ih =>
    obtain ⟨hitem, hbefore⟩ := List.forall_mem_cons.mp h
    rw [List.cons_append, turnsFrom, hitem, List.replicate_zero, List.nil_append, ih hbefore,
      List.length_cons, Nat.add_comm before.length 1, Nat.add_assoc]

/-- When all is over, no turn is left in the schedule that works on one file after the other. -/
theorem inOrder_of_isOver (h : s.IsOver) : s.inOrder = [] := by
  have hturns := turnsFrom_append (fun item hitem => Item.left_of_report? (h item hitem)) 0 []
  rw [List.append_nil] at hturns
  exact hturns

/-- The files from some place on are worked on in order, when those in front of it are over. -/
theorem exec_inOrder_append {before after : List Item} {item : Item} {p : Progress}
    (h : ∀ other ∈ before, other.left = 0) {n : Nat} (hn : item.left ≤ n) :
    exec strategy ⟨p, before ++ item :: after⟩ (inOrder ⟨p, before ++ item :: after⟩)
      = exec strategy ⟨(item.turns strategy n p).2, before ++ (item.turns strategy n p).1 :: after⟩
        (turnsFrom (before.length + 1) after) := by
  rw [inOrder, turnsFrom_append h, Nat.zero_add, turnsFrom, exec_append, exec_replicate,
    Item.turns_eq_of_left_le (Nat.le_refl _) hn]

/-- It does not matter for the work in order whether the first file that is not over has a turn before. -/
theorem exec_inOrder_advance {index : Nat} {item : Item} (hitem : s.items[index]? = some item)
    (hreport : item.report? = none)
    (hbefore : ∀ other < index, ∀ i, s.items[other]? = some i → i.report?.isSome = true) :
    (s.advance strategy index).exec strategy (s.advance strategy index).inOrder
      = s.exec strategy s.inOrder := by
  obtain ⟨hlength, hget⟩ := List.getElem?_eq_some_iff.mp hitem
  obtain ⟨before, after, hsplit, hplace, hset⟩ :=
    @List.exists_of_set _ index (item.turn strategy s.progress).1 s.items hlength
  rw [hget] at hsplit
  have hover : ∀ other ∈ before, other.left = 0 := by
    intro other hother
    obtain ⟨place, hat⟩ := List.mem_iff_getElem?.mp hother
    have hless := (List.getElem?_eq_some_iff.mp hat).1
    refine Item.left_of_report? (hbefore place (by omega) other ?_)
    rw [hsplit, List.getElem?_append_left hless, hat]
  have hadvance : s.advance strategy index
      = ⟨(item.turn strategy s.progress).2, before ++ (item.turn strategy s.progress).1 :: after⟩ := by
    simp only [advance, hitem, hset]
  have hstate : s = ⟨s.progress, before ++ item :: after⟩ := by rw [← hsplit]
  obtain ⟨n, hn⟩ : ∃ n, item.left = n + 1 := by
    have hpos := Crew.left_pos_of_report? hreport
    exact ⟨item.left - 1, by omega⟩
  have hturn := item.left_turn_le strategy s.progress
  rw [hadvance, exec_inOrder_append hover (n := n) (by omega)]
  conv => rhs; rw [hstate, exec_inOrder_append hover (n := n + 1) (by omega)]
  rfl

end State

namespace Crew

variable {strategy : Strategy}

/-- The files before the one that a single worker has are over: others would be in the same hands. -/
theorem IsOrderly.over_of_single {c : Crew} {worker index : Nat} (h : c.IsOrderly)
    (hsingle : c.hands.length = 1) (hhand : c.hands[worker]? = some (some index)) :
    ∀ other < index, ∀ item, c.state.items[other]? = some item → item.report?.isSome = true := by
  intro other hother item hitem
  have hindex := List.mem_of_getElem? hhand
  cases hreport : item.report? with
  | some report => rfl
  | none =>
    have hmem := h.held other item (Nat.lt_trans hother (h.handed index hindex)) hitem hreport
    obtain ⟨hand, hhands⟩ := List.length_eq_one_iff.mp hsingle
    rw [hhands, List.mem_singleton] at hmem hindex
    cases hmem.trans hindex.symm
    exact absurd hother (Nat.lt_irrefl _)

/-- There is a single worker, and working in order from here on leads to what it leads to from a batch. -/
structure LeadsAs (strategy : Strategy) (first : State) (c : Crew) : Prop where
  /-- There is one worker. -/
  single : c.hands.length = 1
  /-- The batch has come no other way than in order. -/
  exec_eq : c.state.exec strategy c.state.inOrder = first.exec strategy first.inOrder

/-- A turn leads where the order of the files leads. -/
theorem LeadsAs.turn {first : State} {c : Crew} {worker : Nat} (h : c.IsOrderly)
    (hc : c.LeadsAs strategy first) : (c.turn strategy worker).LeadsAs strategy first := by
  refine ⟨(length_hands_turn strategy c worker).trans hc.single, ?_⟩
  obtain ⟨index, item, hhand, hitem, hreport, hturn⟩ | ⟨-, -, -, hturn⟩ | ⟨-, hturn⟩ :=
    turn_cases strategy c worker
  · rw [hturn, ← hc.exec_eq]
    exact State.exec_inOrder_advance hitem hreport (h.over_of_single hc.single hhand)
  · rw [hturn]
    exact hc.exec_eq
  · rw [hturn]
    exact hc.exec_eq

/-- A single worker works on one file after the other. -/
theorem reports_of_single {work : Text → Text → Plan Text} {files : List (Text × Text)} {run : Run}
    {schedule : List Nat} (h : ((start work files 1 run).exec strategy schedule).state.IsOver) :
    ((start work files 1 run).exec strategy schedule).state.reports
        = (steps strategy work files ⟨run, false⟩).1
      ∧ ((start work files 1 run).exec strategy schedule).state.progress.run
        = (steps strategy work files ⟨run, false⟩).2 := by
  let first := State.start work files ⟨run, false⟩
  have hstart : (start work files 1 run).LeadsAs strategy first := ⟨rfl, rfl⟩
  have hleads := (exec_induction (fun _ _ => LeadsAs.turn) (isOrderly_start work files 1 run) hstart
    schedule).2
  have hstate := hleads.exec_eq
  rw [State.inOrder_of_isOver h] at hstate
  obtain ⟨-, hreports, hrun⟩ := State.exec_inOrder strategy work files ⟨run, false⟩
  rw [← hreports, ← hrun]
  exact ⟨congrArg State.reports hstate, congrArg (·.progress.run) hstate⟩

end Crew

end PhpPrefixer.Batch
