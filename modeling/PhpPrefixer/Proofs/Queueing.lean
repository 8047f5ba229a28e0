import PhpPrefixer.Proofs.ImportReading
import PhpPrefixer.Proofs.Reach

/-!
# What the visitors queue

Work on a file adds edits to the end of the queue. `PrefixingM.Queues` says which; its rules follow the
way work is put together. Each visitor, on entering a site, queues edits whose spans are among the
targets of the site, in their order, or, at an import statement, edits inside the statement.
-/

namespace PhpPrefixer

variable {α β : Type}

/-- The edits touch some of the spans, each at most once and in their order. -/
def Edit.Over (spans : List Span) (es : List Edit) : Prop := (es.map Edit.span).Sublist spans

namespace Edit

variable {spans more : List Span} {es fs : List Edit}

/-- No edits are over any spans. -/
theorem over_nil (spans : List Span) : Over spans [] := List.nil_sublist spans

/-- No edit is over no spans. -/
theorem Over.eq_nil (h : Over [] es) : es = [] := List.map_eq_nil_iff.mp (List.sublist_nil.mp h)

/-- An edit is over its own span. -/
theorem over_singleton {e : Edit} {x : Span} (h : e.span = x) : Over [x] [e] := by
  rw [← h]
  exact List.Sublist.refl _

/-- Edits over some spans and edits over further ones are over all of them. -/
theorem Over.append (hes : Over spans es) (hfs : Over more fs) : Over (spans ++ more) (es ++ fs) := by
  unfold Over
  rw [List.map_append]
  exact List.Sublist.append hes hfs

/-- Edits over some spans are over more of them as well. -/
theorem Over.trans (hes : Over spans es) (h : spans.Sublist more) : Over more es :=
  List.Sublist.trans hes h

end Edit

/-- Work keeps to a conduct, and the edits it adds to the queue have a property. -/
def PrefixingM.Queues (c : Conduct) (m : PrefixingM α) (Q : α → List Edit → Prop) : Prop :=
  ∀ queue, Spec c (fun s => s.edits = queue) m fun a s => ∃ es, s.edits = queue ++ es ∧ Q a es

/-- Work keeps to a conduct and adds no edits. -/
def PrefixingM.IsSilent (c : Conduct) (m : PrefixingM α) : Prop :=
  ∀ queue, Preserves c (fun s => s.edits = queue) m

namespace PrefixingM.Queues

variable {c : Conduct} {m : PrefixingM α} {Q : α → List Edit → Prop}

/-- Giving a result queues nothing. -/
protected theorem pure {a : α} (h : Q a []) : Queues c (pure a) Q := by
  intro queue
  exact Spec.pure fun s hs => ⟨[], by rw [hs, List.append_nil], h⟩

/-- The edits of two pieces of work follow each other. -/
protected theorem bind {next : α → PrefixingM β} {R : β → List Edit → Prop} (hm : Queues c m Q)
    (hnext : ∀ a es, Q a es → Queues c (next a) fun b more => R b (es ++ more)) :
    Queues c (m >>= next) R := by
  intro queue
  refine (hm queue).bind fun a s hs => ?_
  obtain ⟨es, hes, hQ⟩ := hs
  refine (hnext a es hQ (queue ++ es) s hes).mono fun r hr => ?_
  obtain ⟨more, hmore, hR⟩ := hr
  exact ⟨es ++ more, by rw [hmore, List.append_assoc], hR⟩

/-- What is known of the edits may be weakened. -/
protected theorem mono {R : α → List Edit → Prop} (hm : Queues c m Q)
    (h : ∀ a es, Q a es → R a es) : Queues c m R := by
  intro queue
  refine (hm queue).mono (fun _ hs => hs) fun a s hs => ?_
  obtain ⟨es, hes, hQ⟩ := hs
  exact ⟨es, hes, h a es hQ⟩

/-- Queueing an edit queues this edit. -/
protected theorem queue {e : Edit} {Q : Unit → List Edit → Prop} (h : Q () [e]) :
    Queues c (PrefixingM.queue e) Q := by
  intro queue
  exact Spec.queue fun s hs => ⟨[e], by rw [hs], h⟩

/-- Giving another result adds no edits. -/
theorem bind_pure {Q : List Edit → Prop} {b : β} (hm : Queues c m fun _ => Q) :
    Queues c (do let _ ← m; pure b) fun _ => Q :=
  hm.bind fun _ es hes => Queues.pure (by rwa [List.append_nil])

/-- What is known of the edits that work adds to the queue holds of those it did add. -/
theorem of_run {s s' : FileState} {a : α} {es : List Edit} (hm : Queues c m Q)
    (hrun : (m.run s).outcome = .ok (a, s')) (hes : s'.edits = s.edits ++ es) : Q a es := by
  obtain ⟨queued, hqueued, hQ⟩ := (hm s.edits s rfl).result _ hrun
  obtain rfl : queued = es := List.append_cancel_left (hqueued.symm.trans hes)
  exact hQ

/-- Work that keeps every property of the state adds no edits. -/
theorem of_preserves {F : α → Prop} (hm : ∀ P, Spec c P m fun a s => P s ∧ F a) :
    Queues c m fun a es => es = [] ∧ F a := by
  intro queue
  refine (hm _).mono (fun _ hs => hs) fun a s hs => ?_
  exact ⟨[], by rw [hs.1, List.append_nil], rfl, hs.2⟩

end PrefixingM.Queues

namespace PrefixingM.IsSilent

variable {c : Conduct} {m : PrefixingM α}

/-- Giving a result is silent. -/
protected theorem pure (a : α) : IsSilent c (pure a) := fun _ => Preserves.pure a

/-- Work is silent if both of its parts are. -/
protected theorem bind {next : α → PrefixingM β} (hm : IsSilent c m)
    (hnext : ∀ a, IsSilent c (next a)) : IsSilent c (m >>= next) :=
  fun queue => (hm queue).bind fun a => hnext a queue

/-- Silent work in front queues nothing more. -/
theorem bind_queues {next : α → PrefixingM β} {R : β → List Edit → Prop} (hm : IsSilent c m)
    (hnext : ∀ a, Queues c (next a) R) : Queues c (m >>= next) R :=
  fun queue => (hm queue).bind fun a => hnext a queue

/-- Work that adds no edits, as work that adds some. -/
theorem queues {Q : α → List Edit → Prop} (hm : IsSilent c m) (h : ∀ a, Q a []) : Queues c m Q := by
  intro queue
  refine (hm queue).mono (fun _ hs => hs) fun a s hs => ?_
  exact ⟨[], by rw [hs, List.append_nil], h a⟩

/-- A change that leaves the edits is silent. -/
theorem of_modify {f : FileState → FileState} (h : ∀ s, (f s).edits = s.edits) :
    IsSilent c (modify f) := by
  intro queue
  exact Spec.modify fun s hs => (h s).trans hs

end PrefixingM.IsSilent

open PrefixingM

namespace FileSetting

variable {c : Conduct} {w : FileSetting}

/-- Work on a text that is read queues what it does for every text that can be read. -/
theorem queues_textOf_bind (hc : c.IsLenient) {n : Node} {next : Text → PrefixingM β}
    {R : β → List Edit → Prop} (h : ∀ t, w.source.text? n = some t → Queues c (next t) R) :
    Queues c (w.textOf n >>= next) R :=
  fun queue => spec_textOf_bind hc fun t ht => h t ht queue

/-- Work on a text that is read is silent if it is for every text. -/
theorem isSilent_textOf_bind (hc : c.IsLenient) {n : Node} {next : Text → PrefixingM β}
    (h : ∀ t, IsSilent c (next t)) : IsSilent c (w.textOf n >>= next) :=
  fun queue => spec_textOf_bind hc fun t _ => h t queue

/-- Work that depends on the state is silent if it is for every state. -/
theorem isSilent_get_bind {next : FileState → PrefixingM β} (h : ∀ s, IsSilent c (next s)) :
    IsSilent c (get >>= next) :=
  fun queue => Spec.get_bind fun s _ => h s queue

/-- Telling something is silent. -/
theorem isSilent_note (hc : c.IsLenient) {level : Level} {channel : Channel} {message : String} :
    IsSilent c (note level channel message) :=
  fun _ => Spec.note (hc.note _) fun _ hs => hs

/-- Entering a namespace is silent. -/
theorem isSilent_enterNamespace (space : Text) (moved : Bool) :
    IsSilent c (enterNamespace space moved) :=
  IsSilent.of_modify fun _ => rfl

/-- Recording a rename is silent. -/
theorem isSilent_record (hc : c.IsOpen) (kind : SymbolKind) (name target : Text) :
    IsSilent c (w.record kind name target) := by
  have hstep : IsSilent c (liftM (Plan.record ⟨name, target, kind, some w.path⟩)) :=
    fun _ => Spec.lift fun _ hs => Plan.Keeps.single (hc.record _) hs
  refine hstep.bind fun _ => IsSilent.of_modify fun s => ?_
  unfold FileState.withRename
  split <;> rfl

/-- Recording a declaration is silent. -/
theorem isSilent_recordDeclaration (hc : c.IsOpen) (kind : SymbolKind) (name : Option Node) :
    IsSilent c (w.recordDeclaration kind name) := by
  cases name with
  | none => exact IsSilent.pure _
  | some n =>
    refine isSilent_textOf_bind hc.toIsLenient fun short => isSilent_get_bind fun s => ?_
    dsimp only
    split
    · exact IsSilent.pure _
    · exact isSilent_record hc _ _ _
    · exact isSilent_note hc.toIsLenient
    · exact isSilent_note hc.toIsLenient

/-- Finding out what a text mentions is silent. -/
theorem isSilent_prefixMention (hc : c.IsOpen) (kind : SymbolKind) (value : Text) :
    IsSilent c (w.prefixMention kind value) := by
  unfold prefixMention
  split
  · exact IsSilent.pure _
  · exact (isSilent_record hc _ _ _).bind fun _ => IsSilent.pure _

/-- A reference is replaced or left as it is. -/
theorem queues_moveReference (hc : c.IsOpen) (kind : SymbolKind) (n : Node) :
    Queues c (w.moveReference kind n) fun _ => Edit.Over [n.span] := by
  refine queues_textOf_bind hc.toIsLenient fun text _ => ?_
  intro queue
  refine Spec.get_bind fun s _ => ?_
  have hrecord : IsSilent c
      (w.recordDecided kind (w.relocation.reference s.scope kind text).rename) := by
    cases (w.relocation.reference s.scope kind text).rename with
    | none => exact IsSilent.pure _
    | some rename => exact isSilent_record hc _ _ _
  dsimp only
  split
  · next written _ =>
    have hqueue : Queues c (PrefixingM.queue (.replacing n written)) fun _ es =>
        es = [.replacing n written] := Queues.queue rfl
    refine hqueue.bind (fun _ es hes => hrecord.queues fun _ => ?_) queue
    rw [hes]
    exact Edit.over_singleton rfl
  · exact hrecord.queues (fun _ => Edit.over_nil _) queue

end FileSetting

open FileSetting

variable {c : Conduct} {w : FileSetting}

namespace Prefixing

/-- References are edited in their order, each at most once. -/
theorem queues_moveReferences (hc : c.IsOpen) (kind : SymbolKind) (ns : List Node) :
    Queues c (moveReferences w kind ns) fun _ => Edit.Over (ns.map (·.span)) := by
  induction ns with
  | nil => exact Queues.pure (Edit.over_nil _)
  | cons n ns ih =>
    refine (queues_moveReference hc kind n).bind fun _ es hes => ?_
    exact ih.mono fun _ more hmore => hes.append hmore

/-- Recording declarations is silent. -/
theorem isSilent_recordAll (hc : c.IsOpen) (kind : SymbolKind) (ns : List Node) :
    IsSilent c (recordAll w kind ns) := by
  induction ns with
  | nil => exact IsSilent.pure _
  | cons n ns ih => exact (isSilent_recordDeclaration hc kind (some n)).bind fun _ => ih

/-- The spans that the visitor for names may replace at a site. -/
def nameSpans (s : Site) : List Span :=
  if s.node.isName then if isConstantSite s then [s.node.span] else []
  else s.node.nameTargets.map (·.span)

/-- The names at a node are edited in their order, each at most once. -/
theorem queues_enterNames (hc : c.IsOpen) (s : Site) :
    Queues c (enterNames w s) fun _ => Edit.Over (nameSpans s) := by
  unfold enterNames nameSpans
  dsimp only
  split
  · split
    · exact queues_moveReference hc .constant s.node
    · exact Queues.pure (Edit.over_nil _)
  split
  · exact (isSilent_recordDeclaration hc _ _).queues fun _ => Edit.over_nil _
  split
  · exact (isSilent_recordDeclaration hc _ _).queues fun _ => Edit.over_nil _
  split
  · exact (isSilent_recordAll hc _ _).queues fun _ => Edit.over_nil _
  unfold Node.nameTargets
  split
  · exact queues_moveReferences hc _ _
  · exact queues_moveReferences hc _ _

/-- An argument is edited if it is a literal, and then once. -/
theorem queues_moveArgument (hc : c.IsOpen) (callee : Text) (kind : SymbolKind) (value : Node) :
    Queues c (moveArgument w callee kind value) fun _ =>
      Edit.Over (([value].filter (·.isLiteral)).map (·.span)) := by
  refine queues_textOf_bind hc.toIsLenient fun text _ => ?_
  split
  · split
    · have hsilent : IsSilent c (w.reportDynamic (w.source.lineOf value) callee) :=
        fun _ => spec_reportDynamic hc.toIsLenient
      exact hsilent.queues fun _ => Edit.over_nil _
    · exact Queues.pure (Edit.over_nil _)
  · next literal hliteral =>
    have hvalue := Node.isLiteral_of_literal? hliteral
    refine (isSilent_prefixMention hc _ _).bind_queues fun spelled => ?_
    cases spelled with
    | none => exact Queues.pure (Edit.over_nil _)
    | some t =>
      apply Queues.queue
      rw [List.filter_cons_of_pos (by simpa using hvalue)]
      exact Edit.over_singleton rfl

/-- The names in the arguments of a call move in literals at the positions where names are taken. -/
theorem queues_moveArguments (hc : c.IsOpen) (callee : Text) (call : Node)
    (taken : List (Nat × SymbolKind)) :
    Queues c (moveArguments w callee call taken) fun _ => Edit.Over
      ((((taken.map (·.1)).filterMap call.argument?).filter (·.isLiteral)).map (·.span)) := by
  induction taken with
  | nil => exact Queues.pure (Edit.over_nil _)
  | cons entry rest ih =>
    unfold moveArguments
    dsimp only
    cases hvalue : call.argument? entry.1 with
    | none =>
      rw [List.map_cons, List.filterMap_cons_none hvalue]
      exact ih
    | some value =>
      rw [List.map_cons, List.filterMap_cons_some hvalue]
      refine (queues_moveArgument hc callee entry.2 value).bind fun _ es hes => ?_
      refine ih.mono fun _ more hmore => ?_
      rw [← List.singleton_append, List.filter_append, List.map_append]
      exact hes.append hmore

/-- The values at some positions, in the order of the positions, are among all values. -/
theorem arguments_sublist (values : List (Option Node)) {first : Nat} {positions : List Nat}
    (hordered : positions.Pairwise (· < ·)) (hfirst : ∀ p ∈ positions, first ≤ p) :
    (positions.filterMap fun p => (values[p]?).join).Sublist ((values.drop first).filterMap id) := by
  induction positions generalizing first with
  | nil => exact List.nil_sublist _
  | cons p rest ih =>
    obtain ⟨hlater, hrest⟩ := List.pairwise_cons.mp hordered
    have hp := hfirst p List.mem_cons_self
    have hdrop : (values.drop p).Sublist (values.drop first) := by
      obtain ⟨k, rfl⟩ := Nat.exists_eq_add_of_le hp
      rw [← List.drop_drop]
      exact List.drop_sublist k _
    have htail := ih hrest fun q hq => hlater q hq
    refine List.Sublist.trans ?_ (hdrop.filterMap id)
    by_cases hlength : p < values.length
    · rw [List.drop_eq_getElem_cons hlength, List.filterMap_cons, List.filterMap_cons,
        List.getElem?_eq_getElem hlength]
      cases hvalue : values[p] with
      | none => exact htail
      | some v => exact htail.cons_cons v
    · rw [List.filterMap_cons, List.getElem?_eq_none (by omega)]
      have hnil : values.drop (p + 1) = values.drop p := by
        rw [List.drop_eq_nil_of_le (by omega), List.drop_eq_nil_of_le (by omega)]
      rw [hnil] at htail
      exact htail

/-- The literals at some positions of a call, in order, are among its literal arguments. -/
theorem literals_sublist (call : Node) {positions : List Nat}
    (hordered : positions.Pairwise (· < ·)) :
    (((positions.filterMap call.argument?).filter (·.isLiteral)).map (·.span)).Sublist
      (call.literalArguments.map (·.span)) := by
  have hvalues := arguments_sublist call.argumentValues hordered fun p _ => Nat.zero_le p
  exact (hvalues.filter _).map _

/-- Positions at which names are taken are given in order. -/
theorem pairwise_namesTaken {table : List (String × List (Nat × SymbolKind))}
    (htable : ∀ entry ∈ table, (entry.2.map (·.1)).Pairwise (· < ·)) (name : Text) :
    ((namesTaken table name).map (·.1)).Pairwise (· < ·) := by
  unfold namesTaken
  split
  · next entry hfind => exact htable entry (List.mem_of_find?_eq_some hfind)
  · exact List.Pairwise.nil

/-- The spans that the visitors for strings may replace at a node. -/
def literalSpans (n : Node) : List Span :=
  (if n.type ∈ Node.callTypes then n.literalArguments else []).map (·.span)

/-- No name is taken from code that is evaluated. -/
theorem namesTaken_eval : namesTaken nameTakingFunctions "eval".toList = [] := by decide

/-- Names move in literals that a call passes, but not in code that is evaluated. -/
theorem queues_enterLiterals (hc : c.IsOpen) (n : Node) :
    Queues c (enterLiterals w n) fun _ es => Edit.Over (literalSpans n) es
      ∧ (n.type = "function_call_expression" → calleeOf w n = some "eval".toList → es = []) := by
  unfold enterLiterals literalSpans
  split
  · next htype =>
    have hcall : n.type ∈ Node.callTypes := by simp [Node.callTypes, htype]
    rw [if_pos hcall]
    intro queue
    refine spec_callee?_bind hc.toIsLenient ?_
    revert queue
    cases hcallee : calleeOf w n with
    | none => exact Queues.pure ⟨Edit.over_nil _, fun _ _ => rfl⟩
    | some callee =>
      refine (queues_moveArguments hc callee n _).mono fun _ es hes => ?_
      have hordered := @pairwise_namesTaken nameTakingFunctions (by decide) callee
      refine ⟨hes.trans (literals_sublist n hordered), fun _ heval => ?_⟩
      rw [Option.some_inj.mp heval, namesTaken_eval] at hes
      exact hes.eq_nil
  split
  · next hnot htype =>
    have hcall : n.type ∈ Node.callTypes := by simp [Node.callTypes, htype]
    rw [if_pos hcall]
    have hempty : Queues c (pure () : PrefixingM Unit) fun _ es =>
        Edit.Over (n.literalArguments.map (·.span)) es
          ∧ (n.type = "function_call_expression" → calleeOf w n = some "eval".toList → es = []) :=
      Queues.pure ⟨Edit.over_nil _, fun _ _ => rfl⟩
    split
    · split
      · refine queues_textOf_bind hc.toIsLenient fun text _ => ?_
        intro queue
        refine Spec.get_bind fun s _ => ?_
        refine (queues_moveArguments hc _ n _).mono (fun _ es hes => ?_) queue
        have hordered := @pairwise_namesTaken nameTakingClasses (by decide)
          (Text.lower (s.scope.resolve .classLike text).name)
        exact ⟨hes.trans (literals_sublist n hordered), fun hfunction => absurd hfunction hnot⟩
      · exact hempty
    · exact hempty
  · exact Queues.pure ⟨Edit.over_nil _, fun _ _ => rfl⟩

/-- Code that is evaluated is replaced where it is a literal, and nothing else is. -/
theorem queues_enterEmbedded_eq (hc : c.IsOpen) {treat : Text → Plan Text}
    (htreat : ∀ code, (treat code).Keeps c fun _ => True) (n : Node) :
    Queues c (enterEmbedded w treat n) fun _ es => es = []
      ∨ (n.type = "function_call_expression" ∧ calleeOf w n = some "eval".toList
        ∧ ∃ value text, n.argument? 0 = some value ∧ value.isLiteral = true
          ∧ es = [.replacing value text]) := by
  unfold enterEmbedded
  split
  · exact Queues.pure (.inl rfl)
  · next htype =>
    intro queue
    refine spec_callee?_bind hc.toIsLenient ?_
    revert queue
    split
    · exact Queues.pure (.inl rfl)
    · next heval =>
      split
      · exact Queues.pure (.inl rfl)
      · next value hvalue =>
        refine queues_textOf_bind hc.toIsLenient fun text _ => ?_
        split
        · have hsilent : IsSilent c (w.reportDynamic (w.source.lineOf value) "eval".toList) :=
            fun _ => spec_reportDynamic hc.toIsLenient
          exact hsilent.bind_queues fun _ => Queues.pure (.inl rfl)
        · next literal hliteral =>
          have hinner : IsSilent c (liftM (treat (asFile literal.value))) :=
            fun _ => Spec.lift fun s hs => (htreat _).mono fun _ _ => hs
          refine hinner.bind_queues fun file => ?_
          refine Queues.bind_pure (Queues.queue (.inr ⟨Decidable.not_not.mp htype,
            Decidable.not_not.mp heval, value, _, hvalue, Node.isLiteral_of_literal? hliteral, rfl⟩))

/-- Code is edited where it is evaluated, and only the literal that holds it. -/
theorem queues_enterEmbedded (hc : c.IsOpen) {treat : Text → Plan Text}
    (htreat : ∀ code, (treat code).Keeps c fun _ => True) (n : Node) :
    Queues c (enterEmbedded w treat n) fun _ es => Edit.Over (literalSpans n) es
      ∧ (¬(n.type = "function_call_expression" ∧ calleeOf w n = some "eval".toList) → es = []) := by
  refine (queues_enterEmbedded_eq hc htreat n).mono fun _ es hes => ?_
  obtain rfl | ⟨htype, heval, value, text, hvalue, hliteral, rfl⟩ := hes
  · exact ⟨Edit.over_nil _, fun _ => rfl⟩
  · refine ⟨?_, fun hnot => absurd ⟨htype, heval⟩ hnot⟩
    have hfirst := literals_sublist n (List.pairwise_singleton (· < ·) 0)
    simp only [List.filterMap_cons_some hvalue, List.filterMap_nil,
      List.filter_cons_of_pos hliteral, List.filter_nil, List.map_cons, List.map_nil] at hfirst
    rw [literalSpans, if_pos (by simp [Node.callTypes, htype])]
    exact (Edit.over_singleton rfl).trans hfirst

/-- The last leading `declare` statement is one of the statements. -/
theorem mem_of_lastDeclare? {ns : List Node} {n : Node} (h : lastDeclare? ns = some n) : n ∈ ns := by
  induction ns with
  | nil => cases h
  | cons m ms ih =>
    unfold lastDeclare? at h
    split at h
    · rw [Option.some_inj] at h
      cases hlast : lastDeclare? ms with
      | none =>
        rw [hlast, Option.getD_none] at h
        exact h ▸ List.mem_cons_self
      | some k =>
        rw [hlast, Option.getD_some] at h
        exact List.mem_cons_of_mem m (ih (hlast.trans (congrArg some h)))
    · split at h
      · exact List.mem_cons_of_mem m (ih h)
      · cases h

/-- The declaration for global code is inserted between the statements. -/
theorem exists_wrapping {root first : Node} {rest : List Node} (hroot : root.HasOrderedChildren)
    (hstatements : root.namedChildren = first :: rest) (name : Text) :
    ∃ offset, root.IsBoundary offset ∧ (wrapping name first rest).span = ⟨offset, offset⟩ := by
  have hmem : ∀ n ∈ first :: rest, n ∈ root.children := by
    intro n hn
    rw [← hstatements] at hn
    exact Node.mem_children_of_namedChildren hn
  unfold wrapping
  dsimp only
  split
  · next n hlast =>
    have hn := hmem n (List.mem_cons_of_mem first (mem_of_lastDeclare? hlast))
    exact ⟨_, hroot.isBoundary_stop hn, rfl⟩
  · split
    · next n _ _ => exact ⟨_, hroot.isBoundary_start (hmem n (by simp)), rfl⟩
    · exact ⟨_, hroot.isBoundary_stop (hmem first List.mem_cons_self), rfl⟩

/-- Global code is given a declaration of its own if it starts with an opening tag. -/
theorem queues_wrapGlobal_eq (hc : c.IsOpen) (root : Node) :
    Queues c (wrapGlobal w root) fun _ es =>
      es = [] ∨ ∃ first rest, root.namedChildren = first :: rest
        ∧ (∀ n ∈ root.namedChildren, n.type ≠ namespaceType)
        ∧ es = [wrapping w.relocation.root first rest] := by
  unfold wrapGlobal
  dsimp only
  split
  · exact Queues.pure (.inl rfl)
  · next hglobal =>
    split
    · exact (isSilent_enterNamespace _ _).queues fun _ => .inl rfl
    · next first rest hstatements =>
      split
      · refine (isSilent_enterNamespace _ _).bind_queues fun _ => ?_
        have hqueue : Queues c (queue (wrapping w.relocation.root first rest)) fun _ es =>
            es = [wrapping w.relocation.root first rest] := Queues.queue rfl
        refine hqueue.bind fun _ es hes => (isSilent_note hc.toIsLenient).queues fun _ => ?_
        rw [List.append_nil]
        exact .inr ⟨first, rest, hstatements, by simpa using hglobal, hes⟩
      · refine (isSilent_enterNamespace _ _).bind_queues fun _ => ?_
        split
        · have hsilent : IsSilent c (w.reportUnsupported (w.source.lineOf first)
              "global code preceded by inline HTML cannot be namespaced") :=
            fun _ => spec_reportUnsupported hc.toIsLenient
          exact hsilent.queues fun _ => .inl rfl
        · exact Queues.pure (.inl rfl)

/-- Global code is given at most one declaration, between the statements of the file. -/
theorem queues_wrapGlobal (hc : c.IsOpen) {root : Node} (hroot : root.IsRegularTree) :
    Queues c (wrapGlobal w root) fun _ es =>
      es = [] ∨ ∃ offset, root.IsBoundary offset ∧ es.map Edit.span = [⟨offset, offset⟩] := by
  refine (queues_wrapGlobal_eq hc root).mono fun _ es hes => hes.imp_right ?_
  rintro ⟨first, rest, hstatements, -, rfl⟩
  obtain ⟨offset, hoffset, hspan⟩ := exists_wrapping hroot.hasOrderedChildren hstatements w.relocation.root
  exact ⟨offset, hoffset, congrArg (· :: []) hspan⟩

/-- The edits that move a namespace where it is named. -/
def spaceEdits (r : Relocation) (nameNode : Node) (text : Text) : List Edit :=
  if r.moves .nameSpace (Name.bare text) then
    [.replacing nameNode (r.relocate (Name.bare text))]
  else []

/-- A namespace without a name is given that of the prefix, and a named one is moved if it is to be. -/
theorem queues_enterDeclaration_eq (hc : c.IsOpen) (n : Node) :
    Queues c (enterDeclaration w n) fun _ es =>
      (∃ keyword rest, n.child? "name" = none ∧ n.children = keyword :: rest
        ∧ es = [.inserting keyword.span.stop (' ' :: w.relocation.root)])
      ∨ ∃ nameNode text, n.child? "name" = some nameNode ∧ w.source.text? nameNode = some text
        ∧ es = spaceEdits w.relocation nameNode text := by
  unfold enterDeclaration
  cases hname : n.child? "name" with
  | none =>
    cases hchildren : n.children with
    | nil =>
      intro queue
      exact Spec.fail hc.missingKeyword
    | cons keyword rest =>
      have hqueue : Queues c (queue (.inserting keyword.span.stop (' ' :: w.relocation.root)))
          fun _ es => es = [.inserting keyword.span.stop (' ' :: w.relocation.root)] :=
        Queues.queue rfl
      refine hqueue.bind fun _ es hes => (isSilent_enterNamespace _ _).queues fun _ => ?_
      rw [List.append_nil]
      exact .inl ⟨keyword, rest, rfl, rfl, hes⟩
  | some nameNode =>
    refine queues_textOf_bind hc.toIsLenient fun text htext => ?_
    dsimp only
    split
    · next hmoved =>
      refine (isSilent_enterNamespace _ _).queues fun _ => .inr ⟨nameNode, text, rfl, htext, ?_⟩
      simp [spaceEdits, Relocation.moves, hmoved]
    split
    · next hkeeps =>
      refine (isSilent_note hc.toIsLenient).bind_queues fun _ => ?_
      refine (isSilent_enterNamespace _ _).queues fun _ => .inr ⟨nameNode, text, rfl, htext, ?_⟩
      simp only [Classification.keeps, decide_eq_true_eq] at hkeeps
      simp [spaceEdits, Relocation.moves, Classifier.renames, hkeeps]
    · next hmoved hkeeps =>
      simp only [Classification.keeps, decide_eq_true_eq, Decidable.not_not] at hkeeps
      have hqueue : Queues c
          (queue (.replacing nameNode (w.relocation.relocate (Name.bare text)))) fun _ es =>
          es = [.replacing nameNode (w.relocation.relocate (Name.bare text))] := Queues.queue rfl
      refine hqueue.bind fun _ es hes => ?_
      refine ((isSilent_record hc _ _ _).bind fun _ => isSilent_enterNamespace _ _).queues
        fun _ => .inr ⟨nameNode, text, rfl, htext, ?_⟩
      simp [spaceEdits, Relocation.moves, Classifier.renames, hmoved, hkeeps, hes]

/-- A declaration of a namespace is edited at its name, or at the word for it. -/
theorem queues_enterDeclaration (hc : c.IsOpen) (n : Node) :
    Queues c (enterDeclaration w n) fun _ => Edit.Over n.namespaceTargets := by
  refine (queues_enterDeclaration_eq hc n).mono fun _ es hes => ?_
  unfold Node.namespaceTargets
  obtain ⟨keyword, rest, hname, hchildren, rfl⟩ | ⟨nameNode, text, hname, -, rfl⟩ := hes
  · simp only [hname, hchildren]
    exact Edit.over_singleton rfl
  · simp only [hname, spaceEdits]
    split
    · exact Edit.over_singleton rfl
    · exact Edit.over_nil _

/-- Adopting an import is silent. -/
theorem isSilent_adopt (hc : c.IsOpen) (i : Import) : IsSilent c (adopt w i) := by
  have himport : IsSilent c (importName i.kind i.localName i.name) :=
    IsSilent.of_modify fun _ => rfl
  unfold adopt
  dsimp only
  split
  · exact (isSilent_record hc _ _ _).bind fun _ => himport
  · exact himport

/-- Adopting imports is silent. -/
theorem isSilent_adoptAll (hc : c.IsOpen) (is : List Import) : IsSilent c (adoptAll w is) := by
  induction is with
  | nil => exact IsSilent.pure _
  | cons i is ih => exact (isSilent_adopt hc i).bind fun _ => ih

/-- The edits that move some imports where they are written. -/
def moveEdits (r : Relocation) (is : List Import) : List Edit :=
  (is.filter r.movesImport).map fun i =>
    .replacing i.node ((if i.leading then [Name.separator] else []) ++ r.relocate i.name)

/-- Imports are edited in their order, each at most once. -/
theorem over_moveEdits (r : Relocation) (is : List Import) :
    Edit.Over (is.map fun i => i.node.span) (moveEdits r is) := by
  rw [Edit.Over, moveEdits, List.map_map]
  exact List.filter_sublist.map _

/-- Imports that move are replaced where they are written. -/
theorem queues_moveAll (hc : c.IsOpen) (is : List Import) :
    Queues c (moveAll w is) fun _ es => es = moveEdits w.relocation is := by
  induction is with
  | nil => exact Queues.pure rfl
  | cons i is ih =>
    have hrest : Queues c (do adopt w i; moveAll w is) fun _ es =>
        es = moveEdits w.relocation is := (isSilent_adopt hc i).bind_queues fun _ => ih
    unfold moveAll moveEdits
    dsimp only
    split
    · next hmoves =>
      rw [List.filter_cons_of_pos hmoves]
      have hqueue : Queues c (queue (.replacing i.node
          ((if i.leading then [Name.separator] else []) ++ w.relocation.relocate i.name)))
          fun _ es => es = [.replacing i.node
            ((if i.leading then [Name.separator] else []) ++ w.relocation.relocate i.name)] :=
        Queues.queue rfl
      refine hqueue.bind fun _ es hes => hrest.mono fun _ more hmore => ?_
      rw [hes, hmore]
      rfl
    · next hstays =>
      rw [List.filter_cons_of_neg hstays]
      exact hrest

end Prefixing

/-- Edits that are apart, in the span of a node. -/
structure Node.Encloses (n : Node) (es : List Edit) : Prop where
  /-- The edits are apart. -/
  apart : (es.map Edit.span).Pairwise Span.Apart
  /-- They lie in the node. -/
  within : ∀ e ∈ es, e.span.Within n.span
  /-- They do not end before they start. -/
  forward : ∀ e ∈ es, e.start ≤ e.stop

namespace Node

/-- No edits are enclosed by any node. -/
theorem encloses_nil (n : Node) : n.Encloses [] :=
  ⟨List.Pairwise.nil, List.forall_mem_nil _, List.forall_mem_nil _⟩

/-- Edits over spans that are apart and lie in a node. -/
theorem encloses_of_over {n : Node} {spans : List Span} {es : List Edit} (h : Edit.Over spans es)
    (hapart : spans.Pairwise Span.Apart)
    (hspans : ∀ x ∈ spans, x.Within n.span ∧ x.start ≤ x.stop) : n.Encloses es := by
  have hmem : ∀ e ∈ es, e.span ∈ spans := fun e he => h.mem (List.mem_map_of_mem he)
  exact ⟨hapart.sublist h, fun e he => (hspans _ (hmem e he)).1, fun e he => (hspans _ (hmem e he)).2⟩

/-- Parts of clauses, one of each clause, are apart where the clauses follow one another. -/
theorem pairwise_parts {w : FileSetting} {kind : SymbolKind} {base : Text} {clauses : List Node}
    {is : List Import}
    (hinside : ∀ clause ∈ clauses, ∀ m ∈ clause.children, m.span.Within clause.span)
    (hordered : clauses.Pairwise fun a b => a.span.stop ≤ b.span.start)
    (his : List.Forall₂ (Import.IsFrom w kind base) clauses is) :
    (is.map fun i => i.node.span).Pairwise Span.Apart := by
  induction his with
  | nil => exact List.Pairwise.nil
  | @cons clause i rest is hi his ih =>
    obtain ⟨hlater, hrest⟩ := List.pairwise_cons.mp hordered
    obtain ⟨hhere, hparts⟩ := List.forall_mem_cons.mp hinside
    refine List.pairwise_cons.mpr ⟨?_, ih hparts hrest⟩
    intro x hx
    obtain ⟨j, hj, rfl⟩ := List.mem_map.mp hx
    obtain ⟨k, hk, hjk⟩ := Import.exists_isFrom his j hj
    exact Span.Apart.within (.inl (hlater k hk)) (hhere i.node hi.node) (hparts k hk j.node hjk.node)

/-- Edits over parts of clauses of a node, one of each clause, lie in the node. -/
theorem encloses_parts {w : FileSetting} {kind : SymbolKind} {base : Text} {n : Node}
    (hregular : n.IsRegularTree) {clauses : List Node} {is : List Import} {es : List Edit}
    (hclauses : clauses.Sublist n.children)
    (his : List.Forall₂ (Import.IsFrom w kind base) clauses is)
    (hes : Edit.Over (is.map fun i => i.node.span) es) : n.Encloses es := by
  have hchild : ∀ clause ∈ clauses, clause.IsRegularTree := fun clause hclause =>
    hregular.child (hclauses.mem hclause)
  have hinside : ∀ clause ∈ clauses, ∀ m ∈ clause.children, m.span.Within clause.span :=
    fun clause hclause => (hchild clause hclause).self.inside
  have hapart := pairwise_parts hinside (hregular.self.ordered.sublist hclauses) his
  refine encloses_of_over hes hapart fun x hx => ?_
  obtain ⟨i, hi, rfl⟩ := List.mem_map.mp hx
  obtain ⟨clause, hc, hfrom⟩ := Import.exists_isFrom his i hi
  have hwithin := (hinside clause hc i.node hfrom.node).trans
    (hregular.self.inside clause (hclauses.mem hc))
  exact ⟨hwithin, ((hchild clause hc).child hfrom.node).self.forward⟩

end Node

namespace Prefixing

open PrefixingM

variable {c : Conduct} {w : FileSetting}

/-- An import statement without a group is read as a plain one. -/
theorem enter_imports_plain {site : Site} (huse : site.node.type = Node.useType)
    (hplain : site.node.namedChildren.find? (fun c => c.type = groupType) = none) :
    (imports w).enter site
      = (do enterPlain w site.node (Import.kindOf site.node); pure Descent.skip) := by
  unfold imports
  dsimp only
  rw [if_pos (show site.node.type = "namespace_use_declaration" from huse), hplain]
  rfl

/-- An import statement with a group is read as a group. -/
theorem enter_imports_group {site : Site} {group : Node} (huse : site.node.type = Node.useType)
    (hgroup : site.node.namedChildren.find? (fun c => c.type = groupType) = some group) :
    (imports w).enter site
      = (do enterGroup w site.node group (Import.kindOf site.node); pure Descent.skip) := by
  unfold imports
  dsimp only
  rw [if_pos (show site.node.type = "namespace_use_declaration" from huse), hgroup]
  rfl

/-- The imports of a plain statement that move are replaced where they are written, if every clause has
a name. -/
theorem queues_enterPlain_eq (hc : c.IsOpen) (n : Node) (kind : SymbolKind) :
    Queues c (enterPlain w n kind) fun _ es =>
      (es = [] ∧ (plainClauses n = [] ∨ Import.LacksName (plainClauses n)))
      ∨ ∃ is, List.Forall₂ (Import.IsFrom w kind []) (plainClauses n) is
        ∧ es = moveEdits w.relocation is := by
  have hreport : IsSilent c
      (w.reportUnsupported (w.source.lineOf n) "unrecognised use statement") :=
    fun _ => spec_reportUnsupported hc.toIsLenient
  unfold enterPlain
  refine (Queues.of_preserves fun _ =>
    spec_readClauses_cases hc.toIsLenient kind (plainClauses n)).bind fun read es hread => ?_
  obtain ⟨rfl, hread, hlacks⟩ := hread
  split
  · next i is =>
    exact (queues_moveAll hc (i :: is)).mono fun _ es hes => .inr ⟨i :: is, hread _ rfl, hes⟩
  · next hnone =>
    refine hreport.queues fun _ => .inl ⟨rfl, ?_⟩
    cases read with
    | none => exact .inr (hlacks rfl)
    | some is =>
      cases is with
      | nil => exact .inl (List.forall₂_nil_right_iff.mp (hread _ rfl))
      | cons i is => exact absurd rfl (hnone i is)

/-- The edits of a plain import statement lie within it. -/
theorem queues_enterPlain (hc : c.IsOpen) {n : Node} (hregular : n.IsRegularTree)
    (kind : SymbolKind) : Queues c (enterPlain w n kind) fun _ => n.Encloses := by
  have hclauses : (plainClauses n).Sublist n.children :=
    List.filter_sublist.trans List.filter_sublist
  refine (queues_enterPlain_eq hc n kind).mono fun _ es hes => ?_
  obtain ⟨rfl, -⟩ | ⟨is, his, rfl⟩ := hes
  · exact n.encloses_nil
  · exact Node.encloses_parts hregular hclauses his (over_moveEdits _ is)

/-- The change to a group of imports is made in the group or in its common part. -/
theorem encloses_groupEdit? {r : Relocation} {n base : Node} {baseName : Text}
    {is : List Import} {e : Edit} (hregular : n.IsRegularTree) (hbase : base ∈ n.children)
    (h : groupEdit? r n base baseName is = some e) : n.Encloses [e] := by
  have hspan : ∀ m : Node, m.span.Within n.span → m.span.start ≤ m.span.stop → e.span = m.span →
      n.Encloses [e] := by
    intro m hwithin hforward he
    refine Node.encloses_of_over (Edit.over_singleton he) (List.pairwise_singleton _ _) ?_
    intro x hx
    rw [List.mem_singleton.mp hx]
    exact ⟨hwithin, hforward⟩
  unfold groupEdit? at h
  split at h
  · cases h
    exact hspan base (hregular.self.inside base hbase) (hregular.child hbase).self.forward rfl
  split at h
  · cases h
    exact hspan n (Span.Within.refl _) hregular.self.forward rfl
  · cases h

/-- A group of imports is changed as `groupEdit?` says, if it has a common part and every clause has a
name. -/
theorem queues_enterGroup_eq (hc : c.IsOpen) (n group : Node) (kind : SymbolKind) :
    Queues c (enterGroup w n group kind) fun _ es =>
      (es = [] ∧ (groupBase? n = none ∨ Import.LacksName (groupClauses group)))
      ∨ ∃ base text is, groupBase? n = some base ∧ w.source.text? base = some text
        ∧ List.Forall₂ (Import.IsFrom w kind (Name.bare text)) (groupClauses group) is
        ∧ es = (groupEdit? w.relocation n base (Name.bare text) is).toList := by
  have hreport : ∀ line reason, IsSilent c (w.reportUnsupported line reason) :=
    fun _ _ _ => spec_reportUnsupported hc.toIsLenient
  unfold enterGroup
  split
  · next hnone => exact (hreport _ _).queues fun _ => .inl ⟨rfl, .inl hnone⟩
  · next base hbase =>
    refine queues_textOf_bind hc.toIsLenient fun text htext => ?_
    dsimp only
    refine (Queues.of_preserves fun _ =>
      spec_readGroup_cases hc.toIsLenient kind _ (groupClauses group)).bind fun read es hread => ?_
    obtain ⟨rfl, hread, hlacks⟩ := hread
    split
    · next clause => exact (hreport _ _).queues fun _ => .inl ⟨rfl, .inr (hlacks clause rfl)⟩
    · next is =>
      have hrest : IsSilent c (do
          if is.any w.relocation.movesImport && !is.all w.relocation.movesImport then
            note .debug .namespaces
              (w.shownPath ++ ": split group use of " ++ String.ofList (Name.bare text) ++ " into "
                ++ toString is.length ++ " statements")
          adoptAll w is) := by
        dsimp only
        split
        · exact (isSilent_note hc.toIsLenient).bind fun _ => isSilent_adoptAll hc is
        · exact isSilent_adoptAll hc is
      split
      · next e he =>
        have hqueue : Queues c (queue e) fun _ es => es = [e] := Queues.queue rfl
        refine hqueue.bind fun _ es hes => hrest.queues fun _ => ?_
        rw [hes, List.append_nil]
        exact .inr ⟨base, text, is, hbase, htext, hread _ rfl, by rw [he]; rfl⟩
      · next hnone =>
        refine hrest.queues fun _ => .inr ⟨base, text, is, hbase, htext, hread _ rfl, ?_⟩
        rw [hnone]
        rfl

/-- The edits of a group of imports lie within the statement. -/
theorem queues_enterGroup (hc : c.IsOpen) {n : Node} (hregular : n.IsRegularTree) (group : Node)
    (kind : SymbolKind) : Queues c (enterGroup w n group kind) fun _ => n.Encloses := by
  refine (queues_enterGroup_eq hc n group kind).mono fun _ es hes => ?_
  obtain ⟨rfl, -⟩ | ⟨base, text, is, hbase, -, -, rfl⟩ := hes
  · exact n.encloses_nil
  · cases hedit : groupEdit? w.relocation n base (Name.bare text) is with
    | none => exact n.encloses_nil
    | some e => exact encloses_groupEdit? hregular (mem_of_groupBase? hbase) hedit

/-- An import statement is edited inside and not gone into. -/
theorem queues_enterImports (hc : c.IsOpen) {s : Site} (hregular : s.node.IsRegularTree)
    (huse : s.node.type = Node.useType) :
    Queues c ((imports w).enter s) fun d es => d = .skip ∧ s.node.Encloses es := by
  have hskip : ∀ {m : PrefixingM Unit}, (Queues c m fun _ => s.node.Encloses) →
      Queues c (do m; pure Descent.skip) fun d es => d = .skip ∧ s.node.Encloses es := by
    intro m hm
    refine hm.bind fun _ es hes => Queues.pure ?_
    rw [List.append_nil]
    exact ⟨rfl, hes⟩
  unfold imports
  dsimp only
  rw [if_pos (show s.node.type = "namespace_use_declaration" from huse)]
  split
  · exact hskip (queues_enterGroup hc hregular _ _)
  · exact hskip (queues_enterPlain hc hregular _)

/-- What is touched on entering a node: the name of a namespace, names, and literals. -/
theorem targets_eq (s : Site) :
    s.targets = (if s.node.type = namespaceType then s.node.namespaceTargets else [])
      ++ (nameSpans s ++ literalSpans s.node) := by
  have hnames : ∀ type ∈ nameTypes, type ≠ namespaceType ∧ type ∉ Node.callTypes := by decide
  unfold Site.targets nameSpans literalSpans
  by_cases hname : s.node.isName = true
  · obtain ⟨hspace, hcall⟩ := hnames _ (Site.type_mem_of_isName hname)
    simp [hname, hspace, hcall]
  · by_cases hspace : s.node.type = namespaceType
    · have hcall : namespaceType ∉ Node.callTypes := by decide
      have htargets : s.node.nameTargets = [] := by
        simp [Node.nameTargets, classReferences, isInstanceTest, hspace, namespaceType]
      simp [hname, hspace, hcall, htargets]
    · simp [hname, hspace]

/-- What the first visitor queues comes before what the others do, and what is below is skipped if one of
them says so. -/
theorem queues_enterAll_cons {v : Visitor PrefixingM} {vs : List (Visitor PrefixingM)} {s : Site}
    {Q : Descent → List Edit → Prop} {R : Bool → List Edit → Prop}
    (hv : Queues c (v.enter s) Q) (hvs : Queues c (Walk.enterAll vs s) R) :
    Queues c (Walk.enterAll (v :: vs) s) fun skip es => ∃ d first more rest,
      Q d first ∧ R more rest ∧ skip = (d = .skip || more) ∧ es = first ++ rest := by
  refine hv.bind fun d first hfirst => hvs.bind fun more rest hrest => Queues.pure ?_
  rw [List.append_nil]
  exact ⟨d, first, more, rest, hfirst, hrest, rfl, rfl⟩

/-- A literal is changed for the names it holds or for the code it holds, never for both. -/
theorem queues_enterValues (hc : c.IsOpen) {treat : Text → Plan Text}
    (htreat : ∀ code, (treat code).Keeps c fun _ => True) (s : Site) :
    Queues c (Walk.enterAll [literals w, embedded w treat] s) fun _ =>
      Edit.Over (literalSpans s.node) := by
  have hliterals : Queues c ((literals w).enter s) fun _ es => Edit.Over (literalSpans s.node) es
      ∧ (s.node.type = "function_call_expression" → calleeOf w s.node = some "eval".toList →
        es = []) :=
    (queues_enterLiterals hc s.node).bind_pure
  have hnone : Queues c (Walk.enterAll [] s) fun _ es => es = [] := Queues.pure rfl
  refine (queues_enterAll_cons hliterals
    (queues_enterAll_cons (queues_enterEmbedded hc htreat s.node) hnone)).mono ?_
  rintro _ _ ⟨_, first, _, _, ⟨hfirst, hskipped⟩, ⟨_, last, _, _, ⟨hlast, hplain⟩, rfl, -, rfl⟩, -, rfl⟩
  rw [List.append_nil]
  by_cases heval : s.node.type = "function_call_expression"
      ∧ calleeOf w s.node = some "eval".toList
  · rw [hskipped heval.1 heval.2, List.nil_append]
    exact hlast
  · rw [hplain heval, List.append_nil]
    exact hfirst

/-- What entering a site adds to the queue: at an import statement, edits inside it, and the walk
stays above; anywhere else, edits over the targets of the site. -/
inductive Entered (s : Site) : Bool → List Edit → Prop where
  /-- An import statement. -/
  | use {es : List Edit} (huse : s.node.type = Node.useType) (hes : s.node.Encloses es) :
    Entered s true es
  /-- Any other node. -/
  | other {skip : Bool} {es : List Edit} (huse : s.node.type ≠ Node.useType)
    (hes : Edit.Over s.targets es) : Entered s skip es

/-- Entering a site queues edits over what may be touched at it. -/
theorem queues_enterAll (hc : c.IsOpen) {treat : Text → Plan Text}
    (htreat : ∀ code, (treat code).Keeps c fun _ => True) (root : Node) {s : Site}
    (hregular : s.node.IsRegularTree) :
    Queues c (Walk.enterAll (Prefixer.visitors w root treat) s) (Entered s) := by
  have hnamespaces : Queues c ((namespaces w root).enter s) fun _ =>
      Edit.Over (if s.node.type = namespaceType then s.node.namespaceTargets else []) := by
    unfold namespaces
    dsimp only
    split
    · exact (queues_enterDeclaration hc s.node).bind_pure
    · exact Queues.pure (Edit.over_nil _)
  have hnames : Queues c ((names w).enter s) fun _ => Edit.Over (nameSpans s) :=
    (queues_enterNames hc s).bind_pure
  have himports : Queues c ((imports w).enter s) fun d es =>
      (s.node.type = Node.useType → d = .skip ∧ s.node.Encloses es)
        ∧ (s.node.type ≠ Node.useType → es = []) := by
    by_cases huse : s.node.type = Node.useType
    · exact (queues_enterImports hc hregular huse).mono fun _ _ h =>
        ⟨fun _ => h, fun hne => absurd huse hne⟩
    · have henter : (imports w).enter s = pure .onward := if_neg huse
      rw [henter]
      exact Queues.pure ⟨fun h => absurd h huse, fun _ => rfl⟩
  refine (queues_enterAll_cons hnamespaces (queues_enterAll_cons himports
    (queues_enterAll_cons hnames (queues_enterValues hc htreat s)))).mono ?_
  rintro _ _ ⟨_, space, _, _, hspace, ⟨d, use, _, _, hd, ⟨_, name, _, value, hname, hvalue, -, rfl⟩,
    rfl, rfl⟩, rfl, rfl⟩
  by_cases huse : s.node.type = Node.useType
  · have hedited : s.node.type ∉ Site.editedTypes := by
      rw [huse]
      decide
    have hnil := (targets_eq s).symm.trans (Site.targets_of_type hedited)
    obtain ⟨hspaces, hrest⟩ := List.append_eq_nil_iff.mp hnil
    obtain ⟨hnameSpans, hliteralSpans⟩ := List.append_eq_nil_iff.mp hrest
    rw [hspaces] at hspace
    rw [hnameSpans] at hname
    rw [hliteralSpans] at hvalue
    obtain ⟨hskip, hes⟩ := hd.1 huse
    simp only [hspace.eq_nil, hname.eq_nil, hvalue.eq_nil, hskip, List.nil_append, List.append_nil,
      decide_true, Bool.true_or, Bool.or_true]
    exact .use huse hes
  · rw [hd.2 huse, List.nil_append]
    refine .other huse ?_
    rw [targets_eq]
    exact hspace.append (hname.append hvalue)

/-- On leaving a node nothing is queued. -/
theorem isSilent_leaveAll (root : Node) (treat : Text → Plan Text) (s : Site) :
    IsSilent c (Walk.leaveAll (Prefixer.visitors w root treat) s) := by
  have hleave : IsSilent c ((namespaces w root).leave s) := by
    unfold namespaces
    dsimp only
    split
    · exact isSilent_enterNamespace _ _
    · exact IsSilent.pure ()
  exact hleave.bind fun _ => IsSilent.pure ()

end Prefixing

end PhpPrefixer
