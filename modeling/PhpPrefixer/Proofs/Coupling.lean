import PhpPrefixer.Proofs.PlanRuns
import PhpPrefixer.Proofs.Queueing
import PhpPrefixer.Proofs.Shifting

/-!
# The same code in two files

Two files hold the same code, each at its own place, and both are worked on. What is done about the code
depends on the code and on the scope, and on nothing else: not on the rest of the files, on what was
queued or recorded before, or on their paths. `PrefixingM.Couples` says so of two pieces of work, as a
relation between the states of both that is kept whenever both end well. A `Coupling` is such a relation
that says that the scopes are equal, and that does not mind what is done to both states alike.

All visitors but the one for namespaces keep every coupling. Taken for one file and itself, a coupling is
a property of the state that these visitors keep.
-/

namespace PhpPrefixer

open PrefixingM

variable {α β γ δ : Type}

/-- Two pieces of work that are done in related states, and that both end well, have related results and
lead to related states. -/
def PrefixingM.Couples (C : FileState → FileState → Prop) (m₁ : PrefixingM α) (m₂ : PrefixingM β)
    (Q : α → β → Prop) : Prop :=
  ∀ s₁ s₂, C s₁ s₂ → ∀ a t₁ b t₂, (m₁.run s₁).outcome = .ok (a, t₁) →
    (m₂.run s₂).outcome = .ok (b, t₂) → Q a b ∧ C t₁ t₂

namespace PrefixingM.Couples

variable {C : FileState → FileState → Prop} {m₁ : PrefixingM α} {m₂ : PrefixingM β}
  {Q : α → β → Prop}

/-- Results that are related may be given at once. -/
protected theorem pure {a : α} {b : β} (h : Q a b) : Couples C (pure a) (pure b) Q := by
  intro s₁ s₂ hs a' t₁ b' t₂ h₁ h₂
  cases h₁
  cases h₂
  exact ⟨h, hs⟩

/-- Two pieces of work that are coupled go on coupled if they do so from every two related results. -/
protected theorem bind {next₁ : α → PrefixingM γ} {next₂ : β → PrefixingM δ} {R : γ → δ → Prop}
    (hm : Couples C m₁ m₂ Q) (hnext : ∀ a b, Q a b → Couples C (next₁ a) (next₂ b) R) :
    Couples C (m₁ >>= next₁) (m₂ >>= next₂) R := by
  intro s₁ s₂ hs c t₁ d t₂ h₁ h₂
  rw [StateT.run_bind] at h₁ h₂
  obtain ⟨⟨a, u₁⟩, hfirst₁, hlast₁, -⟩ := Plan.exists_of_bind h₁
  obtain ⟨⟨b, u₂⟩, hfirst₂, hlast₂, -⟩ := Plan.exists_of_bind h₂
  obtain ⟨hQ, hu⟩ := hm s₁ s₂ hs a u₁ b u₂ hfirst₁ hfirst₂
  exact hnext a b hQ u₁ u₂ hu c t₁ d t₂ hlast₁ hlast₂

/-- Plans leave the states of two files as they are. -/
protected theorem lift {p₁ : Plan α} {p₂ : Plan β}
    (h : ∀ a b, p₁.outcome = .ok a → p₂.outcome = .ok b → Q a b) :
    Couples C (liftM p₁) (liftM p₂) Q := by
  intro s₁ s₂ hs a t₁ b t₂ h₁ h₂
  have heq₁ : (liftM p₁ : PrefixingM α).run s₁ = p₁ >>= fun a => pure (a, s₁) := rfl
  have heq₂ : (liftM p₂ : PrefixingM β).run s₂ = p₂ >>= fun b => pure (b, s₂) := rfl
  rw [heq₁] at h₁
  rw [heq₂] at h₂
  obtain ⟨a', ha, hlast₁, -⟩ := Plan.exists_of_bind h₁
  obtain ⟨b', hb, hlast₂, -⟩ := Plan.exists_of_bind h₂
  cases hlast₁
  cases hlast₂
  exact ⟨h _ _ ha hb, hs⟩

/-- Changes that keep two states related may be made on both sides. -/
protected theorem modify {f₁ f₂ : FileState → FileState}
    (h : ∀ s₁ s₂, C s₁ s₂ → C (f₁ s₁) (f₂ s₂)) :
    Couples C (modify f₁ : PrefixingM Unit) (modify f₂ : PrefixingM Unit) fun _ _ => True := by
  intro s₁ s₂ hs a t₁ b t₂ h₁ h₂
  cases h₁
  cases h₂
  exact ⟨trivial, h s₁ s₂ hs⟩

/-- The same way is taken in both. -/
protected theorem ite {b : Prop} [Decidable b] {m₁' : PrefixingM α} {m₂' : PrefixingM β}
    (h : Couples C m₁ m₂ Q) (h' : Couples C m₁' m₂' Q) :
    Couples C (if b then m₁ else m₁') (if b then m₂ else m₂') Q := by
  split
  · exact h
  · exact h'

/-- What goes on with the states knows that they are related. -/
theorem get_bind {next₁ : FileState → PrefixingM α} {next₂ : FileState → PrefixingM β}
    (h : ∀ s₁ s₂, C s₁ s₂ → Couples C (next₁ s₁) (next₂ s₂) Q) :
    Couples C (get >>= next₁) (get >>= next₂) Q :=
  fun s₁ s₂ hs => h s₁ s₂ hs s₁ s₂ hs

/-- Work that changes nothing keeps every relation. -/
theorem of_preserves (h₁ : ∀ s, Preserves .any (· = s) m₁) (h₂ : ∀ s, Preserves .any (· = s) m₂) :
    Couples C m₁ m₂ fun _ _ => True := by
  intro s₁ s₂ hs a t₁ b t₂ hrun₁ hrun₂
  have ht₁ : t₁ = s₁ := (h₁ s₁ s₁ rfl).result _ hrun₁
  have ht₂ : t₂ = s₂ := (h₂ s₂ s₂ rfl).result _ hrun₂
  rw [ht₁, ht₂]
  exact ⟨trivial, hs⟩

/-- Work that fails does not end well. -/
protected theorem fail {f : Failure} : Couples C (PrefixingM.fail f : PrefixingM α) m₂ Q := by
  intro s₁ s₂ hs a t₁ b t₂ h₁ h₂
  cases h₁

end PrefixingM.Couples

/-- The same code stands in two files, `k₁` and `k₂` bytes further on, and is decided about alike. -/
structure FileSetting.SameCode (w₁ w₂ : FileSetting) (k₁ k₂ : Nat) (n : Node) : Prop where
  /-- The same rules decide. -/
  relocation : w₁.relocation = w₂.relocation
  /-- All nodes have the same text. -/
  text : ∀ m ∈ n.preorder, w₁.source.text? (m.shift k₁) = w₂.source.text? (m.shift k₂)

section

variable {k₁ k₂ : Nat} {w₁ w₂ : FileSetting} {n : Node} {C : FileState → FileState → Prop}

namespace FileSetting

/-- The same code is the same further down. -/
theorem SameCode.below (h : SameCode w₁ w₂ k₁ k₂ n) {c : Node} (hc : c ∈ n.preorder) :
    SameCode w₁ w₂ k₁ k₂ c :=
  ⟨h.relocation, fun m hm => h.text m (Node.mem_preorder_trans hm hc)⟩

/-- The same code is the same in a child. -/
theorem SameCode.child (h : SameCode w₁ w₂ k₁ k₂ n) {c : Node} (hc : c ∈ n.children) :
    SameCode w₁ w₂ k₁ k₂ c :=
  h.below (Node.mem_preorder_child hc)

/-- The same code has the same text. -/
theorem SameCode.self (h : SameCode w₁ w₂ k₁ k₂ n) :
    w₁.source.text? (n.shift k₁) = w₂.source.text? (n.shift k₂) :=
  h.text n (Node.mem_preorder_self n)

/-- The same text is read in both files. -/
theorem couples_textOf_bind {next₁ : Text → PrefixingM α} {next₂ : Text → PrefixingM β}
    {Q : α → β → Prop} (h : SameCode w₁ w₂ k₁ k₂ n)
    (hnext : ∀ t, w₁.source.text? (n.shift k₁) = some t → Couples C (next₁ t) (next₂ t) Q) :
    Couples C (w₁.textOf (n.shift k₁) >>= next₁) (w₂.textOf (n.shift k₂) >>= next₂) Q := by
  have hself := h.self
  unfold textOf
  cases htext : w₁.source.text? (n.shift k₁) with
  | none => exact Couples.bind (Q := fun _ _ => False) Couples.fail fun _ _ h => h.elim
  | some t =>
    rw [← hself, htext, pure_bind, pure_bind]
    exact hnext t htext

/-- Telling different things leaves two files coupled. -/
theorem couples_note {l₁ l₂ : Level} {c₁ c₂ : Channel} {t₁ t₂ : String} :
    Couples C (note l₁ c₁ t₁) (note l₂ c₂ t₂) fun _ _ => True :=
  Couples.of_preserves (fun _ => Spec.note trivial fun _ hs => hs)
    fun _ => Spec.note trivial fun _ hs => hs

/-- Reporting different things that are unsupported leaves two files coupled. -/
theorem couples_reportUnsupported {line₁ line₂ : Nat} {reason₁ reason₂ : String} :
    Couples C (w₁.reportUnsupported line₁ reason₁) (w₂.reportUnsupported line₂ reason₂)
      fun _ _ => True :=
  Couples.of_preserves (fun _ => spec_reportUnsupported Conduct.isOpen_any.toIsLenient)
    fun _ => spec_reportUnsupported Conduct.isOpen_any.toIsLenient

/-- Reporting different dynamic calls leaves two files coupled. -/
theorem couples_reportDynamic {line₁ line₂ : Nat} {callee₁ callee₂ : Text} :
    Couples C (w₁.reportDynamic line₁ callee₁) (w₂.reportDynamic line₂ callee₂) fun _ _ => True :=
  Couples.of_preserves (fun _ => spec_reportDynamic Conduct.isOpen_any.toIsLenient)
    fun _ => spec_reportDynamic Conduct.isOpen_any.toIsLenient

end FileSetting

/-- The same function is called in both files. -/
theorem Prefixing.couples_callee?_bind {next₁ : Option Text → PrefixingM α}
    {next₂ : Option Text → PrefixingM β} {Q : α → β → Prop}
    (h : FileSetting.SameCode w₁ w₂ k₁ k₂ n)
    (hnext : ∀ callee, Couples C (next₁ callee) (next₂ callee) Q) :
    Couples C (callee? w₁ (n.shift k₁) >>= next₁) (callee? w₂ (n.shift k₂) >>= next₂) Q := by
  unfold callee?
  simp only [Node.child?_shift]
  cases hchild : n.child? "function" with
  | none => exact hnext none
  | some m =>
    have hm := h.child (Node.mem_children_of_child? hchild).1
    simp only [Option.map_some, bind_assoc, pure_bind, globalCallee?_shift]
    exact FileSetting.couples_textOf_bind hm fun t _ => hnext _

end

/-- A relation between the states of two files in which the same code is worked on, `k₁` and `k₂` bytes
further on. -/
structure Coupling (k₁ k₂ : Nat) where
  /-- The relation. -/
  holds : FileState → FileState → Prop
  /-- The scopes are equal. -/
  scope_eq : ∀ {s₁ s₂}, holds s₁ s₂ → s₁.scope = s₂.scope
  /-- The same edit may be queued in both. -/
  queued : ∀ {s₁ s₂} (e : Edit), holds s₁ s₂ →
    holds { s₁ with edits := s₁.edits ++ [e.shift k₁] } { s₂ with edits := s₂.edits ++ [e.shift k₂] }
  /-- Renames do not matter. -/
  renamed : ∀ {s₁ s₂} (rs₁ rs₂ : List Rename), holds s₁ s₂ →
    holds { s₁ with renames := rs₁ } { s₂ with renames := rs₂ }
  /-- The same name may be imported in both. -/
  imported : ∀ {s₁ s₂} (kind : SymbolKind) (localName target : Text), holds s₁ s₂ →
    holds { s₁ with scope := s₁.scope.importing kind localName target }
      { s₂ with scope := s₂.scope.importing kind localName target }

section

variable {k₁ k₂ : Nat} {C : Coupling k₁ k₂} {w₁ w₂ : FileSetting} {n : Node}

/-- Keeping different renames in mind leaves two states related. -/
theorem Coupling.withRename {s₁ s₂ : FileState} (h : C.holds s₁ s₂) (r₁ r₂ : Rename) :
    C.holds (s₁.withRename r₁) (s₂.withRename r₂) := by
  have heq : ∀ (s : FileState) (r : Rename),
      s.withRename r = { s with renames := (s.withRename r).renames } := by
    intro s r
    unfold FileState.withRename
    split
    · rfl
    · rfl
  rw [heq s₁ r₁, heq s₂ r₂]
  exact C.renamed _ _ h

/-- The same edit may be queued on both sides, each at its own place. -/
theorem Coupling.queue (C : Coupling k₁ k₂) (e : Edit) :
    Couples C.holds (queue (e.shift k₁)) (queue (e.shift k₂)) fun _ _ => True :=
  Couples.modify fun _ _ hs => C.queued e hs

/-- The same node may be replaced on both sides, each at its own place. -/
theorem Coupling.replace (C : Coupling k₁ k₂) (n : Node) (t : Text) :
    Couples C.holds (PrefixingM.queue (.replacing (n.shift k₁) t))
      (PrefixingM.queue (.replacing (n.shift k₂) t)) fun _ _ => True := by
  rw [Edit.replacing_shift, Edit.replacing_shift]
  exact C.queue _

namespace FileSetting

/-- The same rename may be recorded on both sides. -/
theorem couples_record (kind : SymbolKind) (name target : Text) :
    Couples C.holds (w₁.record kind name target) (w₂.record kind name target) fun _ _ => True := by
  have hstep : Couples C.holds (liftM (Plan.record ⟨name, target, kind, some w₁.path⟩))
      (liftM (Plan.record ⟨name, target, kind, some w₂.path⟩)) fun _ _ => True :=
    Couples.lift fun _ _ _ _ => trivial
  exact hstep.bind fun _ _ _ => Couples.modify fun _ _ hs => C.withRename hs _ _

/-- A reference is written anew alike in both files. -/
theorem couples_moveReference (h : SameCode w₁ w₂ k₁ k₂ n) (kind : SymbolKind) :
    Couples C.holds (w₁.moveReference kind (n.shift k₁)) (w₂.moveReference kind (n.shift k₂))
      fun _ _ => True := by
  refine couples_textOf_bind h fun text _ => Couples.get_bind fun s₁ s₂ hs => ?_
  dsimp only
  rw [← h.relocation, ← C.scope_eq hs]
  have hrename : Couples C.holds
      (w₁.recordDecided kind (w₁.relocation.reference s₁.scope kind text).rename)
      (w₂.recordDecided kind (w₁.relocation.reference s₁.scope kind text).rename)
      fun _ _ => True := by
    cases (w₁.relocation.reference s₁.scope kind text).rename with
    | none => exact Couples.pure trivial
    | some names => exact couples_record kind names.1 names.2
  cases (w₁.relocation.reference s₁.scope kind text).replacement with
  | none => exact hrename
  | some written => exact (C.replace n written).bind fun _ _ _ => hrename

/-- A declaration is recorded in both files or in none. -/
theorem couples_recordDeclaration (kind : SymbolKind) {name : Option Node}
    (h : ∀ m ∈ name, SameCode w₁ w₂ k₁ k₂ m) :
    Couples C.holds (w₁.recordDeclaration kind (name.map (Node.shift k₁)))
      (w₂.recordDeclaration kind (name.map (Node.shift k₂))) fun _ _ => True := by
  cases name with
  | none => exact Couples.pure trivial
  | some m =>
    have hm := h m rfl
    refine couples_textOf_bind hm fun short _ => Couples.get_bind fun s₁ s₂ hs => ?_
    dsimp only
    rw [← hm.relocation, ← C.scope_eq hs]
    cases w₁.relocation.declare s₁.scope kind short with
    | ignored => exact Couples.pure trivial
    | renamed name target => exact couples_record kind name target
    | stranded name => exact couples_note
    | shadowing name => exact couples_note

/-- What texts mention is found and recorded alike where symbols move alike. -/
theorem couples_prefixMention (h : w₁.relocation = w₂.relocation) (kind : SymbolKind)
    (value : Text) :
    Couples C.holds (w₁.prefixMention kind value) (w₂.prefixMention kind value) (· = ·) := by
  unfold prefixMention
  rw [← h]
  cases w₁.relocation.mention? kind value with
  | none => exact Couples.pure rfl
  | some m => exact (couples_record m.kind m.name m.renamed).bind fun _ _ _ => Couples.pure rfl

end FileSetting

namespace Prefixing

open FileSetting

/-- A clause that gives no local name at one place is read from the next one. -/
theorem readGiven_none_cons (w : FileSetting) (rest : List (Option Node)) :
    readGiven w (none :: rest) = readGiven w rest := by
  cases rest with
  | nil => rfl
  | cons m rest => rfl

/-- The same local names are read from the same code. -/
theorem couples_readGiven {nodes : List (Option Node)}
    (h : ∀ m, some m ∈ nodes → SameCode w₁ w₂ k₁ k₂ m) :
    Couples C.holds (readGiven w₁ (nodes.map (Option.map (Node.shift k₁))))
      (readGiven w₂ (nodes.map (Option.map (Node.shift k₂)))) (· = ·) := by
  induction nodes with
  | nil => exact Couples.pure rfl
  | cons m rest ih =>
    have hrest := ih fun m hm => h m (List.mem_cons_of_mem _ hm)
    cases m with
    | none =>
      simp only [List.map_cons, Option.map_none, readGiven_none_cons]
      exact hrest
    | some m =>
      have hm := h m List.mem_cons_self
      cases rest with
      | nil => exact couples_textOf_bind hm fun t _ => Couples.pure rfl
      | cons m' rest => exact couples_textOf_bind hm fun t _ => hrest

/-- The nodes that give a local name are found in the clause. -/
theorem sameCode_of_givenNames {parts : List Node} (h : ∀ c ∈ parts, SameCode w₁ w₂ k₁ k₂ c)
    (afterAs : Bool) : ∀ m, some m ∈ Import.givenNames afterAs parts → SameCode w₁ w₂ k₁ k₂ m := by
  fun_induction Import.givenNames afterAs parts with
  | case1 =>
    intro m hm
    cases hm
  | case2 afterAs n ns has ih => exact ih fun c hc => h c (List.mem_cons_of_mem n hc)
  | case3 afterAs n ns has hclause ih =>
    intro m hm
    rcases List.mem_cons.mp hm with hfound | hrest
    · have hmem := List.mem_of_find?_eq_some hfound.symm
      exact (h n List.mem_cons_self).child (Node.mem_children_of_namedChildren hmem)
    · exact ih (fun c hc => h c (List.mem_cons_of_mem n hc)) m hrest
  | case4 afterAs n ns has hclause hname ih =>
    intro m hm
    rcases List.mem_cons.mp hm with hsame | hrest
    · cases hsame
      exact h n List.mem_cons_self
    · exact ih (fun c hc => h c (List.mem_cons_of_mem n hc)) m hrest
  | case5 afterAs n ns has hclause hname ih => exact ih fun c hc => h c (List.mem_cons_of_mem n hc)

/-- The same import is read from a clause in both files. -/
theorem couples_readClause (h : SameCode w₁ w₂ k₁ k₂ n) (kind : SymbolKind) (base : Text) :
    Couples C.holds (readClause w₁ kind base (n.shift k₁)) (readClause w₂ kind base (n.shift k₂))
      fun a b => ∃ i : Option Import, a = i.map (Import.shift k₁) ∧ b = i.map (Import.shift k₂) := by
  unfold readClause
  simp only [Node.children_shift, Import.givenNames_shift, Import.target?_shift,
    Import.kindWord?_shift]
  refine (couples_readGiven (sameCode_of_givenNames (fun c hc => h.child hc) false)).bind ?_
  rintro given - rfl
  cases htarget : Import.target? n.children with
  | none => exact Couples.pure ⟨none, rfl, rfl⟩
  | some node =>
    have hnode := h.child (Import.mem_of_target? htarget)
    refine couples_textOf_bind hnode fun text _ => Couples.pure ⟨some ?_, ?_, ?_⟩
    · exact
        { node, given, name := Name.join [base, Name.bare text],
          kind := (Import.kindWord? n).getD kind, leading := text.head? = some Name.separator }
    · rfl
    · rfl

/-- The same imports are read from the same clauses. -/
theorem couples_readClauses {clauses : List Node}
    (h : ∀ c ∈ clauses, SameCode w₁ w₂ k₁ k₂ c) (kind : SymbolKind) :
    Couples C.holds (readClauses w₁ kind (clauses.map (Node.shift k₁)))
      (readClauses w₂ kind (clauses.map (Node.shift k₂))) fun a b =>
        ∃ is : Option (List Import),
          a = is.map (List.map (Import.shift k₁)) ∧ b = is.map (List.map (Import.shift k₂)) := by
  induction clauses with
  | nil => exact Couples.pure ⟨some [], rfl, rfl⟩
  | cons clause rest ih =>
    obtain ⟨hclause, hrest⟩ := List.forall_mem_cons.mp h
    refine (couples_readClause hclause kind []).bind ?_
    rintro - - ⟨first, rfl, rfl⟩
    refine (ih hrest).bind ?_
    rintro - - ⟨others, rfl, rfl⟩
    refine Couples.pure ⟨first.bind fun i => others.map (i :: ·), ?_, ?_⟩
    · cases first <;> cases others <;> rfl
    · cases first <;> cases others <;> rfl

/-- The same imports are read from the same group, or it cannot be read on either side. -/
theorem couples_readGroup {clauses : List Node}
    (h : ∀ c ∈ clauses, SameCode w₁ w₂ k₁ k₂ c) (kind : SymbolKind) (base : Text) :
    Couples C.holds (readGroup w₁ kind base (clauses.map (Node.shift k₁)))
      (readGroup w₂ kind base (clauses.map (Node.shift k₂))) fun a b =>
        (∃ m₁ m₂, a = .error m₁ ∧ b = .error m₂)
          ∨ ∃ is : List Import, a = .ok (is.map (Import.shift k₁)) ∧ b = .ok (is.map (Import.shift k₂)) := by
  induction clauses with
  | nil => exact Couples.pure (.inr ⟨[], rfl, rfl⟩)
  | cons clause rest ih =>
    obtain ⟨hclause, hrest⟩ := List.forall_mem_cons.mp h
    refine (couples_readClause hclause kind base).bind ?_
    rintro - - ⟨first, rfl, rfl⟩
    cases first with
    | none => exact Couples.pure (.inl ⟨_, _, rfl, rfl⟩)
    | some i =>
      refine (ih hrest).bind ?_
      rintro - - (⟨m₁, m₂, rfl, rfl⟩ | ⟨is, rfl, rfl⟩)
      · exact Couples.pure (.inl ⟨_, _, rfl, rfl⟩)
      · exact Couples.pure (.inr ⟨i :: is, rfl, rfl⟩)

/-- The same import is adopted alike. -/
theorem couples_adopt (h : w₁.relocation = w₂.relocation) (i : Import) :
    Couples C.holds (adopt w₁ (i.shift k₁)) (adopt w₂ (i.shift k₂)) fun _ _ => True := by
  have himport : Couples C.holds (importName i.kind i.localName i.name)
      (importName i.kind i.localName i.name) fun _ _ => True :=
    Couples.modify fun _ _ hs => C.imported _ _ _ hs
  have hmoves : ∀ k, w₁.relocation.movesImport (i.shift k) = w₁.relocation.movesImport i :=
    fun _ => rfl
  unfold adopt
  rw [← h, hmoves, hmoves]
  exact Couples.ite ((couples_record _ _ _).bind fun _ _ _ => himport) himport

/-- The same imports are adopted alike. -/
theorem couples_adoptAll (h : w₁.relocation = w₂.relocation) (is : List Import) :
    Couples C.holds (adoptAll w₁ (is.map (Import.shift k₁))) (adoptAll w₂ (is.map (Import.shift k₂)))
      fun _ _ => True := by
  induction is with
  | nil => exact Couples.pure trivial
  | cons i is ih => exact (couples_adopt h i).bind fun _ _ _ => ih

/-- The same imports are moved alike. -/
theorem couples_moveAll (h : w₁.relocation = w₂.relocation) (is : List Import) :
    Couples C.holds (moveAll w₁ (is.map (Import.shift k₁))) (moveAll w₂ (is.map (Import.shift k₂)))
      fun _ _ => True := by
  induction is with
  | nil => exact Couples.pure trivial
  | cons i is ih =>
    have hrest := (couples_adopt (C := C) h i).bind fun _ _ _ => ih
    have hmoves : ∀ k, w₁.relocation.movesImport (i.shift k) = w₁.relocation.movesImport i :=
      fun _ => rfl
    simp only [List.map_cons, moveAll]
    rw [← h, hmoves, hmoves]
    exact Couples.ite ((C.replace i.node _).bind fun _ _ _ => hrest) hrest

/-- The same plain import statement is treated alike. -/
theorem couples_enterPlain (h : SameCode w₁ w₂ k₁ k₂ n) (kind : SymbolKind) :
    Couples C.holds (enterPlain w₁ (n.shift k₁) kind) (enterPlain w₂ (n.shift k₂) kind)
      fun _ _ => True := by
  have hclauses : ∀ k, ((n.shift k).namedChildren.filter fun c => c.type = "namespace_use_clause")
      = (plainClauses n).map (Node.shift k) := by
    intro k
    rw [Node.namedChildren_shift, Node.filter_map_shift fun m => by rw [Node.type_shift]]
    rfl
  have hsame : ∀ c ∈ plainClauses n, SameCode w₁ w₂ k₁ k₂ c := fun c hc =>
    h.child (Node.mem_children_of_namedChildren (List.mem_filter.mp hc).1)
  unfold enterPlain
  simp only [hclauses]
  refine (couples_readClauses hsame kind).bind ?_
  rintro - - ⟨is, rfl, rfl⟩
  match is with
  | none => exact couples_reportUnsupported
  | some [] => exact couples_reportUnsupported
  | some (i :: is) => exact couples_moveAll h.relocation (i :: is)

/-- The same group of imports is treated alike. -/
theorem couples_enterGroup (h : SameCode w₁ w₂ k₁ k₂ n) {group : Node} (hgroup : group ∈ n.children)
    (kind : SymbolKind) :
    Couples C.holds (enterGroup w₁ (n.shift k₁) (group.shift k₁) kind)
      (enterGroup w₂ (n.shift k₂) (group.shift k₂) kind) fun _ _ => True := by
  have hclauses : ∀ k, ((group.shift k).namedChildren.filter fun c =>
        c.type = "namespace_use_clause" || c.type = "namespace_use_group_clause")
      = (groupClauses group).map (Node.shift k) := by
    intro k
    rw [Node.namedChildren_shift, Node.filter_map_shift fun m => by rw [Node.type_shift]]
    rfl
  have hsame : ∀ c ∈ groupClauses group, SameCode w₁ w₂ k₁ k₂ c := fun c hc =>
    (h.child hgroup).child (Node.mem_children_of_namedChildren (List.mem_filter.mp hc).1)
  unfold enterGroup
  simp only [groupBase?_shift, hclauses]
  cases hbase : groupBase? n with
  | none => exact couples_reportUnsupported
  | some base =>
    have hbaseSame := h.child (mem_of_groupBase? hbase)
    refine couples_textOf_bind hbaseSame fun text _ => (couples_readGroup hsame kind _).bind ?_
    rintro - - (⟨m₁, m₂, rfl, rfl⟩ | ⟨is, rfl, rfl⟩)
    · exact couples_reportUnsupported
    · have hadopt := couples_adoptAll (C := C) h.relocation is
      have hmoves : ∀ k, w₁.relocation.movesImport ∘ Import.shift k = w₁.relocation.movesImport :=
        fun _ => rfl
      have htell : ∀ {b : Prop} [Decidable b] {l : Level} {c : Channel} {t₁ t₂ : String},
          Couples C.holds
            (if b then note l c t₁ >>= fun _ => adoptAll w₁ (is.map (Import.shift k₁))
              else adoptAll w₁ (is.map (Import.shift k₁)))
            (if b then note l c t₂ >>= fun _ => adoptAll w₂ (is.map (Import.shift k₂))
              else adoptAll w₂ (is.map (Import.shift k₂))) fun _ _ => True :=
        Couples.ite (couples_note.bind fun _ _ _ => hadopt) hadopt
      dsimp only
      rw [← h.relocation, groupEdit?_shift, groupEdit?_shift, List.any_map, List.any_map,
        List.all_map, List.all_map, hmoves, hmoves]
      cases groupEdit? w₁.relocation n base (Name.bare text) is with
      | none => exact htell
      | some e => exact (C.queue e).bind fun _ _ _ => htell

end Prefixing

end

end PhpPrefixer
