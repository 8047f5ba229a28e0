import PhpPrefixer.Proofs.CoupledWalk
import PhpPrefixer.Proofs.Quotes
import PhpPrefixer.Proofs.Regions
import PhpPrefixer.Proofs.Stages

/-!
# Files that hold the same code

Where two files hold the same code and the scopes are equal, the same edits are queued for it. A
declaration of a namespace needs no equal scopes in front of it, since it sets the scope anew:
`Prefixer.since_of_enterAll`.

The path of a file takes no part in this, and neither does the number of levels that its embedded code is
treated with, as long as there is one for each quote. So the same text embedded in two files becomes the
same text in both: `CodeFile.treatedAlike`, by induction over the levels.
-/

namespace PhpPrefixer

open PrefixingM Prefixing FileSetting

/-- The same edits have been added to two queues, each at its own place. -/
def Edit.AddedAlike (k₁ k₂ : Nat) (queue₁ queue₂ edits₁ edits₂ : List Edit) : Prop :=
  ∃ later : List Edit, edits₁ = queue₁ ++ later.map (Edit.shift k₁)
    ∧ edits₂ = queue₂ ++ later.map (Edit.shift k₂)

/-- Where nothing has been added, the same has. -/
theorem Edit.addedAlike_self (k₁ k₂ : Nat) (queue₁ queue₂ : List Edit) :
    AddedAlike k₁ k₂ queue₁ queue₂ queue₁ queue₂ :=
  ⟨[], (List.append_nil _).symm, (List.append_nil _).symm⟩

/-- Where the same edits have been added, further ones may be added on both sides. -/
theorem Edit.AddedAlike.append {k₁ k₂ : Nat} {queue₁ queue₂ edits₁ edits₂ : List Edit}
    (h : AddedAlike k₁ k₂ queue₁ queue₂ edits₁ edits₂) (more : List Edit) :
    AddedAlike k₁ k₂ queue₁ queue₂ (edits₁ ++ more.map (Edit.shift k₁))
      (edits₂ ++ more.map (Edit.shift k₂)) := by
  obtain ⟨later, rfl, rfl⟩ := h
  exact ⟨later ++ more, by simp, by simp⟩

/-- The scopes are equal, and the same edits have been added to two queues. -/
def Coupling.since (k₁ k₂ : Nat) (queue₁ queue₂ : List Edit) : Coupling k₁ k₂ where
  holds s₁ s₂ := s₁.scope = s₂.scope ∧ Edit.AddedAlike k₁ k₂ queue₁ queue₂ s₁.edits s₂.edits
  scope_eq h := h.1
  queued e h := ⟨h.1, h.2.append [e]⟩
  renamed _ _ h := h
  imported _ _ _ h := ⟨by rw [h.1], h.2⟩

section

variable {k₁ k₂ : Nat} {w₁ w₂ : FileSetting} {n : Node} {s₁ s₂ : Site} {queue₁ queue₂ : List Edit}
  {tree₁ tree₂ : Node} {treat₁ treat₂ : Text → Plan Text} {st₁ st₂ st₁' st₂' : FileState}

/-- A declaration leads to the same scope in both files, and the same edits are made to it. -/
theorem FileSetting.SameCode.declared (h : SameCode w₁ w₂ k₁ k₂ n) {d₁ d₂ : Lexical × List Edit}
    (h₁ : w₁.declared? (n.shift k₁) = some d₁) (h₂ : w₂.declared? (n.shift k₂) = some d₂) :
    d₁.1 = d₂.1
      ∧ ∃ es : List Edit, d₁.2 = es.map (Edit.shift k₁) ∧ d₂.2 = es.map (Edit.shift k₂) := by
  simp only [declared?, Node.child?_shift, Node.children_shift, List.head?_map] at h₁ h₂
  cases hname : n.child? "name" with
  | none =>
    simp only [hname, Option.map_none, Option.map_map, Option.map_eq_some_iff] at h₁ h₂
    obtain ⟨keyword, hkeyword, rfl⟩ := h₁
    obtain ⟨keyword', hkeyword', rfl⟩ := h₂
    cases hkeyword.symm.trans hkeyword'
    refine ⟨rfl, [.inserting keyword.span.stop (' ' :: w₁.relocation.root)], ?_, ?_⟩
    · simp [Node.span_shift, Edit.inserting, Edit.shift]
    · simp [Node.span_shift, Edit.inserting, Edit.shift, h.relocation]
  | some nameNode =>
    have hsame := (h.child (Node.mem_children_of_child? hname).1).self
    simp only [hname, Option.map_some, Option.map_eq_some_iff] at h₁ h₂
    obtain ⟨text, htext, rfl⟩ := h₁
    obtain ⟨text', htext', rfl⟩ := h₂
    cases (htext.symm.trans hsame).trans htext'
    have hedits : ∀ k, spaceEdits w₁.relocation (nameNode.shift k) text
        = (spaceEdits w₁.relocation nameNode text).map (Edit.shift k) := by
      intro k
      unfold spaceEdits
      split
      · rw [Edit.replacing_shift]
        rfl
      · rfl
    rw [← h.relocation]
    exact ⟨rfl, spaceEdits w₁.relocation nameNode text, hedits k₁, hedits k₂⟩

namespace Prefixing

/-- Entering a namespace never skips what is below. -/
theorem onward_of_namespaces {w : FileSetting} {tree : Node} {s : Site} {st st' : FileState}
    {d : Descent} (h : (((namespaces w tree).enter s).run st).outcome = .ok (d, st')) :
    d = .onward := by
  unfold namespaces at h
  dsimp only at h
  split at h
  · obtain ⟨_, -, hlast, -⟩ := Plan.exists_of_bind h
    cases hlast
    rfl
  · cases h
    rfl

/-- After a declaration the scopes are equal, whatever they were before. -/
theorem since_of_namespaces (h : SameCode w₁ w₂ k₁ k₂ n) (hs : s₁.Matches k₁ k₂ n s₂)
    (hscope : n.type = namespaceType ∨ st₁.scope = st₂.scope)
    (hadded : Edit.AddedAlike k₁ k₂ queue₁ queue₂ st₁.edits st₂.edits) {d₁ d₂ : Descent}
    (h₁ : (((namespaces w₁ tree₁).enter s₁).run st₁).outcome = .ok (d₁, st₁'))
    (h₂ : (((namespaces w₂ tree₂).enter s₂).run st₂).outcome = .ok (d₂, st₂')) :
    (Coupling.since k₁ k₂ queue₁ queue₂).holds st₁' st₂' := by
  have hleft := exists_declared_of_namespaces h₁
  have hright := exists_declared_of_namespaces h₂
  rw [hs.node_left, Node.type_shift] at hleft
  rw [hs.node_right, Node.type_shift] at hright
  rcases hleft with ⟨htype, rfl⟩ | ⟨htype, found₁, hfound₁, hscope₁, hedits₁⟩
  · rcases hright with ⟨_, rfl⟩ | ⟨htype', _⟩
    · exact ⟨hscope.resolve_left htype, hadded⟩
    · exact absurd htype' htype
  · rcases hright with ⟨htype', _⟩ | ⟨_, found₂, hfound₂, hscope₂, hedits₂⟩
    · exact absurd htype htype'
    · obtain ⟨hsame, es, hes₁, hes₂⟩ := h.declared hfound₁ hfound₂
      refine ⟨by rw [hscope₁, hscope₂, hsame], ?_⟩
      rw [hedits₁, hedits₂, hes₁, hes₂]
      exact hadded.append es

/-- Leaving a namespace leads two files in which the same code stands from alike to alike. -/
theorem couples_namespaces_leave (hs : s₁.Matches k₁ k₂ n s₂) :
    Couples (Coupling.since k₁ k₂ queue₁ queue₂).holds ((namespaces w₁ tree₁).leave s₁)
      ((namespaces w₂ tree₂).leave s₂) fun _ _ => True := by
  simp only [namespaces, hs.node_left, hs.node_right, Node.type_shift, Node.child?_shift,
    Option.isSome_map]
  exact Couples.ite (Couples.modify fun _ _ ht => ⟨rfl, ht.2⟩) (Couples.pure trivial)

end Prefixing

namespace Prefixer

/-- Entering the same code in two files queues the same edits, if the scopes are equal or the code is a
declaration. -/
theorem since_of_enterAll (h : SameCode w₁ w₂ k₁ k₂ n) (hs : s₁.Matches k₁ k₂ n s₂)
    (htreat : TreatedAlike w₁ w₂ treat₁ treat₂)
    (hscope : n.type = namespaceType ∨ st₁.scope = st₂.scope)
    (hadded : Edit.AddedAlike k₁ k₂ queue₁ queue₂ st₁.edits st₂.edits) {skip₁ skip₂ : Bool}
    (h₁ : ((Walk.enterAll (visitors w₁ tree₁ treat₁) s₁).run st₁).outcome = .ok (skip₁, st₁'))
    (h₂ : ((Walk.enterAll (visitors w₂ tree₂ treat₂) s₂).run st₂).outcome = .ok (skip₂, st₂')) :
    skip₁ = skip₂ ∧ (Coupling.since k₁ k₂ queue₁ queue₂).holds st₁' st₂' := by
  obtain ⟨⟨d₁, between₁⟩, hspace₁, hothers₁, -⟩ := Plan.exists_of_bind h₁
  obtain ⟨⟨d₂, between₂⟩, hspace₂, hothers₂, -⟩ := Plan.exists_of_bind h₂
  cases onward_of_namespaces hspace₁
  cases onward_of_namespaces hspace₂
  have hbetween := since_of_namespaces h hs hscope hadded hspace₁ hspace₂
  have hothers := Walk.couples_enterAll
    (couples_others (Coupling.since k₁ k₂ queue₁ queue₂) h hs htreat)
  have hafter : ∀ a b : Bool, a = b →
      Couples (Coupling.since k₁ k₂ queue₁ queue₂).holds
        (pure (decide (Descent.onward = .skip) || a)) (pure (decide (Descent.onward = .skip) || b))
        (· = ·) := by
    rintro a - rfl
    exact Couples.pure rfl
  exact hothers.bind hafter between₁ between₂ hbetween _ _ _ _ hothers₁ hothers₂

/-- From equal scopes on, walks through the same code queue the same edits. -/
theorem couples_run_visitors (htreat : TreatedAlike w₁ w₂ treat₁ treat₂) (entered₁ entered₂ : Nat)
    {tasks₁ tasks₂ : List Walk.Task}
    (h : Walk.Alike k₁ k₂ (SameCode w₁ w₂ k₁ k₂) tasks₁ tasks₂) :
    Couples (Coupling.since k₁ k₂ queue₁ queue₂).holds
      (Walk.run (visitors w₁ tree₁ treat₁) entered₁ tasks₁)
      (Walk.run (visitors w₂ tree₂ treat₂) entered₂ tasks₂) fun _ _ => True := by
  refine Walk.couples_run (fun n hn c hc => hn.child hc) ?_ ?_ entered₁ entered₂ h
  · intro n s₁ s₂ hn hs st₁ st₂ hst skip₁ st₁' skip₂ st₂' h₁ h₂
    exact since_of_enterAll hn hs htreat (.inr hst.1) hst.2 h₁ h₂
  · intro n s₁ s₂ hn hs
    have hpure : Couples (Coupling.since k₁ k₂ queue₁ queue₂).holds (pure () : PrefixingM Unit)
        (pure () : PrefixingM Unit) fun _ _ => True := Couples.pure trivial
    exact Walk.couples_leaveAll (.cons (couples_namespaces_leave hs)
      (.cons hpure (.cons hpure (.cons hpure (.cons hpure .nil)))))

/-- From a declaration on, walks through the same code queue the same edits, whatever they have done
before. -/
theorem addedAlike_of_declaration (htreat : TreatedAlike w₁ w₂ treat₁ treat₂)
    (h : SameCode w₁ w₂ k₁ k₂ n) (hs : s₁.Matches k₁ k₂ n s₂) (htype : n.type = namespaceType)
    {rest₁ rest₂ : List Walk.Task} (hrest : Walk.Alike k₁ k₂ (SameCode w₁ w₂ k₁ k₂) rest₁ rest₂)
    {entered₁ entered₂ total₁ total₂ : Nat}
    (h₁ : ((Walk.run (visitors w₁ tree₁ treat₁) entered₁ (.enter s₁ :: rest₁)).run st₁).outcome
      = .ok (total₁, st₁'))
    (h₂ : ((Walk.run (visitors w₂ tree₂ treat₂) entered₂ (.enter s₂ :: rest₂)).run st₂).outcome
      = .ok (total₂, st₂')) :
    Edit.AddedAlike k₁ k₂ st₁.edits st₂.edits st₁'.edits st₂'.edits := by
  rw [Walk.run] at h₁ h₂
  obtain ⟨⟨skip₁, between₁⟩, henter₁, hlater₁, -⟩ := Plan.exists_of_bind h₁
  obtain ⟨⟨skip₂, between₂⟩, henter₂, hlater₂, -⟩ := Plan.exists_of_bind h₂
  obtain ⟨rfl, hbetween⟩ := since_of_enterAll h hs htreat (.inl htype)
    (Edit.addedAlike_self k₁ k₂ st₁.edits st₂.edits) henter₁ henter₂
  have hpushed := Walk.Alike.pushed (fun m hm c hc => hm.child hc) h hs hrest skip₁
  exact (couples_run_visitors htreat _ _ hpushed _ _ hbetween _ _ _ _ hlater₁ hlater₂).2.2

end Prefixer

end

namespace Prefixer

variable {w : FileSetting} {tree : Node} {treat : Text → Plan Text} {s : FileState}

/-- A walk that ends well has prepared, and then done everything there is to do below the top. -/
theorem exists_run_of_walk (h : (walk w tree treat).outcome = .ok s) :
    ∃ st entered, ((Walk.beforeAll (visitors w tree treat)).run .start).outcome = .ok ((), st)
      ∧ ((Walk.run (visitors w tree treat) 0 [.enter (.ofRoot tree)]).run st).outcome
        = .ok (entered, s) := by
  obtain ⟨⟨_, last⟩, hthrough, hrest, -⟩ := Plan.exists_of_bind h
  obtain ⟨_, -, hend, -⟩ := Plan.exists_of_bind hrest
  cases hend
  obtain ⟨⟨_, st⟩, hbefore, hwalk, -⟩ := Plan.exists_of_bind hthrough
  obtain ⟨_, hrun, hafter, -⟩ := Plan.exists_of_bind hwalk
  cases hafter
  exact ⟨st, _, hbefore, hrun⟩

end Prefixer

/-- A file that holds code and can be parsed, and a number of levels that is enough for the code embedded
in it. `Prefixer.treat` takes one level for each quote. -/
structure CodeFile (p : Prefixer) where
  /-- The path of the file. -/
  path : Text
  /-- Its contents. -/
  contents : Text
  /-- How many levels of embedded code are treated. -/
  levels : Nat
  /-- The file holds code. -/
  holdsCode : Recognition.holdsCode p.extensions path contents = true
  /-- The code has no syntax error. -/
  parsed : (p.parse (Recognition.splitShebang contents).2).hasError = false
  /-- There is a level for each quote. -/
  quotes_le : Prefixer.quotes contents ≤ levels

namespace CodeFile

variable {p : Prefixer} (f : CodeFile p) (whitelist : Whitelist) (root : Text)

/-- The code, behind a line that names an interpreter. -/
def code : Text := (Recognition.splitShebang f.contents).2

/-- The bytes of the code. -/
def source : Source := .ofText f.code

/-- The tree of the code. -/
def tree : Node := (p.parse f.code).root

/-- What is known about the file while it is moved under a prefix. -/
def setting : FileSetting :=
  ⟨f.path, ⟨root, ⟨p.natives, whitelist⟩⟩, p.policy, p.warnDynamic, f.source⟩

/-- The treatment of code that is embedded in the file. -/
def treatEmbedded : Text → Plan Text := p.treatWithin whitelist f.path f.levels (some root)

/-- The visitors of the walk through the file. -/
def visitors : List (Visitor PrefixingM) :=
  Prefixer.visitors (f.setting whitelist root) f.tree (f.treatEmbedded whitelist root)

/-- The walk through the file. -/
def walk : Plan FileState :=
  Prefixer.walk (f.setting whitelist root) f.tree (f.treatEmbedded whitelist root)

end CodeFile

namespace Prefixer

variable {p : Prefixer} {whitelist : Whitelist} {path contents result : Text} {levels : Nat}
  {given : Option Text}

/-- A treatment that ends well has walked through a file, and has printed the edits of the walk. -/
theorem exists_codeFile_of_treatWithin
    (hcode : Recognition.holdsCode p.extensions path contents = true)
    (hquotes : quotes contents ≤ levels)
    (h : (p.treatWithin whitelist path (levels + 1) given contents).outcome = .ok result) :
    ∃ root, Prefix.validate given = .ok root
      ∧ ∃ f : CodeFile p, f.contents = contents ∧ f.levels = levels
        ∧ ∃ s printed, (f.walk whitelist root).outcome = .ok s
          ∧ f.source.print s.edits = .ok printed
          ∧ result = (Recognition.splitShebang contents).1 ++ printed := by
  rw [treatWithin, if_pos hcode] at h
  cases hroot : Prefix.validate given with
  | error e =>
    rw [hroot] at h
    cases h
  | ok root =>
    simp only [hroot] at h
    obtain ⟨printed, hmove, hlast, -⟩ := Plan.exists_of_bind h
    cases hlast
    obtain ⟨source, tree, s, hcheck, hwalk, hprint, -⟩ := exists_walk_of_moveCode hmove
    obtain ⟨hparsed, rfl, rfl⟩ := Parsed.check_eq_ok_iff.mp hcheck
    exact ⟨root, rfl, ⟨path, contents, levels, hcode, hparsed, hquotes⟩, rfl, rfl, s, printed, hwalk,
      hprint, rfl⟩

end Prefixer

namespace CodeFile

variable {p : Prefixer} {whitelist : Whitelist} {root : Text}

/-- A file has levels for all the code that is embedded in it. -/
theorem quotes_code_le (f : CodeFile p) : Prefixer.quotes f.code ≤ f.levels := by
  have hcontents := congrArg Prefixer.quotes (Recognition.splitShebang_append f.contents)
  rw [Prefixer.quotes_append] at hcontents
  have hlevels := f.quotes_le
  have hcode : Prefixer.quotes f.code
      = Prefixer.quotes (Recognition.splitShebang f.contents).2 := rfl
  omega

/-- Code embedded in a file has fewer quotes than there are levels. -/
theorem quotes_lt_levels (f : CodeFile p) {n : Node} {text : Text} {literal : Literal}
    (htext : f.source.text? n = some text) (hliteral : n.literal? text = some literal) :
    Prefixer.quotes (asFile literal.value) < f.levels := by
  have hembedded := Prefixer.quotes_of_literal? htext hliteral
  have hcode := f.quotes_code_le
  omega

/-- The walks through two files with the same contents queue the same edits, if code that is embedded in
both is treated alike. -/
theorem edits_eq_of_contents {f₁ f₂ : CodeFile p} (hcontents : f₁.contents = f₂.contents)
    (htreat : TreatedAlike (f₁.setting whitelist root) (f₂.setting whitelist root)
      (f₁.treatEmbedded whitelist root) (f₂.treatEmbedded whitelist root)) {s₁ s₂ : FileState}
    (h₁ : (f₁.walk whitelist root).outcome = .ok s₁) (h₂ : (f₂.walk whitelist root).outcome = .ok s₂) :
    s₁.edits = s₂.edits := by
  have hcode : f₁.code = f₂.code := by rw [code, code, hcontents]
  have htree : f₁.tree = f₂.tree := by rw [tree, tree, hcode]
  have hsource : f₁.source = f₂.source := by rw [source, source, hcode]
  obtain ⟨st₁, entered₁, hbefore₁, hrun₁⟩ := Prefixer.exists_run_of_walk h₁
  obtain ⟨st₂, entered₂, hbefore₂, hrun₂⟩ := Prefixer.exists_run_of_walk h₂
  obtain ⟨hscope₁, hedits₁⟩ := Prefixing.opened_of_beforeAll hbefore₁
  obtain ⟨hscope₂, hedits₂⟩ := Prefixing.opened_of_beforeAll hbefore₂
  have hopened : (f₁.setting whitelist root).opened f₁.tree
      = (f₂.setting whitelist root).opened f₂.tree := by
    rw [htree]
    rfl
  have hstart : (Coupling.since 0 0 st₁.edits st₂.edits).holds st₁ st₂ :=
    ⟨by rw [hscope₁, hscope₂, hopened], Edit.addedAlike_self 0 0 st₁.edits st₂.edits⟩
  have hsame : SameCode (f₁.setting whitelist root) (f₂.setting whitelist root) 0 0 f₁.tree :=
    ⟨rfl, fun m _ => congrArg (Source.text? · (m.shift 0)) hsource⟩
  have halike : Walk.Alike 0 0 (SameCode (f₁.setting whitelist root) (f₂.setting whitelist root) 0 0)
      [.enter (.ofRoot f₁.tree)] [.enter (.ofRoot f₂.tree)] := by
    rw [← htree]
    exact .cons ⟨f₁.tree, hsame, .enter (Site.ofRoot f₁.tree).matches_self⟩ .nil
  obtain ⟨-, -, later, hlater₁, hlater₂⟩ := Prefixer.couples_run_visitors htreat 0 0 halike st₁ st₂
    hstart _ _ _ _ hrun₁ hrun₂
  rw [hlater₁, hlater₂, hedits₁, hedits₂, hopened]

/-- Code that is embedded in two files is treated alike, wherever the files are. -/
theorem treatedAlike (f₁ f₂ : CodeFile p) (whitelist : Whitelist) (root : Text) :
    TreatedAlike (f₁.setting whitelist root) (f₂.setting whitelist root)
      (f₁.treatEmbedded whitelist root) (f₂.treatEmbedded whitelist root) := by
  -- Embedded code is a file itself, with one level less for what is embedded in it.
  induction hlevels : f₁.levels generalizing f₁ f₂ root with
  | zero =>
    intro m₁ m₂ text literal htext₁ htext₂ hliteral₁ hliteral₂
    have hless := f₁.quotes_lt_levels htext₁ hliteral₁
    omega
  | succ levels₁ ih =>
    intro m₁ m₂ text literal htext₁ htext₂ hliteral₁ hliteral₂ a b ha hb
    have hless₁ := f₁.quotes_lt_levels htext₁ hliteral₁
    have hless₂ := f₂.quotes_lt_levels htext₂ hliteral₂
    obtain ⟨levels₂, hlevels₂⟩ : ∃ levels, f₂.levels = levels + 1 := ⟨f₂.levels - 1, by omega⟩
    rw [treatEmbedded, hlevels] at ha
    rw [treatEmbedded, hlevels₂] at hb
    have hholds₁ := Recognition.holdsCode_asFile f₁.holdsCode literal.value
    have hholds₂ := Recognition.holdsCode_asFile f₂.holdsCode literal.value
    obtain ⟨checked, hchecked, g₁, hg₁, hdepth, s₁, printed₁, hwalk₁, hprint₁, rfl⟩ :=
      Prefixer.exists_codeFile_of_treatWithin hholds₁ (by omega) ha
    obtain ⟨checked', hchecked', g₂, hg₂, -, s₂, printed₂, hwalk₂, hprint₂, rfl⟩ :=
      Prefixer.exists_codeFile_of_treatWithin hholds₂ (by omega) hb
    cases hchecked.symm.trans hchecked'
    have hcontents : g₁.contents = g₂.contents := hg₁.trans hg₂.symm
    have hsource : g₁.source = g₂.source := by rw [source, source, code, code, hcontents]
    have hedits := edits_eq_of_contents hcontents (ih g₁ g₂ checked hdepth) hwalk₁ hwalk₂
    rw [hsource, hedits] at hprint₁
    cases hprint₁.symm.trans hprint₂
    rfl

end CodeFile

end PhpPrefixer
