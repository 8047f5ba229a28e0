import PhpPrefixer.Proofs.CoupledWalk
import PhpPrefixer.Proofs.HandFiles
import PhpPrefixer.Proofs.Regions

/-!
# Excluded namespaces

While a walk is in a region of a file, the current namespace and whether it moves are what the declaration
of the region has led to, since nothing else changes them (`Walk.Stands.exists_governing`).

The main result is `Prefixer.excluded_namespace_stays`. A named namespace stays, without an edit, if the
whitelist excludes it or if it is under the prefix already. About the global namespace the whitelist is
not asked: it moves whenever a declaration can be put in front of it.
-/

namespace PhpPrefixer

open Prefixing PrefixingM FileSetting

/-- Whether no namespace is declared among the statements of a file, and none can be declared in front of
them since they do not start with an opening tag. -/
def Node.opensWithText (tree : Node) : Bool :=
  (tree.namedChildren.all fun n => n.type ≠ namespaceType)
    && tree.namedChildren.head?.all fun n => n.type ≠ "php_tag"

/-- One file taken twice, in a namespace that moves or stays. -/
def Coupling.inNamespace (space : Text) (moved : Bool) : Coupling 0 0 where
  holds s₁ s₂ := s₁.scope = s₂.scope ∧ s₁.scope.space = space ∧ s₁.scope.moved = moved
  scope_eq h := h.1
  queued _ h := h
  renamed _ _ h := h
  imported kind localName target h := ⟨by rw [h.1], h.2⟩

section

variable {w : FileSetting} {tree : Node} {treat : Text → Plan Text}

/-- Apart from declarations, nothing that is entered changes the namespace. -/
theorem Prefixing.namespace_of_enterAll {s : Site} {st st' : FileState} {skip : Bool}
    (h : ((Walk.enterAll [imports w, names w, literals w, embedded w treat] s).run st).outcome
      = .ok (skip, st')) :
    st'.scope.space = st.scope.space ∧ st'.scope.moved = st.scope.moved := by
  have hsame : SameCode w w 0 0 s.node := ⟨rfl, fun _ _ => rfl⟩
  have hall := Walk.couples_enterAll (couples_others
    (Coupling.inNamespace st.scope.space st.scope.moved) hsame s.matches_self (treatedAlike_self w treat))
  exact (hall st st ⟨rfl, rfl, rfl⟩ skip st' skip st' h h).2.2

/-- In a region, the namespace is the one that its declaration has led to. -/
theorem Walk.Stands.exists_governing {tasks : List Task} {st : FileState} {region : Region}
    (h : Stands (Prefixer.visitors w tree treat) tree tasks st region) :
    ∃ found, w.governing? tree region = some found ∧ st.scope.space = found.1.space
      ∧ st.scope.moved = found.1.moved := by
  induction h with
  | start h =>
    obtain ⟨hscope, -⟩ := opened_of_beforeAll h
    exact ⟨_, rfl, by rw [hscope], by rw [hscope]⟩
  | @enter s rest st st' region skip _ hrun ih =>
    obtain ⟨d, between, more, hspace, hothers⟩ := exists_of_enterAll_cons hrun
    obtain ⟨hsame, hmoved⟩ := namespace_of_enterAll hothers
    rw [hsame, hmoved, Region.entering]
    obtain ⟨htype, rfl⟩ | ⟨htype, found, hfound, hscope, -⟩ := exists_declared_of_namespaces hspace
    · rw [if_neg htype]
      exact ih
    · rw [if_pos htype]
      exact ⟨found, hfound, by rw [hscope], by rw [hscope]⟩
  | @leave s rest st st' region _ hrun ih =>
    rw [scope_of_leaveAll hrun, Region.leaving]
    split
    · exact ⟨_, rfl, rfl, rfl⟩
    · exact ih

end

/-- A namespace is kept if and only if the whitelist excludes it. -/
theorem Relocation.moves_nameSpace_eq_false_iff {r : Relocation} {name : Text} :
    r.moves .nameSpace name = false ↔ r.hasMoved name = true
      ∨ r.classifier.whitelist.excludesNamespace (Name.bare name) = true := by
  have hclassify : r.classifier.classify .nameSpace name
      = if r.classifier.whitelist.excludesNamespace (Name.bare name) then .keepWhitelisted
        else .rename := by
    simp [Classifier.classify, Whitelist.excludes, Whitelist.exposes, Whitelist.exposesKind]
  rw [moves, Classifier.renames, hclassify]
  cases r.hasMoved name with
  | true => simp
  | false => cases r.classifier.whitelist.excludesNamespace (Name.bare name) <;> simp

namespace FileSetting

variable {w : FileSetting} {tree n : Node} {found : Lexical × List Edit}

/-- In front of all declarations, code does not move if and only if nothing can be declared. -/
theorem moved_opened_eq_false_iff :
    (w.opened tree).1.moved = false ↔ tree.opensWithText = true := by
  rw [opened, Node.opensWithText]
  by_cases hdeclares : (tree.namedChildren.any fun n => n.type = namespaceType) = true
  · have hnot : (tree.namedChildren.all fun n => n.type ≠ namespaceType) = false := by
      simpa using hdeclares
    rw [if_pos hdeclares, hnot]
    simp [Lexical.entered]
  · have hall : (tree.namedChildren.all fun n => n.type ≠ namespaceType) = true := by
      simpa using hdeclares
    rw [if_neg hdeclares, hall]
    cases tree.namedChildren with
    | nil => simp [Lexical.entered]
    | cons first rest =>
      by_cases htag : first.type = "php_tag"
      · simp [htag, Lexical.entered]
      · simp [htag, Lexical.entered]

/-- Where a namespace without a name governs, it is the global one, and it stays only if nothing can be
declared. -/
theorem governing_of_not_isNamed {region : Region} (hregion : region.isNamed = false)
    (h : w.governing? tree region = some found) :
    found.1.space = [] ∧ (found.1.moved = false ↔ region = .top ∧ tree.opensWithText = true) := by
  cases region with
  | top =>
    cases h
    refine ⟨?_, by rw [moved_opened_eq_false_iff]; simp⟩
    rw [opened]
    split
    · rfl
    split
    · rfl
    split
    · rfl
    · rfl
  | inside n =>
    have hname : n.child? "name" = none := by simpa [Region.isNamed] using hregion
    simp only [governing?, declared?, hname, Option.map_eq_some_iff] at h
    obtain ⟨keyword, -, rfl⟩ := h
    exact ⟨rfl, by simp [Lexical.entered]⟩
  | behind =>
    cases h
    exact ⟨rfl, by simp [Lexical.entered]⟩

/-- Where a namespace with a name governs, it stays if and only if it is under the prefix or excluded. -/
theorem governing_of_name {nameNode : Node} (hname : n.child? "name" = some nameNode)
    (h : w.governing? tree (.inside n) = some found) :
    ∃ text, w.source.text? nameNode = some text ∧ found.1.space = Name.bare text
      ∧ (found.1.moved = false ↔ w.relocation.hasMoved found.1.space = true
        ∨ w.relocation.classifier.whitelist.excludesNamespace (Name.bare found.1.space) = true) := by
  simp only [governing?, declared?, hname, Option.map_eq_some_iff] at h
  obtain ⟨text, htext, rfl⟩ := h
  exact ⟨text, htext, rfl, Relocation.moves_nameSpace_eq_false_iff⟩

/-- A namespace that stays takes no edit. -/
theorem edits_of_stays {region : Region} (h : w.governing? tree region = some found)
    (hstays : found.1.moved = false) : found.2 = [] := by
  cases region with
  | behind =>
    cases h
    rfl
  | top =>
    cases h
    rw [opened] at hstays ⊢
    split
    · rfl
    split
    · rfl
    split
    · next hdeclares _ _ _ hstatements htag =>
      rw [if_neg hdeclares, hstatements] at hstays
      simp [htag, Lexical.entered] at hstays
    · rfl
  | inside n =>
    simp only [governing?, declared?] at h
    split at h
    · obtain ⟨keyword, -, rfl⟩ := Option.map_eq_some_iff.mp h
      cases hstays
    · obtain ⟨text, -, rfl⟩ := Option.map_eq_some_iff.mp h
      exact if_neg (Bool.eq_false_iff.mp hstays)

end FileSetting

namespace HandFile

/-- Names move under `Humbug`, except those in some namespaces. -/
def excluding (f : HandFile) (spaces : List Text) : FileSetting :=
  { f.setting with
    relocation := ⟨"Humbug".toList, ⟨natives, { Whitelist.empty with excludedNamespaces := spaces }⟩⟩ }

/-- Where a walk through the file is after some turns. -/
def stand? (f : HandFile) (spaces : List Text) (turns : Nat) :
    Option (List Walk.Task × FileState × Region) :=
  Walk.stand? (Prefixer.visitors (f.excluding spaces) f.root pure) f.root turns

/-- An object is created in a namespace with a name. -/
def inAcme : HandFile where
  code := "<?php namespace Acme; new Foo;"
  root := .program 30
    [.part "namespace_definition" 6 21
        [.token "namespace" 6 15, .mk "namespace_name" true false ⟨16, 20⟩ (some "name") [],
          .token ";" 20 21],
      .part "expression_statement" 22 30
        [.part "object_creation_expression" 22 29 [.token "new" 22 25, .part "name" 26 29 []],
          .token ";" 29 30]]

/-- An object is created in a namespace without a name. -/
def inUnnamed : HandFile where
  code := "<?php namespace \x7b new Foo; \x7d"
  root := .program 28
    [.part "namespace_definition" 6 28
      [.token "namespace" 6 15,
        .mk "compound_statement" true false ⟨16, 28⟩ (some "body")
          [.token "\x7b" 16 17,
            .part "expression_statement" 18 26
              [.part "object_creation_expression" 18 25 [.token "new" 18 21, .part "name" 22 25 []],
                .token ";" 25 26],
            .token "\x7d" 27 28]]]

end HandFile

/-- The visitor for namespaces queues the edits of each region when it comes to the region, and no other
ones. All that a walk comes to is in some region; and while it is there:

* if the namespace of the region stays, no edit was made for it;
* if it is declared with a name, it is called so, and it stays if and only if it is under the prefix already
  or the whitelist excludes it;
* if not, it is the global one, and whatever the whitelist says it stays only in front of the statements of
  a file that declares no namespace and does not start with an opening tag. -/
theorem Prefixer.excluded_namespace_stays (w : FileSetting) (tree : Node)
    (treat : Text → Plan Text) :
    (∀ st, ((namespaces w tree).before.run .start).outcome = .ok ((), st) →
        st.edits = w.regionEdits tree .top)
      ∧ (∀ s st d st', (((namespaces w tree).enter s).run st).outcome = .ok (d, st') →
        st'.edits = st.edits ++
          if s.node.type = namespaceType then w.regionEdits tree (.inside s.node) else [])
      ∧ (∀ s st st', (((namespaces w tree).leave s).run st).outcome = .ok ((), st') →
        st'.edits = st.edits)
      ∧ (∀ tasks st, Walk.Reaches (visitors w tree treat) tree tasks st →
        ∃ region, Walk.Stands (visitors w tree treat) tree tasks st region)
      ∧ ∀ tasks st region, Walk.Stands (visitors w tree treat) tree tasks st region →
        (st.scope.moved = false → w.regionEdits tree region = [])
          ∧ (∀ n nameNode, region = .inside n → n.child? "name" = some nameNode →
            ∃ text, w.source.text? nameNode = some text ∧ st.scope.space = Name.bare text
              ∧ (st.scope.moved = false ↔ w.relocation.hasMoved st.scope.space = true
                ∨ w.relocation.classifier.whitelist.excludesNamespace (Name.bare st.scope.space)
                  = true))
          ∧ (region.isNamed = false → st.scope.space = []
            ∧ (st.scope.moved = false ↔ region = .top ∧ tree.opensWithText = true)) := by
  refine ⟨?_, ?_, ?_, fun _ _ hreach => hreach.exists_stands, ?_⟩
  · intro st hrun
    rw [(opened_of_wrapGlobal hrun).2]
    rfl
  · intro s st d st' hrun
    obtain ⟨htype, rfl⟩ | ⟨htype, found, hfound, -, hedits⟩ := exists_declared_of_namespaces hrun
    · rw [if_neg htype, List.append_nil]
    · rw [if_pos htype, hedits, regionEdits, governing?, hfound]
      rfl
  · intro s st st' hrun
    unfold namespaces at hrun
    dsimp only at hrun
    split at hrun
    · cases hrun
      rfl
    · cases hrun
      rfl
  · intro tasks st region hstands
    obtain ⟨found, hfound, hspace, hmoved⟩ := hstands.exists_governing
    rw [hspace, hmoved]
    refine ⟨fun hstays => ?_, ?_, fun hunnamed => governing_of_not_isNamed hunnamed hfound⟩
    · rw [regionEdits, hfound]
      exact edits_of_stays hfound hstays
    · rintro n nameNode rfl hname
      exact governing_of_name hname hfound

/-- In a namespace that is excluded in another letter case, the walk is about to create an object. -/
theorem Prefixer.excluded_namespace_stays_acme :
    let w := HandFile.inAcme.excluding ["acme".toList]
    ∃ tasks st n nameNode,
      Walk.Stands (visitors w HandFile.inAcme.root pure) HandFile.inAcme.root tasks st (.inside n)
        ∧ n.child? "name" = some nameNode ∧ st.scope.space = "Acme".toList
        ∧ st.scope.moved = false ∧ w.regionEdits HandFile.inAcme.root (.inside n) = [] := by
  intro w
  have hturns : ((HandFile.inAcme.stand? ["acme".toList] 8).map fun (_, st, region) =>
      (st.scope.space, region.isNamed)) = some ("Acme".toList, true) := by decide +kernel
  obtain ⟨⟨tasks, st, region⟩, hstand, hfound⟩ := Option.map_eq_some_iff.mp hturns
  obtain ⟨hspace, hnamed⟩ := Prod.mk.inj hfound
  have hstands := Walk.stands_of_stand? hstand
  cases region with
  | top => cases hnamed
  | behind => cases hnamed
  | inside n =>
    obtain ⟨nameNode, hname⟩ := Option.isSome_iff_exists.mp hnamed
    obtain ⟨-, -, -, -, hregions⟩ := excluded_namespace_stays w HandFile.inAcme.root pure
    obtain ⟨hedits, hnames, -⟩ := hregions tasks st _ hstands
    obtain ⟨-, -, -, hstays⟩ := hnames n nameNode rfl hname
    have hexcluded : w.relocation.classifier.whitelist.excludesNamespace
        (Name.bare st.scope.space) = true := by
      rw [hspace]
      decide +kernel
    have hmoved := hstays.mpr (.inr hexcluded)
    exact ⟨tasks, st, n, nameNode, hstands, hname, hspace, hmoved, hedits hmoved⟩

/-- The global namespace is excluded, and still it moves: code outside any namespace is given a
declaration, and a namespace without a name is given that of the prefix. -/
theorem Prefixer.excluded_global_namespace_moves :
    (HandFile.inGlobal.excluding [[]]).relocation.classifier.whitelist.excludesNamespace [] = true
      ∧ ((HandFile.inGlobal.stand? [[]] 0).map fun (_, st, _) =>
        (st.scope.space, st.scope.moved, st.edits))
        = some ([], true, [.inserting 6 "namespace Humbug;\n\n".toList])
      ∧ ((HandFile.inUnnamed.stand? [[]] 4).map fun (_, st, _) =>
        (st.scope.space, st.scope.moved, st.edits))
        = some ([], true, [.inserting 15 " Humbug".toList]) := by
  decide +kernel

end PhpPrefixer
