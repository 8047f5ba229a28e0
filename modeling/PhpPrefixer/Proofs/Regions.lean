import PhpPrefixer.Proofs.PlanRuns
import PhpPrefixer.Proofs.Queueing
import PhpPrefixer.Proofs.References

/-!
# The course of a walk

`Walk.Reaches` tells what a walk has still to do and the state it has come to. All code of a file lies in
some namespace: in one that is declared with a name, in one that is declared without a name, or in the global
namespace because nothing is declared. A `Region` tells which, and `Walk.Stands` in which region a walk is.
What the declaration of a region leads to is `FileSetting.governing?`. Where a walk is after some turns can
be computed: `Walk.stand?`.
-/

namespace PhpPrefixer

open Prefixing PrefixingM FileSetting

/-- What a walk has still to do, and the state it has come to. -/
inductive Walk.Reaches (visitors : List (Visitor PrefixingM)) (root : Node) :
    List Walk.Task → FileState → Prop where
  /-- The visitors have prepared. -/
  | start {st : FileState} (h : ((beforeAll visitors).run .start).outcome = .ok ((), st)) :
    Reaches visitors root [.enter (.ofRoot root)] st
  /-- A site has been entered. -/
  | enter {s : Site} {rest : List Walk.Task} {st st' : FileState} {skip : Bool}
    (h : Reaches visitors root (.enter s :: rest) st)
    (hrun : ((enterAll visitors s).run st).outcome = .ok (skip, st')) :
    Reaches visitors root (pushed skip s rest) st'
  /-- A site has been left. -/
  | leave {s : Site} {rest : List Walk.Task} {st st' : FileState}
    (h : Reaches visitors root (.leave s :: rest) st)
    (hrun : ((leaveAll visitors s).run st).outcome = .ok ((), st')) : Reaches visitors root rest st'

namespace FileSetting

/-- The scope that a declaration of a namespace leads to, and the edits that are made to it. -/
def declared? (w : FileSetting) (n : Node) : Option (Lexical × List Edit) :=
  match n.child? "name" with
  | none =>
    n.children.head?.map fun keyword =>
      (.entered [] true, [.inserting keyword.span.stop (' ' :: w.relocation.root)])
  | some nameNode =>
    (w.source.text? nameNode).map fun text =>
      (.entered (Name.bare text) (w.relocation.moves .nameSpace (Name.bare text)),
        spaceEdits w.relocation nameNode text)

/-- The scope in front of the first declaration of a file, and the edits made for it. -/
def opened (w : FileSetting) (tree : Node) : Lexical × List Edit :=
  if tree.namedChildren.any fun n => n.type = namespaceType then (.entered [] true, [])
  else
    match tree.namedChildren with
    | [] => (.entered [] false, [])
    | first :: rest =>
      if first.type = "php_tag" then (.entered [] true, [wrapping w.relocation.root first rest])
      else (.entered [] false, [])

end FileSetting

namespace Prefixing

variable {w : FileSetting} {n tree : Node} {s s' : FileState}

/-- A declaration that is carried out leads to its scope, and makes its edits. -/
theorem exists_declared_of_enter (h : ((enterDeclaration w n).run s).outcome = .ok ((), s')) :
    ∃ d, w.declared? n = some d ∧ s'.scope = d.1 ∧ s'.edits = s.edits ++ d.2 := by
  cases hname : n.child? "name" with
  | none =>
    rw [enterDeclaration, hname] at h
    cases hchildren : n.children with
    | nil =>
      simp only [hchildren] at h
      cases h
    | cons keyword rest =>
      simp only [hchildren] at h
      cases h
      exact ⟨_, by simp only [declared?, hname, hchildren]; rfl, rfl, rfl⟩
  | some nameNode =>
    cases htext : w.source.text? nameNode with
    | none =>
      rw [enterDeclaration, hname] at h
      simp only [textOf, htext] at h
      cases h
    | some text =>
      obtain ⟨t, hrun, hscope, hedits⟩ := outcome_enterDeclaration hname htext s
      cases hrun.symm.trans h
      exact ⟨_, by simp only [declared?, hname, htext]; rfl, hscope, hedits⟩

/-- Preparing a file leads to the scope in front of the first declaration, and makes the edits for it. -/
theorem opened_of_wrapGlobal (h : ((wrapGlobal w tree).run .start).outcome = .ok ((), s)) :
    s.scope = (w.opened tree).1 ∧ s.edits = (w.opened tree).2 := by
  rw [wrapGlobal] at h
  rw [opened]
  by_cases hdeclares : (tree.namedChildren.any fun n => n.type = namespaceType) = true
  · rw [if_pos hdeclares] at h ⊢
    cases h
    exact ⟨rfl, rfl⟩
  · rw [if_neg hdeclares] at h ⊢
    cases hstatements : tree.namedChildren with
    | nil =>
      simp only [hstatements] at h
      cases h
      exact ⟨rfl, rfl⟩
    | cons first rest =>
      simp only [hstatements] at h
      dsimp only
      by_cases htag : first.type = "php_tag"
      · rw [if_pos htag] at h ⊢
        cases h
        exact ⟨rfl, rfl⟩
      · rw [if_neg htag] at h ⊢
        have hkept : Preserves .any
            (fun t => t = { FileState.start with scope := .entered [] false })
            (if rest.any fun n => n.type = "php_tag" then
              w.reportUnsupported (w.source.lineOf first)
                "global code preceded by inline HTML cannot be namespaced"
            else pure ()) := by
          split
          · exact spec_reportUnsupported Conduct.isOpen_any.toIsLenient
          · exact Preserves.pure _
        have hs : s = _ := (hkept _ rfl).result _ h
        rw [hs]
        exact ⟨rfl, rfl⟩

end Prefixing

/-- The part of a file that is in one namespace. -/
inductive Region where
  /-- What stands in front of the first declaration. -/
  | top
  /-- What follows a declaration, or stands in its body. -/
  | inside (n : Node)
  /-- What follows the body of a declaration. -/
  | behind

namespace Region

/-- The region behind a node that is entered. -/
def entering (region : Region) (n : Node) : Region :=
  if n.type = namespaceType then .inside n else region

/-- The region behind a node that is left. -/
def leaving (region : Region) (n : Node) : Region :=
  if n.type = namespaceType && (n.child? "body").isSome then .behind else region

/-- Whether the namespace of a region is declared with a name. -/
def isNamed : Region → Bool
  | inside n => (n.child? "name").isSome
  | _ => false

end Region

/-- The scope that a region starts with, and the edits made for its namespace. -/
def FileSetting.governing? (w : FileSetting) (tree : Node) : Region → Option (Lexical × List Edit)
  | .top => some (w.opened tree)
  | .inside n => w.declared? n
  | .behind => some (.entered [] true, [])

/-- The edits made for the namespace of a region. -/
def FileSetting.regionEdits (w : FileSetting) (tree : Node) (region : Region) : List Edit :=
  ((w.governing? tree region).map (·.2)).getD []

namespace Walk

/-- What a walk has still to do, the state it has come to, and the region it is in. -/
inductive Stands (visitors : List (Visitor PrefixingM)) (root : Node) :
    List Task → FileState → Region → Prop where
  /-- The visitors have prepared. -/
  | start {st : FileState} (h : ((beforeAll visitors).run .start).outcome = .ok ((), st)) :
    Stands visitors root [.enter (.ofRoot root)] st .top
  /-- A site has been entered. -/
  | enter {s : Site} {rest : List Task} {st st' : FileState} {region : Region} {skip : Bool}
    (h : Stands visitors root (.enter s :: rest) st region)
    (hrun : ((enterAll visitors s).run st).outcome = .ok (skip, st')) :
    Stands visitors root (pushed skip s rest) st' (region.entering s.node)
  /-- A site has been left. -/
  | leave {s : Site} {rest : List Task} {st st' : FileState} {region : Region}
    (h : Stands visitors root (.leave s :: rest) st region)
    (hrun : ((leaveAll visitors s).run st).outcome = .ok ((), st')) :
    Stands visitors root rest st' (region.leaving s.node)

variable {visitors : List (Visitor PrefixingM)} {root : Node} {tasks : List Task} {st : FileState}

/-- Entering a node with some visitors, taken apart. -/
theorem exists_of_enterAll_cons {v : Visitor PrefixingM} {vs : List (Visitor PrefixingM)} {s : Site}
    {st' : FileState} {skip : Bool}
    (h : ((enterAll (v :: vs) s).run st).outcome = .ok (skip, st')) :
    ∃ d between more, ((v.enter s).run st).outcome = .ok (d, between)
      ∧ ((enterAll vs s).run between).outcome = .ok (more, st') := by
  obtain ⟨⟨d, between⟩, hfirst, hrest, -⟩ := Plan.exists_of_bind h
  obtain ⟨⟨more, last⟩, hmore, hlast, -⟩ := Plan.exists_of_bind hrest
  cases hlast
  exact ⟨d, between, more, hfirst, hmore⟩

/-- Wherever a walk comes to, it is in some region. -/
theorem Reaches.exists_stands (h : Reaches visitors root tasks st) :
    ∃ region, Stands visitors root tasks st region := by
  induction h with
  | start h => exact ⟨_, .start h⟩
  | enter _ hrun ih =>
    obtain ⟨region, hstands⟩ := ih
    exact ⟨_, hstands.enter hrun⟩
  | leave _ hrun ih =>
    obtain ⟨region, hstands⟩ := ih
    exact ⟨_, hstands.leave hrun⟩

/-- A walk that stands in a region has been reached. -/
theorem Stands.reaches {region : Region} (h : Stands visitors root tasks st region) :
    Reaches visitors root tasks st := by
  induction h with
  | start h => exact .start h
  | enter _ hrun ih => exact ih.enter hrun
  | leave _ hrun ih => exact ih.leave hrun

/-- Where a walk is after some turns. -/
def stand? (visitors : List (Visitor PrefixingM)) (root : Node) :
    (turns : Nat) → Option (List Task × FileState × Region)
  | 0 =>
    match ((beforeAll visitors).run .start).outcome with
    | .ok ((), st) => some ([.enter (.ofRoot root)], st, .top)
    | .error _ => none
  | turns + 1 =>
    match stand? visitors root turns with
    | some (.enter s :: rest, st, region) =>
      match ((enterAll visitors s).run st).outcome with
      | .ok (skip, st') => some (pushed skip s rest, st', region.entering s.node)
      | .error _ => none
    | some (.leave s :: rest, st, region) =>
      match ((leaveAll visitors s).run st).outcome with
      | .ok ((), st') => some (rest, st', region.leaving s.node)
      | .error _ => none
    | _ => none

/-- What is computed to be left of a walk is what is left of it. -/
theorem stands_of_stand? {visitors : List (Visitor PrefixingM)} {root : Node} {turns : Nat}
    {tasks : List Task} {st : FileState} {region : Region}
    (h : stand? visitors root turns = some (tasks, st, region)) :
    Stands visitors root tasks st region := by
  induction turns generalizing tasks st region with
  | zero =>
    unfold stand? at h
    split at h
    · next hbefore =>
      cases h
      exact .start hbefore
    · cases h
  | succ turns ih =>
    unfold stand? at h
    split at h
    · next hstand =>
      split at h
      · next henter =>
        cases h
        exact (ih hstand).enter henter
      · cases h
    · next hstand =>
      split at h
      · next hleave =>
        cases h
        exact (ih hstand).leave hleave
      · cases h
    · cases h

end Walk

namespace Prefixing

variable {w : FileSetting} {tree : Node} {treat : Text → Plan Text}

/-- The visitor for namespaces leads to the scope of a declaration, and makes its edits. -/
theorem exists_declared_of_namespaces {s : Site} {st st' : FileState} {d : Descent}
    (h : (((namespaces w tree).enter s).run st).outcome = .ok (d, st')) :
    (s.node.type ≠ namespaceType ∧ st' = st)
      ∨ s.node.type = namespaceType ∧ ∃ found, w.declared? s.node = some found
        ∧ st'.scope = found.1 ∧ st'.edits = st.edits ++ found.2 := by
  unfold namespaces at h
  dsimp only at h
  split at h
  · next htype =>
    obtain ⟨⟨_, between⟩, hfirst, hlast, -⟩ := Plan.exists_of_bind h
    cases hlast
    exact .inr ⟨htype, exists_declared_of_enter hfirst⟩
  · next htype =>
    cases h
    exact .inl ⟨htype, rfl⟩

/-- Leaving a site changes the scope only where it is left behind a body. -/
theorem scope_of_leaveAll {s : Site} {st st' : FileState}
    (h : ((Walk.leaveAll (Prefixer.visitors w tree treat) s).run st).outcome = .ok ((), st')) :
    st'.scope = (if s.node.type = namespaceType && (s.node.child? "body").isSome
      then .entered [] true else st.scope) := by
  simp only [Walk.leaveAll, Prefixer.visitors, namespaces, imports, names, literals, embedded] at h
  split at h
  · next hbody =>
    rw [if_pos hbody]
    cases h
    rfl
  · next hbody =>
    rw [if_neg hbody]
    cases h
    rfl

/-- When all visitors have prepared, the scope is the one in front of the first declaration. -/
theorem opened_of_beforeAll {st : FileState}
    (h : ((Walk.beforeAll (Prefixer.visitors w tree treat)).run .start).outcome = .ok ((), st)) :
    st.scope = (w.opened tree).1 ∧ st.edits = (w.opened tree).2 := by
  obtain ⟨⟨_, between⟩, hfirst, hlast, -⟩ := Plan.exists_of_bind h
  cases hlast
  exact opened_of_wrapGlobal hfirst

end Prefixing

end PhpPrefixer
