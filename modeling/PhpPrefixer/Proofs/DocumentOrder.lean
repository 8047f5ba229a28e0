import PhpPrefixer.Proofs.Trees

/-!
# Syntax errors in document order

A syntax error is found by walking: over the nodes of a tree, which are worked off a stack, to the first one
that shows an error, and from there over the siblings that come after it, those after its parent, and so on
outwards. The stack lists a tree in the order of its nodes in the source (`unstack_eq_flatMap`,
`map_node_all`). What is walked over from a place is what stands in this order behind everything below the
place (`drop_preorder`), so the walks are searches in one flat list of nodes:
`Parsed.error_in_document_order`.
-/

namespace PhpPrefixer

namespace Node

/-- The nodes below siblings are those below the first one, then those below the second, and so on. -/
theorem preorderAll_eq_flatMap (ns : List Node) : preorderAll ns = ns.flatMap preorder := by
  induction ns with
  | nil => rfl
  | cons n ns ih => rw [preorderAll, ih, List.flatMap_cons]

/-- The size of siblings counts the nodes below them, if that of each sibling does. -/
theorem length_preorderAll {ns : List Node} (h : ∀ n ∈ ns, n.preorder.length = n.size) :
    (preorderAll ns).length = sizeAll ns := by
  induction ns with
  | nil => rfl
  | cons n ns ih =>
    obtain ⟨hn, hns⟩ := List.forall_mem_cons.mp h
    rw [preorderAll, List.length_append, hn, ih hns, sizeAll]

/-- The size of a node counts it and the nodes below it. -/
theorem length_preorder (n : Node) : n.preorder.length = n.size := by
  induction n using Node.induction with
  | step n ih => rw [preorder_eq, List.length_cons, length_preorderAll ih, size_eq, Nat.add_comm]

/-- An error at this node is one of what comes after it: the node is made up, holds no token, or ends in
punctuation or a keyword. -/
def PointsBehind (n : Node) : Prop :=
  n.missing = true ∨ (∀ m ∈ n.preorder, m.isToken = false)
    ∨ ∃ last, n.preorder.reverse.find? (·.isToken) = some last ∧ last.named = false

end Node

namespace SyntaxError

namespace Place

mutual

/-- A node and all nodes below it as places, if this comes after the node. -/
def allFrom (after : List (List Node)) : Node → List Place
  | .mk type named missing span field children =>
    ⟨.mk type named missing span field children, after⟩ :: allAmong after children

/-- Siblings and all nodes below them as places, if this comes after their parent. -/
def allAmong (after : List (List Node)) : List Node → List Place
  | [] => []
  | n :: ns => allFrom (ns :: after) n ++ allAmong after ns

end

/-- The nodes that come after a place and after everything below it, in the order of the source. -/
def following (p : Place) : List Node := p.after.flatMap Node.preorderAll

/-- The places from a node on are its own and those below it. -/
theorem allFrom_eq (after : List (List Node)) (n : Node) :
    allFrom after n = ⟨n, after⟩ :: allAmong after n.children := by
  cases n
  rfl

/-- The places below siblings are those from each of them on. -/
theorem flatMap_among (after : List (List Node)) (ns : List Node) :
    (among after ns).flatMap (fun p => allFrom p.after p.node) = allAmong after ns := by
  induction ns with
  | nil => rfl
  | cons n ns ih => rw [among, List.flatMap_cons, ih, allAmong]

/-- Working off a stack meets everything from its first place on, then everything from its second place on,
and so on. -/
theorem unstack_eq_flatMap (stack : List Place) :
    unstack stack = stack.flatMap fun p => allFrom p.after p.node := by
  fun_induction unstack stack with
  | case1 => rfl
  | case2 p stack ih =>
    rw [ih, List.flatMap_append, below, flatMap_among, List.flatMap_cons, allFrom_eq, List.cons_append]

/-- The places of a tree are those from its root on. -/
theorem all_eq_allFrom (root : Node) : all root = allFrom [] root := by
  rw [all, unstack_eq_flatMap, List.flatMap_singleton]

/-- The places of siblings stand for their nodes, if those of each sibling do. -/
theorem map_node_allAmong {ns : List Node}
    (h : ∀ n ∈ ns, ∀ after, (allFrom after n).map (·.node) = n.preorder) (after : List (List Node)) :
    (allAmong after ns).map (·.node) = Node.preorderAll ns := by
  induction ns with
  | nil => rfl
  | cons n ns ih =>
    obtain ⟨hn, hns⟩ := List.forall_mem_cons.mp h
    rw [allAmong, List.map_append, hn, ih hns, Node.preorderAll]

/-- The places from a node on stand for it and the nodes below it. -/
theorem map_node_allFrom (n : Node) (after : List (List Node)) :
    (allFrom after n).map (·.node) = n.preorder := by
  induction n using Node.induction generalizing after with
  | step n ih => rw [allFrom_eq, List.map_cons, map_node_allAmong ih, Node.preorder_eq]

/-- The places of a tree stand for its nodes, in their order. -/
theorem map_node_all (root : Node) : (all root).map (·.node) = root.preorder := by
  rw [all_eq_allFrom, map_node_allFrom]

/-- There are as many places from a node on as nodes. -/
theorem length_allFrom (n : Node) (after : List (List Node)) :
    (allFrom after n).length = n.preorder.length := by
  rw [← map_node_allFrom n after, List.length_map]

/-- From a place among siblings onwards there are the nodes below it and then those that come after it. -/
theorem drop_preorderAll {ns : List Node}
    (h : ∀ n ∈ ns, ∀ after i p, (allFrom after n)[i]? = some p →
      (n.preorder ++ after.flatMap Node.preorderAll).drop i = p.node.preorder ++ p.following)
    {after : List (List Node)} {i : Nat} {p : Place} (hp : (allAmong after ns)[i]? = some p) :
    (Node.preorderAll ns ++ after.flatMap Node.preorderAll).drop i
      = p.node.preorder ++ p.following := by
  induction ns generalizing i with
  | nil => cases hp
  | cons n ns ih =>
    obtain ⟨hn, hns⟩ := List.forall_mem_cons.mp h
    rw [allAmong, List.getElem?_append] at hp
    rw [Node.preorderAll, List.append_assoc]
    split at hp
    · exact hn (ns :: after) i p hp
    · next hbeyond =>
      rw [length_allFrom] at hp hbeyond
      rw [List.drop_append, List.drop_eq_nil_of_le (Nat.le_of_not_lt hbeyond), List.nil_append]
      exact ih hns hp

/-- From a place onwards there are the nodes below it and then those that come after it. -/
theorem drop_preorder (n : Node) {after : List (List Node)} {i : Nat} {p : Place}
    (hp : (allFrom after n)[i]? = some p) :
    (n.preorder ++ after.flatMap Node.preorderAll).drop i = p.node.preorder ++ p.following := by
  induction n using Node.induction generalizing after i p with
  | step n ih =>
    rw [allFrom_eq] at hp
    cases i with
    | zero =>
      cases hp
      rfl
    | succ i =>
      rw [Node.preorder_eq, List.cons_append, List.drop_succ_cons]
      exact drop_preorderAll (fun c hc after i p => ih c hc) hp

/-- What a place is and where it stands: the node at its position, then the nodes below it, then those
that are walked over from it. -/
theorem eq_of_getElem?_all {root : Node} {i : Nat} {p : Place} (hp : (all root)[i]? = some p) :
    root.preorder[i]? = some p.node
      ∧ (root.preorder.drop i).take p.node.size = p.node.preorder
      ∧ root.preorder.drop (i + p.node.size) = p.following := by
  have hdrop : root.preorder.drop i = p.node.preorder ++ p.following := by
    rw [all_eq_allFrom] at hp
    simpa using drop_preorder root hp
  refine ⟨?_, ?_, ?_⟩
  · rw [← map_node_all, List.getElem?_map, hp, Option.map_some]
  · rw [hdrop, ← Node.length_preorder, List.take_left]
  · rw [← List.drop_drop, hdrop, ← Node.length_preorder, List.drop_left]

end Place

open Place

/-- The nodes of a tree are those in the order of the source. -/
theorem nodes_eq_preorder (n : Node) : nodes n = n.preorder := map_node_all n

/-- The first token of a tree is the first one in the order of the source. -/
theorem firstToken?_eq (n : Node) : firstToken? n = n.preorder.find? (·.isToken) := by
  rw [firstToken?, nodes_eq_preorder]

/-- The last token of a tree is the first one from the end. -/
theorem lastToken?_eq (n : Node) : lastToken? n = n.preorder.reverse.find? (·.isToken) := by
  rw [lastToken?, nodes_eq_preorder, List.getLast?_eq_head?_reverse, ← List.filter_reverse,
    List.head?_filter]

/-- Walking outwards over the siblings is a search among the nodes that come after a place. -/
theorem firstTokenAfter?_eq (p : Place) : p.firstTokenAfter? = p.following.find? (·.isToken) := by
  have hsiblings (ns : List Node) :
      ns.findSome? firstToken? = (Node.preorderAll ns).find? (·.isToken) := by
    rw [Node.preorderAll_eq_flatMap, List.find?_flatMap, funext firstToken?_eq]
  rw [firstTokenAfter?, following, List.find?_flatMap]
  exact congrArg (fun f => List.findSome? f p.after) (funext hsiblings)

/-- The search through a tree finds the place of the first node that passes the test. -/
theorem find?_of_findIdx? {test : Node → Bool} {root : Node} {i : Nat}
    (h : root.preorder.findIdx? test = some i) :
    ∃ p, find? test root = some p ∧ (Place.all root)[i]? = some p := by
  rw [← map_node_all, List.findIdx?_map, List.findIdx?_eq_some_iff_getElem] at h
  obtain ⟨hi, htest, hbefore⟩ := h
  refine ⟨(Place.all root)[i], ?_, List.getElem?_eq_getElem hi⟩
  rw [find?, List.find?_eq_some_iff_getElem]
  exact ⟨htest, i, hi, rfl, fun j hj => by simpa using hbefore j hj⟩

/-- The search through a tree finds nothing if no node passes the test. -/
theorem find?_of_findIdx?_eq_none {test : Node → Bool} {root : Node}
    (h : root.preorder.findIdx? test = none) : find? test root = none := by
  rw [← map_node_all, List.findIdx?_map, List.findIdx?_eq_none_iff] at h
  rw [find?, List.find?_eq_none]
  exact fun p hp => by simpa using h p hp

/-- If the node points behind itself, the token after it is reported. -/
theorem offending?_of_pointsBehind {p : Place} (h : p.node.PointsBehind) :
    offending? p = p.firstTokenAfter? := by
  unfold offending?
  split
  · rfl
  · next last hlast =>
    rw [lastToken?_eq] at hlast
    refine if_pos ?_
    rcases h with hmissing | hnone | ⟨other, hother, hnamed⟩
    · rw [hmissing, Bool.true_or]
    · have hmem := List.mem_reverse.mp (List.mem_of_find?_eq_some hlast)
      have htoken := List.find?_some hlast
      exact absurd (hnone last hmem) (by simpa using htoken)
    · rw [hlast, Option.some_inj] at hother
      rw [hother, hnamed]
      exact Bool.or_true _

/-- If the node does not point behind itself, its first token is reported, and there is one. -/
theorem offending?_of_not_pointsBehind {p : Place} (h : ¬p.node.PointsBehind) :
    offending? p = firstToken? p.node ∧ (firstToken? p.node).isSome = true := by
  obtain ⟨hmissing, hsome, hlast⟩ : ¬p.node.missing = true ∧ (¬∀ m ∈ p.node.preorder, m.isToken = false)
      ∧ ¬∃ last, p.node.preorder.reverse.find? (·.isToken) = some last ∧ last.named = false := by
    simpa only [Node.PointsBehind, not_or] using h
  have hfirst : (firstToken? p.node).isSome = true := by
    rw [firstToken?_eq, List.find?_isSome]
    simpa using hsome
  refine ⟨?_, hfirst⟩
  unfold offending?
  rw [lastToken?_eq]
  split
  · next hnone =>
    refine absurd (fun m hm => ?_) hsome
    simpa using List.find?_eq_none.mp hnone m (List.mem_reverse.mpr hm)
  · next last hfound =>
    refine if_neg ?_
    have hnamed : ¬last.named = false := fun hnot => hlast ⟨last, hfound, hnot⟩
    simp [hmissing, hnamed]

/-- The error at a node that is reported on a token, or on the end of the file if there is none. -/
def reportedOn (s : Source) (n : Node) : Option Node → SyntaxError
  | none => ⟨.endOfFile, s.lineOf n⟩
  | some token => ⟨.unexpected ((Text.decodeLossy (s.bytesOf token)).take shownLength), s.lineOf token⟩

/-- The end of the file is reported just if there is no token. -/
theorem reportedOn_eq_endOfFile_iff {s : Source} {n : Node} {token? : Option Node} :
    (∃ line, reportedOn s n token? = ⟨.endOfFile, line⟩) ↔ token? = none := by
  cases token? with
  | none => simp [reportedOn]
  | some token => simp [reportedOn]

/-- The error of a tree is reported at the first node that shows one. -/
theorem ofTree_of_find? {s : Source} {root : Node} {p : Place}
    (h : find? isErroneous root = some p) : ofTree s root = reportedOn s p.node (offending? p) := by
  rw [ofTree, h]
  dsimp only
  cases offending? p <;> rfl

end SyntaxError

open SyntaxError

/-- A text with a syntax error is refused, and the error is told by the flat list of the nodes in the order of
the source. From every place of the tree, walking over siblings and parents is a search in this list behind
the last node below the place. If no node is an error or made up, the line of the whole tree is reported.
Otherwise it is the first such node that counts. If it points behind itself, the error is on the first token
behind everything below it, else on the first token in it, which is there; and the end of the file is
reported exactly when there is no token to be found behind. -/
theorem Parsed.error_in_document_order {p : Parsed} (hfault : p.hasError = true) (t : Text) :
    (Place.all p.root).map (·.node) = p.root.preorder ∧
    (∀ i place, (Place.all p.root)[i]? = some place →
      (p.root.preorder.drop i).take place.node.size = place.node.preorder
        ∧ place.firstTokenAfter? = (p.root.preorder.drop (i + place.node.size)).find? (·.isToken)) ∧
    (p.root.preorder.findIdx? isErroneous = none →
      p.check t = .error ⟨.somewhere, (Source.ofText t).lineOf p.root⟩) ∧
    ∀ i n, p.root.preorder.findIdx? isErroneous = some i → p.root.preorder[i]? = some n →
      let behind := (p.root.preorder.drop (i + n.size)).find? (·.isToken)
      (n.PointsBehind → p.check t = .error (reportedOn (Source.ofText t) n behind)) ∧
      (¬n.PointsBehind → ∃ token, n.preorder.find? (·.isToken) = some token
        ∧ p.check t = .error (reportedOn (Source.ofText t) n (some token))) ∧
      ((∃ line, p.check t = .error ⟨.endOfFile, line⟩) ↔ n.PointsBehind ∧ behind = none) := by
  have hcheck : p.check t = .error (ofTree (Source.ofText t) p.root) := by
    simp [Parsed.check, hfault]
  refine ⟨Place.map_node_all p.root, ?_, ?_, ?_⟩
  · intro i place hplace
    obtain ⟨-, hbelow, hafter⟩ := Place.eq_of_getElem?_all hplace
    exact ⟨hbelow, by rw [hafter, firstTokenAfter?_eq]⟩
  · intro hnone
    rw [hcheck, ofTree, find?_of_findIdx?_eq_none hnone]
  · intro i n hfirst hn behind
    obtain ⟨place, hfind, hplace⟩ := find?_of_findIdx? hfirst
    obtain ⟨hnode, -, hafter⟩ := Place.eq_of_getElem?_all hplace
    obtain rfl : n = place.node := Option.some_inj.mp (hn.symm.trans hnode)
    have hwalk : place.firstTokenAfter? = behind := by
      rw [firstTokenAfter?_eq, ← hafter]
    rw [hcheck, ofTree_of_find? hfind]
    simp only [Except.error.injEq, reportedOn_eq_endOfFile_iff]
    by_cases hpoints : place.node.PointsBehind
    · rw [offending?_of_pointsBehind hpoints, hwalk]
      exact ⟨fun _ => rfl, fun hnot => absurd hpoints hnot, (and_iff_right hpoints).symm⟩
    · obtain ⟨hoffending, hsome⟩ := offending?_of_not_pointsBehind hpoints
      obtain ⟨token, htoken⟩ := Option.isSome_iff_exists.mp hsome
      rw [hoffending, htoken]
      rw [firstToken?_eq] at htoken
      exact ⟨fun hnot => absurd hnot hpoints, fun _ => ⟨token, htoken, rfl⟩,
        fun hnone => absurd hnone (Option.some_ne_none token), fun hboth => absurd hboth.1 hpoints⟩

/-- The tree of a call that breaks off in its argument list, with a name made up in its place. -/
def brokenCall : Parsed where
  hasError := true
  root :=
    .mk "program" true false ⟨0, 12⟩ none
      [.mk "php_tag" true false ⟨0, 5⟩ none [],
       .mk "expression_statement" true false ⟨6, 12⟩ none
         [.mk "function_call_expression" true false ⟨6, 9⟩ none
            [.mk "name" true false ⟨6, 7⟩ (some "function") [],
             .mk "(" false false ⟨7, 8⟩ none [],
             .mk "ERROR" true false ⟨8, 9⟩ none [.mk "=" false false ⟨8, 9⟩ none []],
             .mk "name" true true ⟨9, 9⟩ none []],
          .mk ")" false false ⟨10, 11⟩ none [],
          .mk ";" false false ⟨11, 12⟩ none []]]

/-- The erroneous node holds punctuation only. What follows it in its parent is empty, so the error is on the
sibling of its parent, one line below. -/
theorem Parsed.error_in_document_order_brokenCall :
    brokenCall.hasError = true
      ∧ brokenCall.root.preorder.findIdx? isErroneous = some 6
      ∧ brokenCall.check "<?php a(=\n);".toList = .error ⟨.unexpected [')'], 2⟩ := by
  have hpoints : (Node.mk "ERROR" true false ⟨8, 9⟩ none
      [.mk "=" false false ⟨8, 9⟩ none []]).PointsBehind := .inr (.inr ⟨_, rfl, rfl⟩)
  obtain ⟨-, -, -, hreported⟩ := Parsed.error_in_document_order (p := brokenCall) rfl "<?php a(=\n);".toList
  refine ⟨rfl, rfl, ?_⟩
  rw [(hreported 6 _ rfl rfl).1 hpoints]
  exact congrArg Except.error (by decide +kernel)

end PhpPrefixer
