import PhpPrefixer.Proofs.ImportReading
import PhpPrefixer.Proofs.SymbolIdentity

/-!
# Lists of imports

What an import statement says is a list: for each symbol its kind, its local name and its name. The list
is read from the tree of a statement (`Imported.ofUse?`) or from the text of statements
(`Imported.ofText?`).

The statements that a group of imports is split into say what they were written for:
`Imported.ofText?_splitGroup`.
-/

namespace PhpPrefixer

/-- Each of some members gives a result, so all together give all results. -/
theorem mapM_of_forall₂ {α β γ : Type} {f : α → Option γ} {g : β → γ} {as : List α} {bs : List β}
    (h : List.Forall₂ (fun a b => f a = some (g b)) as bs) : as.mapM f = some (bs.map g) := by
  induction h with
  | nil => rfl
  | cons hab _ ih =>
    rw [List.mapM_cons, hab, ih]
    rfl

/-- What an import statement says about one symbol. -/
structure Imported where
  /-- The kind of the symbol. -/
  kind : SymbolKind
  /-- The name under which it is known in the file. -/
  localName : Text
  /-- Its name, without leading separator. -/
  target : Text
  deriving DecidableEq, Repr

namespace Imported

/-- The import of a symbol under a given name, or else under its short name. -/
def ofNames (kind : SymbolKind) (given : Option Text) (target : Text) : Imported :=
  ⟨kind, given.getD (Name.shortOf target), target⟩

/-- The import that a clause makes in a statement for some kind of symbol, below the common part of the
names of the statement. -/
def ofClause? (read : Node → Option Text) (kind : SymbolKind) (base : Text) (clause : Node) :
    Option Imported := do
  let node ← Import.target? clause.children
  let text ← read node
  let given ← Import.givenText? read (Import.givenNames false clause.children)
  return ofNames ((Import.kindWord? clause).getD kind) given (Name.join [base, Name.bare text])

/-- The imports that a statement makes. -/
def ofUse? (read : Node → Option Text) (n : Node) : Option (List Imported) :=
  match n.namedChildren.find? fun c => c.type = Prefixing.groupType with
  | none => (Prefixing.plainClauses n).mapM (ofClause? read (Import.kindOf n) [])
  | some group => do
    let base ← Prefixing.groupBase? n
    let text ← read base
    (Prefixing.groupClauses group).mapM (ofClause? read (Import.kindOf n) (Name.bare text))

/-- Whether a character stands between words. -/
def isGap (c : Char) : Bool := c = ' ' || c = '\t' || c = '\n' || c = '\r'

/-- The words of a text. -/
def wordsOf (t : Text) : List Text := (t.splitOnP isGap).filter (· ≠ [])

/-- The words of the parts of a text between semicolons. -/
def sentences (t : Text) : List (List Text) := (Text.pieces ';' t).map wordsOf

/-- The import of a name, possibly under another one. -/
def ofWords? (kind : SymbolKind) : List Text → Option Imported
  | [name] => some (ofNames kind none (Name.bare name))
  | [name, word, given] =>
    if Text.lower word = "as".toList then some (ofNames kind (some given) (Name.bare name)) else none
  | _ => none

/-- The import that a statement without a group makes. -/
def ofSentence? : List Text → Option Imported
  | use :: word :: rest =>
    if Text.lower use ≠ "use".toList then none
    else if Text.lower word = "function".toList then ofWords? .function rest
    else if Text.lower word = "const".toList then ofWords? .constant rest
    else ofWords? .classLike (word :: rest)
  | _ => none

/-- The imports that some statements make, each of which ends in a semicolon. -/
def ofText? (t : Text) : Option (List Imported) :=
  if (sentences t).getLast? = some [] then (sentences t).dropLast.mapM ofSentence? else none

/-- A text is a word, or a part of one: nothing in it ends a word or a statement. -/
def IsUnbroken (t : Text) : Prop := ∀ c ∈ t, isGap c = false ∧ c ≠ ';'

instance (t : Text) : Decidable (IsUnbroken t) :=
  List.decidableBAll (fun c => isGap c = false ∧ c ≠ ';') t

/-- A gap in front of a text is no word. -/
theorem wordsOf_gap {gap : Char} (hgap : isGap gap = true) (rest : Text) :
    wordsOf (gap :: rest) = wordsOf rest := by
  simp [wordsOf, List.splitOnP_cons_eq_if_modifyHead, hgap]

/-- A text without gaps is one word. -/
theorem wordsOf_singleton {word : Text} (h : IsUnbroken word) (hne : word ≠ []) :
    wordsOf word = [word] := by
  simp [wordsOf, List.splitOnP_eq_singleton fun c hc => (h c hc).1, hne]

/-- A text without gaps is the first word of what goes on behind a gap. -/
theorem wordsOf_append {word : Text} (h : IsUnbroken word) (hne : word ≠ []) {gap : Char}
    (hgap : isGap gap = true) (rest : Text) :
    wordsOf (word ++ gap :: rest) = word :: wordsOf rest := by
  simp [wordsOf, List.splitOnP_append_cons_of_forall_mem (fun c hc => (h c hc).1) gap hgap, hne]

/-- The words in front of the first semicolon are the first sentence. -/
theorem sentences_append {t : Text} (h : ';' ∉ t) (rest : Text) :
    sentences (t ++ ';' :: rest) = wordsOf t :: sentences rest := by
  rw [sentences, Text.pieces_append_sep, Text.pieces_of_not_mem h]
  rfl

/-- A gap in front of a text changes no sentence. -/
theorem sentences_gap {gap : Char} (hgap : isGap gap = true) (rest : Text) :
    sentences (gap :: rest) = sentences rest := by
  have hne : gap ≠ ';' := by
    rintro rfl
    cases hgap
  obtain ⟨p, ps, hps⟩ := List.exists_cons_of_ne_nil (Text.pieces_ne_nil ';' rest)
  simp [sentences, Text.pieces, hne, hps, wordsOf_gap hgap]

/-- Statements on lines of their own are read one by one. -/
theorem sentences_glue {bodies : List Text} (h : ∀ body ∈ bodies, ';' ∉ body) :
    sentences (Text.glue '\n' (bodies.map (· ++ [';']))) = bodies.map wordsOf ++ [[]] := by
  induction bodies with
  | nil => rfl
  | cons body rest ih =>
    obtain ⟨hbody, hrest⟩ := List.forall_mem_cons.mp h
    cases rest with
    | nil =>
      rw [List.map_singleton, Text.glue_singleton, sentences_append hbody]
      rfl
    | cons next rest =>
      have hglue := ih hrest
      rw [List.map_cons] at hglue ⊢
      rw [List.map_cons, Text.glue_cons_cons, List.append_assoc, List.singleton_append,
        sentences_append hbody, sentences_gap (by decide), hglue]
      rfl

end Imported

namespace Import

open Imported

/-- A statement can be written that imports the symbol under a name: the name has a namespace part, so
it is no word of the language, and no part of the statement is broken. -/
structure IsWritable (i : Import) (name : Text) : Prop where
  /-- Namespaces are imported like classes. -/
  kind : i.kind ≠ .nameSpace
  /-- The name has a namespace part. -/
  qualified : Name.separator ∈ name
  /-- The name is one word. -/
  name : IsUnbroken name
  /-- The local name is one word, if it is given. -/
  given : ∀ g ∈ i.given, g ≠ [] ∧ IsUnbroken g

/-- What stands behind the name in a statement. -/
def ending (i : Import) : Text :=
  match i.given with
  | some g => " as ".toList ++ g
  | none => []

/-- The statement without its semicolon. -/
def body (i : Import) (name : Text) : Text := "use ".toList ++ keyword i.kind ++ name ++ i.ending

/-- The words of a statement from its name on. -/
def lastWords (i : Import) (name : Text) : List Text :=
  name :: match i.given with
  | some g => ["as".toList, g]
  | none => []

/-- The import is read from the words from its name on. -/
theorem ofWords?_lastWords (i : Import) (name : Text) :
    ofWords? i.kind (i.lastWords name) = some (ofNames i.kind i.given (Name.bare name)) := by
  have has : Text.lower "as".toList = "as".toList := by decide
  cases hgiven : i.given with
  | none =>
    rw [lastWords, hgiven]
    rfl
  | some g =>
    have hwords : i.lastWords name = [name, "as".toList, g] := by rw [lastWords, hgiven]
    rw [hwords, ofWords?, if_pos has]

namespace IsWritable

variable {i : Import} {name : Text}

/-- A name that can be written is not empty. -/
theorem name_ne_nil (h : i.IsWritable name) : name ≠ [] := List.ne_nil_of_mem h.qualified

/-- A statement has its semicolon at its end only. -/
theorem semicolon_not_mem (h : i.IsWritable name) : ';' ∉ i.body name := by
  have hname : ';' ∉ name := fun hmem => (h.name ';' hmem).2 rfl
  have hkeyword : ';' ∉ keyword i.kind := by cases i.kind <;> decide
  have hending : ';' ∉ i.ending := by
    unfold ending
    split
    · next g hg =>
      have hgiven : ';' ∉ g := fun hmem => ((h.given g hg).2 ';' hmem).2 rfl
      exact List.not_mem_append (by decide) hgiven
    · exact List.not_mem_nil
  exact List.not_mem_append (List.not_mem_append (List.not_mem_append (by decide) hkeyword) hname) hending

/-- The words of a statement from its name on. -/
theorem wordsOf_name (h : i.IsWritable name) : wordsOf (name ++ i.ending) = i.lastWords name := by
  rw [ending, lastWords]
  cases hgiven : i.given with
  | none =>
    rw [List.append_nil]
    exact wordsOf_singleton h.name h.name_ne_nil
  | some g =>
    obtain ⟨hne, hg⟩ := h.given g hgiven
    have has : wordsOf ("as".toList ++ ' ' :: g) = "as".toList :: wordsOf g :=
      wordsOf_append (by decide) (by decide) (by decide) g
    calc wordsOf (name ++ ' ' :: ("as".toList ++ ' ' :: g))
        = name :: wordsOf ("as".toList ++ ' ' :: g) :=
          wordsOf_append h.name h.name_ne_nil (by decide) _
      _ = [name, "as".toList, g] := by rw [has, wordsOf_singleton hg hne]

/-- The import is read from the words of the statement. -/
theorem ofSentence?_body (h : i.IsWritable name) :
    ofSentence? (wordsOf (i.body name)) = some (ofNames i.kind i.given (Name.bare name)) := by
  have hfirst : ∀ word rest : Text, IsUnbroken word → word ≠ [] →
      wordsOf (word ++ ' ' :: rest) = word :: wordsOf rest :=
    fun word rest hword hne => wordsOf_append hword hne (by decide) rest
  have hbody : i.body name = "use".toList ++ ' ' :: (keyword i.kind ++ (name ++ i.ending)) := by
    have hspace : i.body name = ("use".toList ++ [' ']) ++ keyword i.kind ++ name ++ i.ending := rfl
    rw [hspace, List.append_assoc, List.append_assoc, List.append_assoc, List.singleton_append]
  have huse : ¬Text.lower "use".toList ≠ "use".toList := by decide
  have hlast := i.ofWords?_lastWords name
  rw [hbody, hfirst "use".toList _ (by decide) (by decide), ← hlast]
  cases hkind : i.kind with
  | nameSpace => exact absurd hkind h.kind
  | classLike =>
    have hword : ∀ word : Text, Name.separator ∉ word → Text.lower name ≠ word := by
      rintro word hsep rfl
      exact hsep (Name.separator_mem_lower.mpr h.qualified)
    have hfunction := hword "function".toList (by decide)
    have hconst := hword "const".toList (by decide)
    have hkeyword : keyword .classLike ++ (name ++ i.ending) = name ++ i.ending := rfl
    rw [hkeyword, h.wordsOf_name, lastWords, ofSentence?, if_neg huse, if_neg hfunction,
      if_neg hconst]
  | function =>
    have hkeyword : keyword .function ++ (name ++ i.ending)
        = "function".toList ++ ' ' :: (name ++ i.ending) := rfl
    have hlower : Text.lower "function".toList = "function".toList := by decide
    rw [hkeyword, hfirst "function".toList _ (by decide) (by decide), h.wordsOf_name, ofSentence?,
      if_neg huse, if_pos hlower]
  | constant =>
    have hkeyword : keyword .constant ++ (name ++ i.ending)
        = "const".toList ++ ' ' :: (name ++ i.ending) := rfl
    have hlower : Text.lower "const".toList = "const".toList := by decide
    have hother : Text.lower "const".toList ≠ "function".toList := by decide
    rw [hkeyword, hfirst "const".toList _ (by decide) (by decide), h.wordsOf_name, ofSentence?,
      if_neg huse, if_neg hother, if_pos hlower]

end IsWritable

end Import

namespace Imported

/-- The statements that a group of imports is split into import the same symbols under the same local
names, each under the name it has afterwards. -/
theorem ofText?_splitGroup {r : Relocation} {is : List Import}
    (h : ∀ i ∈ is, i.IsWritable (r.importName i)) :
    ofText? (r.splitGroup is)
      = some (is.map fun i => ofNames i.kind i.given (Name.bare (r.importName i))) := by
  have hsplit : r.splitGroup is
      = Text.glue '\n' ((is.map fun i => i.body (r.importName i)).map (· ++ [';'])) := by
    rw [Relocation.splitGroup, List.map_map]
    rfl
  have hbodies : ∀ body ∈ is.map fun i => i.body (r.importName i), ';' ∉ body := by
    intro body hbody
    obtain ⟨i, hi, rfl⟩ := List.mem_map.mp hbody
    exact (h i hi).semicolon_not_mem
  have hread : ((is.map fun i => i.body (r.importName i)).map wordsOf).mapM ofSentence?
      = some (is.map fun i => ofNames i.kind i.given (Name.bare (r.importName i))) := by
    refine mapM_of_forall₂ ?_
    rw [List.map_map, List.forall₂_map_left_iff, List.forall₂_same]
    exact fun i hi => (h i hi).ofSentence?_body
  rw [hsplit, ofText?, sentences_glue hbodies, List.getLast?_concat, if_pos rfl,
    List.dropLast_concat, hread]

end Imported

end PhpPrefixer
