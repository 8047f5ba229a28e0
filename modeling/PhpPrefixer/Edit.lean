import PhpPrefixer.Source

/-!
# Edits

Changes to a source are queued as edits: a span of bytes and the text to put in its place. An edit
with an empty span is an insertion. Rendering applies a queue from left to right; insertions at an
offset come before a replacement that starts there, in the order they were queued. Edits that overlap
are refused.
-/

namespace PhpPrefixer

/-- A change to a source. -/
structure Edit where
  /-- The offset of the first byte replaced. -/
  start : Nat
  /-- The offset after the last byte replaced. -/
  stop : Nat
  /-- The text put there. -/
  text : Text
  deriving DecidableEq, Repr

/-- An edit that starts inside an earlier one. -/
structure Overlap where
  /-- The start of the edit. -/
  start : Nat
  /-- The end of the edit. -/
  stop : Nat
  /-- The end of the earlier edit. -/
  earlier : Nat
  deriving DecidableEq, Repr

/-- The wording of an overlap. -/
def Overlap.message (o : Overlap) : String :=
  "Overlapping edits at bytes " ++ toString o.start ++ "-" ++ toString o.stop
    ++ " (previous edit ends at " ++ toString o.earlier ++ ")"

namespace Edit

/-- Whether an edit only inserts. -/
def isInsertion (e : Edit) : Bool := e.start = e.stop

/-- The edit that replaces a node. -/
def replacing (n : Node) (t : Text) : Edit := ⟨n.span.start, n.span.stop, t⟩

/-- The edit that inserts at an offset. -/
def inserting (offset : Nat) (t : Text) : Edit := ⟨offset, offset, t⟩

/-- Whether an edit is applied before another one or beside it: by offset, insertions first. -/
def appliedBefore (a b : Edit) : Bool :=
  a.start < b.start || (a.start = b.start && (a.isInsertion || !b.isInsertion))

/-- The edits in the order in which they are applied. -/
def inOrder (queue : List Edit) : List Edit := queue.mergeSort appliedBefore

/-- The bytes of a source from `cursor` on, with edits applied that are already in order. -/
def spliceFrom (s : Source) (cursor : Nat) : List Edit → Except Overlap (List UInt8)
  | [] => .ok (s.bytes.drop cursor)
  | e :: es =>
    if e.start < cursor then .error ⟨e.start, e.stop, cursor⟩
    else do
      let rest ← spliceFrom s e.stop es
      return s.slice cursor e.start ++ Text.encode e.text ++ rest

/-- The bytes of a source with a queue of edits applied. -/
def splice (s : Source) (queue : List Edit) : Except Overlap (List UInt8) :=
  spliceFrom s 0 (inOrder queue)

end Edit

/-- Why a queue cannot be rendered. -/
inductive RenderError where
  /-- Two edits overlap. -/
  | overlap (o : Overlap)
  /-- An edit cuts a character. -/
  | undecodable
  deriving DecidableEq, Repr

namespace Source

/-- The text of a source with a queue of edits applied. -/
def render (s : Source) (queue : List Edit) : Except RenderError Text :=
  match Edit.splice s queue with
  | .error o => .error (.overlap o)
  | .ok bytes =>
    match Text.decode? bytes with
    | none => .error .undecodable
    | some t => .ok t

/-- A text that ends with a line break unless it is empty. -/
def endingLine (t : Text) : Text :=
  if t = [] || t.getLast? = some '\n' then t else t ++ ['\n']

/-- The text of a source with a queue of edits applied, ending with a line break. -/
def print (s : Source) (queue : List Edit) : Except RenderError Text :=
  (s.render queue).map endingLine

end Source

end PhpPrefixer
