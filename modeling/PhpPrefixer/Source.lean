import PhpPrefixer.Node
import PhpPrefixer.Text.Utf8

/-!
# Sources

A source is the bytes of a text. Nodes of its tree are spans of these bytes; an offset beyond the
end stands for the end. The text of a span can be read unless the span cuts a character.
-/

namespace PhpPrefixer

/-- The bytes of a text that was parsed. -/
structure Source where
  /-- The bytes. -/
  bytes : List UInt8

namespace Source

/-- The source with a text. -/
def ofText (t : Text) : Source := ⟨Text.encode t⟩

/-- The bytes from one offset up to another; none if the second is not beyond the first. -/
def slice (s : Source) (start stop : Nat) : List UInt8 := (s.bytes.take stop).drop start

/-- The bytes of a node. -/
def bytesOf (s : Source) (n : Node) : List UInt8 := s.slice n.span.start n.span.stop

/-- The text of a node, unless its span cuts a character. -/
def text? (s : Source) (n : Node) : Option Text := Text.decode? (s.bytesOf n)

/-- The line an offset is on, counted from one. -/
def lineAt (s : Source) (offset : Nat) : Nat := (s.bytes.take offset).count 10 + 1

/-- The line a node starts on. -/
def lineOf (s : Source) (n : Node) : Nat := s.lineAt n.span.start

/-- The text of a node has the bytes of the node. -/
theorem encode_of_text? {s : Source} {n : Node} {t : Text} (h : s.text? n = some t) :
    Text.encode t = s.bytesOf n :=
  Text.encode_of_decode? h

end Source

end PhpPrefixer
