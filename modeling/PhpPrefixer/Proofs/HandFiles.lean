import PhpPrefixer.Prefixer

/-!
# Files by hand

Small files with their trees, and prefixers whose parsers know them. Witnesses of results about all files are
about these. A prefixer is never without native symbols, so the files have a table of their own with one
function that none of them mentions.
-/

namespace PhpPrefixer

namespace Node

/-- A piece of punctuation or a keyword, at some bytes. -/
def token (type : String) (start stop : Nat) : Node := .mk type false false ⟨start, stop⟩ none []

/-- A named node, at some bytes. -/
def part (type : String) (start stop : Nat) (children : List Node) : Node :=
  .mk type true false ⟨start, stop⟩ none children

/-- A call of a function by a name, with a node that stands for its arguments. -/
def callTo (start stop : Nat) (arguments : Node) : Node :=
  part "function_call_expression" start arguments.span.stop
    [.mk "name" true false ⟨start, stop⟩ (some "function") [],
      .mk arguments.type true false arguments.span (some "arguments") arguments.children]

/-- A literal that holds three characters. -/
def threeQuoted (start : Nat) : Node :=
  part "string" start (start + 5) [part "string_content" (start + 1) (start + 4) []]

/-- The parts of `use A\{B,C}`. -/
def groupUse (start : Nat) : List Node :=
  [token "use" start (start + 3),
    part "namespace_name" (start + 4) (start + 5) [part "name" (start + 4) (start + 5) []],
    token "\\" (start + 5) (start + 6),
    part "namespace_use_group" (start + 6) (start + 11)
      [token "\x7b" (start + 6) (start + 7),
        part "namespace_use_clause" (start + 7) (start + 8) [part "name" (start + 7) (start + 8) []],
        token "," (start + 8) (start + 9),
        part "namespace_use_clause" (start + 9) (start + 10)
          [part "name" (start + 9) (start + 10) []],
        token "\x7d" (start + 10) (start + 11)]]

/-- A file with one statement after another. -/
def program (stop : Nat) (statements : List Node) : Node :=
  part "program" 0 stop (part "php_tag" 0 5 [] :: statements)

/-- A namespace declaration at the start of a file. -/
def spaceNamed (stop : Nat) : Node :=
  part "namespace_definition" 6 (stop + 1)
    [token "namespace" 6 15, .mk "namespace_name" true false ⟨16, stop⟩ (some "name") [],
      token ";" stop (stop + 1)]

/-- The import of one symbol. -/
def plainUse (start stop : Nat) : Node :=
  part "namespace_use_declaration" start (stop + 1)
    [token "use" start (start + 3),
      part "namespace_use_clause" (start + 4) stop [part "qualified_name" (start + 4) stop []],
      token ";" stop (stop + 1)]

end Node

/-- A file with its tree. -/
structure HandFile where
  /-- The code. -/
  code : String
  /-- The tree of the code. -/
  root : Node

namespace HandFile

/-- A single native function, which no file by hand mentions. -/
def natives : NativeSymbols := NativeSymbols.empty.extend [] ["strlen".toList] []

/-- Names move under `Humbug`, except the class `A\C`. -/
def setting (f : HandFile) : FileSetting where
  path := "a.php".toList
  relocation := ⟨"Humbug".toList, ⟨natives, { Whitelist.empty with classes := ["a\\c".toList] }⟩⟩
  policy := .skip
  warnDynamic := false
  source := .ofText f.code.toList

/-- The walk through the file, where embedded code is left as it is. -/
def walk (f : HandFile) : Plan FileState := Prefixer.walk f.setting f.root pure

/-- A prefixer whose parser knows this file and refuses all other texts. -/
def prefixer (f : HandFile) : Prefixer where
  parse text := ⟨f.root, text ≠ f.code.toList⟩
  natives := natives
  extensions := ["php".toList]
  policy := .skip
  warnDynamic := false

/-- A prefixer whose parser knows two files and refuses all other texts. -/
def prefixerOfBoth (f g : HandFile) : Prefixer :=
  { g.prefixer with
    parse := fun text => if text = f.code.toList then ⟨f.root, false⟩ else g.prefixer.parse text }

/-- A group of imports and a call that passes the name of a class. -/
def groupAndLiteral : HandFile where
  code := "<?php use A\\\x7bB,C\x7d; class_exists('X\\Y');"
  root := .program 39
    [.part "namespace_use_declaration" 6 18 (Node.groupUse 6 ++ [.token ";" 17 18]),
      .part "expression_statement" 19 39
        [.callTo 19 31 (.part "arguments" 31 38
            [.token "(" 31 32, .part "argument" 32 37 [.threeQuoted 32], .token ")" 37 38]),
          .token ";" 38 39]]

/-- An object is created outside any namespace. -/
def inGlobal : HandFile where
  code := "<?php new Foo;"
  root := .program 14
    [.part "expression_statement" 6 14
      [.part "object_creation_expression" 6 13 [.token "new" 6 9, .part "name" 10 13 []],
        .token ";" 13 14]]

/-- A namespace, a name in it, and a group of imports. -/
def beforeRun : HandFile where
  code := "<?php namespace A; new C; use A\\\x7bB,C\x7d;"
  root := .program 38
    [.spaceNamed 17, .part "object_creation_expression" 19 24 [.part "name" 23 24 []],
      .part "namespace_use_declaration" 26 38 (Node.groupUse 26 ++ [.token ";" 37 38])]

end HandFile

/-- A file that makes an object of a global class with a name of one letter. -/
def creation (letter : Char) : Text := "<?php new \\".toList ++ [letter, ';']

/-- The tree of such a file. -/
def creationTree : Node :=
  .program 13
    [.part "expression_statement" 6 13
      [.part "object_creation_expression" 6 12
        [.token "new" 6 9,
          .part "qualified_name" 10 12 [.token "\\" 10 11, .part "name" 11 12 []]],
        .token ";" 12 13]]

/-- A prefixer whose parser knows two such files and refuses all other texts. -/
def creationPrefixer : Prefixer where
  parse code := ⟨creationTree, !(code = creation 'A' || code = creation 'a')⟩
  natives := HandFile.natives
  extensions := ["php".toList]
  policy := .skip
  warnDynamic := false

namespace FileSetting

/-- An empty file that moves under `Humbug`, without exclusion rules. -/
def bareFile : FileSetting where
  path := "a.php".toList
  relocation := ⟨"Humbug".toList, ⟨HandFile.natives, .empty⟩⟩
  policy := .skip
  warnDynamic := false
  source := .ofText []

end FileSetting

end PhpPrefixer
