import PhpPrefixer.Proofs.HandFiles
import PhpPrefixer.Proofs.Quotes

/-!
# Code in code

Embedded code is treated as a file, and may embed code itself. Here the recursion is taken as it is
meant, without a bound on its levels: `Prefixer.treatOnce` treats a file with any treatment of the code
that it embeds. What a file embeds has two quotes less than the file, so no chain of embedded texts goes
on for ever, and the treatment of files is the only one that treats embedded code as it treats a file:
`Prefixer.embedded_code_ends`.

The opening tag is put in front of embedded code, so embedded code can be longer than the file around it.
From there on it gets shorter. A literal in embedded code starts behind the opening tag, since none of the
characters a literal can start with occurs in the tag, and it loses its quotes where it gains the tag.
-/

namespace PhpPrefixer

open Prefixing

/-- The value of a literal is what stands between its quotes, with some backslashes left out. -/
theorem Literal.sublist_of_unescape {quote : Char} {t value : Text}
    (h : unescape quote t = some value) : value.Sublist t := by
  fun_induction unescape quote t generalizing value with
  | case1 =>
    cases h
    exact List.Sublist.refl _
  | case2 c =>
    cases h
    exact List.Sublist.refl _
  | case3 c d rest hescaped ih =>
    obtain ⟨u, hu, rfl⟩ := Option.map_eq_some_iff.mp h
    exact ((ih hu).cons_cons d).cons c
  | case4 c d rest hescaped hinterpreted => cases h
  | case5 c d rest hescaped hinterpreted ih =>
    obtain ⟨u, hu, rfl⟩ := Option.map_eq_some_iff.mp h
    exact (ih hu).cons_cons c

/-- A text with fewer characters has no more bytes. -/
theorem Text.length_encode_le {t u : Text} (h : t.Sublist u) : (encode t).length ≤ (encode u).length := by
  induction h with
  | slnil => exact Nat.le_refl _
  | cons c _ ih =>
    rw [encode_cons, List.length_append]
    omega
  | cons_cons c _ ih =>
    rw [encode_cons, encode_cons, List.length_append, List.length_append]
    omega

/-- The bytes of the characters that a literal can start with. -/
def Literal.firstBytes : List UInt8 := [39, 34, 98, 66]

/-- A literal is at least two bytes longer than its value, and is told by its first byte. -/
theorem Literal.encode_of_ofText? {t : Text} {l : Literal} (h : ofText? t = some l) :
    (Text.encode l.value).length + 2 ≤ (Text.encode t).length
      ∧ ∃ b ∈ firstBytes, (Text.encode t).head? = some b := by
  obtain ⟨hmark, hquote, body, rfl, hvalue, -⟩ := exists_of_ofText? h
  generalize l.quote = quote at hquote hvalue ⊢
  generalize l.binaryMark = mark at hmark ⊢
  have hbody := Text.length_encode_le (sublist_of_unescape hvalue)
  have hone : (String.utf8EncodeChar quote).length = 1
      ∧ ∃ b ∈ firstBytes, (String.utf8EncodeChar quote).head? = some b := by
    simp only [Prefixer.isQuote, Bool.or_eq_true, decide_eq_true_eq] at hquote
    obtain rfl | rfl := hquote
    · exact ⟨rfl, 39, by simp [firstBytes], rfl⟩
    · exact ⟨rfl, 34, by simp [firstBytes], rfl⟩
  obtain ⟨hone, b, hb, hhead⟩ := hone
  constructor
  · simp only [Text.encode_append, Text.encode_cons, Text.encode_nil, List.length_append,
      List.append_nil, hone]
    omega
  · simp only [marks, List.mem_cons, List.not_mem_nil, or_false] at hmark
    obtain rfl | rfl | rfl := hmark
    · refine ⟨b, hb, ?_⟩
      rw [List.nil_append, List.cons_append, Text.encode_cons, List.head?_append, hhead]
      rfl
    · exact ⟨98, by simp [firstBytes], rfl⟩
    · exact ⟨66, by simp [firstBytes], rfl⟩

namespace Prefixer

variable {p : Prefixer} {path outer nested inner : Text}

/-- No chain of embedded texts goes on for ever. -/
theorem wellFounded_embeds (p : Prefixer) (path : Text) :
    WellFounded fun inner outer => inner ∈ p.embeddedTexts path outer := by
  have hless : Subrelation (fun inner outer => inner ∈ p.embeddedTexts path outer)
      (InvImage (· < ·) quotes) := by
    intro inner outer h
    have hquotes := quotes_add_two_le h
    exact Nat.lt_of_lt_of_le (by omega) hquotes
  exact hless.wf (InvImage.wf quotes Nat.lt_wfRel.wf)

/-- Embedded code is recognised as code, as the file around it was. -/
theorem holdsCode_of_embedded (h : inner ∈ p.embeddedTexts path outer) :
    Recognition.holdsCode p.extensions path inner = true := by
  obtain ⟨hcode, -, -, l, -, -, rfl⟩ := exists_literal_of_embedded h
  exact Recognition.holdsCode_asFile hcode l.value

/-- The bytes of the opening tag and of the blank behind it. -/
def tagBytes : List UInt8 := [60, 63, 112, 104, 112, 32]

/-- Embedded code as a file has the opening tag in front of it. -/
theorem encode_asFile (code : Text) : Text.encode (asFile code) = tagBytes ++ Text.encode code := by
  have hfile : asFile code = (openTag ++ [' ']) ++ code := by simp [asFile]
  have htag : Text.encode (openTag ++ [' ']) = tagBytes := rfl
  rw [hfile, Text.encode_append, htag]

/-- No byte that opens a literal stands in the opening tag. -/
theorem apart_firstBytes : ∀ b ∈ Literal.firstBytes, b ∉ tagBytes := by
  simp [Literal.firstBytes, tagBytes]

/-- A piece of embedded code that starts like a literal starts behind the opening tag. -/
theorem length_tagBytes_le {bytes : List UInt8} {start stop : Nat} {b : UInt8}
    (hb : b ∈ Literal.firstBytes)
    (h : (((tagBytes ++ bytes).take stop).drop start).head? = some b) : tagBytes.length ≤ start := by
  rw [List.head?_drop, List.getElem?_take] at h
  split at h
  · by_contra hstart
    rw [List.getElem?_append_left (Nat.lt_of_not_le hstart)] at h
    exact apart_firstBytes b hb (List.mem_of_getElem? h)
  · cases h

/-- What embedded code embeds is shorter. -/
theorem length_encode_lt (houter : nested ∈ p.embeddedTexts path outer)
    (h : inner ∈ p.embeddedTexts path nested) :
    (Text.encode inner).length < (Text.encode nested).length := by
  obtain ⟨-, -, -, around, -, -, rfl⟩ := exists_literal_of_embedded houter
  obtain ⟨-, n, text, l, htext, hliteral, rfl⟩ := exists_literal_of_embedded h
  obtain ⟨hvalue, b, hb, hhead⟩ := Literal.encode_of_ofText? (ofText?_of_literal? hliteral)
  have hbytes : Text.encode text
      = ((tagBytes ++ Text.encode around.value).take n.span.stop).drop n.span.start := by
    rw [← encode_asFile]
    exact Source.encode_of_text? htext
  have hstart := length_tagBytes_le hb (hbytes ▸ hhead)
  have hlength := congrArg List.length hbytes
  rw [encode_asFile, encode_asFile]
  simp only [List.length_append, List.length_drop, List.length_take] at hlength ⊢
  omega

end Prefixer

namespace Prefixer

variable {p : Prefixer} {whitelist : Whitelist} {path : Text}

/-- There is no other treatment that treats a file like the code that it embeds. -/
theorem eq_treat_of_treatOnce {self : Option Text → Text → Plan Text}
    (h : ∀ given contents, self given contents = p.treatOnce whitelist path self given contents) :
    self = p.treat whitelist path := by
  funext given contents
  induction contents using (wellFounded_embeds p path).induction generalizing given with
  | _ contents ih =>
    rw [h, treat_eq_treatOnce]
    exact treatOnce_congr (fun inner hinner given => ih inner hinner given) given

/-- The treatment of embedded code ends. Embedded texts form no endless chain, whatever the parser makes
of them; a file asks for the treatment of the texts that it embeds and of no others; so there is one
treatment, and only one, that treats the code in a file as it treats a file. Every embedded text is the
value of a literal behind an opening tag, is recognised as code under the same path, and is longer than
every text that it embeds itself. -/
theorem embedded_code_ends (p : Prefixer) (whitelist : Whitelist) (path : Text) :
    WellFounded (fun inner outer => inner ∈ p.embeddedTexts path outer)
      ∧ (∀ (self₁ self₂ : Option Text → Text → Plan Text) (contents : Text),
        (∀ inner ∈ p.embeddedTexts path contents, ∀ given, self₁ given inner = self₂ given inner) →
        ∀ given, p.treatOnce whitelist path self₁ given contents
          = p.treatOnce whitelist path self₂ given contents)
      ∧ (∀ self : Option Text → Text → Plan Text,
        (∀ given contents, self given contents = p.treatOnce whitelist path self given contents)
          ↔ self = p.treat whitelist path)
      ∧ ∀ outer, ∀ nested ∈ p.embeddedTexts path outer,
        (∃ code, nested = asFile code) ∧ Recognition.holdsCode p.extensions path nested = true
          ∧ ∀ inner ∈ p.embeddedTexts path nested,
            (Text.encode inner).length < (Text.encode nested).length := by
  refine ⟨wellFounded_embeds p path, fun _ _ _ h => treatOnce_congr h, fun self => ⟨?_, ?_⟩, ?_⟩
  · exact eq_treat_of_treatOnce
  · rintro rfl
    exact treat_eq_treatOnce p whitelist path
  · intro outer nested h
    obtain ⟨-, -, -, l, -, -, hnested⟩ := exists_literal_of_embedded h
    exact ⟨⟨l.value, hnested⟩, holdsCode_of_embedded h, fun inner hinner => length_encode_lt h hinner⟩

end Prefixer

namespace HandFile

/-- A call of `eval` with a literal of some type, from the sixth byte of a file on. -/
def evalOf (type : String) (stop : Nat) : Node :=
  .callTo 6 10 (.part "arguments" 10 (stop + 1)
    [.token "(" 10 11,
      .part "argument" 11 stop [.part type 11 stop [.part "string_content" 12 (stop - 1) []]],
      .token ")" stop (stop + 1)])

/-- The code in the code evaluates code again. -/
def evalInEval : HandFile where
  code := "<?php eval('eval(\"new\");');"
  root := .program 27 [.part "expression_statement" 6 27 [evalOf "string" 25, .token ";" 26 27]]

/-- The code in it. -/
def evalQuoted : HandFile where
  code := "<?php eval(\"new\");"
  root := .program 18
    [.part "expression_statement" 6 18 [evalOf "encapsed_string" 16, .token ";" 17 18]]

end HandFile

/-- Code is embedded in code that is embedded in a file. The texts get shorter, and three levels are enough
for what the file embeds. -/
theorem Prefixer.embedded_code_ends_evalInEval :
    let p := HandFile.prefixerOfBoth .evalInEval .evalQuoted
    let path := "a.php".toList
    let outer := HandFile.evalInEval.code.toList
    let nested := HandFile.evalQuoted.code.toList
    p.embeddedTexts path outer = [nested] ∧ p.embeddedTexts path nested = ["<?php new".toList]
      ∧ Recognition.holdsCode p.extensions path nested = true
      ∧ (Text.encode "<?php new".toList).length < (Text.encode nested).length
      ∧ ∀ given, p.treatOnce .empty path (p.treatWithin .empty path 3) given outer
        = p.treatOnce .empty path (p.treat .empty path) given outer := by
  intro p path outer nested
  have houter : p.embeddedTexts path outer = [nested] := by decide +kernel
  have hnested : p.embeddedTexts path nested = ["<?php new".toList] := by decide +kernel
  obtain ⟨-, hcongr, -, hembedded⟩ := embedded_code_ends p .empty path
  obtain ⟨-, hcode, hshorter⟩ := hembedded outer nested (by rw [houter]; exact List.mem_singleton_self _)
  refine ⟨houter, hnested, hcode, ?_, ?_⟩
  · exact hshorter _ (by rw [hnested]; exact List.mem_singleton_self _)
  · refine hcongr _ _ outer fun inner hinner given => ?_
    rw [houter] at hinner
    cases List.mem_singleton.mp hinner
    exact treatWithin_eq_of_quotes (by decide +kernel) (Nat.lt_succ_self _) given

end PhpPrefixer
