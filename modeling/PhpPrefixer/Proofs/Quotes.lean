import PhpPrefixer.Prefixer
import PhpPrefixer.Proofs.Likeness

/-!
# Quotes around embedded code

The text of a node has no more quotes than the source, and what a literal stands for has two quotes less
than its text: those around it. So the code that a file embeds has at least two quotes less than the
file, `Prefixer.quotes_of_literal?`, and the levels that a file is treated with are more than enough for
what it embeds.
-/

namespace PhpPrefixer

namespace Prefixer

/-- The number of quotes in a text. -/
def quotes (t : Text) : Nat := t.countP isQuote

/-- The empty text has no quotes. -/
@[simp] theorem quotes_nil : quotes [] = 0 := rfl

/-- The quotes of two texts add up. -/
@[simp] theorem quotes_append (t u : Text) : quotes (t ++ u) = quotes t + quotes u :=
  List.countP_append

/-- The quotes of a text are those behind its first character, and this one if it is a quote. -/
theorem quotes_cons (c : Char) (t : Text) :
    quotes (c :: t) = quotes t + if isQuote c then 1 else 0 := List.countP_cons ..

/-- There are no fewer quotes with one more character in front. -/
theorem quotes_le_cons (c : Char) (t : Text) : quotes t ≤ quotes (c :: t) := by
  have hcons := quotes_cons c t
  omega

/-- Whether a byte is a quote. -/
def isQuoteByte (b : UInt8) : Bool := b.toNat = 39 || b.toNat = 34

/-- Bytes beyond ASCII are no quotes. -/
theorem countP_of_beyond (vs : List Nat) (h : ∀ v ∈ vs, 128 ≤ v ∧ v < 256) :
    (vs.map UInt8.ofNat).countP isQuoteByte = 0 := by
  refine List.countP_eq_zero.mpr fun b hb => ?_
  obtain ⟨v, hv, rfl⟩ := List.mem_map.mp hb
  obtain ⟨hlow, hhigh⟩ := h v hv
  have hmod : v % 256 = v := Nat.mod_eq_of_lt hhigh
  have h39 : v ≠ 39 := by omega
  have h34 : v ≠ 34 := by omega
  simp [isQuoteByte, hmod, h39, h34]

/-- The quotes by their code points. -/
theorem isQuote_iff (c : Char) : isQuote c = true ↔ c.val.toNat = 39 ∨ c.val.toNat = 34 := by
  have hval : ∀ d : Char, c = d ↔ c.val.toNat = d.val.toNat := fun d =>
    ⟨fun h => h ▸ rfl, fun h => Char.ext (UInt32.toNat_inj.mp h)⟩
  have hsingle : '\''.val.toNat = 39 := by decide
  have hdouble : '"'.val.toNat = 34 := by decide
  simp only [isQuote, Bool.or_eq_true, decide_eq_true_eq, hval '\'', hval '"', hsingle, hdouble]

/-- A character has a quote among its bytes just if it is a quote. -/
theorem countP_utf8EncodeChar (c : Char) :
    (String.utf8EncodeChar c).countP isQuoteByte = if isQuote c then 1 else 0 := by
  have hquote := isQuote_iff c
  unfold String.utf8EncodeChar
  dsimp only
  generalize c.val.toNat = v at hquote
  split
  · next hascii =>
    have hbyte : isQuoteByte (UInt8.ofNat v) = isQuote c := by
      have hmod : v % 256 = v := Nat.mod_eq_of_lt (by omega)
      rw [Bool.eq_iff_iff, hquote]
      simp [isQuoteByte, hmod]
    rw [List.countP_singleton, hbyte]
  · next hascii =>
    have hnot : isQuote c = false := by
      rw [Bool.eq_false_iff, ne_eq, hquote]
      omega
    rw [hnot]
    split
    · exact countP_of_beyond [v / 64 % 32 + 192, v % 64 + 128] (by simp; omega)
    split
    · exact countP_of_beyond [v / 4096 % 16 + 224, v / 64 % 64 + 128, v % 64 + 128] (by simp; omega)
    · exact countP_of_beyond
        [v / 262144 % 8 + 240, v / 4096 % 64 + 128, v / 64 % 64 + 128, v % 64 + 128] (by simp; omega)

/-- The quotes of a text are the bytes that are quotes. -/
theorem countP_encode (t : Text) : (Text.encode t).countP isQuoteByte = quotes t := by
  induction t with
  | nil => rfl
  | cons c t ih =>
    rw [Text.encode_cons, List.countP_append, countP_utf8EncodeChar, ih, quotes_cons, Nat.add_comm]

/-- The text of a node has no more quotes than the source. -/
theorem quotes_of_text? {code t : Text} {n : Node} (h : (Source.ofText code).text? n = some t) :
    quotes t ≤ quotes code := by
  have hbytes := Source.encode_of_text? h
  rw [← countP_encode t, hbytes, ← countP_encode code]
  have hslice : ((Source.ofText code).bytesOf n).Sublist (Text.encode code) :=
    (List.drop_sublist _ _).trans (List.take_sublist _ _)
  exact hslice.countP_le

/-- Undoing escapes adds no quotes. -/
theorem quotes_of_unescape {quote : Char} {t value : Text}
    (h : Literal.unescape quote t = some value) : quotes value ≤ quotes t := by
  fun_induction Literal.unescape quote t generalizing value with
  | case1 =>
    cases h
    exact Nat.le_refl _
  | case2 c =>
    cases h
    exact Nat.le_refl _
  | case3 c d rest hescaped ih =>
    obtain ⟨u, hu, rfl⟩ := Option.map_eq_some_iff.mp h
    have hrest := ih hu
    have hvalue := quotes_cons d u
    have htext := quotes_cons d rest
    have hskipped := quotes_le_cons c (d :: rest)
    omega
  | case4 c d rest hescaped hinterpreted => cases h
  | case5 c d rest hescaped hinterpreted ih =>
    obtain ⟨u, hu, rfl⟩ := Option.map_eq_some_iff.mp h
    have hrest := ih hu
    have hvalue := quotes_cons c u
    have htext := quotes_cons c (d :: rest)
    omega

/-- What stands between two quotes has both of them less. -/
theorem quotes_of_unquoted? {t body : Text} {quote : Char}
    (h : Literal.unquoted? t = some (quote, body)) : quotes body + 2 = quotes t := by
  cases t with
  | nil => cases h
  | cons c rest =>
    simp only [Literal.unquoted?] at h
    split at h
    · next hquoted =>
      cases h
      obtain ⟨hquote, hlast⟩ := Bool.and_eq_true_iff.mp hquoted
      have hc : isQuote quote = true := hquote
      obtain ⟨inner, rfl⟩ := List.getLast?_eq_some_iff.mp (of_decide_eq_true hlast)
      rw [List.dropLast_concat, quotes_cons, quotes_append, quotes_cons, quotes_nil, hc]
      rfl
    · cases h

/-- Splitting off a mark brings no quotes in. -/
theorem quotes_splitMark (t : Text) : quotes (Literal.splitMark t).2 ≤ quotes t := by
  unfold Literal.splitMark
  split
  · exact quotes_le_cons _ _
  · exact quotes_le_cons _ _
  · exact Nat.le_refl _

/-- A literal has two quotes more than its value. -/
theorem quotes_of_ofText? {t : Text} {l : Literal} (h : Literal.ofText? t = some l) :
    quotes l.value + 2 ≤ quotes t := by
  simp only [Literal.ofText?, Option.bind_eq_bind, Option.bind_eq_some_iff] at h
  obtain ⟨⟨quote, body⟩, hquoted, value, hvalue, hl⟩ := h
  cases hl
  have hmark := quotes_splitMark t
  have hbody := quotes_of_unquoted? hquoted
  have hinner := quotes_of_unescape hvalue
  dsimp only at hinner ⊢
  omega

/-- The literal of a node is the one written in its text. -/
theorem ofText?_of_literal? {n : Node} {text : Text} {l : Literal} (h : n.literal? text = some l) :
    Literal.ofText? text = some l := by
  simp only [Node.literal?, Literal.read?] at h
  split at h
  · exact h
  · cases h

/-- Code that is embedded in a source has at least two quotes less than the source. -/
theorem quotes_of_literal? {code text : Text} {n : Node} {l : Literal}
    (htext : (Source.ofText code).text? n = some text) (hliteral : n.literal? text = some l) :
    quotes (Prefixing.asFile l.value) + 2 ≤ quotes code := by
  have htag : quotes (Prefixing.asFile l.value) = quotes l.value := by
    have hopen : quotes (openTag ++ [' ']) = 0 := by decide
    have hfile : Prefixing.asFile l.value = (openTag ++ [' ']) ++ l.value := by
      simp [Prefixing.asFile]
    rw [hfile, quotes_append, hopen, Nat.zero_add]
  have hsource := quotes_of_text? htext
  have hvalue := quotes_of_ofText? (ofText?_of_literal? hliteral)
  omega

end Prefixer

/-- The letters that can stand in front of a literal. -/
def Literal.marks : List Text := [[], ['b'], ['B']]

/-- A literal is written as a letter or none, and a text between two equal quotes. -/
theorem Literal.exists_of_ofText? {t : Text} {l : Literal} (h : ofText? t = some l) :
    l.binaryMark ∈ marks ∧ Prefixer.isQuote l.quote = true
      ∧ ∃ body, t = l.binaryMark ++ l.quote :: body ++ [l.quote]
        ∧ unescape l.quote body = some l.value
        ∧ l.doubled = (Text.cut? ['\\', '\\'] body).isSome := by
  simp only [ofText?, Option.bind_eq_bind, Option.bind_eq_some_iff] at h
  obtain ⟨⟨quote, body⟩, hquoted, value, hvalue, hl⟩ := h
  cases hl
  have hmark : (splitMark t).1 ∈ marks ∧ (splitMark t).1 ++ (splitMark t).2 = t := by
    unfold splitMark
    split
    · exact ⟨by simp [marks], rfl⟩
    · exact ⟨by simp [marks], rfl⟩
    · exact ⟨by simp [marks], rfl⟩
  refine ⟨hmark.1, ?_⟩
  generalize (splitMark t).2 = rest at hquoted hmark
  cases rest with
  | nil => cases hquoted
  | cons c rest =>
    simp only [unquoted?] at hquoted
    split at hquoted
    · next hends =>
      cases hquoted
      obtain ⟨hquote, hlast⟩ := Bool.and_eq_true_iff.mp hends
      obtain ⟨inner, rfl⟩ := List.getLast?_eq_some_iff.mp (of_decide_eq_true hlast)
      rw [List.dropLast_concat] at hvalue ⊢
      exact ⟨hquote, inner, by simpa using hmark.2.symm, hvalue, rfl⟩
    · cases hquoted

/-- What is embedded in a file that holds code holds code. -/
theorem Recognition.holdsCode_asFile {extensions : List Text} {path contents : Text}
    (h : holdsCode extensions path contents = true) (code : Text) :
    holdsCode extensions path (Prefixing.asFile code) = true := by
  have hopen : openTag.isPrefixOf (Text.trimBlankStart (Prefixing.asFile code)) = true := by
    have htrim : Text.trimBlankStart (Prefixing.asFile code) = Prefixing.asFile code :=
      List.dropWhile_cons_of_neg (by decide)
    rw [htrim]
    exact List.isPrefixOf_iff_prefix.mpr (List.prefix_append _ _)
  unfold holdsCode at h ⊢
  split
  · rfl
  · next hextension =>
    rw [if_neg hextension] at h
    split
    · next hother =>
      rw [if_pos hother] at h
      cases h
    · rw [hopen]
      rfl

/-- Work that is the same. -/
def Plan.Likeness.same : Plan.Likeness where
  holds p q := p = q
  refl _ := rfl
  bind {α β p q next other} h hnext := by
    subst h
    cases hp : p.outcome with
    | error f => rw [Plan.bind_of_error hp, Plan.bind_of_error hp]
    | ok a => rw [Plan.bind_of_ok hp, Plan.bind_of_ok hp, hnext a hp]

namespace Prefixer

open Prefixing

variable {p : Prefixer} {whitelist : Whitelist} {path outer inner : Text}

/-- What is embedded is the value of a literal in the code, as the code of a file. -/
theorem exists_literal_of_embedded (h : inner ∈ p.embeddedTexts path outer) :
    Recognition.holdsCode p.extensions path outer = true ∧ ∃ (n : Node) (text : Text) (l : Literal),
      (Source.ofText (Recognition.splitShebang outer).2).text? n = some text
        ∧ n.literal? text = some l ∧ inner = asFile l.value := by
  rw [embeddedTexts] at h
  split at h
  · next hcode =>
    refine ⟨hcode, ?_⟩
    split at h
    · next source tree hcheck =>
      obtain ⟨-, rfl, -⟩ := Parsed.check_eq_ok_iff.mp hcheck
      obtain ⟨call, -, hcall⟩ := List.mem_filterMap.mp h
      rw [Source.evaluated?] at hcall
      split at hcall
      · simp only [Option.bind_eq_bind, Option.bind_eq_some_iff] at hcall
        obtain ⟨n, -, text, htext, l, hliteral, hinner⟩ := hcall
        exact ⟨n, text, l, htext, hliteral, (Option.some_inj.mp hinner).symm⟩
      · cases hcall
    · cases h
  · cases h

/-- Embedded code has two quotes less than the file. -/
theorem quotes_add_two_le (h : inner ∈ p.embeddedTexts path outer) :
    quotes inner + 2 ≤ quotes outer := by
  obtain ⟨-, n, text, l, htext, hliteral, rfl⟩ := exists_literal_of_embedded h
  have hcode := quotes_of_literal? htext hliteral
  have hwhole := congrArg quotes (Recognition.splitShebang_append outer)
  rw [quotes_append] at hwhole
  omega

/-- The treatment of a file asks for the treatment of what the file embeds, and of nothing else. -/
theorem treatOnce_congr {self₁ self₂ : Option Text → Text → Plan Text} {contents : Text}
    (h : ∀ inner ∈ p.embeddedTexts path contents, ∀ given, self₁ given inner = self₂ given inner)
    (given : Option Text) :
    p.treatOnce whitelist path self₁ given contents = p.treatOnce whitelist path self₂ given contents := by
  have hreports : ∀ w : FileSetting, w.policy = p.policy → w.warnDynamic = p.warnDynamic →
      w.ReportsLike .same p.policy p.warnDynamic := by
    intro w hpolicy hwarn
    rw [← hpolicy, ← hwarn]
    exact ⟨fun _ _ => PrefixingM.Alike.refl _, fun _ _ => PrefixingM.Alike.refl _⟩
  exact alike_treatOnce hreports h given

/-- Levels beyond the quotes of a text change nothing. -/
theorem treatWithin_eq_of_quotes {levels more : Nat} {contents : Text} (h : quotes contents < levels)
    (hmore : quotes contents < more) (given : Option Text) :
    p.treatWithin whitelist path levels given contents
      = p.treatWithin whitelist path more given contents := by
  induction levels generalizing more contents given with
  | zero => exact absurd h (Nat.not_lt_zero _)
  | succ levels ih =>
    obtain ⟨more, rfl⟩ : ∃ n, more = n + 1 := ⟨more - 1, by omega⟩
    rw [treatWithin_succ, treatWithin_succ]
    refine treatOnce_congr (fun inner hinner given => ?_) given
    have hquotes := quotes_add_two_le hinner
    exact ih (by omega) (by omega) given

/-- A file is treated like the code that it embeds. -/
theorem treat_eq_treatOnce (p : Prefixer) (whitelist : Whitelist) (path : Text) (given : Option Text)
    (contents : Text) :
    p.treat whitelist path given contents
      = p.treatOnce whitelist path (p.treat whitelist path) given contents := by
  have hlevels : levelsOf contents = quotes contents + 1 := rfl
  rw [treat, hlevels, treatWithin_succ]
  refine treatOnce_congr (fun inner hinner given => ?_) given
  have hquotes := quotes_add_two_le hinner
  exact treatWithin_eq_of_quotes (by omega) (Nat.lt_succ_self _) given

end Prefixer

end PhpPrefixer
