import Mathlib.Data.List.Chain
import PhpPrefixer.Proofs.HandFiles
import PhpPrefixer.Proofs.MovedOnce
import PhpPrefixer.Proofs.Quotes

/-!
# Literals are written to be read

A value that is written in the style of a literal is read back as that value, in the same quotes and
after the same letter: `FileSetting.literals_read_back`.

Not every text can be written in every style. In single quotes without doubled backslashes, a backslash
in front of another one or of a quote would be read as an escape. What was read from such a literal has
no such pair of characters, and a prefix brings none with it.
-/

namespace PhpPrefixer

namespace Text

/-- In a text that is not cut at a mark of two characters, the first never stands in front of the
second. -/
theorem isChain_of_cut?_eq_none {a b : Char} {t : Text} (h : cut? [a, b] t = none) :
    t.IsChain fun c d => c = a → d ≠ b := by
  induction t with
  | nil => exact .nil
  | cons c cs ih =>
    simp only [cut?] at h
    split at h
    · cases h
    · next hpair =>
      refine List.isChain_cons.mpr ⟨fun d hd hc hdb => hpair ?_, ih (Option.map_eq_none_iff.mp h)⟩
      obtain ⟨ds, rfl⟩ := List.head?_eq_some_iff.mp hd
      simp [List.isPrefixOf, hc, hdb]

/-- What is cut at a mark is what stands before it and after it. -/
theorem eq_of_cut? {mark t before after : Text} (h : cut? mark t = some (before, after)) :
    t = before ++ mark ++ after := by
  induction t generalizing before with
  | nil =>
    simp only [cut?] at h
    split at h
    · next hmark =>
      cases h
      simp [hmark]
    · cases h
  | cons c cs ih =>
    simp only [cut?] at h
    split at h
    · next hmark =>
      cases h
      obtain ⟨rest, hrest⟩ := List.isPrefixOf_iff_prefix.mp hmark
      rw [← hrest, List.drop_left, List.nil_append]
    · obtain ⟨⟨front, back⟩, hcut, hparts⟩ := Option.map_eq_some_iff.mp h
      cases hparts
      rw [ih hcut]
      rfl

/-- A text is escaped one character after another. -/
theorem escape_cons (p : Char → Bool) (inserted c : Char) (t : Text) :
    escape p inserted (c :: t) = (if p c then [inserted, c] else [c]) ++ escape p inserted t :=
  List.flatMap_cons

end Text

namespace Literal

/-- No backslash stands in front of a character that may be escaped in single quotes. -/
def IsUndoubled (t : Text) : Prop := t.IsChain fun c d => c = '\\' → isEscapable '\'' d = false

/-- In single quotes only backslashes and quotes may be escaped. -/
theorem isEscapable_single (c : Char) : isEscapable '\'' c = false ↔ c ≠ '\\' ∧ c ≠ '\'' := by
  simp [isEscapable]

/-- What is no backslash is read as it is. -/
theorem unescape_cons {quote c : Char} (hc : c ≠ '\\') (t : Text) :
    unescape quote (c :: t) = (unescape quote t).map (c :: ·) := by
  cases t with
  | nil => rfl
  | cons d ds => simp [unescape, hc]

/-- A backslash in single quotes is read as it is in front of a character that may not be escaped. -/
theorem unescape_single {t : Text} (h : ∀ d ∈ t.head?, isEscapable '\'' d = false) :
    unescape '\'' ('\\' :: t) = (unescape '\'' t).map ('\\' :: ·) := by
  cases t with
  | nil => rfl
  | cons d ds => simp [unescape, h d rfl]

/-- A text is read back if what is escaped may be escaped, and backslashes are, or need not be. -/
theorem unescape_escape {quote : Char} {p : Char → Bool} {t : Text}
    (hp : ∀ c, p c = true → isEscapable quote c = true)
    (ht : p '\\' = false → quote = '\'' ∧ IsUndoubled t) :
    unescape quote (Text.escape p '\\' t) = some t := by
  induction t with
  | nil => rfl
  | cons c cs ih =>
    have hrest : unescape quote (Text.escape p '\\' cs) = some cs :=
      ih fun hbackslash => ⟨(ht hbackslash).1, (ht hbackslash).2.tail⟩
    rw [Text.escape_cons]
    by_cases hc : p c = true
    · rw [if_pos hc]
      simp [unescape, hp c hc, hrest]
    · rw [if_neg hc, List.singleton_append]
      by_cases hbackslash : c = '\\'
      · subst hbackslash
        obtain ⟨rfl, hundoubled⟩ := ht (Bool.eq_false_iff.mpr hc)
        have hnext := (List.isChain_cons.mp hundoubled).1
        have hwritten : ∀ d ∈ (Text.escape p '\\' cs).head?, isEscapable '\'' d = false := by
          intro d hd
          cases cs with
          | nil => cases hd
          | cons e es =>
            have hlone : isEscapable '\'' e = false := hnext e rfl rfl
            have he : ¬ p e = true := fun he => Bool.false_ne_true (hlone.symm.trans (hp e he))
            rw [Text.escape_cons, if_neg he] at hd
            cases hd
            exact hlone
        rw [unescape_single hwritten, hrest, Option.map_some]
      · rw [unescape_cons hbackslash, hrest, Option.map_some]

/-- What stands between single quotes without a doubled backslash is read to a value that can be written
so. -/
theorem isUndoubled_of_unescape {body value : Text}
    (hbody : body.IsChain fun c d => c = '\\' → d ≠ '\\') (h : unescape '\'' body = some value) :
    IsUndoubled value := by
  fun_induction unescape '\'' body generalizing value with
  | case1 =>
    cases h
    exact .nil
  | case2 c =>
    cases h
    exact .singleton c
  | case3 c d rest hescaped ih =>
    obtain ⟨u, hu, rfl⟩ := Option.map_eq_some_iff.mp h
    simp only [Bool.and_eq_true, decide_eq_true_eq] at hescaped
    obtain ⟨hpair, hrest⟩ := List.isChain_cons_cons.mp hbody
    have hd : d ≠ '\\' := hpair hescaped.1
    exact List.isChain_cons.mpr ⟨fun _ _ hbackslash => absurd hbackslash hd, ih hrest.tail hu⟩
  | case4 c d rest hescaped hinterpreted => cases h
  | case5 c d rest hescaped hinterpreted ih =>
    obtain ⟨u, hu, rfl⟩ := Option.map_eq_some_iff.mp h
    refine List.isChain_cons.mpr ⟨fun e he hc => ?_, ih hbody.tail hu⟩
    have hlone : isEscapable '\'' d = false := by simpa [hc] using hescaped
    rw [unescape_cons ((isEscapable_single d).mp hlone).1] at hu
    obtain ⟨v, -, rfl⟩ := Option.map_eq_some_iff.mp hu
    cases he
    exact hlone

/-- A value can be written in the style of a literal. -/
def Spells (l : Literal) (value : Text) : Prop := l.escapes '\\' = false → IsUndoubled value

/-- Backslashes are written as they are only between single quotes without a doubled one. -/
theorem escapes_backslash_eq_false_iff (l : Literal) :
    l.escapes '\\' = false ↔ l.quote = '\'' ∧ l.doubled = false := by
  by_cases h : l.quote = '\'' <;> simp [escapes, h]

/-- The characters that are escaped in the style of a literal may be escaped in its quotes. -/
theorem isEscapable_of_escapes {l : Literal} (hquote : Prefixer.isQuote l.quote = true) {c : Char}
    (h : l.escapes c = true) : isEscapable l.quote c = true := by
  simp only [Prefixer.isQuote, Bool.or_eq_true, decide_eq_true_eq] at hquote
  obtain hquote | hquote := hquote
  · simp only [escapes, hquote, ↓reduceIte, Bool.or_eq_true, Bool.and_eq_true, decide_eq_true_eq] at h
    obtain rfl | ⟨-, rfl⟩ := h <;> simp [isEscapable, hquote]
  · simpa [escapes, isEscapable, hquote] using h

/-- The value of a literal can be written in its style. -/
theorem spells_value {text : Text} {l : Literal} (h : ofText? text = some l) : l.Spells l.value := by
  intro hescapes
  obtain ⟨-, -, body, -, hvalue, hdoubled⟩ := exists_of_ofText? h
  obtain ⟨hquote, hsingle⟩ := l.escapes_backslash_eq_false_iff.mp hescapes
  rw [hquote] at hvalue
  have hcut : Text.cut? ['\\', '\\'] body = none := by simpa [hsingle] using hdoubled
  exact isUndoubled_of_unescape (Text.isChain_of_cut?_eq_none hcut) hvalue

/-- The type of a literal without interpolation, and the types of what it is made of. -/
def IsPlain (type : String) (content : List String) : Prop :=
  (type = "string" ∨ type = "encapsed_string") ∧ ∀ part ∈ content, part ∈ contentTypes

/-- A literal is read from a plain text that has the form of one. -/
theorem read?_eq_some_iff {type : String} {content : List String} {text : Text} {l : Literal} :
    read? type content text = some l ↔ IsPlain type content ∧ ofText? text = some l := by
  simp [read?, IsPlain]

/-- As a literal without interpolation a text is read to a value, with its quote and the letter in
front of it. -/
def ReadsAs (text value : Text) (quote : Char) (mark : Text) : Prop :=
  ∀ type content, IsPlain type content → ∃ l, read? type content text = some l
    ∧ l.value = value ∧ l.quote = quote ∧ l.binaryMark = mark

/-- Behind a letter and between two quotes stands what is read. -/
theorem readsAs_of_unescape {mark body value : Text} {quote : Char} (hmark : mark ∈ marks)
    (hquote : Prefixer.isQuote quote = true) (h : unescape quote body = some value) :
    ReadsAs (mark ++ quote :: body ++ [quote]) value quote mark := by
  intro type content hplain
  have hsplit : splitMark (mark ++ quote :: body ++ [quote]) = (mark, quote :: body ++ [quote]) := by
    simp only [marks, List.mem_cons, List.not_mem_nil, or_false] at hmark
    simp only [Prefixer.isQuote, Bool.or_eq_true, decide_eq_true_eq] at hquote
    obtain rfl | rfl | rfl := hmark
    · obtain rfl | rfl := hquote <;> rfl
    · rfl
    · rfl
  have hunquoted : unquoted? (quote :: body ++ [quote]) = some (quote, body) := by
    simp only [Prefixer.isQuote] at hquote
    simp [unquoted?, hquote]
  have hread : ofText? (mark ++ quote :: body ++ [quote])
      = some ⟨value, quote, mark, (Text.cut? ['\\', '\\'] body).isSome⟩ := by
    simp only [ofText?, hsplit, hunquoted, h, Option.bind_eq_bind, Option.bind_some]
    rfl
  exact ⟨_, read?_eq_some_iff.mpr ⟨hplain, hread⟩, rfl, rfl, rfl⟩

/-- What can be written in the style of a literal is read back. -/
theorem readsAs_encode {text value : Text} {l : Literal} (h : ofText? text = some l)
    (hvalue : l.Spells value) : ReadsAs (l.encode value) value l.quote l.binaryMark := by
  obtain ⟨hmark, hquote, -⟩ := exists_of_ofText? h
  refine readsAs_of_unescape hmark hquote (unescape_escape (fun c => isEscapable_of_escapes hquote) ?_)
  exact fun hescapes => ⟨(l.escapes_backslash_eq_false_iff.mp hescapes).1, hvalue hescapes⟩

/-- Any text is read back from single quotes with every backslash doubled. -/
theorem readsAs_singleQuoted (value : Text) : ReadsAs (singleQuoted value) value '\'' [] := by
  have hbody : unescape '\'' (Text.escape (fun c => c = '\\' || c = '\'') '\\' value) = some value :=
    unescape_escape (fun c hc => by simpa [isEscapable] using hc) (fun h => absurd h (by decide))
  have hmark : [] ∈ marks := by simp [marks]
  exact readsAs_of_unescape hmark rfl hbody

/-- A prefix has no doubled backslash and no quote. -/
theorem isUndoubled_of_validate {root : Text} (h : Prefix.validate (some root) = .ok root) :
    IsUndoubled root := by
  have hquote : '\'' ∉ root := Name.not_mem_of_validate (by decide) (by decide) (by decide) h
  have hsingle : Text.cut? ['\\', '\\'] root = none := by
    simpa [Prefix.hasDoubled, Name.separator] using (Name.wordy_of_validate h).2
  have hpairs := Text.isChain_of_cut?_eq_none hsingle
  refine List.IsChain.imp_of_mem_imp ?_ hpairs
  intro c d hc hd hpair hbackslash
  exact (isEscapable_single d).mpr ⟨hpair hbackslash, fun hdq => hquote (hdq ▸ hd)⟩

/-- A text without separators around it and without quotes can stand behind a backslash. -/
theorem isUndoubled_separator_cons {t : Text} (htrimmed : Name.IsTrimmed t) (hquote : '\'' ∉ t)
    (ht : IsUndoubled t) : IsUndoubled (Name.separator :: t) := by
  refine List.isChain_cons.mpr ⟨fun d hd _ => (isEscapable_single d).mpr ⟨?_, ?_⟩, ht⟩
  · rintro rfl
    exact htrimmed.1 hd
  · rintro rfl
    exact hquote (List.mem_of_mem_head? hd)

/-- A name moved under a prefix can be written without doubled backslashes, if the name can. -/
theorem isUndoubled_relocate {root name : Text} (hroot : Prefix.validate (some root) = .ok root)
    (hname : Name.IsTrimmed name) (hquote : '\'' ∉ name) (h : IsUndoubled name) :
    IsUndoubled (Name.relocate root name) := by
  have hrootOf := Name.isRoot_of_validate hroot
  rw [Name.relocate_eq_beside hrootOf, Name.trimmed_of_isTrimmed hname]
  unfold Name.beside
  split
  · exact h
  split
  · exact isUndoubled_of_validate hroot
  · refine List.isChain_append.mpr ⟨isUndoubled_of_validate hroot,
      isUndoubled_separator_cons hname hquote h, ?_⟩
    rintro c hc d - rfl
    exact absurd hc hrootOf.isTrimmed.2

end Literal

namespace Relocation

open Literal

variable {r : Relocation} {kind : SymbolKind} {value : Text} {m : Mention}

/-- A mention in an undoubled text is spelled undoubled under the prefix. -/
theorem isUndoubled_of_mentionOf? (hroot : Prefix.validate (some r.root) = .ok r.root)
    (hvalue : IsUndoubled value) (h : r.mentionOf? kind value = some m) : IsUndoubled m.spelled := by
  obtain ⟨hname, hspelled⟩ := spelled_cases h
  have htrimmed := Name.isTrimmed_of_isSymbolName hname
  have hbare : IsUndoubled (Name.bare value) := hvalue.suffix (Name.bare_suffix value)
  have hquote : '\'' ∉ Name.bare value := fun hmem =>
    Name.not_mem_of_isSymbolName (by decide) (by decide) (by decide) hname
      ((Name.bare_suffix value).mem hmem)
  have hmoved : IsUndoubled (r.relocate (Name.bare value)) :=
    isUndoubled_relocate hroot htrimmed hquote hbare
  obtain hspelled | hspelled := hspelled
  · rwa [hspelled]
  · rw [hspelled]
    refine isUndoubled_separator_cons (Name.isTrimmed_relocate _ _) ?_ hmoved
    exact not_mem_relocate_bare hroot hname (by decide) (by decide) (by decide) (by decide)

/-- A string with a moved name can be written without doubled backslashes, if it could before. -/
theorem isUndoubled_of_mention? (hroot : Prefix.validate (some r.root) = .ok r.root)
    (hvalue : IsUndoubled value) (h : r.mention? kind value = some m) : IsUndoubled m.spelled := by
  unfold mention? at h
  split at h
  · next holder member hcut =>
    obtain ⟨ofHolder, hholder, rfl⟩ := Option.map_eq_some_iff.mp h
    rw [Text.eq_of_cut? hcut, List.append_assoc] at hvalue
    obtain ⟨hfront, hback, -⟩ := List.isChain_append.mp hvalue
    have hspelled := isUndoubled_of_mentionOf? hroot hfront hholder
    dsimp only
    rw [List.append_assoc]
    refine List.isChain_append.mpr ⟨hspelled, hback, ?_⟩
    intro c hc d hd hbackslash
    cases hd
    rfl
  · exact isUndoubled_of_mentionOf? hroot hvalue h

end Relocation

namespace FileSetting

variable {w : FileSetting}

/-- What is put in place of the value of a literal can be written in its style. -/
theorem spells_prefixMention (hroot : Prefix.validate (some w.relocation.root) = .ok w.relocation.root)
    {text : Text} {l : Literal} (hl : Literal.ofText? text = some l) {kind : SymbolKind}
    {spelled : Text} {s s' : FileState}
    (hrun : ((w.prefixMention kind l.value).run s).outcome = .ok (some spelled, s')) :
    l.Spells spelled := by
  intro hescapes
  obtain ⟨m, hmention, rfl⟩ := exists_mention?_of_run hrun
  exact Relocation.isUndoubled_of_mention? hroot (Literal.spells_value hl hescapes) hmention

/-- Every literal that is read, whatever its quotes, the letter in front of it and its backslashes, and
every setting with a valid prefix. The value of the literal, and what a name in it is replaced with, are
read back from how they are written in the style of the literal, in the same quotes and behind the same
letter. Any code is read back from how it is written in place of embedded code. -/
theorem literals_read_back
    (hroot : Prefix.validate (some w.relocation.root) = .ok w.relocation.root) :
    (∀ type content text l, Literal.read? type content text = some l →
      Literal.ReadsAs (l.encode l.value) l.value l.quote l.binaryMark
        ∧ ∀ kind s spelled s',
          ((w.prefixMention kind l.value).run s).outcome = .ok (some spelled, s') →
            Literal.ReadsAs (l.encode spelled) spelled l.quote l.binaryMark)
      ∧ ∀ code, Literal.ReadsAs (Literal.singleQuoted code) code '\'' [] := by
  refine ⟨fun type content text l hread => ?_, Literal.readsAs_singleQuoted⟩
  obtain ⟨-, hl⟩ := Literal.read?_eq_some_iff.mp hread
  refine ⟨Literal.readsAs_encode hl (Literal.spells_value hl), fun kind s spelled s' hrun => ?_⟩
  exact Literal.readsAs_encode hl (spells_prefixMention hroot hl hrun)

/-- A literal with lone backslashes, of a class and a member with a quote in its name. -/
theorem literals_read_back_undoubled :
    let l : Literal := ⟨"\\Acme\\Foo::it's".toList, '\'', ['b'], false⟩
    let spelled := "\\Humbug\\Acme\\Foo::it's".toList
    Literal.read? "string" ["string_content", "escape_sequence"] "b'\\Acme\\Foo::it\\'s'".toList = some l
      ∧ l.encode spelled = "b'\\Humbug\\Acme\\Foo::it\\'s'".toList
      ∧ Literal.ReadsAs (l.encode spelled) spelled '\'' ['b'] := by
  intro l spelled
  let w := HandFile.beforeRun.setting
  have hroot : Prefix.validate (some w.relocation.root) = .ok w.relocation.root := rfl
  have hread : Literal.read? "string" ["string_content", "escape_sequence"]
      "b'\\Acme\\Foo::it\\'s'".toList = some l := by decide +kernel
  have hdecided : (((w.prefixMention .classLike l.value).run .start).outcome.toOption.map
      fun result => result.1) = some (some spelled) := by decide +kernel
  obtain ⟨_, s', hrun, rfl⟩ := PrefixingM.exists_of_run hdecided
  exact ⟨hread, by decide +kernel, ((literals_read_back hroot).1 _ _ _ l hread).2 _ _ _ s' hrun⟩

end FileSetting

end PhpPrefixer
