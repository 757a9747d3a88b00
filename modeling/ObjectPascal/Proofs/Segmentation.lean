import Mathlib.Data.List.Basic
import Mathlib.Data.List.Infix
import ObjectPascal.Token.Scan

/-!
What a text with tokens looks like: words and signs of the language, each as long as it can be, with
nothing but blanks and complete comments around them. Scanning finds them in every such text, and
in no other.
-/

namespace ObjectPascal

/-! Places. -/

namespace Position

/-- Behind a stretch of text: lines are counted by their line feeds, columns from the last one. -/
def after (cs : List Char) : Position :=
  ⟨1 + cs.count '\n', 1 + (cs.reverse.takeWhile (· ≠ '\n')).length⟩

theorem advanceAll_append (p : Position) (cs ds : List Char) :
    p.advanceAll (cs ++ ds) = (p.advanceAll cs).advanceAll ds :=
  List.foldl_append

theorem after_concat (cs : List Char) (c : Char) : after (cs ++ [c]) = (after cs).advance c := by
  unfold after advance
  rw [List.reverse_append, List.count_append, List.reverse_singleton, List.singleton_append]
  by_cases hc : c = '\n'
  · subst hc
    rw [List.count_singleton_self, List.takeWhile_cons_of_neg (by simp), if_pos rfl]
    rfl
  · rw [List.count_singleton, List.takeWhile_cons_of_pos (by simpa using hc), if_neg hc,
      if_neg (by simpa using hc)]
    rfl

/-- Advancing character by character comes to the same place as counting. -/
theorem advanceAll_after (cs ds : List Char) : (after cs).advanceAll ds = after (cs ++ ds) := by
  induction ds generalizing cs with
  | nil => rw [List.append_nil]; rfl
  | cons d ds ih =>
    change ((after cs).advance d).advanceAll ds = _
    rw [← after_concat, ih, List.append_assoc]
    rfl

end Position

namespace TokenKind

/-- Kinds of tokens that are made of letters or digits. -/
def isWord (kind : TokenKind) : Bool :=
  kind = .number || kind = .ident || keywords.contains kind

end TokenKind

namespace Scan

/-! Words and signs. -/

/-- A text that is a token of a kind. -/
inductive Spells : List Char → TokenKind → Prop
  | assign : Spells [':', '='] .assign
  | colon : Spells [':'] .colon
  | symbol {c : Char} {kind : TokenKind} (h : TokenKind.ofSymbol? c = some kind) : Spells [c] kind
  | number {c : Char} {cs : List Char} (hc : Text.isDigit c) (h : ∀ d ∈ cs, Text.isDigit d) :
      Spells (c :: cs) .number
  | keyword {c : Char} {cs : List Char} {kind : TokenKind} (hc : isWordStart c)
      (h : ∀ d ∈ cs, isWordPart d) (hk : kind ∈ TokenKind.keywords)
      (hu : (c :: cs).map Char.toUpper = kind.name.toList) : Spells (c :: cs) kind
  | ident {c : Char} {cs : List Char} (hc : isWordStart c) (h : ∀ d ∈ cs, isWordPart d)
      (hu : ∀ kind ∈ TokenKind.keywords, (c :: cs).map Char.toUpper ≠ kind.name.toList) :
      Spells (c :: cs) .ident

/-- What may come right behind a token: a word is not cut short, and a sign is not the beginning of
a longer piece. -/
def mayPrecede (kind : TokenKind) (c : Char) : Bool :=
  match kind with
  | .colon => c ≠ '='
  | .slash => c ≠ '/'
  | .lparen => c ≠ '*'
  | _ => !(kind.isWord && isWordPart c)

/-! Layout. -/

/-- `Layout gap rest`: blanks and complete comments, in front of `rest`. A comment in braces ends
with the first closing brace, one in parentheses and stars with the first star and parenthesis
behind its opening, and one behind slashes goes up to the next line feed or the end of the text. -/
inductive Layout : List Char → List Char → Prop
  | nil {rest : List Char} : Layout [] rest
  | blank {c : Char} {gap rest : List Char} (hc : isBlank c) (h : Layout gap rest) :
      Layout (c :: gap) rest
  | brace {body gap rest : List Char} (hb : '\x7d' ∉ body) (h : Layout gap rest) :
      Layout ('\x7b' :: body ++ '\x7d' :: gap) rest
  | star {body gap rest : List Char} (hb : ¬ ['*', ')'] <:+: body ++ ['*'])
      (h : Layout gap rest) : Layout ('(' :: '*' :: body ++ '*' :: ')' :: gap) rest
  | line {body gap rest : List Char} (hb : '\n' ∉ body)
      (he : (gap ++ rest).head?.all (· = '\n')) (h : Layout gap rest) :
      Layout ('/' :: '/' :: body ++ gap) rest

/-- `Segmented p cs ts`: a text that begins at `p` is cut into tokens with layout around them. -/
inductive Segmented : Position → List Char → List Token → Prop
  | done {p : Position} {gap : List Char} (h : Layout gap []) :
      Segmented p gap [⟨.eof, "", p.advanceAll gap⟩]
  | token {p : Position} {gap cs rest : List Char} {kind : TokenKind} {ts : List Token}
      (hg : Layout gap (cs ++ rest)) (hs : Spells cs kind) (hr : rest.head?.all (mayPrecede kind))
      (h : Segmented ((p.advanceAll gap).advanceAll cs) rest ts) :
      Segmented p (gap ++ (cs ++ rest)) (⟨kind, String.ofList cs, p.advanceAll gap⟩ :: ts)

/-! Characters. -/

section

variable {c : Char}

theorem isWordPart_of_isDigit (h : Text.isDigit c) : isWordPart c := by
  unfold isWordPart
  rw [h, Bool.or_true]

theorem isWordPart_of_isWordStart (h : isWordStart c) : isWordPart c := by
  unfold isWordPart
  rw [h, Bool.true_or]

theorem isDigit_of_isWordStart (h : isWordStart c) : Text.isDigit c = false := by
  simp only [isWordStart, Bool.or_eq_true, Bool.and_eq_true, decide_eq_true_eq, Char.le_def,
    UInt32.le_iff_toNat_le] at h
  have ha : ('a' : Char).val.toNat = 97 := rfl
  have hA : ('A' : Char).val.toNat = 65 := rfl
  have h9 : ('9' : Char).val.toNat = 57 := rfl
  have of_large (hc : 57 < c.val.toNat) : Text.isDigit c = false := by
    simp only [Text.isDigit, Bool.and_eq_false_iff, decide_eq_false_iff_not, Char.le_def,
      UInt32.le_iff_toNat_le]
    omega
  rcases h with (rfl | hlower) | hupper
  · decide
  · exact of_large (by omega)
  · exact of_large (by omega)

/-- A letter or digit begins no layout and no sign. -/
theorem ne_of_isWordPart (h : isWordPart c) {d : Char} (hd : isWordPart d = false) : c ≠ d := by
  rintro rfl
  rw [hd] at h
  cases h

theorem isBlank_of_isWordPart (h : isWordPart c) : isBlank c = false := by
  have hspace : c ≠ ' ' := ne_of_isWordPart h (by decide)
  have htab : c ≠ '\t' := ne_of_isWordPart h (by decide)
  have hreturn : c ≠ '\r' := ne_of_isWordPart h (by decide)
  have hfeed : c ≠ '\n' := ne_of_isWordPart h (by decide)
  simp [isBlank, hspace, htab, hreturn, hfeed]

end

/-- Taking while something holds takes a stretch in which it holds throughout, up to where it does
not. -/
theorem takeWhile_append {p : Char → Bool} {cs rest : List Char} (h : ∀ c ∈ cs, p c)
    (hr : rest.head?.all fun c => !p c) :
    (cs ++ rest).takeWhile p = cs ∧ (cs ++ rest).dropWhile p = rest := by
  have hstop : rest.takeWhile p = [] ∧ rest.dropWhile p = rest := by
    cases rest with
    | nil => exact ⟨rfl, rfl⟩
    | cons c rest =>
      have hc : ¬ p c := by simpa using hr
      exact ⟨List.takeWhile_cons_of_neg hc, List.dropWhile_cons_of_neg hc⟩
  rw [List.takeWhile_append_of_pos h, List.dropWhile_append_of_pos h, hstop.1, hstop.2,
    List.append_nil]
  exact ⟨rfl, rfl⟩

/-- The first character that is not taken. -/
theorem head?_dropWhile (p : Char → Bool) (cs : List Char) :
    (cs.dropWhile p).head?.all fun c => !p c := by
  have h := List.head?_dropWhile_not p cs
  cases hd : (cs.dropWhile p).head? with
  | none => rfl
  | some c =>
    rw [hd] at h
    simpa using h

/-! Keywords. -/

theorem ofWord_of_keyword {cs : List Char} {kind : TokenKind} (hk : kind ∈ TokenKind.keywords)
    (hu : cs.map Char.toUpper = kind.name.toList) : TokenKind.ofWord cs = kind := by
  have hfound : ∀ kind ∈ TokenKind.keywords,
      (TokenKind.keywords.find? fun k => k.name.toList = kind.name.toList) = some kind := by
    decide
  unfold TokenKind.ofWord
  dsimp only
  rw [hu, hfound kind hk]
  rfl

theorem ofWord_of_ident {cs : List Char}
    (hu : ∀ kind ∈ TokenKind.keywords, cs.map Char.toUpper ≠ kind.name.toList) :
    TokenKind.ofWord cs = .ident := by
  have hnone : (TokenKind.keywords.find? fun k => k.name.toList = cs.map Char.toUpper) = none := by
    rw [List.find?_eq_none]
    intro kind hk
    simpa using (hu kind hk).symm
  unfold TokenKind.ofWord
  dsimp only
  rw [hnone]
  rfl

theorem spells_word {c : Char} {cs : List Char} (hc : isWordStart c) (h : ∀ d ∈ cs, isWordPart d) :
    Spells (c :: cs) (TokenKind.ofWord (c :: cs)) := by
  by_cases hk : ∃ kind ∈ TokenKind.keywords, (c :: cs).map Char.toUpper = kind.name.toList
  · obtain ⟨kind, hmem, hu⟩ := hk
    rw [ofWord_of_keyword hmem hu]
    exact .keyword hc h hmem hu
  · have hu : ∀ kind ∈ TokenKind.keywords, (c :: cs).map Char.toUpper ≠ kind.name.toList :=
      fun kind hmem hu => hk ⟨kind, hmem, hu⟩
    rw [ofWord_of_ident hu]
    exact .ident hc h hu

/-! Comments. -/

theorem throughBrace?_append {body : List Char} (hb : '\x7d' ∉ body) (rest : List Char) :
    throughBrace? (body ++ '\x7d' :: rest) = some (body ++ ['\x7d']) := by
  induction body with
  | nil => rfl
  | cons c body ih =>
    rw [List.mem_cons, not_or] at hb
    rw [List.cons_append, throughBrace?.eq_3 _ _ fun hc => hb.1 hc.symm, ih hb.2]
    rfl

theorem throughBrace?_eq_some {cs tail : List Char} (h : throughBrace? cs = some tail) :
    ∃ body rest, '\x7d' ∉ body ∧ tail = body ++ ['\x7d'] ∧ cs = body ++ '\x7d' :: rest := by
  induction cs generalizing tail with
  | nil => cases h
  | cons c cs ih =>
    by_cases hc : c = '\x7d'
    · subst hc
      cases h
      exact ⟨[], cs, List.not_mem_nil, rfl, rfl⟩
    · rw [throughBrace?.eq_3 _ _ hc] at h
      obtain ⟨tail', htail', rfl⟩ := Option.map_eq_some_iff.mp h
      obtain ⟨body, rest, hb, rfl, rfl⟩ := ih htail'
      refine ⟨c :: body, rest, ?_, rfl, rfl⟩
      rw [List.mem_cons, not_or]
      exact ⟨fun h => hc h.symm, hb⟩

theorem throughStarParen?_append {body : List Char} (hb : ¬ ['*', ')'] <:+: body ++ ['*'])
    (rest : List Char) :
    throughStarParen? (body ++ '*' :: ')' :: rest) = some (body ++ ['*', ')']) := by
  induction body with
  | nil => rfl
  | cons c body ih =>
    rw [List.cons_append, List.infix_cons_iff, not_or] at hb
    have hfirst : ∀ tail, c = '*' → body ++ '*' :: ')' :: rest = ')' :: tail → False := by
      rintro tail rfl htail
      cases body with
      | nil => cases htail
      | cons d body =>
        cases htail
        exact hb.1 ⟨body ++ ['*'], rfl⟩
    rw [List.cons_append, throughStarParen?.eq_3 _ _ hfirst, ih hb.2]
    rfl

theorem throughStarParen?_eq_some {cs tail : List Char} (h : throughStarParen? cs = some tail) :
    ∃ body rest, ¬ ['*', ')'] <:+: body ++ ['*'] ∧ tail = body ++ ['*', ')'] ∧
      cs = body ++ '*' :: ')' :: rest := by
  induction cs generalizing tail with
  | nil => cases h
  | cons c cs ih =>
    by_cases hc : ∃ rest, c = '*' ∧ cs = ')' :: rest
    · obtain ⟨rest, rfl, rfl⟩ := hc
      cases h
      exact ⟨[], rest, by decide, rfl, rfl⟩
    · rw [throughStarParen?.eq_3 _ _ fun rest hstar hparen => hc ⟨rest, hstar, hparen⟩] at h
      obtain ⟨tail', htail', rfl⟩ := Option.map_eq_some_iff.mp h
      obtain ⟨body, rest, hb, rfl, rfl⟩ := ih htail'
      refine ⟨c :: body, rest, ?_, rfl, rfl⟩
      rw [List.cons_append, List.infix_cons_iff, not_or]
      refine ⟨?_, hb⟩
      rintro ⟨more, hmore⟩
      -- the parenthesis would be the first of the rest, and so behind the star
      cases body with
      | nil => cases hmore
      | cons d body =>
        cases hmore
        exact hc ⟨_, rfl, rfl⟩

/-! What may follow. -/

theorem isWord_of_mem_keywords {kind : TokenKind} (h : kind ∈ TokenKind.keywords) :
    kind.isWord := by
  have hcontains : TokenKind.keywords.contains kind := List.contains_iff_mem.mpr h
  unfold TokenKind.isWord
  rw [hcontains, Bool.or_true]

theorem isWord_ofWord (cs : List Char) : (TokenKind.ofWord cs).isWord := by
  unfold TokenKind.ofWord
  dsimp only
  cases h : TokenKind.keywords.find? fun k => k.name.toList = cs.map Char.toUpper with
  | none => rfl
  | some kind => exact isWord_of_mem_keywords (List.mem_of_find?_eq_some h)

theorem mayPrecede_word {kind : TokenKind} (hk : kind.isWord) (c : Char) :
    mayPrecede kind c = !isWordPart c := by
  unfold mayPrecede
  split
  · cases hk
  · cases hk
  · cases hk
  · rw [hk, Bool.true_and]

/-- A sign of one character is not followed by what would make it the opening of a comment. -/
theorem mayPrecede_symbol {c : Char} {kind : TokenKind} (h : TokenKind.ofSymbol? c = some kind)
    (d : Char) : mayPrecede kind d ↔ ¬ (c = '(' ∧ d = '*') ∧ ¬ (c = '/' ∧ d = '/') := by
  unfold TokenKind.ofSymbol? at h
  split at h <;> cases h <;> simp [mayPrecede, TokenKind.isWord, TokenKind.keywords]

/-! Pieces. -/

/-- What a piece is in front of the text behind it: a token, or layout that makes one with what
layout there is behind it. -/
def IsPiece : Option TokenKind → List Char → List Char → Prop
  | none, piece, after =>
    ∀ gap rest, after = gap ++ rest → Layout gap rest → Layout (piece ++ gap) rest
  | some kind, piece, after => Spells piece kind ∧ after.head?.all (mayPrecede kind)

namespace IsPiece

variable {after : List Char}

theorem blanks {cs : List Char} (h : ∀ c ∈ cs, isBlank c) : IsPiece none cs after := by
  rintro gap rest - hgap
  induction cs with
  | nil => exact hgap
  | cons c cs ih =>
    obtain ⟨hc, hcs⟩ := List.forall_mem_cons.mp h
    exact .blank hc (ih hcs)

theorem brace {body : List Char} (hb : '\x7d' ∉ body) :
    IsPiece none ('\x7b' :: (body ++ ['\x7d'])) after := by
  rintro gap rest - hgap
  have hlayout := Layout.brace hb hgap
  simpa using hlayout

theorem star {body : List Char} (hb : ¬ ['*', ')'] <:+: body ++ ['*']) :
    IsPiece none ('(' :: '*' :: (body ++ ['*', ')'])) after := by
  rintro gap rest - hgap
  have hlayout := Layout.star hb hgap
  simpa using hlayout

theorem line {body : List Char} (hb : '\n' ∉ body) (he : after.head?.all (· = '\n')) :
    IsPiece none ('/' :: '/' :: body) after := by
  rintro gap rest rfl hgap
  exact .line hb he hgap

/-- What stands behind two slashes, up to the next line feed. -/
theorem slashes (inner : List Char) :
    IsPiece none ('/' :: ('/' :: inner).takeWhile (· ≠ '\n'))
      (('/' :: inner).dropWhile (· ≠ '\n')) := by
  have htake : ('/' :: inner).takeWhile (· ≠ '\n') = '/' :: inner.takeWhile (· ≠ '\n') :=
    List.takeWhile_cons_of_pos (by decide)
  have hdrop : ('/' :: inner).dropWhile (· ≠ '\n') = inner.dropWhile (· ≠ '\n') :=
    List.dropWhile_cons_of_pos (by decide)
  have hbody : '\n' ∉ inner.takeWhile (· ≠ '\n') := by
    intro hmem
    simpa using List.all_eq_true.mp List.all_takeWhile _ hmem
  have hend : (inner.dropWhile (· ≠ '\n')).head?.all (· = '\n') := by
    simpa using head?_dropWhile (· ≠ '\n') inner
  rw [htake, hdrop]
  exact .line hbody hend

/-- The colon and the equals sign of an assignment belong together. -/
theorem assign : IsPiece (some .assign) [':', '='] after := by
  refine ⟨.assign, ?_⟩
  rw [Option.all_eq_true]
  exact fun _ _ => rfl

theorem colon (h : after.head? ≠ some '=') : IsPiece (some .colon) [':'] after := by
  refine ⟨.colon, ?_⟩
  rw [Option.all_eq_true]
  intro d hd
  have hne : d ≠ '=' := by
    rintro rfl
    exact h hd
  exact decide_eq_true hne

/-- Digits as far as they go, if no letter comes right behind them. -/
theorem digits {c : Char} {rest : List Char} (hc : Text.isDigit c)
    (hstop : ¬ (rest.dropWhile Text.isDigit).head?.any isWordStart) :
    IsPiece (some .number) (c :: rest.takeWhile Text.isDigit) (rest.dropWhile Text.isDigit) := by
  refine ⟨.number hc (List.all_eq_true.mp List.all_takeWhile), ?_⟩
  have hdigits := head?_dropWhile Text.isDigit rest
  rw [Option.all_eq_true] at hdigits ⊢
  intro d hd
  have hdigit := hdigits d hd
  rw [hd, Option.any_some, Bool.not_eq_true] at hstop
  change (!isWordPart d) = true
  rw [isWordPart, hstop, Bool.false_or]
  exact hdigit

theorem word {c : Char} {cs : List Char} (hc : isWordStart c) (h : ∀ d ∈ cs, isWordPart d)
    (hr : after.head?.all fun d => !isWordPart d) :
    IsPiece (some (TokenKind.ofWord (c :: cs))) (c :: cs) after := by
  refine ⟨spells_word hc h, ?_⟩
  rw [funext (mayPrecede_word (isWord_ofWord (c :: cs)))]
  exact hr

theorem symbol {c : Char} {kind : TokenKind} (h : TokenKind.ofSymbol? c = some kind)
    (hstar : ¬ (c = '(' ∧ after.head? = some '*')) (hslash : ¬ (c = '/' ∧ after.head? = some '/')) :
    IsPiece (some kind) [c] after := by
  refine ⟨.symbol h, ?_⟩
  rw [Option.all_eq_true]
  intro d hd
  rw [hd, Option.some_inj] at hstar hslash
  exact (mayPrecede_symbol h d).mpr ⟨hstar, hslash⟩

end IsPiece

/-- What scanning cuts off first is a piece. -/
theorem firstPiece_sound {c : Char} {rest tail : List Char} {kind : Option TokenKind}
    (h : firstPiece c rest = .ok ⟨kind, tail⟩) :
    ∃ after, rest = tail ++ after ∧ IsPiece kind (c :: tail) after := by
  have taken (p : Char → Bool) : ∀ d ∈ rest.takeWhile p, p d :=
    fun d hd => List.all_eq_true.mp List.all_takeWhile d hd
  have whole (p : Char → Bool) : rest = rest.takeWhile p ++ rest.dropWhile p :=
    List.takeWhile_append_dropWhile.symm
  unfold firstPiece at h
  split at h
  · next hblank =>
    cases h
    exact ⟨_, whole isBlank, .blanks (List.forall_mem_cons.mpr ⟨hblank, taken isBlank⟩)⟩
  split at h
  · next hbrace =>
    subst hbrace
    split at h
    · next found hfound =>
      cases h
      obtain ⟨body, after, hb, rfl, rfl⟩ := throughBrace?_eq_some hfound
      exact ⟨after, by simp, .brace hb⟩
    · cases h
  split at h
  · next hopen =>
    obtain ⟨rfl, hhead⟩ := hopen
    obtain ⟨inner, rfl⟩ := List.head?_eq_some_iff.mp hhead
    split at h
    · next found hfound =>
      cases h
      obtain ⟨body, after, hb, rfl, hinner⟩ := throughStarParen?_eq_some hfound
      rw [List.tail_cons] at hinner
      subst hinner
      exact ⟨after, by simp, .star hb⟩
    · cases h
  split at h
  · next hopen =>
    obtain ⟨rfl, hhead⟩ := hopen
    obtain ⟨inner, rfl⟩ := List.head?_eq_some_iff.mp hhead
    cases h
    exact ⟨_, List.takeWhile_append_dropWhile.symm, .slashes inner⟩
  split at h
  · next hcolon =>
    subst hcolon
    split at h
    · next hhead =>
      obtain ⟨after, rfl⟩ := List.head?_eq_some_iff.mp hhead
      cases h
      exact ⟨after, rfl, .assign⟩
    · next hhead =>
      cases h
      exact ⟨rest, rfl, .colon hhead⟩
  split at h
  · next hdigit =>
    split at h
    · cases h
    · next hstop =>
      cases h
      exact ⟨_, whole Text.isDigit, .digits hdigit hstop⟩
  split at h
  · next hstart =>
    cases h
    exact ⟨_, whole isWordPart, .word hstart (taken isWordPart) (head?_dropWhile isWordPart rest)⟩
  split at h
  · next hstar hslash _ _ _ _ _ hsymbol =>
    cases h
    exact ⟨rest, rfl, .symbol hsymbol hstar hslash⟩
  · cases h

/-- A piece that is a token is what scanning cuts off first. -/
theorem firstPiece_complete {c : Char} {tail after : List Char} {kind : TokenKind}
    (h : IsPiece (some kind) (c :: tail) after) :
    firstPiece c (tail ++ after) = .ok ⟨some kind, tail⟩ := by
  obtain ⟨hs, hr⟩ := h
  -- a letter or digit begins neither layout nor a sign
  have plain (hc : isWordPart c) : isBlank c = false ∧ c ≠ '\x7b' ∧ c ≠ '(' ∧ c ≠ '/' ∧ c ≠ ':' :=
    ⟨isBlank_of_isWordPart hc, ne_of_isWordPart hc (by decide), ne_of_isWordPart hc (by decide),
      ne_of_isWordPart hc (by decide), ne_of_isWordPart hc (by decide)⟩
  have word (hc : isWordStart c) (ht : ∀ d ∈ tail, isWordPart d)
      (hk : TokenKind.ofWord (c :: tail) = kind) :
      firstPiece c (tail ++ after) = .ok ⟨some kind, tail⟩ := by
    obtain ⟨hblank, hbrace, hparen, hslash, hcolon⟩ := plain (isWordPart_of_isWordStart hc)
    rw [← hk, funext (mayPrecede_word (isWord_ofWord (c :: tail)))] at hr
    have htake := (takeWhile_append ht hr).1
    simp [firstPiece, hblank, hbrace, hparen, hslash, hcolon, isDigit_of_isWordStart hc, hc, htake,
      hk]
  cases hs with
  | assign => rfl
  | colon =>
    have hhead : after.head? ≠ some '=' := by
      intro hhead
      rw [hhead] at hr
      cases hr
    simp [firstPiece, hhead]
    decide
  | symbol hsymbol =>
    have hstar : ¬ (c = '(' ∧ after.head? = some '*') := by
      rintro ⟨rfl, hhead⟩
      rw [hhead] at hr
      cases hsymbol
      cases hr
    have hslash : ¬ (c = '/' ∧ after.head? = some '/') := by
      rintro ⟨rfl, hhead⟩
      rw [hhead] at hr
      cases hsymbol
      cases hr
    have hother : isBlank c = false ∧ c ≠ '\x7b' ∧ c ≠ ':' ∧ Text.isDigit c = false ∧
        isWordStart c = false := by
      unfold TokenKind.ofSymbol? at hsymbol
      split at hsymbol <;> first | cases hsymbol; done | decide
    obtain ⟨hblank, hbrace, hcolon, hdigit, hstart⟩ := hother
    simp [firstPiece, hblank, hbrace, hstar, hslash, hcolon, hdigit, hstart, hsymbol]
  | number hc ht =>
    obtain ⟨hblank, hbrace, hparen, hslash, hcolon⟩ := plain (isWordPart_of_isDigit hc)
    have hword : TokenKind.number.isWord := rfl
    rw [funext (mayPrecede_word hword)] at hr
    have hdigits : after.head?.all fun d => !Text.isDigit d := by
      rw [Option.all_eq_true] at hr ⊢
      intro d hd
      have hpart := hr d hd
      rw [isWordPart, Bool.not_or, Bool.and_eq_true] at hpart
      exact hpart.2
    have hstop : after.head?.any isWordStart = false := by
      cases hnext : after.head? with
      | none => rfl
      | some d =>
        rw [hnext, Option.all_some, isWordPart, Bool.not_or, Bool.and_eq_true] at hr
        exact (Bool.not_eq_true' _).mp hr.1
    obtain ⟨htake, hdrop⟩ := takeWhile_append ht hdigits
    simp [firstPiece, hblank, hbrace, hparen, hslash, hcolon, hc, htake, hdrop, hstop]
  | keyword hc ht hk hu => exact word hc ht (ofWord_of_keyword hk hu)
  | ident hc ht hu => exact word hc ht (ofWord_of_ident hu)

/-! Texts. -/

variable {p : Position} {gap piece after cs : List Char} {ts : List Token}

theorem tokensFrom_piece (p : Position) {c : Char} {tail after : List Char}
    {kind : Option TokenKind} (h : firstPiece c (tail ++ after) = .ok ⟨kind, tail⟩) :
    tokensFrom p (c :: tail ++ after) =
      (tokensFrom (p.advanceAll (c :: tail)) after).map fun tokens =>
        (kind.map fun kind => ⟨kind, String.ofList (c :: tail), p⟩).toList ++ tokens := by
  rw [List.cons_append, tokensFrom, h]
  dsimp only
  rw [List.drop_left]
  cases tokensFrom (p.advanceAll (c :: tail)) after with
  | error e => rfl
  | ok tokens => cases kind <;> rfl

theorem tokensFrom_skip (p : Position) {c : Char} {tail after : List Char}
    (h : firstPiece c (tail ++ after) = .ok ⟨none, tail⟩) :
    tokensFrom p (c :: tail ++ after) = tokensFrom (p.advanceAll (c :: tail)) after := by
  rw [tokensFrom_piece p h]
  exact congrFun Except.map_id _

/-- Layout in front of a text that is cut into tokens. -/
theorem Segmented.prepend (h : IsPiece none piece after)
    (hs : Segmented (p.advanceAll piece) after ts) : Segmented p (piece ++ after) ts := by
  cases hs with
  | done hgap =>
    rw [← Position.advanceAll_append]
    exact .done (h after [] (List.append_nil after).symm hgap)
  | @token _ gap cs rest kind ts hgap hs hr hrest =>
    have hplace : (p.advanceAll piece).advanceAll gap = p.advanceAll (piece ++ gap) :=
      (Position.advanceAll_append p piece gap).symm
    rw [hplace] at hrest ⊢
    rw [← List.append_assoc]
    exact .token (h gap (cs ++ rest) rfl hgap) hs hr hrest

/-- What scanning finds is there: by induction on the length of the text, piece by piece. -/
theorem tokensFrom_sound (h : tokensFrom p cs = .ok ts) : Segmented p cs ts := by
  induction hn : cs.length using Nat.strongRecOn generalizing p cs ts with
  | ind n ih =>
    cases cs with
    | nil =>
      rw [tokensFrom] at h
      cases h
      exact .done .nil
    | cons c rest =>
      rcases hpiece : firstPiece c rest with problem | ⟨kind, tail⟩
      · rw [tokensFrom, hpiece] at h
        cases h
      · obtain ⟨after, rfl, hp⟩ := firstPiece_sound hpiece
        change tokensFrom p (c :: tail ++ after) = .ok ts at h
        rw [tokensFrom_piece p hpiece] at h
        cases hrest : tokensFrom (p.advanceAll (c :: tail)) after with
        | error e =>
          rw [hrest] at h
          cases h
        | ok tokens =>
          rw [hrest] at h
          cases h
          have hshort : after.length < n := by
            rw [← hn, List.length_cons, List.length_append]
            omega
          have hafter := ih after.length hshort hrest rfl
          cases kind with
          | none => exact hafter.prepend hp
          | some kind =>
            have htoken := Segmented.token .nil hp.1 hp.2 hafter
            exact htoken

/-- Blanks can be left out one by one. -/
theorem tokensFrom_blank (p : Position) {c : Char} (hc : isBlank c) (cs : List Char) :
    tokensFrom p (c :: cs) = tokensFrom (p.advance c) cs := by
  have run {d : Char} (hd : isBlank d) (ds : List Char) (q : Position) :
      tokensFrom q (d :: ds) =
        tokensFrom ((q.advance d).advanceAll (ds.takeWhile isBlank)) (ds.dropWhile isBlank) := by
    have hpiece : firstPiece d (ds.takeWhile isBlank ++ ds.dropWhile isBlank) =
        .ok ⟨none, ds.takeWhile isBlank⟩ := by
      rw [List.takeWhile_append_dropWhile, firstPiece, if_pos hd]
    have hskip := tokensFrom_skip q hpiece
    rwa [List.cons_append, List.takeWhile_append_dropWhile] at hskip
  rw [run hc]
  cases cs with
  | nil => rfl
  | cons d ds =>
    by_cases hd : isBlank d
    · rw [List.takeWhile_cons_of_pos hd, List.dropWhile_cons_of_pos hd, run hd]
      rfl
    · rw [List.takeWhile_cons_of_neg hd, List.dropWhile_cons_of_neg hd]
      rfl

/-- Layout leaves no trace but in places. -/
theorem tokensFrom_layout (p : Position) (h : Layout gap after) :
    tokensFrom p (gap ++ after) = tokensFrom (p.advanceAll gap) after := by
  induction h generalizing p with
  | nil => rfl
  | @blank c gap rest hc _ ih => exact (tokensFrom_blank p hc (gap ++ rest)).trans (ih _)
  | @brace body gap rest hb _ ih =>
    have hpiece : firstPiece '\x7b' ((body ++ ['\x7d']) ++ (gap ++ rest)) =
        .ok ⟨none, body ++ ['\x7d']⟩ := by
      have hfound := throughBrace?_append hb (gap ++ rest)
      rw [List.append_assoc, List.singleton_append, firstPiece, if_neg (by decide), if_pos rfl,
        hfound]
    have htext : '\x7b' :: body ++ '\x7d' :: gap = '\x7b' :: (body ++ ['\x7d']) ++ gap := by simp
    rw [htext, List.append_assoc, tokensFrom_skip p hpiece, ih, Position.advanceAll_append]
  | @star body gap rest hb _ ih =>
    have hpiece : firstPiece '(' (('*' :: (body ++ ['*', ')'])) ++ (gap ++ rest)) =
        .ok ⟨none, '*' :: (body ++ ['*', ')'])⟩ := by
      have hfound := throughStarParen?_append hb (gap ++ rest)
      rw [List.cons_append, List.append_assoc, firstPiece, if_neg (by decide), if_neg (by decide),
        if_pos ⟨rfl, rfl⟩, List.tail_cons, List.cons_append, List.cons_append, List.nil_append,
        hfound]
    have htext : '(' :: '*' :: body ++ '*' :: ')' :: gap =
        '(' :: '*' :: (body ++ ['*', ')']) ++ gap := by simp
    rw [htext, List.append_assoc, tokensFrom_skip p hpiece, ih, Position.advanceAll_append]
  | @line body gap rest hb he _ ih =>
    have hpiece : firstPiece '/' (('/' :: body) ++ (gap ++ rest)) = .ok ⟨none, '/' :: body⟩ := by
      have hbody : ∀ d ∈ '/' :: body, decide (d ≠ '\n') := by
        rw [List.forall_mem_cons]
        refine ⟨by decide, fun d hd => ?_⟩
        rw [decide_eq_true_eq]
        rintro rfl
        exact hb hd
      have hend : (gap ++ rest).head?.all fun d => !decide (d ≠ '\n') := by simpa using he
      have htake := (takeWhile_append hbody hend).1
      have hparen : ¬ ('/' = '(' ∧ ('/' :: body ++ (gap ++ rest)).head? = some '*') :=
        fun h => absurd h.1 (by decide)
      rw [firstPiece, if_neg (by decide), if_neg (by decide), if_neg hparen, if_pos ⟨rfl, rfl⟩,
        htake]
    have htext : '/' :: '/' :: body ++ gap = '/' :: ('/' :: body) ++ gap := rfl
    rw [htext, List.append_assoc, tokensFrom_skip p hpiece, ih, Position.advanceAll_append]

/-- What is there, scanning finds. -/
theorem tokensFrom_complete (h : Segmented p cs ts) : tokensFrom p cs = .ok ts := by
  induction h with
  | @done p gap hgap =>
    have hlayout := tokensFrom_layout p hgap
    rw [List.append_nil] at hlayout
    rw [hlayout, tokensFrom]
  | @token p gap cs rest kind ts hgap hs hr _ ih =>
    rw [tokensFrom_layout p hgap]
    cases cs with
    | nil => cases hs
    | cons c tail =>
      have hpiece := firstPiece_complete ⟨hs, hr⟩
      rw [tokensFrom_piece _ hpiece, ih]
      rfl

theorem tokensFrom_iff : tokensFrom p cs = .ok ts ↔ Segmented p cs ts :=
  ⟨tokensFrom_sound, tokensFrom_complete⟩

end Scan

/-- A token that is written as its kind says; the end marker is not written. -/
def Token.Spelt (t : Token) : Prop :=
  t.kind ≠ .eof → Scan.Spells t.text.toList t.kind

/-- Whatever scanning finds is written as it should be. -/
theorem Scan.Segmented.spelt {p : Position} {cs : List Char} {ts : List Token}
    (h : Segmented p cs ts) : ∀ t ∈ ts, t.Spelt := by
  induction h with
  | done =>
    intro t ht hkind
    rw [List.mem_singleton.mp ht] at hkind
    exact absurd rfl hkind
  | token _ hs _ _ ih =>
    refine List.forall_mem_cons.mpr ⟨fun _ => ?_, ih⟩
    rw [String.toList_ofList]
    exact hs

theorem spelt_of_scan {text : String} {ts : List Token} (h : scan text = .ok ts) :
    ∀ t ∈ ts, t.Spelt :=
  (Scan.tokensFrom_sound h).spelt

namespace Scan.Spells

variable {cs : List Char}

theorem isNumeral (h : Spells cs .number) : Text.isNumeral cs := by
  cases h with
  | @symbol c _ hsymbol =>
    unfold TokenKind.ofSymbol? at hsymbol
    split at hsymbol <;> cases hsymbol
  | number hc hcs => simpa [Text.isNumeral, hc] using hcs
  | keyword _ _ hk => exact absurd hk (by decide)

/-- A sign of one character, other than the colon, is that character. -/
theorem ofSymbol? {kind : TokenKind} (h : Spells cs kind) (hw : kind.isWord = false)
    (hcolon : kind ≠ .colon) (hassign : kind ≠ .assign) :
    ∃ c, cs = [c] ∧ TokenKind.ofSymbol? c = some kind := by
  cases h with
  | assign => exact absurd rfl hassign
  | colon => exact absurd rfl hcolon
  | @symbol c _ hsymbol => exact ⟨c, rfl, hsymbol⟩
  | number => cases hw
  | keyword _ _ hk =>
    simp only [TokenKind.isWord, Bool.or_eq_false_iff, List.contains_eq_mem,
      decide_eq_false_iff_not] at hw
    exact absurd hk hw.2
  | ident => cases hw

end Scan.Spells

end ObjectPascal
