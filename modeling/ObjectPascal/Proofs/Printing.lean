import ObjectPascal.Proofs.Segmentation

/-!
Tokens written out with layout between them. Scanning what was written gives the same tokens back,
whatever the layout is.
-/

namespace ObjectPascal

open Scan

/-- What a token says, without its place. -/
def Token.word (t : Token) : TokenKind × String :=
  (t.kind, t.text)

namespace Scan

/-- A token as it is written. -/
structure Lexeme where
  kind : TokenKind
  chars : List Char
  spells : Spells chars kind

def Lexeme.word (x : Lexeme) : TokenKind × String :=
  (x.kind, String.ofList x.chars)

/-- A blank, or a complete comment in braces, in parentheses and stars, or behind slashes with the
line feed that ends it. -/
inductive Filler where
  | blank (c : Char) (h : isBlank c)
  | braces (body : List Char) (h : '\x7d' ∉ body)
  | stars (body : List Char) (h : ¬ ['*', ')'] <:+: body ++ ['*'])
  | slashes (body : List Char) (h : '\n' ∉ body)

def Filler.text : Filler → List Char
  | blank c _ => [c]
  | braces body _ => '\x7b' :: body ++ ['\x7d']
  | stars body _ => '(' :: '*' :: body ++ ['*', ')']
  | slashes body _ => '/' :: '/' :: body ++ ['\n']

/-- What stands behind a token: a blank, and anything else that is layout. -/
structure Separator where
  first : Char
  blank : isBlank first
  more : List Filler

def Separator.fillers (s : Separator) : List Filler :=
  .blank s.first s.blank :: s.more

/-- The text of some layout, and of tokens with a separator behind each. -/
def printed (lead : List Filler) : List (Lexeme × Separator) → List Char
  | [] => lead.flatMap Filler.text
  | (x, s) :: items => lead.flatMap Filler.text ++ (x.chars ++ printed s.fillers items)

theorem Filler.layout (f : Filler) {gap rest : List Char} (h : Layout gap rest) :
    Layout (f.text ++ gap) rest := by
  cases f with
  | blank c hc => exact .blank hc h
  | braces body hb =>
    have hlayout := Layout.brace hb h
    simpa [text] using hlayout
  | stars body hb =>
    have hlayout := Layout.star hb h
    simpa [text] using hlayout
  | slashes body hb =>
    have hfeed : Layout ('\n' :: gap) rest := .blank (by decide) h
    have hlayout := Layout.line hb rfl hfeed
    simpa [text] using hlayout

theorem layout_fillers (fs : List Filler) (rest : List Char) :
    Layout (fs.flatMap Filler.text) rest := by
  induction fs with
  | nil => exact .nil
  | cons f fs ih =>
    rw [List.flatMap_cons]
    exact f.layout ih

/-- A blank can stand behind every token. -/
theorem mayPrecede_blank (kind : TokenKind) {c : Char} (hc : isBlank c) : mayPrecede kind c := by
  have hpart : isWordPart c = false := by
    cases h : isWordPart c with
    | false => rfl
    | true =>
      rw [isBlank_of_isWordPart h] at hc
      cases hc
  have hne {d : Char} (hd : isBlank d = false) : c ≠ d := by
    rintro rfl
    rw [hc] at hd
    cases hd
  have hequals : c ≠ '=' := hne (by decide)
  have hslash : c ≠ '/' := hne (by decide)
  have hstar : c ≠ '*' := hne (by decide)
  cases kind <;> simp [mayPrecede, hpart, hequals, hslash, hstar]

/-- A text that was written out is cut at just the places where its tokens begin and end. -/
theorem segmented_printed (p : Position) (lead : List Filler) (items : List (Lexeme × Separator)) :
    ∃ ts, Segmented p (printed lead items) ts ∧
      ts.map Token.word = items.map (·.1.word) ++ [(.eof, "")] := by
  induction items generalizing p lead with
  | nil => exact ⟨_, .done (layout_fillers lead []), rfl⟩
  | cons x items ih =>
    obtain ⟨x, s⟩ := x
    obtain ⟨ts, hts, hwords⟩ :=
      ih ((p.advanceAll (lead.flatMap Filler.text)).advanceAll x.chars) s.fillers
    have hnext : (printed s.fillers items).head? = some s.first := by
      cases items <;> rfl
    refine ⟨_, .token (layout_fillers lead _) x.spells ?_ hts, ?_⟩
    · rw [hnext]
      exact mayPrecede_blank x.kind s.blank
    · rw [List.map_cons, List.map_cons, List.cons_append, hwords]
      rfl

/-- Scanning undoes printing. -/
theorem tokensFrom_printed (p : Position) (lead : List Filler)
    (items : List (Lexeme × Separator)) :
    ∃ ts, tokensFrom p (printed lead items) = .ok ts ∧
      ts.map Token.word = items.map (·.1.word) ++ [(.eof, "")] := by
  obtain ⟨ts, hts, hwords⟩ := segmented_printed p lead items
  exact ⟨ts, tokensFrom_complete hts, hwords⟩

end Scan

end ObjectPascal
