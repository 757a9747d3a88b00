import ObjectPascal.Proofs.Grammar

/-!
What the parsing functions take from a token list is a stretch of the grammar, and what they say
when they fail is justified by the list: they never look past an end marker, and they find a
numeral too long only where there is one.
-/

namespace ObjectPascal

open ObjectPascal.Parser ObjectPascal.Grammar

namespace Parser

/-- Tokens that come before the end marker. -/
def NoEnd (ts : List Token) : Prop :=
  ∀ t ∈ ts, t.kind ≠ .eof

theorem NoEnd.append {ts ts' : List Token} (h : NoEnd ts) (h' : NoEnd ts') : NoEnd (ts ++ ts') := by
  intro t ht
  rcases List.mem_append.mp ht with ht | ht
  · exact h t ht
  · exact h' t ht

/-- An error that the tokens account for. -/
structure Justified (ts : List Token) (e : ParseError) : Prop where
  pastEnd : e = .pastEnd → NoEnd ts
  tooManyDigits : ∀ n, e = .tooManyDigits n →
    ∃ t ∈ ts, t.kind = .number ∧ t.text.toList.length = n ∧ Text.maxDigits < n
  notANumeral : ∀ text, e = .notANumeral text →
    ∃ t ∈ ts, t.kind = .number ∧ ¬ Text.isNumeral t.text.toList

theorem Justified.append {ts ts' : List Token} {e : ParseError} (hn : NoEnd ts)
    (h : Justified ts' e) : Justified (ts ++ ts') e := by
  refine ⟨fun he => hn.append (h.pastEnd he), fun n he => ?_, fun text he => ?_⟩
  · obtain ⟨t, ht, hk⟩ := h.tooManyDigits n he
    exact ⟨t, List.mem_append_right _ ht, hk⟩
  · obtain ⟨t, ht, hk⟩ := h.notANumeral text he
    exact ⟨t, List.mem_append_right _ ht, hk⟩

theorem Justified.nil : Justified [] .pastEnd :=
  ⟨nofun, nofun, nofun⟩

/-- An error that is none of those that need a reason. -/
theorem Justified.of_ne {ts : List Token} {e : ParseError} (h : e ≠ .pastEnd)
    (h' : ∀ n, e ≠ .tooManyDigits n) (h'' : ∀ text, e ≠ .notANumeral text) : Justified ts e :=
  ⟨fun he => absurd he h, fun n he => absurd he (h' n), fun text he => absurd he (h'' text)⟩

section

variable {α β : Type} {P P' : List Token → Prop} {ts : List Token}

/-- The outcome of reading from the front of `ts`: a result with `Q` of the tokens it was read
from, or a justified error. -/
def Consumes (ts : List Token) (r : Result (α × { rest : List Token // P rest }))
    (Q : List Token → α → Prop) : Prop :=
  match r with
  | .ok (a, rest) => ∃ used, ts = used ++ rest.val ∧ NoEnd used ∧ Q used a
  | .error e => Justified ts e

namespace Consumes

theorem pure {Q : List Token → α → Prop} {a : α} {h : P ts} (hq : Q [] a) :
    Consumes ts (Pure.pure (a, ⟨ts, h⟩) : Result (α × { rest // P rest })) Q :=
  ⟨[], rfl, nofun, hq⟩

theorem throw {Q : List Token → α → Prop} {e : ParseError} (h : Justified ts e) :
    Consumes ts (.error e : Result (α × { rest // P rest })) Q :=
  h

theorem mono {r : Result (α × { rest // P rest })} {Q Q' : List Token → α → Prop}
    (h : Consumes ts r Q) (hq : ∀ used a, Q used a → Q' used a) : Consumes ts r Q' := by
  unfold Consumes at h ⊢
  split
  · obtain ⟨used, he, hn, hu⟩ := h
    exact ⟨used, he, hn, hq _ _ hu⟩
  · exact h

/-- Reading one thing after another. -/
theorem bind_eq {x : Result (α × { rest // P rest })} {Q : List Token → α → Prop}
    {f : α × { rest // P rest } → Result (β × { rest // P' rest })} {Q' : List Token → β → Prop}
    (hx : Consumes ts x Q)
    (hf : ∀ a rest h used, x = .ok (a, ⟨rest, h⟩) → ts = used ++ rest → Q used a →
      Consumes rest (f (a, ⟨rest, h⟩)) fun used' b => Q' (used ++ used') b) :
    Consumes ts (x >>= f) Q' := by
  cases x with
  | error e => exact hx
  | ok b =>
    obtain ⟨a, rest, h⟩ := b
    obtain ⟨used, he, hn, hq⟩ := hx
    have hy := hf a rest h used rfl he hq
    change Consumes ts (f (a, ⟨rest, h⟩)) Q'
    cases hr : f (a, ⟨rest, h⟩) with
    | error e =>
      rw [hr] at hy
      rw [he]
      exact Justified.append hn hy
    | ok c =>
      rw [hr] at hy
      obtain ⟨b, rest', h'⟩ := c
      obtain ⟨used', he', hn', hq'⟩ := hy
      refine ⟨used ++ used', ?_, hn.append hn', hq'⟩
      calc
        ts = used ++ rest := he
        _ = used ++ (used' ++ rest') := congrArg (used ++ ·) he'
        _ = used ++ used' ++ rest' := (List.append_assoc ..).symm

theorem bind {x : Result (α × { rest // P rest })} {Q : List Token → α → Prop}
    {f : α × { rest // P rest } → Result (β × { rest // P' rest })} {Q' : List Token → β → Prop}
    (hx : Consumes ts x Q)
    (hf : ∀ a rest h used, ts = used ++ rest → Q used a →
      Consumes rest (f (a, ⟨rest, h⟩)) fun used' b => Q' (used ++ used') b) :
    Consumes ts (x >>= f) Q' :=
  bind_eq hx fun a rest h used _ => hf a rest h used

/-- Taking the first token. -/
theorem cons {t : Token} {rest : List Token} {r : Result (α × { rest // P rest })}
    {Q : List Token → α → Prop} (ht : t.kind ≠ .eof)
    (h : Consumes rest r fun used a => Q (t :: used) a) : Consumes (t :: rest) r Q := by
  have hn : NoEnd [t] := by
    intro u hu
    rw [List.mem_singleton.mp hu]
    exact ht
  cases r with
  | error e => exact Justified.append hn h
  | ok b =>
    obtain ⟨used, he, hu, hq⟩ := h
    exact ⟨t :: used, congrArg (t :: ·) he, hn.append hu, hq⟩

/-- Looking at the next token takes nothing. -/
theorem bind_peek {f : Token → Result (α × { rest // P rest })} {Q : List Token → α → Prop}
    (hf : ∀ t rest, ts = t :: rest → Consumes ts (f t) Q) : Consumes ts (peek ts >>= f) Q := by
  cases ts with
  | nil => exact Justified.nil
  | cons t rest => exact hf t rest rfl

theorem bind_next {f : Token × Fewer ts → Result (α × { rest // P rest })}
    {Q : List Token → α → Prop}
    (hf : ∀ t rest h, ts = t :: rest → Consumes ts (f (t, ⟨rest, h⟩)) Q) :
    Consumes ts (next ts >>= f) Q := by
  cases ts with
  | nil => exact Justified.nil
  | cons t rest => exact hf t rest _ rfl

/-- Taking a token if it is of a kind, and going on in one of two ways. -/
theorem bind_accept {kind : TokenKind} (hk : kind ≠ .eof)
    {f : Option (Fewer ts) → Result (α × { rest // P rest })} {Q : List Token → α → Prop}
    (hn : Consumes ts (f none) Q)
    (hs : ∀ t rest h, ts = t :: rest → t.kind = kind →
      Consumes rest (f (some ⟨rest, h⟩)) fun used a => Q (t :: used) a) :
    Consumes ts (accept kind ts >>= f) Q := by
  cases ts with
  | nil => exact Justified.nil
  | cons t rest =>
    by_cases ht : t.kind = kind
    · have ha : accept kind (t :: rest) = .ok (some ⟨rest, by simp⟩) := by simp [accept, ht]
      rw [ha]
      exact cons (ht ▸ hk) (hs t rest _ rfl ht)
    · have ha : accept kind (t :: rest) = .ok none := by simp [accept, ht]
      rw [ha]
      exact hn

/-- Taking a token that must be of a kind. -/
theorem expect {kind : TokenKind} (hk : kind ≠ .eof) (ts : List Token) :
    Consumes ts (expect kind ts) fun used t => used = [t] ∧ t.kind = kind := by
  cases ts with
  | nil => exact Justified.nil
  | cons t rest =>
    by_cases ht : t.kind = kind
    · have he : Parser.expect kind (t :: rest) = .ok (t, ⟨rest, by simp⟩) := by
        simp [Parser.expect, ht]
      rw [he]
      exact cons (ht ▸ hk) (pure ⟨rfl, ht⟩)
    · have he : Parser.expect kind (t :: rest) = .error (.expected kind t.kind t.line) := by
        simp [Parser.expect, ht]
      rw [he]
      exact Justified.of_ne nofun nofun nofun

theorem bind_expect {kind : TokenKind} (hk : kind ≠ .eof)
    {f : Token × Fewer ts → Result (α × { rest // P rest })} {Q : List Token → α → Prop}
    (hf : ∀ t rest h, ts = t :: rest → t.kind = kind →
      Consumes rest (f (t, ⟨rest, h⟩)) fun used a => Q (t :: used) a) :
    Consumes ts (Parser.expect kind ts >>= f) Q := by
  refine bind (expect hk ts) ?_
  rintro t rest h _ hu ⟨rfl, ht⟩
  exact hf t rest h hu ht

end Consumes

end

/-! Words and signs. -/

theorem mem_methodWords {k : TokenKind} {kind : MethodKind} (h : methodKind? k = some kind) :
    (k, kind) ∈ methodWords := by
  cases k <;> simp_all [methodKind?, methodWords]

theorem mem_markers {k : TokenKind} {v : Visibility} (h : visibility? k = some v) :
    (k, v) ∈ markers := by
  cases k <;> simp_all [visibility?, markers]

theorem mem_additiveSigns {k : TokenKind} (h : isAdditive k) : k ∈ additiveSigns := by
  cases k <;> simp_all [isAdditive, additiveSigns]

theorem mem_multiplicativeSigns {k : TokenKind} {op : Operator}
    (h : multiplicative? k = some op) : (k, op) ∈ multiplicativeSigns := by
  cases k <;> simp_all [multiplicative?, multiplicativeSigns]

/-- A word or sign that means something is not the end marker. -/
theorem ne_eof_of_some {α : Type} {f : TokenKind → Option α} (hf : f .eof = none) {k : TokenKind}
    {a : α} (h : f k = some a) : k ≠ .eof := by
  rintro rfl
  rw [hf] at h
  cases h

theorem ne_eof_of_isAdditive {k : TokenKind} (h : isAdditive k) : k ≠ .eof := by
  rintro rfl
  cases h

/-! Declarations. -/

variable (src : Source)

theorem names_sound (ts : List Token) : Consumes ts (names ts) (Derives src .names) := by
  rw [names]
  refine .bind_expect (by decide) ?_
  rintro t ts₁ h₁ - ht
  refine .bind_accept (by decide) (.pure (.lastName ht)) ?_
  rintro comma ts₂ h₂ - hc
  refine .bind (names_sound ts₂) ?_
  rintro ns ts₃ h₃ used - hs
  exact .pure (by simpa using .name ht hc hs)
termination_by ts.length

theorem nameGroup_sound (ts : List Token) :
    Consumes ts (nameGroup src ts) (Derives src .group) := by
  refine .bind_peek ?_
  rintro first rest rfl
  refine .bind (names_sound src (first :: rest)) ?_
  rintro ns ts₁ h₁ used hu hs
  refine .bind_expect (by decide) ?_
  rintro colon ts₂ h₂ rfl hc
  refine .bind_expect (by decide) ?_
  rintro type ts₃ h₃ rfl ht
  refine .pure ?_
  -- the names are not empty, so that the first token is theirs
  cases used with
  | nil => cases hs
  | cons t used =>
    obtain ⟨rfl, -⟩ := List.cons.inj hu
    exact .group hs hc ht

theorem nameGroupLine_sound (ts : List Token) :
    Consumes ts (nameGroupLine src ts) fun used g =>
      ∃ ts semi, used = ts ++ [semi] ∧ semi.kind = .semi ∧ Derives src .group ts g := by
  refine .bind (nameGroup_sound src ts) ?_
  rintro g ts₁ h₁ used - hg
  refine .bind_expect (by decide) ?_
  rintro semi ts₂ h₂ - hs
  exact .pure ⟨used, semi, rfl, hs, hg⟩

theorem paramGroups_sound (ts : List Token) :
    Consumes ts (paramGroups src ts) (Derives src .groups) := by
  rw [paramGroups]
  refine .bind (nameGroup_sound src ts) ?_
  rintro g ts₁ h₁ used - hg
  refine .bind_accept (by decide) (.pure (by simpa using .lastGroup hg)) ?_
  rintro semi ts₂ h₂ - hs
  refine .bind (paramGroups_sound ts₂) ?_
  rintro gs ts₃ h₃ used' - hm
  exact .pure (by simpa using .moreGroups hg hs hm)
termination_by ts.length

theorem params_sound (ts : List Token) : Consumes ts (params src ts) (Derives src .params) := by
  refine .bind_accept (by decide) (.pure .noParams) ?_
  rintro l ts₁ h₁ - hl
  refine .bind_peek ?_
  rintro t rest -
  dsimp only
  split
  · refine .bind_expect (by decide) ?_
    rintro r ts₂ h₂ - hr
    exact .pure (.emptyParams hl hr)
  · refine .bind (paramGroups_sound src ts₁) ?_
    rintro gs ts₂ h₂ used - hg
    refine .bind_expect (by decide) ?_
    rintro r ts₃ h₃ - hr
    exact .pure (.params hl hg hr)

theorem returnType_sound (kind : MethodKind) (line : Nat) (ts : List Token) :
    Consumes ts (returnType kind line ts) (Derives src (.resultType kind)) := by
  unfold returnType
  split
  · next hk => exact .pure (.noResultType hk)
  · next hk =>
    obtain rfl : kind = .function := by simpa using hk
    refine .bind_accept (by decide) (.throw (.of_ne nofun nofun nofun)) ?_
    rintro colon ts₁ h₁ - hc
    refine .bind_expect (by decide) ?_
    rintro type ts₂ h₂ - ht
    exact .pure (.resultType hc ht)

theorem methodHeader_sound (word : Token) (kind : MethodKind)
    (hw : (word.kind, kind) ∈ methodWords) (ts : List Token) :
    Consumes ts (methodHeader src word kind ts) fun used h =>
      Derives src .header (word :: used) h := by
  refine .bind_expect (by decide) ?_
  rintro name ts₁ h₁ - hn
  refine .bind (params_sound src ts₁) ?_
  rintro ps ts₂ h₂ used - hp
  refine .bind (returnType_sound src kind _ ts₂) ?_
  rintro type ts₃ h₃ used' - ht
  refine .bind_expect (by decide) ?_
  rintro semi ts₄ h₄ - hs
  have h := Derives.header hw hn hp ht hs
  exact .pure (by simpa using h)

theorem member_sound (ts : List Token) : Consumes ts (member src ts) (Derives src .member) := by
  refine .bind_next ?_
  rintro t ts₁ h₁ rfl
  dsimp only
  split
  · next kind hk =>
    have hw := mem_methodWords hk
    refine .cons (ne_eof_of_some rfl hk) (.bind (methodHeader_sound src t kind hw ts₁) ?_)
    rintro h ts₂ h₂ used - hh
    exact .pure (by simpa using .method hh)
  · split
    · refine .bind (nameGroupLine_sound src (t :: ts₁)) ?_
      rintro g ts₂ h₂ _ - ⟨used, semi, rfl, hs, hg⟩
      exact .pure (by simpa using .field hg hs)
    · exact .throw (.of_ne (by simp) (by simp) (by simp))

theorem markedMembers_sound (ts : List Token) :
    Consumes ts (markedMembers src ts) (Derives src .members) := by
  rw [markedMembers]
  refine .bind_peek ?_
  rintro t rest -
  split
  · exact .pure .noMembers
  · refine .bind (member_sound src ts) ?_
    rintro m ts₁ h₁ used - hm
    refine .bind (markedMembers_sound ts₁) ?_
    rintro ms ts₂ h₂ used' - hs
    exact .pure (by simpa using .moreMembers hm hs)
termination_by ts.length

/-- Tokens at which the members under a marker end. -/
def EndsMembers (ts : List Token) : Prop :=
  ∃ t rest, ts = t :: rest ∧ ((visibility? t.kind).isSome || t.kind = .endKw) = true

theorem markedMembers_ends {ts : List Token} {ms : List Member} {rest : NoMore ts}
    (h : markedMembers src ts = .ok (ms, rest)) : EndsMembers rest.val := by
  rw [markedMembers] at h
  cases ts with
  | nil => cases h
  | cons t ts =>
    change (if _ then _ else _) = _ at h
    split at h
    · next ht =>
      cases h
      exact ⟨t, ts, rfl, ht⟩
    · cases hm : member src (t :: ts) with
      | error e => rw [hm] at h; cases h
      | ok b =>
        obtain ⟨m, ts₁, h₁⟩ := b
        rw [hm] at h
        cases hs : markedMembers src ts₁ with
        | error e =>
          change (markedMembers src ts₁ >>= _) = _ at h
          rw [hs] at h
          cases h
        | ok c =>
          change (markedMembers src ts₁ >>= _) = _ at h
          have he := markedMembers_ends hs
          rw [hs] at h
          cases h
          exact he
termination_by ts.length

/-- What a class body lists is members under no marker, and then markers with theirs. -/
theorem classItems_sound (ts : List Token) :
    Consumes ts (classItems src ts) fun used items =>
      ∃ ts₁ ts₂ ms marked, used = ts₁ ++ ts₂ ∧ items = ms.map .member ++ marked ∧
        Derives src .members ts₁ ms ∧ Derives src .marked ts₂ marked ∧
        (EndsMembers ts → ts₁ = [] ∧ ms = []) := by
  rw [classItems]
  refine .bind_next ?_
  rintro t ts₁ h₁ rfl
  dsimp only
  split
  · exact .pure ⟨[], [], [], [], rfl, rfl, .noMembers, .noMarked, fun _ => ⟨rfl, rfl⟩⟩
  · next hend =>
    split
    · next v hv =>
      refine .cons (ne_eof_of_some rfl hv) (.bind_eq (markedMembers_sound src ts₁) ?_)
      rintro ms ts₂ h₂ used hr - hm
      have hstop := markedMembers_ends src hr
      refine .bind (classItems_sound ts₂) ?_
      rintro _ ts₃ h₃ _ - ⟨us, us', ms', marked, rfl, rfl, hs, hi, hnone⟩
      obtain ⟨rfl, rfl⟩ := hnone hstop
      have h := Derives.moreMarked (mem_markers hv) hm hi
      exact .pure ⟨[], _, [], _, rfl, rfl, .noMembers, by simpa using h, fun _ => ⟨rfl, rfl⟩⟩
    · next hv =>
      refine .bind (member_sound src (t :: ts₁)) ?_
      rintro m ts₂ h₂ used - hm
      refine .bind (classItems_sound ts₂) ?_
      rintro _ ts₃ h₃ _ - ⟨us, us', ms, marked, rfl, rfl, hs, hi, -⟩
      refine .pure ⟨used ++ us, us', m :: ms, marked, by simp, rfl, .moreMembers hm hs, hi, ?_⟩
      rintro ⟨_, _, he, hstop⟩
      obtain ⟨rfl, -⟩ := List.cons.inj he
      simp [hv, hend] at hstop
termination_by ts.length

theorem classDecl_sound (ts : List Token) :
    Consumes ts (classDecl src ts) (Derives src .classDecl) := by
  refine .bind_expect (by decide) ?_
  rintro name ts₁ h₁ - hn
  refine .bind_expect (by decide) ?_
  rintro equals ts₂ h₂ - he
  refine .bind_expect (by decide) ?_
  rintro word ts₃ h₃ - hc
  refine .bind (classItems_sound src ts₃) ?_
  rintro _ ts₄ h₄ _ - ⟨us, us', ms, marked, rfl, rfl, hm, hi, -⟩
  refine .bind_expect (by decide) ?_
  rintro last ts₅ h₅ - hl
  refine .bind_expect (by decide) ?_
  rintro semi ts₆ h₆ - hs
  have h := Derives.classDecl hn he hc hm hi hl hs
  exact .pure (by simpa using h)

theorem classDecls_sound (ts : List Token) :
    Consumes ts (classDecls src ts) (Derives src .classDecls) := by
  rw [classDecls]
  refine .bind (classDecl_sound src ts) ?_
  rintro d ts₁ h₁ used - hd
  refine .bind_peek ?_
  rintro t rest -
  dsimp only
  split
  · refine .bind (classDecls_sound ts₁) ?_
    rintro ds ts₂ h₂ used' - hs
    exact .pure (by simpa using .moreClasses hd hs)
  · exact .pure (by simpa using .lastClass hd)
termination_by ts.length

theorem varDecls_sound (ts : List Token) :
    Consumes ts (varDecls src ts) (Derives src .varDecls) := by
  rw [varDecls]
  refine .bind (nameGroupLine_sound src ts) ?_
  rintro g ts₁ h₁ _ - ⟨used, semi, rfl, hs, hg⟩
  refine .bind_peek ?_
  rintro t rest -
  dsimp only
  split
  · refine .bind (varDecls_sound ts₁) ?_
    rintro gs ts₂ h₂ used' - hm
    exact .pure (by simpa using .moreVars hg hs hm)
  · exact .pure (by simpa using .lastVar hg hs)
termination_by ts.length

/-! Expressions. -/

theorem selectors_sound (ts : List Token) :
    Consumes ts (selectors ts) (Derives src .selectors) := by
  rw [selectors]
  refine .bind_accept (by decide) (.pure .noSelectors) ?_
  rintro dot ts₁ h₁ - hd
  refine .bind_expect (by decide) ?_
  rintro name ts₂ h₂ rfl hn
  refine .bind (selectors_sound ts₂) ?_
  rintro names ts₃ h₃ used - hs
  exact .pure (by simpa using .selector hd hn hs)
termination_by ts.length

theorem designator_sound (ts : List Token) :
    Consumes ts (designator src ts) (Derives src .designator) := by
  refine .bind_expect (by decide) ?_
  rintro base ts₁ h₁ - hb
  refine .bind (selectors_sound src ts₁) ?_
  rintro names ts₂ h₂ used - hs
  exact .pure (by simpa using .designator hb hs)

theorem literal_sound {t : Token} {rest : List Token} (ht : t.kind = .number)
    {P : List Token → Prop} {h : P rest} :
    Consumes (t :: rest) (do return (← literal src t, ⟨rest, h⟩) : Result (Expr × { rest // P rest }))
      (Derives src .factor) := by
  unfold literal
  dsimp only
  split
  · next hnot =>
    refine .throw ⟨nofun, nofun, fun _ _ => ⟨t, List.mem_cons_self, ht, ?_⟩⟩
    simpa using hnot
  split
  · next hd =>
    refine .throw ⟨nofun, fun n he => ⟨t, List.mem_cons_self, ht, ?_⟩, nofun⟩
    cases he
    exact ⟨rfl, hd⟩
  split
  · exact .throw (.of_ne nofun nofun nofun)
  · next hnumeral _ hv =>
    exact .cons (by rw [ht]; decide) (.pure (.literal ht (by simpa using hnumeral) (by omega)))

mutual

theorem expression_sound (ts : List Token) :
    Consumes ts (expression src ts) (Derives src .expr) := by
  rw [expression]
  refine .bind (term_sound ts) ?_
  rintro first ts₁ h₁ used - hf
  refine .bind (sums_sound first ts₁) ?_
  rintro e ts₂ h₂ used' - he
  exact .pure (by simpa using he used (.term hf))
termination_by (ts.length, 2)

/-- What the loop over additive operators has read so far is an expression, and it stays one. -/
theorem sums_sound (left : Expr) (ts : List Token) :
    Consumes ts (sums src left ts) fun used e =>
      ∀ ts₀, Derives src .expr ts₀ left → Derives src .expr (ts₀ ++ used) e := by
  rw [sums]
  refine .bind_next ?_
  rintro t ts₁ h₁ rfl
  dsimp only
  split
  · next hsign =>
    refine .cons (ne_eof_of_isAdditive hsign) (.bind (term_sound ts₁) ?_)
    rintro right ts₂ h₂ used - hr
    refine .bind (sums_sound _ ts₂) ?_
    rintro e ts₃ h₃ used' - he
    refine .pure fun ts₀ hl => ?_
    have h := he _ (.sum hl (mem_additiveSigns hsign) hr)
    simpa using h
  · exact .pure fun ts₀ hl => by simpa using hl
termination_by (ts.length, 0)

theorem term_sound (ts : List Token) : Consumes ts (term src ts) (Derives src .term) := by
  rw [term]
  refine .bind (factor_sound ts) ?_
  rintro first ts₁ h₁ used - hf
  refine .bind (products_sound first ts₁) ?_
  rintro e ts₂ h₂ used' - he
  exact .pure (by simpa using he used (.factor hf))
termination_by (ts.length, 1)

theorem products_sound (left : Expr) (ts : List Token) :
    Consumes ts (products src left ts) fun used e =>
      ∀ ts₀, Derives src .term ts₀ left → Derives src .term (ts₀ ++ used) e := by
  rw [products]
  refine .bind_next ?_
  rintro t ts₁ h₁ rfl
  dsimp only
  split
  · exact .pure fun ts₀ hl => by simpa using hl
  · next op ho =>
    refine .cons (ne_eof_of_some rfl ho) (.bind (factor_sound ts₁) ?_)
    rintro right ts₂ h₂ used - hr
    refine .bind (products_sound _ ts₂) ?_
    rintro e ts₃ h₃ used' - he
    refine .pure fun ts₀ hl => ?_
    have h := he _ (.product hl (mem_multiplicativeSigns ho) hr)
    simpa using h
termination_by (ts.length, 0)

theorem factor_sound (ts : List Token) : Consumes ts (factor src ts) (Derives src .factor) := by
  rw [factor]
  refine .bind_next ?_
  rintro t ts₁ h₁ rfl
  dsimp only
  split
  · next ht => exact literal_sound src ht
  · next hl =>
    refine .cons (by rw [hl]; decide) (.bind (expression_sound ts₁) ?_)
    rintro e ts₂ h₂ used - he
    refine .bind_expect (by decide) ?_
    rintro r ts₃ h₃ - hr
    exact .pure (by simpa using .parens hl he hr)
  · next ht =>
    refine .bind (designator_sound src (t :: ts₁)) ?_
    rintro d ts₂ h₂ used - hd
    dsimp only
    split
    · next name hsel =>
      refine .bind_peek ?_
      rintro u rest -
      split
      · refine .bind (arguments_sound ts₂) ?_
        rintro args ts₃ h₃ used' - ha
        refine .pure ?_
        -- one selector: the designator is two names with a dot between them
        cases hd with
        | designator hb hs =>
          subst hsel
          cases hs with
          | selector hdot hn hs =>
            cases hs
            exact by simpa using .call hb hdot hn ha
      · exact .pure (by simpa using .ref hd)
    · exact .pure (by simpa using .ref hd)
  · exact .throw (.of_ne nofun nofun nofun)
termination_by (ts.length, 0)

theorem arguments_sound (ts : List Token) :
    Consumes ts (arguments src ts) (Derives src .arguments) := by
  rw [arguments]
  refine .bind_expect (by decide) ?_
  rintro l ts₁ h₁ rfl hl
  refine .bind_peek ?_
  rintro t rest -
  dsimp only
  split
  · refine .bind_expect (by decide) ?_
    rintro r ts₂ h₂ - hr
    exact .pure (.emptyArguments hl hr)
  · refine .bind (expressions_sound ts₁) ?_
    rintro es ts₂ h₂ used - he
    refine .bind_expect (by decide) ?_
    rintro r ts₃ h₃ - hr
    exact .pure (by simpa using .arguments hl he hr)
termination_by (ts.length, 0)

theorem expressions_sound (ts : List Token) :
    Consumes ts (expressions src ts) (Derives src .exprs) := by
  rw [expressions]
  refine .bind (expression_sound ts) ?_
  rintro e ts₁ h₁ used - he
  refine .bind_accept (by decide) (.pure (by simpa using .lastExpr he)) ?_
  rintro comma ts₂ h₂ - hc
  refine .bind (expressions_sound ts₂) ?_
  rintro es ts₃ h₃ used' - hs
  exact .pure (by simpa using .moreExprs he hc hs)
termination_by (ts.length, 3)

end

/-! Statements. -/

theorem optionalArguments_sound (ts : List Token) :
    Consumes ts (optionalArguments src ts) (Derives src .optionalArguments) := by
  refine .bind_peek ?_
  rintro t rest -
  split
  · refine .bind (arguments_sound src ts) ?_
    rintro args ts₁ h₁ used - ha
    exact .pure (by simpa using .someArguments ha)
  · exact .pure .noArguments

theorem statement_sound (ts : List Token) :
    Consumes ts (statement src ts) (Derives src .statement) := by
  refine .bind_peek ?_
  rintro t rest rfl
  dsimp only
  split
  · exact .throw (.of_ne nofun nofun nofun)
  refine .bind (designator_sound src (t :: rest)) ?_
  rintro d ts₁ h₁ used hu hd
  refine .bind_accept (by decide) ?_ ?_
  · dsimp only
    split
    · next hsel =>
      refine .bind (optionalArguments_sound src ts₁) ?_
      rintro args ts₂ h₂ used' - ha
      refine .pure ?_
      cases hd with
      | designator hb hs =>
        subst hsel
        cases hs
        obtain ⟨rfl, -⟩ := List.cons.inj hu
        simpa using .procedureCall hb ha
    · next name hsel =>
      refine .bind (optionalArguments_sound src ts₁) ?_
      rintro args ts₂ h₂ used' - ha
      refine .pure ?_
      cases hd with
      | designator hb hs =>
        subst hsel
        cases hs with
        | selector hdot hn hs =>
          cases hs
          obtain ⟨rfl, -⟩ := List.cons.inj hu
          simpa using .methodCall hb hdot hn ha
    · exact .throw (.of_ne nofun nofun nofun)
  · rintro sign ts₂ h₂ - hs
    refine .bind (expression_sound src ts₂) ?_
    rintro value ts₃ h₃ used' - he
    refine .pure ?_
    have hloc : d.location = placeOf src t := by
      cases hd with
      | designator hb hs =>
        obtain ⟨rfl, -⟩ := List.cons.inj hu
        rfl
    have h := Derives.assignment hd hs he
    rw [hloc] at h
    simpa using h

theorem statements_sound (ts : List Token) :
    Consumes ts (statements src ts) (Derives src .statements) := by
  rw [statements]
  refine .bind_next ?_
  rintro t ts₁ h₁ rfl
  dsimp only
  split
  · exact .pure (.lastStatement .noStatement)
  split
  · next hs =>
    refine .cons (by rw [hs]; decide) (.bind (statements_sound ts₁) ?_)
    rintro ss ts₂ h₂ used - hm
    exact .pure (by simpa using .moreStatements .noStatement hs hm)
  · refine .bind (statement_sound src (t :: ts₁)) ?_
    rintro s ts₂ h₂ used - hs
    refine .bind_peek ?_
    rintro u rest -
    split
    · exact .pure (by simpa using .lastStatement (.someStatement hs))
    · refine .bind_expect (by decide) ?_
      rintro semi ts₃ h₃ - hsemi
      refine .bind (statements_sound ts₃) ?_
      rintro ss ts₄ h₄ used' - hm
      exact .pure (by simpa using .moreStatements (.someStatement hs) hsemi hm)
termination_by ts.length

theorem block_sound (ts : List Token) : Consumes ts (block src ts) (Derives src .block) := by
  refine .bind_expect (by decide) ?_
  rintro first ts₁ h₁ - hf
  refine .bind (statements_sound src ts₁) ?_
  rintro ss ts₂ h₂ used - hs
  refine .bind_expect (by decide) ?_
  rintro last ts₃ h₃ - hl
  exact .pure (by simpa using .block hf hs hl)

/-! Sections. -/

theorem methodImpl_sound (word : Token) (kind : MethodKind)
    (hw : (word.kind, kind) ∈ methodWords) (ts : List Token) :
    Consumes ts (methodImpl src word kind ts) fun used m =>
      m.location = placeOf src word ∧ Derives src .impl (word :: used) m := by
  refine .bind_expect (by decide) ?_
  rintro className ts₁ h₁ - hc
  refine .bind_expect (by decide) ?_
  rintro dot ts₂ h₂ - hd
  refine .bind_expect (by decide) ?_
  rintro name ts₃ h₃ - hn
  refine .bind (params_sound src ts₃) ?_
  rintro ps ts₄ h₄ used - hp
  refine .bind (returnType_sound src kind _ ts₄) ?_
  rintro type ts₅ h₅ used' - ht
  refine .bind_expect (by decide) ?_
  rintro semi ts₆ h₆ - hs
  refine .bind (block_sound src ts₆) ?_
  rintro body ts₇ h₇ used'' - hb
  refine .bind_expect (by decide) ?_
  rintro semi' ts₈ h₈ - hs'
  have h := Derives.impl hw hc hd hn hp ht hs hb hs'
  exact .pure ⟨rfl, by simpa using h⟩

/-- The declarations that sections give. -/
def Declarations.ofParts (parts : List Part) : Declarations where
  classes := Part.merge (parts.filterMap Part.classes?)
  vars := Part.merge (parts.filterMap Part.vars?)
  methods := Part.merge (parts.filterMap Part.method?)

theorem merge_cons {α : Type} (loc : Location) (items : List α)
    (later : List (Location × List α)) :
    Part.merge ((loc, items) :: later) = prepend loc items (Part.merge later) := by
  cases later <;> rfl

namespace Declarations

theorem ofParts_classes (loc : Location) (ds : List ClassDecl) (parts : List Part) :
    ofParts (.classes loc ds :: parts) =
      { ofParts parts with classes := prepend loc ds (ofParts parts).classes } := by
  simp [ofParts, List.filterMap_cons, Part.classes?, Part.vars?, Part.method?, merge_cons]

theorem ofParts_vars (loc : Location) (gs : List NameGroup) (parts : List Part) :
    ofParts (.vars loc gs :: parts) =
      { ofParts parts with vars := prepend loc gs (ofParts parts).vars } := by
  simp [ofParts, List.filterMap_cons, Part.classes?, Part.vars?, Part.method?, merge_cons]

theorem ofParts_method (loc : Location) (m : MethodImpl) (parts : List Part) :
    ofParts (.method loc m :: parts) =
      { ofParts parts with methods := prepend loc [m] (ofParts parts).methods } := by
  simp [ofParts, List.filterMap_cons, Part.classes?, Part.vars?, Part.method?, merge_cons]

end Declarations

theorem sections_sound (ts : List Token) :
    Consumes ts (sections src ts) fun used decls =>
      ∃ parts, decls = .ofParts parts ∧ Derives src .parts used parts := by
  rw [sections]
  refine .bind_next ?_
  rintro t ts₁ h₁ rfl
  dsimp only
  split
  · exact .pure ⟨[], rfl, .noParts⟩
  · next hw =>
    refine .cons (by rw [hw]; decide) (.bind (classDecls_sound src ts₁) ?_)
    rintro ds ts₂ h₂ used - hd
    refine .bind (sections_sound ts₂) ?_
    rintro _ ts₃ h₃ used' - ⟨parts, rfl, hp⟩
    refine .pure ⟨.classes (placeOf src t) ds :: parts, ?_, ?_⟩
    · rw [Declarations.ofParts_classes]
    · simpa using .moreParts (.classPart hw hd) hp
  · next hw =>
    refine .cons (by rw [hw]; decide) (.bind (varDecls_sound src ts₁) ?_)
    rintro gs ts₂ h₂ used - hg
    refine .bind (sections_sound ts₂) ?_
    rintro _ ts₃ h₃ used' - ⟨parts, rfl, hp⟩
    refine .pure ⟨.vars (placeOf src t) gs :: parts, ?_, ?_⟩
    · rw [Declarations.ofParts_vars]
    · simpa using .moreParts (.varPart hw hg) hp
  · split
    · next kind hk =>
      have hw := mem_methodWords hk
      refine .cons (ne_eof_of_some rfl hk) (.bind (methodImpl_sound src t kind hw ts₁) ?_)
      rintro impl ts₂ h₂ used - ⟨hloc, hm⟩
      refine .bind (sections_sound ts₂) ?_
      rintro _ ts₃ h₃ used' - ⟨parts, rfl, hp⟩
      refine .pure ⟨.method (placeOf src t) impl :: parts, ?_, ?_⟩
      · rw [Declarations.ofParts_method]
      · have h := Derives.moreParts (.methodPart hm) hp
        rw [hloc] at h
        simpa using h
    · exact .throw (.of_ne (by simp) (by simp) (by simp))
termination_by ts.length

theorem title_sound (ts : List Token) : Consumes ts (title ts) (Derives src .title) := by
  refine .bind_accept (by decide) (.pure .noTitle) ?_
  rintro word ts₁ h₁ - hw
  refine .bind_expect (by decide) ?_
  rintro name ts₂ h₂ - hn
  refine .bind_expect (by decide) ?_
  rintro semi ts₃ h₃ - hs
  exact .pure (.title hw hn hs)

/-! Programs. -/

/-- The outcome of reading `ts` up to its end marker. -/
def ReadsAll {α : Type} (ts : List Token) (r : Result α) (Q : List Token → α → Prop) : Prop :=
  match r with
  | .ok a => ∃ body eof rest, ts = body ++ eof :: rest ∧ eof.kind = .eof ∧ NoEnd body ∧ Q body a
  | .error e => Justified ts e

theorem Consumes.readsAll {α β : Type} {P : List Token → Prop} {ts : List Token}
    {x : Result (α × { rest // P rest })} {Q : List Token → α → Prop}
    {f : α × { rest // P rest } → Result β} {Q' : List Token → β → Prop}
    (hx : Consumes ts x Q)
    (hf : ∀ a rest h used, ts = used ++ rest → Q used a →
      ReadsAll rest (f (a, ⟨rest, h⟩)) fun used' b => Q' (used ++ used') b) :
    ReadsAll ts (x >>= f) Q' := by
  cases x with
  | error e => exact hx
  | ok b =>
    obtain ⟨a, rest, h⟩ := b
    obtain ⟨used, he, hn, hq⟩ := hx
    have hy := hf a rest h used he hq
    change ReadsAll ts (f (a, ⟨rest, h⟩)) Q'
    cases hr : f (a, ⟨rest, h⟩) with
    | error e =>
      rw [hr] at hy
      rw [he]
      exact Justified.append hn hy
    | ok b =>
      rw [hr] at hy
      obtain ⟨body, eof, rest', he', hk, hn', hq'⟩ := hy
      obtain rfl : rest = body ++ eof :: rest' := he'
      exact ⟨used ++ body, eof, rest', by simpa using he, hk, hn.append hn', hq'⟩

theorem readsAll_expect_eof {α : Type} {ts : List Token} {a : α} {Q : List Token → α → Prop}
    (hq : Q [] a) : ReadsAll ts (do let _ ← expect .eof ts; return a) Q := by
  cases ts with
  | nil => exact Justified.nil
  | cons t rest =>
    by_cases ht : t.kind = .eof
    · have he : expect .eof (t :: rest) = .ok (t, ⟨rest, by simp⟩) := by simp [expect, ht]
      rw [he]
      exact ⟨[], t, rest, rfl, ht, nofun, hq⟩
    · have he : expect .eof (t :: rest) = .error (.expected .eof t.kind t.line) := by
        simp [expect, ht]
      rw [he]
      exact Justified.of_ne nofun nofun nofun

end Parser

/-- What a token list is read as is what its tokens up to the end marker stand for. -/
theorem Program.ofTokens_sound (src : Source) (ts : List Token) :
    ReadsAll ts (Program.ofTokens src ts) (Derives src .program) := by
  unfold Program.ofTokens
  cases hts : ts with
  | nil => exact Justified.nil
  | cons start rest =>
    refine (title_sound src (start :: rest)).readsAll ?_
    rintro name ts₁ h₁ used hu ht
    refine (sections_sound src ts₁).readsAll ?_
    rintro _ ts₂ h₂ used' hu' ⟨parts, rfl, hp⟩
    refine (block_sound src ts₂).readsAll ?_
    rintro b ts₃ h₃ body hb' hb
    refine (Consumes.expect (by decide) ts₃).readsAll ?_
    rintro dot ts₄ h₄ _ - ⟨rfl, hd⟩
    refine readsAll_expect_eof ?_
    -- the block is not empty, so that the first token is one of those read
    have hf : (used ++ used' ++ body).head? = some start := by
      have hall : start :: rest = (used ++ used' ++ body) ++ ts₃ := by
        simp only [hu, hu', hb', List.append_assoc]
      cases hb with
      | block =>
        cases hc : used ++ used' ++ _ with
        | nil => simp at hc
        | cons t ts =>
          rw [hc] at hall
          obtain ⟨rfl, -⟩ := List.cons.inj hall
          rfl
    have h := Derives.program ht hp hb hf hd
    simpa [Program.ofParts, Declarations.ofParts] using h

end ObjectPascal
