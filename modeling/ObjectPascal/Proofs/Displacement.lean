import ObjectPascal.Interpreter
import ObjectPascal.Proofs.Printing

/-!
Tokens in other places. What tokens are read as depends on their kinds and texts; their places are
put into the tree or into the error, and nothing else is done with them.
-/

namespace ObjectPascal

open ObjectPascal.Parser ObjectPascal.Scan

/-! Programs without places. -/

def NameGroup.unplaced (g : NameGroup) : NameGroup :=
  { g with location := default }

def MethodHeader.unplaced (h : MethodHeader) : MethodHeader :=
  { h with location := default, params := h.params.map NameGroup.unplaced }

def Member.unplaced : Member → Member
  | .field g => .field g.unplaced
  | .method h => .method h.unplaced
  | .bare _ => .bare default

def ClassItem.unplaced : ClassItem → ClassItem
  | .member m => .member m.unplaced
  | .marked _ visibility ms => .marked default visibility (ms.map Member.unplaced)

def ClassDecl.unplaced (d : ClassDecl) : ClassDecl :=
  { d with location := default, items := d.items.map ClassItem.unplaced }

def Designator.unplaced (d : Designator) : Designator :=
  { d with location := default }

mutual

def Expr.unplaced : Expr → Expr
  | .literal _ value => .literal default value
  | .ref d => .ref d.unplaced
  | .binary _ op a b => .binary default op a.unplaced b.unplaced
  | .parens _ e => .parens default e.unplaced
  | .call _ left member args => .call default left member (Expr.allUnplaced args)
  | .bare _ => .bare default

def Expr.allUnplaced : List Expr → List Expr
  | [] => []
  | e :: es => e.unplaced :: Expr.allUnplaced es

end

def Statement.unplaced : Statement → Statement
  | .assignment _ d e => .assignment default d.unplaced e.unplaced
  | .methodCall _ left member args => .methodCall default left member (Expr.allUnplaced args)
  | .procedureCall _ name args => .procedureCall default name (Expr.allUnplaced args)
  | .bare _ => .bare default

def Block.unplaced (b : Block) : Block :=
  ⟨default, b.statements.map Statement.unplaced⟩

def MethodImpl.unplaced (m : MethodImpl) : MethodImpl :=
  { m with
    location := default, params := m.params.map NameGroup.unplaced, body := m.body.unplaced }

def Section.unplaced {α : Type} (f : α → α) (s : Section α) : Section α :=
  ⟨default, s.items.map f⟩

def Program.unplaced (p : Program) : Program where
  location := default
  name := p.name
  classes := p.classes.map (Section.unplaced ClassDecl.unplaced)
  vars := p.vars.map (Section.unplaced NameGroup.unplaced)
  methods := p.methods.map (Section.unplaced MethodImpl.unplaced)
  block := p.block.unplaced

/-- The same complaint, without the line it is about. -/
def ParseError.unplaced : ParseError → ParseError
  | .expected wanted found _ => .expected wanted found 0
  | .expectedSection found _ => .expectedSection found 0
  | .inClassBody found _ => .inClassBody found 0
  | .missingResultType _ => .missingResultType 0
  | .atStatement found _ => .atStatement found 0
  | .expectedAssign target _ => .expectedAssign target 0
  | .literalOutOfRange digits _ => .literalOutOfRange digits 0
  | .inExpression found _ => .inExpression found 0
  | .notANumeral text => .notANumeral text
  | .tooManyDigits count => .tooManyDigits count
  | .pastEnd => .pastEnd

namespace Parser

/-- What tokens say, without their places. -/
def words (ts : List Token) : List (TokenKind × String) :=
  ts.map Token.word

/-- Two outcomes of reading: results that are related, or the same complaint. -/
def Agrees {α β : Type} (Q : α → β → Prop) (x : Result α) (y : Result β) : Prop :=
  match x, y with
  | .ok a, .ok b => Q a b
  | .error e, .error e' => e.unplaced = e'.unplaced
  | _, _ => False

/-- The same was read, as far as `f` tells, and the same is left. -/
def Same {α γ : Type} {P P' : List Token → Prop} (f : α → γ) (x : α × { rest // P rest })
    (y : α × { rest // P' rest }) : Prop :=
  f x.1 = f y.1 ∧ words x.2.val = words y.2.val

theorem words_cases {ts ts' : List Token} (hw : words ts = words ts') :
    (ts = [] ∧ ts' = []) ∨ ∃ t rest t' rest', ts = t :: rest ∧ ts' = t' :: rest' ∧
      t.kind = t'.kind ∧ t.text = t'.text ∧ words rest = words rest' := by
  cases ts with
  | nil =>
    cases ts' with
    | nil => exact .inl ⟨rfl, rfl⟩
    | cons t' rest' => cases hw
  | cons t rest =>
    cases ts' with
    | nil => cases hw
    | cons t' rest' =>
      obtain ⟨hword, hrest⟩ := List.cons.inj hw
      obtain ⟨hkind, htext⟩ := Prod.mk.inj hword
      exact .inr ⟨t, rest, t', rest', rfl, rfl, hkind, htext, hrest⟩

namespace Agrees

variable {α β γ : Type} {P P' : List Token → Prop} {Q : α → β → Prop} {ts ts' : List Token}

theorem throw {e e' : ParseError} (h : e.unplaced = e'.unplaced) :
    Agrees Q (.error e) (.error e') :=
  h

/-- Reading one thing after another. -/
theorem bind {f : γ → γ} {x : Result (γ × { rest // P rest })}
    {y : Result (γ × { rest // P' rest })} {g : γ × { rest // P rest } → Result α}
    {k : γ × { rest // P' rest } → Result β}
    (h : Agrees (Same f) x y)
    (hf : ∀ a a' rest rest' hr hr', f a = f a' → words rest = words rest' →
      Agrees Q (g (a, ⟨rest, hr⟩)) (k (a', ⟨rest', hr'⟩))) :
    Agrees Q (x >>= g) (y >>= k) := by
  cases x with
  | error e =>
    cases y with
    | error e' => exact h
    | ok b => exact h.elim
  | ok a =>
    cases y with
    | error e' => exact h.elim
    | ok b => exact hf _ _ _ _ _ _ h.1 h.2

theorem bind_peek (hw : words ts = words ts') {g : Token → Result α} {k : Token → Result β}
    (hf : ∀ t t', t.kind = t'.kind → t.text = t'.text → Agrees Q (g t) (k t')) :
    Agrees Q (peek ts >>= g) (peek ts' >>= k) := by
  obtain ⟨rfl, rfl⟩ | ⟨t, rest, t', rest', rfl, rfl, hkind, htext, -⟩ := words_cases hw
  · exact .throw rfl
  · exact hf t t' hkind htext

theorem bind_next (hw : words ts = words ts') {g : Token × Fewer ts → Result α}
    {k : Token × Fewer ts' → Result β}
    (hf : ∀ t t' rest rest' h h', t.kind = t'.kind → t.text = t'.text → words rest = words rest' →
      Agrees Q (g (t, ⟨rest, h⟩)) (k (t', ⟨rest', h'⟩))) :
    Agrees Q (next ts >>= g) (next ts' >>= k) := by
  obtain ⟨rfl, rfl⟩ | ⟨t, rest, t', rest', rfl, rfl, hkind, htext, hrest⟩ := words_cases hw
  · exact .throw rfl
  · exact hf t t' rest rest' _ _ hkind htext hrest

theorem bind_expect (hw : words ts = words ts') {kind : TokenKind}
    {g : Token × Fewer ts → Result α} {k : Token × Fewer ts' → Result β}
    (hf : ∀ t t' rest rest' h h', t.text = t'.text → words rest = words rest' →
      Agrees Q (g (t, ⟨rest, h⟩)) (k (t', ⟨rest', h'⟩))) :
    Agrees Q (expect kind ts >>= g) (expect kind ts' >>= k) := by
  obtain ⟨rfl, rfl⟩ | ⟨t, rest, t', rest', rfl, rfl, hkind, htext, hrest⟩ := words_cases hw
  · exact .throw rfl
  · unfold expect
    dsimp only
    rw [hkind]
    split
    · exact hf t t' rest rest' _ _ htext hrest
    · exact .throw rfl

/-- Taking a token of a kind or none, the same in both. -/
theorem bind_accept (hw : words ts = words ts') {kind : TokenKind}
    {g : Option (Fewer ts) → Result α} {k : Option (Fewer ts') → Result β}
    (hn : Agrees Q (g none) (k none))
    (hs : ∀ rest rest' h h', words rest = words rest' →
      Agrees Q (g (some ⟨rest, h⟩)) (k (some ⟨rest', h'⟩))) :
    Agrees Q (accept kind ts >>= g) (accept kind ts' >>= k) := by
  obtain ⟨rfl, rfl⟩ | ⟨t, rest, t', rest', rfl, rfl, hkind, htext, hrest⟩ := words_cases hw
  · exact .throw rfl
  · unfold accept
    dsimp only
    rw [hkind]
    split
    · exact hs rest rest' _ _ hrest
    · exact hn

end Agrees

/-! Declarations. -/

variable (src src' : Source)

theorem names_agrees {ts ts' : List Token} (hw : words ts = words ts') :
    Agrees (Same id) (names ts) (names ts') := by
  rw [names, names]
  refine .bind_expect hw ?_
  rintro t t' ts₁ ts₁' h₁ h₁' ht hw₁
  refine .bind_accept hw₁ ⟨congrArg ([·]) ht, hw₁⟩ ?_
  rintro ts₂ ts₂' h₂ h₂' hw₂
  refine .bind (names_agrees hw₂) ?_
  rintro ns ns' ts₃ ts₃' h₃ h₃' hns hw₃
  exact ⟨congrArg₂ List.cons ht hns, hw₃⟩
termination_by ts.length

theorem nameGroup_agrees {ts ts' : List Token} (hw : words ts = words ts') :
    Agrees (Same NameGroup.unplaced) (nameGroup src ts) (nameGroup src' ts') := by
  refine .bind_peek hw ?_
  rintro first first' - -
  refine .bind (names_agrees hw) ?_
  rintro ns ns' ts₁ ts₁' h₁ h₁' hns hw₁
  refine .bind_expect hw₁ ?_
  rintro colon colon' ts₂ ts₂' h₂ h₂' - hw₂
  refine .bind_expect hw₂ ?_
  rintro type type' ts₃ ts₃' h₃ h₃' ht hw₃
  obtain rfl : ns = ns' := hns
  refine ⟨?_, hw₃⟩
  simp [NameGroup.unplaced, ht]

theorem nameGroupLine_agrees {ts ts' : List Token} (hw : words ts = words ts') :
    Agrees (Same NameGroup.unplaced) (nameGroupLine src ts) (nameGroupLine src' ts') := by
  refine .bind (nameGroup_agrees src src' hw) ?_
  rintro g g' ts₁ ts₁' h₁ h₁' hg hw₁
  refine .bind_expect hw₁ ?_
  rintro semi semi' ts₂ ts₂' h₂ h₂' - hw₂
  exact ⟨hg, hw₂⟩

theorem paramGroups_agrees {ts ts' : List Token} (hw : words ts = words ts') :
    Agrees (Same (List.map NameGroup.unplaced)) (paramGroups src ts) (paramGroups src' ts') := by
  rw [paramGroups, paramGroups]
  refine .bind (nameGroup_agrees src src' hw) ?_
  rintro g g' ts₁ ts₁' h₁ h₁' hg hw₁
  refine .bind_accept hw₁ ⟨by simp [hg], hw₁⟩ ?_
  rintro ts₂ ts₂' h₂ h₂' hw₂
  refine .bind (paramGroups_agrees hw₂) ?_
  rintro gs gs' ts₃ ts₃' h₃ h₃' hgs hw₃
  exact ⟨congrArg₂ List.cons hg hgs, hw₃⟩
termination_by ts.length

theorem params_agrees {ts ts' : List Token} (hw : words ts = words ts') :
    Agrees (Same (List.map NameGroup.unplaced)) (params src ts) (params src' ts') := by
  refine .bind_accept hw ⟨rfl, hw⟩ ?_
  rintro ts₁ ts₁' h₁ h₁' hw₁
  refine .bind_peek hw₁ ?_
  rintro t t' hkind -
  dsimp only
  rw [hkind]
  split
  · refine .bind_expect hw₁ ?_
    rintro r r' ts₂ ts₂' h₂ h₂' - hw₂
    exact ⟨rfl, hw₂⟩
  · refine .bind (paramGroups_agrees src src' hw₁) ?_
    rintro gs gs' ts₂ ts₂' h₂ h₂' hgs hw₂
    refine .bind_expect hw₂ ?_
    rintro r r' ts₃ ts₃' h₃ h₃' - hw₃
    exact ⟨hgs, hw₃⟩

theorem returnType_agrees (kind : MethodKind) (line line' : Nat) {ts ts' : List Token}
    (hw : words ts = words ts') :
    Agrees (Same id) (returnType kind line ts) (returnType kind line' ts') := by
  unfold returnType
  split
  · exact ⟨rfl, hw⟩
  · refine .bind_accept hw (.throw rfl) ?_
    rintro ts₁ ts₁' h₁ h₁' hw₁
    refine .bind_expect hw₁ ?_
    rintro type type' ts₂ ts₂' h₂ h₂' ht hw₂
    exact ⟨congrArg some ht, hw₂⟩

theorem methodHeader_agrees (word word' : Token) (kind : MethodKind) {ts ts' : List Token}
    (hw : words ts = words ts') :
    Agrees (Same MethodHeader.unplaced) (methodHeader src word kind ts)
      (methodHeader src' word' kind ts') := by
  refine .bind_expect hw ?_
  rintro name name' ts₁ ts₁' h₁ h₁' hn hw₁
  refine .bind (params_agrees src src' hw₁) ?_
  rintro ps ps' ts₂ ts₂' h₂ h₂' hp hw₂
  refine .bind (returnType_agrees kind _ _ hw₂) ?_
  rintro type type' ts₃ ts₃' h₃ h₃' ht hw₃
  refine .bind_expect hw₃ ?_
  rintro semi semi' ts₄ ts₄' h₄ h₄' - hw₄
  obtain rfl : type = type' := ht
  refine ⟨?_, hw₄⟩
  simp [MethodHeader.unplaced, hn, hp]

theorem member_agrees {ts ts' : List Token} (hw : words ts = words ts') :
    Agrees (Same Member.unplaced) (member src ts) (member src' ts') := by
  refine .bind_next hw ?_
  rintro t t' ts₁ ts₁' h₁ h₁' hkind - hw₁
  dsimp only
  rw [hkind]
  cases methodKind? t'.kind with
  | some kind =>
    refine .bind (methodHeader_agrees src src' t t' kind hw₁) ?_
    rintro h h' ts₂ ts₂' h₂ h₂' hh hw₂
    exact ⟨congrArg Member.method hh, hw₂⟩
  | none =>
    dsimp only
    split
    · refine .bind (nameGroupLine_agrees src src' hw) ?_
      rintro g g' ts₂ ts₂' h₂ h₂' hg hw₂
      exact ⟨congrArg Member.field hg, hw₂⟩
    · exact .throw rfl

theorem markedMembers_agrees {ts ts' : List Token} (hw : words ts = words ts') :
    Agrees (Same (List.map Member.unplaced)) (markedMembers src ts) (markedMembers src' ts') := by
  rw [markedMembers, markedMembers]
  refine .bind_peek hw ?_
  rintro t t' hkind -
  rw [hkind]
  split
  · exact ⟨rfl, hw⟩
  · refine .bind (member_agrees src src' hw) ?_
    rintro m m' ts₁ ts₁' h₁ h₁' hm hw₁
    refine .bind (markedMembers_agrees hw₁) ?_
    rintro ms ms' ts₂ ts₂' h₂ h₂' hms hw₂
    exact ⟨congrArg₂ List.cons hm hms, hw₂⟩
termination_by ts.length

theorem classItems_agrees {ts ts' : List Token} (hw : words ts = words ts') :
    Agrees (Same (List.map ClassItem.unplaced)) (classItems src ts) (classItems src' ts') := by
  rw [classItems, classItems]
  refine .bind_next hw ?_
  rintro t t' ts₁ ts₁' h₁ h₁' hkind - hw₁
  dsimp only
  rw [hkind]
  split
  · exact ⟨rfl, hw⟩
  · cases visibility? t'.kind with
    | some visibility =>
      refine .bind (markedMembers_agrees src src' hw₁) ?_
      rintro ms ms' ts₂ ts₂' h₂ h₂' hms hw₂
      refine .bind (classItems_agrees hw₂) ?_
      rintro items items' ts₃ ts₃' h₃ h₃' hitems hw₃
      refine ⟨?_, hw₃⟩
      simp [ClassItem.unplaced, hms, hitems]
    | none =>
      refine .bind (member_agrees src src' hw) ?_
      rintro m m' ts₂ ts₂' h₂ h₂' hm hw₂
      refine .bind (classItems_agrees hw₂) ?_
      rintro items items' ts₃ ts₃' h₃ h₃' hitems hw₃
      refine ⟨?_, hw₃⟩
      simp [ClassItem.unplaced, hm, hitems]
termination_by ts.length

theorem classDecl_agrees {ts ts' : List Token} (hw : words ts = words ts') :
    Agrees (Same ClassDecl.unplaced) (classDecl src ts) (classDecl src' ts') := by
  refine .bind_expect hw ?_
  rintro name name' ts₁ ts₁' h₁ h₁' hn hw₁
  refine .bind_expect hw₁ ?_
  rintro equals equals' ts₂ ts₂' h₂ h₂' - hw₂
  refine .bind_expect hw₂ ?_
  rintro word word' ts₃ ts₃' h₃ h₃' - hw₃
  refine .bind (classItems_agrees src src' hw₃) ?_
  rintro items items' ts₄ ts₄' h₄ h₄' hitems hw₄
  refine .bind_expect hw₄ ?_
  rintro last last' ts₅ ts₅' h₅ h₅' - hw₅
  refine .bind_expect hw₅ ?_
  rintro semi semi' ts₆ ts₆' h₆ h₆' - hw₆
  refine ⟨?_, hw₆⟩
  simp [ClassDecl.unplaced, hn, hitems]

theorem classDecls_agrees {ts ts' : List Token} (hw : words ts = words ts') :
    Agrees (Same (List.map ClassDecl.unplaced)) (classDecls src ts) (classDecls src' ts') := by
  rw [classDecls, classDecls]
  refine .bind (classDecl_agrees src src' hw) ?_
  rintro d d' ts₁ ts₁' h₁ h₁' hd hw₁
  refine .bind_peek hw₁ ?_
  rintro t t' hkind -
  dsimp only
  rw [hkind]
  split
  · refine .bind (classDecls_agrees hw₁) ?_
    rintro ds ds' ts₂ ts₂' h₂ h₂' hds hw₂
    exact ⟨congrArg₂ List.cons hd hds, hw₂⟩
  · exact ⟨congrArg ([·]) hd, hw₁⟩
termination_by ts.length

theorem varDecls_agrees {ts ts' : List Token} (hw : words ts = words ts') :
    Agrees (Same (List.map NameGroup.unplaced)) (varDecls src ts) (varDecls src' ts') := by
  rw [varDecls, varDecls]
  refine .bind (nameGroupLine_agrees src src' hw) ?_
  rintro g g' ts₁ ts₁' h₁ h₁' hg hw₁
  refine .bind_peek hw₁ ?_
  rintro t t' hkind -
  dsimp only
  rw [hkind]
  split
  · refine .bind (varDecls_agrees hw₁) ?_
    rintro gs gs' ts₂ ts₂' h₂ h₂' hgs hw₂
    exact ⟨congrArg₂ List.cons hg hgs, hw₂⟩
  · exact ⟨congrArg ([·]) hg, hw₁⟩
termination_by ts.length

/-! Expressions. -/

theorem selectors_agrees {ts ts' : List Token} (hw : words ts = words ts') :
    Agrees (Same id) (selectors ts) (selectors ts') := by
  rw [selectors, selectors]
  refine .bind_accept hw ⟨rfl, hw⟩ ?_
  rintro ts₁ ts₁' h₁ h₁' hw₁
  refine .bind_expect hw₁ ?_
  rintro name name' ts₂ ts₂' h₂ h₂' hn hw₂
  refine .bind (selectors_agrees hw₂) ?_
  rintro more more' ts₃ ts₃' h₃ h₃' hm hw₃
  exact ⟨congrArg₂ List.cons hn hm, hw₃⟩
termination_by ts.length

theorem designator_agrees {ts ts' : List Token} (hw : words ts = words ts') :
    Agrees (Same Designator.unplaced) (designator src ts) (designator src' ts') := by
  refine .bind_expect hw ?_
  rintro base base' ts₁ ts₁' h₁ h₁' hb hw₁
  refine .bind (selectors_agrees hw₁) ?_
  rintro names names' ts₂ ts₂' h₂ h₂' hn hw₂
  obtain rfl : names = names' := hn
  refine ⟨?_, hw₂⟩
  simp [Designator.unplaced, hb]

/-- Two designators that differ in their place only. -/
theorem designator_cases {d d' : Designator} (h : d.unplaced = d'.unplaced) :
    d.base = d'.base ∧ d.selectors = d'.selectors ∧ d.text = d'.text := by
  obtain ⟨location, base, selectors⟩ := d
  obtain ⟨location', base', selectors'⟩ := d'
  cases h
  exact ⟨rfl, rfl, rfl⟩

theorem literal_agrees {P P' : List Token → Prop} {t t' : Token} (ht : t.text = t'.text)
    {rest rest' : List Token} (hw : words rest = words rest') {h : P rest} {h' : P' rest'} :
    Agrees (Same Expr.unplaced)
      (do return (← literal src t, ⟨rest, h⟩) : Result (Expr × { rest // P rest }))
      (do return (← literal src' t', ⟨rest', h'⟩) : Result (Expr × { rest // P' rest })) := by
  unfold literal
  dsimp only
  rw [ht]
  split
  · exact .throw rfl
  split
  · exact .throw rfl
  split
  · exact .throw rfl
  · exact ⟨rfl, hw⟩

mutual

theorem expression_agrees {ts ts' : List Token} (hw : words ts = words ts') :
    Agrees (Same Expr.unplaced) (expression src ts) (expression src' ts') := by
  rw [expression, expression]
  refine .bind (term_agrees hw) ?_
  rintro a a' ts₁ ts₁' h₁ h₁' ha hw₁
  refine .bind (sums_agrees ha hw₁) ?_
  rintro e e' ts₂ ts₂' h₂ h₂' he hw₂
  exact ⟨he, hw₂⟩
termination_by (ts.length, 2)

theorem sums_agrees {left left' : Expr} (hl : left.unplaced = left'.unplaced)
    {ts ts' : List Token} (hw : words ts = words ts') :
    Agrees (Same Expr.unplaced) (sums src left ts) (sums src' left' ts') := by
  rw [sums, sums]
  refine .bind_next hw ?_
  rintro t t' ts₁ ts₁' h₁ h₁' hkind htext hw₁
  dsimp only
  rw [hkind, htext]
  split
  · refine .bind (term_agrees hw₁) ?_
    rintro b b' ts₂ ts₂' h₂ h₂' hb hw₂
    refine .bind (sums_agrees ?_ hw₂) ?_
    · simp [Expr.unplaced, hl, hb]
    · rintro e e' ts₃ ts₃' h₃ h₃' he hw₃
      exact ⟨he, hw₃⟩
  · exact ⟨hl, hw⟩
termination_by (ts.length, 0)

theorem term_agrees {ts ts' : List Token} (hw : words ts = words ts') :
    Agrees (Same Expr.unplaced) (term src ts) (term src' ts') := by
  rw [term, term]
  refine .bind (factor_agrees hw) ?_
  rintro a a' ts₁ ts₁' h₁ h₁' ha hw₁
  refine .bind (products_agrees ha hw₁) ?_
  rintro e e' ts₂ ts₂' h₂ h₂' he hw₂
  exact ⟨he, hw₂⟩
termination_by (ts.length, 1)

theorem products_agrees {left left' : Expr} (hl : left.unplaced = left'.unplaced)
    {ts ts' : List Token} (hw : words ts = words ts') :
    Agrees (Same Expr.unplaced) (products src left ts) (products src' left' ts') := by
  rw [products, products]
  refine .bind_next hw ?_
  rintro t t' ts₁ ts₁' h₁ h₁' hkind - hw₁
  dsimp only
  rw [hkind]
  cases multiplicative? t'.kind with
  | none => exact ⟨hl, hw⟩
  | some op =>
    refine .bind (factor_agrees hw₁) ?_
    rintro b b' ts₂ ts₂' h₂ h₂' hb hw₂
    refine .bind (products_agrees ?_ hw₂) ?_
    · simp [Expr.unplaced, hl, hb]
    · rintro e e' ts₃ ts₃' h₃ h₃' he hw₃
      exact ⟨he, hw₃⟩
termination_by (ts.length, 0)

theorem factor_agrees {ts ts' : List Token} (hw : words ts = words ts') :
    Agrees (Same Expr.unplaced) (factor src ts) (factor src' ts') := by
  rw [factor, factor]
  refine .bind_next hw ?_
  rintro t t' ts₁ ts₁' h₁ h₁' hkind ht hw₁
  dsimp only
  rw [hkind]
  cases t'.kind
  case number => exact literal_agrees src src' ht hw₁
  case lparen =>
    refine .bind (expression_agrees hw₁) ?_
    rintro e e' ts₂ ts₂' h₂ h₂' he hw₂
    refine .bind_expect hw₂ ?_
    rintro r r' ts₃ ts₃' h₃ h₃' - hw₃
    exact ⟨congrArg (Expr.parens default) he, hw₃⟩
  case ident =>
    refine .bind (designator_agrees src src' hw) ?_
    rintro d d' ts₂ ts₂' h₂ h₂' hd hw₂
    obtain ⟨hbase, hselectors, -⟩ := designator_cases hd
    dsimp only
    rw [hselectors]
    split
    · refine .bind_peek hw₂ ?_
      rintro u u' hkind' -
      rw [hkind']
      split
      · refine .bind (arguments_agrees hw₂) ?_
        rintro args args' ts₃ ts₃' h₃ h₃' ha hw₃
        refine ⟨?_, hw₃⟩
        simp [Expr.unplaced, hbase, ha]
      · exact ⟨congrArg Expr.ref hd, hw₂⟩
    · exact ⟨congrArg Expr.ref hd, hw₂⟩
  all_goals exact .throw rfl
termination_by (ts.length, 0)

theorem arguments_agrees {ts ts' : List Token} (hw : words ts = words ts') :
    Agrees (Same Expr.allUnplaced) (arguments src ts) (arguments src' ts') := by
  rw [arguments, arguments]
  refine .bind_expect hw ?_
  rintro l l' ts₁ ts₁' h₁ h₁' - hw₁
  refine .bind_peek hw₁ ?_
  rintro t t' hkind -
  dsimp only
  rw [hkind]
  split
  · refine .bind_expect hw₁ ?_
    rintro r r' ts₂ ts₂' h₂ h₂' - hw₂
    exact ⟨rfl, hw₂⟩
  · refine .bind (expressions_agrees hw₁) ?_
    rintro es es' ts₂ ts₂' h₂ h₂' hes hw₂
    refine .bind_expect hw₂ ?_
    rintro r r' ts₃ ts₃' h₃ h₃' - hw₃
    exact ⟨hes, hw₃⟩
termination_by (ts.length, 0)

theorem expressions_agrees {ts ts' : List Token} (hw : words ts = words ts') :
    Agrees (Same Expr.allUnplaced) (expressions src ts) (expressions src' ts') := by
  rw [expressions, expressions]
  refine .bind (expression_agrees hw) ?_
  rintro e e' ts₁ ts₁' h₁ h₁' he hw₁
  refine .bind_accept hw₁ ⟨congrArg ([·]) he, hw₁⟩ ?_
  rintro ts₂ ts₂' h₂ h₂' hw₂
  refine .bind (expressions_agrees hw₂) ?_
  rintro es es' ts₃ ts₃' h₃ h₃' hes hw₃
  exact ⟨congrArg₂ List.cons he hes, hw₃⟩
termination_by (ts.length, 3)

end

/-! Statements. -/

theorem optionalArguments_agrees {ts ts' : List Token} (hw : words ts = words ts') :
    Agrees (Same Expr.allUnplaced) (optionalArguments src ts) (optionalArguments src' ts') := by
  refine .bind_peek hw ?_
  rintro t t' hkind -
  rw [hkind]
  split
  · refine .bind (arguments_agrees src src' hw) ?_
    rintro args args' ts₁ ts₁' h₁ h₁' ha hw₁
    exact ⟨ha, hw₁⟩
  · exact ⟨rfl, hw⟩

theorem statement_agrees {ts ts' : List Token} (hw : words ts = words ts') :
    Agrees (Same Statement.unplaced) (statement src ts) (statement src' ts') := by
  refine .bind_peek hw ?_
  rintro t t' hkind -
  dsimp only
  rw [hkind]
  split
  · exact .throw rfl
  refine .bind (designator_agrees src src' hw) ?_
  rintro d d' ts₁ ts₁' h₁ h₁' hd hw₁
  obtain ⟨hbase, hselectors, htext⟩ := designator_cases hd
  refine .bind_accept hw₁ ?_ ?_
  · dsimp only
    rw [hselectors]
    split
    · refine .bind (optionalArguments_agrees src src' hw₁) ?_
      rintro args args' ts₂ ts₂' h₂ h₂' ha hw₂
      refine ⟨?_, hw₂⟩
      simp [Statement.unplaced, hbase, ha]
    · refine .bind (optionalArguments_agrees src src' hw₁) ?_
      rintro args args' ts₂ ts₂' h₂ h₂' ha hw₂
      refine ⟨?_, hw₂⟩
      simp [Statement.unplaced, hbase, ha]
    · rw [htext]
      exact .throw rfl
  · rintro ts₂ ts₂' h₂ h₂' hw₂
    refine .bind (expression_agrees src src' hw₂) ?_
    rintro e e' ts₃ ts₃' h₃ h₃' he hw₃
    refine ⟨?_, hw₃⟩
    simp [Statement.unplaced, hd, he]

theorem statements_agrees {ts ts' : List Token} (hw : words ts = words ts') :
    Agrees (Same (List.map Statement.unplaced)) (statements src ts) (statements src' ts') := by
  rw [statements, statements]
  refine .bind_next hw ?_
  rintro t t' ts₁ ts₁' h₁ h₁' hkind - hw₁
  dsimp only
  rw [hkind]
  split
  · exact ⟨rfl, hw⟩
  split
  · refine .bind (statements_agrees hw₁) ?_
    rintro ss ss' ts₂ ts₂' h₂ h₂' hss hw₂
    exact ⟨hss, hw₂⟩
  · refine .bind (statement_agrees src src' hw) ?_
    rintro s s' ts₂ ts₂' h₂ h₂' hs hw₂
    refine .bind_peek hw₂ ?_
    rintro u u' hkind' -
    rw [hkind']
    split
    · exact ⟨congrArg ([·]) hs, hw₂⟩
    · refine .bind_expect hw₂ ?_
      rintro semi semi' ts₃ ts₃' h₃ h₃' - hw₃
      refine .bind (statements_agrees hw₃) ?_
      rintro ss ss' ts₄ ts₄' h₄ h₄' hss hw₄
      exact ⟨congrArg₂ List.cons hs hss, hw₄⟩
termination_by ts.length

theorem block_agrees {ts ts' : List Token} (hw : words ts = words ts') :
    Agrees (Same Block.unplaced) (block src ts) (block src' ts') := by
  refine .bind_expect hw ?_
  rintro first first' ts₁ ts₁' h₁ h₁' - hw₁
  refine .bind (statements_agrees src src' hw₁) ?_
  rintro ss ss' ts₂ ts₂' h₂ h₂' hss hw₂
  refine .bind_expect hw₂ ?_
  rintro last last' ts₃ ts₃' h₃ h₃' - hw₃
  exact ⟨congrArg (Block.mk default) hss, hw₃⟩

/-! Sections. -/

theorem methodImpl_agrees (word word' : Token) (kind : MethodKind) {ts ts' : List Token}
    (hw : words ts = words ts') :
    Agrees (Same MethodImpl.unplaced) (methodImpl src word kind ts)
      (methodImpl src' word' kind ts') := by
  refine .bind_expect hw ?_
  rintro className className' ts₁ ts₁' h₁ h₁' hc hw₁
  refine .bind_expect hw₁ ?_
  rintro dot dot' ts₂ ts₂' h₂ h₂' - hw₂
  refine .bind_expect hw₂ ?_
  rintro name name' ts₃ ts₃' h₃ h₃' hn hw₃
  refine .bind (params_agrees src src' hw₃) ?_
  rintro ps ps' ts₄ ts₄' h₄ h₄' hp hw₄
  refine .bind (returnType_agrees kind _ _ hw₄) ?_
  rintro type type' ts₅ ts₅' h₅ h₅' ht hw₅
  refine .bind_expect hw₅ ?_
  rintro semi semi' ts₆ ts₆' h₆ h₆' - hw₆
  refine .bind (block_agrees src src' hw₆) ?_
  rintro body body' ts₇ ts₇' h₇ h₇' hb hw₇
  refine .bind_expect hw₇ ?_
  rintro last last' ts₈ ts₈' h₈ h₈' - hw₈
  obtain rfl : type = type' := ht
  refine ⟨?_, hw₈⟩
  simp [MethodImpl.unplaced, hc, hn, hp, hb]

def Declarations.unplaced (d : Declarations) : Declarations where
  classes := d.classes.map (Section.unplaced ClassDecl.unplaced)
  vars := d.vars.map (Section.unplaced NameGroup.unplaced)
  methods := d.methods.map (Section.unplaced MethodImpl.unplaced)

theorem prepend_unplaced {α : Type} (f : α → α) (loc : Location) (items : List α)
    (later : Option (Section α)) :
    (prepend loc items later).map (Section.unplaced f) =
      prepend default (items.map f) (later.map (Section.unplaced f)) := by
  cases later <;> simp [prepend, Section.unplaced]

theorem declarations_cases {d d' : Declarations} (h : d.unplaced = d'.unplaced) :
    d.classes.map (Section.unplaced ClassDecl.unplaced) =
        d'.classes.map (Section.unplaced ClassDecl.unplaced) ∧
      d.vars.map (Section.unplaced NameGroup.unplaced) =
        d'.vars.map (Section.unplaced NameGroup.unplaced) ∧
      d.methods.map (Section.unplaced MethodImpl.unplaced) =
        d'.methods.map (Section.unplaced MethodImpl.unplaced) :=
  ⟨congrArg Declarations.classes h, congrArg Declarations.vars h,
    congrArg Declarations.methods h⟩

theorem sections_agrees {ts ts' : List Token} (hw : words ts = words ts') :
    Agrees (Same Declarations.unplaced) (sections src ts) (sections src' ts') := by
  rw [sections, sections]
  refine .bind_next hw ?_
  rintro t t' ts₁ ts₁' h₁ h₁' hkind - hw₁
  dsimp only
  rw [hkind]
  split
  · exact ⟨rfl, hw⟩
  · refine .bind (classDecls_agrees src src' hw₁) ?_
    rintro ds ds' ts₂ ts₂' h₂ h₂' hds hw₂
    refine .bind (sections_agrees hw₂) ?_
    rintro later later' ts₃ ts₃' h₃ h₃' hlater hw₃
    obtain ⟨hclasses, hvars, hmethods⟩ := declarations_cases hlater
    refine ⟨?_, hw₃⟩
    simp [Declarations.unplaced, prepend_unplaced, hds, hclasses, hvars, hmethods]
  · refine .bind (varDecls_agrees src src' hw₁) ?_
    rintro gs gs' ts₂ ts₂' h₂ h₂' hgs hw₂
    refine .bind (sections_agrees hw₂) ?_
    rintro later later' ts₃ ts₃' h₃ h₃' hlater hw₃
    obtain ⟨hclasses, hvars, hmethods⟩ := declarations_cases hlater
    refine ⟨?_, hw₃⟩
    simp [Declarations.unplaced, prepend_unplaced, hgs, hclasses, hvars, hmethods]
  · cases methodKind? t'.kind with
    | some kind =>
      refine .bind (methodImpl_agrees src src' t t' kind hw₁) ?_
      rintro m m' ts₂ ts₂' h₂ h₂' hm hw₂
      refine .bind (sections_agrees hw₂) ?_
      rintro later later' ts₃ ts₃' h₃ h₃' hlater hw₃
      obtain ⟨hclasses, hvars, hmethods⟩ := declarations_cases hlater
      refine ⟨?_, hw₃⟩
      simp [Declarations.unplaced, prepend_unplaced, hm, hclasses, hvars, hmethods]
    | none => exact .throw rfl
termination_by ts.length

theorem title_agrees {ts ts' : List Token} (hw : words ts = words ts') :
    Agrees (Same id) (title ts) (title ts') := by
  refine .bind_accept hw ⟨rfl, hw⟩ ?_
  rintro ts₁ ts₁' h₁ h₁' hw₁
  refine .bind_expect hw₁ ?_
  rintro name name' ts₂ ts₂' h₂ h₂' hn hw₂
  refine .bind_expect hw₂ ?_
  rintro semi semi' ts₃ ts₃' h₃ h₃' - hw₃
  exact ⟨congrArg some hn, hw₃⟩

end Parser

/-! Programs. -/

/-- Where tokens stand makes no difference to what they are read as, nor to why they are no
program. -/
theorem Program.ofTokens_agrees (src src' : Source) {ts ts' : List Token}
    (hw : words ts = words ts') :
    Agrees (fun p p' => p.unplaced = p'.unplaced) (Program.ofTokens src ts)
      (Program.ofTokens src' ts') := by
  unfold Program.ofTokens
  refine .bind_peek hw ?_
  rintro first first' - -
  refine .bind (title_agrees hw) ?_
  rintro name name' ts₁ ts₁' h₁ h₁' hname hw₁
  refine .bind (sections_agrees src src' hw₁) ?_
  rintro d d' ts₂ ts₂' h₂ h₂' hd hw₂
  refine .bind (block_agrees src src' hw₂) ?_
  rintro b b' ts₃ ts₃' h₃ h₃' hb hw₃
  refine .bind_expect hw₃ ?_
  rintro dot dot' ts₄ ts₄' h₄ h₄' - hw₄
  refine .bind_expect hw₄ ?_
  rintro eof eof' ts₅ ts₅' h₅ h₅' - -
  obtain rfl : name = name' := hname
  obtain ⟨hclasses, hvars, hmethods⟩ := declarations_cases hd
  change Program.unplaced _ = Program.unplaced _
  simp [Program.unplaced, hclasses, hvars, hmethods, hb]

/-- Two texts are read as the same program up to places, or are no programs for the same reason up
to its place. -/
def SameReading (r r' : Except SourceError Program) : Prop :=
  match r, r' with
  | .ok p, .ok p' => p.unplaced = p'.unplaced
  | .error (.parse e), .error (.parse e') => e.unplaced = e'.unplaced
  | _, _ => False

/-- Texts with the same tokens are read alike. -/
theorem Program.ofText_agrees (file file' : String) {text text' : String} {ts ts' : List Token}
    (h : scan text = .ok ts) (h' : scan text' = .ok ts') (hw : words ts = words ts') :
    SameReading (Program.ofText file text) (Program.ofText file' text') := by
  have hagrees := Program.ofTokens_agrees (Source.ofText file text) (Source.ofText file' text') hw
  unfold Program.ofText
  rw [h, h']
  change SameReading ((Program.ofTokens _ ts).mapError _) ((Program.ofTokens _ ts').mapError _)
  cases hp : Program.ofTokens (Source.ofText file text) ts with
  | ok p =>
    cases hp' : Program.ofTokens (Source.ofText file' text') ts' with
    | ok p' =>
      rw [hp, hp'] at hagrees
      exact hagrees
    | error e' =>
      rw [hp, hp'] at hagrees
      exact hagrees.elim
  | error e =>
    cases hp' : Program.ofTokens (Source.ofText file' text') ts' with
    | ok p' =>
      rw [hp, hp'] at hagrees
      exact hagrees.elim
    | error e' =>
      rw [hp, hp'] at hagrees
      exact hagrees

/-- Scanning undoes printing: it gives the tokens that were written out, with the end marker,
however they were laid out; and so layout makes no difference to what is read. -/
theorem scan_undoes_printing (lead : List Filler) (items : List (Lexeme × Separator)) :
    (∃ ts, scan (String.ofList (printed lead items)) = .ok ts ∧
      ts.map Token.word = items.map (·.1.word) ++ [(.eof, "")]) ∧
    ∀ file file' lead' items', items'.map Prod.fst = items.map Prod.fst →
      SameReading (Program.ofText file (String.ofList (printed lead items)))
        (Program.ofText file' (String.ofList (printed lead' items'))) := by
  have hscan : ∀ lead items, ∃ ts, scan (String.ofList (printed lead items)) = .ok ts ∧
      ts.map Token.word = (items.map Prod.fst).map Lexeme.word ++ [(.eof, "")] := by
    intro lead items
    obtain ⟨ts, hts, hwords⟩ := tokensFrom_printed {} lead items
    unfold scan
    rw [String.toList_ofList, List.map_map]
    exact ⟨ts, hts, hwords⟩
  obtain ⟨ts, hts, hwords⟩ := hscan lead items
  constructor
  · rw [List.map_map] at hwords
    exact ⟨ts, hts, hwords⟩
  · intro file file' lead' items' hitems
    obtain ⟨ts', hts', hwords'⟩ := hscan lead' items'
    rw [hitems, ← hwords] at hwords'
    exact Program.ofText_agrees file file' hts hts' hwords'.symm

/-- The shortest program, on one line and with comments on several. -/
theorem scan_undoes_printing_shortest :
    let first : Lexeme := ⟨.beginKw, ['b', 'E', 'g', 'i', 'n'],
      .keyword rfl (List.all_eq_true.mp rfl) (by decide) rfl⟩
    let last : Lexeme := ⟨.endKw, ['e', 'n', 'd'],
      .keyword rfl (List.all_eq_true.mp rfl) (by decide) rfl⟩
    let dot : Lexeme := ⟨.dot, ['.'], .symbol rfl⟩
    let space : Separator := ⟨' ', rfl, []⟩
    let remark : Separator := ⟨'\n', rfl, [.stars ['*', '(', '*'] (by decide),
      .slashes ['\x7b'] (by decide)]⟩
    SameReading
      (Program.ofText "" (String.ofList (printed [] [(first, space), (last, space), (dot, space)])))
      (Program.ofText "" (String.ofList (printed [.braces ['/', '/'] (by decide)]
        [(first, remark), (last, space), (dot, remark)]))) := by
  intro first last dot space remark
  have h := scan_undoes_printing [] [(first, space), (last, space), (dot, space)]
  exact h.2 "" "" [.braces ['/', '/'] (by decide)]
    [(first, remark), (last, space), (dot, remark)] rfl

end ObjectPascal
