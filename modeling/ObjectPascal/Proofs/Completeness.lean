import ObjectPascal.Proofs.Soundness

/-!
What the grammar derives is read back: a parsing function in front of a stretch of its sort takes
that stretch and no more, provided the next token does not go on with it.
-/

namespace ObjectPascal

open ObjectPascal.Parser ObjectPascal.Grammar

namespace Parser

section

variable {α β : Type} {P P' : List Token → Prop} {a : α} {b : β} {rest rest' : List Token}

/-- The result is `a`, with `rest` left. -/
def Gives (r : Result (α × { rest : List Token // P rest })) (a : α) (rest : List Token) : Prop :=
  ∃ h, r = .ok (a, ⟨rest, h⟩)

namespace Gives

theorem pure {h : P rest} :
    Gives (Pure.pure (a, ⟨rest, h⟩) : Result (α × { rest // P rest })) a rest :=
  ⟨h, rfl⟩

theorem bind {x : Result (α × { rest // P rest })}
    {f : α × { rest // P rest } → Result (β × { rest // P' rest })} (hx : Gives x a rest)
    (hf : ∀ h, Gives (f (a, ⟨rest, h⟩)) b rest') : Gives (x >>= f) b rest' := by
  obtain ⟨h, rfl⟩ := hx
  exact hf h

/-- Going on to a last result, with no tokens left over. -/
theorem bind_ok {x : Result (α × { rest // P rest })} {f : α × { rest // P rest } → Result β}
    (hx : Gives x a rest) (hf : ∀ h, f (a, ⟨rest, h⟩) = .ok b) : (x >>= f) = .ok b := by
  obtain ⟨h, rfl⟩ := hx
  exact hf h

variable {t : Token} {ts : List Token} {kind : TokenKind}

theorem bind_peek {f : Token → Result (α × { rest // P rest })} (hf : Gives (f t) a rest) :
    Gives (peek (t :: ts) >>= f) a rest :=
  hf

theorem bind_next {f : Token × Fewer (t :: ts) → Result (α × { rest // P rest })}
    (hf : ∀ h, Gives (f (t, ⟨ts, h⟩)) a rest) : Gives (next (t :: ts) >>= f) a rest :=
  hf _

theorem expect (ht : t.kind = kind) : Gives (expect kind (t :: ts)) t ts := by
  refine ⟨by simp, ?_⟩
  simp [Parser.expect, ht]

theorem bind_expect {f : Token × Fewer (t :: ts) → Result (α × { rest // P rest })}
    (ht : t.kind = kind) (hf : ∀ h, Gives (f (t, ⟨ts, h⟩)) a rest) :
    Gives (Parser.expect kind (t :: ts) >>= f) a rest :=
  bind (expect ht) hf

theorem bind_accept {f : Option (Fewer (t :: ts)) → Result (α × { rest // P rest })}
    (ht : t.kind = kind) (hf : ∀ h, Gives (f (some ⟨ts, h⟩)) a rest) :
    Gives (accept kind (t :: ts) >>= f) a rest := by
  have he : accept kind (t :: ts) = .ok (some ⟨ts, by simp⟩) := by simp [accept, ht]
  rw [he]
  exact hf _

theorem bind_accept_ne {f : Option (Fewer (t :: ts)) → Result (α × { rest // P rest })}
    (ht : t.kind ≠ kind) (hf : Gives (f none) a rest) :
    Gives (accept kind (t :: ts) >>= f) a rest := by
  have he : accept kind (t :: ts) = .ok none := by simp [accept, ht]
  rw [he]
  exact hf

end Gives

end

/-- From the tokens `ts`, the function reads `a` and leaves `rest`. -/
def Reads {α : Type} {P : List Token → List Token → Prop}
    (read : (ts : List Token) → Result (α × { rest : List Token // P ts rest }))
    (ts : List Token) (a : α) (rest : List Token) : Prop :=
  Gives (read ts) a rest

/-- No numeral is longer than an integer may be written. -/
def ShortNumerals (ts : List Token) : Prop :=
  ∀ t ∈ ts, t.kind = .number → t.text.toList.length ≤ Text.maxDigits

@[simp] theorem shortNumerals_append {ts ts' : List Token} :
    ShortNumerals (ts ++ ts') ↔ ShortNumerals ts ∧ ShortNumerals ts' := by
  simp [ShortNumerals, or_imp, forall_and]

@[simp] theorem shortNumerals_cons {t : Token} {ts : List Token} :
    ShortNumerals (t :: ts) ↔
      (t.kind = .number → t.text.toList.length ≤ Text.maxDigits) ∧ ShortNumerals ts := by
  simp [ShortNumerals]

/-! Words and signs. -/

theorem methodKind?_of_mem {k : TokenKind} {kind : MethodKind} (h : (k, kind) ∈ methodWords) :
    methodKind? k = some kind := by
  simp only [methodWords, List.mem_cons, Prod.mk.injEq, List.not_mem_nil, or_false] at h
  rcases h with ⟨rfl, rfl⟩ | ⟨rfl, rfl⟩ | ⟨rfl, rfl⟩ | ⟨rfl, rfl⟩ <;> rfl

theorem visibility?_of_mem {k : TokenKind} {v : Visibility} (h : (k, v) ∈ markers) :
    visibility? k = some v := by
  simp only [markers, List.mem_cons, Prod.mk.injEq, List.not_mem_nil, or_false] at h
  rcases h with ⟨rfl, rfl⟩ | ⟨rfl, rfl⟩ | ⟨rfl, rfl⟩ <;> rfl

theorem isAdditive_of_mem {k : TokenKind} (h : k ∈ additiveSigns) : isAdditive k := by
  simp only [additiveSigns, List.mem_cons, List.not_mem_nil, or_false] at h
  rcases h with rfl | rfl <;> rfl

theorem multiplicative?_of_mem {k : TokenKind} {op : Operator}
    (h : (k, op) ∈ multiplicativeSigns) : multiplicative? k = some op := by
  simp only [multiplicativeSigns, List.mem_cons, Prod.mk.injEq, List.not_mem_nil, or_false] at h
  rcases h with ⟨rfl, rfl⟩ | ⟨rfl, rfl⟩ | ⟨rfl, rfl⟩ <;> rfl

/-! How a stretch starts. -/

/-- There is a first token, and its kind is one with `K`. -/
def Starts (ts : List Token) (K : TokenKind → Prop) : Prop :=
  ∃ t us, ts = t :: us ∧ K t.kind

namespace Starts

variable {t : Token} {ts : List Token} {K K' : TokenKind → Prop}

theorem of_cons (h : K t.kind) : Starts (t :: ts) K :=
  ⟨t, ts, rfl, h⟩

theorem mono (h : Starts ts K) (hk : ∀ k, K k → K' k) : Starts ts K' := by
  obtain ⟨t, us, rfl, h⟩ := h
  exact ⟨t, us, rfl, hk _ h⟩

theorem append (h : Starts ts K) (ts' : List Token) : Starts (ts ++ ts') K := by
  obtain ⟨t, us, rfl, h⟩ := h
  exact ⟨t, us ++ ts', rfl, h⟩

theorem length_lt (h : Starts ts K) (ts' : List Token) : ts'.length < (ts ++ ts').length := by
  obtain ⟨t, us, rfl, -⟩ := h
  simp only [List.length_append, List.length_cons]
  omega

end Starts

variable {src : Source}

theorem group_starts {ts : List Token} {g : NameGroup} (h : Derives src .group ts g) :
    Starts ts (· = .ident) := by
  cases h with
  | group hs hc ht =>
    cases hs with
    | lastName ht => exact .of_cons ht
    | name ht => exact .of_cons ht

theorem groups_starts {ts : List Token} {gs : List NameGroup} (h : Derives src .groups ts gs) :
    Starts ts (· = .ident) := by
  cases h with
  | lastGroup hg => exact group_starts hg
  | moreGroups hg => exact (group_starts hg).append _

theorem member_starts {ts : List Token} {m : Member} (h : Derives src .member ts m) :
    Starts ts fun k => ((visibility? k).isSome || k = .endKw) = false := by
  cases h with
  | field hg =>
    refine ((group_starts hg).append _).mono ?_
    rintro _ rfl
    rfl
  | method hh =>
    cases hh with
    | header hw =>
      refine .of_cons ?_
      have hk := methodKind?_of_mem hw
      revert hk
      cases Token.kind _ <;> simp [methodKind?, visibility?]

theorem designator_starts {ts : List Token} {d : Designator} (h : Derives src .designator ts d) :
    Starts ts (· = .ident) := by
  cases h with
  | designator hb => exact .of_cons hb

theorem factor_starts {ts : List Token} {e : Expr} (h : Derives src .factor ts e) :
    Starts ts (· ≠ .rparen) := by
  cases h with
  | literal ht => exact .of_cons (by rw [ht]; decide)
  | parens hl => exact .of_cons (by rw [hl]; decide)
  | call hl => exact .of_cons (by rw [hl]; decide)
  | ref hd =>
    refine (designator_starts hd).mono ?_
    rintro _ rfl
    decide

theorem term_starts {ts : List Token} {e : Expr} (h : Derives src .term ts e) :
    Starts ts (· ≠ .rparen) := by
  cases h with
  | factor he => exact factor_starts he
  | product ha => exact (term_starts ha).append _
termination_by ts.length

theorem expr_starts {ts : List Token} {e : Expr} (h : Derives src .expr ts e) :
    Starts ts (· ≠ .rparen) := by
  cases h with
  | term he => exact term_starts he
  | sum ha => exact (expr_starts ha).append _
termination_by ts.length

theorem exprs_starts {ts : List Token} {es : List Expr} (h : Derives src .exprs ts es) :
    Starts ts (· ≠ .rparen) := by
  cases h with
  | lastExpr he => exact expr_starts he
  | moreExprs he => exact (expr_starts he).append _

theorem arguments_starts {ts : List Token} {es : List Expr} (h : Derives src .arguments ts es) :
    Starts ts (· = .lparen) := by
  cases h with
  | emptyArguments hl => exact .of_cons hl
  | arguments hl => exact .of_cons hl

theorem statement_starts {ts : List Token} {s : Statement} (h : Derives src .statement ts s) :
    Starts ts (· = .ident) := by
  cases h with
  | assignment hd => exact (designator_starts hd).append _
  | methodCall hl => exact .of_cons hl
  | procedureCall hn => exact .of_cons hn

/-! Declarations. -/

theorem names_complete {ts : List Token} {ns : List String} (h : Derives src .names ts ns)
    {t : Token} (ht : t.kind ≠ .comma) (rest : List Token) :
    Reads names (ts ++ t :: rest) ns (t :: rest) := by
  unfold Reads
  rw [names]
  cases h with
  | lastName hn =>
    refine .bind_expect hn fun _ => ?_
    exact .bind_accept_ne ht .pure
  | name hn hc hs =>
    refine .bind_expect hn fun _ => ?_
    refine .bind_accept hc fun _ => ?_
    exact .bind (names_complete hs ht rest) fun _ => .pure
termination_by ts.length

theorem nameGroup_complete {ts : List Token} {g : NameGroup} (h : Derives src .group ts g)
    (rest : List Token) : Reads (nameGroup src) (ts ++ rest) g rest := by
  cases h with
  | @group t colon type us ns hs hc ht =>
    have hn := names_complete hs (t := colon) (by rw [hc]; decide) (type :: rest)
    refine .bind_peek ?_
    rw [List.append_assoc]
    refine .bind hn fun _ => ?_
    refine .bind_expect hc fun _ => ?_
    exact .bind_expect ht fun _ => .pure

theorem nameGroupLine_complete {ts : List Token} {g : NameGroup} (h : Derives src .group ts g)
    {semi : Token} (hs : semi.kind = .semi) (rest : List Token) :
    Reads (nameGroupLine src) (ts ++ semi :: rest) g rest := by
  refine .bind (nameGroup_complete h (semi :: rest)) fun _ => ?_
  exact .bind_expect hs fun _ => .pure

theorem paramGroups_complete {ts : List Token} {gs : List NameGroup}
    (h : Derives src .groups ts gs) {t : Token} (ht : t.kind ≠ .semi) (rest : List Token) :
    Reads (paramGroups src) (ts ++ t :: rest) gs (t :: rest) := by
  cases h with
  | lastGroup hg =>
    unfold Reads
    rw [paramGroups]
    refine .bind (nameGroup_complete hg (t :: rest)) fun _ => ?_
    exact .bind_accept_ne ht .pure
  | @moreGroups semi us us' g gs hg hs hm =>
    have hn := nameGroup_complete hg (semi :: (us' ++ t :: rest))
    rw [List.append_assoc, List.cons_append]
    unfold Reads
    rw [paramGroups]
    refine .bind hn fun _ => ?_
    refine .bind_accept hs fun _ => ?_
    exact .bind (paramGroups_complete hm ht rest) fun _ => .pure
termination_by ts.length

theorem params_complete {ts : List Token} {ps : List NameGroup} (h : Derives src .params ts ps)
    {t : Token} (ht : t.kind ≠ .lparen) (rest : List Token) :
    Reads (params src) (ts ++ t :: rest) ps (t :: rest) := by
  cases h with
  | noParams => exact .bind_accept_ne ht .pure
  | emptyParams hl hr =>
    refine .bind_accept hl fun _ => ?_
    refine .bind_peek ?_
    dsimp only
    rw [if_pos hr]
    exact .bind_expect hr fun _ => .pure
  | @params l r us gs hl hg hr =>
    obtain ⟨first, more, rfl, hi⟩ := groups_starts hg
    have hn := paramGroups_complete hg (t := r) (by rw [hr]; decide) (t :: rest)
    rw [List.append_assoc]
    refine .bind_accept hl fun _ => ?_
    refine .bind_peek ?_
    dsimp only
    rw [if_neg (by rw [hi]; decide)]
    refine .bind hn fun _ => ?_
    exact .bind_expect hr fun _ => .pure

theorem returnType_complete {kind : MethodKind} {ts : List Token} {type : Option String}
    (h : Derives src (.resultType kind) ts type) (line : Nat) (rest : List Token) :
    Reads (returnType kind line) (ts ++ rest) type rest := by
  cases h with
  | resultType hc ht =>
    refine .bind_accept hc fun _ => ?_
    exact .bind_expect ht fun _ => .pure
  | noResultType hk =>
    unfold Reads returnType
    rw [if_pos hk]
    exact .pure

/-- What follows a parameter list does not start one. -/
theorem resultType_semi_starts {kind : MethodKind} {ts : List Token} {type : Option String}
    (h : Derives src (.resultType kind) ts type) {semi : Token} (hs : semi.kind = .semi)
    (rest : List Token) : Starts (ts ++ semi :: rest) (· ≠ .lparen) := by
  cases h with
  | resultType hc => exact .of_cons (by rw [hc]; decide)
  | noResultType => exact .of_cons (by rw [hs]; decide)

theorem methodHeader_complete {word : Token} {ts : List Token} {header : MethodHeader}
    (h : Derives src .header (word :: ts) header) (rest : List Token) :
    ∃ kind, methodKind? word.kind = some kind ∧
      Reads (methodHeader src word kind) (ts ++ rest) header rest := by
  cases h with
  | @header _ name semi kind us us' ps type hw hn hp ht hs =>
    refine ⟨kind, methodKind?_of_mem hw, ?_⟩
    obtain ⟨t, vs, hv, hne⟩ := resultType_semi_starts ht hs rest
    have hparams := params_complete hp hne vs
    rw [← hv] at hparams
    have htype := returnType_complete ht word.line (semi :: rest)
    simp only [List.append_eq, List.append_assoc, List.cons_append, List.nil_append]
    refine .bind_expect hn fun _ => ?_
    refine .bind hparams fun _ => ?_
    refine .bind htype fun _ => ?_
    exact .bind_expect hs fun _ => .pure

theorem member_complete {ts : List Token} {m : Member} (h : Derives src .member ts m)
    (rest : List Token) : Reads (member src) (ts ++ rest) m rest := by
  cases h with
  | @field semi us g hg hs =>
    obtain ⟨first, more, rfl, hi⟩ := group_starts hg
    have hline := nameGroupLine_complete hg hs rest
    rw [List.append_assoc]
    refine .bind_next fun _ => ?_
    have hk : methodKind? first.kind = none := by rw [hi]; rfl
    dsimp only
    rw [hk]
    dsimp only
    rw [if_pos hi]
    exact .bind hline fun _ => .pure
  | method hh =>
    cases ts with
    | nil => cases hh
    | cons word us =>
      obtain ⟨kind, hk, hr⟩ := methodHeader_complete hh rest
      refine .bind_next fun _ => ?_
      dsimp only
      rw [hk]
      exact .bind hr fun _ => .pure

theorem markedMembers_complete {ts : List Token} {ms : List Member}
    (h : Derives src .members ts ms) {rest : List Token} (hstop : EndsMembers rest) :
    Reads (markedMembers src) (ts ++ rest) ms rest := by
  unfold Reads
  rw [markedMembers]
  cases h with
  | noMembers =>
    obtain ⟨t, us, rfl, ht⟩ := hstop
    refine .bind_peek ?_
    rw [if_pos ht]
    exact .pure
  | @moreMembers us us' m ms hm hs =>
    have hlen := (member_starts hm).length_lt us'
    have hr := member_complete hm (us' ++ rest)
    rw [← List.append_assoc] at hr
    obtain ⟨t, vs, hv, ht⟩ := ((member_starts hm).append us').append rest
    have hmore := markedMembers_complete hs hstop
    rw [hv] at hr ⊢
    refine .bind_peek ?_
    rw [if_neg (by simp [ht])]
    refine .bind hr fun _ => ?_
    exact .bind hmore fun _ => .pure
termination_by ts.length

theorem classItems_marked_complete {ts : List Token} {items : List ClassItem}
    (h : Derives src .marked ts items) {last : Token} (hl : last.kind = .endKw)
    (rest : List Token) : Reads (classItems src) (ts ++ last :: rest) items (last :: rest) := by
  cases h with
  | noMarked =>
    unfold Reads
    rw [List.nil_append, classItems]
    refine .bind_next fun _ => ?_
    dsimp only
    rw [if_pos hl]
    exact .pure
  | @moreMarked marker visibility us us' ms items hv hm hi =>
    have hend : marker.kind ≠ .endKw := by
      intro he
      rw [he] at hv
      cases visibility?_of_mem hv
    have hstop : EndsMembers (us' ++ last :: rest) := by
      cases hi with
      | noMarked => exact ⟨last, rest, rfl, by simp [hl]⟩
      | moreMarked hv => exact ⟨_, _, rfl, by simp [visibility?_of_mem hv]⟩
    have hmembers := markedMembers_complete hm hstop
    have hmore := classItems_marked_complete hi hl rest
    simp only [List.cons_append, List.append_assoc]
    unfold Reads
    rw [classItems]
    refine .bind_next fun _ => ?_
    dsimp only
    rw [if_neg hend, visibility?_of_mem hv]
    refine .bind hmembers fun _ => ?_
    exact .bind hmore fun _ => .pure
termination_by ts.length

/-- Members under no marker come in front of what else the class lists. -/
theorem classItems_complete {ts : List Token} {ms : List Member} (h : Derives src .members ts ms)
    {ts' rest : List Token} {items : List ClassItem}
    (hi : Reads (classItems src) ts' items rest) :
    Reads (classItems src) (ts ++ ts') (ms.map .member ++ items) rest := by
  cases h with
  | noMembers => exact hi
  | @moreMembers us us' m ms hm hs =>
    have hlen := (member_starts hm).length_lt us'
    have hr := member_complete hm (us' ++ ts')
    rw [← List.append_assoc] at hr
    obtain ⟨t, vs, hv, ht⟩ := ((member_starts hm).append us').append ts'
    have hmore := classItems_complete hs hi
    obtain ⟨hvis, hend⟩ : visibility? t.kind = none ∧ t.kind ≠ .endKw := by
      simpa using ht
    rw [hv] at hr ⊢
    unfold Reads
    rw [classItems]
    refine .bind_next fun _ => ?_
    dsimp only
    rw [if_neg hend, hvis]
    refine .bind hr fun _ => ?_
    exact .bind hmore fun _ => .pure
termination_by ts.length

theorem classDecl_complete {ts : List Token} {d : ClassDecl} (h : Derives src .classDecl ts d)
    (rest : List Token) : Reads (classDecl src) (ts ++ rest) d rest := by
  cases h with
  | @classDecl name equals word last semi us us' ms items hn he hc hm hi hl hs =>
    have hmarked := classItems_marked_complete hi hl (semi :: rest)
    have hitems := classItems_complete hm hmarked
    simp only [List.append_assoc, List.cons_append, List.nil_append]
    refine .bind_expect hn fun _ => ?_
    refine .bind_expect he fun _ => ?_
    refine .bind_expect hc fun _ => ?_
    refine .bind hitems fun _ => ?_
    refine .bind_expect hl fun _ => ?_
    exact .bind_expect hs fun _ => .pure

theorem classDecl_starts {ts : List Token} {d : ClassDecl} (h : Derives src .classDecl ts d) :
    Starts ts (· = .ident) := by
  cases h with
  | classDecl hn => exact .of_cons hn

theorem classDecls_starts {ts : List Token} {ds : List ClassDecl}
    (h : Derives src .classDecls ts ds) : Starts ts (· = .ident) := by
  cases h with
  | lastClass hd => exact classDecl_starts hd
  | moreClasses hd => exact (classDecl_starts hd).append _

theorem varDecls_starts {ts : List Token} {gs : List NameGroup}
    (h : Derives src .varDecls ts gs) : Starts ts (· = .ident) := by
  cases h with
  | lastVar hg => exact (group_starts hg).append _
  | moreVars hg => exact (group_starts hg).append _

theorem classDecls_complete {ts : List Token} {ds : List ClassDecl}
    (h : Derives src .classDecls ts ds) {t : Token} (ht : t.kind ≠ .ident) (rest : List Token) :
    Reads (classDecls src) (ts ++ t :: rest) ds (t :: rest) := by
  unfold Reads
  rw [classDecls]
  cases h with
  | lastClass hd =>
    refine .bind (classDecl_complete hd (t :: rest)) fun _ => ?_
    refine .bind_peek ?_
    dsimp only
    rw [if_neg ht]
    exact .pure
  | @moreClasses us us' d ds hd hs =>
    have hlen := (classDecl_starts hd).length_lt us'
    have hmore := classDecls_complete hs ht rest
    have hr := classDecl_complete hd (us' ++ t :: rest)
    obtain ⟨u, vs, hv, hu⟩ := (classDecls_starts hs).append (t :: rest)
    rw [List.append_assoc]
    rw [hv] at hr hmore ⊢
    refine .bind hr fun _ => ?_
    refine .bind_peek ?_
    dsimp only
    rw [if_pos hu]
    exact .bind hmore fun _ => .pure
termination_by ts.length

theorem varDecls_complete {ts : List Token} {gs : List NameGroup}
    (h : Derives src .varDecls ts gs) {t : Token} (ht : t.kind ≠ .ident) (rest : List Token) :
    Reads (varDecls src) (ts ++ t :: rest) gs (t :: rest) := by
  unfold Reads
  rw [varDecls]
  cases h with
  | lastVar hg hs =>
    have hr := nameGroupLine_complete hg hs (t :: rest)
    rw [List.append_assoc]
    refine .bind hr fun _ => ?_
    refine .bind_peek ?_
    dsimp only
    rw [if_neg ht]
    exact .pure
  | @moreVars semi us us' g gs hg hs hm =>
    have hmore := varDecls_complete hm ht rest
    have hr := nameGroupLine_complete hg hs (us' ++ t :: rest)
    obtain ⟨u, vs, hv, hu⟩ := (varDecls_starts hm).append (t :: rest)
    rw [List.append_assoc, List.cons_append]
    rw [hv] at hr hmore ⊢
    refine .bind hr fun _ => ?_
    refine .bind_peek ?_
    dsimp only
    rw [if_pos hu]
    exact .bind hmore fun _ => .pure
termination_by ts.length

/-! Expressions. -/

theorem selectors_complete {ts : List Token} {ns : List String}
    (h : Derives src .selectors ts ns) {t : Token} (ht : t.kind ≠ .dot) (rest : List Token) :
    Reads selectors (ts ++ t :: rest) ns (t :: rest) := by
  unfold Reads
  rw [selectors]
  cases h with
  | noSelectors => exact .bind_accept_ne ht .pure
  | selector hd hn hs =>
    refine .bind_accept hd fun _ => ?_
    refine .bind_expect hn fun _ => ?_
    exact .bind (selectors_complete hs ht rest) fun _ => .pure
termination_by ts.length

theorem designator_complete {ts : List Token} {d : Designator}
    (h : Derives src .designator ts d) {t : Token} (ht : t.kind ≠ .dot) (rest : List Token) :
    Reads (designator src) (ts ++ t :: rest) d (t :: rest) := by
  cases h with
  | designator hb hs =>
    refine .bind_expect hb fun _ => ?_
    exact .bind (selectors_complete hs ht rest) fun _ => .pure

/-- Kinds of tokens that do not go on with a factor. -/
def EndsFactor (k : TokenKind) : Prop :=
  k ≠ .dot ∧ k ≠ .lparen

/-- Kinds of tokens that do not go on with a term. -/
def EndsTerm (k : TokenKind) : Prop :=
  EndsFactor k ∧ multiplicative? k = none

/-- Kinds of tokens that do not go on with an expression. -/
def EndsExpression (k : TokenKind) : Prop :=
  EndsTerm k ∧ isAdditive k = false

instance (k : TokenKind) : Decidable (EndsFactor k) :=
  inferInstanceAs (Decidable (_ ∧ _))

instance (k : TokenKind) : Decidable (EndsTerm k) :=
  inferInstanceAs (Decidable (_ ∧ _))

instance (k : TokenKind) : Decidable (EndsExpression k) :=
  inferInstanceAs (Decidable (_ ∧ _))

theorem endsFactor_of_multiplicative {k : TokenKind} {op : Operator}
    (h : multiplicative? k = some op) : EndsFactor k := by
  cases k <;> simp_all [multiplicative?, EndsFactor]

theorem endsTerm_of_additive {k : TokenKind} (h : isAdditive k) : EndsTerm k := by
  cases k <;> simp_all [isAdditive, EndsTerm, EndsFactor, multiplicative?]

theorem products_stop (e : Expr) {t : Token} (ht : multiplicative? t.kind = none)
    (rest : List Token) : Reads (products src e) (t :: rest) e (t :: rest) := by
  unfold Reads
  rw [products]
  refine .bind_next fun _ => ?_
  dsimp only
  rw [ht]
  exact .pure

theorem sums_stop (e : Expr) {t : Token} (ht : isAdditive t.kind = false) (rest : List Token) :
    Reads (sums src e) (t :: rest) e (t :: rest) := by
  unfold Reads
  rw [sums]
  refine .bind_next fun _ => ?_
  dsimp only
  rw [if_neg (by rw [ht]; decide)]
  exact .pure

mutual

theorem factor_complete {ts : List Token} {e : Expr} (h : Derives src .factor ts e)
    (hn : ShortNumerals ts) {t : Token} (ht : EndsFactor t.kind) (rest : List Token) :
    Reads (factor src) (ts ++ t :: rest) e (t :: rest) := by
  cases h with
  | @literal u hu hnumeral hv =>
    have hd : ¬ Text.maxDigits < u.text.toList.length := Nat.not_lt.mpr ((shortNumerals_cons.mp hn).1 hu)
    have hl : literal src u = .ok (.literal (placeOf src u) (Text.digitsValue u.text.toList)) := by
      unfold literal
      dsimp only
      rw [if_neg (by simpa using hnumeral), if_neg hd, if_neg (by omega)]
      rfl
    unfold Reads
    rw [factor]
    refine .bind_next fun _ => ?_
    dsimp only
    rw [hu, hl]
    exact .pure
  | @parens l r us e hl he hr =>
    have hns := (shortNumerals_append.mp (shortNumerals_cons.mp hn).2).1
    have hinner := expression_complete he hns (t := r) (by rw [hr]; decide)
      (sums_stop e (by rw [hr]; rfl) (t :: rest))
    rw [List.append_assoc]
    unfold Reads
    rw [factor]
    refine .bind_next fun _ => ?_
    dsimp only
    rw [hl]
    refine .bind hinner fun _ => ?_
    exact .bind_expect hr fun _ => .pure
  | @call left dot member us args hl hd hm ha =>
    have hns : ShortNumerals us := by simp_all
    have hargs := arguments_complete ha hns (t :: rest)
    obtain ⟨u, vs, hu, hk⟩ := (arguments_starts ha).append (t :: rest)
    have hnames : Derives src .designator [left, dot, member] _ :=
      .designator hl (.selector hd hm .noSelectors)
    have hdesignator := designator_complete hnames (t := u) (by rw [hk]; decide) vs
    simp only [List.cons_append]
    rw [hu] at hargs ⊢
    unfold Reads
    rw [factor]
    refine .bind_next fun _ => ?_
    dsimp only
    rw [hl]
    refine .bind hdesignator fun _ => ?_
    refine .bind_peek ?_
    rw [if_pos hk]
    exact .bind hargs fun _ => .pure
  | @ref us d hd =>
    have hdesignator := designator_complete hd ht.1 rest
    obtain ⟨u, vs, hu, hk⟩ := (designator_starts hd).append (t :: rest)
    unfold Reads
    rw [factor]
    rw [hu] at hdesignator ⊢
    refine .bind_next fun _ => ?_
    dsimp only
    rw [hk]
    refine .bind hdesignator fun _ => ?_
    dsimp only
    split
    · refine .bind_peek ?_
      rw [if_neg ht.2]
      exact .pure
    · exact .pure
termination_by (ts.length, 0)

/-- A term is read with the factors that come after it. -/
theorem term_complete {ts : List Token} {e : Expr} (h : Derives src .term ts e)
    (hn : ShortNumerals ts) {t : Token} (ht : EndsFactor t.kind) {rest : List Token} {e' : Expr}
    {rest' : List Token} (hp : Reads (products src e) (t :: rest) e' rest') :
    Reads (term src) (ts ++ t :: rest) e' rest' := by
  cases h with
  | factor he =>
    unfold Reads
    rw [term]
    refine .bind (factor_complete he hn ht rest) fun _ => ?_
    exact .bind hp fun _ => .pure
  | @product sign op us us' a b ha hs hb =>
    obtain ⟨hna, hnb⟩ := shortNumerals_append.mp hn
    have hop := multiplicative?_of_mem hs
    have hright := factor_complete hb (shortNumerals_cons.mp hnb).2 ht rest
    rw [List.append_assoc, List.cons_append]
    refine term_complete ha hna (endsFactor_of_multiplicative hop) ?_
    unfold Reads
    rw [products]
    refine .bind_next fun _ => ?_
    dsimp only
    rw [hop]
    refine .bind hright fun _ => ?_
    exact .bind hp fun _ => .pure
termination_by (ts.length, 1)

/-- An expression is read with the terms that come after it. -/
theorem expression_complete {ts : List Token} {e : Expr} (h : Derives src .expr ts e)
    (hn : ShortNumerals ts) {t : Token} (ht : EndsTerm t.kind) {rest : List Token} {e' : Expr}
    {rest' : List Token} (hs : Reads (sums src e) (t :: rest) e' rest') :
    Reads (expression src) (ts ++ t :: rest) e' rest' := by
  cases h with
  | term he =>
    unfold Reads
    rw [expression]
    refine .bind (term_complete he hn ht.1 (products_stop _ ht.2 rest)) fun _ => ?_
    exact .bind hs fun _ => .pure
  | @sum sign us us' a b ha ho hb =>
    obtain ⟨hna, hnb⟩ := shortNumerals_append.mp hn
    have hop := isAdditive_of_mem ho
    have hright := term_complete hb (shortNumerals_cons.mp hnb).2 ht.1 (products_stop _ ht.2 rest)
    rw [List.append_assoc, List.cons_append]
    refine expression_complete ha hna (endsTerm_of_additive hop) ?_
    unfold Reads
    rw [sums]
    refine .bind_next fun _ => ?_
    dsimp only
    rw [if_pos hop]
    refine .bind hright fun _ => ?_
    exact .bind hs fun _ => .pure
termination_by (ts.length, 2)

theorem arguments_complete {ts : List Token} {es : List Expr} (h : Derives src .arguments ts es)
    (hn : ShortNumerals ts) (rest : List Token) :
    Reads (arguments src) (ts ++ rest) es rest := by
  cases h with
  | emptyArguments hl hr =>
    unfold Reads
    rw [arguments]
    refine .bind_expect hl fun _ => ?_
    refine .bind_peek ?_
    dsimp only
    rw [if_pos hr]
    exact .bind_expect hr fun _ => .pure
  | @arguments l r us es hl he hr =>
    have hns := (shortNumerals_append.mp (shortNumerals_cons.mp hn).2).1
    obtain ⟨u, vs, rfl, hk⟩ := exprs_starts he
    have hargs := expressions_complete he hns (t := r) (by rw [hr]; decide) (by rw [hr]; decide)
      rest
    rw [List.append_assoc]
    unfold Reads
    rw [arguments]
    refine .bind_expect hl fun _ => ?_
    refine .bind_peek ?_
    dsimp only
    rw [if_neg hk]
    refine .bind hargs fun _ => ?_
    exact .bind_expect hr fun _ => .pure
termination_by (ts.length, 0)

theorem expressions_complete {ts : List Token} {es : List Expr} (h : Derives src .exprs ts es)
    (hn : ShortNumerals ts) {t : Token} (ht : EndsExpression t.kind) (hc : t.kind ≠ .comma)
    (rest : List Token) : Reads (expressions src) (ts ++ t :: rest) es (t :: rest) := by
  cases h with
  | lastExpr he =>
    unfold Reads
    rw [expressions]
    refine .bind (expression_complete he hn ht.1 (sums_stop _ ht.2 rest)) fun _ => ?_
    exact .bind_accept_ne hc .pure
  | @moreExprs comma us us' e es he hk hs =>
    obtain ⟨hne, hns⟩ := shortNumerals_append.mp hn
    have hfirst := expression_complete he hne (t := comma) (by rw [hk]; decide)
      (sums_stop e (by rw [hk]; rfl) (us' ++ t :: rest))
    have hmore := expressions_complete hs (shortNumerals_cons.mp hns).2 ht hc rest
    rw [List.append_assoc, List.cons_append]
    unfold Reads
    rw [expressions]
    refine .bind hfirst fun _ => ?_
    refine .bind_accept hk fun _ => ?_
    exact .bind hmore fun _ => .pure
termination_by (ts.length, 3)

end

/-! Statements. -/

theorem optionalArguments_complete {ts : List Token} {es : List Expr}
    (h : Derives src .optionalArguments ts es) (hn : ShortNumerals ts) {t : Token}
    (ht : t.kind ≠ .lparen) (rest : List Token) :
    Reads (optionalArguments src) (ts ++ t :: rest) es (t :: rest) := by
  cases h with
  | noArguments =>
    refine .bind_peek ?_
    rw [if_neg ht]
    exact .pure
  | someArguments he =>
    have hargs := arguments_complete he hn (t :: rest)
    obtain ⟨u, vs, hu, hk⟩ := (arguments_starts he).append (t :: rest)
    rw [hu] at hargs ⊢
    refine .bind_peek ?_
    rw [if_pos hk]
    exact .bind hargs fun _ => .pure

theorem optionalArguments_ends {ts : List Token} {es : List Expr}
    (h : Derives src .optionalArguments ts es) {t : Token} (ht : t.kind = .semi ∨ t.kind = .endKw)
    (rest : List Token) : Starts (ts ++ t :: rest) fun k => k ≠ .dot ∧ k ≠ .assign := by
  cases h with
  | noArguments =>
    refine .of_cons ?_
    rcases ht with ht | ht <;> rw [ht] <;> decide
  | someArguments he =>
    refine ((arguments_starts he).append _).mono ?_
    rintro _ rfl
    decide

theorem statement_complete {ts : List Token} {s : Statement} (h : Derives src .statement ts s)
    (hn : ShortNumerals ts) {t : Token} (ht : t.kind = .semi ∨ t.kind = .endKw)
    (rest : List Token) : Reads (statement src) (ts ++ t :: rest) s (t :: rest) := by
  have hends : EndsExpression t.kind := by
    rcases ht with ht | ht <;> rw [ht] <;> decide
  cases h with
  | @assignment sign us us' d e hd hs he =>
    obtain ⟨-, hns⟩ := shortNumerals_append.mp hn
    have hvalue := expression_complete he (shortNumerals_cons.mp hns).2 hends.1
      (sums_stop e hends.2 rest)
    have htarget := designator_complete hd (t := sign) (by rw [hs]; decide) (us' ++ t :: rest)
    obtain ⟨u, vs, hu, hk⟩ := (designator_starts hd).append (sign :: (us' ++ t :: rest))
    have hloc : d.location = placeOf src u := by
      cases hd with
      | designator hb =>
        obtain ⟨rfl, -⟩ := List.cons.inj hu
        rfl
    rw [List.append_assoc, List.cons_append]
    rw [hu] at htarget ⊢
    refine .bind_peek ?_
    dsimp only
    rw [if_neg (by rw [hk]; decide), hloc]
    refine .bind htarget fun _ => ?_
    refine .bind_accept hs fun _ => ?_
    exact .bind hvalue fun _ => .pure
  | @methodCall left dot member us args hl hd hm ha =>
    have hns : ShortNumerals us := by simp_all
    have hargs := optionalArguments_complete ha hns hends.1.1.2 rest
    obtain ⟨u, vs, hu, hdot, hassign⟩ := optionalArguments_ends ha ht rest
    have hnames : Derives src .designator [left, dot, member] _ :=
      .designator hl (.selector hd hm .noSelectors)
    have htarget := designator_complete hnames hdot vs
    simp only [List.cons_append]
    rw [hu] at hargs ⊢
    refine .bind_peek ?_
    dsimp only
    rw [if_neg (by rw [hl]; decide)]
    refine .bind htarget fun _ => ?_
    refine .bind_accept_ne hassign ?_
    exact .bind hargs fun _ => .pure
  | @procedureCall name us args hname ha =>
    have hns := (shortNumerals_cons.mp hn).2
    have hargs := optionalArguments_complete ha hns hends.1.1.2 rest
    obtain ⟨u, vs, hu, hdot, hassign⟩ := optionalArguments_ends ha ht rest
    have hnames : Derives src .designator [name] _ := .designator hname .noSelectors
    have htarget := designator_complete hnames hdot vs
    simp only [List.cons_append]
    rw [hu] at hargs ⊢
    refine .bind_peek ?_
    dsimp only
    rw [if_neg (by rw [hname]; decide)]
    refine .bind htarget fun _ => ?_
    refine .bind_accept_ne hassign ?_
    exact .bind hargs fun _ => .pure

theorem statements_complete {ts : List Token} {ss : List Statement}
    (h : Derives src .statements ts ss) (hn : ShortNumerals ts) {last : Token}
    (hl : last.kind = .endKw) (rest : List Token) :
    Reads (statements src) (ts ++ last :: rest) ss (last :: rest) := by
  cases h with
  | lastStatement hs =>
    cases hs with
    | noStatement =>
      unfold Reads
      rw [List.nil_append, statements]
      refine .bind_next fun _ => ?_
      dsimp only
      rw [if_pos hl]
      exact .pure
    | someStatement hs =>
      have hr := statement_complete hs hn (.inr hl) rest
      obtain ⟨u, vs, hu, hk⟩ := (statement_starts hs).append (last :: rest)
      rw [hu] at hr ⊢
      unfold Reads
      rw [statements]
      refine .bind_next fun _ => ?_
      dsimp only
      rw [if_neg (by rw [hk]; decide), if_neg (by rw [hk]; decide)]
      refine .bind hr fun _ => ?_
      refine .bind_peek ?_
      rw [if_pos hl]
      exact .pure
  | @moreStatements semi us us' ss ss' hs hsemi hm =>
    obtain ⟨hns, hnm⟩ := shortNumerals_append.mp hn
    have hmore := statements_complete hm (shortNumerals_cons.mp hnm).2 hl rest
    cases hs with
    | noStatement =>
      unfold Reads
      rw [List.nil_append, List.cons_append, statements]
      refine .bind_next fun _ => ?_
      dsimp only
      rw [if_neg (by rw [hsemi]; decide), if_pos hsemi]
      exact .bind hmore fun _ => .pure
    | someStatement hs =>
      have hr := statement_complete hs hns (.inl hsemi) (us' ++ last :: rest)
      obtain ⟨u, vs, hu, hk⟩ := (statement_starts hs).append (semi :: (us' ++ last :: rest))
      rw [List.append_assoc, List.cons_append]
      rw [hu] at hr ⊢
      unfold Reads
      rw [statements]
      refine .bind_next fun _ => ?_
      dsimp only
      rw [if_neg (by rw [hk]; decide), if_neg (by rw [hk]; decide)]
      refine .bind hr fun _ => ?_
      refine .bind_peek ?_
      rw [if_neg (by rw [hsemi]; decide)]
      refine .bind_expect hsemi fun _ => ?_
      exact .bind hmore fun _ => .pure
termination_by ts.length

theorem block_complete {ts : List Token} {b : Block} (h : Derives src .block ts b)
    (hn : ShortNumerals ts) (rest : List Token) : Reads (block src) (ts ++ rest) b rest := by
  cases h with
  | @block first last us ss hf hs hl =>
    have hns := (shortNumerals_append.mp (shortNumerals_cons.mp hn).2).1
    have hr := statements_complete hs hns hl rest
    rw [List.append_assoc]
    refine .bind_expect hf fun _ => ?_
    refine .bind hr fun _ => ?_
    exact .bind_expect hl fun _ => .pure

/-! Sections. -/

theorem methodImpl_complete {word : Token} {ts : List Token} {m : MethodImpl}
    (h : Derives src .impl (word :: ts) m) (hn : ShortNumerals ts) (rest : List Token) :
    ∃ kind, methodKind? word.kind = some kind ∧ m.location = placeOf src word ∧
      Reads (methodImpl src word kind) (ts ++ rest) m rest := by
  cases h with
  | @impl _ className dot name semi semi' kind us us' body ps type b hw hc hd hname hp ht hs hb
      hs' =>
    refine ⟨kind, methodKind?_of_mem hw, rfl, ?_⟩
    have hns : ShortNumerals body := by simp_all
    obtain ⟨t, vs, hv, hne⟩ := resultType_semi_starts ht hs (body ++ semi' :: rest)
    have hparams := params_complete hp hne vs
    rw [← hv] at hparams
    have htype := returnType_complete ht word.line (semi :: (body ++ semi' :: rest))
    have hbody := block_complete hb hns (semi' :: rest)
    simp only [List.append_eq, List.append_assoc, List.cons_append, List.nil_append]
    refine .bind_expect hc fun _ => ?_
    refine .bind_expect hd fun _ => ?_
    refine .bind_expect hname fun _ => ?_
    refine .bind hparams fun _ => ?_
    refine .bind htype fun _ => ?_
    refine .bind_expect hs fun _ => ?_
    refine .bind hbody fun _ => ?_
    exact .bind_expect hs' fun _ => .pure

theorem part_starts {ts : List Token} {p : Part} (h : Derives src .part ts p) :
    Starts ts fun k => k ≠ .ident ∧ k ≠ .programKw := by
  cases h with
  | classPart hw => exact .of_cons (by rw [hw]; decide)
  | varPart hw => exact .of_cons (by rw [hw]; decide)
  | methodPart hm =>
    cases hm with
    | impl hw =>
      refine .of_cons ?_
      have hk := methodKind?_of_mem hw
      revert hk
      cases Token.kind _ <;> simp [methodKind?]

/-- Sections and the block after them start neither a declaration nor a title. -/
theorem parts_starts {ts : List Token} {ps : List Part} (h : Derives src .parts ts ps)
    {first : Token} (hf : first.kind = .beginKw) (rest : List Token) :
    Starts (ts ++ first :: rest) fun k => k ≠ .ident ∧ k ≠ .programKw := by
  cases h with
  | noParts => exact .of_cons (by rw [hf]; decide)
  | moreParts hp => exact ((part_starts hp).append _).append _

theorem sections_complete {ts : List Token} {ps : List Part} (h : Derives src .parts ts ps)
    (hn : ShortNumerals ts) {first : Token} (hf : first.kind = .beginKw) (rest : List Token) :
    Reads (sections src) (ts ++ first :: rest) (.ofParts ps) (first :: rest) := by
  cases h with
  | noParts =>
    unfold Reads
    rw [List.nil_append, sections]
    refine .bind_next fun _ => ?_
    dsimp only
    rw [hf]
    exact .pure
  | @moreParts us us' p ps hp hs =>
    obtain ⟨hnp, hns⟩ := shortNumerals_append.mp hn
    have hlen := (part_starts hp).length_lt us'
    have hmore := sections_complete hs hns hf rest
    obtain ⟨t, vs, hv, hident, -⟩ := parts_starts hs hf rest
    rw [List.append_assoc]
    cases hp with
    | @classPart word us ds hw hd =>
      have hr := classDecls_complete hd hident vs
      rw [← hv] at hr
      rw [List.cons_append, Declarations.ofParts_classes]
      unfold Reads
      rw [sections]
      refine .bind_next fun _ => ?_
      dsimp only
      rw [hw]
      refine .bind hr fun _ => ?_
      exact .bind hmore fun _ => .pure
    | @varPart word us gs hw hg =>
      have hr := varDecls_complete hg hident vs
      rw [← hv] at hr
      rw [List.cons_append, Declarations.ofParts_vars]
      unfold Reads
      rw [sections]
      refine .bind_next fun _ => ?_
      dsimp only
      rw [hw]
      refine .bind hr fun _ => ?_
      exact .bind hmore fun _ => .pure
    | @methodPart us m hm =>
      cases us with
      | nil => cases hm
      | cons word us =>
        obtain ⟨kind, hk, hloc, hr⟩ :=
          methodImpl_complete hm (shortNumerals_cons.mp hnp).2 (us' ++ first :: rest)
        rw [List.cons_append, Declarations.ofParts_method, hloc]
        unfold Reads
        rw [sections]
        refine .bind_next fun _ => ?_
        dsimp only
        split
        · next hb => rw [hb] at hk; cases hk
        · next hb => rw [hb] at hk; cases hk
        · next hb => rw [hb] at hk; cases hk
        · rw [hk]
          refine .bind hr fun _ => ?_
          exact .bind hmore fun _ => .pure
termination_by ts.length

theorem title_complete {ts : List Token} {name : Option String} (h : Derives src .title ts name)
    {t : Token} (ht : t.kind ≠ .programKw) (rest : List Token) :
    Reads title (ts ++ t :: rest) name (t :: rest) := by
  cases h with
  | noTitle => exact .bind_accept_ne ht .pure
  | title hw hn hs =>
    refine .bind_accept hw fun _ => ?_
    refine .bind_expect hn fun _ => ?_
    exact .bind_expect hs fun _ => .pure

end Parser

variable {src : Source}

/-- A stretch of the grammar with an end marker after it is read as what it stands for. -/
theorem Program.ofTokens_complete {ts : List Token} {p : Program}
    (h : Derives src .program ts p) (hn : ShortNumerals ts) {eof : Token}
    (he : eof.kind = .eof) : Program.ofTokens src (ts ++ [eof]) = .ok p := by
  cases h with
  | @program first dot us us' body name parts b ht hp hb hf hd =>
    obtain ⟨hnu, hnb⟩ : ShortNumerals us' ∧ ShortNumerals body := by simp_all
    have hblock := block_complete hb hnb [dot, eof]
    have hbegin : ∃ start more, body ++ [dot, eof] = start :: more ∧ start.kind = .beginKw := by
      cases hb with
      | block hs => exact ⟨_, _, rfl, hs⟩
    obtain ⟨start, more, hm, hs⟩ := hbegin
    have hsections := sections_complete hp hnu hs more
    obtain ⟨t, rest, hv, -, hprogram⟩ := parts_starts hp hs more
    have htitle := title_complete ht hprogram rest
    rw [← hv] at htitle
    rw [← hm] at htitle hsections
    have hpeek : peek (us ++ (us' ++ (body ++ [dot, eof]))) = .ok first := by
      cases hc : us ++ us' ++ body with
      | nil => rw [hc] at hf; cases hf
      | cons u vs =>
        rw [hc] at hf
        cases hf
        rw [← List.append_assoc, ← List.append_assoc, hc]
        rfl
    simp only [List.append_assoc, List.cons_append, List.nil_append]
    unfold Program.ofTokens
    rw [hpeek]
    refine htitle.bind_ok fun _ => ?_
    refine hsections.bind_ok fun _ => ?_
    refine hblock.bind_ok fun _ => ?_
    refine (Gives.expect hd).bind_ok fun _ => ?_
    exact (Gives.expect he).bind_ok fun _ => rfl

end ObjectPascal
