import Mathlib.Algebra.GroupWithZero.Nat
import ObjectPascal.Proofs.Progress

/-!
The front end comes to an end on every text. Its parsing functions stay in front of the end marker,
and what they read is paid for with tokens: each round of a repetition and each level of nesting
takes one of its own.
-/

namespace ObjectPascal

open ObjectPascal.Parser ObjectPascal.Grammar

/-! The sizes of trees: one for every node, and one for every name in a list of names. -/

def NameGroup.size (g : NameGroup) : Nat :=
  1 + g.names.length

def MethodHeader.size (h : MethodHeader) : Nat :=
  1 + (h.params.map NameGroup.size).sum

def Member.size : Member → Nat
  | .field g => g.size
  | .method h => h.size
  | .bare _ => 1

def ClassItem.size : ClassItem → Nat
  | .member m => m.size
  | .marked _ _ ms => 1 + (ms.map Member.size).sum

def ClassDecl.size (d : ClassDecl) : Nat :=
  1 + (d.items.map ClassItem.size).sum

def Designator.size (d : Designator) : Nat :=
  1 + d.selectors.length

mutual

def Expr.size : Expr → Nat
  | .literal .. => 1
  | .ref d => d.size
  | .binary _ _ a b => 1 + a.size + b.size
  | .parens _ e => 1 + e.size
  | .call _ _ _ args => 1 + Expr.allSize args
  | .bare _ => 1

def Expr.allSize : List Expr → Nat
  | [] => 0
  | e :: es => e.size + Expr.allSize es

end

def Statement.size : Statement → Nat
  | .assignment _ d e => 1 + d.size + e.size
  | .methodCall _ _ _ args => 1 + Expr.allSize args
  | .procedureCall _ _ args => 1 + Expr.allSize args
  | .bare _ => 1

def Block.size (b : Block) : Nat :=
  1 + (b.statements.map Statement.size).sum

def MethodImpl.size (m : MethodImpl) : Nat :=
  1 + (m.params.map NameGroup.size).sum + m.body.size

def Part.size : Part → Nat
  | .classes _ ds => (ds.map ClassDecl.size).sum
  | .vars _ gs => (gs.map NameGroup.size).sum
  | .method _ m => m.size

/-- The size of what stands in a section, if there is one. -/
def Section.size {α : Type} (f : α → Nat) (s : Option (Section α)) : Nat :=
  ((s.elim [] Section.items).map f).sum

def Parser.Declarations.size (d : Declarations) : Nat :=
  Section.size ClassDecl.size d.classes + Section.size NameGroup.size d.vars +
    Section.size MethodImpl.size d.methods

def Program.size (p : Program) : Nat :=
  1 + Section.size ClassDecl.size p.classes + Section.size NameGroup.size p.vars +
    Section.size MethodImpl.size p.methods + p.block.size

theorem NameGroup.size_pos (g : NameGroup) : 0 < g.size := by
  unfold size
  omega

theorem Member.size_pos (m : Member) : 0 < m.size := by
  cases m with
  | field g => exact g.size_pos
  | method h =>
    simp only [size, MethodHeader.size]
    omega
  | bare => exact Nat.one_pos

theorem ClassItem.size_pos (item : ClassItem) : 0 < item.size := by
  cases item with
  | member m => exact m.size_pos
  | marked =>
    simp only [size]
    omega

theorem Expr.size_pos (e : Expr) : 0 < e.size := by
  cases e <;> simp only [size, Designator.size] <;> omega

theorem Statement.size_pos (s : Statement) : 0 < s.size := by
  cases s <;> simp only [size] <;> omega

/-- A list without size has no elements. -/
theorem eq_nil_of_size {α : Type} {f : α → Nat} (hf : ∀ a, 0 < f a) {l : List α}
    (h : (l.map f).sum ≤ 0) : l = [] := by
  cases l with
  | nil => rfl
  | cons a l =>
    have ha := hf a
    rw [List.map_cons, List.sum_cons] at h
    omega

theorem eq_nil_of_allSize {es : List Expr} (h : Expr.allSize es ≤ 0) : es = [] := by
  cases es with
  | nil => rfl
  | cons e es =>
    have he := e.size_pos
    rw [Expr.allSize] at h
    omega

namespace Grammar

/-- The size of what a stretch of tokens stands for. -/
def Nonterminal.size : (n : Nonterminal) → n.Tree → Nat
  | .names | .selectors => List.length
  | .group => NameGroup.size
  | .groups | .params | .varDecls => fun gs => (gs.map NameGroup.size).sum
  | .resultType _ | .title => fun name => name.toList.length
  | .header => MethodHeader.size
  | .member => Member.size
  | .members => fun ms => (ms.map Member.size).sum
  | .marked => fun items => (items.map ClassItem.size).sum
  | .classDecl => ClassDecl.size
  | .classDecls => fun ds => (ds.map ClassDecl.size).sum
  | .designator => Designator.size
  | .factor | .term | .expr => Expr.size
  | .exprs | .arguments | .optionalArguments => Expr.allSize
  | .statement => Statement.size
  | .optionalStatement | .statements => fun ss => (ss.map Statement.size).sum
  | .block => Block.size
  | .impl => MethodImpl.size
  | .part => Part.size
  | .parts => fun ps => (ps.map Part.size).sum
  | .program => Program.size

theorem size_prepend {α : Type} (f : α → Nat) (loc : Location) (items : List α)
    (later : Option (Section α)) :
    Section.size f (prepend loc items later) = (items.map f).sum + Section.size f later := by
  unfold Section.size prepend
  rw [Option.elim_some, List.map_append, List.sum_append]

/-- Putting sections of a sort together loses nothing and adds nothing. -/
theorem size_ofParts (parts : List Part) :
    (Declarations.ofParts parts).size = (parts.map Part.size).sum := by
  induction parts with
  | nil => rfl
  | cons part parts ih =>
    rw [List.map_cons, List.sum_cons, ← ih]
    cases part with
    | classes loc ds =>
      rw [Declarations.ofParts_classes, Declarations.size, size_prepend]
      simp only [Part.size, Declarations.size]
      omega
    | vars loc gs =>
      rw [Declarations.ofParts_vars, Declarations.size, size_prepend]
      simp only [Part.size, Declarations.size]
      omega
    | method loc m =>
      rw [Declarations.ofParts_method, Declarations.size, size_prepend]
      simp only [Part.size, Declarations.size, List.map_cons, List.map_nil, List.sum_cons,
        List.sum_nil]
      omega

theorem size_members (ms : List Member) :
    ((ms.map ClassItem.member).map ClassItem.size).sum = (ms.map Member.size).sum := by
  rw [List.map_map]
  rfl

theorem size_program (location : Location) (name : Option String) (parts : List Part) (b : Block) :
    (Program.ofParts location name parts b).size = 1 + (parts.map Part.size).sum + b.size := by
  have h : (Program.ofParts location name parts b).size =
      1 + (Declarations.ofParts parts).size + b.size := by
    simp only [Program.size, Program.ofParts, Declarations.size, Declarations.ofParts]
    omega
  rw [h, size_ofParts]

variable {src : Source}

/-- What tokens stand for is no larger than they are many: every rule of the grammar has a token
for what it adds to the tree. -/
theorem Derives.size_le {n : Nonterminal} {ts : List Token} {tree : n.Tree}
    (h : Derives src n ts tree) : n.size tree ≤ ts.length := by
  induction h with
  | program _ _ _ _ _ _ ihparts ihblock =>
    simp only [Nonterminal.size, size_program, List.length_append, List.length_singleton]
      at ihparts ihblock ⊢
    omega
  | _ =>
    simp only [Nonterminal.size, NameGroup.size, MethodHeader.size, Member.size, ClassItem.size,
      ClassDecl.size, Designator.size, Expr.size, Expr.allSize, Statement.size, Block.size,
      MethodImpl.size, Part.size, size_members, List.length_append, List.length_cons,
      List.length_nil, List.map_cons, List.map_nil, List.map_append, List.sum_cons, List.sum_nil,
      List.sum_append, Option.toList] at *
    omega

end Grammar

namespace Parser

/-! Reading. -/

/-- The parsing functions, with what they are told about the tokens before those they read. -/
inductive Procedure where
  | names
  | nameGroup
  | nameGroupLine
  | paramGroups
  | params
  | returnType (kind : MethodKind) (line : Nat)
  | methodHeader (word : Token) (kind : MethodKind) (h : (word.kind, kind) ∈ methodWords)
  | member
  | markedMembers
  | classItems
  | classDecl
  | classDecls
  | varDecls
  | selectors
  | designator
  | expression
  | sums (left : Expr)
  | term
  | products (left : Expr)
  | factor
  | arguments
  | expressions
  | optionalArguments
  | statement
  | statements
  | block
  | methodImpl (word : Token) (kind : MethodKind) (h : (word.kind, kind) ∈ methodWords)
  | sections
  | title

/-- A result with the tokens left, without the proof that there are fewer. -/
def plain {α : Type} {P : List Token → Prop} (r : Result (α × { rest // P rest })) :
    Result (α × List Token) :=
  r.map fun x => (x.1, x.2.val)

namespace Procedure

/-- What a parsing function reads. -/
def Tree : Procedure → Type
  | names | selectors => List String
  | nameGroup | nameGroupLine => NameGroup
  | paramGroups | params | varDecls => List NameGroup
  | returnType .. | title => Option String
  | methodHeader .. => MethodHeader
  | member => Member
  | markedMembers => List Member
  | classItems => List ClassItem
  | classDecl => ClassDecl
  | classDecls => List ClassDecl
  | designator => Designator
  | expression | sums _ | term | products _ | factor => Expr
  | arguments | expressions | optionalArguments => List Expr
  | statement => Statement
  | statements => List Statement
  | block => Block
  | methodImpl .. => MethodImpl
  | sections => Declarations

def run (src : Source) : (p : Procedure) → List Token → Result (p.Tree × List Token)
  | names, ts => plain (Parser.names ts)
  | nameGroup, ts => plain (Parser.nameGroup src ts)
  | nameGroupLine, ts => plain (Parser.nameGroupLine src ts)
  | paramGroups, ts => plain (Parser.paramGroups src ts)
  | params, ts => plain (Parser.params src ts)
  | returnType kind line, ts => plain (Parser.returnType kind line ts)
  | methodHeader word kind _, ts => plain (Parser.methodHeader src word kind ts)
  | member, ts => plain (Parser.member src ts)
  | markedMembers, ts => plain (Parser.markedMembers src ts)
  | classItems, ts => plain (Parser.classItems src ts)
  | classDecl, ts => plain (Parser.classDecl src ts)
  | classDecls, ts => plain (Parser.classDecls src ts)
  | varDecls, ts => plain (Parser.varDecls src ts)
  | selectors, ts => plain (Parser.selectors ts)
  | designator, ts => plain (Parser.designator src ts)
  | expression, ts => plain (Parser.expression src ts)
  | sums left, ts => plain (Parser.sums src left ts)
  | term, ts => plain (Parser.term src ts)
  | products left, ts => plain (Parser.products src left ts)
  | factor, ts => plain (Parser.factor src ts)
  | arguments, ts => plain (Parser.arguments src ts)
  | expressions, ts => plain (Parser.expressions src ts)
  | optionalArguments, ts => plain (Parser.optionalArguments src ts)
  | statement, ts => plain (Parser.statement src ts)
  | statements, ts => plain (Parser.statements src ts)
  | block, ts => plain (Parser.block src ts)
  | methodImpl word kind _, ts => plain (Parser.methodImpl src word kind ts)
  | sections, ts => plain (Parser.sections src ts)
  | title, ts => plain (Parser.title ts)

def size : (p : Procedure) → p.Tree → Nat
  | names | selectors => List.length
  | nameGroup | nameGroupLine => NameGroup.size
  | paramGroups | params | varDecls => fun gs => (gs.map NameGroup.size).sum
  | returnType .. | title => fun name => name.toList.length
  | methodHeader .. => MethodHeader.size
  | member => Member.size
  | markedMembers => fun ms => (ms.map Member.size).sum
  | classItems => fun items => (items.map ClassItem.size).sum
  | classDecl => ClassDecl.size
  | classDecls => fun ds => (ds.map ClassDecl.size).sum
  | designator => Designator.size
  | expression | sums _ | term | products _ | factor => Expr.size
  | arguments | expressions | optionalArguments => Expr.allSize
  | statement => Statement.size
  | statements => fun ss => (ss.map Statement.size).sum
  | block => Block.size
  | methodImpl .. => MethodImpl.size
  | sections => Declarations.size

/-- The size of what was read before, and goes into what is read. -/
def given : Procedure → Nat
  | sums left | products left => left.size
  | methodHeader .. | methodImpl .. => 1
  | _ => 0

/-- What a parsing function gives when it takes no token, if it may do so. -/
def stopped : (p : Procedure) → Option p.Tree
  | params | markedMembers | classItems | selectors | optionalArguments | statements => some []
  | returnType kind _ => if kind = .function then none else some none
  | sums left | products left => some left
  | sections => some {}
  | title => some none
  | _ => none

/-- What was read is paid for, and where nothing was taken reading stopped. -/
structure Reads (p : Procedure) (used : List Token) (tree : p.Tree) : Prop where
  size : p.size tree ≤ used.length + p.given
  stops : used = [] → p.stopped = some tree

end Procedure

section

variable {α : Type} {P : List Token → Prop} {ts : List Token} {Q : List Token → α → Prop}

/-- Fewer tokens are left only when some were taken. -/
theorem Consumes.nonempty {r : Result (α × Fewer ts)} (h : Consumes ts r Q) :
    Consumes ts r fun used a => Q used a ∧ used ≠ [] := by
  cases r with
  | error e => exact h
  | ok x =>
    obtain ⟨used, hts, hn, hq⟩ := h
    refine ⟨used, hts, hn, hq, ?_⟩
    rintro rfl
    have hlt : x.2.val.length < ts.length := x.2.property
    have heq : ts.length = x.2.val.length := congrArg List.length hts
    omega

/-- A result with tokens taken from the front, or a justified error. -/
def Takes (ts : List Token) (r : Result (α × List Token)) (Q : List Token → α → Prop) : Prop :=
  match r with
  | .ok (a, rest) => ∃ used, ts = used ++ rest ∧ NoEnd used ∧ Q used a
  | .error e => Justified ts e

theorem Consumes.takes {r : Result (α × { rest // P rest })} (h : Consumes ts r Q) :
    Takes ts (plain r) Q := by
  cases r with
  | error e => exact h
  | ok x => exact h

end

variable (src : Source)

/-- The loop over additive operators adds what it reads to what is on its left. -/
theorem sums_size (left : Expr) (ts : List Token) :
    Consumes ts (sums src left ts) fun used e =>
      e.size ≤ used.length + left.size ∧ (used = [] → e = left) := by
  rw [sums]
  refine .bind_next ?_
  rintro t ts₁ h₁ rfl
  dsimp only
  split
  · next hsign =>
    refine .cons (ne_eof_of_isAdditive hsign) (.bind (term_sound src ts₁) ?_)
    rintro right ts₂ h₂ used - hr
    refine .bind (sums_size _ ts₂) ?_
    rintro e ts₃ h₃ used' - ⟨he, -⟩
    have hright : right.size ≤ used.length := hr.size_le
    refine .pure ⟨?_, fun h => by simp at h⟩
    simp only [Expr.size, List.length_cons, List.length_append, List.append_nil] at he ⊢
    omega
  · exact .pure ⟨Nat.le_add_left _ _, fun _ => rfl⟩
termination_by ts.length

theorem products_size (left : Expr) (ts : List Token) :
    Consumes ts (products src left ts) fun used e =>
      e.size ≤ used.length + left.size ∧ (used = [] → e = left) := by
  rw [products]
  refine .bind_next ?_
  rintro t ts₁ h₁ rfl
  dsimp only
  split
  · exact .pure ⟨Nat.le_add_left _ _, fun _ => rfl⟩
  · next op ho =>
    refine .cons (ne_eof_of_some rfl ho) (.bind (factor_sound src ts₁) ?_)
    rintro right ts₂ h₂ used - hr
    refine .bind (products_size _ ts₂) ?_
    rintro e ts₃ h₃ used' - ⟨he, -⟩
    have hright : right.size ≤ used.length := hr.size_le
    refine .pure ⟨?_, fun h => by simp at h⟩
    simp only [Expr.size, List.length_cons, List.length_append, List.append_nil] at he ⊢
    omega
termination_by ts.length

/-- No tokens are no sections. -/
theorem parts_nil {ts : List Token} {parts : List Part} (h : Derives src .parts ts parts)
    (hts : ts = []) : parts = [] := by
  cases h with
  | noParts => rfl
  | moreParts hp hs =>
    obtain ⟨rfl, -⟩ := List.append_eq_nil_iff.mp hts
    cases hp with
    | methodPart hm => cases hm

namespace Procedure

variable {p : Procedure} {ts : List Token}

/-- A function that must take a token. -/
theorem takes_some {r : Result (p.Tree × Fewer ts)}
    (h : Consumes ts r fun used tree => p.size tree ≤ used.length + p.given) :
    Takes ts (plain r) p.Reads := by
  refine (h.nonempty.mono ?_).takes
  rintro used tree ⟨hsize, hne⟩
  exact ⟨hsize, fun hnil => absurd hnil hne⟩

/-- A function that may take none. -/
theorem takes_any {P : List Token → Prop} {r : Result (p.Tree × { rest // P rest })}
    (h : Consumes ts r fun used tree =>
      p.size tree ≤ used.length + p.given ∧ (used = [] → p.stopped = some tree)) :
    Takes ts (plain r) p.Reads :=
  (h.mono fun _ _ hq => ⟨hq.1, hq.2⟩).takes

/-- A function that may take none, and stops with the one result that has no size. -/
theorem takes_sized {P : List Token → Prop} {r : Result (p.Tree × { rest // P rest })}
    (h : Consumes ts r fun used tree => p.size tree ≤ used.length)
    (hstop : ∀ tree, p.size tree ≤ 0 → p.stopped = some tree) : Takes ts (plain r) p.Reads := by
  refine takes_any (h.mono ?_)
  rintro used tree hsize
  refine ⟨Nat.le_add_right_of_le hsize, ?_⟩
  rintro rfl
  exact hstop tree hsize

/-- Every parsing function pays for what it reads. -/
theorem run_reads (p : Procedure) (ts : List Token) : Takes ts (p.run src ts) p.Reads := by
  cases p with
  | names => exact takes_some ((names_sound src ts).mono fun _ _ hd => hd.size_le)
  | nameGroup => exact takes_some ((nameGroup_sound src ts).mono fun _ _ hd => hd.size_le)
  | nameGroupLine =>
    refine takes_some ((nameGroupLine_sound src ts).mono ?_)
    rintro _ g ⟨used, semi, rfl, -, hg⟩
    have hsize : g.size ≤ used.length := hg.size_le
    change g.size ≤ (used ++ [semi]).length
    rw [List.length_append]
    omega
  | paramGroups => exact takes_some ((paramGroups_sound src ts).mono fun _ _ hd => hd.size_le)
  | params =>
    refine takes_sized ((params_sound src ts).mono fun _ _ hd => hd.size_le) ?_
    exact fun ps h => congrArg some (eq_nil_of_size NameGroup.size_pos h).symm
  | returnType kind line =>
    refine takes_any ((returnType_sound src kind line ts).mono ?_)
    rintro used type hd
    refine ⟨hd.size_le, ?_⟩
    rintro rfl
    cases hd with
    | noResultType hk => exact if_neg hk
  | methodHeader word kind hw =>
    exact takes_some ((methodHeader_sound src word kind hw ts).mono fun _ _ hd => hd.size_le)
  | member => exact takes_some ((member_sound src ts).mono fun _ _ hd => hd.size_le)
  | markedMembers =>
    refine takes_sized ((markedMembers_sound src ts).mono fun _ _ hd => hd.size_le) ?_
    exact fun ms h => congrArg some (eq_nil_of_size Member.size_pos h).symm
  | classItems =>
    refine takes_sized ((classItems_sound src ts).mono ?_) ?_
    · rintro _ items ⟨used, used', ms, marked, rfl, rfl, hm, hi, -⟩
      have hms : (ms.map Member.size).sum ≤ used.length := hm.size_le
      have hmarked : (marked.map ClassItem.size).sum ≤ used'.length := hi.size_le
      have hmembers : ((ms.map ClassItem.member).map ClassItem.size).sum =
          (ms.map Member.size).sum := size_members ms
      change ((ms.map ClassItem.member ++ marked).map ClassItem.size).sum ≤ (used ++ used').length
      rw [List.map_append, List.sum_append, hmembers, List.length_append]
      omega
    · exact fun items h => congrArg some (eq_nil_of_size ClassItem.size_pos h).symm
  | classDecl => exact takes_some ((classDecl_sound src ts).mono fun _ _ hd => hd.size_le)
  | classDecls => exact takes_some ((classDecls_sound src ts).mono fun _ _ hd => hd.size_le)
  | varDecls => exact takes_some ((varDecls_sound src ts).mono fun _ _ hd => hd.size_le)
  | selectors =>
    refine takes_sized ((selectors_sound src ts).mono fun _ _ hd => hd.size_le) ?_
    exact fun names h => congrArg some (List.length_eq_zero_iff.mp (Nat.le_zero.mp h)).symm
  | designator => exact takes_some ((designator_sound src ts).mono fun _ _ hd => hd.size_le)
  | expression => exact takes_some ((expression_sound src ts).mono fun _ _ hd => hd.size_le)
  | sums left =>
    refine takes_any ((sums_size src left ts).mono ?_)
    rintro used e ⟨hsize, hstop⟩
    exact ⟨hsize, fun hnil => congrArg some (hstop hnil).symm⟩
  | term => exact takes_some ((term_sound src ts).mono fun _ _ hd => hd.size_le)
  | products left =>
    refine takes_any ((products_size src left ts).mono ?_)
    rintro used e ⟨hsize, hstop⟩
    exact ⟨hsize, fun hnil => congrArg some (hstop hnil).symm⟩
  | factor => exact takes_some ((factor_sound src ts).mono fun _ _ hd => hd.size_le)
  | arguments => exact takes_some ((arguments_sound src ts).mono fun _ _ hd => hd.size_le)
  | expressions => exact takes_some ((expressions_sound src ts).mono fun _ _ hd => hd.size_le)
  | optionalArguments =>
    refine takes_sized ((optionalArguments_sound src ts).mono fun _ _ hd => hd.size_le) ?_
    exact fun args h => congrArg some (eq_nil_of_allSize h).symm
  | statement => exact takes_some ((statement_sound src ts).mono fun _ _ hd => hd.size_le)
  | statements =>
    refine takes_sized ((statements_sound src ts).mono fun _ _ hd => hd.size_le) ?_
    exact fun ss h => congrArg some (eq_nil_of_size Statement.size_pos h).symm
  | block => exact takes_some ((block_sound src ts).mono fun _ _ hd => hd.size_le)
  | methodImpl word kind hw =>
    exact takes_some ((methodImpl_sound src word kind hw ts).mono fun _ _ hd => hd.2.size_le)
  | sections =>
    refine takes_any ((sections_sound src ts).mono ?_)
    rintro used decls ⟨parts, rfl, hp⟩
    refine ⟨?_, ?_⟩
    · change (Declarations.ofParts parts).size ≤ used.length
      rw [size_ofParts]
      exact hp.size_le
    · intro hnil
      rw [parts_nil src hp hnil]
      rfl
  | title =>
    refine takes_any ((title_sound src ts).mono ?_)
    rintro used name hd
    refine ⟨hd.size_le, ?_⟩
    rintro rfl
    cases hd
    rfl

end Procedure

end Parser

/-- A numeral that is too long to be converted. -/
def Token.Overlong (t : Token) (n : Nat) : Prop :=
  t.kind = .number ∧ t.text.toList.length = n ∧ Text.maxDigits < n

/-- How reading a text ends: with a program, with an error in the text, or with a numeral that is
too long. -/
theorem Program.ofText_outcome (file text : String) :
    (∃ p ts, Program.ofText file text = .ok p ∧ scan text = .ok ts ∧ p.size ≤ ts.length) ∨
    (∃ e, Program.ofText file text = .error e ∧ e.IsSyntax) ∨
    ∃ n ts t, Program.ofText file text = .error (.parse (.tooManyDigits n)) ∧
      scan text = .ok ts ∧ t ∈ ts ∧ t.Overlong n := by
  unfold Program.ofText
  cases hs : scan text with
  | error problem => exact .inr (.inl ⟨_, rfl, trivial⟩)
  | ok ts =>
    have hread := Program.ofTokens_sound (Source.ofText file text) ts
    change (∃ p ts', (Program.ofTokens _ ts).mapError SourceError.parse = _ ∧ _) ∨
      (∃ e, (Program.ofTokens _ ts).mapError _ = _ ∧ _) ∨
        ∃ n ts' t, (Program.ofTokens _ ts).mapError _ = _ ∧ _
    cases hp : Program.ofTokens (Source.ofText file text) ts with
    | ok p =>
      rw [hp] at hread
      obtain ⟨body, eof, rest, hts, -, -, hd⟩ := hread
      have hsize : p.size ≤ body.length := hd.size_le
      refine .inl ⟨p, ts, rfl, rfl, ?_⟩
      rw [hts, List.length_append]
      omega
    | error e =>
      rw [hp] at hread
      by_cases hlong : ∃ n, e = .tooManyDigits n
      · obtain ⟨n, rfl⟩ := hlong
        obtain ⟨t, ht, hoverlong⟩ := hread.tooManyDigits n rfl
        exact .inr (.inr ⟨n, ts, t, rfl, rfl, ht, hoverlong⟩)
      · refine .inr (.inl ⟨_, rfl, ?_, fun n hn => hlong ⟨n, hn⟩, ?_⟩)
        · exact fun hend => Scan.tokensFrom_end _ _ hs (hread.pastEnd hend)
        · exact hread.ne_notANumeral (spelt_of_scan hs)

/-- What a parsing function does with tokens that have an end marker. -/
def Parser.Procedure.EndsWell (p : Procedure) (ts : List Token) :
    Result (p.Tree × List Token) → Prop
  | .ok (tree, rest) => ∃ used, ts = used ++ rest ∧ NoEnd used ∧ ¬ NoEnd rest ∧ p.Reads used tree
  | .error e => e ≠ .pastEnd ∧ (∀ n, e = .tooManyDigits n → ∃ t ∈ ts, t.Overlong n) ∧
    ∀ text, e = .notANumeral text → ∃ t ∈ ts, t.kind = .number ∧ ¬ Text.isNumeral t.text.toList

/-- Every text has one of three outcomes; and whatever tokens with an end marker the parsing
functions are given, they stay in front of the end marker, and take a token for all that they read
or stop at once. -/
theorem front_end_outcome :
    (∀ file text,
      (∃ p ts, Program.ofText file text = .ok p ∧ scan text = .ok ts ∧ p.size ≤ ts.length) ∨
      (∃ e, Program.ofText file text = .error e ∧ e.IsSyntax) ∨
      ∃ n ts t, Program.ofText file text = .error (.parse (.tooManyDigits n)) ∧
        scan text = .ok ts ∧ t ∈ ts ∧ t.Overlong n) ∧
    ∀ (src : Source) (p : Procedure) (ts : List Token), ¬ NoEnd ts →
      p.EndsWell ts (p.run src ts) := by
  refine ⟨Program.ofText_outcome, fun src p ts hend => ?_⟩
  have htakes := Procedure.run_reads src p ts
  cases hr : p.run src ts with
  | ok x =>
    obtain ⟨tree, rest⟩ := x
    rw [hr] at htakes
    obtain ⟨used, rfl, hused, hreads⟩ := htakes
    exact ⟨used, rfl, hused, fun hrest => hend (hused.append hrest), hreads⟩
  | error e =>
    rw [hr] at htakes
    exact ⟨fun hpast => hend (htakes.pastEnd hpast), htakes.tooManyDigits, htakes.notANumeral⟩

/-- A list of statements that breaks off. -/
theorem front_end_outcome_truncated :
    let ts : List Token := [⟨.ident, "a", {}⟩, ⟨.assign, ":=", {}⟩, ⟨.eof, "", {}⟩]
    ¬ NoEnd ts ∧ Procedure.statements.EndsWell ts (Procedure.statements.run ⟨"", []⟩ ts) := by
  intro ts
  have hend : ¬ NoEnd ts := fun h => h ⟨.eof, "", {}⟩ (by decide) rfl
  exact ⟨hend, front_end_outcome.2 ⟨"", []⟩ .statements ts hend⟩

end ObjectPascal
