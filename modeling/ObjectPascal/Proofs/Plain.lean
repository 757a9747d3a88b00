import ObjectPascal.Class
import ObjectPascal.Interpreter
import ObjectPascal.Proofs.Segmentation
import ObjectPascal.Proofs.Soundness

/-!
Plain programs: those without nodes of no particular form, without operators that have no meaning,
and with literals of the Integer type. Every program that is read from a text is plain.
-/

namespace ObjectPascal

open ObjectPascal.Parser ObjectPascal.Grammar

/-- Everything on the list is so. -/
abbrev Every {α : Type} (P : α → Prop) (as : List α) : Prop :=
  ∀ a ∈ as, P a

def Operator.Plain : Operator → Prop
  | .other _ => False
  | _ => True

mutual

def Expr.Plain : Expr → Prop
  | .literal _ n => (n : Int) ≤ Word.maxValue
  | .ref _ => True
  | .binary _ op left right => op.Plain ∧ left.Plain ∧ right.Plain
  | .parens _ e => e.Plain
  | .call _ _ _ args => Expr.PlainAll args
  | .bare _ => False

def Expr.PlainAll : List Expr → Prop
  | [] => True
  | e :: es => e.Plain ∧ Expr.PlainAll es

end

def Statement.Plain : Statement → Prop
  | .assignment _ _ value => value.Plain
  | .methodCall _ _ _ args => Expr.PlainAll args
  | .procedureCall _ _ args => Expr.PlainAll args
  | .bare _ => False

def Member.Plain : Member → Prop
  | .bare _ => False
  | _ => True

def ClassItem.Plain : ClassItem → Prop
  | .member m => m.Plain
  | .marked _ _ ms => Every Member.Plain ms

def ClassDecl.Plain (d : ClassDecl) : Prop :=
  Every ClassItem.Plain d.items

def MethodImpl.Plain (m : MethodImpl) : Prop :=
  Every Statement.Plain m.body.statements

def Part.Plain : Part → Prop
  | .classes _ ds => Every ClassDecl.Plain ds
  | .vars _ _ => True
  | .method _ m => m.Plain

structure Program.Plain (p : Program) : Prop where
  classes : Every ClassDecl.Plain (p.classes.elim [] Section.items)
  methods : Every MethodImpl.Plain (p.methods.elim [] Section.items)
  block : Every Statement.Plain p.block.statements

namespace Grammar

/-- What the parts of class declarations satisfy. -/
def Declared : (n : Nonterminal) → n.Tree → Prop
  | .member, m => Member.Plain m
  | .members, ms => Every Member.Plain ms
  | .marked, items => Every ClassItem.Plain items
  | .classDecl, d => ClassDecl.Plain d
  | .classDecls, ds => Every ClassDecl.Plain ds
  | _, _ => True

/-- What the trees of each sort satisfy. -/
def Plain : (n : Nonterminal) → n.Tree → Prop
  | .factor, e | .term, e | .expr, e => Expr.Plain e
  | .exprs, es | .arguments, es | .optionalArguments, es => Expr.PlainAll es
  | .statement, s => Statement.Plain s
  | .optionalStatement, ss | .statements, ss => Every Statement.Plain ss
  | .block, b => Every Statement.Plain (Block.statements b)
  | .impl, m => MethodImpl.Plain m
  | .part, p => Part.Plain p
  | .parts, ps => Every Part.Plain ps
  | .program, p => Program.Plain p
  | _, _ => True

theorem plain_product {sign : TokenKind} {op : Operator}
    (hs : (sign, op) ∈ multiplicativeSigns) : op.Plain := by
  simp only [multiplicativeSigns, List.mem_cons, Prod.mk.injEq, List.not_mem_nil, or_false] at hs
  rcases hs with ⟨-, rfl⟩ | ⟨-, rfl⟩ | ⟨-, rfl⟩ <;> trivial

/-- A sign that joins terms and is written as it should be means something. -/
theorem plain_sum {sign : Token} (hs : sign.kind ∈ additiveSigns) (h : sign.Spelt) :
    (Operator.ofSymbol sign.text).Plain := by
  have hkind : sign.kind = .plus ∨ sign.kind = .minus := by simpa [additiveSigns] using hs
  have hspells : Scan.Spells sign.text.toList sign.kind := by
    refine h fun heof => ?_
    rw [heof] at hs
    exact absurd hs (by decide)
  have hsymbol : ∃ c, sign.text.toList = [c] ∧ TokenKind.ofSymbol? c = some sign.kind := by
    apply hspells.ofSymbol? <;> rcases hkind with hk | hk <;> rw [hk] <;> decide
  obtain ⟨c, htext, hc⟩ := hsymbol
  have hsign : sign.text = "+" ∨ sign.text = "-" := by
    rw [← String.toList_inj, ← String.toList_inj, htext]
    unfold TokenKind.ofSymbol? at hc
    rcases hkind with hk | hk <;> rw [hk] at hc <;> split at hc <;> cases hc <;> decide
  rcases hsign with hsign | hsign <;> rw [hsign] <;> trivial

/-- What holds of the declarations of every section holds of those of the one they become. -/
theorem every_merge {α : Type} {P : α → Prop} {sections : List (Location × List α)}
    (h : ∀ x ∈ sections, Every P x.2) : Every P ((Part.merge sections).elim [] Section.items) := by
  cases sections with
  | nil => exact nofun
  | cons first more =>
    intro a ha
    change a ∈ first.2 ++ more.flatMap Prod.snd at ha
    rcases List.mem_append.mp ha with ha | ha
    · exact h first List.mem_cons_self a ha
    · obtain ⟨x, hx, ha⟩ := List.mem_flatMap.mp ha
      exact h x (List.mem_cons_of_mem _ hx) a ha

theorem plain_classes {parts : List Part} (h : Every Part.Plain parts) :
    Every ClassDecl.Plain
      ((Part.merge (parts.filterMap Part.classes?)).elim [] Section.items) := by
  apply every_merge
  intro x hx
  obtain ⟨p, hp, hs⟩ := List.mem_filterMap.mp hx
  have hplain := h p hp
  cases p with
  | classes loc ds =>
    cases hs
    exact hplain
  | vars => cases hs
  | method => cases hs

theorem plain_methods {parts : List Part} (h : Every Part.Plain parts) :
    Every MethodImpl.Plain
      ((Part.merge (parts.filterMap Part.method?)).elim [] Section.items) := by
  apply every_merge
  intro x hx
  obtain ⟨p, hp, hs⟩ := List.mem_filterMap.mp hx
  have hplain := h p hp
  cases p with
  | classes => cases hs
  | vars => cases hs
  | method loc m =>
    cases hs
    intro m' hm
    rw [List.mem_singleton.mp hm]
    exact hplain

/-- Class declarations have members of known forms only. -/
theorem declared_of_derives {src : Source} {n : Nonterminal} {ts : List Token} {a : n.Tree}
    (h : Derives src n ts a) : Declared n a := by
  induction h with
  | field | method => trivial
  | noMembers | noMarked => exact nofun
  | moreMembers _ _ ihm ihs => exact List.forall_mem_cons.mpr ⟨ihm, ihs⟩
  | moreMarked _ _ _ ihm ihi => exact List.forall_mem_cons.mpr ⟨ihm, ihi⟩
  | classDecl _ _ _ _ _ _ _ ihm ihi =>
    intro i hi
    rcases List.mem_append.mp hi with hi | hi
    · obtain ⟨m, hm, rfl⟩ := List.mem_map.mp hi
      exact ihm m hm
    · exact ihi i hi
  | lastClass _ ih => exact List.forall_mem_singleton.mpr ih
  | moreClasses _ _ ihd ihs => exact List.forall_mem_cons.mpr ⟨ihd, ihs⟩
  | _ => trivial

/-- Tokens that are all written as they should be. -/
abbrev WellSpelt (ts : List Token) : Prop :=
  Every Token.Spelt ts

namespace WellSpelt

variable {t : Token} {ts ts' : List Token}

theorem tail (h : WellSpelt (t :: ts)) : WellSpelt ts :=
  (List.forall_mem_cons.mp h).2

theorem left (h : WellSpelt (ts ++ ts')) : WellSpelt ts :=
  (List.forall_mem_append.mp h).1

theorem right (h : WellSpelt (ts ++ ts')) : WellSpelt ts' :=
  (List.forall_mem_append.mp h).2

end WellSpelt

theorem plain_of_derives {src : Source} {n : Nonterminal} {ts : List Token} {a : n.Tree}
    (h : Derives src n ts a) (hs : WellSpelt ts) : Plain n a := by
  induction h with
  | literal _ _ hv => exact hv
  | parens _ _ _ ih => exact ih (WellSpelt.left hs).tail
  | call _ _ _ _ ih => exact ih hs.tail.tail.tail
  | factor _ ih => exact ih hs
  | term _ ih => exact ih hs
  | product _ hop _ iha ihb => exact ⟨plain_product hop, iha hs.left, ihb hs.right.tail⟩
  | @sum sign _ _ _ _ _ hop _ iha ihb =>
    have hsign : sign.Spelt := hs sign (List.mem_append_right _ List.mem_cons_self)
    exact ⟨plain_sum hop hsign, iha hs.left, ihb hs.right.tail⟩
  | lastExpr _ ih => exact ⟨ih hs, trivial⟩
  | moreExprs _ _ _ ihe ihs => exact ⟨ihe hs.left, ihs hs.right.tail⟩
  | arguments _ _ _ ih => exact ih hs.left.tail
  | someArguments _ ih => exact ih hs
  | assignment _ _ _ _ ih => exact ih hs.right.tail
  | methodCall _ _ _ _ ih => exact ih hs.tail.tail.tail
  | procedureCall _ _ ih => exact ih hs.tail
  | noStatement | noParts => exact nofun
  | someStatement _ ih => exact List.forall_mem_singleton.mpr (ih hs)
  | lastStatement _ ih => exact ih hs
  | moreStatements _ _ _ ihs ihm =>
    exact List.forall_mem_append.mpr ⟨ihs hs.left, ihm hs.right.tail⟩
  | block _ _ _ ih => exact ih hs.left.tail
  | impl _ _ _ _ _ _ _ _ _ _ _ ihb => exact ihb hs.left.right.tail
  | classPart _ hd _ => exact declared_of_derives hd
  | methodPart _ ih => exact ih hs
  | moreParts _ _ ihp ihs => exact List.forall_mem_cons.mpr ⟨ihp hs.left, ihs hs.right⟩
  | program _ _ _ _ _ _ ihp ihb =>
    have hparts := ihp hs.left.left.right
    exact ⟨plain_classes hparts, plain_methods hparts, ihb hs.left.right⟩
  | _ => trivial

end Grammar

/-- A program that is read from tokens is plain. -/
theorem Program.plain_of_ofTokens {src : Source} {ts : List Token} {p : Program}
    (h : Program.ofTokens src ts = .ok p) (hs : WellSpelt ts) : p.Plain := by
  have hr := Program.ofTokens_sound src ts
  rw [h] at hr
  obtain ⟨_, _, _, rfl, _, _, hd⟩ := hr
  exact plain_of_derives hd hs.left

theorem Program.plain_of_ofText {file text : String} {p : Program}
    (h : Program.ofText file text = .ok p) : p.Plain := by
  unfold Program.ofText at h
  cases hs : scan text with
  | error problem =>
    rw [hs] at h
    cases h
  | ok ts =>
    rw [hs] at h
    change (Program.ofTokens _ ts).mapError _ = _ at h
    cases hp : Program.ofTokens (Source.ofText file text) ts with
    | ok p' =>
      rw [hp] at h
      cases h
      exact Program.plain_of_ofTokens hp (spelt_of_scan hs)
    | error e =>
      rw [hp] at h
      cases h

end ObjectPascal
