import ObjectPascal.Proofs.Conduct
import ObjectPascal.Proofs.Offsets
import ObjectPascal.Proofs.Plain

/-!
The lines that places quote. Tokens count lines by line feeds, while a text is cut into lines for
display at breaks of every sort, so that a place quotes the line that its token stands on as long as
no other break stands before it.
-/

namespace ObjectPascal

open ObjectPascal.Parser ObjectPascal.Grammar

/-! Places of nodes. -/

def NameGroup.places (g : NameGroup) : List Location :=
  [g.location]

def MethodHeader.places (h : MethodHeader) : List Location :=
  h.location :: h.params.flatMap NameGroup.places

def Member.places : Member → List Location
  | .field g => g.places
  | .method h => h.places
  | .bare location => [location]

def ClassItem.places : ClassItem → List Location
  | .member m => m.places
  | .marked location _ ms => location :: ms.flatMap Member.places

def ClassDecl.places (d : ClassDecl) : List Location :=
  d.location :: d.items.flatMap ClassItem.places

def Block.places (b : Block) : List Location :=
  b.location :: b.statements.flatMap Statement.places

def MethodImpl.places (m : MethodImpl) : List Location :=
  m.location :: (m.params.flatMap NameGroup.places ++ m.body.places)

/-- The places of a section, if it is there, and of what it holds. -/
def Section.places {α : Type} (f : α → List Location) : Option (Section α) → List Location
  | none => []
  | some s => s.location :: s.items.flatMap f

def Part.places : Part → List Location
  | .classes location ds => location :: ds.flatMap ClassDecl.places
  | .vars location gs => location :: gs.flatMap NameGroup.places
  | .method location m => location :: m.places

/-- The places of all nodes of a program. -/
def Program.places (p : Program) : List Location :=
  p.location :: (Section.places ClassDecl.places p.classes ++
    Section.places NameGroup.places p.vars ++
    Section.places MethodImpl.places p.methods ++ p.block.places)

namespace Grammar

/-- The places of all nodes of a tree. -/
def places : (n : Nonterminal) → n.Tree → List Location
  | .names, _ | .selectors, _ | .resultType _, _ | .title, _ => []
  | .group, g => NameGroup.places g
  | .groups, gs | .params, gs | .varDecls, gs => List.flatMap NameGroup.places gs
  | .header, h => MethodHeader.places h
  | .member, m => Member.places m
  | .members, ms => List.flatMap Member.places ms
  | .marked, items => List.flatMap ClassItem.places items
  | .classDecl, d => ClassDecl.places d
  | .classDecls, ds => List.flatMap ClassDecl.places ds
  | .designator, d => [Designator.location d]
  | .factor, e | .term, e | .expr, e => Expr.places e
  | .exprs, es | .arguments, es | .optionalArguments, es => Expr.allPlaces es
  | .statement, s => Statement.places s
  | .optionalStatement, ss | .statements, ss => List.flatMap Statement.places ss
  | .block, b => Block.places b
  | .impl, m => MethodImpl.places m
  | .part, p => Part.places p
  | .parts, ps => List.flatMap Part.places ps
  | .program, p => Program.places p

/-- All of the places are places of tokens. -/
def Sourced (src : Source) (ts : List Token) (ls : List Location) : Prop :=
  ∀ l ∈ ls, ∃ t ∈ ts, l = placeOf src t

namespace Sourced

variable {src : Source} {ts ts' : List Token} {ls ls' : List Location}

theorem nil : Sourced src ts [] :=
  nofun

theorem cons {t : Token} (h : Sourced src ts ls) (ht : t ∈ ts := by simp) :
    Sourced src ts (placeOf src t :: ls) :=
  List.forall_mem_cons.mpr ⟨⟨t, ht, rfl⟩, h⟩

theorem append (h : Sourced src ts ls) (h' : Sourced src ts ls') : Sourced src ts (ls ++ ls') :=
  List.forall_mem_append.mpr ⟨h, h'⟩

theorem mono (h : Sourced src ts ls) (hs : ∀ t ∈ ts, t ∈ ts' := by simp +contextual) :
    Sourced src ts' ls := by
  intro l hl
  obtain ⟨t, ht, rfl⟩ := h l hl
  exact ⟨t, hs t ht, rfl⟩

theorem subset (h : Sourced src ts ls) (hs : ls' ⊆ ls) : Sourced src ts ls' :=
  fun l hl => h l (hs hl)

end Sourced

/-- Sections that become one keep their places, but for those of all but the first. -/
theorem places_merge {α : Type} (f : α → List Location) (sections : List (Location × List α)) :
    Section.places f (Part.merge sections) ⊆
      sections.flatMap fun x => x.1 :: x.2.flatMap f := by
  cases sections with
  | nil => exact List.Subset.refl _
  | cons first more =>
    have hmore : (more.flatMap Prod.snd).flatMap f ⊆
        more.flatMap fun x => x.1 :: x.2.flatMap f := by
      rw [List.flatMap_assoc]
      intro l hl
      obtain ⟨x, hx, hl⟩ := List.mem_flatMap.mp hl
      exact List.mem_flatMap.mpr ⟨x, hx, List.mem_cons_of_mem _ hl⟩
    change first.1 :: (first.2 ++ more.flatMap Prod.snd).flatMap f ⊆ _
    rw [List.flatMap_append, List.flatMap_cons, List.cons_append]
    intro l hl
    simp only [List.mem_cons, List.mem_append] at hl ⊢
    exact hl.imp_right (Or.imp_right fun h => hmore h)

theorem places_ofParts (location : Location) (name : Option String) (parts : List Part)
    (b : Block) :
    (Program.ofParts location name parts b).places ⊆
      location :: (parts.flatMap Part.places ++ b.places) := by
  have hparts {α : Type} (f : α → List Location) (g : Part → Option (Location × List α))
      (hg : ∀ p x, g p = some x → p.places = x.1 :: x.2.flatMap f) :
      Section.places f (Part.merge (parts.filterMap g)) ⊆ parts.flatMap Part.places := by
    intro l hl
    obtain ⟨x, hx, hlx⟩ := List.mem_flatMap.mp (places_merge f _ hl)
    obtain ⟨p, hp, hgp⟩ := List.mem_filterMap.mp hx
    exact List.mem_flatMap.mpr ⟨p, hp, hg p x hgp ▸ hlx⟩
  have hclasses := hparts ClassDecl.places Part.classes? fun p x hx => by
    cases p <;> cases hx
    rfl
  have hvars := hparts NameGroup.places Part.vars? fun p x hx => by
    cases p <;> cases hx
    rfl
  have hmethods := hparts MethodImpl.places Part.method? fun p x hx => by
    cases p <;> cases hx
    rw [List.flatMap_singleton]
    rfl
  have hsections := List.append_subset.mpr ⟨List.append_subset.mpr ⟨hclasses, hvars⟩, hmethods⟩
  apply List.cons_subset_cons
  exact List.append_subset.mpr
    ⟨fun l hl => List.mem_append_left _ (hsections hl), List.subset_append_right _ _⟩

/-- By induction on the derivation: every rule puts the place of one of its tokens into its tree. -/
theorem sourced_of_derives {src : Source} {n : Nonterminal} {ts : List Token} {a : n.Tree}
    (h : Derives src n ts a) : Sourced src ts (places n a) := by
  induction h with
  | lastName | name | noParams | emptyParams | resultType | noResultType | noMembers | noMarked
  | noSelectors | selector | emptyArguments | noArguments | noStatement | noParts | noTitle
  | title => exact .nil
  | group => exact .cons .nil
  | lastGroup _ ih => exact ih
  | moreGroups _ _ _ ihg ihm => exact ihg.mono.append ihm.mono
  | params _ _ _ ih => exact ih.mono
  | header _ _ _ _ _ ihp _ => exact .cons ihp.mono
  | field _ _ ih => exact ih.mono
  | method _ ih => exact ih
  | moreMembers _ _ ihm ihs => exact ihm.mono.append ihs.mono
  | moreMarked _ _ _ ihm ihi => exact .cons (ihm.mono.append ihi.mono)
  | @classDecl _ _ _ _ _ _ _ ms items _ _ _ _ _ _ _ ihm ihi =>
    have hplaces : (ms.map ClassItem.member ++ items).flatMap ClassItem.places =
        ms.flatMap Member.places ++ items.flatMap ClassItem.places := by
      rw [List.flatMap_append, List.flatMap_map]
      rfl
    refine .cons ?_
    rw [hplaces]
    exact ihm.mono.append ihi.mono
  | lastClass _ ih => exact ih.append .nil
  | moreClasses _ _ ihd ihs => exact ihd.mono.append ihs.mono
  | lastVar _ _ ih => exact ih.mono
  | moreVars _ _ _ ihg ihm => exact ihg.mono.append ihm.mono
  | designator => exact .cons .nil
  | literal => exact .cons .nil
  | parens _ _ _ ih => exact .cons ih.mono
  | call _ _ _ _ ih => exact .cons ih.mono
  | ref _ ih => exact ih
  | factor _ ih => exact ih
  | term _ ih => exact ih
  | product _ _ _ iha ihb => exact .cons (iha.mono.append ihb.mono)
  | sum _ _ _ iha ihb => exact .cons (iha.mono.append ihb.mono)
  | lastExpr _ ih => exact ih.append .nil
  | moreExprs _ _ _ ihe ihs => exact ihe.mono.append ihs.mono
  | arguments _ _ _ ih => exact ih.mono
  | someArguments _ ih => exact ih
  | @assignment _ _ _ d _ _ _ _ ihd ihe =>
    -- an assignment stands where its target does
    have hd : Sourced src _ [d.location, d.location] :=
      List.forall_mem_cons.mpr ⟨ihd _ List.mem_cons_self, ihd⟩
    exact hd.mono.append ihe.mono
  | methodCall _ _ _ _ ih => exact .cons ih.mono
  | procedureCall _ _ ih => exact .cons ih.mono
  | someStatement _ ih => exact ih.append .nil
  | lastStatement _ ih => exact ih
  | moreStatements _ _ _ ihs ihm =>
    change Sourced src _ ((_ ++ _ : List Statement).flatMap Statement.places)
    rw [List.flatMap_append]
    exact ihs.mono.append ihm.mono
  | block _ _ _ ih => exact .cons ih.mono
  | impl _ _ _ _ _ _ _ _ _ ihp _ ihb => exact .cons (ihp.mono.append ihb.mono)
  | classPart _ _ ih => exact .cons ih.mono
  | varPart _ _ ih => exact .cons ih.mono
  | methodPart _ ih => exact List.forall_mem_cons.mpr ⟨ih _ List.mem_cons_self, ih⟩
  | moreParts _ _ ihp ihs => exact ihp.mono.append ihs.mono
  | program _ _ _ hf _ _ ihp ihb =>
    have hfirst := List.mem_of_head? hf
    refine Sourced.subset ?_ (places_ofParts _ _ _ _)
    refine .cons ?_ (List.mem_append_left _ hfirst)
    exact ihp.mono.append ihb.mono

end Grammar

/-! Lines. -/

namespace Text

/-- The number of breaks other than line feeds. A carriage return in front of a line feed belongs
to it. -/
def strayBreaks : List Char → Nat
  | [] => 0
  | '\r' :: '\n' :: cs => strayBreaks cs
  | c :: cs => (if isLineBreak c ∧ c ≠ '\n' then 1 else 0) + strayBreaks cs

variable {c : Char} {cs rest cur : List Char}

theorem strayBreaks_cons (h : ¬ (c = '\r' ∧ cs.head? = some '\n')) :
    strayBreaks (c :: cs) = (if isLineBreak c ∧ c ≠ '\n' then 1 else 0) + strayBreaks cs := by
  rw [strayBreaks]
  rintro cs' rfl rfl
  exact h ⟨rfl, rfl⟩

theorem linesFrom_cons (h : ¬ (c = '\r' ∧ cs.head? = some '\n')) :
    linesFrom cur (c :: cs) =
      if isLineBreak c then String.ofList cur.reverse :: linesFrom [] cs
      else linesFrom (c :: cur) cs := by
  rw [linesFrom]
  rintro cs' rfl rfl
  exact h ⟨rfl, rfl⟩

/-- Within a line, a break is a stray one. -/
theorem strayBreaks_of_no_feed (h : '\n' ∉ cs) : strayBreaks cs = cs.countP isLineBreak := by
  induction cs with
  | nil => rfl
  | cons c cs ih =>
    obtain ⟨hc, hcs⟩ : '\n' ≠ c ∧ '\n' ∉ cs := by simpa using h
    have hpair : ¬ (c = '\r' ∧ cs.head? = some '\n') :=
      fun hpair => hcs (List.mem_of_head? hpair.2)
    rw [strayBreaks_cons hpair, ih hcs, List.countP_cons, Nat.add_comm]
    simp [Ne.symm hc]

/-- Characters that are not a pair are not made one by what follows. -/
theorem no_pair (h : ∀ cs', c = '\r' → cs = '\n' :: cs' → False) (hc : ¬ (c = '\r' ∧ cs = []))
    (rest : List Char) : ¬ (c = '\r' ∧ (cs ++ rest).head? = some '\n') := by
  rintro ⟨rfl, hhead⟩
  cases cs with
  | nil => exact hc ⟨rfl, rfl⟩
  | cons d cs =>
    cases hhead
    exact h cs rfl rfl

theorem strayBreaks_eq_zero (h : ∀ c ∈ cs, isLineBreak c → c = '\n') : strayBreaks cs = 0 := by
  induction cs using strayBreaks.induct with
  | case1 => rfl
  | case2 cs _ => cases h '\r' List.mem_cons_self (by decide)
  | case3 c cs hpair ih =>
    obtain ⟨hc, hcs⟩ := List.forall_mem_cons.mp h
    rw [strayBreaks, ih hcs, if_neg fun hbreak => hbreak.2 (hc hbreak.1)]
    exact hpair

/-- Up to a line feed, stray breaks are counted on their own. -/
theorem strayBreaks_feed (cs rest : List Char) :
    strayBreaks (cs ++ '\n' :: rest) = strayBreaks (cs ++ ['\n']) + strayBreaks rest := by
  induction cs using strayBreaks.induct with
  | case1 =>
    have hpair (rest : List Char) : ¬ ('\n' = '\r' ∧ rest.head? = some '\n') := by simp
    simp only [List.nil_append, strayBreaks_cons (hpair _), strayBreaks]
    simp
  | case2 cs ih => exact ih
  | case3 c cs hpair ih =>
    by_cases hc : c = '\r' ∧ cs = []
    · obtain ⟨rfl, rfl⟩ := hc
      simp [strayBreaks]
    · have hnone := no_pair hpair hc
      rw [List.cons_append, List.cons_append, strayBreaks_cons (hnone _),
        strayBreaks_cons (hnone _), ih, Nat.add_assoc]

/-- Lines begin afresh behind a line feed. -/
theorem linesFrom_feed (cur cs rest : List Char) :
    ∃ above, above.length = (cs ++ ['\n']).count '\n' + strayBreaks (cs ++ ['\n']) ∧
      linesFrom cur (cs ++ '\n' :: rest) = above ++ linesFrom [] rest := by
  induction cs using strayBreaks.induct generalizing cur with
  | case1 =>
    exact ⟨[String.ofList cur.reverse], rfl, by rw [List.nil_append, linesFrom_cons (by simp)]; rfl⟩
  | case2 cs ih =>
    obtain ⟨above, hlength, hlines⟩ := ih []
    refine ⟨String.ofList cur.reverse :: above, ?_, ?_⟩
    · rw [List.length_cons, hlength, List.cons_append, List.cons_append, strayBreaks]
      simp
      omega
    · rw [List.cons_append, List.cons_append, linesFrom, hlines]
      rfl
  | case3 c cs hpair ih =>
    by_cases hc : c = '\r' ∧ cs = []
    · obtain ⟨rfl, rfl⟩ := hc
      exact ⟨[String.ofList cur.reverse], rfl, rfl⟩
    · have hnone := no_pair hpair hc
      rw [List.cons_append, List.cons_append, linesFrom_cons (hnone _),
        strayBreaks_cons (hnone _)]
      by_cases hbreak : isLineBreak c
      · obtain ⟨above, hlength, hlines⟩ := ih []
        refine ⟨String.ofList cur.reverse :: above, ?_, ?_⟩
        · rw [List.length_cons, hlength, List.count_cons]
          by_cases hfeed : c = '\n' <;> simp [hfeed, hbreak] <;> omega
        · rw [if_pos hbreak, hlines]
          rfl
      · obtain ⟨above, hlength, hlines⟩ := ih (c :: cur)
        have hfeed : c ≠ '\n' := by
          rintro rfl
          exact hbreak rfl
        refine ⟨above, ?_, ?_⟩
        · rw [hlength, List.count_cons]
          simp [hfeed, hbreak]
        · rw [if_neg hbreak, hlines]

/-- The first of the lines of a text. -/
theorem linesFrom_first (cur rest : List Char) (h : cur ≠ [] ∨ rest ≠ []) :
    ∃ more, linesFrom cur rest =
      String.ofList (cur.reverse ++ rest.takeWhile fun c => !isLineBreak c) :: more := by
  fun_induction linesFrom cur rest with
  | case1 cur hcur => simp_all
  | case2 cur hcur => exact ⟨[], by simp⟩
  | case3 cur cs ih =>
    have hreturn : isLineBreak '\r' := rfl
    exact ⟨linesFrom [] cs, by simp [hreturn]⟩
  | case4 cur c cs _ hc ih => exact ⟨linesFrom [] cs, by simp [hc]⟩
  | case5 cur c cs _ hc ih =>
    obtain ⟨more, hmore⟩ := ih (.inl (List.cons_ne_nil _ _))
    refine ⟨more, ?_⟩
    rw [hmore]
    simp [hc]

/-- Within a line, every break opens a further line. -/
theorem linesFrom_within (hcs : '\n' ∉ cs) (hrest : rest.head? ≠ some '\n') (cur : List Char) :
    ∃ above last, above.length = cs.countP isLineBreak ∧
      linesFrom cur (cs ++ rest) = above ++ linesFrom last rest := by
  induction cs generalizing cur with
  | nil => exact ⟨[], cur, rfl, rfl⟩
  | cons c cs ih =>
    obtain ⟨hc, hcs⟩ : '\n' ≠ c ∧ '\n' ∉ cs := by simpa using hcs
    have hnone : ¬ (c = '\r' ∧ (cs ++ rest).head? = some '\n') := by
      rintro ⟨-, hhead⟩
      cases cs with
      | nil => exact hrest hhead
      | cons d cs =>
        cases hhead
        exact hcs List.mem_cons_self
    rw [List.cons_append, linesFrom_cons hnone, List.countP_cons]
    by_cases hbreak : isLineBreak c
    · obtain ⟨above, last, hlength, hlines⟩ := ih hcs []
      refine ⟨String.ofList cur.reverse :: above, last, ?_, ?_⟩
      · rw [List.length_cons, hlength, if_pos hbreak]
      · rw [if_pos hbreak, hlines]
        rfl
    · obtain ⟨above, last, hlength, hlines⟩ := ih hcs (c :: cur)
      refine ⟨above, last, ?_, ?_⟩
      · rw [hlength, if_neg hbreak]
        rfl
      · rw [if_neg hbreak, hlines]

/-! Blanks. -/

theorem isBlank_of_isLineBreak {c : Char} (h : isLineBreak c) : isBlank c := by
  unfold isLineBreak at h
  unfold isBlank
  simp only [Bool.or_eq_true, Bool.and_eq_true, decide_eq_true_eq, beq_iff_eq] at h ⊢
  omega

/-- Trimming stops at a character that is not blank. -/
theorem dropWhile_append_stop {p : Char → Bool} {cs rest : List Char}
    (hr : rest.head?.all fun c => !p c) : (cs ++ rest).dropWhile p = cs.dropWhile p ++ rest := by
  have hrest : rest.dropWhile p = rest := (Scan.takeWhile_append (List.forall_mem_nil _) hr).2
  rw [List.dropWhile_append, hrest]
  split
  · next hempty => rw [List.isEmpty_iff.mp hempty, List.nil_append]
  · rfl

/-- What is not blank is not trimmed off. -/
theorem infix_strip {cs ds es : List Char} (hne : ds ≠ []) (hds : ∀ c ∈ ds, isBlank c = false) :
    ds <:+: (strip (String.ofList (cs ++ ds ++ es))).toList := by
  have hstop {ds : List Char} (hds : ∀ c ∈ ds, isBlank c = false) (hne : ds ≠ [])
      (es : List Char) : (ds ++ es).head?.all fun c => !isBlank c := by
    obtain ⟨d, ds, rfl⟩ := List.exists_cons_of_ne_nil hne
    simpa using hds d List.mem_cons_self
  have hreverse : ∀ c ∈ ds.reverse, isBlank c = false := fun c hc => hds c (List.mem_reverse.mp hc)
  have hne' : ds.reverse ≠ [] := by simpa using hne
  unfold strip
  rw [String.toList_ofList, String.toList_ofList, List.append_assoc,
    dropWhile_append_stop (hstop hds hne es), List.reverse_append,
    List.reverse_append, List.append_assoc,
    dropWhile_append_stop (hstop hreverse hne' _), List.reverse_append,
    List.reverse_append, List.reverse_reverse, List.reverse_reverse]
  exact ⟨cs.dropWhile isBlank, _, rfl⟩

theorem strip_concat {c : Char} (hc : isBlank c) (cs : List Char) :
    strip (String.ofList (cs ++ [c])) = strip (String.ofList cs) := by
  unfold strip
  rw [String.toList_ofList, String.toList_ofList, List.dropWhile_append]
  split
  · next hempty =>
    rw [List.isEmpty_iff.mp hempty, List.dropWhile_cons_of_pos hc]
    rfl
  · rw [List.reverse_append, List.reverse_singleton, List.singleton_append,
      List.dropWhile_cons_of_pos hc]

end Text

namespace Scan

theorem isBlank_text_of_isWordPart {c : Char} (h : isWordPart c) : Text.isBlank c = false := by
  have hle (d : Char) : d ≤ c ↔ d.toNat ≤ c.toNat := by
    rw [Char.le_def, UInt32.le_iff_toNat_le]
    rfl
  have hle' (d : Char) : c ≤ d ↔ c.toNat ≤ d.toNat := by
    rw [Char.le_def, UInt32.le_iff_toNat_le]
    rfl
  simp only [isWordPart, isWordStart, Text.isDigit, Bool.or_eq_true, Bool.and_eq_true,
    decide_eq_true_eq, hle, hle'] at h
  rw [Bool.eq_false_iff]
  intro hblank
  simp only [Text.isBlank, Bool.or_eq_true, Bool.and_eq_true, decide_eq_true_eq,
    beq_iff_eq] at hblank
  have hcodes : '0'.toNat = 48 ∧ '9'.toNat = 57 ∧ 'A'.toNat = 65 ∧ 'Z'.toNat = 90 ∧
    'a'.toNat = 97 ∧ 'z'.toNat = 122 ∧ '_'.toNat = 95 := by decide
  rcases h with ((rfl | h) | h) | h <;> omega

theorem Spells.solid {cs : List Char} {kind : TokenKind} (h : Spells cs kind) :
    ∀ c ∈ cs, Text.isBlank c = false := by
  cases h with
  | assign => exact List.forall_mem_cons.mpr ⟨rfl, List.forall_mem_singleton.mpr rfl⟩
  | colon => exact List.forall_mem_singleton.mpr rfl
  | symbol hs =>
    unfold TokenKind.ofSymbol? at hs
    split at hs <;> cases hs <;> exact List.forall_mem_singleton.mpr rfl
  | number hc hd =>
    exact List.forall_mem_cons.mpr ⟨isBlank_text_of_isWordPart (isWordPart_of_isDigit hc),
      fun d hd' => isBlank_text_of_isWordPart (isWordPart_of_isDigit (hd d hd'))⟩
  | keyword hc hd =>
    exact List.forall_mem_cons.mpr ⟨isBlank_text_of_isWordPart (isWordPart_of_isWordStart hc),
      fun d hd' => isBlank_text_of_isWordPart (hd d hd')⟩
  | ident hc hd =>
    exact List.forall_mem_cons.mpr ⟨isBlank_text_of_isWordPart (isWordPart_of_isWordStart hc),
      fun d hd' => isBlank_text_of_isWordPart (hd d hd')⟩

end Scan

namespace Text

/-- A text with one of its lines, as line feeds set them apart. -/
structure Row (cs above line below : List Char) : Prop where
  text : cs = above ++ line ++ below
  above : above = [] ∨ ∃ ds, above = ds ++ ['\n']
  line : '\n' ∉ line
  below : below = [] ∨ ∃ ds, below = '\n' :: ds

/-- Lines that line feeds set apart begin afresh behind each. -/
theorem feedLinesFrom_feed (cur cs rest : List Char) :
    ∃ above, above.length = (cs ++ ['\n']).count '\n' ∧
      feedLinesFrom cur (cs ++ '\n' :: rest) = above ++ feedLinesFrom [] rest := by
  induction cs generalizing cur with
  | nil => exact ⟨[String.ofList cur.reverse], rfl, rfl⟩
  | cons c cs ih =>
    rw [List.cons_append, List.cons_append, feedLinesFrom]
    split
    · next hc =>
      obtain ⟨above, hlength, hlines⟩ := ih []
      refine ⟨String.ofList cur.reverse :: above, ?_, ?_⟩
      · rw [hc, List.count_cons_self, List.length_cons, hlength]
      · rw [hlines, List.cons_append]
    · next hc =>
      obtain ⟨above, hlength, hlines⟩ := ih (c :: cur)
      refine ⟨above, ?_, hlines⟩
      rw [List.count_cons_of_ne hc, hlength]

/-- A line runs up to the next line feed. -/
theorem feedLinesFrom_line {line below : List Char} (hl : '\n' ∉ line)
    (hb : below = [] ∨ ∃ ds, below = '\n' :: ds) (cur : List Char)
    (hne : cur.reverse ++ line ≠ []) :
    (feedLinesFrom cur (line ++ below))[0]? = some (String.ofList (cur.reverse ++ line)) := by
  induction line generalizing cur with
  | nil =>
    rw [List.append_nil] at hne ⊢
    rcases hb with rfl | ⟨ds, rfl⟩
    · have hcur : ¬ cur.isEmpty := by simpa using hne
      rw [List.nil_append, feedLinesFrom, if_neg hcur]
      rfl
    · rfl
  | cons c line ih =>
    obtain ⟨hc, hline⟩ : '\n' ≠ c ∧ '\n' ∉ line := by simpa using hl
    have hrest := ih hline (c :: cur) (by simp)
    rw [List.cons_append, feedLinesFrom, if_neg (Ne.symm hc), hrest, List.reverse_cons,
      List.append_assoc]
    rfl

theorem Row.feedLine {text : String} {above line below : List Char}
    (h : Row text.toList above line below) (hne : line ≠ []) :
    (feedLines text)[above.count '\n']? = some (String.ofList line) := by
  have hfirst := feedLinesFrom_line h.line h.below [] hne
  unfold feedLines
  rw [h.text, List.append_assoc]
  rcases h.above with rfl | ⟨ds, rfl⟩
  · exact hfirst
  · obtain ⟨ls, hlength, hlines⟩ := feedLinesFrom_feed [] ds (line ++ below)
    rw [List.append_assoc, List.singleton_append, hlines,
      List.getElem?_append_right (Nat.le_of_eq hlength), hlength, Nat.sub_self]
    exact hfirst

theorem exists_below (cs : List Char) : ∃ after below, cs = after ++ below ∧ '\n' ∉ after ∧
    (below = [] ∨ ∃ ds, below = '\n' :: ds) := by
  induction cs with
  | nil => exact ⟨[], [], rfl, List.not_mem_nil, .inl rfl⟩
  | cons c cs ih =>
    by_cases hc : '\n' = c
    · exact ⟨[], c :: cs, rfl, List.not_mem_nil, .inr ⟨cs, by rw [hc]⟩⟩
    · obtain ⟨after, below, rfl, hafter, hbelow⟩ := ih
      exact ⟨c :: after, below, rfl, by simp [hc, hafter], hbelow⟩

theorem exists_above (cs : List Char) : ∃ above before, cs = above ++ before ∧ '\n' ∉ before ∧
    (above = [] ∨ ∃ ds, above = ds ++ ['\n']) := by
  obtain ⟨after, below, hcs, hafter, hbelow⟩ := exists_below cs.reverse
  refine ⟨below.reverse, after.reverse, ?_, ?_, ?_⟩
  · rw [← List.reverse_append, ← hcs, List.reverse_reverse]
  · rwa [List.mem_reverse]
  · rcases hbelow with rfl | ⟨ds, rfl⟩
    · exact .inl rfl
    · exact .inr ⟨ds.reverse, List.reverse_cons⟩

variable {above before rest : List Char}

theorem strayBreaks_above (h : above = [] ∨ ∃ ds, above = ds ++ ['\n']) (rest : List Char) :
    strayBreaks (above ++ rest) = strayBreaks above + strayBreaks rest := by
  rcases h with rfl | ⟨ds, rfl⟩
  · exact (Nat.zero_add _).symm
  · rw [List.append_assoc]
    exact strayBreaks_feed ds rest

theorem linesFrom_above (h : above = [] ∨ ∃ ds, above = ds ++ ['\n']) (rest : List Char) :
    ∃ ls, ls.length = above.count '\n' + strayBreaks above ∧
      linesFrom [] (above ++ rest) = ls ++ linesFrom [] rest := by
  rcases h with rfl | ⟨ds, rfl⟩
  · exact ⟨[], rfl, rfl⟩
  · rw [List.append_assoc]
    exact linesFrom_feed [] ds rest

/-- The position behind the beginning of a line. -/
theorem after_above (h : above = [] ∨ ∃ ds, above = ds ++ ['\n']) (hb : '\n' ∉ before) :
    Position.after (above ++ before) = ⟨1 + above.count '\n', 1 + before.length⟩ := by
  have hall : ∀ c ∈ before.reverse, decide (c ≠ '\n') := by
    intro c hc
    rw [List.mem_reverse] at hc
    refine decide_eq_true ?_
    rintro rfl
    exact hb hc
  have hstop : above.reverse.head?.all fun c => !decide (c ≠ '\n') := by
    rcases h with rfl | ⟨ds, rfl⟩
    · rfl
    · simp
  unfold Position.after
  rw [List.count_append, List.count_eq_zero.mpr hb, List.reverse_append,
    (Scan.takeWhile_append hall hstop).1, List.length_reverse]
  rfl

/-- A line that has no stray breaks is one line for display, but for a carriage return at its
end. -/
theorem solid_of_no_stray {line : List Char} (hl : '\n' ∉ line)
    (h : strayBreaks (line ++ ['\n']) = 0) :
    ∃ ds, (∀ c ∈ ds, isLineBreak c = false) ∧ (line = ds ∨ line = ds ++ ['\r']) := by
  induction line with
  | nil => exact ⟨[], nofun, .inl rfl⟩
  | cons c line ih =>
    obtain ⟨hc, hl⟩ : '\n' ≠ c ∧ '\n' ∉ line := by simpa using hl
    by_cases hreturn : c = '\r' ∧ line = []
    · obtain ⟨rfl, rfl⟩ := hreturn
      exact ⟨[], nofun, .inr rfl⟩
    · have hpair : ¬ (c = '\r' ∧ (line ++ ['\n']).head? = some '\n') := by
        refine no_pair ?_ hreturn _
        rintro cs - rfl
        exact hl List.mem_cons_self
      rw [List.cons_append, strayBreaks_cons hpair] at h
      obtain ⟨ds, hds, hline⟩ := ih hl (by omega)
      have hbreak : isLineBreak c = false := by
        by_contra hbreak
        rw [if_pos ⟨by simpa using hbreak, Ne.symm hc⟩] at h
        omega
      refine ⟨c :: ds, List.forall_mem_cons.mpr ⟨hbreak, hds⟩, ?_⟩
      rcases hline with rfl | rfl
      · exact .inl rfl
      · exact .inr rfl

/-- A line that has no stray breaks is shown as it is, but for the blanks at its ends. -/
theorem strip_takeWhile {line below : List Char} (hl : '\n' ∉ line)
    (hb : below = [] ∨ ∃ ds, below = '\n' :: ds) (h : strayBreaks (line ++ below.take 1) = 0) :
    strip (String.ofList ((line ++ below).takeWhile fun c => !isLineBreak c)) =
      strip (String.ofList line) := by
  rcases hb with rfl | ⟨ds, rfl⟩
  · rw [List.take_nil, List.append_nil, strayBreaks_of_no_feed hl, List.countP_eq_zero] at h
    have hall : ∀ c ∈ line, !isLineBreak c := by simpa using h
    rw [(Scan.takeWhile_append hall rfl).1]
  · obtain ⟨cs, hcs, rfl | rfl⟩ := solid_of_no_stray hl h
    · have hall : ∀ c ∈ line, !isLineBreak c := by simpa using hcs
      rw [(Scan.takeWhile_append hall rfl).1]
    · have hall : ∀ c ∈ cs, !isLineBreak c := by simpa using hcs
      rw [List.append_assoc, (Scan.takeWhile_append hall rfl).1, strip_concat rfl]

/-- The line for display on which a solid stretch of text stands. -/
theorem exists_own {above before ds : List Char} (rest : List Char)
    (ha : above = [] ∨ ∃ ds, above = ds ++ ['\n']) (hb : '\n' ∉ before) (hne : ds ≠ [])
    (hds : ∀ c ∈ ds, isLineBreak c = false) :
    ∃ cs es, (lines (String.ofList (above ++ (before ++ (ds ++ rest)))))[above.count '\n' +
      strayBreaks (above ++ before)]? = some (String.ofList (cs ++ ds ++ es)) := by
  have hall : ∀ c ∈ ds, !isLineBreak c := by simpa using hds
  have hhead : (ds ++ rest).head? ≠ some '\n' := by
    obtain ⟨d, ds, rfl⟩ := List.exists_cons_of_ne_nil hne
    intro hd
    cases hd
    cases hds '\n' List.mem_cons_self
  obtain ⟨ls, hls, hlines⟩ := linesFrom_above ha (before ++ (ds ++ rest))
  obtain ⟨ls', last, hls', hlines'⟩ := linesFrom_within hb hhead []
  obtain ⟨more, hmore⟩ := linesFrom_first last (ds ++ rest)
    (.inr (List.append_ne_nil_of_left_ne_nil hne _))
  have hindex : above.count '\n' + strayBreaks (above ++ before) = (ls ++ ls').length := by
    rw [strayBreaks_above ha, strayBreaks_of_no_feed hb, List.length_append, hls, hls',
      Nat.add_assoc]
  refine ⟨last.reverse, rest.takeWhile fun c => !isLineBreak c, ?_⟩
  unfold lines
  rw [String.toList_ofList, hlines, hlines', hmore, hindex, ← List.append_assoc,
    List.getElem?_append_right le_rfl, Nat.sub_self, List.getElem?_cons_zero,
    List.takeWhile_append_of_pos hall, List.append_assoc]

end Text

/-- A token of a text with the place that is told of it. It stands on the line `line`, between
`before` and `after`. -/
structure Token.PlacedAt (t : Token) (file text : String) (l : Location)
    (above before after below : List Char) : Prop where
  scanned : ∃ ts, scan text = .ok ts ∧ t ∈ ts
  stands : t.StandsAt text.toList (above ++ before).length
  row : Text.Row text.toList above (before ++ t.text.toList ++ after) below
  file : l.file = file
  position : t.position = ⟨l.line, l.column⟩
  line : l.line = 1 + above.count '\n'
  column : l.column = 1 + before.length

/-- A place quotes the line for display that has the number of its line. -/
theorem statement_placeOf (file : String) {text : String} {t : Token} {n : Nat}
    (h : t.line = 1 + n) {quoted : String} (hq : (Text.lines text)[n]? = some quoted) :
    (placeOf (Source.ofText file text) t).statement = Text.strip quoted := by
  change (if t.line = 0 then "" else ((Text.lines text).map Text.strip).getD (t.line - 1) "") = _
  rw [h, if_neg (by omega), Nat.add_sub_cancel_left, List.getD_eq_getElem?_getD,
    List.getElem?_map, hq]
  rfl

theorem Token.exists_placedAt (file : String) {text : String} {ts : List Token} {t : Token}
    (hs : scan text = .ok ts) (ht : t ∈ ts) (hk : t.kind ≠ .eof) :
    ∃ above before after below,
      t.PlacedAt file text (placeOf (Source.ofText file text) t) above before after below := by
  obtain ⟨placed, hplaced, rfl⟩ := (scan_segments_text text).2 ts |>.mp hs
  obtain ⟨o, hstands⟩ : ∃ o, t.StandsAt text.toList o := by
    rcases List.mem_append.mp ht with hmem | heof
    · obtain ⟨⟨o, t⟩, hx, rfl⟩ := List.mem_map.mp hmem
      exact ⟨o, hplaced.stands _ hx⟩
    · cases List.mem_singleton.mp heof
      exact absurd rfl hk
  obtain ⟨rest, hrest⟩ := hstands.text
  obtain ⟨above, before, hpre, hbefore, habove⟩ := Text.exists_above (text.toList.take o)
  obtain ⟨after, below, rfl, hafter, hbelow⟩ := Text.exists_below rest
  have hlength : (above ++ before).length = o := by
    rw [← hpre, List.length_take, Nat.min_eq_left]
    have hpos := hstands.length_pos
    have hdrop := congrArg List.length hrest
    rw [List.length_append, String.length_toList, List.length_drop] at hdrop
    omega
  have htext : text.toList = above ++ (before ++ t.text.toList ++ after) ++ below := by
    rw [← List.take_append_drop o text.toList, hpre, ← hrest]
    simp only [List.append_assoc]
  have hsolid : '\n' ∉ t.text.toList := by
    intro hmem
    cases hstands.spells.solid _ hmem
  have hposition := hstands.position
  rw [hpre, Text.after_above habove hbefore] at hposition
  exact ⟨above, before, after, below, ⟨_, hs, ht⟩, hlength ▸ hstands,
    ⟨htext, habove, by simp [hbefore, hsolid, hafter], hbelow⟩, rfl, rfl,
    congrArg Position.line hposition, congrArg Position.column hposition⟩

/-- Every place of a program that is read from a text is the place of one of its tokens. -/
theorem Program.exists_token {file text : String} {p : Program}
    (h : Program.ofText file text = .ok p) {l : Location} (hl : l ∈ p.places) :
    ∃ ts t, scan text = .ok ts ∧ t ∈ ts ∧ t.kind ≠ .eof ∧
      l = placeOf (Source.ofText file text) t := by
  unfold Program.ofText at h
  cases hs : scan text with
  | error problem =>
    rw [hs] at h
    cases h
  | ok ts =>
    rw [hs] at h
    change (Program.ofTokens _ ts).mapError _ = _ at h
    have hr := Program.ofTokens_sound (Source.ofText file text) ts
    cases hp : Program.ofTokens (Source.ofText file text) ts with
    | error e =>
      rw [hp] at h
      cases h
    | ok p' =>
      rw [hp] at h hr
      cases h
      obtain ⟨body, eof, rest, rfl, -, hend, hd⟩ := hr
      obtain ⟨t, ht, rfl⟩ := sourced_of_derives hd l hl
      exact ⟨_, t, rfl, List.mem_append_left _ ht, hend t ht, rfl⟩

/-- What places quote. Every place of a program is that of a token that stands on a line of the
text, as line feeds set it apart, and it quotes the line for display of the same number, without
the blanks at its ends. The token stands on the line for display that is further down by the number
of stray breaks before it. So a place without such breaks before it quotes its token, and if there
are none up to the end of the line either, it quotes the line that its token stands on, which is the
one of its number as line feeds set them apart. -/
theorem quoted_lines (file text : String) (p : Program) (h : Program.ofText file text = .ok p)
    (l : Location) (hl : l ∈ p.places) :
    ∃ (t : Token) (above before after below : List Char) (quoted own : String),
      t.PlacedAt file text l above before after below ∧
      (Text.lines text)[above.count '\n']? = some quoted ∧ l.statement = Text.strip quoted ∧
      (Text.lines text)[above.count '\n' + Text.strayBreaks (above ++ before)]? = some own ∧
      t.text.toList <:+: own.toList ∧
      (Text.strayBreaks (above ++ before) = 0 → t.text.toList <:+: l.statement.toList) ∧
      let line := before ++ t.text.toList ++ after
      (Text.feedLines text)[above.count '\n']? = some (String.ofList line) ∧
        (Text.strayBreaks (above ++ (line ++ below.take 1)) = 0 →
          l.statement = Text.strip (String.ofList line)) := by
  obtain ⟨ts, t, hs, ht, hk, rfl⟩ := Program.exists_token h hl
  obtain ⟨above, before, after, below, hplaced⟩ := Token.exists_placedAt file hs ht hk
  obtain ⟨htext, habove, hline, hbelow⟩ := hplaced.row
  have hsolid := hplaced.stands.spells.solid
  have hne := hplaced.stands.spells.ne_nil
  have hbefore : '\n' ∉ before := fun hmem => hline (by simp [hmem])
  have hunbroken : ∀ c ∈ t.text.toList, Text.isLineBreak c = false := by
    intro c hc
    rw [Bool.eq_false_iff]
    intro hbreak
    have hblank := Text.isBlank_of_isLineBreak hbreak
    rw [hsolid c hc] at hblank
    cases hblank
  have htext' : text =
      String.ofList (above ++ (before ++ (t.text.toList ++ (after ++ below)))) := by
    rw [← String.ofList_toList (s := text), htext]
    simp only [List.append_assoc]
  obtain ⟨cs, es, hown⟩ := Text.exists_own (after ++ below) habove hbefore hne hunbroken
  rw [← htext'] at hown
  obtain ⟨quoted, hquoted⟩ : ∃ quoted, (Text.lines text)[above.count '\n']? = some quoted := by
    obtain ⟨hlt, -⟩ := List.getElem?_eq_some_iff.mp hown
    exact ⟨_, List.getElem?_eq_getElem (by omega)⟩
  have hstatement := statement_placeOf file hplaced.line hquoted
  refine ⟨t, above, before, after, below, quoted, _, hplaced, hquoted, hstatement, hown, ?_, ?_,
    hplaced.row.feedLine (by simp [hne]), ?_⟩
  · rw [String.toList_ofList]
    exact ⟨cs, es, rfl⟩
  · intro hzero
    rw [hzero, Nat.add_zero, hquoted] at hown
    cases hown
    rw [hstatement]
    exact Text.infix_strip hne hsolid
  · intro hzero
    let line := before ++ t.text.toList ++ after
    rw [Text.strayBreaks_above habove, Nat.add_eq_zero_iff] at hzero
    obtain ⟨ls, hls, hlines⟩ := Text.linesFrom_above habove (line ++ below)
    obtain ⟨more, hmore⟩ := Text.linesFrom_first [] (line ++ below)
      (.inr (by simp [line, hne]))
    have hfirst : (Text.lines text)[above.count '\n']? = some
        (String.ofList ((line ++ below).takeWhile fun c => !Text.isLineBreak c)) := by
      unfold Text.lines
      rw [htext, List.append_assoc, hlines, hmore, List.getElem?_append_right (by omega), hls,
        hzero.1, Nat.add_zero, Nat.sub_self]
      rfl
    rw [hquoted] at hfirst
    cases hfirst
    rw [hstatement, Text.strip_takeWhile hline hbelow hzero.2]

/-- A program without anything in it. -/
theorem Program.ofText_empty (file : String) {text : String} {first last dot eof : Token}
    (hs : (scan text).toOption = some [first, last, dot, eof])
    (hk : [first, last, dot, eof].map Token.kind = [.beginKw, .endKw, .dot, .eof]) :
    let place := placeOf (Source.ofText file text) first
    Program.ofText file text = .ok ⟨place, none, none, none, none, ⟨place, []⟩⟩ := by
  intro place
  simp only [List.map_cons, List.map_nil, List.cons.injEq, and_true] at hk
  obtain ⟨hfirst, hlast, hdot, heof⟩ := hk
  rw [Program.ofText_of_scan hs]
  simp [Program.ofTokens, Parser.peek, Parser.next, Parser.accept, Parser.expect, Parser.title,
    Parser.sections, Parser.block, Parser.statements, bind, Except.bind, pure, Except.pure,
    Except.mapError, hfirst, hlast, hdot, heof, place]

/-- A program on several lines with comments: the place of its block quotes the third line. -/
theorem quoted_lines_commented :
    let text := "\x7b Two\nlines \x7d\n begin // more \nend."
    ∃ p, Program.ofText "" text = .ok p ∧ p.location ∈ p.places ∧ p.location.line = 3 ∧
      (Text.feedLines text)[2]? = some " begin // more " ∧
      p.location.statement = "begin // more" := by
  intro text
  have hs : (scan text).toOption = some [⟨.beginKw, "begin", ⟨3, 2⟩⟩,
      ⟨.endKw, "end", ⟨4, 1⟩⟩, ⟨.dot, ".", ⟨4, 4⟩⟩, ⟨.eof, "", ⟨4, 5⟩⟩] := by
    decide +kernel
  have hp := Program.ofText_empty "" hs rfl
  have hfeeds : ∀ c ∈ text.toList, !Text.isLineBreak c || c = '\n' :=
    List.all_eq_true.mp (by decide +kernel)
  have hthird : (Text.feedLines text)[2]? = some " begin // more " := by
    decide +kernel
  refine ⟨_, hp, List.mem_cons_self, rfl, hthird, ?_⟩
  obtain ⟨t, above, before, after, below, -, -, hplaced, -, -, -, -, -, hline, hquotes⟩ :=
    quoted_lines "" text _ hp _ List.mem_cons_self
  have hcount : 2 = above.count '\n' := Nat.add_left_cancel hplaced.line
  rw [← hcount, hthird] at hline
  rw [hquotes, ← Option.some.inj hline]
  · decide +kernel
  · refine Text.strayBreaks_eq_zero fun c hc hbreak => ?_
    have hmem : c ∈ text.toList := by
      rw [hplaced.row.text, List.append_assoc]
      have htake (c : Char) (hc : c ∈ below.take 1) : c ∈ below := List.mem_of_mem_take hc
      simp only [List.mem_append] at hc ⊢
      exact hc.imp_right (Or.imp_right (htake c))
    simpa [hbreak] using hfeeds c hmem

/-- A form feed in a comment makes the line that follows be quoted as what is left of the
comment. -/
theorem comment_quoted :
    let text := "\x7b\x0c\x7d\nbegin end."
    ∃ p, Program.ofText "" text = .ok p ∧ p.location ∈ p.places ∧ p.location.line = 2 ∧
      (Text.feedLines text)[1]? = some "begin end." ∧ p.location.statement = "\x7d" := by
  intro text
  have hs : (scan text).toOption = some [⟨.beginKw, "begin", ⟨2, 1⟩⟩,
      ⟨.endKw, "end", ⟨2, 7⟩⟩, ⟨.dot, ".", ⟨2, 10⟩⟩, ⟨.eof, "", ⟨2, 11⟩⟩] := by
    decide +kernel
  exact ⟨_, Program.ofText_empty "" hs rfl, List.mem_cons_self, rfl, by decide +kernel,
    by decide +kernel⟩

end ObjectPascal
