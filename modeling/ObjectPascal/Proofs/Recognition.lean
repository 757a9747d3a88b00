import Mathlib.Data.List.Basic
import ObjectPascal.Proofs.Completeness

/-!
Token lists and programs: a list is read as a program exactly when its tokens stand for one, and
the order in which sections of different sorts come does not matter.
-/

namespace ObjectPascal

open ObjectPascal.Parser ObjectPascal.Grammar

variable {src : Source}

/-- An end marker ends the same tokens wherever the list is cut at one. -/
theorem eq_of_append_eof {ts body rest : List Token} {eof eof' : Token}
    (he' : eof'.kind = .eof) (hts : NoEnd ts) (hb : NoEnd body)
    (h : ts ++ [eof] = body ++ eof' :: rest) : ts = body := by
  induction ts generalizing body with
  | nil =>
    cases body with
    | nil => rfl
    | cons t body => simp at h
  | cons t ts ih =>
    cases body with
    | nil =>
      cases h
      exact absurd he' (hts _ List.mem_cons_self)
    | cons u body =>
      obtain ⟨rfl, hrest⟩ := List.cons.inj h
      have hts' : NoEnd ts := fun t ht => hts t (List.mem_cons_of_mem _ ht)
      have hb' : NoEnd body := fun t ht => hb t (List.mem_cons_of_mem _ ht)
      rw [ih hts' hb' hrest]

/-- A list with an end marker at its end only is read as a program exactly when it stands for it. -/
theorem Program.ofTokens_iff {ts : List Token} {eof : Token} (he : eof.kind = .eof)
    (hts : NoEnd ts) (hn : ShortNumerals ts) (p : Program) :
    Program.ofTokens src (ts ++ [eof]) = .ok p ↔ Derives src .program ts p := by
  constructor
  · intro h
    have hr := Program.ofTokens_sound src (ts ++ [eof])
    rw [h] at hr
    obtain ⟨body, eof', rest, hb, he', hnb, hd⟩ := hr
    rwa [eq_of_append_eof he' hts hnb hb]
  · intro h
    exact Program.ofTokens_complete h hn he

namespace Grammar

/-- The first token is of a kind. -/
def opensWith (kind : TokenKind) (ts : List Token) : Bool :=
  ts.head?.any (·.kind = kind)

/-- The same sections in another order, in which those of each sort keep theirs. -/
structure Interleaved (cs cs' : List (List Token)) : Prop where
  classes : cs.filter (opensWith .typeKw) = cs'.filter (opensWith .typeKw)
  vars : cs.filter (opensWith .varKw) = cs'.filter (opensWith .varKw)
  methods :
    cs.filter (fun c => !opensWith .typeKw c && !opensWith .varKw c) =
      cs'.filter (fun c => !opensWith .typeKw c && !opensWith .varKw c)

theorem Interleaved.mem {cs cs' : List (List Token)} (h : Interleaved cs cs') {c : List Token}
    (hc : c ∈ cs') : c ∈ cs := by
  cases ht : opensWith .typeKw c with
  | true =>
    have hm : c ∈ cs'.filter (opensWith .typeKw) := List.mem_filter.mpr ⟨hc, ht⟩
    rw [← h.classes] at hm
    exact (List.mem_filter.mp hm).1
  | false =>
    cases hv : opensWith .varKw c with
    | true =>
      have hm : c ∈ cs'.filter (opensWith .varKw) := List.mem_filter.mpr ⟨hc, hv⟩
      rw [← h.vars] at hm
      exact (List.mem_filter.mp hm).1
    | false =>
      have hm : c ∈ cs'.filter (fun c => !opensWith .typeKw c && !opensWith .varKw c) :=
        List.mem_filter.mpr ⟨hc, by simp [ht, hv]⟩
      rw [← h.methods] at hm
      exact (List.mem_filter.mp hm).1

/-- The word that opens a section tells its sort. -/
theorem sort_of_part {c : List Token} {p : Part} (h : Derives src .part c p) :
    p.classes?.isSome = opensWith .typeKw c ∧ p.vars?.isSome = opensWith .varKw c ∧
      p.method?.isSome = (!opensWith .typeKw c && !opensWith .varKw c) := by
  cases h with
  | classPart hw => simp [opensWith, hw, Part.classes?, Part.vars?, Part.method?]
  | varPart hw => simp [opensWith, hw, Part.classes?, Part.vars?, Part.method?]
  | methodPart hm =>
    cases hm with
    | impl hw =>
      have hk := methodKind?_of_mem hw
      have ht : Token.kind _ ≠ .typeKw := fun h => by rw [h] at hk; cases hk
      have hv : Token.kind _ ≠ .varKw := fun h => by rw [h] at hk; cases hk
      simp [opensWith, ht, hv, Part.classes?, Part.vars?, Part.method?]

/-- Only the sections of a sort count for what is made of that sort. -/
theorem filterMap_filter_of_sort {β : Type} {cs : List (List Token)} {g : List Token → Option β}
    {q : List Token → Bool} (hq : ∀ c ∈ cs, (g c).isSome = q c) :
    (cs.filter q).filterMap g = cs.filterMap g := by
  rw [List.filterMap_filter]
  apply List.filterMap_congr
  intro c hc
  have h := hq c hc
  cases hg : g c with
  | none => simp
  | some b => simp_all

/-- Interleaving sections in another way gives the same declarations. -/
theorem ofParts_interleaved {cs cs' : List (List Token)} (h : Interleaved cs cs')
    {f : List Token → Part} (hf : ∀ c ∈ cs, Derives src .part c (f c)) :
    Declarations.ofParts (cs.map f) = Declarations.ofParts (cs'.map f) := by
  have hf' : ∀ c ∈ cs', Derives src .part c (f c) := fun c hc => hf c (h.mem hc)
  have hclasses : cs.filterMap (Part.classes? ∘ f) = cs'.filterMap (Part.classes? ∘ f) := by
    have hsort := fun c hc => (sort_of_part (hf c hc)).1
    have hsort' := fun c hc => (sort_of_part (hf' c hc)).1
    rw [← filterMap_filter_of_sort (g := Part.classes? ∘ f) hsort, h.classes,
      filterMap_filter_of_sort (g := Part.classes? ∘ f) hsort']
  have hvars : cs.filterMap (Part.vars? ∘ f) = cs'.filterMap (Part.vars? ∘ f) := by
    have hsort := fun c hc => (sort_of_part (hf c hc)).2.1
    have hsort' := fun c hc => (sort_of_part (hf' c hc)).2.1
    rw [← filterMap_filter_of_sort (g := Part.vars? ∘ f) hsort, h.vars,
      filterMap_filter_of_sort (g := Part.vars? ∘ f) hsort']
  have hmethods : cs.filterMap (Part.method? ∘ f) = cs'.filterMap (Part.method? ∘ f) := by
    have hsort := fun c hc => (sort_of_part (hf c hc)).2.2
    have hsort' := fun c hc => (sort_of_part (hf' c hc)).2.2
    rw [← filterMap_filter_of_sort (g := Part.method? ∘ f) hsort, h.methods,
      filterMap_filter_of_sort (g := Part.method? ∘ f) hsort']
  simp only [Declarations.ofParts, List.filterMap_map, hclasses, hvars, hmethods]

theorem parts_of_sections {cs : List (List Token)} {f : List Token → Part}
    (hf : ∀ c ∈ cs, Derives src .part c (f c)) : Derives src .parts cs.flatten (cs.map f) := by
  induction cs with
  | nil => exact .noParts
  | cons c cs ih =>
    have hc := hf c List.mem_cons_self
    have hcs := ih fun d hd => hf d (List.mem_cons_of_mem _ hd)
    exact .moreParts hc hcs

end Grammar

theorem Program.ofParts_congr {location : Location} {name : Option String} {ps ps' : List Part}
    {b : Block} (h : Declarations.ofParts ps = Declarations.ofParts ps') :
    Program.ofParts location name ps b = Program.ofParts location name ps' b := by
  have hclasses := congrArg Declarations.classes h
  have hvars := congrArg Declarations.vars h
  have hmethods := congrArg Declarations.methods h
  simp only [Declarations.ofParts] at hclasses hvars hmethods
  simp only [Program.ofParts, hclasses, hvars, hmethods]

/-- Sections interleaved in another way give the same program, but for the place where it starts. -/
theorem Program.ofTokens_interleaved {head body : List Token} {cs cs' : List (List Token)}
    {dot eof : Token} {name : Option String} {b : Block} (ht : Derives src .title head name)
    (hcs : ∀ c ∈ cs, ∃ p, Derives src .part c p) (hb : Derives src .block body b)
    (hd : dot.kind = .dot) (hi : Interleaved cs cs')
    (hn : ShortNumerals (head ++ cs.flatten ++ body ++ [dot])) (he : eof.kind = .eof) :
    ∃ p p', Program.ofTokens src (head ++ cs.flatten ++ body ++ [dot] ++ [eof]) = .ok p ∧
      Program.ofTokens src (head ++ cs'.flatten ++ body ++ [dot] ++ [eof]) = .ok p' ∧
      p' = { p with location := p'.location } ∧ (head ≠ [] → p' = p) := by
  have hex : ∀ c, ∃ p, c ∈ cs → Derives src .part c p := by
    intro c
    by_cases hc : c ∈ cs
    · obtain ⟨p, hp⟩ := hcs c hc
      exact ⟨p, fun _ => hp⟩
    · exact ⟨.vars default [], fun h => absurd h hc⟩
  obtain ⟨f, hf⟩ := Classical.axiomOfChoice hex
  have hsame := ofParts_interleaved hi hf
  have hp := parts_of_sections hf
  have hp' := parts_of_sections fun c hc => hf c (hi.mem hc)
  have hn' : ShortNumerals (head ++ cs'.flatten ++ body ++ [dot]) := by
    intro t hmem
    refine hn t ?_
    simp only [List.mem_append, List.mem_flatten] at hmem ⊢
    rcases hmem with ((hh | ⟨c, hc, htc⟩) | hbody) | hdot
    · exact .inl (.inl (.inl hh))
    · exact .inl (.inl (.inr ⟨c, hi.mem hc, htc⟩))
    · exact .inl (.inr hbody)
    · exact .inr hdot
  -- a first token is there, since the block is not empty
  have hfirst : ∀ ds : List (List Token), ∃ t, (head ++ ds.flatten ++ body).head? = some t := by
    intro ds
    cases hc : head ++ ds.flatten ++ body with
    | nil =>
      simp only [List.append_eq_nil_iff] at hc
      rw [hc.2] at hb
      cases hb
    | cons t ts => exact ⟨t, rfl⟩
  obtain ⟨t, hhead⟩ := hfirst cs
  obtain ⟨t', hhead'⟩ := hfirst cs'
  have hread := Program.ofTokens_complete (.program ht hp hb hhead hd) hn he
  have hread' := Program.ofTokens_complete (.program ht hp' hb hhead' hd) hn' he
  rw [← Program.ofParts_congr hsame] at hread'
  refine ⟨_, _, hread, hread', rfl, ?_⟩
  intro hne
  obtain ⟨u, us, rfl⟩ := List.exists_cons_of_ne_nil hne
  cases hhead
  cases hhead'
  rfl

/-- The parser accepts exactly the grammar: it gives a program for just those lists that stand for
it, there is at most one, and sections of different sorts may be interleaved in any way. -/
theorem ofTokens_recognises_grammar (src : Source) (ts : List Token) (eof : Token)
    (he : eof.kind = .eof) (hts : NoEnd ts) (hn : ShortNumerals ts) :
    (∀ p, Program.ofTokens src (ts ++ [eof]) = .ok p ↔ Derives src .program ts p) ∧
    (∀ p p', Derives src .program ts p → Derives src .program ts p' → p = p') ∧
    (∀ head cs cs' body dot name b, ts = head ++ cs.flatten ++ body ++ [dot] →
      Derives src .title head name → (∀ c ∈ cs, ∃ p, Derives src .part c p) →
      Derives src .block body b → dot.kind = .dot → Interleaved cs cs' →
      ∃ p p', Program.ofTokens src (ts ++ [eof]) = .ok p ∧
        Program.ofTokens src (head ++ cs'.flatten ++ body ++ [dot] ++ [eof]) = .ok p' ∧
        p' = { p with location := p'.location } ∧ (head ≠ [] → p' = p)) := by
  have hiff : ∀ p, Program.ofTokens src (ts ++ [eof]) = .ok p ↔ Derives src .program ts p :=
    Program.ofTokens_iff he hts hn
  refine ⟨hiff, ?_, ?_⟩
  · intro p p' h h'
    have hp := (hiff p).mpr h
    have hp' := (hiff p').mpr h'
    rw [hp] at hp'
    exact Except.ok.inj hp'
  · rintro head cs cs' body dot name b rfl ht hcs hb hd hi
    exact Program.ofTokens_interleaved ht hcs hb hd hi hn he

/-- A class section and a variable section, in both orders. -/
theorem ofTokens_recognises_both_orders :
    let word (kind : TokenKind) : Token := ⟨kind, "a", {}⟩
    let classes := [word .typeKw, word .ident, word .equals, word .classKw, word .endKw, word .semi]
    let vars := [word .varKw, word .ident, word .colon, word .ident, word .semi]
    let main := [word .beginKw, word .endKw]
    ∃ p p', Program.ofTokens ⟨"", []⟩ (classes ++ vars ++ main ++ [word .dot] ++ [word .eof]) = .ok p ∧
      Program.ofTokens ⟨"", []⟩ (vars ++ classes ++ main ++ [word .dot] ++ [word .eof]) = .ok p' ∧
      p' = { p with location := p'.location } := by
  intro word classes vars main
  have h := ofTokens_recognises_grammar ⟨"", []⟩ (classes ++ vars ++ main ++ [word .dot])
    (word .eof) rfl (by unfold NoEnd; decide) (by unfold ShortNumerals; decide)
  have hclasses : Derives ⟨"", []⟩ .part classes _ :=
    .classPart rfl (.lastClass (.classDecl rfl rfl rfl .noMembers .noMarked rfl rfl))
  have hvars : Derives ⟨"", []⟩ .part vars _ :=
    .varPart rfl (.lastVar (.group (.lastName rfl) rfl rfl) rfl)
  have hmain : Derives ⟨"", []⟩ .block main _ := .block rfl (.lastStatement .noStatement) rfl
  have hparts : ∀ c ∈ [classes, vars], ∃ p, Derives ⟨"", []⟩ .part c p := by
    simpa using ⟨⟨_, hclasses⟩, ⟨_, hvars⟩⟩
  obtain ⟨p, p', hp, hp', hsame, -⟩ := h.2.2 [] [classes, vars] [vars, classes] main (word .dot)
    none _ rfl .noTitle hparts hmain rfl ⟨by decide, by decide, by decide⟩
  exact ⟨p, p', hp, hp', hsame⟩

end ObjectPascal
