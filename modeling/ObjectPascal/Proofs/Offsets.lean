import ObjectPascal.Proofs.Segmentation

/-!
Tokens and the offsets at which they stand in the text: what each of them is, where it says that it
is, and what lies between it and the next one.
-/

namespace ObjectPascal

open Scan

/-! Words and signs. -/

namespace Scan

variable {cs : List Char} {kind kind' : TokenKind}

theorem Spells.ne_nil (h : Spells cs kind) : cs ≠ [] := by
  cases h <;> exact List.cons_ne_nil _ _

/-- A text is a token of one kind at most. -/
theorem Spells.unique (h : Spells cs kind) (h' : Spells cs kind') : kind = kind' := by
  cases cs with
  | nil => exact absurd rfl h.ne_nil
  | cons c tail =>
    have hend (kind : TokenKind) : ([] : List Char).head?.all (mayPrecede kind) := rfl
    have hfirst := firstPiece_complete ⟨h, hend kind⟩
    have hfirst' := firstPiece_complete ⟨h', hend kind'⟩
    rw [hfirst] at hfirst'
    cases hfirst'
    rfl

theorem isWordStart_of_toUpper {c : Char} (h : 'A' ≤ c.toUpper ∧ c.toUpper ≤ 'Z') :
    isWordStart c := by
  unfold isWordStart
  unfold Char.toUpper at h
  split at h
  · next hlower =>
    have hlower' : 'a' ≤ c ∧ c ≤ 'z' := hlower
    simp [hlower'.1, hlower'.2]
  · simp [h.1, h.2]

/-- A text that is a keyword in capital letters is made of letters. -/
theorem spells_of_toUpper (hk : kind ∈ TokenKind.keywords)
    (hu : cs.map Char.toUpper = kind.name.toList) : Spells cs kind := by
  have hcapitals : ∀ kind ∈ TokenKind.keywords, kind.name.toList ≠ [] ∧
      kind.name.toList.all fun c => 'A' ≤ c ∧ c ≤ 'Z' := by
    decide
  obtain ⟨hne, hletters⟩ := hcapitals kind hk
  have hstart : ∀ c ∈ cs, isWordStart c := by
    intro c hc
    have hupper : c.toUpper ∈ kind.name.toList := by
      rw [← hu]
      exact List.mem_map_of_mem hc
    exact isWordStart_of_toUpper (of_decide_eq_true (List.all_eq_true.mp hletters _ hupper))
  cases cs with
  | nil => exact absurd hu.symm hne
  | cons c tail =>
    obtain ⟨hc, htail⟩ := List.forall_mem_cons.mp hstart
    exact .keyword hc (fun d hd => isWordPart_of_isWordStart (htail d hd)) hk hu

/-- A token is a keyword exactly when its text in capital letters is that keyword. -/
theorem Spells.keyword_iff (h : Spells cs kind) (hk : kind' ∈ TokenKind.keywords) :
    kind = kind' ↔ cs.map Char.toUpper = kind'.name.toList := by
  constructor
  · rintro rfl
    cases h with
    | keyword _ _ _ hu => exact hu
    | symbol hs =>
      unfold TokenKind.ofSymbol? at hs
      split at hs <;> cases hs <;> exact absurd hk (by decide)
    | _ => exact absurd hk (by decide)
  · intro hu
    exact h.unique (spells_of_toUpper hk hu)

/-- What is no word does not end in a letter or digit. -/
theorem Spells.last (h : Spells cs kind) (hk : kind.isWord = false) {c : Char}
    (hc : cs.getLast? = some c) : isWordPart c = false := by
  cases h with
  | assign =>
    cases hc
    decide
  | colon =>
    cases hc
    decide
  | @symbol d _ hs =>
    cases hc
    unfold TokenKind.ofSymbol? at hs
    split at hs <;> first | decide | cases hs
  | number => cases hk
  | keyword _ _ hmem _ =>
    rw [isWord_of_mem_keywords hmem] at hk
    cases hk
  | ident => cases hk

/-- A word begins with a letter or digit. -/
theorem Spells.first (h : Spells cs kind) (hk : kind.isWord) {c : Char}
    (hc : cs.head? = some c) : isWordPart c := by
  cases h with
  | assign => cases hk
  | colon => cases hk
  | symbol hs =>
    unfold TokenKind.ofSymbol? at hs
    split at hs <;> cases hs <;> exact absurd hk (by decide)
  | number hd _ =>
    cases hc
    exact isWordPart_of_isDigit hd
  | keyword hw _ _ _ =>
    cases hc
    exact isWordPart_of_isWordStart hw
  | ident hw _ _ =>
    cases hc
    exact isWordPart_of_isWordStart hw

theorem mayPrecede_iff {c : Char} : mayPrecede kind c ↔
    (kind.isWord → isWordPart c = false) ∧ (kind = .colon → c ≠ '=') ∧
      (kind = .slash → c ≠ '/') ∧ (kind = .lparen → c ≠ '*') := by
  cases kind <;> simp [mayPrecede, TokenKind.isWord, TokenKind.keywords]

/-- Layout in front of a word does not end in a letter or digit. -/
theorem Layout.last {gap rest : List Char} (h : Layout gap rest)
    (hr : rest.head?.any isWordPart) {c : Char} (hc : gap.getLast? = some c) :
    isWordPart c = false := by
  -- what stands before the rest of a gap matters only when there is no rest
  have split {front gap : List Char} (hc : (front ++ gap).getLast? = some c) :
      gap.getLast? = some c ∨ gap = [] ∧ front.getLast? = some c := by
    cases gap with
    | nil => exact .inr ⟨rfl, by rwa [List.append_nil] at hc⟩
    | cons d gap => exact .inl (by rwa [List.getLast?_append_cons] at hc)
  induction h with
  | nil => cases hc
  | @blank d gap rest hd _ ih =>
    have hc' : ([d] ++ gap).getLast? = some c := hc
    obtain hlast | ⟨-, hlast⟩ := split hc'
    · exact ih hr hlast
    · cases hlast
      cases hpart : isWordPart d with
      | false => exact hpart
      | true =>
        rw [isBlank_of_isWordPart hpart] at hd
        cases hd
  | @brace body gap rest _ _ ih =>
    have htext : '\x7b' :: body ++ '\x7d' :: gap = ('\x7b' :: body ++ ['\x7d']) ++ gap := by simp
    rw [htext] at hc
    obtain hlast | ⟨-, hlast⟩ := split hc
    · exact ih hr hlast
    · rw [List.getLast?_concat] at hlast
      cases hlast
      decide
  | @star body gap rest _ _ ih =>
    have htext : '(' :: '*' :: body ++ '*' :: ')' :: gap =
        ('(' :: '*' :: body ++ ['*'] ++ [')']) ++ gap := by simp
    rw [htext] at hc
    obtain hlast | ⟨-, hlast⟩ := split hc
    · exact ih hr hlast
    · rw [List.getLast?_concat] at hlast
      cases hlast
      decide
  | @line body gap rest _ he _ ih =>
    obtain hlast | ⟨rfl, -⟩ := split hc
    · exact ih hr hlast
    · -- a line comment is not directly followed by a word
      rw [List.nil_append] at he
      cases rest with
      | nil => cases hr
      | cons d rest =>
        have hd : d = '\n' := by simpa using he
        subst hd
        cases hr

end Scan

/-! Tokens in a text. -/

/-- A token stands at an offset: what it is, where it says that it is, that it is a whole word if it
is a word, and that it is not the beginning of a longer sign or of a comment. -/
structure Token.StandsAt (t : Token) (cs : List Char) (o : Nat) : Prop where
  text : t.text.toList <+: cs.drop o
  spells : Spells t.text.toList t.kind
  keyword : ∀ kind ∈ TokenKind.keywords,
    t.kind = kind ↔ t.text.toList.map Char.toUpper = kind.name.toList
  position : t.position = .after (cs.take o)
  ahead : t.kind.isWord → ∀ c, (cs.take o).getLast? = some c → isWordPart c = false
  behind : t.kind.isWord → ∀ c, cs[o + t.text.length]? = some c → isWordPart c = false
  colon : t.kind = .colon → cs[o + t.text.length]? ≠ some '='
  slash : t.kind = .slash → cs[o + t.text.length]? ≠ some '/'
  lparen : t.kind = .lparen → cs[o + t.text.length]? ≠ some '*'

/-- From an offset on, a text has these tokens at their offsets, none before the end of the one
ahead of it, and nothing but layout around them. -/
def LaidOut (cs : List Char) : Nat → List (Nat × Token) → Prop
  | e, [] => Layout (cs.drop e) []
  | e, (o, t) :: placed =>
    e ≤ o ∧ Layout ((cs.take o).drop e) (cs.drop o) ∧ LaidOut cs (o + t.text.length) placed

/-- A text is cut into tokens at offsets. -/
structure Segmentation (cs : List Char) (placed : List (Nat × Token)) : Prop where
  stands : ∀ x ∈ placed, x.2.StandsAt cs x.1
  increasing : (placed.map Prod.fst).Pairwise (· < ·)
  layout : LaidOut cs 0 placed

variable {cs : List Char} {e : Nat} {placed : List (Nat × Token)} {ts : List Token}

theorem Token.StandsAt.length_pos {t : Token} {o : Nat} (h : t.StandsAt cs o) :
    0 < t.text.length := by
  rw [← String.length_toList]
  exact List.length_pos_iff.mpr h.spells.ne_nil

/-- Offsets increase, since no token is empty. -/
theorem LaidOut.increasing (h : LaidOut cs e placed) (hs : ∀ x ∈ placed, x.2.StandsAt cs x.1) :
    (placed.map Prod.fst).Pairwise (· < ·) ∧ ∀ x ∈ placed, e ≤ x.1 := by
  induction placed generalizing e with
  | nil => exact ⟨.nil, fun _ hx => absurd hx List.not_mem_nil⟩
  | cons x placed ih =>
    obtain ⟨o, t⟩ := x
    obtain ⟨heo, -, hrest⟩ := h
    obtain ⟨ht, hs⟩ := List.forall_mem_cons.mp hs
    have hpos : 0 < t.text.length := ht.length_pos
    obtain ⟨hpairs, hlater⟩ := ih hrest hs
    constructor
    · rw [List.map_cons, List.pairwise_cons]
      refine ⟨fun o' ho' => ?_, hpairs⟩
      obtain ⟨x, hx, rfl⟩ := List.mem_map.mp ho'
      have hle := hlater x hx
      dsimp only
      omega
    · rw [List.forall_mem_cons]
      refine ⟨heo, fun x hx => ?_⟩
      have hle := hlater x hx
      omega

/-- A token that is cut off stands where it was cut off. -/
theorem standsAt_cut {pre cs rest : List Char} {kind : TokenKind} (hs : Spells cs kind)
    (hr : rest.head?.all (mayPrecede kind))
    (hahead : kind.isWord → ∀ c, pre.getLast? = some c → isWordPart c = false) :
    Token.StandsAt ⟨kind, String.ofList cs, .after pre⟩ (pre ++ (cs ++ rest)) pre.length := by
  have htext : (String.ofList cs).toList = cs := String.toList_ofList
  have hlength : (String.ofList cs).length = cs.length := String.length_ofList
  have hnext : (pre ++ (cs ++ rest))[pre.length + (String.ofList cs).length]? = rest.head? := by
    rw [hlength, ← List.append_assoc, ← List.length_append, List.getElem?_append_right le_rfl,
      Nat.sub_self, List.head?_eq_getElem?]
  have hbehind : ∀ c, rest.head? = some c → mayPrecede kind c := (Option.all_eq_true _ _).mp hr
  constructor
  · rw [htext, List.drop_left]
    exact List.prefix_append cs rest
  · rwa [htext]
  · intro kind' hk
    rw [htext]
    exact hs.keyword_iff hk
  · rw [List.take_left]
  · rwa [List.take_left]
  · intro hk c hc
    exact (mayPrecede_iff.mp (hbehind c (hnext ▸ hc))).1 hk
  · intro hk hc
    exact (mayPrecede_iff.mp (hbehind _ (hnext ▸ hc))).2.1 hk rfl
  · intro hk hc
    exact (mayPrecede_iff.mp (hbehind _ (hnext ▸ hc))).2.2.1 hk rfl
  · intro hk hc
    exact (mayPrecede_iff.mp (hbehind _ (hnext ▸ hc))).2.2.2 hk rfl

/-- A text that is cut into tokens has them at offsets. The invariant is that no word is cut in two
at the place reached. -/
theorem exists_laidOut {p : Position} {rest : List Char} (h : Segmented p rest ts)
    (pre : List Char) (hp : p = .after pre) (hcut : ∀ c d, pre.getLast? = some c →
      rest.head? = some d → isWordPart d → isWordPart c = false) :
    ∃ placed, LaidOut (pre ++ rest) pre.length placed ∧
      (∀ x ∈ placed, x.2.StandsAt (pre ++ rest) x.1) ∧
      ts = placed.map Prod.snd ++ [⟨.eof, "", .after (pre ++ rest)⟩] := by
  induction h generalizing pre with
  | @done p gap hgap =>
    subst hp
    refine ⟨[], ?_, fun _ hx => absurd hx List.not_mem_nil, ?_⟩
    · unfold LaidOut
      rwa [List.drop_left]
    · rw [Position.advanceAll_after]
      rfl
  | @token p gap cs rest kind ts hgap hs hr _ ih =>
    subst hp
    rw [Position.advanceAll_after] at ih ⊢
    have hcut' : ∀ c d, (pre ++ gap ++ cs).getLast? = some c → rest.head? = some d →
        isWordPart d → isWordPart c = false := by
      intro c d hc hd hpart
      rw [List.getLast?_append_of_ne_nil _ hs.ne_nil] at hc
      rw [hd, Option.all_some, mayPrecede_iff] at hr
      by_cases hk : kind.isWord
      · rw [hr.1 hk] at hpart
        cases hpart
      · exact hs.last (Bool.eq_false_iff.mpr hk) hc
    obtain ⟨placed, hlaid, hstands, rfl⟩ :=
      ih (pre ++ gap ++ cs) (Position.advanceAll_after _ _) hcut'
    have htext : pre ++ (gap ++ (cs ++ rest)) = pre ++ gap ++ cs ++ rest := by simp
    have hstand : Token.StandsAt ⟨kind, String.ofList cs, .after (pre ++ gap)⟩
        (pre ++ gap ++ cs ++ rest) (pre ++ gap).length := by
      rw [List.append_assoc (pre ++ gap)]
      refine standsAt_cut hs hr fun hk c hc => ?_
      obtain ⟨d, tail, rfl⟩ := List.exists_cons_of_ne_nil hs.ne_nil
      have hd : isWordPart d := hs.first hk rfl
      cases gap with
      | nil =>
        rw [List.append_nil] at hc
        exact hcut c d hc rfl hd
      | cons g gap =>
        rw [List.getLast?_append_of_ne_nil _ (List.cons_ne_nil g gap)] at hc
        exact hgap.last hd hc
    have hend : (pre ++ gap).length + (String.ofList cs).length = (pre ++ gap ++ cs).length := by
      rw [String.length_ofList, ← List.length_append]
    refine ⟨((pre ++ gap).length, ⟨kind, String.ofList cs, .after (pre ++ gap)⟩) :: placed,
      ?_, ?_, ?_⟩
    · rw [htext, LaidOut, hend]
      refine ⟨?_, ?_, hlaid⟩
      · rw [List.length_append]
        omega
      · rw [List.append_assoc (pre ++ gap), List.take_left, List.drop_left, List.drop_left]
        exact hgap
    · rw [htext, List.forall_mem_cons]
      exact ⟨hstand, hstands⟩
    · rw [htext]
      rfl

/-- Tokens at offsets, read from the offset `e` on. -/
theorem segmented_of_laidOut (h : LaidOut cs e placed)
    (hs : ∀ x ∈ placed, x.2.StandsAt cs x.1) :
    Segmented (.after (cs.take e)) (cs.drop e)
      (placed.map Prod.snd ++ [⟨.eof, "", .after cs⟩]) := by
  induction placed generalizing e with
  | nil =>
    have hdone := Segmented.done (p := .after (cs.take e)) h
    rwa [Position.advanceAll_after, List.take_append_drop] at hdone
  | cons x placed ih =>
    obtain ⟨o, t⟩ := x
    obtain ⟨heo, hgap, hrest⟩ := h
    obtain ⟨ht, hs⟩ := List.forall_mem_cons.mp hs
    obtain ⟨rest, hrest'⟩ := ht.text
    dsimp only at ht hrest'
    have hrest_eq : cs.drop (o + t.text.length) = rest := by
      rw [← List.drop_drop, ← hrest', ← String.length_toList, List.drop_left]
    have hinside : e ≤ (cs.take o).length := by
      have hlength : t.text.toList.length + rest.length = cs.length - o := by
        rw [← List.length_append, hrest', List.length_drop]
      have hpos : 0 < t.text.toList.length := List.length_pos_iff.mpr ht.spells.ne_nil
      rw [List.length_take]
      omega
    have hcut : cs.drop e = (cs.take o).drop e ++ (t.text.toList ++ rest) := by
      rw [hrest', ← List.drop_append_of_le_length hinside, List.take_append_drop]
    have hbefore : cs.take e ++ (cs.take o).drop e = cs.take o := by
      have htake : (cs.take o).take e = cs.take e := by rw [List.take_take, Nat.min_eq_left heo]
      rw [← htake, List.take_append_drop]
    have hthrough : cs.take o ++ t.text.toList = cs.take (o + t.text.length) := by
      rw [List.take_add, ← hrest', ← String.length_toList, List.take_left]
    have hr : rest.head?.all (mayPrecede t.kind) := by
      rw [Option.all_eq_true]
      intro c hc
      have hnext : cs[o + t.text.length]? = some c := by
        rw [← hc, ← hrest_eq, List.head?_drop]
      rw [mayPrecede_iff]
      refine ⟨fun hk => ht.behind hk c hnext, fun hk => ?_, fun hk => ?_, fun hk => ?_⟩
      · rintro rfl
        exact ht.colon hk hnext
      · rintro rfl
        exact ht.slash hk hnext
      · rintro rfl
        exact ht.lparen hk hnext
    have htail := ih hrest hs
    rw [hrest_eq, ← hthrough, ← Position.advanceAll_after, ← hbefore,
      ← Position.advanceAll_after] at htail
    have htoken := Segmented.token (hrest' ▸ hgap) ht.spells hr htail
    rw [← hcut, Position.advanceAll_after, hbefore, ← ht.position, String.ofList_toList] at htoken
    exact htoken

/-- Where scanning stops, something of the text is left. -/
theorem tokensFrom_error {pre rest : List Char} {err : ScanError}
    (h : tokensFrom (.after pre) rest = .error err) :
    ∃ o < rest.length, err.position = .after (pre ++ rest.take o) := by
  induction hn : rest.length using Nat.strongRecOn generalizing pre rest with
  | ind n ih =>
    cases rest with
    | nil =>
      rw [tokensFrom] at h
      cases h
    | cons c rest =>
      rcases hpiece : firstPiece c rest with problem | ⟨kind, tail⟩
      · rw [tokensFrom, hpiece] at h
        cases h
        refine ⟨0, ?_, ?_⟩
        · rw [← hn]
          exact Nat.zero_lt_succ _
        · rw [List.take_zero, List.append_nil]
      · obtain ⟨after, rfl, -⟩ := firstPiece_sound hpiece
        change tokensFrom (.after pre) (c :: tail ++ after) = .error err at h
        rw [tokensFrom_piece _ hpiece, Position.advanceAll_after] at h
        have hlength : (c :: tail).length + after.length = n := by
          rw [← hn, ← List.length_append, List.cons_append]
        rw [List.length_cons] at hlength
        cases hrest : tokensFrom (.after (pre ++ c :: tail)) after with
        | ok tokens =>
          rw [hrest] at h
          cases h
        | error e =>
          rw [hrest] at h
          cases h
          obtain ⟨o, ho, hposition⟩ := ih after.length (by omega) hrest rfl
          refine ⟨(c :: tail).length + o, ?_, ?_⟩
          · rw [List.length_cons]
            omega
          · rw [hposition, ← List.cons_append, List.take_length_add_append, List.append_assoc]

/-- Every text is cut into tokens at offsets, or scanning says where it stops; and the tokens that
it gives, with the end marker at the end of the text, are those of any such cut. -/
theorem scan_segments_text (text : String) :
    ((∃ ts, scan text = .ok ts) ∨ ∃ err o, scan text = .error err ∧ o < text.toList.length ∧
      err.position = .after (text.toList.take o)) ∧
    ∀ ts, scan text = .ok ts ↔ ∃ placed, Segmentation text.toList placed ∧
      ts = placed.map Prod.snd ++ [⟨.eof, "", .after text.toList⟩] := by
  constructor
  · cases h : scan text with
    | ok ts => exact .inl ⟨ts, rfl⟩
    | error err =>
      have hstop : tokensFrom (.after []) text.toList = .error err := h
      obtain ⟨o, ho, hposition⟩ := tokensFrom_error hstop
      exact .inr ⟨err, o, rfl, ho, hposition⟩
  · intro ts
    constructor
    · intro h
      obtain ⟨placed, hlaid, hstands, hts⟩ :=
        exists_laidOut (tokensFrom_iff.mp h) [] rfl fun _ _ hc => nomatch hc
      exact ⟨placed, ⟨hstands, (hlaid.increasing hstands).1, hlaid⟩, hts⟩
    · rintro ⟨placed, hplaced, rfl⟩
      exact tokensFrom_iff.mpr (segmented_of_laidOut hplaced.layout hplaced.stands)

end ObjectPascal
