import Mathlib.Data.Int.ModEq
import ObjectPascal.Proofs.Compliance
import ObjectPascal.Proofs.Invocation

/-!
What expressions amount to. Words are added, subtracted and multiplied modulo 2³², so that a tree
of such operations can be calculated in the integers and brought into range at the end. Division
drops the fraction, and one pair of words has a quotient that is out of range.
-/

namespace ObjectPascal

open Script

/-! Words. -/

namespace Word

/-- The low 32 bits of an integer are the only word that is congruent to it. -/
theorem eq_wrap_iff {n w : Int} : w = wrap n ↔ InRange w ∧ w ≡ n [ZMOD 2 ^ 32] := by
  constructor
  · rintro rfl
    exact ⟨wrap_inRange n, Int.bmod_emod⟩
  · rintro ⟨hrange, hmod⟩
    rw [← wrap_of_inRange hrange]
    have hsame := congrArg (Int.bmod · 4294967296) hmod
    exact (Int.emod_bmod w 4294967296).symm.trans (hsame.trans (Int.emod_bmod n 4294967296))

/-- `q` is the quotient of `a` by `b` without its fraction, and `r` is what is left over: less than
the divisor, and zero or of the sign of `a`. -/
structure Truncates (a b q r : Int) : Prop where
  sum : a = q * b + r
  small : r.natAbs < b.natAbs
  sign : r = 0 ∨ r.sign = a.sign

theorem truncates_tdiv (a : Int) {b : Int} (hb : b ≠ 0) :
    Truncates a b (a.tdiv b) (a.tmod b) where
  sum := (Int.tdiv_mul_add_tmod a b).symm
  small := by
    rw [Int.natAbs_tmod]
    exact Nat.mod_lt _ (Int.natAbs_pos.mpr hb)
  sign := by
    have hsign := Int.sign_tmod a b
    split at hsign
    · exact .inl (Int.sign_eq_zero_iff_zero.mp hsign)
    · exact .inr hsign

/-- What is left over is on the side of zero on which `a` is. -/
theorem Truncates.side {a b q r : Int} (h : Truncates a b q r) :
    (0 ≤ a → 0 ≤ r) ∧ (a ≤ 0 → r ≤ 0) := by
  rcases h.sign with rfl | hsign
  · exact ⟨fun _ => le_rfl, fun _ => le_rfl⟩
  · refine ⟨fun ha => ?_, fun ha => ?_⟩
    · rw [← Int.sign_nonneg_iff, hsign, Int.sign_nonneg_iff]
      exact ha
    · rw [← Int.sign_nonpos_iff, hsign, Int.sign_nonpos_iff]
      exact ha

/-- There is one such quotient, since two remainders on one side of zero are less than a divisor
apart. -/
theorem Truncates.unique {a b q r q' r' : Int} (h : Truncates a b q r)
    (h' : Truncates a b q' r') : q' = q ∧ r' = r := by
  have hapart : (r - r').natAbs < b.natAbs := by
    have hsmall := h.small
    have hsmall' := h'.small
    have hside := h.side
    have hside' := h'.side
    omega
  have hmul : (q' - q) * b = r - r' := by
    rw [Int.sub_mul]
    have hsum := h.sum
    have hsum' := h'.sum
    omega
  have hq : q' - q = 0 := by
    rw [← hmul, Int.natAbs_mul] at hapart
    have hone : (q' - q).natAbs < 1 := Nat.lt_of_mul_lt_mul_right (by rwa [Nat.one_mul])
    exact Int.natAbs_eq_zero.mp (Nat.lt_one_iff.mp hone)
  rw [hq, Int.zero_mul] at hmul
  omega

/-- The quotient of two words is a word but for one pair. -/
theorem tdiv_inRange_iff {a b : Int} (ha : InRange a) (hb : b ≠ 0) :
    InRange (a.tdiv b) ↔ ¬ (a = minValue ∧ b = -1) := by
  constructor
  · rintro h ⟨rfl, rfl⟩
    revert h
    decide
  · intro hpair
    by_contra hout
    have hsize : (a.tdiv b).natAbs = a.natAbs / b.natAbs := Int.natAbs_tdiv a b
    have hle := Nat.div_le_self a.natAbs b.natAbs
    unfold InRange minValue maxValue at ha hout
    unfold minValue at hpair
    -- only a divisor of size one leaves the size as it is
    have hone : b.natAbs = 1 := by
      by_contra hne
      have htwo : 2 ≤ b.natAbs := by omega
      have hhalf : a.natAbs / b.natAbs ≤ a.natAbs / 2 := Nat.div_le_div_left htwo Nat.two_pos
      omega
    rcases Int.natAbs_eq b with hb' | hb' <;> rw [hone] at hb'
    · subst hb'
      rw [Nat.cast_one, Int.tdiv_one] at hout
      omega
    · subst hb'
      rw [Nat.cast_one, Int.tdiv_neg, Int.tdiv_one] at hout
      omega

theorem wrap_tdiv {a b : Int} (ha : InRange a) (hb : b ≠ 0) :
    wrap (a.tdiv b) = if a = minValue ∧ b = -1 then minValue else a.tdiv b := by
  split
  · next h =>
    obtain ⟨rfl, rfl⟩ := h
    decide
  · next h => exact wrap_of_inRange ((tdiv_inRange_iff ha hb).mpr h)

/-- Vectors of 32 bits stand for words. -/
theorem toInt_ofInt {n : Int} (h : InRange n) : (BitVec.ofInt 32 n).toInt = n := by
  rw [BitVec.toInt_ofInt]
  exact wrap_of_inRange h

end Word

/-! Operations. -/

namespace Operator

open Word

/-- An operation of the ring of integers. -/
def ring? : Operator → Option (Int → Int → Int)
  | add => some (· + ·)
  | sub => some (· - ·)
  | mul => some (· * ·)
  | div | other _ => none

/-- The operation on vectors of 32 bits. -/
def bits? : Operator → Option (BitVec 32 → BitVec 32 → BitVec 32)
  | add => some (· + ·)
  | sub => some (· - ·)
  | mul => some (· * ·)
  | div => some BitVec.sdiv
  | other _ => none

/-- Whatever the operands are that have the values `a` and `b`, the operation has the value `w`, and
nothing else happens. -/
def Yields (host : Host) (body : List Statement → Script Unit) (op : Operator) (a b w : Int) :
    Prop :=
  ∀ (location : Location) (x y : Expr) (m m₁ m₂ : Machine),
    (evaluate body x).run host m = (.ok (.int a), m₁) →
    (evaluate body y).run host m₁ = (.ok (.int b), m₂) →
    (evaluate body (.binary location op x y)).run host m = (.ok (.int w), m₂)

variable {host : Host} {body : List Statement → Script Unit} {op : Operator} {a b w : Int}

theorem Yields.of_arithmetic
    (h : ∀ location m, (arithmetic location op a b).run host m = (.ok w, m)) :
    op.Yields host body a b w := by
  intro location x y m m₁ m₂ hx hy
  have hleft : (expectInt location (.int a)).run host m₁ = (.ok a, m₁) := rfl
  have hright : (expectInt location (.int b)).run host m₂ = (.ok b, m₂) := rfl
  rw [evaluate, run_bind_of_ok hx, run_bind_of_ok hleft, run_bind_of_ok hy,
    run_bind_of_ok hright, run_bind_of_ok (h location m₂)]
  rfl

theorem run_narrow {n : Int} (h : FitsWide n) (m : Machine) :
    (narrow n).run host m = (.ok (wrap n), m) := by
  have hsome : narrow? n = some (wrap n) := if_pos h
  unfold narrow
  rw [hsome]
  rfl

/-- The operations of the ring, modulo 2³². -/
theorem yields_ring {f : Int → Int → Int} (hf : op.ring? = some f) (ha : InRange a)
    (hb : InRange b) : op.Yields host body a b (wrap (f a b)) := by
  refine .of_arithmetic fun location m => ?_
  cases op with
  | add =>
    cases hf
    exact run_narrow (fitsWide_add ha hb) m
  | sub =>
    cases hf
    exact run_narrow (fitsWide_sub ha hb) m
  | mul =>
    cases hf
    exact run_narrow (fitsWide_mul ha hb) m
  | div => cases hf
  | other => cases hf

theorem yields_div (ha : InRange a) (hb : b ≠ 0) :
    div.Yields host body a b (wrap (a.tdiv b)) := by
  refine .of_arithmetic fun location m => ?_
  have hsome : quotient? a b = some (a.tdiv b) := if_neg hb
  unfold arithmetic
  dsimp only
  rw [hsome]
  exact run_narrow (fitsWide_tdiv ha b) m

/-- Bringing the operands into range first makes no difference. -/
theorem wrap_ring {f : Int → Int → Int} (hf : op.ring? = some f) (a b : Int) :
    wrap (f (wrap a) (wrap b)) = wrap (f a b) := by
  cases op with
  | add =>
    cases hf
    exact (Int.add_bmod a b _).symm
  | sub =>
    cases hf
    exact (Int.sub_bmod a b _).symm
  | mul =>
    cases hf
    exact (Int.mul_bmod a b _).symm
  | div => cases hf
  | other => cases hf

theorem toInt_bits {f : Int → Int → Int} {g : BitVec 32 → BitVec 32 → BitVec 32}
    (hf : op.ring? = some f) (hg : op.bits? = some g) (ha : InRange a) (hb : InRange b) :
    (g (.ofInt 32 a) (.ofInt 32 b)).toInt = wrap (f a b) := by
  cases op with
  | add =>
    cases hf
    cases hg
    rw [BitVec.toInt_add, toInt_ofInt ha, toInt_ofInt hb]
    rfl
  | sub =>
    cases hf
    cases hg
    rw [BitVec.toInt_sub, toInt_ofInt ha, toInt_ofInt hb]
    rfl
  | mul =>
    cases hf
    cases hg
    rw [BitVec.toInt_mul, toInt_ofInt ha, toInt_ofInt hb]
    rfl
  | div => cases hf
  | other => cases hf

theorem toInt_sdiv (ha : InRange a) (hb : InRange b) :
    ((BitVec.ofInt 32 a).sdiv (.ofInt 32 b)).toInt = wrap (a.tdiv b) := by
  rw [BitVec.toInt_sdiv, toInt_ofInt ha, toInt_ofInt hb]
  rfl

end Operator

/-! Expressions. -/

/-- Reading a variable, or a field of an object that a name stands for, gives a value. -/
inductive Store.Reads (s : Store) (d : Designator) (v : Value) : Prop
  | name (hd : d.selectors = []) (h : s.lookup d.base = .ok v)
  | field {id : ObjectId} {field : String} (hd : d.selectors = [field])
      (ho : s.objectOf d.base d.location = .ok id) (h : s.readField id field = .ok v)

theorem Store.Reads.run {m : Machine} {d : Designator} {v : Value} (h : m.store.Reads d v)
    (host : Host) : (readDesignator d).run host m = (.ok v, m) := by
  unfold readDesignator
  cases h with
  | name hd h =>
    rw [hd]
    change (faultAt none (m.store.lookup d.base), m) = _
    rw [h]
    rfl
  | @field id field hd ho h =>
    have hobject : (resolveObject d.base d.location).run host m = (.ok id, m) := by
      rw [run_resolveObject, ho]
    rw [hd]
    dsimp only
    rw [run_bind_of_ok hobject]
    change (faultAt (some d.location) (m.store.readField id field), m) = _
    rw [h]
    rfl

/-- A tree of literals, variables that hold words, parentheses and operations of the ring, and its
value in the integers. -/
inductive Expr.Exact (s : Store) : Expr → Int → Prop
  | literal {location : Location} {n : Nat} (hn : Word.InRange n) :
      Exact s (.literal location n) n
  | ref {d : Designator} {n : Int} (h : s.Reads d (.int n)) (hn : Word.InRange n) :
      Exact s (.ref d) n
  | parens {location : Location} {e : Expr} {n : Int} (h : Exact s e n) :
      Exact s (.parens location e) n
  | operation {location : Location} {op : Operator} {f : Int → Int → Int} {x y : Expr} {a b : Int}
      (hf : op.ring? = some f) (hx : Exact s x a) (hy : Exact s y b) :
      Exact s (.binary location op x y) (f a b)

/-- By induction on the tree: every operation keeps what its operands stand for modulo 2³². -/
theorem Expr.Exact.run {host : Host} {body : List Statement → Script Unit} {m : Machine} {e : Expr}
    {n : Int} (h : e.Exact m.store n) :
    (evaluate body e).run host m = (.ok (.int (Word.wrap n)), m) := by
  induction h with
  | literal hn =>
    rw [evaluate, Word.wrap_of_inRange hn]
    rfl
  | ref h hn =>
    rw [evaluate, Word.wrap_of_inRange hn]
    exact h.run host
  | parens _ ih =>
    rw [evaluate]
    exact ih
  | @operation location op f x y a b hf _ _ ihx ihy =>
    rw [← Operator.wrap_ring hf]
    exact Operator.yields_ring hf (Word.wrap_inRange a) (Word.wrap_inRange b) location x y m m m
      ihx ihy

/-- Arithmetic is that of signed words of 32 bits. A sum, a difference or a product of words is the
one word that is congruent to the exact result, a quotient is the exact one without its fraction,
but for the one that is out of range, and all of them are those of vectors of bits. A tree of sums,
differences and products is its value in the integers, brought into range once. -/
theorem arithmetic_of_words (host : Host) (body : List Statement → Script Unit) :
    (∀ op f g a b, Operator.ring? op = some f → op.bits? = some g → Word.InRange a →
      Word.InRange b → ∃ w, op.Yields host body a b w ∧
        (∀ v, v = w ↔ Word.InRange v ∧ v ≡ f a b [ZMOD 2 ^ 32]) ∧
        w = (g (.ofInt 32 a) (.ofInt 32 b)).toInt) ∧
    (∀ a b, Word.InRange a → Word.InRange b → b ≠ 0 → ∃ q r, Word.Truncates a b q r ∧
      (∀ q' r', Word.Truncates a b q' r' → q' = q ∧ r' = r) ∧
      (Word.InRange q ↔ ¬ (a = Word.minValue ∧ b = -1)) ∧
      ∃ w, Operator.div.Yields host body a b w ∧
        w = (if a = Word.minValue ∧ b = -1 then Word.minValue else q) ∧
        w = ((BitVec.ofInt 32 a).sdiv (.ofInt 32 b)).toInt) ∧
    ∀ (m : Machine) (e : Expr) (n : Int), e.Exact m.store n →
      ∃ w, (evaluate body e).run host m = (.ok (.int w), m) ∧
        ∀ v, v = w ↔ Word.InRange v ∧ v ≡ n [ZMOD 2 ^ 32] := by
  refine ⟨?_, ?_, ?_⟩
  · intro op f g a b hf hg ha hb
    exact ⟨Word.wrap (f a b), Operator.yields_ring hf ha hb, fun v => Word.eq_wrap_iff,
      (Operator.toInt_bits hf hg ha hb).symm⟩
  · intro a b ha hb hzero
    have htruncates := Word.truncates_tdiv a hzero
    refine ⟨a.tdiv b, a.tmod b, htruncates, fun q' r' h => htruncates.unique h,
      Word.tdiv_inRange_iff ha hzero, Word.wrap (a.tdiv b), Operator.yields_div ha hzero,
      Word.wrap_tdiv ha hzero, (Operator.toInt_sdiv ha hb).symm⟩
  · intro m e n h
    exact ⟨Word.wrap n, h.run, fun v => Word.eq_wrap_iff⟩

/-- A machine with a variable that is filled to the brim. -/
def Machine.brim : Machine where
  store := Store.declareGlobal {} "x" (.int Word.maxValue)

/-- `x * x - (x + 1)`, where the product and the sum both leave the range. -/
theorem arithmetic_of_words_brim :
    let x : Expr := .ref ⟨default, "x", []⟩
    let next : Expr := .parens default (.binary default .add x (.literal default 1))
    let e : Expr := .binary default .sub (.binary default .mul x x) next
    e.Exact Machine.brim.store 4611686011984936961 ∧
      (evaluate (runBody 0) e).run {} .brim = (.ok (.int (-2147483647)), .brim) := by
  intro x next e
  have hx : x.Exact Machine.brim.store Word.maxValue :=
    .ref (.name rfl (by decide +kernel)) (by decide)
  have hone : (Expr.literal default 1).Exact Machine.brim.store 1 := .literal (n := 1) (by decide)
  have hnext : next.Exact Machine.brim.store 2147483648 :=
    .parens (.operation (f := (· + ·)) rfl hx hone)
  have he : e.Exact Machine.brim.store 4611686011984936961 :=
    .operation (f := (· - ·)) rfl (.operation (f := (· * ·)) rfl hx hx) hnext
  obtain ⟨w, hrun, hw⟩ := (arithmetic_of_words {} (runBody 0)).2.2 _ e _ he
  have hvalue : -2147483647 = w := (hw _).mpr (by decide)
  rw [← hvalue] at hrun
  exact ⟨he, hrun⟩

end ObjectPascal
