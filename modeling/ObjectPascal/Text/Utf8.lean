import ObjectPascal.Text.Hex

/-!
Reading bytes as UTF-8, with the first malformed stretch when there is one.
-/

namespace ObjectPascal.Text.Utf8

inductive Reason where
  | badStart
  | badContinuation
  | truncated
  deriving DecidableEq

def Reason.text : Reason → String
  | .badStart => "invalid start byte"
  | .badContinuation => "invalid continuation byte"
  | .truncated => "unexpected end of data"

/-- The malformed stretch: where it starts, its bytes, and what is wrong with it. -/
structure Malformed where
  start : Nat
  bytes : List UInt8
  reason : Reason
  deriving DecidableEq

def Malformed.message (m : Malformed) : String :=
  let place :=
    match m.bytes with
    | [b] => "byte 0x" ++ String.ofList (hexPadded 2 b.toNat) ++ s!" in position {m.start}"
    | bs => s!"bytes in position {m.start}-{m.start + bs.length - 1}"
  s!"'utf-8' codec can't decode {place}: {m.reason.text}"

/-- How many bytes follow a lead byte, and the range that the first of them must lie in: the
ranges leave out overlong forms, surrogates and what is above the last code point. -/
def follow? (b : UInt8) : Option (Nat × Nat × Nat) :=
  let n := b.toNat
  if n < 0x80 then some (0, 0, 0)
  else if 0xc2 ≤ n && n ≤ 0xdf then some (1, 0x80, 0xbf)
  else if n == 0xe0 then some (2, 0xa0, 0xbf)
  else if n == 0xed then some (2, 0x80, 0x9f)
  else if 0xe1 ≤ n && n ≤ 0xef then some (2, 0x80, 0xbf)
  else if n == 0xf0 then some (3, 0x90, 0xbf)
  else if n == 0xf4 then some (3, 0x80, 0x8f)
  else if 0xf1 ≤ n && n ≤ 0xf3 then some (3, 0x80, 0xbf)
  else none

/-- Reads `count` continuation bytes after the bytes `seen` (backwards) of a character; the first
one must lie between `lo` and `hi`. Gives the value and the bytes left. -/
def continuation (start : Nat) (seen : List UInt8) (value : Nat) :
    (count lo hi : Nat) → List UInt8 → Except Malformed (Nat × List UInt8)
  | 0, _, _, bs => .ok (value, bs)
  | _ + 1, _, _, [] => .error ⟨start, seen.reverse, .truncated⟩
  | count + 1, lo, hi, b :: bs =>
    if lo ≤ b.toNat && b.toNat ≤ hi then
      continuation start (b :: seen) (value * 64 + (b.toNat - 0x80)) count 0x80 0xbf bs
    else .error ⟨start, seen.reverse, .badContinuation⟩

theorem continuation_length {start : Nat} {seen : List UInt8} {value count lo hi : Nat}
    {bs rest : List UInt8} {v : Nat}
    (h : continuation start seen value count lo hi bs = .ok (v, rest)) :
    rest.length ≤ bs.length := by
  induction count generalizing seen value lo hi bs with
  | zero => simp [continuation] at h; simp [h.2]
  | succ count ih =>
    cases bs with
    | nil => simp [continuation] at h
    | cons b bs =>
      simp only [continuation] at h
      split at h
      · exact Nat.le_succ_of_le (ih h)
      · simp at h

/-- The bits of a lead byte that belong to the code point. -/
def leadBits (b : UInt8) (count : Nat) : Nat :=
  match count with
  | 0 => b.toNat
  | 1 => b.toNat % 32
  | 2 => b.toNat % 16
  | _ => b.toNat % 8

def decodeFrom (start : Nat) (bs : List UInt8) : Except Malformed (List Char) :=
  match bs with
  | [] => .ok []
  | b :: rest =>
    match follow? b with
    | none => .error ⟨start, [b], .badStart⟩
    | some (count, lo, hi) =>
      match h : continuation start [b] (leadBits b count) count lo hi rest with
      | .error e => .error e
      | .ok (value, rest') =>
        have : rest'.length ≤ rest.length := continuation_length h
        match decodeFrom (start + 1 + count) rest' with
        | .error e => .error e
        | .ok cs => .ok (Char.ofNat value :: cs)
termination_by bs.length

/-- The text that the bytes encode, or the first stretch that encodes none. -/
def decode (bytes : List UInt8) : Except Malformed String :=
  (decodeFrom 0 bytes).map String.ofList

end ObjectPascal.Text.Utf8
