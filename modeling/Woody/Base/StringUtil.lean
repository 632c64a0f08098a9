import Mathlib.Data.List.DropRight
import Woody.Base.SslUtil

/-!
# String helpers over Boost

The helpers of `string_util.hpp`, and `Sha1` of `ssl_util.hpp`.  Boost itself
is a parameter.
-/

namespace Woody

structure Boost where
  /-- `boost::lexical_cast<int>`, `none` when it throws. -/
  lexicalCastInt : Bytes → Option Int
  /-- `boost::lexical_cast<std::string>` of an `int`. -/
  lexicalCastString : Int → Bytes
  /-- `boost::algorithm::split` at any of the given characters. -/
  splitAnyOf : Bytes → Bytes → List Bytes
  /-- The five words of `sha1::get_digest`. -/
  digest : Bytes → Fin 5 → UInt32

namespace Boost

def stringToInt (boost : Boost) (s : Bytes) : Option Int :=
  boost.lexicalCastInt s

/-- `IntToString`; a `size_t` argument is converted to `int`. -/
def intToString (boost : Boost) (a : Int) : Bytes :=
  boost.lexicalCastString (a.bmod (2 ^ 32))

def split (boost : Boost) (s pattern : Bytes) : List Bytes :=
  boost.splitAnyOf s pattern

/-- `ReverseBytes`. -/
def reverseBytes (x : UInt32) : Bytes :=
  [(x >>> 24).toUInt8, (x >>> 16).toUInt8, (x >>> 8).toUInt8, x.toUInt8]

def sha1 (boost : Boost) (buf : Bytes) : Bytes :=
  (List.finRange 5).flatMap fun i => reverseBytes (boost.digest buf i)

end Boost

def isSpace (c : UInt8) : Bool :=
  c == 32 || (9 ≤ c && c ≤ 13)

def ltrim (s : Bytes) : Bytes := s.dropWhile isSpace

def rtrim (s : Bytes) : Bytes := (s.reverse.dropWhile isSpace).reverse

def trim (s : Bytes) : Bytes := ltrim (rtrim s)

/-- `stripped` is what is left of a text without the whitespace around it. -/
def Strips (text stripped : Bytes) : Prop :=
  ∃ before after, text = before ++ stripped ++ after ∧
    (∀ c ∈ before ++ after, isSpace c = true) ∧
    (∀ c ∈ stripped.head?, isSpace c = false) ∧
    ∀ c ∈ stripped.getLast?, isSpace c = false

theorem strips_trim (s : Bytes) : Strips s (trim s) := by
  have right : rtrim s = s.rdropWhile isSpace := rfl
  have split : rtrim s = (rtrim s).takeWhile isSpace ++ trim s :=
    List.takeWhile_append_dropWhile.symm
  refine ⟨(rtrim s).takeWhile isSpace, s.rtakeWhile isSpace, ?_, ?_, ?_, ?_⟩
  · rw [← split, right, List.rdropWhile_append_rtakeWhile]
  · intro c member
    rcases List.mem_append.mp member with before | after
    · exact List.mem_takeWhile_imp before
    · exact List.mem_rtakeWhile_imp after
  · intro c isHead
    have first := List.head?_dropWhile_not isSpace (rtrim s)
    have same : ((rtrim s).dropWhile isSpace).head? = some c := isHead
    rw [same] at first
    exact first
  · intro c isLast
    have some_ : trim s ≠ [] := by
      intro none_
      rw [none_] at isLast
      cases isLast
    have suffix : trim s <:+ s.rdropWhile isSpace := ⟨_, split.symm⟩
    have last := List.rdropWhile_last_not isSpace s (suffix.ne_nil some_)
    rw [← suffix.getLast some_] at last
    rw [List.getLast?_eq_getLast_of_ne_nil some_] at isLast
    cases isLast
    exact Bool.eq_false_of_not_eq_true last

def isDigit (c : UInt8) : Bool := 48 ≤ c && c ≤ 57

/-- The number that a text of digits spells. -/
def decimal (digits : Bytes) : Option Nat :=
  if digits ≠ [] ∧ digits.all isDigit then
    some (digits.foldl (fun value c => value * 10 + (c.toNat - 48)) 0)
  else
    none

/-- An optionally signed decimal integer in the range of `int`. -/
def decimalInt (text : Bytes) : Option Int :=
  let value : Option Int :=
    match text with
    | 45 :: digits => (decimal digits).map fun value => -(value : Int)
    | 43 :: digits => (decimal digits).map fun value => (value : Int)
    | digits => (decimal digits).map fun value => (value : Int)
  value.filter fun value => -2 ^ 31 ≤ value ∧ value < 2 ^ 31

example : decimalInt (ascii "+13") = some 13 ∧
    decimalInt (ascii "-2147483648") = some (-2147483648) ∧
    decimalInt (ascii "2147483648") = none ∧ decimalInt (ascii "13 ") = none := by
  decide

/-- Boost does what it is documented to do; `hash` is the digest it computes,
as a string of twenty bytes. -/
structure Boost.Correct (boost : Boost) (hash : Bytes → Bytes) : Prop where
  castInt : ∀ text, boost.lexicalCastInt text = decimalInt text
  castString : ∀ a : Int, boost.lexicalCastString a = ascii (toString a)
  split : ∀ s separator, boost.splitAnyOf s [separator] = s.splitOn separator
  hashLength : ∀ buf, (hash buf).length = 20
  digest : ∀ buf (i : Fin 5), boost.digest buf i =
    UInt32.ofNat (Bytes.toNatBE (((hash buf).drop (4 * i)).take 4))

/-- Boost with a given digest. -/
def Boost.ofHash (hash : Bytes → Bytes) : Boost where
  lexicalCastInt := decimalInt
  lexicalCastString a := ascii (toString a)
  splitAnyOf s pattern := s.splitOnP fun c => pattern.contains c
  digest buf i :=
    UInt32.ofNat (Bytes.toNatBE (((hash buf).drop (4 * i)).take 4))

theorem Boost.ofHash_correct {hash : Bytes → Bytes}
    (length : ∀ buf, (hash buf).length = 20) :
    (Boost.ofHash hash).Correct hash where
  castInt _ := rfl
  castString _ := rfl
  split s separator := by
    have same : (fun c => [separator].contains c) = (· == separator) := by
      funext c
      rw [List.contains_cons, List.contains_nil, Bool.or_false]
    exact congrArg (fun isSeparator => s.splitOnP isSeparator) same
  hashLength := length
  digest _ _ := rfl

/-- `ReverseBytes` writes a word in big-endian order. -/
theorem Boost.reverseBytes_eq (x : UInt32) :
    Boost.reverseBytes x = Bytes.ofNatBE 4 x.toNat := by
  simp only [Boost.reverseBytes, Bytes.ofNatBE, List.cons.injEq, and_true]
  refine ⟨?_, ?_, ?_, ?_⟩ <;> apply UInt8.toNat_inj.mp <;>
    simp [Nat.shiftRight_eq_div_pow]

theorem Boost.Correct.sha1 {boost : Boost} {hash : Bytes → Bytes}
    (correct : boost.Correct hash) (buf : Bytes) :
    boost.sha1 buf = hash buf := by
  have length := correct.hashLength buf
  have word (i : Fin 5) : Boost.reverseBytes (boost.digest buf i) =
      ((hash buf).drop (4 * i)).take 4 := by
    let bytes := ((hash buf).drop (4 * i)).take 4
    have four : bytes.length = 4 := by
      have bound := i.isLt
      simp only [bytes, List.length_take, List.length_drop, length]
      omega
    have spelled := Bytes.ofNatBE_toNatBE bytes
    have bounded := Bytes.toNatBE_lt bytes
    rw [four] at spelled bounded
    rw [Boost.reverseBytes_eq, correct.digest,
      UInt32.toNat_ofNat_of_lt' (Nat.lt_of_lt_of_le bounded (by decide)),
      spelled]
  have words : boost.sha1 buf =
      (List.finRange 5).flatMap fun i => ((hash buf).drop (4 * i)).take 4 :=
    List.flatMap_congr fun i _ => word i
  have chunk (start : Nat) : ((hash buf).drop start).take 4 ++
      (hash buf).drop (start + 4) = (hash buf).drop start := by
    rw [← List.drop_drop, List.take_append_drop]
  have ending : (hash buf).drop 20 = [] :=
    List.drop_eq_nil_of_le (Nat.le_of_eq length)
  have five : List.finRange 5 = [0, 1, 2, 3, 4] := by decide
  have whole := chunk 0
  rw [← chunk 4, ← chunk 8, ← chunk 12, ← chunk 16, ending] at whole
  rw [words, five]
  exact whole

end Woody
