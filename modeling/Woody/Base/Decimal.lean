import Woody.Base.StringUtil

/-!
# Decimal texts

`IntToString` writes a sign and digits.  A `size_t` that is given to it is
written with its own value below `2 ^ 31` only.
-/

namespace Woody

theorem ascii_append (early late : String) :
    ascii (early ++ late) = ascii early ++ ascii late := by
  rw [ascii, String.toList_append, List.map_append]
  rfl

theorem ascii_repr (n : Nat) :
    ascii n.repr =
      (Nat.toDigits 10 n).map fun char => UInt8.ofNat char.toNat := by
  rw [ascii, Nat.toList_repr]

theorem toNat_ofNat_of_isDigit {char : Char} (digit : char.isDigit = true) :
    (UInt8.ofNat char.toNat).toNat = char.toNat := by
  have bound : char.toNat ≤ 57 := (Char.isDigit_iff_toNat.mp digit).2
  exact UInt8.toNat_ofNat_of_lt' (Nat.lt_of_le_of_lt bound (by decide))

theorem isDigit_of_mem_ascii_repr {n : Nat} {c : UInt8}
    (member : c ∈ ascii n.repr) : isDigit c = true := by
  rw [ascii_repr] at member
  obtain ⟨char, isChar, rfl⟩ := List.mem_map.mp member
  have digit := Nat.isDigit_of_mem_toDigits (by decide) (by decide) isChar
  have bounds := Char.isDigit_iff_toNat.mp digit
  rw [isDigit, Bool.and_eq_true, decide_eq_true_eq, decide_eq_true_eq,
    UInt8.le_iff_toNat_le, UInt8.le_iff_toNat_le,
    toNat_ofNat_of_isDigit digit]
  exact bounds

theorem foldl_digits {chars : List Char}
    (digits : ∀ char ∈ chars, char.isDigit = true) (start : Nat) :
    (chars.map fun char => UInt8.ofNat char.toNat).foldl
        (fun value c => value * 10 + (c.toNat - 48)) start =
      Nat.ofDigitChars 10 chars start := by
  induction chars generalizing start with
  | nil => simp
  | cons char chars ih =>
      obtain ⟨digit, later⟩ := List.forall_mem_cons.mp digits
      rw [List.map_cons, List.foldl_cons, ih later, Nat.ofDigitChars_cons,
        toNat_ofNat_of_isDigit digit, Nat.mul_comm]
      rfl

theorem decimal_ascii_repr (n : Nat) : decimal (ascii n.repr) = some n := by
  have some_ : ascii n.repr ≠ [] := by
    rw [ascii_repr]
    simp
  have digits : (ascii n.repr).all isDigit = true :=
    List.all_eq_true.mpr fun _ => isDigit_of_mem_ascii_repr
  rw [decimal, if_pos ⟨some_, digits⟩, ascii_repr, foldl_digits,
    Nat.ofDigitChars_ten_toDigits]
  exact fun char => Nat.isDigit_of_mem_toDigits (by decide) (by decide)

theorem mem_ascii_toString {a : Int} {c : UInt8}
    (member : c ∈ ascii (toString a)) : c = 45 ∨ isDigit c = true := by
  rw [Int.toString_eq_repr, Int.repr_eq_if] at member
  split at member
  · exact .inr (isDigit_of_mem_ascii_repr member)
  · rw [ascii_append] at member
    rcases List.mem_append.mp member with sign | digit
    · exact .inl (List.mem_singleton.mp sign)
    · exact .inr (isDigit_of_mem_ascii_repr digit)

theorem not_isSpace_of_isDigit {c : UInt8} (digit : isDigit c = true) :
    isSpace c = false := by
  simp only [isDigit, isSpace, Bool.and_eq_true, decide_eq_true_eq,
    UInt8.le_iff_toNat_le, Bool.or_eq_false_iff, beq_eq_false_iff_ne, ne_eq,
    ← UInt8.toNat_inj, Bool.and_eq_false_iff, decide_eq_false_iff_not]
    at digit ⊢
  have low : (48 : UInt8).toNat = 48 := rfl
  have tab : (13 : UInt8).toNat = 13 := rfl
  have space : (32 : UInt8).toNat = 32 := rfl
  omega

theorem not_isSpace_of_mem {a : Int} {c : UInt8}
    (member : c ∈ ascii (toString a)) : isSpace c = false := by
  rcases mem_ascii_toString member with rfl | digit
  · decide
  · exact not_isSpace_of_isDigit digit

theorem not_mem_ascii_toString (a : Int) : 13 ∉ ascii (toString a) :=
  fun member => absurd (not_isSpace_of_mem member) (by decide)

theorem trim_eq_self {text : Bytes}
    (solid : ∀ c ∈ text, isSpace c = false) : trim text = text := by
  obtain ⟨before, after, shape, spaces, -⟩ := strips_trim text
  have none_ : before ++ after = [] := by
    refine List.eq_nil_iff_forall_not_mem.mpr fun c member => ?_
    have inText : c ∈ text := by
      rw [shape]
      simp only [List.mem_append] at member ⊢
      tauto
    have isSpace_ := spaces c member
    rw [solid c inText] at isSpace_
    cases isSpace_
  obtain ⟨rfl, rfl⟩ := List.append_eq_nil_iff.mp none_
  rw [List.nil_append, List.append_nil] at shape
  exact shape.symm

theorem trim_cons_of_isSpace {c : UInt8} (space : isSpace c = true)
    (text : Bytes) : trim (c :: text) = trim text := by
  rw [trim, trim, rtrim, rtrim, List.reverse_cons, List.dropWhile_append]
  cases rest : text.reverse.dropWhile isSpace with
  | nil => simp [space]
  | cons last before =>
      rw [List.isEmpty_cons, if_neg Bool.false_ne_true, List.reverse_append,
        List.reverse_singleton, List.singleton_append, ltrim,
        List.dropWhile_cons_of_pos space]
      rfl

theorem decimal_trim_ascii_toString {a : Int} {n : Nat} :
    decimal (trim (ascii (toString a))) = some n ↔ a = n := by
  rw [trim_eq_self fun c => not_isSpace_of_mem, Int.toString_eq_repr,
    Int.repr_eq_if]
  split
  · next natural =>
      rw [decimal_ascii_repr, Option.some_inj]
      omega
  · next negative =>
      have signed : decimal (ascii ("-" ++ (-a).toNat.repr)) = none := by
        rw [ascii_append, decimal, if_neg]
        exact fun digits => absurd (List.all_eq_true.mp digits.2 45
          (List.mem_append_left _ (List.mem_singleton.mpr rfl))) (by decide)
      rw [signed]
      constructor
      · intro same
        cases same
      · intro same
        exact (negative (same ▸ Int.natCast_nonneg n)).elim

/-- A length is written with its own value exactly when it is an `int`. -/
theorem Boost.Correct.decimal_intToString_iff {boost : Boost}
    {hash : Bytes → Bytes} (correct : boost.Correct hash) (length : Nat) :
    decimal (trim (boost.intToString length)) = some length ↔
      length < 2 ^ 31 := by
  rw [Boost.intToString, correct.castString, decimal_trim_ascii_toString]
  simp only [Int.bmod_def]
  omega

end Woody
