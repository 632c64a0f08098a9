import Woody.Base.Text

/-!
# Base64

`Base64Encode` and `Base64Decode` of `ssl_util.hpp`.  The encoder works on
groups of three bytes and the decoder on groups of four characters; the
decoder stops at the first character that is not in the alphabet, and it
neither asks for padding nor looks at the bits that padding leaves unused.
-/

namespace Woody

def base64Chars : Bytes :=
  ascii "ABCDEFGHIJKLMNOPQRSTUVWXYZabcdefghijklmnopqrstuvwxyz0123456789+/"

def isAlnum (c : UInt8) : Bool :=
  (48 ≤ c && c ≤ 57) || (65 ≤ c && c ≤ 90) || (97 ≤ c && c ≤ 122)

def isBase64 (c : UInt8) : Bool :=
  isAlnum c || c == 43 || c == 47

/-- `base64_chars[index]`. -/
def base64At (index : UInt8) : UInt8 :=
  base64Chars.getD index.toNat 0

/-- `base64_chars.find(c)` as an `unsigned char`: `npos` becomes 255. -/
def base64Find (c : UInt8) : UInt8 :=
  match base64Chars.idxOf? c with
  | some index => UInt8.ofNat index
  | none => 255

/-- `char_array_4` from `char_array_3` in the encoder. -/
def encodeGroup (a b c : UInt8) : List UInt8 :=
  [(a &&& 0xfc) >>> 2, ((a &&& 0x03) <<< 4) + ((b &&& 0xf0) >>> 4),
    ((b &&& 0x0f) <<< 2) + ((c &&& 0xc0) >>> 6), c &&& 0x3f]

/-- The loop of the encoder, and the rest behind it. -/
def encodeGroups : Bytes → Bytes
  | a :: b :: c :: rest =>
      (encodeGroup a b c).map base64At ++ encodeGroups rest
  | [a, b] => ((encodeGroup a b 0).take 3).map base64At ++ [61]
  | [a] => ((encodeGroup a 0 0).take 2).map base64At ++ [61, 61]
  | [] => []

/-- `in_len` of the encoder is an `unsigned int`. -/
def base64Encode (message : Bytes) : Bytes :=
  encodeGroups (message.take (message.length % 2 ^ 32))

/-- `char_array_3` from `char_array_4` in the decoder. -/
def decodeGroup (a b c d : UInt8) : Bytes :=
  [(a <<< 2) + ((b &&& 0x30) >>> 4), ((b &&& 0xf) <<< 4) + ((c &&& 0x3c) >>> 2),
    ((c &&& 0x3) <<< 6) + d]

/-- The loop of the decoder on characters of the alphabet, and the rest
behind it, where `'\0'` takes the place of the missing characters. -/
def decodeGroups : Bytes → Bytes
  | a :: b :: c :: d :: rest =>
      decodeGroup (base64Find a) (base64Find b) (base64Find c) (base64Find d) ++
        decodeGroups rest
  | [a, b, c] =>
      (decodeGroup (base64Find a) (base64Find b) (base64Find c)
        (base64Find 0)).take 2
  | [a, b] =>
      (decodeGroup (base64Find a) (base64Find b) (base64Find 0)
        (base64Find 0)).take 1
  | [_] => []
  | [] => []

/-- What the decoder reads: the characters up to the first foreign one.
`in_len` is an `int`, and a negative one never stops the loop. -/
def scanned (encoded : Bytes) : Bytes :=
  let inLen := encoded.length % 2 ^ 32
  (encoded.take (if inLen < 2 ^ 31 then inLen else encoded.length)).takeWhile
    isBase64

def base64Decode (encoded : Bytes) : Bytes :=
  decodeGroups (scanned encoded)

theorem forall_byte {property : UInt8 → Prop}
    (table : ∀ n < 256, property (UInt8.ofNat n)) (byte : UInt8) :
    property byte := by
  have entry := table byte.toNat byte.toNat_lt
  rwa [UInt8.ofNat_toNat] at entry

theorem isBase64_base64At {index : UInt8} (small : index.toNat < 64) :
    isBase64 (base64At index) = true := by
  have table : ∀ n < 64, isBase64 (base64Chars.getD n 0) = true := by
    decide +kernel
  exact table _ small

theorem base64Find_lt {c : UInt8} (member : isBase64 c = true) :
    (base64Find c).toNat < 64 := by
  revert c
  exact @forall_byte (fun c => isBase64 c = true → (base64Find c).toNat < 64)
    (by decide +kernel)

theorem base64At_base64Find {c : UInt8} (member : isBase64 c = true) :
    base64At (base64Find c) = c := by
  revert c
  exact @forall_byte
    (fun c => isBase64 c = true → base64At (base64Find c) = c)
    (by decide +kernel)

theorem base64Find_base64At {index : UInt8} (small : index.toNat < 64) :
    base64Find (base64At index) = index := by
  revert index
  exact @forall_byte
    (fun index => index.toNat < 64 → base64Find (base64At index) = index)
    (by decide +kernel)

theorem encodeGroup_toNat (a b c : UInt8) :
    (encodeGroup a b c).map UInt8.toNat =
      [a.toNat / 4, a.toNat % 4 * 16 + b.toNat / 16,
        b.toNat % 16 * 4 + c.toNat / 64, c.toNat % 64] := by
  have highA : ∀ a : UInt8, ((a &&& 0xfc) >>> 2).toNat = a.toNat / 4 :=
    forall_byte (by decide +kernel)
  have lowA : ∀ a : UInt8, ((a &&& 0x03) <<< 4).toNat = a.toNat % 4 * 16 :=
    forall_byte (by decide +kernel)
  have highB : ∀ b : UInt8, ((b &&& 0xf0) >>> 4).toNat = b.toNat / 16 :=
    forall_byte (by decide +kernel)
  have lowB : ∀ b : UInt8, ((b &&& 0x0f) <<< 2).toNat = b.toNat % 16 * 4 :=
    forall_byte (by decide +kernel)
  have highC : ∀ c : UInt8, ((c &&& 0xc0) >>> 6).toNat = c.toNat / 64 :=
    forall_byte (by decide +kernel)
  have lowC : ∀ c : UInt8, (c &&& 0x3f).toNat = c.toNat % 64 :=
    forall_byte (by decide +kernel)
  have boundB := b.toNat_lt
  have boundC := c.toNat_lt
  simp only [encodeGroup, List.map_cons, List.map_nil, UInt8.toNat_add, highA,
    lowA, highB, lowB, highC, lowC, List.cons.injEq, and_true, true_and]
  omega

theorem decodeGroup_toNat {a : UInt8} (small : a.toNat < 64)
    (b c d : UInt8) :
    (decodeGroup a b c d).map UInt8.toNat =
      [a.toNat * 4 + b.toNat / 16 % 4, b.toNat % 16 * 16 + c.toNat / 4 % 16,
        (c.toNat % 4 * 64 + d.toNat) % 256] := by
  have shiftA : ∀ a : UInt8, (a <<< 2).toNat = a.toNat * 4 % 256 :=
    forall_byte (by decide +kernel)
  have highB : ∀ b : UInt8, ((b &&& 0x30) >>> 4).toNat = b.toNat / 16 % 4 :=
    forall_byte (by decide +kernel)
  have lowB : ∀ b : UInt8, ((b &&& 0xf) <<< 4).toNat = b.toNat % 16 * 16 :=
    forall_byte (by decide +kernel)
  have highC : ∀ c : UInt8, ((c &&& 0x3c) >>> 2).toNat = c.toNat / 4 % 16 :=
    forall_byte (by decide +kernel)
  have lowC : ∀ c : UInt8, ((c &&& 0x3) <<< 6).toNat = c.toNat % 4 * 64 :=
    forall_byte (by decide +kernel)
  simp only [decodeGroup, List.map_cons, List.map_nil, UInt8.toNat_add, shiftA,
    highB, lowB, highC, lowC, List.cons.injEq, and_true]
  omega

/-- Encoding the three bytes of four six-bit numbers gives them back. -/
theorem encode_decodeGroup {a b c d : UInt8} (smallA : a.toNat < 64)
    (smallB : b.toNat < 64) (smallC : c.toNat < 64) (smallD : d.toNat < 64) :
    ∃ x y z, decodeGroup a b c d = [x, y, z] ∧
      encodeGroup x y z = [a, b, c, d] := by
  refine ⟨_, _, _, rfl, ?_⟩
  have decoded := decodeGroup_toNat smallA b c d
  simp only [decodeGroup, List.map_cons, List.map_nil, List.cons.injEq,
    and_true] at decoded
  apply (List.map_inj_right fun left right => UInt8.toNat_inj.mp).mp
  rw [encodeGroup_toNat, decoded.1, decoded.2.1, decoded.2.2]
  simp only [List.map_cons, List.map_nil, List.cons.injEq, and_true]
  omega

theorem encode_decodeGroup_one {a b : UInt8} (smallA : a.toNat < 64)
    (smallB : b.toNat < 64) (unused : b.toNat % 16 = 0) (c d : UInt8) :
    ∃ x, (decodeGroup a b c d).take 1 = [x] ∧
      (encodeGroup x 0 0).take 2 = [a, b] := by
  refine ⟨_, rfl, ?_⟩
  have decoded := decodeGroup_toNat smallA b c d
  simp only [decodeGroup, List.map_cons, List.map_nil, List.cons.injEq,
    and_true] at decoded
  apply (List.map_inj_right fun left right => UInt8.toNat_inj.mp).mp
  rw [List.map_take, encodeGroup_toNat, decoded.1]
  simp only [List.take_succ_cons, List.take_zero, List.map_cons, List.map_nil,
    List.cons.injEq, and_true]
  simp
  omega

theorem encodeGroup_small {a b c index : UInt8}
    (member : index ∈ encodeGroup a b c) : index.toNat < 64 := by
  have number := List.mem_map_of_mem (f := UInt8.toNat) member
  rw [encodeGroup_toNat] at number
  have boundA := a.toNat_lt
  have boundB := b.toNat_lt
  have boundC := c.toNat_lt
  simp only [List.mem_cons, List.not_mem_nil, or_false] at number
  omega

theorem decode_encodeGroup (a b c : UInt8) :
    ∃ i j k l, encodeGroup a b c = [i, j, k, l] ∧
      (∀ index ∈ [i, j, k, l], index.toNat < 64) ∧
      decodeGroup i j k l = [a, b, c] := by
  refine ⟨_, _, _, _, rfl, fun index => encodeGroup_small, ?_⟩
  have encoded := encodeGroup_toNat a b c
  simp only [encodeGroup, List.map_cons, List.map_nil, List.cons.injEq,
    and_true] at encoded
  obtain ⟨first, second, third, fourth⟩ := encoded
  have boundA := a.toNat_lt
  have boundB := b.toNat_lt
  have boundC := c.toNat_lt
  apply (List.map_inj_right fun left right => UInt8.toNat_inj.mp).mp
  rw [decodeGroup_toNat (by omega), first, second, third, fourth]
  simp only [List.map_cons, List.map_nil, List.cons.injEq, and_true]
  omega

theorem length_decodeGroups (text : Bytes) :
    (decodeGroups text).length = text.length * 3 / 4 := by
  induction text using decodeGroups.induct with
  | case1 a b c d rest ih =>
      simp only [decodeGroups, decodeGroup, List.length_append, ih,
        List.length_cons, List.length_nil]
      omega
  | case2 a b c => simp [decodeGroups, decodeGroup]
  | case3 a b => simp [decodeGroups, decodeGroup]
  | case4 a => simp [decodeGroups]
  | case5 => simp [decodeGroups]

theorem encodeGroups_append {front : Bytes} (whole : 3 ∣ front.length)
    (back : Bytes) :
    encodeGroups (front ++ back) = encodeGroups front ++ encodeGroups back := by
  induction front using encodeGroups.induct with
  | case1 a b c rest ih =>
      have restWhole : 3 ∣ rest.length := by
        simp only [List.length_cons] at whole
        omega
      simp only [List.cons_append, encodeGroups, ih restWhole,
        List.append_assoc]
  | case2 a b => simp at whole
  | case3 a => simp at whole
  | case4 => rfl

/-- Encoding the bytes of a text of whole groups gives it back. -/
theorem encode_decodeGroups {text : Bytes} (whole : 4 ∣ text.length)
    (members : ∀ c ∈ text, isBase64 c = true) :
    encodeGroups (decodeGroups text) = text := by
  induction text using decodeGroups.induct with
  | case1 a b c d rest ih =>
      simp only [List.forall_mem_cons] at members
      obtain ⟨memberA, memberB, memberC, memberD, members⟩ := members
      obtain ⟨x, y, z, decoded, encoded⟩ :=
        encode_decodeGroup (base64Find_lt memberA) (base64Find_lt memberB)
          (base64Find_lt memberC) (base64Find_lt memberD)
      have restWhole : 4 ∣ rest.length := by
        simp only [List.length_cons] at whole
        omega
      rw [decodeGroups, decoded]
      simp only [List.cons_append, List.nil_append, encodeGroups, encoded,
        ih restWhole members, List.map_cons, List.map_nil,
        base64At_base64Find, memberA, memberB, memberC, memberD]
  | case2 a b c => simp at whole
  | case3 a b => simp at whole
  | case4 a => simp at whole
  | case5 => rfl

theorem isBase64_encodeGroup {a b c index : UInt8}
    (member : index ∈ encodeGroup a b c) :
    isBase64 (base64At index) = true :=
  isBase64_base64At (encodeGroup_small member)

theorem length_encodeGroups (message : Bytes) :
    (encodeGroups message).length = (message.length + 2) / 3 * 4 := by
  induction message using encodeGroups.induct with
  | case1 a b c rest ih =>
      simp only [encodeGroups, encodeGroup, List.length_append, ih,
        List.length_map, List.length_cons, List.length_nil]
      omega
  | case2 a b => simp [encodeGroups, encodeGroup]
  | case3 a => simp [encodeGroups, encodeGroup]
  | case4 => rfl

theorem isBase64_encodeGroups {message : Bytes} (whole : 3 ∣ message.length) :
    ∀ c ∈ encodeGroups message, isBase64 c = true := by
  induction message using encodeGroups.induct with
  | case1 a b c rest ih =>
      have restWhole : 3 ∣ rest.length := by
        simp only [List.length_cons] at whole
        omega
      intro char member
      rw [encodeGroups, List.mem_append] at member
      rcases member with inGroup | inRest
      · obtain ⟨index, isIndex, rfl⟩ := List.mem_map.mp inGroup
        exact isBase64_encodeGroup isIndex
      · exact ih restWhole char inRest
  | case2 a b => simp at whole
  | case3 a => simp at whole
  | case4 => exact fun char impossible => (List.not_mem_nil impossible).elim

theorem decode_encodeGroups (message : Bytes) :
    decodeGroups ((encodeGroups message).takeWhile isBase64) = message := by
  have padding : isBase64 61 = false := by decide
  induction message using encodeGroups.induct with
  | case1 a b c rest ih =>
      obtain ⟨i, j, k, l, encoded, small, decoded⟩ :=
        decode_encodeGroup a b c
      simp only [List.forall_mem_cons] at small
      simp [encodeGroups, encoded, decodeGroups, isBase64_base64At,
        base64Find_base64At, small, decoded, ih]
  | case2 a b =>
      obtain ⟨i, j, k, l, encoded, small, decoded⟩ :=
        decode_encodeGroup a b 0
      have taken : (decodeGroup i j k (base64Find 0)).take 2 =
          (decodeGroup i j k l).take 2 := rfl
      simp only [List.forall_mem_cons] at small
      simp [encodeGroups, encoded, decodeGroups, isBase64_base64At,
        base64Find_base64At, small, padding, taken, decoded]
  | case3 a =>
      obtain ⟨i, j, k, l, encoded, small, decoded⟩ :=
        decode_encodeGroup a 0 0
      have taken : (decodeGroup i j (base64Find 0) (base64Find 0)).take 1 =
          (decodeGroup i j k l).take 1 := rfl
      simp only [List.forall_mem_cons] at small
      simp [encodeGroups, encoded, decodeGroups, isBase64_base64At,
        base64Find_base64At, small, padding, taken, decoded]
  | case4 => rfl

theorem base64Decode_base64Encode {message : Bytes}
    (short : message.length < 2 ^ 30) :
    base64Decode (base64Encode message) = message := by
  have whole : base64Encode message = encodeGroups message := by
    rw [base64Encode, List.take_of_length_le]
    omega
  have read : scanned (encodeGroups message) =
      (encodeGroups message).takeWhile isBase64 := by
    have length := length_encodeGroups message
    unfold scanned
    dsimp only
    rw [if_pos (by omega), List.take_of_length_le (by omega)]
  rw [whole, base64Decode, read, decode_encodeGroups]

theorem mem_encodeGroups (message : Bytes) :
    ∀ c ∈ encodeGroups message, isBase64 c = true ∨ c = 61 := by
  have group {a b c : UInt8} {char : UInt8} {indices : List UInt8}
      (part : indices ⊆ encodeGroup a b c)
      (member : char ∈ indices.map base64At) :
      isBase64 char = true ∨ char = 61 := by
    obtain ⟨index, isIndex, rfl⟩ := List.mem_map.mp member
    exact .inl (isBase64_encodeGroup (part isIndex))
  induction message using encodeGroups.induct with
  | case1 a b c rest ih =>
      intro char member
      rw [encodeGroups, List.mem_append] at member
      rcases member with inGroup | inRest
      · exact group (List.Subset.refl _) inGroup
      · exact ih char inRest
  | case2 a b =>
      intro char member
      rw [encodeGroups, List.mem_append] at member
      rcases member with inGroup | padding
      · exact group (List.take_subset 3 _) inGroup
      · exact .inr (List.mem_singleton.mp padding)
  | case3 a =>
      intro char member
      rw [encodeGroups, List.mem_append] at member
      rcases member with inGroup | padding
      · exact group (List.take_subset 2 _) inGroup
      · right
        simpa using padding
  | case4 => exact fun char impossible => (List.not_mem_nil impossible).elim

theorem mem_base64Encode {message : Bytes} {c : UInt8}
    (member : c ∈ base64Encode message) : isBase64 c = true ∨ c = 61 :=
  mem_encodeGroups _ c member

example : base64Encode (ascii "hello") = ascii "aGVsbG8=" ∧
    base64Decode (ascii "aGVsbG8=") = ascii "hello" := by
  decide

/-- 21 characters of the alphabet, one whose last four bits are zero, and the
padding. -/
def IsNonce (text : Bytes) : Prop :=
  ∃ front last, text = front ++ [last] ++ ascii "==" ∧
    front.length = 21 ∧ (∀ c ∈ front, isBase64 c = true) ∧
    last ∈ ascii "AQgw"

theorem eq_append_last {items : Bytes} {count : Nat}
    (length : items.length = count + 1) :
    ∃ front last, items = front ++ [last] ∧ front.length = count := by
  have some : items ≠ [] := by
    rintro rfl
    simp at length
  exact ⟨items.dropLast, items.getLast some,
    (List.dropLast_concat_getLast some).symm, by simp [length]⟩

theorem base64Encode_sixteen {message : Bytes} (length : message.length = 16) :
    base64Encode message = encodeGroups message := by
  rw [base64Encode, length, List.take_of_length_le (by omega)]

theorem isNonce_of_encode {message : Bytes} (length : message.length = 16) :
    IsNonce (base64Encode message) := by
  obtain ⟨front, a, rfl, frontLength⟩ := eq_append_last length
  have whole : 3 ∣ front.length := ⟨5, frontLength⟩
  have last : ∀ a : UInt8,
      base64At (((a &&& 0x03) <<< 4) + (((0 : UInt8) &&& 0xf0) >>> 4)) ∈
        ascii "AQgw" :=
    forall_byte (by decide +kernel)
  refine ⟨encodeGroups front ++ [base64At ((a &&& 0xfc) >>> 2)], _, ?_, ?_, ?_,
    last a⟩
  · rw [base64Encode_sixteen length, encodeGroups_append whole]
    simp [encodeGroups, encodeGroup, ascii]
  · simp [length_encodeGroups, frontLength]
  · intro char member
    rw [List.mem_append, List.mem_singleton] at member
    rcases member with inFront | rfl
    · exact isBase64_encodeGroups whole char inFront
    · exact @isBase64_encodeGroup a 0 0 _ List.mem_cons_self

theorem encode_of_isNonce {text : Bytes} (nonce : IsNonce text) :
    ∃ message : Bytes, message.length = 16 ∧ base64Encode message = text := by
  obtain ⟨front, last, rfl, length, members, isLast⟩ := nonce
  obtain ⟨front, b, rfl, frontLength⟩ := eq_append_last length
  have members := List.forall_mem_append.mp members
  have memberB : isBase64 b = true := members.2 b List.mem_cons_self
  have lastTable : ∀ c : UInt8, c ∈ ascii "AQgw" →
      isBase64 c = true ∧ (base64Find c).toNat % 16 = 0 :=
    forall_byte (by decide +kernel)
  obtain ⟨memberLast, unused⟩ := lastTable last isLast
  obtain ⟨x, _, encoded⟩ :=
    encode_decodeGroup_one (base64Find_lt memberB) (base64Find_lt memberLast)
      unused 0 0
  have decodedLength : (decodeGroups front).length = 15 := by
    rw [length_decodeGroups, frontLength]
  have messageLength : (decodeGroups front ++ [x]).length = 16 := by
    rw [List.length_append, decodedLength]
    rfl
  refine ⟨_, messageLength, ?_⟩
  rw [base64Encode_sixteen messageLength,
    encodeGroups_append ⟨5, decodedLength⟩,
    encode_decodeGroups ⟨5, frontLength⟩ members.1]
  simp [encodeGroups, encoded, base64At_base64Find, memberB, memberLast, ascii]

theorem isNonce_iff (text : Bytes) :
    (∃ message : Bytes, message.length = 16 ∧ base64Encode message = text) ↔
      IsNonce text := by
  constructor
  · rintro ⟨message, length, rfl⟩
    exact isNonce_of_encode length
  · exact encode_of_isNonce

/-- The decoder yields sixteen bytes from 22 characters. -/
theorem length_base64Decode_iff (encoded : Bytes) :
    (base64Decode encoded).length = 16 ↔ (scanned encoded).length = 22 := by
  rw [base64Decode, length_decodeGroups]
  omega

end Woody
