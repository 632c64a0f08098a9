import Woody.Base.Decimal
import Woody.Foundation.Lines
import Woody.Http.Response

/-!
# Reading a response back

`ToString` writes all strings as they are.  A text with CR LF in it becomes
several lines, and a name with a colon and a space in it becomes a part of the
value.
-/

namespace Woody

/-- A text without the end of a line in it. -/
def OneLine (text : Bytes) : Prop := ¬ [13, 10] <:+: text

instance (text : Bytes) : Decidable (OneLine text) :=
  inferInstanceAs (Decidable (¬ _))

theorem oneLine_of_not_mem {text : Bytes} (absent : 13 ∉ text) :
    OneLine text :=
  fun inside => absent (inside.subset List.mem_cons_self)

theorem oneLine_append_cons_iff {c : UInt8} (notCr : c ≠ 13) (notLf : c ≠ 10)
    (before after : Bytes) :
    OneLine (before ++ c :: after) ↔ OneLine before ∧ OneLine after := by
  rw [OneLine, Separated.infix_append_cons_iff notCr notLf, not_or]
  rfl

namespace HTTPResponse

def statusLine (response : HTTPResponse) (boost : Boost) : Bytes :=
  ascii "HTTP/1.1 " ++ boost.intToString response.statusCode ++ ascii " " ++
    response.statusMessage

def headerLine (entry : Bytes × Bytes) : Bytes :=
  entry.1 ++ ascii ": " ++ entry.2

def headerLines (response : HTTPResponse) : List Bytes :=
  response.headersMap.toList.map headerLine

/-- What is read back is what was written: the status line, one line for each
entry with its name and its value, and the body. -/
def ReadsBack (response : HTTPResponse) (boost : Boost) : Prop :=
  ∃ headers,
    Separated.readHead 13 10 (response.toText boost) =
        some (response.statusLine boost :: headers, response.body) ∧
      headers.map (Separated.cut 58 32) =
        response.headersMap.toList.map some

/-- The strings of the response have no end of a line in them. -/
structure Unbroken (response : HTTPResponse) : Prop where
  status : OneLine response.statusMessage
  headers : ∀ name value, response.headersMap.find name = some value →
    OneLine name ∧ OneLine value

theorem toText_eq (response : HTTPResponse) (boost : Boost) :
    response.toText boost =
      Separated.unlines 13 10
          (response.statusLine boost :: response.headerLines) ++
        13 :: 10 :: response.body := by
  have headers : (response.headersMap.toList.flatMap fun entry =>
      entry.1 ++ ascii ": " ++ entry.2 ++ ascii "\r\n") =
        Separated.unlines 13 10 response.headerLines := by
    rw [Separated.unlines, headerLines, List.flatMap_map]
    rfl
  have flat (line fields body : Bytes) :
      line ++ ascii "\r\n" ++ fields ++ ascii "\r\n" ++ body =
        line ++ 13 :: 10 :: fields ++ 13 :: 10 :: body := by
    simp only [List.append_assoc]
    rfl
  rw [toText, headers, Separated.unlines_cons]
  exact flat _ _ _

theorem headerLine_eq (entry : Bytes × Bytes) :
    headerLine entry = entry.1 ++ 58 :: 32 :: entry.2 := by
  rw [headerLine, List.append_assoc]
  rfl

theorem oneLine_headerLine_iff (entry : Bytes × Bytes) :
    OneLine (headerLine entry) ↔ OneLine entry.1 ∧ OneLine entry.2 := by
  have value : OneLine (32 :: entry.2) ↔ OneLine [] ∧ OneLine entry.2 :=
    oneLine_append_cons_iff (by decide) (by decide) [] entry.2
  rw [headerLine_eq, oneLine_append_cons_iff (by decide) (by decide), value]
  exact and_congr_right' (and_iff_right (by decide))

theorem oneLine_statusLine_iff {boost : Boost} {hash : Bytes → Bytes}
    (correct : boost.Correct hash) (response : HTTPResponse) :
    OneLine (response.statusLine boost) ↔
      OneLine response.statusMessage := by
  have code : OneLine (ascii "HTTP/1.1 " ++
      boost.intToString response.statusCode) := by
    refine oneLine_of_not_mem fun member => ?_
    rw [Boost.intToString, correct.castString] at member
    rcases List.mem_append.mp member with inVersion | inCode
    · exact absurd inVersion (by decide)
    · exact not_mem_ascii_toString _ inCode
  have shape : response.statusLine boost =
      (ascii "HTTP/1.1 " ++ boost.intToString response.statusCode) ++
        32 :: response.statusMessage := by
    rw [statusLine, List.append_assoc _ (ascii " ")]
    rfl
  rw [shape, oneLine_append_cons_iff (by decide) (by decide)]
  exact and_iff_right code

/-- A response whose strings have no end of a line in them is read back line
by line. -/
theorem Unbroken.readHead_toText {response : HTTPResponse}
    (unbroken : response.Unbroken) {boost : Boost} {hash : Bytes → Bytes}
    (correct : boost.Correct hash) :
    Separated.readHead 13 10 (response.toText boost) =
      some (response.statusLine boost :: response.headerLines,
        response.body) := by
  rw [Separated.readHead_eq_some_iff (by decide)]
  refine ⟨response.toText_eq boost, List.forall_mem_cons.mpr ⟨⟨?_, ?_⟩, ?_⟩⟩
  · exact List.append_ne_nil_of_left_ne_nil (by simp [ascii]) _
  · exact (oneLine_statusLine_iff correct response).mpr unbroken.status
  · intro line member
    obtain ⟨entry, isEntry, rfl⟩ := List.mem_map.mp member
    refine ⟨by simp [headerLine, ascii], ?_⟩
    exact (oneLine_headerLine_iff entry).mpr
      (unbroken.headers _ _ (StringMap.mem_toList_iff.mp isEntry))

theorem cut_eq_some_iff_headerLine {line : Bytes} {entry : Bytes × Bytes} :
    Separated.cut 58 32 line = some entry ↔
      line = headerLine entry ∧ ¬ [58, 32] <:+: entry.1 := by
  rw [headerLine_eq]
  exact Separated.cut_eq_some_iff (by decide)

/-- A response is read back as it was written exactly when its status
message, its names and its values have no end of a line in them, and its names
no colon with a space behind it. -/
theorem reads_back_iff {boost : Boost} {hash : Bytes → Bytes}
    (correct : boost.Correct hash) (response : HTTPResponse) :
    response.ReadsBack boost ↔
      response.Unbroken ∧
        ∀ name value, response.headersMap.find name = some value →
          ¬ [58, 32] <:+: name := by
  constructor
  · rintro ⟨headers, read, parts⟩
    obtain ⟨-, areLines⟩ :=
      (Separated.readHead_eq_some_iff (by decide)).mp read
    obtain ⟨⟨-, statusLine⟩, areHeaders⟩ := List.forall_mem_cons.mp areLines
    have written (name value : Bytes)
        (found : response.headersMap.find name = some value) :
        OneLine (headerLine (name, value)) ∧ ¬ [58, 32] <:+: name := by
      have member : some (name, value) ∈ headers.map (Separated.cut 58 32) := by
        rw [parts]
        exact List.mem_map_of_mem (StringMap.mem_toList_iff.mpr found)
      obtain ⟨line, isHeader, isCut⟩ := List.mem_map.mp member
      obtain ⟨rfl, clean⟩ := cut_eq_some_iff_headerLine.mp isCut
      exact ⟨(areHeaders _ isHeader).2, clean⟩
    refine ⟨⟨(oneLine_statusLine_iff correct response).mp statusLine, ?_⟩,
      fun name value found => (written name value found).2⟩
    exact fun name value found =>
      (oneLine_headerLine_iff _).mp (written name value found).1
  · rintro ⟨unbroken, clean⟩
    refine ⟨response.headerLines, unbroken.readHead_toText correct, ?_⟩
    rw [headerLines, List.map_map]
    refine List.map_congr_left fun entry isEntry => ?_
    exact cut_eq_some_iff_headerLine.mpr
      ⟨rfl, clean _ _ (StringMap.mem_toList_iff.mp isEntry)⟩

/-- Boost with a digest of zeros. -/
def zeroBoost : Boost := Boost.ofHash fun _ => List.replicate 20 0

theorem zeroBoost_correct : zeroBoost.Correct fun _ => List.replicate 20 0 :=
  Boost.ofHash_correct fun _ => rfl

/-- A redirection, whose value has a colon with a space behind it. -/
theorem redirection_reads_back :
    (((init 0).setStatus 302 (ascii "Found")).addHeader (ascii "Location")
      (ascii "/search?q=a: b")).ReadsBack zeroBoost := by
  have lines : ∀ entry ∈ (((init 0).setStatus 302 (ascii "Found")).addHeader
      (ascii "Location") (ascii "/search?q=a: b")).headersMap.toList,
        (OneLine entry.1 ∧ OneLine entry.2) ∧ ¬ [58, 32] <:+: entry.1 := by
    decide +kernel
  refine (reads_back_iff zeroBoost_correct _).mpr ⟨⟨by decide, ?_⟩, ?_⟩
  · exact fun name value found =>
      (lines (name, value) (StringMap.mem_toList_iff.mpr found)).1
  · exact fun name value found =>
      (lines (name, value) (StringMap.mem_toList_iff.mpr found)).2

/-- A value with CR LF in it adds a header. -/
theorem cookie_forged :
    let response := ((init 0).setStatus 302 (ascii "Found")).addHeader
      (ascii "Location") (ascii "/\r\nSet-Cookie: a=b")
    Separated.readHead 13 10 (response.toText zeroBoost) =
        some ([ascii "HTTP/1.1 302 Found", ascii "Location: /",
          ascii "Set-Cookie: a=b"], []) ∧
      ¬ response.ReadsBack zeroBoost := by
  intro response
  have read : Separated.readHead 13 10 (response.toText zeroBoost) =
      some ([ascii "HTTP/1.1 302 Found", ascii "Location: /",
        ascii "Set-Cookie: a=b"], []) := by
    decide +kernel
  refine ⟨read, ?_⟩
  rintro ⟨headers, other, parts⟩
  have oneEntry : response.headersMap.toList.length = 1 := by
    decide +kernel
  rw [read, Option.some_inj, Prod.mk.injEq] at other
  have threeLines := congrArg List.length other.1
  have sameLength := congrArg List.length parts
  simp only [List.length_cons, List.length_nil, List.length_map, oneEntry]
    at threeLines sameLength
  omega

end HTTPResponse

end Woody
