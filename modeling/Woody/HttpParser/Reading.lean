import Woody.HttpParser.Calls

/-!
# Reading a part of a request

A text is read when the machine reads all its bytes; what it reports then is
compared up to the pieces it comes in.  Parts that are read one behind the
other are read together.
-/

namespace Woody

open Scanner

theorem HttpCallback.alike_parts (token : Token) (first : Bytes)
    (later : List Bytes) :
    HttpCallback.gluing.Alike
      (token.callback first :: later.map token.callback)
      [token.callback (first ++ later.flatten)] := by
  induction later generalizing first with
  | nil =>
      rw [List.flatten_nil, List.append_nil]
      rfl
  | cons second later ih =>
      have glued := Gluing.Alike.glued
        (HttpCallback.glue_token token first second) []
        (later.map token.callback)
      have rest := ih (first ++ second)
      rw [List.append_assoc] at rest
      exact glued.trans rest

/-- A token that comes byte by byte. -/
theorem HttpCallback.alike_pieces (token : Token) (front bytes : Bytes) :
    HttpCallback.gluing.Alike
      (token.callback front :: bytes.map fun ch => token.callback [ch])
      [token.callback (front ++ bytes)] := by
  have parts := HttpCallback.alike_parts token front
    (bytes.map fun ch => [ch])
  rwa [List.map_map, ← List.flatMap_def, List.flatMap_singleton'] at parts

namespace RequestParser

/-- The bytes are read and reported as these callbacks, in pieces. -/
def Reads (parser : RequestParser) (bytes : Bytes)
    (callbacks : List HttpCallback) (later : RequestParser) : Prop :=
  ∃ outputs, scan react parser bytes = ⟨later, outputs, [], .advance⟩ ∧
    HttpCallback.gluing.Alike outputs callbacks

variable {parser middle later : RequestParser} {early late bytes : Bytes}
  {first second callbacks : List HttpCallback}

theorem Reads.nil (parser : RequestParser) : parser.Reads [] [] parser :=
  ⟨[], rfl, rfl⟩

theorem Reads.append (front : parser.Reads early first middle)
    (back : middle.Reads late second later) :
    parser.Reads (early ++ late) (first ++ second) later := by
  obtain ⟨outputs, read, alike⟩ := front
  obtain ⟨more, readMore, alikeMore⟩ := back
  refine ⟨outputs ++ more, ?_, ?_⟩
  · rw [scan_append_advance (by rw [read]), read]
    dsimp only
    rw [readMore]
  · exact (alike.append_right more).trans (alikeMore.append_left first)

theorem Reads.byte {ch : UInt8} {outputs : List HttpCallback}
    (reaction : parser.react ch = ⟨later, outputs, .advance⟩) :
    parser.Reads [ch] outputs later := by
  refine ⟨outputs, ?_, rfl⟩
  rw [scan_cons_advance (by rw [reaction]), reaction]
  simp [scan]

theorem Reads.cons {ch : UInt8} {outputs : List HttpCallback}
    (reaction : parser.react ch = ⟨middle, outputs, .advance⟩)
    (back : middle.Reads late second later) :
    parser.Reads (ch :: late) (outputs ++ second) later :=
  (Reads.byte reaction).append back

theorem Reads.of_alike (reads : parser.Reads bytes callbacks later)
    (alike : HttpCallback.gluing.Alike callbacks first) :
    parser.Reads bytes first later := by
  obtain ⟨outputs, read, alikeFirst⟩ := reads
  exact ⟨outputs, read, alikeFirst.trans alike⟩

theorem Reads.verdict (reads : parser.Reads bytes callbacks later) :
    (scan react parser bytes).verdict = .advance := by
  obtain ⟨outputs, read, -⟩ := reads
  rw [read]

end RequestParser

end Woody
