import Mathlib.Data.List.GetD
import Mathlib.Data.List.Induction
import Mathlib.Tactic.SplitIfs
import Woody.Base.SslUtil
import Woody.HttpParser.ByteMachine

/-!
# Methods

The first letter of a request suggests a method, and a letter that does not fit
suggests another one.  For most methods the check of the second letter has no
`else`: there any letter will do.
-/

namespace Woody

open Scanner

theorem forall_of_all {property : UInt8 → Prop} [DecidablePred property]
    {bytes : Bytes} (all : bytes.all fun ch => decide (property ch)) :
    ∀ ch ∈ bytes, property ch :=
  fun ch member => of_decide_eq_true (List.all_eq_true.mp all ch member)

namespace HttpMethod

/-- One more letter of a method, at an index. -/
def follow (found : HttpMethod × Nat) (ch : UInt8) :
    Option (HttpMethod × Nat) :=
  if ch = 0 then none
  else if ch = found.1.string.getD found.2 0 then
    some (found.1, found.2 + 1)
  else (found.1.other found.2 ch).map fun method => (method, found.2 + 1)

/-- The method that the letters of a word lead to, with the index. -/
def spell : Bytes → Option (HttpMethod × Nat)
  | [] => none
  | ch :: word =>
      (ofFirst ch).bind fun method => word.foldlM follow (method, 1)

/-- The methods of which the second letter is not looked at. -/
def unguarded : List HttpMethod :=
  [.acl, .bind, .delete, .get, .head, .notify, .options, .trace, .unlock,
    .unsubscribe, .unbind, .unlink]

/-- The methods that a first letter suggests. -/
def suggested : List HttpMethod :=
  [.acl, .bind, .connect, .delete, .get, .head, .lock, .mkcol, .notify,
    .options, .post, .report, .subscribe, .trace, .unlock]

/-- The letter at an index is one of the method. -/
def Fits (method : HttpMethod) (index : Nat) (ch : UInt8) : Prop :=
  ch = method.string.getD index 0 ∨ index = 1 ∧ method ∈ unguarded

/-- Two methods with the same letters in front of an index, as far as they are
looked at. -/
def Agree (method other : HttpMethod) (index : Nat) : Prop :=
  (∀ i < index, method.string.getD i 0 = other.string.getD i 0) ∧
    (method ∈ unguarded → other ∈ unguarded)

instance (method other : HttpMethod) (index : Nat) :
    Decidable (Agree method other index) :=
  inferInstanceAs (Decidable (_ ∧ _))

theorem Fits.of_agree {method other : HttpMethod} {index i : Nat} {ch : UInt8}
    (fits : method.Fits i ch) (agree : method.Agree other index)
    (before : i < index) : other.Fits i ch := by
  rcases fits with same | ⟨second, among⟩
  · exact .inl (same.trans (agree.1 i before))
  · exact .inr ⟨second, agree.2 among⟩

instance (method : HttpMethod) (index : Nat) (ch : UInt8) :
    Decidable (method.Fits index ch) :=
  inferInstanceAs (Decidable (_ ∨ _))

/-- The exchanges of methods: at an index, a letter leads from one to
another. -/
def exchanges : List (HttpMethod × Nat × UInt8 × HttpMethod) :=
  [(.connect, 1, octet 'H', .checkout), (.connect, 2, octet 'P', .copy),
    (.mkcol, 1, octet 'O', .move), (.mkcol, 1, octet 'E', .merge),
    (.mkcol, 1, octet '-', .msearch), (.mkcol, 2, octet 'A', .mkactivity),
    (.mkcol, 3, octet 'A', .mkcalendar), (.subscribe, 1, octet 'E', .search),
    (.report, 2, octet 'B', .rebind), (.post, 1, octet 'R', .propfind),
    (.post, 1, octet 'U', .put), (.post, 1, octet 'A', .patch),
    (.lock, 1, octet 'I', .link), (.put, 2, octet 'R', .purge),
    (.unlock, 2, octet 'S', .unsubscribe), (.unlock, 2, octet 'B', .unbind),
    (.propfind, 4, octet 'P', .proppatch), (.unlock, 3, octet 'I', .unlink)]

theorem other_cases {method later : HttpMethod} {index : Nat} {ch : UInt8}
    (exchanged : method.other index ch = some later) :
    (method, index, ch, later) ∈ exchanges ∨
      index = 1 ∧ later = method ∧
        method ∉ [.connect, .mkcol, .subscribe, .report, .post, .lock] := by
  revert exchanged
  cases method <;>
    simp only [other, reduceCtorEq, ↓reduceIte, false_and, and_false] <;>
    split_ifs <;> rintro ⟨⟩ <;> simp_all [exchanges]

theorem exchanges_fit : ∀ exchange ∈ exchanges,
    exchange.1.Agree exchange.2.2.2 exchange.2.1 ∧
      exchange.2.2.2.Fits exchange.2.1 exchange.2.2.1 := by
  decide

/-- Every letter of the word fits the method. -/
structure Spelled (word : Bytes) (found : HttpMethod × Nat) : Prop where
  length : word.length = found.2
  some : 0 < found.2
  within : found.2 ≤ found.1.string.length
  nonzero : 0 ∉ word
  fits : ∀ i < found.2, found.1.Fits i (word.getD i 0)
  first : found.2 = 1 → found.1 ∈ suggested

theorem length_string (method : HttpMethod) : 3 ≤ method.string.length := by
  cases method <;> decide

theorem ofFirst_spelled {ch : UInt8} {method : HttpMethod}
    (first : ofFirst ch = some method) : Spelled [ch] (method, 1) := by
  have facts := @forall_byte
    (fun ch => ∀ method ∈ ofFirst ch, ch ≠ 0 ∧ method ∈ suggested ∧
      ch = method.string.getD 0 0) (by decide +kernel) ch method first
  have long := length_string method
  refine ⟨rfl, Nat.one_pos, by dsimp only; omega, ?_, ?_, fun _ => facts.2.1⟩
  · simpa using facts.1.symm
  · intro i before
    obtain rfl : i = 0 := Nat.lt_one_iff.mp before
    exact .inl facts.2.2

theorem length_of_other {method later : HttpMethod} {index : Nat} {ch : UInt8}
    (exchanged : method.other index ch = some later) :
    index + 1 ≤ later.string.length := by
  have inside : ∀ exchange ∈ exchanges,
      exchange.2.1 + 1 ≤ exchange.2.2.2.string.length := by decide
  rcases other_cases exchanged with member | ⟨rfl, rfl, -⟩
  · exact inside _ member
  · have long := length_string later
    omega

theorem other_fits {method later : HttpMethod} {index : Nat} {ch : UInt8}
    (exchanged : method.other index ch = some later)
    (first : index = 1 → method ∈ suggested) :
    method.Agree later index ∧ later.Fits index ch := by
  rcases other_cases exchanged with member | ⟨second, rfl, others⟩
  · exact exchanges_fit _ member
  · refine ⟨⟨fun _ _ => rfl, id⟩, .inr ⟨second, ?_⟩⟩
    have among := first second
    revert among others
    cases later <;> decide

theorem Spelled.follow {word : Bytes} {found later : HttpMethod × Nat}
    {ch : UInt8} (spelled : Spelled word found)
    (follows : HttpMethod.follow found ch = .some later) :
    Spelled (word ++ [ch]) later := by
  have early : ∀ i < found.2, (word ++ [ch]).getD i 0 = word.getD i 0 := by
    intro i before
    rw [← spelled.length] at before
    rw [List.getD_append _ _ _ _ before]
  have last : (word ++ [ch]).getD found.2 0 = ch := by
    rw [← spelled.length, List.getD_append_right _ _ _ _ le_rfl,
      Nat.sub_self]
    rfl
  have length : (word ++ [ch]).length = found.2 + 1 := by
    rw [List.length_append, spelled.length]
    rfl
  have positive := spelled.some
  unfold HttpMethod.follow at follows
  split_ifs at follows with zero same
  · cases follows
    have inside : found.2 < found.1.string.length := by
      by_contra outside
      rw [List.getD_eq_default _ _ (by omega)] at same
      exact zero same
    refine ⟨length, Nat.succ_pos _, inside, ?_, ?_, ?_⟩
    · simpa [spelled.nonzero] using Ne.symm zero
    · intro i before
      rcases Nat.lt_succ_iff_lt_or_eq.mp before with earlier | rfl
      · rw [early i earlier]
        exact spelled.fits i earlier
      · rw [last]
        exact .inl same
    · dsimp only
      omega
  · obtain ⟨method, exchanged, rfl⟩ := Option.map_eq_some_iff.mp follows
    obtain ⟨agree, fits⟩ := other_fits exchanged spelled.first
    refine ⟨length, Nat.succ_pos _, length_of_other exchanged, ?_, ?_, ?_⟩
    · simpa [spelled.nonzero] using Ne.symm zero
    · intro i before
      rcases Nat.lt_succ_iff_lt_or_eq.mp before with earlier | rfl
      · rw [early i earlier]
        exact (spelled.fits i earlier).of_agree agree earlier
      · rw [last]
        exact fits
    · dsimp only
      omega

theorem spell_append {word : Bytes} (some : word ≠ []) (ch : UInt8) :
    spell (word ++ [ch]) = (spell word).bind fun found => follow found ch := by
  obtain ⟨first, word, rfl⟩ := List.exists_cons_of_ne_nil some
  simp only [List.cons_append, spell, List.foldlM_append, List.foldlM_cons,
    List.foldlM_nil, bind_pure, Option.bind_eq_bind, Option.bind_assoc]

theorem spell_spelled {word : Bytes} {found : HttpMethod × Nat}
    (spells : spell word = some found) : Spelled word found := by
  induction word using List.reverseRecOn generalizing found with
  | nil => cases spells
  | append_singleton word ch ih =>
      by_cases some : word = []
      · subst some
        obtain ⟨method, first, same⟩ := Option.bind_eq_some_iff.mp spells
        cases same
        exact ofFirst_spelled first
      · rw [spell_append some] at spells
        obtain ⟨middle, spellsMiddle, follows⟩ :=
          Option.bind_eq_some_iff.mp spells
        exact (ih spellsMiddle).follow follows

/-- The words that are taken for a method. -/
def Accepts (method : HttpMethod) (word : Bytes) : Prop :=
  word = method.string ∨
    method ∈ unguarded ∧ ∃ ch ≠ 0, word = method.string.set 1 ch

theorem spell_string (method : HttpMethod) :
    spell method.string = some (method, method.string.length) := by
  cases method <;> decide

theorem spell_set {method : HttpMethod} (among : method ∈ unguarded)
    {ch : UInt8} (nonzero : ch ≠ 0) :
    spell (method.string.set 1 ch) = some (method, method.string.length) := by
  have all : ∀ method ∈ unguarded, ∀ n < 256, UInt8.ofNat n ≠ 0 →
      spell (method.string.set 1 (UInt8.ofNat n)) =
        some (method, method.string.length) := by
    decide +kernel
  have found := all method among ch.toNat ch.toNat_lt
  rw [UInt8.ofNat_toNat] at found
  exact found nonzero

theorem spell_iff {method : HttpMethod} {word : Bytes} :
    spell word = some (method, method.string.length) ↔ method.Accepts word := by
  constructor
  · intro spells
    have spelled := spell_spelled spells
    have letters : ∀ i (inWord : i < word.length)
        (inString : i < method.string.length), word[i] = method.string[i] ∨
          i = 1 ∧ method ∈ unguarded := by
      intro i inWord inString
      have fits := spelled.fits i inString
      unfold Fits at fits
      rwa [List.getD_eq_getElem _ _ inWord, List.getD_eq_getElem _ _ inString]
        at fits
    by_cases among : method ∈ unguarded
    · have second : 1 < word.length := by
        have long := length_string method
        have length := spelled.length
        dsimp only at length
        omega
      refine .inr ⟨among, word[1], ?_, ?_⟩
      · intro zero
        exact spelled.nonzero (zero ▸ List.getElem_mem second)
      · refine List.ext_getElem (by simpa using spelled.length) ?_
        intro i inWord inSet
        rw [List.length_set] at inSet
        rw [List.getElem_set]
        split_ifs with here
        · subst here
          rfl
        · rcases letters i inWord inSet with same | ⟨there, -⟩
          · exact same
          · exact (here there.symm).elim
    · refine .inl (List.ext_getElem spelled.length ?_)
      intro i inWord inString
      rcases letters i inWord inString with same | ⟨-, wrong⟩
      · exact same
      · exact (among wrong).elim
  · rintro (rfl | ⟨among, ch, nonzero, rfl⟩)
    · exact spell_string method
    · exact spell_set among nonzero

/-- Behind the last letter of a method there is a zero, and nowhere else. -/
theorem getD_string_eq_zero_iff {method : HttpMethod} {index : Nat} :
    method.string.getD index 0 = 0 ↔ method.string.length ≤ index := by
  constructor
  · intro zero
    by_contra inside
    rw [List.getD_eq_getElem _ _ (not_le.mp inside)] at zero
    have member := List.getElem_mem (not_le.mp inside)
    rw [zero] at member
    revert member
    cases method <;> decide
  · intro outside
    exact List.getD_eq_default _ _ outside

end HttpMethod

namespace RequestParser

variable {parser : RequestParser}

theorem react_letter (method : parser.state = .reqMethod) {ch : UInt8}
    (noSpace : ch ≠ octet ' ') :
    (∃ found, HttpMethod.follow (parser.method, parser.index) ch = some found ∧
      parser.react ch =
        ⟨{ parser with method := found.1, index := found.2 }, [],
          .advance⟩) ∨
    HttpMethod.follow (parser.method, parser.index) ch = none ∧
      (parser.react ch).verdict = .error := by
  unfold HttpMethod.follow react
  simp only [method, onByte, onReqMethod, noSpace, false_and, if_false]
  split_ifs with zero same
  · exact .inr ⟨rfl, rfl⟩
  · refine .inl ⟨_, rfl, ?_⟩
    simp [Case.reaction, Case.advance, piece, CountingParser.tokenAt]
  · cases exchanged : parser.method.other parser.index ch with
    | none => exact .inr ⟨rfl, rfl⟩
    | some later =>
        refine .inl ⟨_, rfl, ?_⟩
        simp [Case.reaction, Case.advance, piece, CountingParser.tokenAt]

theorem scan_letters (method : parser.state = .reqMethod) {word : Bytes}
    (noSpace : octet ' ' ∉ word) :
    (∃ found, word.foldlM HttpMethod.follow (parser.method, parser.index) =
        some found ∧
      scan react parser word =
        ⟨{ parser with method := found.1, index := found.2 }, [], [],
          .advance⟩) ∨
    word.foldlM HttpMethod.follow (parser.method, parser.index) = none ∧
      (scan react parser word).verdict = .error := by
  induction word generalizing parser with
  | nil => exact .inl ⟨_, rfl, rfl⟩
  | cons ch word ih =>
      obtain ⟨differs, noSpace⟩ := not_or.mp (mt List.mem_cons.mpr noSpace)
      rw [List.foldlM_cons]
      rcases react_letter method (Ne.symm differs) with
        ⟨found, follows, reaction⟩ | ⟨stops, refused⟩
      · rw [follows, scan_cons_advance (by rw [reaction]), reaction]
        rcases @ih { parser with method := found.1, index := found.2 } method
            noSpace with ⟨later, spells, read⟩ | ⟨stops, refused⟩
        · refine .inl ⟨later, spells, ?_⟩
          rw [read]
          rfl
        · exact .inr ⟨stops, refused⟩
      · rw [stops, scan_cons_error refused]
        exact .inr ⟨rfl, rfl⟩

theorem isAlpha_of_first {ch : UInt8} {method : HttpMethod}
    (first : HttpMethod.ofFirst ch = some method) : isAlpha ch = true :=
  @forall_byte (fun ch => ∀ method ∈ HttpMethod.ofFirst ch, isAlpha ch = true)
    (by decide +kernel) ch method first

theorem react_first (start : parser.state = .startReq) {ch : UInt8}
    (cr : ch ≠ CR) (lf : ch ≠ LF) :
    (∃ method, HttpMethod.ofFirst ch = some method ∧
      parser.react ch =
        ⟨{ parser with
            flags := .none
            contentLength := ullongMax
            method := method
            index := 1
            state := .reqMethod }, [.messageBegin], .advance⟩) ∨
    HttpMethod.ofFirst ch = none ∧ (parser.react ch).verdict = .error := by
  unfold react
  simp only [start, onByte, onStartReq, cr, lf, or_self, if_false]
  cases first : HttpMethod.ofFirst ch with
  | none =>
      refine .inr ⟨rfl, ?_⟩
      split_ifs <;> rfl
  | some method =>
      refine .inl ⟨method, rfl, ?_⟩
      rw [isAlpha_of_first first]
      rfl

/-- The word and the space behind it are read as a method. -/
def MethodRead (parser : RequestParser) (word : Bytes) (method : HttpMethod) :
    Prop :=
  (scan react parser word).verdict = .advance ∧
    ((scan react parser word).state.react (octet ' ')).state.state =
      .reqSpacesBeforeUrl ∧
    ((scan react parser word).state.react (octet ' ')).state.method = method

theorem react_space (method : parser.state = .reqMethod) :
    (parser.react (octet ' ')).state.state = .reqSpacesBeforeUrl ↔
      parser.method.string.length ≤ parser.index := by
  have nonzero : octet ' ' ≠ 0 := by decide
  rw [← HttpMethod.getD_string_eq_zero_iff]
  unfold react
  simp only [method, onByte, onReqMethod, nonzero, if_false, true_and]
  split_ifs with ends same
  · exact iff_of_true rfl ends
  · refine iff_of_false ?_ ends
    simp [Case.reaction, Case.advance]
  · refine iff_of_false ?_ ends
    cases parser.method.other parser.index (octet ' ') with
    | none => simp [Case.reaction, Case.error, method]
    | some later => simp [Case.reaction, Case.advance]

theorem react_space_method (method : parser.state = .reqMethod)
    (ends : parser.method.string.length ≤ parser.index) :
    (parser.react (octet ' ')).state.method = parser.method := by
  have nonzero : octet ' ' ≠ 0 := by decide
  unfold react
  simp only [method, onByte, onReqMethod, nonzero, if_false, true_and,
    HttpMethod.getD_string_eq_zero_iff.mpr ends, if_true]
  rfl

/-- The words that are read as a method: the word of the method, and for
those methods whose second letter is not looked at, that word with any other
letter there. -/
theorem method_read_iff (start : parser.state = .startReq) {word : Bytes}
    (plain : ∀ ch ∈ word, ch ≠ octet ' ' ∧ ch ≠ CR ∧ ch ≠ LF)
    (method : HttpMethod) :
    parser.MethodRead word method ↔ method.Accepts word := by
  rw [← HttpMethod.spell_iff]
  unfold MethodRead
  cases word with
  | nil =>
      refine iff_of_false ?_ (Option.some_ne_none _).symm
      rintro ⟨-, wrong, -⟩
      have refused : (parser.react (octet ' ')).state.state = .startReq := by
        have noAlpha : isAlpha (octet ' ') = false := by decide
        have noEnd : ¬ (octet ' ' = CR ∨ octet ' ' = LF) := by decide
        unfold react
        simp [start, onByte, onStartReq, noEnd, noAlpha, Case.reaction,
          Case.error]
      rw [scan, refused] at wrong
      cases wrong
  | cons ch word =>
      obtain ⟨⟨-, cr, lf⟩, plain⟩ := List.forall_mem_cons.mp plain
      rw [HttpMethod.spell]
      rcases react_first start cr lf with
        ⟨suggested, first, reaction⟩ | ⟨stops, refused⟩
      · rw [first, Option.bind_some, scan_cons_advance (by rw [reaction]),
          reaction]
        dsimp only
        rcases @scan_letters
            { parser with
              flags := .none
              contentLength := ullongMax
              method := suggested
              index := 1
              state := .reqMethod } rfl word
            (fun member => (plain _ member).1 rfl) with
          ⟨found, spells, read⟩ | ⟨stops, refused⟩
        · have letters : word.foldlM HttpMethod.follow (suggested, 1) =
              some found := spells
          have spelled : HttpMethod.spell (ch :: word) = some found := by
            rw [HttpMethod.spell, first, Option.bind_some, letters]
          have within := (HttpMethod.spell_spelled spelled).within
          rw [letters, read]
          dsimp only
          rw [react_space rfl]
          constructor
          · rintro ⟨-, ends, same⟩
            rw [react_space_method rfl ends] at same
            dsimp only at ends same
            subst same
            rw [Nat.le_antisymm ends within]
          · rintro ⟨⟩
            exact ⟨rfl, le_rfl, react_space_method rfl le_rfl⟩
        · rw [stops]
          refine iff_of_false (fun wrong => ?_) (Option.some_ne_none _).symm
          rw [refused] at wrong
          cases wrong.1
      · rw [stops, scan_cons_error refused]
        refine iff_of_false (fun wrong => ?_) (Option.some_ne_none _).symm
        cases wrong.1

/-- A second letter that is not the one of the method. -/
theorem crooked_delete_read :
    init.MethodRead (ascii "DXLETE") .delete :=
  (@method_read_iff init rfl (ascii "DXLETE") (forall_of_all (by decide))
    .delete).mpr
      (.inr ⟨by decide, octet 'X', by decide, by decide⟩)

end RequestParser

end Woody
