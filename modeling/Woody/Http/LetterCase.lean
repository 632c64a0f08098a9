import Woody.Http.Isolation
import Woody.Http.Rendering
import Woody.Websocket.Upgrade

/-!
# The letter case of header names

`http_parser` recognises the headers of an upgrade in any letter case and
reports their names as they are spelled.  The request keeps them so, and
`GetHeader` compares them byte by byte.
-/

namespace Woody

/-- Headers with one value, whose names differ in letter case at most. -/
def SameButCase (entry recased : Bytes × Bytes) : Prop :=
  lowerCase entry.1 = lowerCase recased.1 ∧ entry.2 = recased.2

instance : DecidableRel SameButCase :=
  fun _ _ => inferInstanceAs (Decidable (_ ∧ _))

/-- Every spelling of a name in one of the lists is a spelling in the other,
and its first value is the same there. -/
def SpelledAlike (left right : List (Bytes × Bytes)) : Prop :=
  (∀ entry ∈ left, left.lookup entry.1 = right.lookup entry.1) ∧
    ∀ entry ∈ right, left.lookup entry.1 = right.lookup entry.1

theorem spelledAlike_iff {left right : List (Bytes × Bytes)} :
    SpelledAlike left right ↔ ∀ name, left.lookup name = right.lookup name := by
  constructor
  · rintro ⟨inLeft, inRight⟩ name
    by_cases spelled : ∃ entry ∈ left ++ right, name = entry.1
    · obtain ⟨entry, member, rfl⟩ := spelled
      rcases List.mem_append.mp member with isLeft | isRight
      · exact inLeft entry isLeft
      · exact inRight entry isRight
    · have absent (entries : List (Bytes × Bytes))
          (part : entries ⊆ left ++ right) : entries.lookup name = none := by
        refine List.lookup_eq_none_iff.mpr fun entry member => ?_
        exact bne_iff_ne.mpr fun same => spelled ⟨entry, part member, same⟩
      rw [absent left (List.subset_append_left left right),
        absent right (List.subset_append_right left right)]
  · exact fun same => ⟨fun entry _ => same entry.1, fun entry _ => same entry.1⟩

theorem lookup_eq_none_of_lowerCase {entries : List (Bytes × Bytes)}
    {name : Bytes}
    (absent : lowerCase name ∉ entries.map fun entry => lowerCase entry.1) :
    entries.lookup name = none := by
  refine List.lookup_eq_none_iff.mpr fun entry member => ?_
  refine bne_iff_ne.mpr fun same => absent (List.mem_map.mpr ⟨entry, member, ?_⟩)
  rw [same]

theorem map_lowerCase_eq {left right : List (Bytes × Bytes)}
    (recased : List.Forall₂ SameButCase left right) :
    (left.map fun entry => lowerCase entry.1) =
      right.map fun entry => lowerCase entry.1 := by
  induction recased with
  | nil => rfl
  | cons first _ ih => rw [List.map_cons, List.map_cons, first.1, ih]

/-- When no name is repeated, in whatever letter case, all names have to be
spelled the same. -/
theorem spelledAlike_iff_eq {left right : List (Bytes × Bytes)}
    (recased : List.Forall₂ SameButCase left right)
    (distinct : (left.map fun entry => lowerCase entry.1).Nodup) :
    SpelledAlike left right ↔ left = right := by
  rw [spelledAlike_iff]
  refine ⟨fun same => ?_, fun same name => by rw [same]⟩
  induction recased with
  | nil => rfl
  | @cons entry recased left right first later ih =>
      obtain ⟨fresh, distinct⟩ := List.nodup_cons.mp distinct
      have missing : left.lookup entry.1 = none :=
        lookup_eq_none_of_lowerCase fresh
      have otherMissing : right.lookup entry.1 = none := by
        rw [map_lowerCase_eq later] at fresh
        exact lookup_eq_none_of_lowerCase fresh
      simp only [StringMap.lookup_cons_eq] at same
      have name : entry.1 = recased.1 := by
        by_contra different
        have found := same entry.1
        rw [if_pos rfl, if_neg different, otherMissing] at found
        cases found
      have behind (other : Bytes) : left.lookup other = right.lookup other := by
        by_cases isFirst : other = entry.1
        · rw [isFirst, missing, otherMissing]
        · have found := same other
          rwa [if_neg isFirst, if_neg (name ▸ isFirst)] at found
      rw [ih distinct behind, Prod.ext name first.2]

namespace HTTPCodec

/-- What `HandleUpgrade` returns for the requests of a text. -/
def verdicts (text : Bytes) : List (Option Bool) :=
  (requestsOf httpParser httpParser.init init [text]).map fun request =>
    (DetachedHandler.handleUpgrade HTTPResponse.zeroBoost
      ⟨[], WebsocketCodec.init default⟩ ⟨.connected, 0⟩ request
      (.init 0)).returned

end HTTPCodec

end Woody
