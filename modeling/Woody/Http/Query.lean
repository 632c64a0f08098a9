import Woody.Foundation.Lines
import Woody.Http.Request

/-!
# Query parameters

`ParseUrl` looks for the next `=` before it looks for the next `&`.  A
component without `=` therefore becomes a part of the next name, unless no
component behind it has one.
-/

namespace Woody

namespace Query

/-- The text behind the first `?`. -/
def text (url : Bytes) : Bytes := (url.dropWhile (· ≠ 63)).drop 1

def components (url : Bytes) : List Bytes := (text url).splitOn 38

/-- What a component binds: the text in front of its first `=`, to the text
behind it. -/
def binding (component : Bytes) : Option (Bytes × Bytes) :=
  if 61 ∈ component then
    some (component.takeWhile (· ≠ 61), (component.dropWhile (· ≠ 61)).drop 1)
  else
    none

/-- The bindings of a URL, in order. -/
def parameters (url : Bytes) : List (Bytes × Bytes) :=
  (components url).filterMap binding

/-- The value of a name: later bindings override earlier ones. -/
def value? (url name : Bytes) : Option Bytes :=
  (parameters url).reverse.lookup name

/-- What `GetGETParams` is expected to return. -/
def get (url name value : Bytes) : Bool × Bytes :=
  match value? url name with
  | some found => (true, found)
  | none => (false, value)

/-- No component without `=` stands in front of a component with one. -/
def BareLast (components : List Bytes) : Prop :=
  components.Pairwise fun early late => 61 ∉ early → 61 ∉ late

instance (components : List Bytes) : Decidable (BareLast components) :=
  inferInstanceAs (Decidable (List.Pairwise _ _))

/-- The bindings of the loop: the components without `=` that were passed
become a part of the next name. -/
def passed : Bytes → List Bytes → List (Bytes × Bytes)
  | _, [] => []
  | before, component :: later =>
      match binding component with
      | some (name, value) => (before ++ name, value) :: passed [] later
      | none => passed (before ++ component ++ [38]) later

theorem binding_of_not_mem {component : Bytes} (bare : 61 ∉ component) :
    binding component = none :=
  if_neg bare

theorem binding_append {name : Bytes} (clean : 61 ∉ name) (value : Bytes) :
    binding (name ++ 61 :: value) = some (name, value) := by
  rw [binding, if_pos List.mem_append_cons_self,
    Separated.takeWhile_append_separator clean,
    Separated.dropWhile_append_separator clean]
  rfl

theorem component_cases (component : Bytes) :
    61 ∉ component ∨
      ∃ name value, 61 ∉ name ∧ component = name ++ 61 :: value := by
  by_cases bound : 61 ∈ component
  · obtain ⟨name, value, shape, clean⟩ := List.eq_append_cons_of_mem bound
    exact .inr ⟨name, value, clean, shape⟩
  · exact .inl bound

/-- What stands behind a component: the next `&` and the later components. -/
def behind : List Bytes → Bytes
  | [] => []
  | component :: later => 38 :: [38].intercalate (component :: later)

theorem drop_behind (later : List Bytes) :
    (behind later).drop 1 = [38].intercalate later := by
  cases later with
  | nil => rfl
  | cons component later => rfl

theorem intercalate_cons (component : Bytes) (later : List Bytes) :
    [38].intercalate (component :: later) = component ++ behind later := by
  cases later with
  | nil => rw [List.intercalate_singleton, behind, List.append_nil]
  | cons next later =>
      rw [List.intercalate_cons_cons, behind, List.append_assoc]
      rfl

theorem subset_intercalate {component : Bytes} {components : List Bytes}
    (member : component ∈ components) :
    component ⊆ [38].intercalate components := by
  induction components with
  | nil => exact (List.not_mem_nil member).elim
  | cons first later ih =>
      rw [intercalate_cons]
      rcases List.mem_cons.mp member with rfl | isLater
      · exact List.subset_append_left _ _
      · refine List.Subset.trans (ih isLater) ?_
        rw [← drop_behind]
        exact List.Subset.trans (List.drop_subset 1 _)
          (List.subset_append_right _ _)

/-- The scan for the value stops at the end of its component. -/
theorem scan_value {value : Bytes} (oneComponent : 38 ∉ value)
    (spaceless : 32 ∉ value) (later : List Bytes) :
    (value ++ behind later).takeWhile (fun byte => byte ≠ 38 ∧ byte ≠ 32) =
        value ∧
      (value ++ behind later).dropWhile (fun byte => byte ≠ 38 ∧ byte ≠ 32) =
        behind later := by
  have all : ∀ byte ∈ value, decide (byte ≠ 38 ∧ byte ≠ 32) = true :=
    fun byte member => decide_eq_true
      ⟨fun same => oneComponent (same ▸ member),
        fun same => spaceless (same ▸ member)⟩
  rw [List.takeWhile_append_of_pos all, List.dropWhile_append_of_pos all]
  cases later with
  | nil => simp [behind]
  | cons component later => simp [behind]

theorem parseParams_of_not_mem {rest : Bytes} (bare : 61 ∉ rest)
    (fuel : Nat) (params : StringMap) :
    HTTPRequest.parseParams fuel rest params = params := by
  have none_ : rest.dropWhile (· ≠ 61) = [] :=
    List.dropWhile_eq_nil_iff.mpr (Separated.all_ne_of_not_mem bare)
  cases fuel with
  | zero => rfl
  | succ fuel => simp only [HTTPRequest.parseParams, none_]

/-- One turn of the loop: the name is all that stands in front of the next
`=`. -/
theorem parseParams_step {name value : Bytes} (clean : 61 ∉ name)
    (oneComponent : 38 ∉ value) (spaceless : 32 ∉ value) (fuel : Nat)
    (later : List Bytes) (params : StringMap) :
    HTTPRequest.parseParams (fuel + 1) (name ++ 61 :: (value ++ behind later))
        params =
      HTTPRequest.parseParams fuel ([38].intercalate later)
        (params.assign name value) := by
  obtain ⟨taken, dropped⟩ := scan_value oneComponent spaceless later
  simp only [HTTPRequest.parseParams,
    Separated.takeWhile_append_separator clean,
    Separated.dropWhile_append_separator clean, taken, dropped, drop_behind]

theorem parseParams_eq {components : List Bytes}
    (separate : ∀ component ∈ components, 38 ∉ component ∧ 32 ∉ component)
    {before : Bytes} (bare : 61 ∉ before) {fuel : Nat}
    (enough : (before ++ [38].intercalate components).length ≤ fuel)
    (params : StringMap) :
    HTTPRequest.parseParams fuel (before ++ [38].intercalate components)
        params =
      params.assignAll (passed before components) := by
  induction components generalizing before fuel params with
  | nil =>
      rw [List.intercalate_nil, List.append_nil]
      exact parseParams_of_not_mem bare fuel params
  | cons component later ih =>
      obtain ⟨⟨oneComponent, spaceless⟩, others⟩ :=
        List.forall_mem_cons.mp separate
      rw [intercalate_cons] at enough ⊢
      rcases component_cases component with
        unbound | ⟨name, value, clean, rfl⟩
      · have front : 61 ∉ before ++ component := by
          simp [bare, unbound]
        rw [passed, binding_of_not_mem unbound]
        cases later with
        | nil =>
            rw [behind, List.append_nil]
            exact parseParams_of_not_mem front fuel params
        | cons next later =>
            have shape : before ++ (component ++ behind (next :: later)) =
                before ++ component ++ [38] ++
                  [38].intercalate (next :: later) := by
              simp [behind]
            rw [shape] at enough ⊢
            refine ih others ?_ enough params
            simp [bare, unbound]
      · have front : 61 ∉ before ++ name := by
          simp [bare, clean]
        have shape : before ++ (name ++ 61 :: value ++ behind later) =
            before ++ name ++ 61 :: (value ++ behind later) := by
          simp
        rw [shape] at enough ⊢
        rw [passed, binding_append clean]
        have oneValue : 38 ∉ value := fun inside => oneComponent
          (List.mem_append_right name (List.mem_cons_of_mem 61 inside))
        have noSpace : 32 ∉ value := fun inside => spaceless
          (List.mem_append_right name (List.mem_cons_of_mem 61 inside))
        have rest := congrArg List.length (drop_behind later)
        rw [List.length_drop] at rest
        simp only [List.length_append, List.length_cons] at enough
        cases fuel with
        | zero => omega
        | succ fuel =>
            rw [parseParams_step front oneValue noSpace]
            have fits : ([] ++ [38].intercalate later).length ≤ fuel := by
              rw [List.nil_append]
              omega
            exact ih others List.not_mem_nil fits _

theorem bareLast_cons_iff {component : Bytes} {later : List Bytes} :
    BareLast (component :: later) ↔
      (61 ∉ component → ∀ other ∈ later, 61 ∉ other) ∧ BareLast later := by
  rw [BareLast, List.pairwise_cons]
  exact and_congr_left' ⟨fun each unbound other member =>
    each other member unbound, fun all other member unbound =>
    all unbound other member⟩

theorem passed_of_bare {components : List Bytes}
    (bare : ∀ component ∈ components, 61 ∉ component) (before : Bytes) :
    passed before components = [] := by
  induction components generalizing before with
  | nil => rfl
  | cons component later ih =>
      obtain ⟨unbound, others⟩ := List.forall_mem_cons.mp bare
      rw [passed, binding_of_not_mem unbound]
      exact ih others _

/-- Nothing is passed when the components without `=` are the last ones. -/
theorem passed_eq_filterMap {components : List Bytes}
    (last : BareLast components) :
    passed [] components = components.filterMap binding := by
  induction components with
  | nil => rfl
  | cons component later ih =>
      obtain ⟨bare, others⟩ := bareLast_cons_iff.mp last
      rcases component_cases component with
        unbound | ⟨name, value, clean, rfl⟩
      · have none_ : later.filterMap binding = [] :=
          List.filterMap_eq_nil_iff.mpr fun other member =>
            binding_of_not_mem (bare unbound other member)
        rw [List.filterMap_cons_none (binding_of_not_mem unbound), none_,
          passed, binding_of_not_mem unbound]
        exact passed_of_bare (bare unbound) _
      · rw [List.filterMap_cons_some (binding_append clean value), passed,
          binding_append clean, ← ih others]
        rfl

theorem passed_into_name {components : List Bytes} {component : Bytes}
    (member : component ∈ components) (bound : 61 ∈ component)
    {before : Bytes} (ampersand : 38 ∈ before) :
    ∃ entry ∈ passed before components, 38 ∈ entry.1 := by
  induction components generalizing before with
  | nil => exact (List.not_mem_nil member).elim
  | cons first later ih =>
      rw [passed]
      rcases component_cases first with unbound | ⟨name, value, clean, rfl⟩
      · rw [binding_of_not_mem unbound]
        rcases List.mem_cons.mp member with rfl | behind
        · exact (unbound bound).elim
        · exact ih behind (by simp)
      · rw [binding_append clean]
        exact ⟨_, List.mem_cons_self, List.mem_append_left name ampersand⟩

theorem exists_ampersand_of_not_bareLast {components : List Bytes}
    (mixed : ¬ BareLast components) (before : Bytes) :
    ∃ entry ∈ passed before components, 38 ∈ entry.1 := by
  induction components generalizing before with
  | nil => exact (mixed List.Pairwise.nil).elim
  | cons first later ih =>
      rw [bareLast_cons_iff, not_and_or] at mixed
      rw [passed]
      rcases component_cases first with unbound | ⟨name, value, clean, rfl⟩
      · rw [binding_of_not_mem unbound]
        rcases mixed with followed | mixed
        · simp only [not_forall, not_not] at followed
          obtain ⟨-, component, member, bound⟩ := followed
          exact passed_into_name member bound (by simp)
        · exact ih mixed _
      · rw [binding_append clean]
        have later_ : ¬ BareLast later := by
          refine mixed.resolve_left fun other => other fun unbound => ?_
          exact (unbound List.mem_append_cons_self).elim
        obtain ⟨entry, member, inside⟩ := ih later_ []
        exact ⟨entry, List.mem_cons_of_mem _ member, inside⟩

theorem not_mem_name {url : Bytes} {entry : Bytes × Bytes}
    (member : entry ∈ parameters url) : 38 ∉ entry.1 := by
  obtain ⟨component, isComponent, bound⟩ := List.mem_filterMap.mp member
  have clean := Separated.not_mem_of_mem_splitOn isComponent
  rw [binding] at bound
  split at bound
  · cases bound
    exact fun inside => clean ((List.takeWhile_prefix _).mem inside)
  · cases bound

/-- The loop finds what the reference finds, for every name, exactly when no
component without `=` stands in front of one with it. -/
theorem lookup_passed_iff (url : Bytes) :
    (∀ name, (passed [] (components url)).reverse.lookup name =
        value? url name) ↔
      BareLast (components url) := by
  constructor
  · intro same
    by_contra mixed
    obtain ⟨entry, member, inside⟩ :=
      exists_ampersand_of_not_bareLast mixed []
    have found : (value? url entry.1).isSome := by
      rw [← same, List.lookup_isSome_iff]
      exact ⟨entry, List.mem_reverse.mpr member, beq_self_eq_true _⟩
    rw [value?, List.lookup_isSome_iff] at found
    obtain ⟨other, isParameter, sameName⟩ := found
    rw [beq_iff_eq.mp sameName] at inside
    exact not_mem_name (List.mem_reverse.mp isParameter) inside
  · intro last name
    rw [passed_eq_filterMap last, value?, parameters]

end Query

namespace HTTPRequest

open Query

theorem methodGetParams_parseUrl {request : HTTPRequest}
    (spaceless : 32 ∉ request.url) :
    request.parseUrl.methodGetParams =
      request.methodGetParams.assignAll
        (passed [] (components request.url)) := by
  rw [parseUrl, components, text]
  cases query : request.url.dropWhile (· ≠ 63) with
  | nil => rfl
  | cons mark query_ =>
      have part : query_ ⊆ request.url := by
        refine List.Subset.trans (List.subset_cons_self mark query_) ?_
        rw [← query]
        exact (List.dropWhile_suffix _).subset
      have joined : [38].intercalate (query_.splitOn 38) = query_ :=
        List.intercalate_splitOn 38
      have separate : ∀ component ∈ query_.splitOn 38,
          38 ∉ component ∧ 32 ∉ component := by
        intro component member
        refine ⟨Separated.not_mem_of_mem_splitOn member, fun space => ?_⟩
        have inQuery := subset_intercalate member space
        rw [joined] at inQuery
        exact spaceless (part inQuery)
      have fits : ([] ++ [38].intercalate (query_.splitOn 38)).length ≤
          query_.length := by
        rw [List.nil_append, joined]
      have loop := parseParams_eq separate List.not_mem_nil fits
        request.methodGetParams
      rwa [List.nil_append, joined] at loop

theorem getGETParams_eq_iff {request : HTTPRequest} {url name : Bytes} :
    (∀ value, request.getGETParams name value = Query.get url name value) ↔
      request.methodGetParams.find name = value? url name := by
  unfold getGETParams Query.get
  cases request.methodGetParams.find name <;> cases value? url name <;> simp

/-- After `ParseUrl` every parameter has the value that its component of the
query gives it exactly when no component without `=` stands in front of one
with it. -/
theorem parseUrl_follows_grammar_iff {request : HTTPRequest}
    (spaceless : 32 ∉ request.url) (fresh : request.methodGetParams = ∅) :
    (∀ name value, request.parseUrl.getGETParams name value =
        Query.get request.url name value) ↔
      BareLast (components request.url) := by
  have bound (name : Bytes) :
      request.parseUrl.methodGetParams.find name =
        (passed [] (components request.url)).reverse.lookup name := by
    rw [methodGetParams_parseUrl spaceless, StringMap.find_assignAll, fresh,
      StringMap.find_empty, Option.or_none]
  simp only [getGETParams_eq_iff, bound, lookup_passed_iff]

/-- Parameters with `=` in a value, without a value, and an empty component at
the end, behind an earlier binding of the same name. -/
theorem search_follows_grammar :
    let request := HTTPRequest.init.setUrl (ascii "/find?q=a&q=b=c&page=&")
    request.parseUrl.getGETParams (ascii "q") [] = (true, ascii "b=c") ∧
      ∀ name value, request.parseUrl.getGETParams name value =
        Query.get request.url name value :=
  ⟨by decide +kernel, (parseUrl_follows_grammar_iff (by decide) rfl).mpr
    (by decide +kernel)⟩

/-- In `/?a&b=1` the parameter `b` is not found; it is called `a&b`. -/
theorem flag_joins_next_name :
    let request := HTTPRequest.init.setUrl (ascii "/?a&b=1")
    Query.get request.url (ascii "b") [] = (true, ascii "1") ∧
      request.parseUrl.getGETParams (ascii "b") [] = (false, []) ∧
      request.parseUrl.getGETParams (ascii "a&b") [] = (true, ascii "1") := by
  decide +kernel

end HTTPRequest

end Woody
