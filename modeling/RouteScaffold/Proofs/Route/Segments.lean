import RouteScaffold.Proofs.Path.Components
import RouteScaffold.Route.Segment

/-! The segments of a route and of its URL.

Which segments are dynamic is a matter of their brackets alone (`StandsFor`), and
`dynamicName?_eq_some_iff` says that these are the ones that are found, empty and
unbalanced brackets included. A URL has the segments of its route: a static one as it
is, a dynamic one as a placeholder with its name (`rendered_pieces`). -/
namespace RouteScaffold.Route
open Text

/-! ### Names in brackets -/

/-- What stands within the brackets of a text: within both pairs if it has two. -/
inductive Within : List Char → List Char → Prop where
  | double (inner : List Char) : Within ('[' :: '[' :: (inner ++ [']', ']'])) inner
  | single {inner : List Char} : (∀ more, inner ≠ '[' :: (more ++ [']'])) →
      Within ('[' :: (inner ++ [']'])) inner

/-- What stands within the brackets of a segment is its name, perhaps behind three dots. -/
inductive StandsFor : List Char → List Char → Prop where
  | single {segment name : List Char} : Within segment name → ¬ "...".toList <+: name →
      name ≠ [] → StandsFor segment name
  | catchAll {segment name : List Char} : Within segment ("...".toList ++ name) → name ≠ [] →
      StandsFor segment name

theorem bracketed?_eq_some_iff {text inner : List Char} :
    bracketed? text = some inner ↔ text = '[' :: (inner ++ [']']) := by
  unfold bracketed?
  split
  next rest =>
    split
    next more heq =>
      obtain rfl : rest = more.reverse ++ [']'] := by
        rw [← List.reverse_reverse rest, heq, List.reverse_cons]
      simp
    next hne =>
      refine ⟨nofun, fun h => absurd ?_ (hne inner.reverse)⟩
      rw [(List.cons.inj h).2, List.reverse_append]
      rfl
  next hne => exact ⟨nofun, fun h => absurd h (hne _)⟩

theorem within_iff {text inner : List Char} :
    Within text inner ↔
      ∃ outer, bracketed? text = some outer ∧ (bracketed? outer).getD outer = inner := by
  constructor
  · rintro (_ | hnone)
    · refine ⟨'[' :: (inner ++ [']']), bracketed?_eq_some_iff.mpr (by simp), ?_⟩
      rw [bracketed?_eq_some_iff.mpr rfl, Option.getD_some]
    · have houter : bracketed? inner = none :=
        Option.eq_none_iff_forall_ne_some.mpr fun more hmore =>
          hnone more (bracketed?_eq_some_iff.mp hmore)
      exact ⟨inner, bracketed?_eq_some_iff.mpr rfl, by rw [houter, Option.getD_none]⟩
  · rintro ⟨outer, htext, hinner⟩
    rw [bracketed?_eq_some_iff.mp htext]
    cases houter : bracketed? outer with
    | none =>
      obtain rfl : outer = inner := by rwa [houter] at hinner
      exact .single fun more hmore => by
        rw [bracketed?_eq_some_iff.mpr hmore] at houter
        cases houter
    | some more =>
      obtain rfl : more = inner := by rwa [houter] at hinner
      rw [bracketed?_eq_some_iff.mp houter]
      simpa using Within.double more

/-- A text without three dots in front, if it has them. -/
def undotted (inner : List Char) : List Char :=
  if "...".toList.isPrefixOf inner then inner.drop 3 else inner

theorem undotted_eq_iff {inner name : List Char} :
    undotted inner = name ↔
      inner = "...".toList ++ name ∨ ¬ "...".toList <+: inner ∧ inner = name := by
  by_cases hdots : "...".toList <+: inner
  · obtain ⟨more, rfl⟩ := hdots
    have hprefix : "...".toList.isPrefixOf ("...".toList ++ more) = true :=
      List.isPrefixOf_iff_prefix.mpr (List.prefix_append ..)
    rw [undotted, if_pos hprefix]
    simp
  · rw [undotted, if_neg fun h => hdots (List.isPrefixOf_iff_prefix.mp h)]
    refine ⟨fun h => .inr ⟨hdots, h⟩, fun h => h.elim (fun h => ?_) And.right⟩
    exact absurd (h ▸ List.prefix_append ..) hdots

/-- **A segment is dynamic exactly by its brackets**, and its name is what they say. -/
theorem dynamicName?_eq_some_iff {segment name : List Char} :
    dynamicName? segment = some name ↔ StandsFor segment name := by
  have hread : dynamicName? segment = some name ↔
      ∃ inner, Within segment inner ∧ undotted inner = name ∧ name ≠ [] := by
    simp only [within_iff]
    have hbind : dynamicName? segment = (bracketed? segment).bind fun outer =>
        if (undotted ((bracketed? outer).getD outer)).isEmpty then none
        else some (undotted ((bracketed? outer).getD outer)) := rfl
    rw [hbind, Option.bind_eq_some_iff]
    constructor
    · rintro ⟨outer, houter, h⟩
      obtain ⟨hne, hname⟩ := Option.ite_none_left_eq_some.mp h
      obtain rfl := Option.some.inj hname
      exact ⟨_, ⟨outer, houter, rfl⟩, rfl, by simpa using hne⟩
    · rintro ⟨_, ⟨outer, houter, rfl⟩, rfl, hne⟩
      exact ⟨outer, houter, if_neg (by simpa using hne)⟩
  rw [hread]
  constructor
  · rintro ⟨inner, hwithin, hname, hne⟩
    rcases undotted_eq_iff.mp hname with rfl | ⟨hdots, rfl⟩
    · exact .catchAll hwithin hne
    · exact .single hwithin hdots hne
  · rintro (⟨hwithin, hdots, hne⟩ | ⟨hwithin, hne⟩)
    · exact ⟨name, hwithin, undotted_eq_iff.mpr (.inr ⟨hdots, rfl⟩), hne⟩
    · exact ⟨_, hwithin, undotted_eq_iff.mpr (.inl rfl), hne⟩

theorem dynamicName?_eq_none_iff {segment : List Char} :
    dynamicName? segment = none ↔ ∀ name, ¬ StandsFor segment name := by
  simp only [Option.eq_none_iff_forall_ne_some, ← dynamicName?_eq_some_iff, ne_eq]

theorem Within.subset {text inner : List Char} (h : Within text inner) : inner ⊆ text := by
  intro c hc
  cases h <;> simp [hc]

/-- A name is made of characters of its segment. -/
theorem StandsFor.subset {segment name : List Char} (h : StandsFor segment name) :
    name ⊆ segment := by
  cases h with
  | single hwithin => exact hwithin.subset
  | catchAll hwithin => exact List.Subset.trans (List.subset_append_right _ _) hwithin.subset

/-! ### URLs -/

theorem slashless_of_mem_segments {path segment : List Char} (h : segment ∈ segments path) :
    '/' ∉ segment := fun hmem => by
  simpa using not_separator_of_mem_separate h '/' hmem

/-- How a template has the value of a name. -/
def placeholder (accessor : String) (name : List Char) : List Char :=
  "$\x7b".toList ++ accessor.toList ++ ['.'] ++ name ++ ['\x7d']

theorem templateSegment_of_standsFor (accessor : String) {segment name : List Char}
    (h : StandsFor segment name) :
    templateSegment accessor segment = placeholder accessor name := by
  rw [templateSegment, dynamicName?_eq_some_iff.mpr h]
  rfl

theorem templateSegment_of_static (accessor : String) {segment : List Char}
    (h : ∀ name, ¬ StandsFor segment name) : templateSegment accessor segment = segment := by
  rw [templateSegment, dynamicName?_eq_none_iff.mpr h]

/-- The pieces of a URL for the segments of a route, and the names that are read in it. -/
inductive Rendered (accessor : String) :
    List (List Char) → List (List Char) → List (List Char) → Prop where
  | nil : Rendered accessor [] [] []
  | static {segment : List Char} {segments pieces names : List (List Char)} :
      (∀ name, ¬ StandsFor segment name) → Rendered accessor segments pieces names →
      Rendered accessor (segment :: segments) (segment :: pieces) names
  | dynamic {segment name : List Char} {segments pieces names : List (List Char)} :
      StandsFor segment name → Rendered accessor segments pieces names →
      Rendered accessor (segment :: segments) (placeholder accessor name :: pieces) (name :: names)

theorem rendered_segments (accessor : String) (segments : List (List Char)) :
    Rendered accessor segments (segments.map (templateSegment accessor))
      (segments.filterMap dynamicName?) := by
  induction segments with
  | nil => exact .nil
  | cons segment segments ih =>
    rw [List.map_cons]
    cases hname : dynamicName? segment with
    | none =>
      have hstatic := dynamicName?_eq_none_iff.mp hname
      rw [List.filterMap_cons_none hname, templateSegment_of_static accessor hstatic]
      exact .static hstatic ih
    | some name =>
      have hstands := dynamicName?_eq_some_iff.mp hname
      rw [List.filterMap_cons_some hname, templateSegment_of_standsFor accessor hstands]
      exact .dynamic hstands ih

theorem slashless_templateSegment {accessor : String} (haccessor : '/' ∉ accessor.toList)
    {segment : List Char} (h : '/' ∉ segment) : '/' ∉ templateSegment accessor segment := by
  cases hname : dynamicName? segment with
  | none => rwa [templateSegment_of_static accessor (dynamicName?_eq_none_iff.mp hname)]
  | some name =>
    have hstands := dynamicName?_eq_some_iff.mp hname
    have hslashless : '/' ∉ name := fun hmem => h (hstands.subset hmem)
    rw [templateSegment_of_standsFor accessor hstands]
    simp [placeholder, haccessor, hslashless]

theorem toList_urlTemplate (path accessor : String) :
    (urlTemplate path accessor).toList = '\x60' ::
      (List.intercalate ['/'] ((segments path.toList).map (templateSegment accessor)) ++
        ['\x60']) := by
  rw [urlTemplate, String.toList_ofList]

/-- Between its backticks, a URL has the pieces of the route. -/
theorem rendered_pieces {accessor : String} (haccessor : '/' ∉ accessor.toList) (path : String) :
    ∃ inner, (urlTemplate path accessor).toList = '\x60' :: (inner ++ ['\x60']) ∧
      Rendered accessor (segments path.toList) (separate (· == '/') inner)
        ((segments path.toList).filterMap dynamicName?) := by
  refine ⟨_, toList_urlTemplate path accessor, ?_⟩
  have hne : (segments path.toList).map (templateSegment accessor) ≠ [] :=
    mt List.map_eq_nil_iff.mp (separate_ne_nil _ _)
  have hslashless : ∀ piece ∈ (segments path.toList).map (templateSegment accessor),
      '/' ∉ piece := List.forall_mem_map.mpr fun segment hsegment =>
    slashless_templateSegment haccessor (slashless_of_mem_segments hsegment)
  rw [Path.separate_intercalate hne hslashless]
  exact rendered_segments accessor _

end RouteScaffold.Route
