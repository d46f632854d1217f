import Mathlib.Data.List.DropRight
import RouteScaffold.Convention
import RouteScaffold.Proofs.Path.Components
import RouteScaffold.Route.Segment

/-! Where the route path of a directory starts.

The convention of a directory is told from its last marker, whichever it is, while a route
path starts behind the last marker of its own convention. For the convention that is told
both are one name (`Anchored`), so that the route path leads through no marker, and what
stands in front of a directory with a marker does not matter (`routePath_anchored`). Route
groups and slots are no markers: the convention and the route path of the app convention
are told from the other names (`Interspersed.ofDirectory`, `Interspersed.routePath`). -/
namespace RouteScaffold

/-- What stands behind the last of some elements that are the same. -/
theorem rtakeWhile_append_cons {α : Type} [BEq α] [LawfulBEq α] {x : α} {back : List α}
    (h : x ∉ back) (front : List α) : (front ++ x :: back).rtakeWhile (· != x) = back := by
  have hback : ∀ y ∈ back.reverse, (y != x) = true := fun y hy => by
    rw [bne_iff_ne]
    rintro rfl
    exact h (List.mem_reverse.mp hy)
  rw [List.rtakeWhile, List.reverse_append, List.reverse_cons, List.append_assoc,
    List.takeWhile_append_of_pos hback, List.singleton_append,
    List.takeWhile_cons_of_neg (by simp), List.append_nil, List.reverse_reverse]

/-- The names that a route path leads through. -/
def Route.pathNames (path : String) : List String :=
  ((segments path.toList).filter (!·.isEmpty)).map String.ofList

theorem Route.pathNames_intercalate {names : List String}
    (h : ∀ name ∈ names, Path.IsName name) :
    pathNames ("/" ++ "/".intercalate names) = names := by
  have hcut : segments ("/" ++ "/".intercalate names).toList =
      [] :: segments (List.intercalate ['/'] (names.map String.toList)) := by
    rw [String.toList_append, String.toList_intercalate]
    exact Path.separate_append_slash [] _
  rw [pathNames, hcut]
  cases names with
  | nil => rfl
  | cons name names =>
    have hslashless : ∀ part ∈ (name :: names).map String.toList, '/' ∉ part :=
      List.forall_mem_map.mpr fun name hname => (h name hname).slashless
    have hsolid : ∀ part ∈ (name :: names).map String.toList, (!part.isEmpty) = true := by
      refine List.forall_mem_map.mpr fun name hname => ?_
      have hcounts := (h name hname).counts
      rw [Path.isIdle, Bool.or_eq_false_iff] at hcounts
      simpa using hcounts.1
    rw [segments, Path.separate_intercalate (by simp) hslashless, List.filter_cons_of_neg (by simp),
      List.filter_eq_self.mpr hsolid, List.map_map]
    simp

namespace Convention
open Route

/-! ### Markers -/

/-- The name of a directory behind which route paths start. -/
def IsMarker (name : String) : Prop := name = "app" ∨ name = "pages"

instance : DecidablePred IsMarker := fun _ => inferInstanceAs (Decidable (_ ∨ _))

theorem isMarker_iff {name : String} : IsMarker name ↔ ∃ c : Convention, c.marker = name := by
  constructor
  · rintro (rfl | rfl)
    · exact ⟨.app, rfl⟩
    · exact ⟨.pages, rfl⟩
  · rintro ⟨c, rfl⟩
    cases c
    · exact .inl rfl
    · exact .inr rfl

/-- The convention that has the name as its marker. -/
def marked? (name : String) : Option Convention := all.find? (·.marker == name)

theorem marked?_marker (c : Convention) : marked? c.marker = some c := by cases c <;> decide

theorem marked?_of_not_isMarker {name : String} (h : ¬ IsMarker name) : marked? name = none := by
  refine List.find?_eq_none.mpr fun c _ hc => h (isMarker_iff.mpr ⟨c, ?_⟩)
  simpa using hc

/-- The convention that is told from names. -/
def told (names : List String) : Convention := (names.reverse.findSome? marked?).getD .app

theorem ofDirectory_eq (directory : Path) : ofDirectory directory = told directory.names := rfl

/-! ### Anchors -/

/-- The convention that names show, and what is left of them where its route path starts. -/
inductive Anchored : List String → Convention → List String → Prop where
  /-- Behind a marker that no other marker follows. -/
  | behind (front : List String) (c : Convention) {rest : List String} :
      (∀ name ∈ rest, ¬ IsMarker name) → Anchored (front ++ c.marker :: rest) c rest
  /-- At the front where there is no marker. -/
  | unmarked {names : List String} : (∀ name ∈ names, ¬ IsMarker name) → Anchored names .app names

theorem exists_anchored (names : List String) : ∃ c rest, Anchored names c rest := by
  induction names with
  | nil => exact ⟨.app, [], .unmarked (by simp)⟩
  | cons name names ih =>
    obtain ⟨c, rest, h⟩ := ih
    cases h with
    | behind front c hrest => exact ⟨c, rest, .behind (name :: front) c hrest⟩
    | unmarked hnames =>
      by_cases hname : IsMarker name
      · obtain ⟨c, rfl⟩ := isMarker_iff.mp hname
        exact ⟨c, names, .behind [] c hnames⟩
      · exact ⟨.app, name :: names, .unmarked (List.forall_mem_cons.mpr ⟨hname, hnames⟩)⟩

namespace Anchored
variable {names rest : List String} {c : Convention}

theorem markerless (h : Anchored names c rest) : ∀ name ∈ rest, ¬ IsMarker name := by
  cases h with
  | behind front c hrest => exact hrest
  | unmarked hnames => exact hnames

theorem subset (h : Anchored names c rest) : rest ⊆ names := by
  cases h with
  | behind front c hrest => simp
  | unmarked hnames => exact fun _ hname => hname

theorem told_eq (h : Anchored names c rest) : told names = c := by
  have hnone {names : List String} (hnames : ∀ name ∈ names, ¬ IsMarker name) :
      names.reverse.findSome? marked? = none :=
    List.findSome?_eq_none_iff.mpr fun name hname =>
      marked?_of_not_isMarker (hnames name (List.mem_reverse.mp hname))
  cases h with
  | behind front c hrest =>
    rw [told, List.reverse_append, List.reverse_cons, List.append_assoc, List.findSome?_append,
      hnone hrest, Option.none_or, List.singleton_append,
      List.findSome?_cons_of_isSome (by simp [marked?_marker]), marked?_marker]
    rfl
  | unmarked hnames => rw [told, hnone hnames, Option.getD_none]

/-- The convention that is told looks for its marker and finds the anchor. -/
theorem afterMarker_eq (h : Anchored names c rest) : afterMarker c.marker names = rest := by
  have hmarker : IsMarker c.marker := isMarker_iff.mpr ⟨c, rfl⟩
  cases h with
  | behind front c hrest => exact rtakeWhile_append_cons (fun hmem => hrest _ hmem hmarker) front
  | unmarked hnames =>
    refine List.rtakeWhile_eq_self_iff.mpr fun name hname => bne_iff_ne.mpr ?_
    rintro rfl
    exact hnames _ hname hmarker

/-- What stands in front of a marker does not matter. -/
theorem append_left (h : Anchored names c rest) (hmarker : ∃ name ∈ names, IsMarker name)
    (front : List String) : Anchored (front ++ names) c rest := by
  cases h with
  | behind more c hrest =>
    rw [← List.append_assoc]
    exact .behind (front ++ more) c hrest
  | unmarked hnames =>
    obtain ⟨name, hname, hmarker⟩ := hmarker
    exact absurd hmarker (hnames name hname)

end Anchored

/-! ### Route groups and slots -/

/-- The name of a route group, `(group)`, or of a slot, `@slot`. -/
inductive GroupOrSlot : String → Prop where
  | group (name : String) : GroupOrSlot ("(" ++ name ++ ")")
  | slot (name : String) : GroupOrSlot ("@" ++ name)

theorem isGroupOrSlot_iff {name : String} : isGroupOrSlot name = true ↔ GroupOrSlot name := by
  constructor
  · intro h
    rw [isGroupOrSlot, Bool.or_eq_true, Bool.and_eq_true, beq_iff_eq, beq_iff_eq, beq_iff_eq] at h
    rcases h with ⟨hhead, hlast⟩ | hhead
    · obtain ⟨rest, hrest⟩ := List.head?_eq_some_iff.mp hhead
      obtain ⟨init, hinit⟩ := List.getLast?_eq_some_iff.mp hlast
      cases init with
      | nil => rw [hinit] at hrest; cases hrest
      | cons c inner =>
        obtain rfl : c = '(' := by rw [hrest] at hinit; exact (List.cons.inj hinit).1.symm
        have hname : name = "(" ++ String.ofList inner ++ ")" :=
          String.toList_inj.mp (by simp [hinit])
        exact hname ▸ .group _
    · obtain ⟨rest, hrest⟩ := List.head?_eq_some_iff.mp hhead
      have hname : name = "@" ++ String.ofList rest := String.toList_inj.mp (by simp [hrest])
      exact hname ▸ .slot _
  · rintro (name | name)
    · have hlast : ('(' :: (name.toList ++ [')'])).getLast? = some ')' := by
        rw [← List.cons_append, List.getLast?_concat]
      simp [isGroupOrSlot, hlast]
    · simp [isGroupOrSlot]

instance : DecidablePred GroupOrSlot := fun _ => decidable_of_iff _ isGroupOrSlot_iff

theorem hides_iff {c : Convention} {name : String} :
    c.hides name = true ↔ c = .app ∧ GroupOrSlot name := by
  cases c with
  | app => simpa [hides] using isGroupOrSlot_iff
  | pages => simp [hides]

theorem GroupOrSlot.not_isMarker {name : String} (h : GroupOrSlot name) : ¬ IsMarker name := by
  rintro (rfl | rfl) <;> revert h <;> decide

/-- The names that are no route groups or slots. -/
def visible (names : List String) : List String := names.filter (!isGroupOrSlot ·)

theorem told_visible (names : List String) : told (visible names) = told names := by
  -- A group or a slot is asked in vain, so that it makes no difference to leave it out.
  have hmarked : (fun name => if (!isGroupOrSlot name) = true then marked? name else none) =
      marked? := funext fun name => by
    split
    · rfl
    next h =>
      have hhidden : GroupOrSlot name := isGroupOrSlot_iff.mp (by simpa using h)
      exact (marked?_of_not_isMarker hhidden.not_isMarker).symm
  rw [told, told, visible, ← List.filter_reverse, ← List.head?_filterMap, List.filterMap_filter,
    hmarked, List.head?_filterMap]

theorem afterMarker_visible (c : Convention) (names : List String) :
    afterMarker c.marker (visible names) = visible (afterMarker c.marker names) := by
  have hpast : (fun name => !(!isGroupOrSlot name) || name != c.marker) = (· != c.marker) :=
    funext fun name => by
      rw [Bool.not_not, Bool.or_eq_right_iff_imp, bne_iff_ne]
      rintro hhidden rfl
      exact (isGroupOrSlot_iff.mp hhidden).not_isMarker (isMarker_iff.mpr ⟨c, rfl⟩)
  rw [afterMarker, afterMarker, visible, visible, ← List.filter_reverse, List.takeWhile_filter,
    hpast, List.filter_reverse]

/-- The second names are the first ones with route groups and slots put in anywhere. -/
inductive Interspersed : List String → List String → Prop where
  | nil : Interspersed [] []
  | keep (name : String) {names names' : List String} :
      Interspersed names names' → Interspersed (name :: names) (name :: names')
  | insert {name : String} {names names' : List String} :
      GroupOrSlot name → Interspersed names names' → Interspersed names (name :: names')

namespace Interspersed
variable {directory directory' : Path}

theorem visible_eq {names names' : List String} (h : Interspersed names names') :
    visible names' = visible names := by
  induction h with
  | nil => rfl
  | keep name _ ih =>
    rw [visible, visible] at ih ⊢
    rw [List.filter_cons, List.filter_cons, ih]
  | insert hname _ ih =>
    rw [visible, List.filter_cons_of_neg (by simpa using isGroupOrSlot_iff.mpr hname)]
    exact ih

theorem ofDirectory (h : Interspersed directory.names directory'.names) :
    ofDirectory directory' = ofDirectory directory := by
  rw [ofDirectory_eq, ← told_visible, h.visible_eq, told_visible, ← ofDirectory_eq]

theorem routePath (h : Interspersed directory.names directory'.names) :
    app.routePath directory' = app.routePath directory := by
  have hpath (directory : Path) : app.routePath directory =
      "/" ++ "/".intercalate (afterMarker app.marker (visible directory.names)) := by
    rw [afterMarker_visible]
    rfl
  rw [hpath, hpath, h.visible_eq]

end Interspersed

/-! ### Route paths -/

variable {directory : Path} {rest : List String} {c : Convention}

theorem Anchored.routePath_eq (h : Anchored directory.names c rest) :
    c.routePath directory =
      "/" ++ "/".intercalate (rest.filter fun name => ¬ (c = .app ∧ GroupOrSlot name)) := by
  have hshown : (fun name => !c.hides name) =
      fun name => decide ¬ (c = .app ∧ GroupOrSlot name) := funext fun name => by
    rw [Bool.eq_iff_iff, decide_eq_true_iff, ← hides_iff, Bool.not_eq_true', Bool.not_eq_true]
  rw [Convention.routePath, h.afterMarker_eq, hshown]

/-- What a path is joined to comes in front of its names, or is left out. -/
theorem exists_names_join (base directory : Path) :
    ∃ front, (base.join directory).names = front ++ directory.names := by
  by_cases hbase : base.text = ""
  · obtain ⟨text⟩ := base
    obtain rfl : text = "" := hbase
    exact ⟨[], by rw [Path.empty_join, List.nil_append]⟩
  · cases habsolute : directory.isAbsolute with
    | true => exact ⟨[], by rw [Path.join_of_isAbsolute base habsolute, List.nil_append]⟩
    | false => exact ⟨base.names, Path.names_join hbase habsolute⟩

/-- **Detection and the route path agree on the anchor.** The names of every directory are anchored
at its last marker, if it has one. Its route path, under the convention that is told from it, leads
through the names behind the anchor, without route groups and slots if it is the app convention, and
so through no marker. Whatever a directory with a marker is joined to, its convention and its
route path stay. -/
theorem routePath_anchored (directory : Path) :
    ∃ rest, Anchored directory.names (ofDirectory directory) rest ∧
      (let path := (ofDirectory directory).routePath directory
       let shown := rest.filter fun name => ¬ (ofDirectory directory = .app ∧ GroupOrSlot name)
       path = "/" ++ "/".intercalate shown ∧ pathNames path = shown ∧
         ∀ name ∈ pathNames path, name ≠ "app" ∧ name ≠ "pages") ∧
      ((∃ name ∈ directory.names, IsMarker name) → ∀ base : Path,
        ofDirectory (base.join directory) = ofDirectory directory ∧
        (ofDirectory (base.join directory)).routePath (base.join directory) =
          (ofDirectory directory).routePath directory) := by
  obtain ⟨c, rest, h⟩ := exists_anchored directory.names
  obtain rfl : ofDirectory directory = c := h.told_eq
  refine ⟨rest, h, ⟨h.routePath_eq, ?_⟩, fun hmarker base => ?_⟩
  · have hnames : pathNames ((ofDirectory directory).routePath directory) =
        rest.filter fun name => ¬ (ofDirectory directory = .app ∧ GroupOrSlot name) := by
      rw [h.routePath_eq]
      refine pathNames_intercalate fun name hname => ?_
      exact Path.isName_of_mem_names (h.subset (List.mem_filter.mp hname).1)
    refine ⟨hnames, fun name hname => not_or.mp ?_⟩
    rw [hnames] at hname
    exact h.markerless name (List.mem_filter.mp hname).1
  · obtain ⟨front, hfront⟩ := exists_names_join base directory
    have hjoin : Anchored (base.join directory).names (ofDirectory directory) rest :=
      hfront ▸ h.append_left hmarker front
    have htold : ofDirectory (base.join directory) = ofDirectory directory := hjoin.told_eq
    exact ⟨htold, by rw [htold, hjoin.routePath_eq, h.routePath_eq]⟩

/-- The last of several markers counts, and below it a group and a slot are left out. -/
theorem routePath_anchored_nested :
    let directory : Path := ⟨"../app/./pages/app/(shop)/../[id]/@modal"⟩
    ((∃ name ∈ directory.names, IsMarker name) ∧
      (ofDirectory directory).routePath directory = "/[id]") ∧
      ∀ base : Path, ofDirectory (base.join directory) = ofDirectory directory ∧
        (ofDirectory (base.join directory)).routePath (base.join directory) =
          (ofDirectory directory).routePath directory := by
  intro directory
  have hmarker : ∃ name ∈ directory.names, IsMarker name := by decide +kernel
  obtain ⟨-, -, -, hjoin⟩ := routePath_anchored directory
  exact ⟨⟨hmarker, by decide +kernel⟩, hjoin hmarker⟩

end Convention
end RouteScaffold
