import RouteScaffold.FileSystem.Disk
import RouteScaffold.Proofs.Path.Stripped

/-! Paths spelled from names.

A tree is walked by putting names behind a path, one at a time (`descend`), and what lies at some
names from the root has an absolute path spelled by them (`Disk.pathOf`). However the path was
spelled that a walk starts from, what is left of a path behind it is the names with a slash between
them (`stripBase?_descend`). -/
namespace RouteScaffold.Path
open Text

/-- Names with a slash between them. -/
def ofNames (names : List String) : Path := ⟨"/".intercalate names⟩

/-- The path that names lead to from a path. -/
def descend (base : Path) (names : List String) : Path :=
  names.foldl (fun p name => p.join ⟨name⟩) base

theorem descend_append (base : Path) (a b : List String) :
    base.descend (a ++ b) = (base.descend a).descend b := List.foldl_append ..

/-! ### How it is spelled -/

theorem eq_of_sections {p q : Path} (h : p.sections = q.sections) : p = q := by
  have hp := intercalate_separate '/' p.text.toList
  rw [show separate (· == '/') p.text.toList = q.sections from h, sections,
    intercalate_separate] at hp
  exact congrArg Path.mk (String.toList_inj.mp hp.symm)

theorem text_ne_empty_of_components {p : Path} (h : p.components ≠ []) : p.text ≠ "" := by
  obtain ⟨text⟩ := p
  rintro rfl
  exact h (by decide)

theorem text_join_ne_empty (base : Path) {name : String} (h : IsName name) :
    (base.join ⟨name⟩).text ≠ "" :=
  text_ne_empty_of_components (by simp [components_join_name base h])

theorem IsName.toList_ne_nil {name : String} (h : IsName name) : name.toList ≠ [] := by
  intro hnil
  have := h.counts
  rw [hnil] at this
  cases this

theorem components_descend (base : Path) {names : List String} (h : ∀ name ∈ names, IsName name) :
    (base.descend names).components = base.components ++ names.map .normal := by
  induction names generalizing base with
  | nil => simp [descend]
  | cons name names ih =>
    obtain ⟨hname, hnames⟩ := List.forall_mem_cons.mp h
    rw [← List.singleton_append, descend_append, ih _ hnames]
    show (base.join ⟨name⟩).components ++ _ = _
    rw [components_join_name base hname, List.append_assoc]
    rfl

theorem sections_descend {base : Path} (hbase : base.text ≠ "") {names : List String}
    (hne : names ≠ []) (h : ∀ name ∈ names, IsName name) :
    (base.descend names).sections = base.openSections ++ names.map String.toList := by
  induction names generalizing base with
  | nil => exact absurd rfl hne
  | cons name names ih =>
    obtain ⟨hname, hnames⟩ := List.forall_mem_cons.mp h
    have hfirst : (base.join ⟨name⟩).sections = base.openSections ++ [name.toList] := by
      rw [sections_join_eq hbase hname.not_isAbsolute, hname.sections]
    show ((base.join ⟨name⟩).descend names).sections = _
    by_cases hnil : names = []
    · rw [hnil, descend, List.foldl_nil, hfirst]
      rfl
    · have hopen : (base.join ⟨name⟩).openSections = base.openSections ++ [name.toList] := by
        rw [openSections, hfirst, if_neg (by simp [hname.toList_ne_nil])]
      rw [ih (text_join_ne_empty base hname) hnil hnames, hopen, List.append_assoc]
      rfl

/-! ### What is left behind a base -/

theorem stripBase?_congr (p : Path) {base base' : Path} (h : base.components = base'.components) :
    p.stripBase? base = p.stripBase? base' := by
  rw [stripBase?, stripBase?, startsWith, startsWith, h]

theorem dropIdle_dropParts {n : Nat} {front : List (List Char)} (back : List (List Char))
    (h : (front.filterMap component?).length = n) :
    dropIdle (dropParts n (front ++ back)) = dropIdle back := by
  induction front generalizing n with
  | nil =>
    obtain rfl : 0 = n := h
    rw [List.nil_append, dropParts]
  | cons part front ih =>
    cases hpart : isIdle part with
    | true =>
      rw [List.filterMap_cons_none (component?_of_isIdle hpart)] at h
      rw [← ih h, List.cons_append]
      cases n with
      | zero =>
        rw [dropParts, dropParts]
        exact List.dropWhile_cons_of_pos hpart
      | succ n => rw [dropParts, if_pos hpart]
    | false =>
      rw [List.filterMap_cons_some (component?_of_not_isIdle hpart)] at h
      obtain rfl : (front.filterMap component?).length + 1 = n := h
      rw [List.cons_append, dropParts, if_neg (by simp [hpart]), ih rfl]

/-- The body ends in what stands behind the first slashes. -/
theorem exists_body {p : Path} {front back : List (List Char)} (h : p.sections = front ++ back)
    (hfront : front ≠ []) (hback : back ≠ []) :
    ∃ body, p.parts.body = body ++ back ∧
      body.filterMap component? = front.filterMap component? := by
  obtain ⟨first, rest, rfl⟩ := List.exists_cons_of_ne_nil hfront
  rw [parts, show separate (· == '/') p.text.toList = first :: (rest ++ back) from h]
  dsimp only
  by_cases hidle : isIdle first = true
  · refine ⟨rest, ?_, (List.filterMap_cons_none (component?_of_isIdle hidle)).symm⟩
    split
    · rfl
    next hdot =>
      have hempty : first = [] := by simpa [isIdle, hdot] using hidle
      rw [if_pos (by simp [hempty, hback])]
  · refine ⟨first :: rest, ?_, rfl⟩
    simp only [isIdle, Bool.or_eq_true, not_or] at hidle
    rw [if_neg hidle.2, if_neg (by simp [hidle.1])]
    rfl

theorem filterMap_names {names : List String} (h : ∀ name ∈ names, IsName name) :
    (names.map String.toList).filterMap component? = names.map .normal := by
  induction names with
  | nil => rfl
  | cons name names ih =>
    obtain ⟨hname, hnames⟩ := List.forall_mem_cons.mp h
    rw [List.map_cons, List.filterMap_cons_some hname.component?, ih hnames, List.map_cons]

theorem dropIdle_of_forall {body : List (List Char)} (h : ∀ part ∈ body, isIdle part = false) :
    dropIdle body = body := by
  cases body with
  | nil => rfl
  | cons part body =>
    exact List.dropWhile_cons_of_neg (by simp [h part (List.mem_cons_self ..)])

theorem dropIdleEnd_of_forall {body : List (List Char)} (h : ∀ part ∈ body, isIdle part = false) :
    dropIdleEnd body = body := by
  rw [dropIdleEnd, dropIdle_of_forall fun part hpart => h part (List.mem_reverse.mp hpart),
    List.reverse_reverse]

theorem toPath_names (names : List String) :
    Parts.toPath ⟨.nothing, names.map String.toList⟩ = ofNames names := by
  rw [Parts.toPath, ofNames]
  refine congrArg Path.mk (String.toList_inj.mp ?_)
  rw [String.toList_ofList, String.toList_intercalate]
  rfl

theorem idle_of_names {names : List String} (h : ∀ name ∈ names, IsName name) :
    ∀ part ∈ names.map String.toList, isIdle part = false :=
  List.forall_mem_map.mpr fun name hname => (h name hname).counts

theorem components_ofNames {names : List String} (h : ∀ name ∈ names, IsName name) :
    (ofNames names).components = names.map .normal := by
  rw [← toPath_names, components_toPath, filterMap_names h]
  · rfl
  · exact ⟨List.forall_mem_map.mpr fun name hname => (h name hname).slashless,
      fun _ first hfirst => idle_of_names h first (List.mem_of_head? hfirst)⟩

/-- Names behind a path can be put there all at once. -/
theorem join_ofNames {base : Path} (hbase : base.text ≠ "") {names : List String}
    (hne : names ≠ []) (h : ∀ name ∈ names, IsName name) :
    base.join (ofNames names) = base.descend names := by
  have hrelative : (ofNames names).isAbsolute = false := by
    refine not_isAbsolute_of_isStep ?_
    rw [components_ofNames h]
    exact List.forall_mem_map.mpr fun _ _ => rfl
  refine eq_of_sections ?_
  rw [sections_join_eq hbase hrelative, sections_descend hbase hne h, sections, ofNames,
    String.toList_intercalate]
  refine congrArg _ (separate_intercalate (by simpa using hne) ?_)
  exact List.forall_mem_map.mpr fun name hname => (h name hname).slashless

/-- **What is left of names behind a path is the names**, however the path is spelled. -/
theorem stripBase?_descend {base : Path} (hbase : base.text ≠ "") {names : List String}
    (hne : names ≠ []) (h : ∀ name ∈ names, IsName name) :
    (base.descend names).stripBase? base = some (ofNames names) := by
  have hcomponents := components_descend base h
  have hstart : (base.descend names).startsWith base = true := by
    rw [startsWith, List.isPrefixOf_iff_prefix, hcomponents]
    exact List.prefix_append ..
  have hsections := sections_descend hbase hne h
  have hback : names.map String.toList ≠ [] := by simpa using hne
  obtain ⟨body, hbody, hsteps⟩ := exists_body hsections (openSections_ne_nil hbase) hback
  have hidle := idle_of_names h
  -- The lead and the parts in front of the names make up the base.
  have hlength : base.components.length = (base.descend names).parts.lead.components.length +
      (body.filterMap component?).length := by
    have hall : base.components ++ names.map .normal =
        (base.descend names).parts.lead.components ++
          (body.filterMap component? ++ (names.map String.toList).filterMap component?) := by
      rw [← hcomponents, components, hbody, List.filterMap_append]
    have hnames : ((names.map String.toList).filterMap component?).length = names.length := by
      rw [filterMap_names h, List.length_map]
    have := congrArg List.length hall
    simp only [List.length_append, List.length_map, hnames] at this
    omega
  have hpos : base.components.length ≠ 0 := fun hzero =>
    hbase (text_of_components (List.length_eq_zero_iff.mp hzero))
  have hleft (n : Nat) (hn : (body.filterMap component?).length = n) :
      Parts.toPath ⟨.nothing,
        dropIdleEnd (dropIdle (dropParts n (base.descend names).parts.body))⟩ =
          ofNames names := by
    rw [hbody, dropIdle_dropParts _ hn, dropIdle_of_forall hidle, dropIdleEnd_of_forall hidle,
      toPath_names]
  rw [stripBase?, if_pos hstart]
  cases hlead : (base.descend names).parts.lead <;> rw [hlead] at hlength <;>
    cases hcount : base.components.length with
    | zero => exact absurd hcount hpos
    | succ n =>
      dsimp only
      rw [hleft _ (by simp [Lead.components] at hlength; omega)]

/-! ### Paths from the root -/

theorem pathOf_eq_descend {names : List String} (h : ∀ name ∈ names, IsName name) :
    Disk.pathOf names = (⟨"/"⟩ : Path).descend names := by
  by_cases hne : names = []
  · rw [hne]
    rfl
  · rw [← join_ofNames (by decide) hne h, join, if_neg]
    · rfl
    · rw [Bool.not_eq_true]
      refine not_isAbsolute_of_isStep ?_
      rw [components_ofNames h]
      exact List.forall_mem_map.mpr fun _ _ => rfl

theorem pathOf_append {a b : List String} (ha : ∀ name ∈ a, IsName name)
    (hb : ∀ name ∈ b, IsName name) : Disk.pathOf (a ++ b) = (Disk.pathOf a).descend b := by
  rw [pathOf_eq_descend (List.forall_mem_append.mpr ⟨ha, hb⟩), descend_append,
    ← pathOf_eq_descend ha]

theorem components_pathOf {names : List String} (h : ∀ name ∈ names, IsName name) :
    (Disk.pathOf names).components = .root :: names.map .normal := by
  rw [pathOf_eq_descend h, components_descend _ h]
  rfl

theorem text_pathOf_ne_empty (names : List String) : (Disk.pathOf names).text ≠ "" := by
  intro hempty
  have := congrArg String.toList hempty
  rw [Disk.pathOf, String.toList_append] at this
  simp at this

/-- What is left of names behind a directory from the root, in whichever spelling. -/
theorem stripBase?_pathOf {dir rel : List String} {base : Path}
    (hdir : ∀ name ∈ dir, IsName name) (hrel : ∀ name ∈ rel, IsName name) (hne : rel ≠ [])
    (hbase : base.components = (Disk.pathOf dir).components) :
    (Disk.pathOf (dir ++ rel)).stripBase? base = some (ofNames rel) := by
  rw [stripBase?_congr _ hbase, pathOf_append hdir hrel,
    stripBase?_descend (text_pathOf_ne_empty dir) hne hrel]

theorem startsWith_pathOf {dir rel : List String} (hdir : ∀ name ∈ dir, IsName name)
    (hrel : ∀ name ∈ rel, IsName name) :
    (Disk.pathOf (dir ++ rel)).startsWith (Disk.pathOf dir) = true := by
  rw [startsWith, List.isPrefixOf_iff_prefix, pathOf_append hdir hrel, components_descend _ hrel]
  exact List.prefix_append ..

theorem pathOf_injective {a b : List String} (ha : ∀ name ∈ a, IsName name)
    (hb : ∀ name ∈ b, IsName name)
    (h : (Disk.pathOf a).components = (Disk.pathOf b).components) : a = b := by
  rw [components_pathOf ha, components_pathOf hb] at h
  exact (List.map_inj_right fun _ _ => Component.normal.inj).mp (List.cons.inj h).2

theorem parts_pathOf {names : List String} (hne : names ≠ []) (h : ∀ name ∈ names, IsName name) :
    (Disk.pathOf names).parts = ⟨.root, names.map String.toList⟩ := by
  have hback : names.map String.toList ≠ [] := by simpa using hne
  have hsections : (Disk.pathOf names).sections = [] :: names.map String.toList := by
    rw [pathOf_eq_descend h, sections_descend (by decide) hne h]
    rfl
  rw [parts, show separate (· == '/') (Disk.pathOf names).text.toList =
    [] :: names.map String.toList from hsections]
  simp [hne]

theorem parent?_pathOf {names : List String} {name : String} (h : ∀ name ∈ names, IsName name)
    (hname : IsName name) : (Disk.pathOf (names ++ [name])).parent? = some (Disk.pathOf names) := by
  have hall := List.forall_mem_append.mpr ⟨h, List.forall_mem_singleton.mpr hname⟩
  have hidle := idle_of_names h
  rw [parent?, parts_pathOf (by simp) hall, List.map_append, List.reverse_append]
  have hlast : dropIdle ((([name].map String.toList).reverse) ++
      (names.map String.toList).reverse) = name.toList :: (names.map String.toList).reverse :=
    List.dropWhile_cons_of_neg (by simp [hname.counts])
  rw [hlast]
  dsimp only
  rw [dropIdle_of_forall fun part hpart => hidle part (List.mem_reverse.mp hpart),
    List.reverse_reverse, Parts.toPath, Disk.pathOf]
  refine congrArg some (congrArg Path.mk (String.toList_inj.mp ?_))
  rw [String.toList_ofList, String.toList_append, String.toList_intercalate]
  rfl

/-- The paths above one from the root lead to what its names start with. -/
theorem exists_prefix_of_mem_withAncestors {names : List String} (h : ∀ name ∈ names, IsName name)
    {path : Path} (hpath : path ∈ (Disk.pathOf names).withAncestors) :
    ∃ front, front <+: names ∧ path = Disk.pathOf front := by
  rw [withAncestors] at hpath
  generalize (Disk.pathOf names).components.length + 1 = n at hpath
  induction n generalizing names with
  | zero => cases hpath
  | succ n ih =>
    rw [upward] at hpath
    rcases List.mem_cons.mp hpath with rfl | hpath
    · exact ⟨names, List.prefix_rfl, rfl⟩
    · rcases List.eq_nil_or_concat names with rfl | ⟨init, last, rfl⟩
      · have hnone : (Disk.pathOf []).parent? = none := by decide
        rw [hnone] at hpath
        cases hpath
      · rw [List.concat_eq_append] at h hpath ⊢
        obtain ⟨hinit, hlast⟩ := List.forall_mem_append.mp h
        rw [parent?_pathOf hinit (List.forall_mem_singleton.mp hlast)] at hpath
        obtain ⟨front, hfront, hpath⟩ := ih hinit hpath
        exact ⟨front, hfront.trans (List.prefix_append ..), hpath⟩

end RouteScaffold.Path
