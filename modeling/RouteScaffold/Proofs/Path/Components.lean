import RouteScaffold.Proofs.Path.Absolute

/-! Paths and their components.

The operations on paths work on the text between the slashes; here it is said what
they do to the components. A relative path within another one adds its steps
(`components_join`), and a path with a file name lies in its parent under that name
(`exists_parent`). -/
namespace RouteScaffold.Path
open Text

/-! ### Between the slashes -/

theorem separate_append_slash (a b : List Char) :
    separate (· == '/') (a ++ '/' :: b) = separate (· == '/') a ++ separate (· == '/') b :=
  separate_append rfl a b

theorem separate_slashless {part : List Char} (h : '/' ∉ part) :
    separate (· == '/') part = [part] :=
  separate_of_forall fun c hc => by
    rw [beq_eq_false_iff_ne]
    rintro rfl
    exact h hc

/-- What stands between the slashes of a path. -/
def sections (p : Path) : List (List Char) := separate (· == '/') p.text.toList

theorem sections_ne_nil (p : Path) : p.sections ≠ [] := separate_ne_nil _ _

/-- The lead of a path that has these texts between its slashes. -/
def leadOf : List (List Char) → Lead
  | [] => .nothing
  | first :: rest =>
    if first == ['.'] then .current else if first == [] && !rest.isEmpty then .root else .nothing

theorem lead_eq (p : Path) : p.parts.lead = leadOf p.sections := by
  rw [parts, sections]
  cases separate (· == '/') p.text.toList with
  | nil => rfl
  | cons first rest =>
    dsimp only [leadOf]
    split
    · rfl
    · split <;> rfl

/-- The components behind the lead. -/
def steps (p : Path) : List Component := p.sections.filterMap component?

theorem component?_of_isIdle {part : List Char} (h : isIdle part = true) :
    component? part = none := if_pos h

theorem body_eq (p : Path) : p.parts.body.filterMap component? = p.steps := by
  rw [parts, steps, sections]
  cases separate (· == '/') p.text.toList with
  | nil => rfl
  | cons first rest =>
    dsimp only
    split
    next h =>
      rw [List.filterMap_cons_none (component?_of_isIdle (by simp [isIdle, h]))]
    next =>
      split
      next h =>
        rw [List.filterMap_cons_none (component?_of_isIdle (by simp_all [isIdle]))]
      next => rfl

theorem components_eq (p : Path) : p.components = (leadOf p.sections).components ++ p.steps := by
  rw [components, body_eq, lead_eq]

theorem isAbsolute_eq (p : Path) : p.isAbsolute = (leadOf p.sections == .root) := by
  rw [isAbsolute, lead_eq]

/-! ### Joining -/

theorem leadOf_append {a b : List (List Char)} (ha : a ≠ []) (h : a ≠ [[]]) :
    leadOf (a ++ b) = leadOf a := by
  match a with
  | [] => exact absurd rfl ha
  | [first] =>
    have hfirst : first ≠ [] := fun hf => h (by rw [hf])
    simp [leadOf, hfirst]
  | first :: next :: rest => simp [leadOf]

theorem sections_slash (base p : String) :
    (⟨base ++ "/" ++ p⟩ : Path).sections = (⟨base⟩ : Path).sections ++ (⟨p⟩ : Path).sections := by
  rw [sections, String.append_assoc, String.toList_append, String.toList_append]
  exact separate_append_slash _ _

theorem sections_eq_empty {p : Path} (h : p.sections = [[]]) : p.text = "" := by
  have := intercalate_separate '/' p.text.toList
  rw [show separate (· == '/') p.text.toList = [[]] from h] at this
  exact String.toList_eq_nil_iff.mp this.symm


theorem leadOf_append_congr {a b c : List (List Char)} (ha : a ≠ []) (hb : b ≠ []) (hc : c ≠ []) :
    leadOf (a ++ b) = leadOf (a ++ c) := by
  match a, b, c with
  | [], _, _ => exact absurd rfl ha
  | first :: rest, b :: bs, c :: cs => simp [leadOf]

/-- The sections of a path that stay when something is put behind it: all but an empty one at the
end. -/
def openSections (p : Path) : List (List Char) :=
  if p.sections.getLast? = some [] then p.sections.dropLast else p.sections

theorem intercalate_concat (init : List (List Char)) (last : List Char) :
    List.intercalate ['/'] (init ++ [last]) = last ∨
      ∃ front, List.intercalate ['/'] (init ++ [last]) = front ++ '/' :: last := by
  induction init with
  | nil => exact .inl List.intercalate_singleton
  | cons first init ih =>
    refine .inr ?_
    rw [List.cons_append, List.intercalate_cons_of_ne_nil (by simp)]
    rcases ih with hlast | ⟨front, hfront⟩
    · exact ⟨first, by rw [hlast, List.append_assoc]; rfl⟩
    · exact ⟨first ++ '/' :: front, by rw [hfront]; simp⟩

/-- A path that ends in no slash keeps all its sections. -/
theorem openSections_of_not_slash {p : Path} (hne : p.text ≠ "")
    (h : p.text.toList.getLast? ≠ some '/') : p.openSections = p.sections := by
  refine if_neg fun hlast => ?_
  obtain ⟨init, hinit⟩ := List.getLast?_eq_some_iff.mp hlast
  have htext := intercalate_separate '/' p.text.toList
  rw [show separate (· == '/') p.text.toList = init ++ [[]] from hinit] at htext
  rcases intercalate_concat init [] with hempty | ⟨front, hfront⟩
  · exact hne (String.toList_eq_nil_iff.mp (htext.symm.trans hempty))
  · exact h (by rw [← htext, hfront, List.getLast?_concat])

/-- A relative path within one that is not empty stands behind its sections. -/
theorem sections_join_eq {base p : Path} (hbase : base.text ≠ "") (hp : p.isAbsolute = false) :
    (base.join p).sections = base.openSections ++ p.sections := by
  rw [join, if_neg (by simp [hp])]
  by_cases hend : base.text.toList.getLast? = some '/'
  · -- The last slash is there already, and an empty part behind it.
    obtain ⟨front, hfront⟩ := List.getLast?_eq_some_iff.mp hend
    have hpart : base.sections = separate (· == '/') front ++ [[]] := by
      rw [sections, hfront]
      exact separate_append_slash _ _
    rw [if_pos (by simp [hend]), openSections, hpart, if_pos List.getLast?_concat,
      List.dropLast_concat, sections, String.toList_append, hfront, List.append_assoc]
    exact separate_append_slash _ _
  · rw [if_neg (by simp [hbase, hend]), openSections_of_not_slash hbase hend]
    exact sections_slash base.text p.text

theorem filterMap_openSections (p : Path) : p.openSections.filterMap component? = p.steps := by
  rw [openSections, steps]
  split
  next h =>
    obtain ⟨front, hfront⟩ := List.getLast?_eq_some_iff.mp h
    rw [hfront, List.dropLast_concat, List.filterMap_append]
    simp [component?, isIdle]
  next => rfl

theorem openSections_ne_nil {p : Path} (h : p.text ≠ "") : p.openSections ≠ [] := by
  rw [openSections]
  split
  next hlast =>
    obtain ⟨front, hfront⟩ := List.getLast?_eq_some_iff.mp hlast
    rw [hfront, List.dropLast_concat]
    rintro rfl
    exact h (sections_eq_empty hfront)
  next => exact sections_ne_nil p

theorem leadOf_openSections {p : Path} (h : p.text ≠ "") {back : List (List Char)}
    (hback : back ≠ []) : leadOf (p.openSections ++ back) = leadOf p.sections := by
  have hne := openSections_ne_nil h
  rw [openSections] at hne ⊢
  split
  next hlast =>
    obtain ⟨front, hfront⟩ := List.getLast?_eq_some_iff.mp hlast
    rw [if_pos hlast, hfront, List.dropLast_concat] at hne
    rw [hfront, List.dropLast_concat]
    exact leadOf_append_congr hne hback (List.cons_ne_nil _ _)
  next => exact leadOf_append (sections_ne_nil p) fun hempty => h (sections_eq_empty hempty)

/-- A relative path within one that is not empty keeps the lead and adds its steps. -/
theorem sections_join {base p : Path} (hbase : base.text ≠ "") (hp : p.isAbsolute = false) :
    leadOf (base.join p).sections = leadOf base.sections ∧
      (base.join p).steps = base.steps ++ p.steps := by
  have hsections := sections_join_eq hbase hp
  refine ⟨?_, ?_⟩
  · rw [hsections, leadOf_openSections hbase (sections_ne_nil p)]
  · rw [steps, hsections, List.filterMap_append, filterMap_openSections]
    rfl

theorem components_join {base p : Path} (hbase : base.text ≠ "") (hp : p.isAbsolute = false) :
    (base.join p).components = base.components ++ p.steps := by
  obtain ⟨hlead, hsteps⟩ := sections_join hbase hp
  rw [components_eq, hlead, hsteps, components_eq, List.append_assoc]

theorem join_of_isAbsolute (base : Path) {p : Path} (hp : p.isAbsolute = true) :
    base.join p = p := if_pos hp

theorem empty_join {p : Path} : (⟨""⟩ : Path).join p = p := by
  rw [join]
  split
  · rfl
  · rw [if_pos (by simp)]
    simp

/-- What is resolved from a path that is not empty is not empty. -/
theorem text_resolve_ne_empty (base : Path) {p : Path} (h : p.text ≠ "") :
    (base.resolve p).text ≠ "" := by
  have hback (front : String) : front ++ p.text ≠ "" := fun hempty =>
    h (String.append_eq_empty_iff.mp hempty).2
  rw [resolve]
  split
  next => exact h
  next hp =>
    rw [join, if_neg hp]
    split <;> exact hback _

/-- A component that is no lead. -/
def Component.isStep : Component → Bool
  | .root | .current => false
  | .parent | .normal _ => true

theorem isStep_of_mem_steps {p : Path} {c : Component} (h : c ∈ p.steps) : c.isStep = true := by
  obtain ⟨part, -, hpart⟩ := List.mem_filterMap.mp h
  rw [component?] at hpart
  split at hpart
  · cases hpart
  · split at hpart <;> obtain rfl := Option.some.inj hpart <;> rfl

theorem steps_eq_filter (p : Path) : p.steps = p.components.filter Component.isStep := by
  have hsteps : p.steps.filter Component.isStep = p.steps :=
    List.filter_eq_self.mpr fun _ => isStep_of_mem_steps
  rw [components_eq, List.filter_append, hsteps]
  cases leadOf p.sections <;> rfl

theorem isAbsolute_iff_head (p : Path) :
    p.isAbsolute = true ↔ p.components.head? = some .root := by
  rw [isAbsolute_eq, components_eq]
  cases leadOf p.sections with
  | root | current => simp [Lead.components]
  | nothing =>
    have hhead : p.steps.head? ≠ some .root := fun h => by
      have := isStep_of_mem_steps (List.mem_of_head? h)
      cases this
    simpa [Lead.components] using hhead

/-- Spellings of one path lie at one place within another. -/
theorem components_join_congr (base : Path) {p q : Path} (h : p.components = q.components) :
    (base.join p).components = (base.join q).components := by
  have habs : p.isAbsolute = q.isAbsolute := by
    rw [Bool.eq_iff_iff, isAbsolute_iff_head, isAbsolute_iff_head, h]
  cases hp : p.isAbsolute with
  | true => rw [join_of_isAbsolute base hp, join_of_isAbsolute base (habs ▸ hp), h]
  | false =>
    by_cases hbase : base.text = ""
    · obtain ⟨text⟩ := base
      obtain rfl : text = "" := hbase
      rw [empty_join, empty_join, h]
    · rw [components_join hbase hp, components_join hbase (habs ▸ hp), steps_eq_filter,
        steps_eq_filter, h]

/-! ### Components and their spelling -/

/-- Parts that can be put together to a path and be found again in it. -/
structure Parts.Proper (parts : Parts) : Prop where
  slashless : ∀ part ∈ parts.body, '/' ∉ part
  head : parts.lead = .nothing → ∀ first ∈ parts.body.head?, isIdle first = false

theorem separate_intercalate {body : List (List Char)} (hne : body ≠ [])
    (h : ∀ part ∈ body, '/' ∉ part) :
    separate (· == '/') (List.intercalate ['/'] body) = body := by
  induction body with
  | nil => exact absurd rfl hne
  | cons part rest ih =>
    obtain ⟨hpart, hrest⟩ := List.forall_mem_cons.mp h
    cases rest with
    | nil => simpa [List.intercalate] using separate_slashless hpart
    | cons next rest =>
      have hcut : List.intercalate ['/'] (part :: next :: rest) =
          part ++ '/' :: List.intercalate ['/'] (next :: rest) := by
        simp [List.intercalate, List.intersperse]
      rw [hcut, separate_append_slash, ih (List.cons_ne_nil _ _) hrest, separate_slashless hpart]
      rfl

/-- What a lead puts between the slashes in front of the body. -/
def Lead.sections : Lead → List (List Char)
  | .root => [[]]
  | .current => [['.']]
  | .nothing => []

/-- The body is found again between the slashes. -/
theorem sections_toPath {parts : Parts} (h : parts.Proper) (hne : parts.body ≠ []) :
    parts.toPath.sections = parts.lead.sections ++ parts.body := by
  have hbody := separate_intercalate hne h.slashless
  obtain ⟨lead, body⟩ := parts
  rw [sections, Parts.toPath, String.toList_ofList]
  cases lead with
  | root => exact (separate_append_slash [] _).trans (congrArg ([[]] ++ ·) hbody)
  | current =>
    dsimp only at hne ⊢
    rw [if_neg (by simpa using hne)]
    exact (separate_append_slash ['.'] _).trans (congrArg ([['.']] ++ ·) hbody)
  | nothing => exact hbody

theorem components_toPath {parts : Parts} (h : parts.Proper) :
    parts.toPath.components = parts.lead.components ++ parts.body.filterMap component? := by
  by_cases hne : parts.body = []
  · obtain ⟨lead, body⟩ := parts
    obtain rfl : body = [] := hne
    cases lead <;> rfl
  · rw [components_eq, steps, sections_toPath h hne]
    obtain ⟨lead, body⟩ := parts
    obtain ⟨first, rest, rfl⟩ := List.exists_cons_of_ne_nil hne
    cases lead with
    | root => rfl
    | current => rfl
    | nothing =>
      have hfirst : isIdle first = false := h.head rfl first rfl
      have hlead : leadOf (first :: rest) = .nothing := by
        simp only [isIdle, Bool.or_eq_false_iff] at hfirst
        simp [leadOf, hfirst.1, hfirst.2]
      exact congrArg (·.components ++ _) hlead

/-! ### The ends of a path -/

/-- The body is all that stands between the slashes, but for the lead. -/
theorem body_suffix (p : Path) : p.parts.body <:+ p.sections := by
  rw [parts, sections]
  cases separate (· == '/') p.text.toList with
  | nil => exact List.suffix_rfl
  | cons first rest =>
    dsimp only
    split
    · exact List.suffix_cons ..
    · split
      · exact List.suffix_cons ..
      · exact List.suffix_rfl

theorem slashless_of_mem_body {p : Path} {part : List Char} (h : part ∈ p.parts.body) :
    '/' ∉ part := by
  have hsections : part ∈ p.sections := p.body_suffix.subset h
  exact fun hslash => by simpa using not_separator_of_mem_separate hsections '/' hslash

/-- Without a lead, a path starts with a part that counts, or has no other part. -/
theorem head_body {p : Path} (h : p.parts.lead = .nothing) :
    p.parts.body = [[]] ∨ ∀ first ∈ p.parts.body.head?, isIdle first = false := by
  rw [parts] at h ⊢
  cases hcut : separate (· == '/') p.text.toList with
  | nil => simp
  | cons first rest =>
    rw [hcut] at h
    dsimp only at h ⊢
    split at h
    · cases h
    next hdot =>
      split at h
      · cases h
      next hroot =>
        rw [if_neg hdot, if_neg hroot]
        by_cases hfirst : first = []
        · cases rest with
          | nil => exact .inl (by rw [hfirst])
          | cons next rest => simp [hfirst] at hroot
        · exact .inr (by simpa [isIdle, hfirst] using hdot)

theorem dropIdle_suffix (body : List (List Char)) : dropIdle body <:+ body :=
  List.dropWhile_suffix _

theorem isIdle_of_dropIdle {body before : List (List Char)} {last : List Char}
    (h : dropIdle body = last :: before) : isIdle last = false := by
  have := List.head?_dropWhile_not isIdle body
  rw [show body.dropWhile isIdle = last :: before from h] at this
  simpa using this

theorem filterMap_dropIdle (body : List (List Char)) :
    (dropIdle body).filterMap component? = body.filterMap component? := by
  induction body with
  | nil => rfl
  | cons part body ih =>
    rw [dropIdle, List.dropWhile_cons]
    split
    next h => rw [List.filterMap_cons_none (component?_of_isIdle h)]; exact ih
    next => rfl

/-- The component that a part which counts stands for. -/
theorem component?_of_not_isIdle {part : List Char} (h : isIdle part = false) :
    component? part =
      some (if part == ['.', '.'] then .parent else .normal (String.ofList part)) := by
  rw [component?, if_neg (by simp [h])]
  split <;> rfl

/-- The last step of a path, and those before it. -/
theorem steps_of_dropIdle {p : Path} {last : List Char} {before : List (List Char)}
    (h : dropIdle p.parts.body.reverse = last :: before) :
    p.steps = before.reverse.filterMap component? ++
      [if last == ['.', '.'] then .parent else .normal (String.ofList last)] := by
  have hlast := component?_of_not_isIdle (isIdle_of_dropIdle h)
  rw [← body_eq, ← List.reverse_reverse (p.parts.body), List.filterMap_reverse,
    ← filterMap_dropIdle, h, List.filterMap_cons_some hlast, List.reverse_cons,
    List.filterMap_reverse]

theorem steps_of_dropIdle_nil {p : Path} (h : dropIdle p.parts.body.reverse = []) :
    p.steps = [] := by
  rw [← body_eq, ← List.reverse_reverse (p.parts.body), List.filterMap_reverse,
    ← filterMap_dropIdle, h]
  rfl

/-- A path has a file name exactly if its last component is that name. -/
theorem fileName?_eq_some_iff {p : Path} {name : String} :
    p.fileName? = some name ↔ ∃ front, p.components = front ++ [.normal name] := by
  rw [fileName?, components_eq]
  cases hlast : dropIdle p.parts.body.reverse with
  | nil =>
    rw [steps_of_dropIdle_nil hlast, List.append_nil]
    refine ⟨(nomatch ·), ?_⟩
    rintro ⟨front, h⟩
    have hmem : Component.normal name ∈ (leadOf p.sections).components := by simp [h]
    cases hlead : leadOf p.sections <;> rw [hlead] at hmem <;> simp [Lead.components] at hmem
  | cons last before =>
    rw [steps_of_dropIdle hlast, ← List.append_assoc]
    dsimp only
    constructor
    · intro h
      split at h
      · cases h
      next hne =>
        obtain rfl := Option.some.inj h
        exact ⟨_, by rw [if_neg hne]⟩
    · rintro ⟨front, h⟩
      obtain ⟨-, hsame⟩ := List.append_inj' h rfl
      split at hsame
      · cases hsame
      · next hne =>
        rw [if_neg hne]
        simpa using hsame

theorem proper_parent {p : Path} {last : List Char} {before : List (List Char)}
    (h : dropIdle p.parts.body.reverse = last :: before) :
    Parts.Proper ⟨p.parts.lead, (dropIdle before).reverse⟩ := by
  have hbefore : dropIdle before <:+ p.parts.body.reverse := by
    have := dropIdle_suffix p.parts.body.reverse
    rw [h] at this
    exact (dropIdle_suffix before).trans ((List.suffix_cons last before).trans this)
  have hfront : (dropIdle before).reverse <+: p.parts.body := by
    simpa using List.reverse_prefix.mpr hbefore
  refine ⟨fun _ h => slashless_of_mem_body (hfront.subset h), fun hlead first hfirst => ?_⟩
  rcases head_body hlead with hempty | hhead
  · rw [hempty] at h
    cases h
  · obtain ⟨rest, hrest⟩ := hfront
    refine hhead first ?_
    rw [← hrest, List.head?_append, hfirst]
    rfl

/-- A path with a file name lies in its parent under that name. -/
theorem exists_parent {p : Path} {name : String} (h : p.fileName? = some name) :
    ∃ dir, p.parent? = some dir ∧ p.components = dir.components ++ [.normal name] := by
  rw [fileName?] at h
  rw [parent?]
  cases hlast : dropIdle p.parts.body.reverse with
  | nil => rw [hlast] at h; cases h
  | cons last before =>
    rw [hlast] at h
    dsimp only at h
    split at h
    · cases h
    next hne =>
      obtain rfl := Option.some.inj h
      refine ⟨_, rfl, ?_⟩
      have hfront : (dropIdle before).reverse.filterMap component? =
          before.reverse.filterMap component? := by
        rw [List.filterMap_reverse, filterMap_dropIdle, List.filterMap_reverse]
      rw [components_toPath (proper_parent hlast), components_eq, steps_of_dropIdle hlast,
        if_neg hne, hfront, lead_eq, List.append_assoc]

/-- Paths that end alike have the same file name. -/
theorem fileName?_congr {p q : Path} {front : List Component}
    (h : p.components = front ++ q.components) (hne : q.components ≠ []) :
    p.fileName? = q.fileName? := by
  obtain ⟨init, last, hq⟩ := List.eq_nil_or_concat q.components |>.resolve_left hne
  rw [List.concat_eq_append] at hq
  refine Option.ext fun name => ?_
  rw [fileName?_eq_some_iff, fileName?_eq_some_iff, h, hq, ← List.append_assoc]
  constructor
  · rintro ⟨before, heq⟩
    exact ⟨init, by rw [(List.append_inj' heq rfl).2]⟩
  · rintro ⟨before, heq⟩
    exact ⟨front ++ init, by rw [(List.append_inj' heq rfl).2]⟩

/-! ### Names -/

/-- The text names a file or a directory within another one. -/
structure IsName (name : String) : Prop where
  slashless : '/' ∉ name.toList
  counts : isIdle name.toList = false
  notParent : name ≠ ".."

instance (name : String) : Decidable (IsName name) :=
  decidable_of_iff ('/' ∉ name.toList ∧ isIdle name.toList = false ∧ name ≠ "..")
    ⟨fun ⟨hslash, hidle, hparent⟩ => ⟨hslash, hidle, hparent⟩,
      fun h => ⟨h.slashless, h.counts, h.notParent⟩⟩

theorem IsName.sections {name : String} (h : IsName name) :
    (⟨name⟩ : Path).sections = [name.toList] := separate_slashless h.slashless

theorem IsName.component? {name : String} (h : IsName name) :
    Path.component? name.toList = some (.normal name) := by
  have hparent : name.toList ≠ ['.', '.'] := fun hdots => h.notParent (String.toList_inj.mp hdots)
  simp [Path.component?, h.counts, hparent]

theorem IsName.steps {name : String} (h : IsName name) :
    (⟨name⟩ : Path).steps = [.normal name] := by
  rw [Path.steps, h.sections, List.filterMap_cons_some h.component?, List.filterMap_nil]

theorem IsName.not_isAbsolute {name : String} (h : IsName name) :
    (⟨name⟩ : Path).isAbsolute = false := by
  rw [isAbsolute_eq, h.sections, leadOf]
  split <;> simp

theorem text_ne_empty {p : Path} (h : p.isAbsolute = true) : p.text ≠ "" := by
  intro hempty
  rw [isAbsolute_iff, hempty] at h
  cases h

/-- Behind its first component, a path has no lead. -/
theorem isStep_of_components {p : Path} {front rest : List Component}
    (h : p.components = front ++ rest) (hfront : front ≠ []) :
    ∀ c ∈ rest, c.isStep = true := by
  intro c hc
  obtain ⟨first, front, rfl⟩ := List.exists_cons_of_ne_nil hfront
  rw [components_eq, List.cons_append] at h
  refine isStep_of_mem_steps (p := p) ?_
  have hmem : c ∈ front ++ rest := List.mem_append_right _ hc
  cases hlead : leadOf p.sections with
  | root | current =>
    rw [hlead] at h
    have hsteps : p.steps = front ++ rest := (List.cons.inj h).2
    rwa [hsteps]
  | nothing =>
    rw [hlead] at h
    have hsteps : p.steps = first :: (front ++ rest) := h
    rw [hsteps]
    exact List.mem_cons_of_mem first hmem

theorem steps_of_isStep {p : Path} (h : ∀ c ∈ p.components, c.isStep = true) :
    p.steps = p.components := by
  rw [steps_eq_filter]
  exact List.filter_eq_self.mpr h

theorem not_isAbsolute_of_isStep {p : Path} (h : ∀ c ∈ p.components, c.isStep = true) :
    p.isAbsolute = false := by
  rw [Bool.eq_false_iff, ne_eq, isAbsolute_iff_head]
  intro hhead
  have := h _ (List.mem_of_head? hhead)
  cases this

/-- A path without a lead within another one. -/
theorem components_join_steps (base : Path) {p : Path} (h : ∀ c ∈ p.components, c.isStep = true) :
    (base.join p).components = base.components ++ p.components := by
  by_cases hbase : base.text = ""
  · obtain ⟨text⟩ := base
    obtain rfl : text = "" := hbase
    rw [empty_join]
    rfl
  · rw [components_join hbase (not_isAbsolute_of_isStep h), steps_of_isStep h]

theorem IsName.components {name : String} (h : IsName name) :
    (⟨name⟩ : Path).components = [.normal name] := by
  have hlead : leadOf [name.toList] = .nothing := by
    rw [leadOf, if_neg, if_neg (by simp)]
    intro hdot
    have := h.counts
    rw [isIdle, hdot, Bool.or_true] at this
    cases this
  rw [components_eq, h.sections, hlead, h.steps]
  rfl

/-- A name within a path. -/
theorem components_join_name (base : Path) {name : String} (h : IsName name) :
    (base.join ⟨name⟩).components = base.components ++ [.normal name] := by
  rw [components_join_steps, h.components]
  rw [h.components]
  exact List.forall_mem_singleton.mpr rfl

/-- Only the empty path has no component. -/
theorem text_of_components {p : Path} (h : p.components = []) : p.text = "" := by
  rw [components_eq, List.append_eq_nil_iff] at h
  obtain ⟨hlead, hsteps⟩ := h
  refine sections_eq_empty ?_
  have hidle : ∀ part ∈ p.sections, isIdle part = true := by
    intro part hpart
    cases hpartIdle : isIdle part with
    | true => rfl
    | false =>
      have hmem := List.mem_filterMap.mpr ⟨part, hpart, component?_of_not_isIdle hpartIdle⟩
      rw [show p.sections.filterMap component? = [] from hsteps] at hmem
      cases hmem
  cases hcut : p.sections with
  | nil => exact absurd hcut (sections_ne_nil p)
  | cons first rest =>
    rw [hcut] at hlead hidle
    have hfirst := hidle first (List.mem_cons_self ..)
    -- A first part that does not count is a lead, unless nothing follows it.
    rw [leadOf] at hlead
    split at hlead
    · cases hlead
    next hdot =>
      split at hlead
      · cases hlead
      next hroot =>
        have hempty : first = [] := by simpa [isIdle, hdot] using hfirst
        have hrest : rest = [] := by simpa [hempty] using hroot
        rw [hempty, hrest]

/-- What is resolved to the empty path is empty, and so is where it is resolved from. -/
theorem empty_of_resolve {base p : Path} (h : (base.resolve p).components = []) :
    base = ⟨""⟩ ∧ p = ⟨""⟩ := by
  have htext := text_of_components h
  have hp : p.text = "" :=
    Decidable.not_not.mp fun hne => text_resolve_ne_empty base hne htext
  obtain ⟨text⟩ := p
  obtain rfl : text = "" := hp
  obtain ⟨text⟩ := base
  rw [resolve, if_neg (by decide), join, if_neg (by decide)] at htext
  split at htext
  · exact ⟨congrArg Path.mk (String.append_eq_empty_iff.mp htext).1, rfl⟩
  · have := (String.append_eq_empty_iff.mp (String.append_eq_empty_iff.mp htext).1).2
    exact absurd this (by decide)

/-- A path within another one lies below it, wherever that is resolved from. -/
theorem components_resolve_join {base root below : Path}
    (hbelow : (base.resolve root).components ≠ [] → ∀ c ∈ below.components, c.isStep = true) :
    (base.resolve (root.join below)).components =
      (base.resolve root).components ++ below.components := by
  by_cases hempty : (base.resolve root).components = []
  · obtain ⟨rfl, rfl⟩ := empty_of_resolve hempty
    rw [hempty, empty_join, resolve]
    split
    · rfl
    · rw [empty_join]
      rfl
  · have hsteps := hbelow hempty
    have hjoin := components_join_steps root hsteps
    cases hroot : root.isAbsolute with
    | true =>
      have habs : (root.join below).isAbsolute = true := isAbsolute_join hroot below
      rw [resolve_of_isAbsolute base habs, resolve_of_isAbsolute base hroot, hjoin]
    | false =>
      have hrel : (root.join below).isAbsolute = false := by
        rw [Bool.eq_false_iff, ne_eq, isAbsolute_iff_head] at hroot ⊢
        rw [hjoin, List.head?_append, Option.or_eq_some_iff]
        rintro (hhead | ⟨-, hhead⟩)
        · exact hroot hhead
        · exact absurd (hsteps _ (List.mem_of_head? hhead)) (by decide)
      rw [resolve, if_neg (by simp [hrel]), resolve, if_neg (by simp [hroot])]
      by_cases hbase : base.text = ""
      · have hbase : base = ⟨""⟩ := congrArg Path.mk hbase
        rw [hbase, empty_join, empty_join, hjoin]
      · have hkept : below.components.filter Component.isStep = below.components :=
          List.filter_eq_self.mpr hsteps
        rw [components_join hbase hrel, components_join hbase hroot, steps_eq_filter, hjoin,
          List.filter_append, hkept, ← steps_eq_filter, List.append_assoc]

/-! ### The names on a path -/

theorem names_eq (p : Path) : p.names = p.steps.filterMap fun
    | .normal name => some name
    | _ => none := by
  rw [names, components_eq, List.filterMap_append]
  cases leadOf p.sections <;> rfl

theorem isName_of_mem_names {p : Path} {name : String} (h : name ∈ p.names) : IsName name := by
  rw [names_eq, List.mem_filterMap] at h
  obtain ⟨c, hc, hname⟩ := h
  obtain ⟨part, hpart, hcomponent⟩ := List.mem_filterMap.mp hc
  rw [component?] at hcomponent
  split at hcomponent
  · cases hcomponent
  next hcounts =>
    split at hcomponent <;> obtain rfl := Option.some.inj hcomponent
    · cases hname
    next hparent =>
      obtain rfl := Option.some.inj hname
      refine ⟨?_, ?_, fun hdots => hparent ?_⟩
      · rw [String.toList_ofList]
        exact fun hslash => by simpa using not_separator_of_mem_separate hpart '/' hslash
      · simpa using hcounts
      · simpa using congrArg String.toList hdots

theorem names_of_components {p q : Path} (h : p.components = q.steps) : p.names = q.names := by
  rw [names, h]
  exact (names_eq q).symm

theorem names_join {base p : Path} (hbase : base.text ≠ "") (hp : p.isAbsolute = false) :
    (base.join p).names = base.names ++ p.names := by
  rw [names, components_join hbase hp, List.filterMap_append, names_eq p]
  rfl

/-! ### Following a path -/

/-- Where a component leads from a place, going by the components alone. -/
def Component.followedFrom (place : List Component) : Component → List Component
  | .root => [.root]
  | .current => place
  | .parent =>
    match place.getLast? with
    | some (.normal _) => place.dropLast
    | some .root => place
    | _ => place ++ [.parent]
  | .normal name => place ++ [.normal name]

/-- Where a path leads from a place. -/
def followedFrom (place : List Component) (p : Path) : List Component :=
  p.components.foldl Component.followedFrom place

/-- Out of a directory and into another one. -/
theorem followedFrom_above (place : List Component) (dir : String) {name : String}
    (h : IsName name) :
    followedFrom (place ++ [.normal dir]) ⟨"../" ++ name⟩ = place ++ [.normal name] := by
  have hjoin : (⟨"../" ++ name⟩ : Path) = join ⟨".."⟩ ⟨name⟩ := by
    have hslash : ".." ++ "/" = "../" := rfl
    rw [join, if_neg (by simp [h.not_isAbsolute]), if_neg (by decide), hslash]
  have hparent : (⟨".."⟩ : Path).components = [.parent] := by decide
  rw [followedFrom, hjoin, components_join_name _ h, hparent]
  simp [Component.followedFrom]

end RouteScaffold.Path
