import RouteScaffold.Proofs.Path.Components

/-! Taking a base off a path.

What is left behind a base has the components behind those of the base
(`components_of_stripBase?`), and it ends in its file name as it is spelled
(`toList_of_stripBase?`). -/
namespace RouteScaffold.Path
open Text

/-! ### What is left -/

theorem exists_stripBase? {p base : Path} (h : p.startsWith base = true) :
    ∃ q, p.stripBase? base = some q := by
  rw [stripBase?, if_pos h]
  split <;> exact ⟨_, rfl⟩

theorem filterMap_dropParts (n : Nat) (body : List (List Char)) :
    (dropParts n body).filterMap component? = (body.filterMap component?).drop n := by
  fun_induction dropParts n body with
  | case1 => rfl
  | case2 => simp
  | case3 n part body h ih => rw [ih, List.filterMap_cons_none (component?_of_isIdle h)]
  | case4 n part body h ih =>
    rw [ih, List.filterMap_cons_some (component?_of_not_isIdle (by simpa using h))]
    rfl

theorem filterMap_dropIdleEnd (body : List (List Char)) :
    (dropIdleEnd body).filterMap component? = body.filterMap component? := by
  rw [dropIdleEnd, List.filterMap_reverse, filterMap_dropIdle, ← List.filterMap_reverse,
    List.reverse_reverse]

/-- Parts cut down at both ends start with one that counts. -/
theorem head_dropIdleEnd {body : List (List Char)} {first : List Char}
    (hbody : ∀ first ∈ body.head?, isIdle first = false)
    (h : first ∈ (dropIdleEnd body).head?) : isIdle first = false := by
  have hfront : dropIdleEnd body <+: body := by
    simpa [dropIdleEnd] using List.reverse_prefix.mpr (dropIdle_suffix body.reverse)
  obtain ⟨rest, hrest⟩ := hfront
  refine hbody first ?_
  rw [← hrest, List.head?_append, h]
  rfl

theorem subset_dropIdleEnd (body : List (List Char)) : dropIdleEnd body ⊆ body := fun _ h =>
  List.mem_reverse.mp ((dropIdle_suffix body.reverse).subset (List.mem_reverse.mp h))

theorem subset_dropParts (n : Nat) (body : List (List Char)) : dropParts n body ⊆ body := by
  fun_induction dropParts n body with
  | case1 | case2 => exact fun _ h => h
  | case3 n part body h ih => exact fun _ h => List.mem_cons_of_mem part (ih h)
  | case4 n part body h ih => exact fun _ h => List.mem_cons_of_mem part (ih h)

/-- What is left of the body behind its first parts, without idle parts at its ends. -/
def stripped (p : Path) (n : Nat) : List (List Char) :=
  dropIdleEnd (dropIdle (dropParts n p.parts.body))

theorem slashless_of_mem_stripped {p : Path} {n : Nat} {part : List Char}
    (h : part ∈ p.stripped n) : '/' ∉ part :=
  slashless_of_mem_body
    (subset_dropParts n _ ((dropIdle_suffix _).subset (subset_dropIdleEnd _ h)))

theorem proper_stripped (p : Path) (n : Nat) : Parts.Proper ⟨.nothing, p.stripped n⟩ := by
  refine ⟨fun part => slashless_of_mem_stripped, fun _ first h => ?_⟩
  refine head_dropIdleEnd (fun first hfirst => ?_) h
  obtain ⟨rest, hrest⟩ := List.head?_eq_some_iff.mp hfirst
  exact isIdle_of_dropIdle hrest

/-- A path without the idle parts at its end. -/
theorem proper_whole (p : Path) : Parts.Proper ⟨p.parts.lead, dropIdleEnd p.parts.body⟩ := by
  refine ⟨fun _ h => slashless_of_mem_body (subset_dropIdleEnd _ h), fun hlead first hfirst => ?_⟩
  rcases head_body hlead with hempty | hhead
  · rw [hempty] at hfirst
    cases hfirst
  · exact head_dropIdleEnd hhead hfirst

theorem components_stripped {p : Path} (n : Nat) :
    (Parts.toPath ⟨.nothing, p.stripped n⟩).components = p.steps.drop n := by
  rw [components_toPath (p.proper_stripped n)]
  dsimp only
  rw [stripped, filterMap_dropIdleEnd, filterMap_dropIdle, filterMap_dropParts, body_eq]
  rfl

/-- What is left of a path behind a base has the components behind those of the base. -/
theorem components_of_stripBase? {p base q : Path} (h : p.stripBase? base = some q) :
    p.components = base.components ++ q.components := by
  rw [stripBase?] at h
  split at h
  next hstart =>
    obtain ⟨rest, hrest⟩ := List.isPrefixOf_iff_prefix.mp hstart
    suffices hq : q.components = p.components.drop base.components.length by
      rw [hq, ← hrest, List.drop_left]
    have hp : p.components = p.parts.lead.components ++ p.steps := by
      rw [components_eq, lead_eq]
    cases hn : base.components.length with
    | zero =>
      rw [hn] at h
      obtain rfl := Option.some.inj h
      rw [components_toPath p.proper_whole, filterMap_dropIdleEnd, body_eq, List.drop_zero, hp]
    | succ n =>
      rw [hn] at h
      cases hlead : p.parts.lead <;> rw [hlead] at h hp <;> obtain rfl := Option.some.inj h <;>
        exact (components_stripped _).trans (by rw [hp]; rfl)
  next => cases h

/-- What is left of a path behind a base is put together from parts without idle ones at the end. -/
theorem exists_stripped {p base q : Path} (h : p.stripBase? base = some q) :
    ∃ lead body, Parts.Proper ⟨lead, dropIdleEnd body⟩ ∧
      q = Parts.toPath ⟨lead, dropIdleEnd body⟩ := by
  rw [stripBase?] at h
  split at h
  next =>
    cases hn : base.components.length with
    | zero =>
      rw [hn] at h
      exact ⟨_, _, p.proper_whole, (Option.some.inj h).symm⟩
    | succ n =>
      rw [hn] at h
      cases hlead : p.parts.lead <;> rw [hlead] at h <;>
        exact ⟨_, _, p.proper_stripped _, (Option.some.inj h).symm⟩
  next => cases h

/-! ### How it is spelled -/

theorem slashless_of_fileName? {p : Path} {name : String} (h : p.fileName? = some name) :
    '/' ∉ name.toList := by
  rw [fileName?] at h
  cases hlast : dropIdle p.parts.body.reverse with
  | nil =>
    rw [hlast] at h
    cases h
  | cons last before =>
    rw [hlast] at h
    dsimp only at h
    split at h
    · cases h
    · have hmem : last ∈ dropIdle p.parts.body.reverse := hlast ▸ List.mem_cons_self ..
      rw [← Option.some.inj h, String.toList_ofList]
      exact slashless_of_mem_body (List.mem_reverse.mp ((dropIdle_suffix _).subset hmem))

/-- The last part of a path that is put together from parts is its file name, if it counts. -/
theorem eq_of_fileName?_toPath {lead : Lead} {init : List (List Char)} {last : List Char}
    {name : String} (hproper : Parts.Proper ⟨lead, init ++ [last]⟩) (hcounts : isIdle last = false)
    (h : (Parts.toPath ⟨lead, init ++ [last]⟩).fileName? = some name) : last = name.toList := by
  obtain ⟨front, hfront⟩ := fileName?_eq_some_iff.mp h
  rw [components_toPath hproper, List.filterMap_append,
    List.filterMap_cons_some (component?_of_not_isIdle hcounts), List.filterMap_nil,
    ← List.append_assoc] at hfront
  have hlast := (List.append_inj' hfront rfl).2
  split at hlast
  · cases List.head_eq_of_cons_eq hlast
  · rw [← Component.normal.inj (List.head_eq_of_cons_eq hlast), String.toList_ofList]

theorem not_fileName?_of_lead {lead : Lead} {name : String} :
    (Parts.toPath ⟨lead, []⟩).fileName? ≠ some name := by
  cases lead <;> simp [Parts.toPath, fileName?, parts, separate, dropIdle, isIdle]

/-- What is left behind a base ends in its file name as it is spelled. -/
theorem toList_of_stripBase? {p base q : Path} {name : String} (h : p.stripBase? base = some q)
    (hname : q.fileName? = some name) :
    q.text.toList = name.toList ∨ ∃ front, q.text.toList = front ++ '/' :: name.toList := by
  obtain ⟨lead, body, hproper, rfl⟩ := exists_stripped h
  rcases List.eq_nil_or_concat (dropIdleEnd body) with hnil | ⟨init, last, hbody⟩
  · rw [hnil] at hname
    exact absurd hname not_fileName?_of_lead
  · rw [List.concat_eq_append] at hbody
    have hreverse : dropIdle body.reverse = last :: init.reverse := by
      simpa [dropIdleEnd] using congrArg List.reverse hbody
    rw [hbody] at hname hproper ⊢
    obtain rfl := eq_of_fileName?_toPath hproper (isIdle_of_dropIdle hreverse) hname
    have hends := intercalate_concat init name.toList
    rw [Parts.toPath, String.toList_ofList]
    cases lead with
    | nothing => exact hends
    | root =>
      rcases hends with hwhole | ⟨front, hfront⟩
      · exact .inr ⟨[], congrArg ('/' :: ·) hwhole⟩
      · exact .inr ⟨'/' :: front, congrArg ('/' :: ·) hfront⟩
    | current =>
      rcases hends with hwhole | ⟨front, hfront⟩
      · exact .inr ⟨['.'], by simp [hwhole]⟩
      · exact .inr ⟨'.' :: '/' :: front, by simp [hfront]⟩

end RouteScaffold.Path
