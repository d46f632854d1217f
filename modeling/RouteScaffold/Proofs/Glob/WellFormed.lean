import Mathlib.Data.List.TakeWhile
import RouteScaffold.Glob.Pattern

/-! Which texts are patterns.

A text is no pattern only for its stars and its opening brackets: two stars have to be a
component, three in a row are too many, and a class needs an end. `WellFormed` says this
of what stands behind a character, and the reader accepts exactly these texts
(`isPattern_iff`). -/
namespace RouteScaffold.Glob

/-- What can stand in a pattern behind this character, or at its very start. -/
inductive WellFormed : Option Char → List Char → Prop where
  | nil (before : Option Char) : WellFormed before []
  /-- Two stars that are the last component. -/
  | depthLast {before : Option Char} : (∀ c ∈ before, c = '/') → WellFormed before ['*', '*']
  /-- Two stars that are a component, and what follows it. -/
  | depth {before : Option Char} {rest : List Char} : (∀ c ∈ before, c = '/') →
      WellFormed (some '/') rest → WellFormed before ('*' :: '*' :: '/' :: rest)
  /-- One star. -/
  | run {before : Option Char} {rest : List Char} : rest.head? ≠ some '*' →
      WellFormed (some '*') rest → WellFormed before ('*' :: rest)
  /-- A class, whose first character may be a closing bracket. -/
  | oneOf {before : Option Char} {first : Char} {body rest : List Char} : first ≠ '!' →
      ']' ∉ body → WellFormed (some ']') rest →
      WellFormed before ('[' :: first :: (body ++ ']' :: rest))
  /-- The other characters than those of a class. -/
  | noneOf {before : Option Char} {first : Char} {body rest : List Char} : ']' ∉ body →
      WellFormed (some ']') rest →
      WellFormed before ('[' :: '!' :: first :: (body ++ ']' :: rest))
  | char {before : Option Char} {c : Char} {rest : List Char} : c ≠ '*' → c ≠ '[' →
      WellFormed (some c) rest → WellFormed before (c :: rest)

/-! ### Classes -/

theorem classBody?_append {body : List Char} (h : ']' ∉ body) (first : Char) (rest : List Char) :
    classBody? (first :: (body ++ ']' :: rest)) = some (first :: body, rest) := by
  have hne : ∀ c ∈ body, (c != ']') = true := fun c hc => bne_iff_ne.mpr fun heq => h (heq ▸ hc)
  rw [classBody?, List.dropWhile_append_of_pos hne, List.dropWhile_cons_of_neg (by simp),
    List.takeWhile_append_of_pos hne, List.takeWhile_cons_of_neg (by simp), List.append_nil]

/-- The text of a class ends in front of its closing bracket. -/
theorem eq_of_classBody? {cs body rest : List Char} (h : classBody? cs = some (body, rest)) :
    ∃ first inner, ']' ∉ inner ∧ cs = first :: (inner ++ ']' :: rest) := by
  unfold classBody? at h
  split at h
  next => cases h
  next first more =>
    split at h
    next => cases h
    next c after hdrop =>
      obtain rfl : after = rest := (Prod.mk.inj (Option.some.inj h)).2
      have hinner : ']' ∉ more.takeWhile (· != ']') := fun hmem => by
        simpa using List.mem_takeWhile_imp hmem
      have hc : c = ']' := by
        have hhead := List.head?_dropWhile_not (· != ']') more
        simpa [hdrop] using hhead
      have hmore := List.takeWhile_append_dropWhile (p := (· != ']')) (l := more)
      rw [hdrop, hc] at hmore
      exact ⟨first, _, hinner, by rw [hmore]⟩

/-- A class that is found is written as one. -/
theorem wellFormed_of_class? {before : Option Char} {cs rest : List Char} {token : Token}
    (h : class? cs = some (token, rest)) (hrest : WellFormed (some ']') rest) :
    WellFormed before ('[' :: cs) := by
  unfold class? at h
  split at h
  next more =>
    obtain ⟨⟨body, after⟩, hbody, heq⟩ := Option.map_eq_some_iff.mp h
    obtain rfl : after = rest := (Prod.mk.inj heq).2
    obtain ⟨first, inner, hinner, rfl⟩ := eq_of_classBody? hbody
    exact .noneOf hinner hrest
  next hne =>
    obtain ⟨⟨body, after⟩, hbody, heq⟩ := Option.map_eq_some_iff.mp h
    obtain rfl : after = rest := (Prod.mk.inj heq).2
    obtain ⟨first, inner, hinner, rfl⟩ := eq_of_classBody? hbody
    exact .oneOf (fun hfirst => hne _ (by rw [hfirst])) hinner hrest

/-! ### Reading a pattern -/

theorem any_ne_slash_iff {before : Option Char} :
    ¬ before.any (· != '/') = true ↔ ∀ c ∈ before, c = '/' := by
  cases before <;> simp

/-- What is read to its end is well-formed. -/
theorem wellFormed_of_scan {tokens read : List Token} {position : Nat} {before : Option Char}
    {cs : List Char} (h : scan tokens position before cs = .ok read) : WellFormed before cs := by
  fun_induction scan tokens position before cs with
  | case1 => exact .nil _
  | case2 => cases h
  | case3 => cases h
  | case4 _ _ _ hbefore => exact .depthLast (any_ne_slash_iff.mp hbefore)
  | case5 _ _ _ hbefore c rest hslash _ ih =>
    rw [beq_iff_eq.mp hslash]
    exact .depth (any_ne_slash_iff.mp hbefore) (ih h)
  | case6 => cases h
  | case7 _ _ _ rest _ hsingle ih =>
    refine .run (fun hhead => ?_) (ih h)
    obtain ⟨tail, rfl⟩ := List.head?_eq_some_iff.mp hhead
    exact hsingle tail rfl
  | case8 _ _ _ rest ih => exact .char (by decide) (by decide) (ih h)
  | case9 => cases h
  | case10 _ _ _ rest token after hclass _ ih => exact wellFormed_of_class? hclass (ih h)
  | case11 _ _ _ c rest _ _ hstar _ hbracket ih => exact .char hstar hbracket (ih h)

/-- Behind a class that is found, the reader goes on. -/
theorem scan_class {cs rest : List Char} {token : Token} (h : class? cs = some (token, rest))
    (hrest : ∀ tokens position, ∃ read, scan tokens position (some ']') rest = .ok read)
    (tokens : List Token) (position : Nat) (before : Option Char) :
    ∃ read, scan tokens position before ('[' :: cs) = .ok read := by
  rw [scan]
  split
  next hnone =>
    rw [h] at hnone
    cases hnone
  next found =>
    rw [h] at found
    cases found
    exact hrest _ _

/-- What is well-formed is read to its end. -/
theorem scan_of_wellFormed {before : Option Char} {cs : List Char} (h : WellFormed before cs)
    (tokens : List Token) (position : Nat) :
    ∃ read, scan tokens position before cs = .ok read := by
  induction h generalizing tokens position with
  | nil before => exact ⟨_, by rw [scan]⟩
  | depthLast hbefore =>
    rw [scan, if_neg (any_ne_slash_iff.mpr hbefore)]
    exact ⟨_, by rw [scan]⟩
  | depth hbefore hrest ih =>
    rw [scan, if_neg (any_ne_slash_iff.mpr hbefore)]
    · exact ih _ _
    · simp
  | run hhead hrest ih =>
    rw [scan]
    · exact ih _ _
    all_goals
      rintro tail rfl
      exact hhead rfl
  | @oneOf before first body rest hfirst hbody hrest ih =>
    have hclass : class? (first :: (body ++ ']' :: rest)) =
        some (.oneOf (spans (first :: body)), rest) := by
      rw [class?]
      · rw [classBody?_append hbody]
        rfl
      · exact fun tail heq => hfirst (List.cons.inj heq).1
    exact scan_class hclass ih tokens position before
  | @noneOf before first body rest hbody hrest ih =>
    have hclass : class? ('!' :: first :: (body ++ ']' :: rest)) =
        some (.noneOf (spans (first :: body)), rest) := by
      rw [class?, classBody?_append hbody]
      rfl
    exact scan_class hclass ih tokens position before
  | @char before c rest hstar hbracket hrest ih =>
    by_cases hmark : c = '?'
    · subst hmark
      rw [scan]
      exact ih _ _
    · rw [scan]
      · exact ih _ _
      all_goals simp_all

/-- **A text is a pattern exactly if it is well-formed.** -/
theorem isPattern_iff (text : String) :
    (∃ pattern, Pattern.ofString text = .ok pattern) ↔ WellFormed none text.toList := by
  rw [Pattern.ofString]
  constructor
  · rintro ⟨pattern, h⟩
    cases hscan : scan [] 0 none text.toList with
    | ok tokens => exact wellFormed_of_scan hscan
    | error e =>
      rw [hscan] at h
      cases h
  · intro h
    obtain ⟨tokens, hscan⟩ := scan_of_wellFormed h [] 0
    exact ⟨⟨tokens⟩, by rw [hscan]; rfl⟩

end RouteScaffold.Glob
