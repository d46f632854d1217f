import RouteScaffold.Path.Basic

/-! Absolute paths and the order of paths.

A path is absolute exactly if its text starts with a slash, so what is within an
absolute path is absolute (`isAbsolute_join`), and an absolute path is not
resolved any further. Paths that are equal in the order of paths have the same
components (`components_of_compare`). -/
namespace RouteScaffold.Path
open Text

theorem isAbsolute_iff (p : Path) : p.isAbsolute = true ↔ p.text.toList.head? = some '/' := by
  rw [isAbsolute, parts]
  cases p.text.toList with
  | nil => simp [separate]
  | cons c cs =>
    rw [separate]
    by_cases hc : c = '/'
    · simp [hc, separate_ne_nil]
    · rw [if_neg (by simpa using hc)]
      cases separate (· == '/') cs <;> simp [hc] <;> split <;> simp

theorem isAbsolute_join {base : Path} (h : base.isAbsolute = true) (p : Path) :
    (base.join p).isAbsolute = true := by
  rw [join]
  split
  next hp => exact hp
  next =>
    have hhead := (isAbsolute_iff base).mp h
    have hfront (tail : String) : (⟨base.text ++ tail⟩ : Path).isAbsolute = true := by
      rw [isAbsolute_iff, String.toList_append, List.head?_append, hhead]
      rfl
    split
    · exact hfront p.text
    · rw [String.append_assoc]
      exact hfront ("/" ++ p.text)

theorem isAbsolute_resolve {base : Path} (h : base.isAbsolute = true) (p : Path) :
    (base.resolve p).isAbsolute = true := by
  rw [resolve]
  split
  next hp => exact hp
  next => exact isAbsolute_join h p

theorem resolve_of_isAbsolute (base : Path) {p : Path} (h : p.isAbsolute = true) :
    base.resolve p = p := if_pos h

/-! ### The order -/

theorem Component.eq_of_compare {a b : Component} (h : a.compare b = .eq) : a = b := by
  rw [Component.compare, Ordering.then_eq_eq] at h
  obtain ⟨hrank, hname⟩ := h
  have hrank : a.rank = b.rank := Nat.compare_eq_eq.mp hrank
  have hname : a.name = b.name := by
    unfold compareOfLessAndEq at hname
    split at hname
    next => cases hname
    next =>
      split at hname
      next heq => exact heq
      next => cases hname
  cases a <;> cases b <;> first | rfl | exact congrArg normal hname | cases hrank

theorem eq_of_compareComponents {a b : List Component} (h : compareComponents a b = .eq) :
    a = b := by
  fun_induction compareComponents a b with
  | case1 => rfl
  | case2 => cases h
  | case3 => cases h
  | case4 a as b bs ih =>
    obtain ⟨hhead, htail⟩ := Ordering.then_eq_eq.mp h
    rw [Component.eq_of_compare hhead, ih htail]

/-- Paths of one place in the order have the same components. -/
theorem components_of_compare {p q : Path} (h : p.compare q = .eq) : p.components = q.components :=
  eq_of_compareComponents h

end RouteScaffold.Path
