import RouteScaffold.Proofs.Path.Absolute

/-! The laws of the order of paths.

Components are ordered by their kind and then by their name, and paths by their
components from the left, so the order of paths is transitive and told by the
components alone (`compare_congr`). What two paths have in common at their front
does not count (`compareComponents_append`). -/
namespace RouteScaffold.Path

instance : Std.TransCmp Component.compare :=
  inferInstanceAs (Std.TransCmp (compareLex (compareOn Component.rank) (compareOn Component.name)))

theorem compareComponents_eq : compareComponents = List.compareLex Component.compare := by
  funext as bs
  induction as generalizing bs with
  | nil => cases bs <;> rfl
  | cons a as ih =>
    cases bs with
    | nil => rfl
    | cons b bs => rw [compareComponents, ih, List.compareLex_cons_cons]

instance : Std.TransCmp compareComponents := by
  rw [compareComponents_eq]
  infer_instance

instance : Std.TransCmp compare where
  eq_swap {p q} := by
    show compareComponents p.components q.components = _
    exact Std.OrientedCmp.eq_swap
  isLE_trans {p q r} hpq hqr := by
    show (compareComponents p.components r.components).isLE
    exact Std.TransCmp.isLE_trans hpq hqr

/-- Two paths have one place in the order exactly if they have the same components. -/
theorem compare_eq_iff {p q : Path} : p.compare q = .eq ↔ p.components = q.components := by
  refine ⟨components_of_compare, fun h => ?_⟩
  rw [compare, h]
  exact Std.ReflCmp.compare_self

theorem same_iff {p q : Path} : p.same q = true ↔ p.components = q.components := beq_iff_eq

theorem same_eq_startsWith (p q : Path) :
    p.same q = (p.startsWith q && q.startsWith p) := by
  rw [Bool.eq_iff_iff, same_iff, Bool.and_eq_true, startsWith, startsWith,
    List.isPrefixOf_iff_prefix, List.isPrefixOf_iff_prefix]
  constructor
  · exact fun h => h ▸ ⟨List.prefix_rfl, List.prefix_rfl⟩
  · exact fun ⟨hq, hp⟩ => hp.eq_of_length_le hq.length_le

/-- Paths that are no one path are not equal in the order. -/
theorem not_same_of_compare {p q : Path} (h : p.compare q ≠ .eq) : p.same q = false := by
  rw [Bool.eq_false_iff, ne_eq, same_iff, ← compare_eq_iff]
  exact h

theorem not_same_of_lt {p q : Path} (h : p.compare q = .lt) : p.same q = false :=
  not_same_of_compare (by rw [h]; decide)

theorem not_same_of_gt {p q : Path} (h : p.compare q = .gt) : p.same q = false :=
  not_same_of_compare (by rw [h]; decide)

theorem same_of_compare {p q : Path} (h : p.compare q = .eq) : p.same q = true :=
  same_iff.mpr (components_of_compare h)

theorem same_comm (p q : Path) : p.same q = q.same p := by
  rw [Bool.eq_iff_iff, same_iff, same_iff, eq_comm]

/-- Two spellings of one path are the same as the same paths. -/
theorem same_congr {p q : Path} (h : p.same q = true) (r : Path) : r.same p = r.same q := by
  rw [same, same_iff.mp h, same]

theorem same_congr_left {p q : Path} (h : p.same q = true) (r : Path) : p.same r = q.same r := by
  rw [same_comm, same_congr h, same_comm]

theorem compare_congr {p p' q q' : Path} (hp : p.components = p'.components)
    (hq : q.components = q'.components) : p.compare q = p'.compare q' := by
  rw [compare, hp, hq, compare]

theorem compareComponents_append (base as bs : List Component) :
    compareComponents (base ++ as) (base ++ bs) = compareComponents as bs := by
  induction base with
  | nil => rfl
  | cons c base ih =>
    have hself : c.compare c = .eq := Std.ReflCmp.compare_self
    rw [List.cons_append, List.cons_append, compareComponents, ih, hself]
    rfl
end RouteScaffold.Path
