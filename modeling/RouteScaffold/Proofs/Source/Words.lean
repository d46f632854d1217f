import Mathlib.Data.Bool.AllAny
import RouteScaffold.Source.Schema

/-! Characters of names, blanks and signs.

The readers tell names, blanks and signs apart by tables, so the three kinds must
not overlap: no blank takes part in a name (`isIdentChar_of_isBlank`,
`isWordChar_of_isBlank`), and neither does a sign (`signs`). From this follows
what a reader does to a name in front of anything that ends it. -/
namespace RouteScaffold.Text

/-- The runs of code points on which the blanks lie. -/
def blankRuns : List (Nat × Nat) :=
  [(0x9, 0xd), (0x20, 0x20), (0x85, 0x85), (0xa0, 0xa0), (0x1680, 0x1680), (0x2000, 0x200a),
   (0x2028, 0x2029), (0x202f, 0x202f), (0x205f, 0x205f), (0x3000, 0x3000)]

theorem exists_mem_blankRuns {c : Char} (h : isBlank c = true) :
    ∃ run ∈ blankRuns, run.1 ≤ c.toNat ∧ c.toNat ≤ run.2 := by
  simp only [isBlank, Bool.or_eq_true, Bool.and_eq_true, decide_eq_true_eq, beq_iff_eq] at h
  simp only [blankRuns, List.mem_cons, List.not_mem_nil, or_false, exists_eq_or_imp,
    exists_eq_left]
  omega

/-- No run meets an interval. The tables are long, so the comparison is the built-in one. -/
def apart (runs intervals : List (Nat × Nat)) : Bool :=
  runs.all fun run => intervals.all fun interval =>
    Nat.blt interval.2 run.1 || Nat.blt run.2 interval.1

theorem within_of_isBlank {intervals : List (Nat × Nat)} (h : apart blankRuns intervals = true)
    {c : Char} (hc : isBlank c = true) : within intervals c = false := by
  obtain ⟨run, hrun, hfirst, hlast⟩ := exists_mem_blankRuns hc
  rw [within, List.any_eq_false]
  intro interval hinterval
  have hapart := List.all_eq_true.mp (List.all_eq_true.mp h run hrun) interval hinterval
  simp only [Bool.or_eq_true, Nat.blt_eq] at hapart
  simp only [Bool.and_eq_true, decide_eq_true_eq]
  omega

theorem isAlphanum_of_isBlank {c : Char} (h : isBlank c = true) : c.isAlphanum = false := by
  obtain ⟨run, hrun, hfirst, hlast⟩ := exists_mem_blankRuns h
  have hbounds : ∀ run ∈ blankRuns, run.2 < 0x30 ∨ 0x7b ≤ run.1 := by decide
  have hrun := hbounds run hrun
  have hval : c.val.toNat = c.toNat := rfl
  change (decide (c.val ≥ 65 ∧ c.val ≤ 90) || (c.val ≥ 97 && c.val ≤ 122) ||
    (c.val ≥ 48 && c.val ≤ 57)) = false
  simp only [ge_iff_le, UInt32.le_iff_toNat_le, hval, Bool.or_eq_false_iff,
    Bool.and_eq_false_iff, decide_eq_false_iff_not, UInt32.reduceToNat]
  omega

/-- No blank is a letter or a number of ASCII or stands in one of the tables. -/
theorem tables_of_isBlank {c : Char} (h : isBlank c = true) :
    (c.isAlphanum = false ∧ c ≠ '_' ∧ c ≠ '$') ∧ within alphabeticIntervals c = false ∧
      within numericIntervals c = false ∧ within wordIntervals c = false := by
  refine ⟨⟨isAlphanum_of_isBlank h, ?_, ?_⟩, within_of_isBlank (by decide +kernel) h,
    within_of_isBlank (by decide +kernel) h, within_of_isBlank (by decide +kernel) h⟩ <;>
  · rintro rfl
    cases h

theorem isWordChar_of_isBlank {c : Char} (h : isBlank c = true) : isWordChar c = false := by
  obtain ⟨hascii, halphabetic, -, hword⟩ := tables_of_isBlank h
  simp [isWordChar, hascii, halphabetic, hword]

theorem isAlpha_of_isBlank {c : Char} (h : isBlank c = true) : c.isAlpha = false := by
  have hascii := (tables_of_isBlank h).1.1
  rw [Char.isAlphanum, Bool.or_eq_false_iff] at hascii
  exact hascii.1

/-- What is not dropped anywhere is not dropped. -/
theorem mem_dropWhile_of_not {α : Type} {p : α → Bool} {cs : List α} {c : α} (h : c ∈ cs)
    (hc : p c = false) : c ∈ cs.dropWhile p := by
  induction cs with
  | nil => exact h
  | cons d cs ih =>
    rw [List.dropWhile_cons]
    split
    next hd =>
      rcases List.mem_cons.mp h with rfl | h
      · rw [hc] at hd
        cases hd
      · exact ih h
    next => exact h

theorem toNat_lt_of_isAlpha {c : Char} (h : c.isAlpha = true) : c.toNat < 0x80 := by
  have hbounds : (decide (c.val ≥ 65 ∧ c.val ≤ 90) || (c.val ≥ 97 && c.val ≤ 122)) = true := h
  simp only [Bool.or_eq_true, Bool.and_eq_true, decide_eq_true_eq, UInt32.le_iff_toNat_le]
    at hbounds
  show c.val.toNat < 0x80
  rcases hbounds with ⟨-, h⟩ | ⟨-, h⟩ <;> exact Nat.lt_of_le_of_lt h (by decide)

end RouteScaffold.Text

namespace RouteScaffold.Source
open Text

theorem isIdentChar_of_isBlank {c : Char} (h : isBlank c = true) : isIdentChar c = false := by
  obtain ⟨hascii, halphabetic, hnumeric, -⟩ := tables_of_isBlank h
  simp [isIdentChar, isAlphanumeric, hascii, halphabetic, hnumeric]

theorem isBlank_of_isIdentChar {c : Char} (h : isIdentChar c = true) : isBlank c = false := by
  cases hb : isBlank c with
  | false => rfl
  | true => rw [isIdentChar_of_isBlank hb] at h; cases h

/-- The signs that the readers look for. -/
def signs : List Char :=
  ['\x22', '\x27', '\x60', '/', '(', ')', '[', ']', '\x7b', '\x7d', ',', ':', '.', '=', ';', '\\']

theorem isIdentChar_of_mem_signs : ∀ c ∈ signs, isIdentChar c = false :=
  List.all_iff_forall_prop.mp (by decide)

theorem isBlank_of_mem_signs : ∀ c ∈ signs, isBlank c = false :=
  List.all_iff_forall_prop.mp (by decide)

theorem mem_signs_of_isQuote {c : Char} (h : isQuote c = true) : c ∈ signs := by
  simp only [isQuote, Bool.or_eq_true, beq_iff_eq, or_assoc] at h
  rcases h with rfl | rfl | rfl <;> decide

theorem isBlank_of_isQuote {c : Char} (h : isQuote c = true) : isBlank c = false :=
  isBlank_of_mem_signs c (mem_signs_of_isQuote h)

end RouteScaffold.Source
