import RouteScaffold.Text.LetterCase

/-! What the upper-case form of a character can be.

A form is told by one of four rules (`UpperForm`): the one of ASCII, a spelling, a shift, or
none, and then the character is its own. The runs of the upper-case characters meet neither
those of the lower-case ones nor any character that a rule changes (`apartRuns`), so an
upper-case character is not a lower-case one (`isLower_of_isUpper`) and stays as it is
(`upper_of_isUpper`). Of ASCII a form brings in capitals only (`eq_of_mem_upper`). -/
namespace RouteScaffold.Text

/-! ### Runs without a common character -/

/-- Whether the characters of a run are all even or all odd. -/
def keepsParity : Nat × Nat × Nat → Bool
  | (first, last, step) => Nat.beq (step % 2) 0 || Nat.beq first last

/-- Each run of one table and each of the other lie one behind the other, or the first is even
and the second odd or the other way about: in most alphabets the two cases alternate. The tables
are long, so the comparison is the built-in one. -/
def apartRuns (xs ys : List (Nat × Nat × Nat)) : Bool :=
  xs.all fun x => ys.all fun y =>
    Nat.blt x.2.1 y.1 || Nat.blt y.2.1 x.1 ||
      (keepsParity x && keepsParity y && !Nat.beq (x.1 % 2) (y.1 % 2))

theorem mod_two_of_onRun {run : Nat × Nat × Nat} (hparity : keepsParity run = true) {c : Char}
    (hc : onRun run.1 run.2.1 run.2.2 c = true) : c.toNat % 2 = run.1 % 2 := by
  obtain ⟨first, last, step⟩ := run
  simp only [onRun, Bool.and_eq_true, decide_eq_true_eq, beq_iff_eq] at hc
  simp only [keepsParity, Bool.or_eq_true, Nat.beq_eq] at hparity
  obtain ⟨⟨hfirst, hlast⟩, hstep⟩ := hc
  rcases hparity with heven | hsingle
  · have htwo : 2 ∣ c.toNat - first :=
      Nat.dvd_trans (Nat.dvd_of_mod_eq_zero heven) (Nat.dvd_of_mod_eq_zero hstep)
    omega
  · rw [Nat.le_antisymm (hsingle ▸ hlast) hfirst]

theorem onRuns_eq_true_iff {runs : List (Nat × Nat × Nat)} {c : Char} :
    onRuns runs c = true ↔ ∃ run ∈ runs, onRun run.1 run.2.1 run.2.2 c = true :=
  List.any_eq_true

theorem onRuns_eq_false {xs ys : List (Nat × Nat × Nat)} (h : apartRuns xs ys = true) {c : Char}
    (hc : onRuns xs c = true) : onRuns ys c = false := by
  obtain ⟨x, hx, hcx⟩ := onRuns_eq_true_iff.mp hc
  rw [← Bool.not_eq_true, onRuns_eq_true_iff]
  rintro ⟨y, hy, hcy⟩
  have hapart := List.all_eq_true.mp (List.all_eq_true.mp h x hx) y hy
  simp only [Bool.or_eq_true, Bool.and_eq_true, Nat.blt_eq] at hapart
  rcases hapart with hbounds | ⟨⟨hparityX, hparityY⟩, hne⟩
  · simp only [onRun, Bool.and_eq_true, decide_eq_true_eq] at hcx hcy
    omega
  · have heq := (mod_two_of_onRun hparityX hcx).symm.trans (mod_two_of_onRun hparityY hcy)
    simp [heq] at hne

theorem forall_ascii {P : Char → Prop} (h : ∀ n < 0x80, P (Char.ofNat n)) (c : Char)
    (hc : c.toNat < 0x80) : P c := by
  have hchar := h c.toNat hc
  rwa [Char.ofNat_toNat] at hchar

/-! ### The rules for an upper-case form -/

/-- The upper-case form of a character, by the rule that tells it. -/
inductive UpperForm (c : Char) : List Char → Prop where
  | ascii (h : c.toNat < 0x80) : UpperForm c [c.toUpper]
  | spelled {spelling : List Nat} (h : (c.toNat, spelling) ∈ upperSpellings) :
      UpperForm c (spelling.map Char.ofNat)
  | shifted {first last step : Nat} {shift : Int} (h : (first, last, step, shift) ∈ upperShifts)
      (hrun : onRun first last step c = true) :
      UpperForm c [Char.ofNat ((c.toNat : Int) + shift).toNat]
  | itself : UpperForm c [c]

theorem upperForm (c : Char) : UpperForm c (upper c) := by
  rw [upper]
  split
  next h => exact .ascii h
  next =>
    rw [mapped]
    split
    next spelling hspelling =>
      obtain ⟨front, back, htable, -⟩ := List.lookup_eq_some_iff.mp hspelling
      exact .spelled (by simp [htable])
    next =>
      split
      next first last step shift hfound =>
        have hrun := List.find?_some hfound
        exact .shifted (List.mem_of_find?_eq_some hfound) hrun
      next => exact .itself

/-- The characters past ASCII that have another form, as runs. -/
def changedRuns : List (Nat × Nat × Nat) :=
  upperShifts.map (fun (first, last, step, _) => (first, last, step)) ++
    upperSpellings.map fun (code, _) => (code, code, 1)

theorem onRuns_changedRuns_of_shift {first last step : Nat} {shift : Int}
    (h : (first, last, step, shift) ∈ upperShifts) {c : Char}
    (hrun : onRun first last step c = true) : onRuns changedRuns c = true :=
  onRuns_eq_true_iff.mpr ⟨(first, last, step),
    List.mem_append_left _ (List.mem_map.mpr ⟨_, h, rfl⟩), hrun⟩

theorem onRuns_changedRuns_of_spelling {c : Char} {spelling : List Nat}
    (h : (c.toNat, spelling) ∈ upperSpellings) : onRuns changedRuns c = true :=
  onRuns_eq_true_iff.mpr ⟨(c.toNat, c.toNat, 1),
    List.mem_append_right _ (List.mem_map.mpr ⟨_, h, rfl⟩), by simp [onRun]⟩

/-! ### Upper-case characters -/

theorem isLower_of_isUpper {c : Char} (h : isUpper c = true) : isLower c = false := by
  rw [isUpper] at h
  rw [isLower]
  split at h
  next hascii =>
    have hcase : ∀ c : Char, c.toNat < 0x80 → c.isUpper = true → c.isLower = false :=
      forall_ascii (by decide +kernel)
    rw [if_pos hascii, hcase c hascii h]
  next hother =>
    rw [if_neg hother]
    exact onRuns_eq_false (by decide +kernel) h

/-- An upper-case character is its own upper-case form. -/
theorem upper_of_isUpper {c : Char} (h : isUpper c = true) : upper c = [c] := by
  have hapart : apartRuns uppercaseRuns changedRuns = true := by decide +kernel
  rw [isUpper] at h
  split at h
  next hascii =>
    have hcase : ∀ c : Char, c.toNat < 0x80 → c.isUpper = true → c.toUpper = c :=
      forall_ascii (by decide +kernel)
    rw [upper, if_pos hascii, hcase c hascii h]
  next hother =>
    have hunchanged := onRuns_eq_false hapart h
    have hform := upperForm c
    generalize upper c = form at hform
    cases hform with
    | ascii hascii => exact absurd hascii hother
    | spelled hspelling =>
      rw [onRuns_changedRuns_of_spelling hspelling] at hunchanged
      cases hunchanged
    | shifted hshift hrun =>
      rw [onRuns_changedRuns_of_shift hshift hrun] at hunchanged
      cases hunchanged
    | itself => rfl

/-! ### The characters of a form -/

theorem upper_ne_nil (c : Char) : upper c ≠ [] := by
  have hform := upperForm c
  generalize upper c = form at hform
  cases hform with
  | spelled h =>
    have hall : ∀ entry ∈ upperSpellings, entry.2 ≠ [] := by decide
    simpa using hall _ h
  | _ => exact List.cons_ne_nil _ _

theorem toNat_of_eq_ofNat {b : Char} (hb : 0 < b.toNat) {n : Nat} (h : b = Char.ofNat n) :
    b.toNat = n := by
  rw [h, Char.ofNat] at hb ⊢
  by_cases hvalid : n.isValidChar
  · rw [dif_pos hvalid]
    rfl
  · rw [dif_neg hvalid] at hb
    cases hb

/-- Of ASCII, only capitals stand in the upper-case form of another character. -/
theorem eq_of_mem_upper {b c : Char} (hzero : 0 < b.toNat) (hascii : b.toNat < 0x80)
    (hcapital : b.toNat < 0x41 ∨ 0x5a < b.toNat) (h : b ∈ upper c) : b = c := by
  have hform := upperForm c
  generalize upper c = form at hform h
  cases hform with
  | ascii hc =>
    have hcase : ∀ c : Char, c.toNat < 0x80 →
        c.toUpper = c ∨ (0x41 ≤ c.toUpper.toNat ∧ c.toUpper.toNat ≤ 0x5a) :=
      forall_ascii (by decide +kernel)
    have hc := hcase c hc
    rw [← List.mem_singleton.mp h] at hc
    rcases hc with hsame | hbounds
    · exact hsame
    · omega
  | spelled hspelling =>
    have hall : ∀ entry ∈ upperSpellings, ∀ n ∈ entry.2,
        0x80 ≤ n ∨ (0x41 ≤ n ∧ n ≤ 0x5a) := by
      decide +kernel
    obtain ⟨n, hn, heq⟩ := List.mem_map.mp h
    have hspelled := hall _ hspelling n hn
    have := toNat_of_eq_ofNat hzero heq.symm
    omega
  | @shifted first last step shift hshift hrun =>
    have hall : ∀ entry ∈ upperShifts, 0x80 ≤ (entry.1 : Int) + entry.2.2.2 ∨
        (0x41 ≤ (entry.1 : Int) + entry.2.2.2 ∧ (entry.2.1 : Int) + entry.2.2.2 ≤ 0x5a) := by
      decide +kernel
    have hentry := hall _ hshift
    have := toNat_of_eq_ofNat hzero (List.mem_singleton.mp h)
    simp only [onRun, Bool.and_eq_true, decide_eq_true_iff] at hrun
    dsimp only at hentry
    omega
  | itself => exact List.mem_singleton.mp h

end RouteScaffold.Text
