import RouteScaffold.Proofs.Source.Readers

/-! Runs of blanks on the masked copy.

What is passed over shows as a run of blanks. A reader of the copy that takes no blank for
anything else passes over a run as a whole, or ends in front of it, so it does not see how long
the run is (`Steady`). The searches for declarations are such readers, for names without
blanks (`steady_declared`). -/
namespace RouteScaffold.Source
open Text

/-- Some columns, all blank. -/
def BlankRun (run : List Cell) : Prop := run ≠ [] ∧ ∀ cell ∈ run, isBlank cell.shown = true

/-- Of `f run`, the columns left of a run between `front` and `rest`: they are the same for all
runs, or hold the run and all behind it. -/
def Holds (front rest : List Cell) (f : List Cell → Option (List Cell)) : Prop :=
  (∃ r, ∀ run, BlankRun run → f run = r) ∨
    ∃ back, back <:+ front ∧ ∀ run, BlankRun run → f run = some (back ++ (run ++ rest))

/-- The reader does not see how long a run of blanks is. -/
def Steady (take? : List Cell → Option (List Cell)) : Prop :=
  ∀ front rest, Holds front rest fun run => take? (front ++ (run ++ rest))

/-! ### What is left -/

section
variable {front rest : List Cell} {f g : List Cell → Option (List Cell)}

theorem Holds.const (r : Option (List Cell)) (h : ∀ run, BlankRun run → f run = r) :
    Holds front rest f := .inl ⟨r, h⟩

theorem Holds.congr (h : Holds front rest f) (heq : ∀ run, BlankRun run → g run = f run) :
    Holds front rest g := by
  rcases h with ⟨r, hr⟩ | ⟨back, hback, hrun⟩
  · exact .inl ⟨r, fun run hblank => (heq run hblank).trans (hr run hblank)⟩
  · exact .inr ⟨back, hback, fun run hblank => (heq run hblank).trans (hrun run hblank)⟩

theorem Holds.mono {front' : List Cell} (h : Holds front rest f) (hfront : front <:+ front') :
    Holds front' rest f :=
  h.imp id fun ⟨back, hback, hrun⟩ => ⟨back, hback.trans hfront, hrun⟩

theorem Holds.bind {take? : List Cell → Option (List Cell)} (h : Holds front rest f)
    (htake : Steady take?) : Holds front rest fun run => (f run).bind take? := by
  rcases h with ⟨r, hr⟩ | ⟨back, hback, hrun⟩
  · exact .const (r.bind take?) fun run hblank => by rw [hr run hblank]
  · exact ((htake back rest).mono hback).congr fun run hblank => by rw [hrun run hblank]; rfl

theorem Holds.orElse (h : Holds front rest f) (h' : Holds front rest g) :
    Holds front rest fun run => f run <|> g run := by
  rcases h with ⟨_ | cells, hr⟩ | ⟨back, hback, hrun⟩
  · exact h'.congr fun run hblank => by rw [hr run hblank]; rfl
  · exact .const (some cells) fun run hblank => by rw [hr run hblank]; rfl
  · exact .inr ⟨back, hback, fun run hblank => by simp only [hrun run hblank]; rfl⟩

end

theorem Steady.bind {first? second? : List Cell → Option (List Cell)} (h : Steady first?)
    (h' : Steady second?) : Steady fun cells => (first? cells).bind second? :=
  fun front rest => (h front rest).bind h'

theorem dropWhile_run {p : Char → Bool} (hp : ∀ c, isBlank c = true → p c = true)
    (front rest : List Cell) : (∃ cells : List Cell, ∀ run, BlankRun run →
      (front ++ (run ++ rest)).dropWhile (p ·.shown) = cells.dropWhile (p ·.shown)) ∨
    ∃ cell back, cell :: back <:+ front ∧ ∀ run, BlankRun run →
      (front ++ (run ++ rest)).dropWhile (p ·.shown) = cell :: back ++ (run ++ rest) := by
  cases hdrop : front.dropWhile (p ·.shown) with
  | nil =>
    refine .inl ⟨rest, fun run hblank => ?_⟩
    rw [List.dropWhile_append, hdrop, List.dropWhile_append_of_pos fun cell hcell =>
      hp _ (hblank.2 cell hcell)]
    rfl
  | cons cell back =>
    refine .inr ⟨cell, back, hdrop ▸ List.dropWhile_suffix _, fun run _ => ?_⟩
    rw [List.dropWhile_append, hdrop]
    rfl

/-- Behind characters that all blanks are among, a reader does not see a run there. -/
theorem Steady.behind {take? : List Cell → Option (List Cell)} (h : Steady take?) {p : Char → Bool}
    (hp : ∀ c, isBlank c = true → p c = true) :
    Steady fun cells => take? (cells.dropWhile (p ·.shown)) := by
  intro front rest
  obtain ⟨cells, hcells⟩ | ⟨cell, back, hback, hdrop⟩ := dropWhile_run hp front rest
  · exact .const _ fun run hblank => congrArg take? (hcells run hblank)
  · exact ((h (cell :: back) rest).mono hback).congr fun run hblank =>
      congrArg take? (hdrop run hblank)

/-! ### Each reader -/

theorem ne_of_isBlank {c d : Char} (hc : isBlank c = true) (hd : isBlank d = false) : c ≠ d := by
  rintro rfl
  rw [hc] at hd
  cases hd

/-- Takes all up to the next `c` off the front, and that. -/
theorem steady_past {c : Char} (hc : isBlank c = false) :
    Steady fun cells => match cells.dropWhile (·.shown != c) with
      | [] => none
      | _ :: rest => some rest := by
  intro front rest
  have hblank (d : Char) (hd : isBlank d = true) : (d != c) = true :=
    bne_iff_ne.mpr (ne_of_isBlank hd hc)
  obtain ⟨cells, hcells⟩ | ⟨cell, back, hback, hdrop⟩ := dropWhile_run hblank front rest
  · exact .const _ fun run hrun => by simp only [hcells run hrun]; rfl
  · exact .inr ⟨back, (List.suffix_cons cell back).trans hback, fun run hrun => by
      simp only [hdrop run hrun, List.cons_append]⟩

theorem steady_word {word : List Char} (hword : ∀ c ∈ word, isBlank c = false) :
    Steady (word? word) := by
  intro front rest
  induction word generalizing front with
  | nil =>
    have hnil (cells : List Cell) : word? [] cells = some cells := by cases cells <;> rfl
    exact .inr ⟨front, List.suffix_refl front, fun run _ => hnil _⟩
  | cons c word ih =>
    obtain ⟨hc, hword⟩ := List.forall_mem_cons.mp hword
    cases front with
    | nil =>
      refine .const none fun run hrun => ?_
      obtain ⟨cell, run, rfl⟩ := List.exists_cons_of_ne_nil hrun.1
      have hne : cell.shown ≠ c := ne_of_isBlank (hrun.2 cell (List.mem_cons_self ..)) hc
      exact if_neg (by simpa using hne)
    | cons cell front =>
      by_cases hshown : (cell.shown == c) = true
      · exact ((ih hword front).mono (List.suffix_cons cell front)).congr fun run _ =>
          if_pos hshown
      · exact .const none fun run _ => if_neg hshown

theorem steady_nextWord {word : List Char} (hword : ∀ c ∈ word, isBlank c = false) :
    Steady (nextWord? word) := (steady_word hword).behind fun _ => id

theorem steady_equals : Steady equals? := by
  have hequalsSign : isBlank '=' = false := isBlank_of_mem_signs '=' (by decide)
  have hcolonSign : isBlank ':' = false := isBlank_of_mem_signs ':' (by decide)
  have hfirst : Steady fun cells => match cells with
      | [] => none
      | cell :: rest =>
        if cell.shown == '=' then some rest
        else if cell.shown == ':' then
          match rest.dropWhile (·.shown != '=') with
          | [] => none
          | _ :: rest => some rest
        else none := by
    intro front rest
    cases front with
    | nil =>
      refine .const none fun run hrun => ?_
      obtain ⟨cell, run, rfl⟩ := List.exists_cons_of_ne_nil hrun.1
      have hblank := hrun.2 cell (List.mem_cons_self ..)
      simp [ne_of_isBlank hblank hequalsSign, ne_of_isBlank hblank hcolonSign]
    | cons cell front =>
      by_cases hequals : (cell.shown == '=') = true
      · exact .inr ⟨front, List.suffix_cons cell front, fun run _ => if_pos hequals⟩
      · by_cases hcolon : (cell.shown == ':') = true
        · refine ((steady_past hequalsSign front rest).mono
            (List.suffix_cons cell front)).congr fun run _ => ?_
          simp only [List.cons_append, if_neg hequals, if_pos hcolon]
        · exact .const none fun run _ => by
            simp only [List.cons_append, if_neg hequals, if_neg hcolon]
  exact hfirst.behind fun _ => id

theorem Opening.steady (opening : Opening) : Steady opening.take? := by
  have hsign {c : Char} (hc : c ∈ signs) : Steady (nextWord? [c]) :=
    steady_nextWord (List.forall_mem_singleton.mpr (isBlank_of_mem_signs c hc))
  have hident : ∀ c ∈ 'z' :: "object".toList, isIdentChar c = true :=
    List.all_eq_true.mp (by decide)
  have hword : Steady (nextWord? ['z']) := steady_nextWord fun c hc =>
    isBlank_of_isIdentChar (hident c (List.mem_cons.mpr (.inl (List.mem_singleton.mp hc))))
  have hobject : Steady (nextWord? "object".toList) := steady_nextWord fun c hc =>
    isBlank_of_isIdentChar (hident c (List.mem_cons_of_mem _ hc))
  cases opening with
  | literal => exact hsign (by decide)
  | schema =>
    exact hword.bind <| (hsign (by decide)).bind <| hobject.bind <|
      (hsign (by decide)).bind (hsign (by decide))

/-! ### A declaration -/

/-- What is read behind the blanks in front of a name. -/
def initializer? (name : List Char) (opening : Opening) (cells : List Cell) : Option (List Cell) :=
  ((word? name cells).bind equals?).bind opening.take?

theorem steady_initializer {name : List Char} (hname : ∀ c ∈ name, isBlank c = false)
    (opening : Opening) : Steady (initializer? name opening) :=
  ((steady_word hname).bind steady_equals).bind opening.steady

theorem named?_blank {name : List Char} {opening : Opening} {cell : Cell}
    (hcell : isBlank cell.shown = true) (cells : List Cell) :
    named? name opening (cell :: cells) =
      (initializer? name opening cells <|> named? name opening cells) := if_pos hcell

/-- In front of a blank there is no initializer, or the one behind it. -/
theorem initializer?_blank {name : List Char} (hname : ∀ c ∈ name, isBlank c = false)
    (opening : Opening) {cell : Cell} (hcell : isBlank cell.shown = true) (cells : List Cell) :
    initializer? name opening (cell :: cells) = none ∨
      initializer? name opening (cell :: cells) = initializer? name opening cells := by
  cases name with
  | nil =>
    have hnil (cells : List Cell) : word? [] cells = some cells := by cases cells <;> rfl
    have hskip : skipBlanks (cell :: cells) = skipBlanks cells :=
      List.dropWhile_cons_of_pos hcell
    have hequals : equals? (cell :: cells) = equals? cells := by rw [equals?, equals?, hskip]
    refine .inr ?_
    rw [initializer?, initializer?, hnil, hnil, Option.bind_some, Option.bind_some, hequals]
  | cons c name =>
    have hne : cell.shown ≠ c := fun heq => by
      rw [heq, hname c (List.mem_cons_self ..)] at hcell
      cases hcell
    have hword : word? (c :: name) (cell :: cells) = none := if_neg (by simpa using hne)
    exact .inl (by rw [initializer?, hword]; rfl)

/-- The blanks in front of a name count as one. -/
theorem named?_run {name : List Char} (hname : ∀ c ∈ name, isBlank c = false) (opening : Opening)
    {run : List Cell} (hrun : BlankRun run) (rest : List Cell) :
    named? name opening (run ++ rest) =
      (initializer? name opening rest <|> named? name opening rest) := by
  obtain ⟨hne, hblank⟩ := hrun
  induction run with
  | nil => exact absurd rfl hne
  | cons cell run ih =>
    obtain ⟨hcell, hblank⟩ := List.forall_mem_cons.mp hblank
    rw [List.cons_append, named?_blank hcell]
    cases run with
    | nil => rfl
    | cons next run =>
      have hnext : isBlank next.shown = true := hblank next (List.mem_cons_self ..)
      rw [ih (by simp) hblank]
      rcases initializer?_blank hname opening hnext (run ++ rest) with hnone | hsame
      · rw [List.cons_append, hnone]
        rfl
      · -- What is found right behind the blank is also what is found from here on.
        rw [← ih (by simp) hblank, List.cons_append, hsame, named?_blank hnext]
        cases initializer? name opening (run ++ rest) <;> rfl

theorem steady_named {name : List Char} (hname : ∀ c ∈ name, isBlank c = false)
    (opening : Opening) : Steady (named? name opening) := by
  intro front rest
  induction front with
  | nil => exact .const _ fun run hrun => named?_run hname opening hrun rest
  | cons cell front ih =>
    by_cases hcell : isBlank cell.shown = true
    · have hhere := (steady_initializer hname opening front rest).orElse ih
      exact (hhere.mono (List.suffix_cons cell front)).congr fun run _ =>
        named?_blank hcell (front ++ (run ++ rest))
    · exact .const none fun run _ => if_neg hcell

theorem Steady.findSome {take? : String → List Cell → Option (List Cell)} {words : List String}
    (h : ∀ word ∈ words, Steady (take? word)) :
    Steady fun cells => words.findSome? (take? · cells) := by
  intro front rest
  induction words with
  | nil => exact .const none fun _ _ => rfl
  | cons word words ih =>
    have hwords := ih fun other hother => h other (List.mem_cons_of_mem word hother)
    refine ((h word (List.mem_cons_self ..) front rest).orElse hwords).congr fun run _ => ?_
    simp only [List.findSome?_cons]
    cases take? word (front ++ (run ++ rest)) <;> rfl

theorem steady_declared {name : List Char} (hname : ∀ c ∈ name, isBlank c = false)
    (opening : Opening) : Steady (declared? name opening) :=
  .findSome fun keyword hkeyword =>
    (steady_word (isBlank_of_mem_keyword keyword hkeyword)).bind (steady_named hname opening)

/-! ### Searching -/

/-- The reader takes nothing that starts with a blank. -/
def Solid (take? : List Cell → Option (List Cell)) : Prop :=
  ∀ cell cells, isBlank cell.shown = true → take? (cell :: cells) = none

theorem solid_word {word : List Char} (hword : ∀ c ∈ word, isBlank c = false) (hne : word ≠ []) :
    Solid (word? word) := by
  intro cell cells hcell
  obtain ⟨c, word, rfl⟩ := List.exists_cons_of_ne_nil hne
  refine if_neg fun heq => ?_
  rw [beq_iff_eq.mp heq, hword c (List.mem_cons_self ..)] at hcell
  cases hcell

theorem Solid.bind {first? second? : List Cell → Option (List Cell)} (h : Solid first?) :
    Solid fun cells => (first? cells).bind second? :=
  fun cell cells hcell => congrArg (·.bind second?) (h cell cells hcell)

theorem solid_declared (name : List Char) (opening : Opening) : Solid (declared? name opening) := by
  intro cell cells hcell
  refine List.findSome?_eq_none_iff.mpr fun keyword hkeyword => ?_
  have hne : keyword.toList ≠ [] := by
    have hall : ∀ keyword ∈ keywords, keyword.toList ≠ [] := by decide
    exact hall keyword hkeyword
  rw [solid_word (isBlank_of_mem_keyword keyword hkeyword) hne cell cells hcell]
  rfl

theorem search_congr {take? : List Cell → Option (List Cell)} {before seen : Option Cell}
    (h : atBoundary before = atBoundary seen) (cells : List Cell) :
    search take? before cells = search take? seen cells := by
  cases cells with
  | nil => rfl
  | cons cell cells => rw [search, search, h]

/-- A search goes past a run of blanks. -/
theorem search_run {take? : List Cell → Option (List Cell)} (h : Solid take?) {run : List Cell}
    (hrun : BlankRun run) (before : Option Cell) (rest : List Cell) :
    search take? before (run ++ rest) = search take? none rest := by
  obtain ⟨hne, hblank⟩ := hrun
  induction run generalizing before with
  | nil => exact absurd rfl hne
  | cons cell run ih =>
    obtain ⟨hcell, hblank⟩ := List.forall_mem_cons.mp hblank
    have hboundary : atBoundary (some cell) = atBoundary none := by
      simp [atBoundary, isWordChar_of_isBlank hcell]
    rw [List.cons_append, search, h cell _ hcell, ite_self]
    show search take? (some cell) (run ++ rest) = _
    cases run with
    | nil => exact search_congr hboundary rest
    | cons next run => exact ih (some cell) (by simp) hblank

theorem steady_search {take? : List Cell → Option (List Cell)} (h : Steady take?)
    (hsolid : Solid take?) (before : Option Cell) : Steady (search take? before) := by
  intro front rest
  induction front generalizing before with
  | nil => exact .const _ fun run hrun => search_run hsolid hrun before rest
  | cons cell front ih =>
    have hhere : Holds (cell :: front) rest fun run =>
        if atBoundary before then take? (cell :: front ++ (run ++ rest)) else none := by
      by_cases hb : atBoundary before = true
      · exact (h (cell :: front) rest).congr fun run _ => if_pos hb
      · exact .const none fun run _ => if_neg hb
    exact hhere.orElse ((ih (some cell)).mono (List.suffix_cons cell front))

/-! ### The arguments of a call -/

theorem any_takeWhile_run {p q : Char → Bool} (hp : ∀ c, isBlank c = true → p c = true)
    (hq : ∀ c, isBlank c = true → q c = false) (front rest : List Cell) {run : List Cell}
    (hrun : ∀ cell ∈ run, isBlank cell.shown = true) :
    ((front ++ (run ++ rest)).takeWhile (p ·.shown)).any (q ·.shown) =
      ((front ++ rest).takeWhile (p ·.shown)).any (q ·.shown) := by
  induction front with
  | nil =>
    have hall : ∀ cell ∈ run, p cell.shown = true := fun cell hcell => hp _ (hrun cell hcell)
    have hnone : run.any (q ·.shown) = false :=
      List.any_eq_false.mpr fun cell hcell => by simp [hq _ (hrun cell hcell)]
    rw [List.nil_append, List.takeWhile_append_of_pos hall, List.any_append, hnone, Bool.false_or,
      List.nil_append]
  | cons cell front ih =>
    simp only [List.cons_append, List.takeWhile_cons]
    split
    next => rw [List.any_cons, List.any_cons, ih]
    next => rfl

theorem steady_toArguments : Steady toArguments? := by
  intro front rest
  have hopening : isBlank '(' = false := isBlank_of_mem_signs '(' (by decide)
  have hround (c : Char) (hc : isBlank c = true) : (c != '(') = true :=
    bne_iff_ne.mpr (ne_of_isBlank hc hopening)
  have hsemicolon (c : Char) (hc : isBlank c = true) : (c == ';') = false :=
    beq_eq_false_iff_ne.mpr (ne_of_isBlank hc (isBlank_of_mem_signs ';' (by decide)))
  have hany {run : List Cell} (hrun : BlankRun run) :=
    any_takeWhile_run (p := (· != '(')) (q := (· == ';')) hround hsemicolon front rest hrun.2
  by_cases hfound : ((front ++ rest).takeWhile (·.shown != '(')).any (·.shown == ';') = true
  · refine .const none fun run hrun => ?_
    rw [toArguments?, hany hrun]
    exact if_pos hfound
  · refine (steady_past hopening front rest).congr fun run hrun => ?_
    rw [toArguments?, hany hrun]
    exact if_neg hfound

end RouteScaffold.Source
