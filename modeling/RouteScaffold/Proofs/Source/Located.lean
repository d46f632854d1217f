import RouteScaffold.Proofs.Source.Readers

/-! Where a declaration is found.

What stands behind the brace of a declaration does not count for where it is found
(`search_declared`): on its way to the brace the search passes an equals sign, and no attempt that
starts in front of that sign reads past the brace (`Halts`). -/
namespace RouteScaffold.Source
open Text

/-- In front of the brace the reader comes to the same as at the end of the columns, whatever stands
behind the brace, or it takes all up to the brace, and that. -/
def Halts (brace : Cell) (take? : List Cell → Option (List Cell)) (front : List Cell) : Prop :=
  (∀ rest, take? (front ++ brace :: rest) = (take? front).map (· ++ brace :: rest)) ∨
    ∀ rest, take? (front ++ brace :: rest) = some rest

/-- The reader takes no brace. -/
def Spares (brace : Cell) (take? : List Cell → Option (List Cell)) : Prop :=
  ∀ front rest, take? (front ++ brace :: rest) = (take? front).map (· ++ brace :: rest)

/-- The name holds no sign that ends the search for what it is given, as no identifier does. -/
structure Bindable (name : List Char) : Prop where
  equals : '=' ∉ name
  brace : '\x7b' ∉ name

/-! ### Passing an equals sign -/

theorem mem_of_word? {word : List Char} {cells rest : List Cell} (h : word? word cells = some rest)
    (hword : '=' ∉ word) (hmem : '=' ∈ shown cells) : '=' ∈ shown rest := by
  rw [shown_of_word? h, List.mem_append] at hmem
  exact hmem.resolve_left hword

theorem Takes.followed {c : Char} {first? second? : List Cell → Option (List Cell)}
    (h₁ : Takes (c ∈ ·) first?) (h₂ : Blind second?) :
    Takes (c ∈ ·) fun cells => (first? cells).bind second? := by
  intro cells rest hrest
  obtain ⟨behind, hfirst, hsecond⟩ := Option.bind_eq_some_iff.mp hrest
  obtain ⟨front, taken, rfl, hc⟩ := h₁ _ _ hfirst
  obtain ⟨count, hcount, -⟩ := h₂ behind behind rfl
  obtain ⟨n, -, rfl⟩ := Option.map_eq_some_iff.mp (hcount.symm.trans hsecond)
  refine ⟨front, taken ++ behind.take n, ?_, ?_⟩
  · rw [List.append_assoc, List.take_append_drop]
  · rw [shown_append]
    exact List.mem_append_left _ hc

theorem lands_equals : Lands '=' equals? := by
  intro cells rest h
  have hcells : cells.takeWhile (isBlank ·.shown) ++ skipBlanks cells = cells :=
    List.takeWhile_append_dropWhile
  unfold equals? at h
  split at h
  next => cases h
  next cell more hskip =>
    rw [hskip] at hcells
    split at h
    next hc => exact ⟨_, cell, by rw [← hcells, Option.some.inj h], beq_iff_eq.mp hc⟩
    next =>
      split at h
      next =>
        split at h
        next => cases h
        next found behind hdrop =>
          have hfound := List.head?_dropWhile_not (·.shown != '=') more
          rw [hdrop] at hfound
          refine ⟨cells.takeWhile (isBlank ·.shown) ++ cell :: more.takeWhile (·.shown != '='),
            found, ?_, by simpa using hfound⟩
          rw [← Option.some.inj h, List.append_assoc, List.cons_append, ← hdrop,
            List.takeWhile_append_dropWhile, hcells]
      next => cases h

/-- Where a declaration is found, an equals sign was passed. -/
theorem takes_equals (name : List Char) (opening : Opening) :
    Takes ('=' ∈ ·) (declared? name opening) := by
  refine takes_declared (.followed (.bind (blind_word name) fun cells rest h => ?_) opening.blind)
  obtain ⟨front, cell, hcells, hc⟩ := lands_equals cells rest h
  exact ⟨front, [cell], hcells, by simp [shown, hc]⟩

section
variable {brace : Cell}

/-! ### Each reader -/

theorem Spares.bind {first? second? : List Cell → Option (List Cell)} (h : Spares brace first?)
    {front : List Cell} (h' : ∀ behind ∈ first? front, Halts brace second? behind) :
    Halts brace (fun cells => (first? cells).bind second?) front := by
  cases hfirst : first? front with
  | none => exact .inl fun rest => by simp only [h front rest, hfirst]; rfl
  | some behind =>
    exact (h' behind hfirst).imp
      (fun hsecond rest => by simp only [h front rest, hfirst]; exact hsecond rest)
      fun hsecond rest => by simp only [h front rest, hfirst]; exact hsecond rest

theorem Halts.orElse {first? second? : List Cell → Option (List Cell)} {front : List Cell}
    (h : Halts brace first? front) (h' : Halts brace second? front) :
    Halts brace (fun cells => first? cells <|> second? cells) front := by
  rcases h with h | h
  · cases hfirst : first? front with
    | none =>
      simp only [hfirst, Option.map_none] at h
      refine h'.imp (fun hsecond rest => ?_) fun hsecond rest => ?_
      · simp only [h rest, hfirst]
        exact hsecond rest
      · simp only [h rest]
        exact hsecond rest
    | some behind => exact .inl fun rest => by simp only [h rest, hfirst]; rfl
  · exact .inr fun rest => by simp only [h rest]; rfl

theorem Halts.findSome {take? : String → List Cell → Option (List Cell)} {words : List String}
    {front : List Cell} (h : ∀ word ∈ words, Halts brace (take? word) front) :
    Halts brace (fun cells => words.findSome? (take? · cells)) front := by
  induction words with
  | nil => exact .inl fun _ => rfl
  | cons word words ih =>
    have hwords := ih fun other hother => h other (List.mem_cons_of_mem word hother)
    have hboth := (h word (List.mem_cons_self ..)).orElse hwords
    have heq : (fun cells => (word :: words).findSome? (take? · cells)) =
        fun cells => take? word cells <|> words.findSome? (take? · cells) := by
      funext cells
      rw [List.findSome?_cons]
      cases take? word cells <;> rfl
    rwa [heq]

theorem spares_word {word : List Char} (h : brace.shown ∉ word) : Spares brace (word? word) := by
  intro front rest
  induction word generalizing front with
  | nil =>
    have hnil (cells : List Cell) : word? [] cells = some cells := by cases cells <;> rfl
    rw [hnil, hnil]
    rfl
  | cons c word ih =>
    obtain ⟨hc, hword⟩ := not_or.mp (mt List.mem_cons.mpr h)
    cases front with
    | nil => exact if_neg (by simpa using hc)
    | cons cell front =>
      rw [List.cons_append, word?, word?, ih hword]
      split <;> rfl

theorem skipBlanks_brace (hbrace : isBlank brace.shown = false) (front rest : List Cell) :
    skipBlanks (front ++ brace :: rest) = skipBlanks front ++ brace :: rest := by
  rw [skipBlanks, skipBlanks, List.dropWhile_append]
  split
  next hnil => rw [List.isEmpty_iff.mp hnil, List.dropWhile_cons_of_neg (by simp [hbrace])]; rfl
  next => rfl

theorem spares_nextWord (hbrace : isBlank brace.shown = false) {word : List Char}
    (h : brace.shown ∉ word) : Spares brace (nextWord? word) := fun front rest => by
  rw [nextWord?, skipBlanks_brace hbrace, spares_word h]
  rfl

theorem exists_dropWhile_equals {front : List Cell} (h : '=' ∈ shown front) :
    ∃ cell more, ∀ rest, (front ++ rest).dropWhile (·.shown != '=') = cell :: more ++ rest := by
  induction front with
  | nil => cases h
  | cons cell front ih =>
    by_cases hcell : cell.shown = '='
    · exact ⟨cell, front, fun rest => List.dropWhile_cons_of_neg (by simp [hcell])⟩
    · obtain ⟨found, more, hdrop⟩ := ih ((List.mem_cons.mp h).resolve_left (Ne.symm hcell))
      refine ⟨found, more, fun rest => ?_⟩
      rw [List.cons_append, List.dropWhile_cons_of_pos (by simpa using hcell), hdrop]

end

/-! ### To the brace -/

section
variable {brace : Cell} (hbrace : brace.shown = '\x7b')
include hbrace

theorem isBlank_brace : isBlank brace.shown = false := by
  rw [hbrace]
  decide

/-- The brace itself is taken, or an earlier one. -/
theorem halts_brace (front : List Cell) : Halts brace (nextWord? ['\x7b']) front := by
  have hskip := skipBlanks_brace (isBlank_brace hbrace) front
  have hnil (cells : List Cell) : word? [] cells = some cells := by cases cells <;> rfl
  cases hfront : skipBlanks front with
  | nil =>
    refine .inr fun rest => ?_
    rw [nextWord?, hskip, hfront, List.nil_append, word?, if_pos (beq_iff_eq.mpr hbrace), hnil]
  | cons cell more =>
    refine .inl fun rest => ?_
    rw [nextWord?, nextWord?, hskip, hfront, List.cons_append]
    simp only [word?]
    split <;> rfl

theorem Opening.halts (opening : Opening) (front : List Cell) :
    Halts brace opening.take? front := by
  have hblank := isBlank_brace hbrace
  have hspares {word : List Char} (h : '\x7b' ∉ word) : Spares brace (nextWord? word) :=
    spares_nextWord hblank (hbrace ▸ h)
  cases opening with
  | literal => exact halts_brace hbrace front
  | schema =>
    exact (hspares (by decide)).bind fun _ _ => (hspares (by decide)).bind fun _ _ =>
      (hspares (by decide)).bind fun _ _ => (hspares (by decide)).bind fun behind _ =>
        halts_brace hbrace behind

/-- In front of the brace an equals sign is found as at the end of the columns, if there is one. -/
theorem equals?_brace {front : List Cell} (h : '=' ∈ shown front) (rest : List Cell) :
    equals? (front ++ brace :: rest) = (equals? front).map (· ++ brace :: rest) := by
  have hskip := skipBlanks_brace (isBlank_brace hbrace) front rest
  have hmem : '=' ∈ shown (skipBlanks front) := by
    obtain ⟨cell, hcell, hshown⟩ := List.mem_map.mp h
    have hsolid : isBlank cell.shown = false := hshown ▸ by decide
    exact List.mem_map.mpr ⟨cell, mem_dropWhile_of_not hcell hsolid, hshown⟩
  rw [equals?, equals?, hskip]
  cases hfront : skipBlanks front with
  | nil => simp [hfront] at hmem
  | cons cell more =>
    rw [hfront, shown_cons] at hmem
    simp only [List.cons_append]
    by_cases hequals : cell.shown = '='
    · simp [hequals]
    · obtain ⟨found, behind, hdrop⟩ :=
        exists_dropWhile_equals ((List.mem_cons.mp hmem).resolve_left (Ne.symm hequals))
      have hself := hdrop []
      rw [List.append_nil, List.append_nil] at hself
      simp only [beq_iff_eq, hequals, if_false, hdrop, hself, List.cons_append]
      split <;> rfl

theorem halts_initializer {name : List Char} (hname : Bindable name) (opening : Opening)
    {front : List Cell} (h : '=' ∈ shown front) :
    Halts brace (fun cells => ((word? name cells).bind equals?).bind opening.take?) front := by
  have hword : Spares brace (word? name) := spares_word (hbrace ▸ hname.brace)
  have hequals (rest : List Cell) : (word? name (front ++ brace :: rest)).bind equals? =
      ((word? name front).bind equals?).map (· ++ brace :: rest) := by
    rw [hword]
    cases hfront : word? name front with
    | none => rfl
    | some behind =>
      exact equals?_brace hbrace (mem_of_word? hfront hname.equals h) rest
  cases hfront : (word? name front).bind equals? with
  | none => exact .inl fun rest => by simp only [hequals, hfront]; rfl
  | some behind =>
    exact (opening.halts hbrace behind).imp
      (fun htake rest => by simp only [hequals, hfront]; exact htake rest)
      fun htake rest => by simp only [hequals, hfront]; exact htake rest

theorem halts_named {name : List Char} (hname : Bindable name) (opening : Opening)
    {front : List Cell} (h : '=' ∈ shown front) : Halts brace (named? name opening) front := by
  induction front with
  | nil => cases h
  | cons cell front ih =>
    by_cases hblank : isBlank cell.shown = true
    · have hne : '=' ≠ cell.shown := fun heq => by
        rw [← heq] at hblank
        exact absurd hblank (by decide)
      have hfront : '=' ∈ shown front := (List.mem_cons.mp h).resolve_left hne
      have hhere := (halts_initializer hbrace hname opening hfront).orElse (ih hfront)
      have hnamed (cells : List Cell) : named? name opening (cell :: cells) =
          (((word? name cells).bind equals?).bind opening.take? <|> named? name opening cells) :=
        if_pos hblank
      exact hhere.imp (fun htake rest => by rw [List.cons_append, hnamed, hnamed]; exact htake rest)
        fun htake rest => by rw [List.cons_append, hnamed]; exact htake rest
    · exact .inl fun rest => (if_neg hblank).trans (by rw [named?, if_neg hblank]; rfl)

theorem halts_declared {name : List Char} (hname : Bindable name) (opening : Opening)
    {front : List Cell} (h : '=' ∈ shown front) : Halts brace (declared? name opening) front := by
  refine .findSome fun keyword hkeyword => ?_
  have hkeywords : ∀ keyword ∈ keywords, '=' ∉ keyword.toList ∧ '\x7b' ∉ keyword.toList := by
    decide
  obtain ⟨hequals, hopening⟩ := hkeywords keyword hkeyword
  exact (spares_word (hbrace ▸ hopening)).bind fun behind hbehind =>
    halts_named hbrace hname opening (mem_of_word? hbehind hequals h)

/-- In front of the brace that the search ends with stands an equals sign. -/
theorem equals_of_search {name : List Char} {opening : Opening} {before : Option Cell}
    {front rest : List Cell}
    (h : search (declared? name opening) before (front ++ brace :: rest) = some rest) :
    '=' ∈ shown front := by
  obtain ⟨gone, taken, hcells, hequals⟩ := takes_search (takes_equals name opening) _ _ _ h
  have hfront : front ++ [brace] = gone ++ taken := by
    refine (List.append_left_inj rest).mp ?_
    simpa using hcells
  have hall : '=' ∈ shown (front ++ [brace]) := by
    rw [hfront, shown_append]
    exact List.mem_append_right _ hequals
  simpa [hbrace] using hall

/-- **What stands behind the brace does not count for where a declaration is found.** -/
theorem search_declared {name : List Char} (hname : Bindable name) (opening : Opening)
    {before : Option Cell} {front rest : List Cell}
    (h : search (declared? name opening) before (front ++ brace :: rest) = some rest)
    (rest' : List Cell) :
    search (declared? name opening) before (front ++ brace :: rest') = some rest' := by
  induction front generalizing before with
  | nil => cases equals_of_search hbrace h
  | cons cell front ih =>
    have hmem := equals_of_search hbrace h
    have hcons (rest : List Cell) :
        search (declared? name opening) before (cell :: front ++ brace :: rest) =
          ((if atBoundary before then declared? name opening (cell :: front ++ brace :: rest)
            else none) <|>
            search (declared? name opening) (some cell) (front ++ brace :: rest)) := rfl
    rw [hcons, Option.orElse_eq_orElse, Option.orElse_eq_or] at h ⊢
    by_cases hb : atBoundary before = true
    · rw [if_pos hb] at h ⊢
      rcases halts_declared hbrace hname opening hmem with htake | htake
      · rw [htake] at h ⊢
        cases hfront : declared? name opening (cell :: front) with
        | none =>
          rw [hfront] at h
          exact ih h
        | some behind =>
          -- The search would have ended in front of the brace.
          rw [hfront] at h
          have hlength := congrArg List.length (Option.some.inj h)
          simp only [List.length_append, List.length_cons] at hlength
          omega
      · rw [htake, Option.some_or]
    · rw [if_neg hb] at h ⊢
      exact ih h

end

end RouteScaffold.Source
