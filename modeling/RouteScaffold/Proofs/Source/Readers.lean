import RouteScaffold.Proofs.Source.Finding
import RouteScaffold.Source.Validator

/-! Readers of the masked copy.

A reader of the masked copy looks only at what its columns show: on two copies that
show the same it takes the same number of columns, or fails on both (`Blind`). What
lies under the columns does not count. `Lands` says which column a reader takes
last. -/
namespace RouteScaffold.Source
open Text

/-- Of `a` and of `b` the same number of columns is taken, or none. -/
def Alike (a b : List Cell) (x y : Option (List Cell)) : Prop :=
  ∃ taken : Option Nat, x = taken.map (a.drop ·) ∧ y = taken.map (b.drop ·)

/-- The reader looks only at what is shown. -/
def Blind (take? : List Cell → Option (List Cell)) : Prop :=
  ∀ a b, shown a = shown b → Alike a b (take? a) (take? b)

/-- The last column that the reader takes shows `c`. -/
def Lands (c : Char) (take? : List Cell → Option (List Cell)) : Prop :=
  ∀ cells rest, take? cells = some rest →
    ∃ front cell, cells = front ++ cell :: rest ∧ cell.shown = c

/-- What the columns show that the reader takes ends with something that `P` holds of. -/
def Takes (P : List Char → Prop) (take? : List Cell → Option (List Cell)) : Prop :=
  ∀ cells rest, take? cells = some rest →
    ∃ front taken, cells = front ++ (taken ++ rest) ∧ P (shown taken)

/-! ### Taking alike -/

theorem alike_none (a b : List Cell) : Alike a b none none := ⟨none, rfl, rfl⟩

theorem Alike.drop {a b : List Cell} {x y : Option (List Cell)} (n : Nat)
    (h : Alike (a.drop n) (b.drop n) x y) : Alike a b x y := by
  obtain ⟨taken, rfl, rfl⟩ := h
  refine ⟨taken.map (n + ·), ?_, ?_⟩ <;> cases taken <;> simp

theorem Alike.cons {a b : List Cell} {x y : Option (List Cell)} (h : Alike a b x y)
    (c d : Cell) : Alike (c :: a) (d :: b) x y := Alike.drop (a := c :: a) (b := d :: b) 1 h

theorem Alike.orElse {a b : List Cell} {x y x' y' : Option (List Cell)} (h : Alike a b x y)
    (h' : Alike a b x' y') : Alike a b (x <|> x') (y <|> y') := by
  obtain ⟨taken, rfl, rfl⟩ := h
  cases taken with
  | none => exact h'
  | some n => exact ⟨some n, rfl, rfl⟩

theorem shown_drop (cells : List Cell) (n : Nat) : shown (cells.drop n) = (shown cells).drop n :=
  List.map_drop

theorem Alike.bind {a b : List Cell} {x y : Option (List Cell)} (h : Alike a b x y)
    (hshown : shown a = shown b) {take? : List Cell → Option (List Cell)} (htake : Blind take?) :
    Alike a b (x.bind take?) (y.bind take?) := by
  obtain ⟨taken, rfl, rfl⟩ := h
  cases taken with
  | none => exact alike_none a b
  | some n => exact (htake _ _ (by rw [shown_drop, shown_drop, hshown])).drop n

theorem Blind.bind {first? second? : List Cell → Option (List Cell)} (h₁ : Blind first?)
    (h₂ : Blind second?) : Blind fun cells => (first? cells).bind second? :=
  fun a b hshown => (h₁ a b hshown).bind hshown h₂

theorem shown_cons_inj {c d : Cell} {a b : List Cell} (h : shown (c :: a) = shown (d :: b)) :
    c.shown = d.shown ∧ shown a = shown b := List.cons.inj h

/-- A fact on two lists of columns that show the same is one on no columns and one on a first
column and the rest. -/
theorem shown_induction {P : List Cell → List Cell → Prop} (hnil : P [] [])
    (hcons : ∀ c d a b, c.shown = d.shown → shown a = shown b → P a b → P (c :: a) (d :: b))
    (a b : List Cell) (h : shown a = shown b) : P a b := by
  induction a generalizing b with
  | nil =>
    cases b with
    | nil => exact hnil
    | cons d b => cases h
  | cons c a ih =>
    cases b with
    | nil => cases h
    | cons d b =>
      obtain ⟨hc, hrest⟩ := shown_cons_inj h
      exact hcons c d a b hc hrest (ih b hrest)

/-! ### Each reader -/

theorem exists_dropWhile (p : Char → Bool) (a b : List Cell) (h : shown a = shown b) :
    ∃ n, a.dropWhile (p ·.shown) = a.drop n ∧ b.dropWhile (p ·.shown) = b.drop n := by
  refine shown_induction (P := fun a b => ∃ n, a.dropWhile (p ·.shown) = a.drop n ∧
    b.dropWhile (p ·.shown) = b.drop n) ⟨0, rfl, rfl⟩ (fun c d a b hc _ ih => ?_) a b h
  obtain ⟨n, ha, hb⟩ := ih
  cases hp : p c.shown with
  | true => exact ⟨n + 1, by simp [hp, ha], by simp [← hc, hp, hb]⟩
  | false => exact ⟨0, by simp [hp], by simp [← hc, hp]⟩

theorem blind_word (word : List Char) : Blind (word? word) := by
  induction word with
  | nil => exact fun a b _ => ⟨some 0, by cases a <;> rfl, by cases b <;> rfl⟩
  | cons c word ih =>
    refine shown_induction (alike_none [] []) fun x y a b hc hrest _ => ?_
    rw [word?, word?, ← hc]
    split
    next => exact (ih a b hrest).cons x y
    next => exact alike_none _ _

theorem Blind.behind {take? : List Cell → Option (List Cell)} (h : Blind take?)
    (p : Char → Bool) : Blind fun cells => take? (cells.dropWhile (p ·.shown)) := by
  intro a b hshown
  obtain ⟨n, ha, hb⟩ := exists_dropWhile p a b hshown
  simp only [ha, hb]
  exact (h _ _ (by rw [shown_drop, shown_drop, hshown])).drop n

theorem blind_nextWord (word : List Char) : Blind (nextWord? word) :=
  (blind_word word).behind isBlank

theorem blind_next : Blind fun cells => match cells with
    | [] => none
    | _ :: rest => some rest :=
  shown_induction (alike_none [] []) fun _ _ _ _ _ _ _ => ⟨some 1, rfl, rfl⟩

theorem blind_equals : Blind equals? := by
  have hfirst : Blind fun cells => match cells with
      | [] => none
      | cell :: rest =>
        if cell.shown == '=' then some rest
        else if cell.shown == ':' then
          match rest.dropWhile (·.shown != '=') with
          | [] => none
          | _ :: rest => some rest
        else none := by
    refine shown_induction (alike_none [] []) fun x y a b hc hrest _ => ?_
    simp only [← hc]
    split
    next => exact ⟨some 1, rfl, rfl⟩
    next =>
      split
      next => exact ((blind_next.behind (· != '=')) a b hrest).cons x y
      next => exact alike_none _ _
  exact hfirst.behind isBlank

theorem Opening.blind (opening : Opening) : Blind opening.take? := by
  cases opening with
  | literal => exact blind_nextWord ['\x7b']
  | schema =>
    exact (blind_nextWord ['z']).bind <| (blind_nextWord ['.']).bind <|
      (blind_nextWord "object".toList).bind <| (blind_nextWord ['(']).bind <|
        blind_nextWord ['\x7b']

theorem blind_named (name : List Char) (opening : Opening) : Blind (named? name opening) := by
  refine shown_induction (alike_none [] []) fun x y a b hc hrest ih => ?_
  rw [named?, named?, ← hc]
  split
  next =>
    exact ((((blind_word name).bind blind_equals).bind opening.blind a b hrest).cons x y).orElse
      (ih.cons x y)
  next => exact alike_none _ _

theorem Blind.findSome {take? : String → List Cell → Option (List Cell)}
    (h : ∀ word, Blind (take? word)) (words : List String) :
    Blind fun cells => words.findSome? (take? · cells) := by
  intro a b hshown
  induction words with
  | nil => exact alike_none a b
  | cons word words ih =>
    simp only [List.findSome?_cons]
    obtain ⟨taken, ha, hb⟩ := h word a b hshown
    rw [ha, hb]
    cases taken with
    | none => exact ih
    | some n => exact ⟨some n, rfl, rfl⟩

theorem blind_declared (name : List Char) (opening : Opening) : Blind (declared? name opening) :=
  .findSome (fun keyword => (blind_word keyword.toList).bind (blind_named name opening)) keywords

theorem blind_search {take? : List Cell → Option (List Cell)} (h : Blind take?) :
    Blind (search take? none) := by
  suffices hall : ∀ a b, shown a = shown b → ∀ before before' : Option Cell,
      before.map Cell.shown = before'.map Cell.shown →
      Alike a b (search take? before a) (search take? before' b) from
    fun a b hshown => hall a b hshown none none rfl
  refine shown_induction (fun _ _ _ => alike_none [] []) ?_
  intro x y a b hc hrest ih before before' hb
  have hboundary : atBoundary before = atBoundary before' := by
    cases before <;> cases before' <;> simp_all [atBoundary]
  have hhere : Alike (x :: a) (y :: b) (if atBoundary before then take? (x :: a) else none)
      (if atBoundary before' then take? (y :: b) else none) := by
    rw [← hboundary]
    split
    next => exact h _ _ (by rw [shown_cons, shown_cons, hc, hrest])
    next => exact alike_none _ _
  exact hhere.orElse ((ih (some x) (some y) (congrArg some hc)).cons x y)

/-! ### Where a reader stops -/

theorem Lands.behind {c : Char} {take? : List Cell → Option (List Cell)} (h : Lands c take?)
    (p : Char → Bool) : Lands c fun cells => take? (cells.dropWhile (p ·.shown)) := by
  intro cells rest hrest
  obtain ⟨front, cell, hcells, hc⟩ := h _ _ hrest
  exact ⟨cells.takeWhile (p ·.shown) ++ front, cell,
    by rw [List.append_assoc, ← hcells, List.takeWhile_append_dropWhile], hc⟩

theorem Takes.front {P : List Char → Prop} {cells rest : List Cell} (a : List Cell)
    (h : ∃ front taken, cells = front ++ (taken ++ rest) ∧ P (shown taken)) :
    ∃ front taken, a ++ cells = front ++ (taken ++ rest) ∧ P (shown taken) := by
  obtain ⟨front, taken, rfl, hP⟩ := h
  exact ⟨a ++ front, taken, (List.append_assoc ..).symm, hP⟩

theorem Takes.bind {P : List Char → Prop} {first? second? : List Cell → Option (List Cell)}
    (h₁ : Blind first?) (h₂ : Takes P second?) :
    Takes P fun cells => (first? cells).bind second? := by
  intro cells rest hrest
  obtain ⟨behind, hfirst, hsecond⟩ := Option.bind_eq_some_iff.mp hrest
  obtain ⟨taken, htaken, -⟩ := h₁ cells cells rfl
  obtain ⟨n, -, rfl⟩ := Option.map_eq_some_iff.mp (htaken.symm.trans hfirst)
  have hbehind := Takes.front (cells.take n) (h₂ _ _ hsecond)
  rwa [List.take_append_drop] at hbehind

theorem takes_named {P : List Char → Prop} {name : List Char} {opening : Opening}
    (hinit : Takes P fun cells => ((word? name cells).bind equals?).bind opening.take?) :
    Takes P (named? name opening) := by
  intro cells rest h
  fun_induction named? name opening cells with
  | case1 => cases h
  | case2 first cells hb ih =>
    rw [Option.orElse_apply, Option.orElse_eq_or] at h
    rcases Option.or_eq_some_iff.mp h with h | ⟨-, h⟩
    · exact Takes.front [first] (hinit _ _ h)
    · exact Takes.front [first] (ih h)
  | case3 => cases h

theorem takes_declared {P : List Char → Prop} {name : List Char} {opening : Opening}
    (hinit : Takes P fun cells => ((word? name cells).bind equals?).bind opening.take?) :
    Takes P (declared? name opening) := by
  intro cells rest h
  obtain ⟨keyword, -, h⟩ := List.exists_of_findSome?_eq_some h
  exact Takes.bind (blind_word keyword.toList) (takes_named hinit) _ _ h

theorem takes_search {P : List Char → Prop} {take? : List Cell → Option (List Cell)}
    (h : Takes P take?) (before : Option Cell) : Takes P (search take? before) := by
  intro cells rest hrest
  induction cells generalizing before with
  | nil => cases hrest
  | cons first cells ih =>
    rw [search, Option.orElse_apply, Option.orElse_eq_or] at hrest
    rcases Option.or_eq_some_iff.mp hrest with hhere | ⟨-, hlater⟩
    · split at hhere
      next => exact h _ _ hhere
      next => cases hhere
    · exact Takes.front [first] (ih _ hlater)

theorem lands_iff {c : Char} {take? : List Cell → Option (List Cell)} :
    Lands c take? ↔ Takes (· = [c]) take? := by
  refine forall₃_congr fun cells rest _ => ⟨?_, ?_⟩
  · rintro ⟨front, cell, hcells, rfl⟩
    exact ⟨front, [cell], hcells, rfl⟩
  · rintro ⟨front, taken, hcells, hc⟩
    obtain ⟨cell, rfl, rfl⟩ := List.map_eq_singleton_iff.mp hc
    exact ⟨front, cell, hcells, rfl⟩

theorem Lands.bind {c : Char} {first? second? : List Cell → Option (List Cell)}
    (h₁ : Blind first?) (h₂ : Lands c second?) :
    Lands c fun cells => (first? cells).bind second? :=
  lands_iff.mpr (.bind h₁ (lands_iff.mp h₂))

theorem lands_nextWord (c : Char) : Lands c (nextWord? [c]) := by
  have hword : Lands c (word? [c]) := by
    intro cells rest h
    cases cells with
    | nil => cases h
    | cons cell cells =>
      rw [word?] at h
      split at h
      next hc =>
        have hrest : cells = rest := by cases cells <;> exact Option.some.inj h
        exact ⟨[], cell, by rw [hrest]; rfl, beq_iff_eq.mp hc⟩
      next => cases h
  exact hword.behind isBlank

theorem Opening.lands (opening : Opening) : Lands '\x7b' opening.take? := by
  cases opening with
  | literal => exact lands_nextWord '\x7b'
  | schema =>
    exact .bind (blind_nextWord ['z']) <| .bind (blind_nextWord ['.']) <|
      .bind (blind_nextWord "object".toList) <| .bind (blind_nextWord ['(']) <|
        lands_nextWord '\x7b'

theorem lands_declared (name : List Char) (opening : Opening) :
    Lands '\x7b' (declared? name opening) :=
  lands_iff.mpr (takes_declared (lands_iff.mp
    (.bind ((blind_word name).bind blind_equals) opening.lands)))

theorem lands_search {c : Char} {take? : List Cell → Option (List Cell)} (h : Lands c take?) :
    Lands c (search take? none) := lands_iff.mpr (takes_search (lands_iff.mp h) none)

theorem objectBody?_eq (source name : List Char) (opening : Opening) :
    objectBody? source name opening =
      (search (declared? name opening) none (mask source)).bind
        fun rest => (enclosed? '\x7b' (sourceOf rest)).map Prod.fst := by
  rw [objectBody?]
  exact congrArg _ (funext fun rest => (Option.map_eq_bind ..).symm)

/-! ### To the arguments of a call -/

/-- Takes all up to the next round bracket off the front, if no semicolon comes before it. -/
def toArguments? (cells : List Cell) : Option (List Cell) :=
  if (cells.takeWhile (·.shown != '(')).any (·.shown == ';') then none
  else
    match cells.dropWhile (·.shown != '(') with
    | [] => none
    | _ :: arguments => some arguments

theorem validatorArguments?_eq (source : List Char) :
    validatorArguments? source =
      ((search (fun cells => (word? validatorName.toList cells).bind equals?) none
        (mask source)).bind toArguments?).bind
          fun arguments => (enclosed? '(' (sourceOf arguments)).map Prod.fst := by
  rw [validatorArguments?, Option.bind_assoc]
  refine congrArg _ (funext fun cells => ?_)
  unfold toArguments?
  split
  next => rfl
  next =>
    cases cells.dropWhile (·.shown != '(') with
    | nil => rfl
    | cons cell arguments => exact (Option.map_eq_bind ..).symm

theorem blind_toArguments : Blind toArguments? := by
  intro a b h
  have hany (cells : List Cell) : (cells.takeWhile (·.shown != '(')).any (·.shown == ';') =
      ((shown cells).takeWhile (· != '(')).any (· == ';') := by
    rw [shown, List.takeWhile_map, List.any_map]
    rfl
  rw [toArguments?, toArguments?, hany, hany, h]
  split
  next => exact alike_none a b
  next => exact blind_next.behind (· != '(') a b h

theorem lands_toArguments : Lands '(' toArguments? := by
  intro cells rest h
  unfold toArguments? at h
  split at h
  next => cases h
  next =>
    split at h
    next => cases h
    next cell arguments hdrop =>
      obtain rfl := Option.some.inj h
      have hcell := List.head?_dropWhile_not (·.shown != '(') cells
      rw [hdrop] at hcell
      refine ⟨cells.takeWhile (·.shown != '('), cell, ?_, by simpa using hcell⟩
      rw [← hdrop, List.takeWhile_append_dropWhile]

end RouteScaffold.Source
