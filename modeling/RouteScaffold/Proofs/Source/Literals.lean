import RouteScaffold.Proofs.Source.Cleared

/-! The literal that a validator is given.

The argument of its call starts with the literal or names it (`literalOf?`). The gap in
front of the argument may hold comments, and so may the declaration that is named:
overwriting comments leaves the same literal, overwritten (`validatorBody?_over`). -/
namespace RouteScaffold.Source
open Text

/-- The literal that a text names by the word it starts with; empty if there is none. -/
def named (source argument : List Char) : List Char :=
  match identifier? argument with
  | some (name, _) => (objectBody? source name .literal).getD []
  | none => []

/-- The literal that a text starts with or names. -/
def literalOf? (source argument : List Char) : Option (List Char) :=
  if argument.head? = some '\x7b' then (enclosed? '\x7b' argument.tail).map Prod.fst
  else some (named source argument)

theorem validatorBody?_eq (source : List Char) :
    validatorBody? source =
      (validatorArguments? source).bind fun arguments =>
        literalOf? source (stripComments arguments) := by
  rw [validatorBody?]
  refine congrArg _ (funext fun arguments => ?_)
  rw [literalOf?]
  split
  next rest heq =>
    rw [heq]
    exact (Option.map_eq_bind ..).symm
  next hbrace =>
    have hhead : (stripComments arguments).head? ≠ some '\x7b' := fun h =>
      let ⟨rest, hrest⟩ := List.head?_eq_some_iff.mp h
      hbrace rest hrest
    rw [if_neg hhead, named]
    cases identifier? (stripComments arguments) <;> rfl

section
variable {α β γ δ : Type} {R : α → β → Prop} {S : γ → δ → Prop} {x : Option α} {y : Option β}

theorem rel_bind {f : α → Option γ} {g : β → Option δ} (h : Option.Rel R x y)
    (hfg : ∀ a b, a ∈ x → R a b → Option.Rel S (f a) (g b)) :
    Option.Rel S (x.bind f) (y.bind g) := by
  cases h with
  | none => exact .none
  | some h => exact hfg _ _ rfl h

theorem rel_map {f : α → γ} {g : β → δ} (h : Option.Rel R x y)
    (hfg : ∀ a b, R a b → S (f a) (g b)) : Option.Rel S (x.map f) (y.map g) := by
  cases h with
  | none => exact .none
  | some h => exact .some (hfg _ _ h)

end

theorem named_over {x y s t : List Char} (h : Over x y) (hst : Cleared s t) :
    Over (named x s) (named y t) := by
  have hliteral (name : List Char) :
      Over ((objectBody? x name .literal).getD []) ((objectBody? y name .literal).getD []) := by
    have hfound := objectBody?_over h name .literal
    generalize objectBody? x name .literal = found at *
    generalize objectBody? y name .literal = found' at *
    cases hfound with
    | none => exact over_nil
    | some hbody => exact hbody
  have hword := (hst.run (fun _ => isBlank_of_isIdentChar) isIdentChar_of_mem_signs).1
  rw [named, named, identifier?_eq, identifier?_eq, hword]
  split_ifs
  · exact hliteral _
  · exact over_nil

/-- A literal behind the gap in front of it, or the name of one. -/
theorem literalOf?_over {x y s t : List Char} (h : Over x y) (hled : Led s t)
    (hst : Cleared s t) : Option.Rel Over (literalOf? x s) (literalOf? y t) := by
  rcases hled.head (c := '\x7b') (by decide) with ⟨a, b, u, v, rfl, rfl, hrest⟩ | ⟨hs, ht⟩
  · exact rel_map (hrest.enclosed? .curly) fun _ _ hcut => hcut.1
  · rw [literalOf?, literalOf?, if_neg hs, if_neg ht]
    exact .some (named_over h hst)

theorem validatorBody?_over {x y : List Char} (h : Over x y) :
    Option.Rel Over (validatorBody? x) (validatorBody? y) := by
  rw [validatorBody?_eq, validatorBody?_eq]
  refine rel_bind (validatorArguments?_over h) fun arguments arguments' _ harguments => ?_
  exact literalOf?_over h harguments.cleared.led_strip harguments.cleared.strip

end RouteScaffold.Source
