import RouteScaffold.Proofs.Offset.Brackets
import RouteScaffold.Proofs.Source.Stopped

/-! Entries and calls by offsets.

A comment, a name, a quoted key and a call are cut off the front of a text at the offset
where they end. Every such cut lies between two characters, and the loops that cut again and
again come to an end: each function gives what its counterpart on characters does, and the
entries of a literal are the only thing that its levels have to fit for
(`gives_objectEntries`). -/
namespace RouteScaffold.Offset
open Source Text Route

/-- The offset of the first character of which `p` holds. -/
def findOffset (p : Char → Bool) : List Char → Option Nat
  | [] => none
  | c :: cs => if p c then some 0 else (findOffset p cs).map (c.utf8Size + ·)

theorem findOffset_eq (p : Char → Bool) (cs : List Char) :
    findOffset p cs =
      if cs.dropWhile (!p ·) = [] then none else some (byteLength (cs.takeWhile (!p ·))) := by
  induction cs with
  | nil => rfl
  | cons c cs ih =>
    rw [findOffset, ih, List.dropWhile_cons, List.takeWhile_cons]
    cases p c with
    | true => simp
    | false =>
      by_cases hrest : cs.dropWhile (!p ·) = []
      · simp [hrest]
      · simp [hrest]

/-! ### Comments in front -/

/-- Takes the blanks in front off the text, and one comment behind them if there is one. -/
def stripStep (text : List Char) : Outcome (List Char ⊕ List Char) := do
  let text := trimStart text
  if "//".toList.isPrefixOf text || "/*".toList.isPrefixOf text then
    if h : 0 < (bytesOf text).length then
      match skipAt (bytesOf text) 0 h with
      | some stop => return .inr (← sliceFrom text stop)
      | none => return .inl text
    else throw (.cut 0)
  else return .inl text

/-- The text without the blanks and comments in front of it. -/
def stripLeading (text : List Char) : Outcome (List Char) := loop stripStep text

theorem stripLeading_comment {cs text taken rest : List Char} (htrim : trimStart cs = text)
    (hcomment : ("//".toList.isPrefixOf text || "/*".toList.isPrefixOf text) = true)
    (hskip : skip? none text = some (taken, rest)) : stripLeading cs = stripLeading rest := by
  obtain ⟨h, hat⟩ := skipAt_of_skip? (show skip? (lastSolid none []) text = _ from hskip)
  have hpos : 0 < (bytesOf text).length := h
  have hstop : skipAt (bytesOf text) 0 hpos = some (byteLength taken) := hat
  rw [stripLeading, loop_eq, stripStep, htrim]
  simp only [hcomment, if_true, dif_pos hpos, hstop]
  rw [sliceFrom_eq (text_of_skip? hskip).1.symm rfl, pure_bind, pure_bind]
  rfl

theorem stripLeading_eq (text : List Char) : stripLeading text = pure (stripComments text) := by
  fun_induction stripComments text with
  | case1 cs rest htrim _ ih =>
    exact (stripLeading_comment htrim (by simp [List.isPrefixOf]) rfl).trans ih
  | case2 cs rest htrim _ ih =>
    exact (stripLeading_comment htrim (by simp [List.isPrefixOf]) rfl).trans ih
  | case3 cs hline hblock =>
    rw [stripLeading, loop_eq, stripStep, if_neg]
    · exact pure_bind _ _
    intro hcomment
    rcases (Bool.or_eq_true _ _).mp hcomment with h | h <;>
      obtain ⟨rest, hrest⟩ := List.isPrefixOf_iff_prefix.mp h
    · exact hline rest hrest.symm
    · exact hblock rest hrest.symm

/-! ### Names -/

/-- The identifier that the text starts with. -/
def leadingIdentifier (text : List Char) : Outcome (Option (List Char)) := do
  let ident ← sliceTo text ((findOffset (!isIdentChar ·) text).getD (byteLength text))
  match ident with
  | [] => return none
  | c :: _ => return if c.isDigit then none else some ident

theorem leadingIdentifier_eq (text : List Char) :
    leadingIdentifier text = pure ((identifier? text).map Prod.fst) := by
  have hstop : (findOffset (!isIdentChar ·) text).getD (byteLength text) =
      byteLength (text.takeWhile isIdentChar) := by
    simp only [findOffset_eq, Bool.not_not]
    split
    next hnone =>
      have htext := List.takeWhile_append_dropWhile (p := isIdentChar) (l := text)
      rw [hnone, List.append_nil] at htext
      rw [Option.getD_none, htext]
    next => rfl
  rw [leadingIdentifier, hstop, sliceTo_eq List.takeWhile_append_dropWhile.symm rfl, pure_bind,
    identifier?]
  cases text.takeWhile isIdentChar with
  | nil => rfl
  | cons c name =>
    simp only
    split <;> rfl

/-- One step along the chain: `calls` are the names so far. -/
def chainStep : List (List Char) × List Char →
    Outcome (List (List Char) ⊕ List (List Char) × List Char)
  | (calls, text) => do
    match ← stripLeading text with
    | '.' :: rest =>
      let behindDot := trimStart rest
      match ← leadingIdentifier behindDot with
      | none => return .inl calls
      | some name =>
        let calls := calls ++ [name]
        let tail := trimStart (← sliceFrom behindDot (byteLength name))
        if tail.head? == some '(' then
          match ← findMatching (bytesOf tail) 0 0 with
          | none => return .inl calls
          | some close => return .inr (calls, ← sliceFrom tail (close + 1))
        else return .inr (calls, tail)
    | _ => return .inl calls

/-- The name of each call and member chained behind an expression. -/
def chainedCalls (text : List Char) : Outcome (List (List Char)) := loop chainStep ([], text)

theorem sliceFrom_identifier {text name behind : List Char}
    (h : identifier? text = some (name, behind)) :
    sliceFrom text (byteLength name) = pure behind :=
  sliceFrom_eq (text_of_identifier? h).1.symm rfl

/-- The step over a name that stands behind a dot. -/
theorem chainStep_dot {cs rest name behind : List Char} (hdot : stripComments cs = '.' :: rest)
    (hname : identifier? (trimStart rest) = some (name, behind)) (calls : List (List Char)) :
    let tail := trimStart behind
    chainStep (calls, cs) =
      if tail.head? == some '(' then do
        match ← findMatching (bytesOf tail) 0 0 with
        | none => return .inl (calls ++ [name])
        | some close => return .inr (calls ++ [name], ← sliceFrom tail (close + 1))
      else return .inr (calls ++ [name], tail) := by
  rw [chainStep, stripLeading_eq, pure_bind, hdot]
  simp only [leadingIdentifier_eq, hname, Option.map_some, pure_bind, sliceFrom_identifier hname]

theorem loop_chainStep (calls : List (List Char)) (text : List Char) :
    loop chainStep (calls, text) = pure (calls ++ chain text) := by
  fun_induction chain text generalizing calls with
  | case1 cs rest hdot hname =>
    rw [loop_eq, chainStep, stripLeading_eq, pure_bind, hdot]
    simp only [leadingIdentifier_eq, hname, Option.map_none, pure_bind, Sum.elim_inl,
      List.append_nil]
  | case2 cs rest hdot name behind hname _ args hpar _ hclose =>
    rw [loop_eq, chainStep_dot hdot hname, hpar, List.head?_cons, if_pos (beq_self_eq_true _),
      findMatching_head rfl, hclose]
    simp only [Option.map_none, pure_bind, Sum.elim_inl]
  | case3 cs rest hdot name behind hname _ args hpar _ inside after hclose _ ih =>
    rw [loop_eq, chainStep_dot hdot hname, hpar, List.head?_cons, if_pos (beq_self_eq_true _),
      findMatching_head rfl, hclose]
    simp only [Option.map_some, pure_bind, sliceFrom_head hclose, Sum.elim_inr, ih,
      ← List.append_cons]
  | case4 cs rest hdot name behind hname _ hpar _ ih =>
    rw [loop_eq, chainStep_dot hdot hname, head?_beq_eq_false hpar, if_neg Bool.false_ne_true]
    simp only [pure_bind, Sum.elim_inr, ih, ← List.append_cons]
  | case5 cs hdot =>
    rw [loop_eq, chainStep, stripLeading_eq, pure_bind]
    split
    next rest hrest => exact absurd hrest (hdot rest)
    next => simp only [pure_bind, Sum.elim_inl, List.append_nil]

theorem chainedCalls_eq (text : List Char) : chainedCalls text = pure (chain text) :=
  loop_chainStep [] text

/-! ### Entries -/

/-- The key that the part starts with, and the text behind it. -/
def keyOf (part : List Char) : Outcome (Option Cut) := do
  match part with
  | [] => return none
  | c :: _ =>
    if c == '\x22' || c == '\x27' then
      match findOffset (· == c) (← sliceFrom part 1) with
      | some stop => return some (← slice part 1 (1 + stop), ← sliceFrom part (stop + 2))
      | none => return none
    else
      let part := stripModifier part
      match ← leadingIdentifier part with
      | some ident => return some (ident, ← sliceFrom part (byteLength ident))
      | none => return none

/-- The key in quotes lies between them, and behind the second one the text can be cut. -/
theorem keyOf_quoted {c : Char} (hc : (c == '\x22' || c == '\x27') = true) (rest : List Char) :
    keyOf (c :: rest) = pure (key? (c :: rest)) := by
  have hsize : c.utf8Size = 1 := by
    rcases (Bool.or_eq_true _ _).mp hc with h | h <;> rw [beq_iff_eq.mp h] <;> decide
  have hpred : (fun d => !(d == c)) = (· != c) := rfl
  have hrest := List.takeWhile_append_dropWhile (p := (· != c)) (l := rest)
  rw [keyOf, key?, if_pos hc, if_pos hc,
    sliceFrom_eq List.singleton_append.symm (by simp [hsize]), pure_bind, findOffset_eq, hpred]
  cases hdrop : rest.dropWhile (· != c) with
  | nil => rfl
  | cons d after =>
    obtain rfl : d = c := by
      have hhead := List.head?_dropWhile_not (· != c) rest
      rw [hdrop] at hhead
      simpa using hhead
    rw [hdrop] at hrest
    have hopened : d :: rest = [d] ++ (rest.takeWhile (· != d) ++ d :: after) := by
      rw [hrest, List.singleton_append]
    have hclosed : d :: rest = d :: rest.takeWhile (· != d) ++ [d] ++ after := by
      rw [List.append_assoc, List.singleton_append, List.cons_append, hrest]
    rw [if_neg (List.cons_ne_nil d after)]
    simp only
    rw [slice_eq hopened (by simp [hsize]) (by simp [hsize]), pure_bind,
      sliceFrom_eq hclosed (by simp [hsize]; omega), pure_bind]

theorem keyOf_eq (part : List Char) : keyOf part = pure (key? part) := by
  cases part with
  | nil => rfl
  | cons c rest =>
    cases hc : c == '\x22' || c == '\x27' with
    | true => exact keyOf_quoted hc rest
    | false =>
      rw [keyOf, key?, hc]
      simp only [Bool.false_eq_true, if_false, leadingIdentifier_eq, pure_bind]
      cases hident : identifier? (stripModifier (c :: rest)) with
      | none => rfl
      | some cut => simp only [Option.map_some, sliceFrom_identifier hident, pure_bind]

/-- The entry that the part holds. -/
def entryOf (part : List Char) : Outcome (Option Entry) := do
  let part := trimEnd (← stripLeading part)
  if part.isEmpty || "...".toList.isPrefixOf part then return none
  match ← keyOf part with
  | some (key, behind) => return (value? key behind).map (Entry.mk key)
  | none => return none

theorem entryOf_eq (part : List Char) : entryOf part = pure (Entry.ofPart? part) := by
  rw [entryOf, Entry.ofPart?, stripLeading_eq, pure_bind]
  generalize trimEnd (stripComments part) = part
  cases part with
  | nil => rfl
  | cons c rest =>
    simp only [List.isEmpty_cons, Bool.false_or, keyOf_eq, pure_bind]
    split
    next => rfl
    next =>
      cases key? (c :: rest) with
      | none => rfl
      | some cut =>
        cases hvalue : value? cut.1 cut.2 <;> simp [hvalue]

/-- The entries of an object literal. -/
def objectEntries (overflow : Overflow) (body : List Char) : Outcome (List Entry) :=
  return (← (← splitTopLevel overflow body).mapM entryOf).filterMap id

theorem gives_objectEntries (body : List Char) :
    Gives [body] (objectEntries · body) (entries body) := by
  have hentry : entryOf = fun part => pure (Entry.ofPart? part) := funext entryOf_eq
  have hparts := (gives_splitTopLevel body).map fun parts => parts.filterMap Entry.ofPart?
  simpa only [objectEntries, entries, hentry, List.mapM_pure, pure_bind, List.filterMap_map,
    Function.id_comp] using hparts

/-! ### Fields -/

/-- Whether a call that starts the text is followed by one that makes the field optional. -/
def optionalBehind (text : List Char) : Outcome Bool := do
  if text.head? == some '(' then
    match ← findMatching (bytesOf text) 0 0 with
    | some close => return (← chainedCalls (← sliceFrom text (close + 1))).any makesOptional
    | none => return false
  else return false

/-- The field that the entry declares. -/
def fieldOf (entry : Entry) : Outcome Field := do
  let name := String.ofList entry.key
  match baseType? entry.value with
  | none => return ⟨name, .other "unknown", false⟩
  | some (token, behind) =>
    let stop := byteLength entry.value - byteLength behind
    let optional ← optionalBehind (trimStart (← sliceFrom entry.value stop))
    return ⟨name, .ofToken (String.ofList token), optional⟩

/-- What the type token of a value is read from stands in front of the text behind it. -/
theorem sliceFrom_baseType {value token behind : List Char}
    (h : baseType? value = some (token, behind)) :
    sliceFrom value (byteLength value - byteLength behind) = pure behind := by
  obtain ⟨front, -, rfl⟩ := (stops_baseType (by decide : Ends ',')).code value _ h
  exact sliceFrom_eq rfl (by simp)

theorem fieldOf_eq (entry : Entry) : fieldOf entry = pure entry.field := by
  rw [fieldOf, Entry.field]
  cases hbase : baseType? entry.value with
  | none => rfl
  | some cut =>
    obtain ⟨token, behind⟩ := cut
    simp only [sliceFrom_baseType hbase, pure_bind]
    generalize trimStart behind = text
    split
    next args =>
      rw [optionalBehind, List.head?_cons, if_pos (beq_self_eq_true _), findMatching_head rfl,
        pure_bind]
      cases hclose : enclosed? '(' args with
      | none => exact pure_bind _ _
      | some cut =>
        simp only [Option.map_some, sliceFrom_head hclose, chainedCalls_eq, pure_bind]
    next hround =>
      rw [optionalBehind, head?_beq_eq_false hround]
      exact pure_bind _ _

end RouteScaffold.Offset
