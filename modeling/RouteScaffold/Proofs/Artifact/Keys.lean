import RouteScaffold.Artifact.Shape
import RouteScaffold.Proofs.Source.Tokens
import RouteScaffold.Proofs.Text.Quoted

/-! Property keys.

A quoted name stands on one line, is closed by the last of its quotes and by no other
one, and is read back as the name. So a property key tells its name: a name that is
left bare starts with no quote, and one that is quoted is read back
(`quoted_reads_back`). -/
namespace RouteScaffold.Artifact
open Source Text.Quoted

/-! ### Between the quotes -/

/-- The characters that end a line in one reading of texts or another. -/
def lineBreaks : List Char := ['\n', '\x0b', '\x0c', '\r', '\x85', '\u2028', '\u2029']

theorem notMem_escape {c : Char} (hc : c ∈ lineBreaks) (d : Char) : c ∉ escape d := by
  intro hmem
  have hescape := isEscape d
  generalize htext : escape d = text at hescape hmem
  cases hescape with
  | letter h =>
    have hletters : ∀ p ∈ letters, p.2 ∉ lineBreaks := List.all_iff_forall_prop.mp (by decide)
    have hbackslash : '\\' ∉ lineBreaks := by decide
    rcases List.mem_cons.mp hmem with rfl | hmem
    · exact hbackslash hc
    · exact hletters _ h (List.mem_singleton.mp hmem ▸ hc)
  | code =>
    have hdigits : ∀ value < 16, hexDigit value ∉ lineBreaks := by decide
    have hsigns : ∀ c ∈ lineBreaks, c ∉ ['\\', 'u', '\x7b', '\x7d'] :=
      List.all_iff_forall_prop.mp (by decide)
    have hsign := hsigns c hc
    simp only [List.mem_cons, List.not_mem_nil, or_false, not_or] at hsign
    obtain ⟨hbackslash, hu, hopening, hclosing⟩ := hsign
    simp only [List.mem_cons, List.mem_append, List.not_mem_nil, or_false, hbackslash, hu, hopening,
      hclosing, false_or] at hmem
    obtain ⟨value, hvalue, rfl⟩ := mem_hex hmem
    exact hdigits value hvalue hc
  | itself =>
    -- A line break is never written as itself: it has a letter, or it is not printable.
    have hbreaks : ∀ c ∈ lineBreaks, escape c ≠ [c] :=
      List.all_iff_forall_prop.mp (by decide +kernel)
    obtain rfl := List.mem_singleton.mp hmem
    exact hbreaks c hc htext

theorem stringBody_escape (c : Char) {rest : List Char} (h : StringBody '\x22' rest) :
    StringBody '\x22' (escape c ++ rest) := by
  have hescape := isEscape c
  generalize escape c = text at hescape
  cases hescape with
  | letter => exact .escaped h
  | code =>
    have hdigits : StringBody '\x22' (hex c.toNat ++ '\x7d' :: rest) := by
      have hclosed : StringBody '\x22' ('\x7d' :: rest) := .plain (by decide) (by decide) h
      have hall := fun d (hd : d ∈ hex c.toNat) => mem_hex hd
      generalize hex c.toNat = digits at hall
      induction digits with
      | nil => exact hclosed
      | cons d digits ih =>
        obtain ⟨value, hvalue, rfl⟩ := hall d (List.mem_cons_self ..)
        obtain ⟨-, hbackslash, hquote⟩ := hexDigit_ne value hvalue
        exact .plain hquote hbackslash (ih fun e he => hall e (List.mem_cons_of_mem _ he))
    rw [List.cons_append, List.cons_append, List.cons_append, List.append_assoc,
      List.singleton_append]
    exact .escaped (.plain (by decide) (by decide) hdigits)
  | itself hbackslash hquote => exact .plain hquote hbackslash h

/-- No quote stands between the quotes without a backslash in front of it. -/
theorem stringBody_escapes (cs : List Char) : StringBody '\x22' (escapes cs) := by
  induction cs with
  | nil => exact .nil
  | cons c cs ih => exact stringBody_escape c ih

/-! ### Keys -/

theorem quote_injective : Function.Injective quote := fun a b h =>
  Option.some.inj ((unquote_quote a).symm.trans ((congrArg unquote h).trans (unquote_quote b)))

/-- A name that is left bare is no quoted one. -/
theorem ne_quote_of_isPlainName {name : String} (h : isPlainName name = true) (s : String) :
    name ≠ quote s := by
  rintro rfl
  have hquote : isPlainStart '\x22' = false := by decide
  simp [isPlainName, toList_quote, hquote] at h

theorem propertyKey_injective : Function.Injective propertyKey := by
  intro a b h
  rw [propertyKey, propertyKey] at h
  split at h
  next ha =>
    split at h
    · exact h
    · exact absurd h (ne_quote_of_isPlainName ha b)
  next =>
    split at h
    next hb => exact absurd h.symm (ne_quote_of_isPlainName hb a)
    next => exact quote_injective h

/-- **Quoted names read back.** Between its quotes a quoted name has no line break and no quote but
escaped ones, and it is read back as the name; and so no two names have one property key. -/
theorem quoted_reads_back :
    (∀ s : String, ∃ body, (quote s).toList = '\x22' :: (body ++ ['\x22']) ∧
      StringBody '\x22' body ∧ (∀ c ∈ lineBreaks, c ∉ body) ∧ unquote (quote s) = some s) ∧
    ∀ a b : String, propertyKey a = propertyKey b ↔ a = b := by
  refine ⟨fun s => ⟨escapes s.toList, toList_quote s, stringBody_escapes _, fun c hc hmem => ?_,
    unquote_quote s⟩, fun a b => propertyKey_injective.eq_iff⟩
  obtain ⟨d, -, hd⟩ := List.mem_flatMap.mp hmem
  exact notMem_escape hc d hd

end RouteScaffold.Artifact
