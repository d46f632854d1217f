import Mathlib.Data.List.Basic
import RouteScaffold.Artifact.Form

/-! Markup and its entities.

The special characters of a text are replaced by their entities one kind after
another, the ampersand first, so that none of the replacements touches what
another has put in (`toList_escapeMarkup_eq_replaceInTurn`).

To read a text in markup its entities are replaced by their characters one kind
after another, the ampersand last. As long as the ampersand is still escaped, each of the
others stands in an entity of its own kind and nowhere else, and so escaped text is
read back whatever characters it has (`decodeMarkup_escapeMarkup`). -/
namespace RouteScaffold.Artifact

/-! ### Replacing -/

/-- The text with the pattern replaced by a character, from left to right; the first number of
characters belongs to an occurrence that is replaced already. -/
def replaceFrom (pattern : List Char) (c : Char) : Nat → List Char → List Char
  | _, [] => []
  | skip + 1, _ :: cs => replaceFrom pattern c skip cs
  | 0, d :: cs =>
    if pattern.isPrefixOf (d :: cs) then c :: replaceFrom pattern c (pattern.length - 1) cs
    else d :: replaceFrom pattern c 0 cs

section replacing
variable {pattern : List Char} {c : Char}

theorem replaceFrom_skip (front rest : List Char) :
    replaceFrom pattern c front.length (front ++ rest) = replaceFrom pattern c 0 rest := by
  induction front with
  | nil => rfl
  | cons d front ih => exact ih

theorem replaceFrom_pattern (hne : pattern ≠ []) (rest : List Char) :
    replaceFrom pattern c 0 (pattern ++ rest) = c :: replaceFrom pattern c 0 rest := by
  obtain ⟨first, pattern, rfl⟩ := List.exists_cons_of_ne_nil hne
  have hstart : (first :: pattern).isPrefixOf (first :: (pattern ++ rest)) = true :=
    List.isPrefixOf_iff_prefix.mpr (List.prefix_append (first :: pattern) rest)
  rw [List.cons_append, replaceFrom, if_pos hstart]
  exact congrArg (c :: ·) (replaceFrom_skip pattern rest)

/-- Where the pattern does not start, a text is passed over. -/
theorem replaceFrom_of_head {first : Char} (hfirst : pattern.head? = some first)
    {front : List Char} (hfront : first ∉ front) (rest : List Char) :
    replaceFrom pattern c 0 (front ++ rest) = front ++ replaceFrom pattern c 0 rest := by
  obtain ⟨pattern, rfl⟩ := List.head?_eq_some_iff.mp hfirst
  induction front with
  | nil => rfl
  | cons d front ih =>
    rw [List.mem_cons, not_or] at hfront
    rw [List.cons_append, replaceFrom, if_neg (by simp [hfront.1]), ih hfront.2]
    rfl

/-- A text that starts like the pattern and goes on in another way is passed over. -/
theorem replaceFrom_other {first : Char} (hfirst : pattern.head? = some first) {other : List Char}
    (hother : other.head? = some first ∧ first ∉ other.tail) (hpattern : ¬ pattern <+: other)
    (hother' : ¬ other <+: pattern) (rest : List Char) :
    replaceFrom pattern c 0 (other ++ rest) = other ++ replaceFrom pattern c 0 rest := by
  obtain ⟨tail, rfl⟩ := List.head?_eq_some_iff.mp hother.1
  have hstart : ¬ pattern.isPrefixOf (first :: tail ++ rest) = true := fun hstart =>
    (List.prefix_or_prefix_of_prefix (List.isPrefixOf_iff_prefix.mp hstart)
      (List.prefix_append (first :: tail) rest)).elim hpattern hother'
  rw [List.cons_append] at hstart ⊢
  rw [replaceFrom, if_neg hstart]
  exact congrArg (first :: ·) (replaceFrom_of_head hfirst hother.2 rest)

end replacing

/-! ### Entities -/

/-- How the escaped characters are written, in the order in which they are read. -/
def entities : List (Char × String) :=
  [('\x22', "&quot;"), ('<', "&lt;"), ('>', "&gt;"), ('&', "&amp;")]

/-- What a text in markup shows. -/
def decodeMarkup (s : String) : String :=
  String.ofList
    (entities.foldl (fun cs entity => replaceFrom entity.2.toList entity.1 0 cs) s.toList)

/-- How a character is written if those of the table have entities. -/
def written (table : List (Char × String)) (c : Char) : List Char :=
  match table.lookup c with
  | some entity => entity.toList
  | none => [c]

theorem written_of_lookup {table : List (Char × String)} {c : Char} {entity : String}
    (h : table.lookup c = some entity) : written table c = entity.toList := by rw [written, h]

theorem written_of_lookup_none {table : List (Char × String)} {c : Char}
    (h : table.lookup c = none) : written table c = [c] := by rw [written, h]

/-! ### Escaping -/

/-- The escaped characters, in the order in which they are replaced. -/
def replacements : List (Char × String) :=
  [('&', "&amp;"), ('\x22', "&quot;"), ('<', "&lt;"), ('>', "&gt;")]

/-- A character is escaped as it is written under any table of these entities. -/
theorem escapeMarkupChar_eq {table : List (Char × String)}
    (hall : ∀ a ∈ replacements, table.lookup a.1 = some a.2) (honly : ∀ a ∈ table, a ∈ replacements)
    (c : Char) : escapeMarkupChar c = written table c := by
  unfold escapeMarkupChar
  split
  next h => rw [beq_iff_eq.mp h, written_of_lookup (hall ('&', "&amp;") (by decide))]
  split
  next h => rw [beq_iff_eq.mp h, written_of_lookup (hall ('\x22', "&quot;") (by decide))]
  split
  next h => rw [beq_iff_eq.mp h, written_of_lookup (hall ('<', "&lt;") (by decide))]
  split
  next h => rw [beq_iff_eq.mp h, written_of_lookup (hall ('>', "&gt;") (by decide))]
  next hamp hquote hlt hgt =>
    have hkeys : ∀ a ∈ replacements, c ≠ a.1 := by simp_all [replacements]
    have hnone : table.lookup c = none :=
      List.lookup_eq_none_iff.mpr fun a ha => by simpa using hkeys a (honly a ha)
    rw [written_of_lookup_none hnone]

/-- The text with the characters of a table replaced, one kind after another. -/
def replaceInTurn (table : List (Char × String)) (cs : List Char) : List Char :=
  table.foldl (fun cs a => cs.flatMap fun c => if c = a.1 then a.2.toList else [c]) cs

/-- One kind after another is all at once as long as no entity is spelled with a character
that is replaced after it. -/
theorem replaceInTurn_eq {table : List (Char × String)}
    (h : table.Pairwise fun a b => b.1 ∉ a.2.toList) (cs : List Char) :
    replaceInTurn table cs = cs.flatMap (written table) := by
  induction table generalizing cs with
  | nil => exact (List.flatMap_singleton' cs).symm
  | cons a table ih =>
    obtain ⟨hfirst, hrest⟩ := List.pairwise_cons.mp h
    have hkept : a.2.toList.flatMap (written table) = a.2.toList := by
      have hsame : ∀ c ∈ a.2.toList, written table c = [c] := fun c hc =>
        written_of_lookup_none (List.lookup_eq_none_iff.mpr fun b hb =>
          bne_iff_ne.mpr (ne_of_mem_of_not_mem hc (hfirst b hb)))
      rw [List.flatMap_congr hsame, List.flatMap_singleton']
    have hstep (c : Char) : (if c = a.1 then a.2.toList else [c]).flatMap (written table) =
        written (a :: table) c := by
      by_cases hc : c = a.1
      · rw [if_pos hc, hkept, hc, written_of_lookup List.lookup_cons_self]
      · rw [if_neg hc, List.flatMap_singleton, written, written, List.lookup_cons,
          beq_false_of_ne hc]
    rw [replaceInTurn, List.foldl_cons]
    refine (ih hrest _).trans ?_
    rw [List.flatMap_assoc]
    exact List.flatMap_congr fun c _ => hstep c

/-- **Markup is escaped by four replacements**, the ampersand first: the entities put in after
it hold one, and none of them holds a character that is still to be replaced. -/
theorem toList_escapeMarkup_eq_replaceInTurn (s : String) :
    (escapeMarkup s).toList = replaceInTurn replacements s.toList := by
  rw [escapeMarkup, String.toList_ofList, replaceInTurn_eq (by decide)]
  exact List.flatMap_congr fun c _ => escapeMarkupChar_eq (by decide) (by decide) c

/-- Entities that can be replaced one kind after another. -/
structure Replaceable (table : List (Char × String)) : Prop where
  /-- An ampersand starts an entity, and stands nowhere else in it. -/
  spelled : ∀ a ∈ table, a.2.toList.head? = some '&' ∧ '&' ∉ a.2.toList.tail
  /-- No entity is a first part of another. -/
  apart : table.Pairwise fun a b =>
    a.1 ≠ b.1 ∧ ¬ a.2.toList <+: b.2.toList ∧ ¬ b.2.toList <+: a.2.toList
  /-- The ampersand comes last. -/
  last : ∀ a ∈ table.getLast?, a.1 = '&'

theorem replaceable_entities : Replaceable entities where
  spelled := by decide
  apart := by decide
  last := by decide

theorem Replaceable.tail {a : Char × String} {table : List (Char × String)}
    (h : Replaceable (a :: table)) : Replaceable table where
  spelled := (List.forall_mem_cons.mp h.spelled).2
  apart := (List.pairwise_cons.mp h.apart).2
  last b hb := h.last b (by rw [List.getLast?_cons, Option.mem_def.mp hb]; rfl)

/-- While it has entities, the table has the ampersand. -/
theorem Replaceable.ampersand {a : Char × String} {table : List (Char × String)}
    (h : Replaceable (a :: table)) {c : Char} (hc : (a :: table).lookup c = none) : c ≠ '&' := by
  rintro rfl
  obtain ⟨b, hb⟩ : ∃ b, (a :: table).getLast? = some b := ⟨_, List.getLast?_cons⟩
  have hmem := List.mem_of_getLast? hb
  have hkey := h.last b hb
  rw [List.lookup_eq_none_iff] at hc
  have := hc b hmem
  simp [hkey] at this

/-- The entities of the first kind are replaced. -/
theorem Replaceable.replaceFrom_first {a : Char × String} {table : List (Char × String)}
    (h : Replaceable (a :: table)) (rest : List Char) :
    replaceFrom a.2.toList a.1 0 (written (a :: table) a.1 ++ rest) =
      written table a.1 ++ replaceFrom a.2.toList a.1 0 rest := by
  have hspelled := (List.forall_mem_cons.mp h.spelled).1
  have hne : a.2.toList ≠ [] := fun hnil => by
    rw [hnil] at hspelled
    cases hspelled.1
  have hnone : table.lookup a.1 = none := by
    rw [List.lookup_eq_none_iff]
    exact fun b hb => by simpa using ((List.pairwise_cons.mp h.apart).1 b hb).1
  rw [written_of_lookup List.lookup_cons_self, written_of_lookup_none hnone,
    replaceFrom_pattern hne]
  rfl

/-- All other characters stay as they are written. -/
theorem Replaceable.replaceFrom_rest {a : Char × String} {table : List (Char × String)}
    (h : Replaceable (a :: table)) {c : Char} (hc : c ≠ a.1) (rest : List Char) :
    replaceFrom a.2.toList a.1 0 (written (a :: table) c ++ rest) =
      written table c ++ replaceFrom a.2.toList a.1 0 rest := by
  obtain ⟨hspelled, hrest⟩ := List.forall_mem_cons.mp h.spelled
  have hlookup : (a :: table).lookup c = table.lookup c := by
    rw [List.lookup_cons, beq_eq_false_iff_ne.mpr hc]
  cases hentity : table.lookup c with
  | none =>
    have hnot : c ≠ '&' := h.ampersand (hlookup.trans hentity)
    rw [written_of_lookup_none hentity, written_of_lookup_none (hlookup.trans hentity)]
    exact replaceFrom_of_head hspelled.1 (by simpa using Ne.symm hnot) rest
  | some entity =>
    have hmem : (c, entity) ∈ table := by
      obtain ⟨front, back, rfl, -⟩ := List.lookup_eq_some_iff.mp hentity
      simp
    obtain ⟨-, hpattern, hstart⟩ := (List.pairwise_cons.mp h.apart).1 _ hmem
    rw [written_of_lookup hentity, written_of_lookup (hlookup.trans hentity)]
    exact replaceFrom_other hspelled.1 (hrest _ hmem) hpattern hstart rest

theorem Replaceable.replaceFrom_flatMap {a : Char × String} {table : List (Char × String)}
    (h : Replaceable (a :: table)) (cs : List Char) :
    replaceFrom a.2.toList a.1 0 (cs.flatMap (written (a :: table))) =
      cs.flatMap (written table) := by
  induction cs with
  | nil => rfl
  | cons c cs ih =>
    rw [List.flatMap_cons, List.flatMap_cons, ← ih]
    by_cases hc : c = a.1
    · rw [hc]
      exact h.replaceFrom_first _
    · exact h.replaceFrom_rest hc _

/-- Replaced one kind after another, the entities give the characters back. -/
theorem Replaceable.foldl_replaceFrom {table : List (Char × String)} (h : Replaceable table)
    (cs : List Char) :
    table.foldl (fun cs entity => replaceFrom entity.2.toList entity.1 0 cs)
      (cs.flatMap (written table)) = cs := by
  induction table with
  | nil => exact List.flatMap_singleton' cs
  | cons a table ih =>
    rw [List.foldl_cons, h.replaceFrom_flatMap]
    exact ih h.tail

/-! ### Escaped text -/

theorem toList_escapeMarkup (s : String) :
    (escapeMarkup s).toList = s.toList.flatMap (written entities) := by
  rw [escapeMarkup, String.toList_ofList]
  exact List.flatMap_congr fun c _ => escapeMarkupChar_eq (by decide) (by decide) c

/-- Escaped text shows the text it was made from. -/
theorem decodeMarkup_escapeMarkup (s : String) : decodeMarkup (escapeMarkup s) = s := by
  rw [decodeMarkup, toList_escapeMarkup, replaceable_entities.foldl_replaceFrom,
    String.ofList_toList]

/-- A character that no entity is spelled with is written by itself only, and only if it has no
entity. -/
theorem eq_of_mem_written {table : List (Char × String)} {c d : Char}
    (hspelled : ∀ a ∈ table, c ∉ a.2.toList) (h : c ∈ written table d) :
    c = d ∧ table.lookup c = none := by
  cases hlookup : table.lookup d with
  | none =>
    rw [written_of_lookup_none hlookup, List.mem_singleton] at h
    exact ⟨h, h ▸ hlookup⟩
  | some entity =>
    obtain ⟨front, back, htable, -⟩ := List.lookup_eq_some_iff.mp hlookup
    rw [written_of_lookup hlookup] at h
    exact absurd h (hspelled (d, entity) (by simp [htable]))

/-- What has an entity does not stand in escaped text. -/
theorem notMem_escapeMarkup {c : Char} (hspelled : ∀ a ∈ entities, c ∉ a.2.toList)
    (hescaped : entities.lookup c ≠ none) (s : String) : c ∉ (escapeMarkup s).toList := by
  rw [toList_escapeMarkup, List.mem_flatMap]
  rintro ⟨d, -, hd⟩
  exact hescaped (eq_of_mem_written hspelled hd).2

/-- What has no entity stands in escaped text where it did before. -/
theorem mem_escapeMarkup_iff {c : Char} (hspelled : ∀ a ∈ entities, c ∉ a.2.toList)
    (hplain : entities.lookup c = none) (s : String) :
    c ∈ (escapeMarkup s).toList ↔ c ∈ s.toList := by
  rw [toList_escapeMarkup, List.mem_flatMap]
  constructor
  · rintro ⟨d, hd, hc⟩
    rwa [(eq_of_mem_written hspelled hc).1]
  · exact fun h => ⟨c, h, by rw [written_of_lookup_none hplain]; exact List.mem_singleton_self c⟩

theorem quoteless_escapeMarkup (s : String) : '\x22' ∉ (escapeMarkup s).toList :=
  notMem_escapeMarkup (by decide) (by decide) s

end RouteScaffold.Artifact
