import Mathlib.Data.Bool.AllAny
import Mathlib.Data.List.SplitBy
import RouteScaffold.Proofs.Text.UpperCase
import RouteScaffold.Route.Naming

/-! What a label shows of a name.

A name is cut into words where an upper-case character follows a lower-case one
(`startsWord`), and nowhere else (`humps_eq_splitBy`). The cuts can be made in one pass that
remembers the word it is in and the case of the character it comes from (`WordPass`): behind
every character its words are those of what it has read (`Reads.step`). Every word but the
first starts with an upper-case character, which capitalizing leaves alone
(`map_capitalize_humps`). So a label is the name with a space in front of each character that
starts a word, and with its first character in upper case (`isLabel_labelOf`). -/
namespace RouteScaffold.Route
open Text

/-! ### Where words start -/

/-- A word starts with an upper-case character behind a lower-case one. -/
def startsWord (before c : Char) : Bool := isLower before && isUpper c

theorem humps_cons (c : Char) (rest : List Char) :
    ∃ word words, humps (c :: rest) = (c :: word) :: words := by
  rw [humps]
  split
  · split <;> exact ⟨_, _, rfl⟩
  · exact ⟨_, _, rfl⟩

theorem humps_cons_cons (c d : Char) (rest : List Char) :
    ∃ word words, humps (d :: rest) = (d :: word) :: words ∧
      humps (c :: d :: rest) =
        if startsWord c d then [c] :: (d :: word) :: words else (c :: d :: word) :: words := by
  obtain ⟨word, words, h⟩ := humps_cons d rest
  exact ⟨word, words, h, by rw [humps, h]; rfl⟩

/-- Two texts next to each other have the runs of both, but where the texts meet two runs are
one if the characters there are related. -/
theorem splitBy_append_of_related {α : Type} {r : α → α → Bool} {as bs last first : List α}
    {before after : List (List α)} (ha : as.splitBy r = before ++ [last])
    (hb : bs.splitBy r = first :: after)
    (h : ∀ a ∈ as.getLast?, ∀ b ∈ bs.head?, r a b = true) :
    (as ++ bs).splitBy r = before ++ (last ++ first) :: after := by
  obtain ⟨rfl, hneA, hchainA, hcutA⟩ := List.splitBy_eq_iff.mp ha
  obtain ⟨rfl, hneB, hchainB, hcutB⟩ := List.splitBy_eq_iff.mp hb
  obtain ⟨hbefore, -, hlast⟩ := List.isChain_append.mp hcutA
  obtain ⟨hfirst, hafter⟩ := List.isChain_cons.mp hcutB
  have hmeet : (last ++ first).IsChain fun a b => r a b = true :=
    List.isChain_append.mpr ⟨hchainA last (by simp), hchainB first (by simp), fun a ha b hb =>
      h a (by simpa using List.mem_getLast?_append_of_mem_getLast? ha)
        b (List.mem_head?_append_of_mem_head? hb)⟩
  rw [List.splitBy_eq_iff]
  refine ⟨by simp, by simp_all, fun run hrun => ?_, ?_⟩
  · simp only [List.mem_append, List.mem_cons] at hrun
    rcases hrun with hrun | rfl | hrun
    · exact hchainA run (List.mem_append_left _ hrun)
    · exact hmeet
    · exact hchainB run (List.mem_cons_of_mem _ hrun)
  · refine List.isChain_append.mpr ⟨hbefore, List.isChain_cons.mpr ⟨fun next hnext => ?_, hafter⟩,
      fun run hrun next hnext => ?_⟩
    · obtain ⟨hne, hnext, hr⟩ := hfirst next hnext
      exact ⟨by simp [hne], hnext, by rwa [List.getLast_append_of_right_ne_nil _ _ hne]⟩
    · obtain ⟨hrun, hne, hr⟩ := hlast run hrun last rfl
      obtain rfl : last ++ first = next := by simpa using hnext
      exact ⟨hrun, by simp [hne], by rwa [List.head_append_left hne]⟩

/-- The words of a name are cut where one starts, and nowhere else. -/
theorem humps_eq_splitBy (cs : List Char) :
    humps cs = cs.splitBy fun before c => !startsWord before c := by
  induction cs with
  | nil => rfl
  | cons c cs ih =>
    cases cs with
    | nil => rfl
    | cons d rest =>
      obtain ⟨word, words, htail, hcons⟩ := humps_cons_cons c d rest
      rw [hcons]
      rw [htail] at ih
      split
      next hstarts =>
        have hcut : ([c] ++ d :: rest).splitBy (fun before c => !startsWord before c) =
            [[c]] ++ (d :: rest).splitBy fun before c => !startsWord before c :=
          List.splitBy_append_cons rest (by simpa using hstarts)
        rw [← ih] at hcut
        exact hcut.symm
      next hjoins =>
        have hjoin : ([c] ++ d :: rest).splitBy (fun before c => !startsWord before c) =
            [] ++ ([c] ++ d :: word) :: words :=
          splitBy_append_of_related rfl ih.symm (by simpa using hjoins)
        exact hjoin.symm

theorem flatten_humps (cs : List Char) : (humps cs).flatten = cs := by
  rw [humps_eq_splitBy, List.flatten_splitBy]

theorem nil_notMem_humps (cs : List Char) : [] ∉ humps cs := by
  rw [humps_eq_splitBy]
  exact List.nil_notMem_splitBy _ _

/-- Where a word starts, the words are those of both sides. -/
theorem humps_append_of_starts {front back : List Char}
    (h : ∀ before ∈ front.getLast?, ∀ c ∈ back.head?, startsWord before c = true) :
    humps (front ++ back) = humps front ++ humps back := by
  rw [humps_eq_splitBy, humps_eq_splitBy, humps_eq_splitBy]
  exact List.splitBy_append fun before hbefore c hc => by simp [h before hbefore c hc]

/-- Where none starts, two of the words are one. -/
theorem humps_append_of_joins {front back last first : List Char} {before after : List (List Char)}
    (hfront : humps front = before ++ [last]) (hback : humps back = first :: after)
    (h : ∀ d ∈ front.getLast?, ∀ c ∈ back.head?, startsWord d c = false) :
    humps (front ++ back) = before ++ (last ++ first) :: after := by
  rw [humps_eq_splitBy] at hfront hback ⊢
  exact splitBy_append_of_related hfront hback fun d hd c hc => by simp [h d hd c hc]

/-! ### One pass -/

/-- A pass over a name, from character to character. -/
structure WordPass where
  /-- The words that are complete. -/
  complete : List (List Char)
  /-- The word that the pass is in. -/
  current : List Char
  /-- Whether it comes from a lower-case character. -/
  behindLower : Bool

namespace WordPass

def start : WordPass := ⟨[], [], false⟩

def step (s : WordPass) (c : Char) : WordPass :=
  if s.behindLower && isUpper c && !s.current.isEmpty then
    ⟨s.complete ++ [s.current], [c], isLower c⟩
  else ⟨s.complete, s.current ++ [c], isLower c⟩

/-- The words if the name ends here. -/
def words (s : WordPass) : List (List Char) :=
  if s.current.isEmpty then s.complete else s.complete ++ [s.current]

def read (name : List Char) : WordPass := name.foldl step start

/-- What a pass knows of what it has read. It is in an empty word at the start only, where no
character is behind it, so the last test of a step never decides. -/
structure Reads (s : WordPass) (front : List Char) : Prop where
  words : s.words = humps front
  current : s.current = [] → front = []
  behindLower : s.behindLower = front.getLast?.any isLower

theorem reads_start : start.Reads [] := ⟨rfl, fun _ => rfl, rfl⟩

theorem Reads.step {s : WordPass} {front : List Char} (h : s.Reads front) (c : Char) :
    (s.step c).Reads (front ++ [c]) := by
  rw [WordPass.step]
  split
  next hstarts =>
    simp only [Bool.and_eq_true, Bool.not_eq_true', List.isEmpty_eq_false_iff] at hstarts
    obtain ⟨⟨hlower, hupper⟩, hne⟩ := hstarts
    have hwords := h.words
    rw [WordPass.words, if_neg (by simpa using hne)] at hwords
    refine ⟨?_, by simp, by simp⟩
    rw [humps_append_of_starts, ← hwords]
    · rfl
    · intro before hbefore d hd
      obtain rfl : c = d := by simpa using hd
      rw [h.behindLower, Option.mem_def.mp hbefore] at hlower
      rw [startsWord, hupper, Bool.and_true]
      exact hlower
  next hjoins =>
    refine ⟨?_, by simp, by simp⟩
    have hwords := h.words
    rw [WordPass.words] at hwords
    rw [WordPass.words, if_neg (by simp)]
    split at hwords
    next hempty =>
      -- Only the first character is read into an empty word.
      have hcurrent := List.isEmpty_iff.mp hempty
      rw [hwords, hcurrent, h.current hcurrent]
      rfl
    next hne =>
      refine (humps_append_of_joins hwords.symm rfl fun d hd e he => ?_).symm
      obtain rfl : c = e := by simpa using he
      rw [h.behindLower, Option.mem_def.mp hd] at hjoins
      simpa [startsWord, hne] using hjoins

theorem Reads.foldl {s : WordPass} {front : List Char} (h : s.Reads front) (rest : List Char) :
    (rest.foldl WordPass.step s).Reads (front ++ rest) := by
  induction rest generalizing s front with
  | nil => simpa using h
  | cons c rest ih => simpa using ih (h.step c)

/-- The pass finds the words. -/
theorem words_read (name : List Char) : (read name).words = humps name :=
  (reads_start.foldl name).words

end WordPass

/-! ### Words with a capital -/

theorem capitalize_of_isUpper {c : Char} (h : isUpper c = true) (word : List Char) :
    capitalize (c :: word) = c :: word := by
  rw [capitalize, upper_of_isUpper h, List.singleton_append]

/-- Capitalizing changes no word but the first. -/
theorem map_capitalize_tail_humps (cs : List Char) :
    (humps cs).tail.map capitalize = (humps cs).tail := by
  induction cs with
  | nil => rfl
  | cons c cs ih =>
    cases cs with
    | nil => rfl
    | cons d rest =>
      obtain ⟨word, words, htail, hcons⟩ := humps_cons_cons c d rest
      rw [htail, List.tail_cons] at ih
      rw [hcons]
      split
      next hstarts =>
        have hupper : isUpper d = true := (Bool.and_eq_true_iff.mp hstarts).2
        rw [List.tail_cons, List.map_cons, capitalize_of_isUpper hupper, ih]
      next => exact ih

theorem map_capitalize_humps {c : Char} {rest word : List Char} {words : List (List Char)}
    (h : humps (c :: rest) = (c :: word) :: words) :
    (humps (c :: rest)).map capitalize = (upper c ++ word) :: words := by
  have htail := map_capitalize_tail_humps (c :: rest)
  rw [h] at htail ⊢
  exact congrArg ((upper c ++ word) :: ·) htail

/-- Without spaces, the capitalized words are the name with a capital. -/
theorem flatten_map_capitalize_humps (cs : List Char) :
    ((humps cs).map capitalize).flatten = capitalize cs := by
  cases cs with
  | nil => rfl
  | cons c rest =>
    obtain ⟨word, words, h⟩ := humps_cons c rest
    have hflatten := flatten_humps (c :: rest)
    rw [h, List.flatten_cons, List.cons_append] at hflatten
    rw [map_capitalize_humps h, List.flatten_cons, List.append_assoc,
      List.tail_eq_of_cons_eq hflatten, capitalize]

theorem nil_notMem_map_capitalize_humps (cs : List Char) : [] ∉ (humps cs).map capitalize := by
  intro h
  obtain ⟨word, hword, hempty⟩ := List.mem_map.mp h
  cases word with
  | nil => exact nil_notMem_humps cs hword
  | cons c rest => exact upper_ne_nil c (List.append_eq_nil_iff.mp hempty).1

/-! ### Spaces -/

/-- A character as it stands in a label behind another one of the name. -/
def placed (before c : Char) : List Char := if startsWord before c then [' ', c] else [c]

/-- A name with a space in front of each character that starts a word. -/
def spaced : List Char → List Char
  | [] => []
  | c :: rest => c :: (List.zipWith placed (c :: rest) rest).flatten

theorem intercalate_append_cons (between text part : List Char) (parts : List (List Char)) :
    List.intercalate between ((text ++ part) :: parts) =
      text ++ List.intercalate between (part :: parts) := by
  cases parts with
  | nil => simp
  | cons next parts => simp [List.intercalate_cons_cons]

theorem intercalate_humps (cs : List Char) : List.intercalate [' '] (humps cs) = spaced cs := by
  induction cs with
  | nil => rfl
  | cons c cs ih =>
    cases cs with
    | nil => rfl
    | cons d rest =>
      obtain ⟨word, words, htail, hcons⟩ := humps_cons_cons c d rest
      rw [htail] at ih
      have hspaced : spaced (c :: d :: rest) =
          c :: (if startsWord c d then ' ' :: spaced (d :: rest) else spaced (d :: rest)) := by
        simp only [spaced, List.zipWith_cons_cons, List.flatten_cons, placed]
        split <;> rfl
      rw [hcons, hspaced, ← ih]
      split
      · rfl
      · exact intercalate_append_cons [' '] [c] (d :: word) words

/-- A label is the name with its spaces and its capital. -/
theorem toList_labelOf (name : String) :
    (labelOf name).toList = capitalize (spaced name.toList) := by
  rw [labelOf, String.toList_ofList, ← intercalate_humps]
  cases name.toList with
  | nil => rfl
  | cons c rest =>
    obtain ⟨word, words, h⟩ := humps_cons c rest
    have hsplit := intercalate_append_cons [' '] [c] word words
    rw [List.singleton_append] at hsplit
    rw [map_capitalize_humps h, intercalate_append_cons, h, hsplit, List.singleton_append,
      capitalize]

/-- Taking out what stands between the parts puts the parts together. -/
theorem filter_intercalate {p : Char → Bool} {between : List Char}
    (h : ∀ c ∈ between, p c = false) (parts : List (List Char)) :
    (List.intercalate between parts).filter p = parts.flatten.filter p := by
  have hbetween : between.filter p = [] := List.filter_eq_nil_iff.mpr (by simpa using h)
  induction parts with
  | nil => rfl
  | cons part parts ih =>
    cases parts with
    | nil => simp
    | cons next parts =>
      rw [List.intercalate_cons_cons, List.filter_append, List.filter_append, hbetween,
        List.append_nil, ih, ← List.filter_append, ← List.flatten_cons]

theorem space_notMem_capitalize {name : List Char} (h : ' ' ∉ name) : ' ' ∉ capitalize name := by
  cases name with
  | nil => exact h
  | cons c rest =>
    rw [List.mem_cons, not_or] at h
    rw [capitalize, List.mem_append, not_or]
    exact ⟨fun hmem => h.1 (eq_of_mem_upper (by decide) (by decide) (by decide) hmem), h.2⟩

/-! ### Unbroken runs -/

/-- Capitals, digits, underscores, hyphens and whatever has no case: no word starts behind one. -/
def IsFirm (c : Char) : Prop :=
  isUpper c = true ∨ c.isDigit = true ∨ c = '_' ∨ c = '-' ∨ isUpper c = false ∧ isLower c = false

instance : DecidablePred IsFirm := fun _ => inferInstanceAs (Decidable (_ ∨ _))

theorem IsFirm.startsWord_eq_false {c : Char} (h : IsFirm c) (d : Char) :
    startsWord c d = false := by
  have hlower : isLower c = false := by
    rcases h with hupper | hdigit | rfl | rfl | hcaseless
    · exact isLower_of_isUpper hupper
    · have hcase : ∀ c : Char, c.toNat < 0x80 → c.isDigit = true → isLower c = false :=
        forall_ascii (by decide)
      have hlast : c.toNat ≤ '9'.toNat := (Char.isDigit_iff_toNat.mp hdigit).2
      exact hcase c (Nat.lt_of_le_of_lt hlast (by decide)) hdigit
    · decide
    · decide
    · exact hcaseless.2
  rw [startsWord, hlower, Bool.false_and]

theorem humps_of_firm {run : List Char} (hne : run ≠ []) (h : ∀ c ∈ run, IsFirm c) :
    humps run = [run] := by
  rw [humps_eq_splitBy]
  have hjoins : run.Pairwise fun before c => (!startsWord before c) = true :=
    List.pairwise_of_forall_mem_list fun before hbefore c _ => by
      rw [(h before hbefore).startsWord_eq_false c, Bool.not_false]
  exact List.splitBy_of_isChain hne hjoins.isChain

/-- A text of one word ends the last word of whatever it stands behind, or is a word there. -/
theorem humps_append_word {run : List Char} (hne : run ≠ []) (hrun : humps run = [run])
    (front : List Char) :
    ∃ before a, humps (front ++ run) = before ++ [a ++ run] ∧ before.flatten ++ a = front := by
  rcases List.eq_nil_or_concat' front with rfl | ⟨front, d, rfl⟩
  · exact ⟨[], [], hrun, rfl⟩
  · obtain ⟨c, rest, rfl⟩ := List.exists_cons_of_ne_nil hne
    have hflatten := flatten_humps (front ++ [d])
    by_cases hstarts : startsWord d c = true
    · refine ⟨humps (front ++ [d]), [], ?_, by rw [hflatten, List.append_nil]⟩
      rw [humps_append_of_starts (by simpa using hstarts), hrun, List.nil_append]
    · rcases List.eq_nil_or_concat' (humps (front ++ [d])) with hnil | ⟨before, last, hlast⟩
      · simp [hnil] at hflatten
      · exact ⟨before, last, humps_append_of_joins hlast hrun (by simpa using hstarts),
          by simpa [hlast] using hflatten⟩

/-- If no word can start behind a text, what follows goes on with its last word. -/
theorem humps_append_rest {front last : List Char} {before : List (List Char)}
    (h : humps front = before ++ [last])
    (hfirm : ∀ d ∈ front.getLast?, ∀ c, startsWord d c = false) (back : List Char) :
    ∃ b after, humps (front ++ back) = before ++ (last ++ b) :: after ∧
      b ++ after.flatten = back := by
  cases back with
  | nil => exact ⟨[], [], by rw [List.append_nil, List.append_nil, h], rfl⟩
  | cons c rest =>
    obtain ⟨word, words, hback⟩ := humps_cons c rest
    have hflatten := flatten_humps (c :: rest)
    rw [hback] at hflatten
    exact ⟨c :: word, words, humps_append_of_joins h hback fun d hd e _ => hfirm d hd e, hflatten⟩

/-- A run of firm characters is never split: it stands within one word. -/
theorem humps_append_firm {run : List Char} (hne : run ≠ []) (h : ∀ c ∈ run, IsFirm c)
    (front back : List Char) :
    ∃ before a b after, humps (front ++ run ++ back) = before ++ (a ++ run ++ b) :: after ∧
      before.flatten ++ a = front ∧ b ++ after.flatten = back := by
  obtain ⟨before, a, hfront, hbefore⟩ := humps_append_word hne (humps_of_firm hne h) front
  have hfirm : ∀ d ∈ (front ++ run).getLast?, ∀ c, startsWord d c = false := by
    intro d hd c
    rw [List.getLast?_append_of_ne_nil _ hne] at hd
    exact (h d (List.mem_of_getLast? hd)).startsWord_eq_false c
  obtain ⟨b, after, hback, hafter⟩ := humps_append_rest hfront hfirm back
  exact ⟨before, a, b, after, hback, hbefore, hafter⟩

/-! ### Labels -/

/-- What the label of a name shows of it, and of its words. -/
structure IsLabel (name label : List Char) (words : List (List Char)) : Prop where
  /-- A single space between one word and the next. -/
  joined : label = List.intercalate [' '] (words.map capitalize)
  /-- The first character has its upper-case form, all others stand as they are, and in front of
  those that start a word, and of no other, stands a space. -/
  spelled : label = capitalize (spaced name)
  /-- Without the spaces between the words, what is left is the name with its capital. -/
  kept : (words.map capitalize).flatten = capitalize name
  nonempty : [] ∉ words.map capitalize
  /-- Wherever a run of firm characters stands in the name, it stands within one word. -/
  unbroken : ∀ front run back, name = front ++ run ++ back → run ≠ [] → (∀ c ∈ run, IsFirm c) →
    ∃ before a b after, words = before ++ (a ++ run ++ b) :: after ∧
      before.flatten ++ a = front ∧ b ++ after.flatten = back
  /-- If the name has no space of its own, all those of the label can be taken out. -/
  spaceless : ' ' ∉ name → label.filter (· != ' ') = capitalize name

/-- **A label keeps every character and is split exactly where the case tells.** It is the name
with its first character in upper case and a space in front of each upper-case character behind a
lower-case one; its words, found in one pass, are not empty and break no run of capitals, digits,
underscores, hyphens and characters without case. -/
theorem isLabel_labelOf (name : String) :
    IsLabel name.toList (labelOf name).toList (WordPass.read name.toList).words := by
  rw [WordPass.words_read]
  have hjoined : (labelOf name).toList =
      List.intercalate [' '] ((humps name.toList).map capitalize) := String.toList_ofList
  have hkept := flatten_map_capitalize_humps name.toList
  refine ⟨hjoined, toList_labelOf name, hkept, nil_notMem_map_capitalize_humps _, ?_, ?_⟩
  · intro front run back hname hne hfirm
    rw [hname]
    exact humps_append_firm hne hfirm front back
  · intro hspaceless
    rw [hjoined, filter_intercalate (by simp), hkept, List.filter_eq_self]
    intro c hc
    rw [bne_iff_ne]
    rintro rfl
    exact space_notMem_capitalize hspaceless hc

/-- Capitals behind a lower-case character, and a word that goes on behind an underscore. -/
theorem isLabel_labelOf_capitals :
    let name := "homeURL-2_xById"
    labelOf name = "Home URL-2_x By Id" ∧
      (∃ before a b after, (WordPass.read name.toList).words =
          before ++ (a ++ "URL-2_".toList ++ b) :: after ∧
        before.flatten ++ a = "home".toList ∧ b ++ after.flatten = "xById".toList) ∧
      (labelOf name).toList.filter (· != ' ') = "HomeURL-2_xById".toList := by
  intro name
  have hlabel := isLabel_labelOf name
  have hfirm : ∀ c ∈ "URL-2_".toList, IsFirm c := List.all_iff_forall_prop.mp (by decide)
  exact ⟨by decide, hlabel.unbroken _ _ _ (by decide) (by decide) hfirm,
    (hlabel.spaceless (by decide)).trans (by decide)⟩

end RouteScaffold.Route
