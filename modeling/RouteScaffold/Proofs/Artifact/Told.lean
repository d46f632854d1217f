import RouteScaffold.Artifact.Layout
import RouteScaffold.Proofs.Text.Strings

/-! What generated lines tell.

A reader goes through a text and finds something here and there. What a line tells it
does not depend on how far the line is indented (`LineTells`), and what lines tell is
put together as they are (`Tells`). So a generated text, which is built from lines and
blocks, is read back as it was built. The reader that is used most reads off the strings
of a text (`stringsIn`). -/
namespace RouteScaffold.Artifact
open Text

/-! ### Reading lines -/

section telling
variable {β : Type} {read : List Char → List β}

/-- What a reader is told by a line. -/
def CharsTell (read : List Char → List β) (line : List Char) (told : List β) : Prop :=
  ∀ rest, read (line ++ '\n' :: rest) = told ++ read rest

/-- What a reader is told by a line, however far it is indented. -/
def LineTells (read : List Char → List β) (line : String) (told : List β) : Prop :=
  ∀ pad, (∀ c ∈ pad, c = ' ') → CharsTell read (pad ++ line.toList) told

theorem notMem_pad {pad : List Char} (hpad : ∀ c ∈ pad, c = ' ') {c : Char} (hc : c ≠ ' ') :
    c ∉ pad := fun hmem => hc (hpad c hmem)

/-- What is told by lines. -/
inductive Tells (read : List Char → List β) : List String → List β → Prop where
  | nil : Tells read [] []
  | cons {line : String} {lines : List String} {told rest : List β}
      (head : LineTells read line told) (tail : Tells read lines rest) :
      Tells read (line :: lines) (told ++ rest)

theorem Tells.append {a b : List String} {told more : List β} (ha : Tells read a told)
    (hb : Tells read b more) : Tells read (a ++ b) (told ++ more) := by
  induction ha with
  | nil => exact hb
  | cons head _ ih =>
    rw [List.append_assoc]
    exact .cons head ih

theorem tells_line {line : String} {told : List β} (h : LineTells read line told) :
    Tells read [line] told := by
  have := Tells.cons h .nil
  rwa [List.append_nil] at this

theorem tells_flatMap {α : Type} {lines : α → List String} {told : α → List β} {xs : List α}
    (h : ∀ x ∈ xs, Tells read (lines x) (told x)) :
    Tells read (xs.flatMap lines) (xs.flatMap told) := by
  induction xs with
  | nil => exact .nil
  | cons x xs ih =>
    obtain ⟨hx, hxs⟩ := List.forall_mem_cons.mp h
    exact hx.append (ih hxs)

theorem Tells.indent {lines : List String} {told : List β} (h : Tells read lines told) :
    Tells read (indent lines) told := by
  induction h with
  | nil => exact .nil
  | @cons line lines told rest head tail ih =>
    refine .cons ?_ ih
    dsimp only
    split
    next hempty => exact beq_iff_eq.mp hempty ▸ head
    next =>
      intro pad hpad
      have hpads : ∀ c ∈ pad ++ [' ', ' '], c = ' ' := by
        simpa [or_imp, forall_and] using hpad
      have hline : pad ++ ("  " ++ line).toList = pad ++ [' ', ' '] ++ line.toList := by simp
      rw [hline]
      exact head _ hpads

/-- What is told by the lines within others. -/
theorem Tells.enclose {opening closing : String} {inner : List String} {told : List β}
    (h : Tells read inner told) (hopening : LineTells read opening [])
    (hclosing : LineTells read closing []) : Tells read (enclose opening inner closing) told := by
  have := Tells.cons hopening (h.indent.append (tells_line hclosing))
  rwa [List.append_nil] at this

/-- What is told by a text is told by its lines. -/
theorem Tells.read_unlines {lines : List String} {told : List β} (h : Tells read lines told)
    (hnil : read [] = []) : read (unlines lines).toList = told := by
  induction h with
  | nil => exact hnil
  | @cons line lines told rest head tail ih =>
    have hline : (unlines (line :: lines)).toList =
        line.toList ++ '\n' :: (unlines lines).toList := by simp [unlines]
    have hhead := head [] (List.forall_mem_nil _) (unlines lines).toList
    rw [List.nil_append] at hhead
    rw [hline, hhead, ih]

end telling

/-! ### Reading strings -/

section strings
variable {β : Type} {escaping : Bool} {f : List Char × List Char → Option β}

/-- What is told by the strings of a text. -/
def stringsIn (escaping : Bool) (f : List Char × List Char → Option β) (cs : List Char) : List β :=
  (strings escaping (.outside []) cs).filterMap f

theorem charsTell_quoteless {line : List Char} (h : '\x22' ∉ line) :
    CharsTell (stringsIn escaping f) line [] := fun rest => by
  rw [stringsIn, strings_quoteless h, List.nil_append, stringsIn]

theorem CharsTell.string {front content back : List Char} {told : List β}
    (hquote : '\x22' ∉ front) (hbreak : '\n' ∉ front) (hcontent : TakenIn escaping content)
    (hback : CharsTell (stringsIn escaping f) back told) :
    CharsTell (stringsIn escaping f) (front ++ '\x22' :: (content ++ '\x22' :: back))
      ((f (front.reverse, content)).toList ++ told) := by
  intro rest
  have hline : front ++ '\x22' :: (content ++ '\x22' :: back) ++ '\n' :: rest =
      front ++ '\x22' :: (content ++ '\x22' :: (back ++ '\n' :: rest)) := by simp
  rw [hline, stringsIn, strings_string hquote hbreak hcontent, List.append_assoc, ← hback]
  cases hf : f (front.reverse, content) with
  | none => rw [List.filterMap_cons_none hf]; rfl
  | some b => rw [List.filterMap_cons_some hf]; rfl

theorem lineTells_quoteless {line : String} (h : '\x22' ∉ line.toList) :
    LineTells (stringsIn escaping f) line [] := fun _ hpad =>
  charsTell_quoteless fun hmem =>
    (List.mem_append.mp hmem).elim (notMem_pad hpad (by decide)) h

/-- What is told by the lines within a block. -/
theorem Tells.block {head tail : String} {inner : List String} {told : List β}
    (h : Tells (stringsIn escaping f) inner told) (hhead : '\x22' ∉ head.toList)
    (htail : '\x22' ∉ tail.toList) :
    Tells (stringsIn escaping f) (block head inner tail) told :=
  h.enclose (lineTells_quoteless (by simpa using hhead))
    (lineTells_quoteless (by simpa using htail))

/-- What is told by the strings of a text is told by its lines. -/
theorem Tells.text {lines : List String} {told : List β}
    (h : Tells (stringsIn escaping f) lines told) :
    (strings escaping (.outside []) (unlines lines).toList).filterMap f = told :=
  h.read_unlines rfl

end strings

end RouteScaffold.Artifact
