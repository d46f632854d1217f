import RouteScaffold.Proofs.Source.Filled
import RouteScaffold.Proofs.Source.Reached

/-! What a string says is not read.

Strings between the same quotes fit in the same slot. So wherever a string stands behind the key of
its entry, what is read from the entries (`Entry.gist`) is the same whatever the string says
(`entries_unread`): it may hold any bracket, comma or call. -/
namespace RouteScaffold.Source
open Text Route

/-- What the string says does not count. -/
def Unread (quote : Char) {α : Type} (f : List Char → α) : Prop :=
  ∃ r, ∀ body, StringBody quote body → f body = r

section
variable {quote : Char} {before : Option Char}

theorem Unread.of_eq {α : Type} {f : List Char → α} (r : α)
    (h : ∀ body, StringBody quote body → f body = r) : Unread quote f := ⟨r, h⟩

theorem Unread.map {α β : Type} {f : List Char → α} (h : Unread quote f) (g : α → β) :
    Unread quote fun body => g (f body) := by
  obtain ⟨r, hr⟩ := h
  exact ⟨g r, fun body hbody => congrArg g (hr body hbody)⟩

theorem Unread.congr {α : Type} {f f' : List Char → α} (h : Unread quote f)
    (heq : ∀ body, StringBody quote body → f' body = f body) : Unread quote f' := by
  obtain ⟨r, hr⟩ := h
  exact ⟨r, fun body hbody => (heq body hbody).trans (hr body hbody)⟩

theorem Unread.eq {α : Type} {f : List Char → α} (h : Unread quote f) {a b : List Char}
    (ha : StringBody quote a) (hb : StringBody quote b) : f b = f a := by
  obtain ⟨r, hr⟩ := h
  rw [hr a ha, hr b hb]

/-- What does not depend on the string in a slot does not depend on what the string says. -/
theorem Uniform.unread {α : Type} {f : List Char → α} {front back : List Char}
    (h : Uniform (IsString quote) fun text => f (front ++ (text ++ back))) :
    Unread quote fun body => f (withString quote front body back) := by
  obtain ⟨r, hr⟩ := h
  exact ⟨r, fun body hbody => (congrArg f (withString_eq ..)).trans (hr _ ⟨body, hbody, rfl⟩)⟩

theorem Stops.withString {read : List Char → Option Cut} (h : Stops quote read)
    (front body back : List Char) : read (withString quote front body back) =
      (read front).map fun cut => (cut.1, withString quote cut.2 body back) := h.stop front _

/-- What is read from an entry: its key, the field it declares and the name that its value starts
with. -/
def Entry.gist (entry : Entry) : List Char × Field × Option (List Char) :=
  (entry.key, entry.field, (identifier? entry.value).map Prod.fst)

theorem quoted_isString (hq : isQuote quote = true) : Quoted (IsString quote) :=
  ⟨quote, hq, by rintro _ ⟨body, -, rfl⟩; rfl⟩

theorem gist_uniform (hq : isQuote quote = true) (key : List Char) {front back : List Char}
    (h : Slot (IsString quote) before front back) :
    Uniform (IsString quote) fun text => Entry.gist ⟨key, front ++ (text ++ back)⟩ := by
  obtain ⟨field, hfield⟩ := field_uniform key h
  obtain ⟨word, hword⟩ : Uniform (IsString quote) fun text =>
      (identifier? (front ++ (text ++ back))).map Prod.fst := by
    obtain hnone | ⟨name, rest, -, hname⟩ :=
      h.read (fun _ => stops_identifier) (.inl (quoted_isString hq))
    · exact .of_eq none fun p hp => by rw [hnone p hp]; rfl
    · exact .of_eq (some name) fun p hp => by rw [hname p hp]; rfl
  exact ⟨(key, field, word), fun p hp =>
    congrArg₂ (fun field word => (key, field, word)) (hfield p hp) (hword p hp)⟩

/-- What is read from the entries of a literal does not depend on what a string behind the key of
its entry says. -/
theorem entries_unread {front : List Char} (h : Reaches quote none front)
    (hq : isQuote quote = true) (hkey : BehindKey ((commaParts front).getLastD []))
    (back : List Char) :
    Unread quote fun body => (entries (withString quote front body back)).map Entry.gist := by
  have hentries := entries_uniform (fun key _ _ _ => gist_uniform hq key) (h.slot hq back) hkey
  exact hentries.unread (f := fun literal => (entries literal).map Entry.gist)

end

end RouteScaffold.Source
