import Mathlib.Data.List.Flatten
import Mathlib.Data.List.Perm.Basic
import RouteScaffold.Artifact.Endpoint
import RouteScaffold.Artifact.Names

/-! The names of what is generated.

Every name is either fixed or made of the name of the route's resource between two
fixed words (`Mold`), which the method and the kind of the name give. Of the resource
nothing is known but its characters, and yet two molds can be told apart by their
words (`fill_ne_of_apart`). So the names that a module binds are different for every
resource as soon as they are for the five methods (`nodup_names`). -/
namespace RouteScaffold.Artifact
open Route Text

/-! ### The resource -/

theorem isAlphanumeric_of_mem_resource {path : String} {c : Char}
    (h : c ∈ (resourceName path).toList) : isAlphanumeric c = true := by
  have hroot : ∀ c ∈ "Root".toList, isAlphanumeric c = true :=
    List.all_eq_true.mp (by decide)
  have hname : ∀ c ∈ ((namingSegments path.toList).flatMap pascalChars).filter isAlphanumeric,
      isAlphanumeric c = true := fun c hc => (List.mem_filter.mp hc).2
  rw [resourceName, String.toList_ofList] at h
  split at h
  next => exact hroot c h
  next first rest heq =>
    rw [heq] at hname
    split at h
    · exact (List.mem_append.mp h).elim (hroot c) (hname c)
    · exact hname c h

/-- A character that is neither a letter nor a number is not in the resource's name. -/
theorem Endpoint.notMem_resource (e : Endpoint) {c : Char} (hc : isAlphanumeric c = false) :
    c ∉ e.resource.toList := fun h => by
  rw [isAlphanumeric_of_mem_resource h] at hc
  cases hc

/-! ### Methods in names -/

/-- The method as type names spell it. -/
def title : Method → String
  | .get => "Get"
  | .post => "Post"
  | .put => "Put"
  | .patch => "Patch"
  | .delete => "Delete"

theorem pascalCase_token (m : Method) : pascalCase m.token = title m := by
  cases m <;> decide

theorem stemOf_eq (m : Method) (resource : String) : stemOf m resource = title m ++ resource := by
  rw [stemOf, pascalCase_token]

/-- The text is one word of an identifier. -/
structure IsWord (id : List Char) : Prop where
  hyphenless : '-' ∉ id
  underscoreless : '_' ∉ id

theorem IsWord.append {a b : List Char} (ha : IsWord a) (hb : IsWord b) : IsWord (a ++ b) where
  hyphenless := by simp [ha.hyphenless, hb.hyphenless]
  underscoreless := by simp [ha.underscoreless, hb.underscoreless]

theorem isWord_title (m : Method) : IsWord (title m).toList := by
  cases m <;> exact ⟨by decide, by decide⟩

theorem Endpoint.isWord_resource (e : Endpoint) : IsWord e.resource.toList :=
  ⟨e.notMem_resource (by decide), e.notMem_resource (by decide)⟩

/-- An identifier of one word is capitalized. -/
theorem IsWord.pascalChars {id : List Char} (h : IsWord id) (hne : id ≠ []) :
    pascalChars id = capitalize id := by
  have hsolid : ∀ c ∈ id, (c == '-' || c == '_') = false := fun c hc => by
    rw [Bool.or_eq_false_iff, beq_eq_false_iff_ne, beq_eq_false_iff_ne]
    exact ⟨fun heq => h.hyphenless (heq ▸ hc), fun heq => h.underscoreless (heq ▸ hc)⟩
  rw [Route.pascalChars, identWords, separate_of_forall hsolid]
  cases id with
  | nil => exact absurd rfl hne
  | cons c id => simp

/-- In camel case a method is spelled as in file names again. -/
theorem camelCase_title (m : Method) {rest : String} (h : IsWord rest.toList) :
    camelCase (title m ++ rest) = m.token ++ rest := by
  have hlower : (title m).toList ++ rest.toList ≠ [] ∧
      uncapitalize (capitalize ((title m).toList ++ rest.toList)) =
        m.token.toList ++ rest.toList := by
    cases m <;> exact ⟨List.append_ne_nil_of_left_ne_nil (by decide) _, rfl⟩
  rw [camelCase, String.toList_append, ((isWord_title m).append h).pascalChars hlower.1, hlower.2,
    ← String.toList_append, String.ofList_toList]

/-! ### Molds -/

/-- What a name is made of, besides a resource. -/
inductive Mold where
  | fixed (text : String)
  | around (front back : String)
  deriving DecidableEq

namespace Mold

/-- The name for a resource. -/
def fill (resource : String) : Mold → String
  | fixed text => text
  | around front back => front ++ resource ++ back

/-- One of the words starts with the other. -/
def sameStart (a b : String) : Bool :=
  a.toList.isPrefixOf b.toList || b.toList.isPrefixOf a.toList

/-- One of the words ends with the other. -/
def sameEnd (a b : String) : Bool :=
  a.toList.isSuffixOf b.toList || b.toList.isSuffixOf a.toList

/-- The words of the molds show that no resource makes one name of them. -/
def apart : Mold → Mold → Bool
  | fixed a, fixed b => a != b
  | fixed a, around front back | around front back, fixed a =>
    !(front.toList.isPrefixOf a.toList && back.toList.isSuffixOf a.toList)
  | around front back, around front' back' =>
    -- The resource is the same on both sides, so that what is around it has to be, too.
    !(sameStart front front' && sameEnd back back' &&
      (front.toList ++ back.toList).isPerm (front'.toList ++ back'.toList))

variable {resource : String}

theorem ends_of_eq_around {text front back : String}
    (h : text = front ++ resource ++ back) :
    front.toList.isPrefixOf text.toList && back.toList.isSuffixOf text.toList := by
  subst h
  simp only [String.toList_append, Bool.and_eq_true, List.isPrefixOf_iff_prefix,
    List.isSuffixOf_iff_suffix]
  exact ⟨⟨_, (List.append_assoc ..).symm⟩, List.suffix_append ..⟩

theorem not_apart_of_fill_eq {a b : Mold} (h : a.fill resource = b.fill resource) :
    a.apart b = false := by
  cases a with
  | fixed a =>
    cases b with
    | fixed b => simpa [apart, fill] using h
    | around front back => simpa [apart, fill] using ends_of_eq_around h
  | around front back =>
    cases b with
    | fixed b => simpa [apart, fill] using ends_of_eq_around h.symm
    | around front' back' =>
      have hlist := congrArg String.toList h
      simp only [fill, String.toList_append, List.append_assoc] at hlist
      have hstart : sameStart front front' = true := by
        simp only [sameStart, Bool.or_eq_true, List.isPrefixOf_iff_prefix]
        exact List.prefix_or_prefix_of_prefix ⟨_, rfl⟩ ⟨_, hlist.symm⟩
      have hend : sameEnd back back' = true := by
        simp only [← List.append_assoc] at hlist
        simp only [sameEnd, Bool.or_eq_true, List.isSuffixOf_iff_suffix]
        exact List.suffix_or_suffix_of_suffix ⟨_, rfl⟩ ⟨_, hlist.symm⟩
      have hperm : (front.toList ++ back.toList).isPerm (front'.toList ++ back'.toList) := by
        rw [List.isPerm_iff, ← List.perm_append_left_iff resource.toList]
        refine (List.perm_append_comm_assoc ..).trans ?_
        rw [hlist]
        exact List.perm_append_comm_assoc ..
      simp [apart, hstart, hend, hperm]

theorem fill_ne_of_apart {a b : Mold} (h : a.apart b = true) (resource : String) :
    a.fill resource ≠ b.fill resource := fun heq => by
  rw [not_apart_of_fill_eq heq] at h
  cases h

end Mold

/-! ### Templates -/

/-- A part of what a module binds. -/
inductive Slot where
  | once (molds : List Mold)
  /-- For each of some methods. -/
  | each (molds : Method → List Mold)

def Slot.molds (methods : List Method) : Slot → List Mold
  | once molds => molds
  | each molds => methods.flatMap molds

/-- What a module binds for some methods. -/
abbrev Template := List Slot

namespace Template

def molds (t : Template) (methods : List Method) : List Mold := t.flatMap (·.molds methods)

/-- No two names of a template can be the same, whatever the methods. -/
def Clear (t : Template) : Prop := (t.molds Method.all).Pairwise fun a b => a.apart b = true

instance (t : Template) : Decidable t.Clear := inferInstanceAs (Decidable (List.Pairwise _ _))

def names (t : Template) (methods : List Method) (resource : String) : List String :=
  (t.molds methods).map (Mold.fill resource)

variable {t : Template} {methods : List Method}

theorem perm_molds {methods' : List Method} (h : methods.Perm methods') :
    (t.molds methods).Perm (t.molds methods') :=
  List.Perm.flatMap_left t fun slot _ => by
    cases slot with
    | once molds => exact .refl _
    | each molds => exact h.flatMap_right molds

theorem sublist_molds {methods' : List Method} (h : methods.Sublist methods') :
    (t.molds methods).Sublist (t.molds methods') :=
  List.Sublist.flatMap_right t fun slot _ => by
    cases slot with
    | once molds => exact .refl _
    | each molds => exact h.flatMap molds

/-- Different methods are a permutation of some of all. -/
theorem exists_perm_sublist (h : methods.Nodup) :
    ∃ kept, methods.Perm kept ∧ kept.Sublist Method.all := by
  refine ⟨Method.all.filter (· ∈ methods), ?_, List.filter_sublist⟩
  have hall : Method.all.Nodup := by decide
  rw [List.perm_ext_iff_of_nodup h (hall.filter _)]
  exact fun m => by simp [Method.mem_all]

/-- What a clear template binds for different methods are different names. -/
theorem nodup_names (ht : t.Clear) (h : methods.Nodup) (resource : String) :
    (t.names methods resource).Nodup := by
  obtain ⟨kept, hperm, hsub⟩ := exists_perm_sublist h
  have hkept : ((t.molds kept).map (Mold.fill resource)).Nodup :=
    List.pairwise_map.mpr ((ht.sublist (sublist_molds hsub)).imp fun hapart =>
      Mold.fill_ne_of_apart hapart resource)
  exact ((perm_molds hperm).map _).nodup_iff.mpr hkept

end Template
end RouteScaffold.Artifact
