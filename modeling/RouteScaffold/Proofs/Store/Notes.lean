import Mathlib.Data.List.Pairwise
import RouteScaffold.Proofs.Run.Rehearsal
import RouteScaffold.Proofs.Store.Files

/-! Notes and what they say of a store.

After all that is noted, a path holds what was noted for it last (`file?_perform`), and
the descriptor files are the same if none was written (`descriptors_perform`). A noted
write is told to be out of date exactly if its path does not hold its content
(`stale_iff`). -/
namespace RouteScaffold.Store

/-! ### What noted writes make of a state -/

theorem Memory.has_of_file? {s : Memory} {path : Path} {content : String}
    (h : s.file? path = some content) : s.has path = true := by
  obtain ⟨file, hfile, -⟩ := Option.map_eq_some_iff.mp h
  have hsame := List.find?_some hfile
  rw [Memory.has, Bool.or_eq_true]
  refine .inl (List.any_eq_true.mpr ⟨file, List.mem_of_find?_eq_some hfile, ?_⟩)
  rw [Path.startsWith, Path.same_iff.mp hsame]
  exact List.isPrefixOf_iff_prefix.mpr List.prefix_rfl

/-- All paths that are written are absolute. -/
def Notes.Absolute (notes : Notes) : Prop := ∀ w ∈ notes.writes, w.path.isAbsolute = true

theorem file?_dirs (dirs : List Path) (s : Memory) (q : Path) :
    (dirs.foldl Memory.makeDir s).file? q = s.file? q := by
  induction dirs generalizing s with
  | nil => rfl
  | cons dir dirs ih => exact ih (s.makeDir dir)

/-- After all that is noted, a path holds what was noted for it last. -/
theorem file?_perform {notes : Notes} (h : notes.Absolute) (s : Memory) {q : Path}
    (hq : q.isAbsolute = true) :
    (notes.perform s).file? q = (notes.content? q).or (s.file? q) := by
  obtain ⟨writes, dirs⟩ := notes
  induction writes using List.reverseRecOn with
  | nil => exact file?_dirs dirs s q
  | append_singleton writes w ih =>
    have hw : w.path.isAbsolute = true := h w (List.mem_append_right _ (List.mem_singleton_self w))
    have hrest : Notes.Absolute ⟨writes, dirs⟩ := fun w hw => h w (List.mem_append_left _ hw)
    rw [perform_write ⟨writes, dirs⟩, Memory.file?_write, ih hrest, Memory.resolve, Memory.resolve,
      Path.resolve_of_isAbsolute _ hw, Path.resolve_of_isAbsolute _ hq, Notes.content?,
      Notes.content?, List.reverse_append, List.reverse_singleton, List.singleton_append,
      List.find?_cons]
    cases w.path.same q <;> rfl

theorem workingDir_perform (notes : Notes) (s : Memory) :
    (notes.perform s).workingDir = s.workingDir := by
  obtain ⟨writes, dirs⟩ := notes
  induction writes using List.reverseRecOn with
  | nil =>
    induction dirs generalizing s with
    | nil => rfl
    | cons dir dirs ih => exact ih (s.makeDir dir)
  | append_singleton writes w ih =>
    rw [perform_write ⟨writes, dirs⟩]
    exact ih

/-! ### Statuses -/

/-- How a noted write compares with a memory state. -/
def statusIn (s : Memory) (w : Written) : Status :=
  match s.file? w.path with
  | some content => if content == w.content then .unchanged else .changed
  | none => if s.has w.path then .changed else .created

theorem run_bind_of {α β : Type} {x : StateM Memory α} {a : α} {s s' : Memory}
    (h : x.run s = (a, s')) (f : α → StateM Memory β) : (x >>= f).run s = (f a).run s' := by
  rw [StateT.run_bind, h]
  rfl

theorem run_statusOf (s : Memory) (w : Written) :
    (statusOf memory w).run s = (statusIn s w, s) := by
  have hhas : (memory.has w.path).run s = (s.has w.path, s) := rfl
  have hread := Run.run_read s w.path
  rw [statusOf, run_bind_of hhas, statusIn]
  cases hfile : s.file? w.path with
  | none =>
    rw [hfile] at hread
    cases s.has w.path with
    | true =>
      rw [if_pos rfl, run_bind_of hread]
      rfl
    | false => rfl
  | some content =>
    rw [hfile] at hread
    rw [if_pos (Memory.has_of_file? hfile), run_bind_of hread]
    rfl

theorem run_statuses (s : Memory) (notes : Notes) :
    (statuses memory notes).run s = (notes.writes.map fun w => (w, statusIn s w), s) := by
  rw [statuses]
  induction notes.writes with
  | nil => rfl
  | cons w writes ih =>
    have hstatus : (do return (w, ← statusOf memory w) : StateM Memory _).run s =
        ((w, statusIn s w), s) := run_bind_of (run_statusOf s w) _
    rw [List.mapM_cons, run_bind_of hstatus, run_bind_of ih]
    rfl

/-- Some noted write is not what the store holds. -/
def Stale (s : Memory) (notes : Notes) : Prop :=
  ∃ told ∈ ((statuses memory notes).run s).1, told.2 ≠ .unchanged

theorem stale_iff {s : Memory} {notes : Notes} :
    Stale s notes ↔ ∃ w ∈ notes.writes, s.file? w.path ≠ some w.content := by
  have hstatus (w : Written) : statusIn s w = .unchanged ↔ s.file? w.path = some w.content := by
    rw [statusIn]
    cases s.file? w.path with
    | none => cases s.has w.path <;> simp
    | some content => by_cases hsame : content = w.content <;> simp [hsame]
  rw [Stale, run_statuses]
  constructor
  · rintro ⟨told, htold, hne⟩
    obtain ⟨w, hw, rfl⟩ := List.mem_map.mp htold
    exact ⟨w, hw, fun h => hne ((hstatus w).mpr h)⟩
  · rintro ⟨w, hw, hne⟩
    exact ⟨(w, statusIn s w), List.mem_map_of_mem hw, fun h => hne ((hstatus w).mp h)⟩

/-- Some path holds another content, or has come to hold one. -/
def Differs (s s' : Memory) : Prop := ∃ path, s'.file? path ≠ s.file? path

/-- Two writes at one path are noted that do not agree. -/
def Notes.Disagree (notes : Notes) : Prop :=
  ∃ a ∈ notes.writes, ∃ b ∈ notes.writes, a.path.same b.path = true ∧ a.content ≠ b.content

/-- Writing files that are no descriptor files leaves those that are. -/
theorem descriptors_perform {notes : Notes} (habs : notes.Absolute)
    (h : ∀ w ∈ notes.writes, Route.isDescriptor w.path = false) (s : Memory) :
    (notes.perform s).descriptors = s.descriptors := by
  obtain ⟨writes, dirs⟩ := notes
  induction writes using List.reverseRecOn with
  | nil =>
    clear habs h
    induction dirs generalizing s with
    | nil => rfl
    | cons dir dirs ih => exact ih (s.makeDir dir)
  | append_singleton writes w ih =>
    have hmem : w ∈ writes ++ [w] := List.mem_append_right _ (List.mem_singleton_self w)
    have hnot : Route.isDescriptor ((Notes.perform ⟨writes, dirs⟩ s).resolve w.path) = false := by
      rw [Memory.resolve, Path.resolve_of_isAbsolute _ (habs w hmem)]
      exact h w hmem
    rw [perform_write ⟨writes, dirs⟩, Memory.descriptors_write hnot]
    exact ih (fun w hw => habs w (List.mem_append_left _ hw))
      fun w hw => h w (List.mem_append_left _ hw)

theorem Memory.file?_congr (s : Memory) {p q : Path} (h : p.same q = true) :
    s.file? p = s.file? q := by
  have hsame : (s.resolve p).components = (s.resolve q).components := by
    rw [Memory.resolve, Memory.resolve, Path.resolve, Path.resolve]
    have habs : p.isAbsolute = q.isAbsolute := by
      rw [Bool.eq_iff_iff, Path.isAbsolute_iff_head, Path.isAbsolute_iff_head,
        Path.same_iff.mp h]
    rw [habs]
    split
    · exact Path.same_iff.mp h
    · exact Path.components_join_congr _ (Path.same_iff.mp h)
  have hfind : (fun file : Path × String => file.1.same (s.resolve p)) =
      fun file => file.1.same (s.resolve q) := by
    funext file
    exact Path.same_congr (Path.same_iff.mpr hsame) file.1
  rw [Memory.file?, Memory.file?, hfind]

theorem exists_content? {notes : Notes} {w : Written} (h : w ∈ notes.writes) :
    ∃ content, notes.content? w.path = some content := by
  obtain ⟨found, hfound⟩ := Option.isSome_iff_exists.mp
    (List.find?_isSome (p := (·.path.same w.path)) |>.mpr
      ⟨w, List.mem_reverse.mpr h, Path.same_iff.mpr rfl⟩)
  exact ⟨found.content, by rw [Notes.content?, hfound]; rfl⟩

theorem mem_of_content? {notes : Notes} {path : Path} {content : String}
    (h : notes.content? path = some content) :
    ∃ w ∈ notes.writes, w.path.same path = true ∧ w.content = content := by
  obtain ⟨w, hw, rfl⟩ := Option.map_eq_some_iff.mp h
  have hsame := List.find?_some hw
  exact ⟨w, List.mem_reverse.mp (List.mem_of_find?_eq_some hw), hsame, rfl⟩

/-- Writes at different paths cannot disagree. -/
theorem not_disagree {notes : Notes}
    (h : notes.writes.Pairwise fun a b => a.path.same b.path = false) : ¬ notes.Disagree := by
  rintro ⟨a, ha, b, hb, hsame, hne⟩
  have hsymm : Std.Symm fun a b : Written => a.path.same b.path = false :=
    ⟨fun a b hab => by rw [← hab, Path.same, Path.same, BEq.comm]⟩
  have hdiffer : a ≠ b := fun heq => hne (by rw [heq])
  rw [h.forall ha hb hdiffer] at hsame
  cases hsame

end RouteScaffold.Store
