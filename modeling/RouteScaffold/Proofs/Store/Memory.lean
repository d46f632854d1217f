import RouteScaffold.Proofs.Path.Absolute
import RouteScaffold.Store.DryRun
import RouteScaffold.Store.Memory

/-! What exists in a store in memory.

Writing a file or making a directory lets its path exist and the paths above it,
and nothing else (`has_write`, `has_makeDir`), also where another spelling of the
path is there already. -/
namespace RouteScaffold.Store.Memory

theorem startsWith_congr {p q : Path} (h : p.components = q.components) (base : Path) :
    p.startsWith base = q.startsWith base := by
  rw [Path.startsWith, h, Path.startsWith]

theorem any_insertFile (path : Path) (content : String) (files : List (Path × String))
    (base : Path) :
    (insertFile path content files).any (·.1.startsWith base) =
      (path.startsWith base || files.any (·.1.startsWith base)) := by
  induction files with
  | nil => simp [insertFile]
  | cons file files ih =>
    rw [insertFile]
    split
    next => simp
    next heq =>
      have hsame := startsWith_congr (Path.components_of_compare heq) base
      simp [hsame]
    next => simp [ih, Bool.or_left_comm]

theorem any_insertPath (path : Path) (dirs : List Path) (base : Path) :
    (insertPath path dirs).any (·.startsWith base) =
      (path.startsWith base || dirs.any (·.startsWith base)) := by
  induction dirs with
  | nil => simp [insertPath]
  | cons dir dirs ih =>
    rw [insertPath]
    split
    next => simp
    next heq =>
      have hsame := startsWith_congr (Path.components_of_compare heq) base
      simp [hsame]
    next => simp [ih, Bool.or_left_comm]

theorem has_addFile (s : Memory) (path : Path) (content : String) (base : Path) :
    (s.addFile path content).has base =
      ((s.resolve path).startsWith (s.resolve base) || s.has base) := by
  show ((insertFile (s.resolve path) content s.files).any (·.1.startsWith (s.resolve base)) ||
    _) = _
  rw [any_insertFile, Bool.or_assoc]
  rfl

theorem has_write (s : Memory) (path : Path) (content : String) (base : Path) :
    (s.write path content).has base =
      ((s.resolve path).startsWith (s.resolve base) || s.has base) :=
  has_addFile s path content base

theorem has_makeDir (s : Memory) (path base : Path) :
    (s.makeDir path).has base =
      ((s.resolve path).startsWith (s.resolve base) || s.has base) := by
  show (_ || (insertPath (s.resolve path) s.dirs).any (·.startsWith (s.resolve base))) = _
  rw [any_insertPath, Bool.or_left_comm]
  rfl

end RouteScaffold.Store.Memory
