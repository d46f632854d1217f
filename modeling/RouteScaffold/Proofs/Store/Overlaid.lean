import RouteScaffold.Proofs.Store.Notes

/-! The overlay and the store that it stands for.

The same requests are made of a store in memory and of the overlay over it. The store
takes every path from its working directory before it looks for it, while the overlay
compares paths as they are spelled, so what is noted under one spelling may be missed
under another (`overlaid_misses_absolute`). The two answer alike exactly if taking the
paths from the working directory does not change which of them lie below which
(`answersAlike_iff`), and that is so for paths that all start alike: all from the root,
all with a dot, or all without either (`answersAlike_of_lead`). -/
namespace RouteScaffold.Store

/-! ### Requests and answers -/

/-- What a store is asked or told at a path. -/
inductive Request where
  | write (path : Path) (content : String)
  | makeDir (path : Path)
  | read (path : Path)
  | has (path : Path)
  deriving DecidableEq, Repr

inductive Answer where
  | done (result : Except Fault Unit)
  | text (result : Except Fault String)
  | presence (there : Bool)

section requests
variable {m : Type → Type} [Monad m]

def Request.path : Request → Path
  | .write path _ | .makeDir path | .read path | .has path => path

def Request.ask (store : Store m) : Request → m Answer
  | .write path content => return .done (← store.write path content)
  | .makeDir path => return .done (← store.makeDir path)
  | .read path => return .text (← store.read path)
  | .has path => return .presence (← store.has path)

/-- What a store answers to one request after the other. -/
def answers (store : Store m) (requests : List Request) : m (List Answer) :=
  requests.mapM (Request.ask store)

end requests

/-- The answers of a store in memory. -/
def Memory.answers (s : Memory) (requests : List Request) : List Answer :=
  ((Store.answers memory requests).run s).1

/-- The answers of the overlay over a store in memory. -/
def Memory.overlaidAnswers (s : Memory) (notes : Notes) (requests : List Request) : List Answer :=
  (((Store.answers (dryRun memory) requests).run notes).run s).1.1

/-! ### One request -/

namespace Request

/-- What a store in memory answers. -/
def answerIn (s : Memory) : Request → Answer
  | .write _ _ | .makeDir _ => .done (.ok ())
  | .read path => .text (textAt path (s.file? path))
  | .has path => .presence (s.has path)

/-- What a store in memory becomes. -/
def perform (s : Memory) : Request → Memory
  | .write path content => s.write path content
  | .makeDir path => s.makeDir path
  | .read _ | .has _ => s

/-- What the overlay answers. -/
def overlaidAnswer (notes : Notes) (s : Memory) : Request → Answer
  | .write _ _ | .makeDir _ => .done (.ok ())
  | .read path => .text (textAt path ((notes.content? path).or (s.file? path)))
  | .has path => .presence (notes.has path || s.has path)

/-- What the overlay has noted then. -/
def note (notes : Notes) : Request → Notes
  | .write path content => { notes with writes := notes.writes ++ [⟨path, content⟩] }
  | .makeDir path => { notes with dirs := notes.dirs ++ [path] }
  | .read _ | .has _ => notes

theorem run_ask (s : Memory) (r : Request) :
    (r.ask memory).run s = (r.answerIn s, r.perform s) := by
  cases r with
  | write | makeDir | has => rfl
  | read path => exact run_bind_of (Run.run_read s path) _

theorem run_ask_dryRun (notes : Notes) (s : Memory) (r : Request) :
    ((r.ask (dryRun memory)).run notes).run s =
      ((r.overlaidAnswer notes s, r.note notes), s) := by
  cases r with
  | write | makeDir => rfl
  | read path =>
    have hread : (((dryRun memory).read path).run notes).run s =
        ((textAt path ((notes.content? path).or (s.file? path)), notes), s) := by
      simp only [dryRun, StateT.run_bind, StateT.run_get, pure_bind]
      cases notes.content? path with
      | some content => rfl
      | none =>
        show (memory.read path >>= fun result => pure (result, notes)).run s = _
        exact run_bind_of (Run.run_read s path) _
    rw [ask, StateT.run_bind]
    exact run_bind_of hread _
  | has path =>
    have hhas : (((dryRun memory).has path).run notes).run s =
        ((notes.has path || s.has path, notes), s) := by
      simp only [dryRun, StateT.run_bind, StateT.run_get, pure_bind]
      cases notes.has path <;> rfl
    rw [ask, StateT.run_bind]
    exact run_bind_of hhas _

end Request

theorem Memory.answers_cons (s : Memory) (r : Request) (requests : List Request) :
    s.answers (r :: requests) = r.answerIn s :: (r.perform s).answers requests := by
  rw [Memory.answers, Store.answers, List.mapM_cons, run_bind_of (r.run_ask s)]
  rfl

theorem Memory.overlaidAnswers_cons (s : Memory) (notes : Notes) (r : Request)
    (requests : List Request) :
    s.overlaidAnswers notes (r :: requests) =
      r.overlaidAnswer notes s :: s.overlaidAnswers (r.note notes) requests := by
  rw [Memory.overlaidAnswers, Store.answers, List.mapM_cons, StateT.run_bind,
    run_bind_of (r.run_ask_dryRun notes s)]
  rfl

/-! ### What is noted and what is done -/

theorem Notes.content?_write (notes : Notes) (path : Path) (content : String) (q : Path) :
    ({ notes with writes := notes.writes ++ [⟨path, content⟩] } : Notes).content? q =
      if path.same q then some content else notes.content? q := by
  rw [content?, content?, List.reverse_append, List.reverse_singleton, List.singleton_append,
    List.find?_cons]
  cases path.same q <;> rfl

/-- Taking the paths from a directory does not change which of them lie at or below which. -/
def KeptBy (dir : Path) (allowed : Path → Prop) : Prop :=
  ∀ p q, allowed p → allowed q → (dir.resolve p).startsWith (dir.resolve q) = p.startsWith q

theorem KeptBy.same {dir : Path} {allowed : Path → Prop} (h : KeptBy dir allowed) {p q : Path}
    (hp : allowed p) (hq : allowed q) : (dir.resolve p).same (dir.resolve q) = p.same q := by
  rw [Path.same_eq_startsWith, Path.same_eq_startsWith, h p q hp hq, h q p hq hp]

/-- At the allowed paths, what is noted over a state makes of it what another state is. -/
structure StandsFor (allowed : Path → Prop) (s₀ : Memory) (notes : Notes) (s : Memory) : Prop where
  workingDir : s.workingDir = s₀.workingDir
  file? : ∀ p, allowed p → s.file? p = (notes.content? p).or (s₀.file? p)
  has : ∀ p, allowed p → s.has p = (notes.has p || s₀.has p)

namespace StandsFor
variable {allowed : Path → Prop} {s₀ s : Memory} {notes : Notes} {r : Request}

theorem answer (h : StandsFor allowed s₀ notes s) (hr : allowed r.path) :
    r.overlaidAnswer notes s₀ = r.answerIn s := by
  cases r with
  | write | makeDir => rfl
  | read path => rw [Request.overlaidAnswer, Request.answerIn, h.file? path hr]
  | has path => rw [Request.overlaidAnswer, Request.answerIn, h.has path hr]

/-- A request at an allowed path does to the state what it adds to the notes. -/
theorem step (hkept : KeptBy s₀.workingDir allowed) (h : StandsFor allowed s₀ notes s)
    (hr : allowed r.path) : StandsFor allowed s₀ (r.note notes) (r.perform s) := by
  rw [← h.workingDir] at hkept
  cases r with
  | read | has => exact h
  | write path content =>
    refine ⟨h.workingDir, fun p hp => ?_, fun p hp => ?_⟩
    · have hsame : (s.resolve path).same (s.resolve p) = path.same p := hkept.same hr hp
      rw [Request.perform, Request.note, Memory.file?_write, Notes.content?_write, hsame,
        h.file? p hp]
      cases path.same p <;> rfl
    · have hbelow : (s.resolve path).startsWith (s.resolve p) = path.startsWith p :=
        hkept path p hr hp
      rw [Request.perform, Request.note, Memory.has_write, hbelow, h.has p hp]
      simp [Notes.has, Bool.or_assoc, Bool.or_left_comm]
  | makeDir path =>
    refine ⟨h.workingDir, h.file?, fun p hp => ?_⟩
    have hbelow : (s.resolve path).startsWith (s.resolve p) = path.startsWith p :=
      hkept path p hr hp
    rw [Request.perform, Request.note, Memory.has_makeDir, hbelow, h.has p hp]
    simp [Notes.has, Bool.or_assoc, Bool.or_left_comm]

theorem answers (hkept : KeptBy s₀.workingDir allowed) {requests : List Request}
    (hrequests : ∀ r ∈ requests, allowed r.path) (h : StandsFor allowed s₀ notes s) :
    s₀.overlaidAnswers notes requests = s.answers requests := by
  induction requests generalizing notes s with
  | nil => rfl
  | cons r requests ih =>
    obtain ⟨hr, hrest⟩ := List.forall_mem_cons.mp hrequests
    rw [Memory.overlaidAnswers_cons, Memory.answers_cons, h.answer hr, ih hrest (h.step hkept hr)]

end StandsFor

/-! ### Answering alike -/

/-- A store in memory refuses nothing but reading what is not there. -/
theorem Memory.kind_of_mem_answers {s : Memory} {requests : List Request} {fault : Fault}
    (h : .text (.error fault) ∈ s.answers requests) : fault.kind = .notFound := by
  induction requests generalizing s with
  | nil => cases h
  | cons r requests ih =>
    rw [Memory.answers_cons, List.mem_cons] at h
    rcases h with h | h
    · cases r with
      | read path =>
        rw [Request.answerIn, Answer.text.injEq] at h
        cases hfile : s.file? path with
        | some content =>
          rw [hfile] at h
          cases h
        | none =>
          rw [hfile] at h
          obtain rfl := Except.error.inj h
          rfl
      | write | makeDir | has => cases h
    · exact ih h

/-- With this working directory, the overlay answers requests at the allowed paths like the store
that it stands for, whatever that holds. -/
structure AnswersAlike (dir : Path) (allowed : Path → Prop) : Prop where
  same : ∀ (s : Memory) (requests : List Request), s.workingDir = dir →
    (∀ r ∈ requests, allowed r.path) → s.overlaidAnswers {} requests = s.answers requests
  /-- What is refused is reading what is not there. -/
  notFound : ∀ (s : Memory) (requests : List Request) (fault : Fault), s.workingDir = dir →
    (∀ r ∈ requests, allowed r.path) →
    .text (.error fault) ∈ s.overlaidAnswers {} requests → fault.kind = .notFound

theorem KeptBy.answersAlike {dir : Path} {allowed : Path → Prop} (h : KeptBy dir allowed) :
    AnswersAlike dir allowed := by
  have hsame (s : Memory) (requests : List Request) (hdir : s.workingDir = dir)
      (hrequests : ∀ r ∈ requests, allowed r.path) :
      s.overlaidAnswers {} requests = s.answers requests :=
    StandsFor.answers (hdir ▸ h) hrequests ⟨rfl, fun _ _ => rfl, fun _ _ => rfl⟩
  refine ⟨hsame, fun s requests fault hdir hrequests hmem => ?_⟩
  rw [hsame s requests hdir hrequests] at hmem
  exact Memory.kind_of_mem_answers hmem

/-- Paths that start alike stay as they lie to each other. -/
theorem keptBy_of_lead (dir : Path) (lead : Path.Lead) :
    KeptBy dir fun p => p.parts.lead = lead := by
  intro p q hp hq
  by_cases hroot : lead = .root
  · have habs {path : Path} (hpath : path.parts.lead = lead) : path.isAbsolute = true := by
      rw [Path.isAbsolute, hpath, hroot]
      rfl
    rw [Path.resolve_of_isAbsolute dir (habs hp), Path.resolve_of_isAbsolute dir (habs hq)]
  · have hrel {path : Path} (hpath : path.parts.lead = lead) : path.isAbsolute = false := by
      rw [Path.isAbsolute, hpath]
      exact beq_eq_false_iff_ne.mpr hroot
    rw [Path.resolve, if_neg (by simp [hrel hp]), Path.resolve, if_neg (by simp [hrel hq])]
    by_cases hdir : dir.text = ""
    · have hempty : dir = ⟨""⟩ := congrArg Path.mk hdir
      rw [hempty, Path.empty_join, Path.empty_join]
    · -- Both have the same components in front of their steps, before and after.
      have hsteps {path : Path} (hpath : path.parts.lead = lead) :
          path.components = lead.components ++ path.steps := by
        rw [Path.components_eq, ← Path.lead_eq, hpath]
      rw [Path.startsWith, Path.startsWith, Path.components_join hdir (hrel hp),
        Path.components_join hdir (hrel hq), hsteps hp, hsteps hq, Bool.eq_iff_iff,
        List.isPrefixOf_iff_prefix, List.isPrefixOf_iff_prefix, List.prefix_append_right_inj,
        List.prefix_append_right_inj]

/-- **Where all paths start alike, the overlay answers like the store**: all from the root, all
with a dot, or all without either. -/
theorem answersAlike_of_lead (dir : Path) (lead : Path.Lead) :
    AnswersAlike dir fun p => p.parts.lead = lead := (keptBy_of_lead dir lead).answersAlike

/-- **The overlay answers like the store exactly at paths that lie to each other as they do within
the working directory.** -/
theorem answersAlike_iff (dir : Path) (allowed : Path → Prop) :
    AnswersAlike dir allowed ↔ ∀ p q, allowed p → allowed q →
      (dir.resolve p).startsWith (dir.resolve q) = p.startsWith q := by
  refine ⟨fun h p q hp hq => ?_, KeptBy.answersAlike⟩
  -- Nothing is there but the one path: what is there of the other is told by how they lie.
  let s : Memory := { workingDir := dir }
  have hanswers := h.same s [.makeDir p, .has q] rfl (by simp [Request.path, hp, hq])
  rw [Memory.overlaidAnswers_cons, Memory.overlaidAnswers_cons, Memory.answers_cons,
    Memory.answers_cons] at hanswers
  have hpresence : (((Request.makeDir p).note {}).has q || s.has q) = (s.makeDir p).has q :=
    Answer.presence.inj (List.head_eq_of_cons_eq (List.tail_eq_of_cons_eq hanswers))
  have hnoted : ((Request.makeDir p).note {}).has q = p.startsWith q := by
    simp [Request.note, Notes.has]
  rw [Memory.has_makeDir, hnoted, show s.has q = false from rfl, Bool.or_false,
    Bool.or_false] at hpresence
  exact hpresence.symm

/-- What is noted under a relative path is missed under the absolute path of the same file. -/
theorem overlaid_misses_absolute :
    let s : Memory := { workingDir := ⟨"/project"⟩ }
    let requests : List Request := [.write ⟨"a.ts"⟩ "x", .read ⟨"/project/a.ts"⟩]
    s.answers requests = [.done (.ok ()), .text (.ok "x")] ∧
    s.overlaidAnswers {} requests =
      [.done (.ok ()), .text (.error (.noSuchFile ⟨"/project/a.ts"⟩))] :=
  ⟨rfl, rfl⟩

end RouteScaffold.Store
