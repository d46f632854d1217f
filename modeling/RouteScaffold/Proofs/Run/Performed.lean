import RouteScaffold.Proofs.Run.Alike
import RouteScaffold.Proofs.Store.Observed

/-! What a run has done.

The log of an observed run tells all that the run did to the memory state
(`memory_observedRun`), and a run that is hindered in its changes has done a first
part of what it does unhindered (`changes_shortened`). -/
namespace RouteScaffold.Run
open Route Artifact Store

/-- How an observed run ends. -/
structure Ending where
  result : Except Failure (List Generated)
  log : Log
  memory : Memory

/-- A run on a memory state under observation. -/
def observedRun (faults : Faults) (options : Options) (s : Memory) : Ending :=
  let (result, log, s) := exec (ExceptT.mk (generate (observed faults memory) options)) [] s
  ⟨result, log, s⟩

theorem observedRun_eq {faults : Faults} {options : Options} {s : Memory}
    {result : Except Failure (List Generated)} {log : Log} {s' : Memory}
    (h : exec (plan (observed faults memory) options >>= fun plans =>
      plans.mapM (writePlanned (observed faults memory))) [] s = (result, log, s')) :
    observedRun faults options s = ⟨result, log, s'⟩ := by
  show (match exec (plan (observed faults memory) options >>= fun plans =>
    plans.mapM (writePlanned (observed faults memory))) [] s with
    | (result, log, s') => Ending.mk result log s') = _
  rw [h]

/-! ### What a run has done -/

/-- The computation logs all that it does to the memory state. -/
def Performs {α : Type} (x : Process Log α) : Prop :=
  ∀ log s, ∃ events, (exec x log s).2.1 = log ++ events ∧
    (exec x log s).2.2 = (Log.changes events).foldl Call.perform s

/-- The first computation does what the second one does, or fails on the way there. -/
structure Shortens {α : Type} (x y : Process Log α) : Prop where
  first : Performs x
  second : Performs y
  cut : ∀ log s, exec x log s = exec y log s ∨
    ∃ failure, (exec x log s).1 = .error failure ∧
      Log.changes (exec x log s).2.1 <+: Log.changes (exec y log s).2.1

theorem performs_still {α : Type} {x : Process Log α}
    (h : ∀ log s, ∃ result, exec x log s = (result, log, s)) : Performs x := by
  intro log s
  obtain ⟨result, hexec⟩ := h log s
  rw [hexec]
  exact ⟨[], by simp [Log.changes]⟩

theorem Performs.bind {α β : Type} {x : Process Log α} {f : α → Process Log β} (hx : Performs x)
    (hf : ∀ a, Performs (f a)) : Performs (x >>= f) := by
  intro log s
  obtain ⟨events, hlog, hs⟩ := hx log s
  rw [exec_bind]
  rcases hexec : exec x log s with ⟨result, log', s'⟩
  rw [hexec] at hlog hs
  cases result with
  | error failure => exact ⟨events, hlog, hs⟩
  | ok a =>
    obtain ⟨more, hlog', hs'⟩ := hf a log' s'
    refine ⟨events ++ more, ?_, ?_⟩
    · rw [← List.append_assoc, ← show log' = log ++ events from hlog]
      exact hlog'
    · rw [Log.changes_append, List.foldl_append, ← show s' = _ from hs]
      exact hs'

theorem Performs.changes_shortened {α : Type} {x : Process Log α} (h : Performs x) (log : Log)
    (s : Memory) : Log.changes log <+: Log.changes (exec x log s).2.1 := by
  obtain ⟨events, hlog, -⟩ := h log s
  rw [hlog, Log.changes_append]
  exact List.prefix_append ..

theorem shortens_refl {α : Type} {x : Process Log α} (h : Performs x) : Shortens x x :=
  ⟨h, h, fun _ _ => .inl rfl⟩

/-- A computation that was cut short has changed no more than the other one. -/
theorem Shortens.changes_shortened {α : Type} {x y : Process Log α} (h : Shortens x y) (log : Log)
    (s : Memory) : Log.changes (exec x log s).2.1 <+: Log.changes (exec y log s).2.1 := by
  rcases h.cut log s with heq | ⟨-, -, hprefix⟩
  · simp only [heq, List.prefix_rfl]
  · exact hprefix

theorem Shortens.bind {α β : Type} {x y : Process Log α} {f g : α → Process Log β}
    (hx : Shortens x y) (hf : ∀ a, Shortens (f a) (g a)) : Shortens (x >>= f) (y >>= g) := by
  refine ⟨hx.first.bind fun a => (hf a).first, hx.second.bind fun a => (hf a).second,
    fun log s => ?_⟩
  rw [exec_bind, exec_bind]
  rcases hx.cut log s with heq | ⟨failure, hfailure, hprefix⟩
  · rw [heq]
    rcases exec y log s with ⟨result | a, log', s'⟩
    · exact .inl rfl
    · exact (hf a).cut log' s'
  · -- What follows the failure is not run, and on the other side it only adds to the log.
    rcases hexec : exec x log s with ⟨result, log', s'⟩
    rw [hexec] at hfailure hprefix
    obtain rfl : result = .error failure := hfailure
    refine .inr ⟨failure, rfl, ?_⟩
    rcases hy : exec y log s with ⟨result | a, log'', s''⟩
    all_goals rw [hy] at hprefix
    · exact hprefix
    · exact hprefix.trans ((hf a).second.changes_shortened log'' s'')

theorem shortens_kept : Kept fun _ => Shortens where
  pure _ := shortens_refl (performs_still fun _ _ => ⟨_, rfl⟩)
  throw _ := shortens_refl (performs_still fun _ _ => ⟨_, rfl⟩)
  bind hx hf := hx.bind hf

theorem performs_observe {α : Type} {faults : Faults} {call : Call}
    {run : StateM Memory (Except Fault α)} (path : Path)
    (hrun : ∀ s, ∃ result, run.run s = (result, if result.toBool then Call.perform s call else s)) :
    Performs (attempt path (observe faults call run)) := by
  intro log s
  cases hfault : faults log call with
  | some fault =>
    rw [exec_fault hfault]
    exact ⟨_, rfl, rfl⟩
  | none =>
    obtain ⟨result, hresult⟩ := hrun s
    rw [exec_no_fault hfault path hresult]
    refine ⟨_, rfl, ?_⟩
    cases hdone : result.toBool <;> cases hchange : call.isChange
    · simp [Log.changes]
    · simp [Log.changes]
    · simp [Log.changes, hchange, Call.perform_of_look hchange]
    · simp [Log.changes, hchange]

theorem shortens_observe {α : Type} {faults : Faults} {call : Call}
    {run : StateM Memory (Except Fault α)} (path : Path)
    (hrun : ∀ s, ∃ result, run.run s = (result, if result.toBool then Call.perform s call else s)) :
    Shortens (attempt path (observe faults call run))
      (attempt path (observe faults.sparingChanges call run)) := by
  have hperforms : Performs (attempt path (observe faults.sparingChanges call run)) :=
    performs_observe path hrun
  refine ⟨performs_observe path hrun, hperforms, fun log s => ?_⟩
  have hsame (h : faults.sparingChanges log call = faults log call) :
      exec (attempt path (observe faults call run)) log s =
        exec (attempt path (observe faults.sparingChanges call run)) log s := by
    simp only [exec, attempt, ExceptT.run_mk, StateT.run_bind, run_observe, h]
  cases hchange : call.isChange with
  | false => exact .inl (hsame (by simp [Faults.sparingChanges, hchange]))
  | true =>
    cases hfault : faults log call with
    | none => exact .inl (hsame (by simp [Faults.sparingChanges, hchange, hfault]))
    | some fault =>
      rw [exec_fault hfault]
      refine .inr ⟨_, rfl, ?_⟩
      have hlog : Log.changes (log ++ [⟨call, false⟩]) = Log.changes log := by simp [Log.changes]
      rw [hlog]
      exact hperforms.changes_shortened log s

theorem shortens_looks (faults : Faults) :
    LooksAlike (fun _ => Shortens) (observed faults memory)
      (observed faults.sparingChanges memory) where
  workingDir := shortens_refl (performs_still fun _ _ => ⟨_, rfl⟩)
  glob root text := shortens_observe root fun s => ⟨(pattern text).map (s.matching root), by
    show _ = (_, if _ then s else s)
    rw [ite_self]
    rfl⟩
  read path := shortens_observe path fun s => by
    rw [run_read]
    cases s.file? path <;> exact ⟨_, rfl⟩

theorem shortens_changes (faults : Faults) (path : Path) :
    ChangesAlike (fun _ => Shortens) (observed faults memory)
      (observed faults.sparingChanges memory) path where
  has := shortens_refl (performs_still fun _ _ => ⟨_, rfl⟩)
  makeDir := shortens_observe path fun _ => ⟨.ok (), rfl⟩
  write _ := shortens_observe path fun _ => ⟨.ok (), rfl⟩

/-- A run with any faults, and one without faults in its changes. -/
theorem shortens_generate (faults : Faults) (options : Options) :
    Shortens (ExceptT.mk (generate (observed faults memory) options))
      (ExceptT.mk (generate (observed faults.sparingChanges memory) options)) :=
  generate_alike shortens_kept (shortens_looks faults) (shortens_changes faults) options

/-- With faults in making directories and writing, no more is done than without them. -/
theorem changes_shortened (faults : Faults) (options : Options) (s : Memory) :
    Log.changes (observedRun faults options s).log <+:
      Log.changes (observedRun faults.sparingChanges options s).log :=
  (shortens_generate faults options).changes_shortened [] s

/-- The changes in the log are all that is done to the memory state. -/
theorem memory_observedRun (faults : Faults) (options : Options) (s : Memory) :
    (observedRun faults options s).memory =
      (Log.changes (observedRun faults options s).log).foldl Call.perform s := by
  obtain ⟨events, hlog, hmemory⟩ := (shortens_generate faults options).first [] s
  exact hmemory.trans (by rw [← List.nil_append events, ← hlog]; rfl)

/-! ### Observing changes nothing -/

/-- But for the log, the first computation does what the second one does. -/
def Erases {α : Type} (x : Process Log α) (y : ExceptT Failure (StateM Memory) α) : Prop :=
  ∀ log s, ∃ log', exec x log s = (((ExceptT.run y).run s).1, log', ((ExceptT.run y).run s).2)

theorem erases_kept : Kept fun _ => Erases where
  pure _ log _ := ⟨log, rfl⟩
  throw _ log _ := ⟨log, rfl⟩
  bind {_ _ x y f g} hx hf log s := by
    obtain ⟨log', hexec⟩ := hx log s
    rcases hy : (ExceptT.run y).run s with ⟨result, s'⟩
    rw [hy] at hexec
    cases result with
    | error failure =>
      refine ⟨log', ?_⟩
      rw [exec_bind_error hexec]
      simp only [ExceptT.run_bind, StateT.run_bind, hy]
      rfl
    | ok a =>
      obtain ⟨log'', hrest⟩ := hf a log' s'
      refine ⟨log'', ?_⟩
      rw [exec_bind_ok hexec, hrest]
      simp only [ExceptT.run_bind, StateT.run_bind, hy]
      rfl

/-- The faults that a store with denials has. -/
def faultsOf (denials : Denials) : Faults := fun _ call =>
  let denied (operation : Operation) (ends : List Path) (path : Path) : Option Fault :=
    if ends.any path.endsWith then some (.denied operation) else none
  match call with
  | .glob root _ => denied .glob denials.glob root
  | .read path => denied .read denials.read path
  | .makeDir path => denied .makeDir denials.makeDir path
  | .write path _ => denied .write denials.write path

theorem erases_unlessDenied {α : Type} {faults : Faults} {call : Call} {operation : Operation}
    {ends : List Path} {path : Path}
    (h : ∀ log, faults log call = if ends.any path.endsWith then some (.denied operation) else none)
    (run : StateM Memory (Except Fault α)) :
    Erases (attempt path (observe faults call run))
      (attempt path (unlessDenied operation ends path run)) := by
  intro log s
  by_cases hdenied : ends.any path.endsWith = true
  · refine ⟨log ++ [⟨call, false⟩], ?_⟩
    rw [exec_fault (by rw [h, if_pos hdenied]), unlessDenied, if_pos hdenied]
    rfl
  · rcases hrun : run.run s with ⟨result, s'⟩
    refine ⟨log ++ [⟨call, result.toBool⟩], ?_⟩
    rw [exec_no_fault (by rw [h, if_neg hdenied]) path hrun, unlessDenied, if_neg hdenied, attempt,
      ExceptT.run_mk, StateT.run_bind, hrun]
    rfl

theorem erases_looks (denials : Denials) :
    LooksAlike (fun _ => Erases) (observed (faultsOf denials) memory) (denying denials memory) where
  workingDir log _ := ⟨log, rfl⟩
  glob _ _ := erases_unlessDenied (fun _ => rfl) _
  read _ := erases_unlessDenied (fun _ => rfl) _

theorem erases_changes (denials : Denials) (path : Path) :
    ChangesAlike (fun _ => Erases) (observed (faultsOf denials) memory) (denying denials memory)
      path where
  has log _ := ⟨log, rfl⟩
  makeDir := erases_unlessDenied (fun _ => rfl) _
  write _ := erases_unlessDenied (fun _ => rfl) _

/-- A run on a store with denials is an observed run with the faults they are. -/
theorem generate_denying (denials : Denials) (options : Options) (s : Memory) :
    (generate (denying denials memory) options).run s =
      ((observedRun (faultsOf denials) options s).result,
        (observedRun (faultsOf denials) options s).memory) := by
  obtain ⟨log, hexec⟩ :=
    generate_alike erases_kept (erases_looks denials) (erases_changes denials) options [] s
  rw [observedRun_eq hexec]
  rfl

/-- Without faults, an observed run does what the run itself does. -/
theorem generate_memory (options : Options) (s : Memory) :
    (generate memory options).run s =
      ((observedRun .never options s).result, (observedRun .never options s).memory) := by
  have hnever : faultsOf {} = .never := by
    funext log call
    cases call <;> rfl
  rw [← hnever]
  exact generate_denying {} options s

end RouteScaffold.Run
