import CommonLib.Verification.Application.Equations

/-! # The life of an application

Whatever the signals, the user's functions and the other threads do: seen from outside, every run of
an application goes through the same stages. -/

namespace CommonLib.Lifecycle

/-! ## The lambda of a thread -/

namespace Lambda

/-- No start is waiting for anything in the lambda. -/
def resting : Lambda → Bool
  | absent | completed | exited => true
  | entered | tracking | working | returned | released => false

/-- `work` is still to come. -/
def fresh : Lambda → Bool
  | entered | tracking => true
  | absent | working | returned | released | completed | exited => false

/-- What a step outside `work` can do. -/
inductive Moves {κ : Type*} [DecidableEq κ] (strict : Bool) (resource : κ) (resources : List κ) :
    Lambda → Lambda → List κ → Prop
  | track : Moves strict resource resources .entered .tracking
      (if strict then resources.insert resource else resources)
  | setInit : Moves strict resource resources .tracking .working resources
  | release : Moves strict resource resources .returned .released
      (if strict then resources.erase resource else resources)
  | setValue : Moves strict resource resources .released .completed resources
  | destroy : Moves strict resource resources .completed .exited
      (if strict then resources.erase resource else resources)

theorem moves_of_next {κ : Type*} [DecidableEq κ] {strict : Bool} {resource : κ}
    {resources resources' : List κ} {l l' : Lambda}
    (h : l.next strict resource resources = some (l', resources')) :
    Moves strict resource resources l l' resources' := by
  cases l with
  | absent | working | exited => cases h
  | entered =>
      cases h
      exact .track
  | tracking =>
      cases h
      exact .setInit
  | returned =>
      cases h
      exact .release
  | released =>
      cases h
      exact .setValue
  | completed =>
      cases h
      exact .destroy

variable {κ : Type*} [DecidableEq κ] {strict : Bool} {resource : κ} {resources resources' : List κ}
  {l l' : Lambda}

theorem Moves.resting (h : Moves strict resource resources l l' resources')
    (hl : l.resting = true) : l'.resting = true := by
  cases h with
  | track | setInit | release | setValue => cases hl
  | destroy => rfl

theorem Moves.ne_absent (h : Moves strict resource resources l l' resources') : l' ≠ .absent := by
  cases h with
  | track | setInit | release | setValue | destroy => simp

/-- `work` comes next where it is still to come. -/
theorem Moves.fresh (h : Moves strict resource resources l l' resources')
    (hl : l'.fresh = true ∨ l' = .working) : l.fresh = true := by
  cases h with
  | track | setInit => rfl
  | release | setValue | destroy => simp [Lambda.fresh] at hl

end Lambda

/-! ## From the threads to the stages -/

/-- The main thread is not between the start of the application's thread and the end of `run`. -/
def Main.outside : Main → Bool
  | idle | starting | destroyed => true
  | initializing | waiting => false

def Place.stage : Place → Stage
  | booting => .down
  | booted _ => .booting
  | looping | listening | handling _ | stopping => .up
  | stopped _ => .stopping

/-- A signal has been taken that is about to set `_shutdown`. -/
def Place.told : Place → Bool
  | handling signal => decide (signal ≠ .sighup)
  | booting | booted _ | looping | listening | stopping | stopped _ => false

/-- What `_shutdown` is known to be. -/
def Place.flag : Place → Option Bool
  | listening | handling _ => some false
  | stopping | stopped _ => some true
  | booting | booted _ | looping => none

namespace Application

def stage (s : Application) : Stage :=
  match s.lambda with
  | .absent | .entered | .tracking => .down
  | .working => s.place.stage
  | .returned | .released | .completed | .exited => if s.main.outside then .down else .closed

def told (s : Application) : Bool :=
  s.shutdown || (decide (s.lambda = .working) && s.place.told)

/-- The application as an observer sees it. -/
def life (s : Application) : Life :=
  ⟨s.stage, s.told⟩

/-- Where the two threads stand to each other. -/
structure Placed (s : Application) : Prop where
  resting : s.main.outside = true → s.lambda.resting = true
  started : s.main.outside = false → s.lambda ≠ .absent
  fresh : s.lambda.fresh = true → s.place = .booting
  flag : s.lambda = .working → ∀ b ∈ s.place.flag, s.shutdown = b

theorem placed_init : init.Placed :=
  ⟨fun _ => rfl, fun h => (by cases h), fun _ => rfl, fun h => (by cases h)⟩

theorem Placed.not_outside {s : Application} (h : s.Placed) (hl : s.lambda.resting = false) :
    s.main.outside = false := by
  by_contra houtside
  rw [h.resting (by simpa using houtside)] at hl
  cases hl

/-- A step of the thread inside `run`'s lambda. -/
theorem Placed.move {s : Application} (h : s.Placed) {old place : Place} (hplace : s.At old)
    {shutdown : Bool} (hflag : ∀ b ∈ place.flag, shutdown = b) {log : List Event}
    {pending : List Signal} :
    Placed { s with place := place, shutdown := shutdown, log := log, pending := pending } := by
  refine ⟨h.resting, h.started, fun hfresh => ?_, fun _ => hflag⟩
  change s.lambda.fresh = true at hfresh
  rw [hplace.1] at hfresh
  cases hfresh

/-- Nothing but what the other threads have, or what is known of the past. -/
theorem Placed.of_eq {s s' : Application} (h : s.Placed) (hmain : s'.main.outside = s.main.outside)
    (hlambda : s'.lambda = s.lambda) (hplace : s'.place = s.place)
    (hshutdown : s'.shutdown = s.shutdown) : s'.Placed := by
  refine ⟨?_, ?_, ?_, ?_⟩
  · rw [hmain, hlambda]
    exact h.resting
  · rw [hmain, hlambda]
    exact h.started
  · rw [hlambda, hplace]
    exact h.fresh
  · rw [hlambda, hplace, hshutdown]
    exact h.flag

theorem Placed.step {strict : Bool} {s s' : Application} {a : Action} (h : s.Placed)
    (hstep : Step strict s a s') : s'.Placed := by
  cases hstep with
  | run hmain => exact h.of_eq (by rw [hmain]; rfl) rfl rfl rfl
  | start hmain hlambda =>
      exact ⟨fun houtside => (by cases houtside), fun _ => (by simp), fun _ => rfl,
        fun hl => (by cases hl)⟩
  | initialized hmain hlambda => exact h.of_eq (by rw [hmain]; rfl) rfl rfl rfl
  | returned hmain hlambda =>
      refine ⟨fun _ => ?_, fun houtside => (by cases houtside), h.fresh, h.flag⟩
      change s.lambda.resting = true
      rcases hlambda with hl | hl <;> rw [hl] <;> rfl
  | destroy hmain => exact h.of_eq (by rw [hmain]; rfl) rfl rfl rfl
  | lambda next resources hnext =>
      have hmoves := Lambda.moves_of_next hnext
      refine ⟨fun houtside => ?_, fun _ => hmoves.ne_absent, fun hfresh => ?_, fun hworking => ?_⟩
      · exact hmoves.resting (h.resting houtside)
      · exact h.fresh (hmoves.fresh (.inl hfresh))
      · rw [show s.place = .booting from h.fresh (hmoves.fresh (.inr hworking))]
        simp [Place.flag]
  | running hplace => exact h.move hplace (by simp [Place.flag])
  | stop hplace hshutdown => exact h.move hplace (by simp [Place.flag, hshutdown])
  | listen hplace hshutdown => exact h.move hplace (by simp [Place.flag, hshutdown])
  | told signal hplace hsignal => exact h.move hplace (by simp [Place.flag])
  | ignored hplace => exact h.move hplace (by simp [Place.flag])
  | closed hplace =>
      refine ⟨fun houtside => ?_, fun _ => (by simp), fun hfresh => (by cases hfresh),
        fun hworking => (by cases hworking)⟩
      have hinside := h.not_outside (by rw [hplace.1]; rfl)
      change s.main.outside = true at houtside
      rw [hinside] at houtside
      cases houtside
  | bootup future hplace => exact h.move hplace (by simp [Place.flag])
  | shutdown future hplace =>
      have hflag := h.flag hplace.1
      rw [hplace.2] at hflag
      exact h.move hplace (by simpa [Place.flag] using hflag)
  | booted hplace => exact h.move hplace (by simp [Place.flag])
  | stopped hplace =>
      have hflag := h.flag hplace.1
      rw [hplace.2] at hflag
      exact h.move hplace (by simpa [Place.flag] using hflag)
  | throws hplace => exact h.of_eq rfl rfl rfl rfl
  | take signal hplace hpending =>
      have hflag := h.flag hplace.1
      rw [hplace.2] at hflag
      exact h.move hplace (by simpa [Place.flag] using hflag)
  | fail hplace => exact h.move hplace (by simp [Place.flag])
  | raise | kill | spawn | worker | returns => exact h.of_eq rfl rfl rfl rfl

theorem Reachable.placed {strict : Bool} {s : Application}
    (h : (machine strict).Reachable s) : s.Placed :=
  h.invariant placed_init fun _ _ _ hs _ hstep => hs.step (step_cases hstep).2.2

/-! ## Every step is one of the life, or none -/

/-- What a step adds to the log is the next thing that can happen. -/
def Tells (s s' : Application) : Prop :=
  (s'.log = s.log ∧ s'.life = s.life) ∨
    ∃ e, s'.log = s.log ++ [e] ∧ s.life.step e = some s'.life

theorem life_of_at {s : Application} {place : Place} (h : s.At place) :
    s.life = ⟨place.stage, s.shutdown || place.told⟩ := by
  simp [life, stage, told, h.1, h.2]

/-- A step of `run`'s lambda that is not seen. -/
theorem Tells.silent {s : Application} {old place : Place} (hplace : s.At old) {shutdown : Bool}
    (hstage : place.stage = old.stage)
    (htold : (shutdown || place.told) = (s.shutdown || old.told)) :
    s.Tells { s with place := place, shutdown := shutdown } := by
  refine .inl ⟨rfl, ?_⟩
  have hnew : At { s with place := place, shutdown := shutdown } place := ⟨hplace.1, rfl⟩
  rw [life_of_at hplace, life_of_at hnew, hstage, htold]

/-- A step of `run`'s lambda that is seen. -/
theorem Tells.event {s : Application} {old place : Place} (hplace : s.At old) {e : Event}
    {pending : List Signal} (hstep : (⟨old.stage, s.shutdown || old.told⟩ : Life).step e =
      some ⟨place.stage, s.shutdown || place.told⟩) :
    s.Tells { s with place := place, log := s.log ++ [e], pending := pending } := by
  refine .inr ⟨e, rfl, ?_⟩
  have hnew : At { s with place := place, log := s.log ++ [e], pending := pending } place :=
    ⟨hplace.1, rfl⟩
  rw [life_of_at hplace, life_of_at hnew]
  exact hstep

/-- A step outside `work` is not seen. -/
theorem Placed.life_moves {strict : Bool} {s : Application} (h : s.Placed) {next : Lambda}
    {resources : List (Option ℕ)}
    (hmoves : Lambda.Moves strict none s.resources s.lambda next resources) :
    life { s with lambda := next, resources := resources } = s.life := by
  have hfresh := h.fresh
  generalize hl : s.lambda = l at hmoves hfresh
  cases hmoves with
  | track => simp [life, stage, told, hl]
  | setInit =>
      have hplace : s.place = .booting := hfresh rfl
      simp [life, stage, told, hl, hplace, Place.stage, Place.told]
  | release | setValue | destroy => simp [life, stage, told, hl]

theorem Placed.tells {strict : Bool} {s s' : Application} {a : Action} (h : s.Placed)
    (hstep : Step strict s a s') : s.Tells s' := by
  cases hstep with
  | run hmain =>
      refine .inl ⟨rfl, ?_⟩
      simp [life, stage, told, hmain, Main.outside]
  | start hmain hlambda =>
      refine .inl ⟨rfl, ?_⟩
      rcases hlambda with hl | hl <;> simp [life, stage, told, hmain, hl, Main.outside]
  | initialized hmain hlambda =>
      refine .inl ⟨rfl, ?_⟩
      simp [life, stage, told, hmain, Main.outside]
  | returned hmain hlambda =>
      refine .inr ⟨.returned, rfl, ?_⟩
      rcases hlambda with hl | hl <;>
        simp [life, stage, told, hmain, hl, Main.outside, Life.step]
  | destroy hmain =>
      refine .inl ⟨rfl, ?_⟩
      simp [life, stage, told, hmain, Main.outside]
  | lambda next resources hnext => exact .inl ⟨rfl, h.life_moves (Lambda.moves_of_next hnext)⟩
  | running hplace => exact .event hplace rfl
  | stop hplace hshutdown | listen hplace hshutdown | booted hplace | stopped hplace | fail hplace =>
      exact .silent hplace rfl rfl
  | told signal hplace hsignal => exact .silent hplace rfl (by simp [Place.told, hsignal])
  | ignored hplace => exact .silent hplace rfl (by simp [Place.told])
  | closed hplace =>
      refine .inr ⟨.closed, rfl, ?_⟩
      have hinside := h.not_outside (by rw [hplace.1]; rfl)
      rw [life_of_at hplace]
      simp [life, stage, told, hinside, Place.stage, Place.told, Life.step]
  | bootup future hplace => exact .event hplace rfl
  | shutdown future hplace =>
      have hflag := h.flag hplace.1 true (by rw [hplace.2]; rfl)
      exact .event hplace (by simp [Place.stage, Place.told, Life.step, hflag])
  | take signal hplace hpending =>
      have hflag := h.flag hplace.1 false (by rw [hplace.2]; rfl)
      exact .event hplace (by simp [Place.stage, Place.told, Life.step, hflag])
  | throws | raise | kill | spawn | worker | returns => exact .inl ⟨rfl, rfl⟩

/-- What the application has done so far is a life: `bootup`, its future, signals up to one that asks
for an end, `shutdown`, its future, the return of `run`. A run behind the first one goes to
`shutdown` without taking a signal. -/
theorem follows_life {strict : Bool} {s : Application} (h : (machine strict).Reachable s) :
    Life.machine.run Life.machine.init s.log = some s.life := by
  refine h.invariant_of (Q := Placed) (P := fun s => Life.machine.run Life.machine.init s.log =
    some s.life) (fun _ hs => Reachable.placed hs) rfl ?_
  intro s a s' hplaced hs _ hstep
  rcases hplaced.tells (step_cases hstep).2.2 with ⟨hlog, hlife⟩ | ⟨e, hlog, hlife⟩
  · rw [hlog, hlife]
    exact hs
  · rw [hlog, Machine.run_concat, hs]
    exact hlife

/-- Two runs: the first takes a SIGHUP and a SIGTERM. -/
def twoRuns : List Action :=
  [.run, .main, .thread, .thread, .main, .bootup true, .ready, .thread, .thread, .raise .sighup,
    .take .sighup, .thread, .thread, .raise .sigterm, .take .sigterm, .thread, .thread,
    .shutdown false, .thread, .thread, .thread, .main, .run, .thread, .main, .thread, .thread, .main,
    .bootup false, .thread, .thread, .shutdown false, .thread, .thread, .thread, .main]

theorem follows_life_twice :
    ∃ s, (machine true).run init twoRuns = some s ∧ s.main = .idle ∧
      s.log = [.bootup, .running, .signal .sighup, .signal .sigterm, .shutdown, .closed, .returned,
        .bootup, .running, .shutdown, .closed, .returned] ∧
      Life.machine.run Life.machine.init s.log = some ⟨.down, true⟩ := by
  obtain ⟨s, hrun, hmain, hlog, hlife⟩ : ∃ s, (machine true).run init twoRuns = some s ∧
      s.main = .idle ∧
      s.log = [.bootup, .running, .signal .sighup, .signal .sigterm, .shutdown, .closed, .returned,
        .bootup, .running, .shutdown, .closed, .returned] ∧ s.life = ⟨.down, true⟩ :=
    ⟨_, rfl, rfl, rfl, rfl⟩
  refine ⟨s, hrun, hmain, hlog, ?_⟩
  rw [← hlife]
  exact follows_life (Machine.reachable_of_run hrun)

end Application

end CommonLib.Lifecycle
