import CommonLib.Model.Application

/-! The steps of an application as local rules. -/

namespace CommonLib.Lifecycle

namespace Application

/-- The rules by which an application moves, one for each branch of its code. -/
inductive Step (strict : Bool) (s : Application) : Action → Application → Prop
  | run (hmain : s.main = .idle) :
      Step strict s .run { s with blocked := true, main := .starting }
  | start (hmain : s.main = .starting) (hlambda : s.lambda = .absent ∨ s.lambda = .exited) :
      Step strict s .main { s with lambda := .entered, place := .booting, main := .initializing }
  | initialized (hmain : s.main = .initializing)
      (hlambda : ¬ (s.lambda = .entered ∨ s.lambda = .tracking)) :
      Step strict s .main { s with main := .waiting }
  | returned (hmain : s.main = .waiting) (hlambda : s.lambda = .completed ∨ s.lambda = .exited) :
      Step strict s .main { s with main := .idle, log := s.log ++ [.returned] }
  | destroy (hmain : s.main = .idle) :
      Step strict s .destroy
        { s with main := .destroyed, terminated := strict && decide (s.resources ≠ []) }
  | lambda (next : Lambda) (resources : List (Option ℕ))
      (hnext : s.lambda.next strict none s.resources = some (next, resources)) :
      Step strict s .thread { s with lambda := next, resources := resources }
  | running (hplace : s.At (.booted false)) :
      Step strict s .thread { s with place := .looping, log := s.log ++ [.running] }
  | stop (hplace : s.At .looping) (hshutdown : s.shutdown = true) :
      Step strict s .thread { s with place := .stopping }
  | listen (hplace : s.At .looping) (hshutdown : s.shutdown = false) :
      Step strict s .thread { s with place := .listening }
  | told (signal : Signal) (hplace : s.At (.handling signal)) (hsignal : signal ≠ .sighup) :
      Step strict s .thread { s with shutdown := true, place := .looping }
  | ignored (hplace : s.At (.handling .sighup)) :
      Step strict s .thread { s with place := .looping }
  | closed (hplace : s.At (.stopped false)) :
      Step strict s .thread { s with lambda := .returned, log := s.log ++ [.closed] }
  | bootup (future : Bool) (hplace : s.At .booting) :
      Step strict s (.bootup future) { s with place := .booted future, log := s.log ++ [.bootup] }
  | shutdown (future : Bool) (hplace : s.At .stopping) :
      Step strict s (.shutdown future)
        { s with place := .stopped future, log := s.log ++ [.shutdown] }
  | booted (hplace : s.At (.booted true)) : Step strict s .ready { s with place := .booted false }
  | stopped (hplace : s.At (.stopped true)) :
      Step strict s .ready { s with place := .stopped false }
  | throws (hplace : s.At .booting ∨ s.At .stopping) :
      Step strict s .throws { s with terminated := true }
  | take (signal : Signal) (hplace : s.At .listening) (hpending : signal ∈ s.pending) :
      Step strict s (.take signal)
        { s with place := .handling signal, pending := s.pending.erase signal,
                 log := s.log ++ [.signal signal] }
  | fail (hplace : s.At .listening) : Step strict s .fail { s with place := .looping }
  | raise (signal : Signal) (hblocked : s.blocked = true) :
      Step strict s (.raise signal) (s.raise signal)
  | kill (hexposed : s.exposed = true) : Step strict s .kill { s with killed := true }
  | spawn (unblocked : Bool) (hmask : (if unblocked then s.exposed else s.blocked) = true) :
      Step strict s (.spawn unblocked) { s with workers := s.workers ++ [⟨.entered, unblocked⟩] }
  | worker (k : ℕ) (w : Worker) (next : Lambda) (resources : List (Option ℕ))
      (hw : s.workers[k]? = some w)
      (hnext : w.lambda.next strict (some k) s.resources = some (next, resources)) :
      Step strict s (.worker k)
        { s with workers := s.workers.set k { w with lambda := next }, resources := resources }
  | returns (k : ℕ) (unblocked : Bool) (hw : s.workers[k]? = some ⟨.working, unblocked⟩) :
      Step strict s (.returns k) { s with workers := s.workers.set k ⟨.returned, unblocked⟩ }

theorem Step.of_stepMain {strict : Bool} {s s' : Application} (h : s.stepMain = some s') :
    Step strict s .main s' := by
  unfold stepMain at h
  split at h
  · split at h <;> cases h
    exact .start ‹_› ‹_›
  · split at h <;> cases h
    exact .initialized ‹_› ‹_›
  · split at h <;> cases h
    exact .returned ‹_› ‹_›
  · cases h
  · cases h

theorem Step.of_stepWork {strict : Bool} {s s' : Application} (hworking : s.lambda = .working)
    (h : s.stepWork = some s') : Step strict s .thread s' := by
  unfold stepWork at h
  split at h <;> cases h
  · exact .running ⟨hworking, ‹_›⟩
  · rename_i hplace
    by_cases hshutdown : s.shutdown = true
    · rw [if_pos hshutdown]
      exact .stop ⟨hworking, hplace⟩ hshutdown
    · rw [if_neg hshutdown]
      exact .listen ⟨hworking, hplace⟩ (by simpa using hshutdown)
  · rename_i signal hplace
    cases signal with
    | sigterm => exact .told .sigterm ⟨hworking, hplace⟩ (by simp)
    | sigint => exact .told .sigint ⟨hworking, hplace⟩ (by simp)
    | sighup => exact .ignored ⟨hworking, hplace⟩
  · exact .closed ⟨hworking, ‹_›⟩

theorem Step.of_stepThread {strict : Bool} {s s' : Application}
    (h : s.stepThread strict = some s') : Step strict s .thread s' := by
  unfold stepThread at h
  split at h
  · exact .of_stepWork ‹_› h
  · obtain ⟨next, hnext, rfl⟩ := Option.map_eq_some_iff.mp h
    exact .lambda next.1 next.2 hnext

theorem destroy_eq (strict : Bool) {s : Application} (h : s.terminated = false) :
    s.destroy strict =
      { s with main := .destroyed, terminated := strict && decide (s.resources ≠ []) } := by
  unfold destroy
  split
  · next hleft => rw [hleft]
  · next hclean => rw [Bool.not_eq_true _ |>.mp hclean, h]

/-- Every enabled action moves the application by one of the rules, while the process lives. -/
theorem step_cases {strict : Bool} {s s' : Application} {a : Action}
    (h : s.step strict a = some s') : s.killed = false ∧ s.terminated = false ∧ Step strict s a s' := by
  unfold step at h
  split at h
  · cases h
  · rename_i halive
    rw [Bool.or_eq_true, not_or] at halive
    have hterminated : s.terminated = false := by simpa using halive.2
    refine ⟨by simpa using halive.1, hterminated, ?_⟩
    cases a with
    | run =>
        simp only at h
        split at h <;> cases h
        exact .run ‹_›
    | main => exact .of_stepMain h
    | destroy =>
        simp only at h
        split at h <;> cases h
        rw [destroy_eq strict hterminated]
        exact .destroy ‹_›
    | thread => exact .of_stepThread h
    | bootup future =>
        simp only at h
        split at h <;> cases h
        exact .bootup future ‹_›
    | shutdown future =>
        simp only at h
        split at h <;> cases h
        exact .shutdown future ‹_›
    | ready =>
        simp only at h
        split at h
        · cases h
          exact .booted ‹_›
        · split at h <;> cases h
          exact .stopped ‹_›
    | throws =>
        simp only at h
        split at h <;> cases h
        exact .throws ‹_›
    | take signal =>
        simp only at h
        split at h
        · rename_i htake
          cases h
          exact .take signal htake.1 htake.2
        · cases h
    | fail =>
        simp only at h
        split at h <;> cases h
        exact .fail ‹_›
    | raise signal =>
        simp only at h
        split at h <;> cases h
        exact .raise signal ‹_›
    | kill =>
        simp only at h
        split at h <;> cases h
        exact .kill ‹_›
    | spawn unblocked =>
        by_cases hmask : (if unblocked then s.exposed else s.blocked) = true
        · simp only [hmask, if_true] at h
          cases h
          exact .spawn unblocked hmask
        · simp only [hmask] at h
          cases h
    | worker k =>
        simp only [stepWorker] at h
        split at h
        · cases h
        · rename_i w hw
          obtain ⟨next, hnext, rfl⟩ := Option.map_eq_some_iff.mp h
          exact .worker k w next.1 next.2 hw hnext
    | returns k =>
        simp only at h
        split at h <;> cases h
        exact .returns k _ ‹_›

/-- While the process lives, every rule is a step. -/
theorem Step.step_eq {strict : Bool} {s s' : Application} {a : Action} (h : Step strict s a s')
    (halive : s.killed = false) (hlive : s.terminated = false) : s.step strict a = some s' := by
  cases h with
  | run hmain => simp [Application.step, halive, hlive, hmain]
  | start hmain hlambda => simp [Application.step, stepMain, halive, hlive, hmain, hlambda]
  | initialized hmain hlambda => simp [Application.step, stepMain, halive, hlive, hmain, hlambda]
  | returned hmain hlambda => simp [Application.step, stepMain, halive, hlive, hmain, hlambda]
  | destroy hmain => simp [Application.step, destroy_eq strict hlive, halive, hlive, hmain]
  | lambda next resources hnext =>
      have hworking : s.lambda ≠ .working := by
        intro hworking
        rw [hworking] at hnext
        cases hnext
      simp [Application.step, stepThread, halive, hlive, hworking, hnext]
  | running hplace | ignored hplace | closed hplace =>
      simp [Application.step, stepThread, stepWork, signalHandler, halive, hlive, hplace.1, hplace.2]
  | stop hplace hshutdown | listen hplace hshutdown =>
      simp [Application.step, stepThread, stepWork, halive, hlive, hplace.1, hplace.2, hshutdown]
  | told signal hplace hsignal =>
      cases signal with
      | sighup => exact absurd rfl hsignal
      | sigterm | sigint =>
          simp [Application.step, stepThread, stepWork, signalHandler, halive, hlive, hplace.1,
            hplace.2]
  | bootup future hplace | shutdown future hplace | booted hplace | throws hplace | fail hplace =>
      simp [Application.step, halive, hlive, hplace]
  | stopped hplace =>
      have hbooted : ¬ s.At (.booted true) := by
        rintro ⟨-, hbooted⟩
        rw [hplace.2] at hbooted
        cases hbooted
      simp [Application.step, halive, hlive, hplace, hbooted]
  | take signal hplace hpending => simp [Application.step, halive, hlive, hplace, hpending]
  | raise signal hblocked => simp [Application.step, halive, hlive, hblocked]
  | kill hexposed => simp [Application.step, halive, hlive, hexposed]
  | spawn unblocked hmask => simp only [Application.step, halive, hlive, hmask, Bool.or_self, if_true]; rfl
  | worker k w next resources hw hnext =>
      simp [Application.step, stepWorker, halive, hlive, hw, hnext]
  | returns k unblocked hw => simp [Application.step, halive, hlive, hw]

end Application

end CommonLib.Lifecycle
