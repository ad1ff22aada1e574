import CommonLib.Model.TimerLoop

/-! The steps of one timer as local rules. -/

namespace CommonLib.TimerLoop

namespace TimerDetail

/-- The rules by which callers and thread move, one for each branch of the code. -/
inductive Step (s : TimerDetail) : Action → TimerDetail → Prop
  | start (hs : s.starter = .idle) (hrunning : s.running = false) :
      Step s .start { s with starter := .storing }
  | startThrows (hs : s.starter = .idle) (hrunning : s.running = true) : Step s .start s
  | store (hs : s.starter = .storing) :
      Step s .starter { s with running := true, starts := s.starts + 1, starter := .creating }
  | create (hs : s.starter = .creating) (hw : s.worker = .none ∨ s.worker = .complete) :
      Step s .starter { s with worker := .checking true, starter := .assigning }
  | assign (hs : s.starter = .assigning) : Step s .starter { s with starter := .idle }
  | stop : Step s .stop s.stop
  | block (first) (hw : s.worker = .checking first) (hrunning : s.running = true) :
      Step s .worker (s.setWorker (.blocked first))
  | released (first) (hw : s.worker = .checking first) (hrunning : s.running = false) :
      Step s .worker (s.setWorker .testing)
  | timeout (first) (hw : s.worker = .blocked first) : Step s .timeout (s.setWorker .testing)
  | wake (first) (hw : s.worker = .blocked first) : Step s .wake (s.setWorker (.checking first))
  | enter (hw : s.worker = .testing) (hrunning : s.running = true) :
      Step s .worker (s.setWorker .entering)
  | leave (hw : s.worker = .testing) (hrunning : s.running = false) :
      Step s .worker (s.setWorker .leaving)
  | call (hw : s.worker = .entering) :
      Step s .worker ({ s with calls := s.calls + 1 }.setWorker .calling)
  | again (hw : s.worker = .calling) : Step s (.returns true) (s.setWorker (.checking false))
  | break (hw : s.worker = .calling) : Step s (.returns false) (s.setWorker .leaving)
  | fulfil (hw : s.worker = .leaving) :
      Step s .worker ({ s with fulfilled := s.fulfilled + 1 }.setWorker .unregistering)
  | finish (hw : s.worker = .unregistering) : Step s .worker (s.setWorker .complete)

theorem Step.of_stepStarter {s s' : TimerDetail} (h : s.stepStarter = some s') :
    Step s .starter s' := by
  unfold stepStarter at h
  split at h
  · cases h
    exact .store ‹_›
  · rename_i hs
    split at h <;> cases h
    exact .create hs ‹_›
  · cases h
    exact .assign ‹_›
  · cases h

theorem Step.of_stepWorker {s s' : TimerDetail} (h : s.stepWorker = some s') :
    Step s .worker s' := by
  unfold stepWorker at h
  split at h
  · rename_i first hw
    cases h
    cases hrunning : s.running with
    | true => exact .block first hw hrunning
    | false => exact .released first hw hrunning
  · rename_i hw
    cases h
    cases hrunning : s.running with
    | true => exact .enter hw hrunning
    | false => exact .leave hw hrunning
  · cases h
    exact .call ‹_›
  · cases h
    exact .fulfil ‹_›
  · cases h
    exact .finish ‹_›
  all_goals cases h

/-- Every enabled action moves callers and thread by one of the rules. -/
theorem step_cases {s s' : TimerDetail} {a : Action} (h : s.step a = some s') : Step s a s' := by
  cases a with
  | start =>
      simp only [step] at h
      split at h
      · rename_i hs
        split at h
        · rename_i next hok
          cases h
          unfold TimerDetail.start at hok
          split at hok <;> cases hok
          exact .start hs (Bool.eq_false_iff.mpr ‹_›)
        · rename_i e herror
          cases h
          unfold TimerDetail.start at herror
          split at herror <;> cases herror
          exact .startThrows hs ‹_›
      · cases h
  | starter => exact .of_stepStarter h
  | stop =>
      cases h
      exact .stop
  | worker => exact .of_stepWorker h
  | timeout =>
      simp only [step] at h
      split at h <;> cases h
      exact .timeout _ ‹_›
  | wake =>
      simp only [step] at h
      split at h <;> cases h
      exact .wake _ ‹_›
  | returns result =>
      simp only [step] at h
      split at h
      · rename_i hw
        cases h
        cases result with
        | true => exact .again hw
        | false => exact .break hw
      · cases h

end TimerDetail

end CommonLib.TimerLoop
