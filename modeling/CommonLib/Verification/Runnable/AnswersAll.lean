import CommonLib.Verification.Runnable.Order

/-! # Every notification is answered

No notification is lost: a worker goes to sleep under the lock under which tasks are added, and is
woken when one is added later. So as long as the worker takes its steps and `__work` returns, it
gets through the list. -/

namespace CommonLib.Runnable

variable {δ ρ : Type*}

/-- A worker that sleeps has no tasks, and there is one while the flag is up. -/
def Worker.Alert (tasks : List (Task δ)) (running : Bool) : Worker δ ρ → Prop
  | .waiting | .blocked false => tasks = []
  | .none | .exited => running = false
  | _ => True

/-- How many steps the worker is away from its sleep, but for eight with each task in the list. -/
def Worker.distance : Worker δ ρ → ℕ
  | .none | .exited | .blocked false | .taking => 0
  | .waiting | .runTest => 1
  | .emptyTest | .relocking => 2
  | .locking | .blocked true => 3
  | .loopTest => 4
  | .answering _ _ => 5
  | .working _ => 6
  | .holding _ => 7

theorem Worker.distance_le (worker : Worker δ ρ) : worker.distance ≤ 7 := by
  cases worker with
  | blocked notified => cases notified <;> simp [distance]
  | none | loopTest | locking | emptyTest | waiting | relocking | runTest | taking | holding
  | working | answering | exited => simp [distance]

namespace ActiveRunnable

/-! ## No lost notification -/

def Alert (s : ActiveRunnable δ ρ) : Prop :=
  s.worker.Alert s.tasks s.running

/-- Waking a worker never hurts, and where it does not sleep there is nothing to wake. -/
theorem alert_notifyOne {s : ActiveRunnable δ ρ} (hwaiting : s.worker = .waiting → s.tasks = [])
    (hgone : s.worker = .none ∨ s.worker = .exited → s.running = false) : s.notifyOne.Alert := by
  rcases notifyOne_cases s with ⟨heq, hnot⟩ | ⟨notified, -, heq⟩
  · rw [heq, Alert]
    cases hw : s.worker with
    | waiting => exact hwaiting hw
    | none => exact hgone (.inl hw)
    | exited => exact hgone (.inr hw)
    | blocked notified => exact absurd hw (hnot notified)
    | _ => trivial
  · rw [heq]
    trivial

theorem Alert.step {s s' : ActiveRunnable δ ρ} {a : Action δ ρ} (h : s.Alert)
    (hstep : Step s a s') : s'.Alert := by
  cases hstep with
  | notify data hlock =>
      refine alert_notifyOne (fun hw => ?_) fun hw => ?_
      · change s.worker = .waiting at hw
        simp [locked, hw] at hlock
      · change s.worker = .none ∨ s.worker = .exited at hw
        change s.running = false
        rw [Alert] at h
        rcases hw with hw | hw <;> rwa [hw] at h
  | stop hlock =>
      refine alert_notifyOne (fun hw => ?_) fun _ => rfl
      change s.worker = .waiting at hw
      simp [locked, hw] at hlock
  | sleep hw htasks => exact htasks
  | block hw =>
      rw [Alert, hw] at h
      exact h
  | leave hw hrunning | «break» hw hrunning => exact hrunning
  | crash hw htasks | throws task hw => exact h
  | run | enter | lock | ready | woken | spurious | relock | goOn | take | work | returns | answer =>
      trivial

theorem Reachable.alert {s : ActiveRunnable δ ρ} (h : (machine δ ρ).Reachable s) : s.Alert :=
  h.invariant rfl fun _ _ _ hs _ hstep => hs.step (step_cases hstep).2

/-! ## The worker at work -/

/-- A step of the thread of `run`. -/
inductive Own : Action δ ρ → Prop
  | worker : Own .worker
  | returns (result : ρ) : Own (.returns result)

/-- The flag is up, and these tasks have entered the list. -/
structure Busy (entered : List (Task δ)) (s : ActiveRunnable δ ρ) : Prop where
  supplied : s.Supplied
  alert : s.Alert
  order : s.InOrder
  running : s.running = true
  terminated : s.terminated = false
  entered : s.entered = entered

/-- The steps the worker has before it until it sleeps. -/
def distance (s : ActiveRunnable δ ρ) : ℕ :=
  8 * s.tasks.length + s.worker.distance

theorem Busy.step {entered : List (Task δ)} {s s' : ActiveRunnable δ ρ} {a : Action δ ρ}
    (h : Busy entered s) (ha : Own a) (hstep : Step s a s') :
    Busy entered s' ∧ s'.distance < s.distance := by
  have hok : s.NoSpurious a := by
    cases ha <;> simp [NoSpurious]
  have hsupplied := h.supplied.step hok hstep
  have halert := h.alert.step hstep
  have horder := h.order.step hstep
  have hkeep : s'.running = s.running → s'.terminated = s.terminated → s'.entered = s.entered →
      Busy entered s' := fun hrunning hterminated hentered =>
    ⟨hsupplied, halert, horder, hrunning.trans h.running, hterminated.trans h.terminated,
      hentered.trans h.entered⟩
  cases hstep with
  | run | notify | stop | spurious | throws => cases ha
  | leave hw hrunning | «break» hw hrunning =>
      rw [h.running] at hrunning
      cases hrunning
  | crash hw htasks =>
      have hcrashed := hsupplied.1
      cases hcrashed
  | take task rest hw htasks =>
      refine ⟨hkeep rfl rfl rfl, ?_⟩
      simp only [distance, setWorker, hw, htasks, Worker.distance, List.length_cons]
      omega
  | ready hw htasks =>
      refine ⟨hkeep rfl rfl rfl, ?_⟩
      simp [distance, setWorker, hw, Worker.distance]
  | enter hw | lock hw | sleep hw | block hw | woken hw | relock hw | goOn hw | work task hw
  | returns task result hw | answer task result hw =>
      exact ⟨hkeep rfl rfl rfl, by simp [distance, setWorker, hw, Worker.distance]⟩

/-- Where it cannot go on, the worker sleeps with nothing left to do. -/
theorem Busy.idle [Nonempty ρ] {entered : List (Task δ)} {s : ActiveRunnable δ ρ}
    (h : Busy entered s) (hstuck : ∀ a, Own a → s.step a = none) :
    s.worker = .blocked false ∧ s.tasks = [] := by
  obtain ⟨result⟩ := ‹Nonempty ρ›
  have hworker := hstuck .worker .worker
  have hreturns := hstuck (.returns result) (.returns result)
  have halert := h.alert
  rw [Alert] at halert
  simp only [ActiveRunnable.step, h.supplied.1, h.terminated, Bool.or_self, Bool.false_eq_true,
    if_false] at hworker hreturns
  cases hw : s.worker with
  | blocked notified =>
      cases notified with
      | false =>
          rw [hw] at halert
          exact ⟨rfl, halert⟩
      | true => simp [stepWorker, hw] at hworker
  | none | exited =>
      rw [hw, h.running] at halert
      cases halert
  | working task => simp [hw] at hreturns
  | taking =>
      cases htasks : s.tasks <;> simp [stepWorker, hw, htasks] at hworker
  | loopTest | locking | emptyTest | waiting | relocking | runTest | holding | answering =>
      simp [stepWorker, hw] at hworker

/-- While the flag is up, any run of the worker's steps, with what `__work` returns in it, is over
within eight steps for each task in the list and seven for what is in hand; behind it every caller
of `notify` has an answer, and it is the result for its own data. -/
theorem answers_all [Nonempty ρ] {s s' : ActiveRunnable δ ρ} (h : (machine δ ρ).Reaches NoSpurious s)
    (hrunning : s.running = true) (hterminated : s.terminated = false)
    {actions : List (Action δ ρ)} (hactions : ∀ a ∈ actions, Own a)
    (hrun : (machine δ ρ).run s actions = some s') :
    actions.length ≤ 8 * s.tasks.length + 7 ∧
      ((∀ a, Own a → s'.step a = none) →
        s'.completed.map Prod.fst = List.range s.entered.length ∧
          ∀ p r, (p, r) ∈ s'.completed →
            ∃ task, s.entered[p]? = some task ∧ s'.results[p]? = some (task, r)) := by
  have hreachable := h.mono fun _ _ _ => trivial
  have hstart : Busy s.entered s :=
    ⟨Reaches.supplied h, Reachable.alert hreachable, Reachable.inOrder hreachable, hrunning,
      hterminated, rfl⟩
  obtain ⟨hend, hlength⟩ := Machine.run_length_le distance
    (fun t a t' ha ht hs => ht.step ha (step_cases hs).2) hactions hstart hrun
  constructor
  · have hbound : s.distance ≤ 8 * s.tasks.length + 7 :=
      Nat.add_le_add_left s.worker.distance_le _
    omega
  · intro hstuck
    obtain ⟨hw, htasks⟩ := hend.idle hstuck
    have hentered := hend.order.entered
    have hworked := hend.order.worked
    have hanswered := hend.order.answered
    have hnumbered := hend.order.numbered
    rw [hw] at hentered hworked hanswered
    simp only [Worker.inHand, Worker.inWork, Worker.inAnswer, htasks, List.append_nil]
      at hentered hworked hanswered
    have hall : s.entered = s'.results.map Prod.fst :=
      hend.entered.symm.trans (hentered.trans hworked)
    rw [hend.entered] at hnumbered
    refine ⟨?_, fun p r hmem => ?_⟩
    · rw [← hnumbered, hall, ← hanswered, List.map_map, List.map_map]
      rfl
    · have hresult := hend.order.own_result hmem
      rwa [hend.entered] at hresult

/-- A notification between the test of the list and the sleep waits for the lock and wakes the
worker. -/
theorem answers_all_asleep :
    ∃ s s' : ActiveRunnable ℕ ℕ,
      (machine ℕ ℕ).run init [.run, .worker, .worker, .worker, .worker, .notify 5] = some s ∧
      (machine ℕ ℕ).run s [.worker, .worker, .worker, .worker, .worker, .returns 50, .worker,
        .worker, .worker, .worker, .worker] = some s' ∧
      11 ≤ 8 * s.tasks.length + 7 ∧ s'.completed.map Prod.fst = List.range 1 := by
  have hmeets : (machine ℕ ℕ).Meets NoSpurious init
      [.run, .worker, .worker, .worker, .worker, .notify 5] := by
    simp [Machine.Meets, NoSpurious]
  obtain ⟨s, s', hrun, hrun', hrunning, hterminated, hentered, hw⟩ : ∃ s s' : ActiveRunnable ℕ ℕ,
      (machine ℕ ℕ).run init [.run, .worker, .worker, .worker, .worker, .notify 5] = some s ∧
      (machine ℕ ℕ).run s [.worker, .worker, .worker, .worker, .worker, .returns 50, .worker,
        .worker, .worker, .worker, .worker] = some s' ∧
      s.running = true ∧ s.terminated = false ∧ s.entered = [⟨5, 0⟩] ∧
      s'.worker = .blocked false := ⟨_, _, rfl, rfl, rfl, rfl, rfl, rfl⟩
  have hreaches := Machine.Reaches.init.run_of_meets hmeets hrun
  have hown : ∀ a ∈ ([.worker, .worker, .worker, .worker, .worker, .returns 50, .worker,
      .worker, .worker, .worker, .worker] : List (Action ℕ ℕ)), Own a := by
    simp [Own.worker, Own.returns]
  obtain ⟨hlength, hanswered⟩ := answers_all hreaches hrunning hterminated hown hrun'
  refine ⟨s, s', hrun, hrun', hlength, ?_⟩
  have hstuck : ∀ a, Own a → s'.step a = none := by
    intro a ha
    cases ha <;> simp [ActiveRunnable.step, stepWorker, hw]
  have hcompleted := (hanswered hstuck).1
  rwa [hentered] at hcompleted

end ActiveRunnable

end CommonLib.Runnable
