import CommonLib.Verification.RunStop.Equations

/-! # A stop request that is not taken back

`stop` and the loop share one flag with `run`. As long as `run` sets it only when every loop that a
`stop` has found running is left, such a loop calls `__work` at most once more. -/

namespace CommonLib.RunStop

/-- How many of its own steps a worker has to go with the flag down. -/
def Place.remaining : Place → ℕ
  | .storeStarted => 10
  | .priorityTest => 9
  | .nameTest => 8
  | .nameHandle => 7
  | .setInit => 6
  | .calling => 5
  | .working => 4
  | .loopTest | .runTest => 3
  | .clearStarted => 2
  | .setPromise => 1
  | .exited => 0

theorem Place.remaining_pos_of_reads (p : Place) (h : p.reads = true) : 0 < p.remaining := by
  cases p with
  | priorityTest | nameTest | nameHandle => decide
  | _ => cases h

/-- A worker that was stopped in its loop finds the flag down, and has called `__work` at most once
since. -/
structure Worker.Heeds (w : Worker) (running : Bool) : Prop where
  entered : w.sinceStop.isSome = true → w.place.initialized = true
  works : ∀ n, w.sinceStop = some n → n ≤ 1
  calling : ∀ n, w.sinceStop = some n → w.place = .calling → n = 0
  flag : w.sinceStop.isSome = true → w.place.inLoop = true → running = false

namespace Worker.Heeds

variable {w : Worker} {running : Bool}

theorem of_none (h : w.sinceStop = none) : w.Heeds running := by
  refine ⟨?_, ?_, ?_, ?_⟩ <;> simp [h]

theorem prologue (h : w.Heeds running) (hp : w.place.initialized = false) :
    w.sinceStop = none := by
  rcases hstop : w.sinceStop with - | n
  · rfl
  · cases hp.symm.trans (h.entered (by simp [hstop]))

theorem looping (h : w.Heeds true) (hp : w.place.inLoop = true) : w.sinceStop = none := by
  rcases hstop : w.sinceStop with - | n
  · rfl
  · cases h.flag (by simp [hstop]) hp

/-- The worker moves to a place from where it does not call `__work` at once. -/
theorem setPlace (h : w.Heeds running) {place : Place} (hcalling : place ≠ .calling)
    (hentered : place.initialized = true) (hloop : place.inLoop = true → w.place.inLoop = true) :
    (w.setPlace place).Heeds running :=
  ⟨fun _ => hentered, h.works, fun _ _ hp => absurd hp hcalling,
    fun hstop hp => h.flag hstop (hloop hp)⟩

theorem work (h : w.Heeds running) (hp : w.place = .calling) : w.work.Heeds running := by
  refine ⟨fun _ => rfl, fun n hn => ?_, fun _ _ hcalling => ?_, fun hstop _ => ?_⟩
  · obtain ⟨m, hm, rfl⟩ : ∃ m, w.sinceStop = some m ∧ m + 1 = n := by
      simpa [Worker.work, Worker.setPlace] using hn
    obtain rfl := h.calling m hm hp
    exact Nat.le_refl 1
  · cases hcalling
  · exact h.flag (by simpa [Worker.work, Worker.setPlace] using hstop) (by simp [hp, Place.inLoop])

theorem markStopped (h : w.Heeds running) : w.markStopped.Heeds false := by
  unfold Worker.markStopped
  split
  · rename_i hmark
    refine ⟨fun _ => ?_, ?_, ?_, fun _ _ => rfl⟩
    · cases hp : w.place <;> simp [hp, Place.inLoop, Place.initialized] at hmark ⊢
    · simp
    · simp
  · exact ⟨h.entered, h.works, h.calling, fun _ _ => rfl⟩

end Worker.Heeds

namespace Runnable

variable {ι : Type*} {kind : Kind} {s s' : Runnable ι} {k : ℕ}

/-- `run` sets the flag only when every loop that a `stop` has found running is left. -/
def AfterLoops [DecidableEq ι] (s : Runnable ι) : Action ι → Prop
  | .call i => s.call i = .store → ∀ w ∈ s.workers, w.sinceStop.isSome = true →
      w.place.inLoop = false
  | _ => True

/-- A `stop` has found the loop of the worker running. -/
def Stopped (s : Runnable ι) (k : ℕ) : Prop :=
  ∃ w, s.workers[k]? = some w ∧ w.sinceStop.isSome = true

def Heeds (s : Runnable ι) : Prop :=
  ∀ w ∈ s.workers, w.Heeds s.running

/-! ## The invariant -/

theorem Heeds.setWorker (h : s.Heeds) {w : Worker} (hw : w.Heeds s.running) :
    (s.setWorker k w).Heeds := by
  intro v hv
  rcases List.mem_or_eq_of_mem_set hv with hv | rfl
  · exact h v hv
  · exact hw

theorem Heeds.of_same (h : s.Heeds) (hrunning : s'.running = s.running)
    (hworkers : s'.workers = s.workers) : s'.Heeds := by
  intro w hw
  rw [hrunning]
  exact h w (hworkers ▸ hw)

theorem Heeds.workerStep (h : s.Heeds) {w : Worker} (hw : s.workers[k]? = some w)
    (hstep : WorkerStep kind s k w s') : s'.Heeds := by
  have hheeds := h w (List.mem_of_getElem? hw)
  cases hstep with
  | storeStarted hp =>
      refine Heeds.setWorker (s := s.setDetail _ _) h (.of_none ?_)
      exact hheeds.prologue (by simp [hp, Place.initialized])
  | look place hp => exact h.setWorker (.of_none (hheeds.prologue hp.initialized.1))
  | setInit hp =>
      refine h.setWorker (.of_none ?_)
      exact hheeds.prologue (by simp [hp, Place.initialized])
  | enter hp hrunning | go hp hrunning =>
      rw [hrunning] at hheeds
      refine h.setWorker (.of_none ?_)
      exact hheeds.looping (by simp [hp, Place.inLoop])
  | leave hp hrunning =>
      exact h.setWorker (hheeds.setPlace (by simp) rfl (by simp [Place.inLoop]))
  | call hp => exact h.setWorker (hheeds.work hp)
  | clearStarted hp =>
      refine Heeds.setWorker (s := s.setDetail _ _) h (hheeds.setPlace (by simp) rfl ?_)
      simp [Place.inLoop]
  | setPromise p hp =>
      refine Heeds.setWorker (s := { s with completed := _ }) h (hheeds.setPlace (by simp) rfl ?_)
      simp [Place.inLoop]
  | crash | terminate => exact h

theorem joinDetail_workers {d : ℕ} (h : s.joinDetail d = some s') :
    s'.workers = s.workers ∧ s'.running = s.running := by
  unfold joinDetail at h
  split at h
  · split at h
    · cases h
      exact ⟨rfl, rfl⟩
    · cases h
  · cases h
    exact ⟨rfl, rfl⟩

variable [DecidableEq ι] {a : Action ι}

theorem Heeds.callStep (h : s.Heeds) {i : ι} (hok : s.AfterLoops (.call i))
    (hstep : CallStep s i s') : s'.Heeds := by
  cases hstep with
  | store hc =>
      intro w hw
      have hheeds := h w hw
      refine ⟨hheeds.entered, hheeds.works, hheeds.calling, fun hstop hp => ?_⟩
      cases hp.symm.trans (hok hc w hw hstop)
  | spawn d hc =>
      intro w hw
      rcases List.mem_append.mp hw with hw | hw
      · exact h w hw
      · obtain rfl := List.mem_singleton.mp hw
        exact .of_none rfl
  | release old joined hc hjoin =>
      obtain ⟨hworkers, hrunning⟩ := joinDetail_workers hjoin
      exact h.of_same hrunning hworkers
  | join d joined hc hjoin =>
      obtain ⟨hworkers, hrunning⟩ := joinDetail_workers hjoin
      exact h.of_same hrunning hworkers
  | _ => exact h.of_same rfl rfl

theorem Heeds.step (h : s.Heeds) (hok : s.AfterLoops a) (hstep : Step kind s a s') :
    s'.Heeds := by
  cases hstep with
  | stop =>
      intro w hw
      obtain ⟨v, hv, rfl⟩ := List.mem_map.mp hw
      exact (h v hv).markStopped
  | call i next hcall => exact h.callStep hok hcall
  | worker k w next hw hworker => exact h.workerStep hw hworker
  | returns k w hw hp =>
      have hheeds := h w (List.mem_of_getElem? hw)
      exact h.setWorker (hheeds.setPlace (by simp) rfl fun _ => by simp [hp, Place.inLoop])
  | throws => exact h

theorem Reaches.heeds (hs : (machine ι kind).Reaches AfterLoops s) : s.Heeds :=
  hs.invariant (fun w hw => by cases hw) fun _ _ _ h hok hstep => h.step hok (step_cases hstep).2

/-! ## What a stopped worker still does -/

/-- A step of the worker. -/
def OfWorker (k : ℕ) : Action ι → Bool
  | .worker j | .returns j | .throws j => j = k
  | .stop | .call _ => false

/-- How many steps the worker has to go, unless the process has come to its end. -/
def remaining (s : Runnable ι) (k : ℕ) : ℕ :=
  if s.crashed || s.terminated then 0
  else
    match s.workers[k]? with
    | some w => w.place.remaining
    | none => 0

omit [DecidableEq ι] in
theorem remaining_le {w : Worker} (hw : s.workers[k]? = some w) :
    s.remaining k ≤ w.place.remaining := by
  rw [remaining]
  split
  · exact Nat.zero_le _
  · simp [hw]

omit [DecidableEq ι] in
theorem remaining_eq {w : Worker} (halive : s.crashed = false ∧ s.terminated = false)
    (hw : s.workers[k]? = some w) : s.remaining k = w.place.remaining := by
  rw [remaining, hw, halive.1, halive.2]
  rfl

omit [DecidableEq ι] in
theorem remaining_of_ended (h : s.crashed = true ∨ s.terminated = true) :
    s.remaining k = 0 := by
  rw [remaining, if_pos (by simpa using h)]

omit [DecidableEq ι] in
/-- The worker's entry after it has moved. -/
theorem setWorker_self {w : Worker} (hw : s.workers[k]? = some w) (v : Worker) :
    (s.setWorker k v).workers[k]? = some v := by
  obtain ⟨hlt, -⟩ := List.getElem?_eq_some_iff.mp hw
  exact List.getElem?_set_self hlt

omit [DecidableEq ι] in
theorem setWorker_of_ne {j : ℕ} (v : Worker) (h : j ≠ k) :
    (s.setWorker j v).workers[k]? = s.workers[k]? :=
  List.getElem?_set_ne h

omit [DecidableEq ι] in
theorem closer_of_moved {w v : Worker} (hw : s.workers[k]? = some w)
    (hworkers : s'.workers = s.workers.set k v) (hstop : v.sinceStop.isSome = true)
    (hplace : v.place.remaining < w.place.remaining) :
    s'.Stopped k ∧ s'.remaining k < w.place.remaining := by
  have hself : s'.workers[k]? = some v := by
    rw [hworkers]
    exact setWorker_self hw v
  exact ⟨⟨v, hself, hstop⟩, Nat.lt_of_le_of_lt (remaining_le hself) hplace⟩

omit [DecidableEq ι] in
/-- A step of the stopped worker itself brings it closer to its end. -/
theorem WorkerStep.closer {w : Worker} (hstep : WorkerStep kind s k w s')
    (halive : s.crashed = false ∧ s.terminated = false) (hw : s.workers[k]? = some w)
    (hheeds : w.Heeds s.running) (hstop : w.sinceStop.isSome = true) :
    s'.Stopped k ∧ s'.remaining k < s.remaining k := by
  rw [remaining_eq halive hw]
  cases hstep with
  | storeStarted hp | setInit hp =>
      have hentered := hheeds.entered hstop
      rw [hp] at hentered
      cases hentered
  | look place hp => cases hp.initialized.1.symm.trans (hheeds.entered hstop)
  | enter hp hrunning | go hp hrunning =>
      have hflag := hheeds.flag hstop (by simp [hp, Place.inLoop])
      cases hrunning.symm.trans hflag
  | leave hp hrunning =>
      refine closer_of_moved hw rfl hstop ?_
      rcases hp with hp | hp <;> simp [hp, Worker.setPlace, Place.remaining]
  | call hp =>
      refine closer_of_moved hw rfl ?_ ?_
      · simpa [Worker.work, Worker.setPlace] using hstop
      · simp [hp, Worker.work, Worker.setPlace, Place.remaining]
  | clearStarted hp | setPromise p hp =>
      refine closer_of_moved hw rfl hstop ?_
      simp [hp, Worker.setPlace, Place.remaining]
  | crash hp hbad =>
      refine ⟨⟨w, hw, hstop⟩, ?_⟩
      rw [remaining_of_ended (.inl rfl)]
      rcases hp with hp | hp | hp | hp
      · rw [hp]; decide
      · exact w.place.remaining_pos_of_reads hp
      · rw [hp]; decide
      · rw [hp]; decide
  | terminate hp =>
      refine ⟨⟨w, hw, hstop⟩, ?_⟩
      rw [remaining_of_ended (.inr rfl)]
      rcases hp with hp | ⟨hp, -⟩
      · rw [hp]; decide
      · exact w.place.remaining_pos_of_reads hp

omit [DecidableEq ι] in
theorem markStopped_spec (w : Worker) : w.markStopped.place = w.place ∧
    (w.sinceStop.isSome = true → w.markStopped.sinceStop.isSome = true) := by
  unfold Worker.markStopped
  split
  · exact ⟨rfl, fun _ => rfl⟩
  · exact ⟨rfl, id⟩

/-- Nobody else moves the worker. -/
theorem Step.other {w : Worker} (hstep : Step kind s a s') (ha : OfWorker k a = false)
    (hw : s.workers[k]? = some w) :
    ∃ v, s'.workers[k]? = some v ∧ v.place = w.place ∧
      (w.sinceStop.isSome = true → v.sinceStop.isSome = true) := by
  have hkept : ∀ s' : Runnable ι, s'.workers = s.workers → ∃ v, s'.workers[k]? = some v ∧
      v.place = w.place ∧ (w.sinceStop.isSome = true → v.sinceStop.isSome = true) :=
    fun s' h => ⟨w, h ▸ hw, rfl, id⟩
  cases hstep with
  | stop =>
      obtain ⟨hplace, hstop⟩ := markStopped_spec w
      refine ⟨w.markStopped, ?_, hplace, hstop⟩
      change (s.workers.map Worker.markStopped)[k]? = _
      rw [List.getElem?_map, hw]
      rfl
  | call i next hcall =>
      cases hcall with
      | spawn d hc =>
          obtain ⟨hlt, -⟩ := List.getElem?_eq_some_iff.mp hw
          exact ⟨w, (List.getElem?_append_left hlt).trans hw, rfl, id⟩
      | release old joined hc hjoin => exact hkept _ (joinDetail_workers hjoin).1
      | join d joined hc hjoin => exact hkept _ (joinDetail_workers hjoin).1
      | _ => exact hkept _ rfl
  | worker j v next hv hworker =>
      have hj : j ≠ k := by simpa [OfWorker] using ha
      cases hworker with
      | crash | terminate => exact hkept _ rfl
      | _ => exact ⟨w, (setWorker_of_ne _ hj).trans hw, rfl, id⟩
  | returns j v hv hp =>
      have hj : j ≠ k := by simpa [OfWorker] using ha
      exact ⟨w, (setWorker_of_ne _ hj).trans hw, rfl, id⟩
  | throws => exact hkept _ rfl

/-- A stopped worker stays stopped, and each of its own steps brings it closer to its end. -/
theorem Step.closer (hstep : Step kind s a s') (halive : s.crashed = false ∧ s.terminated = false)
    (hs : s.Heeds) (hk : s.Stopped k) :
    s'.Stopped k ∧ s'.remaining k + [a].countP (OfWorker k) ≤ s.remaining k := by
  obtain ⟨w, hw, hstop⟩ := hk
  cases hown : OfWorker k a with
  | false =>
      obtain ⟨v, hv, hplace, hstop'⟩ := hstep.other hown hw
      refine ⟨⟨v, hv, hstop' hstop⟩, ?_⟩
      rw [remaining_eq halive hw, ← hplace]
      simpa [hown] using remaining_le hv
  | true =>
      have hcount : [a].countP (OfWorker k) = 1 := by simp [hown]
      rw [hcount]
      have hheeds := hs w (List.mem_of_getElem? hw)
      cases hstep with
      | stop | call => cases hown
      | worker j v next hv hworker =>
          obtain rfl : j = k := by simpa [OfWorker] using hown
          obtain rfl : w = v := Option.some.inj (hw.symm.trans hv)
          exact hworker.closer halive hw hheeds hstop
      | returns j v hv hp =>
          obtain rfl : j = k := by simpa [OfWorker] using hown
          obtain rfl : w = v := Option.some.inj (hw.symm.trans hv)
          rw [remaining_eq halive hw]
          refine closer_of_moved hw rfl hstop ?_
          simp [hp, Worker.setPlace, Place.remaining]
      | throws j v hv hp =>
          obtain rfl : j = k := by simpa [OfWorker] using hown
          obtain rfl : w = v := Option.some.inj (hw.symm.trans hv)
          refine ⟨⟨w, hw, hstop⟩, ?_⟩
          rw [remaining_of_ended (.inr rfl), remaining_eq halive hw, hp]
          decide

theorem run_closer {actions : List (Action ι)} (hs : (machine ι kind).Reaches AfterLoops s)
    (hk : s.Stopped k) (hmeets : (machine ι kind).Meets AfterLoops s actions)
    (hrun : (machine ι kind).run s actions = some s') :
    s'.remaining k + actions.countP (OfWorker k) ≤ s.remaining k := by
  induction actions generalizing s with
  | nil =>
      cases hrun
      exact Nat.le_refl _
  | cons a actions ih =>
      obtain ⟨next, hnext, hrest⟩ := Machine.exists_of_run_cons hrun
      obtain ⟨hok, hmeets⟩ := hmeets next hnext
      obtain ⟨halive, hstep⟩ := step_cases hnext
      obtain ⟨hk', hcloser⟩ := hstep.closer halive (Reaches.heeds hs) hk
      have hle := ih (hs.step hok hnext) hk' hmeets hrest
      have hcount : (a :: actions).countP (OfWorker k) =
          [a].countP (OfWorker k) + actions.countP (OfWorker k) := by
        rw [← List.countP_append, List.singleton_append]
      omega

/-! ## A stop request sticks -/

/-- What `stop` promises about a loop that it has found running: `__work` is called at most once
more; the worker is at its end after at most five more steps of its own, and can always take one of
them until then; and then who waits for it goes on. -/
structure StopSticks (kind : Kind) (s : Runnable ι) (k : ℕ) : Prop where
  works : ∀ w n, s.workers[k]? = some w → w.sinceStop = some n → n ≤ 1
  leaves : ∀ actions s', (machine ι kind).Meets AfterLoops s actions →
    (machine ι kind).run s actions = some s' → actions.countP (OfWorker k) ≤ 5
  enabled : ∀ w, s.workers[k]? = some w → w.place ≠ .exited →
    s.crashed = false → s.terminated = false → ∃ a, OfWorker k a = true ∧ (s.step kind a).isSome
  joined : ∀ w i d, s.workers[k]? = some w → w.place = .exited → s.call i = .release d →
    (s.details d).thread = some ⟨k, true⟩ → s.crashed = false → s.terminated = false →
      (s.step kind (.call i)).isSome

theorem worker_enabled {w : Worker} (hw : s.workers[k]? = some w) (hexited : w.place ≠ .exited)
    (hcrashed : s.crashed = false) (hterminated : s.terminated = false) :
    ∃ a, OfWorker k a = true ∧ (s.step kind a).isSome := by
  by_cases hp : w.place = .working
  · refine ⟨.returns k, by simp [OfWorker], ?_⟩
    simp [Runnable.step, hcrashed, hterminated, hw, hp]
  · refine ⟨.worker k, by simp [OfWorker], ?_⟩
    simp only [Runnable.step, hcrashed, hterminated, stepWorker, hw]
    cases hplace : w.place with
    | working => exact absurd hplace hp
    | exited => exact absurd hplace hexited
    | _ => rfl

theorem joiner_enabled {w : Worker} {i : ι} {d : ℕ} (hw : s.workers[k]? = some w)
    (hexited : w.place = .exited) (hc : s.call i = .release d)
    (hthread : (s.details d).thread = some ⟨k, true⟩) (hcrashed : s.crashed = false)
    (hterminated : s.terminated = false) : (s.step kind (.call i)).isSome := by
  simp [Runnable.step, hcrashed, hterminated, stepCall, hc, delete, joinDetail, hthread, hw,
    hexited]

/-- In every run in which `run` sets the flag only after the loops that `stop` has found running,
`stop` keeps its promise. -/
theorem stopSticks_of_afterLoops (hs : (machine ι kind).Reaches AfterLoops s)
    (hk : s.Stopped k) : s.StopSticks kind k := by
  have hheeds := Reaches.heeds hs
  refine ⟨fun w n hw hn => ?_, fun actions s' hmeets hrun => ?_, fun w => worker_enabled,
    fun w i d => joiner_enabled⟩
  · exact (hheeds w (List.mem_of_getElem? hw)).works n hn
  · obtain ⟨w, hw, hstop⟩ := hk
    have hentered := (hheeds w (List.mem_of_getElem? hw)).entered hstop
    have hclose := run_closer hs ⟨w, hw, hstop⟩ hmeets hrun
    have hbound : w.place.remaining ≤ 5 := by
      cases hp : w.place <;> simp [hp, Place.initialized, Place.remaining] at hentered ⊢
    have hremaining := remaining_le hw
    omega

/-! ## A stop request that is taken back -/

/-- Nothing keeps the worker from going on. -/
structure GoesOn (s : Runnable ι) (k : ℕ) (w : Worker) : Prop where
  crashed : s.crashed = false
  terminated : s.terminated = false
  running : s.running = true
  worker : s.workers[k]? = some w

omit [DecidableEq ι] in
theorem GoesOn.setWorker {w : Worker} (h : s.GoesOn k w) (v : Worker) :
    (s.setWorker k v).GoesOn k v :=
  ⟨h.crashed, h.terminated, h.running, setWorker_self h.worker v⟩

theorem GoesOn.of_calling {w : Worker} (h : s.GoesOn k w) (hp : w.place = .calling) :
    (machine ι kind).Leads (fun t => t.GoesOn k w.work) s := by
  refine .of_step (a := .worker k) ?_ (Machine.leads_of (h.setWorker w.work))
  simp [machine, Runnable.step, h.crashed, h.terminated, stepWorker, h.worker, hp]

theorem GoesOn.of_runTest {w : Worker} (h : s.GoesOn k w) (hp : w.place = .runTest) :
    (machine ι kind).Leads (fun t => t.GoesOn k w.work) s := by
  have hnext : (machine ι kind).Leads (fun t => t.GoesOn k (w.setPlace .calling).work)
      (s.setWorker k (w.setPlace .calling)) := (h.setWorker _).of_calling rfl
  refine .of_step (a := .worker k) ?_ hnext
  simp [machine, Runnable.step, h.crashed, h.terminated, stepWorker, h.worker, hp, h.running]

theorem GoesOn.of_loopTest {w : Worker} (h : s.GoesOn k w) (hp : w.place = .loopTest) :
    (machine ι kind).Leads (fun t => t.GoesOn k w.work) s := by
  cases kind with
  | runnable =>
      have hnext : (machine ι .runnable).Leads (fun t => t.GoesOn k (w.setPlace .calling).work)
          (s.setWorker k (w.setPlace .calling)) := (h.setWorker _).of_calling rfl
      refine .of_step (a := .worker k) ?_ hnext
      simp [machine, Runnable.step, h.crashed, h.terminated, stepWorker, h.worker, hp, h.running]
  | activeRunnable =>
      have hnext : (machine ι .activeRunnable).Leads
          (fun t => t.GoesOn k (w.setPlace .runTest).work)
          (s.setWorker k (w.setPlace .runTest)) := (h.setWorker _).of_runTest rfl
      refine .of_step (a := .worker k) ?_ hnext
      simp [machine, Runnable.step, h.crashed, h.terminated, stepWorker, h.worker, hp, h.running]

/-- With the flag up, the worker comes round to another call of `__work`. -/
theorem GoesOn.leads_work {w : Worker} (h : s.GoesOn k w) (hp : w.place.inLoop = true) :
    (machine ι kind).Leads (fun t => t.GoesOn k w.work) s := by
  cases hplace : w.place with
  | calling => exact h.of_calling hplace
  | runTest => exact h.of_runTest hplace
  | loopTest => exact h.of_loopTest hplace
  | working =>
      have hnext : (machine ι kind).Leads (fun t => t.GoesOn k (w.setPlace .loopTest).work)
          (s.setWorker k (w.setPlace .loopTest)) := (h.setWorker _).of_loopTest rfl
      refine .of_step (a := .returns k) ?_ hnext
      simp [machine, Runnable.step, h.crashed, h.terminated, h.worker, hplace]
  | storeStarted | priorityTest | nameTest | nameHandle | setInit | clearStarted | setPromise
  | exited =>
      rw [hplace] at hp
      cases hp

/-- Setting the flag too early takes the request back: from there the loop can go on without end. -/
theorem leads_of_not_afterLoops {i : ι} (hc : s.call i = .store)
    (hearly : ¬ s.AfterLoops (.call i)) (hstep : s.step kind (.call i) = some s') :
    ∃ k, s.Stopped k ∧ (machine ι kind).Leads (fun t => ¬ t.StopSticks kind k) s' := by
  simp only [AfterLoops, Classical.not_imp, not_forall] at hearly
  obtain ⟨-, w, hw, hstop, hloop⟩ := hearly
  obtain ⟨k, hk⟩ := List.mem_iff_getElem?.mp hw
  obtain ⟨n, hn⟩ := Option.isSome_iff_exists.mp hstop
  obtain ⟨⟨hcrashed, hterminated⟩, -⟩ := step_cases hstep
  obtain rfl : { s with running := true }.setCall i .create = s' := by
    simpa [Runnable.step, hcrashed, hterminated, stepCall, hc] using hstep
  have hgoes : ({ s with running := true }.setCall i .create).GoesOn k w :=
    ⟨hcrashed, hterminated, rfl, hk⟩
  refine ⟨k, ⟨w, hk, hstop⟩, ?_⟩
  refine (hgoes.leads_work (Bool.not_eq_false _ ▸ hloop)).trans fun t ht => ?_
  refine (ht.leads_work rfl).imp fun t ht hsticks => ?_
  have hle := hsticks.works _ (n + 2) ht.worker (by simp [Worker.work, Worker.setPlace, hn])
  omega

instance decidableAfterLoops (s : Runnable ι) : (a : Action ι) → Decidable (s.AfterLoops a)
  | .call i => inferInstanceAs (Decidable (s.call i = .store → _))
  | .stop | .worker _ | .returns _ | .throws _ => isTrue trivial

/-- A first call of `run`, up to the first call of `__work`. -/
def firstRun : List (Action Bool) :=
  List.replicate 9 (.call false) ++ List.replicate 5 (.worker 0) ++
    [.call false, .worker 0, .worker 0]

/-- `stop` comes while `__work` is running, the loop is left, and `run` is called again. -/
theorem stopSticks_after_restart :
    ∃ s, (machine Bool .runnable).run init
        (firstRun ++ [.stop, .returns 0, .worker 0] ++ List.replicate 4 (.call true)) = some s ∧
      s.running = true ∧ s.StopSticks .runnable 0 := by
  have hmeets : (machine Bool .runnable).Meets AfterLoops init
      (firstRun ++ [.stop, .returns 0, .worker 0] ++ List.replicate 4 (.call true)) := by
    decide +kernel
  have hany : (((machine Bool .runnable).run init
      (firstRun ++ [.stop, .returns 0, .worker 0] ++ List.replicate 4 (.call true))).any fun s =>
        decide (s.running = true ∧ s.workers = [⟨.clearStarted, 0, 1, some 0⟩])) = true := by
    decide +kernel
  obtain ⟨s, hrun, h⟩ := (Option.any_eq_true _ _).mp hany
  obtain ⟨hrunning, hworkers⟩ := of_decide_eq_true h
  refine ⟨s, hrun, hrunning, ?_⟩
  exact stopSticks_of_afterLoops (Machine.Reaches.init.run_of_meets hmeets hrun)
    ⟨_, by rw [hworkers]; rfl, rfl⟩

/-- `run` is called while the last `__work` before the end is running: the loop goes on, and the
call waits for it. -/
theorem stop_revoked :
    ∃ s, (machine Bool .runnable).run init
        (firstRun ++ .stop :: List.replicate 4 (.call true) ++
          [.returns 0, .worker 0, .worker 0, .returns 0, .worker 0, .worker 0]) = some s ∧
      s.running = true ∧ s.workers = [⟨.working, 0, 3, some 2⟩] ∧ s.call true = .release 0 ∧
      s.step .runnable (.call true) = none ∧ ¬ s.StopSticks .runnable 0 := by
  have hany : (((machine Bool .runnable).run init
      (firstRun ++ .stop :: List.replicate 4 (.call true) ++
        [.returns 0, .worker 0, .worker 0, .returns 0, .worker 0, .worker 0])).any fun s =>
        decide (s.running = true ∧ s.workers = [⟨.working, 0, 3, some 2⟩] ∧
          s.call true = .release 0 ∧ (s.step .runnable (.call true)).isNone = true)) = true := by
    decide +kernel
  obtain ⟨s, hrun, h⟩ := (Option.any_eq_true _ _).mp hany
  obtain ⟨hrunning, hworkers, hcall, hblocked⟩ := of_decide_eq_true h
  refine ⟨s, hrun, hrunning, hworkers, hcall, Option.isNone_iff_eq_none.mp hblocked, fun h => ?_⟩
  have hle := h.works ⟨.working, 0, 3, some 2⟩ 2 (by rw [hworkers]; rfl) rfl
  omega

end Runnable

end CommonLib.RunStop
