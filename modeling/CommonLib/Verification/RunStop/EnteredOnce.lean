import CommonLib.Verification.RunStop.Equations
import Mathlib.Data.Fintype.Basic

/-! # Entering a run once

`run` tests the flag and sets it in two steps, and the thread that it starts may overtake the
assignment of `_thread`. As long as no call finds the flag down while another one is between the two
steps, and no thread reads `_thread` before it is assigned, one call gets in and all others throw. -/

namespace CommonLib.RunStop

/-- The call has found the flag down. -/
def Call.entered : Call → Bool
  | .before | .load | .rejected => false
  | _ => true

/-- The call is not in progress. -/
def Call.over : Call → Bool
  | .before | .returned _ | .rejected => true
  | _ => false

/-- On the way to the loop, or in it. -/
def Place.live (p : Place) : Bool :=
  p.inLoop || !p.initialized

namespace Runnable

variable {ι : Type*} {kind : Kind} {s s' : Runnable ι}

/-- `stop` is not called, no call finds the flag down while another one is between its load and its
store, and a new thread reads `_thread` only after `start` has assigned it. -/
def Exclusive (s : Runnable ι) : Action ι → Prop
  | .stop => False
  | .call i => s.call i = .load → s.running = false → ∀ j, s.call j ≠ .store
  | .worker k => ∀ w ∈ s.workers[k]?, w.place.reads = true → (s.details w.detail).thread ≠ none
  | _ => True

/-- The process has not gone wrong, and it ends only for an exception of `__work`. -/
structure Sound (s : Runnable ι) : Prop where
  crashed : s.crashed = false
  ended : s.terminated = true → ∃ w ∈ s.workers, w.place = .working

theorem Sound.of_alive (h : s.crashed = false ∧ s.terminated = false) : s.Sound := by
  refine ⟨h.1, fun hterminated => ?_⟩
  cases h.2.symm.trans hterminated

/-- The object of `_t` that nobody has started, or whose worker is not assigned yet. -/
structure Unassigned (s : Runnable ι) (d : ℕ) : Prop where
  thread : (s.details d).thread = none
  freed : (s.details d).freed = false

/-- The object of the worker is assigned, and has not been joined. -/
def Assigned (s : Runnable ι) (k : ℕ) (w : Worker) : Prop :=
  (s.details w.detail).thread = some ⟨k, true⟩

/-- The only worker there is. -/
structure Sole (s : Runnable ι) (k : ℕ) (w : Worker) : Prop where
  running : s.running = true
  zero : k = 0
  workers : s.workers = [w]
  live : w.place.live = true
  freed : (s.details w.detail).freed = false
  started : w.place.reads = true → (s.details w.detail).started = true

theorem Sole.unique {j k : ℕ} {v w : Worker} (hv : s.Sole j v) (hw : s.Sole k w) :
    j = k ∧ v = w :=
  ⟨hv.zero.trans hw.zero.symm, by simpa using hv.workers.symm.trans hw.workers⟩

/-- What the one call that has got in has done so far. -/
def Entered (s : Runnable ι) : Call → Prop
  | .store => s.running = false ∧ s.t = none ∧ s.workers = []
  | .create => s.running = true ∧ s.t = none ∧ s.workers = []
  | .start => s.running = true ∧ s.workers = [] ∧ ∃ d, s.t = some d ∧ s.details d = .new
  | .join d | .promise d | .spawn d => s.running = true ∧ s.workers = [] ∧ s.Unassigned d
  | .assign d k => s.Unassigned d ∧ ∃ w, s.Sole k w ∧ w.detail = d
  | .wait k => ∃ w, s.Sole k w ∧ s.Assigned k w
  | .returned k => ∃ w, s.Sole k w ∧ s.Assigned k w ∧ w.place.inLoop = true
  | .before | .load | .release _ | .rejected => False

/-- Nobody has got in yet, or one call has. -/
inductive Phase (s : Runnable ι) : Prop
  | idle (hrunning : s.running = false) (ht : s.t = none) (hworkers : s.workers = [])
      (hcalls : ∀ j, s.call j = .before ∨ s.call j = .load)
  | entered (i : ι) (hi : s.Entered (s.call i))
      (hcalls : ∀ j, j ≠ i → s.call j = .before ∨ s.call j = .load ∨
        s.call j = .rejected ∧ s.running = true)

theorem Entered.eq_store {pc : Call} (h : s.Entered pc) (hrunning : s.running = false) :
    pc = .store := by
  cases pc with
  | store => rfl
  | create | start | join | promise | spawn => cases hrunning.symm.trans h.1
  | assign => obtain ⟨-, w, hsole, -⟩ := h; cases hrunning.symm.trans hsole.running
  | wait => obtain ⟨w, hsole, -⟩ := h; cases hrunning.symm.trans hsole.running
  | returned => obtain ⟨w, hsole, -⟩ := h; cases hrunning.symm.trans hsole.running
  | before | load | release | rejected => exact h.elim

/-- There is a worker only once the call has spawned it. -/
theorem Entered.sole {pc : Call} (h : s.Entered pc) {k : ℕ} {w : Worker}
    (hw : s.workers[k]? = some w) : s.Sole k w := by
  have hnil : s.workers ≠ [] := by
    rintro hnil
    simp [hnil] at hw
  have hsole : ∀ j v, s.Sole j v → s.Sole k w := by
    intro j v hv
    obtain rfl := hv.zero
    obtain ⟨rfl, rfl⟩ : k = 0 ∧ v = w := by simpa [hv.workers, List.getElem?_singleton] using hw
    exact hv
  cases pc with
  | store | create => exact absurd h.2.2 hnil
  | start | join | promise | spawn => exact absurd h.2.1 hnil
  | assign d j => obtain ⟨-, v, hv, -⟩ := h; exact hsole j v hv
  | wait j => obtain ⟨v, hv, -⟩ := h; exact hsole j v hv
  | returned j => obtain ⟨v, hv, -⟩ := h; exact hsole j v hv
  | before | load | release | rejected => exact h.elim

/-- The thread of the worker is still to be assigned, or has been. -/
theorem Entered.thread {pc : Call} (h : s.Entered pc) {k : ℕ} {w : Worker}
    (hw : s.workers[k]? = some w) : s.Unassigned w.detail ∨ s.Assigned k w := by
  have hsole := h.sole hw
  have hnil : s.workers ≠ [] := by simp [hsole.workers]
  cases pc with
  | store | create => exact absurd h.2.2 hnil
  | start | join | promise | spawn => exact absurd h.2.1 hnil
  | assign d j =>
      obtain ⟨hunassigned, v, hv, rfl⟩ := h
      obtain ⟨rfl, rfl⟩ := hv.unique hsole
      exact .inl hunassigned
  | wait j =>
      obtain ⟨v, hv, hassigned⟩ := h
      obtain ⟨rfl, rfl⟩ := hv.unique hsole
      exact .inr hassigned
  | returned j =>
      obtain ⟨v, hv, hassigned, -⟩ := h
      obtain ⟨rfl, rfl⟩ := hv.unique hsole
      exact .inr hassigned
  | before | load | release | rejected => exact h.elim

/-- The worker moves on, and nothing that the call knows changes. -/
theorem Entered.moved {pc : Call} (h : s.Entered pc) {k : ℕ} {w v : Worker}
    (hw : s.workers[k]? = some w) (hrunning : s'.running = s.running)
    (hworkers : s'.workers = s.workers.set k v)
    (hdetails : ∀ d, (s'.details d).thread = (s.details d).thread ∧
      (s'.details d).freed = (s.details d).freed)
    (hdetail : v.detail = w.detail) (hlive : v.place.live = true)
    (hstarted : v.place.reads = true → (s'.details v.detail).started = true)
    (hloop : w.place.inLoop = true → v.place.inLoop = true) : s'.Entered pc := by
  have hsole := h.sole hw
  have hnew : s'.Sole k v := by
    refine ⟨hrunning.trans hsole.running, hsole.zero, ?_, hlive, ?_, hstarted⟩
    · rw [hworkers, hsole.zero, hsole.workers]
      rfl
    · rw [hdetail, (hdetails _).2]
      exact hsole.freed
  have hassigned : s.Assigned k w → s'.Assigned k v := by
    intro h
    rw [Assigned, hdetail, (hdetails _).1]
    exact h
  have hnil : s.workers ≠ [] := by simp [hsole.workers]
  cases pc with
  | store | create => exact absurd h.2.2 hnil
  | start | join | promise | spawn => exact absurd h.2.1 hnil
  | assign d j =>
      obtain ⟨hunassigned, u, hu, hd⟩ := h
      obtain ⟨rfl, rfl⟩ := hu.unique hsole
      refine ⟨⟨(hdetails d).1.trans hunassigned.thread, (hdetails d).2.trans hunassigned.freed⟩, v,
        hnew, hdetail.trans hd⟩
  | wait j =>
      obtain ⟨u, hu, hthread⟩ := h
      obtain ⟨rfl, rfl⟩ := hu.unique hsole
      exact ⟨v, hnew, hassigned hthread⟩
  | returned j =>
      obtain ⟨u, hu, hthread, hp⟩ := h
      obtain ⟨rfl, rfl⟩ := hu.unique hsole
      exact ⟨v, hnew, hassigned hthread, hloop hp⟩
  | before | load | release | rejected => exact h.elim

/-- Only names of calls change. -/
theorem Entered.of_same {pc : Call} (h : s.Entered pc) (hrunning : s'.running = s.running)
    (ht : s'.t = s.t) (hworkers : s'.workers = s.workers) (hdetails : s'.details = s.details) :
    s'.Entered pc := by
  have hunassigned : ∀ d, s.Unassigned d → s'.Unassigned d := fun d hd =>
    ⟨hdetails ▸ hd.thread, hdetails ▸ hd.freed⟩
  have hsole : ∀ k w, s.Sole k w → s'.Sole k w := fun k w hw =>
    ⟨hrunning.trans hw.running, hw.zero, hworkers.trans hw.workers, hw.live, hdetails ▸ hw.freed,
      hdetails ▸ hw.started⟩
  have hassigned' : ∀ k w, s.Assigned k w → s'.Assigned k w := by
    intro k w h
    rw [Assigned, hdetails]
    exact h
  cases pc with
  | store | create | start => simpa only [Entered, hrunning, ht, hworkers, hdetails] using h
  | join d | promise d | spawn d =>
      exact ⟨hrunning.trans h.1, hworkers.trans h.2.1, hunassigned d h.2.2⟩
  | assign d k =>
      obtain ⟨hd, w, hw, heq⟩ := h
      exact ⟨hunassigned d hd, w, hsole k w hw, heq⟩
  | wait k =>
      obtain ⟨w, hw, hassigned⟩ := h
      exact ⟨w, hsole k w hw, hassigned' k w hassigned⟩
  | returned k =>
      obtain ⟨w, hw, hassigned, hp⟩ := h
      exact ⟨w, hsole k w hw, hassigned' k w hassigned, hp⟩
  | before | load | release | rejected => exact h.elim

/-! ## The steps -/

theorem Phase.workerStep (h : s.Phase) {k : ℕ} {w : Worker} (hw : s.workers[k]? = some w)
    (hok : s.Exclusive (.worker k)) (halive : s.crashed = false ∧ s.terminated = false)
    (hstep : WorkerStep kind s k w s') : s'.Phase ∧ s'.Sound := by
  cases h with
  | idle hrunning ht hworkers hcalls => simp [hworkers] at hw
  | entered i hi hcalls =>
      have hsole := hi.sole hw
      have hlive := hsole.live
      have hmoved : ∀ (place : Place), place.live = true →
          (place.reads = true → w.place.reads = true) →
          (w.place.inLoop = true → place.inLoop = true) →
          (s.setWorker k (w.setPlace place)).Phase := fun place hplace hreads hloop =>
        .entered i (hi.moved hw rfl rfl (fun _ => ⟨rfl, rfl⟩) rfl hplace
          (fun h => hsole.started (hreads h)) hloop) hcalls
      cases hstep with
      | storeStarted hp =>
          refine ⟨.entered i (hi.moved hw rfl rfl (fun d => ?_) rfl rfl (fun _ => ?_) ?_) hcalls,
            .of_alive halive⟩
          · by_cases hd : d = w.detail
            · subst hd
              simp [setDetail, setWorker]
            · simp [setDetail, setWorker, hd]
          · simp [setDetail, setWorker, Worker.setPlace]
          · simp [hp, Place.inLoop]
      | look place hp =>
          obtain ⟨hbefore, hbehind⟩ := hp.initialized
          refine ⟨hmoved place (by simp [Place.live, hbehind]) (fun _ => hp.reads) fun hloop => ?_,
            .of_alive halive⟩
          rw [hp.inLoop] at hloop
          cases hloop
      | setInit hp => exact ⟨hmoved .loopTest rfl nofun fun _ => rfl, .of_alive halive⟩
      | enter hp =>
          refine ⟨hmoved _ ?_ (fun hreads => ?_) fun _ => ?_, .of_alive halive⟩
          · split <;> rfl
          · split at hreads <;> cases hreads
          · split <;> rfl
      | leave hp hrunning => cases hrunning.symm.trans hsole.running
      | go hp => exact ⟨hmoved .calling rfl nofun fun _ => rfl, .of_alive halive⟩
      | call hp =>
          exact ⟨.entered i (hi.moved hw rfl rfl (fun _ => ⟨rfl, rfl⟩) rfl rfl nofun fun _ => rfl)
            hcalls, .of_alive halive⟩
      | clearStarted hp | setPromise p hp =>
          rw [hp] at hlive
          cases hlive
      | crash hp hbad =>
          rcases hbad with hfreed | ⟨hreads, hnone⟩ | hpromise
          · cases hfreed.symm.trans hsole.freed
          · exact absurd hnone (hok w hw hreads)
          · rw [hpromise] at hlive
            cases hlive
      | terminate hp =>
          rcases hp with hpromise | ⟨hreads, j, hjoined⟩
          · rw [hpromise] at hlive
            cases hlive
          · rcases hi.thread hw with hunassigned | hassigned
            · exact absurd hunassigned.thread (hok w hw hreads)
            · cases hassigned.symm.trans hjoined

variable [DecidableEq ι] {a : Action ι}

/-- A call that finds the flag up, or has not tested it yet. -/
theorem Phase.outside (h : s.Phase) {i : ι} (hi : (s.call i).entered = false) {pc : Call}
    (hpc : pc = .load ∨ pc = .rejected ∧ s.running = true) : (s.setCall i pc).Phase := by
  have hnot : ∀ {j}, s.Entered (s.call j) → j ≠ i := by
    rintro j hj rfl
    cases hc : s.call j <;> simp [hc, Call.entered, Entered] at hi hj
  cases h with
  | idle hrunning ht hworkers hcalls =>
      refine .idle hrunning ht hworkers fun j => ?_
      by_cases hj : j = i
      · subst hj
        rw [setCall_self]
        refine .inr (hpc.resolve_right fun hr => ?_)
        cases hrunning.symm.trans hr.2
      · rw [setCall_of_ne s pc hj]
        exact hcalls j
  | entered j hj hcalls =>
      refine .entered j ?_ fun l hl => ?_
      · rw [setCall_of_ne s pc (hnot hj)]
        exact hj.of_same rfl rfl rfl rfl
      · by_cases hli : l = i
        · subst hli
          rw [setCall_self]
          exact .inr hpc
        · rw [setCall_of_ne s pc hli]
          exact hcalls l hl

/-- The call that has got in takes its next step. -/
theorem Phase.inside {i : ι} (hcalls : ∀ j, j ≠ i → s.call j = .before ∨ s.call j = .load ∨
    s.call j = .rejected ∧ s.running = true) {pc : Call} (hcall : s'.call = s.call)
    (hrunning : s.running = true → s'.running = true) (hentered : s'.Entered pc) :
    (s'.setCall i pc).Phase := by
  refine .entered i ?_ fun j hj => ?_
  · rw [setCall_self]
    exact hentered.of_same rfl rfl rfl rfl
  · rw [setCall_of_ne s' pc hj, hcall]
    exact (hcalls j hj).imp_right (Or.imp_right fun h => ⟨h.1, hrunning h.2⟩)

omit [DecidableEq ι] in
theorem joinDetail_of_unassigned {d : ℕ} (h : s.Unassigned d) : s.joinDetail d = some s := by
  simp [joinDetail, h.thread]

theorem Phase.enteredStep {i : ι} (hi : s.Entered (s.call i))
    (hcalls : ∀ j, j ≠ i → s.call j = .before ∨ s.call j = .load ∨
      s.call j = .rejected ∧ s.running = true)
    (halive : s.crashed = false ∧ s.terminated = false) (hstep : CallStep s i s') :
    s'.Phase ∧ s'.Sound := by
  cases hstep with
  | called hc | rejected hc | load hc | release _ _ hc =>
      rw [hc] at hi
      exact hi.elim
  | store hc =>
      rw [hc] at hi
      obtain ⟨-, ht, hworkers⟩ := hi
      exact ⟨Phase.inside hcalls rfl (fun _ => rfl) ⟨rfl, ht, hworkers⟩, .of_alive halive⟩
  | create hc =>
      rw [hc] at hi
      obtain ⟨hrunning, ht, hworkers⟩ := hi
      rw [ht]
      refine ⟨Phase.inside hcalls rfl id ⟨hrunning, hworkers, s.created, rfl, ?_⟩, .of_alive halive⟩
      exact Function.update_self ..
  | start d hc ht hfreed =>
      rw [hc] at hi
      obtain ⟨hrunning, hworkers, e, he, hnew⟩ := hi
      obtain rfl : d = e := Option.some.inj (ht.symm.trans he)
      have hstarted : (s.details d).started = false := by rw [hnew]; rfl
      rw [hstarted]
      have hunassigned : s.Unassigned d := ⟨by rw [hnew]; rfl, by rw [hnew]; rfl⟩
      exact ⟨Phase.inside hcalls rfl id ⟨hrunning, hworkers, hunassigned⟩, .of_alive halive⟩
  | join d joined hc hjoin =>
      rw [hc] at hi
      obtain ⟨hrunning, hworkers, hunassigned⟩ := hi
      obtain rfl := Option.some.inj ((joinDetail_of_unassigned hunassigned).symm.trans hjoin)
      exact ⟨Phase.inside hcalls rfl id ⟨hrunning, hworkers, hunassigned⟩, .of_alive halive⟩
  | promise d hc =>
      rw [hc] at hi
      obtain ⟨hrunning, hworkers, hunassigned⟩ := hi
      refine ⟨Phase.inside hcalls rfl id ⟨hrunning, hworkers, ?_, ?_⟩, .of_alive halive⟩
      · simpa [setDetail] using hunassigned.thread
      · simpa [setDetail] using hunassigned.freed
  | spawn d hc =>
      rw [hc] at hi
      obtain ⟨hrunning, hworkers, hunassigned⟩ := hi
      have hsole : ({ s with workers := s.workers ++ [Worker.new d] } : Runnable ι).Sole
          s.workers.length (Worker.new d) :=
        ⟨hrunning, by simp [hworkers], by simp [hworkers], rfl, hunassigned.freed, nofun⟩
      exact ⟨Phase.inside hcalls rfl id ⟨⟨hunassigned.thread, hunassigned.freed⟩, _, hsole, rfl⟩,
        .of_alive halive⟩
  | assign d k hc =>
      rw [hc] at hi
      obtain ⟨hunassigned, w, hsole, rfl⟩ := hi
      refine ⟨Phase.inside hcalls rfl id ⟨w, ⟨hsole.running, hsole.zero, hsole.workers, hsole.live,
        ?_, fun hreads => ?_⟩, ?_⟩, .of_alive halive⟩
      · simpa [setDetail] using hsole.freed
      · simpa [setDetail] using hsole.started hreads
      · simp [Assigned, setDetail]
  | terminate d k w hc hthread =>
      rw [hc] at hi
      cases hthread.symm.trans hi.1.thread
  | wait k hc hinit =>
      rw [hc] at hi
      obtain ⟨w, hsole, hassigned⟩ := hi
      have hinitialized : w.place.initialized = true := by
        simpa [hsole.workers, hsole.zero] using hinit
      have hloop : w.place.inLoop = true := by
        simpa [Place.live, hinitialized] using hsole.live
      exact ⟨Phase.inside hcalls rfl id ⟨w, hsole, hassigned, hloop⟩, .of_alive halive⟩
  | crashStart hc hbad =>
      rw [hc] at hi
      obtain ⟨-, -, d, ht, hnew⟩ := hi
      rcases hbad with hnone | ⟨e, he, hfreed⟩
      · cases hnone.symm.trans ht
      · obtain rfl : d = e := Option.some.inj (ht.symm.trans he)
        rw [hnew] at hfreed
        cases hfreed
  | crash d hc hbad =>
      rcases hc with hc | hc | ⟨k, hc⟩ <;> rw [hc] at hi
      · cases hbad.symm.trans hi.2.2.freed
      · cases hbad.symm.trans hi.2.2.freed
      · cases hbad.symm.trans hi.1.freed

theorem Phase.callStep (h : s.Phase) {i : ι} (hok : s.Exclusive (.call i))
    (halive : s.crashed = false ∧ s.terminated = false) (hstep : CallStep s i s') :
    s'.Phase ∧ s'.Sound := by
  by_cases hentered : (s.call i).entered = false
  · cases hstep with
    | called hc => exact ⟨h.outside hentered (.inl rfl), .of_alive halive⟩
    | rejected hc hrunning => exact ⟨h.outside hentered (.inr ⟨rfl, hrunning⟩), .of_alive halive⟩
    | load hc hrunning =>
        cases h with
        | idle _ ht hworkers hcalls =>
            refine ⟨Phase.inside (fun j _ => ?_) rfl id ⟨hrunning, ht, hworkers⟩, .of_alive halive⟩
            exact (hcalls j).imp_right .inl
        | entered j hj hcalls =>
            exact absurd (hj.eq_store hrunning) (hok hc hrunning j)
    | store hc | create hc | release _ _ hc | start _ hc | join _ _ hc | promise _ hc | spawn _ hc
    | assign _ _ hc | terminate _ _ _ hc | wait _ hc | crashStart hc =>
        rw [hc] at hentered
        cases hentered
    | crash d hc =>
        rcases hc with hc | hc | ⟨k, hc⟩ <;> rw [hc] at hentered <;> cases hentered
  · cases h with
    | idle _ _ _ hcalls =>
        rcases hcalls i with hc | hc <;> rw [hc] at hentered <;> exact absurd rfl hentered
    | entered j hj hcalls =>
        obtain rfl : i = j := by
          by_contra hne
          rcases hcalls i hne with hc | hc | ⟨hc, -⟩ <;> rw [hc] at hentered <;>
            exact hentered rfl
        exact Phase.enteredStep hj hcalls halive hstep

theorem Phase.step (h : s.Phase) (hok : s.Exclusive a)
    (halive : s.crashed = false ∧ s.terminated = false) (hstep : Step kind s a s') :
    s'.Phase ∧ s'.Sound := by
  cases hstep with
  | stop => exact hok.elim
  | call i next hcall => exact h.callStep hok halive hcall
  | worker k w next hw hworker => exact h.workerStep hw hok halive hworker
  | returns k w hw hp =>
      cases h with
      | idle hrunning ht hworkers hcalls => simp [hworkers] at hw
      | entered i hi hcalls =>
          exact ⟨.entered i (hi.moved hw rfl rfl (fun _ => ⟨rfl, rfl⟩) rfl rfl nofun fun _ => rfl)
            hcalls, .of_alive halive⟩
  | throws k w hw hp =>
      have hsound : ({ s with terminated := true } : Runnable ι).Sound :=
        ⟨halive.1, fun _ => ⟨w, List.mem_of_getElem? hw, hp⟩⟩
      cases h with
      | idle hrunning ht hworkers hcalls => exact ⟨.idle hrunning ht hworkers hcalls, hsound⟩
      | entered i hi hcalls => exact ⟨.entered i (hi.of_same rfl rfl rfl rfl) hcalls, hsound⟩

theorem Reaches.phase (hs : (machine ι kind).Reaches Exclusive s) :
    s.Phase ∧ s.Sound := by
  induction hs with
  | init => exact ⟨.idle rfl rfl rfl fun _ => .inl rfl, .of_alive ⟨rfl, rfl⟩⟩
  | step _ hok hstep ih =>
      obtain ⟨halive, hrule⟩ := step_cases hstep
      exact ih.1.step hok halive hrule

/-! ## One call gets in -/

/-- Nothing goes wrong, at most one call gets past the flag and at most one worker is ever started.
The call that gets in is never stuck; and when all calls are over, it has returned a future, its loop
is running, and every other call has thrown. -/
structure EnteredOnce (kind : Kind) (s : Runnable ι) : Prop where
  sound : s.Sound
  unique : ∀ i j, (s.call i).entered = true → (s.call j).entered = true → i = j
  single : s.workers.length ≤ 1
  progress : s.terminated = false → ∀ i, (s.call i).entered = true → (s.call i).over = false →
    (s.step kind (.call i)).isSome ∨
      ∃ k, s.call i = .wait k ∧ s.Exclusive (.worker k) ∧ (s.step kind (.worker k)).isSome
  allOver : (∀ i, (s.call i).over = true) → (∃ i, s.call i ≠ .before) →
    ∃ i k w, s.call i = .returned k ∧ s.workers[k]? = some w ∧ w.place.inLoop = true ∧
      ∀ j, j ≠ i → s.call j = .before ∨ s.call j = .rejected

omit [DecidableEq ι] in
theorem Phase.eq_of_entered (h : s.Phase) {i j : ι} (hi : (s.call i).entered = true)
    (hj : (s.call j).entered = true) : i = j := by
  have hone : ∀ l m, s.Entered (s.call l) → (∀ j, j ≠ l → s.call j = .before ∨ s.call j = .load ∨
      s.call j = .rejected ∧ s.running = true) → (s.call m).entered = true → m = l := by
    intro l m _ hcalls hm
    by_contra hne
    rcases hcalls m hne with hc | hc | ⟨hc, -⟩ <;> rw [hc] at hm <;> cases hm
  cases h with
  | idle _ _ _ hcalls =>
      rcases hcalls i with hc | hc <;> rw [hc] at hi <;> cases hi
  | entered l hl hcalls => rw [hone l i hl hcalls hi, hone l j hl hcalls hj]

omit [DecidableEq ι] in
theorem Phase.single (h : s.Phase) : s.workers.length ≤ 1 := by
  cases h with
  | idle _ _ hworkers _ => simp [hworkers]
  | entered i hi _ =>
      rcases hworkers : s.workers with - | ⟨w, rest⟩
      · simp
      · have hsole := hi.sole (k := 0) (w := w) (by simp [hworkers])
        rw [← hworkers, hsole.workers]
        exact Nat.le_refl 1

/-- The call that has got in goes on, or waits for its worker, which goes on. -/
theorem Phase.progress (h : s.Phase) (hcrashed : s.crashed = false)
    (hterminated : s.terminated = false) {i : ι} (hentered : (s.call i).entered = true)
    (hover : (s.call i).over = false) :
    (s.step kind (.call i)).isSome ∨
      ∃ k, s.call i = .wait k ∧ s.Exclusive (.worker k) ∧ (s.step kind (.worker k)).isSome := by
  have hi : s.Entered (s.call i) := by
    cases h with
    | idle _ _ _ hcalls =>
        rcases hcalls i with hc | hc <;> rw [hc] at hentered <;> cases hentered
    | entered j hj hcalls =>
        by_cases hij : i = j
        · exact hij ▸ hj
        · rcases hcalls i hij with hc | hc | ⟨hc, -⟩ <;> rw [hc] at hentered <;> cases hentered
  simp only [Runnable.step, hcrashed, hterminated]
  cases hc : s.call i with
  | before | load | rejected | returned => simp [hc, Call.entered, Call.over] at hentered hover
  | release => rw [hc] at hi; exact hi.elim
  | store | create | promise | spawn | assign =>
      left
      simp [stepCall, hc]
  | start =>
      left
      rw [hc] at hi
      obtain ⟨-, -, d, ht, -⟩ := hi
      simp [stepCall, hc, ht]
  | join d =>
      left
      rw [hc] at hi
      obtain ⟨-, -, hunassigned⟩ := hi
      simp [stepCall, hc, hunassigned.freed, joinDetail_of_unassigned hunassigned]
  | wait k =>
      rw [hc] at hi
      obtain ⟨w, hsole, hassigned⟩ := hi
      have hw : s.workers[k]? = some w := by simp [hsole.workers, hsole.zero]
      cases hinit : w.place.initialized with
      | true =>
          left
          simp [stepCall, hc, hw, hinit]
      | false =>
          refine .inr ⟨k, rfl, fun v hv _ hnone => ?_, ?_⟩
          · obtain rfl : w = v := Option.some.inj (hw.symm.trans hv)
            cases hassigned.symm.trans hnone
          simp only [stepWorker, hw]
          cases hp : w.place <;> simp [hp, Place.initialized] at hinit ⊢

theorem enteredOnce_of_exclusive (hs : (machine ι kind).Reaches Exclusive s) :
    s.EnteredOnce kind := by
  obtain ⟨hphase, hsound⟩ := Reaches.phase hs
  refine ⟨hsound, fun i j => hphase.eq_of_entered, hphase.single,
    fun hterminated i => hphase.progress hsound.crashed hterminated, fun hover hsome => ?_⟩
  cases hphase with
  | idle _ _ _ hcalls =>
      obtain ⟨i, hne⟩ := hsome
      have hload := (hcalls i).resolve_left hne
      have hi := hover i
      rw [hload] at hi
      cases hi
  | entered i hi hcalls =>
      have hothers : ∀ j, j ≠ i → s.call j = .before ∨ s.call j = .rejected := by
        intro j hj
        rcases hcalls j hj with hc | hc | ⟨hc, -⟩
        · exact .inl hc
        · have hload := hover j
          rw [hc] at hload
          cases hload
        · exact .inr hc
      have hoveri := hover i
      cases hc : s.call i with
      | returned k =>
          rw [hc] at hi
          obtain ⟨w, hsole, -, hloop⟩ := hi
          exact ⟨i, k, w, hc, by simp [hsole.workers, hsole.zero], hloop, hothers⟩
      | before | rejected => rw [hc] at hi; exact hi.elim
      | load | store | create | release | start | join | promise | spawn | assign | wait =>
          rw [hc] at hoveri
          cases hoveri

/-- A call that finds the flag down while another one is between the two gets in as well. -/
theorem not_enteredOnce_of_not_exclusive {i : ι} (hearly : ¬ s.Exclusive (.call i))
    (hstep : s.step kind (.call i) = some s') : ¬ s'.EnteredOnce kind := by
  simp only [Exclusive, Classical.not_imp, not_forall, not_not] at hearly
  obtain ⟨hload, hdown, j, hj⟩ := hearly
  obtain ⟨⟨hcrashed, hterminated⟩, -⟩ := step_cases hstep
  obtain rfl : s.setCall i .store = s' := by
    simpa [Runnable.step, hcrashed, hterminated, stepCall, hload, hdown] using hstep
  intro h
  have hne : j ≠ i := by
    rintro rfl
    cases hload.symm.trans hj
  have hentered : ((s.setCall i .store).call j).entered = true := by
    rw [setCall_of_ne s _ hne, hj]
    rfl
  exact hne (h.unique j i hentered (by rw [setCall_self]; rfl))

/-- A thread that reads `_thread` before it is assigned dereferences a null pointer. -/
theorem not_enteredOnce_of_overtaken {k : ℕ} (hs : (machine ι kind).Reaches Exclusive s)
    (hearly : ¬ s.Exclusive (.worker k)) (hstep : s.step kind (.worker k) = some s') :
    ¬ s'.EnteredOnce kind := by
  simp only [Exclusive, Classical.not_imp, not_forall, not_not] at hearly
  obtain ⟨w, hentry, hreads, hnone⟩ := hearly
  have hw : s.workers[k]? = some w := hentry
  obtain ⟨⟨hcrashed, hterminated⟩, -⟩ := step_cases hstep
  have hsole : s.Sole k w := by
    cases (Reaches.phase hs).1 with
    | idle _ _ hworkers _ => simp [hworkers] at hw
    | entered i hi _ => exact hi.sole hw
  have hcrash : s.stepWorker kind k = some s.crash := by
    have hstarted := hsole.started hreads
    cases hp : w.place with
    | priorityTest | nameTest | nameHandle =>
        simp [stepWorker, hw, hp, access, hsole.freed, testJoinable, nativeHandle, hstarted, hnone]
    | _ =>
        rw [hp] at hreads
        cases hreads
  obtain rfl : s.crash = s' := by
    simpa [Runnable.step, hcrashed, hterminated, hcrash] using hstep
  intro h
  cases h.sound.crashed

instance decidableExclusive [Fintype ι] (s : Runnable ι) :
    (a : Action ι) → Decidable (s.Exclusive a)
  | .stop => isFalse id
  | .call i => inferInstanceAs
      (Decidable (s.call i = .load → s.running = false → ∀ j, s.call j ≠ .store))
  | .worker k => inferInstanceAs
      (Decidable (∀ w ∈ s.workers[k]?, w.place.reads = true → (s.details w.detail).thread ≠ none))
  | .returns _ | .throws _ => isTrue trivial

/-- Two calls one after the other, the second one while the loop is running. -/
theorem enteredOnce_one_after_other :
    ∃ s, (machine Bool .activeRunnable).run init
        (List.replicate 9 (.call false) ++ List.replicate 5 (.worker 0) ++
          [.call false, .call true, .call true]) = some s ∧
      s.call true = .rejected ∧ s.EnteredOnce .activeRunnable := by
  have hmeets : (machine Bool .activeRunnable).Meets Exclusive init
      (List.replicate 9 (.call false) ++ List.replicate 5 (.worker 0) ++
        [.call false, .call true, .call true]) := by
    decide +kernel
  have hany : (((machine Bool .activeRunnable).run init
      (List.replicate 9 (.call false) ++ List.replicate 5 (.worker 0) ++
        [.call false, .call true, .call true])).any fun s => decide (s.call true = .rejected)) = true := by
    decide +kernel
  obtain ⟨s, hrun, h⟩ := (Option.any_eq_true _ _).mp hany
  refine ⟨s, hrun, of_decide_eq_true h, ?_⟩
  exact enteredOnce_of_exclusive (Machine.Reaches.init.run_of_meets hmeets hrun)

/-- Two calls both load the flag before one of them stores it, and both get past `join`. -/
def bothPastJoin : List (Action Bool) :=
  [.call false, .call true, .call false, .call true, .call false, .call true, .call false,
    .call true, .call true, .call false, .call true, .call false, .call true]

/-- Then each of them starts a worker, and both workers are in their loops. -/
theorem entered_twice :
    ∃ s, (machine Bool .runnable).run init
        (bothPastJoin ++ List.replicate 3 (.call false) ++ List.replicate 7 (.worker 0) ++
          List.replicate 2 (.call true) ++ List.replicate 7 (.worker 1)) = some s ∧
      s.workers = [⟨.working, 1, 1, none⟩, ⟨.working, 1, 1, none⟩] ∧
      ¬ s.EnteredOnce .runnable := by
  have hany : (((machine Bool .runnable).run init
      (bothPastJoin ++ List.replicate 3 (.call false) ++ List.replicate 7 (.worker 0) ++
        List.replicate 2 (.call true) ++ List.replicate 7 (.worker 1))).any fun s =>
        decide (s.workers = [⟨.working, 1, 1, none⟩, ⟨.working, 1, 1, none⟩])) = true := by
    decide +kernel
  obtain ⟨s, hrun, h⟩ := (Option.any_eq_true _ _).mp hany
  have hworkers := of_decide_eq_true h
  refine ⟨s, hrun, hworkers, fun h => ?_⟩
  have hsingle := h.single
  rw [hworkers] at hsingle
  exact absurd hsingle (by decide)

end Runnable

end CommonLib.RunStop
