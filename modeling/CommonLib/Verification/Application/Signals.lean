import CommonLib.Verification.Application.Life

/-! # Signals and the end of a run

A signal that asks for an end may come at any time behind the mask, also while `bootup` runs: it
stays pending until the loop takes it. Nothing else ends a run. -/

namespace CommonLib.Lifecycle

theorem Lambda.Moves.ne_exited {κ : Type*} [DecidableEq κ] {strict : Bool} {resource : κ}
    {resources resources' : List κ} {l l' : Lambda}
    (h : Moves strict resource resources l l' resources') : l ≠ .exited := by
  cases h with
  | track | setInit | release | setValue | destroy => simp

namespace Application

/-! ## The mask -/

theorem not_exposed_iff {s : Application} :
    s.exposed = false ↔ s.blocked = true ∧ ∀ w ∈ s.workers, w.exposed = false := by
  simp [exposed]

theorem not_exposed_set {workers : List Worker} (h : ∀ w ∈ workers, w.exposed = false) {k : ℕ}
    {w w' : Worker} (hw : workers[k]? = some w) (hsame : w'.unblocked = w.unblocked)
    (hlambda : w.lambda ≠ .exited) : ∀ v ∈ workers.set k w', v.exposed = false := by
  intro v hv
  rcases List.mem_or_eq_of_mem_set hv with hold | rfl
  · exact h v hold
  · have hexposed := h w (List.mem_of_getElem? hw)
    have hblocked : w.unblocked = false := by simpa [Worker.exposed, hlambda] using hexposed
    simp [Worker.exposed, hsame, hblocked]

/-- Where all threads block the signals, it stays so, and no signal kills the process. -/
theorem Step.not_exposed {strict : Bool} {s s' : Application} {a : Action}
    (hstep : Step strict s a s') (h : s.exposed = false) :
    s'.exposed = false ∧ s'.killed = s.killed := by
  obtain ⟨hblocked, hworkers⟩ := not_exposed_iff.mp h
  cases hstep with
  | run hmain => exact ⟨not_exposed_iff.mpr ⟨rfl, hworkers⟩, rfl⟩
  | kill hexposed =>
      rw [h] at hexposed
      cases hexposed
  | spawn unblocked hmask =>
      obtain rfl : unblocked = false := by
        cases unblocked with
        | false => rfl
        | true =>
            rw [if_pos rfl, h] at hmask
            cases hmask
      refine ⟨not_exposed_iff.mpr ⟨hblocked, fun w hw => ?_⟩, rfl⟩
      rcases List.mem_append.mp hw with hold | hnew
      · exact hworkers w hold
      · rw [List.mem_singleton.mp hnew]
        rfl
  | worker k w next resources hw hnext =>
      have hlambda := (Lambda.moves_of_next hnext).ne_exited
      exact ⟨not_exposed_iff.mpr ⟨hblocked, not_exposed_set hworkers hw rfl hlambda⟩, rfl⟩
  | returns k unblocked hw =>
      exact ⟨not_exposed_iff.mpr ⟨hblocked, not_exposed_set hworkers hw rfl (by simp)⟩, rfl⟩
  | start | initialized | returned | destroy | lambda | running | stop | listen | told | ignored
  | closed | bootup | shutdown | booted | stopped | throws | take | fail | raise => exact ⟨h, rfl⟩

theorem not_killed {strict : Bool} {s s' : Application} {actions : List Action}
    (h : s.exposed = false) (hrun : (machine strict).run s actions = some s') :
    s'.exposed = false ∧ s'.killed = s.killed := by
  refine Machine.run_invariant (P := fun t => t.exposed = false ∧ t.killed = s.killed) ?_ ⟨h, rfl⟩ hrun
  rintro t a t' ⟨ht, hkilled⟩ hstep
  obtain ⟨ht', hkilled'⟩ := (step_cases hstep).2.2.not_exposed ht
  exact ⟨ht', hkilled'.trans hkilled⟩

/-! ## What is raised is heard -/

theorem Life.told_of_step {l l' : Life} {e : Event} (h : l.step e = some l') (htold : l.told = true) :
    l'.told = true := by
  cases e with
  | signal signal => simp [Life.step, htold] at h
  | bootup | running | shutdown | closed | returned =>
      simp only [Life.step] at h
      split at h <;> cases h
      exact htold

/-- The application has been told to stop, and that is not taken back. -/
theorem Placed.told_step {strict : Bool} {s s' : Application} {a : Action} (h : s.Placed)
    (hstep : Step strict s a s') (htold : s.told = true) : s'.told = true := by
  rcases h.tells hstep with ⟨-, hlife⟩ | ⟨e, -, hlife⟩
  · exact (congrArg Life.told hlife).trans htold
  · exact Life.told_of_step hlife htold

/-- A signal that asks for an end has been taken or is pending. -/
def Called (s : Application) : Prop :=
  s.told = true ∨ ∃ signal ∈ s.pending, signal ≠ .sighup

theorem Placed.called_step {strict : Bool} {s s' : Application} {a : Action} (h : s.Placed)
    (hstep : Step strict s a s') (hcalled : s.Called) : s'.Called := by
  rcases hcalled with htold | ⟨signal, hpending, hsignal⟩
  · exact .inl (h.told_step hstep htold)
  · cases hstep with
    | take taken hplace htaken =>
        by_cases hsame : signal = taken
        · subst hsame
          left
          simp [told, hplace.1, Place.told, hsignal]
        · exact .inr ⟨signal, (List.mem_erase_of_ne hsame).mpr hpending, hsignal⟩
    | raise new hblocked => exact .inr ⟨signal, List.mem_insert_of_mem hpending, hsignal⟩
    | run | start | initialized | returned | destroy | lambda | running | stop | listen | told
    | ignored | closed | bootup | shutdown | booted | stopped | throws | fail | kill | spawn
    | worker | returns => exact .inr ⟨signal, hpending, hsignal⟩

/-- What is known of the signals that became pending. -/
structure Heard (s : Application) : Prop where
  called : (∃ signal ∈ s.raised, signal ≠ .sighup) → s.Called
  pending : ∀ signal ∈ s.pending, signal ∈ s.raised
  handling : ∀ signal, s.At (.handling signal) → signal ∈ s.raised
  told : s.shutdown = true → ∃ signal ∈ s.raised, signal ≠ .sighup
  log : .shutdown ∈ s.log → s.shutdown = true

theorem heard_init : init.Heard where
  called h := by simp [init] at h
  pending _ h := by cases h
  handling _ h := by cases h.1
  told h := by cases h
  log h := by cases h

/-- A step that takes or raises no signal. -/
theorem Heard.of_eq {s s' : Application} (h : s.Heard) (hcalled : s.Called → s'.Called)
    (hraised : s'.raised = s.raised) (hpending : s'.pending = s.pending)
    (hhandling : ∀ signal, s'.At (.handling signal) → s.At (.handling signal))
    (hshutdown : s'.shutdown = s.shutdown) (hlog : .shutdown ∈ s'.log → .shutdown ∈ s.log) :
    s'.Heard := by
  refine ⟨?_, ?_, ?_, ?_, ?_⟩
  · rw [hraised]
    exact fun hr => hcalled (h.called hr)
  · rw [hraised, hpending]
    exact h.pending
  · rw [hraised]
    exact fun signal hs => h.handling signal (hhandling signal hs)
  · rw [hraised, hshutdown]
    exact h.told
  · rw [hshutdown]
    exact fun hs => h.log (hlog hs)

theorem Placed.heard_step {strict : Bool} {s s' : Application} {a : Action} (hs : s.Placed)
    (h : s.Heard) (hstep : Step strict s a s') : s'.Heard := by
  have hcalled := hs.called_step hstep
  cases hstep with
  | run | initialized | destroy | throws | kill | spawn | worker | returns =>
      exact h.of_eq hcalled rfl rfl (fun _ hs => hs) rfl id
  | start hmain hlambda => exact h.of_eq hcalled rfl rfl (fun _ hat => by cases hat.1) rfl id
  | returned hmain hlambda => exact h.of_eq hcalled rfl rfl (fun _ hs => hs) rfl (by simp)
  | lambda next resources hnext =>
      refine h.of_eq hcalled rfl rfl (fun signal hat => ?_) rfl id
      have hfresh := hs.fresh ((Lambda.moves_of_next hnext).fresh (.inr hat.1))
      have hplace : Place.booting = .handling signal := hfresh.symm.trans hat.2
      cases hplace
  | running hplace | bootup future hplace =>
      exact h.of_eq hcalled rfl rfl (fun _ hat => by cases hat.2) rfl (by simp)
  | stop hplace hshutdown | listen hplace hshutdown | ignored hplace | booted hplace
  | stopped hplace | fail hplace =>
      exact h.of_eq hcalled rfl rfl (fun _ hat => by cases hat.2) rfl id
  | told signal hplace hsignal =>
      refine ⟨fun hr => hcalled (h.called hr), h.pending, (fun _ hat => by cases hat.2), fun _ => ?_,
        fun _ => rfl⟩
      exact ⟨signal, h.handling signal hplace, hsignal⟩
  | closed hplace => exact h.of_eq hcalled rfl rfl (fun _ hat => by cases hat.1) rfl (by simp)
  | shutdown future hplace =>
      have hflag : s.shutdown = true := hs.flag hplace.1 true (by rw [hplace.2]; rfl)
      exact ⟨fun hr => hcalled (h.called hr), h.pending, (fun _ hat => by cases hat.2), h.told,
        fun _ => hflag⟩
  | take signal hplace hpending =>
      refine ⟨fun hr => hcalled (h.called hr), fun v hv => h.pending v (List.mem_of_mem_erase hv),
        fun v hv => ?_, h.told, fun hlog => h.log (by simpa using hlog)⟩
      cases hv.2
      exact h.pending signal hpending
  | raise signal hblocked =>
      refine ⟨fun hr => ?_, fun v hv => ?_, fun v hv => ?_, fun htold => ?_, h.log⟩
      · by_cases hold : ∃ v ∈ s.raised, v ≠ .sighup
        · exact hcalled (h.called hold)
        · obtain ⟨v, hv, hne⟩ := hr
          rcases List.mem_append.mp hv with hmem | hmem
          · exact absurd ⟨v, hmem, hne⟩ hold
          · rw [List.mem_singleton.mp hmem] at hne
            exact .inr ⟨signal, List.mem_insert_self, hne⟩
      · rcases List.mem_insert_iff.mp hv with rfl | hold
        · exact List.mem_append_right _ (List.mem_singleton_self _)
        · exact List.mem_append_left _ (h.pending v hold)
      · exact List.mem_append_left _ (h.handling v hv)
      · obtain ⟨v, hv, hne⟩ := h.told htold
        exact ⟨v, List.mem_append_left _ hv, hne⟩

theorem Reachable.heard {strict : Bool} {s : Application} (h : (machine strict).Reachable s) :
    s.Heard :=
  h.invariant_of (Q := Placed) (fun _ hs => Reachable.placed hs) heard_init
    fun _ _ _ hs hheard _ hstep => hs.heard_step hheard (step_cases hstep).2.2

end Application

/-! ## The way to the end of a run -/

def Main.work : Main → ℕ
  | starting => 18
  | initializing => 2
  | waiting => 1
  | idle | destroyed => 0

def Place.work (shutdown : Bool) : Place → ℕ
  | booting => 10
  | booted true => 9
  | booted false | handling .sighup => 8
  | looping => if shutdown then 4 else 7
  | listening => 6
  | handling .sigterm | handling .sigint => 5
  | stopping => 3
  | stopped true => 2
  | stopped false => 1

def Lambda.work (inside : ℕ) : Lambda → ℕ
  | entered => 15
  | tracking => 14
  | working => 3 + inside
  | returned => 3
  | released => 2
  | completed => 1
  | absent | exited => 0

theorem Place.work_pos (shutdown : Bool) (place : Place) :
    0 < place.work shutdown ∧ place.work shutdown ≤ 10 := by
  cases place with
  | booted future | stopped future => cases future <;> simp [work]
  | handling signal => cases signal <;> simp [work]
  | looping => cases shutdown <;> simp [work]
  | booting | listening | stopping => simp [work]

namespace Application

/-- What the application's thread still has to do. -/
def threadWork (s : Application) : ℕ :=
  s.lambda.work (s.place.work s.shutdown)

def distance (s : Application) : ℕ :=
  s.main.work + s.threadWork

/-- The process lives, and the run is to end. These are all the signals that became pending. -/
structure Summoned (strict : Bool) (signals : List Signal) (s : Application) : Prop where
  reachable : (machine strict).Reachable s
  alive : s.killed = false
  live : s.terminated = false
  present : s.main ≠ .destroyed
  called : s.Called
  raised : s.raised = signals

/-- A rule that neither ends the process nor the application, and raises no signal. -/
theorem Summoned.step {strict : Bool} {signals : List Signal} {s s' : Application} {a : Action}
    (h : Summoned strict signals s) (hstep : Step strict s a s') (halive : s'.killed = s.killed)
    (hlive : s'.terminated = s.terminated) (hraised : s'.raised = s.raised)
    (hpresent : s'.main ≠ .destroyed) :
    (machine strict).step s a = some s' ∧ Summoned strict signals s' := by
  have hs : (machine strict).step s a = some s' := hstep.step_eq h.alive h.live
  exact ⟨hs, h.reachable.step trivial hs, halive.trans h.alive, hlive.trans h.live, hpresent,
    (Reachable.placed h.reachable).called_step hstep h.called, hraised.trans h.raised⟩

/-- A step of the application's thread towards its end. -/
def Advances (strict : Bool) (s : Application) : Prop :=
  ∃ a s', Step strict s a s' ∧ s'.killed = s.killed ∧ s'.terminated = s.terminated ∧
    s'.raised = s.raised ∧ s'.main = s.main ∧ s'.threadWork < s.threadWork

theorem Advances.of_next {strict : Bool} {s : Application} {next : Lambda}
    {resources : List (Option ℕ)}
    (hnext : s.lambda.next strict none s.resources = some (next, resources))
    (hwork : next.work (s.place.work s.shutdown) < s.threadWork) : s.Advances strict :=
  ⟨_, _, .lambda next resources hnext, rfl, rfl, rfl, rfl, hwork⟩

/-- The same for a step inside `run`'s lambda. -/
theorem Advances.of_place {strict : Bool} {s s' : Application} {a : Action} {old place : Place}
    (hplace : s.At old) (hstep : Step strict s a s') (halive : s'.killed = s.killed)
    (hlive : s'.terminated = s.terminated) (hraised : s'.raised = s.raised)
    (hmain : s'.main = s.main) (hnew : s'.At place)
    (hwork : place.work s'.shutdown < old.work s.shutdown) : s.Advances strict := by
  refine ⟨a, s', hstep, halive, hlive, hraised, hmain, ?_⟩
  rw [threadWork, threadWork, hnew.1, hnew.2, hplace.1, hplace.2]
  exact Nat.add_lt_add_left hwork 3

theorem Placed.advances_work {strict : Bool} {s : Application} (h : s.Placed) (hcalled : s.Called)
    (hworking : s.lambda = .working) : s.Advances strict := by
  cases hp : s.place with
  | booting =>
      have hplace : s.At .booting := ⟨hworking, hp⟩
      exact .of_place hplace (.bootup false hplace) rfl rfl rfl rfl ⟨hworking, rfl⟩ (by simp [Place.work])
  | booted future =>
      have hplace : s.At (.booted future) := ⟨hworking, hp⟩
      cases future with
      | true => exact .of_place hplace (.booted hplace) rfl rfl rfl rfl ⟨hworking, rfl⟩ (by simp [Place.work])
      | false =>
          refine .of_place hplace (.running hplace) rfl rfl rfl rfl ⟨hworking, rfl⟩ ?_
          cases hshutdown : s.shutdown <;> simp [Place.work]
  | looping =>
      have hplace : s.At .looping := ⟨hworking, hp⟩
      cases hshutdown : s.shutdown with
      | true =>
          exact .of_place hplace (.stop hplace hshutdown) rfl rfl rfl rfl ⟨hworking, rfl⟩
            (by simp [Place.work, hshutdown])
      | false =>
          exact .of_place hplace (.listen hplace hshutdown) rfl rfl rfl rfl ⟨hworking, rfl⟩
            (by simp [Place.work, hshutdown])
  | listening =>
      have hplace : s.At .listening := ⟨hworking, hp⟩
      have hshutdown : s.shutdown = false := h.flag hworking false (by rw [hp]; rfl)
      have htold : s.told = false := by simp [told, hshutdown, hp, Place.told]
      rcases hcalled with hcalled | ⟨signal, hpending, hsignal⟩
      · rw [htold] at hcalled
        cases hcalled
      · refine .of_place hplace (.take signal hplace hpending) rfl rfl rfl rfl ⟨hworking, rfl⟩ ?_
        cases signal with
        | sighup => exact absurd rfl hsignal
        | sigterm | sigint => simp [Place.work]
  | handling signal =>
      have hplace : s.At (.handling signal) := ⟨hworking, hp⟩
      cases signal with
      | sighup =>
          refine .of_place hplace (.ignored hplace) rfl rfl rfl rfl ⟨hworking, rfl⟩ ?_
          cases hshutdown : s.shutdown <;> simp [Place.work]
      | sigterm | sigint =>
          exact .of_place hplace (.told _ hplace (by simp)) rfl rfl rfl rfl ⟨hworking, rfl⟩
            (by simp [Place.work])
  | stopping =>
      have hplace : s.At .stopping := ⟨hworking, hp⟩
      exact .of_place hplace (.shutdown false hplace) rfl rfl rfl rfl ⟨hworking, rfl⟩
        (by simp [Place.work])
  | stopped future =>
      have hplace : s.At (.stopped future) := ⟨hworking, hp⟩
      cases future with
      | true =>
          exact .of_place hplace (.stopped hplace) rfl rfl rfl rfl ⟨hworking, rfl⟩ (by simp [Place.work])
      | false =>
          refine ⟨_, _, .closed hplace, rfl, rfl, rfl, rfl, ?_⟩
          simp [threadWork, hplace.1, hplace.2, Lambda.work, Place.work]

theorem Placed.advances {strict : Bool} {s : Application} (h : s.Placed) (hcalled : s.Called)
    (habsent : s.lambda ≠ .absent) (hexited : s.lambda ≠ .exited) : s.Advances strict := by
  cases hl : s.lambda with
  | absent => exact absurd hl habsent
  | exited => exact absurd hl hexited
  | working => exact h.advances_work hcalled hl
  | entered | returned | released | completed =>
      refine .of_next (by rw [hl]; rfl) ?_
      simp [threadWork, hl, Lambda.work]
  | tracking =>
      refine .of_next (by rw [hl]; rfl) ?_
      have hplace := (s.place.work_pos s.shutdown).2
      simp only [threadWork, hl, Lambda.work]
      omega

theorem Summoned.exists_step {strict : Bool} {signals : List Signal} {s : Application}
    (h : Summoned strict signals s) (hmain : s.main ≠ .idle) :
    ∃ a s', (machine strict).step s a = some s' ∧ Summoned strict signals s' ∧
      s'.distance < s.distance := by
  have hplaced := Reachable.placed h.reachable
  -- A move of the main thread is only needed where the application's thread has none.
  by_cases hrest : s.lambda = .absent ∨ s.lambda = .exited
  · cases hm : s.main with
    | idle => exact absurd hm hmain
    | destroyed => exact absurd hm h.present
    | starting =>
        obtain ⟨hs, hnext⟩ := h.step (.start hm hrest) rfl rfl rfl (by simp)
        refine ⟨_, _, hs, hnext, ?_⟩
        rcases hrest with hl | hl <;>
          simp [distance, threadWork, hm, hl, Main.work, Lambda.work]
    | initializing =>
        have hlambda : ¬ (s.lambda = .entered ∨ s.lambda = .tracking) := by
          rcases hrest with hl | hl <;> simp [hl]
        obtain ⟨hs, hnext⟩ := h.step (.initialized hm hlambda) rfl rfl rfl (by simp)
        refine ⟨_, _, hs, hnext, ?_⟩
        simp [distance, threadWork, hm, Main.work]
    | waiting =>
        have hexited : s.lambda = .exited :=
          hrest.resolve_left (hplaced.started (by rw [hm]; rfl))
        obtain ⟨hs, hnext⟩ := h.step (.returned hm (.inr hexited)) rfl rfl rfl (by simp)
        refine ⟨_, _, hs, hnext, ?_⟩
        simp [distance, threadWork, hm, Main.work]
  · rw [not_or] at hrest
    have hadvances : s.Advances strict := hplaced.advances h.called hrest.1 hrest.2
    obtain ⟨a, s', hstep, halive, hlive, hraised, hsame, hless⟩ := hadvances
    obtain ⟨hs, hnext⟩ := h.step hstep halive hlive hraised (hsame ▸ h.present)
    refine ⟨a, s', hs, hnext, ?_⟩
    rw [distance, distance, hsame]
    exact Nat.add_lt_add_left hless _

/-- `shutdown` is called only behind a SIGTERM or a SIGINT. Once one of them has become pending,
while `bootup` runs or at any other time, it is not lost: the run can go on to its end without
any other signal. And where all threads block the signals, no signal ever kills the process. -/
theorem ends_for_a_signal {strict : Bool} {s : Application} (h : (machine strict).Reachable s) :
    (.shutdown ∈ s.log → ∃ signal ∈ s.raised, signal ≠ .sighup) ∧
    (s.killed = false → s.terminated = false → s.main ≠ .destroyed →
      (∃ signal ∈ s.raised, signal ≠ .sighup) →
      (machine strict).Leads (fun s' => s'.main = .idle ∧ s'.killed = false ∧
        s'.terminated = false ∧ s'.raised = s.raised) s) ∧
    ∀ actions s', s.exposed = false → (machine strict).run s actions = some s' →
      s'.killed = s.killed := by
  have hheard := Reachable.heard h
  refine ⟨fun hlog => hheard.told (hheard.log hlog), fun halive hlive hpresent hraised => ?_,
    fun actions s' hexposed hrun => (not_killed hexposed hrun).2⟩
  have hstart : Summoned strict s.raised s :=
    ⟨h, halive, hlive, hpresent, hheard.called hraised, rfl⟩
  refine (Machine.Leads.of_decreasing (P := fun s => s.main = .idle) distance
    (fun _ => Summoned.exists_step) hstart).imp ?_
  rintro s' ⟨hs', hmain⟩
  exact ⟨hmain, hs'.alive, hs'.live, hs'.raised⟩

/-- SIGTERM between the mask and the start of the thread. -/
theorem ends_for_a_signal_early :
    ∃ s, (machine true).run init [.run, .raise .sighup, .raise .sigterm, .main, .thread] = some s ∧
      s.main = .initializing ∧
      (machine true).Leads (fun s' => s'.main = .idle ∧ s'.raised = [.sighup, .sigterm]) s ∧
      ∀ actions s', (machine true).run s actions = some s' → s'.killed = false := by
  obtain ⟨s, hrun, hmain, halive, hlive, hraised, hexposed⟩ : ∃ s, (machine true).run init
        [.run, .raise .sighup, .raise .sigterm, .main, .thread] = some s ∧ s.main = .initializing ∧
      s.killed = false ∧ s.terminated = false ∧ s.raised = [.sighup, .sigterm] ∧
      s.exposed = false := ⟨_, rfl, rfl, rfl, rfl, rfl, rfl⟩
  obtain ⟨-, hleads, hsafe⟩ := ends_for_a_signal (Machine.reachable_of_run hrun)
  refine ⟨s, hrun, hmain, (hleads halive hlive (by simp [hmain]) ?_).imp fun _ hs => ?_, ?_⟩
  · exact ⟨.sigterm, by simp [hraised], by simp⟩
  · exact ⟨hs.1, hs.2.2.2.trans hraised⟩
  · exact fun actions s' hrest => (hsafe actions s' hexposed hrest).trans halive

end Application

end CommonLib.Lifecycle
