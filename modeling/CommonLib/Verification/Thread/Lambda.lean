import CommonLib.Model.Application
import CommonLib.Verification.RunStop.Equations
import CommonLib.Verification.Thread.Equations

/-! # The lambda of `start` in the three models

Each model of threads has the lambda of `ThreadDetail::start` with what matters there: the thread
object has all that touches the object, `run` and `stop` put their loop in the place of `work`, and an
application follows the resource. What a worker of `run` does is what the thread object does, and
leaves the lambda of an application at the same place or at the next one. -/

namespace CommonLib

namespace Thread.ThreadDetail

theorem setPromise_of_none {s : ThreadDetail} {k : ℕ} (h : s.promise = none) :
    s.setPromise k = { s with crashed := true } := by
  unfold setPromise
  split
  · rfl
  · rename_i hsome
    cases h.symm.trans hsome

theorem setPromise_of_some {s : ThreadDetail} {k p : ℕ} (h : s.promise = some p) :
    s.setPromise k =
      if p ∈ s.completed then { s with completed := s.completed ++ [p], terminated := true }
      else { s with completed := s.completed ++ [p] }.setPlace k .exited := by
  unfold setPromise
  split
  · rename_i hnone
    cases h.symm.trans hnone
  · rename_i q hsome
    obtain rfl : p = q := Option.some.inj (h.symm.trans hsome)
    rfl

/-! ## Where a thread goes -/

section Places

variable {s : ThreadDetail} {k : ℕ} {p go skip : Place}

theorem eq_of_setPlace (h : (s.setPlace k go).spawned[k]? = some p) : p = go := by
  rcases getElem?_setPlace h with ⟨-, heq⟩ | ⟨hne, -⟩
  · exact heq
  · exact absurd rfl hne

theorem place_testJoinable (h : (s.testJoinable k go skip).spawned[k]? = some p) :
    s.spawned[k]? = some p ∨ p = go ∨ p = skip := by
  unfold testJoinable at h
  split at h
  · split at h
    · exact .inl h
    · exact .inl h
    · exact .inr (.inl (eq_of_setPlace h))
  · exact .inr (.inr (eq_of_setPlace h))

theorem place_nativeHandle (h : (s.nativeHandle k go).spawned[k]? = some p) :
    s.spawned[k]? = some p ∨ p = go := by
  unfold nativeHandle at h
  split at h
  · exact .inl h
  · exact .inr (eq_of_setPlace h)

theorem place_setPromise (h : (s.setPromise k).spawned[k]? = some p) :
    s.spawned[k]? = some p ∨ p = .exited := by
  unfold setPromise at h
  split at h
  · exact .inl h
  · split at h
    · exact .inl h
    · exact .inr (eq_of_setPlace h)

end Places

end Thread.ThreadDetail

/-! ## `run` and the thread object -/

namespace RunStop

/-- The loop is the `work` of the thread. -/
def Place.lambda : Place → Thread.Place
  | .storeStarted => .storeStarted
  | .priorityTest => .priorityTest
  | .nameTest => .nameTest
  | .nameHandle => .nameHandle
  | .setInit => .setInit
  | .loopTest | .runTest | .calling | .working => .working
  | .clearStarted => .clearStarted
  | .setPromise => .setPromise
  | .exited => .exited

def Handle.object (handle : Handle) : Thread.Handle :=
  ⟨handle.worker, handle.joinable⟩

namespace Runnable

variable {ι : Type*} {kind : Kind} {s s' : Runnable ι} {k d : ℕ} {w : Worker}

/-- The object as the workers see it, without any history. -/
def object (s : Runnable ι) (d : ℕ) : Thread.ThreadDetail where
  thread := (s.details d).thread.map Handle.object
  promise := (s.details d).promise
  priority := .default
  started := (s.details d).started
  caller := .idle
  spawned := s.workers.map (·.place.lambda)
  completed := s.completed
  abandoned := []
  returned := []
  reads := []
  crashed := s.crashed
  terminated := s.terminated

theorem object_place (hw : s.workers[k]? = some w) (d : ℕ) :
    (s.object d).spawned[k]? = some w.place.lambda := by
  simp [Runnable.object, hw]

theorem object_started (s : Runnable ι) (d : ℕ) :
    (s.object d).started = (s.details d).started := rfl

theorem object_thread (s : Runnable ι) (d : ℕ) :
    (s.object d).thread = (s.details d).thread.map Handle.object := rfl

theorem object_setWorker (s : Runnable ι) (k : ℕ) (v : Worker) (d : ℕ) :
    (s.setWorker k v).object d = (s.object d).setPlace k v.place.lambda := by
  simp [Runnable.object, setWorker, Thread.ThreadDetail.setPlace, List.map_set]

theorem object_setStarted (s : Runnable ι) (d : ℕ) (started : Bool) :
    (s.setDetail d { s.details d with started := started }).object d =
      { s.object d with started := started } := by
  simp [Runnable.object, setDetail]

/-- The two models are in the same state. What `std::terminate` leaves behind does not matter. -/
structure Agrees (s : Runnable ι) (d : ℕ) (t : Thread.ThreadDetail) : Prop where
  crashed : t.crashed = s.crashed
  terminated : t.terminated = s.terminated
  object : s.terminated = false → s.object d = { t with reads := [], returned := [] }

theorem Agrees.of_setWorker {v : Worker} :
    (s.setWorker k v).Agrees d ((s.object d).setPlace k v.place.lambda) :=
  ⟨rfl, rfl, fun _ => object_setWorker s k v d⟩

theorem Agrees.of_setStarted {v : Worker} (started : Bool) :
    ((s.setDetail d { s.details d with started := started }).setWorker k v).Agrees d
      ({ s.object d with started := started }.setPlace k v.place.lambda) := by
  refine ⟨rfl, rfl, fun _ => ?_⟩
  rw [object_setWorker, object_setStarted]
  rfl

/-- Behind a look at `_thread`, which the thread object keeps in its history. -/
theorem Agrees.of_read {v : Worker} :
    (s.setWorker k v).Agrees d (((s.object d).read k).setPlace k v.place.lambda) :=
  ⟨rfl, rfl, fun _ => object_setWorker s k v d⟩

theorem agrees_testJoinable (go skip : Place) :
    (s.testJoinable k w go skip).Agrees w.detail
      ((s.object w.detail).testJoinable k go.lambda skip.lambda) := by
  unfold testJoinable Thread.ThreadDetail.testJoinable
  rw [object_started, object_thread]
  cases (s.details w.detail).started with
  | false => exact .of_setWorker
  | true =>
      rcases (s.details w.detail).thread with - | ⟨j, joinable⟩
      · exact ⟨rfl, rfl, fun _ => rfl⟩
      · cases joinable with
        | false => exact ⟨rfl, rfl, nofun⟩
        | true => exact .of_read

theorem agrees_nativeHandle (go : Place) :
    (s.nativeHandle k w go).Agrees w.detail ((s.object w.detail).nativeHandle k go.lambda) := by
  unfold nativeHandle Thread.ThreadDetail.nativeHandle
  rw [object_thread]
  rcases (s.details w.detail).thread with - | handle
  · exact ⟨rfl, rfl, fun _ => rfl⟩
  · exact .of_read

theorem agrees_setPromise :
    (s.setPromise k w).Agrees w.detail ((s.object w.detail).setPromise k) := by
  unfold Runnable.setPromise
  split
  · rename_i hnone
    rw [Thread.ThreadDetail.setPromise_of_none hnone]
    exact ⟨rfl, rfl, fun _ => rfl⟩
  · rename_i p hsome
    rw [Thread.ThreadDetail.setPromise_of_some hsome]
    change Agrees (if p ∈ s.completed then _ else _) w.detail (if p ∈ s.completed then _ else _)
    split
    · exact ⟨rfl, rfl, nofun⟩
    · exact .of_setWorker

/-- Outside its loop a worker does to an object that has not been freed what a thread of the object
does. -/
theorem exists_stepThread (hw : s.workers[k]? = some w)
    (hfreed : (s.details w.detail).freed = false) (hloop : w.place.inLoop = false)
    (h : s.stepWorker kind k = some s') :
    ∃ t, (s.object w.detail).stepThread k = some t ∧ s'.Agrees w.detail t := by
  have haccess : ∀ next, s.access w.detail next = next := by simp [access, hfreed]
  simp only [stepWorker, hw, haccess] at h
  rw [Thread.ThreadDetail.stepThread, object_place hw]
  cases hp : w.place with
  | loopTest | runTest | calling | working =>
      rw [hp] at hloop
      cases hloop
  | exited =>
      rw [hp] at h
      cases h
  | storeStarted =>
      rw [hp] at h
      cases h
      exact ⟨_, rfl, .of_setStarted true⟩
  | priorityTest =>
      rw [hp] at h
      cases h
      exact ⟨_, rfl, agrees_testJoinable .nameTest .nameTest⟩
  | nameTest =>
      rw [hp] at h
      cases h
      exact ⟨_, rfl, agrees_testJoinable .nameHandle .setInit⟩
  | nameHandle =>
      rw [hp] at h
      cases h
      exact ⟨_, rfl, agrees_nativeHandle .setInit⟩
  | setInit =>
      rw [hp] at h
      cases h
      exact ⟨_, rfl, .of_setWorker⟩
  | clearStarted =>
      rw [hp] at h
      cases h
      exact ⟨_, rfl, .of_setStarted false⟩
  | setPromise =>
      rw [hp] at h
      cases h
      exact ⟨_, rfl, agrees_setPromise⟩

/-- In the loop it leaves the object alone, until it leaves `work`. -/
theorem object_of_loop (hw : s.workers[k]? = some w) (hloop : w.place.inLoop = true)
    (h : s.stepWorker kind k = some s') :
    s'.object d = s.object d ∨ s'.object d = (s.object d).setPlace k .clearStarted := by
  have hplace := object_place hw d
  have hsame : ∀ v : Worker, v.place.lambda = w.place.lambda →
      (s.setWorker k v).object d = s.object d := by
    intro v hv
    obtain ⟨hlt, heq⟩ := List.getElem?_eq_some_iff.mp hplace
    rw [object_setWorker, hv, Thread.ThreadDetail.setPlace, ← heq, List.set_getElem_self]
  simp only [stepWorker, hw] at h
  cases hp : w.place with
  | storeStarted | priorityTest | nameTest | nameHandle | setInit | clearStarted | setPromise
  | exited =>
      rw [hp] at hloop
      cases hloop
  | working =>
      rw [hp] at h
      cases h
  | calling =>
      rw [hp] at h
      cases h
      exact .inl (hsame _ (by rw [hp]; rfl))
  | runTest =>
      rw [hp] at h
      cases h
      split
      · exact .inl (hsame _ (by rw [hp]; rfl))
      · exact .inr (object_setWorker s k _ d)
  | loopTest =>
      rw [hp] at h
      cases h
      split
      · refine .inl (hsame _ ?_)
        rw [hp]
        split <;> rfl
      · exact .inr (object_setWorker s k _ d)

end Runnable

end RunStop

/-! ## The thread object and an application -/

namespace Lifecycle

/-- Where the lambda of an application stands; it is behind `track` all the time. -/
def Lambda.ofPlace : Thread.Place → Lambda
  | .storeStarted | .priorityTest | .priorityHandle | .nameTest | .nameHandle | .setInit => .tracking
  | .working => .working
  | .clearStarted => .returned
  | .setPromise => .released
  | .exited => .completed

/-- A step of a thread outside `work` leaves the lambda where it is or takes its next step. -/
theorem Lambda.next_of_stepThread {κ : Type*} [DecidableEq κ] {strict : Bool} {resource : κ}
    {resources : List κ} {s s' : Thread.ThreadDetail} {k : ℕ} {p q : Thread.Place}
    (hp : s.spawned[k]? = some p) (h : s.stepThread k = some s') (hq : s'.spawned[k]? = some q) :
    Lambda.ofPlace q = Lambda.ofPlace p ∨
      ((Lambda.ofPlace p).next strict resource resources).map Prod.fst =
        some (Lambda.ofPlace q) := by
  have hkept : s.spawned[k]? = some q → Lambda.ofPlace q = Lambda.ofPlace p := by
    intro ht
    rw [Option.some.inj (ht.symm.trans hp)]
  cases Thread.ThreadDetail.Step.of_stepThread h with
  | storeStarted _ hk =>
      obtain rfl : p = .storeStarted := Option.some.inj (hp.symm.trans hk)
      obtain rfl := Thread.ThreadDetail.eq_of_setPlace hq
      exact .inl rfl
  | priorityTest _ hk =>
      obtain rfl : p = .priorityTest := Option.some.inj (hp.symm.trans hk)
      rcases Thread.ThreadDetail.place_testJoinable hq with hsame | rfl | rfl
      · exact .inl (hkept hsame)
      · left
        split <;> rfl
      · exact .inl rfl
  | priorityHandle _ hk =>
      obtain rfl : p = .priorityHandle := Option.some.inj (hp.symm.trans hk)
      rcases Thread.ThreadDetail.place_nativeHandle hq with hsame | rfl
      · exact .inl (hkept hsame)
      · exact .inl rfl
  | nameTest _ hk =>
      obtain rfl : p = .nameTest := Option.some.inj (hp.symm.trans hk)
      rcases Thread.ThreadDetail.place_testJoinable hq with hsame | rfl | rfl
      · exact .inl (hkept hsame)
      · exact .inl rfl
      · exact .inl rfl
  | nameHandle _ hk =>
      obtain rfl : p = .nameHandle := Option.some.inj (hp.symm.trans hk)
      rcases Thread.ThreadDetail.place_nativeHandle hq with hsame | rfl
      · exact .inl (hkept hsame)
      · exact .inl rfl
  | setInit _ hk =>
      obtain rfl : p = .setInit := Option.some.inj (hp.symm.trans hk)
      obtain rfl := Thread.ThreadDetail.eq_of_setPlace hq
      exact .inr rfl
  | clearStarted _ hk =>
      obtain rfl : p = .clearStarted := Option.some.inj (hp.symm.trans hk)
      obtain rfl := Thread.ThreadDetail.eq_of_setPlace hq
      exact .inr rfl
  | setPromise _ hk =>
      obtain rfl : p = .setPromise := Option.some.inj (hp.symm.trans hk)
      rcases Thread.ThreadDetail.place_setPromise hq with hsame | rfl
      · exact .inl (hkept hsame)
      · exact .inr rfl

end Lifecycle

/-- So does a step of a worker of `run` outside its loop. -/
theorem RunStop.Runnable.next_of_stepWorker {ι κ : Type*} [DecidableEq κ] {kind : RunStop.Kind}
    {strict : Bool} {resource : κ} {resources : List κ} {s s' : RunStop.Runnable ι} {k : ℕ}
    {w w' : RunStop.Worker} (hw : s.workers[k]? = some w)
    (hfreed : (s.details w.detail).freed = false) (hloop : w.place.inLoop = false)
    (h : s.stepWorker kind k = some s') (hlives : s'.terminated = false)
    (hw' : s'.workers[k]? = some w') :
    Lifecycle.Lambda.ofPlace w'.place.lambda = Lifecycle.Lambda.ofPlace w.place.lambda ∨
      ((Lifecycle.Lambda.ofPlace w.place.lambda).next strict resource resources).map Prod.fst =
        some (Lifecycle.Lambda.ofPlace w'.place.lambda) := by
  obtain ⟨t, ht, hagrees⟩ := exists_stepThread hw hfreed hloop h
  have hplace : t.spawned[k]? = some w'.place.lambda := by
    have hobject := object_place hw' w.detail
    rw [hagrees.object hlives] at hobject
    exact hobject
  exact Lifecycle.Lambda.next_of_stepThread (object_place hw w.detail) ht hplace

end CommonLib
