import CommonLib.Verification.WorkStealing.ExactlyOnce

/-! # The queue without interference

An operation whose accesses follow one another with nobody in between does what the operation of the
sequential queue does. -/

namespace CommonLib.LockFreeWorkQueue

variable {ι T : Type*}

namespace Op

/-- How the operation begins; `i` is the thief that steals. -/
def start (i : ι) : Op T → Action ι T
  | .push item => .push item
  | .pop => .pop
  | .steal => .steal i

/-- Who takes its steps. -/
def mover (i : ι) : Op T → Action ι T
  | .push _ | .pop => .owner
  | .steal => .thief i

def items : Op T → List T
  | .push item => [item]
  | .pop | .steal => []

end Op

namespace Shared

variable {q₀ q' : Queue T} {s s' : Shared ι T} {P : Shared ι T → Prop} {i : ι}

/-- What one thread sees. -/
def queue (s : Shared ι T) : Queue T :=
  ⟨s.top, s.bottom, s.current⟩

/-- The shared state once the operation has returned. -/
structure Performed (s : Shared ι T) (op : Op T) (report : Option (Option T)) (q' : Queue T)
    (t : Shared ι T) : Prop where
  owner : t.owner = .idle
  thief : t.thief = s.thief
  queue : t.queue = q'
  pushed : t.pushed = s.pushed ++ op.items
  returned : t.returned = s.returned ++ report.toList

theorem Performed.of_same {t : Shared ι T} {op : Op T} {report : Option (Option T)}
    (h : s'.Performed op report q' t) (hthief : s'.thief = s.thief)
    (hpushed : s'.pushed = s.pushed) (hreturned : s'.returned = s.returned) :
    s.Performed op report q' t :=
  ⟨h.owner, h.thief.trans hthief, h.queue, hpushed ▸ h.pushed, hreturned ▸ h.returned⟩

theorem exists_of_bind_ok {ε : Type*} {α β : Type _} {x : Except ε α} {f : α → Except ε β} {b : β}
    (h : x >>= f = .ok b) : ∃ a, x = .ok a ∧ f a = .ok b := by
  cases x with
  | error e => cases h
  | ok a => exact ⟨a, rfl, h⟩

theorem exists_of_push {q : Queue T} {item : T} (h : q.push item = .ok q') :
    ∃ array written,
      (if q.array.threshold ≤ distance q.bottom q.top then q.array.resize q.bottom q.top
        else .ok q.array) = .ok array ∧
      array.put q.bottom (some item) = .ok written ∧
      q' = ⟨q.top, (q.bottom + 1) % 2 ^ 64, written⟩ := by
  have hbind : q.push item =
      (if q.array.threshold ≤ distance q.bottom q.top then q.array.resize q.bottom q.top
        else .ok q.array) >>= fun array => array.put q.bottom (some item) >>= fun written =>
          .ok ⟨q.top, (q.bottom + 1) % 2 ^ 64, written⟩ := by
    rw [Queue.push]
    split <;> rfl
  rw [hbind] at h
  obtain ⟨array, harray, hrest⟩ := exists_of_bind_ok h
  obtain ⟨written, hput, hresult⟩ := exists_of_bind_ok hrest
  exact ⟨array, written, harray, hput, (Except.ok.inj hresult).symm⟩

theorem pop_eq {top bottom lowered : ℕ} {array : CircularArray T}
    (h : distance bottom 1 = lowered) :
    (Queue.mk top bottom array).pop = if top ≤ lowered then array.get lowered >>= fun result =>
        if top = lowered then
          .ok (some result, ⟨(top + 1) % 2 ^ 64, (lowered + 1) % 2 ^ 64, array⟩)
        else .ok (some result, ⟨top, lowered, array⟩)
      else .ok (none, ⟨top, (lowered + 1) % 2 ^ 64, array⟩) := by
  subst h
  rfl

variable [DecidableEq ι]

/-! ## The steps of the owner -/

theorem leads_stepPush (hstep : s.stepPush = some s')
    (h : ((machine ι q₀).solo .owner).Leads P s') : ((machine ι q₀).solo .owner).Leads P s := by
  refine .of_step (a := ()) ?_ h
  change s.stepPush.or s.stepPop = some s'
  rw [hstep]
  rfl

theorem leads_stepPop (hpush : s.stepPush = none) (hstep : s.stepPop = some s')
    (h : ((machine ι q₀).solo .owner).Leads P s') : ((machine ι q₀).solo .owner).Leads P s := by
  refine .of_step (a := ()) ?_ h
  change s.stepPush.or s.stepPop = some s'
  rw [hpush, hstep]
  rfl

/-- The loop of `resize` runs to its end. -/
theorem leads_copy {item : T} {bottom top array i n : ℕ} {newArray result : CircularArray T}
    (hcopy : (s.arrays array).copy newArray i n = .ok result) (hn : n = bottom - i)
    (h : ((machine ι q₀).solo .owner).Leads P
      (s.setOwner (.storing item bottom top result))) :
    ((machine ι q₀).solo .owner).Leads P
      (s.setOwner (.copying item bottom top array newArray i)) := by
  induction n generalizing newArray i with
  | zero =>
      cases hcopy
      refine leads_stepPush ?_ h
      simp only [stepPush, Shared.setOwner]
      rw [if_neg (by omega)]
  | succ n ih =>
      have hturn : ((s.arrays array).get i >>= newArray.put i) >>=
          (fun next => (s.arrays array).copy next (i + 1) n) = .ok result := by
        rw [bind_assoc]
        exact hcopy
      obtain ⟨next, hput, hcopy⟩ := exists_of_bind_ok hturn
      refine leads_stepPush ?_ (ih hcopy (by omega))
      simp only [stepPush, Shared.setOwner]
      rw [if_pos (by omega), hput]

omit [DecidableEq ι] in
theorem stepPush_grow {item : T} {bottom top : ℕ} {newArray : CircularArray T}
    (ho : s.owner = .pushArray item bottom top) (hgrow : s.current.threshold ≤ distance bottom top)
    (hnew : CircularArray.new s.current.doubled = .ok newArray) :
    s.stepPush = some (s.setOwner (.copying item bottom top s.array newArray top)) := by
  simp only [stepPush, ho, if_pos hgrow, hnew]

/-- The last accesses of `push`, to the array that has room. -/
theorem leads_put {item : T} {top : ℕ} {written : CircularArray T}
    (ho : s.owner = .putting item s.bottom top s.array)
    (hput : s.current.put s.bottom (some item) = .ok written) :
    ((machine ι q₀).solo .owner).Leads
      (s.Performed (.push item) none ⟨s.top, (s.bottom + 1) % 2 ^ 64, written⟩) s := by
  have hwritten : s.stepPush = some ({ s with
      arrays := Function.update s.arrays s.array written }.setOwner (.publishing item s.bottom)) := by
    simp only [stepPush, ho]
    rw [← current, hput]
  refine leads_stepPush hwritten
    (leads_stepPush rfl (Machine.leads_of ⟨rfl, rfl, ?_, rfl, (List.append_nil _).symm⟩))
  rw [queue, current]
  exact congrArg (Queue.mk s.top _) (Function.update_self ..)

/-- `push` from its first access to its last one. -/
theorem leads_push {item : T} (ho : s.owner = .pushBottom item)
    (hpush : s.queue.push item = .ok q') :
    ((machine ι q₀).solo .owner).Leads (s.Performed (.push item) none q') s := by
  have hstart : s.stepPush = some (s.setOwner (.pushTop item s.bottom)) := by
    simp only [stepPush, ho]
  refine leads_stepPush hstart (leads_stepPush rfl ?_)
  obtain ⟨array, written, harray, hput, rfl⟩ := exists_of_push hpush
  by_cases hgrow : s.queue.array.threshold ≤ distance s.queue.bottom s.queue.top
  · rw [if_pos hgrow] at harray
    obtain ⟨newArray, hnew, hcopy⟩ := exists_of_bind_ok harray
    have hcopying : (s.setOwner (.pushArray item s.bottom s.top)).stepPush =
        some (s.setOwner (.copying item s.bottom s.top s.array newArray s.top)) :=
      stepPush_grow rfl hgrow hnew
    refine leads_stepPush hcopying (leads_copy hcopy rfl (leads_stepPush rfl ?_))
    have hcurrent : Function.update s.arrays (s.array + 1) array (s.array + 1) = array :=
      Function.update_self ..
    refine (leads_put rfl ?_).imp fun t ht => ht.of_same rfl rfl rfl
    rw [← hput]
    exact congrArg (·.put s.bottom (some item)) hcurrent
  · rw [if_neg hgrow] at harray
    cases harray
    have hputting : (s.setOwner (.pushArray item s.bottom s.top)).stepPush =
        some (s.setOwner (.putting item s.bottom s.top s.array)) := if_neg hgrow
    refine leads_stepPush hputting ?_
    have hroom : (s.setOwner (.putting item s.bottom s.top s.array)).current.put s.bottom
        (some item) = .ok written := hput
    exact (leads_put rfl hroom).imp fun t ht => ht.of_same rfl rfl rfl

theorem leads_popRestore {bottom : ℕ} {result : Option (Option T)}
    (ho : s.owner = .popRestore bottom result) :
    ((machine ι q₀).solo .owner).Leads
      (s.Performed .pop result ⟨s.top, (bottom + 1) % 2 ^ 64, s.current⟩) s := by
  have hpush : s.stepPush = none := by simp only [stepPush, ho]
  have hpop : s.stepPop = some ({ s with
      bottom := (bottom + 1) % 2 ^ 64, returned := s.returned ++ result.toList }.setOwner .idle) := by
    simp only [stepPop, ho]
  exact leads_stepPop hpush hpop
    (Machine.leads_of ⟨rfl, rfl, rfl, (List.append_nil _).symm, rfl⟩)

/-- `pop` once it has lowered `_bottom`. -/
theorem leads_popTop {bottom : ℕ} {report : Option (Option T)}
    (ho : s.owner = .popTop bottom s.array) (hbottom : s.bottom = bottom)
    (hpop : (if s.top ≤ bottom then s.current.get bottom >>= fun result =>
        if s.top = bottom then
          .ok (some result, ⟨(s.top + 1) % 2 ^ 64, (bottom + 1) % 2 ^ 64, s.current⟩)
        else .ok (some result, ⟨s.top, bottom, s.current⟩)
      else .ok (none, ⟨s.top, (bottom + 1) % 2 ^ 64, s.current⟩)) = .ok (report, q')) :
    ((machine ι q₀).solo .owner).Leads (s.Performed .pop report q') s := by
  have hpush : s.stepPush = none := by simp only [stepPush, ho]
  by_cases hitems : s.top ≤ bottom
  · rw [if_pos hitems] at hpop
    obtain ⟨result, hget, hresult⟩ := exists_of_bind_ok hpop
    have hsome : s.stepPop = some (s.setOwner (.popGet bottom s.array s.top)) := by
      simp only [stepPop, ho, if_pos hitems]
    refine leads_stepPop hpush hsome ?_
    by_cases hone : s.top = bottom
    · rw [if_pos hone] at hresult
      cases hresult
      have hlast : (s.setOwner (.popGet bottom s.array s.top)).stepPop =
          some (s.setOwner (.popExchange bottom result)) := by
        simp only [stepPop, Shared.setOwner]
        rw [← current, hget]
        simp only [if_pos hone]
      have hwin : (s.setOwner (.popExchange bottom result)).stepPop =
          some ({ s with top := (bottom + 1) % 2 ^ 64 }.setOwner
            (.popRestore bottom (some result))) := if_pos hone
      refine leads_stepPop rfl hlast (leads_stepPop rfl hwin ?_)
      rw [hone]
      exact (leads_popRestore rfl).imp fun t ht => ht.of_same rfl rfl rfl
    · rw [if_neg hone] at hresult
      cases hresult
      have hmore : (s.setOwner (.popGet bottom s.array s.top)).stepPop =
          some ({ s with returned := s.returned ++ [result] }.setOwner .idle) := by
        simp only [stepPop, Shared.setOwner]
        rw [← current, hget]
        simp only [if_neg hone]
      refine leads_stepPop rfl hmore (Machine.leads_of ?_)
      exact ⟨rfl, rfl, congrArg (Queue.mk s.top · s.current) hbottom, (List.append_nil _).symm, rfl⟩
  · rw [if_neg hitems] at hpop
    cases hpop
    have hnone : s.stepPop = some (s.setOwner (.popRestore bottom none)) := by
      simp only [stepPop, ho, if_neg hitems]
    refine leads_stepPop hpush hnone ?_
    exact (leads_popRestore rfl).imp fun t ht => ht.of_same rfl rfl rfl

/-- `pop` from its first access to its last one. -/
theorem leads_pop {report : Option (Option T)} (ho : s.owner = .popBottom)
    (hpop : s.queue.pop = .ok (report, q')) :
    ((machine ι q₀).solo .owner).Leads (s.Performed .pop report q') s := by
  have hpush : s.stepPush = none := by simp only [stepPush, ho]
  have hstart : s.stepPop = some (s.setOwner (.popArray (distance s.bottom 1))) := by
    simp only [stepPop, ho]
  obtain ⟨bottom, hbottom⟩ : ∃ bottom, distance s.bottom 1 = bottom := ⟨_, rfl⟩
  rw [hbottom] at hstart
  have hload : (s.setOwner (.popArray bottom)).stepPop =
      some (s.setOwner (.popStore bottom s.array)) := rfl
  have hstore : (s.setOwner (.popStore bottom s.array)).stepPop =
      some ({ s with bottom := bottom }.setOwner (.popTop bottom s.array)) := rfl
  refine leads_stepPop hpush hstart (leads_stepPop rfl hload (leads_stepPop rfl hstore ?_))
  have hlowered := (pop_eq hbottom).symm.trans hpop
  exact (leads_popTop rfl rfl hlowered).imp fun t ht => ht.of_same rfl rfl rfl

/-! ## The steps of a thief -/

theorem leads_stepThief (hstep : s.stepThief i = some s')
    (h : ((machine ι q₀).solo (.thief i)).Leads P s') :
    ((machine ι q₀).solo (.thief i)).Leads P s :=
  .of_step (a := ()) hstep h

/-- `steal` from its first access to its last one. -/
theorem leads_steal {report : Option (Option T)} (ho : s.owner = .idle) (hi : s.thief i = .idle)
    (hsteal : s.queue.steal = .ok (report, q')) :
    ((machine ι q₀).solo (.thief i)).Leads (s.Performed .steal report q')
      (s.setThief i .loadTop) := by
  have hidle : Function.update s.thief i .idle = s.thief := by rw [← hi, Function.update_eq_self]
  have hbottom : (s.setThief i .loadTop).stepThief i = some (s.setThief i (.loadBottom s.top)) := by
    simp [stepThief, Shared.setThief]
  refine leads_stepThief hbottom ?_
  change (if s.top < s.bottom then s.current.get s.top >>= fun result =>
      .ok (some result, ⟨(s.top + 1) % 2 ^ 64, s.bottom, s.current⟩)
    else .ok (none, s.queue)) = _ at hsteal
  by_cases hitems : s.top < s.bottom
  · rw [if_pos hitems] at hsteal
    obtain ⟨result, hget, hresult⟩ := exists_of_bind_ok hsteal
    cases hresult
    have hslot : (s.arrays s.array).get s.top = .ok result := hget
    have harray : (s.setThief i (.loadBottom s.top)).stepThief i =
        some (s.setThief i (.loadArray s.top)) := by
      simp [stepThief, Shared.setThief, hitems]
    have hload : (s.setThief i (.loadArray s.top)).stepThief i =
        some (s.setThief i (.get s.top s.array)) := by
      simp [stepThief, Shared.setThief]
    have hread : (s.setThief i (.get s.top s.array)).stepThief i =
        some (s.setThief i (.exchange s.top result)) := by
      simp [stepThief, Shared.setThief, hslot]
    have hwin : (s.setThief i (.exchange s.top result)).stepThief i =
        some ({ s with
          top := (s.top + 1) % 2 ^ 64, returned := s.returned ++ [result] }.setThief i .idle) := by
      simp [stepThief, Shared.setThief]
    refine leads_stepThief harray (leads_stepThief hload (leads_stepThief hread
      (leads_stepThief hwin (Machine.leads_of ?_))))
    exact ⟨ho, hidle, rfl, (List.append_nil _).symm, rfl⟩
  · rw [if_neg hitems] at hsteal
    cases hsteal
    have hempty : (s.setThief i (.loadBottom s.top)).stepThief i = some (s.setThief i .idle) := by
      simp [stepThief, Shared.setThief, hitems]
    refine leads_stepThief hempty (Machine.leads_of ?_)
    exact ⟨ho, hidle, rfl, (List.append_nil _).symm, (List.append_nil _).symm⟩

/-! ## Operations one after the other -/

/-- Whenever the owner and a thief are out of the queue, an operation that completes in the
sequential queue can be performed with nobody in between, to the same effect. -/
theorem leads_perform {op : Op T} {report : Option (Option T)} (ho : s.owner = .idle)
    (hi : s.thief i = .idle) (h : s.queue.perform op = .ok (report, q')) :
    ∃ begun, s.step (op.start i) = some begun ∧
      ((machine ι q₀).solo (op.mover i)).Leads (s.Performed op report q') begun := by
  cases op with
  | push item =>
      refine ⟨s.setOwner (.pushBottom item), by simp only [step, Op.start, ho], ?_⟩
      obtain ⟨next, hpush, hreport⟩ := exists_of_bind_ok h
      cases hreport
      have hbegun : (s.setOwner (.pushBottom item)).queue.push item = .ok q' := hpush
      exact (leads_push rfl hbegun).imp fun t ht => ht.of_same rfl rfl rfl
  | pop =>
      refine ⟨s.setOwner .popBottom, by simp only [step, Op.start, ho], ?_⟩
      have hbegun : (s.setOwner .popBottom).queue.pop = .ok (report, q') := h
      exact (leads_pop rfl hbegun).imp fun t ht => ht.of_same rfl rfl rfl
  | steal =>
      exact ⟨s.setThief i .loadTop, by simp only [step, Op.start, hi], leads_steal ho hi h⟩

/-- Every run of the sequential queue is a run of the shared one. -/
theorem leads_performs {ops : List (Op T)} (i : ι) (hquiet : s.Quiet)
    (h : ops.foldlM (fun q op => (q.perform op).map Prod.snd) s.queue = .ok q') :
    (machine ι q₀).Leads (fun t => t.Quiet ∧ t.queue = q') s := by
  induction ops generalizing s with
  | nil =>
      cases h
      exact Machine.leads_of ⟨hquiet, rfl⟩
  | cons op ops ih =>
      rw [List.foldlM_cons] at h
      obtain ⟨next, hnext, hrest⟩ := exists_of_bind_ok h
      cases hop : s.queue.perform op with
      | error failure =>
          rw [hop] at hnext
          cases hnext
      | ok performed =>
          obtain ⟨report, q⟩ := performed
          rw [hop] at hnext
          cases hnext
          obtain ⟨begun, hbegun, hleads⟩ := leads_perform hquiet.1 (hquiet.2 i) hop
          refine .of_step hbegun (hleads.of_solo.trans fun t ht => ih ?_ ?_)
          · exact ⟨ht.owner, fun j => ht.thief ▸ hquiet.2 j⟩
          · rw [ht.queue]
            exact hrest

end Shared

end CommonLib.LockFreeWorkQueue
