import CommonLib.Library.Program

/-! Member functions: programs that also change an object. What was written to the object before a
failure stays. -/

namespace CommonLib

universe u v

/-- A member function of an object of type `ω`, with the store that programs have. -/
def Member (ω μ : Type u) (ε : Type v) (α : Type u) :=
  ω → μ → Except ε (α × μ) × ω

namespace Member

open Program

variable {ω μ α β : Type u} {ε : Type v}

/-- The next statement runs only if this one did not fail. -/
def andThen (x : Member ω μ ε α) (f : α → Member ω μ ε β) : Member ω μ ε β := fun this store =>
  match x this store with
  | (.ok (a, store'), this') => f a this' store'
  | (.error e, this') => (.error e, this')

instance : Monad (Member ω μ ε) where
  pure a := fun this store => (.ok (a, store), this)
  bind := andThen

/-- The object as it is. -/
def this : Member ω μ ε ω := fun this store =>
  (.ok (this, store), this)

/-- Write to the object. -/
def modify (f : ω → ω) : Member ω μ ε PUnit := fun this store =>
  (.ok (⟨⟩, store), f this)

/-- Evaluate what does not change the object. -/
def eval (x : Program μ ε α) : Member ω μ ε α := fun this store =>
  (x store, this)

/-- The member function returns, with the property. -/
def Completes (x : Member ω μ ε α) (object : ω) (Q : α → ω → Prop) : Prop :=
  ∀ store, ∃ a store' object', x object store = (.ok (a, store'), object') ∧ Q a object'

/-- The member function returns, with the property, or it fails and the object is as it was. -/
def Atomic (x : Member ω μ ε α) (object : ω) (Q : α → ω → Prop) : Prop :=
  ∀ store, (∃ e, x object store = (.error e, object)) ∨
    ∃ a store' object', x object store = (.ok (a, store'), object') ∧ Q a object'

variable {object object' : ω} {store store' : μ} {P : α → Prop} {Q : α → ω → Prop}
  {Q' : β → ω → Prop}

theorem bind_of_ok {x : Member ω μ ε α} (f : α → Member ω μ ε β) {a : α}
    (h : x object store = (.ok (a, store'), object')) :
    (x >>= f) object store = f a object' store' := by
  change andThen x f object store = _
  simp only [andThen, h]

theorem bind_of_error {x : Member ω μ ε α} (f : α → Member ω μ ε β) {e : ε}
    (h : x object store = (.error e, object')) : (x >>= f) object store = (.error e, object') := by
  change andThen x f object store = _
  simp only [andThen, h]

/-! ### Returning -/

theorem Completes.this : Completes (this : Member ω μ ε ω) object fun a object' =>
    object' = object ∧ a = object :=
  fun store => ⟨object, store, object, rfl, rfl, rfl⟩

theorem Completes.modify (g : ω → ω) :
    Completes (modify g : Member ω μ ε PUnit) object fun _ object' => object' = g object :=
  fun store => ⟨⟨⟩, store, g object, rfl, rfl⟩

theorem Completes.eval {x : Program μ ε α} (hx : Meets x P) :
    Completes (eval x) object fun a object' => object' = object ∧ P a := by
  intro store
  obtain ⟨a, store', hxa, ha⟩ := hx store
  refine ⟨a, store', object, ?_, rfl, ha⟩
  rw [Member.eval, hxa]

theorem Completes.imp {x : Member ω μ ε α} {R : α → ω → Prop} (hx : Completes x object Q)
    (h : ∀ a object', Q a object' → R a object') : Completes x object R := by
  intro store
  obtain ⟨a, store', object', hxa, ha⟩ := hx store
  exact ⟨a, store', object', hxa, h a object' ha⟩

theorem Completes.bind {x : Member ω μ ε α} {f : α → Member ω μ ε β} (hx : Completes x object Q)
    (hf : ∀ a object', Q a object' → Completes (f a) object' Q') :
    Completes (x >>= f) object Q' := by
  intro store
  obtain ⟨a, store', object', hxa, ha⟩ := hx store
  rw [bind_of_ok f hxa]
  exact hf a object' ha store'

/-! ### Failing without a trace -/

theorem Completes.atomic {x : Member ω μ ε α} (h : Completes x object Q) : Atomic x object Q :=
  fun store => .inr (h store)

theorem Atomic.imp {x : Member ω μ ε α} {R : α → ω → Prop} (hx : Atomic x object Q)
    (h : ∀ a object', Q a object' → R a object') : Atomic x object R := by
  intro store
  rcases hx store with herror | ⟨a, store', object', hxa, ha⟩
  · exact .inl herror
  · exact .inr ⟨a, store', object', hxa, h a object' ha⟩

/-- What is only evaluated may fail. -/
theorem Atomic.eval {x : Program μ ε α} (hx : Ensures x P) :
    Atomic (eval x) object fun a object' => object' = object ∧ P a := by
  intro store
  rw [Member.eval]
  cases hstore : x store with
  | error e => exact .inl ⟨e, rfl⟩
  | ok result =>
      obtain ⟨a, store'⟩ := result
      exact .inr ⟨a, store', object, rfl, rfl, hx store a store' hstore⟩

/-- As long as the object has not been written to, the statements that follow may fail. -/
theorem Atomic.read {x : Member ω μ ε α} {f : α → Member ω μ ε β}
    (hx : Atomic x object fun a object' => object' = object ∧ P a)
    (hf : ∀ a, P a → Atomic (f a) object Q') : Atomic (x >>= f) object Q' := by
  intro store
  rcases hx store with ⟨e, herror⟩ | ⟨a, store', object', hxa, rfl, ha⟩
  · exact .inl ⟨e, bind_of_error f herror⟩
  · rw [bind_of_ok f hxa]
    exact hf a ha store'

/-- Once it has been written to, they may not. -/
theorem Atomic.write {x : Member ω μ ε α} {f : α → Member ω μ ε β} (hx : Atomic x object Q)
    (hf : ∀ a object', Q a object' → Completes (f a) object' Q') : Atomic (x >>= f) object Q' := by
  intro store
  rcases hx store with ⟨e, herror⟩ | ⟨a, store', object', hxa, ha⟩
  · exact .inl ⟨e, bind_of_error f herror⟩
  · rw [bind_of_ok f hxa]
    exact .inr (hf a object' ha store')

/-- A failure leaves the object as it was. -/
theorem Atomic.eq_of_error {x : Member ω μ ε α} {e : ε} (hx : Atomic x object Q)
    (h : x object store = (.error e, object')) : object' = object := by
  rcases hx store with ⟨e', herror⟩ | ⟨a, store', object'', hxa, -⟩
  · rw [herror] at h
    exact (Prod.mk.inj h).2.symm
  · rw [hxa] at h
    cases h

/-! ### However it ends -/

/-- The object that is left behind has the property: `Q` behind a return, `E` behind a failure. -/
def Leaves (x : Member ω μ ε α) (object : ω) (E : ω → Prop) (Q : α → ω → Prop) : Prop :=
  ∀ store, (∃ e object', x object store = (.error e, object') ∧ E object') ∨
    ∃ a store' object', x object store = (.ok (a, store'), object') ∧ Q a object'

variable {E : ω → Prop}

theorem Completes.leaves {x : Member ω μ ε α} (h : Completes x object Q) : Leaves x object E Q :=
  fun store => .inr (h store)

theorem Atomic.leaves {x : Member ω μ ε α} (h : Atomic x object Q) (hE : E object) :
    Leaves x object E Q :=
  fun store => (h store).imp (fun ⟨e, herror⟩ => ⟨e, object, herror, hE⟩) id

theorem Leaves.eval {x : Program μ ε α} (hx : Ensures x P) (hE : E object) :
    Leaves (eval x) object E fun a object' => object' = object ∧ P a :=
  (Atomic.eval hx).leaves hE

theorem Leaves.bind {x : Member ω μ ε α} {f : α → Member ω μ ε β} (hx : Leaves x object E Q)
    (hf : ∀ a object', Q a object' → Leaves (f a) object' E Q') :
    Leaves (x >>= f) object E Q' := by
  intro store
  rcases hx store with ⟨e, object', herror, hE⟩ | ⟨a, store', object', hxa, ha⟩
  · exact .inl ⟨e, object', bind_of_error f herror, hE⟩
  · rw [bind_of_ok f hxa]
    exact hf a object' ha store'

/-- What holds behind a return and behind a failure holds. -/
theorem Leaves.snd {x : Member ω μ ε α} (h : Leaves x object E fun _ => E) (store : μ) :
    E (x object store).2 := by
  rcases h store with ⟨e, object', herror, hE⟩ | ⟨a, store', object', hxa, hE⟩
  · rw [herror]
    exact hE
  · rw [hxa]
    exact hE

end Member

end CommonLib
