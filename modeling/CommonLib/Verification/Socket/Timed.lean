import CommonLib.Verification.Socket.Honest

/-! # The timed read

All of the time goes into the microseconds, and what the inner `read` returns is dropped. -/

namespace CommonLib.Communication

variable {strerror : ℤ → String} {errno : ℤ} {size : ℕ}

def Timeval.Normalised (val : Timeval) : Prop :=
  0 ≤ val.usec ∧ val.usec < 10 ^ 6

def Timeval.microseconds (val : Timeval) : ℤ :=
  val.sec * 10 ^ 6 + val.usec

/-- What a timed read has stored in the buffer. -/
def storedBytes (select : SelectResult) (result : ReadResult size) : Bytes :=
  if select.isSet then result.bytes else []

/-- The time is passed to `select` in full and in normal form, and the value returned is the number of
bytes stored, 0 exactly if the time is over. -/
structure Timed (strerror : ℤ → String) (millisecond : UInt32) (select : SelectResult)
    (result : ReadResult size) (errno : ℤ) : Prop where
  normalised : (timeval millisecond).Normalised
  exactly : (timeval millisecond).microseconds = millisecond.toNat * 1000
  reports : ∀ n, DetailSocket.readTimed strerror errno select result = .ok n →
    n = (storedBytes select result).length ∧ (n = 0 ↔ select = .timedOut)

/-! ## The time -/

theorem usec_timeval (millisecond : UInt32) :
    (timeval millisecond).usec = (millisecond.toNat * 1000 % 2 ^ 32 : ℕ) := by
  rw [timeval, UInt32.toNat_mul]
  rfl

theorem timeval_iff (millisecond : UInt32) :
    (timeval millisecond).Normalised ∧
        (timeval millisecond).microseconds = millisecond.toNat * 1000 ↔
      millisecond.toNat < 1000 := by
  have husec := usec_timeval millisecond
  have hsec : (timeval millisecond).sec = 0 := rfl
  rw [Timeval.Normalised, Timeval.microseconds, husec, hsec]
  constructor
  · rintro ⟨⟨-, hlt⟩, heq⟩
    omega
  · intro hlt
    rw [Nat.mod_eq_of_lt (by omega)]
    omega

/-! ## The value -/

theorem readTimed_timedOut {result : ReadResult size} :
    DetailSocket.readTimed strerror errno .timedOut result = .ok 0 := rfl

theorem readTimed_of_isSet {select : SelectResult} (h : select.isSet = true)
    (result : ReadResult size) :
    DetailSocket.readTimed strerror errno select result =
      (DetailSocket.read strerror errno result).map fun _ => 0 := by
  rw [DetailSocket.readTimed, if_pos h]
  cases DetailSocket.read strerror errno result <;> rfl

/-- Once the inner `read` is called, only an exception keeps the 0 from being returned. -/
theorem reports_of_isSet {select : SelectResult} (hset : select.isSet = true)
    (result : ReadResult size) :
    (∀ n, DetailSocket.readTimed strerror errno select result = .ok n →
        n = (storedBytes select result).length ∧ (n = 0 ↔ select = .timedOut)) ↔
      result.value = 0 := by
  have hne : select ≠ .timedOut := by
    rintro rfl
    cases hset
  rw [readTimed_of_isSet hset, storedBytes, if_pos hset]
  cases result with
  | failed =>
      apply iff_of_false
      · intro h
        exact hne ((h 0 (by rw [read_failed]; rfl)).2.mp rfl)
      · simp [ReadResult.value]
  | stored bytes fits ssize =>
      rw [read_stored fits ssize]
      by_cases hnil : bytes = []
      · apply iff_of_true
        · intro n hn
          rw [if_pos hnil] at hn
          cases hn
        · simp [ReadResult.value, hnil]
      · apply iff_of_false
        · intro h
          exact hne ((h 0 (by rw [if_neg hnil]; rfl)).2.mp rfl)
        · simpa [ReadResult.value] using hnil

theorem reports_iff (select : SelectResult) (result : ReadResult size) :
    (∀ n, DetailSocket.readTimed strerror errno select result = .ok n →
        n = (storedBytes select result).length ∧ (n = 0 ↔ select = .timedOut)) ↔
      select = .timedOut ∨ result.value = 0 := by
  cases select with
  | ready => rw [reports_of_isSet rfl, or_iff_right (by simp)]
  | failed => rw [reports_of_isSet rfl, or_iff_right (by simp)]
  | timedOut =>
      apply iff_of_true
      · intro n hn
        rw [readTimed_timedOut] at hn
        cases hn
        exact ⟨rfl, iff_of_true rfl rfl⟩
      · exact .inl rfl

/-- The timed read keeps what it promises exactly if it is asked to wait for less than a second, and
then the time is over, or the inner `read` comes to the end of the stream and throws. -/
theorem timed_iff (strerror : ℤ → String) (millisecond : UInt32) (select : SelectResult)
    (result : ReadResult size) (errno : ℤ) :
    Timed strerror millisecond select result errno ↔
      millisecond.toNat < 1000 ∧ (select = .timedOut ∨ result.value = 0) := by
  rw [← timeval_iff, ← reports_iff select result]
  constructor
  · intro h
    exact ⟨⟨h.normalised, h.exactly⟩, h.reports⟩
  · rintro ⟨⟨hnormalised, hexactly⟩, hreports⟩
    exact ⟨hnormalised, hexactly, hreports⟩

/-- A wait of a second is not in normal form, one of 4294968 milliseconds is one of 704 microseconds,
and a read of three bytes returns 0. -/
theorem timed_read_wrong :
    ¬ (timeval 1000).Normalised ∧ timeval 4294968 = ⟨0, 704⟩ ∧
      DetailSocket.readTimed (fun _ => "Success") 0 .ready
        (.stored [1, 2, 3] (by decide) (by decide) : ReadResult 3) = .ok 0 ∧
      ¬ Timed (fun _ => "Success") 100 .ready
        (.stored [1, 2, 3] (by decide) (by decide) : ReadResult 3) 0 := by
  refine ⟨?_, by decide, by decide, fun h => ?_⟩
  · rw [Timeval.Normalised]
    decide
  · exact absurd (h.reports 0 (by decide)).1 (by decide)

end CommonLib.Communication
