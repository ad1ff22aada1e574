import CommonLib.Model.Socket

/-! # What a blocking socket says about failure

`read` tests an unsigned number, which no error makes zero; `send` does not look at how much was
taken. -/

namespace CommonLib.Communication

variable {strerror : ℤ → String} {errno : ℤ} {size : ℕ}

/-- `read` returns the number of bytes that it stored, at least one, and throws at the end of the
stream and on errors; `send` returns exactly if everything was taken. -/
def IoCall.Honest (strerror : ℤ → String) : IoCall → Prop
  | .read size result errno =>
      (∀ n, DetailSocket.read strerror errno result = .ok n →
        0 < n ∧ n ≤ size ∧ result.bytes.length = n) ∧
      (result.value ≤ 0 → ∃ e, DetailSocket.read strerror errno result = .error e)
  | .send size result errno =>
      DetailSocket.send strerror errno result = .ok () ↔ result.value = size

/-- The operating system did not fail to read, and it took everything or nothing. -/
def IoCall.Foreseen : IoCall → Prop
  | .read _ result _ => 0 ≤ result.value
  | .send size result _ => result.value < 0 ∨ result.value = size

/-! ## `read` -/

theorem toSizeT_of_lt {n : ℕ} (h : n < 2 ^ 63) : toSizeT n = n := by
  unfold toSizeT
  omega

theorem read_failed :
    DetailSocket.read strerror errno (.failed : ReadResult size) = .ok (2 ^ 64 - 1) := by
  simp [DetailSocket.read, ReadResult.value, toSizeT]

theorem read_stored {bytes : Bytes} (fits : bytes.length ≤ size) (ssize : bytes.length < 2 ^ 63) :
    DetailSocket.read strerror errno (.stored bytes fits ssize) =
      if bytes = [] then .error (socketError strerror errno) else .ok bytes.length := by
  simp only [DetailSocket.read, ReadResult.value, toSizeT_of_lt ssize, List.length_eq_zero_iff]

theorem read_honest_iff {result : ReadResult size} :
    (IoCall.read size result errno).Honest strerror ↔ (IoCall.read size result errno).Foreseen := by
  cases result with
  | failed =>
      apply iff_of_false
      · rintro ⟨-, hthrows⟩
        obtain ⟨e, he⟩ := hthrows (by simp [ReadResult.value])
        rw [read_failed] at he
        cases he
      · simp [IoCall.Foreseen, ReadResult.value]
  | stored bytes fits ssize =>
      apply iff_of_true
      · rw [IoCall.Honest, read_stored fits ssize]
        constructor
        · intro n hn
          split at hn
          · cases hn
          · next hne =>
              cases hn
              exact ⟨List.length_pos_iff.mpr hne, fits, rfl⟩
        · intro hend
          have hnil : bytes = [] := by simpa [ReadResult.value] using hend
          exact ⟨_, if_pos hnil⟩
      · simp [IoCall.Foreseen, ReadResult.value]

/-! ## `send` -/

theorem send_failed : DetailSocket.send strerror errno (.failed : SendResult size) =
    .error (socketError strerror errno) := rfl

theorem send_accepted {count : ℕ} (fits : count ≤ size) (ssize : count < 2 ^ 63) :
    DetailSocket.send strerror errno (.accepted count fits ssize) = .ok () :=
  if_neg (Int.not_lt.mpr (Int.natCast_nonneg count))

theorem send_honest_iff {result : SendResult size} :
    (IoCall.send size result errno).Honest strerror ↔ (IoCall.send size result errno).Foreseen := by
  cases result with
  | failed =>
      apply iff_of_true
      · rw [IoCall.Honest, send_failed]
        simp [SendResult.value]
      · left
        simp [SendResult.value]
  | accepted count fits ssize =>
      rw [IoCall.Honest, send_accepted]
      simp [IoCall.Foreseen, SendResult.value]

/-! ## Any number of calls -/

/-- A socket is honest about its calls exactly if none of them meets a failing `::read` or a `::send`
that takes a part only. -/
theorem honest_iff (strerror : ℤ → String) (calls : List IoCall) :
    (∀ call ∈ calls, call.Honest strerror) ↔ ∀ call ∈ calls, call.Foreseen := by
  apply forall₂_congr
  intro call _
  cases call with
  | read size result errno => exact read_honest_iff
  | send size result errno => exact send_honest_iff

/-- A failing read returns 2 ^ 64 - 1 bytes, and a send of which one byte of two is taken returns. -/
theorem failure_hidden :
    DetailSocket.read (fun _ => "Connection reset by peer") 104 (.failed : ReadResult 2) =
        .ok 18446744073709551615 ∧
      ¬ (IoCall.read 2 .failed 104).Honest (fun _ => "Connection reset by peer") ∧
      ¬ (IoCall.send 2 (.accepted 1 (by decide) (by decide)) 0).Honest (fun _ => "Success") := by
  refine ⟨by decide, ?_, ?_⟩
  · rw [read_honest_iff]
    simp [IoCall.Foreseen, ReadResult.value]
  · rw [send_honest_iff]
    simp [IoCall.Foreseen, SendResult.value]

end CommonLib.Communication
