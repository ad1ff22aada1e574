import CommonLib.Verification.Uart.Agree
import CommonLib.Verification.Uart.WindowsRead
import Mathlib.Data.List.Infix

/-! # `read` and `readline` on a line that goes quiet

A read that times out succeeds without a byte, and the loops take another turn on it. What ends them
is the byte that finds the buffer full, or the end of the terminator. -/

namespace CommonLib.Uart

/-! ## When the matcher comes to the end of the terminator -/

theorem scan_singleton_returned_iff (eol : UInt8) (line bytes : Bytes) :
    (∃ result, scan [eol] ⟨0, line⟩ bytes = .returned result) ↔ eol ∈ bytes := by
  induction bytes generalizing line with
  | nil => simp [scan]
  | cons ch bytes ih =>
      by_cases h : eol = ch
      · simp [scan, h]
      · rw [scan_singleton_cons h, ih, List.mem_cons]
        exact (or_iff_right h).symm

/-- `pending` says whether the last byte was a CR. -/
theorem scan_crlf_returned_iff (pending : Bool) (line bytes : Bytes) :
    (∃ result, scan [13, 10] ⟨pending.toNat, line⟩ bytes = .returned result) ↔
      pending = true ∧ [10] <+: bytes ∨ [13, 10] <:+: bytes := by
  induction bytes generalizing pending line with
  | nil => simp [scan]
  | cons ch bytes ih =>
      rw [List.infix_cons_iff]
      by_cases hcr : ch = 13
      · rw [hcr, scan_crlf_cr, ih]
        simp
      · cases pending with
        | false =>
            rw [scan_crlf_other hcr, ih]
            simp [Ne.symm hcr]
        | true =>
            by_cases hlf : ch = 10
            · simp [scan, hlf]
            · rw [scan_crlf_broken hcr hlf, ih]
              simp [Ne.symm hcr, Ne.symm hlf]

theorem scan_returned_iff (escapeSequence : EscapeSequence) (bytes : Bytes) :
    (∃ result, scan (endOfLine escapeSequence) ⟨0, []⟩ bytes = .returned result) ↔
      endOfLine escapeSequence <:+: bytes := by
  cases escapeSequence with
  | nullEnd => rw [endOfLine, scan_singleton_returned_iff, List.singleton_infix_iff]
  | lineFeed => rw [endOfLine, scan_singleton_returned_iff, List.singleton_infix_iff]
  | carriageReturn =>
      have h := scan_crlf_returned_iff false [] bytes
      rw [Bool.toNat_false] at h
      rw [endOfLine, h]
      simp

end CommonLib.Uart

namespace CommonLib.Uart.Windows

/-- A device that sends a finite stream, with any number of timeouts in it, and nothing after it. -/
def quiet (delivery : List (Option UInt8)) (consumed : Bytes) : Port :=
  ⟨arrivals delivery ++ₛ Stream'.const .empty, consumed⟩

/-! ## `read` -/

theorem not_ends_read_quiet {size : ℕ} {consumed buffer : Bytes} {r : Reading} :
    ¬ Ends (readTurn size) ⟨quiet [] consumed, buffer⟩ r := by
  apply not_ends_of_again (I := fun s => s.port.results = Stream'.const .empty)
  · rfl
  · intro s hs
    refine ⟨_, readTurn_empty ?_, ?_⟩
    · rw [hs]
      rfl
    · rw [hs]
      rfl

/-- From any turn of the loop on. -/
theorem ends_read_quiet_iff {size : ℕ} (delivery : List (Option UInt8)) (consumed buffer : Bytes)
    (hroom : buffer.length ≤ size) :
    (∃ r, Ends (readTurn size) ⟨quiet delivery consumed, buffer⟩ r ∧
        r.buffer = buffer ++ delivery.reduceOption.take (size - buffer.length)) ↔
      size < buffer.length + delivery.reduceOption.length := by
  induction delivery generalizing consumed buffer with
  | nil =>
      apply iff_of_false
      · rintro ⟨r, hr, -⟩
        exact not_ends_read_quiet hr
      · exact Nat.not_lt.mpr hroom
  | cons arrival delivery ih =>
      cases arrival with
      | none =>
          have hturn : readTurn size ⟨quiet (none :: delivery) consumed, buffer⟩ =
              .again ⟨quiet delivery consumed, buffer⟩ := readTurn_empty rfl
          simp only [ends_of_again hturn, List.reduceOption_cons_of_none]
          exact ih consumed buffer hroom
      | some ch =>
          rw [List.reduceOption_cons_of_some, List.length_cons]
          by_cases hlt : buffer.length < size
          · have hturn : readTurn size ⟨quiet (some ch :: delivery) consumed, buffer⟩ =
                .again ⟨quiet delivery (consumed ++ [ch]), buffer ++ [ch]⟩ := readTurn_byte rfl hlt
            have hlen : (buffer ++ [ch]).length = buffer.length + 1 := by simp
            have hleft : size - buffer.length = size - (buffer ++ [ch]).length + 1 := by omega
            have hrest := ih (consumed ++ [ch]) (buffer ++ [ch]) (hlen ▸ hlt)
            rw [hlen, Nat.add_right_comm, Nat.add_assoc] at hrest
            rw [← hrest, hleft, List.take_succ_cons]
            simp only [ends_of_again hturn, List.append_assoc, List.singleton_append, hlen]
          · have hfull : size = buffer.length := Nat.le_antisymm (Nat.le_of_not_lt hlt) hroom
            have hturn : readTurn size ⟨quiet (some ch :: delivery) consumed, buffer⟩ =
                .done ⟨quiet delivery (consumed ++ [ch]), buffer⟩ := readTurn_full rfl hfull.le
            apply iff_of_true
            · refine ⟨_, .done hturn, ?_⟩
              simp [hfull]
            · omega

/-- `read` returns whether it has stored anything. -/
theorem Reading.success_eq (r : Reading) : r.success = !r.buffer.isEmpty := by
  cases hbuffer : r.buffer <;> simp [success, hbuffer]

/-- `read` ends with what was received exactly if more is received than the buffer holds. -/
theorem read_quiet_iff (size : ℕ) (delivery : List (Option UInt8)) (consumed : Bytes) :
    (∃ r, Read size (quiet delivery consumed) r ∧ r.buffer = delivery.reduceOption.take size ∧
        r.success = !(delivery.reduceOption.take size).isEmpty) ↔
      size < delivery.reduceOption.length := by
  have h := ends_read_quiet_iff delivery consumed [] (Nat.zero_le size)
  simp only [List.length_nil, Nat.zero_add, Nat.sub_zero, List.nil_append] at h
  rw [← h]
  constructor
  · rintro ⟨r, hr, hbuffer, -⟩
    exact ⟨r, hr, hbuffer⟩
  · rintro ⟨r, hr, hbuffer⟩
    exact ⟨r, hr, hbuffer, hbuffer ▸ r.success_eq⟩

/-! ## `readline` -/

theorem not_ends_readline_quiet {eol consumed : Bytes} {state : LineState} {r : Lining} :
    ¬ Ends (lineTurn eol) ⟨quiet [] consumed, state⟩ r := by
  apply not_ends_of_again (I := fun s => s.port.results = Stream'.const .empty)
  · rfl
  · intro s hs
    refine ⟨_, lineTurn_empty ?_, ?_⟩
    · rw [hs]
      rfl
    · rw [hs]
      rfl

/-- The loop ends exactly with the terminator. -/
theorem readline_quiet {escapeSequence : EscapeSequence} {delivery : List (Option UInt8)}
    {consumed line : Bytes} :
    (∃ r, Readline escapeSequence (quiet delivery consumed) r ∧ r.state.line = line) ↔
      scan (endOfLine escapeSequence) ⟨0, []⟩ delivery.reduceOption = .returned line := by
  cases hscan : scan (endOfLine escapeSequence) ⟨0, []⟩ delivery.reduceOption with
  | returned result =>
      obtain ⟨r, hr, hline⟩ := ends_of_returned hscan (Stream'.const .empty) consumed
      constructor
      · rintro ⟨r', hr', rfl⟩
        rw [Ends.unique hr' hr, hline]
      · intro h
        cases h
        exact ⟨r, hr, hline⟩
  | exhausted state =>
      apply iff_of_false
      · rintro ⟨r, hr, -⟩
        exact not_ends_readline_quiet ((ends_of_exhausted hscan _ consumed r).mp hr)
      · simp

/-- `readline` ends with what was received up to the terminator exactly if the terminator comes, and
no CR is astray in front of a CR LF. -/
theorem readline_quiet_iff (escapeSequence : EscapeSequence) (delivery : List (Option UInt8))
    (consumed : Bytes) :
    (∃ r, Readline escapeSequence (quiet delivery consumed) r ∧
        FirstUpTo (endOfLine escapeSequence) delivery.reduceOption r.state.line) ↔
      endOfLine escapeSequence <:+: delivery.reduceOption ∧
        (escapeSequence = .carriageReturn → ¬ Stray delivery.reduceOption) := by
  rw [← scan_returned_iff, ← scan_firstUpTo_iff]
  constructor
  · rintro ⟨r, hr, hline⟩
    have hscan := readline_quiet.mp ⟨r, hr, rfl⟩
    rw [hscan]
    exact ⟨⟨r.state.line, rfl⟩, hline⟩
  · rintro ⟨⟨line, hscan⟩, hline⟩
    obtain ⟨r, hr, rfl⟩ := readline_quiet.mpr hscan
    rw [hscan] at hline
    exact ⟨r, hr, hline⟩

/-! ## Both -/

/-- On a line that goes quiet, `read` ends with what was received, and says whether that is anything,
exactly if more is received than the buffer holds, and `readline` exactly if the terminator comes and
no CR is astray. -/
theorem quiet_ends_iff (size : ℕ) (escapeSequence : EscapeSequence)
    (delivery : List (Option UInt8)) (consumed : Bytes) :
    ((∃ r, Read size (quiet delivery consumed) r ∧ r.buffer = delivery.reduceOption.take size ∧
        r.success = !(delivery.reduceOption.take size).isEmpty) ↔
      size < delivery.reduceOption.length) ∧
    ((∃ r, Readline escapeSequence (quiet delivery consumed) r ∧
        FirstUpTo (endOfLine escapeSequence) delivery.reduceOption r.state.line) ↔
      endOfLine escapeSequence <:+: delivery.reduceOption ∧
        (escapeSequence = .carriageReturn → ¬ Stray delivery.reduceOption)) :=
  ⟨read_quiet_iff size delivery consumed, readline_quiet_iff escapeSequence delivery consumed⟩

/-- One byte and then silence: neither call ever returns. -/
theorem quiet_never_ends :
    (¬ ∃ r, Read 4 (quiet [some 84] []) r) ∧ ¬ ∃ r, Readline .lineFeed (quiet [some 84] []) r := by
  constructor
  · rintro ⟨r, hr⟩
    have hturn : readTurn 4 ⟨quiet [some 84] [], []⟩ = .again ⟨quiet [] [84], [84]⟩ :=
      readTurn_byte rfl (by decide)
    exact not_ends_read_quiet ((ends_of_again hturn).mp hr)
  · rintro ⟨r, hr⟩
    have hscan := readline_quiet.mp ⟨r, hr, rfl⟩
    cases hscan

end CommonLib.Uart.Windows
