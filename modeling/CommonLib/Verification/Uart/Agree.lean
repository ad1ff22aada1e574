import CommonLib.Model.UartWindows
import CommonLib.Verification.Uart.FirstLine
import Mathlib.Data.List.ReduceOption
import Mathlib.Data.Stream.Init

/-! # The two loops of `readline`

On Windows a line is matched byte by byte, with empty reads in between; on Linux it is matched chunk
by chunk. The bytes drive the same matcher. -/

namespace CommonLib.Uart.Windows

/-- Successful reads one after the other; `none` is one without a byte. -/
def arrivals (delivery : List (Option UInt8)) : List ReadFile :=
  delivery.map fun
    | none => .empty
    | some ch => .byte ch

/-! ## Single turns -/

section Turns

variable {eol : Bytes} {s : Lining}

theorem lineTurn_failed (h : s.port.results.head = .failed) :
    lineTurn eol s = .done ⟨⟨s.port.results.tail, s.port.consumed⟩, s.state⟩ := by
  simp [lineTurn, Port.readFile, h, ReadFile.bytes]

theorem lineTurn_empty (h : s.port.results.head = .empty) :
    lineTurn eol s = .again ⟨⟨s.port.results.tail, s.port.consumed⟩, s.state⟩ := by
  simp [lineTurn, Port.readFile, h, ReadFile.bytes]

/-- A byte moves the line as it moves the matcher of a chunk. -/
theorem lineTurn_byte (eol : Bytes) (s : Lining) (ch : UInt8) (h : s.port.results.head = .byte ch) :
    lineTurn eol s = match scan eol s.state [ch] with
      | .returned line =>
          .done ⟨⟨s.port.results.tail, s.port.consumed ++ [ch]⟩, s.state.endIdx + 1, line⟩
      | .exhausted state => .again ⟨⟨s.port.results.tail, s.port.consumed ++ [ch]⟩, state⟩ := by
  simp only [lineTurn, Port.readFile, h, ReadFile.bytes, lineByte, scan]
  split_ifs <;> rfl

end Turns

/-! ## A whole delivery -/

theorem scan_cons (eol : Bytes) (s : LineState) (ch : UInt8) (rest : Bytes) :
    scan eol s (ch :: rest) = match scan eol s [ch] with
      | .returned line => .returned line
      | .exhausted s' => scan eol s' rest :=
  scan_append_bytes eol s [ch] rest

/-- A delivery that does not complete the terminator leaves the loop where it leaves the matcher. -/
theorem ends_of_exhausted {eol : Bytes} {delivery : List (Option UInt8)} {state state' : LineState}
    (h : scan eol state delivery.reduceOption = .exhausted state') (rest : Stream' ReadFile)
    (consumed : Bytes) (r : Lining) :
    Ends (lineTurn eol) ⟨⟨arrivals delivery ++ₛ rest, consumed⟩, state⟩ r ↔
      Ends (lineTurn eol) ⟨⟨rest, consumed ++ delivery.reduceOption⟩, state'⟩ r := by
  induction delivery generalizing state consumed with
  | nil =>
      cases h
      simp [arrivals]
  | cons arrival delivery ih =>
      cases arrival with
      | none =>
          rw [List.reduceOption_cons_of_none] at h ⊢
          rw [ends_of_again (lineTurn_empty rfl)]
          exact ih h consumed
      | some ch =>
          rw [List.reduceOption_cons_of_some] at h ⊢
          rw [scan_cons] at h
          cases hch : scan eol state [ch] with
          | returned line =>
              rw [hch] at h
              cases h
          | exhausted next =>
              rw [hch] at h
              have hturn : lineTurn eol ⟨⟨arrivals (some ch :: delivery) ++ₛ rest, consumed⟩, state⟩ =
                  .again ⟨⟨arrivals delivery ++ₛ rest, consumed ++ [ch]⟩, next⟩ := by
                rw [lineTurn_byte eol _ ch rfl, hch]
                rfl
              rw [ends_of_again hturn, ih h, List.append_assoc]
              rfl

/-- A delivery that completes the terminator ends the loop. -/
theorem ends_of_returned {eol line : Bytes} {delivery : List (Option UInt8)} {state : LineState}
    (h : scan eol state delivery.reduceOption = .returned line) (rest : Stream' ReadFile)
    (consumed : Bytes) :
    ∃ r, Ends (lineTurn eol) ⟨⟨arrivals delivery ++ₛ rest, consumed⟩, state⟩ r ∧
      r.state.line = line := by
  induction delivery generalizing state consumed with
  | nil => cases h
  | cons arrival delivery ih =>
      cases arrival with
      | none =>
          rw [List.reduceOption_cons_of_none] at h
          obtain ⟨r, hr, hline⟩ := ih h consumed
          exact ⟨r, .again (lineTurn_empty rfl) hr, hline⟩
      | some ch =>
          rw [List.reduceOption_cons_of_some, scan_cons] at h
          have hturn := lineTurn_byte eol
            ⟨⟨arrivals (some ch :: delivery) ++ₛ rest, consumed⟩, state⟩ ch rfl
          cases hch : scan eol state [ch] with
          | returned line' =>
              rw [hch] at h hturn
              cases h
              exact ⟨_, .done hturn, rfl⟩
          | exhausted next =>
              rw [hch] at h hturn
              obtain ⟨r, hr, hline⟩ := ih h (consumed ++ [ch])
              exact ⟨r, .again hturn hr, hline⟩

/-! ## The two platforms -/

/-- However a stream is cut into reads on Linux, and however it comes byte by byte on Windows before
a read fails: the two loops return the same string. -/
theorem readline_agrees (escapeSequence : EscapeSequence) (device : Device)
    (delivery : List (Option UInt8)) (hbytes : delivery.reduceOption = stream device)
    (rest : Stream' ReadFile) (consumed : Bytes) :
    ∃ r, Readline escapeSequence ⟨arrivals delivery ++ₛ Stream'.cons .failed rest, consumed⟩ r ∧
      r.state.line = (readline escapeSequence device).1 := by
  rw [readline, readLoop_fst, ← hbytes]
  cases hscan : scan (endOfLine escapeSequence) ⟨0, []⟩ delivery.reduceOption with
  | returned line => exact ends_of_returned hscan _ consumed
  | exhausted state =>
      refine ⟨_, (ends_of_exhausted hscan _ consumed _).mpr (.done (lineTurn_failed rfl)), ?_⟩
      rfl

/-- CR LF split over two chunks, and with an empty read in between. -/
theorem readline_agrees_split :
    ∃ r, Readline .carriageReturn ⟨arrivals [some 97, some 13, none, some 10] ++ₛ
        Stream'.cons .failed (Stream'.const .failed), []⟩ r ∧
      r.state.line = (readline .carriageReturn
        [⟨[97, 13], by decide, by decide⟩, ⟨[10], by decide, by decide⟩]).1 :=
  readline_agrees .carriageReturn _ [some 97, some 13, none, some 10] (by decide) _ []

end CommonLib.Uart.Windows
