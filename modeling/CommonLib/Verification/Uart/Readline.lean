import CommonLib.Library.UpTo
import CommonLib.Model.Uart

/-! # Successive calls of `readline`

With a terminator of one byte every chunk is read by one call, up to the first terminator in it.
What the chunk holds behind that is lost with the buffer of the call. -/

namespace CommonLib.Uart

variable {eol : UInt8}

/-! ## One chunk -/

theorem scan_cons_self (line rest : Bytes) :
    scan [eol] ⟨0, line⟩ (eol :: rest) = .returned (line ++ [eol]) := by
  simp [scan]

theorem scan_cons_of_ne (line rest : Bytes) {ch : UInt8} (h : ch ≠ eol) :
    scan [eol] ⟨0, line⟩ (ch :: rest) = scan [eol] ⟨0, line ++ [ch]⟩ rest := by
  simp [scan, Ne.symm h]

/-- A chunk without the terminator goes into the line. -/
theorem scan_of_not_mem (line : Bytes) {bytes : Bytes} (h : eol ∉ bytes) :
    scan [eol] ⟨0, line⟩ bytes = .exhausted ⟨0, line ++ bytes⟩ := by
  induction bytes generalizing line with
  | nil => simp [scan]
  | cons ch rest ih =>
      rw [List.mem_cons, not_or] at h
      rw [scan_cons_of_ne line rest (Ne.symm h.1), ih _ h.2, List.append_assoc]
      rfl

/-- The first terminator ends the call. -/
theorem scan_append (line : Bytes) {body : Bytes} (h : eol ∉ body) (rest : Bytes) :
    scan [eol] ⟨0, line⟩ (body ++ eol :: rest) = .returned (line ++ body ++ [eol]) := by
  induction body generalizing line with
  | nil => simp [scan_cons_self]
  | cons ch body ih =>
      rw [List.mem_cons, not_or] at h
      rw [List.cons_append, scan_cons_of_ne line _ (Ne.symm h.1), ih _ h.2]
      simp

/-! ## One call -/

/-- A string that ends with the terminator and contains it nowhere else. -/
def IsLine (eol : UInt8) (line : Bytes) : Prop :=
  ∃ body, line = body ++ [eol] ∧ eol ∉ body

/-- A call uses up some chunks, each up to its first terminator, and comes back with chunks left
only at a terminator. -/
theorem readLoop_spec (line : Bytes) (hline : eol ∉ line) (device : Device) :
    ∃ used, device = used ++ (readLoop [eol] ⟨0, line⟩ device).2 ∧
      (device ≠ [] → used ≠ []) ∧
      (readLoop [eol] ⟨0, line⟩ device).1 =
        line ++ (used.map Chunk.bytes).flatMap (upTo eol) ∧
      ((readLoop [eol] ⟨0, line⟩ device).2 ≠ [] →
        IsLine eol (readLoop [eol] ⟨0, line⟩ device).1) := by
  induction device generalizing line with
  | nil => exact ⟨[], by simp [readLoop]⟩
  | cons chunk device ih =>
      by_cases h : eol ∈ chunk.bytes
      · obtain ⟨body, rest, hchunk, hbody⟩ := exists_upTo h
        have hread : readLoop [eol] ⟨0, line⟩ (chunk :: device) =
            (line ++ body ++ [eol], device) := by
          rw [readLoop, hchunk, scan_append line hbody]
        rw [hread]
        refine ⟨[chunk], rfl, by simp, ?_, fun _ => ⟨line ++ body, rfl, by simp [hline, hbody]⟩⟩
        simp [hchunk, upTo_append hbody]
      · have hread : readLoop [eol] ⟨0, line⟩ (chunk :: device) =
            readLoop [eol] ⟨0, line ++ chunk.bytes⟩ device := by
          rw [readLoop, scan_of_not_mem line h]
        obtain ⟨used, hused, -, hresult, hreturned⟩ :=
          ih (line ++ chunk.bytes) (by simp [hline, h])
        rw [hread]
        refine ⟨chunk :: used, ?_, by simp, ?_, hreturned⟩
        · rw [List.cons_append, ← hused]
        · rw [hresult]
          simp [upTo_of_not_mem h]

/-! ## All calls -/

/-- The terminator is the only byte of `endOfLine`. -/
def EscapeSequence.OneByte (escapeSequence : EscapeSequence) (eol : UInt8) : Prop :=
  endOfLine escapeSequence = [eol]

theorem readlines_spec {escapeSequence : EscapeSequence} (h : escapeSequence.OneByte eol)
    {calls : ℕ} {device : Device} (hcalls : device.length ≤ calls) :
    (readlines escapeSequence calls device).flatten =
        (device.map Chunk.bytes).flatMap (upTo eol) ∧
      ∀ line ∈ (readlines escapeSequence calls device).dropLast, IsLine eol line := by
  induction calls generalizing device with
  | zero =>
      have hnil : device = [] := List.length_eq_zero_iff.mp (Nat.le_zero.mp hcalls)
      simp [hnil, readlines]
  | succ calls ih =>
      cases device with
      | nil => simp [readlines]
      | cons chunk device =>
          obtain ⟨used, hused, hsome, hresult, hreturned⟩ :=
            readLoop_spec [] (List.not_mem_nil (a := eol)) (chunk :: device)
          rw [← h] at hused hresult hreturned
          change chunk :: device = used ++ (readline escapeSequence (chunk :: device)).2 at hused
          change (readline escapeSequence (chunk :: device)).1 = _ at hresult
          have hlen : (readline escapeSequence (chunk :: device)).2.length ≤ calls := by
            have hpos := List.length_pos_iff.mpr (hsome (by simp))
            have htotal := congrArg List.length hused
            rw [List.length_append] at htotal
            omega
          obtain ⟨hflatten, hlines⟩ := ih hlen
          rw [readlines]
          constructor
          · rw [List.flatten_cons, hflatten, hresult]
            conv_rhs => rw [hused]
            simp
          · intro line hline
            by_cases hrest : (readline escapeSequence (chunk :: device)).2 = []
            · cases calls <;> simp [hrest, readlines] at hline
            · cases hnext : readlines escapeSequence calls
                (readline escapeSequence (chunk :: device)).2 with
              | nil => simp [hnext] at hline
              | cons next more =>
                  rw [hnext, List.dropLast_cons_cons, List.mem_cons] at hline
                  rcases hline with rfl | hline
                  · exact hreturned hrest
                  · exact hlines line (hnext ▸ hline)

/-- Nothing of the stream is lost, and every string but possibly the last one is a line. -/
structure Lossless (escapeSequence : EscapeSequence) (device : Device) : Prop where
  complete : (readAll escapeSequence device).flatten = stream device
  lines : ∀ line ∈ (readAll escapeSequence device).dropLast,
    ∃ body, line = body ++ endOfLine escapeSequence ∧
      ∀ eol ∈ endOfLine escapeSequence, eol ∉ body

/-- For NUL and LF: successive calls lose nothing exactly if no chunk goes on behind a
terminator. -/
theorem lossless_iff (escapeSequence : EscapeSequence)
    (h : escapeSequence = .nullEnd ∨ escapeSequence = .lineFeed) (device : Device) :
    Lossless escapeSequence device ↔
      ∀ chunk ∈ device, ∀ eol ∈ endOfLine escapeSequence, eol ∉ chunk.bytes.dropLast := by
  obtain ⟨eol, hone⟩ : ∃ eol, escapeSequence.OneByte eol := by
    rcases h with rfl | rfl
    · exact ⟨0, rfl⟩
    · exact ⟨10, rfl⟩
  obtain ⟨hflatten, hlines⟩ := readlines_spec hone (Nat.le_refl device.length)
  have hcomplete : (readAll escapeSequence device).flatten = stream device ↔
      ∀ chunk ∈ device, eol ∉ chunk.bytes.dropLast := by
    rw [readAll, hflatten, stream, flatMap_upTo_eq_iff]
    simp
  have hone' : endOfLine escapeSequence = [eol] := hone
  constructor
  · intro hlossless
    simpa [hone'] using hcomplete.mp hlossless.complete
  · intro hchunks
    refine ⟨hcomplete.mpr (by simpa [hone'] using hchunks), fun line hline => ?_⟩
    obtain ⟨body, hbody, hnot⟩ := hlines line hline
    exact ⟨body, by rw [hbody, hone'], by simpa [hone'] using hnot⟩

/-- A line that arrives in two reads. -/
theorem lossless_two_chunks :
    Lossless .lineFeed [⟨[97], by decide, by decide⟩, ⟨[98, 10], by decide, by decide⟩] := by
  apply (lossless_iff .lineFeed (.inr rfl) _).mpr
  simp [endOfLine]

/-- Two lines that arrive in one read: the second one is lost. -/
theorem readAll_two_lines :
    readAll .lineFeed [⟨[97, 10, 98, 10], by decide, by decide⟩] = [[97, 10]] ∧
      ¬ Lossless .lineFeed [⟨[97, 10, 98, 10], by decide, by decide⟩] := by
  refine ⟨by decide, fun h => ?_⟩
  exact absurd h.complete (by decide)

end CommonLib.Uart
