import CommonLib.Library.UpTo
import CommonLib.Model.Uart

/-! # One call of `readline`

How the stream is cut into reads does not matter for the string that one call returns. The matcher
puts a CR into the line as soon as it comes, and once more when the next byte turns out not to be a
LF: right for a second CR, which is then left out itself, and one CR too many for any other byte. -/

namespace CommonLib.Uart

def Scan.line : Scan → Bytes
  | .returned line => line
  | .exhausted s => s.line

/-! ## The chunks -/

/-- The matcher goes over a chunk boundary as if it were not there. -/
theorem scan_append_bytes (eol : Bytes) (s : LineState) (bytes rest : Bytes) :
    scan eol s (bytes ++ rest) = match scan eol s bytes with
      | .returned line => .returned line
      | .exhausted s' => scan eol s' rest := by
  induction bytes generalizing s with
  | nil => rfl
  | cons ch bytes ih =>
      rw [List.cons_append, scan, scan]
      split
      · split
        · rfl
        · exact ih _
      · split
        · split
          · exact ih _
          · exact ih _
        · exact ih _

theorem readLoop_fst (eol : Bytes) (s : LineState) (device : Device) :
    (readLoop eol s device).1 = (scan eol s (stream device)).line := by
  induction device generalizing s with
  | nil => rfl
  | cons chunk device ih =>
      have hstream : stream (chunk :: device) = chunk.bytes ++ stream device := rfl
      rw [hstream, scan_append_bytes, readLoop]
      cases scan eol s chunk.bytes with
      | returned line => rfl
      | exhausted s' => exact ih s'

/-! ## NUL and LF -/

theorem scan_singleton_cons {eol ch : UInt8} (h : eol ≠ ch) (line bytes : Bytes) :
    scan [eol] ⟨0, line⟩ (ch :: bytes) = scan [eol] ⟨0, line ++ [ch]⟩ bytes := by
  simp [scan, h]

theorem scan_singleton_line (eol : UInt8) (line bytes : Bytes) :
    (scan [eol] ⟨0, line⟩ bytes).line = line ++ upTo eol bytes := by
  induction bytes generalizing line with
  | nil => simp [scan, Scan.line, upTo]
  | cons ch bytes ih =>
      by_cases h : ch = eol
      · simp [scan, Scan.line, upTo, h]
      · rw [scan_singleton_cons (Ne.symm h), ih, upTo, if_neg h, List.append_assoc]
        rfl

/-! ## CR LF -/

/-- What the matcher appends to the line; `pending` says whether the last byte was a CR. -/
def echo : Bool → Bytes → Bytes
  | _, [] => []
  | false, ch :: rest => if ch = 13 then 13 :: echo true rest else ch :: echo false rest
  | true, ch :: rest =>
      if ch = 10 then [10]
      else if ch = 13 then 13 :: echo true rest
      else 13 :: ch :: echo false rest

theorem scan_crlf_cr (pending : Bool) (line bytes : Bytes) :
    scan [13, 10] ⟨pending.toNat, line⟩ (13 :: bytes) =
      scan [13, 10] ⟨true.toNat, line ++ [13]⟩ bytes := by
  cases pending with
  | false => simp [scan]
  | true => simp [scan]

theorem scan_crlf_other {ch : UInt8} (hcr : ch ≠ 13) (line bytes : Bytes) :
    scan [13, 10] ⟨false.toNat, line⟩ (ch :: bytes) =
      scan [13, 10] ⟨false.toNat, line ++ [ch]⟩ bytes := by
  simp [scan, hcr.symm]

/-- The matcher writes the CR of a broken match once more. -/
theorem scan_crlf_broken {ch : UInt8} (hcr : ch ≠ 13) (hlf : ch ≠ 10) (line bytes : Bytes) :
    scan [13, 10] ⟨true.toNat, line⟩ (ch :: bytes) =
      scan [13, 10] ⟨false.toNat, line ++ [13] ++ [ch]⟩ bytes := by
  simp [scan, hcr.symm, hlf.symm]

theorem scan_crlf_line (pending : Bool) (line bytes : Bytes) :
    (scan [13, 10] ⟨pending.toNat, line⟩ bytes).line = line ++ echo pending bytes := by
  induction bytes generalizing pending line with
  | nil => simp [scan, Scan.line, echo]
  | cons ch bytes ih =>
      by_cases hcr : ch = 13
      · have hecho : echo pending (13 :: bytes) = 13 :: echo true bytes := by
          cases pending <;> simp [echo]
        rw [hcr, scan_crlf_cr, ih, hecho, List.append_assoc]
        rfl
      · cases pending with
        | false =>
            rw [scan_crlf_other hcr, ih, echo, if_neg hcr, List.append_assoc]
            rfl
        | true =>
            rw [echo]
            by_cases hlf : ch = 10
            · simp [scan, Scan.line, hlf]
            · rw [scan_crlf_broken hcr hlf, ih, if_neg hlf, if_neg hcr, List.append_assoc,
                List.append_assoc]
              rfl

/-- Before the first CR LF, some CR is followed by a byte other than CR and LF. -/
def Stray : Bytes → Prop
  | [] => False
  | ch :: rest =>
      ch = 13 ∧ (∃ next, rest.head? = some next ∧ next ≠ 13 ∧ next ≠ 10) ∨
        ¬ [13, 10] <+: ch :: rest ∧ Stray rest

/-- The line is never too short, and it is right exactly where no CR is astray. -/
theorem echo_spec (bytes : Bytes) :
    (upToSeq [13, 10] bytes).length ≤ (echo false bytes).length ∧
      (echo false bytes = upToSeq [13, 10] bytes ↔ ¬ Stray bytes) := by
  induction bytes with
  | nil => simp [echo, upToSeq, Stray]
  | cons ch bytes ih =>
      by_cases h : ch = 13
      · subst h
        cases bytes with
        | nil => simp [echo, upToSeq, Stray]
        | cons next rest =>
            by_cases hlf : next = 10
            · subst hlf
              simp [echo, upToSeq, Stray]
            · have hpat : ¬ [13, 10] <+: 13 :: next :: rest := by simp [Ne.symm hlf]
              by_cases hcr : next = 13
              · subst hcr
                have hecho : echo false (13 :: 13 :: rest) = 13 :: echo false (13 :: rest) := by
                  simp [echo]
                have hstray : Stray (13 :: 13 :: rest) ↔ Stray (13 :: rest) := by
                  rw [Stray]
                  simp
                rw [upToSeq, if_neg hpat, hecho, hstray, ← ih.2]
                exact ⟨Nat.succ_le_succ ih.1, by simp⟩
              · have hecho : echo false (13 :: next :: rest) =
                    13 :: 13 :: echo false (next :: rest) := by
                  simp [echo, hlf, hcr]
                have hstray : Stray (13 :: next :: rest) :=
                  .inl ⟨rfl, next, rfl, hcr, hlf⟩
                have hlong : (upToSeq [13, 10] (13 :: next :: rest)).length <
                    (echo false (13 :: next :: rest)).length := by
                  rw [upToSeq, if_neg hpat, hecho]
                  exact Nat.succ_lt_succ (Nat.lt_succ_of_le ih.1)
                refine ⟨hlong.le, iff_of_false (fun heq => ?_) (not_not_intro hstray)⟩
                rw [heq] at hlong
                exact lt_irrefl _ hlong
      · have hpat : ¬ [13, 10] <+: ch :: bytes := by simp [Ne.symm h]
        have hecho : echo false (ch :: bytes) = ch :: echo false bytes := by
          rw [echo, if_neg h]
        have hstray : Stray (ch :: bytes) ↔ Stray bytes := by
          rw [Stray]
          simp [h, hpat]
        rw [upToSeq, if_neg hpat, hecho, hstray, ← ih.2]
        exact ⟨Nat.succ_le_succ ih.1, by simp⟩

/-! ## The string that is returned -/

/-- The line over a whole stream is the shortest prefix that ends with the terminator, or the whole
stream where there is none, exactly if the terminator is not CR LF or no CR is astray. -/
theorem scan_firstUpTo_iff (escapeSequence : EscapeSequence) (bytes : Bytes) :
    FirstUpTo (endOfLine escapeSequence) bytes (scan (endOfLine escapeSequence) ⟨0, []⟩ bytes).line ↔
      (escapeSequence = .carriageReturn → ¬ Stray bytes) := by
  have hne : endOfLine escapeSequence ≠ [] := by cases escapeSequence <;> simp [endOfLine]
  have hright := firstUpTo_upToSeq hne bytes
  have hiff : FirstUpTo (endOfLine escapeSequence) bytes
      (scan (endOfLine escapeSequence) ⟨0, []⟩ bytes).line ↔
        (scan (endOfLine escapeSequence) ⟨0, []⟩ bytes).line =
          upToSeq (endOfLine escapeSequence) bytes :=
    ⟨fun h => h.unique hright, fun h => h ▸ hright⟩
  rw [hiff]
  cases escapeSequence with
  | nullEnd => simp [endOfLine, scan_singleton_line, upToSeq_singleton]
  | lineFeed => simp [endOfLine, scan_singleton_line, upToSeq_singleton]
  | carriageReturn =>
      have hline := scan_crlf_line false [] bytes
      rw [Bool.toNat_false, List.nil_append] at hline
      rw [endOfLine, hline, (echo_spec bytes).2]
      simp

/-- `readline` returns the shortest prefix of the stream that ends with the terminator, or the whole
stream where there is none, exactly if the terminator is not CR LF or no CR is astray. -/
theorem readline_firstUpTo_iff (escapeSequence : EscapeSequence) (device : Device) :
    FirstUpTo (endOfLine escapeSequence) (stream device) (readline escapeSequence device).1 ↔
      (escapeSequence = .carriageReturn → ¬ Stray (stream device)) := by
  rw [readline, readLoop_fst]
  exact scan_firstUpTo_iff escapeSequence (stream device)

/-- A CR in the middle of a line comes out twice. -/
theorem readline_stray_cr :
    (readline .carriageReturn [⟨[97, 13, 98, 13, 10], by decide, by decide⟩]).1 =
        [97, 13, 13, 98, 13, 10] ∧
      ¬ FirstUpTo (endOfLine .carriageReturn)
        (stream [⟨[97, 13, 98, 13, 10], by decide, by decide⟩])
        (readline .carriageReturn [⟨[97, 13, 98, 13, 10], by decide, by decide⟩]).1 := by
  refine ⟨by decide, fun h => ?_⟩
  have hle := h.isPrefix.length_le
  exact absurd hle (by decide)

end CommonLib.Uart
