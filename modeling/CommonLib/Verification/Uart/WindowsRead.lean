import CommonLib.Model.UartWindows
import Mathlib.Data.Stream.Init

/-! # What `read` takes from the device on Windows

The loop notices that its buffer is full only when it holds one more byte, which it drops. -/

namespace CommonLib.Uart.Windows

/-- More than `size` bytes come before a call fails. -/
def Overflows (size : ℕ) (results : Stream' ReadFile) : Prop :=
  ∃ n, (∀ i < n, results.get i ≠ .failed) ∧
    size < ((results.take n).flatMap ReadFile.bytes).length

/-- Successive calls of `read` with the given buffer sizes: the buffers, and the device behind
them. -/
inductive Reads : List ℕ → Port → List Bytes → Port → Prop
  | nil (port : Port) : Reads [] port [] port
  | cons {size : ℕ} {sizes : List ℕ} {port port' : Port} {r : Reading} {buffers : List Bytes} :
      Read size port r → Reads sizes r.port buffers port' →
      Reads (size :: sizes) port (r.buffer :: buffers) port'

/-- As long as the calls return, the bytes that they took are the bytes that they stored. -/
def Gapless (sizes : List ℕ) (port : Port) : Prop :=
  ∀ n buffers port', Reads (sizes.take n) port buffers port' →
    port'.consumed = port.consumed ++ buffers.flatten

/-- `rest` is what the device gives behind its first failure. -/
inductive BehindFailure : Stream' ReadFile → Stream' ReadFile → Prop
  | failed {results : Stream' ReadFile} :
      results.head = .failed → BehindFailure results results.tail
  | later {results rest : Stream' ReadFile} :
      results.head ≠ .failed → BehindFailure results.tail rest → BehindFailure results rest

/-- From one failure of the device to the next one there come no more bytes than the next buffer
holds. -/
def NeverOverflows : List ℕ → Stream' ReadFile → Prop
  | [], _ => True
  | size :: sizes, results =>
      ¬ Overflows size results ∧ ∀ rest, BehindFailure results rest → NeverOverflows sizes rest

/-! ## The results of `ReadFile` one by one -/

theorem overflows_iff {size : ℕ} {results : Stream' ReadFile} :
    Overflows size results ↔ results.head ≠ .failed ∧
      ∃ n, (∀ i < n, results.tail.get i ≠ .failed) ∧
        size < results.head.bytes.length + ((results.tail.take n).flatMap ReadFile.bytes).length := by
  constructor
  · rintro ⟨n, hfine, hmany⟩
    cases n with
    | zero => cases hmany
    | succ n =>
        refine ⟨hfine 0 (Nat.succ_pos n), n, fun i hi => hfine (i + 1) (Nat.succ_lt_succ hi), ?_⟩
        rw [Stream'.take_succ, List.flatMap_cons, List.length_append] at hmany
        exact hmany
  · rintro ⟨hhead, n, hfine, hmany⟩
    refine ⟨n + 1, fun i hi => ?_, ?_⟩
    · cases i with
      | zero => exact hhead
      | succ i => exact hfine i (Nat.lt_of_succ_lt_succ hi)
    · rw [Stream'.take_succ, List.flatMap_cons, List.length_append]
      exact hmany

theorem not_overflows_of_failed {size : ℕ} {results : Stream' ReadFile}
    (h : results.head = .failed) : ¬ Overflows size results :=
  fun hover => (overflows_iff.mp hover).1 h

/-- There is no room for the byte that comes next. -/
theorem overflows_of_full {size : ℕ} {buffer : Bytes} {results : Stream' ReadFile} {ch : UInt8}
    (hhead : results.head = .byte ch) (hfull : size ≤ buffer.length) :
    Overflows (size - buffer.length) results := by
  apply overflows_iff.mpr
  rw [hhead, Nat.sub_eq_zero_of_le hfull]
  exact ⟨by simp, 0, by simp, by simp [ReadFile.bytes]⟩

/-- There is room for what comes next. -/
theorem overflows_tail {size : ℕ} {buffer : Bytes} {results : Stream' ReadFile}
    (hhead : results.head ≠ .failed) (hroom : (buffer ++ results.head.bytes).length ≤ size) :
    Overflows (size - buffer.length) results ↔
      Overflows (size - (buffer ++ results.head.bytes).length) results.tail := by
  rw [List.length_append] at hroom ⊢
  rw [overflows_iff, and_iff_right hhead]
  refine exists_congr fun n => and_congr_right fun _ => ?_
  omega

/-! ## One call -/

section Turns

variable {size : ℕ} {s : Reading}

theorem readTurn_failed (h : s.port.results.head = .failed) :
    readTurn size s = .done ⟨⟨s.port.results.tail, s.port.consumed⟩, s.buffer⟩ := by
  simp [readTurn, Port.readFile, h, ReadFile.bytes]

theorem readTurn_empty (h : s.port.results.head = .empty) :
    readTurn size s = .again ⟨⟨s.port.results.tail, s.port.consumed⟩, s.buffer⟩ := by
  simp [readTurn, Port.readFile, h, ReadFile.bytes]

theorem readTurn_byte {ch : UInt8} (h : s.port.results.head = .byte ch)
    (hroom : s.buffer.length < size) :
    readTurn size s =
      .again ⟨⟨s.port.results.tail, s.port.consumed ++ [ch]⟩, s.buffer ++ [ch]⟩ := by
  simp [readTurn, Port.readFile, h, ReadFile.bytes, hroom]

/-- The byte is taken and dropped. -/
theorem readTurn_full {ch : UInt8} (h : s.port.results.head = .byte ch)
    (hfull : size ≤ s.buffer.length) :
    readTurn size s = .done ⟨⟨s.port.results.tail, s.port.consumed ++ [ch]⟩, s.buffer⟩ := by
  simp [readTurn, Port.readFile, h, ReadFile.bytes, Nat.not_lt.mpr hfull]

end Turns

/-- The turns of the loop, as long as the buffer is not overrun. -/
inductive ReadTurn (size : ℕ) (s : Reading) : Turn Reading Reading → Prop
  | failed (hhead : s.port.results.head = .failed) :
      ReadTurn size s (.done ⟨s.port.readFile.2, s.buffer⟩)
  | next (hhead : s.port.results.head ≠ .failed)
      (hroom : (s.buffer ++ s.port.results.head.bytes).length ≤ size) :
      ReadTurn size s (.again ⟨s.port.readFile.2, s.buffer ++ s.port.results.head.bytes⟩)
  | full (ch : UInt8) (hhead : s.port.results.head = .byte ch) (hfull : size ≤ s.buffer.length) :
      ReadTurn size s (.done ⟨s.port.readFile.2, s.buffer⟩)

theorem readTurn_cases {size : ℕ} {s : Reading} {turn : Turn Reading Reading}
    (hroom : s.buffer.length ≤ size) (hs : readTurn size s = turn) : ReadTurn size s turn := by
  subst hs
  cases hhead : s.port.results.head with
  | failed =>
      have hturn : ReadTurn size s _ := .failed hhead
      rw [readTurn_failed hhead]
      simpa [Port.readFile, hhead, ReadFile.bytes] using hturn
  | empty =>
      have hturn : ReadTurn size s _ := .next (by simp [hhead])
        (by simpa [hhead, ReadFile.bytes] using hroom)
      rw [readTurn_empty hhead]
      simpa [Port.readFile, hhead, ReadFile.bytes] using hturn
  | byte ch =>
      by_cases hlt : s.buffer.length < size
      · have hturn : ReadTurn size s _ := .next (by simp [hhead])
          (by simpa [hhead, ReadFile.bytes] using Nat.succ_le_of_lt hlt)
        rw [readTurn_byte hhead hlt]
        simpa [Port.readFile, hhead, ReadFile.bytes] using hturn
      · have hfull := Nat.le_of_not_lt hlt
        have hturn : ReadTurn size s _ := .full ch hhead hfull
        rw [readTurn_full hhead hfull]
        simpa [Port.readFile, hhead, ReadFile.bytes] using hturn

/-- From any turn of the loop on, given that it has stored all it took. -/
theorem delivers_of_ends {size : ℕ} {before : Bytes} {s r : Reading} (h : Ends (readTurn size) s r)
    (hroom : s.buffer.length ≤ size) (hconsumed : s.port.consumed = before ++ s.buffer) :
    r.port.consumed = before ++ r.buffer ↔
      ¬ Overflows (size - s.buffer.length) s.port.results := by
  induction h with
  | @done s r hs =>
      cases readTurn_cases hroom hs with
      | failed hhead =>
          apply iff_of_true
          · simp [Port.readFile, hhead, ReadFile.bytes, hconsumed]
          · exact not_overflows_of_failed hhead
      | full ch hhead hfull =>
          apply iff_of_false
          · simp [Port.readFile, hhead, ReadFile.bytes, hconsumed]
          · exact not_not_intro (overflows_of_full hhead hfull)
  | @again s s' r hs _ ih =>
      cases readTurn_cases hroom hs with
      | next hhead hroom' =>
          rw [overflows_tail hhead hroom']
          apply ih hroom'
          simp [Port.readFile, hconsumed]

/-- A call that returns has stored all it took exactly if the device did not overflow its buffer. -/
theorem Read.delivers_iff {size : ℕ} {port : Port} {r : Reading} (h : Read size port r) :
    r.port.consumed = port.consumed ++ r.buffer ↔ ¬ Overflows size port.results :=
  delivers_of_ends h (Nat.zero_le size) (List.append_nil _).symm

/-- A call that is offered too much returns. -/
theorem ends_of_overflows {size : ℕ} {s : Reading} (hroom : s.buffer.length ≤ size)
    (hover : Overflows (size - s.buffer.length) s.port.results) :
    ∃ r, Ends (readTurn size) s r := by
  obtain ⟨n, hfine, hmany⟩ := hover
  induction n generalizing s with
  | zero => cases hmany
  | succ n ih =>
      cases hs : readTurn size s with
      | done r => exact ⟨r, .done hs⟩
      | again s' =>
          cases readTurn_cases hroom hs with
          | next hhead hroom' =>
              simp only [ends_of_again hs]
              apply ih hroom'
              · exact fun i hi => hfine (i + 1) (Nat.succ_lt_succ hi)
              · rw [Stream'.take_succ, List.flatMap_cons, List.length_append] at hmany
                rw [List.length_append] at hroom' ⊢
                simp only [Port.readFile]
                omega

/-- Any other call returns with the first failure of the device, if there is one. -/
theorem ends_iff_behindFailure {size : ℕ} {s : Reading} {rest : Stream' ReadFile}
    (hroom : s.buffer.length ≤ size)
    (hover : ¬ Overflows (size - s.buffer.length) s.port.results) :
    (∃ r, Ends (readTurn size) s r ∧ r.port.results = rest) ↔
      BehindFailure s.port.results rest := by
  constructor
  · rintro ⟨r, hr, rfl⟩
    induction hr with
    | @done s r hs =>
        cases readTurn_cases hroom hs with
        | failed hhead => exact .failed hhead
        | full ch hhead hfull => exact absurd (overflows_of_full hhead hfull) hover
    | @again s s' r hs _ ih =>
        cases readTurn_cases hroom hs with
        | next hhead hroom' =>
            apply BehindFailure.later hhead
            apply ih hroom'
            rwa [overflows_tail hhead hroom'] at hover
  · intro h
    generalize hresults : s.port.results = results at h hover
    induction h generalizing s with
    | failed hhead =>
        subst hresults
        exact ⟨_, .done (readTurn_failed hhead), rfl⟩
    | later hhead _ ih =>
        subst hresults
        cases hs : readTurn size s with
        | done r =>
            cases readTurn_cases hroom hs with
            | failed hfailed => exact absurd hfailed hhead
            | full ch hhead hfull => exact absurd (overflows_of_full hhead hfull) hover
        | again s' =>
            cases readTurn_cases hroom hs with
            | next _ hroom' =>
                simp only [ends_of_again hs]
                rw [overflows_tail hhead hroom'] at hover
                exact ih hroom' rfl hover

theorem Read.exists_of_overflows {size : ℕ} {port : Port} (hover : Overflows size port.results) :
    ∃ r, Read size port r :=
  ends_of_overflows (s := ⟨port, []⟩) (Nat.zero_le size) hover

theorem Read.iff_behindFailure {size : ℕ} {port : Port} {rest : Stream' ReadFile}
    (hover : ¬ Overflows size port.results) :
    (∃ r, Read size port r ∧ r.port.results = rest) ↔ BehindFailure port.results rest :=
  ends_iff_behindFailure (s := ⟨port, []⟩) (Nat.zero_le size) hover

/-! ## Successive calls -/

theorem gapless_cons {size : ℕ} {sizes : List ℕ} {port : Port} :
    Gapless (size :: sizes) port ↔
      ∀ r, Read size port r → r.port.consumed = port.consumed ++ r.buffer ∧ Gapless sizes r.port := by
  constructor
  · intro h r hr
    have hfirst : r.port.consumed = port.consumed ++ r.buffer := by
      have hone := h 1 [r.buffer] r.port (.cons hr (.nil r.port))
      simpa using hone
    refine ⟨hfirst, fun n buffers port' hreads => ?_⟩
    have hall := h (n + 1) (r.buffer :: buffers) port' (.cons hr hreads)
    rw [hall, hfirst, List.flatten_cons, List.append_assoc]
  · intro h n buffers port' hreads
    cases n with
    | zero =>
        cases hreads
        simp
    | succ n =>
        rw [List.take_succ_cons] at hreads
        cases hreads with
        | cons hr hrest =>
            obtain ⟨hfirst, hgapless⟩ := h _ hr
            rw [hgapless n _ _ hrest, hfirst, List.flatten_cons, List.append_assoc]

/-- Successive calls deliver the stream without gaps exactly if the device never offers more bytes
than a buffer holds between two failures. -/
theorem gapless_iff (sizes : List ℕ) (port : Port) :
    Gapless sizes port ↔ NeverOverflows sizes port.results := by
  induction sizes generalizing port with
  | nil =>
      refine iff_of_true (fun n buffers port' hreads => ?_) trivial
      rw [List.take_nil] at hreads
      cases hreads
      simp
  | cons size sizes ih =>
      rw [gapless_cons]
      constructor
      · intro h
        have hover : ¬ Overflows size port.results := by
          intro hover
          obtain ⟨r, hr⟩ := Read.exists_of_overflows hover
          exact hr.delivers_iff.mp (h r hr).1 hover
        refine ⟨hover, fun rest hrest => ?_⟩
        obtain ⟨r, hr, rfl⟩ := (Read.iff_behindFailure hover).mpr hrest
        exact (ih r.port).mp (h r hr).2
      · rintro ⟨hover, hrest⟩ r hr
        have hbehind := (Read.iff_behindFailure hover).mp ⟨r, hr, rfl⟩
        exact ⟨hr.delivers_iff.mpr hover, (ih r.port).mpr (hrest _ hbehind)⟩

/-- The second of three bytes is lost between two calls with room for one. -/
theorem read_drops_byte :
    ¬ Gapless [1, 1] ⟨[.byte 1, .byte 2, .byte 3] ++ₛ Stream'.const .failed, []⟩ := by
  intro h
  have hfirst : Read 1 ⟨[.byte 1, .byte 2, .byte 3] ++ₛ Stream'.const .failed, []⟩
      ⟨⟨[.byte 3] ++ₛ Stream'.const .failed, [1, 2]⟩, [1]⟩ :=
    ends_iff.mpr ⟨2, rfl⟩
  exact absurd (gapless_cons.mp h _ hfirst).1 (by decide)

end CommonLib.Uart.Windows
