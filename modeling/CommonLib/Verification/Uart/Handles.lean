import CommonLib.Model.UartHandle
import Mathlib.Data.List.Induction
import Mathlib.Data.List.Nodup
import Mathlib.Tactic.Ring

/-! # The handles of a serial port

While a port lives its handles are in balance on every exit of `open`; the destructor does not close
the last one. -/

namespace CommonLib.Uart

/-- Handles obtained minus handles closed. -/
def UartImpl.balance (s : UartImpl) : ℤ := s.obtained - s.closed.length

/-- Handles stay in balance over the life of a port: as long as it is used, as it is destroyed, and
none is closed twice. -/
structure Accounted (platform : Platform) (calls : List PortCall) : Prop where
  used : ∀ n, (afterCalls platform (calls.take n)).balance =
    if (afterCalls platform (calls.take n)).isOpen then 1 else 0
  closed : ∀ n, (afterCalls platform (calls.take n)).closed.Nodup
  destroyed : (afterCalls platform calls).destroy.balance = 0
  closed_destroyed : (afterCalls platform calls).destroy.closed.Nodup

/-! ## The ledger -/

/-- The handles were closed in the order in which they were obtained, all of them but the one that
is in use. -/
structure Ledger (s : UartImpl) : Prop where
  closed : s.closed = (List.range s.closed.length).map some
  obtained : s.obtained = s.closed.length + if s.isOpen then 1 else 0
  handle : s.isOpen = true → s.handle = some s.closed.length

variable {platform : Platform} {results : OpenResults} {s : UartImpl}

theorem ledger_init : Ledger .init :=
  ⟨rfl, rfl, fun h => absurd h (by simp [UartImpl.init])⟩

theorem Ledger.balance (h : Ledger s) : s.balance = if s.isOpen then 1 else 0 := by
  rw [UartImpl.balance, h.obtained]
  split <;> simp

theorem Ledger.nodup (h : Ledger s) : s.closed.Nodup := by
  rw [h.closed]
  exact List.nodup_range.map (Option.some_injective ℕ)

theorem Ledger.opened (h : Ledger s) (hopen : s.isOpen = false) :
    Ledger { s.createFile true with isOpen := true } := by
  have hobtained := h.obtained
  simp only [hopen, Bool.false_eq_true, if_false, Nat.add_zero] at hobtained
  exact ⟨h.closed, congrArg (· + 1) hobtained, fun _ => congrArg some hobtained⟩

/-- The handle in use is the next one in the order. -/
theorem Ledger.close (h : Ledger s) : Ledger s.close := by
  unfold UartImpl.close
  split
  · next hopen =>
      have hobtained := h.obtained
      rw [if_pos hopen] at hobtained
      refine ⟨?_, ?_, fun h => absurd h (by simp)⟩
      · simp only [UartImpl.closeHandle, List.length_append, List.length_singleton]
        rw [List.range_succ, List.map_append, ← h.closed, h.handle hopen]
        rfl
      · simp [UartImpl.closeHandle, hobtained]
  · exact h

/-! ## The calls -/

/-- What `open` leaves behind: the port as it was, a handle closed again, or a port that is open. -/
theorem open_cases (platform : Platform) (results : OpenResults) (s : UartImpl) :
    (s.open platform results).2 = s ∨
    s.isOpen = false ∧ ((s.open platform results).2 = s.createFile false ∨
      (s.open platform results).2 = (s.createFile true).closeHandle ∨
      (s.open platform results).2 = { s.createFile true with isOpen := true }) := by
  obtain ⟨handle, getCommState, setCommState, setCommTimeouts⟩ := results
  cases hopen : s.isOpen with
  | true => simp [UartImpl.open, hopen]
  | false =>
      right
      refine ⟨rfl, ?_⟩
      cases handle with
      | false => simp [UartImpl.open, hopen, UartImpl.createFile]
      | true =>
          cases platform with
          | linux => simp [UartImpl.open, hopen, UartImpl.createFile, UartImpl.opened]
          | windows =>
              right
              cases getCommState <;> cases setCommState <;> cases setCommTimeouts <;>
                simp [UartImpl.open, hopen, UartImpl.createFile, UartImpl.opened]

theorem Ledger.open (h : Ledger s) : Ledger (s.open platform results).2 := by
  obtain heq | ⟨hopen, heq | heq | heq⟩ := open_cases platform results s
  · rw [heq]
    exact h
  · rw [heq]
    exact ⟨h.closed, h.obtained, fun hopen' => absurd (hopen.symm.trans hopen') (by simp)⟩
  · have hclose : (s.createFile true).closeHandle =
        { s.createFile true with isOpen := true }.close := by
      simp [UartImpl.close, UartImpl.createFile, UartImpl.closeHandle, hopen]
    rw [heq, hclose]
    exact (h.opened hopen).close
  · rw [heq]
    exact h.opened hopen

theorem Ledger.apply (h : Ledger s) (call : PortCall) : Ledger (call.apply platform s) := by
  cases call with
  | «open» results => exact h.open
  | close => exact h.close

theorem ledger_afterCalls (platform : Platform) (calls : List PortCall) :
    Ledger (afterCalls platform calls) := by
  unfold afterCalls
  induction calls using List.reverseRecOn with
  | nil => exact ledger_init
  | append_singleton calls call ih =>
      rw [List.foldl_append]
      exact ih.apply call

/-! ## The whole life -/

/-- The handles of a port are in balance exactly if it is not open as it is destroyed. -/
theorem accounted_iff (platform : Platform) (calls : List PortCall) :
    Accounted platform calls ↔ (afterCalls platform calls).isOpen = false := by
  have hledger := ledger_afterCalls platform calls
  have hbalance : (afterCalls platform calls).destroy.balance =
      if (afterCalls platform calls).isOpen then 1 else 0 := hledger.balance
  constructor
  · intro h
    rw [h.destroyed] at hbalance
    cases hopen : (afterCalls platform calls).isOpen with
    | false => rfl
    | true => simp [hopen] at hbalance
  · intro hopen
    refine ⟨fun n => (ledger_afterCalls platform _).balance,
      fun n => (ledger_afterCalls platform _).nodup, ?_, hledger.nodup⟩
    rw [hbalance, hopen]
    rfl

/-- A port that is opened and destroyed keeps its handle. -/
theorem destroy_leaks :
    ¬ Accounted .linux [.open ⟨true, true, true, true⟩] ∧
      (afterCalls .linux [.open ⟨true, true, true, true⟩]).destroy.balance = 1 := by
  constructor
  · intro h
    exact absurd h.destroyed (by decide)
  · decide

end CommonLib.Uart
