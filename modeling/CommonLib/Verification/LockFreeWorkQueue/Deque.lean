import CommonLib.Verification.LockFreeWorkQueue.Ring

/-! # The queue as a double-ended list

One thread at a time sees a double-ended list, unless its first `pop` comes before its first `push`:
`pop` takes one from `_bottom` before it looks whether there is anything to take. -/

namespace CommonLib.LockFreeWorkQueue

variable {T : Type*}

/-! ## The list -/

/-- What an operation reports, and the list behind it. The newest item is at the end. -/
def performList (l : List T) : Op T → Option T × List T
  | .push item => (none, l ++ [item])
  | .pop => (l.getLast?, l.dropLast)
  | .steal => (l.head?, l.tail)

/-- No `pop` comes before the first `push`. -/
def PushFirst : List (Op T) → Prop
  | [] => True
  | .push _ :: _ => True
  | .pop :: _ => False
  | .steal :: ops => PushFirst ops

namespace Queue

/-- What is in the slots from `_top` to `_bottom - 1`. -/
def contents (q : Queue T) : List (Option T) :=
  slice q.array.slot q.top q.bottom

structure Agrees (q : Queue T) (l : List T) : Prop where
  contents : q.contents = l.map some
  size : q.size = l.length
  empty : q.empty = true ↔ l = []

/-- The index that the operation writes is below `2 ^ 64`. -/
def Fits (q : Queue T) : Op T → Prop
  | .push _ => q.bottom + 1 < 2 ^ 64
  | _ => True

/-- The queue agrees with the list before and after each operation, and each operation reports what
it reports for the list. Only a `push` to an array of the largest size does not complete. -/
def Behaves (q : Queue T) (l : List T) : List (Op T) → Prop
  | [] => q.Agrees l
  | op :: ops => q.Agrees l ∧ (q.Fits op →
      match q.perform op with
      | .ok (report, q') =>
          report = (performList l op).1.map some ∧ q'.Behaves (performList l op).2 ops
      | .error failure => failure = .badArrayNewLength ∧ q.array.size = 2 ^ 62)

/-! ## The invariant -/

structure Valid (q : Queue T) : Prop where
  le : q.top ≤ q.bottom
  bound : q.bottom < 2 ^ 64
  size : IsSize q.array.size
  room : q.bottom - q.top ≤ q.array.threshold

theorem distance_eq {bottom top : ℕ} (hle : top ≤ bottom) (hbound : bottom < 2 ^ 64) :
    distance bottom top = bottom - top := by
  rw [distance]
  omega

variable {q : Queue T} {l : List T}

theorem Valid.agrees (h : q.Valid) (hl : q.contents = l.map some) : q.Agrees l := by
  have hlength : q.bottom - q.top = l.length := by
    rw [← length_slice (f := q.array.slot), ← List.length_map (some : T → Option T), ← hl,
      contents]
  refine ⟨hl, ?_, ?_⟩
  · rw [Queue.size, if_pos h.le, distance_eq h.le h.bound, hlength]
  · rw [Queue.empty, decide_eq_true_iff, ← Nat.sub_eq_zero_iff_le, hlength, List.length_eq_zero_iff]

/-! ## One operation -/

/-- `push` puts the item behind what is there, and grows the array before it is full. -/
theorem push_spec (h : q.Valid) (hfits : q.bottom + 1 < 2 ^ 64) (item : T) :
    (∃ q', q.push item = .ok q' ∧ q'.Valid ∧ 0 < q'.bottom ∧
      q'.contents = q.contents ++ [some item]) ∨
    q.push item = .error .badArrayNewLength ∧ q.array.size = 2 ^ 62 := by
  have hbottom : (q.bottom + 1) % 2 ^ 64 = q.bottom + 1 := Nat.mod_eq_of_lt hfits
  have hlt := CircularArray.threshold_lt h.size
  have hroom := h.room
  have hle := h.le
  -- The array that is written to: the old one, or a larger copy of it.
  have hwrite : ∀ array : CircularArray T, IsSize array.size →
      q.bottom - q.top < array.threshold → CircularArray.Copied q.array array q.top q.bottom →
      ({ q with array := array.write q.bottom (some item), bottom := q.bottom + 1 } :
        Queue T).Valid ∧
      slice (array.write q.bottom (some item)).slot q.top (q.bottom + 1) =
        q.contents ++ [some item] := by
    intro array hsize hfree hcopied
    refine ⟨⟨Nat.le_succ_of_le h.le, hfits, hsize, ?_⟩, ?_⟩
    · simpa using by omega
    · rw [slice_concat h.le, CircularArray.slot_write_self, contents]
      congr 1
      refine slice_congr fun i hlo hhi => ?_
      have hplaces := CircularArray.threshold_lt hsize
      rw [CircularArray.slot_write_of_lt _ hhi (by omega)]
      exact hcopied i hlo hhi
  by_cases hgrow : q.array.threshold ≤ distance q.bottom q.top
  · have hplaces : q.bottom ≤ q.top + q.array.size := by omega
    have hresize := CircularArray.resize_spec h.size h.le hplaces
    rcases hresize with ⟨array, hresize, hsize, hdouble, hcopied⟩ | ⟨hresize, hmax⟩
    · have hmore := CircularArray.threshold_lt_doubled h.size hsize hdouble
      obtain ⟨hvalid, hcontents⟩ := hwrite array hsize (by omega) hcopied
      refine .inl ⟨_, ?_, hvalid, Nat.succ_pos _, hcontents⟩
      simp only [push, if_pos hgrow, hresize, bind, Except.bind, pure, Except.pure,
        CircularArray.put_eq hsize.pos.ne', hbottom]
    · refine .inr ⟨?_, hmax⟩
      simp only [push, if_pos hgrow, hresize, bind, Except.bind]
  · rw [distance_eq h.le h.bound, Nat.not_le] at hgrow
    obtain ⟨hvalid, hcontents⟩ := hwrite q.array h.size hgrow fun _ _ _ => rfl
    refine .inl ⟨_, ?_, hvalid, Nat.succ_pos _, hcontents⟩
    rw [← distance_eq h.le h.bound, ← Nat.not_le] at hgrow
    simp only [push, if_neg hgrow, bind, Except.bind, pure, Except.pure,
      CircularArray.put_eq h.size.pos.ne', hbottom]

/-- The compare-exchange and the two stores of `_bottom` leave an empty queue as it was. -/
theorem pop_of_empty (h : q.Valid) (hpos : 0 < q.bottom) (hempty : q.bottom ≤ q.top) :
    q.pop = .ok (none, q) := by
  have hdec : distance q.bottom 1 = q.bottom - 1 := distance_eq hpos h.bound
  have hnext : (q.bottom - 1 + 1) % 2 ^ 64 = q.bottom := by
    rw [Nat.sub_add_cancel hpos, Nat.mod_eq_of_lt h.bound]
  simp only [pop, hdec]
  rw [if_neg (by omega), hnext]
  rfl

theorem pop_of_last (h : q.Valid) (hone : q.bottom = q.top + 1) :
    q.pop = .ok (some (q.array.slot q.top), { q with top := q.bottom }) := by
  have hdec : distance q.bottom 1 = q.top := by
    rw [distance_eq (by omega) h.bound, hone, Nat.add_sub_cancel]
  have hnext : (q.top + 1) % 2 ^ 64 = q.bottom := by
    rw [← hone, Nat.mod_eq_of_lt h.bound]
  simp only [pop, hdec, if_pos le_rfl, CircularArray.get_eq h.size.pos.ne', hnext]
  rfl

theorem pop_of_more (h : q.Valid) {bottom : ℕ} (hbottom : q.bottom = bottom + 1)
    (hmore : q.top < bottom) :
    q.pop = .ok (some (q.array.slot bottom), { q with bottom := bottom }) := by
  have hdec : distance q.bottom 1 = bottom := by
    rw [distance_eq (by omega) h.bound, hbottom, Nat.add_sub_cancel]
  simp only [pop, hdec, if_pos hmore.le, CircularArray.get_eq h.size.pos.ne',
    bind, Except.bind]
  rw [if_neg hmore.ne]
  rfl

/-- `pop` takes the newest item, once there has been a `push`. -/
theorem pop_spec (h : q.Valid) (hpos : 0 < q.bottom) (hl : q.contents = l.map some) :
    ∃ q', q.pop = .ok (l.getLast?.map some, q') ∧ q'.Valid ∧ 0 < q'.bottom ∧
      q'.contents = l.dropLast.map some := by
  have hroom := h.room
  have hbound := h.bound
  have hlast : l.getLast?.map some = q.contents.getLast? := by
    rw [hl, List.getLast?_map]
  rw [hlast, List.map_dropLast, ← hl]
  rcases Nat.lt_or_ge q.top q.bottom with hitems | hempty
  · obtain ⟨bottom, hbottom⟩ := Nat.exists_eq_add_one_of_ne_zero hpos.ne'
    have hcontents : q.contents = slice q.array.slot q.top bottom ++ [q.array.slot bottom] := by
      rw [contents, hbottom, slice_concat (by omega)]
    rw [hcontents, List.getLast?_concat, List.dropLast_concat]
    rcases Nat.lt_or_ge q.top bottom with hmore | hone
    · refine ⟨_, pop_of_more h hbottom hmore, ⟨hmore.le, ?_, h.size, ?_⟩, by simp; omega, rfl⟩
      · simp
        omega
      · simp
        omega
    · obtain rfl : q.top = bottom := by omega
      refine ⟨_, pop_of_last h hbottom, ⟨le_rfl, h.bound, h.size, by simp⟩, hpos, ?_⟩
      rw [contents, slice_self, slice_self]
  · refine ⟨q, ?_, h, hpos, ?_⟩
    · rw [pop_of_empty h hpos hempty, contents, slice_eq_nil_iff.mpr hempty]
      rfl
    · rw [contents, slice_eq_nil_iff.mpr hempty]
      rfl

theorem steal_of_empty (hempty : q.bottom ≤ q.top) : q.steal = .ok (none, q) :=
  if_neg (Nat.not_lt.mpr hempty)

/-- `steal` takes the oldest item. -/
theorem steal_spec (h : q.Valid) (hl : q.contents = l.map some) :
    ∃ q', q.steal = .ok (l.head?.map some, q') ∧ q'.Valid ∧ q'.bottom = q.bottom ∧
      q'.contents = l.tail.map some := by
  have hroom := h.room
  have hbound := h.bound
  have hhead : l.head?.map some = q.contents.head? := by
    rw [hl, List.head?_map]
  rw [hhead, List.map_tail, ← hl]
  rcases Nat.lt_or_ge q.top q.bottom with hitems | hempty
  · have hnext : (q.top + 1) % 2 ^ 64 = q.top + 1 := Nat.mod_eq_of_lt (by omega)
    refine ⟨{ q with top := q.top + 1 }, ?_, ⟨hitems, h.bound, h.size, ?_⟩, rfl, ?_⟩
    · simp only [steal, if_pos hitems, CircularArray.get_eq h.size.pos.ne', hnext, contents,
        slice_cons hitems]
      rfl
    · simp
      omega
    · rw [contents, contents, slice_cons hitems]
      rfl
  · refine ⟨q, ?_, h, rfl, ?_⟩
    · rw [steal_of_empty hempty, contents, slice_eq_nil_iff.mpr hempty]
      rfl
    · rw [contents, slice_eq_nil_iff.mpr hempty]
      rfl

/-! ## Sequences of operations -/

/-- Once there has been a `push`, the queue is a double-ended list for ever. -/
theorem behaves_of_pos (h : q.Valid) (hpos : 0 < q.bottom) (hl : q.contents = l.map some)
    (ops : List (Op T)) : q.Behaves l ops := by
  induction ops generalizing q l with
  | nil => exact h.agrees hl
  | cons op ops ih =>
      refine ⟨h.agrees hl, fun hfits => ?_⟩
      cases op with
      | push item =>
          rcases push_spec h hfits item with ⟨q', hpush, hvalid, hpos', hcontents⟩ | ⟨hpush, hmax⟩
          · simp only [perform, hpush]
            exact ⟨rfl, ih hvalid hpos' (by rw [hcontents, hl, performList, List.map_append]; rfl)⟩
          · simp only [perform, hpush]
            exact ⟨rfl, hmax⟩
      | pop =>
          obtain ⟨q', hpop, hvalid, hpos', hcontents⟩ := pop_spec h hpos hl
          simp only [perform, hpop]
          exact ⟨rfl, ih hvalid hpos' hcontents⟩
      | steal =>
          obtain ⟨q', hsteal, hvalid, hbottom, hcontents⟩ := steal_spec h hl
          simp only [perform, hsteal]
          exact ⟨rfl, ih hvalid (hbottom ▸ hpos) hcontents⟩

/-- Before the first `push`, `pop` takes a slot that nothing has been put into. -/
theorem pop_of_fresh (h : q.Valid) (hbottom : q.bottom = 0) :
    ∃ slot q', q.pop = .ok (some slot, q') := by
  have htop : q.top = 0 := Nat.le_zero.mp (hbottom ▸ h.le)
  have hdec : distance q.bottom 1 = 2 ^ 64 - 1 := by
    rw [hbottom]
    rfl
  refine ⟨q.array.slot (2 ^ 64 - 1), { q with bottom := 2 ^ 64 - 1 }, ?_⟩
  simp only [pop, hdec, htop, CircularArray.get_eq h.size.pos.ne']
  rfl

theorem behaves_iff_of_fresh (h : q.Valid) (hbottom : q.bottom = 0) (ops : List (Op T)) :
    q.Behaves [] ops ↔ PushFirst ops := by
  have hempty : q.bottom ≤ q.top := hbottom ▸ Nat.zero_le _
  have hcontents : q.contents = ([] : List T).map some := slice_eq_nil_iff.mpr hempty
  induction ops with
  | nil => exact iff_of_true (h.agrees hcontents) trivial
  | cons op ops ih =>
      cases op with
      | push item =>
          refine iff_of_true ⟨h.agrees hcontents, fun hfits => ?_⟩ trivial
          rcases push_spec h hfits item with ⟨q', hpush, hvalid, hpos', hnew⟩ | ⟨hpush, hmax⟩
          · simp only [perform, hpush]
            exact ⟨rfl, behaves_of_pos hvalid hpos' (by rw [hnew, hcontents]; rfl) ops⟩
          · simp only [perform, hpush]
            exact ⟨rfl, hmax⟩
      | pop =>
          refine iff_of_false ?_ not_false
          rintro ⟨-, hperform⟩
          obtain ⟨slot, q', hpop⟩ := pop_of_fresh h hbottom
          have hreport := hperform trivial
          simp only [perform, hpop] at hreport
          cases hreport.1
      | steal =>
          refine Iff.trans ?_ ih
          simp only [Behaves, perform, steal_of_empty hempty]
          constructor
          · rintro ⟨-, hperform⟩
            exact (hperform trivial).2
          · intro hrest
            exact ⟨h.agrees hcontents, fun _ => ⟨rfl, hrest⟩⟩

theorem new_spec {initialSize : ℕ} (hsize : initialSize ≤ 2 ^ 62) :
    ∃ q : Queue T, new initialSize = .ok q ∧ q.Valid ∧ q.bottom = 0 := by
  have hpower := isSize_nextPowerOf2 hsize
  have hlt : nextPowerOf2 initialSize < 2 ^ 63 := Nat.lt_of_le_of_lt hpower.le (by decide)
  refine ⟨⟨0, 0, ⟨nextPowerOf2 initialSize, fun _ => none⟩⟩, ?_,
    ⟨le_rfl, Nat.two_pow_pos 64, hpower, Nat.zero_le _⟩, rfl⟩
  rw [new, CircularArray.new, if_pos hlt]
  rfl

/-- A new queue behaves as a double-ended list through exactly those sequences of operations that
have no `pop` before the first `push`. -/
theorem behaves_iff_pushFirst (T : Type*) (initialSize : ℕ) (hsize : initialSize ≤ 2 ^ 62) :
    ∃ q : Queue T, new initialSize = .ok q ∧ ∀ ops, q.Behaves [] ops ↔ PushFirst ops := by
  obtain ⟨q, hnew, hvalid, hbottom⟩ := new_spec (T := T) hsize
  exact ⟨q, hnew, behaves_iff_of_fresh hvalid hbottom⟩

theorem behaves_push_steal_pop :
    ∃ q : Queue ℕ, new 256 = .ok q ∧
      q.Behaves [] [.steal, .push 5, .push 6, .steal, .pop, .pop] := by
  obtain ⟨q, hnew, hbehaves⟩ := behaves_iff_pushFirst ℕ 256 (by decide)
  exact ⟨q, hnew, (hbehaves _).mpr trivial⟩

/-- `pop` on a new queue returns `true` with whatever slot 255 holds, and the queue seems to have
`2 ^ 64 - 1` items then. -/
theorem fresh_pop_returns_true :
    ∃ q q' : Queue ℕ, new 256 = .ok q ∧ q.pop = .ok (some none, q') ∧ q.size = 0 ∧
      q'.size = 2 ^ 64 - 1 ∧ ¬ q.Behaves [] [.pop] := by
  refine ⟨⟨0, 0, ⟨256, fun _ => none⟩⟩, ⟨0, 2 ^ 64 - 1, ⟨256, fun _ => none⟩⟩, rfl, rfl, rfl,
    by decide, ?_⟩
  rintro ⟨-, hperform⟩
  cases (hperform trivial).1

end Queue

end CommonLib.LockFreeWorkQueue
