import CommonLib.Verification.AsyncTcp.RoundTrip
import Mathlib.Data.List.Permutation

/-! # Frames on the wire when sends overlap -/

namespace CommonLib.AsyncTcp

/-- Some bytes of the frame are on the wire and some are not. -/
def Write.PartWay (order : ByteOrder) (w : Write) : Prop :=
  w.rest ≠ [] ∧ w.rest ≠ sendBuffer order w.message

namespace Sender

def messages (s : Sender) : List Bytes := s.writes.map Write.message

/-- The messages whose frames are on the wire completely. -/
def completed (s : Sender) : List Bytes :=
  (s.writes.filter fun w => w.rest.isEmpty).map Write.message

/-- The wire carries whole frames in some order, then at most the beginning of one more; when
nothing is left to write, the peer decodes exactly the messages that were sent. -/
structure FramesWhole (order : ByteOrder) (s : Sender) : Prop where
  stream : ∃ finished tail, s.wire = sendAll order finished ++ tail ∧
    finished.Perm s.completed ∧
    (tail = [] ∨ ∃ w ∈ s.writes, w.rest ≠ [] ∧ sendBuffer order w.message = tail ++ w.rest)
  decoded : (∀ w ∈ s.writes, w.rest = []) →
    (receiveAll order s.wire none).user.received.Perm s.messages

/-- The step keeps to one frame at a time: a message fits in the length header, and the stream
takes no bytes of a write while another write is part way through its frame. -/
def OneAtATime (order : ByteOrder) (s : Sender) : SendAction → Prop
  | .send data => data.length < 2 ^ 32
  | .accept i _ => ∀ (j : ℕ) (w : Write), j ≠ i → s.writes[j]? = some w → ¬ w.PartWay order

/-! ## One step -/

/-- What holds as long as the steps keep to one frame at a time: the wire is whole frames and a
`tail`, which is the beginning of the frame of the only write that is part way. -/
structure InOrder (order : ByteOrder) (s : Sender) (finished : List Bytes) (tail : Bytes) :
    Prop where
  sizes : ∀ w ∈ s.writes, w.message.length < 2 ^ 32
  wire : s.wire = sendAll order finished ++ tail
  perm : finished.Perm s.completed
  current : (tail = [] ∧ ∀ w ∈ s.writes, ¬ w.PartWay order) ∨
    ∃ (i : ℕ) (w : Write), s.writes[i]? = some w ∧ w.rest ≠ [] ∧ tail ≠ [] ∧
      sendBuffer order w.message = tail ++ w.rest ∧
      ∀ (j : ℕ) (w' : Write), j ≠ i → s.writes[j]? = some w' → ¬ w'.PartWay order

theorem step_accept {order : ByteOrder} {s s' : Sender} {i size : ℕ}
    (h : step order s (.accept i size) = some s') :
    ∃ w, s.writes[i]? = some w ∧ 0 < size ∧ size ≤ w.rest.length ∧
      s' = ⟨s.writes.set i { w with rest := w.rest.drop size }, s.wire ++ w.rest.take size⟩ := by
  cases hw : s.writes[i]? with
  | none => simp [step, hw] at h
  | some w =>
      simp only [step, hw] at h
      split at h
      · rename_i hsize
        exact ⟨w, rfl, hsize.1, hsize.2, by simpa using h.symm⟩
      · cases h

/-- Progress of an unfinished write adds its message to the completed ones exactly when nothing
is left of its frame. -/
theorem completed_set {s : Sender} {i : ℕ} {w : Write} (hw : s.writes[i]? = some w)
    (hrest : w.rest ≠ []) (rest wire : Bytes) :
    (⟨s.writes.set i { w with rest := rest }, wire⟩ : Sender).completed.Perm
      (if rest = [] then w.message :: s.completed else s.completed) := by
  obtain ⟨hi, hget⟩ := List.getElem?_eq_some_iff.mp hw
  have hsplit : s.writes = s.writes.take i ++ w :: s.writes.drop (i + 1) := by
    rw [← hget, List.getElem_cons_drop, List.take_append_drop]
  have hset : s.writes.set i { w with rest := rest } =
      s.writes.take i ++ { w with rest := rest } :: s.writes.drop (i + 1) :=
    List.set_eq_take_append_cons_drop.trans (if_pos hi)
  have hold : s.completed = ((s.writes.take i).filter fun w => w.rest.isEmpty).map Write.message ++
      ((s.writes.drop (i + 1)).filter fun w => w.rest.isEmpty).map Write.message := by
    rw [completed]
    conv_lhs => rw [hsplit]
    simp [hrest]
  rw [hold, completed, hset]
  by_cases hempty : rest = []
  · simp [hempty]
  · simp [hempty]

/-- The write that the stream takes bytes of continues what the wire ends with. -/
theorem InOrder.continues {order : ByteOrder} {s : Sender} {finished : List Bytes} {tail : Bytes}
    {i : ℕ} {w : Write} (h : InOrder order s finished tail) (hw : s.writes[i]? = some w)
    (hrest : w.rest ≠ [])
    (hothers : ∀ (j : ℕ) (w : Write), j ≠ i → s.writes[j]? = some w → ¬ w.PartWay order) :
    sendBuffer order w.message = tail ++ w.rest := by
  rcases h.current with ⟨htail, hnone⟩ | ⟨i', w', hw', hrest', htail, hframe, -⟩
  · have hnot := hnone w (List.mem_of_getElem? hw)
    have hfull : w.rest = sendBuffer order w.message := by
      by_contra hne
      exact hnot ⟨hrest, hne⟩
    rw [htail, hfull, List.nil_append]
  · have hi : i' = i := by
      by_contra hne
      refine hothers i' w' hne hw' ⟨hrest', ?_⟩
      rw [hframe]
      simpa using htail
    subst hi
    rw [hw] at hw'
    cases hw'
    exact hframe

theorem InOrder.sizes_set {order : ByteOrder} {s : Sender} {finished : List Bytes} {tail : Bytes}
    {i : ℕ} {w : Write} (h : InOrder order s finished tail) (hw : s.writes[i]? = some w)
    (rest : Bytes) : ∀ x ∈ s.writes.set i { w with rest := rest }, x.message.length < 2 ^ 32 := by
  intro x hx
  rcases List.mem_or_eq_of_mem_set hx with hx | rfl
  · exact h.sizes x hx
  · exact h.sizes w (List.mem_of_getElem? hw)

/-- The writes that the stream takes nothing of stay where they are. -/
theorem OneAtATime.others_set {order : ByteOrder} {s : Sender} {i size : ℕ}
    (hok : OneAtATime order s (.accept i size)) (w : Write) {j : ℕ} {w' : Write} (hj : j ≠ i)
    (hget : (s.writes.set i w)[j]? = some w') : ¬ w'.PartWay order := by
  rw [List.getElem?_set_ne (Ne.symm hj)] at hget
  exact hok j w' hj hget

theorem InOrder.accept {order : ByteOrder} {s s' : Sender} {finished : List Bytes} {tail : Bytes}
    {i size : ℕ} (h : InOrder order s finished tail) (hok : OneAtATime order s (.accept i size))
    (hs : step order s (.accept i size) = some s') :
    ∃ finished' tail', InOrder order s' finished' tail' := by
  obtain ⟨w, hw, hpos, hle, rfl⟩ := step_accept hs
  have hrest : w.rest ≠ [] := by
    intro hnil
    rw [hnil, List.length_nil] at hle
    omega
  have hframe := h.continues hw hrest hok
  have hi : i < s.writes.length := (List.getElem?_eq_some_iff.mp hw).1
  have hsizes := h.sizes_set hw (w.rest.drop size)
  have hperm := completed_set hw hrest (w.rest.drop size) (s.wire ++ w.rest.take size)
  by_cases hdone : w.rest.drop size = []
  · -- the frame is complete: its message joins the finished ones
    have htake : w.rest.take size = w.rest := by
      simpa [hdone] using List.take_append_drop size w.rest
    refine ⟨finished ++ [w.message], [], hsizes, ?_, ?_, .inl ⟨rfl, ?_⟩⟩
    · rw [h.wire, htake, sendAll_append, sendAll_cons, hframe]
      simp
    · rw [if_pos hdone] at hperm
      exact (List.perm_append_singleton _ _).trans ((h.perm.cons _).trans hperm.symm)
    · intro x hx
      obtain ⟨j, hj⟩ := List.mem_iff_getElem?.mp hx
      by_cases hji : j = i
      · subst hji
        rw [List.getElem?_set_self hi] at hj
        cases hj
        exact fun hpart => hpart.1 hdone
      · exact hok.others_set _ hji hj
  · refine ⟨finished, tail ++ w.rest.take size, hsizes, ?_, ?_,
      .inr ⟨i, _, List.getElem?_set_self hi, hdone, ?_, ?_, fun _ _ => hok.others_set _⟩⟩
    · rw [h.wire, List.append_assoc]
    · rw [if_neg hdone] at hperm
      exact h.perm.trans hperm.symm
    · simp only [ne_eq, List.append_eq_nil_iff, List.take_eq_nil_iff, not_and, not_or]
      exact fun _ => ⟨by omega, hrest⟩
    · rw [hframe, List.append_assoc, List.take_append_drop]

theorem InOrder.send {order : ByteOrder} {s : Sender} {finished : List Bytes} {tail data : Bytes}
    (h : InOrder order s finished tail) (hdata : data.length < 2 ^ 32) :
    InOrder order { s with writes := s.writes ++ [⟨data, sendBuffer order data⟩] } finished tail := by
  have hfresh : sendBuffer order data ≠ [] := by
    rw [← List.length_pos_iff, length_sendBuffer]
    omega
  refine ⟨?_, h.wire, ?_, ?_⟩
  · intro w hw
    rcases List.mem_append.mp hw with hw | hw
    · exact h.sizes w hw
    · rw [List.mem_singleton.mp hw]
      exact hdata
  · simpa [completed, hfresh] using h.perm
  · rcases h.current with ⟨htail, hnone⟩ | ⟨i, w, hw, hrest, htail, hframe, hother⟩
    · refine .inl ⟨htail, ?_⟩
      intro w hw
      rcases List.mem_append.mp hw with hw | hw
      · exact hnone w hw
      · rw [List.mem_singleton.mp hw]
        exact fun hpart => hpart.2 rfl
    · refine .inr ⟨i, w, ?_, hrest, htail, hframe, ?_⟩
      · rw [List.getElem?_append_left (List.getElem?_eq_some_iff.mp hw).1]
        exact hw
      · intro j w' hj hget
        rcases Nat.lt_or_ge j s.writes.length with hlt | hge
        · rw [List.getElem?_append_left hlt] at hget
          exact hother j w' hj hget
        · rw [List.getElem?_append_right hge] at hget
          have hw' : w' = ⟨data, sendBuffer order data⟩ := by
            rcases List.mem_singleton.mp (List.mem_of_getElem? hget) with rfl
            rfl
          rw [hw']
          exact fun hpart => hpart.2 rfl

/-! ## Every run -/

theorem Reaches.inOrder {order : ByteOrder} {s : Sender}
    (h : (machine order).Reaches (OneAtATime order) s) :
    ∃ finished tail, InOrder order s finished tail := by
  refine h.invariant (P := fun s => ∃ finished tail, InOrder order s finished tail) ?_ ?_
  · exact ⟨[], [], by simp [machine], rfl, .refl _, .inl ⟨rfl, by simp [machine]⟩⟩
  · rintro s a s' ⟨finished, tail, hs⟩ hok hstep
    cases a with
    | send data =>
        cases hstep
        exact ⟨finished, tail, hs.send hok⟩
    | accept i size => exact hs.accept hok hstep

/-- In every run that keeps to one frame at a time the frames stay whole. -/
theorem framesWhole_of_oneAtATime (order : ByteOrder) (s : Sender)
    (h : (machine order).Reaches (OneAtATime order) s) : FramesWhole order s := by
  obtain ⟨finished, tail, hs⟩ := Reaches.inOrder h
  refine ⟨⟨finished, tail, hs.wire, hs.perm, ?_⟩, ?_⟩
  · rcases hs.current with ⟨htail, -⟩ | ⟨i, w, hw, hrest, -, hframe, -⟩
    · exact .inl htail
    · exact .inr ⟨w, List.mem_of_getElem? hw, hrest, hframe⟩
  · intro hall
    have hcompleted : s.completed = s.messages := by
      rw [completed, messages, List.filter_eq_self.mpr]
      intro w hw
      simp [hall w hw]
    have htail : tail = [] := by
      rcases hs.current with ⟨htail, -⟩ | ⟨i, w, hw, hrest, -⟩
      · exact htail
      · exact absurd (hall w (List.mem_of_getElem? hw)) hrest
    have hperm : finished.Perm s.messages := hcompleted ▸ hs.perm
    have hsize : ∀ m ∈ finished, m.length < 2 ^ 32 := by
      intro m hm
      obtain ⟨w, hw, rfl⟩ := List.mem_map.mp (hperm.mem_iff.mp hm)
      exact hs.sizes w hw
    have hreceived : (receiveAll order s.wire none).user.received = finished := by
      rw [hs.wire, htail, receiveAll, drain_recorder order hsize, Receiver.armed,
        drain_open order recorder (.inl ⟨rfl, rfl⟩) (by simp)]
      simp
    rw [hreceived]
    exact hperm

/-- The second frame goes out in two pieces, then the first one in one piece. -/
theorem framesWhole_two_sends :
    FramesWhole .little ⟨[⟨[1], []⟩, ⟨[2], []⟩], [1, 0, 0, 0, 2, 1, 0, 0, 0, 1]⟩ := by
  apply framesWhole_of_oneAtATime .little _
  have h₂ : (machine .little).Reaches (OneAtATime .little)
      ⟨[⟨[1], [1, 0, 0, 0, 1]⟩, ⟨[2], [1, 0, 0, 0, 2]⟩], []⟩ :=
    .step (a := .send [2]) (.step (a := .send [1]) .init (by simp [OneAtATime]) rfl)
      (by simp [OneAtATime]) rfl
  have h₃ : (machine .little).Reaches (OneAtATime .little)
      ⟨[⟨[1], [1, 0, 0, 0, 1]⟩, ⟨[2], [0, 0, 2]⟩], [1, 0]⟩ := by
    refine .step (a := .accept 1 2) h₂ ?_ rfl
    rintro (_ | _ | j) w hj hw <;> simp at hj hw
    subst hw
    exact fun hpart => hpart.2 rfl
  have h₄ : (machine .little).Reaches (OneAtATime .little)
      ⟨[⟨[1], [1, 0, 0, 0, 1]⟩, ⟨[2], []⟩], [1, 0, 0, 0, 2]⟩ := by
    refine .step (a := .accept 1 3) h₃ ?_ rfl
    rintro (_ | _ | j) w hj hw <;> simp at hj hw
    subst hw
    exact fun hpart => hpart.2 rfl
  refine .step (a := .accept 0 5) h₄ ?_ rfl
  rintro (_ | _ | j) w hj hw <;> simp at hj hw
  subst hw
  exact fun hpart => hpart.1 rfl

/-- Two overlapping sends of one byte each: the second frame lands inside the header of the
first, and the peer waits for a message of 257 bytes. -/
theorem overlapping_sends_mix_frames :
    ∃ s, (machine .little).run (machine .little).init
        [.send [1], .send [2], .accept 0 1, .accept 1 5, .accept 0 4] = some s ∧
      (∀ w ∈ s.writes, w.rest = []) ∧
      (∀ finished, finished.Perm s.messages → s.wire ≠ sendAll .little finished) ∧
      (receiveAll .little s.wire none).user.received = [] ∧ ¬ FramesWhole .little s := by
  refine ⟨_, rfl, by decide, ?_, by decide, ?_⟩
  · intro finished hperm
    have hall : ∀ finished ∈ [[1], [2]].permutations',
        [1, 1, 0, 0, 0, 2, 0, 0, 0, 1] ≠ sendAll .little finished := by decide
    exact hall finished (List.mem_permutations'.mpr hperm)
  · intro hwhole
    have hperm := (hwhole.decoded (by decide)).length_eq
    exact absurd hperm (by decide)

end Sender

end CommonLib.AsyncTcp
