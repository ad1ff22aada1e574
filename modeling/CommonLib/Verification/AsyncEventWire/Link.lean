import CommonLib.Model.AsyncEventWire
import CommonLib.Verification.AsyncTcp.Receive

/-! # A link carries frames

As long as a socket works off its writes in the order in which they were started, the bytes that
the receive loop has still to read are the frames that it has not taken. -/

namespace CommonLib.AsyncTcp.Sender

/-- The writes started before the one with number `i` are done. -/
def InTurn (s : Sender) (i : ℕ) : Prop :=
  ∀ w ∈ s.writes.take i, w.rest = []

/-- The bytes that the stream has still to accept. -/
def unsent (s : Sender) : Bytes :=
  (s.writes.map Write.rest).flatten

theorem unsent_eq_of_inTurn {s : Sender} {i : ℕ} {w : Write} (h : s.InTurn i)
    (hw : s.writes[i]? = some w) :
    s.unsent = w.rest ++ ((s.writes.drop (i + 1)).map Write.rest).flatten := by
  obtain ⟨hi, hget⟩ := List.getElem?_eq_some_iff.mp hw
  have hsplit : s.writes = s.writes.take i ++ w :: s.writes.drop (i + 1) := by
    rw [← hget, List.getElem_cons_drop, List.take_append_drop]
  have hdone : ((s.writes.take i).map Write.rest).flatten = [] := by
    rw [List.flatten_eq_nil_iff]
    intro rest hrest
    obtain ⟨x, hx, rfl⟩ := List.mem_map.mp hrest
    exact h x hx
  rw [unsent]
  conv_lhs => rw [hsplit]
  rw [List.map_append, List.flatten_append, hdone, List.nil_append, List.map_cons,
    List.flatten_cons]

/-- The stream only moves bytes from the writes to the wire. -/
theorem accept_stream {order : ByteOrder} {s s' : Sender} {i size : ℕ} (h : s.InTurn i)
    (hs : s.step order (.accept i size) = some s') :
    s'.wire ++ s'.unsent = s.wire ++ s.unsent ∧ s.wire <+: s'.wire := by
  simp only [step] at hs
  cases hw : s.writes[i]? with
  | none => simp [hw] at hs
  | some w =>
      simp only [hw] at hs
      split at hs
      · cases hs
        have hi : i < s.writes.length := (List.getElem?_eq_some_iff.mp hw).1
        have hturn : Sender.InTurn
            ⟨s.writes.set i { w with rest := w.rest.drop size }, s.wire ++ w.rest.take size⟩ i := by
          intro x hx
          rw [List.take_set_of_le (le_refl i)] at hx
          exact h x hx
        refine ⟨?_, List.prefix_append _ _⟩
        rw [unsent_eq_of_inTurn hturn (List.getElem?_set_self hi), unsent_eq_of_inTurn h hw]
        simp only [List.drop_set_of_lt (Nat.lt_succ_self i), List.append_assoc]
        rw [← List.append_assoc (w.rest.take size), List.take_append_drop]
      · cases hs

end CommonLib.AsyncTcp.Sender

namespace CommonLib.AsyncEventTransport

open AsyncTcp

namespace Link

/-- The bytes that the receive loop has still to read, wherever they are. -/
def ahead (l : Link) : Bytes :=
  l.incoming.bytes ++ (l.sender.wire.drop l.arrived ++ l.sender.unsent)

/-- What is ahead of a receive loop that has taken `n` of the messages. -/
def Expects (order : ByteOrder) (messages : List Bytes) (n : ℕ) (bytes : Bytes) : Phase → Prop
  | .header => bytes = sendAll order (messages.drop n)
  | .payload size => ∃ raw, messages[n]? = some raw ∧ size = raw.length ∧
      bytes = raw ++ sendAll order (messages.drop (n + 1))
  | .stopped => True

/-- Of the messages handed to `send`, the receive loop has taken the first `n`. -/
structure Carries (order : ByteOrder) (messages : List Bytes) (n : ℕ) (l : Link) : Prop where
  arrived : l.arrived ≤ l.sender.wire.length
  count : n ≤ messages.length
  expects : Expects order messages n l.ahead l.phase

theorem carries_init (order : ByteOrder) : init.Carries order [] 0 :=
  ⟨Nat.zero_le _, Nat.zero_le _, rfl⟩

/-! ## Sending -/

theorem ahead_send (order : ByteOrder) (l : Link) (frames : List Bytes) :
    (l.send order frames).ahead = l.ahead ++ sendAll order frames := by
  have hframes : (frames.map fun frame => sendBuffer order frame).flatten = sendAll order frames :=
    rfl
  simp only [ahead, send, Sender.unsent, List.map_append, List.flatten_append, List.map_map,
    List.append_assoc]
  rw [← hframes]
  rfl

theorem Carries.send {order : ByteOrder} {messages : List Bytes} {n : ℕ} {l : Link}
    (h : l.Carries order messages n) (frames : List Bytes) :
    (l.send order frames).Carries order (messages ++ frames) n := by
  have hcount : n ≤ (messages ++ frames).length := by
    rw [List.length_append]
    exact h.count.trans (Nat.le_add_right _ _)
  refine ⟨h.arrived, hcount, ?_⟩
  have hexpects := h.expects
  rw [ahead_send]
  change Expects order (messages ++ frames) n _ l.phase
  cases hphase : l.phase with
  | header =>
      rw [hphase] at hexpects
      change l.ahead = _ at hexpects
      change _ = sendAll order ((messages ++ frames).drop n)
      rw [hexpects, List.drop_append_of_le_length h.count, sendAll_append]
  | payload size =>
      rw [hphase] at hexpects
      obtain ⟨raw, hraw, hsize, hbytes⟩ := hexpects
      have hlt : n < messages.length := (List.getElem?_eq_some_iff.mp hraw).1
      refine ⟨raw, ?_, hsize, ?_⟩
      · rw [List.getElem?_append_left hlt]
        exact hraw
      · rw [hbytes, List.drop_append_of_le_length hlt, sendAll_append, List.append_assoc]
  | stopped => trivial

/-! ## The network -/

/-- The network moves bytes and loses none of those that are ahead. -/
theorem step_ahead {order : ByteOrder} {l l' : Link} {a : LinkAction} (h : l.step order a = some l')
    (hturn : ∀ i size, a = .accept i size → l.sender.InTurn i)
    (harrived : l.arrived ≤ l.sender.wire.length) :
    l'.ahead = l.ahead ∧ l'.phase = l.phase ∧ l'.arrived ≤ l'.sender.wire.length := by
  cases a with
  | accept i size =>
      obtain ⟨sender, hsender, rfl⟩ := Option.map_eq_some_iff.mp h
      obtain ⟨hstream, hwire⟩ := Sender.accept_stream (hturn i size rfl) hsender
      have hrest : sender.wire.drop l.arrived ++ sender.unsent =
          l.sender.wire.drop l.arrived ++ l.sender.unsent := by
        rw [← List.drop_append_of_le_length (harrived.trans hwire.length_le), hstream,
          List.drop_append_of_le_length harrived]
      exact ⟨congrArg (l.incoming.bytes ++ ·) hrest, rfl, harrived.trans hwire.length_le⟩
  | arrive size =>
      simp only [step] at h
      split at h
      · rename_i hsize
        cases h
        refine ⟨?_, rfl, hsize.2⟩
        have hrest : l.sender.wire.drop l.arrived =
            (l.sender.wire.drop l.arrived).take size ++ l.sender.wire.drop (l.arrived + size) := by
          rw [← List.drop_drop, List.take_append_drop]
        simp only [ahead]
        conv_rhs => rw [hrest]
        simp only [List.append_assoc]
      · cases h
  | fail ec =>
      simp only [step] at h
      split at h
      · cases h
        exact ⟨rfl, rfl, harrived⟩
      · cases h

theorem Carries.step {order : ByteOrder} {messages : List Bytes} {n : ℕ} {l l' : Link}
    {a : LinkAction} (hl : l.Carries order messages n) (h : l.step order a = some l')
    (hturn : ∀ i size, a = .accept i size → l.sender.InTurn i) : l'.Carries order messages n := by
  obtain ⟨hahead, hphase, harrived⟩ := step_ahead h hturn hl.arrived
  refine ⟨harrived, hl.count, ?_⟩
  rw [hahead, hphase]
  exact hl.expects

/-! ## Reading -/

/-- A read takes the next bytes of what is ahead. -/
theorem asyncRead_ok {l : Link} {size : ℕ} {data : Bytes} {rest : Incoming}
    (h : asyncRead size l.incoming = .ok data rest) (phase : Phase) :
    data = l.ahead.take size ∧
      ({ l with incoming := rest, phase := phase } : Link).ahead = l.ahead.drop size := by
  simp only [asyncRead] at h
  split at h
  · rename_i hsize
    cases h
    simp only [ahead]
    rw [List.take_append_of_le_length hsize, List.drop_append_of_le_length hsize]
    exact ⟨rfl, rfl⟩
  · split at h <;> cases h

theorem ofBytes_sendBuffer (order : ByteOrder) {raw : Bytes} (h : raw.length < 2 ^ 32)
    (rest : Bytes) :
    order.ofBytes ((sendBuffer order raw ++ rest).take 4) = raw.length ∧
      (sendBuffer order raw ++ rest).drop 4 = raw ++ rest := by
  have hheader : (order.toBytes 4 (raw.length % 2 ^ 32)).length = 4 := order.length_toBytes _ _
  rw [sendBuffer, List.append_assoc, List.take_append_of_le_length hheader.ge,
    List.drop_append_of_le_length hheader.ge, List.take_of_length_le hheader.le,
    List.drop_of_length_le hheader.le, order.ofBytes_toBytes, Nat.mod_eq_of_lt h]
  exact ⟨Nat.mod_eq_of_lt h, rfl⟩

/-- What a completed read makes of a link that carries short messages. -/
def Taken (order : ByteOrder) (messages : List Bytes) (n : ℕ) (l : Link) : Completion → Prop
  | .header | .failed => l.Carries order messages n
  | .message raw => messages[n]? = some raw ∧ l.Carries order messages (n + 1)

theorem Carries.header {order : ByteOrder} {messages : List Bytes} {n : ℕ} {l : Link}
    {data : Bytes} {rest : Incoming} (hl : l.Carries order messages n) (hphase : l.phase = .header)
    (hshort : ∀ raw ∈ messages, raw.length < 2 ^ 32) (h : asyncRead 4 l.incoming = .ok data rest) :
    ({ l with incoming := rest, phase := .payload (order.ofBytes data) } : Link).Carries order
      messages n := by
  obtain ⟨hdata, hahead⟩ := asyncRead_ok h (.payload (order.ofBytes data))
  refine ⟨hl.arrived, hl.count, ?_⟩
  have hexpects := hl.expects
  rw [hphase] at hexpects
  change l.ahead = sendAll order (messages.drop n) at hexpects
  rw [hahead]
  rcases Nat.lt_or_ge n messages.length with hlt | hge
  · have hsplit : messages.drop n = messages[n] :: messages.drop (n + 1) :=
      List.drop_eq_getElem_cons hlt
    have hraw : messages[n].length < 2 ^ 32 := hshort _ (List.getElem_mem hlt)
    rw [hsplit, sendAll_cons] at hexpects
    obtain ⟨hsize, hrest⟩ :=
      ofBytes_sendBuffer order hraw (sendAll order (messages.drop (n + 1)))
    refine ⟨messages[n], List.getElem?_eq_getElem hlt, ?_, ?_⟩
    · rw [hdata, hexpects]
      exact hsize
    · rw [hexpects]
      exact hrest
  · -- nothing is ahead, so that four bytes cannot be read
    rw [List.drop_of_length_le hge] at hexpects
    have hlen : 4 ≤ l.incoming.bytes.length := by
      by_contra hlt
      simp only [asyncRead, if_neg hlt] at h
      split at h <;> cases h
    have hnil : l.incoming.bytes = [] := (List.append_eq_nil_iff.mp hexpects).1
    rw [hnil, List.length_nil] at hlen
    omega

theorem Carries.payload {order : ByteOrder} {messages : List Bytes} {n size : ℕ} {l : Link}
    {data : Bytes} {rest : Incoming} (hl : l.Carries order messages n)
    (hphase : l.phase = .payload size) (h : asyncRead size l.incoming = .ok data rest) :
    messages[n]? = some data ∧
      ({ l with incoming := rest, phase := .header } : Link).Carries order messages (n + 1) := by
  obtain ⟨hdata, hahead⟩ := asyncRead_ok h .header
  have hexpects := hl.expects
  rw [hphase] at hexpects
  obtain ⟨raw, hraw, hsize, hbytes⟩ := hexpects
  have hlt : n < messages.length := (List.getElem?_eq_some_iff.mp hraw).1
  have heq : data = raw := by
    rw [hdata, hbytes, hsize, List.take_left]
  refine ⟨heq ▸ hraw, hl.arrived, hlt, ?_⟩
  rw [hahead, hbytes, hsize, List.drop_left]
  rfl

theorem Carries.complete {order : ByteOrder} {messages : List Bytes} {n : ℕ} {l l' : Link}
    {completion : Completion} (hl : l.Carries order messages n)
    (hshort : ∀ raw ∈ messages, raw.length < 2 ^ 32)
    (h : l.complete order = some (completion, l')) : l'.Taken order messages n completion := by
  unfold Link.complete at h
  cases hphase : l.phase with
  | header =>
      simp only [hphase] at h
      split at h
      · cases h
      · rename_i hread
        cases h
        exact hl.header hphase hshort hread
      · cases h
        exact ⟨hl.arrived, hl.count, trivial⟩
  | payload size =>
      simp only [hphase] at h
      split at h
      · cases h
      · rename_i hread
        cases h
        exact hl.payload hphase hread
      · cases h
        exact ⟨hl.arrived, hl.count, trivial⟩
  | stopped =>
      simp only [hphase] at h
      cases h

end Link

end CommonLib.AsyncEventTransport
