import Blockmon.Lemmas.SerSource
import Blockmon.Lib.Lts

/-!
# Messages arrive as they were sent

The source takes every complete frame out of its buffers before it receives again. So there is at most one incomplete frame in a buffer
when `recv` appends to it, which leaves room for what `recv` can return. The connections beyond the thirtieth are accepted and ignored.
-/

namespace Blockmon

/-- What the source has done for a client when it gets to `select`: it has sent out the messages whose last byte has arrived, in order,
and the buffer holds what has arrived of the next one. -/
structure Client.UpToDate (c : Client) : Prop where
  sent : c.sent = completed c.peer.messages c.received
  buffered : ∃ frag, Buffered c.ser frag ∧ c.peer.wire.take c.received = c.sent.flatMap Message.frame ++ frag ∧
    ∀ m rest, c.peer.messages = c.sent ++ m :: rest → frag.length < m.frame.length
  all : c.received = c.peer.wire.length → c.sent = c.peer.messages

/-- A peer that exports messages of the type that the source expects, with frames whose length is written as a positive number. -/
def Peer.Suits (p : Prototype) (peer : Peer) : Prop := ∀ m ∈ peer.messages, m.prototype = p ∧ m.frame.length ≤ 32767

/-- An input whose new peer sends what the prototype reads. -/
def Select.Suits (p : Prototype) (input : Select) : Prop := ∀ peer, input.accepted = some peer → peer.Suits p

namespace Client

variable {p : Prototype} {c : Client} {frag : List UInt8} {rest : List Message}

/-- What was completed before is sent, and what is left begins with the fragment. -/
theorem Holds.completed (h : Holds p c frag rest) :
    Blockmon.completed c.peer.messages c.received = c.sent ++ Blockmon.completed rest frag.length := by
  rw [h.messages, h.received, completed_append]

/-- What was received is the frames of what was sent and the fragment. -/
theorem Holds.wire (h : Holds p c frag rest) :
    c.peer.wire = (c.sent.flatMap Message.frame ++ frag) ++ c.peer.wire.drop c.received := by
  have hwire := (Peer.wire_eq fun m hm => (h.peer m hm).2).2
  rw [List.append_assoc, h.stream, ← List.flatMap_append, ← h.messages, hwire]

/-- A client that waits is up to date. -/
theorem Waiting.upToDate (h : Waiting p c) : c.UpToDate := by
  obtain ⟨frag, rest, hc, hincomplete⟩ := h
  have hlength : c.received = (c.sent.flatMap Message.frame ++ frag).length := by rw [List.length_append, hc.received]
  refine ⟨?_, ⟨frag, hc.buffered, ?_, ?_⟩, ?_⟩
  · rw [hc.completed, completed_of_incomplete hincomplete, List.append_nil]
  · have htake : ((c.sent.flatMap Message.frame ++ frag) ++ c.peer.wire.drop c.received).take c.received =
        c.sent.flatMap Message.frame ++ frag := by
      conv_lhs => rw [hlength, List.take_left]
    rwa [← hc.wire] at htake
  · intro m rest' hmessages
    rw [hc.messages] at hmessages
    exact hincomplete m rest' (List.append_cancel_left hmessages)
  · intro hall
    cases rest with
    | nil => simpa using hc.messages.symm
    | cons m rest =>
      have hstream := congrArg List.length hc.stream
      have hlt := hincomplete m rest rfl
      rw [hall, List.drop_length, List.append_nil, List.flatMap_cons, List.length_append] at hstream
      omega

end Client

namespace SerSource

variable {p : Prototype} {s s' : SerSource}

/-- What holds between the iterations. -/
structure Inv (p : Prototype) (s : SerSource) : Prop where
  msgPrototype : s.msgPrototype = p
  clients : ∀ c ∈ s.clients, c.Inv p
  limit : s.clients.length ≤ 30
  ignored : s.ignored ≠ [] → s.clients.length = 30

/-- The source starts without clients. -/
theorem inv_start (p : Prototype) : Inv p (start p) := ⟨rfl, by simp [start], by simp [start], by simp [start]⟩

/-- A new client waits for its first frame. -/
theorem Inv.accept (h : Inv p s) (hwaiting : ∀ c ∈ s.clients, c.Waiting p) {accepted : Option Peer}
    (hpeer : ∀ peer, accepted = some peer → peer.Suits p) :
    Inv p (SerSource.accept accepted s) ∧ ∀ c ∈ (SerSource.accept accepted s).clients, c.Waiting p := by
  cases accepted with
  | none => exact ⟨h, hwaiting⟩
  | some peer =>
    unfold SerSource.accept
    dsimp only
    by_cases hfull : s.clients.length = MAX_CLIENT_SOCKET
    · rw [if_pos hfull]
      exact ⟨⟨h.msgPrototype, h.clients, h.limit, fun _ => hfull⟩, hwaiting⟩
    · rw [if_neg hfull]
      have hnew : ∀ c ∈ s.clients ++ [Client.accept peer], c.Waiting p := by
        intro c hc
        rcases List.mem_append.mp hc with hc | hc
        · exact hwaiting c hc
        · rw [List.mem_singleton.mp hc]
          exact Client.Waiting.accept (hpeer peer rfl)
      refine ⟨⟨h.msgPrototype, fun c hc => (hnew c hc).inv, ?_, fun hignored => absurd (h.ignored hignored) hfull⟩, hnew⟩
      have hlimit := h.limit
      unfold MAX_CLIENT_SOCKET at hfull
      rw [List.length_append, List.length_singleton]
      omega

/-- An iteration that consumes nothing accepts and receives. -/
theorem iteration_of_consume {cs : List Client} {input : Select} (h : consume s.msgPrototype s.clients = .ok (cs, false)) :
    iteration s input = (do
      let clients' ← receive (fun i => if i < cs.length then input.ready i else 0)
        (SerSource.accept input.accepted { s with clients := cs }).clients
      return { SerSource.accept input.accepted { s with clients := cs } with clients := clients' }) := by
  unfold iteration
  rw [h]
  rfl

/-- An iteration fails no assertion. -/
theorem Inv.iteration (h : Inv p s) {input : Select} (hinput : input.Suits p) : ∃ s', SerSource.iteration s input = .ok s' ∧ Inv p s' := by
  obtain ⟨cs, consumed, hrun, harrived, hinv, hif⟩ := consume_spec h.clients
  have hlength : cs.length = s.clients.length := by simpa using congrArg List.length harrived
  obtain rfl := h.msgPrototype
  have hs : Inv s.msgPrototype { s with clients := cs } :=
    ⟨rfl, hinv, by rw [hlength]; exact h.limit, fun hignored => hlength.trans (h.ignored hignored)⟩
  cases consumed with
  | true =>
    refine ⟨{ s with clients := cs }, ?_, hs⟩
    unfold SerSource.iteration
    rw [hrun]
    rfl
  | false =>
    obtain ⟨haccept, hwaiting⟩ := hs.accept hif.2 hinput
    obtain ⟨cs', hreceive, hlength', hinv'⟩ := receive_spec (fun i => if i < cs.length then input.ready i else 0) hwaiting
    refine ⟨{ SerSource.accept input.accepted { s with clients := cs } with clients := cs' }, ?_, haccept.msgPrototype, hinv', ?_, ?_⟩
    · rw [iteration_of_consume hrun, hreceive]
      rfl
    · rw [hlength']
      exact haccept.limit
    · exact fun hignored => hlength'.trans (haccept.ignored hignored)

/-- An iteration that succeeds is a step. -/
theorem step_of_ok {input : Select} (h : iteration s input = .ok s') : step s input = some s' := by
  unfold step
  rw [h]
  rfl

/-- Iterations keep the invariant. -/
theorem inv_run {inputs : List Select} (hinputs : ∀ input ∈ inputs, input.Suits p) (h : Inv p s) (hrun : Lts.run step s inputs = some s') :
    Inv p s' := by
  induction inputs generalizing s with
  | nil =>
    cases hrun
    exact h
  | cons input inputs ih =>
    obtain ⟨m, hstep, hm⟩ := h.iteration (hinputs input List.mem_cons_self)
    rw [Lts.run_cons, step_of_ok hstep] at hrun
    exact ih (fun i hi => hinputs i (List.mem_cons_of_mem input hi)) hm hrun

end SerSource

open SerSource in
/-- In every run the source and the exporters fail no assertion, the source gets to its next `select`, and there it is up to date with
each of the clients, which are the first thirty connections. -/
theorem serSource_delivers {p : Prototype} {inputs : List Select} (hinputs : ∀ input ∈ inputs, input.Suits p) {s : SerSource}
    (hrun : Lts.run step (start p) inputs = some s) :
    (∀ input, input.Suits p → ∃ s', iteration s input = .ok s') ∧
    (∀ c ∈ s.clients, Exn.returns c.peer.exports = true ∧ c.peer.wire = c.peer.messages.flatMap Message.frame) ∧
    (∀ c ∈ s.clients, c.sent <+: completed c.peer.messages c.received) ∧
    (∃ clients n, (∀ fuel, n ≤ fuel → drain p fuel s.clients = .ok (some clients)) ∧ clients.map arrived = s.clients.map arrived ∧
      ∀ c ∈ clients, c.UpToDate) ∧
    (∀ clients, consume p s.clients = .ok (clients, false) → clients.map arrived = s.clients.map arrived ∧ ∀ c ∈ clients, c.UpToDate) ∧
    s.clients.length ≤ 30 ∧ (s.ignored ≠ [] → s.clients.length = 30) := by
  have hs := inv_run hinputs (inv_start p) hrun
  refine ⟨?_, ?_, ?_, ?_, ?_, hs.limit, hs.ignored⟩
  · intro input hinput
    obtain ⟨s', hstep, -⟩ := hs.iteration hinput
    exact ⟨s', hstep⟩
  · intro c hc
    obtain ⟨frag, rest, hholds⟩ := hs.clients c hc
    exact Peer.wire_eq fun m hm => (hholds.peer m hm).2
  · intro c hc
    obtain ⟨frag, rest, hholds⟩ := hs.clients c hc
    rw [hholds.completed]
    exact List.prefix_append _ _
  · obtain ⟨clients, hdrain, harrived, hwaiting⟩ := drain_spec hs.clients
    exact ⟨clients, unsent s.clients + 1, fun fuel hfuel => hdrain fuel hfuel, harrived, fun c hc => (hwaiting c hc).upToDate⟩
  · intro clients hconsume
    obtain ⟨cs, consumed, hrun', harrived, -, hif⟩ := consume_spec hs.clients
    rw [hconsume] at hrun'
    cases hrun'
    exact ⟨harrived, fun c hc => (hif.2 c hc).upToDate⟩

/-- The exporter of a client with one tweet, and an iteration that accepts the client. -/
def greeting : Select :=
  { accepted := some { messages := [.tweet ⟨[104, 105]⟩], exporterMem := fun _ => 0, sourceMem := fun _ => 0 }, ready := fun _ => 0 }

/-- The greeting is a tweet. -/
theorem greeting_suits : greeting.Suits .tweet := by
  intro peer hpeer m hm
  cases hpeer
  rw [List.mem_singleton.mp hm]
  exact ⟨rfl, by decide⟩

open SerSource in
/-- A client is accepted and its tweet received. -/
theorem serSource_delivers_greeting :
    ∃ s, Lts.run step (start .tweet) [greeting, ⟨none, fun _ => 2000⟩] = some s ∧
      ∃ clients n, (∀ fuel, n ≤ fuel → drain .tweet fuel s.clients = .ok (some clients)) ∧ clients.map arrived = s.clients.map arrived ∧
        ∀ c ∈ clients, c.UpToDate := by
  have hsecond : (Select.mk none fun _ => 2000).Suits .tweet := fun peer hpeer => by cases hpeer
  have hinputs : ∀ input ∈ [greeting, ⟨none, fun _ => 2000⟩], input.Suits .tweet := by
    intro input hinput
    rcases List.mem_cons.mp hinput with rfl | hinput
    · exact greeting_suits
    · rw [List.mem_singleton.mp hinput]
      exact hsecond
  obtain ⟨m, haccept, hm⟩ := (inv_start .tweet).iteration greeting_suits
  obtain ⟨s, hreceive, -⟩ := hm.iteration hsecond
  have hrun : Lts.run step (start .tweet) [greeting, ⟨none, fun _ => 2000⟩] = some s := by
    rw [Lts.run_cons, step_of_ok haccept, Option.bind_some, Lts.run_cons, step_of_ok hreceive]
    rfl
  exact ⟨s, hrun, (serSource_delivers hinputs hrun).2.2.2.1⟩

/-! ## Connections beyond the limit -/

namespace SerSource

/-- A connection that is ignored stays ignored. -/
theorem ignored_step {s s' : SerSource} {input : Select} (h : step s input = some s') : s.ignored <+: s'.ignored := by
  unfold step at h
  cases hconsume : consume s.msgPrototype s.clients with
  | error e =>
    unfold iteration at h
    rw [hconsume] at h
    cases h
  | ok r =>
    obtain ⟨cs, consumed⟩ := r
    cases consumed with
    | true =>
      unfold iteration at h
      rw [hconsume] at h
      cases h
      exact List.prefix_refl _
    | false =>
      rw [iteration_of_consume hconsume] at h
      have haccept : s.ignored <+: (SerSource.accept input.accepted { s with clients := cs }).ignored := by
        unfold SerSource.accept
        split
        · exact List.prefix_refl _
        · split
          · exact List.prefix_append _ _
          · exact List.prefix_refl _
      cases hreceive : receive (fun i => if i < cs.length then input.ready i else 0)
          (SerSource.accept input.accepted { s with clients := cs }).clients with
      | error e =>
        rw [hreceive] at h
        cases h
      | ok cs' =>
        rw [hreceive] at h
        cases h
        exact haccept

/-- A connection that was ignored stays ignored. -/
theorem ignored_run {inputs : List Select} {s s' : SerSource} (h : Lts.run step s inputs = some s') : s.ignored <+: s'.ignored := by
  induction inputs generalizing s with
  | nil =>
    cases h
    exact List.prefix_refl _
  | cons input inputs ih =>
    rw [Lts.run_cons, Option.bind_eq_some_iff] at h
    obtain ⟨m, hstep, hrest⟩ := h
    exact (ignored_step hstep).trans (ih hrest)

/-- The passes over clients for which nothing has arrived. -/
theorem consume_fresh (p : Prototype) (peer : Peer) (n : Nat) :
    consume p (List.replicate n (Client.accept peer)) = .ok (List.replicate n (Client.accept peer), false) := by
  induction n with
  | zero => rfl
  | succ n ih =>
    have hrun : (Client.consume p).run (Client.accept peer) = .ok false (Client.accept peer) := rfl
    exact consume_cons hrun ih

/-- New clients have nothing to receive. -/
theorem receive_fresh (peer : Peer) (n : Nat) :
    receive (fun _ => 0) (List.replicate n (Client.accept peer)) = .ok (List.replicate n (Client.accept peer)) := by
  induction n with
  | zero => rfl
  | succ n ih =>
    have hrun : (Client.receive 0).run (Client.accept peer) = .ok () (Client.accept peer) := rfl
    rw [List.replicate_succ, receive, hrun]
    dsimp only
    rw [ih]
    rfl

/-- Another connection while nothing has arrived. -/
theorem step_fresh {s : SerSource} {peer : Peer} {n : Nat} (hclients : s.clients = List.replicate n (Client.accept peer)) :
    step s ⟨some peer, fun _ => 0⟩ =
      some (if n = MAX_CLIENT_SOCKET then { s with ignored := s.ignored ++ [Client.accept peer] }
        else { s with clients := List.replicate (n + 1) (Client.accept peer) }) := by
  have hconsume := consume_fresh s.msgPrototype peer n
  rw [← hclients] at hconsume
  have hready : (fun i : Nat => if i < s.clients.length then 0 else 0) = fun _ => 0 := by simp
  apply step_of_ok
  rw [iteration_of_consume hconsume]
  dsimp only
  rw [hready]
  unfold SerSource.accept
  dsimp only
  rw [hclients, List.length_replicate]
  by_cases hfull : n = MAX_CLIENT_SOCKET
  · simp only [if_pos hfull, receive_fresh]
    rw [← hclients]
    rfl
  · simp only [if_neg hfull]
    rw [← List.replicate_succ', receive_fresh]
    rfl

/-- Up to thirty connections are accepted. -/
theorem run_fresh (p : Prototype) (peer : Peer) {n : Nat} (hn : n ≤ 30) :
    Lts.run step (start p) (List.replicate n ⟨some peer, fun _ => 0⟩) =
      some { msgPrototype := p, clients := List.replicate n (Client.accept peer), ignored := [] } := by
  induction n with
  | zero => rfl
  | succ n ih =>
    have hne : n ≠ MAX_CLIENT_SOCKET := by
      unfold MAX_CLIENT_SOCKET
      omega
    rw [List.replicate_succ', Lts.run_append, ih (by omega), Option.bind_some, Lts.run_cons, step_fresh rfl, if_neg hne]
    rfl

end SerSource

open SerSource in
/-- Thirty-one clients connect, each with one tweet. The tweet of the last one is not sent out, whatever comes. -/
theorem serSource_ignores :
    ∃ s, (∀ input ∈ List.replicate 31 greeting, input.Suits .tweet) ∧ Lts.run step (start .tweet) (List.replicate 31 greeting) = some s ∧
      ∃ c ∈ s.ignored, c.peer.messages ≠ [] ∧ c.sent = [] ∧ ∀ inputs s', Lts.run step s inputs = some s' → c ∈ s'.ignored := by
  obtain ⟨peer, hpeer⟩ : ∃ peer, greeting.accepted = some peer := ⟨_, rfl⟩
  have hgreeting : greeting = ⟨some peer, fun _ => 0⟩ := by rw [← hpeer]; rfl
  have hmessages : peer.messages ≠ [] := by
    cases hpeer
    simp
  refine ⟨{ msgPrototype := .tweet, clients := List.replicate 30 (Client.accept peer), ignored := [Client.accept peer] }, ?_, ?_,
    Client.accept peer, List.mem_singleton_self _, hmessages, rfl, ?_⟩
  · intro input hinput
    rw [List.eq_of_mem_replicate hinput]
    exact greeting_suits
  · rw [hgreeting, List.replicate_succ', Lts.run_append, run_fresh .tweet peer (le_refl 30), Option.bind_some, Lts.run_cons, step_fresh rfl,
      if_pos (show 30 = MAX_CLIENT_SOCKET from rfl)]
    rfl
  · intro inputs s' hrun
    exact (ignored_run hrun).subset (List.mem_singleton_self _)

end Blockmon
