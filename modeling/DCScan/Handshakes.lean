import DCScan.Verdicts

/-!
Whether the two parties agree at the end of the handshake.

In the runs that meet the condition `StartThread` can always be completed, with the server's verdict,
and what the server has sent can be decoded while the connection lasts. The schedules that say so take
no spurious wakeup.
-/

namespace DCScan.Handshake

open Lib Message
open Framing (Framed DecodeInv)
open Disconnect (Sound Alert Out Settled Leaving)

variable {accounts : Accounts} {challenge : Challenge} {username password : List UInt8}
variable {s t : State} {a : Action}

/-- A wakeup that nobody has asked for. -/
def Action.spurious : Action → Bool
  | .client .spurious => true
  | _ => false

/-- What holds in every state of the runs that meet the condition. -/
structure Inv (challenge : Challenge) (s : State) : Prop where
  wire : Wire challenge s
  flag : Flag s

theorem inv_step (inv : Inv challenge s) (met : Steady s a)
    (ran : step accounts challenge username password s a = some t) : Inv challenge t := by
  have eff := effect_of_step ran
  have wire := wire_step inv.wire met eff
  exact ⟨wire, flag_step inv.wire wire inv.flag met eff⟩

theorem inv_init (start : (system accounts challenge username password).init s) : Inv challenge s := by
  obtain ⟨frames, v, ⟨block, size, rfl⟩, rfl⟩ := start
  have fresh : Fresh ⟨.client, ⟨.create block, [], [], .waitHeader, []⟩, true, .testing, .receiving⟩ :=
    ⟨block, [], size, rfl⟩
  refine ⟨⟨rfl, fun _ => rfl, nofun, fun _ => ⟨rfl, rfl, nofun⟩, fun _ => ⟨fresh, rfl⟩, by simp,
    fun later => absurd rfl later, nofun, List.nil_prefix⟩,
    ⟨nofun, nofun, nofun, ?_, nofun, nofun, nofun, fun _ _ _ => rfl, alert_of_fresh fresh, nofun⟩⟩
  simp [Disconnect.Receiver.stage]

theorem reachable_inv (reached : (system accounts challenge username password).ReachableBy Steady s) :
    Inv challenge s :=
  reached.invariant (fun _ start => inv_init start) fun _ _ _ inv met ran => inv_step inv met ran

/-! ## The client's threads -/

/-- A step of the threads is one of the handshake. -/
theorem client_step {b : Disconnect.Action} {c : Disconnect.State} (launched : s.main.launched = true)
    (moved : Disconnect.step s.client b = some c) (permitted : permits s b = true) :
    step accounts challenge username password s (.client b) = some { s with
      client := c, connValid := stored s.connValid c b } := by
  simp only [step, launched, permitted, moved]
  rfl

/-- The decode thread takes its steps whatever is still to be sent. -/
theorem moved_of_view {b : Disconnect.Action} {v : Disconnect.State} (own : b.ofDecoder = true)
    (moved : Disconnect.step s.view b = some v) :
    permits s b = true ∧ ∃ client, v = client.widen s.sending ∧
      Disconnect.step s.client b = some client := by
  have other : b ≠ .receive := by
    rintro rfl
    cases own
  rw [State.view, Disconnect.step_widen other] at moved
  obtain ⟨client, ran, rfl⟩ := Option.map_eq_some_iff.mp moved
  exact ⟨by cases b <;> trivial, client, rfl, ran⟩

/-- The condition is on no step of the decode thread. -/
theorem steady_of_decoder {b : Disconnect.Action} (own : b.ofDecoder = true) :
    Steady s (.client b) := by
  cases b <;> trivial

/-! ## While the connection lasts -/

/-- The client's threads run, and the main thread and the server rest where they are in `s`. -/
structure Lasting (challenge : Challenge) (s t : State) : Prop extends Inv challenge t where
  launched : t.main.launched = true
  running : t.client.running = true
  up : t.client.receiver.stage = 0
  main : t.main = s.main
  server : t.server = s.server
  sent : t.sent = s.sent

/-- A bound on the steps until everything is decoded. -/
def undecoded (s : State) : Nat :=
  8 * (s.down.length + s.sending.flatten.length) + s.sending.length + Disconnect.toGo s.sent s.client +
    if s.client.receiver = .added then 5 else 0

/-- The receive thread, blocked in `ReceiveData`, gets the next byte. -/
theorem receives_one (launched : s.main.launched = true) (stand : s.client.receiver = .receiving)
    (free : s.client.decoder.holds = false) (more : s.down ≠ [])
    (room : s.client.frames.queue.roomFor 1) :
    ∃ queue received, step accounts challenge username password s (.receive 1) = some { s with
      client := { s.client with
        frames := { s.client.frames with
          queue := queue, toReceive := [s.down.drop 1], received := received }
        receiver := .added } } := by
  have there : 1 ≤ s.down.length := List.length_pos_iff.mpr more
  have fits : s.client.frames.queue.roomFor (s.down.take 1).length := by
    rwa [List.length_take, min_eq_left there]
  obtain ⟨queue, added⟩ := ByteQueue.addBytes_of_room fits
  refine ⟨queue, s.client.frames.received ++ s.down.take 1, ?_⟩
  have moved : Disconnect.step (s.client.withStream [s.down.take 1, s.down.drop 1]) .receive =
      some { s.client with
        frames := { s.client.frames with
          queue := queue, toReceive := [s.down.drop 1],
          received := s.client.frames.received ++ s.down.take 1 }
        receiver := .added } := by
    simp [Disconnect.step, Disconnect.State.withStream, stand, free, Framing.step, added]
  simp only [step]
  rw [if_pos ⟨launched, by simp, by simp, there⟩, moved]
  rfl

theorem decoder_advances_lasting (lasting : Lasting challenge s t)
    (awake : t.client.decoder ≠ .waiting .sleeping) :
    ∃ a u, a.spurious = false ∧ step accounts challenge username password t a = some u ∧
      Lasting challenge s u ∧ undecoded u < undecoded t := by
  have wire := lasting.wire
  have sound := (wire.sound lasting.launched).2
  obtain ⟨b, v, own, unhelped, moved, less⟩ := Disconnect.decoder_runs wire.framed sound
    lasting.flag.alert lasting.running (lt_of_eq_of_lt lasting.up (by simp)) awake
  have eff := Disconnect.effect_of_step moved
  obtain ⟨running, receiver⟩ := Disconnect.frame_of_decoder own eff
  have stream := Disconnect.stream_of_decoder own eff
  obtain ⟨permitted, client, rfl, mine⟩ := moved_of_view own moved
  have ran : step accounts challenge username password t (.client b) = _ :=
    client_step lasting.launched mine permitted
  refine ⟨.client b, _, ?_, ran, ⟨inv_step lasting.toInv (steady_of_decoder own) ran, lasting.launched,
    running.trans lasting.running, (congrArg Disconnect.Receiver.stage receiver).trans lasting.up,
    lasting.main, lasting.server, lasting.sent⟩, ?_⟩
  · cases b <;> first | rfl | exact absurd rfl unhelped
  · have same : client.receiver = t.client.receiver := receiver
    have cut : client.frames.toReceive.flatten = t.down :=
      congrArg List.flatten (List.append_cancel_right stream)
    have closer : Disconnect.toGo t.sent client < Disconnect.toGo t.sent t.client := less
    simp only [undecoded, State.down, same, cut]
    omega

/-- The receive thread wakes a decode thread that sleeps. -/
theorem notify_advances (lasting : Lasting challenge s t)
    (sleeps : t.client.decoder = .waiting .sleeping) (added : t.client.receiver = .added) :
    ∃ a u, a.spurious = false ∧ step accounts challenge username password t a = some u ∧
      Lasting challenge s u ∧ undecoded u < undecoded t := by
  have ran : step accounts challenge username password t (.client .notifyOne) = some { t with
      client := { t.client with receiver := .receiving, decoder := .waiting .woken } } := by
    simp only [step, lasting.launched, permits, Disconnect.step, added, sleeps]
    rfl
  refine ⟨.client .notifyOne, _, rfl, ran, ⟨inv_step (a := .client .notifyOne) lasting.toInv trivial ran,
    lasting.launched, lasting.running, rfl, lasting.main, lasting.server, lasting.sent⟩, ?_⟩
  have before : Disconnect.toGo t.sent t.client =
      8 * (t.sent.length - t.client.frames.decoded.length) + 1 :=
    congrArg (_ + Disconnect.Decoder.rank ·) sleeps
  simp only [undecoded, before, added, ↓reduceIte]
  change 8 * (t.down.length + t.sending.flatten.length) + t.sending.length +
    (8 * (t.sent.length - t.client.frames.decoded.length) + 5) + 0 < _
  omega

/-- More comes for a decode thread that sleeps over nothing. -/
theorem stream_advances (lasting : Lasting challenge s t)
    (sleeps : t.client.decoder = .waiting .sleeping) (stand : t.client.receiver = .receiving)
    (short : t.client.frames.decoded ≠ t.sent) :
    ∃ a u, a.spurious = false ∧ step accounts challenge username password t a = some u ∧
      Lasting challenge s u ∧ undecoded u < undecoded t := by
  have wire := lasting.wire
  have sound := (wire.sound lasting.launched).2
  have going : t.view.decoder ≠ .finished := by
    rw [show t.view.decoder = _ from sleeps]
    simp
  have idle := (lasting.flag.alert.sleeps (lt_of_eq_of_lt lasting.up (by simp)) sleeps).resolve_right
    (by rw [show t.view.receiver = _ from stand]; simp)
  have inside : ∀ data, t.view.frames.consumer ≠ .decoding data := by
    intro data hand
    have fits := sound.fits
    rw [hand, show t.view.decoder = _ from sleeps] at fits
    cases side : t.view.side <;> rw [side] at fits <;> exact fits
  obtain ⟨more, room⟩ := Disconnect.more_of_idle wire.framed (sound.frames going) idle inside short
  cases quiet : t.sending with
  | cons data rest =>
    have ran : step accounts challenge username password t .send = some { t with
        sending := rest, client := t.client.withStream (t.client.frames.toReceive ++ [data]) } := by
      simp only [step, quiet]
    refine ⟨.send, _, rfl, ran, ⟨inv_step (a := .send) lasting.toInv trivial ran, lasting.launched,
      lasting.running, lasting.up, lasting.main, lasting.server, lasting.sent⟩, ?_⟩
    have grown : (t.client.frames.toReceive ++ [data]).flatten.length = t.down.length + data.length := by
      rw [List.flatten_append, List.flatten_singleton, List.length_append]
      rfl
    simp only [undecoded, quiet, List.flatten_cons, List.length_append, List.length_cons]
    change 8 * ((t.client.frames.toReceive ++ [data]).flatten.length + rest.flatten.length) +
      rest.length + Disconnect.toGo t.sent t.client +
        (if t.client.receiver = .added then 5 else 0) < _
    rw [grown]
    omega
  | nil =>
    rw [view_of_quiet quiet] at more
    obtain ⟨queue, received, ran⟩ := @receives_one accounts challenge username password t
      lasting.launched stand (by rw [sleeps]; rfl) more room
    refine ⟨.receive 1, _, rfl, ran, ⟨inv_step (a := .receive 1) lasting.toInv trivial ran,
      lasting.launched, lasting.running, rfl, lasting.main, lasting.server, lasting.sent⟩, ?_⟩
    have there := List.length_pos_iff.mpr more
    change 0 < t.down.length at there
    have fewer : [t.down.drop 1].flatten.length = t.down.length - 1 := by
      rw [List.flatten_singleton, List.length_drop]
    simp only [undecoded, stand, ↓reduceIte]
    change 8 * ([t.down.drop 1].flatten.length + t.sending.flatten.length) + t.sending.length +
      Disconnect.toGo t.sent t.client + 5 < _
    rw [fewer]
    omega

theorem lasting_advances (lasting : Lasting challenge s t) (short : t.client.frames.decoded ≠ t.sent) :
    ∃ a u, a.spurious = false ∧ step accounts challenge username password t a = some u ∧
      Lasting challenge s u ∧ undecoded u < undecoded t := by
  by_cases sleeps : t.client.decoder = .waiting .sleeping
  · cases stand : t.client.receiver with
    | receiving => exact stream_advances lasting sleeps stand short
    | added => exact notify_advances lasting sleeps stand
    | _ => exact absurd lasting.up (by simp [stand, Disconnect.Receiver.stage])
  · exact decoder_advances_lasting lasting sleeps

/-- **What is sent is decoded**, as long as nobody ends the connection. -/
theorem delivers (inv : Inv challenge s) (launched : s.main.launched = true)
    (running : s.client.running = true) (up : s.client.receiver.stage = 0) :
    (system accounts challenge username password).Leads (fun a => a.spurious = false) s fun t =>
      Lasting challenge s t ∧ t.client.frames.decoded = t.sent :=
  System.attains undecoded ⟨inv, launched, running, up, rfl, rfl, rfl⟩
    fun _ lasting short => lasting_advances lasting short

theorem leads_step {goal : State → Prop} (unhelped : a.spurious = false)
    (ran : step accounts challenge username password s a = some t)
    (rest : (system accounts challenge username password).Leads (fun a => a.spurious = false) t goal) :
    (system accounts challenge username password).Leads (fun a => a.spurious = false) s goal :=
  .step unhelped ran rest

/-- A client that is past the challenge gets to the end of `Authenticate`, and starts its threads. -/
theorem launches {rest : List (List UInt8)} (inv : Inv challenge s) (stand : s.main = .answering rest) :
    (system accounts challenge username password).Leads (fun a => a.spurious = false) s fun t =>
      Inv challenge t ∧ t.main = .polling ∧ t.server = s.server ∧ t.sent = s.sent ∧
        t.client = s.client := by
  induction rest generalizing s with
  | nil =>
    have ran : step accounts challenge username password s .startThread =
        some { s with main := .polling } := by
      simp only [step, stand]
    exact leads_step (a := .startThread) rfl ran
      (.here ⟨inv_step (a := .startThread) inv trivial ran, rfl, rfl, rfl, rfl⟩)
  | cons data rest ih =>
    have ran : step accounts challenge username password s .reply =
        some { s with main := .answering rest, up := s.up ++ data } := by
      simp only [step, stand]
    exact leads_step (a := .reply) rfl ran (ih (inv_step (a := .reply) inv trivial ran) rfl)

/-! ## The end of a refused login -/

/-- A bound on the steps until the receive thread can be joined, and is. -/
def toExit (s : State) : Nat :=
  (if s.main = .joining then 1 else 0) + match s.client.receiver with
  | .added => 100
  | .receiving => 90
  | .left => 80
  | .cleared => if s.reset then 60 else 70
  | .stored => if s.client.decoder = .waiting .blocking then 51 else 50
  | .joining => 20 + s.client.decoder.steps
  | .joined => 10
  | .done => 0

/-- A step of the threads on the way out. -/
theorem exit_step {b : Disconnect.Action} {c : Disconnect.State} (inv : Inv challenge s)
    (stand : s.main = .joining) (moved : Disconnect.step s.client b = some c)
    (permitted : permits s b = true) (met : Steady s (.client b)) (unhelped : b ≠ .spurious)
    (closer : toExit { s with client := c } < toExit s) :
    ∃ a t, a.spurious = false ∧ step accounts challenge username password s a = some t ∧
      (Inv challenge t ∧ (t.main = .joining ∨ t.main = .returned false)) ∧ toExit t < toExit s := by
  have ran : step accounts challenge username password s (.client b) = _ :=
    client_step (by rw [stand]; rfl) moved permitted
  refine ⟨.client b, _, ?_, ran, ⟨inv_step inv met ran, Or.inl stand⟩, closer⟩
  cases b <;> first | rfl | exact absurd rfl unhelped

theorem exit_advances (inv : Inv challenge s) (stand : s.main = .joining) :
    ∃ a t, a.spurious = false ∧ step accounts challenge username password s a = some t ∧
      (Inv challenge t ∧ (t.main = .joining ∨ t.main = .returned false)) ∧ toExit t < toExit s := by
  have launched : s.main.launched = true := by rw [stand]; rfl
  have seen : s.main.refused = true := by rw [stand]; rfl
  have few (d : Disconnect.Decoder) : d.steps ≤ 5 := by cases d <;> simp [Disconnect.Decoder.steps]
  cases receiver : s.client.receiver with
  | receiving =>
    have moved : Disconnect.step s.client .leave = some { s.client with receiver := .left } := by
      simp only [Disconnect.step, receiver]
    exact exit_step inv stand moved rfl ⟨by simp [stand], by simp [stand]⟩ (by simp)
      (by simp [toExit, receiver])
  | added =>
    have moved : Disconnect.step s.client .notifyOne = some { s.client with
        receiver := .receiving, decoder := s.client.decoder.wake } := by
      simp only [Disconnect.step, receiver]
    exact exit_step inv stand moved rfl trivial (by simp) (by simp [toExit, receiver])
  | left =>
    have moved : Disconnect.step s.client .clear = some { s.client with
        receiver := .cleared, running := false } := by
      simp only [Disconnect.step, receiver]
    refine exit_step inv stand moved rfl trivial (by simp) ?_
    simp only [toExit, receiver, stand, ↓reduceIte]
    split <;> omega
  | cleared =>
    cases restored : s.reset with
    | false =>
      have ran : step accounts challenge username password s .reset =
          some { s with connValid := .C_WAIT, reset := true } := by
        simp only [step]
        rw [if_pos ⟨launched, receiver, restored⟩]
      exact ⟨.reset, _, rfl, ran, ⟨inv_step (a := .reset) inv trivial ran, Or.inl stand⟩,
        by simp [toExit, receiver, restored]⟩
    | true =>
      have moved : Disconnect.step s.client .store = some { s.client with
          receiver := .stored
          frames := { s.client.frames with queue := s.client.frames.queue.notifyUnblock } } := by
        simp only [Disconnect.step, receiver]
      refine exit_step inv stand moved restored trivial (by simp) ?_
      simp only [toExit, receiver, restored, stand, ↓reduceIte]
      split <;> omega
  | stored =>
    by_cases blocks : s.client.decoder = .waiting .blocking
    · have moved : Disconnect.step s.client .block = some { s.client with
          decoder := .waiting .sleeping } := by
        simp only [Disconnect.step, blocks]
      exact exit_step inv stand moved rfl trivial (by simp) (by simp [toExit, receiver, blocks])
    · have moved : Disconnect.step s.client .notifyAll = some { s.client with
          receiver := .joining, decoder := s.client.decoder.wake } := by
        simp only [Disconnect.step, receiver]
      refine exit_step inv stand moved rfl (fun _ => blocks) (by simp) ?_
      have := few s.client.decoder.wake
      simp only [toExit, receiver, blocks, ↓reduceIte]
      omega
  | joining =>
    by_cases finished : s.client.decoder = .finished
    · have moved : Disconnect.step s.client .join = some { s.client with receiver := .joined } := by
        simp only [Disconnect.step, receiver, finished]
      exact exit_step inv stand moved rfl trivial (by simp) (by simp [toExit, receiver]; omega)
    · have wire := inv.wire
      have sound := (wire.sound launched).2
      have late : s.view.receiver = .joining := receiver
      have leaving := (inv.flag.out seen).leaving (by simp [late, Disconnect.Receiver.stage])
      obtain ⟨b, v, own, moved⟩ := Disconnect.decoder_moves wire.framed sound leaving finished
      have eff := Disconnect.effect_of_step moved
      have less := (Disconnect.decoder_advances sound leaving
        (sound.cleared (by simp [late, Disconnect.Receiver.stage])) own eff).2
      have still := (Disconnect.frame_of_decoder own eff).2
      obtain ⟨permitted, client, rfl, mine⟩ := moved_of_view own moved
      have late : client.receiver = .joining := still.trans receiver
      have closer : client.decoder.steps < s.client.decoder.steps := less
      refine exit_step inv stand mine permitted (steady_of_decoder own) ?_ ?_
      · rintro rfl
        simp only [Disconnect.step] at mine
        split at mine
        · exact leaving.sleeping ‹_›
        · cases mine
      · simp only [toExit, receiver, late]
        omega
  | joined =>
    have client : s.client.side = .client := inv.flag.alert.client
    have fresh : (List.replicate s.client.frames.queue.internalBuffMaxSize (0 : UInt8)).length =
        s.client.frames.queue.internalBuffMaxSize := List.length_replicate
    have moved : Disconnect.step s.client (.restartQueue
        (List.replicate s.client.frames.queue.internalBuffMaxSize 0)) = some { s.client with
          frames := { s.client.frames with queue := s.client.frames.queue.notifyRestart _ fresh }
          receiver := .done } := by
      simp only [Disconnect.step, client, receiver, Disconnect.restartQueue, dif_pos fresh,
        Option.map_some]
    exact exit_step inv stand moved rfl trivial (by simp) (by simp [toExit, receiver])
  | done =>
    have ran : step accounts challenge username password s .joined =
        some { s with main := .returned false } := by
      simp only [step]
      rw [if_pos ⟨stand, receiver⟩]
    exact ⟨.joined, _, rfl, ran, ⟨inv_step (a := .joined) inv trivial ran, Or.inr rfl⟩,
      by simp [toExit, receiver, stand]⟩

/-- A refused client's `StartThread` returns. -/
theorem exits (inv : Inv challenge s) (stand : s.main = .joining) :
    (system accounts challenge username password).Leads (fun a => a.spurious = false) s fun t =>
      t.main = .returned false := by
  have gone : (system accounts challenge username password).Leads (fun a => a.spurious = false) s fun t =>
      (Inv challenge t ∧ (t.main = .joining ∨ t.main = .returned false)) ∧ t.main = .returned false :=
    System.attains toExit ⟨inv, Or.inl stand⟩ fun t held short =>
      exit_advances held.1 (held.2.resolve_right short)
  exact gone.trans fun t there => .here there.2

/-- A refused client closes the socket, and its `StartThread` returns. -/
theorem closes (inv : Inv challenge s) (stand : s.main = .closing) :
    (system accounts challenge username password).Leads (fun a => a.spurious = false) s fun t =>
      t.main = .returned false := by
  have client : s.client.side = .client := inv.flag.alert.client
  have moved : Disconnect.step s.client .stop = some { s.client with running := false } := by
    simp only [Disconnect.step, client]
  have ran : step accounts challenge username password s .stop =
      some { s with main := .joining, client := { s.client with running := false } } := by
    simp only [step, stand, moved, Option.map_some]
  exact leads_step (a := .stop) rfl ran (exits (inv_step (a := .stop) inv trivial ran) rfl)

/-! ## The verdict -/

theorem Flag.verdict (flag : Flag s) {b : Bool} (returned : s.main = .returned b) :
    s.server = .decided b := by
  cases b with
  | true => exact flag.accepted returned
  | false => exact (flag.refused (by rw [returned]; rfl)).1

/-- Behind the loop `StartThread` does what the server has decided. -/
theorem compares {b : Bool} (inv : Inv challenge s) (decided : s.server = .decided b)
    (stand : s.main = .comparing) :
    (system accounts challenge username password).Leads (fun a => a.spurious = false) s fun t =>
      t.main = .returned b := by
  have ran : step accounts challenge username password s .compare = some { s with
      main := if s.connValid = .C_INVALID then .closing else .returned true } := by
    simp only [step, stand]
  have next := inv_step (a := .compare) inv trivial ran
  refine leads_step (a := .compare) rfl ran ?_
  by_cases invalid : s.connValid = .C_INVALID
  · rw [if_pos invalid] at ran next ⊢
    have refused : s.server = .decided false := (next.flag.refused rfl).1
    obtain rfl : b = false := by simpa using decided.symm.trans refused
    exact closes next rfl
  · rw [if_neg invalid] at next ⊢
    exact .here (congrArg Main.returned (by simpa using (next.flag.accepted rfl).symm.trans decided))

/-- All that a server has sent tells what it has decided. -/
theorem heard_of_decided {b : Bool} {msgs : List DefaultMessage} (said : Said b msgs) :
    heard msgs ≠ .C_WAIT := by
  cases b with
  | true =>
    rw [heard_of_accepted said List.prefix_rfl]
    · simp
    · obtain ⟨later, rfl, _⟩ := said
      simp
  | false =>
    rw [show msgs = refusal from said]
    decide

theorem polls {b : Bool} (inv : Inv challenge s) (decided : s.server = .decided b)
    (stand : s.main = .polling) :
    (system accounts challenge username password).Leads (fun a => a.spurious = false) s fun t =>
      t.main = .returned b := by
  have up : s.client.receiver.stage = 0 := by
    by_contra away
    exact (inv.flag.early (Nat.pos_of_ne_zero away)).1 stand
  have running := inv.flag.running (by omega) (by simp [stand]) (by simp [stand])
  refine (delivers inv (by rw [stand]; rfl) running up).trans fun t arrived => ?_
  obtain ⟨lasting, all⟩ := arrived
  have polling : t.main = .polling := lasting.main.trans stand
  have still : t.server = .decided b := lasting.server.trans decided
  have told : t.connValid ≠ .C_WAIT := by
    obtain same | ⟨restored, _⟩ := lasting.flag.flag lasting.launched
    · rw [same, all]
      exact heard_of_decided (lasting.wire.said b still)
    · have := lasting.flag.resets restored
      have := lasting.up
      omega
  have ran : step accounts challenge username password t .poll = some { t with main := .comparing } := by
    simp only [step]
    rw [if_pos ⟨polling, told⟩]
  exact leads_step (a := .poll) rfl ran
    (compares (inv_step (a := .poll) lasting.toInv trivial ran) still rfl)

/-- Wherever the client is when the server has decided, its `StartThread` returns with the verdict. -/
theorem returns {b : Bool} (inv : Inv challenge s) (decided : s.server = .decided b) :
    (system accounts challenge username password).Leads (fun a => a.spurious = false) s fun t =>
      t.main = .returned b := by
  cases stand : s.main with
  | challenged => exact absurd decided ((inv.wire.mute stand).2.2 b)
  | answering rest =>
    refine (launches inv stand).trans fun t there => ?_
    obtain ⟨next, polling, server, _⟩ := there
    exact polls next (server.trans decided) polling
  | polling => exact polls inv decided stand
  | comparing => exact compares inv decided stand
  | closing =>
    have refused := (inv.flag.refused (by rw [stand]; rfl)).1
    obtain rfl : b = false := by simpa using decided.symm.trans refused
    exact closes inv stand
  | joining =>
    have refused := (inv.flag.refused (by rw [stand]; rfl)).1
    obtain rfl : b = false := by simpa using decided.symm.trans refused
    exact exits inv stand
  | returned c =>
    have same := inv.flag.verdict stand
    obtain rfl : b = c := by simpa using decided.symm.trans same
    exact .here stand

/-- While the connection is up all that was sent can be decoded, whether or not the client's threads
have been started. -/
theorem delivered (inv : Inv challenge s) (running : s.client.running = true)
    (up : s.client.receiver.stage = 0) :
    (system accounts challenge username password).Leads (fun a => a.spurious = false) s fun t =>
      t.sent = s.sent ∧ t.client.frames.decoded = s.sent := by
  have launched {u : State} (inv : Inv challenge u) (started : u.main.launched = true)
      (runs : u.client.running = true) (lasts : u.client.receiver.stage = 0) (sent : u.sent = s.sent) :
      (system accounts challenge username password).Leads (fun a => a.spurious = false) u fun t =>
        t.sent = s.sent ∧ t.client.frames.decoded = s.sent := by
    refine (delivers inv started runs lasts).trans fun t arrived => .here ?_
    exact ⟨arrived.1.sent.trans sent, arrived.2.trans (arrived.1.sent.trans sent)⟩
  cases stand : s.main with
  | challenged =>
    have nothing : s.sent = [] := inv.wire.silent (inv.wire.mute stand).2.2
    have front := inv.wire.front
    rw [nothing, List.prefix_nil] at front
    exact .here ⟨rfl, front.trans nothing.symm⟩
  | answering rest =>
    refine (launches inv stand).trans fun t there => ?_
    obtain ⟨next, polling, _, sent, client⟩ := there
    exact launched next (by rw [polling]; rfl) (by rw [client]; exact running)
      (by rw [client]; exact up) sent
  | _ => exact launched inv (by rw [stand]; rfl) running up rfl

/-- The two parties agree. `Authenticate` has read nothing but the challenge; the decoded messages are
the first of those sent, and while the connection is up all of them can be decoded; `StartThread`
returns true to a client for which a session was started and false to one that was refused, and from
the decision on it can always be brought to return. -/
structure Agrees (sys : System State Action) (s : State) : Prop where
  greeted : s.greeting <+: s.challenge
  decoded : s.client.frames.decoded <+: s.sent
  delivered : s.client.running = true → s.client.receiver.stage = 0 →
    sys.Leads (fun a => a.spurious = false) s fun t =>
      t.sent = s.sent ∧ t.client.frames.decoded = s.sent
  verdict : ∀ b, s.main = .returned b → s.server = .decided b
  returns : ∀ b, s.server = .decided b →
    sys.Leads (fun a => a.spurious = false) s fun t => t.main = .returned b

/-- **The handshake agrees** in every run that meets the condition. -/
theorem handshake_agrees
    (reached : (system accounts challenge username password).ReachableBy Steady s) :
    Agrees (system accounts challenge username password) s := by
  have inv := reachable_inv reached
  exact ⟨inv.wire.greeted, inv.wire.front, delivered inv, fun b => inv.flag.verdict,
    fun b => returns inv⟩

/-! ## Two logins -/

/-- One user, whose name is `a`, and a cipher with one output. -/
def sampleAccounts : Accounts where
  GetUser name := if cStr name = [97] then some [] else none
  SHA256Str _ := []
  EncryptAES256 _ _ _ := List.replicate 32 7
  tag _ _ _ := List.replicate 16 0

def sampleChallenge : Challenge :=
  ⟨List.replicate 32 5, List.replicate 16 6, List.length_replicate, List.length_replicate⟩

def sampleStack : Stack :=
  ⟨List.replicate 64 0, List.replicate 32 4, [], List.length_replicate, List.length_replicate⟩

def sampleSystem : System State Action := system sampleAccounts sampleChallenge [97] [1]

/-- A client about to connect to the server. -/
def sampleStart : State :=
  ⟨.testing, [], [], [], [], [], .challenged, [], .C_WAIT, false,
    ⟨.client, ⟨.create (List.replicate Framing.ibBuffSize 0), [], [], .waitHeader, []⟩, true, .testing,
      .receiving⟩⟩

theorem sampleStart_init : sampleSystem.init sampleStart :=
  ⟨_, .C_WAIT, ⟨_, List.length_replicate, rfl⟩, rfl⟩

/-- The steps of the login, in a state in which the condition lets them be. -/
def plain (s : State) : Action → Bool
  | .test none | .send | .greet _ | .reply | .receiveCredentials _ | .decide => true
  | .answer _ => s.connValid = .C_WAIT
  | _ => false

theorem steady_of_plain (login : plain s a = true) : Steady s a := by
  cases a with
  | test served =>
    cases served with
    | none => rfl
    | some ip => cases login
  | answer stack => simpa [plain, Steady] using login
  | serve m | client b => cases login
  | _ => trivial

/-- A client that logs in with the right password. -/
theorem handshake_agrees_login : ∃ s : State, s.server = .decided true ∧ Agrees sampleSystem s := by
  have first : sampleSystem.ReachableBy Steady sampleStart := .init sampleStart_init
  have reached : ∃ s, sampleSystem.ReachableBy Steady s ∧ s.server = .decided true :=
    first.exists_replay (fun s a (login : plain s a = true) => steady_of_plain login)
      [.test none, .send, .send, .greet 32, .greet 16, .answer sampleStack, .reply, .reply,
        .receiveCredentials 32, .receiveCredentials 48, .decide] (by decide +kernel)
  obtain ⟨s, reached, decided⟩ := reached
  exact ⟨s, decided, handshake_agrees reached⟩

/-- **The handshake can fail.** A client that comes while another one is served takes the first 48
bytes of the server's frames for a challenge that was never sent. -/
theorem handshake_broken : ∃ s : State, sampleSystem.Reachable s ∧ s.server = .decided false ∧
    ¬Agrees sampleSystem s := by
  have reached : ∃ s, sampleSystem.Reachable s ∧ s.server = .decided false ∧ s.challenge = [] ∧
      s.greeting.length = 48 :=
    System.exists_reachable_of_replay sampleStart_init
      [.test (some [49]), .send, .send, .send, .send, .greet 32, .greet 16] (by decide +kernel)
  obtain ⟨s, reached, refused, unsent, read⟩ := reached
  refine ⟨s, reached, refused, fun agrees => ?_⟩
  have greeted := agrees.greeted
  rw [unsent, List.prefix_nil] at greeted
  rw [greeted] at read
  cases read

end DCScan.Handshake
