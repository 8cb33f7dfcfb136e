import DCScan.Release

/-!
The threads of a connection that lasts: what is sent is received, and what is received is decoded.

Neither the decode thread nor the receive thread sees how the stream was cut or what is still to be
sent; `widen` adds that to their state, so that the invariants there speak of all that is sent. A
decode thread that sleeps has nothing to take, or is about to be notified (`Alert`).
-/

namespace DCScan.Disconnect

open Lib Message
open Framing (Framed DecodeInv Holding)

variable {msgs new : List DefaultMessage} {chunks more : List (List UInt8)}
variable {s t : State} {a : Action} {f : Framing.State} {b : Framing.Action}

/-! ## The stream -/

/-- The stream goes on with these chunks. -/
def extend (more : List (List UInt8)) (f : Framing.State) : Framing.State :=
  { f with toReceive := f.toReceive ++ more }

def State.widen (more : List (List UInt8)) (s : State) : State :=
  { s with frames := extend more s.frames }

theorem step_extend (other : b ≠ .addBytes) :
    Framing.step (extend more f) b = (Framing.step f b).map (extend more) := by
  obtain ⟨queue, toReceive, received, consumer, decoded⟩ := f
  cases b with
  | addBytes => exact absurd rfl other
  | readHeader =>
    cases consumer with
    | waitHeader =>
      cases ready : queue.headerReady <;> cases asked : queue.ntfUnblock <;>
        simp [Framing.step, extend, ready, asked]
    | _ => rfl
  | takeBody =>
    cases consumer with
    | waitBody to_read =>
      cases there : queue.bodyReady to_read <;>
        simp [Framing.step, extend, there, Function.comp_def]
    | _ => rfl
  | decode mem =>
    cases consumer with
    | decoding data => simp [Framing.step, extend, Function.comp_def]
    | _ => rfl

theorem fetch_widen : fetch (s.widen more) = (fetch s).map (State.widen more) := by
  have header : Framing.step (extend more s.frames) .readHeader = _ := step_extend (by simp)
  have body : Framing.step (extend more s.frames) .takeBody = _ := step_extend (by simp)
  have consumer : (extend more s.frames).consumer = s.frames.consumer := rfl
  have queue : (extend more s.frames).queue = s.frames.queue := rfl
  cases stand : s.frames.consumer with
  | waitHeader =>
    cases ready : s.frames.queue.headerReady <;>
      simp [fetch, State.widen, consumer, queue, stand, ready, header, Function.comp_def]
  | waitBody to_read =>
    cases there : s.frames.queue.bodyReady to_read <;>
      simp [fetch, State.widen, consumer, queue, stand, there, body, Function.comp_def]
  | decoding data => simp [fetch, State.widen, consumer, stand]

/-- Only the receive thread looks at the stream. -/
theorem step_widen (other : a ≠ .receive) :
    step (s.widen more) a = (step s a).map (State.widen more) := by
  have decoder : (s.widen more).decoder = s.decoder := rfl
  cases a with
  | receive => exact absurd rfl other
  | enter | check | resume =>
    simp only [step, decoder]
    split
    · exact fetch_widen
    · rfl
  | decode mem =>
    have made : Framing.step (extend more s.frames) (.decode mem) = _ := step_extend (by simp)
    simp only [step, State.widen, made]
    split
    · rw [Option.map_map, Option.map_map]
      rfl
    · rfl
  | restartQueue block =>
    by_cases fresh : block.length = s.frames.queue.internalBuffMaxSize <;>
      cases side : s.side <;> cases stand : s.receiver <;>
      simp [step, State.widen, restartQueue, extend, fresh, side, stand]
  | restart block =>
    by_cases fresh : block.length = s.frames.queue.internalBuffMaxSize <;>
      cases stand : s.decoder <;>
      simp [step, State.widen, restartQueue, extend, fresh, stand]
  | _ =>
    simp only [step, State.widen]
    split <;> rfl

theorem receive_widen (ran : step s .receive = some t) :
    step (s.widen more) .receive = some (t.widen more) := by
  simp only [step] at ran
  split at ran
  · rename_i stand
    split at ran
    · contradiction
    · rename_i free
      obtain ⟨frames, moved, rfl⟩ := Option.map_eq_some_iff.mp ran
      cases Framing.effect_of_step moved with
      | addBytes pending added =>
        simp [step, State.widen, extend, stand, free, Framing.step, pending, added]
  · contradiction

/-- A step is one of the threads over the longer stream. -/
theorem widen_of_step (ran : step s a = some t) : step (s.widen more) a = some (t.widen more) := by
  by_cases receives : a = .receive
  · subst receives
    exact receive_widen ran
  · rw [step_widen receives, ran]
    rfl

/-- How the stream was cut does not matter. -/
theorem sound_withStream (sound : Sound msgs s) (same : chunks.flatten = s.frames.toReceive.flatten) :
    Sound msgs (s.withStream chunks) := by
  refine { sound with frames := fun going => ?_ }
  obtain ⟨running, capacity, accounted, rest, split, holding⟩ := sound.frames going
  refine ⟨running, capacity, accounted, rest, split, ?_⟩
  unfold Holding at holding ⊢
  simp only [State.withStream, calm, same] at holding ⊢
  exact holding

/-- More messages are sent. -/
theorem sound_widen (sound : Sound msgs s) (sent : more.flatten = new.flatMap frame) :
    Sound (msgs ++ new) (s.widen more) := by
  refine { sound with frames := fun going => ?_ }
  obtain ⟨running, capacity, accounted, rest, split, holding⟩ := sound.frames going
  refine ⟨running, capacity, accounted, rest ++ new, ?_, ?_⟩
  · rw [split, List.append_assoc]
    rfl
  · have longer {later : List DefaultMessage}
        (stream : (calm s.frames).queue.contents ++ (calm s.frames).toReceive.flatten =
          later.flatMap frame) :
        (calm s.frames).queue.contents ++ (s.frames.toReceive ++ more).flatten =
          (later ++ new).flatMap frame := by
      rw [List.flatten_append, ← List.append_assoc, List.flatMap_append, sent]
      exact congrArg (· ++ _) stream
    cases stand : s.frames.consumer with
    | waitHeader =>
      simp only [Holding, calm, stand] at holding
      simp only [Holding, calm, State.widen, extend, stand]
      exact longer holding
    | waitBody to_read =>
      simp only [Holding, calm, stand] at holding
      obtain ⟨stream, m, later, rfl, size⟩ := holding
      simp only [Holding, calm, State.widen, extend, stand]
      exact ⟨longer stream, m, later ++ new, rfl, size⟩
    | decoding data =>
      simp only [Holding, calm, stand] at holding
      obtain ⟨m, later, rfl, taken, stream⟩ := holding
      simp only [Holding, calm, State.widen, extend, stand]
      exact ⟨m, later ++ new, rfl, taken, longer stream⟩

/-- Only decoding adds to what is decoded. -/
theorem decoded_cases (eff : Effect s a t) : t.frames.decoded = s.frames.decoded ∨
    (∃ mem, a = .decode mem) ∧ t.decoder = .testing ∧
      ∃ msg, t.frames.decoded = s.frames.decoded ++ [msg] := by
  cases eff with
  | receive _ _ ran =>
    cases Framing.effect_of_step ran
    exact Or.inl rfl
  | fetch _ _ fetched => cases fetched <;> exact Or.inl rfl
  | decode => exact Or.inr ⟨⟨_, rfl⟩, rfl, _, rfl⟩
  | _ => exact Or.inl rfl

/-- What is decoded stays decoded, and a thread that has ended decodes nothing. -/
theorem decoded_of_effect (eff : Effect s a t) : s.frames.decoded <+: t.frames.decoded ∧
    (t.decoder = .finished → t.frames.decoded = s.frames.decoded) := by
  rcases decoded_cases eff with same | ⟨-, testing, msg, more⟩
  · exact ⟨same ▸ List.prefix_rfl, fun _ => same⟩
  · refine ⟨more ▸ List.prefix_append _ _, fun finished => ?_⟩
    rw [testing] at finished
    cases finished

theorem decoded_of_other (eff : Effect s a t) (other : ∀ mem, a ≠ .decode mem) :
    t.frames.decoded = s.frames.decoded :=
  (decoded_cases eff).resolve_right fun decodes => decodes.1.elim other

theorem decoded_of_decode {mem : Uninit} (ran : step s (.decode mem) = some t) :
    ∃ msg, t.frames.decoded = s.frames.decoded ++ [msg] := by
  simp only [step] at ran
  split at ran
  · obtain ⟨frames, made, rfl⟩ := Option.map_eq_some_iff.mp ran
    cases Framing.effect_of_step made with
    | @decode _ _ msg => exact ⟨msg, rfl⟩
  · contradiction

/-- So the messages that are decoded are the first of those sent, also when the thread has ended. -/
theorem front_step (framed : ∀ m ∈ msgs, Framed m) (sound : Sound msgs s)
    (front : s.frames.decoded <+: msgs) (eff : Effect s a t) : t.frames.decoded <+: msgs := by
  by_cases finished : t.decoder = .finished
  · rw [(decoded_of_effect eff).2 finished]
    exact front
  · obtain ⟨rest, split, _⟩ := ((sound_step framed sound eff).frames finished).position
    exact ⟨rest, split.symm⟩

theorem stream_of_decoder (own : a.ofDecoder = true) (eff : Effect s a t) :
    t.frames.toReceive = s.frames.toReceive := by
  cases eff with
  | fetch _ _ fetched => cases fetched <;> rfl
  | test | count | block | spurious | decode | restart => rfl
  | _ => cases own

/-- The receive thread does not go back, and leaves before all else. -/
theorem stage_of_effect (eff : Effect s a t) : s.receiver.stage ≤ t.receiver.stage ∧
    (1 ≤ t.receiver.stage → 1 ≤ s.receiver.stage ∨ a = .leave) := by
  cases eff with
  | fetch _ _ fetched =>
    rw [(frame_of_fetched fetched).2.2]
    exact ⟨le_rfl, Or.inl⟩
  | receive stand | notifyOne stand | leave stand | clear stand | store stand | notifyAll stand
  | join stand | restartQueue stand => simp [stand, Receiver.stage]
  | _ => exact ⟨le_rfl, Or.inl⟩

/-- Before the receive thread clears the flag, only the caller does. -/
theorem running_of_effect (eff : Effect s a t) (early : t.receiver.stage < 2) (other : a ≠ .stop) :
    t.running = s.running := by
  cases eff with
  | clear => simp [Receiver.stage] at early
  | stop => exact absurd rfl other
  | fetch _ _ fetched => exact (frame_of_fetched fetched).2.1
  | _ => rfl

/-! ## The sleeping decode thread -/

/-- The predicate of the wait that the decode thread is in is false. -/
structure Idle (q : ByteQueue) (c : Framing.Consumer) : Prop where
  low : c = .waitHeader → q.headerReady = false
  short : ∀ to_read, c = .waitBody to_read → q.bodyReady to_read = false

/-- Until the client's decode thread is asked to leave, it does not sleep over a frame that is there,
unless the notification is to come. -/
structure Alert (s : State) : Prop where
  client : s.side = .client
  looping : s.running = true →
    s.decoder ≠ .counting ∧ s.decoder ≠ .restarting ∧ s.decoder ≠ .finished
  calm : s.receiver.stage < 3 → s.frames.queue.ntfUnblock = false
  blocks : s.receiver.stage < 3 → s.decoder = .waiting .blocking →
    Idle s.frames.queue s.frames.consumer
  sleeps : s.receiver.stage < 3 → s.decoder = .waiting .sleeping →
    Idle s.frames.queue s.frames.consumer ∨ s.receiver = .added

theorem looping_wake {d : Decoder} (looping : d ≠ .counting ∧ d ≠ .restarting ∧ d ≠ .finished) :
    d.wake ≠ .counting ∧ d.wake ≠ .restarting ∧ d.wake ≠ .finished := by
  cases d <;> simp_all [Decoder.wake]

theorem alert_of_fetched (alert : Alert s) (fetched : Fetched s t) : Alert t := by
  cases fetched with
  | blocks low short _ =>
    exact ⟨alert.client, by simp, alert.calm, fun _ _ => ⟨low, short⟩, by simp⟩
  | leaves | header => exact ⟨alert.client, by simp, alert.calm, by simp, by simp⟩
  | body _ _ took =>
    simp only [ByteQueue.takeBody, Option.ite_none_right_eq_some, Option.some.injEq, Prod.mk.injEq]
      at took
    obtain ⟨_, _, rfl⟩ := took
    refine ⟨alert.client, fun _ => ?_, alert.calm, fun _ => ?_, fun _ => ?_⟩ <;>
      dsimp only <;> split <;> simp

theorem alert_step (sound : Sound msgs s) (alert : Alert s) (eff : Effect s a t) : Alert t := by
  have client := alert.client
  cases eff with
  | receive stand free ran same =>
    have early : s.receiver.stage < 3 := by simp [stand, Receiver.stage]
    refine ⟨client, alert.looping, fun _ => ?_, fun _ blocks => ?_, fun _ _ => Or.inr rfl⟩
    · cases Framing.effect_of_step ran with
      | addBytes _ added => exact (ByteQueue.addBytes_contents added).2.2.trans (alert.calm early)
    · rw [show s.decoder = _ from blocks] at free
      cases free
  | notifyOne stand =>
    have early : s.receiver.stage < 3 := by simp [stand, Receiver.stage]
    refine ⟨client, fun running => ?_, fun _ => alert.calm early,
      fun _ blocks => alert.blocks early (wake_blocking.mp blocks), fun _ sleeps => ?_⟩
    · exact looping_wake (alert.looping running)
    · exact absurd sleeps wake_ne_sleeping
  | leave stand =>
    have early : s.receiver.stage < 3 := by simp [stand, Receiver.stage]
    refine ⟨client, alert.looping, fun _ => alert.calm early, fun _ => alert.blocks early,
      fun _ sleeps => Or.inl ((alert.sleeps early sleeps).resolve_right ?_)⟩
    rw [stand]
    simp
  | clear stand =>
    have early : s.receiver.stage < 3 := by simp [stand, Receiver.stage]
    refine ⟨client, by simp, fun _ => alert.calm early, fun _ => alert.blocks early,
      fun _ sleeps => Or.inl ((alert.sleeps early sleeps).resolve_right ?_)⟩
    rw [stand]
    simp
  | store stand | join stand | restartQueue stand =>
    exact ⟨client, alert.looping, by simp [Receiver.stage], by simp [Receiver.stage],
      by simp [Receiver.stage]⟩
  | notifyAll stand =>
    exact ⟨client, fun running => looping_wake (alert.looping running), by simp [Receiver.stage],
      by simp [Receiver.stage], by simp [Receiver.stage]⟩
  | stop => exact ⟨client, by simp, alert.calm, alert.blocks, alert.sleeps⟩
  | test =>
    refine ⟨client, fun running => ?_, alert.calm, fun _ => ?_, fun _ => ?_⟩
    · rw [show s.running = true from running]
      simp
    all_goals
      dsimp only
      rw [client]
      split <;> simp
  | count stand =>
    refine ⟨client, fun running => absurd stand (alert.looping running).1, alert.calm, fun _ => ?_,
      fun _ => ?_⟩ <;> dsimp only <;> split <;> simp
  | fetch _ _ fetched => exact alert_of_fetched alert fetched
  | block stand =>
    exact ⟨client, by simp, alert.calm, by simp, fun early _ => Or.inl (alert.blocks early stand)⟩
  | spurious => exact ⟨client, by simp, alert.calm, by simp, by simp⟩
  | decode => exact ⟨client, by simp, alert.calm, by simp, by simp⟩
  | restart stand =>
    have fits := sound.fits
    rw [stand] at fits
    rw [side_of_restarting fits] at client
    cases client

/-! ## What is left to do -/

/-- A bound on the steps of the decode thread until it has decoded a frame that is there. -/
def Decoder.rank : Decoder → Nat
  | .testing => 6
  | .entering | .waiting .woken => 5
  | .checking => 4
  | .waiting .blocking => 2
  | .waiting .sleeping | .handling => 1
  | .counting | .restarting | .finished => 0

/-- A bound on its steps over the messages that are still to be decoded. -/
def toGo (msgs : List DefaultMessage) (s : State) : Nat :=
  8 * (msgs.length - s.frames.decoded.length) + s.decoder.rank

/-- In `fetchNextMsg` the decode thread waits or goes on. -/
theorem fetch_of_inside (framed : ∀ m ∈ msgs, Framed m) (inv : DecodeInv msgs (calm s.frames))
    (inside : ∀ data, s.frames.consumer ≠ .decoding data) : ∃ t, fetch s = some t := by
  cases stand : s.frames.consumer with
  | waitHeader =>
    cases ready : s.frames.queue.headerReady <;> cases asked : s.frames.queue.ntfUnblock <;>
      simp [fetch, stand, ready, Framing.step, asked]
  | waitBody to_read =>
    cases there : s.frames.queue.bodyReady to_read with
    | true => exact fetch_of_whole framed inv stand there
    | false => simp [fetch, stand, there]
  | decoding data => exact absurd stand (inside data)

/-- The length that is read before a body is that of the next message. -/
theorem length_ne_zero_of_body (inv : DecodeInv msgs (calm s.frames)) {to_read : Int}
    (at_body : s.frames.consumer = .waitBody to_read) : to_read ≠ 0 := by
  obtain ⟨rest, _, holding⟩ := inv.position
  simp only [Holding, calm, at_body] at holding
  obtain ⟨_, m, later, _, rfl⟩ := holding
  rw [body_length]
  omega

theorem fetched_toGo (inv : DecodeInv msgs (calm s.frames)) (alert : Alert s)
    (early : s.receiver.stage < 3) (fits : Fits s.side s.decoder s.frames.consumer)
    (stand : s.decoder = .entering ∨ s.decoder = .checking ∨ s.decoder = .waiting .woken)
    (fetched : Fetched s t) : toGo msgs t < toGo msgs s := by
  have inside : 4 ≤ s.decoder.rank := by rcases stand with same | same | same <;> simp [same, Decoder.rank]
  cases fetched with
  | blocks => exact Nat.add_lt_add_left (lt_of_lt_of_le (by simp [Decoder.rank]) inside) _
  | leaves _ asked =>
    rw [alert.calm early] at asked
    cases asked
  | header at_header =>
    have above : 5 ≤ s.decoder.rank := by
      rcases stand with same | same | same
      · simp [same, Decoder.rank]
      · rw [same, at_header] at fits
        cases side : s.side <;> rw [side] at fits <;> exact fits.elim
      · simp [same, Decoder.rank]
    exact Nat.add_lt_add_left (lt_of_lt_of_le (by simp [Decoder.rank]) above) _
  | body at_body =>
    simp only [toGo, length_ne_zero_of_body inv at_body, ↓reduceIte]
    exact Nat.add_lt_add_left (lt_of_lt_of_le (by simp [Decoder.rank]) inside) _

/-- While the connection lasts, a decode thread that does not sleep gets on. -/
theorem decoder_runs (framed : ∀ m ∈ msgs, Framed m) (sound : Sound msgs s) (alert : Alert s)
    (running : s.running = true) (early : s.receiver.stage < 3)
    (awake : s.decoder ≠ .waiting .sleeping) :
    ∃ a t, a.ofDecoder = true ∧ a ≠ .spurious ∧ step s a = some t ∧ toGo msgs t < toGo msgs s := by
  obtain ⟨counts, restarts, finishes⟩ := alert.looping running
  have inv := sound.frames finishes
  have fits := sound.fits
  have fetches (inside : ∀ data, s.frames.consumer ≠ .decoding data)
      (stand : s.decoder = .entering ∨ s.decoder = .checking ∨ s.decoder = .waiting .woken) :
      ∃ t, fetch s = some t ∧ toGo msgs t < toGo msgs s := by
    obtain ⟨t, ran⟩ := fetch_of_inside framed inv inside
    exact ⟨t, ran, fetched_toGo inv alert early fits stand (fetched_of_fetch ran)⟩
  cases stand : s.decoder with
  | testing =>
    refine ⟨.test, { s with decoder := .entering }, rfl, by simp, by simp [step, stand, running], ?_⟩
    simp [toGo, stand, Decoder.rank]
  | counting => exact absurd stand counts
  | entering =>
    rw [stand] at fits
    obtain ⟨t, ran, less⟩ := fetches (by simp [at_header fits rfl]) (Or.inl stand)
    exact ⟨.enter, t, rfl, by simp, by simp only [step, stand, ran], less⟩
  | checking =>
    rw [stand] at fits
    obtain ⟨t, ran, less⟩ := fetches (fun data hand => by rw [hand] at fits; cases s.side <;> exact fits)
      (Or.inr (Or.inl stand))
    exact ⟨.check, t, rfl, by simp, by simp only [step, stand, ran], less⟩
  | waiting w =>
    cases w with
    | blocking =>
      refine ⟨.block, { s with decoder := .waiting .sleeping }, rfl, by simp, by simp only [step, stand], ?_⟩
      simp [toGo, stand, Decoder.rank]
    | sleeping => exact absurd stand awake
    | woken =>
      rw [stand] at fits
      obtain ⟨t, ran, less⟩ := fetches
        (fun data hand => by rw [hand] at fits; cases s.side <;> exact fits) (Or.inr (Or.inr stand))
      exact ⟨.resume, t, rfl, by simp, by simp only [step, stand, ran], less⟩
  | handling =>
    rw [stand] at fits
    cases in_hand : s.frames.consumer with
    | decoding data =>
      obtain ⟨rest, split, holding⟩ := inv.position
      simp only [Holding, calm, in_hand] at holding
      obtain ⟨m, later, rfl, rfl, _⟩ := holding
      have valid : Framed m := framed m (by rw [split]; simp)
      have made : decode .zeros (body m) = some m :=
        decode_body valid.filled valid.nonempty (by have := valid.length_lt; omega)
      refine ⟨.decode .zeros, _, rfl, by simp, by
        simp only [step, stand, Framing.step, in_hand, made, Option.map_some]; rfl, ?_⟩
      have counted := congrArg List.length split
      simp only [calm, List.length_append, List.length_cons] at counted
      simp only [toGo, stand, Decoder.rank, List.length_append, List.length_singleton]
      omega
    | _ => rw [in_hand] at fits; cases s.side <;> exact fits.elim
  | restarting => exact absurd stand restarts
  | finished => exact absurd stand finishes

/-- A decode thread that sleeps with messages to come has more to receive, and room for it. -/
theorem more_of_idle (framed : ∀ m ∈ msgs, Framed m) (inv : DecodeInv msgs (calm s.frames))
    (idle : Idle s.frames.queue s.frames.consumer) (inside : ∀ data, s.frames.consumer ≠ .decoding data)
    (short : s.frames.decoded ≠ msgs) :
    s.frames.toReceive.flatten ≠ [] ∧ s.frames.queue.roomFor 1 := by
  obtain ⟨rest, split, holding⟩ := inv.position
  have capacity : s.frames.queue.internalBuffMaxSize = Framing.ibBuffSize := inv.capacity
  have size := s.frames.queue.contents_length
  have stream : s.frames.queue.contents ++ s.frames.toReceive.flatten = rest.flatMap frame := by
    cases stand : s.frames.consumer with
    | waitHeader =>
      simp only [Holding, calm, stand] at holding
      exact holding
    | waitBody to_read =>
      simp only [Holding, calm, stand] at holding
      exact holding.1
    | decoding data => exact absurd stand (inside data)
  cases rest with
  | nil =>
    rw [List.append_nil] at split
    exact absurd split.symm short
  | cons m later =>
    have valid : Framed m := framed m (by rw [split]; simp)
    have fits := valid.fits
    have held : s.frames.queue.internalBuffSize < m.size + 13 := by
      cases stand : s.frames.consumer with
      | waitHeader =>
        have low := idle.low stand
        simp only [ByteQueue.headerReady, Bool.or_eq_false_iff, decide_eq_false_iff_not] at low
        omega
      | waitBody to_read =>
        simp only [Holding, calm, stand] at holding
        obtain ⟨_, n, _, same, rfl⟩ := holding
        obtain ⟨rfl, rfl⟩ := List.cons.inj same
        have low := idle.short _ stand
        have sizes := (ByteQueue.sizes_of_length (n := (body m).length) (by
          have := valid.length_lt
          rw [body_length]
          omega)).2
        rw [ByteQueue.bodyReady, decide_eq_false_iff_not, sizes, body_length] at low
        omega
      | decoding data => exact absurd stand (inside data)
    refine ⟨fun empty => ?_, ?_⟩
    · have total := congrArg List.length stream
      rw [empty, List.append_nil, List.flatMap_cons, List.length_append, frame_length, size] at total
      omega
    · rw [ByteQueue.roomFor, capacity]
      omega

end DCScan.Disconnect
