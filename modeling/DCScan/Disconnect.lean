import DCScan.Lib.Monitor
import DCScan.Framing

/-!
The end of a connection: what becomes of the decode thread when the receive thread leaves.

The receive thread clears the running flag, calls `notify_unblock` and joins the decode thread.
`notify_unblock` ends the first wait of `fetchNextMsg` and not the second, it takes no lock, and
the client's loop goes on while bytes are queued. `InTime` is the condition under which the decode
thread gets out all the same.

The bytes and the frames are those of `Framing.step`; this module adds the threads around them. The
wait of `addBytes` for room is a guard, as it is there.
-/

namespace DCScan.Disconnect

open Lib Message
open Framing (Framed DecodeInv Holding)

inductive Side where
  | server
  | client
  deriving DecidableEq, Repr

/-- Where the decode thread stands; which of the two waits it is in is told by `frames.consumer`. -/
inductive Decoder where
  /-- About to load the running flag. -/
  | testing
  /-- The client's flag is cleared, and `count()` is to come. -/
  | counting
  /-- About to lock the mutex in `fetchNextMsg`. -/
  | entering
  /-- Behind the first wait, with the mutex. -/
  | checking
  | waiting (w : Waiter)
  /-- `fetchNextMsg` has returned a body. -/
  | handling
  /-- The server's thread has left its loop, and `notify_restart()` is to come. -/
  | restarting
  | finished
  deriving DecidableEq, Repr

/-- Where the receive thread stands. -/
inductive Receiver where
  | receiving
  /-- `addBytes` has added a chunk, and its `c.notify_one` is to come. -/
  | added
  /-- `ReceiveData` has returned nothing, or the flag was found cleared. -/
  | left
  | cleared
  /-- `ntf_unblock` is set, and `c.notify_all` is to come. -/
  | stored
  | joining
  | joined
  /-- The client's thread has called `notify_restart()`. -/
  | done
  deriving DecidableEq, Repr

structure State where
  side : Side
  frames : Framing.State
  running : Bool
  decoder : Decoder
  receiver : Receiver

inductive Action where
  | receive
  | notifyOne
  | leave
  | clear
  | store
  | notifyAll
  | join
  | restartQueue (block : List UInt8)
  /-- `Client::StopThread` clears the flag. -/
  | stop
  | test
  | count
  | enter
  | check
  | block
  | spurious
  | resume
  | decode (mem : Uninit)
  | restart (block : List UInt8)

/-- The steps of the decode thread. -/
def Action.ofDecoder : Action → Bool
  | .test | .count | .enter | .check | .block | .spurious | .resume | .decode _ | .restart _ => true
  | _ => false

def Decoder.wake : Decoder → Decoder
  | .waiting w => .waiting w.wake
  | d => d

/-- The decode thread has the mutex between two of its steps. -/
def Decoder.holds : Decoder → Bool
  | .checking | .waiting .blocking => true
  | _ => false

/-- The decode thread evaluates the predicate of the wait it is in, and goes on when that holds. -/
def fetch (s : State) : Option State :=
  match s.frames.consumer with
  | .waitHeader =>
    if s.frames.queue.headerReady then
      (Framing.step s.frames .readHeader).map fun frames =>
        { s with
          frames := frames, decoder := if s.frames.queue.ntfUnblock then .testing else .checking }
    else some { s with decoder := .waiting .blocking }
  | .waitBody to_read =>
    if s.frames.queue.bodyReady to_read then
      (Framing.step s.frames .takeBody).map fun frames =>
        -- an empty body is passed over as `notify_unblock`'s 0 is
        { s with frames := frames, decoder := if to_read = 0 then .testing else .handling }
    else some { s with decoder := .waiting .blocking }
  | .decoding _ => none

/-- `notify_restart`. -/
def restartQueue (frames : Framing.State) (block : List UInt8) : Option Framing.State :=
  if fresh : block.length = frames.queue.internalBuffMaxSize then
    some { frames with queue := frames.queue.notifyRestart block fresh }
  else none

def step (s : State) : Action → Option State
  | .receive => match s.receiver with
    | .receiving =>
      if s.decoder.holds then none
      else (Framing.step s.frames .addBytes).map fun frames =>
        { s with frames := frames, receiver := .added }
    | _ => none
  | .notifyOne => match s.receiver with
    | .added => some { s with receiver := .receiving, decoder := s.decoder.wake }
    | _ => none
  | .leave => match s.receiver with
    | .receiving => some { s with receiver := .left }
    | _ => none
  | .clear => match s.receiver with
    | .left => some { s with receiver := .cleared, running := false }
    | _ => none
  | .store => match s.receiver with
    | .cleared => some { s with
        receiver := .stored,
        frames := { s.frames with queue := s.frames.queue.notifyUnblock } }
    | _ => none
  | .notifyAll => match s.receiver with
    | .stored => some { s with receiver := .joining, decoder := s.decoder.wake }
    | _ => none
  | .join => match s.receiver, s.decoder with
    | .joining, .finished => some { s with receiver := .joined }
    | _, _ => none
  | .restartQueue block => match s.side, s.receiver with
    | .client, .joined => (restartQueue s.frames block).map fun frames =>
      { s with frames := frames, receiver := .done }
    | _, _ => none
  | .stop => match s.side with
    | .client => some { s with running := false }
    | .server => none
  | .test => match s.decoder with
    | .testing => some { s with decoder :=
        if s.running then .entering
        else match s.side with
          | .server => .restarting
          | .client => .counting }
    | _ => none
  | .count => match s.decoder with
    | .counting => some { s with
        decoder := if 0 < s.frames.queue.internalBuffSize then .entering else .finished }
    | _ => none
  | .enter => match s.decoder with
    | .entering => fetch s
    | _ => none
  | .check => match s.decoder with
    | .checking => fetch s
    | _ => none
  | .block => match s.decoder with
    | .waiting .blocking => some { s with decoder := .waiting .sleeping }
    | _ => none
  | .spurious => match s.decoder with
    | .waiting .sleeping => some { s with decoder := .waiting .woken }
    | _ => none
  | .resume => match s.decoder with
    | .waiting .woken => fetch s
    | _ => none
  | .decode mem => match s.decoder with
    | .handling => (Framing.step s.frames (.decode mem)).map fun frames =>
      { s with frames := frames, decoder := .testing }
    | _ => none
  | .restart block => match s.decoder with
    | .restarting => (restartQueue s.frames block).map fun frames =>
      { s with frames := frames, decoder := .finished }
    | _ => none

/-- A session on either side. The queue is empty; `ntf_unblock` may be set from a session before. -/
def system (side : Side) (chunks : List (List UInt8)) : System State Action where
  init s := ∃ frames unblock, (Framing.system chunks).init frames ∧
    s = ⟨side, { frames with queue := { frames.queue with ntfUnblock := unblock } }, true, .testing,
      .receiving⟩
  step := step

/-- The threads, with these chunks to receive. -/
def State.withStream (s : State) (chunks : List (List UInt8)) : State :=
  { s with frames := { s.frames with toReceive := chunks } }

variable {msgs : List DefaultMessage} {chunks : List (List UInt8)} {side : Side}
variable {s t : State} {a : Action} {f g : Framing.State} {b : Framing.Action} {q : ByteQueue}

/-! ## The frames -/

/-- The queue as if nobody were asked to leave. -/
def calmQueue (q : ByteQueue) : ByteQueue := { q with ntfUnblock := false }

def calm (f : Framing.State) : Framing.State := { f with queue := calmQueue f.queue }

theorem addBytes_calm (data : List UInt8) :
    (calmQueue q).addBytes data = (q.addBytes data).map calmQueue := by
  have same : (calmQueue q).roomFor data.length ↔ q.roomFor data.length := Iff.rfl
  by_cases room : q.roomFor data.length
  · rw [ByteQueue.addBytes, ByteQueue.addBytes, dif_pos room, dif_pos (same.mpr room)]
    rfl
  · rw [ByteQueue.addBytes, ByteQueue.addBytes, dif_neg room, dif_neg (same.not.mpr room)]
    rfl

theorem takeBody_calm (to_read : Int) (dstSize : Nat) :
    (calmQueue q).takeBody to_read dstSize =
      (q.takeBody to_read dstSize).map fun taken => (taken.1, calmQueue taken.2) := by
  by_cases fits : 4 + unsigned 64 to_read ≤ q.internalBuffMaxSize ∧ unsigned 64 to_read ≤ dstSize
  · exact (if_pos fits).trans (by rw [ByteQueue.takeBody, if_pos fits]; rfl)
  · exact (if_neg fits).trans (by rw [ByteQueue.takeBody, if_neg fits]; rfl)

/-- Only the first wait reads `ntf_unblock`. -/
theorem step_calm (other : b ≠ .readHeader) :
    Framing.step (calm f) b = (Framing.step f b).map calm := by
  cases b with
  | readHeader => exact absurd rfl other
  | addBytes =>
    simp only [Framing.step, calm]
    split
    · rfl
    · rw [addBytes_calm, Option.map_map, Option.map_map]
      rfl
  | takeBody =>
    simp only [Framing.step, calm]
    split
    · rename_i to_read _
      change (if f.queue.bodyReady to_read = true then _ else none) = _
      split
      · rw [takeBody_calm, Option.map_map, Option.map_map]
        rfl
      · rfl
    · rfl
  | decode mem =>
    simp only [Framing.step, calm]
    split
    · rw [Option.map_map]
      rfl
    · rfl

/-- A step of the frames keeps their invariant, whether or not the decode thread is asked to leave. -/
theorem calm_inv (framed : ∀ m ∈ msgs, Framed m) (inv : DecodeInv msgs (calm f))
    (ran : Framing.step f b = some g) : DecodeInv msgs (calm g) := by
  by_cases first : b = .readHeader
  · subst first
    cases unblock : f.queue.ntfUnblock with
    | true =>
      cases Framing.effect_of_step ran with
      | unblocked => exact inv
      | readHeader _ _ calm => exact absurd (unblock.symm.trans calm) nofun
    | false =>
      have same : ∀ {h : Framing.State}, h.queue.ntfUnblock = false → calm h = h := fun {h} off => by
        rw [calm, calmQueue, ← off]
      rw [same unblock] at inv
      have kept := Framing.readHeader_inv framed inv ran
      rwa [same kept.running]
  · exact Framing.step_inv framed inv (by rw [step_calm first, ran]; rfl)

/-! ## The decode thread -/

/-- What an evaluation of the wait's predicate leads to. -/
inductive Fetched (s : State) : State → Prop
  | blocks (low : s.frames.consumer = .waitHeader → s.frames.queue.headerReady = false)
      (short : ∀ to_read, s.frames.consumer = .waitBody to_read →
        s.frames.queue.bodyReady to_read = false) (inside : ∀ data, s.frames.consumer ≠ .decoding data) :
      Fetched s { s with decoder := .waiting .blocking }
  | leaves (at_header : s.frames.consumer = .waitHeader) (asked : s.frames.queue.ntfUnblock = true) :
      Fetched s { s with decoder := .testing }
  | header (at_header : s.frames.consumer = .waitHeader) (calm : s.frames.queue.ntfUnblock = false)
      (ran : Framing.step s.frames .readHeader =
        some { s.frames with consumer := .waitBody s.frames.queue.toRead }) :
      Fetched s { s with
        frames := { s.frames with consumer := .waitBody s.frames.queue.toRead }, decoder := .checking }
  | body {to_read data queue} (at_body : s.frames.consumer = .waitBody to_read)
      (there : s.frames.queue.bodyReady to_read = true)
      (took : s.frames.queue.takeBody to_read Framing.ibBuffSize = some (data, queue))
      (ran : Framing.step s.frames .takeBody = some { s.frames with
        queue := queue, consumer := if to_read = 0 then .waitHeader else .decoding data }) :
      Fetched s { s with
        frames := { s.frames with
          queue := queue, consumer := if to_read = 0 then .waitHeader else .decoding data },
        decoder := if to_read = 0 then .testing else .handling }

theorem fetched_of_fetch (ran : fetch s = some t) : Fetched s t := by
  unfold fetch at ran
  split at ran
  · rename_i at_header
    split at ran
    · rename_i ready
      obtain ⟨frames, stepped, rfl⟩ := Option.map_eq_some_iff.mp ran
      cases Framing.effect_of_step stepped with
      | unblocked _ asked =>
        rw [if_pos asked]
        exact .leaves at_header asked
      | readHeader _ _ calm =>
        rw [if_neg (Bool.eq_false_iff.mp calm)]
        exact .header at_header calm stepped
    · rename_i low
      cases ran
      exact .blocks (fun _ => eq_false_of_ne_true low) (by simp [at_header]) (by simp [at_header])
  · rename_i to_read at_body
    split at ran
    · rename_i there
      obtain ⟨frames, stepped, rfl⟩ := Option.map_eq_some_iff.mp ran
      cases Framing.effect_of_step stepped with
      | takeBody at_body' there took =>
        cases at_body.symm.trans at_body'
        exact .body at_body there took stepped
    · rename_i short
      cases ran
      refine .blocks (by simp [at_body]) (fun n same => ?_) (by simp [at_body])
      rw [at_body, Framing.Consumer.waitBody.injEq] at same
      rw [← same]
      exact eq_false_of_ne_true short
  · contradiction

/-- What each action finds, and leaves. -/
inductive Effect (s : State) : Action → State → Prop
  | receive {frames} (stand : s.receiver = .receiving) (free : s.decoder.holds = false)
      (ran : Framing.step s.frames .addBytes = some frames)
      (same : frames.consumer = s.frames.consumer) :
      Effect s .receive { s with frames := frames, receiver := .added }
  | notifyOne (stand : s.receiver = .added) :
      Effect s .notifyOne { s with receiver := .receiving, decoder := s.decoder.wake }
  | leave (stand : s.receiver = .receiving) : Effect s .leave { s with receiver := .left }
  | clear (stand : s.receiver = .left) :
      Effect s .clear { s with receiver := .cleared, running := false }
  | store (stand : s.receiver = .cleared) :
      Effect s .store { s with
        receiver := .stored,
        frames := { s.frames with queue := s.frames.queue.notifyUnblock } }
  | notifyAll (stand : s.receiver = .stored) :
      Effect s .notifyAll { s with receiver := .joining, decoder := s.decoder.wake }
  | join (stand : s.receiver = .joining) (finished : s.decoder = .finished) :
      Effect s .join { s with receiver := .joined }
  | restartQueue {block queue} (stand : s.receiver = .joined) :
      Effect s (.restartQueue block)
        { s with frames := { s.frames with queue := queue }, receiver := .done }
  | stop : Effect s .stop { s with running := false }
  | test (stand : s.decoder = .testing) :
      Effect s .test { s with decoder :=
        if s.running then .entering
        else match s.side with
          | .server => .restarting
          | .client => .counting }
  | count (stand : s.decoder = .counting) :
      Effect s .count { s with
        decoder := if 0 < s.frames.queue.internalBuffSize then .entering else .finished }
  | fetch {act : Action} {next : State} (own : act.ofDecoder = true)
      (stand : s.decoder = .entering ∨ s.decoder = .checking ∨ s.decoder = .waiting .woken)
      (fetched : Fetched s next) : Effect s act next
  | block (stand : s.decoder = .waiting .blocking) :
      Effect s .block { s with decoder := .waiting .sleeping }
  | spurious (stand : s.decoder = .waiting .sleeping) :
      Effect s .spurious { s with decoder := .waiting .woken }
  | decode {mem data msg} (stand : s.decoder = .handling) (in_hand : s.frames.consumer = .decoding data)
      (ran : Framing.step s.frames (.decode mem) = some { s.frames with
        consumer := .waitHeader, decoded := s.frames.decoded ++ [msg] }) :
      Effect s (.decode mem) { s with
        frames := { s.frames with consumer := .waitHeader, decoded := s.frames.decoded ++ [msg] },
        decoder := .testing }
  | restart {block queue} (stand : s.decoder = .restarting) :
      Effect s (.restart block)
        { s with frames := { s.frames with queue := queue }, decoder := .finished }

theorem queue_of_restartQueue {block : List UInt8} (ran : restartQueue f block = some g) :
    ∃ queue, g = { f with queue := queue } := by
  unfold restartQueue at ran
  split at ran <;> cases ran
  exact ⟨_, rfl⟩

theorem effect_of_step (ran : step s a = some t) : Effect s a t := by
  cases a with
  | receive =>
    simp only [step] at ran
    split at ran
    · rename_i stand
      split at ran
      · contradiction
      · rename_i free
        obtain ⟨frames, stepped, rfl⟩ := Option.map_eq_some_iff.mp ran
        refine .receive stand (eq_false_of_ne_true free) stepped ?_
        cases Framing.effect_of_step stepped with
        | addBytes => rfl
    · contradiction
  | notifyOne =>
    simp only [step] at ran
    split at ran <;> cases ran
    exact .notifyOne ‹_›
  | leave =>
    simp only [step] at ran
    split at ran <;> cases ran
    exact .leave ‹_›
  | clear =>
    simp only [step] at ran
    split at ran <;> cases ran
    exact .clear ‹_›
  | store =>
    simp only [step] at ran
    split at ran <;> cases ran
    exact .store ‹_›
  | notifyAll =>
    simp only [step] at ran
    split at ran <;> cases ran
    exact .notifyAll ‹_›
  | join =>
    simp only [step] at ran
    split at ran <;> cases ran
    exact .join ‹_› ‹_›
  | restartQueue block =>
    simp only [step] at ran
    split at ran
    · obtain ⟨frames, restarted, rfl⟩ := Option.map_eq_some_iff.mp ran
      obtain ⟨queue, rfl⟩ := queue_of_restartQueue restarted
      exact .restartQueue ‹_›
    · contradiction
  | stop =>
    simp only [step] at ran
    split at ran <;> cases ran
    exact .stop
  | test =>
    simp only [step] at ran
    split at ran <;> cases ran
    exact .test ‹_›
  | count =>
    simp only [step] at ran
    split at ran <;> cases ran
    exact .count ‹_›
  | enter =>
    simp only [step] at ran
    split at ran
    · exact .fetch rfl (Or.inl ‹_›) (fetched_of_fetch ran)
    · contradiction
  | check =>
    simp only [step] at ran
    split at ran
    · exact .fetch rfl (Or.inr (Or.inl ‹_›)) (fetched_of_fetch ran)
    · contradiction
  | resume =>
    simp only [step] at ran
    split at ran
    · exact .fetch rfl (Or.inr (Or.inr ‹_›)) (fetched_of_fetch ran)
    · contradiction
  | block =>
    simp only [step] at ran
    split at ran <;> cases ran
    exact .block ‹_›
  | spurious =>
    simp only [step] at ran
    split at ran <;> cases ran
    exact .spurious ‹_›
  | decode mem =>
    simp only [step] at ran
    split at ran
    · rename_i stand
      obtain ⟨frames, stepped, rfl⟩ := Option.map_eq_some_iff.mp ran
      cases Framing.effect_of_step stepped with
      | decode in_hand => exact .decode stand in_hand stepped
    · contradiction
  | restart block =>
    simp only [step] at ran
    split at ran
    · obtain ⟨frames, restarted, rfl⟩ := Option.map_eq_some_iff.mp ran
      obtain ⟨queue, rfl⟩ := queue_of_restartQueue restarted
      exact .restart ‹_›
    · contradiction

/-! ## Where the threads stand -/

/-- The decode thread's place goes with the wait or the frame it is at, and with its side. -/
def Fits : Side → Decoder → Framing.Consumer → Prop
  | _, .checking, .waitBody _ | _, .waiting _, .waitBody _ | _, .waiting _, .waitHeader => True
  | _, .handling, .decoding _ => True
  | _, .testing, .waitHeader | _, .entering, .waitHeader | _, .finished, .waitHeader => True
  | .client, .counting, .waitHeader | .server, .restarting, .waitHeader => True
  | _, _, _ => False

/-- How far the receive thread is on its way out. -/
def Receiver.stage : Receiver → Nat
  | .receiving | .added => 0
  | .left => 1
  | .cleared => 2
  | .stored => 3
  | .joining => 4
  | .joined => 5
  | .done => 6

structure Sound (msgs : List DefaultMessage) (s : State) : Prop where
  fits : Fits s.side s.decoder s.frames.consumer
  frames : s.decoder ≠ .finished → DecodeInv msgs (calm s.frames)
  cleared : 2 ≤ s.receiver.stage → s.running = false
  ended : 5 ≤ s.receiver.stage → s.decoder = .finished

section Places

variable {d : Decoder} {c : Framing.Consumer}

/-- The decode thread is not in `fetchNextMsg`'s second wait, nor behind it. -/
def Decoder.outside : Decoder → Bool
  | .checking | .waiting _ | .handling => false
  | _ => true

theorem at_header (fits : Fits side d c) (outside : d.outside = true) : c = .waitHeader := by
  cases d <;> simp only [Decoder.outside, Bool.false_eq_true] at outside <;> cases side <;> cases c <;>
    first | rfl | exact fits.elim

theorem side_of_counting (fits : Fits side .counting c) : side = .client := by
  cases side with
  | client => rfl
  | server => cases c <;> exact fits.elim

theorem side_of_restarting (fits : Fits side .restarting c) : side = .server := by
  cases side with
  | server => rfl
  | client => cases c <;> exact fits.elim

theorem fits_wake (fits : Fits side d c) : Fits side d.wake c := by
  cases d with
  | waiting w => cases c <;> first | exact fits.elim | trivial
  | _ => exact fits

theorem wake_finished : d.wake = .finished ↔ d = .finished := by
  cases d <;> simp [Decoder.wake]

theorem wake_blocking : d.wake = .waiting .blocking ↔ d = .waiting .blocking := by
  cases d <;> simp [Decoder.wake]

theorem wake_ne_sleeping : d.wake ≠ .waiting .sleeping := by
  cases d <;> simp [Decoder.wake]

end Places

theorem fits_of_fetched (fetched : Fetched s t) : Fits t.side t.decoder t.frames.consumer := by
  cases fetched with
  | blocks low short inside =>
    cases stand : s.frames.consumer with
    | waitHeader | waitBody => trivial
    | decoding data => exact absurd stand (inside data)
  | leaves header =>
    rw [header]
    trivial
  | header => trivial
  | body =>
    dsimp only
    split <;> trivial

theorem inv_of_fetched (framed : ∀ m ∈ msgs, Framed m) (inv : DecodeInv msgs (calm s.frames))
    (fetched : Fetched s t) : DecodeInv msgs (calm t.frames) := by
  cases fetched with
  | blocks | leaves => exact inv
  | header _ _ ran | body _ _ _ ran => exact calm_inv framed inv ran

theorem frame_of_fetched (fetched : Fetched s t) :
    t.side = s.side ∧ t.running = s.running ∧ t.receiver = s.receiver := by
  cases fetched <;> exact ⟨rfl, rfl, rfl⟩

/-- A decode thread that takes a step of its loop has not been joined. -/
theorem Sound.early (sound : Sound msgs s) (going : s.decoder ≠ .finished) {p : Prop}
    (late : 5 ≤ s.receiver.stage) : p :=
  absurd (sound.ended late) going

theorem sound_step (framed : ∀ m ∈ msgs, Framed m) (sound : Sound msgs s)
    (eff : Effect s a t) : Sound msgs t := by
  have fits := sound.fits
  have decoding {d : Decoder} (stand : s.decoder = d) (other : d ≠ .finished) :
      s.decoder ≠ .finished := by rwa [stand]
  cases eff with
  | receive _ _ ran same =>
    refine ⟨?_, fun going => calm_inv framed (sound.frames going) ran, by simp [Receiver.stage],
      by simp [Receiver.stage]⟩
    dsimp only
    rwa [same]
  | notifyOne =>
    exact ⟨fits_wake fits, fun going => sound.frames (wake_finished.not.mp going),
      by simp [Receiver.stage], by simp [Receiver.stage]⟩
  | leave => exact ⟨fits, sound.frames, by simp [Receiver.stage], by simp [Receiver.stage]⟩
  | clear => exact ⟨fits, sound.frames, fun _ => rfl, by simp [Receiver.stage]⟩
  | store stand =>
    exact ⟨fits, sound.frames, fun _ => sound.cleared (by simp [stand, Receiver.stage]),
      by simp [Receiver.stage]⟩
  | notifyAll stand =>
    exact ⟨fits_wake fits, fun going => sound.frames (wake_finished.not.mp going),
      fun _ => sound.cleared (by simp [stand, Receiver.stage]), by simp [Receiver.stage]⟩
  | join stand finished =>
    exact ⟨fits, sound.frames, fun _ => sound.cleared (by simp [stand, Receiver.stage]),
      fun _ => finished⟩
  | restartQueue stand =>
    have finished := sound.ended (by simp [stand, Receiver.stage])
    exact ⟨fits, fun going => absurd finished going,
      fun _ => sound.cleared (by simp [stand, Receiver.stage]), fun _ => finished⟩
  | stop => exact ⟨fits, sound.frames, fun _ => rfl, sound.ended⟩
  | test stand =>
    have going := decoding stand (by simp)
    refine ⟨?_, fun _ => sound.frames going, sound.cleared, sound.early going⟩
    rw [stand] at fits
    rw [at_header fits rfl]
    split
    · trivial
    · cases s.side <;> trivial
  | count stand =>
    have going := decoding stand (by simp)
    refine ⟨?_, fun _ => sound.frames going, sound.cleared, sound.early going⟩
    rw [stand] at fits
    rw [at_header fits rfl]
    split <;> trivial
  | fetch own stand fetched =>
    have going : s.decoder ≠ .finished := by rcases stand with same | same | same <;> simp [same]
    obtain ⟨_, running, receiver⟩ := frame_of_fetched fetched
    refine ⟨fits_of_fetched fetched, fun _ => inv_of_fetched framed (sound.frames going) fetched, ?_, ?_⟩
    · rw [running, receiver]
      exact sound.cleared
    · rw [receiver]
      exact sound.early going
  | block stand | spurious stand =>
    have going := decoding stand (by simp)
    refine ⟨?_, fun _ => sound.frames going, sound.cleared, sound.early going⟩
    rw [stand] at fits
    cases at_wait : s.frames.consumer <;> rw [at_wait] at fits <;> first | exact fits.elim | trivial
  | decode stand in_hand ran =>
    have going := decoding stand (by simp)
    exact ⟨trivial, fun _ => calm_inv framed (sound.frames going) ran, sound.cleared,
      sound.early going⟩
  | restart stand =>
    refine ⟨?_, fun going => absurd rfl going, sound.cleared, fun _ => rfl⟩
    rw [stand] at fits
    dsimp only
    rw [at_header fits rfl]
    trivial

theorem reachable_sound (framed : ∀ m ∈ msgs, Framed m) (cut : chunks.flatten = msgs.flatMap frame)
    (reached : (system side chunks).Reachable s) : Sound msgs s := by
  refine reached.invariant ?_ fun s a t sound ran => sound_step framed sound (effect_of_step ran)
  rintro _ ⟨frames, unblock, start, rfl⟩
  have inv := Framing.init_inv cut start
  obtain ⟨block, _, rfl⟩ := start
  exact ⟨trivial, fun _ => inv, by simp [Receiver.stage], by simp [Receiver.stage]⟩

end DCScan.Disconnect
