import DCScan.Disconnect

/-!
Whether a disconnect releases the decode thread.

`Settled` is what setting `ntf_unblock` in time leaves behind, `Leaving` what the notification does;
from then on every step takes the decode thread further out. A step out of time leaves it `Stuck`,
or asleep behind the last notification.
-/

namespace DCScan.Disconnect

open Lib Message
open Framing (Framed DecodeInv Holding)

variable {msgs : List DefaultMessage} {chunks : List (List UInt8)} {side : Side}
variable {s t : State} {a : Action}

/-- The decode thread can go round its loop and change nothing. -/
def Spins (s : State) : Prop :=
  ∃ as, as ≠ [] ∧ (∀ a ∈ as, Action.ofDecoder a = true) ∧ as.foldlM step s = some s

/-- The rest of the body that the decode thread waits for is in the queue. -/
def Whole (f : Framing.State) : Prop :=
  ∀ to_read, f.consumer = .waitBody to_read → f.queue.bodyReady to_read = true

/-- What is queued behind the body that the decode thread waits for. -/
def leftover (f : Framing.State) : Nat :=
  match f.consumer with
  | .waitBody to_read => f.queue.internalBuffSize - unsigned 64 (ByteQueue.packetSize to_read)
  | _ => f.queue.internalBuffSize

/-- When `ntf_unblock` is set the decode thread does not wait for a body that is cut off, and the
client leaves nothing queued behind the body it waits for; when the notification comes the decode
thread has not just found the first wait's predicate false. -/
def InTime (s : State) : Action → Prop
  | .store => s.decoder ≠ .finished →
      Whole s.frames ∧ (s.side = .client → leftover s.frames = 0)
  | .notifyAll => s.decoder ≠ .waiting .blocking
  | _ => True

/-- The decode thread is asked to leave and finds all it still asks for. -/
structure Settled (s : State) : Prop where
  asked : s.decoder ≠ .finished → s.frames.queue.ntfUnblock = true
  whole : s.decoder ≠ .finished → Whole s.frames
  emptied : s.decoder ≠ .finished → s.side = .client → leftover s.frames = 0

/-- The decode thread is on its way out, and does not wait again. -/
structure Leaving (s : State) : Prop extends Settled s where
  blocking : s.decoder ≠ .waiting .blocking
  sleeping : s.decoder ≠ .waiting .sleeping

theorem settled_of_fetched (settled : Settled s) (going : s.decoder ≠ .finished)
    (fetched : Fetched s t) : Settled t := by
  have asked := settled.asked going
  have whole := settled.whole going
  cases fetched with
  | blocks | leaves => exact ⟨fun _ => asked, fun _ => whole, fun _ => settled.emptied going⟩
  | header _ calm =>
    rw [asked] at calm
    cases calm
  | body at_body _ took =>
    have nothing := settled.emptied going
    simp only [leftover, at_body] at nothing
    simp only [ByteQueue.takeBody, Option.ite_none_right_eq_some, Option.some.injEq, Prod.mk.injEq]
      at took
    obtain ⟨_, _, rfl⟩ := took
    refine ⟨fun _ => asked, fun _ n stand => ?_, fun _ client => ?_⟩
    · dsimp only at stand
      split at stand <;> cases stand
    · simp only [leftover]
      split
      · rename_i stand
        split at stand <;> cases stand
      · exact nothing client

/-- From the notification on, an evaluation of a predicate does not end in a wait. -/
theorem leaving_of_fetched (leaving : Leaving s) (going : s.decoder ≠ .finished)
    (fetched : Fetched s t) : Leaving t := by
  refine ⟨settled_of_fetched leaving.toSettled going fetched, ?_, ?_⟩ <;> cases fetched with
  | blocks low short inside =>
    intro _
    cases stand : s.frames.consumer with
    | waitHeader =>
      have ready := low stand
      rw [ByteQueue.headerReady, leaving.asked going, Bool.or_true] at ready
      cases ready
    | waitBody to_read =>
      have ready := short to_read stand
      rw [leaving.whole going to_read stand] at ready
      cases ready
    | decoding data => exact inside data stand
  | leaves | header => simp
  | body =>
    dsimp only
    split <;> simp

/-- How far the decode thread has to go. -/
def Decoder.steps : Decoder → Nat
  | .finished => 0
  | .restarting => 1
  | .counting => 2
  | .testing => 3
  | .entering | .handling => 4
  | .checking | .waiting _ => 5

theorem settled_move {d : Decoder} {r : Receiver} {run : Bool} (settled : Settled s)
    (going : s.decoder ≠ .finished) : Settled ⟨s.side, s.frames, run, d, r⟩ :=
  ⟨fun _ => settled.asked going, fun _ => settled.whole going, fun _ => settled.emptied going⟩

theorem settled_of_finished (finished : s.decoder = .finished) : Settled s :=
  ⟨fun going => absurd finished going, fun going => absurd finished going,
    fun going => absurd finished going⟩

theorem steps_of_body {d : Decoder} {to_read : Int} (fits : Fits side d (.waitBody to_read)) :
    d.steps = 5 := by
  cases d with
  | checking | waiting => rfl
  | _ => cases side <;> exact fits.elim

theorem fetched_advances (sound : Sound msgs s) (leaving : Leaving s) (inside : 4 ≤ s.decoder.steps)
    (fetched : Fetched s t) : Leaving t ∧ t.decoder.steps < s.decoder.steps := by
  have going : s.decoder ≠ .finished := by
    rintro finished
    rw [finished] at inside
    cases inside
  refine ⟨leaving_of_fetched leaving going fetched, ?_⟩
  cases fetched with
  | blocks low short inside =>
    exact absurd rfl (leaving_of_fetched leaving going (.blocks low short inside)).blocking
  | leaves => exact inside
  | header _ calm =>
    rw [leaving.asked going] at calm
    cases calm
  | body at_body =>
    have fits := sound.fits
    rw [at_body] at fits
    rw [steps_of_body fits]
    dsimp only
    split <;> decide

/-- Each step takes the decode thread further out, once it was notified. -/
theorem decoder_advances (sound : Sound msgs s) (leaving : Leaving s) (cleared : s.running = false)
    (own : a.ofDecoder = true) (eff : Effect s a t) :
    Leaving t ∧ t.decoder.steps < s.decoder.steps := by
  have fits := sound.fits
  have decoding {d : Decoder} (stand : s.decoder = d) (other : d ≠ .finished) :
      s.decoder ≠ .finished := by rwa [stand]
  cases eff with
  | test stand =>
    refine ⟨⟨settled_move leaving.toSettled (decoding stand (by simp)), ?_, ?_⟩, ?_⟩ <;>
      cases s.side <;> simp [cleared, stand, Decoder.steps]
  | count stand =>
    rw [stand] at fits
    have nothing := leaving.emptied (decoding stand (by simp)) (side_of_counting fits)
    simp only [leftover, at_header fits rfl] at nothing
    rw [stand, nothing]
    exact ⟨⟨settled_of_finished rfl, by simp, by simp⟩, by simp [Decoder.steps]⟩
  | fetch _ stand fetched =>
    refine fetched_advances sound leaving ?_ fetched
    rcases stand with same | same | same <;> simp [same, Decoder.steps]
  | block stand => exact absurd stand leaving.blocking
  | spurious stand => exact absurd stand leaving.sleeping
  | decode stand in_hand =>
    have going := decoding stand (by simp)
    have nothing := leaving.emptied going
    simp only [leftover, in_hand] at nothing
    rw [stand]
    exact ⟨⟨⟨fun _ => leaving.asked going, fun _ => by simp [Whole], fun _ => nothing⟩,
      by simp, by simp⟩, by simp [Decoder.steps]⟩
  | restart stand =>
    rw [stand]
    exact ⟨⟨settled_of_finished rfl, by simp, by simp⟩, by simp [Decoder.steps]⟩
  | _ => cases own

/-- The decode thread leaves the receive thread and the flag as they are. -/
theorem frame_of_decoder (own : a.ofDecoder = true) (eff : Effect s a t) :
    t.running = s.running ∧ t.receiver = s.receiver := by
  cases eff with
  | fetch _ _ fetched => exact (frame_of_fetched fetched).2
  | test | count | block | spurious | decode | restart => exact ⟨rfl, rfl⟩
  | _ => cases own

/-- As many steps as it has taken, it is further out. -/
theorem decoder_falls (framed : ∀ m ∈ msgs, Framed m) (as : List Action) (sound : Sound msgs s)
    (leaving : Leaving s) (cleared : s.running = false) (own : ∀ a ∈ as, a.ofDecoder = true)
    (ran : as.foldlM step s = some t) : t.decoder.steps + as.length ≤ s.decoder.steps := by
  induction as generalizing s with
  | nil =>
    cases ran
    exact le_rfl
  | cons a as ih =>
    rw [List.foldlM_cons, Option.bind_eq_bind, Option.bind_eq_some_iff] at ran
    obtain ⟨u, first, rest⟩ := ran
    have mine := own a List.mem_cons_self
    have eff := effect_of_step first
    obtain ⟨still, less⟩ := decoder_advances sound leaving cleared mine eff
    have more := ih (sound_step framed sound eff) still ((frame_of_decoder mine eff).1.trans cleared)
      (fun b member => own b (List.mem_cons_of_mem _ member)) rest
    rw [List.length_cons]
    omega

/-- A thread that gets further out with every step does not come back to where it was. -/
theorem not_spins (framed : ∀ m ∈ msgs, Framed m) (sound : Sound msgs s) (leaving : Leaving s)
    (cleared : s.running = false) : ¬Spins s := by
  rintro ⟨as, nonempty, own, ran⟩
  have falls := decoder_falls framed as sound leaving cleared own ran
  have := List.length_pos_iff.mpr nonempty
  omega

/-- What the first wait needs is there, once the decode thread is asked to leave. -/
theorem fetch_of_asked (at_header : s.frames.consumer = .waitHeader)
    (asked : s.frames.queue.ntfUnblock = true) : ∃ t, fetch s = some t := by
  have ready : s.frames.queue.headerReady = true := by rw [ByteQueue.headerReady, asked, Bool.or_true]
  simp only [fetch, at_header, ready, ↓reduceIte, Framing.step, asked, Option.map_some]
  exact ⟨_, rfl⟩

/-- The frame that the decode thread waits for can be taken. -/
theorem fetch_of_whole (framed : ∀ m ∈ msgs, Framed m) (inv : DecodeInv msgs (calm s.frames))
    {to_read : Int} (at_body : s.frames.consumer = .waitBody to_read)
    (there : s.frames.queue.bodyReady to_read = true) : ∃ t, fetch s = some t := by
  obtain ⟨m, later, tail, split, rfl, queued, _⟩ := Framing.frame_there framed inv at_body there
  obtain ⟨queue, took, _⟩ := Framing.takeBody_there (framed m (by rw [split]; simp)) queued
  have taken := takeBody_calm (q := s.frames.queue) (Message.body m).length Framing.ibBuffSize
  rw [show (calmQueue s.frames.queue).takeBody _ _ = some _ from took] at taken
  obtain ⟨pair, took, _⟩ := Option.map_eq_some_iff.mp taken.symm
  simp only [fetch, at_body, there, ↓reduceIte, Framing.step, took, Option.map_some]
  exact ⟨_, rfl⟩

/-- On its way out the decode thread always has a step to take. -/
theorem decoder_moves (framed : ∀ m ∈ msgs, Framed m) (sound : Sound msgs s) (leaving : Leaving s)
    (going : s.decoder ≠ .finished) : ∃ a t, a.ofDecoder = true ∧ step s a = some t := by
  have asked := leaving.asked going
  have fits := sound.fits
  cases stand : s.decoder with
  | testing => exact ⟨.test, _, rfl, by simp only [step, stand]; rfl⟩
  | counting => exact ⟨.count, _, rfl, by simp only [step, stand]; rfl⟩
  | entering =>
    rw [stand] at fits
    obtain ⟨t, ran⟩ := fetch_of_asked (at_header fits rfl) asked
    exact ⟨.enter, t, rfl, by simp only [step, stand, ran]⟩
  | checking =>
    rw [stand] at fits
    cases at_body : s.frames.consumer with
    | waitBody to_read =>
      obtain ⟨t, ran⟩ := fetch_of_whole framed (sound.frames going) at_body
        (leaving.whole going to_read at_body)
      exact ⟨.check, t, rfl, by simp only [step, stand, ran]⟩
    | _ => rw [at_body] at fits; cases s.side <;> exact fits.elim
  | waiting w =>
    rw [stand] at fits
    cases w with
    | blocking => exact absurd stand leaving.blocking
    | sleeping => exact absurd stand leaving.sleeping
    | woken =>
      have evaluated : ∃ t, fetch s = some t := by
        cases at_wait : s.frames.consumer with
        | waitHeader => exact fetch_of_asked at_wait asked
        | waitBody to_read =>
          exact fetch_of_whole framed (sound.frames going) at_wait (leaving.whole going to_read at_wait)
        | decoding data => rw [at_wait] at fits; cases s.side <;> exact fits.elim
      obtain ⟨t, ran⟩ := evaluated
      exact ⟨.resume, t, rfl, by simp only [step, stand, ran]⟩
  | handling =>
    rw [stand] at fits
    cases in_hand : s.frames.consumer with
    | decoding data =>
      obtain ⟨rest, split, holding⟩ := (sound.frames going).position
      have hand : (calm s.frames).consumer = .decoding data := in_hand
      simp only [Holding, hand] at holding
      obtain ⟨m, later, rfl, rfl, _⟩ := holding
      have valid : Framed m := framed m (by rw [split]; simp)
      have made : decode .zeros (body m) = some m :=
        decode_body valid.filled valid.nonempty (by have := valid.length_lt; omega)
      exact ⟨.decode .zeros, _, rfl, by
        simp only [step, stand, Framing.step, in_hand, made, Option.map_some]; rfl⟩
    | _ => rw [in_hand] at fits; cases s.side <;> exact fits.elim
  | restarting =>
    have fresh : (List.replicate s.frames.queue.internalBuffMaxSize (0 : UInt8)).length =
        s.frames.queue.internalBuffMaxSize := List.length_replicate
    exact ⟨.restart (List.replicate s.frames.queue.internalBuffMaxSize 0), _, rfl, by
      simp only [step, stand, restartQueue, dif_pos fresh, Option.map_some]; rfl⟩
  | finished => exact absurd stand going

/-! ## The runs that meet the condition -/

theorem settled_step (sound : Sound msgs s) (settled : Settled s) (past : 3 ≤ s.receiver.stage)
    (eff : Effect s a t) : Settled t := by
  have decoding {d : Decoder} (stand : s.decoder = d) (other : d ≠ .finished) :
      s.decoder ≠ .finished := by rwa [stand]
  cases eff with
  | receive stand | notifyOne stand | leave stand | clear stand | store stand =>
    simp [stand, Receiver.stage] at past
  | notifyAll =>
    exact ⟨fun going => settled.asked (wake_finished.not.mp going),
      fun going => settled.whole (wake_finished.not.mp going),
      fun going => settled.emptied (wake_finished.not.mp going)⟩
  | join _ finished => exact settled_of_finished finished
  | restartQueue stand =>
    exact settled_of_finished (sound.ended (by simp [stand, Receiver.stage]))
  | stop => exact ⟨settled.asked, settled.whole, settled.emptied⟩
  | test stand | count stand | block stand | spurious stand =>
    exact settled_move settled (decoding stand (by simp))
  | fetch _ stand fetched =>
    refine settled_of_fetched settled ?_ fetched
    rcases stand with same | same | same <;> simp [same]
  | decode stand in_hand =>
    have going := decoding stand (by simp)
    have nothing := settled.emptied going
    simp only [leftover, in_hand] at nothing
    exact ⟨fun _ => settled.asked going, fun _ => by simp [Whole], fun _ => nothing⟩
  | restart => exact settled_of_finished rfl

/-- The notification that finds the decode thread not about to sleep gets it out. -/
theorem leaving_of_notifyAll (settled : Settled s) (met : s.decoder ≠ .waiting .blocking) :
    Leaving { s with receiver := .joining, decoder := s.decoder.wake } :=
  ⟨⟨fun going => settled.asked (wake_finished.not.mp going),
      fun going => settled.whole (wake_finished.not.mp going),
      fun going => settled.emptied (wake_finished.not.mp going)⟩,
    wake_blocking.not.mpr met, wake_ne_sleeping⟩

theorem leaving_step (sound : Sound msgs s) (leaving : Leaving s) (past : 4 ≤ s.receiver.stage)
    (eff : Effect s a t) : Leaving t := by
  cases own : a.ofDecoder with
  | true => exact (decoder_advances sound leaving (sound.cleared (by omega)) own eff).1
  | false =>
    have settled := settled_step sound leaving.toSettled (by omega) eff
    cases eff with
    | join | restartQueue | stop => exact ⟨settled, leaving.blocking, leaving.sleeping⟩
    | notifyAll stand => simp [stand, Receiver.stage] at past
    | receive stand | notifyOne stand | leave stand | clear stand | store stand =>
      simp [stand, Receiver.stage] at past
    | fetch mine => exact absurd mine (by simp [own])
    | _ => cases own

/-- From the store on the decode thread is settled, from the notification on it leaves. -/
structure Out (s : State) : Prop where
  settled : 3 ≤ s.receiver.stage → Settled s
  leaving : 4 ≤ s.receiver.stage → Leaving s

theorem out_step (sound : Sound msgs s) (out : Out s) (met : InTime s a) (eff : Effect s a t) :
    Out t := by
  have stays (third : 3 ≤ t.receiver.stage → 3 ≤ s.receiver.stage)
      (fourth : 4 ≤ t.receiver.stage → 4 ≤ s.receiver.stage) : Out t :=
    ⟨fun late => settled_step sound (out.settled (third late)) (third late) eff,
      fun late => leaving_step sound (out.leaving (fourth late)) (fourth late) eff⟩
  cases eff with
  | store =>
    exact ⟨fun _ => ⟨fun _ => rfl, fun going => (met going).1, fun going => (met going).2⟩,
      by simp [Receiver.stage]⟩
  | notifyAll stand =>
    have leaving := leaving_of_notifyAll (out.settled (by simp [stand, Receiver.stage])) met
    exact ⟨fun _ => leaving.toSettled, fun _ => leaving⟩
  | receive | notifyOne | leave | clear =>
    exact stays (by simp [Receiver.stage]) (by simp [Receiver.stage])
  | join stand | restartQueue stand =>
    exact stays (by simp [stand, Receiver.stage]) (by simp [stand, Receiver.stage])
  | fetch _ _ fetched =>
    have same := (frame_of_fetched fetched).2.2
    exact stays (by rw [same]; exact id) (by rw [same]; exact id)
  | stop | test | count | block | spurious | decode | restart => exact stays id id

theorem reachable_out (framed : ∀ m ∈ msgs, Framed m) (cut : chunks.flatten = msgs.flatMap frame)
    (reached : (system side chunks).ReachableBy InTime s) : Out s := by
  refine reached.invariant_from (fun _ before => reachable_sound framed cut before.reachable)
    (?_ : ∀ s, (system side chunks).init s → Out s) fun s a t sound out met ran =>
      out_step sound out met (effect_of_step ran)
  rintro _ ⟨frames, unblock, start, rfl⟩
  exact ⟨by simp [Receiver.stage], by simp [Receiver.stage]⟩

/-- The join completes once the decode thread is on its way out. -/
theorem join_completes (framed : ∀ m ∈ msgs, Framed m) (cut : chunks.flatten = msgs.flatMap frame)
    (reached : (system side chunks).Reachable s) (leaving : Leaving s)
    (joins : s.receiver = .joining) :
    ∃ as t, (system side chunks).run s as = some t ∧ t.receiver = .joined := by
  have ended : ∃ as t, (system side chunks).run s as = some t ∧
      (Leaving t ∧ (t.receiver = .joining ∨ t.receiver = .joined)) ∧ t.receiver = .joined := by
    refine reached.attains (fun s => if s.receiver = .joined then 0 else s.decoder.steps + 1)
      ⟨leaving, Or.inl joins⟩ fun s reached held short => ?_
    have joins : s.receiver = .joining := held.2.resolve_right short
    have sound := reachable_sound framed cut reached
    by_cases finished : s.decoder = .finished
    · refine ⟨.join, { s with receiver := .joined }, by simp only [system, step, joins, finished],
        ⟨⟨settled_of_finished finished, held.1.blocking, held.1.sleeping⟩, Or.inr rfl⟩, ?_⟩
      simp [joins]
    · obtain ⟨a, t, own, ran⟩ := decoder_moves framed sound held.1 finished
      have eff := effect_of_step ran
      obtain ⟨still, less⟩ :=
        decoder_advances sound held.1 (sound.cleared (by simp [joins, Receiver.stage])) own eff
      have waits : t.receiver = .joining := (frame_of_decoder own eff).2.trans joins
      exact ⟨a, t, ran, ⟨still, Or.inl waits⟩, by simpa [joins, waits] using less⟩
  obtain ⟨as, t, ran, _, joined⟩ := ended
  exact ⟨as, t, ran, joined⟩

/-- While the receive thread is in `join` the decode thread does not wait, does not go round without
a change, and can be joined. -/
def Released (sys : System State Action) (s : State) : Prop :=
  s.receiver = .joining → s.decoder ≠ .waiting .sleeping ∧ ¬Spins s ∧
    ∃ as t, sys.run s as = some t ∧ t.receiver = .joined

/-! ## The runs that do not -/

/-- The decode thread never gets out: the rest of the body it waits for does not come, or the
client's loop goes round over bytes that are not taken. -/
structure Stuck (s : State) : Prop where
  past : 3 ≤ s.receiver.stage
  going : s.decoder ≠ .finished
  kept : (∃ to_read, s.frames.consumer = .waitBody to_read ∧
      s.frames.queue.bodyReady to_read = false) ∨
    (s.side = .client ∧ s.frames.queue.ntfUnblock = true ∧ 0 < leftover s.frames)

theorem stuck_of_fetched (stuck : Stuck s) (fetched : Fetched s t) : Stuck t := by
  obtain ⟨past, _, kept⟩ := stuck
  cases fetched with
  | blocks | leaves => exact ⟨past, by simp, kept⟩
  | header at_header calm =>
    rcases kept with ⟨to_read, at_body, _⟩ | ⟨_, asked, _⟩
    · rw [at_header] at at_body
      cases at_body
    · rw [asked] at calm
      cases calm
  | body at_body there took =>
    rcases kept with ⟨n, same, short⟩ | ⟨client, asked, more⟩
    · rw [at_body, Framing.Consumer.waitBody.injEq] at same
      rw [← same, there] at short
      cases short
    · simp only [leftover, at_body] at more
      simp only [ByteQueue.takeBody, Option.ite_none_right_eq_some, Option.some.injEq,
        Prod.mk.injEq] at took
      obtain ⟨_, _, rfl⟩ := took
      refine ⟨past, by dsimp only; split <;> simp, Or.inr ⟨client, asked, ?_⟩⟩
      simp only [leftover]
      split
      · rename_i stand
        split at stand <;> cases stand
      · exact more

theorem stuck_step (sound : Sound msgs s) (stuck : Stuck s) (eff : Effect s a t) : Stuck t := by
  have fits := sound.fits
  have past := stuck.past
  have outside {d : Decoder} (stand : s.decoder = d) (out : d.outside = true) :
      s.side = .client ∧ 0 < s.frames.queue.internalBuffSize := by
    rw [stand] at fits
    have header := at_header fits out
    rcases stuck.kept with ⟨n, at_body, _⟩ | ⟨client, _, more⟩
    · rw [header] at at_body
      cases at_body
    · simp only [leftover, header] at more
      exact ⟨client, more⟩
  cases eff with
  | receive stand | notifyOne stand | leave stand | clear stand | store stand =>
    simp [stand, Receiver.stage] at past
  | notifyAll =>
    exact ⟨by simp [Receiver.stage], wake_finished.not.mpr stuck.going, stuck.kept⟩
  | join _ finished => exact absurd finished stuck.going
  | restartQueue stand =>
    exact absurd (sound.ended (by simp [stand, Receiver.stage])) stuck.going
  | stop => exact ⟨past, stuck.going, stuck.kept⟩
  | test stand =>
    refine ⟨past, ?_, stuck.kept⟩
    rw [(outside stand rfl).1]
    dsimp only
    split <;> simp
  | count stand => exact ⟨past, by simp [(outside stand rfl).2], stuck.kept⟩
  | fetch _ _ fetched => exact stuck_of_fetched stuck fetched
  | block | spurious => exact ⟨past, by simp, stuck.kept⟩
  | decode _ in_hand =>
    have kept := stuck.kept
    simp only [leftover, in_hand, reduceCtorEq, false_and, exists_false, false_or] at kept
    exact ⟨past, by simp, Or.inr kept⟩
  | restart stand =>
    have client := (outside stand rfl).1
    rw [stand] at fits
    rw [side_of_restarting fits] at client
    cases client

/-- A stuck decode thread is not released, whatever comes. -/
theorem not_released_of_stuck (framed : ∀ m ∈ msgs, Framed m) (sound : Sound msgs s) (stuck : Stuck s) :
    ∃ as u, (system side chunks).run s as = some u ∧ ¬Released (system side chunks) u := by
  have never {u : State} (sound : Sound msgs u) (stuck : Stuck u) (joins : u.receiver = .joining) :
      ¬Released (system side chunks) u := by
    intro released
    obtain ⟨_, _, as, v, ran, joined⟩ := released joins
    have still := System.run_keeps (fun s => Sound msgs s ∧ Stuck s)
      (fun _ _ _ held stepped => ⟨sound_step framed held.1 (effect_of_step stepped),
        stuck_step held.1 held.2 (effect_of_step stepped)⟩) ⟨sound, stuck⟩ ran
    exact still.2.going (still.1.ended (by simp [joined, Receiver.stage]))
  have past := stuck.past
  cases stand : s.receiver with
  | stored =>
    have eff : Effect s .notifyAll { s with receiver := .joining, decoder := s.decoder.wake } :=
      .notifyAll stand
    refine ⟨[.notifyAll], _, ?_, never (sound_step framed sound eff) (stuck_step sound stuck eff) rfl⟩
    simp [System.run, system, step, stand]
  | joining => exact ⟨[], s, rfl, never sound stuck stand⟩
  | joined | done => exact absurd (sound.ended (by simp [stand, Receiver.stage])) stuck.going
  | _ => simp [stand, Receiver.stage] at past

theorem stuck_of_store (late : ¬InTime s .store) (eff : Effect s .store t) : Stuck t := by
  cases eff with
  | fetch own => cases own
  | store =>
    simp only [InTime, not_forall, not_and_or] at late
    obtain ⟨going, cut | ⟨client, more⟩⟩ := late
    · simp only [Whole, not_forall, Bool.not_eq_true] at cut
      obtain ⟨to_read, at_body, short⟩ := cut
      exact ⟨by simp [Receiver.stage], going, Or.inl ⟨to_read, at_body, short⟩⟩
    · exact ⟨by simp [Receiver.stage], going, Or.inr ⟨client, rfl, Nat.pos_of_ne_zero more⟩⟩

/-- **A disconnect releases the decode thread** in the runs that meet the condition, and every
step that breaks it can be continued to a state in which it is not released. -/
theorem decode_thread_released (framed : ∀ m ∈ msgs, Framed m)
    (cut : chunks.flatten = msgs.flatMap frame)
    (reached : (system side chunks).ReachableBy InTime s) :
    Released (system side chunks) s ∧
      ∀ a t, (system side chunks).step s a = some t → ¬InTime s a →
        ∃ as u, (system side chunks).run t as = some u ∧ ¬Released (system side chunks) u := by
  have sound := reachable_sound framed cut reached.reachable
  refine ⟨fun joins => ?_, fun a t ran late => ?_⟩
  · have leaving := (reachable_out framed cut reached).leaving (by simp [joins, Receiver.stage])
    exact ⟨leaving.sleeping,
      not_spins framed sound leaving (sound.cleared (by simp [joins, Receiver.stage])),
      join_completes framed cut reached.reachable leaving joins⟩
  · cases a with
    | store =>
      have eff : Effect s .store t := effect_of_step ran
      exact not_released_of_stuck framed (sound_step framed sound eff) (stuck_of_store late eff)
    | notifyAll =>
      simp only [InTime, ne_eq, not_not] at late
      simp only [system, step] at ran
      split at ran <;> cases ran
      refine ⟨[.block], { s with receiver := .joining, decoder := .waiting .sleeping }, ?_,
        fun released => (released rfl).1 rfl⟩
      simp [System.run, system, step, late, Decoder.wake, Waiter.wake]
    | _ => exact absurd trivial late

/-- The start of a session over a fresh queue. -/
def first (side : Side) (chunks : List (List UInt8)) : State :=
  ⟨side, ⟨.create (List.replicate Framing.ibBuffSize 0), chunks, [], .waitHeader, []⟩, true, .testing,
    .receiving⟩

theorem first_init (side : Side) (chunks : List (List UInt8)) :
    (system side chunks).init (first side chunks) :=
  ⟨_, false, ⟨_, List.length_replicate, rfl⟩, rfl⟩

theorem framed_sample : ∀ m ∈ [Framing.sample], Framed m := by
  simp only [List.mem_singleton, forall_eq]
  exact ⟨rfl, by decide, by decide⟩

/-- A connection that ends before it has brought a byte, while the decode thread sleeps. -/
theorem decode_thread_released_asleep : ∃ s, (system .server [frame Framing.sample]).Reachable s ∧
    s.receiver = .joining ∧ Released (system .server [frame Framing.sample]) s := by
  let frames := (first .server [frame Framing.sample]).frames
  let asked := { frames with queue := frames.queue.notifyUnblock }
  have first : (system .server [frame Framing.sample]).ReachableBy InTime
      ⟨.server, frames, true, .testing, .receiving⟩ := .init (first_init _ _)
  have began : (system .server [frame Framing.sample]).ReachableBy InTime
      ⟨.server, frames, true, .entering, .receiving⟩ := .step (a := .test) first trivial rfl
  have empty : (system .server [frame Framing.sample]).ReachableBy InTime
      ⟨.server, frames, true, .waiting .blocking, .receiving⟩ := .step (a := .enter) began trivial rfl
  have asleep : (system .server [frame Framing.sample]).ReachableBy InTime
      ⟨.server, frames, true, .waiting .sleeping, .receiving⟩ := .step (a := .block) empty trivial rfl
  have left : (system .server [frame Framing.sample]).ReachableBy InTime
      ⟨.server, frames, true, .waiting .sleeping, .left⟩ := .step (a := .leave) asleep trivial rfl
  have cleared : (system .server [frame Framing.sample]).ReachableBy InTime
      ⟨.server, frames, false, .waiting .sleeping, .cleared⟩ := .step (a := .clear) left trivial rfl
  have stored : (system .server [frame Framing.sample]).ReachableBy InTime
      ⟨.server, asked, false, .waiting .sleeping, .stored⟩ :=
    .step (a := .store) cleared (fun _ => ⟨nofun, nofun⟩) rfl
  have notified : (system .server [frame Framing.sample]).ReachableBy InTime
      ⟨.server, asked, false, .waiting .woken, .joining⟩ := .step (a := .notifyAll) stored nofun rfl
  exact ⟨_, notified.reachable, rfl, (decode_thread_released framed_sample (by simp) notified).1⟩

/-- The first chunk is in the queue before the decode thread has looked. -/
theorem chunk_received (side : Side) (chunk : List UInt8) (rest : List (List UInt8))
    (fits : chunk.length ≤ Framing.ibBuffSize) :
    ∃ queue : ByteQueue, queue.contents = chunk ∧ queue.ntfUnblock = false ∧
      (system side (chunk :: rest)).Reachable
        ⟨side, ⟨queue, rest, chunk, .waitHeader, []⟩, true, .testing, .receiving⟩ := by
  have size : (List.replicate Framing.ibBuffSize (0 : UInt8)).length = Framing.ibBuffSize :=
    List.length_replicate
  have room : (ByteQueue.create (List.replicate Framing.ibBuffSize 0)).roomFor chunk.length := by
    simp only [ByteQueue.roomFor, ByteQueue.create, size]
    omega
  obtain ⟨queue, added⟩ := ByteQueue.addBytes_of_room room
  obtain ⟨contents, _, calm⟩ := ByteQueue.addBytes_contents added
  refine ⟨queue, by rw [contents]; simp [ByteQueue.contents, ByteQueue.create], calm, ?_⟩
  have received : (system side (chunk :: rest)).step (first side (chunk :: rest)) .receive =
      some ⟨side, ⟨queue, rest, chunk, .waitHeader, []⟩, true, .testing, .added⟩ := by
    simp [system, step, first, Decoder.holds, Framing.step, added]
  exact ((System.Reachable.start (first_init _ _)).next received).next (a := .notifyOne) rfl

/-- The receive thread leaves, and asks the decode thread to. -/
theorem stored_of_receiving (reached : (system side chunks).Reachable s)
    (receives : s.receiver = .receiving) :
    ∃ t, (system side chunks).Reachable t ∧ t.receiver = .cleared ∧ t.side = s.side ∧
      t.frames = s.frames ∧ t.decoder = s.decoder ∧
      ∃ u, (system side chunks).step t .store = some u := by
  have left := reached.next (a := .leave) (t := { s with receiver := .left })
    (by simp only [system, step, receives])
  have cleared := left.next (a := .clear) (t := { s with receiver := .cleared, running := false }) rfl
  exact ⟨_, cleared, rfl, rfl, rfl, rfl, _, rfl⟩

/-- A store out of time is followed by a state that is not released. -/
theorem kept_of_late (framed : ∀ m ∈ msgs, Framed m) (cut : chunks.flatten = msgs.flatMap frame)
    (reached : (system side chunks).Reachable s) (late : ¬InTime s .store)
    (ran : (system side chunks).step s .store = some t) :
    ∃ u, (system side chunks).Reachable u ∧ ¬Released (system side chunks) u := by
  have eff : Effect s .store t := effect_of_step ran
  have sound := sound_step framed (reachable_sound framed cut reached) eff
  obtain ⟨as, u, continued, kept⟩ := not_released_of_stuck framed sound (stuck_of_store late eff)
  exact ⟨u, (reached.next ran).replay continued, kept⟩

/-- **A disconnect can keep the decode thread.** The server's waits for a body that was cut off, the
client's goes round over a frame that it does not take. -/
theorem decode_thread_kept :
    (∃ s, (system .server [(frame Framing.sample).take 5, (frame Framing.sample).drop 5]).Reachable s ∧
      ¬Released (system .server [(frame Framing.sample).take 5, (frame Framing.sample).drop 5]) s) ∧
    ∃ s, (system .client [frame Framing.sample]).Reachable s ∧
      ¬Released (system .client [frame Framing.sample]) s := by
  constructor
  · obtain ⟨queue, contents, calm, received⟩ := chunk_received .server
      ((frame Framing.sample).take 5) [(frame Framing.sample).drop 5] (by decide)
    have size : queue.internalBuffSize = 5 := by
      rw [← ByteQueue.contents_length, contents]
      decide
    have prefixed : queue.toRead = 10 := by
      rw [ByteQueue.toRead, ByteQueue.take_buffer queue (by omega), contents]
      decide
    have began := received.next (a := .test) (t := ⟨.server, ⟨queue, _, _, .waitHeader, []⟩, true,
      .entering, .receiving⟩) rfl
    have asked := began.next (a := .enter) (t := ⟨.server, ⟨queue, [(frame Framing.sample).drop 5],
      (frame Framing.sample).take 5, .waitBody 10, []⟩, true, .checking, .receiving⟩) (by
        simp [system, step, fetch, ByteQueue.headerReady, size, Framing.step, calm, prefixed])
    obtain ⟨t, cleared, _, _, frames, stands, u, ran⟩ := stored_of_receiving asked rfl
    refine kept_of_late framed_sample (by simp) cleared (fun met => ?_) ran
    have whole := (met (by simp [stands])).1 10 (by rw [frames])
    rw [frames, ByteQueue.bodyReady, decide_eq_true_eq] at whole
    have short : unsigned 64 (ByteQueue.packetSize 10) ≤ 5 := size ▸ whole
    exact absurd short (by decide)
  · obtain ⟨queue, contents, _, received⟩ := chunk_received .client (frame Framing.sample) [] (by decide)
    obtain ⟨t, cleared, _, same, frames, stands, u, ran⟩ := stored_of_receiving received rfl
    refine kept_of_late framed_sample (by simp) cleared (fun met => ?_) ran
    have nothing : leftover t.frames = 0 := (met (by simp [stands])).2 same
    rw [frames] at nothing
    have empty : queue.internalBuffSize = 0 := nothing
    rw [← ByteQueue.contents_length, contents] at empty
    exact absurd empty (by decide)

end DCScan.Disconnect
