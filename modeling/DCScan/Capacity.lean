import Mathlib.Data.List.Induction
import DCScan.Framing

/-!
The capacity of the byte queue: when the receive thread and the decode thread can both wait
for each other.

`addBytes` waits for room for a whole chunk, `fetchNextMsg` for the rest of a frame. The
last chunk of a frame may bring bytes of the frames behind it, and these need room too
before the first byte of that chunk is let in. `FitsBehind` is the exact condition on a
stream and its chunks under which they never both wait.
-/

namespace DCScan.Framing

open Lib Message

variable {msgs rest : List DefaultMessage} {chunks : List (List UInt8)} {m : DefaultMessage}
variable {s t : State} {a : Action} {mem : Uninit}

/-- `fetchNextMsg` waits. -/
def State.fetchWaits (s : State) : Prop :=
  match s.consumer with
  | .waitHeader => s.queue.headerReady = false
  | .waitBody to_read => s.queue.bodyReady to_read = false
  | .decoding _ => False

/-- `addBytes` waits. -/
def State.addWaits (s : State) : Prop :=
  ∃ chunk rest, s.toReceive = chunk :: rest ∧ ¬s.queue.roomFor chunk.length

/-- Both threads wait, each for the other. -/
def Wedged (s : State) : Prop := s.addWaits ∧ s.fetchWaits

/-- The queue holds what a chunk brings and what is there already of the frame it continues. -/
def FitsBehind (msgs : List DefaultMessage) (chunks : List (List UInt8)) : Prop :=
  ∀ before m after first chunk rest, msgs = before ++ m :: after → chunks = first ++ chunk :: rest →
    (before.flatMap frame).length ≤ first.flatten.length →
    first.flatten.length < ((before ++ [m]).flatMap frame).length →
    first.flatten.length + chunk.length ≤ (before.flatMap frame).length + ibBuffSize

/-! ## The stream position -/

/-- What was received are the chunks that are no longer to come. -/
def Delivered (chunks : List (List UInt8)) (s : State) : Prop :=
  ∃ first, chunks = first ++ s.toReceive ∧ s.received = first.flatten

theorem step_delivered (known : Delivered chunks s) (ran : step s a = some t) :
    Delivered chunks t := by
  obtain ⟨first, split, received⟩ := known
  cases effect_of_step ran with
  | @addBytes chunk _ _ pending => exact ⟨first ++ [chunk], by simp [split, pending], by simp [received]⟩
  | unblocked | readHeader | takeBody | decode => exact ⟨first, split, received⟩

theorem reachable_delivered (reached : (system chunks).Reachable s) : Delivered chunks s :=
  reached.invariant (by rintro _ ⟨block, _, rfl⟩; exact ⟨[], rfl, rfl⟩)
    fun _ _ _ known ran => step_delivered known ran

/-- While `fetchNextMsg` waits, the queue holds less than the frame it waits for. -/
theorem short_of_fetchWaits (framed : ∀ m ∈ msgs, Framed m) (inv : DecodeInv msgs s)
    (waits : s.fetchWaits) :
    s.received.length = (s.decoded.flatMap frame).length + s.queue.contents.length ∧
      ((msgs = s.decoded ∧ s.queue.contents ++ s.toReceive.flatten = []) ∨
        ∃ m later, msgs = s.decoded ++ m :: later ∧
          s.queue.contents.length < (frame m).length) := by
  have accounted := congrArg List.length inv.accounted
  obtain ⟨rest, split, holding⟩ := inv.position
  unfold State.fetchWaits at waits
  cases stand : s.consumer with
  | waitHeader =>
    simp only [stand, ByteQueue.headerReady, inv.running, Bool.or_false, decide_eq_false_iff_not]
      at waits
    simp only [State.inHand, stand, List.append_nil, List.length_append] at accounted
    simp only [Holding, stand] at holding
    refine ⟨accounted, ?_⟩
    cases rest with
    | nil => exact Or.inl ⟨by simpa using split, holding⟩
    | cons m later =>
      refine Or.inr ⟨m, later, split, ?_⟩
      rw [frame_length, ByteQueue.contents_length]
      omega
  | waitBody to_read =>
    simp only [Holding, stand] at holding
    obtain ⟨_, m, later, rfl, rfl⟩ := holding
    have small := (framed m (by simp [split])).length_lt
    have size := body_length m
    have packet := (ByteQueue.sizes_of_length (n := (body m).length) (by omega)).2
    simp only [stand, ByteQueue.bodyReady, packet, decide_eq_false_iff_not] at waits
    simp only [State.inHand, stand, List.append_nil, List.length_append] at accounted
    refine ⟨accounted, Or.inr ⟨m, later, split, ?_⟩⟩
    rw [frame_length, ByteQueue.contents_length]
    omega
  | decoding data => simp [stand] at waits

/-! ## The decode thread alone -/

/-- What the decode thread has still to do with what was received. -/
def State.backlog (s : State) : Nat :=
  4 * s.queue.contents.length +
    match s.consumer with
    | .waitHeader => 1
    | .waitBody _ => 0
    | .decoding _ => 2

/-- The decode thread moves on unless `fetchNextMsg` waits. -/
theorem consumer_moves (framed : ∀ m ∈ msgs, Framed m) (inv : DecodeInv msgs s)
    (ready : ¬s.fetchWaits) :
    ∃ a t, step s a = some t ∧ t.toReceive = s.toReceive ∧ t.backlog < s.backlog := by
  unfold State.fetchWaits at ready
  cases stand : s.consumer with
  | waitHeader =>
    simp only [stand, Bool.not_eq_false] at ready
    refine ⟨.readHeader, { s with consumer := .waitBody s.queue.toRead }, ?_, rfl, ?_⟩
    · simp [step, stand, ready, inv.running]
    · simp [State.backlog, stand]
  | waitBody to_read =>
    simp only [stand, Bool.not_eq_false] at ready
    obtain ⟨m, later, tail, split, rfl, queued, _⟩ := frame_there framed inv stand ready
    obtain ⟨queue, took, contents, _⟩ := takeBody_there (framed m (by simp [split])) queued
    have positive : ((body m).length : Int) ≠ 0 := by rw [body_length]; omega
    refine ⟨.takeBody, { s with queue := queue, consumer := .decoding (body m) }, ?_, rfl, ?_⟩
    · simp only [step, stand, ready, ↓reduceIte, took, Option.map_some, positive]
    · simp only [State.backlog, stand, contents, queued, List.length_append, leBytes_length]
      omega
  | decoding data =>
    obtain ⟨rest, split, holding⟩ := inv.position
    simp only [Holding, stand] at holding
    obtain ⟨m, later, rfl, rfl, _⟩ := holding
    have valid : Framed m := framed m (by simp [split])
    have small := valid.length_lt
    have decoded : decode .zeros (body m) = some m :=
      decode_body valid.filled valid.nonempty (by omega)
    refine ⟨.decode .zeros, { s with consumer := .waitHeader, decoded := s.decoded ++ [m] },
      ?_, rfl, ?_⟩
    · simp only [step, stand, decoded, Option.map_some]
    · simp [State.backlog, stand]

/-- Left alone, the decode thread takes every whole frame and then waits. -/
theorem drained (framed : ∀ m ∈ msgs, Framed m) (cut : chunks.flatten = msgs.flatMap frame)
    (reached : (system chunks).Reachable s) :
    ∃ as t, (system chunks).run s as = some t ∧ t.toReceive = s.toReceive ∧ t.fetchWaits :=
  reached.attains State.backlog rfl
    fun _ reached same ready => by
      obtain ⟨a, t, ran, kept, less⟩ := consumer_moves framed (reachable_inv framed cut reached) ready
      exact ⟨a, t, ran, kept.trans same, less⟩

/-! ## The results -/

/-- A list of frames is longer than any that ends before it. -/
theorem frames_length_mono {before : List DefaultMessage} (front : before <+: msgs) :
    (before.flatMap frame).length ≤ (msgs.flatMap frame).length := by
  obtain ⟨after, rfl⟩ := front
  rw [List.flatMap_append, List.length_append]
  exact Nat.le_add_right _ _

/-- The frame a position falls into is the only one. -/
theorem frame_position {before other : List DefaultMessage} {m' : DefaultMessage} {n : Nat}
    (front : before ++ [m] <+: msgs) (front' : other ++ [m'] <+: msgs)
    (behind : (before.flatMap frame).length ≤ n)
    (inside : n < ((before ++ [m]).flatMap frame).length)
    (behind' : (other.flatMap frame).length ≤ n)
    (inside' : n < ((other ++ [m']).flatMap frame).length) : before = other := by
  have left : ¬before.length < other.length := fun shorter => by
    have within : before ++ [m] <+: other := List.prefix_of_prefix_length_le front
      ((List.prefix_append _ _).trans front') (by rw [List.length_append]; exact shorter)
    have := frames_length_mono within
    omega
  have right : ¬other.length < before.length := fun shorter => by
    have within : other ++ [m'] <+: before := List.prefix_of_prefix_length_le front'
      ((List.prefix_append _ _).trans front) (by rw [List.length_append]; exact shorter)
    have := frames_length_mono within
    omega
  have same : before.length = other.length := by omega
  exact (List.prefix_of_prefix_length_le ((List.prefix_append _ _).trans front)
    ((List.prefix_append _ _).trans front') same.le).eq_of_length same

/-- Where every chunk fits behind the frame it continues, the two threads never both wait. -/
theorem not_wedged (framed : ∀ m ∈ msgs, Framed m) (cut : chunks.flatten = msgs.flatMap frame)
    (fits : FitsBehind msgs chunks) (reached : (system chunks).Reachable s) : ¬Wedged s := by
  rintro ⟨⟨chunk, rest, pending, full⟩, waits⟩
  have inv := reachable_inv framed cut reached
  obtain ⟨first, split, received⟩ := reachable_delivered reached
  obtain ⟨total, short⟩ := short_of_fetchWaits framed inv waits
  rw [received] at total
  rw [ByteQueue.roomFor, inv.capacity, ← ByteQueue.contents_length] at full
  rcases short with ⟨_, empty⟩ | ⟨m, later, next, less⟩
  · have sizes := congrArg List.length empty
    simp only [pending, List.flatten_cons, List.length_append, List.length_nil] at sizes
    simp only [ibBuffSize] at full
    omega
  · have room := fits s.decoded m later first chunk rest next (by rw [split, pending]) (by omega)
      (by rw [List.flatMap_append, List.length_append, List.flatMap_singleton]; omega)
    omega

/-- The decode thread can keep up with the receive thread, chunk by chunk, unless they wedge. -/
theorem keeps_up (framed : ∀ m ∈ msgs, Framed m) (cut : chunks.flatten = msgs.flatMap frame)
    (first rest : List (List UInt8)) (split : chunks = first ++ rest) :
    (∃ s, (system chunks).Reachable s ∧ Wedged s) ∨
      ∃ s, (system chunks).Reachable s ∧ s.toReceive = rest ∧ s.fetchWaits := by
  induction first using List.reverseRecOn generalizing rest with
  | nil =>
    refine Or.inr ⟨_, .start ⟨List.replicate ibBuffSize 0, List.length_replicate, rfl⟩, split, ?_⟩
    simp [State.fetchWaits, ByteQueue.headerReady, ByteQueue.create]
  | append_singleton first chunk ih =>
    rcases ih (chunk :: rest) (by rw [split, List.append_assoc]; rfl) with
      wedged | ⟨s, reached, pending, waits⟩
    · exact Or.inl wedged
    · by_cases room : s.queue.roomFor chunk.length
      · obtain ⟨queue, added⟩ := ByteQueue.addBytes_of_room room
        have ran : (system chunks).step s .addBytes = some
            { s with queue := queue, toReceive := rest, received := s.received ++ chunk } := by
          simp only [system, step, pending, added, Option.map_some]
        obtain ⟨as, t, taken, kept, waits⟩ := drained framed cut (reached.next ran)
        exact Or.inr ⟨t, (reached.next ran).replay taken, kept, waits⟩
      · exact Or.inl ⟨s, reached, ⟨chunk, rest, pending, room⟩, waits⟩

/-- A chunk that does not fit behind the frame it continues wedges the two threads. -/
theorem wedged_of_overrun (framed : ∀ m ∈ msgs, Framed m)
    (cut : chunks.flatten = msgs.flatMap frame) (overrun : ¬FitsBehind msgs chunks) :
    ∃ s, (system chunks).Reachable s ∧ Wedged s := by
  simp only [FitsBehind, not_forall, not_le] at overrun
  obtain ⟨before, m, after, first, chunk, rest, here, split, behind, inside, overrun⟩ := overrun
  rcases keeps_up framed cut first (chunk :: rest) split with wedged | ⟨s, reached, pending, waits⟩
  · exact wedged
  · have inv := reachable_inv framed cut reached
    obtain ⟨first', split', received⟩ := reachable_delivered reached
    rw [split, pending] at split'
    obtain rfl : first = first' := List.append_cancel_right split'
    obtain ⟨total, short⟩ := short_of_fetchWaits framed inv waits
    rw [received] at total
    have front : before ++ [m] <+: msgs := ⟨after, by simp [here]⟩
    refine ⟨s, reached, ⟨chunk, rest, pending, ?_⟩, waits⟩
    rw [ByteQueue.roomFor, inv.capacity, ← ByteQueue.contents_length]
    rcases short with ⟨all, empty⟩ | ⟨m', later, next, less⟩
    · have whole := frames_length_mono front
      have none_left := congrArg List.length empty
      rw [all] at whole
      simp only [List.length_append, List.length_nil] at none_left
      omega
    · have same : before = s.decoded := frame_position front
        (show s.decoded ++ [m'] <+: msgs from ⟨later, by simp [next]⟩) behind inside (by omega)
        (by rw [List.flatMap_append, List.length_append, List.flatMap_singleton]; omega)
      rw [same] at overrun
      omega

/-- Frames that leave room for all but one byte of a chunk never wedge the queue. -/
theorem fitsBehind_of_small {limit : Nat} (chunked : ∀ c ∈ chunks, c.length ≤ limit)
    (small : ∀ m ∈ msgs, (frame m).length + limit ≤ ibBuffSize + 1) : FitsBehind msgs chunks := by
  intro before m after first chunk rest here split behind inside
  have bound := chunked chunk (by simp [split])
  have fits := small m (by simp [here])
  rw [List.flatMap_append, List.length_append, List.flatMap_singleton] at inside
  omega

/-- **The queue never wedges** in any run over a stream and its chunks exactly when every chunk
fits behind the frame it continues. -/
theorem never_wedged (framed : ∀ m ∈ msgs, Framed m) (cut : chunks.flatten = msgs.flatMap frame) :
    (∀ s, (system chunks).Reachable s → ¬Wedged s) ↔ FitsBehind msgs chunks := by
  constructor
  · intro safe
    by_contra overrun
    obtain ⟨s, reached, wedged⟩ := wedged_of_overrun framed cut overrun
    exact safe s reached wedged
  · exact fun fits s reached => not_wedged framed cut fits reached

/-- A small message in two chunks does not wedge the queue. -/
theorem never_wedged_by_sample :
    FitsBehind [sample] [(frame sample).take 3, (frame sample).drop 3] ∧
      ∀ s, (system [(frame sample).take 3, (frame sample).drop 3]).Reachable s → ¬Wedged s := by
  have framed : ∀ m ∈ [sample], Framed m := by
    simp only [List.mem_singleton, forall_eq]
    exact ⟨rfl, by decide, by decide⟩
  have fits : FitsBehind [sample] [(frame sample).take 3, (frame sample).drop 3] := by
    refine @fitsBehind_of_small _ _ 512 ?_ ?_
    · simp only [List.mem_cons, List.not_mem_nil, or_false, forall_eq_or_imp, forall_eq]
      decide
    · simp only [List.mem_singleton, forall_eq]
      decide
  exact ⟨fits, (never_wedged framed (by simp)).mpr fits⟩

/-- A message whose frame fills the queue. -/
def largest : DefaultMessage :=
  ⟨InternalOperation.SYNC_REQUEST.code, 0, some (List.replicate (ibBuffSize - 13) 0)⟩

/-- All of it but the last byte comes byte by byte, and the rest with the next frame. -/
def lateChunks : List (List UInt8) :=
  ((frame largest).take (ibBuffSize - 1)).map (fun b => [b]) ++
    [(frame largest).drop (ibBuffSize - 1) ++ frame sample]

/-- **A queue of the frame's size is not enough.** The last chunk of the frame has no room, since it
brings the next frame too, and the frame's last byte is in that chunk. -/
theorem wedged_by_largest :
    (∀ m ∈ [largest, sample], Framed m) ∧ (∀ c ∈ lateChunks, 1 ≤ c.length ∧ c.length ≤ 512) ∧
      lateChunks.flatten = [largest, sample].flatMap frame ∧
      ∃ s, (system lateChunks).Reachable s ∧ Wedged s := by
  have size : largest.size = ibBuffSize - 13 := List.length_replicate
  have whole : (frame largest).length = ibBuffSize := by
    rw [frame_length, size]
    decide
  have next : (frame sample).length = 14 := frame_length sample
  have framed : ∀ m ∈ [largest, sample], Framed m := by
    simp only [List.mem_cons, List.not_mem_nil, or_false, forall_eq_or_imp, forall_eq]
    refine ⟨⟨rfl, by rw [size]; decide, by rw [size]; decide⟩, ⟨rfl, by decide, by decide⟩⟩
  have bytes : ∀ l : List UInt8, (l.map fun b => [b]).flatten = l := fun l => by
    induction l with
    | nil => rfl
    | cons b l ih => simp [ih]
  have cut : lateChunks.flatten = [largest, sample].flatMap frame := by
    rw [lateChunks, List.flatten_append, bytes, List.flatten_singleton, ← List.append_assoc,
      List.take_append_drop]
    simp
  have last : ((frame largest).drop (ibBuffSize - 1) ++ frame sample).length = 15 := by
    rw [List.length_append, List.length_drop, whole, next]
    decide
  refine ⟨framed, fun c member => ?_, cut, wedged_of_overrun framed cut fun fits => ?_⟩
  · rcases List.mem_append.mp member with single | final
    · obtain ⟨b, _, rfl⟩ := List.mem_map.mp single
      exact ⟨le_rfl, Nat.le_of_ble_eq_true rfl⟩
    · rw [List.mem_singleton.mp final, last]
      decide
  · have first : (((frame largest).take (ibBuffSize - 1)).map fun b => [b]).flatten.length =
        ibBuffSize - 1 := by
      rw [bytes, List.length_take, whole]
      decide
    have room := fits [] largest [sample] _ _ [] rfl rfl (Nat.zero_le _)
      (by rw [first, List.nil_append, List.flatMap_singleton, whole]; decide)
    rw [first, last] at room
    exact absurd room (by decide)

end DCScan.Framing
