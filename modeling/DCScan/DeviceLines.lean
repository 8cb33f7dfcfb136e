import Mathlib.Data.List.Nodup
import DCScan.CmdBuffer
import DCScan.Lib.Splitting

/-!
What the control service writes to the controllers. For each command that it takes out of the
buffer it writes the text to the device of the command's target, and for two of the three an end of line
in a call of its own; only then it reads a response. Nothing looks at what the calls return.

`Whole` is the condition that no call leaves bytes behind. The bytes that a device has got are then a
front of the texts that were scheduled for it, each with its end of line, in the order in which
`schedule` was called.
-/

namespace DCScan.DeviceLines

open Lib CmdBuffer

def carriageReturn : UInt8 := 13

/-- The write calls for a command: its text, and for the ESP301 the end of line with the zero behind
it, of which `write_bytes(esp301_handle, "\r", 2)` counts two bytes. -/
def toWrite (cmd : Command) : List (List UInt8) :=
  if cmd.full_cmd.length = 0 then []
  else
    match UnitTarget.ofCode cmd.target with
    | some .ESP301 => [cmd.full_cmd, [carriageReturn, 0]]
    | some .PMC8742 => [cmd.full_cmd, [carriageReturn]]
    | some .XPSRLD4 => [cmd.full_cmd]
    | none => []

structure State where
  buffer : CmdBuffer.State
  /-- The write calls that were made for the command in hand. -/
  written : Nat
  /-- The bytes that each device has got. -/
  lines : UnitTarget → List UInt8

inductive Action where
  /-- A step of a caller or of the service that writes nothing. -/
  | inside (a : CmdBuffer.Action)
  /-- One write call, of which the device takes the first bytes. -/
  | write (accepted : Nat)
  deriving DecidableEq

/-- The write calls that are still to come for the command in hand. -/
def State.left (s : State) : List (List UInt8) :=
  match s.buffer.service.consumer with
  | .handling x => (toWrite x.cmd).drop s.written
  | _ => []

/-- The steps behind the write calls: the response, or the end of the round. -/
def behindWrites : CmdBuffer.Action → Bool
  | .reply _ | .pass => true
  | _ => false

/-- The end of a round. -/
def endsRound : CmdBuffer.Action → Bool
  | .notifyReply _ | .pass => true
  | _ => false

def step (s : State) : Action → Option State
  | .inside a =>
    if behindWrites a ∧ s.left ≠ [] then none
    else (CmdBuffer.step s.buffer a).map fun buffer =>
      { s with buffer := buffer, written := if endsRound a then 0 else s.written }
  | .write accepted =>
    match s.buffer.service.consumer, s.left with
    | .handling x, part :: _ =>
      (UnitTarget.ofCode x.cmd.target).map fun device => { s with
        written := s.written + 1
        lines := Function.update s.lines device (s.lines device ++ part.take accepted) }
    | _, _ => none

def system : System State Action where
  init s := ∃ buffer, CmdBuffer.system.init buffer ∧ s = ⟨buffer, 0, fun _ => []⟩
  step := step

/-- A write call takes all its bytes. -/
def Whole (s : State) : Action → Prop
  | .inside _ => True
  | .write accepted => ∀ part ∈ s.left.head?, part.length ≤ accepted

/-- What a device gets of some commands. -/
def stream (device : UnitTarget) (cmds : List Command) : List UInt8 :=
  cmds.flatMap fun cmd => if UnitTarget.ofCode cmd.target = some device then (toWrite cmd).flatten else []

/-- What it has got of the command in hand. -/
def State.part (s : State) (device : UnitTarget) : List UInt8 :=
  match s.buffer.service.consumer with
  | .handling x =>
    if UnitTarget.ofCode x.cmd.target = some device then ((toWrite x.cmd).take s.written).flatten else []
  | _ => []

variable {s t : State} {a : Action} {x : Scheduled} {device : UnitTarget} {cmd : Command}
variable {cmds more : List Command}

@[simp] theorem stream_append (device : UnitTarget) (cmds more : List Command) :
    stream device (cmds ++ more) = stream device cmds ++ stream device more :=
  List.flatMap_append

@[simp] theorem stream_nil (device : UnitTarget) : stream device [] = [] := rfl

theorem toWrite_of_guard (passed : serviceLoop.guard x = true) : toWrite x.cmd = [] :=
  if_pos (of_decide_eq_true passed)

/-- What the service passes over is not written. -/
theorem stream_filter (device : UnitTarget) (xs : List Scheduled) :
    stream device ((xs.filter (!serviceLoop.guard ·)).map Scheduled.cmd) =
      stream device (xs.map Scheduled.cmd) := by
  induction xs with
  | nil => rfl
  | cons x xs ih =>
    cases passed : serviceLoop.guard x with
    | true => simpa [passed, stream, toWrite_of_guard passed] using ih
    | false => simpa [passed, stream] using ih

/-! ## One step -/

/-- The lines are those of the commands that the service is done with, and the part of the one in
hand that was written. -/
structure Inv (s : State) : Prop where
  sound : Sound s.buffer
  lines : ∀ device, s.lines device =
    stream device (s.buffer.service.handled.map Scheduled.cmd) ++ s.part device
  fresh : s.buffer.service.consumer.inHand = [] → s.written = 0
  /-- A response is stored when the whole line of its command was written. -/
  complete : s.buffer.notifying = true → s.left = []

theorem part_of_left (hands : s.buffer.service.consumer = .handling x) (all : s.left = []) :
    s.part device = stream device [x.cmd] := by
  have past : (toWrite x.cmd).take s.written = toWrite x.cmd := by
    simp only [State.left, hands] at all
    exact List.take_of_length_le (List.drop_eq_nil_iff.mp all)
  simp only [State.part, hands, past, stream, List.flatMap_singleton]

/-- The end of a round: what was in hand is handled. -/
theorem Inv.handle (inv : Inv s) (all : s.left = []) {service : ConsumerLoop.State Scheduled}
    {buffer : CmdBuffer.State} (sound : Sound buffer)
    (ran : ConsumerLoop.step serviceLoop s.buffer.service .handle = some service)
    (now : buffer.service = service) (idle : buffer.notifying = false) :
    Inv { s with buffer := buffer, written := 0 } := by
  obtain ⟨x, hands, rfl⟩ := handle_ran ran
  refine ⟨sound, fun device => ?_, fun _ => rfl, fun noted => ?_⟩
  · have ended : State.part { s with buffer := buffer, written := 0 } device = [] := by
      simp [State.part, now]
    rw [ended, inv.lines device, part_of_left hands all, now]
    cases passed : serviceLoop.guard x with
    | true => simp [stream, toWrite_of_guard passed]
    | false => simp
  · simp only at noted
    rw [idle] at noted
    cases noted

/-- A step that leaves what is in hand there, and what was handled. -/
theorem Inv.keep (inv : Inv s) {buffer : CmdBuffer.State} (sound : Sound buffer)
    (handled : buffer.service.handled = s.buffer.service.handled)
    (hand : buffer.service.consumer.inHand = s.buffer.service.consumer.inHand)
    (noted : buffer.notifying = true → s.left = []) : Inv { s with buffer := buffer } := by
  have left : State.left { s with buffer := buffer } = s.left ∧
      ∀ device, State.part { s with buffer := buffer } device = s.part device := by
    simp only [State.left, State.part]
    cases now : buffer.service.consumer <;> cases before : s.buffer.service.consumer <;>
      simp_all [ConsumerLoop.Consumer.inHand]
  refine ⟨sound, fun device => ?_, fun none_there => ?_, fun stored => ?_⟩
  · simp only [left.2, handled]
    exact inv.lines device
  · exact inv.fresh (hand ▸ none_there)
  · rw [left.1]
    exact noted stored

/-- A step of `process` takes a command out of the buffer, or leaves what is in hand. -/
theorem Inv.service (inv : Inv s) {b : ConsumerLoop.Action Scheduled}
    {service : ConsumerLoop.State Scheduled} {buffer : CmdBuffer.State} (sound : Sound buffer)
    (own : ofService b = true) (ran : ConsumerLoop.step serviceLoop s.buffer.service b = some service)
    (now : buffer = { s.buffer with service := service }) : Inv { s with buffer := buffer } := by
  obtain ⟨_, _, handled⟩ := frame_of_service own ran
  cases stand : s.buffer.service.consumer with
  | handling x =>
    have still := handling_of_service own stand ran
    refine inv.keep sound ?_ ?_ ?_
    · rw [now]
      exact handled
    · rw [now, stand]
      exact congrArg ConsumerLoop.Consumer.inHand still
    · rw [now]
      exact inv.complete
  | _ =>
    have none_written : s.written = 0 := inv.fresh (by rw [stand]; rfl)
    have idle : s.buffer.notifying = false := by
      cases noted : s.buffer.notifying with
      | false => rfl
      | true =>
        obtain ⟨x, hands, _⟩ := inv.sound.replies.stored noted
        rw [stand] at hands
        cases hands
    refine ⟨sound, fun device => ?_, fun _ => none_written, fun noted => ?_⟩
    · have nothing : State.part { s with buffer := buffer } device = [] := by
        simp only [State.part, none_written]
        split
        · simp
        · rfl
      have before : s.part device = [] := by simp [State.part, stand]
      rw [nothing, now, inv.lines device, before, handled]
    · simp only [now] at noted
      rw [idle] at noted
      cases noted

theorem inv_inside (inv : Inv s) {a : CmdBuffer.Action} {buffer : CmdBuffer.State}
    (ready : behindWrites a = true → s.left = [])
    (ran : CmdBuffer.step s.buffer a = some buffer) :
    Inv { s with buffer := buffer, written := if endsRound a then 0 else s.written } := by
  have sound := sound_step inv.sound ran
  cases effect_of_step ran with
  | schedule pushed =>
    rw [push_ran pushed] at sound ⊢
    exact inv.keep sound rfl rfl inv.complete
  | notify _ notified =>
    obtain ⟨n, _, rfl⟩ := notify_ran notified
    exact inv.keep sound rfl (ConsumerLoop.inHand_wake _) inv.complete
  | service own moved => exact inv.service sound own moved rfl
  | reply => exact inv.keep sound rfl rfl fun _ => ready rfl
  | wake stored _ moved | miss stored _ moved =>
    exact inv.handle (inv.complete stored) sound moved rfl rfl
  | pass hands due moved =>
    refine inv.handle (ready rfl) sound moved rfl ?_
    cases noted : s.buffer.notifying with
    | false => rfl
    | true =>
      obtain ⟨y, same, asks⟩ := inv.sound.replies.stored noted
      rw [hands] at same
      cases same
      exact absurd (due.symm.trans asks) (by simp)
  | _ => exact inv.keep sound rfl rfl inv.complete

/-- A write call that takes all its bytes. -/
theorem inv_write (inv : Inv s) {part : List UInt8} {rest : List (List UInt8)} {accepted : Nat}
    (hands : s.buffer.service.consumer = .handling x) (next : s.left = part :: rest)
    (whole : part.length ≤ accepted) (target : UnitTarget.ofCode x.cmd.target = some device) :
    Inv { s with
      written := s.written + 1
      lines := Function.update s.lines device (s.lines device ++ part.take accepted) } := by
  have here : (toWrite x.cmd).drop s.written = part :: rest := by simpa [State.left, hands] using next
  refine ⟨inv.sound, fun other => ?_, fun none_there => ?_, fun noted => ?_⟩
  · have taken : (toWrite x.cmd).take (s.written + 1) = (toWrite x.cmd).take s.written ++ [part] := by
      obtain ⟨within, same⟩ := List.getElem?_eq_some_iff.mp
        (show (toWrite x.cmd)[s.written]? = some part by rw [← List.head?_drop, here]; rfl)
      rw [← same, List.take_append_getElem]
    by_cases own : other = device
    · subst own
      simp only [Function.update_self, inv.lines other, State.part, hands, target, if_true, taken,
        List.take_of_length_le whole, List.flatten_append, List.flatten_singleton, List.append_assoc]
    · have away : UnitTarget.ofCode x.cmd.target ≠ some other := by
        rw [target]
        simpa using fun same => own same.symm
      simp only [Function.update_of_ne own, inv.lines other, State.part, hands, if_neg away]
  · simp only [hands, ConsumerLoop.Consumer.inHand] at none_there
    cases none_there
  · exact absurd (inv.complete noted) (by rw [next]; exact List.cons_ne_nil _ _)

theorem inv_step (inv : Inv s) (whole : Whole s a) (ran : step s a = some t) : Inv t := by
  cases a with
  | inside a =>
    simp only [step] at ran
    split at ran
    · contradiction
    · rename_i ready
      obtain ⟨buffer, moved, rfl⟩ := Option.map_eq_some_iff.mp ran
      exact inv_inside inv (fun behind => by_contra fun left => ready ⟨behind, left⟩) moved
  | write accepted =>
    simp only [step] at ran
    split at ran
    · rename_i x part rest hands next
      obtain ⟨device, target, rfl⟩ := Option.map_eq_some_iff.mp ran
      exact inv_write inv hands next (whole part (by simp [next])) target
    · contradiction

theorem reachable_inv (reached : system.ReachableBy Whole s) : Inv s := by
  refine reached.invariant ?_ fun s a t inv whole ran => inv_step inv whole ran
  rintro _ ⟨buffer, init, rfl⟩
  have sound := reachable_sound (.start init)
  cases init
  exact ⟨sound, fun _ => rfl, fun _ => rfl, nofun⟩

/-! ## What was scheduled, and what was written -/

/-- The commands in the order in which `schedule` was called. -/
def State.scheduled (s : State) : List Command := s.buffer.calls.map Call.cmd

theorem pushed_scheduled (inv : Inv s) : s.buffer.service.pushed.map Scheduled.cmd = s.scheduled := by
  refine List.ext_getElem? fun k => ?_
  rw [State.scheduled, List.getElem?_map, List.getElem?_map, inv.sound.queue.pushed, Option.map_map]
  rfl

/-- What the service has done, has in hand and finds in the queue is what was scheduled. -/
theorem stream_scheduled (inv : Inv s) (device : UnitTarget) : stream device s.scheduled =
    stream device (s.buffer.service.handled.map Scheduled.cmd) ++
      stream device (s.buffer.service.consumer.inHand.map Scheduled.cmd) ++
        stream device (s.buffer.service.queue.map Scheduled.cmd) := by
  have kept : s.buffer.service.pushed.filter (!serviceLoop.guard ·) = _ := inv.sound.queue.kept
  rw [← pushed_scheduled inv, ← stream_filter, kept, List.map_append, stream_append, stream_filter,
    List.map_append, stream_append, List.append_assoc]

/-- The part that was written of the command in hand. -/
theorem part_begins (device : UnitTarget) :
    s.part device <+: stream device (s.buffer.service.consumer.inHand.map Scheduled.cmd) := by
  unfold State.part
  split
  · rename_i x hands
    simp only [hands, ConsumerLoop.Consumer.inHand, List.map_singleton, stream,
      List.flatMap_singleton]
    split
    · exact ⟨((toWrite x.cmd).drop s.written).flatten, by
        rw [← List.flatten_append, List.take_append_drop]⟩
    · exact List.prefix_rfl
  · exact List.nil_prefix

theorem lines_begin (inv : Inv s) (device : UnitTarget) :
    s.lines device <+: stream device s.scheduled := by
  rw [inv.lines device, stream_scheduled inv, List.append_assoc]
  exact (List.prefix_append_right_inj _).mpr ((part_begins device).trans (List.prefix_append _ _))

/-- What passes a filter before an element of a list without repetitions. -/
theorem filter_before {α : Type} {p : α → Bool} {xs first rest : List α} {x : α} {k : Nat}
    (once : xs.Nodup) (here : xs[k]? = some x) (passes : p x = true)
    (split : xs.filter p = first ++ x :: rest) : (xs.take k).filter p = first := by
  obtain ⟨within, same⟩ := List.getElem?_eq_some_iff.mp here
  have cut : xs = xs.take k ++ x :: xs.drop (k + 1) := by
    rw [← same, ← List.drop_eq_getElem_cons within, List.take_append_drop]
  rw [cut, List.nodup_append, List.nodup_cons] at once
  obtain ⟨_, ⟨last, _⟩, apart⟩ := once
  have before : x ∉ (xs.take k).filter p := fun member =>
    apart x (List.mem_filter.mp member).1 x List.mem_cons_self rfl
  have behind : x ∉ (xs.drop (k + 1)).filter p := fun member =>
    last (List.mem_filter.mp member).1
  rw [cut, List.filter_append, List.filter_cons_of_pos passes] at split
  exact ((List.append_cons_inj_of_notMem before behind).mp split).1

/-- A command of which the service has written all is behind all those scheduled before it. -/
theorem stream_taken (inv : Inv s) {written later : List Scheduled} (member : x ∈ written)
    (split : s.buffer.service.pushed.filter (!serviceLoop.guard ·) = written ++ later)
    (device : UnitTarget) : stream device (s.scheduled.take (x.call + 1)) <+:
      stream device (written.map Scheduled.cmd) := by
  have pushed := inv.sound.queue.pushed
  obtain ⟨first, rest, rfl⟩ := List.append_of_mem member
  have inside : x ∈ s.buffer.service.pushed.filter (!serviceLoop.guard ·) := by simp [split]
  obtain ⟨k, here⟩ := List.mem_iff_getElem?.mp (List.mem_filter.mp inside).1
  have number : x.call = k := by
    have found := here
    rw [pushed, Option.map_eq_some_iff] at found
    obtain ⟨_, _, rfl⟩ := found
    rfl
  rw [List.append_assoc, List.cons_append] at split
  have front := filter_before (List.Nodup.of_map _ pushed.nodup) here (List.mem_filter.mp inside).2 split
  have taken : s.buffer.service.pushed.take (k + 1) = s.buffer.service.pushed.take k ++ [x] := by
    rw [List.take_add_one, here, Option.toList_some]
  rw [number, ← pushed_scheduled inv, ← List.map_take, taken, List.map_append, stream_append,
    ← stream_filter, front, List.append_cons, List.map_append, List.map_append, stream_append,
    stream_append]
  exact List.prefix_append _ _

/-- The whole lines up to a command for which a reply was made are written. -/
theorem replied_written (inv : Inv s) {k : Nat} {text : List UInt8}
    (replied : (k, text) ∈ s.buffer.replied) (device : UnitTarget) :
    stream device (s.scheduled.take (k + 1)) <+: s.lines device := by
  have kept : s.buffer.service.pushed.filter (!serviceLoop.guard ·) = _ := inv.sound.queue.kept
  have known : k ∈ s.buffer.answered ++ s.buffer.answering := by
    rw [← inv.sound.replies.replied]
    exact List.mem_map_of_mem replied
  rw [inv.lines device]
  rcases List.mem_append.mp known with answered | answering
  · obtain ⟨x, member, rfl⟩ := List.mem_map.mp answered
    exact (stream_taken inv (List.mem_of_mem_filter member) kept device).trans
      (List.prefix_append _ _)
  · unfold CmdBuffer.State.answering at answering
    split at answering
    · rename_i noted
      obtain ⟨x, hands, due⟩ := inv.sound.replies.stored noted
      simp only [hands, ConsumerLoop.Consumer.inHand, List.map_singleton, List.mem_singleton]
        at answering
      subst answering
      rw [hands, ConsumerLoop.Consumer.inHand, List.filter_append, ← List.append_assoc,
        List.filter_singleton, not_guard_of_due due] at kept
      have taken := stream_taken inv (List.mem_append_right _ (List.mem_singleton_self x)) kept device
      rwa [List.map_append, stream_append, List.map_singleton,
        ← part_of_left hands (inv.complete noted)] at taken
    · cases answering

/-- Nothing is queued or in hand. -/
def AtRest (s : State) : Prop :=
  s.buffer.service.queue = [] ∧ s.buffer.service.consumer.inHand = []

theorem lines_of_rest (inv : Inv s) (rests : AtRest s) (device : UnitTarget) :
    s.lines device = stream device s.scheduled := by
  obtain ⟨queue, hand⟩ := rests
  have part : s.part device = [] := by
    have front := part_begins (s := s) device
    rw [hand] at front
    exact List.prefix_nil.mp front
  rw [inv.lines device, part, stream_scheduled inv, hand, queue]
  simp

/-- **The devices get the commands in order.** As long as every write call takes all its bytes, each
device has got a front of the commands scheduled for it, in the order of the calls and each with its
end of line; all of them when the service is at rest; and before a caller gets its reply, all up to its
own command. -/
theorem device_lines (reached : system.ReachableBy Whole s) :
    (∀ device, s.lines device <+: stream device s.scheduled) ∧
      (s.buffer.service.queue = [] → s.buffer.service.consumer.inHand = [] →
        ∀ device, s.lines device = stream device s.scheduled) ∧
      ∀ k text, (k, text) ∈ s.buffer.replied →
        ∀ device, stream device (s.scheduled.take (k + 1)) <+: s.lines device := by
  have inv := reachable_inv reached
  exact ⟨lines_begin inv, fun queue hand => lines_of_rest inv ⟨queue, hand⟩,
    fun k text => replied_written inv⟩

instance (s : State) : (a : Action) → Decidable (Whole s a)
  | .inside _ => isTrue trivial
  | .write accepted => inferInstanceAs (Decidable (∀ part ∈ s.left.head?, part.length ≤ accepted))

/-- The ESP301 is asked for a position. -/
def asking : List Action :=
  [.inside (.schedule ⟨0, [49, 84, 80], true⟩), .inside (.notify 0), .inside (.wait 0),
    .inside (.sleep 0), .inside (.service .test), .inside (.service .enter), .write 3, .write 2,
    .inside (.reply [51, 46, 53])]

/-- Its line was written when the reply is made. -/
theorem device_lines_asked : ∃ s : State, s.buffer.replied = [(0, [51, 46, 53])] ∧
    (∀ device, s.lines device <+: stream device s.scheduled) ∧
      (s.buffer.service.queue = [] → s.buffer.service.consumer.inHand = [] →
        ∀ device, s.lines device = stream device s.scheduled) ∧
      ∀ k text, (k, text) ∈ s.buffer.replied →
        ∀ device, stream device (s.scheduled.take (k + 1)) <+: s.lines device := by
  obtain ⟨s, reached, replied⟩ : ∃ s, system.ReachableBy Whole s ∧
      s.buffer.replied = [(0, [51, 46, 53])] :=
    System.exists_reachableBy_of_replay ⟨_, rfl, rfl⟩ asking (by decide)
  exact ⟨s, replied, device_lines reached⟩

/-! ## What a device can tell -/

/-- The texts that a device is sent. -/
def texts (device : UnitTarget) (cmds : List Command) : List (List UInt8) :=
  (cmds.filter fun cmd => UnitTarget.ofCode cmd.target = some device ∧ cmd.full_cmd ≠ []).map
    Command.full_cmd

/-- The end of line of a device. -/
def lineEnd : UnitTarget → List UInt8
  | .ESP301 => [carriageReturn, 0]
  | .PMC8742 => [carriageReturn]
  | .XPSRLD4 => []

theorem stream_eq_texts (device : UnitTarget) (cmds : List Command) :
    stream device cmds = (texts device cmds).flatMap (· ++ lineEnd device) := by
  induction cmds with
  | nil => rfl
  | cons cmd cmds ih =>
    rw [show stream device (cmd :: cmds) = stream device [cmd] ++ stream device cmds by
      rw [← stream_append, List.singleton_append], ih]
    by_cases aimed : UnitTarget.ofCode cmd.target = some device
    · by_cases empty : cmd.full_cmd = []
      · simp [stream, texts, aimed, empty, toWrite]
      · cases device <;> simp [stream, texts, aimed, empty, toWrite, lineEnd]
    · simp [stream, texts, aimed]

/-- A device that gets ends of line can tell the texts from its bytes. -/
theorem texts_unique (ended : device ≠ .XPSRLD4)
    (plain : ∀ text ∈ texts device cmds, carriageReturn ∉ text)
    (plain' : ∀ text ∈ texts device more, carriageReturn ∉ text)
    (same : stream device cmds = stream device more) : texts device cmds = texts device more := by
  rw [stream_eq_texts, stream_eq_texts] at same
  cases device with
  | ESP301 => exact pieces_unique [0] plain plain' same
  | PMC8742 => exact pieces_unique [] plain plain' same
  | XPSRLD4 => exact absurd rfl ended

/-- **The commands can be told from the bytes**, for the two devices that get ends of line: two runs
that come to rest and have sent a device the same bytes have scheduled the same texts for it, when
none has an end of line in it. -/
theorem commands_of_lines (reached : system.ReachableBy Whole s) (reached' : system.ReachableBy Whole t)
    (rests : AtRest s) (rests' : AtRest t) (ended : device ≠ .XPSRLD4)
    (plain : ∀ text ∈ texts device s.scheduled, carriageReturn ∉ text)
    (plain' : ∀ text ∈ texts device t.scheduled, carriageReturn ∉ text)
    (same : s.lines device = t.lines device) :
    texts device s.scheduled = texts device t.scheduled := by
  rw [lines_of_rest (reachable_inv reached) rests, lines_of_rest (reachable_inv reached') rests']
    at same
  exact texts_unique ended plain plain' same

/-- It is told to move, while nobody waits. -/
def telling : List Action :=
  [.inside (.schedule ⟨0, [49, 84, 80], false⟩), .inside (.service .test),
    .inside (.service .enter), .write 3, .write 2, .inside .pass]

/-- With or without a response, the ESP301 gets the same line. -/
theorem commands_of_lines_asked : ∃ s t : State, s.scheduled ≠ t.scheduled ∧
    texts .ESP301 s.scheduled = texts .ESP301 t.scheduled := by
  obtain ⟨s, reached, rests, scheduled, lines⟩ : ∃ s, system.ReachableBy Whole s ∧
      (s.buffer.service.queue = [] ∧ s.buffer.service.consumer.inHand = []) ∧
      s.scheduled = [⟨0, [49, 84, 80], true⟩] ∧ s.lines .ESP301 = [49, 84, 80, 13, 0] :=
    System.exists_reachableBy_of_replay ⟨_, rfl, rfl⟩
      (asking ++ [.inside (.notifyReply (some 0))]) (by decide)
  obtain ⟨t, reached', rests', scheduled', lines'⟩ : ∃ t, system.ReachableBy Whole t ∧
      (t.buffer.service.queue = [] ∧ t.buffer.service.consumer.inHand = []) ∧
      t.scheduled = [⟨0, [49, 84, 80], false⟩] ∧ t.lines .ESP301 = [49, 84, 80, 13, 0] :=
    System.exists_reachableBy_of_replay ⟨_, rfl, rfl⟩ telling (by decide)
  refine ⟨s, t, by rw [scheduled, scheduled']; decide, ?_⟩
  exact commands_of_lines reached reached' rests rests' (by decide) (by rw [scheduled]; decide)
    (by rw [scheduled']; decide) (lines.trans lines'.symm)

/-- Two commands for the XPS are one to it. -/
example : stream .XPSRLD4 [⟨2, [65], false⟩, ⟨2, [66], false⟩] = stream .XPSRLD4 [⟨2, [65, 66], false⟩] := by
  decide

end DCScan.DeviceLines
