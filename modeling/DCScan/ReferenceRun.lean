import DCScan.Encoder
import DCScan.Lib.Since
import DCScan.Lib.System

/-!
The encoder's loop from its start to its end: the run that references the axes, and the samples
behind it, while another thread sets the encoder up, starts the loop and stops it.

An axis whose reference has not been seen since the loop was started has an entry in a sample only if
the encoder was set up again meanwhile.
-/

namespace DCScan.Encoder

open Lib

/-- Where the thread of the loop stands. -/
inductive LoopPhase where
  | begins
  /-- Before the test of the run. -/
  | tests_ref (referencing : Fin 4 → Bool) (referencingtot : Bool)
  | reads_ref (referencing : Fin 4 → Bool)
  /-- Behind the run, before `waiting_for_ref` is cleared. -/
  | referenced
  | tests
  | reads
  | ended

structure Loop where
  phase : LoopPhase
  isigperiods : Fin 4 → Float

inductive Event where
  /-- `inited_axes` was set. -/
  | inited (axes : Int8)
  /-- The loop was started. -/
  | started
  /-- "Encoder %d head referenced." -/
  | referenced (i : Fin 4)
  | published (data : EncoderData)

def Event.inits : Event → Prop
  | inited _ => True
  | _ => False

def Event.starts : Event → Prop
  | started => True
  | _ => False

def Event.sample : Event → Option EncoderData
  | published data => some data
  | _ => none

/-- The variables of the encoder, and what has happened. -/
structure State where
  inited_axes : Int8
  eib_loop : Option Loop
  eib_loop_running : Bool
  waiting_for_ref : Bool
  outbound_data_queue : List EncoderData
  /-- `EIB7SoftModeLoopStop` waits for the thread. -/
  joining : Bool
  history : List Event

def initial : State := ⟨0, none, false, false, [], false, []⟩

def EncoderNeedsRefRun (s : State) : UInt8 := if s.waiting_for_ref then 1 else 0

inductive Action where
  /-- `InitEIB7Encoder`, which comes back before it sets the mask when a call fails. -/
  | InitEIB7Encoder (axes : Int8) (prepared : Bool)
  | EIB7SoftModeLoopStart (sigperiods : Fin 4 → Float)
  | EIB7SoftModeLoopStop
  | join
  /-- The thread starts the references. -/
  | begin
  /-- It tests whether its loop goes on. -/
  | test
  /-- It reads a packet of the run: how many entries there are, and the status words. -/
  | packet (entries : Nat) (status : Fin 4 → UInt16)
  /-- It clears `waiting_for_ref`. -/
  | clear
  /-- A turn of the main loop. -/
  | turn (t : Turn)

/-- `inited_axes & (1 << i)`. -/
def State.inited (s : State) (i : Fin 4) : Bool := s.inited_axes.toBitVec.getLsbD i.val

/-- `status & (1 << 8)`. -/
def hasReference (status : UInt16) : Bool := status.toBitVec.getLsbD 8

def State.move (s : State) (loop : Loop) (phase : LoopPhase) : State :=
  { s with eib_loop := some { loop with phase } }

/-- The axes still to be referenced behind a packet with entries. -/
def State.left (s : State) (referencing : Fin 4 → Bool) (status : Fin 4 → UInt16) (i : Fin 4) : Bool :=
  s.inited i && !hasReference (status i) && referencing i

/-- The axes whose reference is logged. -/
def State.found (s : State) (referencing : Fin 4 → Bool) (status : Fin 4 → UInt16) : List (Fin 4) :=
  (List.finRange 4).filter fun i => s.inited i && hasReference (status i) && referencing i

section

-- `EIB7IncrPosToDouble`
variable (convert : Int64 → Float)

def loopStep (s : State) (loop : Loop) : Action → Option State
  | .begin =>
    match loop.phase with
    | .begins => some { s.move loop (.tests_ref (fun _ => true) true) with waiting_for_ref := true }
    | _ => none
  | .test =>
    match loop.phase with
    | .tests_ref referencing referencingtot =>
      if referencingtot && s.eib_loop_running then some (s.move loop (.reads_ref referencing))
      else some (s.move loop .referenced)
    | .tests => some (s.move loop (if s.eib_loop_running then .reads else .ended))
    | _ => none
  | .packet entries status =>
    match loop.phase with
    | .reads_ref referencing =>
      if entries > 0 then
        let left := s.left referencing status
        some { s.move loop (.tests_ref left ((List.finRange 4).any left)) with
          history := s.history ++ (s.found referencing status).map .referenced }
      else some (s.move loop (.tests_ref referencing true))
    | _ => none
  | .clear =>
    match loop.phase with
    | .referenced => some { s.move loop .tests with waiting_for_ref := false }
    | _ => none
  | .turn t =>
    match loop.phase with
    | .reads =>
      match EIB7.turn ⟨s.inited_axes, loop.isigperiods, convert, fun _ => t⟩ t with
      | some edata => some { s.move loop .tests with
          outbound_data_queue := s.outbound_data_queue ++ [edata]
          history := s.history ++ [.published edata] }
      | none => some (s.move loop .tests)
    | _ => none
  | _ => none

def step (s : State) : Action → Option State
  | .InitEIB7Encoder axes prepared =>
    if s.joining then none
    else if prepared then some { s with
      inited_axes := axes
      history := s.history ++ [.inited axes] }
    else some s
  | .EIB7SoftModeLoopStart sigperiods =>
    if s.joining then none
    else match s.eib_loop with
      | none => some { s with
          eib_loop_running := true
          -- the thread is given the periods from the last to the first
          eib_loop := some ⟨.begins, fun i => sigperiods i.rev⟩
          history := s.history ++ [.started] }
      | some _ => some s
  | .EIB7SoftModeLoopStop =>
    if s.joining then none
    else match s.eib_loop with
      | none => some s
      | some _ => some { s with eib_loop_running := false, joining := true }
  | .join =>
    match s.joining, s.eib_loop with
    | true, some ⟨.ended, _⟩ => some { s with eib_loop := none, joining := false }
    | _, _ => none
  | a => s.eib_loop.bind fun loop => loopStep convert s loop a

def system : System State Action where
  init s := s = initial
  step := step convert

end

/-- The reference of the axis has been seen since the loop was started, or the encoder was set up
again. -/
def Ready (i : Fin 4) (log : List Event) : Prop :=
  Since (fun e => e = .referenced i ∨ e.inits) Event.starts log

/-- The loop has published nothing yet. -/
def Fresh (log : List Event) : Prop := ¬Since (fun e : Event => e.sample ≠ none) Event.starts log

/-- What is in a sample is of axes that are ready. -/
def Safe (log : List Event) : Prop :=
  ∀ before data after, log = before ++ .published data :: after →
    ∀ i, data.axis i ≠ none → Ready i before

variable {convert : Int64 → Float} {s t : State} {loop : Loop} {a : Action} {log more : List Event}
variable {e : Event} {i : Fin 4} {referencing : Fin 4 → Bool} {status : Fin 4 → UInt16}

/-! ## What has happened -/

theorem ready_inited (axes : Int8) : Ready i (log ++ [.inited axes]) :=
  since_concat.mpr (.inl (.inr trivial))

theorem Ready.append (ready : Ready i log) (none_starts : ∀ e ∈ more, ¬e.starts) :
    Ready i (log ++ more) := by
  refine Since.append ready ?_
  rintro ⟨before, e, after, rfl, starts, _⟩
  exact none_starts e (by simp) starts

theorem fresh_started : Fresh (log ++ [.started]) := by
  rw [Fresh, since_concat]
  rintro (sample | ⟨_, kept⟩)
  · exact sample rfl
  · exact kept trivial

theorem Fresh.append (fresh : Fresh log) (none_there : ∀ e ∈ more, e.sample = none) :
    Fresh (log ++ more) := by
  induction more using List.reverseRecOn with
  | nil => rwa [List.append_nil]
  | append_singleton more e ih =>
    rw [← List.append_assoc, Fresh, since_concat]
    rintro (sample | ⟨since, _⟩)
    · exact sample (none_there e (by simp))
    · exact ih (fun e member => none_there e (by simp [member])) since

theorem safe_concat : Safe (log ++ [e]) ↔
    Safe log ∧ ∀ data, e = .published data → ∀ i, data.axis i ≠ none → Ready i log := by
  constructor
  · intro safe
    refine ⟨fun before data after split => safe before data (after ++ [e]) (by simp [split]), ?_⟩
    rintro data rfl
    exact safe log data [] rfl
  · rintro ⟨safe, last⟩ before data after split
    rcases List.eq_nil_or_concat after with rfl | ⟨after, z, rfl⟩
    · obtain ⟨rfl, same⟩ := List.append_inj' split rfl
      exact last data (List.singleton_inj.mp same)
    · rw [List.concat_eq_append, ← List.cons_append, ← List.append_assoc] at split
      exact safe before data after (List.append_inj' split rfl).1

theorem Safe.append (safe : Safe log) (none_there : ∀ e ∈ more, e.sample = none) :
    Safe (log ++ more) := by
  induction more using List.reverseRecOn with
  | nil => rwa [List.append_nil]
  | append_singleton more e ih =>
    rw [← List.append_assoc, safe_concat]
    refine ⟨ih fun e member => none_there e (by simp [member]), ?_⟩
    rintro data rfl
    cases none_there (.published data) (by simp)

/-! ## The loop -/

/-- All axes that are read are ready. -/
def AllReady (s : State) : Prop := ∀ i, s.inited i = true → Ready i s.history

/-- Those that are no longer to be referenced are ready. -/
def Seen (s : State) (referencing : Fin 4 → Bool) : Prop :=
  ∀ i, referencing i = false → s.inited i = true → Ready i s.history

/-- What is so where the loop stands. -/
def Phased (s : State) : LoopPhase → Prop
  | .begins => s.waiting_for_ref = false ∧ Fresh s.history
  | .tests_ref referencing referencingtot => Fresh s.history ∧ Seen s referencing ∧
      (referencingtot = false → ∀ i, referencing i = false)
  | .reads_ref referencing => Fresh s.history ∧ Seen s referencing
  | .referenced => Fresh s.history ∧ (s.eib_loop_running = true → AllReady s)
  | .tests => s.waiting_for_ref = false ∧ (s.eib_loop_running = true → AllReady s)
  | .reads => s.waiting_for_ref = false ∧ AllReady s
  | .ended => s.waiting_for_ref = false

structure Inv (s : State) : Prop where
  queue : s.outbound_data_queue = s.history.filterMap Event.sample
  safe : Safe s.history
  waiting : s.eib_loop = none → s.waiting_for_ref = false
  phased : ∀ loop, s.eib_loop = some loop → Phased s loop.phase

theorem Inv.here (inv : Inv s) (there : s.eib_loop = some loop) {phase : LoopPhase}
    (stands : loop.phase = phase) : Phased s phase := stands ▸ inv.phased loop there

/-- The encoder is set up while the loop stands there. -/
theorem Phased.inited {phase : LoopPhase} (phased : Phased s phase) (axes : Int8) :
    Phased { s with inited_axes := axes, history := s.history ++ [.inited axes] } phase := by
  have none_there : ∀ e ∈ [Event.inited axes], e.sample = none := by simp [Event.sample]
  have all (i : Fin 4) : Ready i (s.history ++ [.inited axes]) := ready_inited axes
  cases phase with
  | begins => exact ⟨phased.1, phased.2.append none_there⟩
  | tests_ref => exact ⟨phased.1.append none_there, fun i _ _ => all i, phased.2.2⟩
  | reads_ref => exact ⟨phased.1.append none_there, fun i _ _ => all i⟩
  | referenced => exact ⟨phased.1.append none_there, fun _ i _ => all i⟩
  | tests => exact ⟨phased.1, fun _ i _ => all i⟩
  | reads => exact ⟨phased.1, fun i _ => all i⟩
  | ended => exact phased

theorem inv_init {axes : Int8} {prepared : Bool} (inv : Inv s)
    (stepped : step convert s (.InitEIB7Encoder axes prepared) = some t) : Inv t := by
  -- here and below the one case that the action takes, without the equations of the others
  delta step at stepped
  dsimp only at stepped
  split at stepped
  · cases stepped
  split at stepped
  · cases stepped
    refine ⟨?_, inv.safe.append (by simp [Event.sample]), inv.waiting, fun loop there => ?_⟩
    · simp [inv.queue, Event.sample]
    · exact (inv.phased loop there).inited axes
  · cases stepped
    exact inv

theorem inv_start {sigperiods : Fin 4 → Float} (inv : Inv s)
    (stepped : step convert s (.EIB7SoftModeLoopStart sigperiods) = some t) : Inv t := by
  delta step at stepped
  dsimp only at stepped
  split at stepped
  · cases stepped
  split at stepped
  · rename_i stopped
    cases stepped
    refine ⟨?_, inv.safe.append (by simp [Event.sample]), nofun, ?_⟩
    · simp [inv.queue, Event.sample]
    · rintro _ ⟨⟩
      exact ⟨inv.waiting stopped, fresh_started⟩
  · cases stepped
    exact inv

/-- A loop that is told to stop, or not, stands where it stood. -/
theorem Phased.stop {phase : LoopPhase} (phased : Phased s phase) :
    Phased { s with eib_loop_running := false, joining := true } phase := by
  cases phase with
  | begins | tests_ref | reads_ref | reads | ended => exact phased
  | referenced | tests => exact ⟨phased.1, nofun⟩

theorem inv_stop (inv : Inv s) (stepped : step convert s .EIB7SoftModeLoopStop = some t) : Inv t := by
  delta step at stepped
  dsimp only at stepped
  split at stepped
  · cases stepped
  split at stepped
  · cases stepped
    exact inv
  · cases stepped
    exact ⟨inv.queue, inv.safe, inv.waiting, fun loop there => (inv.phased loop there).stop⟩

theorem inv_join (inv : Inv s) (stepped : step convert s .join = some t) : Inv t := by
  delta step at stepped
  dsimp only at stepped
  split at stepped
  · rename_i there
    cases stepped
    exact ⟨inv.queue, inv.safe, fun _ => inv.phased _ there, nofun⟩
  · cases stepped

theorem inv_begin (inv : Inv s) (there : s.eib_loop = some loop)
    (stepped : loopStep convert s loop .begin = some t) : Inv t := by
  delta loopStep at stepped
  dsimp only at stepped
  split at stepped
  · rename_i stands
    cases stepped
    obtain ⟨_, fresh⟩ := inv.here there stands
    refine ⟨inv.queue, inv.safe, nofun, ?_⟩
    rintro _ ⟨⟩
    exact ⟨fresh, nofun, nofun⟩
  · cases stepped

theorem inv_test (inv : Inv s) (there : s.eib_loop = some loop)
    (stepped : loopStep convert s loop .test = some t) : Inv t := by
  delta loopStep at stepped
  dsimp only at stepped
  split at stepped
  · rename_i referencing referencingtot stands
    obtain ⟨fresh, seen, total⟩ := inv.here there stands
    split at stepped
    · cases stepped
      refine ⟨inv.queue, inv.safe, nofun, ?_⟩
      rintro _ ⟨⟩
      exact ⟨fresh, seen⟩
    · rename_i left
      cases stepped
      refine ⟨inv.queue, inv.safe, nofun, ?_⟩
      rintro _ ⟨⟩
      refine ⟨fresh, fun running i => ?_⟩
      have done : referencingtot = false := by
        have running : s.eib_loop_running = true := running
        simpa [running] using left
      exact seen i (total done i)
  · rename_i stands
    obtain ⟨waiting, ready⟩ := inv.here there stands
    cases stepped
    refine ⟨inv.queue, inv.safe, nofun, ?_⟩
    rintro _ ⟨⟩
    cases running : s.eib_loop_running with
    | true => exact ⟨waiting, ready running⟩
    | false => exact waiting
  · cases stepped

theorem inv_packet {entries : Nat} (inv : Inv s) (there : s.eib_loop = some loop)
    (stepped : loopStep convert s loop (.packet entries status) = some t) : Inv t := by
  delta loopStep at stepped
  dsimp only at stepped
  split at stepped
  · rename_i referencing stands
    obtain ⟨fresh, seen⟩ := inv.here there stands
    split at stepped
    · cases stepped
      have none_there : ∀ e ∈ (s.found referencing status).map Event.referenced,
          e.sample = none := by simp [Event.sample]
      have none_starts : ∀ e ∈ (s.found referencing status).map Event.referenced,
          ¬e.starts := by simp [Event.starts]
      refine ⟨?_, inv.safe.append none_there, nofun, ?_⟩
      · simp only [State.move, List.filterMap_append, ← inv.queue]
        rw [List.filterMap_eq_nil_iff.mpr none_there, List.append_nil]
      · rintro _ ⟨⟩
        refine ⟨fresh.append none_there, fun i gone inited => ?_, fun none_left i => ?_⟩
        · -- the reference is in this packet, or was in one before
          have inited : s.inited i = true := inited
          by_cases before : referencing i = true
          · have now : hasReference (status i) = true := by
              simpa [State.left, inited, before] using gone
            obtain ⟨front, back, split⟩ := List.append_of_mem
              (List.mem_map_of_mem (f := Event.referenced)
                (show i ∈ s.found referencing status by simp [State.found, inited, now, before]))
            refine Since.prepend ⟨front, _, back, split, .inl rfl, fun e member => ?_⟩
            exact none_starts e (by simp [split, member])
          · exact (seen i (by simpa using before) inited).append none_starts
        · rw [List.any_eq_false] at none_left
          simpa using none_left i (List.mem_finRange i)
    · cases stepped
      refine ⟨inv.queue, inv.safe, nofun, ?_⟩
      rintro _ ⟨⟩
      exact ⟨fresh, seen, nofun⟩
  · cases stepped

theorem inv_clear (inv : Inv s) (there : s.eib_loop = some loop)
    (stepped : loopStep convert s loop .clear = some t) : Inv t := by
  delta loopStep at stepped
  dsimp only at stepped
  split at stepped
  · rename_i stands
    cases stepped
    refine ⟨inv.queue, inv.safe, nofun, ?_⟩
    rintro _ ⟨⟩
    exact ⟨rfl, (inv.here there stands).2⟩
  · cases stepped

theorem inv_turn {turn : Turn} (inv : Inv s) (there : s.eib_loop = some loop)
    (stepped : loopStep convert s loop (.turn turn) = some t) : Inv t := by
  delta loopStep at stepped
  dsimp only at stepped
  split at stepped
  · rename_i stands
    obtain ⟨waiting, ready⟩ := inv.here there stands
    split at stepped
    · rename_i edata published
      cases stepped
      refine ⟨?_, safe_concat.mpr ⟨inv.safe, ?_⟩, nofun, ?_⟩
      · simp [inv.queue, Event.sample]
      · rintro _ ⟨⟩ i written
        apply ready i
        have number : (edata.axis i).map EncoderAxisData.axis =
            if s.inited i then some (Int8.ofNat (i.val + 1)) else none := turn_axis published i
        by_contra other
        rw [if_neg other, Option.map_eq_none_iff] at number
        exact written number
      · rintro _ ⟨⟩
        exact ⟨waiting, fun _ i inited => (ready i inited).append (by simp [Event.starts])⟩
    · cases stepped
      refine ⟨inv.queue, inv.safe, nofun, ?_⟩
      rintro _ ⟨⟩
      exact ⟨waiting, fun _ => ready⟩
  · cases stepped

theorem Inv.step (inv : Inv s) (stepped : step convert s a = some t) : Inv t := by
  cases a with
  | InitEIB7Encoder => exact inv_init inv stepped
  | EIB7SoftModeLoopStart => exact inv_start inv stepped
  | EIB7SoftModeLoopStop => exact inv_stop inv stepped
  | join => exact inv_join inv stepped
  | begin =>
    obtain ⟨loop, there, ran⟩ := Option.bind_eq_some_iff.mp stepped
    exact inv_begin inv there ran
  | test =>
    obtain ⟨loop, there, ran⟩ := Option.bind_eq_some_iff.mp stepped
    exact inv_test inv there ran
  | packet =>
    obtain ⟨loop, there, ran⟩ := Option.bind_eq_some_iff.mp stepped
    exact inv_packet inv there ran
  | clear =>
    obtain ⟨loop, there, ran⟩ := Option.bind_eq_some_iff.mp stepped
    exact inv_clear inv there ran
  | turn =>
    obtain ⟨loop, there, ran⟩ := Option.bind_eq_some_iff.mp stepped
    exact inv_turn inv there ran

theorem inv_initial : Inv initial where
  queue := rfl
  safe := by
    intro before data after split
    cases before <;> cases split
  waiting _ := rfl
  phased := nofun

theorem fresh_of_waiting (inv : Inv s) (waiting : s.waiting_for_ref = true) : Fresh s.history := by
  cases there : s.eib_loop with
  | none => cases (inv.waiting there).symm.trans waiting
  | some loop =>
    have phased := inv.phased loop there
    cases stands : loop.phase with
    | begins | tests_ref | reads_ref | referenced =>
      rw [stands] at phased
      first | exact phased.2 | exact phased.1
    | tests | reads =>
      rw [stands] at phased
      cases phased.1.symm.trans waiting
    | ended =>
      rw [stands] at phased
      cases phased.symm.trans waiting

/-- **Samples are referenced.** However the encoder is set up, and its loop started and stopped, what
is in the queue has been published, an axis that a sample has an entry of had been referenced since
the loop was started unless the encoder was set up again, and nothing has been published while
`EncoderNeedsRefRun` says that the references are awaited. -/
theorem samples_referenced (reached : (system convert).Reachable s) :
    s.outbound_data_queue = s.history.filterMap Event.sample ∧ Safe s.history ∧
      (EncoderNeedsRefRun s = 1 → Fresh s.history) := by
  have inv : Inv s := by
    refine reached.invariant (fun s start => ?_) fun s a t inv stepped => inv.step stepped
    cases start
    exact inv_initial
  refine ⟨inv.queue, inv.safe, fun needs => fresh_of_waiting inv ?_⟩
  by_contra other
  rw [EncoderNeedsRefRun, if_neg other] at needs
  cases needs

/-- The second axis is set up and referenced, and read once. -/
def secondReferenced : List Action :=
  [.InitEIB7Encoder 2 true, .EIB7SoftModeLoopStart fun _ => 36000.0, .begin, .test,
    .packet 1 fun _ => 0, .test, .packet 1 fun _ => 256, .test, .clear, .test,
    .turn ⟨1, 0, fun _ => ⟨0, 0, 0, (0, 0)⟩, 0.0, 0.0⟩]

theorem samples_referenced_once : ∃ s, (system fun _ => 100.0).Reachable s ∧
    s.outbound_data_queue.length = 1 ∧ Safe s.history := by
  obtain ⟨s, reached, one⟩ : ∃ s, (system fun _ => 100.0).Reachable s ∧
      s.outbound_data_queue.length = 1 :=
    System.exists_reachable_of_replay rfl secondReferenced (by decide)
  exact ⟨s, reached, one, (samples_referenced reached).2.1⟩

end DCScan.Encoder
