import DCScan.Tasks

/-!
What holds of the acquisitions in every run: the tasks take turns, the threads of the event loop are
those of the task that runs, and a stop ends what its start has begun.

Then what a refused operation leaves, and what the callbacks of a start process.
-/

namespace DCScan.Tasks

open Lib

/-! ## The life cycle -/

/-- There is a voltage channel at each AI start. -/
def WithChannel (s : State) : Action → Prop
  | .call (.StartAIAcquisition _ _) => 1 ≤ s.CountVirtualChannelsOfType .Voltage
  | _ => True

instance (s : State) : ∀ a, Decidable (WithChannel s a)
  | .call (.StartAIAcquisition _ _) => inferInstanceAs (Decidable (1 ≤ _))
  | .call (.NewAIVChannel ..) | .call (.NewCIChannel ..) | .call (.NewPTGChannel ..)
  | .call (.DeleteChannel _) | .call .StopAIAcquisition | .call (.StartCIAcquisition ..)
  | .call .StopCIAcquisition | .call (.SetMCANumChannels _) | .CountEvent _ =>
    inferInstanceAs (Decidable True)

structure LifeCycle (s : State) : Prop where
  exclusive : ¬ (s.voltage_task_running ∧ s.count_task_running)
  /-- There are threads while a task runs: those of its start. -/
  threads : s.loop.live = if s.running then s.threads else []
  some_there : s.running → s.threads ≠ []
  /-- A stop joins and deletes the threads of its start. -/
  stops : ∀ op ∈ [Operation.StopAIAcquisition, .StopCIAcquisition], ∃ r, s.perform op = some r ∧
    (r.refused = false → (loopCalls r.calls).filterMap EventLoop.Call.joins = s.threads ∧
      (loopCalls r.calls).filterMap EventLoop.Call.deletes = s.threads)
  /-- Every operation returns. -/
  returns : ∀ op, WithChannel s (.call op) → ∃ r, s.perform op = some r
  /-- The pulse train is stopped and cleared with the counter task that has created it. -/
  pulse_train : ∀ op r, s.perform op = some r → ∀ call, call.endsPtg →
    (call ∈ r.calls ↔ op = .StopCIAcquisition ∧ r.refused = false ∧ .CreateTask .T_PTG ∈ s.started)

structure Inv (s : State) : Prop where
  exclusive : s.voltage_task_running = false ∨ s.count_task_running = false
  runs : s.running = true → EventLoop.Runs s.loop s.threads
  stands : s.running = false → EventLoop.Stands s.loop
  ptg : s.count_using_ptg = true ↔ s.count_task_running = true ∧ .CreateTask .T_PTG ∈ s.started
  clock : s.voltage_task_running = true → s.task_time_real = 0

variable {s t : State} {op : Operation} {r : Result} {call : Call}
variable {clock_trigger_channel : Text} {samplerate : Float}

/-! ## The invariant -/

theorem inv_initial : Inv initial where
  exclusive := Or.inl rfl
  runs running := absurd running Bool.false_ne_true
  stands _ := EventLoop.stands_initial
  ptg := by decide
  clock running := absurd running Bool.false_ne_true

theorem Inv.count_stands (inv : Inv s) (voltage : s.voltage_task_running = true) :
    s.count_task_running = false :=
  inv.exclusive.resolve_left fun stands => Bool.false_ne_true (stands.symm.trans voltage)

theorem Inv.voltage_stands (inv : Inv s) (count : s.count_task_running = true) :
    s.voltage_task_running = false :=
  inv.exclusive.resolve_right fun stands => Bool.false_ne_true (stands.symm.trans count)

theorem not_running (stands : s.running = false) :
    s.voltage_task_running = false ∧ s.count_task_running = false := by
  rwa [State.running, Bool.or_eq_false_iff] at stands

/-- After a start the loop runs in the threads of that start. -/
theorem Inv.starts (inv : Inv s) {mca_num_channels : UInt16} (starts : Starts s mca_num_channels r) :
    EventLoop.Runs r.state.loop r.state.threads := by
  rw [State.threads, starts.threads, starts.loop]
  exact EventLoop.StartEventLoop_runs mca_num_channels (inv.stands starts.idle)

/-- A stop joins and deletes the threads of the start. -/
theorem Inv.stops (inv : Inv s) (running : s.running = true) (stops : Stops s r) :
    EventLoop.Stands r.state.loop ∧
      (loopCalls r.calls).filterMap EventLoop.Call.joins = s.threads ∧
      (loopCalls r.calls).filterMap EventLoop.Call.deletes = s.threads := by
  obtain ⟨t, stopped, stands⟩ := EventLoop.StopEventLoop_runs (inv.runs running)
  have same := Option.some.inj (stopped.symm.trans stops.stopped)
  rw [Prod.mk.injEq] at same
  rw [← same.1, ← same.2]
  exact ⟨stands, EventLoop.filterMap_joins _, EventLoop.filterMap_deletes _⟩

theorem Inv.configured (inv : Inv s) (configured : Configured s t) : Inv t := by
  obtain ⟨channels, n, rfl⟩ := configured
  exact ⟨inv.exclusive, inv.runs, inv.stands, inv.ptg, inv.clock⟩

theorem Inv.StartAI (inv : Inv s)
    (performed : s.StartAIAcquisition clock_trigger_channel samplerate = some r) : Inv r.state := by
  rcases StartAI_cases performed with
    ⟨-, -, ⟨-, same⟩ | ⟨-, -, same⟩⟩ | ⟨starts, voltage, count, ptg, clock, -⟩
  · rwa [same]
  · rw [same]
    exact ⟨inv.exclusive, inv.runs, inv.stands, inv.ptg, fun _ => rfl⟩
  · have idle := not_running starts.idle
    refine ⟨Or.inr count, fun _ => inv.starts starts, fun stands => ?_, ?_, fun _ => clock⟩
    · rw [State.running, voltage, Bool.true_or] at stands
      cases stands
    · rw [ptg, count, inv.ptg, idle.2]
      simp

theorem Inv.StartCI (inv : Inv s) (performed : s.StartCIAcquisition clock_trigger_channel
    pause_trigger_channel reset_trigger_channel rate = r) : Inv r.state := by
  rcases StartCI_cases performed with ⟨-, -, same, -⟩ | ⟨starts, voltage, count, ptg⟩
  · rwa [same]
  · have idle := not_running starts.idle
    refine ⟨Or.inl voltage, fun _ => inv.starts starts, fun stands => ?_, ?_, fun running => ?_⟩
    · rw [State.running, count, Bool.or_true] at stands
      cases stands
    · rw [ptg, inv.ptg, idle.2, count, starts.started]
      simp
    · rw [voltage] at running
      cases running

theorem Inv.StopAI (inv : Inv s) (performed : s.StopAIAcquisition = some r) : Inv r.state := by
  rcases StopAI_cases performed with ⟨-, -, same, -⟩ | ⟨stops, running, voltage, count, ptg, -⟩
  · rwa [same]
  · have other := inv.count_stands running
    have stands := inv.stops (by rw [State.running, running]; rfl) stops
    refine ⟨Or.inl voltage, fun runs => ?_, fun _ => stands.1, ?_, fun runs => ?_⟩
    · rw [State.running, voltage, count, other] at runs
      cases runs
    · rw [ptg, count, inv.ptg, other]
      simp
    · rw [voltage] at runs
      cases runs

theorem Inv.StopCI (inv : Inv s) (performed : s.StopCIAcquisition = some r) : Inv r.state := by
  rcases StopCI_cases performed with ⟨-, -, same, -⟩ | ⟨stops, running, count, voltage, ptg, -⟩
  · rwa [same]
  · have other := inv.voltage_stands running
    have stands := inv.stops (by rw [State.running, running, Bool.or_true]) stops
    refine ⟨Or.inr count, fun runs => ?_, fun _ => stands.1, ?_, fun runs => ?_⟩
    · rw [State.running, voltage, count, other] at runs
      cases runs
    · rw [ptg, count]
      simp
    · rw [voltage, other] at runs
      cases runs

theorem Inv.perform (inv : Inv s) (performed : s.perform op = some r) : Inv r.state := by
  cases op with
  | StartAIAcquisition => exact inv.StartAI performed
  | StopAIAcquisition => exact inv.StopAI performed
  | StartCIAcquisition => exact inv.StartCI (Option.some.inj performed)
  | StopCIAcquisition => exact inv.StopCI performed
  | _ => exact inv.configured (configures_cases (by trivial) performed).2.1

theorem inv_of_reachable (reached : system.Reachable s) : Inv s := by
  refine reached.invariant (fun s first => first ▸ inv_initial) fun s a t inv stepped => ?_
  cases a with
  | call op =>
    obtain ⟨r, performed, rfl⟩ := Option.map_eq_some_iff.mp stepped
    exact inv.perform performed
  | CountEvent last =>
    change (if s.count_task_running then some (s.CountEvent last) else none) = some t at stepped
    split at stepped
    · rename_i count
      cases stepped
      exact ⟨inv.exclusive, inv.runs, inv.stands, inv.ptg, fun running =>
        absurd ((inv.voltage_stands count).symm.trans running) Bool.false_ne_true⟩
    · cases stepped

/-! ## Every run -/

theorem StopAI_some (inv : Inv s) : ∃ r, s.StopAIAcquisition = some r := by
  unfold State.StopAIAcquisition
  split
  · rename_i voltage
    obtain ⟨t, stopped, -⟩ := EventLoop.StopEventLoop_runs (inv.runs (by rw [State.running, voltage]; rfl))
    exact ⟨_, by rw [stopped, Option.map_some]⟩
  · exact ⟨_, rfl⟩

theorem StopCI_some (inv : Inv s) : ∃ r, s.StopCIAcquisition = some r := by
  unfold State.StopCIAcquisition
  split
  · rename_i count
    obtain ⟨t, stopped, -⟩ := EventLoop.StopEventLoop_runs
      (inv.runs (by rw [State.running, count, Bool.or_true]))
    exact ⟨_, by rw [stopped, Option.map_some]⟩
  · exact ⟨_, rfl⟩

/-- With a voltage channel an AI start divides by their number. -/
theorem StartAI_some (clock_trigger_channel : Text) (samplerate : Float)
    (channel : 1 ≤ s.CountVirtualChannelsOfType .Voltage) :
    ∃ r, s.StartAIAcquisition clock_trigger_channel samplerate = some r := by
  unfold State.StartAIAcquisition
  split
  · exact ⟨_, rfl⟩
  · dsimp only
    split
    · have divided : (perChannel (s.CountVirtualChannelsOfType .Voltage)).isSome := by
        rw [perChannel, if_neg (by omega)]
        rfl
      exact Option.isSome_iff_exists.mp (by rwa [Option.isSome_map])
    · exact ⟨_, rfl⟩

/-- Only the stop of the counter task stops and clears the pulse train. -/
theorem keeps_ptg (performed : s.perform op = some r) (other : op ≠ .StopCIAcquisition) :
    ∀ call ∈ r.calls, call.endsPtg = false := by
  have empty (none_there : r.calls = []) : ∀ call ∈ r.calls, call.endsPtg = false := by
    rw [none_there]
    exact List.forall_mem_nil _
  cases op with
  | StartAIAcquisition =>
    rcases StartAI_cases performed with ⟨-, calls, -⟩ | ⟨starts, -⟩
    · exact empty calls
    · exact starts.keeps
  | StopAIAcquisition =>
    rcases StopAI_cases performed with ⟨-, calls, -⟩ | ⟨-, -, -, -, -, keeps⟩
    · exact empty calls
    · exact keeps
  | StartCIAcquisition =>
    rcases StartCI_cases (Option.some.inj performed) with ⟨-, calls, -⟩ | ⟨starts, -⟩
    · exact empty calls
    · exact starts.keeps
  | StopCIAcquisition => exact absurd rfl other
  | _ => exact empty (configures_cases (by trivial) performed).1

/-- It does so when it stops a task that has created one. -/
theorem Inv.ends_ptg (inv : Inv s) (performed : s.StopCIAcquisition = some r)
    (ends : call.endsPtg = true) :
    call ∈ r.calls ↔ r.refused = false ∧ .CreateTask .T_PTG ∈ s.started := by
  rcases StopCI_cases performed with ⟨refused, calls, -⟩ | ⟨stops, running, -, -, -, calls⟩
  · rw [calls, refused]
    simp
  · rw [calls call ends, inv.ptg, stops.accepted, running]
    simp

theorem Inv.upholds (inv : Inv s) : LifeCycle s where
  exclusive both := absurd ((inv.count_stands both.1).symm.trans both.2) Bool.false_ne_true
  threads := by
    split
    · rename_i running
      exact (inv.runs running).live
    · rename_i stands
      exact (inv.stands (Bool.not_eq_true _ ▸ stands)).live
  some_there running := (inv.runs running).some_there
  stops op member := by
    rw [List.mem_cons, List.mem_singleton] at member
    rcases member with rfl | rfl
    · obtain ⟨r, performed⟩ := StopAI_some inv
      refine ⟨r, performed, fun accepted => ?_⟩
      rcases StopAI_cases performed with ⟨refused, -⟩ | ⟨stops, running, -⟩
      · exact absurd (accepted.symm.trans refused) Bool.false_ne_true
      · exact (inv.stops (by rw [State.running, running]; rfl) stops).2
    · obtain ⟨r, performed⟩ := StopCI_some inv
      refine ⟨r, performed, fun accepted => ?_⟩
      rcases StopCI_cases performed with ⟨refused, -⟩ | ⟨stops, running, -⟩
      · exact absurd (accepted.symm.trans refused) Bool.false_ne_true
      · exact (inv.stops (by rw [State.running, running, Bool.or_true]) stops).2
  returns op channel := by
    cases op with
    | StartAIAcquisition => exact StartAI_some _ _ channel
    | StopAIAcquisition => exact StopAI_some inv
    | StopCIAcquisition => exact StopCI_some inv
    | _ => exact ⟨_, rfl⟩
  pulse_train op r performed call ends := by
    by_cases stop : op = .StopCIAcquisition
    · subst stop
      rw [inv.ends_ptg performed ends]
      simp only [true_and]
    · have keeps := keeps_ptg performed stop call
      exact ⟨fun member => absurd ((keeps member).symm.trans ends) Bool.false_ne_true,
        fun both => absurd both.1 stop⟩

/-- A voltage channel of this name, at this connector. -/
def newVoltage (name connector : UInt8) : Action :=
  .call (.NewAIVChannel [name] [97, 105, connector] (-1) (-10.0) 10.0)

theorem StartAI_running (count : s.count_task_running = false)
    (voltage : s.voltage_task_running = true) :
    s.StartAIAcquisition clock_trigger_channel samplerate =
      some (State.refuse { s with voltage_task_rate := samplerate, task_time_real := 0 }
        "Error starting AI Acquisition: VoltageAI task is already running.") := by
  simp [State.StartAIAcquisition, count, voltage]

/-! ## Refusals -/

/-- A refused operation calls nothing and leaves the state. -/
def Rejected (s : State) (op : Operation) : Prop :=
  ∀ r, s.perform op = some r → r.refused = true → r.state = s ∧ r.calls = []

/-- **A rejected operation changes nothing**, in every reachable state, if and only if it is not an AI
start at another rate while the voltage task runs. -/
theorem rejected_iff (s : State) (reached : system.Reachable s) (op : Operation) :
    Rejected s op ↔ ∀ clock_trigger_channel samplerate,
      op = .StartAIAcquisition clock_trigger_channel samplerate → s.voltage_task_running = true →
      samplerate = s.voltage_task_rate := by
  have inv := inv_of_reachable reached
  constructor
  · rintro rejected clock_trigger_channel samplerate rfl voltage
    have count := inv.count_stands voltage
    exact congrArg State.voltage_task_rate (rejected _ (StartAI_running count voltage) rfl).1
  · intro same r performed refused
    cases op with
    | StartAIAcquisition clock_trigger_channel samplerate =>
      rcases StartAI_cases performed with ⟨-, calls, ⟨-, kept⟩ | ⟨-, voltage, changed⟩⟩ | ⟨starts, -⟩
      · exact ⟨kept, calls⟩
      · refine ⟨?_, calls⟩
        rw [changed, same _ _ rfl voltage, ← inv.clock voltage]
      · exact absurd (starts.accepted.symm.trans refused) Bool.false_ne_true
    | StopAIAcquisition =>
      rcases StopAI_cases performed with ⟨-, calls, kept, -⟩ | ⟨stops, -⟩
      · exact ⟨kept, calls⟩
      · exact absurd (stops.accepted.symm.trans refused) Bool.false_ne_true
    | StartCIAcquisition =>
      rcases StartCI_cases (Option.some.inj performed) with ⟨-, calls, kept, -⟩ | ⟨starts, -⟩
      · exact ⟨kept, calls⟩
      · exact absurd (starts.accepted.symm.trans refused) Bool.false_ne_true
    | StopCIAcquisition =>
      rcases StopCI_cases performed with ⟨-, calls, kept, -⟩ | ⟨stops, -⟩
      · exact ⟨kept, calls⟩
      · exact absurd (stops.accepted.symm.trans refused) Bool.false_ne_true
    | _ =>
      obtain ⟨calls, -, kept⟩ := configures_cases (by trivial) performed
      exact ⟨kept refused, calls⟩

theorem rejected_StopAI : Rejected initial .StopAIAcquisition :=
  (rejected_iff initial (.start rfl) .StopAIAcquisition).mpr nofun

/-- A second start, at another rate, is refused, and the rate is changed. -/
theorem refused_and_changed : ∃ s, system.Reachable s ∧
    ¬ Rejected s (.StartAIAcquisition [] 2000.0) := by
  obtain ⟨s, reached, voltage, count, rate⟩ : ∃ s, system.Reachable s ∧
      s.voltage_task_running = true ∧ s.count_task_running = false ∧ s.voltage_task_rate = 1000.0 :=
    System.exists_reachable_of_replay rfl [newVoltage 118 48, .call (.StartAIAcquisition [] 1000.0)]
      (by decide +kernel)
  refine ⟨s, reached, fun rejected => ?_⟩
  have same : 2000.0 = s.voltage_task_rate :=
    congrArg State.voltage_task_rate (rejected _ (StartAI_running count voltage) rfl).1
  rw [rate] at same
  exact absurd same (by decide +kernel)

/-! ## The samples of a callback -/

/-- The samples that `VoltageEvent` analyses and emits, when these have been acquired. -/
def VoltageEvent (acquired : List Float) : Block Float :=
  blit (Block.unwritten INTERNAL_SAMP_SIZE) 0 (Block.ofList acquired)

/-- The start is refused, or the callbacks process acquired samples, and all that are acquired. -/
def Safe (s : State) (clock_trigger_channel : Text) (samplerate : Float) : Prop :=
  ∃ r, s.StartAIAcquisition clock_trigger_channel samplerate = some r ∧ (r.refused = true ∨
    ∃ num_samp, .SetupTaskAI clock_trigger_channel samplerate num_samp ∈ r.calls ∧ 1 ≤ num_samp ∧
      (s.channelsOfType .Voltage).length * num_samp = INTERNAL_SAMP_SIZE ∧
      ∀ acquired : List Float, acquired.length = (s.channelsOfType .Voltage).length * num_samp →
        none ∉ VoltageEvent acquired)

/-- A number of channels that divides the number of samples is not wrapped. -/
theorem perChannel_of_dvd {n : Nat} (divides : n ∣ INTERNAL_SAMP_SIZE) :
    1 ≤ signed 32 n ∧ perChannel (signed 32 n) = some (INTERNAL_SAMP_SIZE / n) := by
  have positive : 0 < n := Nat.pos_of_dvd_of_pos divides (by decide)
  have small : n ≤ 1000 := Nat.le_of_dvd (by decide) divides
  have same : signed 32 n = n := signed_of_range (by omega) (by omega)
  have share : INTERNAL_SAMP_SIZE / n ≤ INTERNAL_SAMP_SIZE := Nat.div_le_self _ _
  rw [INTERNAL_SAMP_SIZE] at share ⊢
  rw [same, perChannel, if_neg (by omega)]
  refine ⟨by omega, congrArg some ?_⟩
  rw [← Int.ofNat_inj, INTERNAL_SAMP_SIZE, ← Int.ofNat_tdiv, unsigned_of_range]
  · exact Int.natCast_nonneg _
  · exact_mod_cast lt_of_le_of_lt share (by norm_num)

theorem VoltageEvent_acquired {acquired : List Float}
    (length : acquired.length = INTERNAL_SAMP_SIZE) : VoltageEvent acquired = Block.ofList acquired := by
  simp [VoltageEvent, blit, length, Block.unwritten]

/-- **An AI start is safe**, in every state, if and only if a task runs or the number of voltage
channels divides the number of samples. -/
theorem safe_iff (s : State) (clock_trigger_channel : Text) (samplerate : Float) :
    Safe s clock_trigger_channel samplerate ↔
      s.running = true ∨ (s.channelsOfType .Voltage).length ∣ INTERNAL_SAMP_SIZE := by
  constructor
  · rintro ⟨r, performed, refused | ⟨num_samp, -, -, all, -⟩⟩
    · rcases StartAI_cases performed with ⟨-, -, ⟨count, -⟩ | ⟨-, voltage, -⟩⟩ | ⟨starts, -⟩
      · exact Or.inl (by rw [State.running, count, Bool.or_true])
      · exact Or.inl (by rw [State.running, voltage, Bool.true_or])
      · exact absurd (starts.accepted.symm.trans refused) Bool.false_ne_true
    · exact Or.inr ⟨num_samp, all.symm⟩
  · intro either
    cases running : s.running with
    | true =>
      rcases Bool.or_eq_true_iff.mp running with voltage | count
      · cases count : s.count_task_running with
        | true => exact ⟨_, if_pos count, Or.inl rfl⟩
        | false => exact ⟨_, StartAI_running count voltage, Or.inl rfl⟩
      · exact ⟨_, if_pos count, Or.inl rfl⟩
    | false =>
      rw [running] at either
      have divides := either.resolve_left Bool.false_ne_true
      obtain ⟨some_there, divided⟩ := perChannel_of_dvd divides
      obtain ⟨r, performed⟩ := StartAI_some clock_trigger_channel samplerate some_there
      obtain ⟨voltage, count⟩ := not_running running
      rcases StartAI_cases performed with
        ⟨-, -, ⟨other, -⟩ | ⟨-, other, -⟩⟩ | ⟨-, -, -, -, -, num_samp, same, setup⟩
      · exact absurd (count.symm.trans other) Bool.false_ne_true
      · exact absurd (voltage.symm.trans other) Bool.false_ne_true
      · obtain rfl := Option.some.inj (divided.symm.trans same)
        have all := Nat.mul_div_cancel' divides
        have some_sample := Nat.div_pos (Nat.le_of_dvd (by decide) divides)
          (Nat.pos_of_dvd_of_pos divides (by decide))
        refine ⟨r, performed, Or.inr ⟨_, (setup _).mpr rfl, some_sample, all, fun acquired length => ?_⟩⟩
        rw [VoltageEvent_acquired (length.trans all)]
        exact Block.none_not_mem_ofList acquired

/-- Without a voltage channel the start divides by zero, and with three one sample of each callback is
not acquired. -/
theorem unfit_channels : ¬ Safe initial [] 1000.0 ∧ ∃ s, system.Reachable s ∧
    (s.channelsOfType .Voltage).length = 3 ∧ ¬ Safe s [] 1000.0 := by
  constructor
  · rintro ⟨r, performed, -⟩
    have divided : initial.StartAIAcquisition [] 1000.0 = none := by decide +kernel
    rw [divided] at performed
    cases performed
  · obtain ⟨s, reached, running, three⟩ : ∃ s, system.Reachable s ∧ s.running = false ∧
        (s.channelsOfType .Voltage).length = 3 :=
      System.exists_reachable_of_replay rfl [newVoltage 118 48, newVoltage 119 49, newVoltage 120 50]
        (by decide +kernel)
    refine ⟨s, reached, three, ?_⟩
    obtain ⟨voltage, count⟩ := not_running running
    rintro ⟨r, performed, refused | ⟨num_samp, -, -, all, -⟩⟩
    · rcases StartAI_cases performed with ⟨-, -, ⟨other, -⟩ | ⟨-, other, -⟩⟩ | ⟨starts, -⟩
      · exact absurd (count.symm.trans other) Bool.false_ne_true
      · exact absurd (voltage.symm.trans other) Bool.false_ne_true
      · exact absurd (starts.accepted.symm.trans refused) Bool.false_ne_true
    · rw [three, INTERNAL_SAMP_SIZE] at all
      omega

end DCScan.Tasks
