import DCScan.EventLoop
import DCScan.Lib.System
import DCScan.Lib.Unwritten

/-!
The acquisitions as their callers see them: the table of virtual channels, the voltage and the counter
task with their flags, and what is called of the NI library and of the event loop.

What the library answers changes none of these. The arguments that are texts stand for what is in front
of their zero.
-/

namespace DCScan.Tasks

open Lib
open EventLoop (StartEventLoop StopEventLoop)

abbrev Text := List UInt8

def INTERNAL_SAMP_SIZE : Nat := 1000

/-! ## The channels -/

/-- The fields of a channel that its type has. -/
inductive ChannelData where
  | Voltage (ref : Int32) (min max : Float)
  | Counter (count_ref : Int32)
  | PTGen (ptg_rate : Float)
  deriving DecidableEq

inductive ChannelType where
  | Voltage | Counter | PTGen
  deriving DecidableEq, Repr

def ChannelData.type : ChannelData → ChannelType
  | Voltage .. => .Voltage
  | Counter .. => .Counter
  | PTGen .. => .PTGen

structure VirtualChannel where
  channel_name : Text
  data : ChannelData
  deriving DecidableEq

/-! ## The calls -/

inductive Task where
  | T_AI | T_CI | T_PTG
  deriving DecidableEq, Repr

inductive Call where
  | loop (call : EventLoop.Call)
  | CreateTask (t : Task)
  | AddTaskChannel (t : Task) (channel_name : Text) (type : ChannelType) (ref : Int32)
      (min max : Float) (implicit_rate : Float)
  | SetupTaskAI (clk_source : Text) (clk : Float) (num_samp : Nat)
  | SetupTaskCI (clk_source : Text) (clk : Float) (num_samp : Nat)
  | SetupTaskPTG (buffer_sz : Nat)
  | StartTask (t : Task)
  | StopTask (t : Task)
  | ClearTask (t : Task)
  deriving DecidableEq

/-- What is logged, but for the running commentary. -/
inductive Log where
  | error (text : Text)
  | warning (text : Text)
  deriving DecidableEq

structure State where
  /-- Ordered by name. -/
  virtual_channels : List (Text × VirtualChannel)
  voltage_task_rate : Float
  voltage_task_running : Bool
  voltage_task_inited : Bool
  count_task_rate : Float
  count_task_running : Bool
  count_task_inited : Bool
  count_using_ptg : Bool
  count_task_last_count : UInt64
  task_time_real : UInt64
  MCA_NumChannels : UInt16
  loop : EventLoop.State
  /-- What the last start has called. -/
  started : List Call
  deriving DecidableEq

/-- After `Init`. -/
def initial : State where
  virtual_channels := []
  voltage_task_rate := 1000.0
  voltage_task_running := false
  voltage_task_inited := false
  count_task_rate := 1000.0
  count_task_running := false
  count_task_inited := false
  count_using_ptg := false
  count_task_last_count := 0
  task_time_real := 0
  MCA_NumChannels := 2048
  loop := EventLoop.initial
  started := []

structure Result where
  state : State
  calls : List Call
  logs : List Log
  /-- It has returned with an error. -/
  refused : Bool
  deriving DecidableEq

def State.refuse (s : State) (text : String) : Result := ⟨s, [], [.error (ascii text)], true⟩

/-! ## The operations on channels -/

/-- `std::map::emplace`, of a name that is not there. -/
def emplace (channels : List (Text × VirtualChannel)) (name : Text) (channel : VirtualChannel) :
    List (Text × VirtualChannel) :=
  channels.takeWhile (fun vc => vc.1 < name) ++ (name, channel) ::
    channels.dropWhile (fun vc => vc.1 < name)

/-- `kind` is what the channel is called in the error. -/
def State.newChannel (s : State) (kind : String) (name channel_name : Text) (data : ChannelData) :
    Result :=
  match s.virtual_channels.find? fun vc => vc.1 = name ∨ vc.2.channel_name = channel_name with
  | some vc =>
    if vc.1 = name then s.refuse "Channel naming already exists. Choose another name."
    else s.refuse (kind ++ " hardware name already in use. Choose another connector.")
  | none =>
    ⟨{ s with virtual_channels := emplace s.virtual_channels name ⟨channel_name, data⟩ }, [], [], false⟩

def State.NewAIVChannel (s : State) (name channel_name : Text) (ref : Int32) (min max : Float) :
    Result :=
  s.newChannel "Voltage channel" name channel_name (.Voltage ref min max)

def State.NewCIChannel (s : State) (name channel_name : Text) (ref : Int32) : Result :=
  s.newChannel "Counter channel" name channel_name (.Counter ref)

def State.NewPTGChannel (s : State) (name channel_name : Text) (rate : Float) : Result :=
  s.newChannel "PTG channel" name channel_name (.PTGen rate)

def State.DeleteChannel (s : State) (name : Text) : Result :=
  ⟨{ s with virtual_channels := s.virtual_channels.filter fun vc => vc.1 ≠ name }, [], [], false⟩

/-- The channels of a type, in the order of their names. -/
def State.channelsOfType (s : State) (type : ChannelType) : List VirtualChannel :=
  (s.virtual_channels.map Prod.snd).filter fun vchannel => vchannel.data.type = type

/-- It counts in an `i32`. -/
def State.CountVirtualChannelsOfType (s : State) (type : ChannelType) : Int :=
  signed 32 (s.channelsOfType type).length

/-! ## The operations on tasks -/

/-- A channel of the voltage task comes with its settings, one of another task with none. -/
def VirtualChannel.add (vchannel : VirtualChannel) (t : Task) (implicit_rate : Float) : Call :=
  match vchannel.data with
  | .Voltage ref min max => .AddTaskChannel t vchannel.channel_name .Voltage ref min max implicit_rate
  | data => .AddTaskChannel t vchannel.channel_name data.type 0 (-10.0) 10.0 implicit_rate

/-- `INTERNAL_SAMP_SIZE / total`, as the number of samples of a task; there is none when it is divided
by zero. -/
def perChannel (total : Int) : Option Nat :=
  if total = 0 then none else some (unsigned 64 ((INTERNAL_SAMP_SIZE : Int).tdiv total))

def State.StartAIAcquisition (s : State) (clock_trigger_channel : Text) (samplerate : Float) :
    Option Result :=
  if s.count_task_running then
    some (s.refuse "Running CI and AI events in paralell is currently not supported.")
  else
    let s := { s with voltage_task_rate := samplerate, task_time_real := 0 }
    if ¬ s.voltage_task_running then
      let started := StartEventLoop s.MCA_NumChannels s.loop
      (perChannel (s.CountVirtualChannelsOfType .Voltage)).map fun num_samp =>
        let calls := started.2.map Call.loop ++ [.CreateTask .T_AI] ++
          (s.channelsOfType .Voltage).map (fun vchannel => vchannel.add .T_AI 0.0) ++
          [.SetupTaskAI clock_trigger_channel s.voltage_task_rate num_samp, .StartTask .T_AI]
        ⟨{ s with
            loop := started.1, voltage_task_inited := true, voltage_task_running := true
            started := calls },
          calls, [], false⟩
    else some (s.refuse "Error starting AI Acquisition: VoltageAI task is already running.")

def State.StopAIAcquisition (s : State) : Option Result :=
  if s.voltage_task_running then
    (StopEventLoop s.loop).map fun (loop, threads) =>
      ⟨{ s with voltage_task_running := false, voltage_task_inited := false, loop },
        [.StopTask .T_AI, .ClearTask .T_AI] ++ threads.map Call.loop, [], false⟩
  else some (s.refuse "Error stopping AI Acquisition: VoltageAI task is not running.")

/-- One channel is used, and a second one is an error. -/
def firstChannel (kind : String) (channels : List VirtualChannel) (add : VirtualChannel → List Call) :
    List Call × List Log :=
  match channels with
  | [] => ([], [])
  | [vchannel] => (add vchannel, [])
  | vchannel :: _ :: _ => (add vchannel, [.error (ascii (kind ++ " only supports one channel per task.")),
      .error (ascii "Using first channel found -> " ++ vchannel.channel_name ++ ascii ".")])

/-- A trigger other than `NONE` is not supported yet. -/
def trigger (kind : String) (channel : Text) : List Log :=
  if channel = ascii "NONE" then []
  else [.warning (ascii ("The " ++ kind ++ " trigger functionality is currently not implemented."))]

def State.addCounter (s : State) : List Call × List Log :=
  firstChannel "CI Acquisition" (s.channelsOfType .Counter) fun vchannel => [vchannel.add .T_CI 0.0]

def State.addPtg (s : State) (rate : Float) : List Call × List Log :=
  firstChannel "PTG" (s.channelsOfType .PTGen) fun vchannel =>
    [.CreateTask .T_PTG, vchannel.add .T_PTG rate, .SetupTaskPTG 1000]

def State.StartCIAcquisition (s : State) (clock_trigger_channel pause_trigger_channel
    reset_trigger_channel : Text) (rate : Float) : Result :=
  if s.voltage_task_running then
    s.refuse "Running CI and AI events in paralell is currently not supported."
  else if ¬ s.count_task_running then
    let started := StartEventLoop 0 s.loop
    let counter := s.addCounter
    let ptg := s.addPtg rate
    let count_using_ptg := s.count_using_ptg || ptg.1 ≠ []
    let calls := started.2.map Call.loop ++ [.CreateTask .T_CI] ++ counter.1 ++ ptg.1 ++
      [.SetupTaskCI clock_trigger_channel rate INTERNAL_SAMP_SIZE] ++
      (if count_using_ptg then [.StartTask .T_PTG] else []) ++ [.StartTask .T_CI]
    ⟨{ s with
        task_time_real := 0, count_task_last_count := 0, loop := started.1, count_task_inited := true
        count_task_rate := rate, count_using_ptg, count_task_running := true, started := calls },
      calls, counter.2 ++ ptg.2 ++ trigger "pause" pause_trigger_channel ++
        trigger "reset" reset_trigger_channel, false⟩
  else s.refuse "Error starting CI Acquisition: CI task is already running."

def State.StopCIAcquisition (s : State) : Option Result :=
  if s.count_task_running then
    (StopEventLoop s.loop).map fun (loop, threads) =>
      let stopPtg := if s.count_using_ptg then [Call.StopTask .T_PTG] else []
      let clearPtg := if s.count_using_ptg then [Call.ClearTask .T_PTG] else []
      ⟨{ s with count_task_running := false, count_task_inited := false, count_using_ptg := false, loop },
        [.StopTask .T_CI] ++ stopPtg ++ [.ClearTask .T_CI] ++ clearPtg ++ threads.map Call.loop, [],
        false⟩
  else some (s.refuse "Error stopping CI Acquisition: Counter task is not running.")

def INTERNAL_ADC_MAX_CHAN : Nat := 65535

def State.SetMCANumChannels (s : State) (nChannels : UInt16) : Result :=
  if nChannels.toNat > INTERNAL_ADC_MAX_CHAN then
    ⟨s, [], [.error (ascii ("Attempting to set MCA channels to a value larger than " ++
      "INTERNAL_ADC_MAX_CHAN (65535)."))], false⟩
  else ⟨{ s with MCA_NumChannels := nChannels }, [], [], false⟩

/-! ## Runs -/

inductive Operation where
  | NewAIVChannel (name channel_name : Text) (ref : Int32) (min max : Float)
  | NewCIChannel (name channel_name : Text) (ref : Int32)
  | NewPTGChannel (name channel_name : Text) (rate : Float)
  | DeleteChannel (name : Text)
  | StartAIAcquisition (clock_trigger_channel : Text) (samplerate : Float)
  | StopAIAcquisition
  | StartCIAcquisition (clock_trigger_channel pause_trigger_channel reset_trigger_channel : Text)
      (rate : Float)
  | StopCIAcquisition
  | SetMCANumChannels (nChannels : UInt16)
  deriving DecidableEq

/-- `none` when the process does not survive it. -/
def State.perform (s : State) : Operation → Option Result
  | .NewAIVChannel name channel_name ref min max => some (s.NewAIVChannel name channel_name ref min max)
  | .NewCIChannel name channel_name ref => some (s.NewCIChannel name channel_name ref)
  | .NewPTGChannel name channel_name rate => some (s.NewPTGChannel name channel_name rate)
  | .DeleteChannel name => some (s.DeleteChannel name)
  | .StartAIAcquisition clock_trigger_channel samplerate =>
    s.StartAIAcquisition clock_trigger_channel samplerate
  | .StopAIAcquisition => s.StopAIAcquisition
  | .StartCIAcquisition clock_trigger_channel pause_trigger_channel reset_trigger_channel rate =>
    some (s.StartCIAcquisition clock_trigger_channel pause_trigger_channel reset_trigger_channel rate)
  | .StopCIAcquisition => s.StopCIAcquisition
  | .SetMCANumChannels nChannels => some (s.SetMCANumChannels nChannels)

inductive Action where
  | call (op : Operation)
  /-- The callback of the counter task, with the last of its counts. -/
  | CountEvent (last : UInt32)

def State.CountEvent (s : State) (last : UInt32) : State :=
  { s with
    task_time_real := s.task_time_real +
      ((Float.ofNat INTERNAL_SAMP_SIZE / s.count_task_rate) * 1000000000.0).toUInt64
    count_task_last_count := last.toUInt64 }

def step (s : State) : Action → Option State
  | .call op => (s.perform op).map Result.state
  | .CountEvent last => if s.count_task_running then some (s.CountEvent last) else none

def system : System State Action where
  init s := s = initial
  step := step

/-- The task of an acquisition runs. -/
def State.running (s : State) : Bool := s.voltage_task_running || s.count_task_running

/-- A call of the event loop. -/
def Call.loop? : Call → Option EventLoop.Call
  | loop call => some call
  | _ => none

/-- The pulse train is stopped or cleared. -/
def Call.endsPtg : Call → Bool
  | StopTask .T_PTG | ClearTask .T_PTG => true
  | _ => false

def loopCalls (calls : List Call) : List EventLoop.Call := calls.filterMap Call.loop?

/-- The threads that the last start has created. -/
def State.threads (s : State) : List Nat := (loopCalls s.started).filterMap EventLoop.Call.creates

variable {s : State} {op : Operation} {r : Result} {rate samplerate : Float}
variable {clock_trigger_channel pause_trigger_channel reset_trigger_channel : Text}
variable {name channel_name : Text}

/-! ## What is called -/

@[simp] theorem loopCalls_append (calls rest : List Call) :
    loopCalls (calls ++ rest) = loopCalls calls ++ loopCalls rest := List.filterMap_append

@[simp] theorem loopCalls_cons (call : Call) (rest : List Call) :
    loopCalls (call :: rest) = call.loop?.toList ++ loopCalls rest := by
  rw [loopCalls, List.filterMap_cons]
  cases call.loop? <;> rfl

@[simp] theorem loopCalls_nil : loopCalls [] = [] := rfl

@[simp] theorem loopCalls_loop (threads : List EventLoop.Call) :
    loopCalls (threads.map .loop) = threads := by
  rw [loopCalls, List.filterMap_map]
  exact List.filterMap_some

@[simp] theorem add_loop? (vchannel : VirtualChannel) (t : Task) (rate : Float) :
    (vchannel.add t rate).loop? = none := by
  unfold VirtualChannel.add
  cases vchannel.data <;> rfl

@[simp] theorem add_endsPtg (vchannel : VirtualChannel) (t : Task) (rate : Float) :
    (vchannel.add t rate).endsPtg = false := by
  unfold VirtualChannel.add
  cases vchannel.data <;> rfl

theorem add_setup (vchannel : VirtualChannel) (t : Task) (rate : Float) {clk_source : Text}
    {clk : Float} {n : Nat} : vchannel.add t rate ≠ .SetupTaskAI clk_source clk n := by
  unfold VirtualChannel.add
  cases vchannel.data <;> nofun

theorem loopCalls_add (channels : List VirtualChannel) (t : Task) (rate : Float) :
    loopCalls (channels.map fun vchannel => vchannel.add t rate) = [] := by
  rw [loopCalls, List.filterMap_map, List.filterMap_eq_nil_iff]
  exact fun vchannel _ => add_loop? vchannel t rate

theorem firstChannel_cases (kind : String) (channels : List VirtualChannel)
    (add : VirtualChannel → List Call) : (firstChannel kind channels add).1 = [] ∨
      ∃ vchannel, (firstChannel kind channels add).1 = add vchannel := by
  unfold firstChannel
  split
  · exact Or.inl rfl
  · exact Or.inr ⟨_, rfl⟩
  · exact Or.inr ⟨_, rfl⟩

/-- What is called for the counter is neither of the loop nor of the pulse train. -/
theorem addCounter_calls (s : State) : loopCalls s.addCounter.1 = [] ∧
    .CreateTask .T_PTG ∉ s.addCounter.1 ∧ ∀ call ∈ s.addCounter.1, call.endsPtg = false := by
  rcases firstChannel_cases "CI Acquisition" (s.channelsOfType .Counter) fun vchannel =>
    [vchannel.add .T_CI 0.0] with none_there | ⟨vchannel, one⟩
  · rw [State.addCounter, none_there]
    exact ⟨rfl, List.not_mem_nil, fun _ member => nomatch member⟩
  · rw [State.addCounter, one]
    refine ⟨by simp, fun member => ?_, by simp⟩
    rw [List.mem_singleton, VirtualChannel.add] at member
    split at member <;> cases member

/-- The pulse train's task is created when there is something to call for it. -/
theorem addPtg_calls (s : State) (rate : Float) : loopCalls (s.addPtg rate).1 = [] ∧
    (.CreateTask .T_PTG ∈ (s.addPtg rate).1 ↔ (s.addPtg rate).1 ≠ []) ∧
    ∀ call ∈ (s.addPtg rate).1, call.endsPtg = false := by
  rcases firstChannel_cases "PTG" (s.channelsOfType .PTGen) fun vchannel =>
    [.CreateTask .T_PTG, vchannel.add .T_PTG rate, .SetupTaskPTG 1000] with
    none_there | ⟨vchannel, one⟩
  · rw [State.addPtg, none_there]
    simp
  · rw [State.addPtg, one]
    refine ⟨?_, by simp, ?_⟩
    · rw [loopCalls_cons, loopCalls_cons, add_loop?]
      rfl
    · rw [List.forall_mem_cons, List.forall_mem_cons, add_endsPtg, List.forall_mem_singleton]
      exact ⟨rfl, rfl, rfl⟩

theorem endsPtg_loop (threads : List EventLoop.Call) :
    ∀ call ∈ threads.map Call.loop, call.endsPtg = false := by
  intro call member
  obtain ⟨thread, -, rfl⟩ := List.mem_map.mp member
  rfl

/-! ## What the operations do -/

/-- A start that is not refused: the loop is started with this number of MCA channels. -/
structure Starts (s : State) (mca_num_channels : UInt16) (r : Result) : Prop where
  idle : s.running = false
  accepted : r.refused = false
  loop : r.state.loop = (StartEventLoop mca_num_channels s.loop).1
  threads : loopCalls r.state.started = (StartEventLoop mca_num_channels s.loop).2
  started : r.state.started = r.calls
  keeps : ∀ call ∈ r.calls, call.endsPtg = false

theorem StartAI_cases (performed : s.StartAIAcquisition clock_trigger_channel samplerate = some r) :
    (r.refused = true ∧ r.calls = [] ∧ (s.count_task_running = true ∧ r.state = s ∨
      s.count_task_running = false ∧ s.voltage_task_running = true ∧
        r.state = { s with voltage_task_rate := samplerate, task_time_real := 0 })) ∨
    Starts s s.MCA_NumChannels r ∧ r.state.voltage_task_running = true ∧
      r.state.count_task_running = false ∧ r.state.count_using_ptg = s.count_using_ptg ∧
      r.state.task_time_real = 0 ∧ ∃ num_samp,
        perChannel (s.CountVirtualChannelsOfType .Voltage) = some num_samp ∧ ∀ n,
          .SetupTaskAI clock_trigger_channel samplerate n ∈ r.calls ↔ n = num_samp := by
  unfold State.StartAIAcquisition at performed
  split at performed
  · rename_i count
    cases performed
    exact Or.inl ⟨rfl, rfl, Or.inl ⟨count, rfl⟩⟩
  · rename_i count
    rw [Bool.not_eq_true] at count
    dsimp only at performed
    split at performed
    · rename_i voltage
      rw [Bool.not_eq_true] at voltage
      obtain ⟨num_samp, divided, rfl⟩ := Option.map_eq_some_iff.mp performed
      refine Or.inr ⟨⟨by rw [State.running, voltage, count]; rfl, rfl, rfl, ?_, rfl, ?_⟩, rfl, count,
        rfl, rfl, num_samp, divided, fun n => ?_⟩
      · simp [loopCalls_add, Call.loop?]
      · simp only [List.forall_mem_append, List.forall_mem_cons, List.forall_mem_map, add_endsPtg]
        exact ⟨⟨⟨fun _ _ => rfl, rfl, nofun⟩, fun _ _ => trivial⟩, rfl, rfl, nofun⟩
      · simp [add_setup]
    · rename_i voltage
      rw [not_not] at voltage
      cases performed
      exact Or.inl ⟨rfl, rfl, Or.inr ⟨count, voltage, rfl⟩⟩

theorem StartCI_cases (performed : s.StartCIAcquisition clock_trigger_channel pause_trigger_channel
      reset_trigger_channel rate = r) :
    (r.refused = true ∧ r.calls = [] ∧ r.state = s ∧ s.running = true) ∨
    Starts s 0 r ∧ r.state.voltage_task_running = false ∧ r.state.count_task_running = true ∧
      (r.state.count_using_ptg = true ↔ s.count_using_ptg = true ∨ .CreateTask .T_PTG ∈ r.calls) := by
  unfold State.StartCIAcquisition at performed
  split at performed
  · rename_i voltage
    subst performed
    exact Or.inl ⟨rfl, rfl, rfl, by rw [State.running, voltage]; rfl⟩
  · rename_i voltage
    rw [Bool.not_eq_true] at voltage
    split at performed
    · rename_i count
      rw [Bool.not_eq_true] at count
      subst performed
      have counter := addCounter_calls s
      have ptg := addPtg_calls s rate
      refine Or.inr ⟨⟨by rw [State.running, voltage, count]; rfl, rfl, rfl, ?_, rfl, ?_⟩, voltage, rfl,
        ?_⟩
      · simp [Call.loop?, counter.1, ptg.1, apply_ite loopCalls]
      · simp only [List.forall_mem_append, List.forall_mem_singleton]
        refine ⟨⟨⟨⟨⟨⟨endsPtg_loop _, rfl⟩, counter.2.2⟩, ptg.2.2⟩, rfl⟩, ?_⟩, rfl⟩
        split
        · exact List.forall_mem_singleton.mpr rfl
        · exact nofun
      · simp [counter.2.1, ptg.2.1]
    · rename_i count
      rw [not_not] at count
      subst performed
      exact Or.inl ⟨rfl, rfl, rfl, by rw [State.running, count, Bool.or_true]⟩

/-- A stop that is not refused: the loop is stopped. -/
structure Stops (s : State) (r : Result) : Prop where
  accepted : r.refused = false
  stopped : EventLoop.StopEventLoop s.loop = some (r.state.loop, loopCalls r.calls)

theorem StopAI_cases (performed : s.StopAIAcquisition = some r) :
    (r.refused = true ∧ r.calls = [] ∧ r.state = s ∧ s.voltage_task_running = false) ∨
    Stops s r ∧ s.voltage_task_running = true ∧ r.state.voltage_task_running = false ∧
      r.state.count_task_running = s.count_task_running ∧
      r.state.count_using_ptg = s.count_using_ptg ∧ ∀ call ∈ r.calls, call.endsPtg = false := by
  unfold State.StopAIAcquisition at performed
  split at performed
  · rename_i voltage
    obtain ⟨⟨loop, threads⟩, stopped, rfl⟩ := Option.map_eq_some_iff.mp performed
    refine Or.inr ⟨⟨rfl, by simp [stopped, Call.loop?]⟩, voltage, rfl, rfl, rfl, ?_⟩
    simp only [List.forall_mem_append, List.forall_mem_cons]
    exact ⟨⟨rfl, rfl, nofun⟩, endsPtg_loop _⟩
  · rename_i voltage
    rw [Bool.not_eq_true] at voltage
    cases performed
    exact Or.inl ⟨rfl, rfl, rfl, voltage⟩

theorem StopCI_cases (performed : s.StopCIAcquisition = some r) :
    (r.refused = true ∧ r.calls = [] ∧ r.state = s ∧ s.count_task_running = false) ∨
    Stops s r ∧ s.count_task_running = true ∧ r.state.count_task_running = false ∧
      r.state.voltage_task_running = s.voltage_task_running ∧ r.state.count_using_ptg = false ∧
      ∀ call, call.endsPtg → (call ∈ r.calls ↔ s.count_using_ptg = true) := by
  unfold State.StopCIAcquisition at performed
  split at performed
  · rename_i count
    obtain ⟨⟨loop, threads⟩, stopped, rfl⟩ := Option.map_eq_some_iff.mp performed
    refine Or.inr ⟨⟨rfl, ?_⟩, count, rfl, rfl, rfl, ?_⟩
    · cases s.count_using_ptg <;> simp [stopped, Call.loop?]
    · intro call ends
      have chosen : call = .StopTask .T_PTG ∨ call = .ClearTask .T_PTG := by
        unfold Call.endsPtg at ends
        split at ends
        · exact Or.inl rfl
        · exact Or.inr rfl
        · cases ends
      rcases chosen with rfl | rfl <;> cases s.count_using_ptg <;> simp
  · rename_i count
    rw [Bool.not_eq_true] at count
    cases performed
    exact Or.inl ⟨rfl, rfl, rfl, count⟩

theorem newChannel_cases {kind : String} {data : ChannelData}
    (performed : s.newChannel kind name channel_name data = r) :
    r.calls = [] ∧ (r.refused = true ∧ r.state = s ∨ r.refused = false ∧
      r.state = { s with
        virtual_channels := emplace s.virtual_channels name ⟨channel_name, data⟩ }) := by
  unfold State.newChannel at performed
  subst performed
  split
  · split <;> exact ⟨rfl, Or.inl ⟨rfl, rfl⟩⟩
  · exact ⟨rfl, Or.inr ⟨rfl, rfl⟩⟩

/-- Only the channels and their number have changed. -/
def Configured (s t : State) : Prop :=
  ∃ virtual_channels MCA_NumChannels, t = { s with virtual_channels, MCA_NumChannels }

/-- The operations on channels. -/
def Operation.configures : Operation → Prop
  | NewAIVChannel .. | NewCIChannel .. | NewPTGChannel .. | DeleteChannel _ | SetMCANumChannels _ => True
  | _ => False

theorem configures_cases (configures : op.configures) (performed : s.perform op = some r) :
    r.calls = [] ∧ Configured s r.state ∧ (r.refused = true → r.state = s) := by
  have added {kind : String} {name channel_name : Text} {data : ChannelData}
      (performed : some (s.newChannel kind name channel_name data) = some r) :
      r.calls = [] ∧ Configured s r.state ∧ (r.refused = true → r.state = s) := by
    obtain ⟨calls, ⟨refused, same⟩ | ⟨accepted, changed⟩⟩ := newChannel_cases (Option.some.inj performed)
    · exact ⟨calls, ⟨_, _, same⟩, fun _ => same⟩
    · exact ⟨calls, ⟨_, _, changed⟩, fun refused => nomatch accepted.symm.trans refused⟩
  cases op with
  | NewAIVChannel => exact added performed
  | NewCIChannel => exact added performed
  | NewPTGChannel => exact added performed
  | DeleteChannel name =>
    cases performed
    exact ⟨rfl, ⟨_, _, rfl⟩, (nomatch ·)⟩
  | SetMCANumChannels nChannels =>
    have small : ¬ nChannels.toNat > INTERNAL_ADC_MAX_CHAN := by
      have := nChannels.toNat_lt
      rw [INTERNAL_ADC_MAX_CHAN]
      omega
    rw [State.perform, State.SetMCANumChannels, if_neg small] at performed
    cases performed
    exact ⟨rfl, ⟨_, _, rfl⟩, (nomatch ·)⟩
  | _ => cases configures

end DCScan.Tasks
