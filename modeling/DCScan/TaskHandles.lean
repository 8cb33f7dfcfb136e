import DCScan.Lib.Lifetimes
import DCScan.Tasks

/-!
What the acquisitions do with the handles of the NI library: each function of a task makes its calls of
the library one after the other, and looks at what they answer.

When a call that sets a task up fails, the task is cleared and the function returns, but not its caller:
the acquisition goes on with the handle that it has cleared. `task_handles` says that this is the only
way in which a handle is used when it is not open, or not cleared when its acquisition is over.
-/

namespace DCScan.TaskHandles

open Lib Tasks

/-- The calls of the library; each is about the handle of one task. -/
inductive NiCall where
  | DAQmxCreateTask (name : Tasks.Text)
  | DAQmxClearTask
  | DAQmxGetSampClkMaxRate
  | DAQmxCfgSampClkTiming (clk_source : Tasks.Text) (clock_rate : Float) (num_samples : Nat)
  | DAQmxRegisterEveryNSamplesEvent (num_samples : UInt32)
  | DAQmxCfgImplicitTiming (buffer_sz : Nat)
  | DAQmxCreateAIVoltageChan (channel_name : Tasks.Text) (ref : Int32) (min max : Float)
  | DAQmxCreateCICountEdgesChan (channel_name : Tasks.Text)
  | DAQmxCreateCOPulseChanFreq (channel_name : Tasks.Text) (implicit_rate : Float)
  | DAQmxStartTask
  | DAQmxStopTask
  deriving DecidableEq

/-- A call that was made, and the error code that it returned. -/
structure Entry where
  task : Task
  call : NiCall
  err : Int32
  deriving DecidableEq

/-- What the library answers: an error code and its text, and the rate when it was asked for. -/
structure NiAnswer where
  err : Int32
  info : Tasks.Text
  maxrate : Float

/-- What is called of the library, and what is logged. -/
structure Driver where
  entries : List Entry
  logs : List Log

/-- A failed `DAQmxCreateTask` opens no handle. -/
def Entry.access (e : Entry) : Option (Task × Access) :=
  match e.call with
  | .DAQmxCreateTask _ => if e.err < 0 then none else some (e.task, .acquire)
  | .DAQmxClearTask => some (e.task, .release)
  | _ => some (e.task, .use)

/-- The calls behind whose failure the task is cleared. -/
def NiCall.setsUp : NiCall → Bool
  | DAQmxClearTask | DAQmxStartTask | DAQmxStopTask => false
  | _ => true

def Entry.failed (e : Entry) : Bool := e.call.setsUp && decide (e.err < 0)

def accesses (entries : List Entry) : List (Task × Access) := entries.filterMap Entry.access

def Driver.log (d : Driver) (log : Log) : Driver := { d with logs := d.logs ++ [log] }

section

-- `ni n` is what the `n`-th call answers
variable (ni : Nat → NiAnswer)

/-- A call whose result is not looked at. -/
def Driver.raw (d : Driver) (t : Task) (c : NiCall) : Driver :=
  { d with entries := d.entries ++ [⟨t, c, (ni d.entries.length).err⟩] }

/-- `HandleNiError`, and whether there is none. -/
def HandleNiError (answer : NiAnswer) (d : Driver) : Driver × Bool :=
  if answer.err < 0 then (d.log (.error (ascii "NI Device: " ++ answer.info)), false)
  else if 0 < answer.err then (d.log (.warning (ascii "NI Device: " ++ answer.info)), true)
  else (d, true)

/-- A call whose failure is logged. -/
def Driver.orLog (d : Driver) (t : Task) (c : NiCall) (text : String) : Driver :=
  match HandleNiError (ni d.entries.length) (d.raw ni t c) with
  | (d, true) => d
  | (d, false) => d.log (.error (ascii text))

/-- A call behind whose failure the task is cleared, and `rest` is not reached. -/
def Driver.orClear (d : Driver) (t : Task) (c : NiCall) (text : String) (rest : Driver → Driver) :
    Driver :=
  match HandleNiError (ni d.entries.length) (d.raw ni t c) with
  | (d, true) => rest d
  | (d, false) => (d.log (.error (ascii text))).raw ni t .DAQmxClearTask

def taskName : Task → Tasks.Text
  | .T_AI => ascii "T_AI"
  | .T_CI => ascii "T_CI"
  | .T_PTG => ascii "T_PTG"

def CreateTask (t : Task) (d : Driver) : Driver :=
  d.orClear ni t (.DAQmxCreateTask (taskName t)) "Error creating task." id

/-- What the two setups of a clocked task end with; nobody sets an `err_callback`. -/
def setupTiming (t : Task) (clk_source : Tasks.Text) (clock_rate : Float) (num_samp : Nat) (d : Driver) :
    Driver :=
  d.orClear ni t (.DAQmxCfgSampClkTiming clk_source clock_rate num_samp)
    "Error setting device clock timing settings." fun d =>
    d.orClear ni t (.DAQmxRegisterEveryNSamplesEvent (UInt32.ofNat num_samp))
      "Error setting callback function for task." id

def SetupTaskAI (t : Task) (clk_source : Tasks.Text) (clk : Float) (num_samp : Nat) (d : Driver) : Driver :=
  let maxrate := (ni d.entries.length).maxrate
  d.orClear ni t .DAQmxGetSampClkMaxRate "Error getting device max sample clock rate." fun d =>
    if clk > maxrate then
      setupTiming ni t clk_source maxrate num_samp
        ((d.log (.warning (ascii "The requested task clock sample rate could not be assigned."))).log
          (.warning (ascii
            "Reason: Requested clock rate is larger than the max hardware rate limit.")))
    else setupTiming ni t clk_source clk num_samp d

def SetupTaskCI (t : Task) (clk_source : Tasks.Text) (clk : Float) (num_samp : Nat) (d : Driver) : Driver :=
  setupTiming ni t clk_source clk num_samp d

def SetupTaskPTG (t : Task) (buffer_sz : Nat) (d : Driver) : Driver :=
  d.orClear ni t (.DAQmxCfgImplicitTiming buffer_sz) "Error setting ptg task." id

def AddTaskChannel (t : Task) (channel_name : Tasks.Text) (type : ChannelType) (ref : Int32)
    (min max implicit_rate : Float) (d : Driver) : Driver :=
  match type with
  | .Voltage => d.orClear ni t (.DAQmxCreateAIVoltageChan channel_name ref min max)
      "Error setting virtual voltage channel." id
  | .Counter => d.orClear ni t (.DAQmxCreateCICountEdgesChan channel_name)
      "Error setting virtual counter channel." id
  | .PTGen =>
    if implicit_rate ≤ 0.0 then
      (d.log (.error (ascii "PTG channel requires an implicit generation rate on channel creation."))).log
        (.error (ascii "Error setting virtual PTG channel."))
    else d.orClear ni t (.DAQmxCreateCOPulseChanFreq channel_name implicit_rate)
      "Error setting virtual PTG channel." id

/-- One call of an acquisition. -/
def call (c : Call) (d : Driver) : Driver :=
  match c with
  | .loop _ => d
  | .CreateTask t => CreateTask ni t d
  | .AddTaskChannel t channel_name type ref min max implicit_rate =>
    AddTaskChannel ni t channel_name type ref min max implicit_rate d
  | .SetupTaskAI clk_source clk num_samp => SetupTaskAI ni .T_AI clk_source clk num_samp d
  | .SetupTaskCI clk_source clk num_samp => SetupTaskCI ni .T_CI clk_source clk num_samp d
  | .SetupTaskPTG buffer_sz => SetupTaskPTG ni .T_PTG buffer_sz d
  | .StartTask t => d.orLog ni t .DAQmxStartTask "Error starting task."
  | .StopTask t => d.orLog ni t .DAQmxStopTask "Error stopping task."
  | .ClearTask t => d.orLog ni t .DAQmxClearTask "Error clearing task."

def calls (cs : List Call) (d : Driver) : Driver := cs.foldl (fun d c => call ni c d) d

/-- The acquisitions and their driver. -/
structure State where
  tasks : Tasks.State
  driver : Driver

def step (s : State) : Action → Option State
  | .call op => (s.tasks.perform op).map fun r => ⟨r.state, calls ni r.calls s.driver⟩
  | .CountEvent last => (Tasks.step s.tasks (.CountEvent last)).map fun tasks => { s with tasks }

def system : System State Action where
  init s := s = ⟨initial, ⟨[], []⟩⟩
  step := step ni

end

/-- A call that sets a task up has failed. -/
def Failed (entries : List Entry) : Prop := ∃ e ∈ entries, e.failed = true

/-- Whose handle is to be open. -/
def running (s : Tasks.State) : Task → Bool
  | .T_AI => s.voltage_task_running
  | .T_CI => s.count_task_running
  | .T_PTG => s.count_using_ptg

/-! ## One call -/

/-- What a call of an acquisition does with a handle, when the library fails nothing. -/
def shape : Call → Option (Task × Access)
  | .loop _ => none
  | .CreateTask t => some (t, .acquire)
  | .ClearTask t => some (t, .release)
  | .AddTaskChannel t .. | .StartTask t | .StopTask t => some (t, .use)
  | .SetupTaskAI .. => some (.T_AI, .use)
  | .SetupTaskCI .. => some (.T_CI, .use)
  | .SetupTaskPTG _ => some (.T_PTG, .use)

/-- The task that is cleared when the call fails. -/
def setUp : Call → Option Task
  | .CreateTask t | .AddTaskChannel t .. => some t
  | .SetupTaskAI .. => some .T_AI
  | .SetupTaskCI .. => some .T_CI
  | .SetupTaskPTG _ => some .T_PTG
  | _ => none

variable {ni : Nat → NiAnswer} {t : Task} {c : NiCall} {text : String} {rest : Driver → Driver}
variable {d : Driver} {es fs : List Entry}

@[simp] theorem log_entries (log : Log) : (d.log log).entries = d.entries := rfl

@[simp] theorem accesses_append : accesses (es ++ fs) = accesses es ++ accesses fs :=
  List.filterMap_append

theorem failed_append : Failed (es ++ fs) ↔ Failed es ∨ Failed fs := by
  simp only [Failed, List.mem_append, or_and_right, exists_or]

theorem handleNiError_spec (answer : NiAnswer) (d : Driver) :
    (HandleNiError answer d).1.entries = d.entries ∧
      ((HandleNiError answer d).2 = true ↔ ¬answer.err < 0) := by
  unfold HandleNiError
  split
  · rename_i failed
    exact ⟨rfl, by simp [failed]⟩
  · rename_i well
    split <;> exact ⟨rfl, by simp [well]⟩

/-- Either the call is made and the rest follows, or it fails and the task is cleared. -/
theorem orClear_cases (ni : Nat → NiAnswer) (t : Task) (c : NiCall) (text : String)
    (rest : Driver → Driver) (d : Driver) : ∃ err,
    (¬err < 0 ∧ ∃ d', d'.entries = d.entries ++ [⟨t, c, err⟩] ∧
      d.orClear ni t c text rest = rest d') ∨
    (err < 0 ∧ ∃ err', (d.orClear ni t c text rest).entries =
      d.entries ++ [⟨t, c, err⟩, ⟨t, .DAQmxClearTask, err'⟩]) := by
  obtain ⟨same, well⟩ := handleNiError_spec (ni d.entries.length) (d.raw ni t c)
  refine ⟨(ni d.entries.length).err, ?_⟩
  unfold Driver.orClear
  split
  · rename_i d' handled
    rw [handled] at same well
    exact .inl ⟨well.mp rfl, d', same, rfl⟩
  · rename_i d' handled
    rw [handled] at same well
    have bad : (ni d.entries.length).err < 0 := by simpa using well
    refine .inr ⟨bad, (ni d'.entries.length).err, ?_⟩
    have made : d'.entries = d.entries ++ [⟨t, c, (ni d.entries.length).err⟩] := same
    rw [Driver.raw, log_entries, made, List.append_assoc]
    rfl

theorem orLog_entries (ni : Nat → NiAnswer) (t : Task) (c : NiCall) (text : String) (d : Driver) :
    ∃ err, (d.orLog ni t c text).entries = d.entries ++ [⟨t, c, err⟩] := by
  obtain ⟨same, _⟩ := handleNiError_spec (ni d.entries.length) (d.raw ni t c)
  refine ⟨(ni d.entries.length).err, ?_⟩
  unfold Driver.orLog
  split
  · rename_i d' handled
    rw [handled] at same
    exact same
  · rename_i d' handled
    rw [handled] at same
    exact same

/-- It uses the handle of a task, and clears it behind a failure. -/
def UsesOrClears (t : Task) (f : Driver → Driver) : Prop :=
  ∀ d, ∃ es, (f d).entries = d.entries ++ es ∧ ∃ uses, (∀ x ∈ uses, x = (t, Access.use)) ∧
    (¬Failed es ∧ accesses es = uses ∨ Failed es ∧ accesses es = uses ++ [(t, .release)])

theorem usesOrClears_of_none {f : Driver → Driver} (same : ∀ d, (f d).entries = d.entries) :
    UsesOrClears t f := by
  intro d
  refine ⟨[], by rw [same, List.append_nil], [], nofun, .inl ⟨?_, rfl⟩⟩
  rintro ⟨e, member, _⟩
  cases member

theorem UsesOrClears.orClear (uses : UsesOrClears t rest) (sets : c.setsUp = true)
    (use : ∀ err, (Entry.mk t c err).access = some (t, .use)) :
    UsesOrClears t fun d => d.orClear ni t c text rest := by
  intro d
  obtain ⟨err, ⟨well, d', made, same⟩ | ⟨bad, err', made⟩⟩ := orClear_cases ni t c text rest d
  · obtain ⟨es, added, others, all, outcome⟩ := uses d'
    have here : ¬Failed [⟨t, c, err⟩] := by simp [Failed, Entry.failed, sets, well]
    refine ⟨⟨t, c, err⟩ :: es, ?_, (t, .use) :: others, ?_, ?_⟩
    · simp only [same, added, made, List.append_assoc, List.singleton_append]
    · simpa using all
    · have first : accesses (⟨t, c, err⟩ :: es) = (t, .use) :: accesses es :=
        List.filterMap_cons_some (use err)
      rw [first, ← List.singleton_append, failed_append]
      rcases outcome with ⟨clean, same⟩ | ⟨failed, same⟩
      · exact .inl ⟨not_or.mpr ⟨here, clean⟩, by rw [same]⟩
      · exact .inr ⟨.inr failed, by rw [same, List.cons_append]⟩
  · refine ⟨_, made, [(t, .use)], by simp, .inr ⟨⟨_, List.mem_cons_self, ?_⟩, ?_⟩⟩
    · simp [Entry.failed, sets, bad]
    · rw [accesses, List.filterMap_cons_some (use err)]
      rfl

theorem usesOrClears_setupTiming (ni : Nat → NiAnswer) (clk_source : Tasks.Text) (clock_rate : Float)
    (num_samp : Nat) : UsesOrClears t (setupTiming ni t clk_source clock_rate num_samp) :=
  .orClear (.orClear (usesOrClears_of_none fun _ => rfl) rfl fun _ => rfl) rfl fun _ => rfl

theorem usesOrClears_SetupTaskAI (ni : Nat → NiAnswer) (clk_source : Tasks.Text) (clk : Float)
    (num_samp : Nat) : UsesOrClears t (SetupTaskAI ni t clk_source clk num_samp) := by
  intro d
  refine UsesOrClears.orClear ?_ rfl (fun _ => rfl) d
  intro d'
  dsimp only
  split
  · exact usesOrClears_setupTiming ni _ _ _ ((d'.log _).log _)
  · exact usesOrClears_setupTiming ni _ _ _ d'

theorem usesOrClears_AddTaskChannel (ni : Nat → NiAnswer) (channel_name : Tasks.Text) (type : ChannelType)
    (ref : Int32) (min max implicit_rate : Float) :
    UsesOrClears t (AddTaskChannel ni t channel_name type ref min max implicit_rate) := by
  cases type with
  | Voltage => exact .orClear (usesOrClears_of_none fun _ => rfl) rfl fun _ => rfl
  | Counter => exact .orClear (usesOrClears_of_none fun _ => rfl) rfl fun _ => rfl
  | PTGen =>
    intro d
    simp only [AddTaskChannel]
    split
    · exact usesOrClears_of_none (f := fun d => (d.log _).log _) (fun _ => rfl) d
    · exact UsesOrClears.orClear (usesOrClears_of_none fun _ => rfl) rfl (fun _ => rfl) d

/-- What is called of the library when it fails nothing. -/
structure Went (call : Call) (es : List Entry) : Prop where
  clean : ¬Failed es
  tracked : ∀ held held', (shape call).toList.foldlM advance held = some held' →
    (accesses es).foldlM advance held = some held'

/-- The task is cleared behind a failure. -/
structure Broke (call : Call) (es : List Entry) : Prop where
  failed : Failed es
  cleared : ∃ t before, setUp call = some t ∧ accesses es = before ++ [(t, .release)]

theorem spec_of_uses {f : Driver → Driver} (call : Call) (uses : UsesOrClears t f)
    (shaped : shape call = some (t, .use)) (sets : setUp call = some t) (d : Driver) :
    ∃ es, (f d).entries = d.entries ++ es ∧ (Went call es ∨ Broke call es) ∧
      ∀ u, (u, Access.acquire) ∉ accesses es := by
  obtain ⟨es, added, others, all, outcome⟩ := uses d
  have never (u : Task) : (u, Access.acquire) ∉ others := fun member => nomatch all _ member
  refine ⟨es, added, ?_, fun u => ?_⟩
  · rcases outcome with ⟨clean, same⟩ | ⟨failed, same⟩
    · refine .inl ⟨clean, fun held held' moved => ?_⟩
      rw [shaped, Option.toList_some, List.foldlM_cons, Option.bind_eq_bind,
        Option.bind_eq_some_iff] at moved
      obtain ⟨_, used, last⟩ := moved
      cases last
      simp only [advance] at used
      split at used
      · rename_i there
        cases used
        rw [same]
        exact advance_uses there all
      · cases used
    · exact .inr ⟨failed, t, others, sets, same⟩
  · rcases outcome with ⟨_, same⟩ | ⟨_, same⟩
    · exact same ▸ never u
    · simp [same, never u]

/-- A call that no task is cleared behind. -/
theorem spec_of_orLog {a : Access} (ni : Nat → NiAnswer) (t : Task) (c : NiCall) (text : String)
    (call : Call) (other : c.setsUp = false) (access : ∀ err, (Entry.mk t c err).access = some (t, a))
    (shaped : shape call = some (t, a)) (d : Driver) :
    ∃ es, (d.orLog ni t c text).entries = d.entries ++ es ∧ (Went call es ∨ Broke call es) ∧
      accesses es = [(t, a)] := by
  obtain ⟨err, made⟩ := orLog_entries ni t c text d
  have only : accesses [⟨t, c, err⟩] = [(t, a)] := List.filterMap_cons_some (access err)
  refine ⟨_, made, .inl ⟨by simp [Failed, Entry.failed, other], fun held held' moved => ?_⟩, only⟩
  rw [only]
  rwa [shaped] at moved

theorem call_spec (ni : Nat → NiAnswer) (c : Call) (d : Driver) :
    ∃ es, (call ni c d).entries = d.entries ++ es ∧ (Went c es ∨ Broke c es) ∧
      (∀ t, (t, Access.acquire) ∈ accesses es → c = .CreateTask t) ∧
      ∀ t, c = .StartTask t → accesses es = [(t, .use)] := by
  cases c with
  | loop call =>
    refine ⟨[], (List.append_nil _).symm, .inl ⟨?_, fun _ _ => id⟩, nofun, nofun⟩
    rintro ⟨e, member, _⟩
    cases member
  | CreateTask t =>
    obtain ⟨err, ⟨well, d', made, same⟩ | ⟨bad, err', made⟩⟩ :=
      orClear_cases ni t (.DAQmxCreateTask (taskName t)) "Error creating task." id d
    · have opened : accesses [⟨t, .DAQmxCreateTask (taskName t), err⟩] = [(t, .acquire)] :=
        List.filterMap_cons_some (if_neg well)
      refine ⟨_, (congrArg Driver.entries same).trans made, .inl ⟨?_, ?_⟩, ?_, nofun⟩
      · simp [Failed, Entry.failed, well]
      · intro held held' moved
        rwa [opened]
      · simp [opened]
    · have closed : accesses [⟨t, .DAQmxCreateTask (taskName t), err⟩, ⟨t, .DAQmxClearTask, err'⟩] =
          [] ++ [(t, .release)] := List.filterMap_cons_none (if_pos bad)
      refine ⟨_, made, .inr ⟨⟨_, List.mem_cons_self, ?_⟩, t, [], rfl, closed⟩, ?_, nofun⟩
      · simp [Entry.failed, NiCall.setsUp, bad]
      · simp [closed]
  | AddTaskChannel t channel_name type ref min max implicit_rate =>
    obtain ⟨es, added, spec, never⟩ := spec_of_uses
      (.AddTaskChannel t channel_name type ref min max implicit_rate)
      (usesOrClears_AddTaskChannel ni channel_name type ref min max implicit_rate) rfl rfl d
    exact ⟨es, added, spec, fun t member => absurd member (never t), nofun⟩
  | SetupTaskAI clk_source clk num_samp =>
    obtain ⟨es, added, spec, never⟩ := spec_of_uses (.SetupTaskAI clk_source clk num_samp)
      (usesOrClears_SetupTaskAI ni clk_source clk num_samp) rfl rfl d
    exact ⟨es, added, spec, fun t member => absurd member (never t), nofun⟩
  | SetupTaskCI clk_source clk num_samp =>
    obtain ⟨es, added, spec, never⟩ := spec_of_uses (.SetupTaskCI clk_source clk num_samp)
      (usesOrClears_setupTiming ni clk_source clk num_samp) rfl rfl d
    exact ⟨es, added, spec, fun t member => absurd member (never t), nofun⟩
  | SetupTaskPTG buffer_sz =>
    have uses : UsesOrClears .T_PTG (SetupTaskPTG ni .T_PTG buffer_sz) :=
      .orClear (usesOrClears_of_none fun _ => rfl) rfl fun _ => rfl
    obtain ⟨es, added, spec, never⟩ := spec_of_uses (.SetupTaskPTG buffer_sz) uses rfl rfl d
    exact ⟨es, added, spec, fun t member => absurd member (never t), nofun⟩
  | StartTask t =>
    obtain ⟨es, added, spec, only⟩ := spec_of_orLog ni t .DAQmxStartTask
      "Error starting task." (.StartTask t) rfl (fun _ => rfl) rfl d
    exact ⟨es, added, spec, by simp [only], by rintro _ ⟨⟩; exact only⟩
  | StopTask t =>
    obtain ⟨es, added, spec, only⟩ := spec_of_orLog ni t .DAQmxStopTask
      "Error stopping task." (.StopTask t) rfl (fun _ => rfl) rfl d
    exact ⟨es, added, spec, by simp [only], nofun⟩
  | ClearTask t =>
    obtain ⟨es, added, spec, only⟩ := spec_of_orLog ni t .DAQmxClearTask
      "Error clearing task." (.ClearTask t) rfl (fun _ => rfl) rfl d
    exact ⟨es, added, spec, by simp [only], nofun⟩

/-! ## The calls of an operation -/

/-- Behind each call that sets a task up, the task is started and not created again. -/
def Guarded : List Call → Prop
  | [] => True
  | c :: cs => (∀ t ∈ setUp c, .StartTask t ∈ cs ∧ .CreateTask t ∉ cs) ∧ Guarded cs

/-- What calls do with the handles, when the library fails nothing. -/
def shapes (cs : List Call) : List (Task × Access) := cs.flatMap fun c => (shape c).toList

variable {cs : List Call} {held held' : Task → Bool}

theorem calls_cons (ni : Nat → NiAnswer) (c : Call) (cs : List Call) (d : Driver) :
    calls ni (c :: cs) d = calls ni cs (call ni c d) := rfl

theorem calls_grow (ni : Nat → NiAnswer) (cs : List Call) (d : Driver) :
    ∃ es, (calls ni cs d).entries = d.entries ++ es := by
  induction cs generalizing d with
  | nil => exact ⟨[], (List.append_nil _).symm⟩
  | cons c cs ih =>
    obtain ⟨es, added, _⟩ := call_spec ni c d
    obtain ⟨fs, more⟩ := ih (call ni c d)
    refine ⟨es ++ fs, ?_⟩
    rw [calls_cons, more, added, List.append_assoc]

/-- A task that is not open is started out of turn. -/
theorem calls_lost (lost : Lost t (accesses d.entries)) (starts : .StartTask t ∈ cs)
    (never : .CreateTask t ∉ cs) : track (accesses (calls ni cs d).entries) = none := by
  induction cs generalizing d with
  | nil => cases starts
  | cons c cs ih =>
    obtain ⟨es, added, _, acquires, only⟩ := call_spec ni c d
    rw [calls_cons]
    rcases List.mem_cons.mp starts with rfl | later
    · obtain ⟨fs, more⟩ := calls_grow ni cs (call ni (.StartTask t) d)
      rw [more, added, accesses_append, accesses_append, only t rfl]
      exact track_append_none (lost.access (by decide))
    · refine ih ?_ later fun member => never (List.mem_cons_of_mem _ member)
      rw [added, accesses_append]
      exact lost.append fun member => never (acquires t member ▸ List.mem_cons_self)

/-- The library fails no call of a setup, and the handles are where they ought to be; or it fails
one, and something is called out of turn. -/
theorem calls_spec (guarded : Guarded cs) (followed : track (accesses d.entries) = some held)
    (proper : (shapes cs).foldlM advance held = some held') (clean : ¬Failed d.entries) :
    (¬Failed (calls ni cs d).entries ∧ track (accesses (calls ni cs d).entries) = some held') ∨
      (Failed (calls ni cs d).entries ∧ track (accesses (calls ni cs d).entries) = none) := by
  induction cs generalizing d held with
  | nil =>
    cases proper
    exact .inl ⟨clean, followed⟩
  | cons c cs ih =>
    obtain ⟨first, guarded⟩ := guarded
    rw [shapes, List.flatMap_cons, List.foldlM_append, Option.bind_eq_bind,
      Option.bind_eq_some_iff] at proper
    obtain ⟨between, moved, proper⟩ := proper
    rw [calls_cons]
    obtain ⟨es, added, went | broke, _⟩ := call_spec ni c d
    · refine ih guarded ?_ proper ?_
      · rw [added, accesses_append, track_append, followed]
        exact went.tracked held between moved
      · rw [added, failed_append]
        exact not_or.mpr ⟨clean, went.clean⟩
    · obtain ⟨t, before, sets, same⟩ := broke.cleared
      obtain ⟨starts, never⟩ := first t sets
      refine .inr ⟨?_, calls_lost ?_ starts never⟩
      · obtain ⟨fs, more⟩ := calls_grow ni cs (call ni c d)
        rw [more, added, failed_append, failed_append]
        exact .inl (.inr broke.failed)
      · rw [added, accesses_append, same, ← List.append_assoc]
        exact lost_release

@[simp] theorem shapes_append (cs rest : List Call) : shapes (cs ++ rest) = shapes cs ++ shapes rest :=
  List.flatMap_append

@[simp] theorem shapes_cons (c : Call) (cs : List Call) :
    shapes (c :: cs) = (shape c).toList ++ shapes cs := List.flatMap_cons

@[simp] theorem shapes_nil : shapes [] = [] := rfl

@[simp] theorem shapes_loop (threads : List EventLoop.Call) : shapes (threads.map .loop) = [] := by
  induction threads with
  | nil => rfl
  | cons thread threads ih => simp [shape, ih]

/-- A call that sets nothing up needs no others. -/
theorem guarded_cons {c : Call} (none_set : setUp c = none) (guarded : Guarded cs) :
    Guarded (c :: cs) := by
  refine ⟨fun t member => ?_, guarded⟩
  rw [none_set] at member
  cases member

theorem guarded_loop (threads : List EventLoop.Call) (guarded : Guarded cs) :
    Guarded (threads.map .loop ++ cs) := by
  induction threads with
  | nil => exact guarded
  | cons thread threads ih => exact guarded_cons rfl ih

@[simp] theorem shape_add (vchannel : VirtualChannel) (t : Task) (rate : Float) :
    shape (vchannel.add t rate) = some (t, .use) := by
  unfold VirtualChannel.add
  cases vchannel.data <;> rfl

@[simp] theorem setUp_add (vchannel : VirtualChannel) (t : Task) (rate : Float) :
    setUp (vchannel.add t rate) = some t := by
  unfold VirtualChannel.add
  cases vchannel.data <;> rfl

@[simp] theorem add_ne_create (vchannel : VirtualChannel) (t u : Task) (rate : Float) :
    vchannel.add t rate ≠ .CreateTask u := by
  unfold VirtualChannel.add
  cases vchannel.data <;> nofun

@[simp] theorem create_ne_add (vchannel : VirtualChannel) (t u : Task) (rate : Float) :
    .CreateTask u ≠ vchannel.add t rate := (add_ne_create vchannel t u rate).symm

/-- The channels of a task are added before it is started. -/
theorem guarded_add (channels : List VirtualChannel) (rate : Float) (guarded : Guarded cs)
    (starts : .StartTask t ∈ cs) (never : .CreateTask t ∉ cs) :
    Guarded (channels.map (fun vchannel => vchannel.add t rate) ++ cs) := by
  induction channels with
  | nil => exact guarded
  | cons vchannel channels ih =>
    refine ⟨fun u member => ?_, ih⟩
    rw [setUp_add] at member
    cases member
    refine ⟨List.mem_append_right _ starts, fun member => ?_⟩
    rcases List.mem_append.mp member with added | later
    · obtain ⟨other, _, same⟩ := List.mem_map.mp added
      exact create_ne_add other t t rate same.symm
    · exact never later

theorem shapes_add (channels : List VirtualChannel) (t : Task) (rate : Float) :
    ∀ x ∈ shapes (channels.map fun vchannel => vchannel.add t rate), x = (t, .use) := by
  intro x member
  obtain ⟨c, added, made⟩ := List.mem_flatMap.mp member
  obtain ⟨vchannel, _, rfl⟩ := List.mem_map.mp added
  simpa using made

/-! ## The operations -/

/-- The pulse train is used while the counter runs. -/
def PtgWithin (s : Tasks.State) : Prop := s.count_using_ptg = true → s.count_task_running = true

/-- The calls of an operation open and close what it starts and stops. -/
structure Proper (s : Tasks.State) (r : Result) : Prop where
  guarded : Guarded r.calls
  moves : (shapes r.calls).foldlM advance (running s) = some (running r.state)
  within : PtgWithin r.state

variable {s : Tasks.State} {r : Result} {op : Tasks.Operation} {samplerate rate : Float}
variable {clock_trigger_channel pause_trigger_channel reset_trigger_channel : Tasks.Text}

theorem within_of_unused (unused : s.count_using_ptg = false) : PtgWithin s := by
  intro used
  rw [unused] at used
  cases used

theorem proper_of_none (within : PtgWithin s) (none_called : r.calls = [])
    (voltage : r.state.voltage_task_running = s.voltage_task_running)
    (count : r.state.count_task_running = s.count_task_running)
    (ptg : r.state.count_using_ptg = s.count_using_ptg) : Proper s r where
  guarded := by rw [none_called]; trivial
  moves := by
    have same : running r.state = running s := by
      funext t
      cases t
      · exact voltage
      · exact count
      · exact ptg
    rw [none_called, same]
    rfl
  within := by rwa [PtgWithin, ptg, count]

/-- A task that is closed is opened, and its channels are added. -/
theorem moves_open (threads : List EventLoop.Call) (channels : List VirtualChannel) (rate : Float)
    (closed : held t = false) (rest : List Call) :
    (shapes (threads.map .loop ++ ([.CreateTask t] ++
      (channels.map (fun vchannel => vchannel.add t rate) ++ rest)))).foldlM advance held =
        (shapes rest).foldlM advance (Function.update held t true) := by
  have added := advance_uses (Function.update_self t true held) (shapes_add channels t rate)
  have opened : advance held (t, .acquire) = some (Function.update held t true) := by
    simp [advance, closed]
  simp only [shapes_append, shapes_loop, shapes_cons, shapes_nil, shape, Option.toList_some,
    List.nil_append, List.append_nil, List.foldlM_append, List.foldlM_cons, List.foldlM_nil,
    Option.bind_eq_bind, Option.bind_some, Option.pure_def, opened, added]

theorem proper_StartAI (within : PtgWithin s)
    (performed : s.StartAIAcquisition clock_trigger_channel samplerate = some r) : Proper s r := by
  unfold State.StartAIAcquisition at performed
  split at performed
  · cases performed
    exact proper_of_none within rfl rfl rfl rfl
  · dsimp only at performed
    split at performed
    · rename_i voltage
      obtain ⟨num_samp, _, rfl⟩ := Option.map_eq_some_iff.mp performed
      have closed : running s .T_AI = false := by simpa [running] using voltage
      refine ⟨?_, ?_, within⟩
      · simp only [List.append_assoc]
        refine guarded_loop _ ⟨?_, guarded_add _ 0.0 ⟨?_, guarded_cons rfl trivial⟩ (by simp) (by simp)⟩
        · rintro t ⟨⟩
          simp
        · rintro t ⟨⟩
          simp
      · simp only [List.append_assoc]
        rw [moves_open _ _ _ closed]
        refine (advance_uses (Function.update_self ..) (by simp [shape])).trans ?_
        refine congrArg some (funext fun t => ?_)
        cases t <;> rfl
    · cases performed
      exact proper_of_none within rfl rfl rfl rfl

/-- The one counter that is used. -/
theorem addCounter_eq (s : Tasks.State) : ∃ channels : List VirtualChannel,
    s.addCounter.1 = channels.map fun vchannel => vchannel.add .T_CI 0.0 := by
  rcases firstChannel_cases "CI Acquisition" (s.channelsOfType .Counter) fun vchannel =>
    [vchannel.add .T_CI 0.0] with none_there | ⟨vchannel, one⟩
  · exact ⟨[], none_there⟩
  · exact ⟨[vchannel], one⟩

theorem addPtg_eq (s : Tasks.State) (rate : Float) : (s.addPtg rate).1 = [] ∨
    ∃ vchannel : VirtualChannel,
    (s.addPtg rate).1 = [.CreateTask .T_PTG, vchannel.add .T_PTG rate, .SetupTaskPTG 1000] :=
  firstChannel_cases ..

theorem proper_StartCI (within : PtgWithin s) : Proper s
    (s.StartCIAcquisition clock_trigger_channel pause_trigger_channel reset_trigger_channel rate) := by
  unfold State.StartCIAcquisition
  split
  · exact proper_of_none within rfl rfl rfl rfl
  · split
    · rename_i count
      have closed : running s .T_CI = false := by simpa [running] using count
      have unused : s.count_using_ptg = false := by
        rw [Bool.eq_false_iff]
        exact fun used => count (within used)
      obtain ⟨channels, counter⟩ := addCounter_eq s
      dsimp only
      rw [counter, unused]
      simp only [List.append_assoc, Bool.false_or]
      rcases addPtg_eq s rate with none_there | ⟨vchannel, one⟩
      · rw [none_there]
        refine ⟨?_, ?_, within_of_unused (by simp)⟩
        · refine guarded_loop _ ⟨?_, guarded_add _ 0.0 ⟨?_, guarded_cons rfl trivial⟩ (by simp) (by simp)⟩
          · rintro t ⟨⟩
            simp
          · rintro t ⟨⟩
            simp
        · refine (moves_open _ _ _ closed _).trans ?_
          refine (advance_uses (Function.update_self ..) (by simp [shape])).trans ?_
          refine congrArg some (funext fun t => ?_)
          cases t <;> simp [running, unused]
      · rw [one, if_pos (by simp)]
        have moved : (shapes ([.CreateTask .T_PTG, vchannel.add .T_PTG rate, .SetupTaskPTG 1000] ++
            ([.SetupTaskCI clock_trigger_channel rate INTERNAL_SAMP_SIZE] ++
              ([.StartTask .T_PTG] ++ [.StartTask .T_CI])))).foldlM advance
                (Function.update (running s) .T_CI true) =
            some (Function.update (Function.update (running s) .T_CI true) .T_PTG true) := by
          have did : shapes ([.CreateTask .T_PTG, vchannel.add .T_PTG rate, .SetupTaskPTG 1000] ++
              ([.SetupTaskCI clock_trigger_channel rate INTERNAL_SAMP_SIZE] ++
                ([.StartTask .T_PTG] ++ [.StartTask .T_CI]))) =
              [(.T_PTG, .acquire), (.T_PTG, .use), (.T_PTG, .use), (.T_CI, .use), (.T_PTG, .use),
                (.T_CI, .use)] := by
            simp only [shapes_append, shapes_cons, shapes_nil, shape_add]
            rfl
          have free : running s .T_PTG = false := unused
          rw [did]
          simp [advance, free]
        refine ⟨?_, (moves_open _ _ _ closed _).trans (moved.trans (congrArg some ?_)), fun _ => rfl⟩
        · refine guarded_loop _ ⟨?_, guarded_add _ 0.0 ?_ (by simp) (by simp)⟩
          · rintro t ⟨⟩
            simp
          · refine ⟨?_, ?_, ?_, ?_, guarded_cons rfl (guarded_cons rfl trivial)⟩ <;> intro t member
            · cases member
              simp
            · rw [setUp_add] at member
              cases member
              simp
            · cases member
              simp
            · cases member
              simp
        · funext t
          cases t <;> simp [running]
    · exact proper_of_none within rfl rfl rfl rfl

theorem guarded_of_none (none_set : ∀ c ∈ cs, setUp c = none) : Guarded cs := by
  induction cs with
  | nil => trivial
  | cons c cs ih =>
    exact guarded_cons (none_set c List.mem_cons_self)
      (ih fun c member => none_set c (List.mem_cons_of_mem _ member))

theorem setUp_loop (threads : List EventLoop.Call) : ∀ c ∈ threads.map Call.loop, setUp c = none := by
  intro c member
  obtain ⟨thread, _, rfl⟩ := List.mem_map.mp member
  rfl

theorem proper_StopAI (within : PtgWithin s) (performed : s.StopAIAcquisition = some r) :
    Proper s r := by
  unfold State.StopAIAcquisition at performed
  split at performed
  · rename_i voltage
    obtain ⟨⟨loop, threads⟩, _, rfl⟩ := Option.map_eq_some_iff.mp performed
    have opened : running s .T_AI = true := voltage
    have guarded := guarded_of_none (setUp_loop threads)
    refine ⟨guarded_cons rfl (guarded_cons rfl guarded), ?_, within⟩
    have moved : (shapes ([.StopTask .T_AI, .ClearTask .T_AI] ++ threads.map .loop)).foldlM advance
        (running s) = some (Function.update (running s) .T_AI false) := by
      simp [shape, advance, opened]
    refine moved.trans (congrArg some (funext fun t => ?_))
    cases t <;> rfl
  · cases performed
    exact proper_of_none within rfl rfl rfl rfl

theorem proper_StopCI (within : PtgWithin s) (performed : s.StopCIAcquisition = some r) :
    Proper s r := by
  unfold State.StopCIAcquisition at performed
  split at performed
  · rename_i count
    obtain ⟨⟨loop, threads⟩, _, rfl⟩ := Option.map_eq_some_iff.mp performed
    have opened : running s .T_CI = true := count
    have guarded := guarded_of_none (setUp_loop threads)
    cases used : s.count_using_ptg with
    | false =>
      refine ⟨guarded_cons rfl (guarded_cons rfl guarded), ?_, within_of_unused rfl⟩
      have moved : (shapes ([.StopTask .T_CI] ++ [] ++ [.ClearTask .T_CI] ++ [] ++
          threads.map .loop)).foldlM advance (running s) =
            some (Function.update (running s) .T_CI false) := by
        simp [shape, advance, opened]
      refine moved.trans (congrArg some (funext fun t => ?_))
      cases t <;> simp [running, used]
    | true =>
      have there : running s .T_PTG = true := used
      refine ⟨guarded_cons rfl (guarded_cons rfl (guarded_cons rfl (guarded_cons rfl guarded))), ?_,
        within_of_unused rfl⟩
      have moved : (shapes ([.StopTask .T_CI] ++ [.StopTask .T_PTG] ++ [.ClearTask .T_CI] ++
          [.ClearTask .T_PTG] ++ threads.map .loop)).foldlM advance (running s) =
            some (Function.update (Function.update (running s) .T_CI false) .T_PTG false) := by
        simp [shape, advance, opened, there]
      refine moved.trans (congrArg some (funext fun t => ?_))
      cases t <;> rfl
  · cases performed
    exact proper_of_none within rfl rfl rfl rfl

theorem proper_configures (configures : op.configures) (within : PtgWithin s)
    (performed : s.perform op = some r) : Proper s r := by
  obtain ⟨none_called, ⟨channels, mca, changed⟩, _⟩ := configures_cases configures performed
  apply proper_of_none within none_called <;> rw [changed]

theorem proper_perform (within : PtgWithin s) (performed : s.perform op = some r) : Proper s r := by
  cases op with
  | StartAIAcquisition => exact proper_StartAI within performed
  | StopAIAcquisition => exact proper_StopAI within performed
  | StartCIAcquisition =>
    cases performed
    exact proper_StartCI within
  | StopCIAcquisition => exact proper_StopCI within performed
  | NewAIVChannel | NewCIChannel | NewPTGChannel | DeleteChannel | SetMCANumChannels =>
    exact proper_configures (by trivial) within performed

/-! ## Runs -/

structure Inv (s : State) : Prop where
  within : PtgWithin s.tasks
  followed : (¬Failed s.driver.entries ∧ track (accesses s.driver.entries) = some (running s.tasks)) ∨
    (Failed s.driver.entries ∧ track (accesses s.driver.entries) = none)

theorem inv_initial : Inv ⟨initial, ⟨[], []⟩⟩ where
  within := nofun
  followed := by
    refine .inl ⟨?_, congrArg some (funext fun t => ?_)⟩
    · rintro ⟨e, member, _⟩
      cases member
    · cases t <;> rfl

theorem Inv.step {s s' : State} {a : Action} (inv : Inv s) (stepped : step ni s a = some s') :
    Inv s' := by
  cases a with
  | call op =>
    obtain ⟨r, performed, rfl⟩ := Option.map_eq_some_iff.mp stepped
    have proper := proper_perform inv.within performed
    refine ⟨proper.within, ?_⟩
    rcases inv.followed with ⟨clean, followed⟩ | ⟨failed, out⟩
    · exact calls_spec proper.guarded followed proper.moves clean
    · obtain ⟨es, added⟩ := calls_grow ni r.calls s.driver
      refine .inr ⟨?_, ?_⟩
      · exact added ▸ failed_append.mpr (.inl failed)
      · rw [added, accesses_append]
        exact track_append_none out
  | CountEvent last =>
    obtain ⟨tasks, counted, rfl⟩ := Option.map_eq_some_iff.mp stepped
    simp only [Tasks.step] at counted
    split at counted
    · cases counted
      exact ⟨inv.within, inv.followed⟩
    · cases counted

/-- While no call that sets a task up has failed, the handles that are open are those of the tasks
that run. Behind such a failure a handle has been used that was not open. -/
theorem task_handles (ni : Nat → NiAnswer) (s : State) (reached : (system ni).Reachable s) :
    (InTurn (accesses s.driver.entries) ↔ ¬Failed s.driver.entries) ∧
      (¬Failed s.driver.entries →
        ∀ t, Held t (accesses s.driver.entries) ↔ running s.tasks t = true) := by
  have inv : Inv s := by
    refine reached.invariant (fun s start => ?_) fun s s' a inv stepped => inv.step stepped
    cases start
    exact inv_initial
  rw [inTurn_iff_track]
  rcases inv.followed with ⟨clean, followed⟩ | ⟨failed, out⟩
  · refine ⟨by simp [followed, clean], fun _ t => ?_⟩
    exact (held_iff_track followed).symm
  · exact ⟨by simp [out, failed], fun clean => absurd failed clean⟩

/-- The counter is started, and its handle is open; with a library that fails all but the first call,
the voltage task runs on a handle that is not. -/
theorem task_handles_started :
    (∃ s, (system fun _ => ⟨0, [], 0.0⟩).Reachable s ∧ s.tasks.count_task_running = true ∧
      InTurn (accesses s.driver.entries) ∧ Held .T_CI (accesses s.driver.entries)) ∧
    ∃ s, (system fun n => ⟨if n = 0 then 0 else -200220, [], 0.0⟩).Reachable s ∧
      s.tasks.voltage_task_running = true ∧ ¬InTurn (accesses s.driver.entries) := by
  constructor
  · obtain ⟨s, reached, runs, well⟩ : ∃ s, (system fun _ => ⟨0, [], 0.0⟩).Reachable s ∧
        s.tasks.count_task_running = true ∧ ¬s.driver.entries.any Entry.failed = true :=
      System.exists_reachable_of_replay rfl
        [.call (.NewCIChannel [65] [66] 0), .call (.StartCIAcquisition [] [] [] 1000.0)] (by decide)
    have clean : ¬Failed s.driver.entries := by simpa [Failed] using well
    obtain ⟨turn, handles⟩ := task_handles _ s reached
    exact ⟨s, reached, runs, turn.mpr clean, (handles clean .T_CI).mpr runs⟩
  · obtain ⟨s, reached, runs, failed⟩ :
        ∃ s, (system fun n => ⟨if n = 0 then 0 else -200220, [], 0.0⟩).Reachable s ∧
          s.tasks.voltage_task_running = true ∧ s.driver.entries.any Entry.failed = true :=
      System.exists_reachable_of_replay rfl
        [.call (.NewAIVChannel [65] [66] 10083 (-10.0) 10.0), .call (.StartAIAcquisition [] 1000.0)]
        (by decide)
    refine ⟨s, reached, runs, fun turn => ?_⟩
    exact (task_handles _ s reached).1.mp turn (by simpa [Failed] using failed)

end DCScan.TaskHandles
