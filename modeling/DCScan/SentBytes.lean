import Mathlib.Data.List.Dedup
import DCScan.Lib.Unwritten
import DCScan.Requests
import DCScan.SessionCalls
import DCScan.Variables

/-!
What is sent, beside the memory that was not written before it was sent.

A reply is the whole of `SVReturn`, and a username the whole of its array. The registered functions
are those of the headers, with objects that are known as far as they have been written; whatever the
rest holds is in `Memory`.
-/

namespace DCScan.SentBytes

open Lib Message Generator Marshalling RDB

/-! ## The registered functions -/

/-- The types of their arguments and results. -/
inductive CType where
  | i8 | u8 | u16 | u32 | f64 | BasicString | Authority | UnitTarget | ChannelRef | ChannelCountRef
  | ChannelLimits | TemperatureData | EncoderData
  deriving DecidableEq, Repr

def CType.spelling : CType → String
  | i8 => "DCS::i8"
  | u8 => "DCS::u8"
  | u16 => "DCS::u16"
  | u32 => "DCS::u32"
  | f64 => "DCS::f64"
  | BasicString => "DCS::Utils::BasicString"
  | Authority => "DCS::Database::Authority"
  | UnitTarget => "DCS::Control::UnitTarget"
  | ChannelRef => "DCS::DAQ::ChannelRef"
  | ChannelCountRef => "DCS::DAQ::ChannelCountRef"
  | ChannelLimits => "DCS::DAQ::ChannelLimits"
  | TemperatureData => "DCS::Temp::TemperatureData"
  | EncoderData => "DCS::ENC::EncoderData"

/-- Enumerations are `int`; an axis of `EncoderData` takes 48 bytes with its padding. -/
def CType.sizeof : CType → Nat
  | i8 | u8 => 1
  | u16 => 2
  | u32 | Authority | UnitTarget | ChannelRef | ChannelCountRef => 4
  | f64 => 8
  | BasicString => 512
  | ChannelLimits | TemperatureData => 16
  | EncoderData => 8 + 4 * 48

/-- `T()`: zeros, and for `ChannelLimits` -10.0 and 10.0. -/
def CType.init : CType → List UInt8
  | ChannelLimits => leBytes 8 0xC024000000000000 ++ leBytes 8 0x4024000000000000
  | t => List.replicate t.sizeof 0

def CType.all : List CType :=
  [i8, u8, u16, u32, f64, BasicString, Authority, UnitTarget, ChannelRef, ChannelCountRef,
    ChannelLimits, TemperatureData, EncoderData]

/-- The longest object is a `BasicString`. -/
theorem CType.sizeof_le (t : CType) : t.sizeof ≤ 512 := by cases t <;> simp [CType.sizeof]

theorem CType.init_length (t : CType) : t.init.length = t.sizeof := by
  unfold init
  split
  · rfl
  · exact List.length_replicate

/-- The headers spell no other type. -/
def layout : Layout CType where
  type name := (CType.all.find? fun t => t.spelling.toList = name).getD .u8
  sizeof := CType.sizeof
  sizeof_pos t := by cases t <;> decide
  init := CType.init
  init_length := CType.init_length

/-- What the functions find when they are called: the database with SQLite and the number format, the
values of the devices, and what the libraries of the devices answer. -/
structure World (f64 : Type) where
  sql : Sqlite
  num : Database.Numerals f64
  /-- An `f64` as a word. -/
  bits : f64 → UInt64
  db : Database.State
  /-- `Coms::GetCmdBuffer().schedule` of a custom command with a response. -/
  schedule : List UInt8 → CString → List UInt8
  /-- The names of `DAQmxGetSysDevNames`; none on an error. -/
  sysDevNames : Option CString
  MCA_NumChannels : UInt16
  hardware_concurrency : UInt16
  waiting_for_ref : Bool
  /-- `outbound_data_queue` of the encoders; some bytes of an element may never have been written. -/
  encoders : List (Object UInt8 200)
  /-- `outbound_data_queue` of the temperatures. -/
  temperatures : List (f64 × f64)

/-- A result in one word of `k` bytes. -/
def word (k n : Nat) : Object UInt8 k :=
  ⟨.ofList (leBytes k n), by rw [Block.length_ofList, leBytes_length]⟩

def zeros (n : Nat) : Object UInt8 n :=
  ⟨.ofList (List.replicate n 0), by rw [Block.length_ofList, List.length_replicate]⟩

/-- `BasicString ret; memcpy(ret.buffer, str.c_str(), str.size() + 1)`. -/
def copyString (str : List UInt8) : Option (Object UInt8 512) :=
  (Object.unwritten 512).copy (.ofList (str ++ [0]))

/-- An argument of `BasicString`, as its `buffer` is used; undefined without a zero. -/
def asText (v : Any layout) : Option Database.Text :=
  if proper : v.bytes.length = 512 ∧ 0 ∈ v.bytes then some ⟨⟨v.bytes, proper.1⟩, proper.2⟩ else none

section

variable {f64 : Type} (w : World f64)

def ReadValuef64 (name : Database.Text) : Option (Object UInt8 8) :=
  (Database.ReadValuef64 w.sql w.num w.db name).map fun x => word 8 (w.bits x.2).toNat

def ReadValueString (name : Database.Text) : Option (Object UInt8 512) := do
  let (_, value) ← Database.fetch w.sql w.db name.c_str
  match value with
  | none => some (zeros 512)
  | some value => copyString value

def IssueGenericCommandResponse (target : Any layout) (full_command : Database.Text) :
    Option (Object UInt8 512) :=
  copyString (w.schedule target.bytes full_command.c_str)

/-- `GetDevices` copies two zeros on an error. -/
def GetConnectedDevicesAliases : Option (Object UInt8 512) :=
  match w.sysDevNames with
  | some names => copyString names.bytes
  | none => copyString [0]

/-- Nothing is written when there is no value. -/
def InspectLastTemperatureValues : Option (Object UInt8 16) :=
  match w.temperatures.getLast? with
  | some (c1, c2) =>
    (Object.unwritten 16).copy (.ofList (leBytes 8 (w.bits c1).toNat ++ leBytes 8 (w.bits c2).toNat))
  | none => some (.unwritten 16)

/-- Only `numAxis` is written when there is no value. -/
def InspectLastEncoderValues : Option (Object UInt8 200) :=
  match w.encoders.getLast? with
  | some data => some data
  | none => (Object.unwritten 200).copy (.ofList [0])

end

/-- A function registered with `DCS_REGISTER_CALL`. -/
structure Function (f64 : Type) where
  func : String
  /-- None for `void`. -/
  returnType : Option CType
  args : List CType
  /-- The object it returns, which for `void` is empty. -/
  run : World f64 → List (Any layout) → Option (Object UInt8 ((returnType.map CType.sizeof).getD 0))

variable {f64 : Type}

/-- A `void` function; it is taken to return. -/
def Function.void (func : String) (args : List CType) : Function f64 where
  func
  returnType := none
  args
  run _ _ := some (.unwritten 0)

/-- A function without arguments. -/
def Function.plain (func : String) (type : CType) (run : World f64 → Option (Object UInt8 type.sizeof)) :
    Function f64 where
  func
  returnType := some type
  args := []
  run w _ := run w

/-- `DCS_ModuleCore.h`. -/
def coreFunctions : List (Function f64) :=
  [.void "DCS::Database::InvalidateCache" [],
    { func := "DCS::Database::ReadValuef64", returnType := some .f64, args := [.BasicString]
      run w values := do ReadValuef64 w (← asText (← values[0]?)) },
    { func := "DCS::Database::ReadValueString", returnType := some .BasicString
      args := [.BasicString]
      run w values := do ReadValueString w (← asText (← values[0]?)) },
    .void "DCS::Database::WriteValuef64" [.Authority, .BasicString, .f64, .BasicString],
    .void "DCS::Database::WriteValueString" [.Authority, .BasicString, .BasicString, .BasicString],
    .void "DCS::Database::DeleteValue" [.Authority, .BasicString],
    .plain "DCS::Threading::GetMaxHardwareConcurrency" .u16 fun w =>
      some (word 2 w.hardware_concurrency.toNat)]

/-- `DCS_ModuleEngineControl.h`. -/
def engineControlFunctions : List (Function f64) :=
  [.void "DCS::Control::IssueGenericCommand" [.UnitTarget, .BasicString],
    { func := "DCS::Control::IssueGenericCommandResponse", returnType := some .BasicString
      args := [.UnitTarget, .BasicString]
      run w values := do IssueGenericCommandResponse w (← values[0]?) (← asText (← values[1]?)) },
    .void "DCS::Control::SetPIDControlVariables" [.UnitTarget, .BasicString, .i8, .f64, .f64, .f64],
    .void "DCS::Control::MoveAbsolutePID" [.UnitTarget, .BasicString, .f64],
    .void "DCS::Control::MoveRelative" [.UnitTarget, .BasicString, .f64]]

/-- `DCS_ModuleAcquisition.h`; the last three are left out without an encoder. -/
def acquisitionFunctions (encoder : Bool) : List (Function f64) :=
  [.void "DCS::DAQ::NewAIVChannel" [.BasicString, .BasicString, .ChannelRef, .ChannelLimits],
    .void "DCS::DAQ::DeleteChannel" [.BasicString],
    .void "DCS::DAQ::StartAIAcquisition" [.BasicString, .f64],
    .void "DCS::DAQ::StopAIAcquisition" [],
    .void "DCS::DAQ::NewCIChannel" [.BasicString, .BasicString, .ChannelCountRef],
    .void "DCS::DAQ::NewPTGChannel" [.BasicString, .BasicString, .f64],
    .void "DCS::DAQ::StartCIAcquisition" [.BasicString, .BasicString, .BasicString, .f64],
    .void "DCS::DAQ::StopCIAcquisition" [],
    .void "DCS::DAQ::StartDIAcquisition" [.f64],
    .void "DCS::DAQ::StopDIAcquisition" [],
    .plain "DCS::DAQ::GetMCANumChannels" .u16 fun w => some (word 2 w.MCA_NumChannels.toNat),
    .void "DCS::DAQ::SetMCANumChannels" [.u16],
    -- `INTERNAL_ADC_MAX_CLK` is 250000.0
    .plain "DCS::DAQ::GetADCMaxInternalClock" .f64 fun _ => some (word 8 0x410E848000000000),
    .plain "DCS::DAQ::GetConnectedDevicesAliases" .BasicString GetConnectedDevicesAliases,
    .plain "DCS::Temp::InspectLastTemperatureValues" .TemperatureData InspectLastTemperatureValues] ++
  if encoder then
    [.plain "DCS::ENC::InspectLastEncoderValues" .EncoderData InspectLastEncoderValues,
      .plain "DCS::ENC::GetTriggerPeriod" .u32 fun _ => some (word 4 100000),
      .plain "DCS::ENC::EncoderNeedsRefRun" .u8 fun w => some (word 1 w.waiting_for_ref.toNat)]
  else []

def functions (encoder : Bool) : List (Function f64) :=
  coreFunctions ++ engineControlFunctions ++ acquisitionFunctions encoder

/-- The text of the declaration, as the script reads it. -/
def Function.declaration (f : Function f64) : Declaration where
  func := f.func.toList
  returnType := ((f.returnType.map CType.spelling).getD "").toList
  argsName := if f.args = [] then [[]] else f.args.map fun t => t.spelling.toList

/-- The headers with a registered function; the events are of no use here. -/
def headers (f64 : Type) (encoder : Bool) : List Header :=
  [coreFunctions, engineControlFunctions, acquisitionFunctions encoder].map
    fun file : List (Function f64) => ⟨file.map Function.declaration, []⟩

/-- The call in a case of `Execute`. -/
def perform (encoder : Bool) (w : World f64) (func : Text) (values : List (Any layout)) :
    Option (Block UInt8) := do
  let f ← (functions encoder).find? fun f => f.func.toList = func
  let value ← f.run w values
  some value.cells

/-! ## What is sent -/

/-- All memory that is read before it is written. -/
structure Memory where
  /-- The results of `getArg`. -/
  args : Uninit
  /-- `ret.ptr`, and what was copied there without having been written. -/
  ret : Nat → UInt8
  /-- The message of the reply. -/
  dm : Uninit
  /-- `garbage`, or `user`, on the client. -/
  stack : Nat → UInt8

/-- `SVReturn`, as far as it has been written. -/
structure Ret where
  type : UInt8
  ptr : Object UInt8 1024

/-- The object, with what its memory held before. -/
def Ret.read (mem : Nat → UInt8) (ret : Ret) : SVReturn :=
  ⟨ret.type :: ret.ptr.cells.read mem, by
    rw [List.length_cons, Block.length_read, ret.ptr.length_eq, sizeofSVReturn]⟩

variable {encoder : Bool}

/-- `Execute(GetParamsFromData(..))`. -/
def Execute (run : Run (headers f64 encoder)) (w : World f64) (args : Uninit)
    (payload : List UInt8) : Option Ret := do
  let outcome ← request layout (DCSGen run) args payload
  match outcome.call with
  | none => some ⟨0, .unwritten 1024⟩
  | some (c, values) => do
    let value ← perform encoder w c.func values
    if c.returnType = [] then some ⟨0, .unwritten 1024⟩
    else
      let ptr ← (Object.unwritten 1024).copy value
      let code ← resolve (DCSGen run).rtypeDefines c.code
      some ⟨UInt8.ofNat code, ptr⟩

/-- `garbage`, or `user` after the `strcpy`. -/
def username (name : List UInt8) : Option (Block UInt8) :=
  if 32 ≤ name.length then some (.unwritten 64)
  else ((Object.unwritten 32).copy (.ofList (cStr name ++ [0]))).map Object.cells

/-- A message of the server to a request, or the username of `Client::Authenticate`. -/
inductive Sent where
  | response (sync : Bool) (id : UInt64) (payload : List UInt8)
  | username (name : List UInt8)

/-- The opcode of the answer to a request. -/
def responseCode (sync : Bool) : InternalOperation := if sync then .SYNC_RESPONSE else .ASYNC_RESPONSE

/-- Its bytes. Nothing is sent where the server does not come to an answer. -/
def Sent.bytes (run : Run (headers f64 encoder)) (w : World f64) (mem : Memory) :
    Sent → Option (List UInt8)
  | response sync id payload => do
    let ret ← Execute run w mem.args payload
    (reply mem.dm (responseCode sync) id (ret.read mem.ret)).map frame
  | username name => (SentBytes.username name).map (Block.read mem.stack)

/-! ## The same functions, with their memory as bytes -/

theorem copyString_read {held : List UInt8} (length : held.length = 512) (str : List UInt8) :
    (copyString str).map (fun o => o.cells.read fun i => held.getD i 0) =
      store held 0 (str ++ [0]) := by
  have before : (Object.unwritten 512).cells.read (fun i => held.getD i 0) = held :=
    Block.read_unwritten_getD length 0
  rw [copyString, Object.copy_read, before, Block.read_ofList]

/-- The string that is read from the database, in a buffer with these bytes before it. -/
theorem ReadValueString_read (w : World f64) (name : Database.Text) (out : Database.BasicString) :
    (Database.ReadValueString w.sql w.db name out).map Prod.snd =
      (ReadValueString w name).map fun o => o.cells.read fun i => out.buffer.getD i 0 := by
  unfold Database.ReadValueString ReadValueString
  cases Database.fetch w.sql w.db name.c_str with
  | none => rfl
  | some fetched =>
    obtain ⟨d, value⟩ := fetched
    cases value with
    | none => exact congrArg some (Block.read_ofList _).symm
    | some value =>
      simp only [Option.bind_eq_bind, Option.bind_some]
      rw [copyString_read out.size]
      cases store out.buffer 0 (value ++ [0]) <;> rfl

theorem cStr_length_le (name : List UInt8) : (cStr name).length ≤ name.length :=
  (List.takeWhile_prefix _).length_le

/-- The first send of an answer. -/
theorem username_read (accounts : Accounts) (r iv name password : List UInt8) (stack : Stack) :
    (accounts.answer r iv name password stack).head? = (username name).map
      (Block.read fun i => if 32 ≤ name.length then stack.garbage.getD i 0
        else stack.user.getD i 0) := by
  unfold Accounts.answer username
  by_cases long : 32 ≤ name.length
  · simp only [if_pos long, List.head?_cons, Option.map_some]
    rw [Block.read_unwritten_getD stack.garbage_length]
  · simp only [if_neg long, List.head?_cons]
    have before : (Object.unwritten 32).cells.read (fun i => stack.user.getD i 0) = stack.user :=
      Block.read_unwritten_getD stack.user_length 0
    have shorter := cStr_length_le name
    rw [Option.map_map]
    refine Eq.trans ?_ (Object.copy_read (fun i => stack.user.getD i 0) _ _).symm
    rw [before, Block.read_ofList, store, if_pos ⟨le_refl _, by
      rw [List.length_append, List.length_singleton, stack.user_length]; omega⟩]
    simp [Stack.strcpy, blit]

/-- Without an encoder some functions are missing, and there is no other. -/
theorem functions_sublist :
    (functions encoder : List (Function f64)).Sublist (functions true) := by
  cases encoder
  · refine List.Sublist.append_left ?_ _
    exact List.Sublist.append_left (List.nil_sublist _) _
  · exact List.Sublist.refl _

theorem functions_nodup :
    ((functions encoder : List (Function f64)).map fun f => f.func.toList).Nodup := by
  have names : (functions true : List (Function f64)).map Function.func =
      (functions true : List (Function Unit)).map Function.func := rfl
  have distinct : ((functions true : List (Function f64)).map Function.func).Nodup := by
    rw [names]
    decide +kernel
  have texts := distinct.map (f := String.toList) fun _ _ same => String.toList_inj.mp same
  rw [List.map_map] at texts
  exact (functions_sublist.map _).nodup texts

/-- A case of the generated switch is that of a registered function. -/
theorem function_of_case {run : Run (headers f64 encoder)} {n : Nat} {c : ExecuteCase}
    (found : switchOn (DCSGen run).defines (DCSGen run).switch n = some c) :
    ∃ f : Function f64, f ∈ functions encoder ∧ c = f.declaration.executeCase := by
  obtain ⟨⟨label, body⟩, first, rfl⟩ := Option.map_eq_some_iff.mp found
  obtain ⟨d, registered, same⟩ := List.mem_map.mp (List.mem_of_find?_eq_some first)
  cases same
  obtain ⟨file, walked, declared⟩ := List.mem_flatMap.mp registered
  obtain ⟨fs, header, rfl⟩ := List.mem_map.mp (run.walk.mem_iff.mp walked)
  obtain ⟨f, member, rfl⟩ := List.mem_map.mp declared
  refine ⟨f, ?_, rfl⟩
  simp only [functions, List.mem_append]
  simp only [List.mem_cons, List.not_mem_nil, or_false] at header
  rcases header with rfl | rfl | rfl
  · exact .inl (.inl member)
  · exact .inl (.inr member)
  · exact .inr member

/-- A function is found by its name. -/
theorem find_function {f : Function f64} (registered : f ∈ functions encoder) :
    (functions encoder).find? (fun g => g.func.toList = f.func.toList) = some f :=
  find?_of_distinct functions_nodup registered

theorem layout_type_spelling (t : CType) : layout.type t.spelling.toList = t := by
  have spellings : (CType.all.map CType.spelling).Nodup := by decide
  have texts := spellings.map (f := String.toList) fun _ _ same => String.toList_inj.mp same
  rw [List.map_map] at texts
  have every : t ∈ CType.all := by cases t <;> decide
  have found : CType.all.find? (fun u => u.spelling.toList = t.spelling.toList) = some t :=
    find?_of_distinct texts every
  exact (congrArg (Option.getD · .u8) found).trans (Option.getD_some ..)

/-- What a case copies is an object of the declared type. -/
theorem perform_length {run : Run (headers f64 encoder)} {w : World f64} {n : Nat} {c : ExecuteCase}
    {values : List (Any layout)} {value : Block UInt8}
    (found : switchOn (DCSGen run).defines (DCSGen run).switch n = some c)
    (returns : c.returnType ≠ []) (ran : perform encoder w c.func values = some value) :
    value.length = layout.sizeof (layout.type c.returnType) := by
  obtain ⟨f, registered, rfl⟩ := function_of_case found
  have named : f.declaration.executeCase.func = f.func.toList := rfl
  rw [named, perform, find_function registered] at ran
  obtain ⟨object, -, rfl⟩ := Option.map_eq_some_iff.mp (by simpa [Option.map_eq_bind] using ran)
  have declared : f.declaration.executeCase.returnType =
    ((f.returnType.map CType.spelling).getD "").toList := rfl
  rw [object.length_eq]
  rw [declared] at returns ⊢
  cases type : f.returnType with
  | none =>
    rw [type] at returns
    exact absurd rfl returns
  | some t => exact congrArg CType.sizeof (layout_type_spelling t).symm

theorem request_case {run : Run (headers f64 encoder)} {mem : Uninit} {payload : List UInt8}
    {outcome : Outcome layout} {c : ExecuteCase} {values : List (Any layout)}
    (asked : request layout (DCSGen run) mem payload = some outcome)
    (call : outcome.call = some (c, values)) :
    ∃ n, switchOn (DCSGen run).defines (DCSGen run).switch n = some c := by
  unfold request at asked
  obtain ⟨code, -, asked⟩ := Option.bind_eq_some_iff.mp asked
  obtain ⟨⟨args, logged⟩, -, asked⟩ := Option.bind_eq_some_iff.mp asked
  refine ⟨(UInt16.ofNat (leNat code)).toNat, ?_⟩
  cases found : switchOn (DCSGen run).defines (DCSGen run).switch
      (UInt16.ofNat (leNat code)).toNat with
  | none =>
    simp only [found, Option.some.injEq] at asked
    rw [← asked] at call
    cases call
  | some c' =>
    simp only [found, Option.map_eq_some_iff] at asked
    obtain ⟨_, -, rfl⟩ := asked
    cases call
    rfl

/-- What `Execute` makes of a request: no call, a call without a result, or one with a result. -/
inductive Executed (run : Run (headers f64 encoder)) (w : World f64) (args : Uninit)
    (payload : List UInt8) : Ret → Prop
  | nothing {outcome : Outcome layout} :
      request layout (DCSGen run) args payload = some outcome → outcome.call = none →
      Executed run w args payload ⟨0, .unwritten 1024⟩
  | void {outcome : Outcome layout} {c : ExecuteCase} {values : List (Any layout)} :
      request layout (DCSGen run) args payload = some outcome → outcome.call = some (c, values) →
      c.returnType = [] → Executed run w args payload ⟨0, .unwritten 1024⟩
  | value {outcome : Outcome layout} {c : ExecuteCase} {values : List (Any layout)}
      {value : Block UInt8} {ptr : Object UInt8 1024} {code : Nat} :
      request layout (DCSGen run) args payload = some outcome → outcome.call = some (c, values) →
      c.returnType ≠ [] → perform encoder w c.func values = some value →
      value.length = layout.sizeof (layout.type c.returnType) →
      (Object.unwritten 1024).copy value = some ptr →
      resolve (DCSGen run).rtypeDefines c.code = some code →
      Executed run w args payload ⟨UInt8.ofNat code, ptr⟩

theorem executed_of_Execute {run : Run (headers f64 encoder)} {w : World f64} {args : Uninit}
    {payload : List UInt8} {ret : Ret} (ran : Execute run w args payload = some ret) :
    Executed run w args payload ret := by
  obtain ⟨outcome, asked, ran⟩ := Option.bind_eq_some_iff.mp ran
  cases call : outcome.call with
  | none =>
    simp only [call] at ran
    cases ran
    exact .nothing asked call
  | some found =>
    obtain ⟨c, values⟩ := found
    simp only [call] at ran
    obtain ⟨value, performed, ran⟩ := Option.bind_eq_some_iff.mp ran
    split at ran
    · rename_i nothing
      cases ran
      exact .void asked call nothing
    · rename_i returns
      obtain ⟨ptr, copied, ran⟩ := Option.bind_eq_some_iff.mp ran
      obtain ⟨code, numbered, ran⟩ := Option.bind_eq_some_iff.mp ran
      cases ran
      obtain ⟨n, labelled⟩ := request_case asked call
      exact .value asked call returns performed (perform_length labelled returns performed) copied
        numbered

/-- `Execute` where the memory before is the same everywhere: `impl` stands for the functions, with
their objects read under that memory. -/
theorem Execute_read {run : Run (headers f64 encoder)} {w : World f64} {mem : Uninit}
    {payload : List UInt8} {ret : Ret} {impl : Text → List (Any layout) → Any layout}
    (agrees : ∀ func values value, perform encoder w func values = some value → value ≠ [] →
      (impl func values).bytes = value.read mem.heap)
    (ran : Execute run w mem payload = some ret) :
    (GetParamsFromData layout (DCSGen run) payload payload.length).bind
      (Marshalling.Execute layout (DCSGen run) impl mem) = some (ret.read mem.heap) := by
  have before : (Object.unwritten 1024).cells.read mem.heap = (List.range 1024).map mem.heap :=
    Block.read_unwritten
  have void : SVReturn.ofFields 0 ((List.range 1024).map mem.heap) =
      some (Ret.read mem.heap ⟨0, .unwritten 1024⟩) := by
    rw [← Block.read_unwritten]
    exact dif_pos (by rw [Block.length_read, Block.length_unwritten])
  rw [Execute_GetParamsFromData]
  cases executed_of_Execute ran with
  | nothing asked call =>
    rw [asked, Option.bind_some, call]
    exact void
  | void asked call nothing =>
    rw [asked, Option.bind_some, call]
    exact (if_pos nothing).trans void
  | @value outcome c values value ptr code asked call returns performed size copied numbered =>
    rw [asked, Option.bind_some, call]
    refine (if_neg returns).trans ?_
    have full : value ≠ [] := by
      rintro rfl
      exact absurd size (layout.sizeof_pos _).ne
    have written := Object.copy_read mem.heap (.unwritten 1024) value
    rw [copied, Option.map_some, before] at written
    rw [agrees _ _ _ performed full, ← written, Option.bind_eq_bind, Option.bind_some, numbered,
      Option.bind_eq_bind, Option.bind_some]
    exact dif_pos (by rw [Block.length_read, ptr.length_eq])

/-! ## What depends on the memory -/

/-- No object that a registered function returns fills `ret.ptr`. -/
theorem Execute_unwritten {run : Run (headers f64 encoder)} {w : World f64} {args : Uninit}
    {payload : List UInt8} {ret : Ret} {i : Nat} (behind : 512 ≤ i) (inside : i < 1024)
    (ran : Execute run w args payload = some ret) : ret.ptr.cells[i]? = some none := by
  have void : (Object.unwritten (α := UInt8) 1024).cells[i]? = some none := by
    change (List.replicate 1024 none)[i]? = some none
    rw [List.getElem?_replicate, if_pos inside]
  cases executed_of_Execute ran with
  | nothing asked call => exact void
  | void asked call nothing => exact void
  | value asked call returns performed size copied numbered =>
    have short := size.trans_le (CType.sizeof_le _)
    rw [Object.cells_of_copy copied]
    exact Block.getElem?_blit_unwritten (short.trans behind) inside

/-- The username is sent with nothing else when it fills its array, up to the terminating zero. -/
def Sent.Filled : Sent → Prop
  | response .. => False
  | username name => name.length = 31 ∧ 0 ∉ name

theorem nontrivial_byte : Nontrivial UInt8 := ⟨0, 1, by decide⟩

/-- The payload follows four bytes of size, the opcode and the id. -/
theorem frame_payload (op : UInt8) (id : UInt64) (bytes : List UInt8) :
    (frame ⟨op, id, some bytes⟩).drop 13 = bytes := by
  unfold frame body
  rw [← List.append_assoc]
  apply List.drop_left'
  rw [List.length_append, List.length_cons, leBytes_length, leBytes_length]

theorem response_differs {run : Run (headers f64 encoder)} {w : World f64} {mem : Memory}
    {sync : Bool} {id : UInt64} {payload bytes : List UInt8}
    (sent : (Sent.response sync id payload).bytes run w mem = some bytes) :
    ∃ mem', mem'.args = mem.args ∧ ∃ other,
      (Sent.response sync id payload).bytes run w mem' = some other ∧ other ≠ bytes := by
  have := nontrivial_byte
  obtain ⟨x, different⟩ := exists_ne (mem.ret 1023)
  refine ⟨{ mem with ret := Function.update mem.ret 1023 x }, rfl, ?_⟩
  obtain ⟨ret, ran, sent⟩ := Option.bind_eq_some_iff.mp sent
  rw [reply_eq, Option.map_some] at sent
  refine ⟨frame ⟨(responseCode sync).code, id, some (ret.read (Function.update mem.ret 1023 x)).bytes⟩, ?_, ?_⟩
  · rw [Sent.bytes, ran, Option.bind_eq_bind, Option.bind_some, reply_eq, Option.map_some]
  · intro same
    rw [← Option.some.inj sent] at same
    have payloads := congrArg (List.drop 13) same
    rw [frame_payload, frame_payload] at payloads
    exact Block.read_update_ne (Execute_unwritten (by decide) (by decide) ran) different
      (List.cons.inj payloads).2

/-- The array is filled by a name of 31 bytes. -/
theorem username_cells {name : List UInt8} {block : Block UInt8}
    (copied : username name = some block) : none ∉ block ↔ name.length = 31 ∧ 0 ∉ name := by
  unfold username at copied
  split at copied
  · cases copied
    constructor
    · intro set
      exact absurd (List.mem_replicate.mpr ⟨by decide, rfl⟩) set
    · intro filled
      omega
  · rename_i short
    obtain ⟨object, into, rfl⟩ := Option.map_eq_some_iff.mp copied
    have ends : 32 ≤ (Block.ofList (cStr name ++ [0])).length ↔ 31 ≤ (cStr name).length := by
      rw [Block.length_ofList, List.length_append, List.length_singleton]
      omega
    rw [Object.cells_of_copy into]
    refine Block.none_not_mem_blit_unwritten.trans ?_
    rw [ends, and_iff_left (Block.none_not_mem_ofList _)]
    constructor
    · intro long
      have within := cStr_length_le name
      have front : cStr name <+: name := List.takeWhile_prefix _
      have whole : cStr name = name := front.eq_of_length (by omega)
      refine ⟨by omega, fun zero => ?_⟩
      rw [← whole] at zero
      simpa using List.mem_takeWhile_imp zero
    · rintro ⟨length, nul_free⟩
      have whole : cStr name = name := CString.cStr_bytes ⟨name, nul_free⟩
      rw [whole, length]

/-- What is sent is the same over every memory only for a username that fills its array; no reply is. -/
theorem sent_same_iff (run : Run (headers f64 encoder)) (w : World f64) (x : Sent)
    (sent : ∃ mem, x.bytes run w mem ≠ none) :
    (∀ mem mem', x.bytes run w mem = x.bytes run w mem') ↔ x.Filled := by
  obtain ⟨mem, some_bytes⟩ := sent
  obtain ⟨bytes, sent⟩ := Option.ne_none_iff_exists'.mp some_bytes
  cases x with
  | response sync id payload =>
    constructor
    · intro same
      obtain ⟨mem', -, other, ran, different⟩ := response_differs sent
      rw [same mem' mem, sent] at ran
      exact different (Option.some.inj ran).symm
    · exact False.elim
  | username name =>
    have := nontrivial_byte
    obtain ⟨block, copied, -⟩ := Option.map_eq_some_iff.mp sent
    have read : ∀ mem : Memory,
        (Sent.username name).bytes run w mem = some (block.read mem.stack) := by
      intro mem
      rw [Sent.bytes, copied, Option.map_some]
    rw [Sent.Filled, ← username_cells copied, ← Block.read_same_iff mem.stack block]
    simp only [read, Option.some.injEq]
    constructor
    · intro same stack
      exact same { mem with stack } mem
    · intro same first second
      exact (same first.stack).trans (same second.stack).symm

/-- A run that lists the headers in their order. -/
def inOrder (headers : List Header) : Run headers where
  files := headers
  walk := .refl _
  returnSet := ((headers.flatMap Header.declarations).map Declaration.returnType).dedup
  returnSet_nodup := List.nodup_dedup _
  mem_returnSet t := by simp [eq_comm]
  argSet := ((headers.flatMap Header.declarations).flatMap Declaration.argsName).dedup
  argSet_nodup := List.nodup_dedup _
  mem_argSet t := by simp

/-- A server whose devices have not answered yet. -/
def idle : World (Fin 10) where
  sql := .byText
  num := Database.digits
  bits x := UInt64.ofNat x
  db := Database.Open
  schedule _ _ := []
  sysDevNames := none
  MCA_NumChannels := 2048
  hardware_concurrency := 8
  waiting_for_ref := true
  encoders := []
  temperatures := []

def allZeros : Memory := ⟨.zeros, fun _ => 0, .zeros, fun _ => 0⟩

def allOnes : Memory := ⟨⟨1, 1, fun _ => 1⟩, fun _ => 1, .zeros, fun _ => 1⟩

theorem username_of_31 :
    (Sent.username (List.replicate 31 97)).bytes (inOrder (headers _ true)) idle allZeros =
      (Sent.username (List.replicate 31 97)).bytes (inOrder (headers _ true)) idle allOnes :=
  (sent_same_iff _ _ (.username (List.replicate 31 97)) ⟨allZeros, by decide +kernel⟩).mpr
    ⟨List.length_replicate, by decide⟩ allZeros allOnes

/-- The call of `InvalidateCache`, whose code is 1. -/
theorem void_reply_differs :
    ¬ ∀ x mem mem', Sent.bytes (inOrder (headers _ true)) idle mem x =
      Sent.bytes (inOrder (headers _ true)) idle mem' x := by
  intro same
  have answered : ((Sent.response true 0 [1, 0]).bytes (inOrder (headers _ true)) idle
      allZeros).isSome = true := by
    decide +kernel
  obtain ⟨bytes, sent⟩ := Option.isSome_iff_exists.mp answered
  obtain ⟨mem', -, other, ran, different⟩ := response_differs sent
  rw [same _ mem' allZeros, sent] at ran
  exact different (Option.some.inj ran).symm

end DCScan.SentBytes
