import Athena.Common.Act
import Athena.Common.Calendar
import Athena.Common.System
import Mathlib.Logic.Function.Basic
/-!
# Tasks — model

`assignment.lua`, `assignmenthandler.lua` and the observers of `achievement.lua`.
A player has daily, urgent and plot tasks; the objectives of a task count the
events of achievements, and the achievement service knows which tasks to tell
(`observerlist`). A task whose objectives are met is rewarded at once, or after
its dialogue, when the client sends `talkend`.

The three tables and the three configurations of tasks are read as one, by the
type of a task. What a service was told to give is written down (`awards`): the
awards of daily tasks since their reset, the others since ever.
-/

namespace Athena

namespace Assignment

abbrev Id := ℤ

/-- `assignmentdefine.tasktype`. -/
inductive TaskType
  | day
  | urgent
  | plot
  deriving DecidableEq

/-- The number a client sends. -/
def TaskType.ofNumber : ℤ → Option TaskType
  | 1 => some .day
  | 2 => some .urgent
  | 3 => some .plot
  | _ => none

/-- `assignmentdefine.indextype`. -/
inductive IndexType
  | numing
  | numover
  | finish
  deriving DecidableEq

/-! ## The configuration -/

/-- A row of `task_object`. -/
structure TaskObject where
  Achevement_ID : Id
  Contain_ID : List Id
  Task_Count : ℤ
  If_Bigger : ℤ

/-- A row of `date_task`, `urgent_task`, `task` or `take_task`. No reward is an
empty one. -/
structure TaskRow where
  If_Display : ℤ
  Talk_ID : Option Id
  Next_Task : Option Id
  Task_Object : List Id
  Task_Type : ℤ
  Task_Reward : List ℤ
  Start_Time : ℤ
  End_Time : ℤ

structure Config where
  task_object : Id → Option TaskObject
  date_task : List (Id × TaskRow)
  urgent_task : List (Id × TaskRow)
  task : List (Id × TaskRow)
  /-- The plot tasks a new player has. -/
  take_task : List (Id × TaskRow)

/-- The row of a task, by its `cfgid`. -/
def Config.row (cfg : Config) : TaskType → Id → Option TaskRow
  | .day, cfgid => cfg.date_task.lookup cfgid
  | .urgent, cfgid => cfg.urgent_task.lookup cfgid
  | .plot, cfgid => cfg.task.lookup cfgid

/-- A field of a row, as `pairs` finds it. -/
inductive Field
  | number (n : ℤ)
  | text
  | list (l : List ℤ)

/-- The fields of a row of `task`. -/
def TaskRow.fields (row : TaskRow) : List Field :=
  [.text, .number row.If_Display, .text, .list row.Task_Object, .number row.Task_Type] ++
    (if row.Task_Reward = [] then [] else [.list row.Task_Reward]) ++
    (row.Talk_ID.toList ++ row.Next_Task.toList).map .number

/-! ## The records -/

structure Progress where
  achid : Id
  objectid : Id
  number : ℤ
  deriving DecidableEq

/-- A row of `daytaskdc`, `urgenttaskdc` or `plottaskdc`; only urgent tasks have
times. -/
structure Task where
  cfgid : Id
  type : IndexType
  progress : List Progress
  starttime : ℤ
  endtime : ℤ
  deriving DecidableEq

/-- A task by its type and id: `{taskid = T, tasktype = T}`. -/
structure Ref where
  taskid : Id
  tasktype : TaskType
  deriving DecidableEq

/-- An entry of `needtalk`. -/
structure NeedTalk where
  task : Ref
  cfgid : Id
  deriving DecidableEq

/-- A row of `usertaskdc`. -/
structure UserTask where
  daytask : List Id
  urgenttask : List Id
  plottask : List Id
  tasking : Option Id
  needtalk : Option (List NeedTalk)
  deriving DecidableEq

/-- The tasks of a player of a type. -/
def UserTask.ofType (u : UserTask) : TaskType → List Id
  | .day => u.daytask
  | .urgent => u.urgenttask
  | .plot => u.plottask

/-- All of them, in the order they are registered in. -/
def UserTask.refs (u : UserTask) : List Ref :=
  u.daytask.map (⟨·, .day⟩) ++ u.urgenttask.map (⟨·, .urgent⟩) ++ u.plottask.map (⟨·, .plot⟩)

/-- What `get_award` gives out: the reward of a task, with its progress then, and
whether its dialogue has ended. -/
structure Award where
  task : Ref
  cfgid : Id
  progress : List Progress
  talked : Bool
  reward : List ℤ
  deriving DecidableEq

/-- What the services and the tables hold. -/
structure State where
  usertask : Id → Option UserTask
  tasks : Ref → Option Task
  nextid : TaskType → Id
  /-- `observerlist[uid][achid]`. -/
  observerlist : Id → Id → List Ref
  awards : List Award

inductive Fault
  | index
  | length
  | decode
  | pairs
  | concat

namespace State

/-- `setvalue` of `type` and `progress`, which does nothing without a row. -/
def put (s : State) (e : Ref) (type : IndexType) (progress : List Progress) : State :=
  { s with
    tasks := Function.update s.tasks e
      ((s.tasks e).map fun t => { t with type := type, progress := progress }) }

/-- `add`, which does nothing with a row of the id. -/
def add (s : State) (e : Ref) (task : Task) : State :=
  { s with tasks := Function.update s.tasks e (some ((s.tasks e).getD task)) }

/-- `delete`. -/
def delete (s : State) (e : Ref) : State :=
  { s with tasks := Function.update s.tasks e none }

/-- `setvalue` of a field of a player, which does nothing without a row. -/
def setuser (s : State) (uid : Id) (f : UserTask → UserTask) : State :=
  { s with usertask := Function.update s.usertask uid ((s.usertask uid).map f) }

/-- The observers of a player and an achievement. -/
def setobservers (s : State) (uid achid : Id) (l : List Ref) : State :=
  { s with
    observerlist :=
      Function.update s.observerlist uid (Function.update (s.observerlist uid) achid l) }

end State

/-- **A call of a service.** -/
abbrev Call := Act State Fault

/-! ## The observers -/

/-- **`response.addobserver`.** -/
def addobserver (uid achid : Id) (e : Ref) : Call Unit :=
  Act.modify fun s => s.setobservers uid achid (s.observerlist uid achid ++ [e])

/-- **`response.remobserver`**: the first entry of the task goes. -/
def remobserver (uid achid : Id) (e : Ref) : Call Unit :=
  Act.modify fun s => s.setobservers uid achid ((s.observerlist uid achid).erase e)

/-- The loop of `add_observer` over the tasks of a player. -/
def observe (uid : Id) (e : Ref) : Call Unit := do
  let s ← Act.get
  match s.tasks e with
  | none => Act.raise .decode
  | some task => Act.each task.progress fun v => addobserver uid v.achid e

/-- **`add_observer`.** -/
def add_observer (uid : Id) : Call Unit := do
  let s ← Act.get
  match s.usertask uid with
  | none => pure ()
  | some usertask => Act.each usertask.refs (observe uid)

/-! ## New tasks -/

/-- `get_nextid`. -/
def get_nextid (ty : TaskType) : Call Id := do
  let s ← Act.get
  Act.modify fun s => { s with nextid := Function.update s.nextid ty (s.nextid ty + 1) }
  pure (s.nextid ty)

/-- The progress of a new task. -/
def progressOf (cfg : Config) (Task_Object : List Id) : Except Fault (List Progress) :=
  Task_Object.mapM fun objectid => match cfg.task_object objectid with
    | none => .error .index
    | some object => .ok ⟨object.Achevement_ID, objectid, 0⟩

/-- A loop of `init_task`: the ids of the tasks it makes, with their rows. -/
def init_rows (cfg : Config) (ty : TaskType) (zerotime : ℤ) :
    List (Id × TaskRow) → Call (List (Id × TaskRow))
  | [] => pure []
  | (key, value) :: data =>
    if value.If_Display = 1 then do
      let nextid ← get_nextid ty
      let progress ← Act.lift (progressOf cfg value.Task_Object)
      Act.modify fun s => s.add ⟨nextid, ty⟩
        ⟨key, .numing, progress, zerotime + value.Start_Time, zerotime + value.End_Time⟩
      let rest ← init_rows cfg ty zerotime data
      pure ((nextid, value) :: rest)
    else init_rows cfg ty zerotime data

/-- The last main task: without one `tasking` stays a table, and the row cannot
be written. -/
def mainTask (tasks : List (Id × TaskRow)) : Except Fault Id :=
  match (tasks.filter fun t => t.2.Task_Type = 1).getLast? with
  | none => .error .concat
  | some t => .ok t.1

/-- **`init_task`.** -/
def init_task (cfg : Config) (uid zerotime : Id) : Call Unit := do
  let plottask ← init_rows cfg .plot zerotime cfg.take_task
  let urgenttask ← init_rows cfg .urgent zerotime cfg.urgent_task
  let daytask ← init_rows cfg .day zerotime cfg.date_task
  let tasking ← Act.lift (mainTask plottask)
  Act.modify fun s => { s with
    usertask := Function.update s.usertask uid (some ⟨daytask.map Prod.fst,
      urgenttask.map Prod.fst, plottask.map Prod.fst, some tasking, none⟩) }

/-- **`response.online`** of the assignment service. -/
def online (cfg : Config) (uid zerotime : Id) : Call Unit := do
  let s ← Act.get
  match s.usertask uid with
  | none => init_task cfg uid zerotime
  | some _ => pure ()
  add_observer uid

/-! ## The awards -/

/-- **`get_award`**, which gives nothing without a reward. -/
def get_award (award : Award) (s : State) : State :=
  if award.reward = [] then s else { s with awards := s.awards ++ [award] }

/-- `value.Task_Object` of a field: a number cannot be indexed, a text and a list
have no such field. -/
def Field.Task_Object : Field → Except Fault (Option (List Id))
  | .number _ => .error .index
  | .text | .list _ => .ok none

/-- The loop of `addplot_task`, over the fields of one row. -/
def addfield (cfg : Config) (uid cfgid id : Id) (value : Field) : Call Unit := do
  let Task_Object ← Act.lift value.Task_Object
  match Task_Object with
  | none => Act.raise .length
  | some Task_Object => do
    let progress ← Act.lift (progressOf cfg Task_Object)
    Act.each progress fun v => addobserver uid v.achid ⟨id, .plot⟩
    Act.modify fun s => s.add ⟨id, .plot⟩ ⟨cfgid, .numing, progress, 0, 0⟩

/-- **`addplot_task`**: it asks for one row of `task`, and reads it as the table. -/
def addplot_task (cfg : Config) (uid cfgid id : Id) : Call Unit :=
  match cfg.row .plot cfgid with
  | none => Act.raise .pairs
  | some data => Act.each data.fields (addfield cfg uid cfgid id)

/-- The objectives of a task that was received are observed no more. -/
def remobservers (cfg : Config) (uid : Id) (e : Ref) (Task_Object : List Id) : Call Unit :=
  Act.each Task_Object fun objectid => match cfg.task_object objectid with
    | none => Act.raise .index
    | some object => remobserver uid object.Achevement_ID e

/-- `usertask_dc.req.setvalue(uid, "tasking", tasking)`, where nil is not written
but looked through. -/
def settasking_value (uid : Id) : Option Id → Call Unit
  | none => Act.raise .pairs
  | some id => Act.modify fun s => s.setuser uid fun u => { u with tasking := some id }

/-- **`recieveplot`**, with the progress the task has then and whether its dialogue
has ended. Without a record all of `task` is read as its row, and has no
objectives. -/
def recieveplot (cfg : Config) (uid taskid : Id) (progress : List Progress) (talked : Bool) :
    Call Unit := do
  let s ← Act.get
  match s.tasks ⟨taskid, .plot⟩ with
  | none => Act.raise .length
  | some plottask =>
    match cfg.row .plot plottask.cfgid with
    | none => Act.raise .index
    | some taskinfo => do
      Act.modify (get_award ⟨⟨taskid, .plot⟩, plottask.cfgid, progress, talked, taskinfo.Task_Reward⟩)
      remobservers cfg uid ⟨taskid, .plot⟩ taskinfo.Task_Object
      match taskinfo.Next_Task with
      | none => do
        Act.modify fun s => s.delete ⟨taskid, .plot⟩
        settasking_value uid none
        Act.modify fun s => s.setuser uid fun u => { u with plottask := u.plottask.erase taskid }
      | some next => do
        let nextid ← get_nextid .plot
        addplot_task cfg uid next nextid
        Act.modify fun s => s.delete ⟨taskid, .plot⟩
        settasking_value uid (some nextid)
        Act.modify fun s => s.setuser uid fun u =>
          { u with plottask := u.plottask.erase taskid ++ [nextid] }

/-! ## The events -/

/-- What an event says. -/
structure Advance where
  achid : Id
  number : ℤ
  reset : Option Bool
  type : Bool
  sponsorid : Option Id
  curtime : ℤ
  /-- `os.time()`. -/
  now : ℤ

/-- **`countnumber`.** -/
def countnumber (a : Advance) (oldnumber : ℤ) : ℤ :=
  match a.reset with
  | some true => a.number
  | none => oldnumber + a.number
  | some false =>
    if a.type then if a.number ≤ oldnumber then oldnumber else a.number
    else if oldnumber ≤ a.number then oldnumber else a.number

/-- **`is_finish`.** -/
def is_finish (cfg : Config) : List Progress → Except Fault Bool
  | [] => .ok true
  | value :: progress =>
    match cfg.task_object value.objectid with
    | none => .error .index
    | some object =>
      if object.If_Bigger = 0 ∧ object.Task_Count < value.number then .ok false
      else if value.number < object.Task_Count then .ok false
      else is_finish cfg progress

/-- `table.find(Contain_ID, sponsorid)`, which finds nil everywhere. -/
def concerns (object : TaskObject) (sponsorid : Option Id) : Bool :=
  object.Contain_ID.isEmpty || match sponsorid with
    | none => true
    | some id => decide (id ∈ object.Contain_ID)

/-- `value.number = number`, of the first objective with the achievement. -/
def setnumber (achid : Id) (number : ℤ) : List Progress → List Progress
  | [] => []
  | value :: progress =>
    if value.achid = achid then { value with number := number } :: progress
    else value :: setnumber achid number progress

/-- The loop over the progress: what it comes to, and whether the task is finished
by it. -/
def count (cfg : Config) (a : Advance) (type : IndexType) (progress : List Progress) :
    Except Fault (List Progress × Bool) :=
  match progress.find? fun v => v.achid = a.achid with
  | none => .ok (progress, false)
  | some value =>
    if type ≠ .numing then .ok (progress, false)
    else match cfg.task_object value.objectid with
      | none => .error .index
      | some object =>
        if concerns object a.sponsorid then do
          let progress := setnumber a.achid (countnumber a value.number) progress
          let isfinish ← is_finish cfg progress
          pure (progress, isfinish)
        else .ok (progress, false)

/-- What an event comes to, for a task. -/
inductive Outcome
  | raised (fault : Fault)
  | passed
  | counted (progress : List Progress)
  /-- The objectives are met, and there is no dialogue. -/
  | finished (progress : List Progress) (row : TaskRow)
  /-- The objectives are met, and the dialogue is to come. -/
  | numover (progress : List Progress)

/-- The part of `pusheach` that the three types share. -/
def reckon (cfg : Config) (a : Advance) (ty : TaskType) (needtalk : Option (List NeedTalk))
    (task : Task) : Outcome :=
  match count cfg a task.type task.progress with
  | .error fault => .raised fault
  | .ok (progress, false) => .counted progress
  | .ok (progress, true) =>
    match cfg.row ty task.cfgid with
    | none => .raised .index
    | some row =>
      if row.Talk_ID = none then .finished progress row
      -- `json.decode(usertask.needtalk or {})`: only the urgent tasks give a table
      else if ty = .urgent ∧ needtalk = none then .raised .decode
      else .numover progress

/-- `timext.IsSameDay`: the same day of the year, within a day. -/
def IsSameDay (t t' : ℤ) : Bool :=
  decide (t ≠ 0 ∧ t' ≠ 0 ∧ |t' - t| ≤ 86400 ∧
    Calendar.yday (Calendar.dayOf 0 t) = Calendar.yday (Calendar.dayOf 0 t'))

/-- An urgent task on another day than it began: its numbers are cleared and its
times moved. It is `usertask.type` that is set to `numing`. -/
def ofToday (a : Advance) (task : Task) : Task :=
  if IsSameDay task.starttime a.curtime then task
  else
    let days := |task.starttime - a.now| / 86400
    { task with
      progress := task.progress.map fun v => { v with number := 0 }
      starttime := task.starttime + 86400 * days
      endtime := task.endtime + 86400 * days }

/-- The checks of `pusheach`, and what the event comes to. -/
def outcome (cfg : Config) (a : Advance) (e : Ref) (usertask : UserTask) (task : Option Task) :
    Outcome :=
  match e.tasktype with
  | .day =>
    if e.taskid ∈ usertask.daytask then
      match task with
      | none => .raised .decode
      | some task => reckon cfg a .day usertask.needtalk task
    else .passed
  | .urgent =>
    if e.taskid ∈ usertask.urgenttask then
      match task with
      | none => .raised .decode
      | some task =>
        if a.curtime < (ofToday a task).starttime ∨ (ofToday a task).endtime < a.curtime then .passed
        else reckon cfg a .urgent usertask.needtalk (ofToday a task)
    else .passed
  | .plot =>
    if usertask.tasking = some e.taskid then
      match task with
      | none => .raised .decode
      | some task => reckon cfg a .plot usertask.needtalk task
    else .passed

/-- An entry is added to `needtalk`. -/
def addneedtalk (uid : Id) (t : NeedTalk) (s : State) : State :=
  s.setuser uid fun u => { u with needtalk := some (u.needtalk.getD [] ++ [t]) }

/-- What `pusheach` writes. -/
def write (cfg : Config) (uid : Id) (e : Ref) (task : Task) : Outcome → Call Unit
  | .raised fault => Act.raise fault
  | .passed => pure ()
  | .counted progress => Act.modify fun s => s.put e task.type progress
  | .finished progress row =>
    match e.tasktype with
    | .plot => do
      recieveplot cfg uid e.taskid progress false
      Act.modify fun s => s.put e task.type progress
    | _ => do
      Act.modify (get_award ⟨e, task.cfgid, progress, false, row.Task_Reward⟩)
      Act.modify fun s => s.put e .finish progress
  | .numover progress => do
    Act.modify (addneedtalk uid ⟨e, task.cfgid⟩)
    Act.modify fun s => s.put e .numover progress

/-- **`assignmenthander:pusheach`.** -/
def pusheach (cfg : Config) (uid : Id) (a : Advance) (e : Ref) : Call Unit := do
  let s ← Act.get
  match s.usertask uid with
  | none => pure ()
  | some usertask =>
    write cfg uid e ((s.tasks e).getD ⟨0, .numing, [], 0, 0⟩) (outcome cfg a e usertask (s.tasks e))

/-- **`response.updateathletics`** and `response.updatechallenge`, as far as they
notify: `response.pusheach` of the assignment service goes through the observers. -/
def updateathletics (cfg : Config) (uid : Id) (a : Advance) : Call Unit := do
  let s ← Act.get
  Act.each (s.observerlist uid a.achid) (pusheach cfg uid a)

/-! ## The requests -/

inductive Code
  | eEC_success
  | eEC_err_param

/-- **`assignmenthander:talkend`**, which answers no code when it is done. The type
of the record is set to `assignmentdefine.tasktype.finish`, which is nil: nothing
is written. -/
def talkend (cfg : Config) (uid : Id) (id : Option Id) (type : Option ℤ) :
    Call (Option Code) := do
  let s ← Act.get
  match s.usertask uid, id, type with
  | some usertask, some id, some type =>
    match TaskType.ofNumber type with
    | none => pure none
    | some ty =>
      if id ∉ usertask.ofType ty then pure (some .eEC_err_param)
      else match ty with
        | .plot => do
          recieveplot cfg uid id (((s.tasks ⟨id, .plot⟩).map Task.progress).getD []) true
          pure none
        | ty =>
          match s.tasks ⟨id, ty⟩ with
          | none => pure none
          | some task =>
            match cfg.row ty task.cfgid with
            | none => Act.raise .index
            | some row => do
              Act.modify (get_award ⟨⟨id, ty⟩, task.cfgid, task.progress, true, row.Task_Reward⟩)
              pure none
  | _, _, _ => pure (some .eEC_err_param)

/-- **`assignmenthander:settasking`.** -/
def settasking (uid : Id) (id : Option Id) : Call Code := do
  let s ← Act.get
  match s.usertask uid, id with
  | some usertask, some id =>
    if id ∈ usertask.plottask then do
      Act.modify fun s => s.setuser uid fun u => { u with tasking := some id }
      pure .eEC_success
    else pure .eEC_err_param
  | _, _ => pure .eEC_err_param

/-- **`updatesys`**, for the daily tasks. -/
def updatesys : Call Unit :=
  Act.modify fun s => { s with
    tasks := fun e => match e.tasktype with
      | .day => (s.tasks e).map fun t =>
        { t with type := .numing, progress := t.progress.map fun v => { v with number := 0 } }
      | _ => s.tasks e
    awards := s.awards.filter fun a => a.task.tasktype ≠ .day }

/-! ## The server -/

/-- What the services receive. -/
inductive Event
  | login (uid zerotime : Id)
  /-- `response.offline`, which does nothing in either service. -/
  | logout (uid : Id)
  | achieve (uid : Id) (a : Advance)
  | talkend (uid : Id) (id : Option Id) (type : Option ℤ)
  | settasking (uid : Id) (id : Option Id)
  | updatesys

/-- The call an event makes. -/
def handle (cfg : Config) : Event → Call Unit
  | .login uid zerotime => online cfg uid zerotime
  | .logout _ => pure ()
  | .achieve uid a => updateathletics cfg uid a
  | .talkend uid id type => do
    let _ ← talkend cfg uid id type
    pure ()
  | .settasking uid id => do
    let _ ← settasking uid id
    pure ()
  | .updatesys => updatesys

/-- The task a `talkend` is for, when the player has it. -/
def reported (s : State) (uid : Id) (id : Option Id) (type : Option ℤ) : Option Ref :=
  match s.usertask uid, id, type.bind TaskType.ofNumber with
  | some usertask, some id, some ty => if id ∈ usertask.ofType ty then some ⟨id, ty⟩ else none
  | _, _, _ => none

/-- The server, with the players that have logged in since it started and the
tasks a `talkend` has come for, since the reset of the daily ones. -/
structure Server where
  state : State
  loggedin : List Id
  talked : List Ref

/-- One event. -/
def step (cfg : Config) (s : Server) (e : Event) : Server where
  state := (handle cfg e s.state).2
  loggedin := match e with
    | .login uid _ => uid :: s.loggedin
    | _ => s.loggedin
  talked := match e with
    | .talkend uid id type => (reported s.state uid id type).toList ++ s.talked
    | .updatesys => s.talked.filter fun e => e.tasktype ≠ .day
    | _ => s.talked

/-- The tables of a server that starts: the numbers of new tasks are fresh, no
player lists a task twice and no two list the same plot task. -/
structure Stored (s : State) : Prop where
  fresh : ∀ e, (s.tasks e).isSome → e.taskid < s.nextid e.tasktype
  listed : ∀ uid u, s.usertask uid = some u → ∀ e ∈ u.refs, e.taskid < s.nextid e.tasktype
  nodup : ∀ uid u, s.usertask uid = some u → u.refs.Nodup
  own : ∀ uid uid' u u', s.usertask uid = some u → s.usertask uid' = some u' →
    ∀ id ∈ u.plottask, id ∈ u'.plottask → uid = uid'

/-- **The server** from its start on. Awards are written down from then on. -/
def system (cfg : Config) : System Server Event where
  init s := Stored s.state ∧ (∀ uid achid, s.state.observerlist uid achid = []) ∧
    s.state.awards = [] ∧ s.loggedin = [] ∧ s.talked = []
  step s e t := t = step cfg s e

end Assignment

end Athena
