import Mathlib.Data.List.Nodup
import Mathlib.Logic.Relation
import TreeBuild.Child.Manager

/-!
# Calls of a manager that overlap

A call moves from one point at which it waits to the next. It takes a number and waits for its process to
start; it learns whether the process has started, and waits for it to end and for its output to be closed; it
learns that, or that its time has run out, and in the second case kills the process and waits once more until
it is gone. Between two moves of a call other calls may move and new ones may begin, in any number and any
order, and each such interleaving is a run.

What a move changes in the account of the manager is what it changes for its call, so the account is right
at every moment of every run. Two things keep it from telling how every process has ended: a process may have
ended well while the time of its call runs out, because something else still holds its output; and a process
that has been let go cannot be killed, so that its call is given up and counted nowhere.
-/
namespace TreeBuild.Child

/-! ### Calls and their stages -/

namespace Ending

/-- The process could not be started. -/
def isRefusal : Ending → Bool
  | .notStarted _ => true
  | _ => false

/-- The process ended by itself, with the status zero. -/
def isSuccess : Ending → Bool
  | .exited status _ _ => status = 0
  | _ => false

/-- The process ended by itself, with another status. -/
def isFailure : Ending → Bool
  | .exited status _ _ => status ≠ 0
  | _ => false

/-- The process ran out of time. -/
def isExpiry : Ending → Bool
  | .timedOut _ => true
  | _ => false

/-- The status with which the process has ended by itself. -/
def status? : Ending → Option Int
  | .notStarted _ => none
  | .exited status _ _ => some status
  | .timedOut status => status

end Ending

/-- What becomes of a process by itself. -/
inductive Process.Goes : Process → Process → Prop where
  | ends (status : Int) : Goes .running (.ended status)
  | closes (status : Int) : Goes (.ended status) (.closed status)
  | leaves (status : Int) : Goes (.closed status) (.gone status)

/-- The status with which the process has ended, once its output is closed. -/
def Process.settled? : Process → Option Int
  | .closed status | .gone status => some status
  | _ => none

/-- Where a call stands between two of its moves. -/
inductive Stage where
  /-- The call waits for its process to start. -/
  | starting
  /-- The call waits for its process to end and for its output to be closed. -/
  | underway (process : Process)
  /-- The time has run out, and the call waits until the process that it has killed is gone. The process may
  have ended by itself before, with this status. -/
  | overdue (status : Option Int)
  /-- The call has returned: how it ended, and what was told of it. -/
  | returned (ending : Ending) (result : Result)
  /-- The call has been given up, because its process could not be killed. -/
  | raised (fault : Fault)

namespace Stage

/-- Whether the process of the call has started and the call is still going on. -/
def isActive : Stage → Bool
  | .underway _ | .overdue _ => true
  | _ => false

/-- Whether the call has returned. -/
def hasReturned : Stage → Bool
  | .returned _ _ => true
  | _ => false

/-- Whether the call has been given up. -/
def hasRaised : Stage → Bool
  | .raised _ => true
  | _ => false

/-- Whether the call has returned after an ending of this kind. -/
def endedBy (kind : Ending → Bool) : Stage → Bool
  | .returned ending _ => kind ending
  | _ => false

/-- What is told of the call of this number, if it has returned, is about this call and says that it
succeeded exactly if its process ended with the status zero. -/
def IsTold (number : Nat) : Stage → Prop
  | .returned ending result => result.number = number ∧ result.isOk = ending.isSuccess
  | _ => True

end Stage

/-- A call that was asked of a manager. -/
structure Call where
  number : Nat
  stage : Stage

/-- The name that the call was given. -/
def Call.name (call : Call) : String := Result.nameOf call.number

/-- A manager with the calls that were asked of it, from the first to the last. -/
structure Workload where
  manager : Manager := {}
  calls : List Call := []

namespace Workload

/-- How many calls are in a stage of this kind. -/
def count (load : Workload) (kind : Stage → Bool) : Nat :=
  load.calls.countP fun call => kind call.stage

/-- How many calls have returned after an ending of this kind. -/
def ended (load : Workload) (kind : Ending → Bool) : Nat := load.count (Stage.endedBy kind)

/-- Whether every call has returned. -/
def HasReturned (load : Workload) : Prop := ∀ call ∈ load.calls, call.stage.hasReturned

end Workload

/-! ### Moves and runs -/

variable {limit : Option String}

/-- One move of the call of a number: the manager and the stage of the call before it, and both after it.
Only where there is a limit of time can it run out; then the process is killed, if that is possible. -/
inductive Move (limit : Option String) (number : Nat) : Manager → Stage → Manager → Stage → Prop where
  | refuse (manager : Manager) (failure : String) :
      Move limit number manager .starting (manager.refuse number failure).1
        (.returned (.notStarted failure) (manager.refuse number failure).2)
  | start (manager : Manager) :
      Move limit number manager .starting (manager.start number) (.underway .running)
  | proceed (manager : Manager) {process next : Process} (goes : process.Goes next) :
      Move limit number manager (.underway process) manager (.underway next)
  | finish (manager : Manager) {process : Process} (status : Int)
      (settled : process.settled? = some status) (output errors : Text.Bytes) :
      Move limit number manager (.underway process) (manager.finish number status output errors).1
        (.returned (.exited status output errors) (manager.finish number status output errors).2)
  | overrun (manager : Manager) {process : Process} (shown : String) (limited : limit = some shown)
      (killed : process.kill = .ok ()) :
      Move limit number manager (.underway process) manager (.overdue process.status?)
  | lose (manager : Manager) {process : Process} {fault : Fault} (shown : String)
      (limited : limit = some shown) (lost : process.kill = .error fault) :
      Move limit number manager (.underway process) (manager.drop number) (.raised fault)
  | expire (manager : Manager) (status : Option Int) (shown : String) (limited : limit = some shown) :
      Move limit number manager (.overdue status) (manager.expire number shown).1
        (.returned (.timedOut status) (manager.expire number shown).2)

/-- One step of all calls: a new one begins, or one of them moves. -/
inductive Step (limit : Option String) : Workload → Workload → Prop where
  | ask (load : Workload) :
      Step limit load ⟨load.manager.request.1, load.calls ++ [⟨load.manager.request.2, .starting⟩]⟩
  | move {manager next : Manager} (earlier : List Call) {number : Nat} {stage after : Stage}
      (later : List Call) (moved : Move limit number manager stage next after) :
      Step limit ⟨manager, earlier ++ ⟨number, stage⟩ :: later⟩
        ⟨next, earlier ++ ⟨number, after⟩ :: later⟩

/-- Any number of steps. -/
abbrev Run (limit : Option String) : Workload → Workload → Prop := Relation.ReflTransGen (Step limit)

/-- One process goes on, while nothing else happens. -/
theorem Run.proceed {load : Workload} {manager : Manager} (earlier later : List Call) {number : Nat}
    {process next : Process} (run : Run limit load ⟨manager, earlier ++ ⟨number, .underway process⟩ :: later⟩)
    (goes : process.Goes next) :
    Run limit load ⟨manager, earlier ++ ⟨number, .underway next⟩ :: later⟩ :=
  run.tail (.move earlier later (.proceed manager goes))

/-- A whole call with nothing between its moves is a run. -/
theorem Run.of_run (load : Workload) (program shown : String) (ending : Ending)
    (limited : ending.isExpiry → limit = some shown) :
    Run limit load ⟨(load.manager.run program shown ending).1,
      load.calls ++ [⟨load.manager.calls + 1, .returned ending (load.manager.run program shown ending).2.1⟩]⟩ := by
  have asked : Run limit load _ := Relation.ReflTransGen.single (.ask load)
  cases ending with
  | notStarted failure => exact asked.tail (.move load.calls [] (.refuse _ failure))
  | exited status output errors =>
    have started := asked.tail (.move load.calls [] (.start _))
    have closed := Run.proceed load.calls [] (Run.proceed load.calls [] started (.ends status)) (.closes status)
    exact closed.tail (.move load.calls [] (.finish _ status rfl output errors))
  | timedOut status =>
    have started := asked.tail (.move load.calls [] (.start _))
    cases status with
    | none =>
      have overdue := started.tail (.move load.calls [] (.overrun _ shown (limited rfl) rfl))
      exact overdue.tail (.move load.calls [] (.expire _ none shown (limited rfl)))
    | some status =>
      -- the process has ended, but its output stays open until the time runs out
      have ended := Run.proceed load.calls [] started (.ends status)
      have overdue := ended.tail (.move load.calls [] (.overrun _ shown (limited rfl) rfl))
      exact overdue.tail (.move load.calls [] (.expire _ (some status) shown (limited rfl)))

/-! ### What one move changes -/

open Stage Ending

/-- The statistics are right about calls that are counted by the kind of their stage. A call that has been
given up is among those that have started, and nowhere else. -/
structure Statistics.Agrees (statistics : Statistics) (counted : (Stage → Bool) → Nat) : Prop where
  started : statistics.started = counted isActive + counted (endedBy isSuccess) +
    counted (endedBy isFailure) + counted (endedBy isExpiry) + counted hasRaised
  completed : statistics.completed = counted (endedBy isSuccess)
  failed : statistics.failed = counted (endedBy isFailure) + counted (endedBy isRefusal)
  timedOut : statistics.timedOut = counted (endedBy isExpiry)

section

variable {number : Nat} {manager next : Manager} {stage after : Stage}

/-- A move changes the statistics by what it changes in the count of the stages, whatever the other calls
are. -/
theorem Move.agrees (moved : Move limit number manager stage next after) {others : (Stage → Bool) → Nat}
    (agrees : manager.statistics.Agrees fun kind => others kind + (kind stage).toNat) :
    next.statistics.Agrees fun kind => others kind + (kind after).toNat := by
  obtain ⟨started, completed, failed, timedOut⟩ := agrees
  cases moved with
  | refuse failure =>
    constructor <;>
      simp [Manager.refuse, isActive, hasRaised, endedBy, isSuccess, isFailure, isRefusal, isExpiry] at * <;> omega
  | start => constructor <;> simp [Manager.start, isActive, hasRaised, endedBy] at * <;> omega
  | proceed goes => exact ⟨started, completed, failed, timedOut⟩
  | finish status settled output errors =>
    by_cases zero : status = 0 <;> constructor <;>
      simp [Manager.finish, zero, isActive, hasRaised, endedBy, isSuccess, isFailure, isRefusal, isExpiry] at * <;>
      omega
  | overrun shown limited killed => exact ⟨started, completed, failed, timedOut⟩
  | lose shown limited lost =>
    constructor <;> simp [Manager.drop, isActive, hasRaised, endedBy] at * <;> omega
  | expire status shown limited =>
    constructor <;>
      simp [Manager.expire, isActive, hasRaised, endedBy, isSuccess, isFailure, isRefusal, isExpiry] at * <;> omega

/-- A move puts its call among the active ones, takes it away from them or leaves them as they are, whatever
the others are. -/
theorem Move.active (moved : Move limit number manager stage next after) {before behind : List Nat}
    (active : manager.active.Perm (before ++ (if stage.isActive then [number] else []) ++ behind)) :
    next.active.Perm (before ++ (if after.isActive then [number] else []) ++ behind) := by
  have dropped (found : manager.active.Perm (before ++ [number] ++ behind)) :
      (manager.drop number).active.Perm (before ++ [] ++ behind) := by
    have first : manager.active.Perm (number :: (before ++ behind)) := by
      rw [List.append_assoc] at found
      exact found.trans List.perm_middle
    simpa [Manager.drop] using first.erase number
  cases moved with
  | refuse failure => exact active
  | proceed goes => exact active
  | start =>
    have others : manager.active.Perm (before ++ behind) := by simpa [isActive] using active
    have added := (List.perm_append_singleton number manager.active).trans (others.cons number)
    rw [List.append_assoc]
    exact added.trans List.perm_middle.symm
  | finish status settled output errors => exact dropped active
  | overrun shown limited killed => exact active
  | lose shown limited lost => exact dropped active
  | expire status shown limited => exact dropped active

/-- What is told when a call returns fits the call. -/
theorem Move.isTold (moved : Move limit number manager stage next after) : after.IsTold number := by
  cases moved with
  | refuse failure => exact ⟨rfl, rfl⟩
  | start => trivial
  | proceed goes => trivial
  | finish status settled output errors => exact ⟨rfl, rfl⟩
  | overrun shown limited killed => trivial
  | lose shown limited lost => trivial
  | expire status shown limited => exact ⟨rfl, rfl⟩

/-- Only asking for a call gives out a number. -/
theorem Move.calls (moved : Move limit number manager stage next after) : next.calls = manager.calls := by
  cases moved <;> rfl

end

/-! ### What every run keeps -/

/-- The numbers of the calls that are active, from the first to the last. -/
def activeAmong (calls : List Call) : List Nat :=
  (calls.filter (·.stage.isActive)).map (·.number)

/-- The account of a manager is right about its calls. -/
structure Workload.IsAccounted (load : Workload) : Prop where
  numbered : load.calls.map (·.number) = List.range' 1 load.manager.calls
  active : load.manager.active.Perm (activeAmong load.calls)
  agrees : load.manager.statistics.Agrees load.count
  told : ∀ call ∈ load.calls, call.stage.IsTold call.number

/-- The active calls among all are those before a call, the call itself if it is active, and those behind it. -/
theorem activeAmong_cut (earlier later : List Call) (number : Nat) (stage : Stage) :
    activeAmong (earlier ++ ⟨number, stage⟩ :: later) =
      activeAmong earlier ++ (if stage.isActive then [number] else []) ++ activeAmong later := by
  cases active : stage.isActive <;> simp [activeAmong, active]

/-- Calls of any kind are counted among the others, with one more if the call itself is of this kind. -/
theorem count_cut (manager : Manager) (earlier later : List Call) (number : Nat) (stage : Stage) :
    (⟨manager, earlier ++ ⟨number, stage⟩ :: later⟩ : Workload).count = fun kind =>
      (earlier ++ later).countP (kind ·.stage) + (kind stage).toNat := by
  funext kind
  cases counted : kind stage <;> simp [Workload.count, counted, Nat.add_assoc]

/-- One step keeps the account right. -/
theorem Workload.IsAccounted.step {load final : Workload} (accounted : load.IsAccounted) (step : Step limit load final) :
    final.IsAccounted := by
  cases step with
  | ask =>
    obtain ⟨manager, calls⟩ := load
    obtain ⟨numbered, active, agrees, told⟩ := accounted
    refine ⟨?_, ?_, ?_, ?_⟩
    · rw [List.map_append, numbered]
      change _ = List.range' 1 (manager.calls + 1)
      rw [List.range'_1_concat, Nat.add_comm 1]
      rfl
    · rw [activeAmong_cut]
      change manager.active.Perm (activeAmong calls ++ [] ++ [])
      simpa using active
    · rw [count_cut, List.append_nil]
      exact ⟨agrees.started, agrees.completed, agrees.failed, agrees.timedOut⟩
    · simpa [or_imp, forall_and, IsTold] using told
  | @move manager next earlier number stage after later moved =>
    obtain ⟨numbered, active, agrees, told⟩ := accounted
    refine ⟨?_, ?_, ?_, ?_⟩
    · simpa [moved.calls] using numbered
    · rw [activeAmong_cut] at active ⊢
      exact moved.active active
    · rw [count_cut] at agrees ⊢
      exact moved.agrees agrees
    · intro call member
      rcases List.mem_append.mp member with early | late
      · exact told call (List.mem_append_left _ early)
      rcases List.mem_cons.mp late with rfl | late
      · exact moved.isTold
      · exact told call (List.mem_append_right _ (List.mem_cons_of_mem _ late))

/-- The account is right after every run of a new manager. -/
theorem Run.isAccounted {load : Workload} (run : Run limit {} load) : load.IsAccounted := by
  induction run with
  | refl => exact ⟨rfl, .refl _, ⟨rfl, rfl, rfl, rfl⟩, by simp⟩
  | tail _ step inductionHypothesis => exact inductionHypothesis.step step

/-- Calls with different numbers have different names, because the digits of a number tell it. -/
theorem nameOf_injective : Function.Injective Result.nameOf := by
  intro first second same
  have shown : first.repr = second.repr := by simpa [Result.nameOf] using same
  have digits : Nat.toDigits 10 first = Nat.toDigits 10 second := by
    rw [← Nat.toList_repr, ← Nat.toList_repr, shown]
  rw [← @Nat.ofDigitChars_ten_toDigits first, digits, Nat.ofDigitChars_ten_toDigits]

/-- Every ending is of one kind. -/
theorem count_hasReturned (load : Workload) :
    load.count hasReturned = load.ended isSuccess + load.ended isFailure + load.ended isRefusal +
      load.ended isExpiry := by
  obtain ⟨manager, calls⟩ := load
  simp only [Workload.ended, Workload.count]
  induction calls with
  | nil => rfl
  | cons call rest inductionHypothesis =>
    simp only [List.countP_cons, inductionHypothesis]
    rcases call with ⟨number, _ | _ | _ | ⟨ending, result⟩ | _⟩
    case returned =>
      rcases ending with failure | ⟨status, output, errors⟩ | _
      · simp [hasReturned, endedBy, isSuccess, isFailure, isRefusal, isExpiry]; omega
      · by_cases zero : status = 0 <;>
          simp [hasReturned, endedBy, isSuccess, isFailure, isRefusal, isExpiry, zero] <;> omega
      · simp [hasReturned, endedBy, isSuccess, isFailure, isRefusal, isExpiry]; omega
    all_goals simp [hasReturned, endedBy]

/-- Where every call has returned, all of them count as returned and none as active. -/
theorem Workload.HasReturned.count {load : Workload} (returned : load.HasReturned) :
    load.count hasReturned = load.calls.length ∧ load.count isActive = 0 := by
  constructor
  · exact List.countP_eq_length.mpr returned
  · refine List.countP_eq_zero.mpr fun call member => ?_
    have back := returned call member
    cases stage : call.stage <;> simp [stage, hasReturned, isActive] at back ⊢

/-- However the calls of a manager overlap and however they end: as long as no call had to be given up, as many
processes were started as are active, completed, ran out of time or failed by their status; as many calls
failed as had such a process or could not be started; no two calls have the same name; once every call has
returned, none is active and every call is counted once among those that completed, failed or ran out of time;
and what is told of a call carries its name and says that it succeeded if and only if its process ended by
itself with the status zero before the time ran out. -/
theorem run_conserves_calls (limit : Option String) (load : Workload) (run : Run limit {} load) :
    let counted := load.manager.statistics
    (load.count hasRaised = 0 → counted.started = load.manager.active.length + counted.completed +
      counted.timedOut + load.ended isFailure) ∧
    counted.failed = load.ended isFailure + load.ended isRefusal ∧
    (load.calls.map (·.name)).Nodup ∧
    (load.HasReturned → load.manager.active = [] ∧
      counted.completed + counted.failed + counted.timedOut = load.calls.length) ∧
    ∀ call ∈ load.calls, ∀ ending result, call.stage = .returned ending result →
      result.name = call.name ∧
      (result.isOk ↔ ending.status? = some 0 ∧ ending.isExpiry = false) := by
  obtain ⟨numbered, active, ⟨started, completed, failed, timedOut⟩, told⟩ := run.isAccounted
  have activity : load.manager.active.length = load.count isActive := by
    rw [active.length_eq, activeAmong, List.length_map, Workload.count, List.countP_eq_length_filter]
  refine ⟨fun kept => ?_, failed, ?_, ?_, ?_⟩
  · rw [started, activity, completed, timedOut, kept, Workload.ended]
    omega
  · have names : load.calls.map (·.name) = (load.calls.map (·.number)).map Result.nameOf := by
      simp [Call.name]
    rw [names, numbered]
    exact (List.nodup_range' _).map nameOf_injective
  · intro returned
    obtain ⟨all, none⟩ := returned.count
    have kinds := count_hasReturned load
    refine ⟨List.eq_nil_of_length_eq_zero (activity.trans none), ?_⟩
    rw [completed, failed, timedOut, ← all, kinds]
    simp only [Workload.ended]
    omega
  · intro call member ending result stage
    have fits := told call member
    rw [stage] at fits
    obtain ⟨number, ok⟩ := fits
    refine ⟨congrArg Result.nameOf number, ?_⟩
    rw [ok]
    rcases ending with failure | ⟨status, output, errors⟩ | status <;>
      simp [isSuccess, isExpiry, Ending.status?]

/-- Four calls overlap: the first completes, the second cannot be started, the third runs out of time and
the fourth ends with the status 3. The first to begin is the last to return. -/
theorem run_conserves_calls_of_overlapping :
    ∃ load, Run (some "0.2") {} load ∧ load.HasReturned ∧
      load.calls.map (·.name) = ["proc_1", "proc_2", "proc_3", "proc_4"] ∧
      load.manager.statistics = { started := 3, completed := 1, failed := 2, timedOut := 1 } ∧
      load.ended isFailure = 1 ∧ load.ended isRefusal = 1 ∧
      load.manager.statistics.started = load.manager.active.length + load.manager.statistics.completed +
        load.manager.statistics.timedOut + load.ended isFailure ∧
      load.manager.active = [] := by
  let limit := some "0.2"
  let calls (first second third fourth : Stage) : List Call :=
    [⟨1, first⟩, ⟨2, second⟩, ⟨3, third⟩, ⟨4, fourth⟩]
  let completed : Stage := .returned (.exited 0 [] []) (Manager.finish {} 1 0 [] []).2
  let refused : Stage := .returned (.notStarted "no such tool") (Manager.refuse {} 2 "no such tool").2
  let expired : Stage := .returned (.timedOut none) (Manager.expire {} 3 "0.2").2
  let failed : Stage := .returned (.exited 3 [] []) (Manager.finish {} 4 3 [] []).2
  have second : Run limit {} ⟨⟨2, [], {}⟩, [⟨1, .starting⟩, ⟨2, .starting⟩]⟩ :=
    (Relation.ReflTransGen.single (.ask {})).tail (.ask _)
  have third : Run limit {} ⟨⟨3, [1], ⟨1, 0, 1, 0⟩⟩,
      [⟨1, .underway .running⟩, ⟨2, refused⟩, ⟨3, .starting⟩]⟩ :=
    ((second.tail (.move [] [_] (.start _))).tail (.move [_] [] (.refuse _ "no such tool"))).tail (.ask _)
  have overdue : Run limit {} ⟨⟨4, [1, 3], ⟨2, 0, 1, 0⟩⟩,
      calls (.underway .running) refused (.overdue none) .starting⟩ :=
    ((third.tail (.move [_, _] [] (.start _))).tail (.ask _)).tail
      (.move [_, _] [_] (.overrun _ "0.2" rfl rfl))
  have fourth : Run limit {} ⟨⟨4, [1, 3, 4], ⟨3, 0, 1, 0⟩⟩,
      calls (.underway .running) refused (.overdue none) (.underway (.closed 3))⟩ :=
    Run.proceed [_, _, _] [] (Run.proceed [_, _, _] [] (overdue.tail (.move [_, _, _] [] (.start _)))
      (.ends 3)) (.closes 3)
  have ended : Run limit {} ⟨⟨4, [1, 3], ⟨3, 0, 2, 0⟩⟩,
      calls (.underway .running) refused (.overdue none) failed⟩ :=
    fourth.tail (.move [_, _, _] [] (.finish _ 3 rfl [] []))
  have first : Run limit {} ⟨⟨4, [1], ⟨3, 0, 2, 1⟩⟩,
      calls (.underway (.closed 0)) refused expired failed⟩ :=
    Run.proceed [] [_, _, _] (Run.proceed [] [_, _, _]
      (ended.tail (.move [_, _] [_] (.expire _ none "0.2" rfl))) (.ends 0)) (.closes 0)
  have run : Run limit {} ⟨⟨4, [], ⟨3, 1, 2, 1⟩⟩, calls completed refused expired failed⟩ :=
    first.tail (.move [] [_, _, _] (.finish _ 0 rfl [] []))
  have returned : Workload.HasReturned ⟨⟨4, [], ⟨3, 1, 2, 1⟩⟩, calls completed refused expired failed⟩ := by
    simp [Workload.HasReturned, calls, completed, refused, expired, failed, hasReturned]
  obtain ⟨balance, -, -, idle, -⟩ := run_conserves_calls limit _ run
  exact ⟨_, run, returned, by decide, rfl, by decide, by decide, balance (by decide), (idle returned).1⟩

/-- There is a call whose process ends with the status zero, but leaves its output to another process. The time
runs out, and what is told says that the call did not succeed. And there is a call whose process has been let
go at the moment when it is to be killed. The call is given up, and its process is counted only as started. -/
theorem run_misses_endings :
    (∃ load, Run (some "0.2") {} load ∧ load.HasReturned ∧
      ∃ call ∈ load.calls, ∃ ending result, call.stage = .returned ending result ∧
        ending.status? = some 0 ∧ result.isOk = false) ∧
    ∃ load, Run (some "0.2") {} load ∧ load.manager.active = [] ∧
      load.manager.statistics = { started := 1 } ∧ load.ended isFailure = 0 ∧
      ∃ call, load.calls = [call] ∧ call.stage = .raised Process.noProcess := by
  have started : Run (some "0.2") {} ⟨⟨1, [1], ⟨1, 0, 0, 0⟩⟩, [⟨1, .underway .running⟩]⟩ :=
    (Relation.ReflTransGen.single (.ask {})).tail (.move [] [] (.start _))
  have ended : Run (some "0.2") {} ⟨⟨1, [1], ⟨1, 0, 0, 0⟩⟩, [⟨1, .underway (.ended 0)⟩]⟩ :=
    Run.proceed [] [] started (.ends 0)
  constructor
  · have overdue := ended.tail (.move [] [] (.overrun _ "0.2" rfl rfl))
    have expired := overdue.tail (.move [] [] (.expire _ (some 0) "0.2" rfl))
    exact ⟨_, expired, by simp [Workload.HasReturned, hasReturned], _, List.mem_singleton_self _, _, _, rfl,
      rfl, rfl⟩
  · have gone := Run.proceed [] [] (Run.proceed [] [] ended (.closes 0)) (.leaves 0)
    have lost := gone.tail (.move [] [] (.lose _ "0.2" rfl rfl))
    exact ⟨_, lost, rfl, rfl, rfl, _, rfl, rfl⟩

end TreeBuild.Child
