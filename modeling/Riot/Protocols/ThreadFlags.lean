import Riot.Core.ThreadFlags
import Riot.Lib.System
import Riot.Protocols.WaitLists

/-
  Threads that wait for flags.

  Any thread that is not blocked may run next, between any
  two critical sections of another one, and interrupts set
  flags and send messages at any time.  For the statements
  only, a state records the wait calls that have returned.
-/

----
-- System
----

namespace Riot

/-
  Where a thread is in a wait call: it has made the test and
  is blocked or about to clear its flags.  A call of
  `thread_flags_wait_one` reads `tmp` in between.
-/
inductive FlagCall where
  | idle
  | waitAny (mask : BitVec 16)
  | waitOne (mask : BitVec 16)
  | waitOneRead (mask tmp : BitVec 16)
  | waitAll (mask : BitVec 16)
deriving DecidableEq, Repr

/-
  A call that has returned `value`, with the thread's flags
  before and after the last critical section.
-/
structure FlagReturn where
  call : FlagCall
  before : BitVec 16
  value : BitVec 16
  after : BitVec 16
deriving DecidableEq, Repr

/- The kernel, and the calls of its threads. -/
structure FlagState (N : Nat) where
  flagKernel : FlagKernel N
  call : Fin N → FlagCall
  returned : List FlagReturn

/-
  Calls of threads and, without a thread, of interrupts.  A
  wait call goes on with `readOne` and `finish`.
-/
inductive FlagOp (N : Nat) where
  | threadFlagsSet
      (t : Option (Fin N))
      (target : Fin N)
      (mask : BitVec 16)
  | threadFlagsClear (t : Fin N) (mask : BitVec 16)
  | threadFlagsWaitAny (t : Fin N) (mask : BitVec 16)
  | threadFlagsWaitOne (t : Fin N) (mask : BitVec 16)
  | threadFlagsWaitAll (t : Fin N) (mask : BitVec 16)
  | readOne (t : Fin N)
  | finish (t : Fin N)
  | msgSend
      (t : Fin N)
      (m : Msg)
      (targetPid : Int)
      (block : Bool)
  | msgSendToSelf (t : Fin N) (m : Msg)
  | msgSendReceive (t : Fin N) (m : Msg) (targetPid : Int)
  | msgSendOneway (m : Msg) (targetPid : Int)
deriving DecidableEq, Repr

variable {N : Nat}

/- Some scheduler gives the CPU to the thread. -/
def FlagKernel.dispatch
    (f : FlagKernel N) (t : Fin N) : FlagKernel N :=
  { f with kernel := f.kernel.dispatch t }

namespace FlagState

/- The thread is not blocked. -/
def runnable
    (s : FlagState N) (t : Fin N) : Bool :=
  s.flagKernel.kernel.runnable t

/- Another kernel, and the same calls. -/
def withKernel
    (s : FlagState N) (f : FlagKernel N) : FlagState N :=
  { s with flagKernel := f }

/- The thread has passed the first part of a wait call. -/
def enter
    (s : FlagState N) (t : Fin N) (c : FlagCall) (f : FlagKernel N) : FlagState N :=
  { s with flagKernel := f, call := Function.update s.call t c }

/- The bits that the last critical section clears. -/
def clearMask : FlagCall → BitVec 16
| .idle => 0#16
| .waitAny mask => mask
| .waitOne mask => mask
| .waitOneRead _ tmp => leastBit tmp
| .waitAll mask => mask

/- The call is before its last critical section. -/
def clears : FlagCall → Bool
| .waitAny _ => true
| .waitOneRead _ _ => true
| .waitAll _ => true
| _ => false

/- The last critical section of a wait call. -/
def finish
    (s : FlagState N) (t : Fin N) : FlagState N :=
  let result := threadFlagsClearAtomic s.flagKernel t (clearMask (s.call t))
  { flagKernel := result.1
    call := Function.update s.call t .idle
    returned :=
      { call := s.call t
        before := s.flagKernel.flags t
        value := result.2
        after := result.1.flags t } :: s.returned }

end FlagState

namespace FlagOp

/- The thread makes a call, and is in none. -/
def Calls
    (s : FlagState N) (t : Fin N) : Prop :=
  s.runnable t = true ∧ s.call t = .idle

/- Blocked threads do nothing; interrupts always happen. -/
def Enabled
    (s : FlagState N) : FlagOp N → Prop
| .threadFlagsSet t _ _ => ∀ u ∈ t, Calls s u
| .threadFlagsClear t _ => Calls s t
| .threadFlagsWaitAny t _ => Calls s t
| .threadFlagsWaitOne t _ => Calls s t
| .threadFlagsWaitAll t _ => Calls s t
| .readOne t => s.runnable t = true ∧ (s.call t matches .waitOne _) = true
| .finish t => s.runnable t = true ∧ FlagState.clears (s.call t) = true
| .msgSend t _ _ _ => Calls s t
| .msgSendToSelf t _ => Calls s t
| .msgSendReceive t _ _ => Calls s t
| .msgSendOneway _ _ => True

instance
    (s : FlagState N) (t : Fin N) :
    Decidable (Calls s t) := by
  unfold Calls
  infer_instance

instance
    (s : FlagState N) (op : FlagOp N) :
    Decidable (Enabled s op) := by
  cases op <;> unfold Enabled <;> infer_instance

/-
  The effect of a step; `address` has the lower halves of the
  addresses of the threads' message objects.
-/
def exec
    (address : Fin N → BitVec 16) (s : FlagState N) : FlagOp N → Option (FlagState N)
| .threadFlagsSet t target mask =>
  let f :=
    match t with
    | none => s.flagKernel
    | some t => s.flagKernel.dispatch t
  (Riot.threadFlagsSet storeStatus f target mask).map s.withKernel
| .threadFlagsClear t mask =>
  (Riot.threadFlagsClear (s.flagKernel.dispatch t) mask).map (fun result => s.withKernel result.1)
| .threadFlagsWaitAny t mask =>
  (Riot.threadFlagsWaitAny storeStatus
    (s.flagKernel.dispatch t) mask).map (s.enter t (.waitAny mask))
| .threadFlagsWaitOne t mask =>
  (Riot.threadFlagsWaitAny storeStatus
    (s.flagKernel.dispatch t) mask).map (s.enter t (.waitOne mask))
| .threadFlagsWaitAll t mask =>
  (Riot.threadFlagsWaitAll storeStatus
    (s.flagKernel.dispatch t) mask).map (s.enter t (.waitAll mask))
| .readOne t =>
  match s.call t with
  | .waitOne mask =>
    some (s.enter t (.waitOneRead mask (s.flagKernel.flags t &&& mask)) s.flagKernel)
  | _ => none
| .finish t => some (s.finish t)
| .msgSend t m targetPid block =>
  (msgSendFromFlags storeStatus address
    (s.flagKernel.dispatch t) m targetPid block).map (fun result => s.withKernel result.1)
| .msgSendToSelf t m =>
  (msgSendToSelfFlags storeStatus
    (s.flagKernel.dispatch t) m).map (fun result => s.withKernel result.1)
| .msgSendReceive t m targetPid =>
  (msgSendReceiveFlags storeStatus address
    (s.flagKernel.dispatch t) m targetPid).map (fun result => s.withKernel result.1)
| .msgSendOneway m targetPid =>
  (msgSendOnewayFlags storeStatus s.flagKernel m
    targetPid).map (fun result => s.withKernel result.1)

end FlagOp

/- The status of a thread that waits for flags. -/
def ThreadStatus.flagBlocked
    (status : ThreadStatus) : Bool :=
  status = .flagBlockedAny || status = .flagBlockedAll

/-
  Threads with any flags, any statuses but those of a wait
  call, and any messages.
-/
def flagSystem
    (address : Fin N → BitVec 16) :
    System (FlagState N) (FlagOp N) where
  Start := fun s =>
    (∀ t, (s.flagKernel.kernel.thread t).status.flagBlocked = false) ∧ (∀ t, s.call t = .idle) ∧
      s.returned = []
  Enabled := FlagOp.Enabled
  exec := FlagOp.exec address

instance
    (address : Fin N → BitVec 16) (s : FlagState N) (op : FlagOp N) :
    Decidable ((flagSystem address).Enabled s op) :=
  inferInstanceAs (Decidable (op.Enabled s))

----
-- Specification
----

/-
  What a returned call promises: the bits it returns were
  set and are cleared.  `tmp` are the pending bits that
  `thread_flags_wait_one` has read; the call returns the
  lowest of them.
-/
def FlagReturn.Ok
    (e : FlagReturn) : Prop :=
  e.after = e.before &&& ~~~e.value ∧ e.value &&& e.before = e.value ∧
    match e.call with
    | .waitAny mask => e.value ≠ 0#16 ∧ e.value = e.before &&& mask
    | .waitOneRead mask tmp =>
      tmp &&& (e.before &&& mask) = tmp ∧ ∃ i, IsLowestBit tmp i ∧ e.value = BitVec.twoPow 16 i
    | .waitAll mask => e.value = mask
    | _ => False

/-
  No thread waits for what has happened, the mask of a
  blocked thread is that of its call, and every call has
  returned what it promises.
-/
structure FlagsOk
    (s : FlagState N) : Prop where
  any :
    ∀ t, (s.flagKernel.kernel.thread t).status = .flagBlockedAny →
        (s.call t = .waitAny (s.flagKernel.waitMask t) ∨
            s.call t = .waitOne (s.flagKernel.waitMask t)) ∧
          s.flagKernel.flags t &&& s.flagKernel.waitMask t = 0#16
  all :
    ∀ t, (s.flagKernel.kernel.thread t).status = .flagBlockedAll →
        s.call t = .waitAll (s.flagKernel.waitMask t) ∧
          s.flagKernel.flags t &&& s.flagKernel.waitMask t ≠ s.flagKernel.waitMask t
  returned : ∀ e ∈ s.returned, e.Ok

/-
  A thread that waits for any of its mask: it is blocked and
  has none of it, or is free to go on and has some.
-/
def WaitsAny
    (f : FlagKernel N) (t : Fin N) (mask : BitVec 16) : Prop :=
  ((f.kernel.thread t).status = .flagBlockedAny ∧ f.waitMask t = mask ∧
      f.flags t &&& mask = 0#16) ∨ (f.kernel.runnable t = true ∧ f.flags t &&& mask ≠ 0#16)

/- The same for all of its mask. -/
def WaitsAll
    (f : FlagKernel N) (t : Fin N) (mask : BitVec 16) : Prop :=
  ((f.kernel.thread t).status = .flagBlockedAll ∧ f.waitMask t = mask ∧
      f.flags t &&& mask ≠ mask) ∨ (f.kernel.runnable t = true ∧ f.flags t &&& mask = mask)

/- The state of a thread in a call. -/
def CallOk
    (f : FlagKernel N)
    (t : Fin N) : FlagCall → Prop
| .idle => (f.kernel.thread t).status.flagBlocked = false
| .waitAny mask => WaitsAny f t mask
| .waitOne mask => WaitsAny f t mask
| .waitOneRead mask tmp =>
  f.kernel.runnable t = true ∧ tmp ≠ 0#16 ∧ tmp &&& (f.flags t &&& mask) = tmp
| .waitAll mask => WaitsAll f t mask

/- The states of all threads. -/
def FlagInv
    (f : FlagKernel N) (call : Fin N → FlagCall) : Prop :=
  ∀ t, CallOk f t (call t)

----
-- Words of a Thread
----

variable {f f' : FlagKernel N} {call : Fin N → FlagCall} {t u : Fin N}
variable {c : FlagCall} {mask : BitVec 16}

/- The words of a thread that its calls rest on. -/
structure SameWords
    (f f' : FlagKernel N)
    (t : Fin N) : Prop where
  status : (f'.kernel.thread t).status = (f.kernel.thread t).status
  flags : f'.flags t = f.flags t
  mask : f'.waitMask t = f.waitMask t

/- A thread of the same status can run as before. -/
theorem SameWords.runnable
    (hSame : SameWords f f' t) :
    f'.kernel.runnable t = f.kernel.runnable t := by
  unfold Kernel.runnable
  rw [hSame.status]

/- Only these words matter. -/
theorem CallOk.congr
    (hOk : CallOk f t c) (hSame : SameWords f f' t) :
    CallOk f' t c := by
  have hAny : ∀ mask, WaitsAny f t mask → WaitsAny f' t mask := by
    intro mask hWaits
    unfold WaitsAny
    rw [hSame.status, hSame.mask, hSame.flags, hSame.runnable]
    exact hWaits
  cases c with
  | idle =>
    unfold CallOk
    rw [hSame.status]
    exact hOk
  | waitAny mask => exact hAny mask hOk
  | waitOne mask => exact hAny mask hOk
  | waitOneRead mask tmp =>
    unfold CallOk
    rw [hSame.flags, hSame.runnable]
    exact hOk
  | waitAll mask =>
    unfold CallOk WaitsAll
    rw [hSame.status, hSame.mask, hSame.flags, hSame.runnable]
    exact hOk

/- A thread of another status is in no call. -/
theorem CallOk.eq_idle
    (hOk : CallOk f t c) (hRuns : f.kernel.runnable t = false)
    (hNot : (f.kernel.thread t).status.flagBlocked = false) :
    c = .idle := by
  have hAny : ∀ mask, ¬ WaitsAny f t mask := by
    rintro mask (⟨hStatus, _⟩ | ⟨hRun, _⟩)
    · rw [hStatus] at hNot
      cases hNot
    · rw [hRuns] at hRun
      cases hRun
  cases c with
  | idle => rfl
  | waitAny mask => exact (hAny mask hOk).elim
  | waitOne mask => exact (hAny mask hOk).elim
  | waitOneRead mask tmp =>
    have hRun := hOk.1
    rw [hRuns] at hRun
    cases hRun
  | waitAll mask =>
    rcases hOk with ⟨hStatus, _⟩ | ⟨hRun, _⟩
    · rw [hStatus] at hNot
      cases hNot
    · rw [hRuns] at hRun
      cases hRun

/- All threads keep their words. -/
theorem FlagInv.congr
    (hInv : FlagInv f call) (hSame : ∀ t, SameWords f f' t) :
    FlagInv f' call := by
  intro t
  exact (hInv t).congr (hSame t)

/- A thread in no call gets another status. -/
theorem FlagInv.idle
    (hInv : FlagInv f call) (hIdle : call t = .idle)
    (hStatus : (f'.kernel.thread t).status.flagBlocked = false)
    (hSame : ∀ u, u ≠ t → SameWords f f' u) :
    FlagInv f' call := by
  intro u
  by_cases hSelf : u = t
  · subst hSelf
    rw [hIdle]
    exact hStatus
  · exact (hInv u).congr (hSame u hSelf)

----
-- Raising Flags
----

variable {woken : Bool}

/- The flags that a thread then has. -/
@[simp]
theorem FlagKernel.setFlags_flags
    (f : FlagKernel N) (t : Fin N) (flags : BitVec 16) :
    (f.setFlags t flags).flags t = flags :=
  Function.update_self ..

/- Whether a blocked thread is woken. -/
theorem flagsWakeup_any
    (hStatus : (f.kernel.thread t).status = .flagBlockedAny) :
    flagsWakeup f t = decide (f.flags t &&& f.waitMask t ≠ 0#16) := by
  unfold flagsWakeup
  rw [hStatus]

theorem flagsWakeup_all
    (hStatus : (f.kernel.thread t).status = .flagBlockedAll) :
    flagsWakeup f t = decide (f.flags t &&& f.waitMask t = f.waitMask t) := by
  unfold flagsWakeup
  rw [hStatus]

/- Other threads are not woken. -/
theorem flagsWakeup_of_runnable
    (hRuns : f.kernel.runnable t = true) :
    flagsWakeup f t = false := by
  unfold flagsWakeup
  unfold Kernel.runnable at hRuns
  split
  · rename_i hStatus
    rw [hStatus] at hRuns
    cases hRuns
  · rename_i hStatus
    rw [hStatus] at hRuns
    cases hRuns
  · rfl

theorem flagsWakeup_of_idle
    (hNot : (f.kernel.thread t).status.flagBlocked = false) :
    flagsWakeup f t = false := by
  unfold flagsWakeup
  split
  · rename_i hStatus
    rw [hStatus] at hNot
    cases hNot
  · rename_i hStatus
    rw [hStatus] at hNot
    cases hNot
  · rfl

/- The kernel in which the thread has been woken. -/
def wokenKernel
    (f : FlagKernel N) (t : Fin N) : FlagKernel N :=
  { f with
    kernel := { f.kernel.setStatus t .pending with schedContextSwitchRequest := true } }

/- Waking is at most a store and a flag. -/
theorem threadFlagsWake_eq
    (f : FlagKernel N) (t : Fin N) :
    threadFlagsWake storeStatus f t = if flagsWakeup f t then
        some (wokenKernel f t, true)
      else
        some (f, false) := rfl

/- A woken thread can run. -/
theorem wokenKernel_runnable
    (f : FlagKernel N) (t : Fin N) :
    (wokenKernel f t).kernel.runnable t = true := by
  unfold Kernel.runnable wokenKernel
  dsimp only
  rw [Kernel.setStatus_status, if_pos rfl]
  rfl

/- More flags, for a thread that waits for any of some. -/
theorem WaitsAny.raise
    (hWaits : WaitsAny f t mask) (more : BitVec 16) :
    (flagsWakeup (f.setFlags t (f.flags t ||| more)) t = false ∧
        WaitsAny (f.setFlags t (f.flags t ||| more)) t mask) ∨
      (flagsWakeup (f.setFlags t (f.flags t ||| more)) t = true ∧
        WaitsAny (wokenKernel (f.setFlags t (f.flags t ||| more)) t) t mask) := by
  rcases hWaits with ⟨hStatus, hMask, _⟩ | ⟨hRun, hSome⟩
  · have hWakeup : flagsWakeup (f.setFlags t (f.flags t ||| more)) t =
          decide ((f.flags t ||| more) &&& mask ≠ 0#16) := by
      rw [flagsWakeup_any (f := f.setFlags t (f.flags t ||| more)) hStatus,
        FlagKernel.setFlags_flags]
      unfold FlagKernel.setFlags
      rw [hMask]
    by_cases hAny : (f.flags t ||| more) &&& mask = 0#16
    · left
      refine ⟨hWakeup.trans (by simp [hAny]), .inl ⟨hStatus, hMask, ?_⟩⟩
      rw [FlagKernel.setFlags_flags]
      exact hAny
    · right
      refine ⟨hWakeup.trans (by simp [hAny]), .inr ⟨wokenKernel_runnable _ t, ?_⟩⟩
      unfold wokenKernel
      rw [FlagKernel.setFlags_flags]
      exact hAny
  · left
    refine ⟨flagsWakeup_of_runnable hRun, .inr ⟨hRun, ?_⟩⟩
    rw [FlagKernel.setFlags_flags]
    grind

/- The same for all of some. -/
theorem WaitsAll.raise
    (hWaits : WaitsAll f t mask) (more : BitVec 16) :
    (flagsWakeup (f.setFlags t (f.flags t ||| more)) t = false ∧
        WaitsAll (f.setFlags t (f.flags t ||| more)) t mask) ∨
      (flagsWakeup (f.setFlags t (f.flags t ||| more)) t = true ∧
        WaitsAll (wokenKernel (f.setFlags t (f.flags t ||| more)) t) t mask) := by
  rcases hWaits with ⟨hStatus, hMask, _⟩ | ⟨hRun, hAll⟩
  · have hWakeup : flagsWakeup (f.setFlags t (f.flags t ||| more)) t =
          decide ((f.flags t ||| more) &&& mask = mask) := by
      rw [flagsWakeup_all (f := f.setFlags t (f.flags t ||| more)) hStatus,
        FlagKernel.setFlags_flags]
      unfold FlagKernel.setFlags
      rw [hMask]
    by_cases hAll : (f.flags t ||| more) &&& mask = mask
    · right
      refine ⟨hWakeup.trans (by simp [hAll]), .inr ⟨wokenKernel_runnable _ t, ?_⟩⟩
      unfold wokenKernel
      rw [FlagKernel.setFlags_flags]
      exact hAll
    · left
      refine ⟨hWakeup.trans (by simp [hAll]), .inl ⟨hStatus, hMask, ?_⟩⟩
      rw [FlagKernel.setFlags_flags]
      exact hAll
  · left
    refine ⟨flagsWakeup_of_runnable hRun, .inr ⟨hRun, ?_⟩⟩
    rw [FlagKernel.setFlags_flags]
    grind

/- Raising flags of a thread and waking it. -/
theorem CallOk.raise
    {more : BitVec 16} (hOk : CallOk f t c)
    (hWake : threadFlagsWake storeStatus (f.setFlags t (f.flags t ||| more)) t = some (f', woken)) :
    CallOk f' t c := by
  rw [threadFlagsWake_eq] at hWake
  have hAny : ∀ mask, WaitsAny f t mask → WaitsAny f' t mask := by
    intro mask hWaits
    rcases hWaits.raise more with ⟨hQuiet, hNext⟩ | ⟨hWoken, hNext⟩
    · rw [hQuiet] at hWake
      cases hWake
      exact hNext
    · rw [hWoken] at hWake
      cases hWake
      exact hNext
  cases c with
  | idle =>
    rw [flagsWakeup_of_idle (f := f.setFlags t (f.flags t ||| more)) hOk] at hWake
    cases hWake
    exact hOk
  | waitAny mask => exact hAny mask hOk
  | waitOne mask => exact hAny mask hOk
  | waitOneRead mask tmp =>
    rcases hOk with ⟨hRun, hSome, hSub⟩
    rw [flagsWakeup_of_runnable (f := f.setFlags t (f.flags t ||| more)) hRun] at hWake
    cases hWake
    refine ⟨hRun, hSome, ?_⟩
    rw [FlagKernel.setFlags_flags]
    grind
  | waitAll mask =>
    rcases WaitsAll.raise hOk more with ⟨hQuiet, hNext⟩ | ⟨hWoken, hNext⟩
    · rw [hQuiet] at hWake
      cases hWake
      exact hNext
    · rw [hWoken] at hWake
      cases hWake
      exact hNext

/- The other threads do not notice. -/
theorem threadFlagsWake_other
    {u : Fin N} {flags : BitVec 16}
    (hWake : threadFlagsWake storeStatus (f.setFlags t flags) t = some (f', woken))
    (hNe : u ≠ t) :
    SameWords f f' u := by
  have hFlags : (f.setFlags t flags).flags u = f.flags u := Function.update_of_ne hNe ..
  rw [threadFlagsWake_eq] at hWake
  split at hWake
  · cases hWake
    refine ⟨?_, hFlags, rfl⟩
    refine (Kernel.setStatus_status _ t u .pending).trans ?_
    exact if_neg hNe
  · cases hWake
    exact ⟨rfl, hFlags, rfl⟩

/- So raising flags keeps the states of all threads. -/
theorem FlagInv.raise
    {more : BitVec 16} (hInv : FlagInv f call)
    (hWake : threadFlagsWake storeStatus (f.setFlags t (f.flags t ||| more)) t = some (f', woken)) :
    FlagInv f' call := by
  intro u
  by_cases hSelf : u = t
  · subst hSelf
    exact (hInv u).raise hWake
  · exact (hInv u).congr (threadFlagsWake_other hWake hSelf)

end Riot
