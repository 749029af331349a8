import Riot.Scheduler.Runqueues
import Riot.Core.Thread

/-
  What the scheduler functions do to held run queues.
-/

----
-- Status Changes
----

namespace Riot

variable {N : Nat} {cfg : Config N} {k : Kernel N} {q : Nat → List (Fin N)}
variable {t : Fin N} {status : ThreadStatus} {k' : Kernel N}

/- A change between two runnable states stores the status. -/
theorem schedSetStatus_keep_on
    (hNew : status.onRunqueue = true)
    (hOld : (k.thread t).status.onRunqueue = true) :
    schedSetStatus cfg k t status = some (k.setStatus t status) := by
  simp [schedSetStatus, hNew, hOld]

/- A change between two blocked states stores the status. -/
theorem schedSetStatus_keep_off
    (hNew : status.onRunqueue = false)
    (hOld : (k.thread t).status.onRunqueue = false) :
    schedSetStatus cfg k t status = some (k.setStatus t status) := by
  simp [schedSetStatus, hNew, hOld]

/- The kernel after a push into memory `mem`. -/
def pushedKernel
    (cfg : Config N) (k : Kernel N) (mem : LinkMem (ListHead N) (Fin N)) (t : Fin N)
    (status : ThreadStatus) : Kernel N :=
  (setRunqueueBit cfg { k with next := mem } t).setStatus t status

/- The kernel after a pop into memory `mem`. -/
def poppedKernel
    (cfg : Config N) (k : Kernel N) (mem : LinkMem (ListHead N) (Fin N)) (t : Fin N)
    (status : ThreadStatus) : Kernel N :=
  if mem (.head (.runqueue (k.thread t).priority)) = .null then
    (clearRunqueueBit cfg { k with next := mem } t).setStatus t status
  else
    ({ k with next := mem } : Kernel N).setStatus t status

/- A push changes one status, the lists and the cache. -/
theorem pushedKernel_eq
    {mem : LinkMem (ListHead N) (Fin N)} :
    pushedKernel cfg k mem t status = { k.setStatus t status with
        next := mem
        runqueueBitcache := k.runqueueBitcache ||| cfg.bitOrder.bit (k.thread t).priority } :=
  rfl

/- So does a pop. -/
theorem poppedKernel_eq
    {mem : LinkMem (ListHead N) (Fin N)} :
    poppedKernel cfg k mem t status = { k.setStatus t status with
        next := mem
        runqueueBitcache := if mem (.head (.runqueue (k.thread t).priority)) = .null then
            k.runqueueBitcache &&& ~~~(cfg.bitOrder.bit (k.thread t).priority)
          else k.runqueueBitcache } := by
  unfold poppedKernel
  split <;> rfl

section

variable (cfg) (hQ : Runqueues k.next q) (hNew : status.onRunqueue = true)
variable (hOld : (k.thread t).status.onRunqueue = false)
variable (hPrio : (k.thread t).priority < schedPrioLevels)

include cfg hQ hNew hOld hPrio

/- Waking a blocked thread that is on no queue. -/
theorem schedSetStatus_push
    (hOff : ¬ OnQueues q t) :
    ∃ mem, schedSetStatus cfg k t status = some (pushedKernel cfg k mem t status) ∧
        Runqueues mem (Function.update q (k.thread t).priority (q (k.thread t).priority ++ [t])) ∧
        SameOutside k.next mem (fun e => e = t ∨ OnQueues q e) := by
  rcases hQ.rpush hPrio hOff with ⟨mem, hPush, hQ', hSame⟩
  refine ⟨mem, ?_, hQ', hSame⟩
  simp [schedSetStatus, hNew, hOld, hPush, pushedKernel, setRunqueueBit, hQ'.countRunqueues_eq]

/- Waking a blocked thread that its queue still holds. -/
theorem schedSetStatus_push_of_mem
    (hMem : t ∈ q (k.thread t).priority) :
    ∃ mem l, schedSetStatus cfg k t status = some (pushedKernel cfg k mem t status) ∧
        Runqueues mem (Function.update q (k.thread t).priority l) ∧ t ∈ l ∧
        (∀ e ∈ l, e ∈ q (k.thread t).priority) ∧ SameOutside k.next mem (OnQueues q) := by
  rcases hQ.rpush_of_mem hPrio hMem with ⟨mem, l, hPush, hQ', hIn, hSub, hSame⟩
  refine ⟨mem, l, ?_, hQ', hIn, hSub, hSame⟩
  simp [schedSetStatus, hNew, hOld, hPush, pushedKernel, setRunqueueBit, hQ'.countRunqueues_eq]

end

/- Blocking a runnable thread pops its queue. -/
theorem schedSetStatus_pop
    (cfg : Config N) (hQ : Runqueues k.next q) (hNew : status.onRunqueue = false)
    (hOld : (k.thread t).status.onRunqueue = true)
    (hPrio : (k.thread t).priority < schedPrioLevels) :
    ∃ mem, schedSetStatus cfg k t status = some (poppedKernel cfg k mem t status) ∧
        Runqueues mem (Function.update q (k.thread t).priority (q (k.thread t).priority).tail) ∧
        SameOutside k.next mem (OnQueues q) := by
  rcases hQ.lpop hPrio with ⟨mem, hPop, hQ', hSame⟩
  refine ⟨mem, ?_, hQ', hSame⟩
  simp only [schedSetStatus, hNew, hOld, hPop, poppedKernel, hQ'.countRunqueues_eq,
    Option.bind_eq_bind, Option.bind_some, if_true, Bool.false_eq_true, if_false]
  split <;> rfl

/- What `sched_set_status` can do. -/
theorem schedSetStatus_some
    {cfg : Config N} {t : Fin N} {status : ThreadStatus}
    (hSet : schedSetStatus cfg k t status = some k') :
    ((status.onRunqueue = (k.thread t).status.onRunqueue) ∧ k' = k.setStatus t status) ∨
      (status.onRunqueue = true ∧ ∃ mem, clistRpush k.next
              (.runqueue (k.thread t).priority) t = some mem ∧ countRunqueues mem = some () ∧
            k' = pushedKernel cfg k mem t status) ∨ (status.onRunqueue = false ∧ ∃ mem first,
          clistLpop k.next (.runqueue (k.thread t).priority) = some (mem, first) ∧
            countRunqueues mem = some () ∧ k' = poppedKernel cfg k mem t status) := by
  unfold schedSetStatus at hSet
  dsimp only at hSet
  split at hSet
  · rename_i hNew
    split at hSet
    · rename_i hOld
      rcases Option.bind_eq_some_iff.mp hSet with ⟨mem, hPush, hRest⟩
      rcases Option.bind_eq_some_iff.mp hRest with ⟨_, hCount, hLast⟩
      cases hLast
      exact .inr (.inl ⟨hNew, mem, hPush, hCount, rfl⟩)
    · rename_i hOld
      cases hSet
      left
      exact ⟨by simp_all, rfl⟩
  · rename_i hNew
    split at hSet
    · rename_i hOld
      rcases Option.bind_eq_some_iff.mp hSet with ⟨⟨mem, first⟩, hPop, hRest⟩
      rcases Option.bind_eq_some_iff.mp hRest with ⟨_, hCount, hLast⟩
      right
      right
      refine ⟨by simpa using hNew, mem, first, hPop, hCount, ?_⟩
      unfold poppedKernel
      split at hLast
      · rename_i hNull
        cases hLast
        rw [if_pos hNull]
      · rename_i hNull
        cases hLast
        rw [if_neg hNull]
    · rename_i hOld
      cases hSet
      left
      exact ⟨by simp_all, rfl⟩

/- The fields that `sched_set_status` leaves alone. -/
theorem schedSetStatus_frame
    {cfg : Config N} {t : Fin N} {status : ThreadStatus}
    (hSet : schedSetStatus cfg k t status = some k') :
    ∃ mem bitcache, k' = { k.setStatus t status with
          next := mem
          runqueueBitcache := bitcache } := by
  rcases schedSetStatus_some hSet with ⟨_, rfl⟩ | ⟨_, mem, _, _, rfl⟩ | ⟨_, mem, _, _, _, rfl⟩
  · exact ⟨k.next, k.runqueueBitcache, rfl⟩
  · exact ⟨mem, _, pushedKernel_eq⟩
  · exact ⟨mem, _, poppedKernel_eq⟩

/- A yield from `sched_switch` only raises a flag. -/
theorem schedSwitch_some
    {inIrq : Bool} {otherPrio : Nat}
    (hSwitch : schedSwitch inIrq k otherPrio = some k') :
    ∃ c p, k' = { k with
          schedContextSwitchRequest := c
          pendsv := p } := by
  rcases Option.bind_eq_some_iff.mp hSwitch with ⟨active, _, hRest⟩
  dsimp only at hRest
  split at hRest
  · split at hRest
    · cases hRest
      exact ⟨true, k.pendsv, rfl⟩
    · cases hRest
      exact ⟨k.schedContextSwitchRequest, true, rfl⟩
  · cases hRest
    exact ⟨k.schedContextSwitchRequest, k.pendsv, rfl⟩

/- The pid of a new thread is in range and was free. -/
theorem freePid_some
    {k : Kernel N} {pid : Int} (hFree : freePid k = some pid) :
    k.schedThreads pid = none ∧ ∃ i : Fin 32, pid = kernelPidFirst + i := by
  unfold freePid at hFree
  have hNone := List.find?_some hFree
  have hMem := List.mem_of_find?_eq_some hFree
  rcases List.mem_map.mp hMem with ⟨i, hi, rfl⟩
  exact ⟨by simpa using hNone, ⟨i, List.mem_range.mp hi⟩, rfl⟩

/-
  What `thread_create` can do: fail without a change, or
  fill in the control block and set its first status.
-/
theorem threadCreate_some
    {inIrq : Bool} {tcb : Fin N} {priority flags : Nat} {sTime result : Int}
    (hCreate :
      threadCreate (schedSetStatus cfg) inIrq k tcb priority flags sTime = some (k', result)) :
    k' = k ∨ ∃ pid k₂ c p, freePid k = some pid ∧
          schedSetStatus cfg (initThread k tcb pid sTime) tcb
              (if flags &&& threadCreateSleeping ≠ 0 then .sleeping
              else .pending) = some k₂ ∧ k' =
            { k₂ with
              schedContextSwitchRequest := c
              pendsv := p } := by
  unfold threadCreate at hCreate
  split at hCreate
  · cases hCreate
    exact .inl rfl
  · split at hCreate
    · cases hCreate
      exact .inl rfl
    · rename_i pid hFree
      right
      dsimp only at hCreate
      split at hCreate
      · rename_i hSleeping
        rcases Option.bind_eq_some_iff.mp hCreate with ⟨k₂, hSet, hLast⟩
        cases hLast
        refine ⟨_, k', _, _, hFree, ?_, rfl⟩
        rw [if_pos hSleeping]
        exact hSet
      · rename_i hSleeping
        rcases Option.bind_eq_some_iff.mp hCreate with ⟨k₂, hSet, hRest⟩
        rw [if_neg hSleeping]
        split at hRest
        · rcases Option.bind_eq_some_iff.mp hRest with ⟨k₃, hSwitch, hLast⟩
          cases hLast
          rcases schedSwitch_some hSwitch with ⟨c, p, hEq⟩
          exact ⟨_, k₂, c, p, hFree, hSet, hEq⟩
        · cases hRest
          exact ⟨_, k', _, _, hFree, hSet, rfl⟩

----
-- Selection
----

open LinkMem

/-
  The cache stores priority 1 while queue 1 has nodes, and
  never priority 0.
-/
def CacheServes
    (cfg : Config N) (k : Kernel N) (q : Nat → List (Fin N)) : Prop :=
  cfg.bitOrder.test k.runqueueBitcache 0 = false ∧
    (q 1 ≠ [] → cfg.bitOrder.test k.runqueueBitcache 1 = true)

/- The cache serves a queue that a push has filled. -/
theorem CacheServes.pushed
    {mem : LinkMem (ListHead N) (Fin N)} {status : ThreadStatus} {l : List (Fin N)}
    (hCache : CacheServes cfg k q) (hPrio : (k.thread t).priority < schedPrioLevels)
    (hPos : (k.thread t).priority ≠ 0) :
    CacheServes cfg (pushedKernel cfg k mem t status)
      (Function.update q (k.thread t).priority l) := by
  have hLt : (k.thread t).priority < 32 := Nat.lt_trans hPrio (by decide)
  rw [pushedKernel_eq]
  constructor
  · rw [cfg.bitOrder.test_or_bit _ hLt (by decide), hCache.1]
    simpa using Ne.symm hPos
  · intro hNil
    rw [cfg.bitOrder.test_or_bit _ hLt (by decide)]
    by_cases hEq : 1 = (k.thread t).priority
    · simp [hEq]
    · rw [Function.update_of_ne hEq] at hNil
      simp [hCache.2 hNil]

/- The cache serves the queues after a pop. -/
theorem CacheServes.popped
    {mem : LinkMem (ListHead N) (Fin N)} (status : ThreadStatus)
    (hCache : CacheServes cfg k q) (hPrio : (k.thread t).priority < schedPrioLevels)
    (hQ : Runqueues mem (Function.update q (k.thread t).priority (q (k.thread t).priority).tail)) :
    CacheServes cfg (poppedKernel cfg k mem t status)
      (Function.update q (k.thread t).priority (q (k.thread t).priority).tail) := by
  have hLt : (k.thread t).priority < 32 := Nat.lt_trans hPrio (by decide)
  have hEmpty := (hQ.circular _ hPrio).eq_nil_iff
  rw [Function.update_self] at hEmpty
  rw [poppedKernel_eq]
  constructor
  · dsimp only
    split
    · rw [cfg.bitOrder.test_and_not_bit _ hLt (by decide), hCache.1]
      rfl
    · exact hCache.1
  · intro hNil
    by_cases hEq : 1 = (k.thread t).priority
    · -- Queue 1 was popped and still has a node.
      rw [← hEq, Function.update_self] at hNil
      rw [← hEq] at hEmpty ⊢
      dsimp only
      rw [if_neg (fun hNull => hNil (hEmpty.mpr hNull))]
      apply hCache.2
      intro hBefore
      rw [hBefore] at hNil
      exact hNil rfl
    · rw [Function.update_of_ne hEq] at hNil
      dsimp only
      split
      · rw [cfg.bitOrder.test_and_not_bit _ hLt (by decide), hCache.2 hNil]
        simpa using hEq
      · exact hCache.2 hNil

/- The queue `sched_run` reads: 1, or 15 if that is empty. -/
def servedQueue
    (q : Nat → List (Fin N)) : Nat :=
  if q 1 = [] then 15 else 1

/- The choice of the queue. -/
theorem nextRunqueue_eq
    (hQ : Runqueues k.next q) (hCache : CacheServes cfg k q) :
    nextRunqueue cfg k = some (servedQueue q) := by
  unfold nextRunqueue servedQueue
  rw [hQ.clistCount_eq (by decide : 1 < schedPrioLevels)]
  by_cases hNil : q 1 = []
  · simp [hNil]
  · have hRead : getPrioQueueFromRunqueue cfg.bitOrder k.runqueueBitcache = some 1 := by
      apply getPrioQueueFromRunqueue_eq _ (by decide) (hCache.2 hNil)
      intro p hp
      have hZero : p = 0 := by omega
      rw [hZero]
      exact hCache.1
    simp [hNil, hRead]

/- The first node of a circular list. -/
theorem clistFirst_eq
    {mem : LinkMem (ListHead N) (Fin N)} {list : ListHead N} {l : List (Fin N)}
    (hCirc : IsCircular mem list l) :
    clistFirst mem list = l.head? := by
  rcases hCirc with ⟨_, ⟨rfl, hNull⟩ | ⟨front, last, rfl, hRef, hSeg⟩⟩
  · simp [clistFirst, hNull]
  · cases front with
    | nil =>
      have hSelf : mem (.entry last) = .ref last := hSeg
      simp [clistFirst, hRef, hSelf]
    | cons first front => simp [clistFirst, hRef, hSeg.1]

/- The kernel when `sched_run` has switched to `t`. -/
def switchedKernel
    (k : Kernel N) (activeThread previousThread : Option (Fin N)) (t : Fin N) : Kernel N :=
  switchTo
    (chargeActive { k with schedContextSwitchRequest := false } activeThread)
    activeThread previousThread t

/- The queues after the expiry test. -/
def expiredQueues
    (fired : Bool) (q : Nat → List (Fin N)) : Nat → List (Fin N) :=
  if fired then Function.update q 1 (q 1).tail else q

/- The queues after the debug loop. -/
def rotatedQueues
    (q : Nat → List (Fin N)) : Nat → List (Fin N) :=
  Function.update q 1 ((q 1).rotate (queueTotal q))

/- The queues that a `sched_run` selecting `t` leaves. -/
def queuesAfterRun
    (k : Kernel N) (activeThread previousThread : Option (Fin N)) (t : Fin N)
    (q : Nat → List (Fin N)) : Nat → List (Fin N) :=
  rotatedQueues
    (expiredQueues
      (serviceTimeFired (switchedKernel k activeThread previousThread t) activeThread t)
      q)

/- Service time of a thread after the charge. -/
def timeAfterCharge
    (k : Kernel N) (activeThread : Option (Fin N)) (u : Fin N) : Int :=
  if activeThread = some u ∧
      exemptPid (k.thread u).pid = false then
    chargedTime (k.thread u).sTime
  else
    (k.thread u).sTime

/- Status of a thread after the switch to `t`. -/
def statusAfterSwitch
    (k : Kernel N) (activeThread : Option (Fin N)) (t u : Fin N) : ThreadStatus :=
  if u = t then
    .running
  else if activeThread = some u ∧
      (k.thread u).status = .running then
    .pending
  else
    (k.thread u).status

/- The charge changes one service time. -/
theorem chargeActive_eq
    (activeThread : Option (Fin N)) :
    chargeActive k activeThread = { k with
        thread := fun u =>
          { k.thread u with
            sTime := timeAfterCharge k activeThread u } } := by
  cases activeThread with
  | none => simp [chargeActive, timeAfterCharge]
  | some active =>
    have hTime : ∀ u, u ≠ active → timeAfterCharge k (some active) u = (k.thread u).sTime := by
      intro u hNe
      simp [timeAfterCharge, Ne.symm hNe]
    unfold chargeActive
    by_cases hExempt : exemptPid (k.thread active).pid = true
    · have hSame : timeAfterCharge k (some active) = fun u => (k.thread u).sTime := by
        funext u
        by_cases hEq : u = active
        · subst hEq
          simp [timeAfterCharge, hExempt]
        · exact hTime u hEq
      simp [hExempt, hSame]
    · simp only [Bool.eq_false_of_not_eq_true hExempt,
        Kernel.setThread, Bool.false_eq_true, if_false]
      congr 1
      funext u
      by_cases hEq : u = active
      · subst hEq
        simp [timeAfterCharge, hExempt]
      · simp [Function.update_of_ne hEq, hTime u hEq]

/- What the switch to `t` leaves in the kernel. -/
theorem switchedKernel_eq
    {activeThread previousThread : Option (Fin N)}
    (hArgs : activeThread = none ∨ activeThread = previousThread) :
    switchedKernel k activeThread previousThread t = { k with
        thread := fun u =>
          { k.thread u with
            sTime := timeAfterCharge k activeThread u
            status := statusAfterSwitch k activeThread t u }
        schedActiveThread := if previousThread = some t then k.schedActiveThread else some t
        schedActivePid := if previousThread = some t then k.schedActivePid else (k.thread t).pid
        schedContextSwitchRequest := false } := by
  have hCharge : timeAfterCharge
          { k with schedContextSwitchRequest := false }
          activeThread = timeAfterCharge k activeThread := rfl
  unfold switchedKernel
  rw [chargeActive_eq, hCharge]
  unfold switchTo
  by_cases hPrev : previousThread = some t
  · -- The thread goes on: only its own status is stored.
    have hStatus : ∀ u, u ≠ t → statusAfterSwitch k activeThread t u = (k.thread u).status := by
      intro u hNe
      have hNot : activeThread ≠ some u := by
        rcases hArgs with hNone | hSame
        · simp [hNone]
        · rw [hSame, hPrev]
          simpa using Ne.symm hNe
      simp [statusAfterSwitch, hNe, hNot]
    simp only [hPrev, if_true, Kernel.setStatus, Kernel.setThread]
    congr 1
    funext u
    by_cases hEq : u = t
    · subst hEq
      simp [statusAfterSwitch]
    · simp [Function.update_of_ne hEq, hStatus u hEq]
  · simp only [hPrev, if_false]
    unfold unscheduleActive
    cases activeThread with
    | none =>
      simp only [Kernel.setStatus, Kernel.setThread]
      congr 1
      · funext u
        by_cases hEq : u = t
        · subst hEq
          simp [statusAfterSwitch]
        · simp [statusAfterSwitch, hEq]
      · simp
    | some active =>
      have hNe : active ≠ t := by
        rintro rfl
        rcases hArgs with hNone | hSame
        · cases hNone
        · exact hPrev hSame.symm
      unfold unschedule
      simp only [Kernel.setStatus, Kernel.setThread, Function.update_of_ne hNe]
      by_cases hRun : (k.thread active).status = .running
      · simp only [hRun, if_true]
        congr 1
        · funext u
          by_cases hEq : u = t
          · subst hEq
            simp [Function.update_of_ne (Ne.symm hNe), statusAfterSwitch]
          · by_cases hAct : u = active
            · subst hAct
              simp [statusAfterSwitch, hEq, hRun]
            · simp [Function.update_of_ne hAct, statusAfterSwitch, hEq, Ne.symm hAct]
        · simp [Function.update_of_ne (Ne.symm hNe)]
      · simp only [hRun, if_false]
        congr 1
        · funext u
          by_cases hEq : u = t
          · subst hEq
            simp [statusAfterSwitch]
          · by_cases hAct : u = active
            · subst hAct
              simp [statusAfterSwitch, hEq, hRun]
            · simp [statusAfterSwitch, hEq, Ne.symm hAct]
        · simp

/- Only the selected thread can become runnable. -/
theorem statusAfterSwitch_onRunqueue
    (activeThread : Option (Fin N)) (u : Fin N) :
    (statusAfterSwitch k activeThread t u).onRunqueue =
      (decide (u = t) || (k.thread u).status.onRunqueue) := by
  unfold statusAfterSwitch
  by_cases hEq : u = t
  · rw [if_pos hEq, decide_eq_true hEq]
    rfl
  · rw [if_neg hEq, decide_eq_false hEq]
    split
    · rename_i hActive
      rw [hActive.2]
      rfl
    · rfl

/- Rotation keeps the members of every queue. -/
theorem mem_rotatedQueues_iff
    {p : Nat} :
    t ∈ rotatedQueues q p ↔ t ∈ q p := by
  unfold rotatedQueues
  rw [mem_update_iff, List.mem_rotate]
  by_cases hEq : p = 1
  · subst hEq
    simp
  · simp [hEq]

/- The expiry test, on the kernel before the switch. -/
theorem serviceTimeFired_switchedKernel
    {activeThread previousThread : Option (Fin N)}
    (hArgs : activeThread = none ∨ activeThread = previousThread) :
    serviceTimeFired (switchedKernel k activeThread previousThread t) activeThread t =
      activeThread.any (fun active =>
        !exemptPid (k.thread active).pid && timeAfterCharge k activeThread t == 0) := by
  rw [switchedKernel_eq hArgs]
  cases activeThread with
  | none => rfl
  | some active => rfl

/- `sched_run` selects the first thread of the served queue. -/
theorem schedRunFrom_eq
    {activeThread previousThread : Option (Fin N)} {rest : List (Fin N)}
    (hArgs : activeThread = none ∨ activeThread = previousThread)
    (hQ : Runqueues k.next q) (hCache : CacheServes cfg k q)
    (hServed : q (servedQueue q) = t :: rest) :
    ∃ mem, schedRunFrom cfg k activeThread previousThread =
          some (finishRun (switchedKernel k activeThread previousThread t) mem t) ∧
        Runqueues mem (queuesAfterRun k activeThread previousThread t q) ∧
        SameOutside k.next mem (OnQueues q) := by
  have hLevel : servedQueue q < schedPrioLevels := by
    unfold servedQueue
    split <;> decide
  have hFirst : clistFirst k.next (.runqueue (servedQueue q)) = some t := by
    rw [clistFirst_eq (hQ.circular _ hLevel), hServed]
    rfl
  have hNext : (switchedKernel k activeThread previousThread t).next = k.next := by
    rw [switchedKernel_eq hArgs]
  -- The expiry test pops queue 1 or leaves the memory alone.
  have hExpire : ∃ popped, expireNext
            (switchedKernel k activeThread previousThread t)
            activeThread t = some popped ∧
          Runqueues popped
            (expiredQueues
              (serviceTimeFired (switchedKernel k activeThread previousThread t) activeThread t)
              q) ∧ SameOutside k.next popped (OnQueues q) := by
    unfold expireNext expiredQueues
    rw [hNext]
    split
    · rcases hQ.lpop (by decide : 1 < schedPrioLevels) with ⟨mem, hPop, hQ', hSame⟩
      exact ⟨mem, by simp [hPop], hQ', hSame⟩
    · exact ⟨k.next, rfl, hQ, .refl⟩
  rcases hExpire with ⟨popped, hPopped, hQ₁, hSame₁⟩
  rcases hQ₁.rotateRunqueues_eq with ⟨mem, hRotated, hQ₂, hSame₂⟩
  refine ⟨mem, ?_, hQ₂, ?_⟩
  · unfold switchedKernel at hPopped ⊢
    unfold schedRunFrom
    rw [nextRunqueue_eq hQ hCache]
    simp only [Option.bind_eq_bind, Option.bind_some, hFirst]
    rw [hPopped, Option.bind_some, hRotated, Option.bind_some]
  · exact hSame₁.trans (hSame₂.mono (fun _ h => h.elim))

/-
  The next `sched_run` drops the first node of queue 1: it
  charges a thread other than the first two, and the first
  thread of queue 1 then has no service time left.
-/
def Kernel.expiresNext
    (k : Kernel N) : Bool :=
  k.schedActiveThread.any (fun active =>
    !exemptPid (k.thread active).pid &&
      (k.runqueue 1).head?.any (fun next =>
        timeAfterCharge k (some active) next == 0))

/- The steps of a `sched_run` that returns. -/
theorem schedRunFrom_some
    {k' : Kernel N} {activeThread previousThread : Option (Fin N)}
    (hRun : schedRunFrom cfg k activeThread previousThread = some k') :
    ∃ nextrq t popped mem, nextRunqueue cfg k = some nextrq ∧
        clistFirst k.next (.runqueue nextrq) = some t ∧
        expireNext (switchedKernel k activeThread previousThread t) activeThread t = some popped ∧
        rotateRunqueues popped = some mem ∧
        k' = finishRun (switchedKernel k activeThread previousThread t) mem t := by
  rcases Option.bind_eq_some_iff.mp hRun with ⟨nextrq, hQueue, hRest⟩
  rcases Option.bind_eq_some_iff.mp hRest with ⟨t, hFirst, hRest₁⟩
  rcases Option.bind_eq_some_iff.mp hRest₁ with ⟨popped, hPopped, hRest₂⟩
  rcases Option.bind_eq_some_iff.mp hRest₂ with ⟨mem, hRotated, hLast⟩
  cases hLast
  exact ⟨nextrq, t, popped, mem, hQueue, hFirst, hPopped, hRotated, rfl⟩

/- With the served queue empty, `sched_run` faults. -/
theorem schedRunFrom_none
    {activeThread previousThread : Option (Fin N)} (hQ : Runqueues k.next q)
    (hCache : CacheServes cfg k q) (hServed : q (servedQueue q) = []) :
    schedRunFrom cfg k activeThread previousThread = none := by
  have hLevel : servedQueue q < schedPrioLevels := by
    unfold servedQueue
    split <;> decide
  unfold schedRunFrom
  rw [nextRunqueue_eq hQ hCache]
  simp only [Option.bind_eq_bind, Option.bind_some]
  rw [clistFirst_eq (hQ.circular _ hLevel), hServed]
  rfl

end Riot
