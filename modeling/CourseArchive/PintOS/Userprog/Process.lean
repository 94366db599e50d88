import CourseArchive.Lib.Runs

/-! A process and its children in `userprog/process.c`, interleaved statement by statement over the records they
share. A record is named by the tid of its thread, which `allocate_tid` never gives twice. -/

namespace CourseArchive.PintOS

structure ThreadAdditionalInfo where
  tid : ℤ
  exited : Bool
  orphan : Bool
  exitStatus : ℤ
  waitExitSema : ℕ
  startSema : ℕ
  deriving DecidableEq

inductive Slot
  | unused
  | live
  | freed
  deriving DecidableEq

inductive Misuse
  | afterFree (i : ℕ)
  | doubleFree (i : ℕ)
  deriving DecidableEq

/-- The next statement of the parent that touches a record: in `process_execute`, `process_wait` or
`process_exit`. -/
inductive ParentPc
  | idle
  | create (i : ℕ)
  | freeUncreated (i : ℕ)
  | initExited (i : ℕ)
  | initOrphan (i : ℕ)
  | initExitStatus (i : ℕ)
  | initWaitExitSema (i : ℕ)
  | downStartSema (i : ℕ)
  | checkTid (i : ℕ)
  | freeUnloaded (i : ℕ)
  | pushBack (i : ℕ)
  | search (childTid : ℤ) (it : List ℕ)
  | searchNext (childTid : ℤ) (i : ℕ) (it : List ℕ)
  | testExited (childTid : ℤ) (i : ℕ)
  | downWaitExitSema (childTid : ℤ) (i : ℕ)
  | retestExited (childTid : ℤ) (i : ℕ)
  | takeStatus (childTid : ℤ) (i : ℕ)
  | remove (childTid : ℤ) (i : ℕ) (exitStatus : ℤ)
  | freeWaited (childTid : ℤ) (i : ℕ) (exitStatus : ℤ)
  | exitTest (it : List ℕ)
  | exitFree (i : ℕ) (it : List ℕ)
  | exitOrphan (i : ℕ) (it : List ℕ)
  | exitNext (i : ℕ) (it : List ℕ)
  | gone
  deriving DecidableEq

/-- The next statement of a child: in `start_process`, `exit` or `process_exit`. The last four know which status
it passed to `exit`, if it got that far. -/
inductive ChildPc
  | absent
  | loading
  | storeTid
  | upStartSema (success : Bool)
  | running
  | storeExitStatus (status : ℤ)
  | setExited (status : Option ℤ)
  | upWaitExitSema (status : Option ℤ)
  | testOrphan (status : Option ℤ)
  | freeOwn (status : Option ℤ)
  | done (status : Option ℤ)
  deriving DecidableEq

inductive Event
  | executed (tid : ℤ)
  | waited (childTid exitStatus : ℤ)
  deriving DecidableEq

structure Family where
  infos : ℕ → ThreadAdditionalInfo
  slots : ℕ → Slot
  children : List ℕ
  parent : ParentPc
  child : ℕ → ChildPc
  log : List Event
  misuse : List Misuse

namespace Family

def touch (s : Family) (i : ℕ) : Family :=
  if s.slots i = .live then s else { s with misuse := s.misuse ++ [.afterFree i] }

def load (s : Family) (stale : ThreadAdditionalInfo) (i : ℕ) : ThreadAdditionalInfo :=
  if s.slots i = .live then s.infos i else stale

def store (s : Family) (i : ℕ) (f : ThreadAdditionalInfo → ThreadAdditionalInfo) : Family :=
  if s.slots i = .live then { s with infos := Function.update s.infos i (f (s.infos i)) } else s.touch i

def free (s : Family) (i : ℕ) : Family :=
  if s.slots i = .live then { s with slots := Function.update s.slots i .freed }
  else { s with misuse := s.misuse ++ [.doubleFree i] }

def goto (s : Family) (pc : ParentPc) : Family := { s with parent := pc }

def childGoto (s : Family) (i : ℕ) (pc : ChildPc) : Family := { s with child := Function.update s.child i pc }

def event (s : Family) (e : Event) : Family := { s with log := s.log ++ [e] }

def touchAll (s : Family) (is : List ℕ) : Family := is.foldl touch s

end Family

def neighbours (l : List ℕ) (i : ℕ) : List ℕ :=
  (l.zip l.tail).filterMap fun (a, b) => if a = i then some b else if b = i then some a else none

/-- The next statement of the parent, or `none` while a semaphore blocks it. `created` is the success of
`thread_create`. -/
def parentStep (s : Family) (created : Bool) (stale : ThreadAdditionalInfo) : Option Family :=
  match s.parent with
  | .idle => none
  | .create i =>
    if created then some ((s.goto (.initExited i)).childGoto i .loading) else some (s.goto (.freeUncreated i))
  | .freeUncreated i => some (((s.free i).event (.executed (-1))).goto .idle)
  | .initExited i => some ((s.store i fun info => { info with exited := false }).goto (.initOrphan i))
  | .initOrphan i => some ((s.store i fun info => { info with orphan := false }).goto (.initExitStatus i))
  | .initExitStatus i => some ((s.store i fun info => { info with exitStatus := -1 }).goto (.initWaitExitSema i))
  | .initWaitExitSema i => some ((s.store i fun info => { info with waitExitSema := 0 }).goto (.downStartSema i))
  | .downStartSema i =>
    if (s.load stale i).startSema = 0 then none
    else some ((s.store i fun info => { info with startSema := info.startSema - 1 }).goto (.checkTid i))
  | .checkTid i =>
    if (s.load stale i).tid = -1 then some ((s.touch i).goto (.freeUnloaded i))
    else some ((s.touch i).goto (.pushBack i))
  | .freeUnloaded i => some (((s.free i).event (.executed (-1))).goto .idle)
  | .pushBack i =>
    let s := s.touchAll (s.children.getLast?.toList ++ [i])
    some (({ s with children := s.children ++ [i] }.event (.executed i)).goto .idle)
  | .search childTid [] => some ((s.event (.waited childTid (-1))).goto .idle)
  | .search childTid (i :: it) =>
    if (s.load stale i).tid = childTid then some ((s.touch i).goto (.testExited childTid i))
    else some ((s.touch i).goto (.searchNext childTid i it))
  | .searchNext childTid i it => some ((s.touch i).goto (.search childTid it))
  | .testExited childTid i =>
    if (s.load stale i).exited then some ((s.touch i).goto (.retestExited childTid i))
    else some ((s.touch i).goto (.downWaitExitSema childTid i))
  | .downWaitExitSema childTid i =>
    if (s.load stale i).waitExitSema = 0 then none
    else some ((s.store i fun info => { info with waitExitSema := info.waitExitSema - 1 }).goto
      (.retestExited childTid i))
  | .retestExited childTid i =>
    if (s.load stale i).exited then some ((s.touch i).goto (.takeStatus childTid i))
    else some (((s.touch i).event (.waited childTid (-1))).goto .idle)
  | .takeStatus childTid i => some ((s.touch i).goto (.remove childTid i (s.load stale i).exitStatus))
  | .remove childTid i exitStatus =>
    let s := s.touchAll (i :: neighbours s.children i)
    some ({ s with children := s.children.erase i }.goto (.freeWaited childTid i exitStatus))
  | .freeWaited childTid i exitStatus => some (((s.free i).event (.waited childTid exitStatus)).goto .idle)
  | .exitTest [] => some (s.goto .gone)
  | .exitTest (i :: it) =>
    if (s.load stale i).exited then some ((s.touch i).goto (.exitFree i it))
    else some ((s.touch i).goto (.exitOrphan i it))
  | .exitFree i it => some ((s.free i).goto (.exitNext i it))
  | .exitOrphan i it => some ((s.store i fun info => { info with orphan := true }).goto (.exitNext i it))
  | .exitNext i it => some ((s.touch i).goto (.exitTest it))
  | .gone => none

def childStep (s : Family) (i : ℕ) (stale : ThreadAdditionalInfo) : Option Family :=
  match s.child i with
  | .absent | .loading | .running | .done _ => none
  | .storeTid => some ((s.store i fun info => { info with tid := i }).childGoto i (.upStartSema true))
  | .upStartSema success =>
    some ((s.store i fun info => { info with startSema := info.startSema + 1 }).childGoto i
      (if success then .running else .setExited none))
  | .storeExitStatus status =>
    some ((s.store i fun info => { info with exitStatus := status }).childGoto i (.setExited (some status)))
  | .setExited status =>
    some ((s.store i fun info => { info with exited := true }).childGoto i (.upWaitExitSema status))
  | .upWaitExitSema status =>
    some ((s.store i fun info => { info with waitExitSema := info.waitExitSema + 1 }).childGoto i
      (.testOrphan status))
  | .testOrphan status =>
    some ((s.touch i).childGoto i (if (s.load stale i).orphan then .freeOwn status else .done status))
  | .freeOwn status => some ((s.free i).childGoto i (.done status))

inductive Move
  | execute (i : ℕ) (garbage : ThreadAdditionalInfo)
  | wait (childTid : ℤ)
  | leave
  | parent (created : Bool) (stale : ThreadAdditionalInfo)
  | load (i : ℕ) (success : Bool)
  | exit (i : ℕ) (status : ℤ)
  | kill (i : ℕ)
  | child (i : ℕ) (stale : ThreadAdditionalInfo)

/-- One statement of the parent or of a child. `malloc` hands out garbage, of which `process_execute` sets two
members before the child exists. -/
def step (s : Family) : Move → Option Family
  | .execute i garbage =>
    if s.parent = .idle ∧ s.slots i = .unused then
      some ({ s with
        slots := Function.update s.slots i .live
        infos := Function.update s.infos i { garbage with startSema := 0, tid := -1 } }.goto (.create i))
    else none
  | .wait childTid => if s.parent = .idle then some (s.goto (.search childTid s.children)) else none
  | .leave => if s.parent = .idle then some (s.goto (.exitTest s.children)) else none
  | .parent created stale => parentStep s created stale
  | .load i success =>
    if s.child i = .loading then some (s.childGoto i (if success then .storeTid else .upStartSema false)) else none
  | .exit i status => if s.child i = .running then some (s.childGoto i (.storeExitStatus status)) else none
  | .kill i => if s.child i = .running then some (s.childGoto i (.setExited none)) else none
  | .child i stale => childStep s i stale

def newFamily : Family where
  infos := fun _ => ⟨0, false, false, 0, 0, 0⟩
  slots := fun _ => .unused
  children := []
  parent := .idle
  child := fun _ => .absent
  log := []
  misuse := []

end CourseArchive.PintOS
