import GatewayGrpc.SharedMemory.Create

/-!
# Starting the shared memory servers

`ShmServerEventfd::new` and `ShmServerUds::new` of `backend/src`. Both create a ring for the
requests and one for the responses, and bind a socket at the end; the first makes two eventfds in
between.
-/

namespace GatewayGrpc.Backend
open Library Fallible SharedMemory SharedMemoryRingBuffer

inductive ServerError
  | requestBuffer (e : CreateError)
  | responseBuffer (e : CreateError)
  | requestEvent (e : Errno)
  | responseEvent (e : Errno)
  | controlListener (e : Errno)
  | notifyListener (e : Errno)
  deriving DecidableEq, Repr

def ServerError.display (cause : String) : ServerError → String
  | .requestBuffer e => "Failed to create request buffer: " ++ e.display cause
  | .responseBuffer e => "Failed to create response buffer: " ++ e.display cause
  | .requestEvent _ => "Failed to create request eventfd: " ++ cause
  | .responseEvent _ => "Failed to create response eventfd: " ++ cause
  | .controlListener _ => "Failed to bind control socket: " ++ cause
  | .notifyListener _ => "Failed to bind notification socket: " ++ cause

structure ServerKernel where
  request : CreateKernel
  response : CreateKernel
  removeFile : Option Errno
  bind : Option Errno
  listen : Option Errno
  deriving DecidableEq, Repr

structure EventfdKernel extends ServerKernel where
  requestEvent : Option Errno
  responseEvent : Option Errno
  deriving DecidableEq, Repr

def ServerKernel.granting : ServerKernel := ⟨.granting, .granting, none, none, none⟩

def EventfdKernel.granting : EventfdKernel := ⟨.granting, none, none⟩

def withRing {α : Type} (name : String) (kernel : CreateKernel)
    (failed : CreateError → ServerError) (rest : RingMapping → Fallible Os ServerError α) :
    Fallible Os ServerError α := do
  let buffer ← (create name .default kernel).adapt failed
  dropping (drop buffer) (rest buffer)

/-- A socket at `path`, in place of what an earlier run has left there. -/
def listenAt (path : String) (kernel : ServerKernel) (failed : Errno → ServerError) :
    Fallible Os ServerError UnixListener := do
  ignore (removeFile path kernel.removeFile)
  (UnixListener.bind path kernel.bind kernel.listen).adapt failed

structure ShmServerEventfd where
  name : String
  requestBuffer : RingMapping
  responseBuffer : RingMapping
  requestEvent : EventObject
  responseEvent : EventObject
  controlListener : UnixListener
  deriving DecidableEq, Repr

structure ShmServerUds where
  name : String
  requestBuffer : RingMapping
  responseBuffer : RingMapping
  notifyListener : UnixListener
  deriving DecidableEq, Repr

def controlPath (name : String) : String := "/tmp/" ++ name ++ "_control.sock"

def notifyPath (name : String) : String := "/tmp/" ++ name ++ "_notify.sock"

def ShmServerEventfd.new (name : String) (kernel : EventfdKernel) :
    Fallible Os ServerError ShmServerEventfd :=
  withRing (name ++ "_req_buf") kernel.request .requestBuffer fun requestBuffer =>
  withRing (name ++ "_resp_buf") kernel.response .responseBuffer fun responseBuffer => do
    let requestEvent ← (eventfd kernel.requestEvent).adapt .requestEvent
    let responseEvent ← (eventfd kernel.responseEvent).adapt .responseEvent
    let controlListener ← listenAt (controlPath name) kernel.toServerKernel .controlListener
    return ⟨name, requestBuffer, responseBuffer, requestEvent, responseEvent, controlListener⟩

def ShmServerUds.new (name : String) (kernel : ServerKernel) :
    Fallible Os ServerError ShmServerUds :=
  withRing (name ++ "_req_buf") kernel.request .requestBuffer fun requestBuffer =>
  withRing (name ++ "_resp_buf") kernel.response .responseBuffer fun responseBuffer => do
    let notifyListener ← listenAt (notifyPath name) kernel .notifyListener
    return ⟨name, requestBuffer, responseBuffer, notifyListener⟩

def Listens (path : String) (kernel : ServerKernel) (os : Os) : Prop :=
  kernel.bind = none ∧ kernel.listen = none ∧ (kernel.removeFile = none ∨ os.paths path = false)

def ShmServerEventfd.Completes (name : String) (kernel : EventfdKernel) (os : Os) : Prop :=
  Maps .default kernel.request ∧
    Opens (name ++ "_resp_buf") kernel.response os ∧ Maps .default kernel.response ∧
    kernel.requestEvent = none ∧ kernel.responseEvent = none ∧
    Listens (controlPath name) kernel.toServerKernel os

def ShmServerUds.Completes (name : String) (kernel : ServerKernel) (os : Os) : Prop :=
  Maps .default kernel.request ∧
    Opens (name ++ "_resp_buf") kernel.response os ∧ Maps .default kernel.response ∧
    Listens (notifyPath name) kernel os

/-! ## The socket -/

variable {name path : String} {kernel : ServerKernel} {os : Os} {failed : Errno → ServerError}

theorem grows_listenAt : Grows Os.names (listenAt path kernel failed) := by
  apply (grows_removeFile path kernel.removeFile).ignore.bind
  intro _
  exact (grows_bind path kernel.bind kernel.listen).adapt failed

theorem outcome_ignore_removeFile (path : String) (refused : Option Errno) (os : Os) :
    ∃ t, outcome (ignore (removeFile path refused) : Fallible Os ServerError Unit) os =
      some (.ok (), t) ∧ (t.paths path = false ↔ refused = none ∨ os.paths path = false) := by
  cases refused with
  | some e => exact ⟨os, rfl, by simp⟩
  | none =>
      cases taken : os.paths path with
      | false =>
          refine ⟨os, ?_, by simp [taken]⟩
          simp [ignore, removeFile, outcome_of, taken]
      | true =>
          refine ⟨{ os with paths := Function.update os.paths path false }, ?_, by simp⟩
          simp [ignore, removeFile, outcome_of, taken]

theorem stops_bind_iff {refused listenRefused : Option Errno} :
    Stops (UnixListener.bind path refused listenRefused) os ↔
      ¬ (refused = none ∧ listenRefused = none ∧ os.paths path = false) := by
  simp only [Stops, UnixListener.bind, outcome_of]
  cases refused with
  | some e => simp
  | none =>
      cases taken : os.paths path with
      | true => simp
      | false => cases listenRefused <;> simp

theorem stops_listenAt_iff : Stops (listenAt path kernel failed) os ↔ ¬ Listens path kernel os := by
  obtain ⟨t, ran, free⟩ := outcome_ignore_removeFile path kernel.removeFile os
  refine (stops_bind_of_ok ran).trans (stops_adapt.trans ?_)
  rw [stops_bind_iff, free, Listens]

/-! ## The rings -/

variable {α : Type} {kernel : CreateKernel} {failed : CreateError → ServerError}
  {rest : RingMapping → Fallible Os ServerError α}

theorem outcome_withRing_of_not_opens (fails : ¬ Opens name kernel os) :
    ∃ e, outcome (withRing name kernel failed rest) os = some (.error e, os) := by
  obtain ⟨e, ran⟩ := outcome_create_of_not_opens .default fails
  refine ⟨failed e, outcome_bind_of_error ?_⟩
  rw [outcome_adapt, ran]
  rfl

theorem leaves_withRing (opens : Opens name kernel os)
    (grows : ∀ buffer, Grows Os.names (rest buffer)) :
    Leaves Os.names (insert name os.names) (withRing name kernel failed rest) os := by
  apply ((leaves_create opens).adapt failed).bind
  intro buffer
  exact (grows buffer).dropping fun _ => le_rfl

theorem grows_withRing (grows : ∀ buffer, Grows Os.names (rest buffer)) :
    Grows Os.names (withRing name kernel failed rest) := by
  apply (grows_create.adapt failed).bind
  intro buffer
  exact (grows buffer).dropping fun _ => le_rfl

theorem stops_withRing_iff {P : Prop}
    (ends : ∀ buffer o, Stops (rest buffer) (os.put name o) ↔ ¬ P) :
    Stops (withRing name kernel failed rest) os ↔
      ¬ (Opens name kernel os ∧ Maps .default kernel ∧ P) := by
  by_cases opens : Opens name kernel os
  · by_cases maps : Maps .default kernel
    · have fits : ¬ totalSize (.ofNat ShmConfig.default.bufferSize) = 0 := by decide
      have made := (outcome_create opens maps).trans (if_neg fits)
      refine (stops_bind_of_ok (outcome_adapt_of_ok made)).trans (stops_dropping.trans ?_)
      rw [ends]
      simp [opens, maps]
    · refine iff_of_true (stops_adapt.mpr ((stops_create_iff opens).mpr maps)).bind ?_
      rintro ⟨_, mapped, _⟩
      exact maps mapped
  · obtain ⟨e, ran⟩ := outcome_withRing_of_not_opens opens
    refine iff_of_true ⟨e, os, ran⟩ ?_
    rintro ⟨opened, _⟩
    exact opens opened

theorem stops_withRing_of_left {β : Type} {before : Fallible Os ServerError β}
    {r : Except ServerError β} {after : Os}
    (leaves : Leaves Os.names (insert name os.names) before os)
    (ran : outcome before os = some (r, after)) {cleared : List String} (kept : name ∉ cleared) :
    Stops (withRing name kernel failed rest) (after.unlink cleared) := by
  have left : name ∈ after.names := leaves r after ran (Set.mem_insert name os.names)
  have taken := (after.mem_names_unlink cleared name).mpr ⟨kept, left⟩
  obtain ⟨e, again⟩ := outcome_withRing_of_not_opens (not_opens_of_taken taken)
  exact ⟨e, _, again⟩

theorem resp_buf_ne_req_buf (name : String) : name ++ "_resp_buf" ≠ name ++ "_req_buf" := by
  intro same
  have ends := (String.append_right_inj name).mp same
  revert ends
  decide

theorem opens_put {other : String} (apart : other ≠ name) (o : ShmObject) :
    Opens other kernel (os.put name o) ↔ Opens other kernel os := by
  rw [Opens, Opens, os.shm_put_of_ne apart]

/-! ## The constructors -/

theorem stops_eventfd_bind {refused : Option Errno} {g : Errno → ServerError}
    {f : EventObject → Fallible Os ServerError α} :
    Stops (ExceptT.adapt g (eventfd refused) >>= f) os ↔
      ¬ (refused = none ∧ ¬ Stops (f ⟨0, false⟩) os) := by
  cases refused with
  | some e =>
      have stops : Stops (eventfd (some e)) os := ⟨e, os, rfl⟩
      exact iff_of_true (stops_adapt.mpr stops).bind (by simp)
  | none =>
      have made : outcome (eventfd none) os = some (.ok ⟨0, false⟩, os) := rfl
      refine (stops_bind_of_ok (outcome_adapt_of_ok made)).trans ?_
      simp

section TwoRings
variable {request response : CreateKernel}
  {finish : RingMapping → RingMapping → Fallible Os ServerError α}
  (opens : Opens (name ++ "_req_buf") request os)
include opens

theorem leaves_rings (grows : ∀ buffer buffer', Grows Os.names (finish buffer buffer')) :
    Leaves Os.names (insert (name ++ "_req_buf") os.names)
      (withRing (name ++ "_req_buf") request .requestBuffer fun buffer =>
        withRing (name ++ "_resp_buf") response .responseBuffer (finish buffer)) os := by
  apply leaves_withRing opens
  intro buffer
  apply grows_withRing
  intro buffer'
  exact grows buffer buffer'

theorem stops_rings_iff {P : Prop} (ends : ∀ buffer buffer' t, t.paths = os.paths →
      (Stops (finish buffer buffer') t ↔ ¬ P)) :
    Stops (withRing (name ++ "_req_buf") request .requestBuffer fun buffer =>
        withRing (name ++ "_resp_buf") response .responseBuffer (finish buffer)) os ↔
      ¬ (Maps .default request ∧ Opens (name ++ "_resp_buf") response os ∧
        Maps .default response ∧ P) := by
  refine (stops_withRing_iff ?_).trans (not_congr (and_iff_right opens))
  intro buffer o
  rw [← opens_put (resp_buf_ne_req_buf name) o]
  apply stops_withRing_iff
  intro buffer' o'
  exact ends buffer buffer' _ rfl

end TwoRings

theorem leaves_shmServerEventfd {kernel : EventfdKernel}
    (opens : Opens (name ++ "_req_buf") kernel.request os) :
    Leaves Os.names (insert (name ++ "_req_buf") os.names) (ShmServerEventfd.new name kernel) os := by
  apply leaves_rings opens
  intro _ _
  apply ((grows_eventfd _).adapt _).bind
  intro _
  apply ((grows_eventfd _).adapt _).bind
  intro _
  apply grows_listenAt.bind
  intro _
  exact grows_pure _

theorem stops_shmServerEventfd_iff {kernel : EventfdKernel}
    (opens : Opens (name ++ "_req_buf") kernel.request os) :
    Stops (ShmServerEventfd.new name kernel) os ↔ ¬ ShmServerEventfd.Completes name kernel os := by
  apply stops_rings_iff opens
  intro _ _ t same
  refine stops_eventfd_bind.trans (not_congr (and_congr_right fun _ => ?_))
  rw [stops_eventfd_bind, not_not]
  refine and_congr_right fun _ => ?_
  rw [stops_bind_of_never fun _ _ => not_stops_pure _ _, stops_listenAt_iff, not_not, Listens,
    Listens, same]

theorem leaves_shmServerUds {kernel : ServerKernel}
    (opens : Opens (name ++ "_req_buf") kernel.request os) :
    Leaves Os.names (insert (name ++ "_req_buf") os.names) (ShmServerUds.new name kernel) os := by
  apply leaves_rings opens
  intro _ _
  apply grows_listenAt.bind
  intro _
  exact grows_pure _

theorem stops_shmServerUds_iff {kernel : ServerKernel}
    (opens : Opens (name ++ "_req_buf") kernel.request os) :
    Stops (ShmServerUds.new name kernel) os ↔ ¬ ShmServerUds.Completes name kernel os := by
  apply stops_rings_iff opens
  intro _ _ t same
  rw [stops_bind_of_never fun _ _ => not_stops_pure _ _, stops_listenAt_iff, Listens, Listens, same]

/-! ## The next attempt -/

theorem stops_retry_shmServerEventfd {kernel later : EventfdKernel} {e : ServerError} {after : Os}
    (opens : Opens (name ++ "_req_buf") kernel.request os)
    (failed : outcome (ShmServerEventfd.new name kernel) os = some (.error e, after))
    {cleared : List String} (kept : name ++ "_req_buf" ∉ cleared) :
    Stops (ShmServerEventfd.new name later) (after.unlink cleared) :=
  stops_withRing_of_left (leaves_shmServerEventfd opens) failed kept

theorem stops_retry_shmServerUds {kernel later : ServerKernel} {e : ServerError} {after : Os}
    (opens : Opens (name ++ "_req_buf") kernel.request os)
    (failed : outcome (ShmServerUds.new name kernel) os = some (.error e, after))
    {cleared : List String} (kept : name ++ "_req_buf" ∉ cleared) :
    Stops (ShmServerUds.new name later) (after.unlink cleared) :=
  stops_withRing_of_left (leaves_shmServerUds opens) failed kept

/-! ## All or nothing -/

theorem allOrNothing_shmServerEventfd_iff {kernel : EventfdKernel} :
    AllOrNothing (ShmServerEventfd.new name) kernel os ↔
      ¬ Opens (name ++ "_req_buf") kernel.request os ∨
        ShmServerEventfd.Completes name kernel os := by
  apply allOrNothing_iff
  · exact outcome_withRing_of_not_opens
  · exact leaves_shmServerEventfd
  · exact stops_shmServerEventfd_iff

theorem allOrNothing_shmServerUds_iff {kernel : ServerKernel} :
    AllOrNothing (ShmServerUds.new name) kernel os ↔
      ¬ Opens (name ++ "_req_buf") kernel.request os ∨ ShmServerUds.Completes name kernel os := by
  apply allOrNothing_iff
  · exact outcome_withRing_of_not_opens
  · exact leaves_shmServerUds
  · exact stops_shmServerUds_iff

/-- A constructor is all or nothing where its first `shm_open` is what fails, or nothing fails. -/
theorem construction_all_or_nothing_iff (name : String) (config : ShmConfig) (ring : CreateKernel)
    (eventfds : EventfdKernel) (uds : ServerKernel) (os : Os) :
    (AllOrNothing (create name config) ring os ↔ ¬ Opens name ring os ∨ Maps config ring) ∧
    (AllOrNothing (ShmServerEventfd.new name) eventfds os ↔
      ¬ Opens (name ++ "_req_buf") eventfds.request os ∨
        ShmServerEventfd.Completes name eventfds os) ∧
    (AllOrNothing (ShmServerUds.new name) uds os ↔
      ¬ Opens (name ++ "_req_buf") uds.request os ∨ ShmServerUds.Completes name uds os) :=
  ⟨allOrNothing_create_iff, allOrNothing_shmServerEventfd_iff, allOrNothing_shmServerUds_iff⟩

def responseLeft : Os :=
  Os.empty.put ("backend" ++ "_resp_buf") (.created (.ofNat ShmConfig.default.bufferSize))

theorem shmServerEventfd_leaves_request_ring :
    ¬ AllOrNothing (ShmServerEventfd.new "backend") .granting responseLeft := by
  intro all
  rcases allOrNothing_shmServerEventfd_iff.mp all with closed | ⟨_, ⟨_, free⟩, _⟩
  · apply closed
    exact (opens_put (resp_buf_ne_req_buf "backend").symm _).mpr ⟨rfl, rfl⟩
  · rw [responseLeft, Os.shm_put_self] at free
    cases free

end GatewayGrpc.Backend
