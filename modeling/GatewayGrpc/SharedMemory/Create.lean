import Mathlib.Data.Set.Lattice
import Mathlib.Order.CompletePartialOrder
import GatewayGrpc.Library.Fallible
import GatewayGrpc.SharedMemory.Attach
import GatewayGrpc.SharedMemory.EventFd

/-!
# `SharedMemoryRingBuffer::create` and what it leaves behind

`create` and the calls of the kernel that a server is built with, on the names outside the process:
those of the shared memory objects, and the paths of sockets. What the kernel refuses for reasons of
its own is a parameter of each call.
-/

namespace GatewayGrpc.SharedMemory
open Library Fallible

structure Os where
  shm : String → Option ShmObject
  paths : String → Bool

namespace Os

def empty : Os := ⟨fun _ => none, fun _ => false⟩

def names (os : Os) : Set String := {name | (os.shm name).isSome}

def put (os : Os) (name : String) (o : ShmObject) : Os :=
  { os with shm := Function.update os.shm name (some o) }

def unlink (os : Os) (cleared : List String) : Os :=
  { os with shm := fun name => if name ∈ cleared then none else os.shm name }

end Os

def ENOENT : Errno := .other 2
def EEXIST : Errno := .other 17
def EINVAL : Errno := .other 22
def EADDRINUSE : Errno := .other 98

/-! ## The kernel -/

def shmOpen (name : String) (refused : Option Errno) : Fallible Os Errno Unit :=
  .of fun os =>
    match refused, os.shm name with
    | some e, _ => some (.error e, os)
    | none, some _ => some (.error EEXIST, os)
    | none, none => some (.ok (), os.put name .empty)

/-- The size is passed as an `i64`, which is negative from `2^63` on. -/
def ftruncate (name : String) (size : Nat) (refused : Option Errno) : Fallible Os Errno Unit :=
  .of fun os =>
    match refused, os.shm name with
    | some e, _ => some (.error e, os)
    | none, none => some (.error EINVAL, os)
    | none, some o =>
        if 2 ^ 63 ≤ size then some (.error EINVAL, os)
        else some (.ok (), os.put name { o with size := size })

/-- Gives the length of the mapping, which is that of the object. -/
def mapMut (name : String) (refused : Option Errno) : Fallible Os Errno Nat :=
  .of fun os =>
    match refused, os.shm name with
    | some e, _ => some (.error e, os)
    | none, none => some (.error EINVAL, os)
    | none, some o => some (.ok o.size, os)

/-- `header.write(header)`. A mapping has whole pages, so that the store kills the process only
where the object has none. -/
def storeHeader {ε : Type} (name : String) (header : RingBufferHeader) : Fallible Os ε Unit :=
  .of fun os =>
    match os.shm name with
    | none => none
    | some o =>
        if o.size = 0 then none
        else some (.ok (), os.put name { o with ring := { o.ring with header := header } })

def eventfd (refused : Option Errno) : Fallible Os Errno EventObject :=
  .of fun os =>
    match refused with
    | some e => some (.error e, os)
    | none => some (.ok ⟨0, false⟩, os)

def removeFile (path : String) (refused : Option Errno) : Fallible Os Errno Unit :=
  .of fun os =>
    match refused, os.paths path with
    | some e, _ => some (.error e, os)
    | none, false => some (.error ENOENT, os)
    | none, true => some (.ok (), { os with paths := Function.update os.paths path false })

structure UnixListener where
  path : String
  deriving DecidableEq, Repr

/-- `UnixListener::bind`. The path is made before the socket listens, and stays if it cannot. -/
def UnixListener.bind (path : String) (refused listenRefused : Option Errno) :
    Fallible Os Errno UnixListener :=
  .of fun os =>
    match refused, os.paths path with
    | some e, _ => some (.error e, os)
    | none, true => some (.error EADDRINUSE, os)
    | none, false =>
        let os := { os with paths := Function.update os.paths path true }
        match listenRefused with
        | some e => some (.error e, os)
        | none => some (.ok ⟨path⟩, os)

/-! ## `create` -/

inductive CreateError
  | nix (e : Errno)
  | io (e : Errno)
  deriving DecidableEq, Repr

def CreateError.display (cause : String) : CreateError → String
  | .nix _ => "Nix error: " ++ cause
  | .io _ => "IO error: " ++ cause

structure CreateKernel where
  shmOpen : Option Errno
  ftruncate : Option Errno
  mmap : Option Errno
  deriving DecidableEq, Repr

def CreateKernel.granting : CreateKernel := ⟨none, none, none⟩

structure RingMapping where
  name : String
  len : Nat
  dataOffset : Nat
  dataSize : Nat
  deriving DecidableEq, Repr

def SharedMemoryRingBuffer.create (name : String) (config : ShmConfig) (kernel : CreateKernel) :
    Fallible Os CreateError RingMapping := do
  let bufferSize := UInt64.ofNat config.bufferSize
  (shmOpen name kernel.shmOpen).adapt CreateError.nix
  (ftruncate name (totalSize bufferSize) kernel.ftruncate).adapt CreateError.nix
  let len ← (mapMut name kernel.mmap).adapt CreateError.io
  storeHeader name (.new bufferSize.toNat)
  return ⟨name, len, headerSize, bufferSize.toNat⟩

/-- Unlinks nothing: the object may be in use by other processes. -/
def SharedMemoryRingBuffer.drop (_ : RingMapping) (os : Os) : Os := os

def ShmObject.created (bufferSize : UInt64) : ShmObject where
  size := totalSize bufferSize
  ring := ⟨.new bufferSize.toNat, fun _ => 0⟩

def Opens (name : String) (kernel : CreateKernel) (os : Os) : Prop :=
  kernel.shmOpen = none ∧ os.shm name = none

def Maps (config : ShmConfig) (kernel : CreateKernel) : Prop :=
  (kernel.ftruncate = none ∧ totalSize (.ofNat config.bufferSize) < 2 ^ 63) ∧ kernel.mmap = none

/-- A construction that returns an error has changed no name, and a retry succeeds wherever it would
have succeeded at first: with other answers of the kernel, and once some names are unlinked. -/
structure AllOrNothing {Kernel ε α : Type} (construct : Kernel → Fallible Os ε α) (kernel : Kernel)
    (os : Os) : Prop where
  names : Clean Os.names (construct kernel) os
  retry : ∀ e after, outcome (construct kernel) os = some (.error e, after) →
    ∀ (later : Kernel) (cleared : List String),
      Succeeds (construct later) (os.unlink cleared) →
        Succeeds (construct later) (after.unlink cleared)

/-! ## The names -/

namespace Os

theorem names_put (os : Os) (name : String) (o : ShmObject) :
    (os.put name o).names = insert name os.names := by
  ext other
  by_cases same : other = name
  · simp [names, put, same]
  · simp [names, put, same]

theorem put_put (os : Os) (name : String) (o o' : ShmObject) :
    (os.put name o).put name o' = os.put name o' := by
  simp [put]

@[simp] theorem shm_put_self (os : Os) (name : String) (o : ShmObject) :
    (os.put name o).shm name = some o :=
  Function.update_self ..

theorem shm_put_of_ne (os : Os) {name other : String} (apart : other ≠ name) (o : ShmObject) :
    (os.put name o).shm other = os.shm other :=
  Function.update_of_ne apart ..

theorem mem_names_unlink (os : Os) (cleared : List String) (name : String) :
    name ∈ (os.unlink cleared).names ↔ name ∉ cleared ∧ name ∈ os.names := by
  by_cases gone : name ∈ cleared
  · simp [names, unlink, gone]
  · simp [names, unlink, gone]

theorem names_le_put (os : Os) (name : String) (o : ShmObject) :
    os.names ≤ (os.put name o).names := by
  rw [names_put]
  exact Set.subset_insert name os.names

end Os

theorem grows_ftruncate (name : String) (size : Nat) (refused : Option Errno) :
    Grows Os.names (ftruncate name size refused) := by
  intro os r t ran
  simp only [ftruncate, outcome_of] at ran
  split at ran
  · cases ran
    exact le_rfl
  · cases ran
    exact le_rfl
  · split_ifs at ran <;> cases ran
    · exact le_rfl
    · exact os.names_le_put name _

theorem grows_mapMut (name : String) (refused : Option Errno) :
    Grows Os.names (mapMut name refused) := by
  intro os r t ran
  simp only [mapMut, outcome_of] at ran
  split at ran <;> cases ran <;> exact le_rfl

theorem grows_storeHeader {ε : Type} (name : String) (header : RingBufferHeader) :
    Grows Os.names (storeHeader name header : Fallible Os ε Unit) := by
  intro os r t ran
  simp only [storeHeader, outcome_of] at ran
  split at ran
  · cases ran
  · split_ifs at ran
    cases ran
    exact os.names_le_put name _

theorem grows_eventfd (refused : Option Errno) : Grows Os.names (eventfd refused) := by
  intro os r t ran
  simp only [eventfd, outcome_of] at ran
  split at ran <;> cases ran <;> exact le_rfl

theorem grows_removeFile (path : String) (refused : Option Errno) :
    Grows Os.names (removeFile path refused) := by
  intro os r t ran
  simp only [removeFile, outcome_of] at ran
  split at ran <;> cases ran <;> exact le_rfl

theorem grows_bind (path : String) (refused listenRefused : Option Errno) :
    Grows Os.names (UnixListener.bind path refused listenRefused) := by
  intro os r t ran
  simp only [UnixListener.bind, outcome_of] at ran
  split at ran
  · cases ran
    exact le_rfl
  · cases ran
    exact le_rfl
  · split at ran <;> cases ran <;> exact le_rfl

/-! ## What `create` does -/

variable {name : String} {config : ShmConfig} {kernel : CreateKernel} {os : Os}

theorem outcome_shmOpen (opens : Opens name kernel os) :
    outcome (shmOpen name kernel.shmOpen) os = some (.ok (), os.put name .empty) := by
  rw [shmOpen, outcome_of, opens.1, opens.2]

theorem outcome_shmOpen_of_not_opens (fails : ¬ Opens name kernel os) :
    ∃ e, outcome (shmOpen name kernel.shmOpen) os = some (.error e, os) := by
  rw [shmOpen, outcome_of]
  split
  · exact ⟨_, rfl⟩
  · exact ⟨_, rfl⟩
  · rename_i granted free
    exact absurd ⟨granted, free⟩ fails

open SharedMemoryRingBuffer

theorem outcome_create_of_not_opens (config : ShmConfig) (fails : ¬ Opens name kernel os) :
    ∃ e, outcome (create name config kernel) os = some (.error e, os) := by
  obtain ⟨e, ran⟩ := outcome_shmOpen_of_not_opens fails
  refine ⟨.nix e, outcome_bind_of_error ?_⟩
  rw [outcome_adapt, ran]
  rfl

theorem Opens.lt_insert (opens : Opens name kernel os) : os.names < insert name os.names := by
  apply Set.ssubset_insert
  simp [Os.names, opens.2]

theorem leaves_create (opens : Opens name kernel os) :
    Leaves Os.names (insert name os.names) (create name config kernel) os := by
  have opened : Leaves Os.names (insert name os.names) (shmOpen name kernel.shmOpen) os := by
    intro r t ran
    cases (outcome_shmOpen opens).symm.trans ran
    exact (os.names_put name _).ge
  apply (opened.adapt _).bind
  intro _
  apply ((grows_ftruncate _ _ _).adapt _).bind
  intro _
  apply ((grows_mapMut _ _).adapt _).bind
  intro _
  apply (grows_storeHeader _ _).bind
  intro _
  exact grows_pure _

theorem grows_create : Grows Os.names (create name config kernel) := by
  intro os r t ran
  by_cases opens : Opens name kernel os
  · exact opens.lt_insert.le.trans (leaves_create opens r t ran)
  · obtain ⟨e, failed⟩ := outcome_create_of_not_opens config opens
    cases failed.symm.trans ran
    exact le_rfl

theorem outcome_ftruncate {size : Nat} (granted : kernel.ftruncate = none) (small : size < 2 ^ 63)
    (o : ShmObject) :
    outcome (ftruncate name size kernel.ftruncate) (os.put name o) =
      some (.ok (), os.put name { o with size := size }) := by
  rw [ftruncate, outcome_of, granted, Os.shm_put_self]
  dsimp only
  rw [if_neg (Nat.not_le.mpr small), Os.put_put]

theorem stops_ftruncate {size : Nat} (fails : ¬ (kernel.ftruncate = none ∧ size < 2 ^ 63))
    (o : ShmObject) : Stops (ftruncate name size kernel.ftruncate) (os.put name o) := by
  simp only [Stops, ftruncate, outcome_of, Os.shm_put_self]
  cases refused : kernel.ftruncate with
  | some e => exact ⟨e, _, rfl⟩
  | none =>
      have large : 2 ^ 63 ≤ size := Nat.le_of_not_lt fun small => fails ⟨refused, small⟩
      exact ⟨EINVAL, _, if_pos large⟩

theorem outcome_mapMut (granted : kernel.mmap = none) (o : ShmObject) :
    outcome (mapMut name kernel.mmap) (os.put name o) = some (.ok o.size, os.put name o) := by
  rw [mapMut, outcome_of, granted, Os.shm_put_self]

theorem stops_mapMut (refused : kernel.mmap ≠ none) (o : ShmObject) :
    Stops (mapMut name kernel.mmap) (os.put name o) := by
  obtain ⟨e, same⟩ := Option.ne_none_iff_exists'.mp refused
  rw [Stops, mapMut, outcome_of, same]
  exact ⟨e, _, rfl⟩

theorem outcome_storeHeader {ε : Type} (header : RingBufferHeader) (o : ShmObject) :
    outcome (storeHeader name header : Fallible Os ε Unit) (os.put name o) =
      if o.size = 0 then none
      else some (.ok (), os.put name { o with ring := { o.ring with header := header } }) := by
  rw [storeHeader, outcome_of, Os.shm_put_self]
  dsimp only
  rw [Os.put_put]

theorem outcome_create (opens : Opens name kernel os) (maps : Maps config kernel) :
    outcome (create name config kernel) os =
      if totalSize (.ofNat config.bufferSize) = 0 then none
      else some
        (.ok ⟨name, totalSize (.ofNat config.bufferSize), headerSize,
          (UInt64.ofNat config.bufferSize).toNat⟩,
        os.put name (.created (.ofNat config.bufferSize))) := by
  obtain ⟨⟨sized, small⟩, mapped⟩ := maps
  refine (outcome_bind_of_ok (outcome_adapt_of_ok (outcome_shmOpen opens))).trans ?_
  refine (outcome_bind_of_ok (outcome_adapt_of_ok (outcome_ftruncate sized small _))).trans ?_
  refine (outcome_bind_of_ok (outcome_adapt_of_ok (outcome_mapMut mapped _))).trans ?_
  split_ifs with empty
  · apply outcome_bind_of_none
    rw [outcome_storeHeader, if_pos empty]
  · refine (outcome_bind_of_ok ((outcome_storeHeader _ _).trans (if_neg empty))).trans ?_
    rfl

theorem stops_create_iff (opens : Opens name kernel os) :
    Stops (create name config kernel) os ↔ ¬ Maps config kernel := by
  constructor
  · rintro ⟨e, t, ran⟩ maps
    rw [outcome_create opens maps] at ran
    split_ifs at ran
    cases ran
  · intro fails
    refine (stops_bind_of_ok (outcome_adapt_of_ok (outcome_shmOpen opens))).mpr ?_
    by_cases sized : kernel.ftruncate = none ∧ totalSize (.ofNat config.bufferSize) < 2 ^ 63
    · refine (stops_bind_of_ok (outcome_adapt_of_ok (outcome_ftruncate sized.1 sized.2 _))).mpr ?_
      have refused : kernel.mmap ≠ none := fun mapped => fails ⟨sized, mapped⟩
      exact (stops_adapt.mpr (stops_mapMut refused _)).bind
    · exact (stops_adapt.mpr (stops_ftruncate sized _)).bind

theorem allOrNothing_iff {Kernel ε α : Type} {construct : Kernel → Fallible Os ε α}
    {whole : Kernel} {completes : Prop}
    (untouched : ¬ Opens name kernel os → ∃ e, outcome (construct whole) os = some (.error e, os))
    (leaves : Opens name kernel os →
      Leaves Os.names (insert name os.names) (construct whole) os)
    (stops : Opens name kernel os → (Stops (construct whole) os ↔ ¬ completes)) :
    AllOrNothing construct whole os ↔ ¬ Opens name kernel os ∨ completes := by
  by_cases opens : Opens name kernel os
  · rw [or_iff_right (not_not_intro opens)]
    have clean := clean_iff_of_leaves opens.lt_insert (leaves opens)
    constructor
    · intro all
      exact not_not.mp ((stops opens).not.mp (clean.mp all.names))
    · intro done
      have goes := (stops opens).not.mpr (not_not_intro done)
      exact ⟨clean.mpr goes, fun e t ran => absurd ⟨e, t, ran⟩ goes⟩
  · obtain ⟨e, ran⟩ := untouched opens
    refine iff_of_true ⟨clean_of_error ran, ?_⟩ (.inl opens)
    intro e' after other later cleared again
    cases ran.symm.trans other
    exact again

theorem allOrNothing_create_iff :
    AllOrNothing (create name config) kernel os ↔ ¬ Opens name kernel os ∨ Maps config kernel :=
  allOrNothing_iff (outcome_create_of_not_opens config) leaves_create stops_create_iff

theorem not_opens_of_taken (taken : name ∈ os.names) : ¬ Opens name kernel os := by
  rintro ⟨_, free⟩
  simp [Os.names, free] at taken

/-! ## The same steps among openers -/

theorem storeField_comm (bufferSize : UInt64) (ring : SharedMemoryRingBuffer) (f g : Field) :
    storeField bufferSize (storeField bufferSize ring f) g =
      storeField bufferSize (storeField bufferSize ring g) f := by
  cases f <;> cases g <;> rfl

theorem foldl_storeField (order : StoreOrder) (bufferSize : UInt64)
    (ring : SharedMemoryRingBuffer) :
    order.fields.foldl (storeField bufferSize) ring =
      { ring with header := .new bufferSize.toNat } := by
  have perm : order.fields.Perm StoreOrder.declared.fields := by
    apply (List.perm_ext_iff_of_nodup order.nodup StoreOrder.declared.nodup).mpr
    intro f
    exact iff_of_true (order.all f) (StoreOrder.declared.all f)
  rw [perm.foldl_eq' fun f _ g _ ring => storeField_comm bufferSize ring f g]
  rfl

theorem run_stores (order : StoreOrder) (bufferSize : UInt64) (fields : List Field) {o : ShmObject}
    (whole : o.size ≠ 0) :
    run (Attach.step order bufferSize) ⟨some o, .storing fields, [], []⟩
        (List.replicate fields.length .store) =
      some ⟨some { o with ring := fields.foldl (storeField bufferSize) o.ring },
        .storing [], [], []⟩ := by
  induction fields generalizing o with
  | nil => rfl
  | cons f fields ih =>
      rw [List.length_cons, List.replicate_succ, run_cons, List.foldl_cons]
      simp only [Attach.step, if_neg whole, Option.bind_some]
      exact ih whole

/-- The steps of `Attach`, which the openers interleave with, leave the object that `create`
does. -/
theorem run_creator (order : StoreOrder) {bufferSize : UInt64}
    (whole : totalSize bufferSize ≠ 0) :
    run (Attach.step order bufferSize) Attach.start
        ([.create, .truncate, .map] ++ List.replicate order.fields.length .store) =
      some ⟨some (.created bufferSize), .storing [], [], []⟩ := by
  let sized : ShmObject := ⟨totalSize bufferSize, ShmObject.empty.ring⟩
  have stored := run_stores order bufferSize order.fields (o := sized) whole
  rw [foldl_storeField] at stored
  rw [run_append]
  exact stored

end GatewayGrpc.SharedMemory
