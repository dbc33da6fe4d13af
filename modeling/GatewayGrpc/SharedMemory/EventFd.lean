import GatewayGrpc.Library.Run

/-!
# `EventFd` and the descriptor table

`EventFd` keeps the number of a descriptor. The number means what the descriptor table of the
process says at the moment, and the wrapper that `eventfd` returns closes its descriptor when it
is dropped.
-/

namespace GatewayGrpc.SharedMemory
open Library

inductive Errno
  | ebadf
  | eagain
  | other (code : Nat)
  deriving DecidableEq, Repr

inductive EventFdError
  | nix (e : Errno)
  | invalidState
  deriving DecidableEq, Repr

structure EventObject where
  counter : Nat
  semaphore : Bool
  deriving DecidableEq, Repr

inductive Description
  | eventfd (object : Nat)
  | other
  deriving DecidableEq, Repr

structure EventFd where
  fd : Nat
  deriving DecidableEq, Repr

structure Value where
  eventFd : EventFd
  object : Nat
  live : Bool
  deriving DecidableEq, Repr

structure Process where
  table : List (Option Description)
  objects : List EventObject
  values : List Value
  deriving DecidableEq, Repr

/-- What `read` or `write` gives on a descriptor that is no eventfd: an error, fewer than eight
bytes, or eight bytes that hold a number. -/
abbrev Foreign := Except Errno (Option Nat)

namespace Process

/-! ## The kernel -/

def lookup (s : Process) (fd : Nat) : Option Description := (s.table[fd]?).join

def lowestFree (table : List (Option Description)) : Nat := table.findIdx Option.isNone

def allocate (s : Process) (d : Description) : Nat × Process :=
  let fd := lowestFree s.table
  (fd, { s with table := if fd < s.table.length then s.table.set fd (some d)
                         else s.table ++ [some d] })

def close (s : Process) (fd : Nat) : Process := { s with table := s.table.set fd none }

def eventfd (s : Process) (semaphore : Bool) : Nat × Process :=
  let (fd, s) := s.allocate (.eventfd s.objects.length)
  (fd, { s with objects := s.objects ++ [⟨0, semaphore⟩] })

/-- An object with a counter of zero does not block: all are made with `EFD_NONBLOCK`. -/
def read (s : Process) (fd : Nat) (foreign : Foreign) : Foreign × Process :=
  match s.lookup fd with
  | none => (.error .ebadf, s)
  | some .other => (foreign, s)
  | some (.eventfd o) =>
      match s.objects[o]? with
      | none => (.error .ebadf, s)
      | some object =>
          if object.counter = 0 then (.error .eagain, s)
          else
            let taken := if object.semaphore then 1 else object.counter
            (.ok (some taken), { s with
              objects := s.objects.set o { object with counter := object.counter - taken } })

/-- `write` of the number 1; a counter stays below the greatest 64-bit number. -/
def write (s : Process) (fd : Nat) (foreign : Foreign) : Foreign × Process :=
  match s.lookup fd with
  | none => (.error .ebadf, s)
  | some .other => (foreign, s)
  | some (.eventfd o) =>
      match s.objects[o]? with
      | none => (.error .ebadf, s)
      | some object =>
          if object.counter + 1 < UInt64.size - 1 then
            (.ok (some 8), { s with
              objects := s.objects.set o { object with counter := object.counter + 1 } })
          else (.error .eagain, s)

/-! ## The methods of `EventFd` -/

/-- `EventFd::new` and `EventFd::new_semaphore`. `as_raw_fd` only borrows the descriptor, so its
owner closes it at the end of the constructor. -/
def construct (s : Process) (semaphore : Bool) : Process :=
  let object := s.objects.length
  let (fd, s) := s.eventfd semaphore
  { s.close fd with values := s.values ++ [⟨⟨fd⟩, object, true⟩] }

def signal (s : Process) (ev : EventFd) (foreign : Foreign) : Except EventFdError Unit × Process :=
  match s.write ev.fd foreign with
  | (.ok _, s) => (.ok (), s)
  | (.error e, s) => (.error (.nix e), s)

def wait (s : Process) (ev : EventFd) (foreign : Foreign) : Except EventFdError Nat × Process :=
  match s.read ev.fd foreign with
  | (.ok (some n), s) => (.ok n, s)
  | (.ok none, s) => (.error .invalidState, s)
  | (.error e, s) => (.error (.nix e), s)

def tryWait (s : Process) (ev : EventFd) (foreign : Foreign) :
    Except EventFdError (Option Nat) × Process :=
  match s.read ev.fd foreign with
  | (.ok (some n), s) => (.ok (some n), s)
  | (.error .eagain, s) => (.ok none, s)
  | (.error e, s) => (.error (.nix e), s)
  | (.ok none, s) => (.error .invalidState, s)

def clear (s : Process) (ev : EventFd) (foreign : Foreign) : Except EventFdError Nat × Process :=
  match s.read ev.fd foreign with
  | (.ok (some n), s) => (.ok n, s)
  | (.error .eagain, s) => (.ok 0, s)
  | (.error e, s) => (.error (.nix e), s)
  | (.ok none, s) => (.error .invalidState, s)

def drop (s : Process) (i : Nat) : Process :=
  match s.values[i]? with
  | some v => { s.close v.eventFd.fd with values := s.values.set i { v with live := false } }
  | none => s

def live (s : Process) (i : Nat) : Option Value := s.values[i]?.filter Value.live

end Process

/-! ## Actions -/

/-- The methods on the `i`-th `EventFd`, and what the rest of the process does. The kernel may
refuse an `eventfd`. -/
inductive Process.Action
  | new (granted : Bool)
  | newSemaphore (granted : Bool)
  | pairNew (tx rx : Bool)
  | signal (i : Nat) (foreign : Foreign)
  | wait (i : Nat) (foreign : Foreign)
  | tryWait (i : Nat) (foreign : Foreign)
  | clear (i : Nat) (foreign : Foreign)
  | drop (i : Nat)
  | openOther
  | closeOther (fd : Nat)

namespace Process

/-- The states that an action passes through. Where the second `EventFd` of a pair is refused, the
first is dropped. -/
def course (s : Process) : Action → List Process
  | .new granted => [if granted then s.construct false else s]
  | .newSemaphore granted => [if granted then s.construct true else s]
  | .pairNew tx rx =>
      if tx then
        let first := s.construct false
        [first, if rx then first.construct false else first.drop s.values.length]
      else [s]
  | .signal i foreign => ((s.live i).map fun v => (s.signal v.eventFd foreign).2).toList
  | .wait i foreign => ((s.live i).map fun v => (s.wait v.eventFd foreign).2).toList
  | .tryWait i foreign => ((s.live i).map fun v => (s.tryWait v.eventFd foreign).2).toList
  | .clear i foreign => ((s.live i).map fun v => (s.clear v.eventFd foreign).2).toList
  | .drop i => ((s.live i).map fun _ => s.drop i).toList
  | .openOther => [(s.allocate .other).2]
  | .closeOther fd => if s.lookup fd = some .other then [s.close fd] else []

def step (s : Process) (a : Action) : Option Process := (s.course a).getLast?

def start (used : List Bool) : Process where
  table := used.map fun taken => if taken then some .other else none
  objects := []
  values := []

/-! ## The law of an `EventFd` -/

/-- Each live `EventFd` refers to its own object, and no two share a descriptor. -/
structure Owned (s : Process) : Prop where
  own : ∀ i, ∀ v ∈ s.live i, s.lookup v.eventFd.fd = some (.eventfd v.object)
  apart : ∀ i j, ∀ v ∈ s.live i, ∀ w ∈ s.live j, v.eventFd.fd = w.eventFd.fd → i = j

def count (s : Process) (o : Nat) : Nat := (s.objects[o]?.map EventObject.counter).getD 0

def share (s : Process) (o : Nat) : Nat :=
  if (s.objects[o]?.map EventObject.semaphore).getD false then 1 else s.count o

structure Moves (s t : Process) (o n : Nat) : Prop where
  count : t.count o = n
  others : ∀ p, p ≠ o → t.objects[p]? = s.objects[p]?
  table : t.table = s.table

def Lawful (s : Process) : Action → Prop
  | .signal i foreign => ∀ v ∈ s.live i, ∀ t, s.signal v.eventFd foreign = (.ok (), t) →
      Moves s t v.object (s.count v.object + 1)
  | .wait i foreign => ∀ v ∈ s.live i, ∀ n t, s.wait v.eventFd foreign = (.ok n, t) →
      n = s.share v.object ∧ Moves s t v.object (s.count v.object - n)
  | .tryWait i foreign => ∀ v ∈ s.live i, ∀ n t, s.tryWait v.eventFd foreign = (.ok (some n), t) →
      n = s.share v.object ∧ Moves s t v.object (s.count v.object - n)
  | .clear i foreign => ∀ v ∈ s.live i, ∀ n t, s.clear v.eventFd foreign = (.ok n, t) →
      Moves s t v.object 0
  | .drop i => ∀ v ∈ s.live i, s.lookup v.eventFd.fd = some (.eventfd v.object) ∧
      ∀ fd, fd ≠ v.eventFd.fd → (s.drop i).lookup fd = s.lookup fd
  | _ => True

def Correct (s : Process) (a : Action) : Prop := (∀ t ∈ s.course a, t.Owned) ∧ s.Lawful a

def Action.Constructs : Action → Prop
  | .new granted | .newSemaphore granted => granted
  | .pairNew tx _ => tx
  | _ => False

variable {s t : Process}

/-! ## Descriptors -/

theorem lookup_lowestFree (s : Process) : s.lookup (lowestFree s.table) = none := by
  unfold lookup lowestFree
  rcases Nat.lt_or_ge (s.table.findIdx Option.isNone) s.table.length with inside | outside
  · rw [List.getElem?_eq_getElem inside]
    exact Option.isNone_iff_eq_none.mp List.findIdx_getElem
  · rw [List.getElem?_eq_none outside]
    rfl

theorem lookup_of_lt_lowestFree {fd : Nat} (below : fd < lowestFree s.table) :
    s.lookup fd ≠ none := by
  have inside : fd < s.table.length := Nat.lt_of_lt_of_le below List.findIdx_le_length
  have used := List.not_of_lt_findIdx below
  unfold lookup
  rw [List.getElem?_eq_getElem inside]
  intro free
  rw [Option.join_some] at free
  simp [free] at used

theorem lowestFree_eq_of_lookup (same : ∀ fd, t.lookup fd = s.lookup fd) :
    lowestFree t.table = lowestFree s.table := by
  apply Nat.le_antisymm
  · apply Nat.le_of_not_lt
    intro below
    exact lookup_of_lt_lowestFree below ((same _).trans (lookup_lowestFree s))
  · apply Nat.le_of_not_lt
    intro below
    exact lookup_of_lt_lowestFree below ((same _).symm.trans (lookup_lowestFree t))

theorem lookup_allocate (s : Process) (d : Description) (fd : Nat) :
    (s.allocate d).2.lookup fd = if fd = lowestFree s.table then some d else s.lookup fd := by
  have bound : lowestFree s.table ≤ s.table.length := List.findIdx_le_length
  unfold lookup allocate
  dsimp only
  split_ifs with inside same same
  · subst same
    rw [List.getElem?_set_self inside, Option.join_some]
  · rw [List.getElem?_set_ne (Ne.symm same)]
  · have last : fd = s.table.length := by omega
    rw [last, List.getElem?_concat_length, Option.join_some]
  · rcases Nat.lt_or_ge fd s.table.length with before | beyond
    · rw [List.getElem?_append_left before]
    · rw [List.getElem?_eq_none (by simp; omega), List.getElem?_eq_none beyond]

theorem lookup_close (s : Process) (closed fd : Nat) :
    (s.close closed).lookup fd = if fd = closed then none else s.lookup fd := by
  unfold lookup close
  dsimp only
  split_ifs with same
  · subst same
    rw [List.getElem?_set_self']
    cases s.table[fd]? <;> rfl
  · rw [List.getElem?_set_ne (Ne.symm same)]

theorem lookup_construct (s : Process) (semaphore : Bool) (fd : Nat) :
    (s.construct semaphore).lookup fd = s.lookup fd := by
  have closed : (s.construct semaphore).lookup fd =
      ((s.eventfd semaphore).2.close (lowestFree s.table)).lookup fd := rfl
  have opened : (s.eventfd semaphore).2.lookup fd =
      (s.allocate (.eventfd s.objects.length)).2.lookup fd := rfl
  rw [closed, lookup_close, opened, lookup_allocate]
  split_ifs with same
  · rw [same, lookup_lowestFree]
  · rfl

theorem live_construct (s : Process) (semaphore : Bool) :
    (s.construct semaphore).live s.values.length =
      some ⟨⟨lowestFree s.table⟩, s.objects.length, true⟩ := by
  have last : (s.construct semaphore).values[s.values.length]? =
      some ⟨⟨lowestFree s.table⟩, s.objects.length, true⟩ := List.getElem?_concat_length
  rw [live, last]
  rfl

theorem lowestFree_construct (s : Process) (semaphore : Bool) :
    lowestFree (s.construct semaphore).table = lowestFree s.table :=
  lowestFree_eq_of_lookup (lookup_construct s semaphore)

theorem not_owned_construct (s : Process) (semaphore : Bool) : ¬ (s.construct semaphore).Owned := by
  intro owned
  have own := owned.own s.values.length _ (live_construct s semaphore)
  rw [lookup_construct, lookup_lowestFree] at own
  cases own

/-- Even on its own open descriptor, `clear` takes one from a semaphore and leaves the rest. -/
theorem count_clear_iff {ev : EventFd} {o : Nat} {object : EventObject} (foreign : Foreign)
    (here : s.lookup ev.fd = some (.eventfd o)) (held : s.objects[o]? = some object) :
    (s.clear ev foreign).2.count o = 0 ↔ object.semaphore = false ∨ object.counter ≤ 1 := by
  have inside : o < s.objects.length := (List.getElem?_eq_some_iff.mp held).1
  by_cases empty : object.counter = 0
  · have stays : s.clear ev foreign = (.ok 0, s) := by
      simp only [clear, read, here, held, if_pos empty]
    simp [stays, count, held, empty]
  · simp only [clear, read, here, held, if_neg empty, count, List.getElem?_set_self inside,
      Option.map_some, Option.getD_some]
    cases object.semaphore with
    | false => simp
    | true =>
        simp only [if_true, Bool.true_eq_false, false_or]
        omega

/-! ## Runs -/

theorem live_of_empty (empty : s.values = []) (i : Nat) : s.live i = none := by
  simp [live, empty]

theorem owned_of_empty (empty : s.values = []) : s.Owned where
  own := fun i v held => by simp [live_of_empty empty] at held
  apart := fun i j v held => by simp [live_of_empty empty] at held

theorem course_empty (empty : s.values = []) {a : Action} (none : ¬ a.Constructs)
    (reached : t ∈ s.course a) : t.values = [] := by
  cases a with
  | new granted | newSemaphore granted =>
      have refused : granted = false := by simpa [Action.Constructs] using none
      subst refused
      rw [List.mem_singleton.mp reached]
      exact empty
  | pairNew tx rx =>
      have refused : tx = false := by simpa [Action.Constructs] using none
      subst refused
      rw [List.mem_singleton.mp reached]
      exact empty
  | openOther =>
      rw [List.mem_singleton.mp reached]
      exact empty
  | closeOther fd =>
      simp only [course] at reached
      split_ifs at reached
      · rw [List.mem_singleton.mp reached]
        exact empty
      · cases reached
  | _ => simp [course, live_of_empty empty] at reached

theorem correct_of_empty (empty : s.values = []) {a : Action} (none : ¬ a.Constructs) :
    s.Correct a := by
  constructor
  · intro t reached
    exact owned_of_empty (course_empty empty none reached)
  · cases a <;> simp [Lawful, live_of_empty empty]

theorem not_constructs_of_correct {a : Action} (correct : s.Correct a) : ¬ a.Constructs := by
  intro constructs
  cases a with
  | new granted | newSemaphore granted =>
      simp only [Action.Constructs] at constructs
      subst constructs
      exact not_owned_construct s _ (correct.1 _ (List.mem_singleton_self _))
  | pairNew tx rx =>
      simp only [Action.Constructs] at constructs
      subst constructs
      exact not_owned_construct s false (correct.1 _ (List.mem_cons_self ..))
  | _ => exact constructs

/-- Each `EventFd` of a run is its own live counter if and only if the run makes none. -/
theorem own_counter_iff (used : List Bool) (actions : List Action) :
    Along step Correct (start used) actions ↔
      Along step (fun _ a => ¬ a.Constructs) (start used) actions := by
  apply along_iff (I := fun s => s.values = [])
  · intro s a t empty none action
    exact course_empty empty none (List.mem_of_getLast? action)
  · intro s a _ empty
    exact ⟨not_constructs_of_correct, correct_of_empty empty⟩
  · rfl

theorem constructed_closed : ¬ ∀ used actions, Along step Correct (start used) actions := by
  intro correct
  exact not_constructs_of_correct (correct [true, true, true] [.new true]).1 rfl

end Process

end GatewayGrpc.SharedMemory
