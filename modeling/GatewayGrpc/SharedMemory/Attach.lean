import GatewayGrpc.SharedMemory.Arithmetic

/-!
# Attaching to a ring that is being created

`create` and `open` in their steps, in any order of one creator and any number of openers that
retry through `wait_for_shm`. `create` copies its header into the mapping in one assignment; the
order in which that stores the four fields is the compiler's, and a parameter here.
-/

namespace GatewayGrpc.SharedMemory
open Library SharedMemoryRingBuffer

inductive Field
  | writePos
  | readPos
  | capacity
  | magic
  deriving DecidableEq, Repr

/-- The fields of the header in the order in which they are stored. -/
structure StoreOrder where
  fields : List Field
  nodup : fields.Nodup
  all : ∀ f, f ∈ fields

def StoreOrder.declared : StoreOrder where
  fields := [.writePos, .readPos, .capacity, .magic]
  nodup := by decide
  all := by
    intro f
    cases f <;> decide

def storeField (bufferSize : UInt64) (ring : SharedMemoryRingBuffer) (f : Field) :
    SharedMemoryRingBuffer :=
  let created := RingBufferHeader.new bufferSize.toNat
  match f with
  | .writePos => { ring with header := { ring.header with writePos := created.writePos } }
  | .readPos => { ring with header := { ring.header with readPos := created.readPos } }
  | .capacity => { ring with header := { ring.header with capacity := created.capacity } }
  | .magic => { ring with header := { ring.header with magic := created.magic } }

/-- A shared memory object; bytes that were never written are zero. -/
structure ShmObject where
  size : Nat
  ring : SharedMemoryRingBuffer

def ShmObject.empty : ShmObject := ⟨0, ⟨0, 0, 0, 0⟩, fun _ => 0⟩

def totalSize (bufferSize : UInt64) : Nat := (headerSize + bufferSize.toNat) % 2 ^ 64

/-- How far `create` is: what it has yet to store, or where it failed. -/
inductive Creator
  | start
  | opened
  | truncated
  | storing (rest : List Field)
  | failed (sized : Bool)
  deriving DecidableEq, Repr

def Creator.sized : Creator → Bool
  | .start | .opened => false
  | .truncated | .storing _ => true
  | .failed sized => sized

def Creator.MagicFirst : Creator → Prop
  | .storing rest => .magic ∉ rest ∧ .capacity ∈ rest
  | _ => False

/-- A caller of `wait_for_shm`, with its failed attempts and the length of its mapping. -/
inductive Opener
  | trying (attempts : Nat)
  | opened (attempts : Nat)
  | mapped (attempts len : Nat)
  | attached (len : Nat)
  | timedOut
  | faulted
  deriving DecidableEq, Repr

def Opener.retry (attempts : Nat) : Opener :=
  if attempts + 1 > 50 then .timedOut else .trying (attempts + 1)

def Opener.isAttached : Opener → Bool
  | .attached _ => true
  | _ => false

/-- `produced` are the headers that `write` and `read` have left behind. -/
structure Attach where
  object : Option ShmObject
  creator : Creator
  openers : List Opener
  produced : List RingBufferHeader

inductive Attach.Action
  | create
  | truncate
  | map
  | store
  | createFails
  | arrive
  | openObject (i : Nat)
  | mapObject (i : Nat)
  | check (i : Nat)
  | openFails (i : Nat)
  | use (op : Op)

namespace Attach

def start : Attach := ⟨none, .start, [], []⟩

def setOpener (s : Attach) (i : Nat) (o : Opener) : Attach :=
  { s with openers := s.openers.set i o }

def step (order : StoreOrder) (bufferSize : UInt64) (s : Attach) : Action → Option Attach
  | .create =>
      match s.creator, s.object with
      | .start, none => some { s with object := some .empty, creator := .opened }
      | .start, some _ => some { s with creator := .failed false }
      | _, _ => none
  | .truncate =>
      match s.creator with
      | .opened => some { s with
          object := s.object.map fun o => { o with size := totalSize bufferSize }
          creator := .truncated }
      | _ => none
  | .map =>
      match s.creator with
      | .truncated => some { s with creator := .storing order.fields }
      | _ => none
  | .store =>
      match s.creator, s.object with
      | .storing (f :: rest), some o =>
          -- a mapping has whole pages: none of an empty object, and the store kills the creator
          if o.size = 0 then none
          else some { s with
            object := some { o with ring := storeField bufferSize o.ring f }
            creator := .storing rest }
      | _, _ => none
  | .createFails =>
      match s.creator with
      | .start | .opened => some { s with creator := .failed false }
      | .truncated => some { s with creator := .failed true }
      | _ => none
  | .arrive => some { s with openers := s.openers ++ [.trying 0] }
  | .openObject i =>
      match s.openers[i]?, s.object with
      | some (.trying n), none => some (s.setOpener i (.retry n))
      | some (.trying n), some _ => some (s.setOpener i (.opened n))
      | _, _ => none
  | .mapObject i =>
      match s.openers[i]?, s.object with
      | some (.opened n), some o => some (s.setOpener i (.mapped n o.size))
      | _, _ => none
  | .check i =>
      match s.openers[i]?, s.object with
      | some (.mapped n len), some o =>
          if o.size = 0 then some (s.setOpener i .faulted)
          else if o.ring.header.isValid then some (s.setOpener i (.attached len))
          else some (s.setOpener i (.retry n))
      | _, _ => none
  | .openFails i =>
      match s.openers[i]? with
      | some (.trying n) | some (.opened n) => some (s.setOpener i (.retry n))
      | _ => none
  | .use op =>
      match s.object with
      | some o =>
          if s.creator = .storing [] ∨ s.openers.any Opener.isAttached then
            let ring := (o.ring.respond op).2
            some { s with
              object := some { o with ring := ring }
              produced := s.produced ++ [ring.header] }
          else none
      | none => none

/-- Each field holds the value that `create` writes, or one that `write` or `read` has stored. -/
structure Published (bufferSize : UInt64) (produced : List RingBufferHeader)
    (header : RingBufferHeader) : Prop where
  writePos : header.writePos = 0 ∨ header.writePos ∈ produced.map RingBufferHeader.writePos
  readPos : header.readPos = 0 ∨ header.readPos ∈ produced.map RingBufferHeader.readPos
  capacity : header.capacity = bufferSize.toNat
  magic : header.magic = RingBufferHeader.MAGIC

/-- The check of `open` reads no byte behind the end of the object, and where it succeeds the
object is complete. -/
def Safe (bufferSize : UInt64) (s : Attach) : Action → Prop
  | .check i => ∀ n len, s.openers[i]? = some (.mapped n len) → ∀ o ∈ s.object,
      headerSize ≤ o.size ∧
        (o.ring.header.isValid →
          o.size = headerSize + bufferSize.toNat ∧ Published bufferSize s.produced o.ring.header)
  | _ => True

/-- No check comes before `ftruncate`, or after the store of the magic number and before that of
the capacity. -/
def Ready (bufferSize : UInt64) (s : Attach) : Action → Prop
  | .check i => ∀ n len, s.openers[i]? = some (.mapped n len) → ∀ o ∈ s.object,
      s.creator.sized ∧ headerSize + bufferSize.toNat < 2 ^ 64 ∧
        (s.creator.MagicFirst → bufferSize = 0)
  | _ => True

/-! ## The header on the way -/

def left (order : StoreOrder) : Creator → List Field
  | .storing rest => rest
  | _ => order.fields

structure Stored (rest : List Field) (f : Field) (held value : Nat) : Prop where
  before : f ∈ rest → held = 0
  after : f ∉ rest → held = value

structure Consistent (order : StoreOrder) (bufferSize : UInt64) (s : Attach) : Prop where
  size : ∀ o ∈ s.object, o.size = if s.creator.sized then totalSize bufferSize else 0
  capacity : ∀ o ∈ s.object,
    Stored (left order s.creator) .capacity o.ring.header.capacity bufferSize.toNat
  magic : ∀ o ∈ s.object,
    Stored (left order s.creator) .magic o.ring.header.magic RingBufferHeader.MAGIC
  writePos : ∀ o ∈ s.object, o.ring.header.writePos = 0 ∨
    o.ring.header.writePos ∈ s.produced.map RingBufferHeader.writePos
  readPos : ∀ o ∈ s.object, o.ring.header.readPos = 0 ∨
    o.ring.header.readPos ∈ s.produced.map RingBufferHeader.readPos
  suffix : left order s.creator <:+ order.fields
  unopened : s.creator = .start → s.object = none

variable {order : StoreOrder} {bufferSize : UInt64} {s t : Attach} {a : Action}

theorem consistent_start : Consistent order bufferSize start where
  size := fun o held => by cases held
  capacity := fun o held => by cases held
  magic := fun o held => by cases held
  writePos := fun o held => by cases held
  readPos := fun o held => by cases held
  suffix := List.suffix_refl _
  unopened := fun _ => rfl

theorem Consistent.setOpener (consistent : Consistent order bufferSize s) (i : Nat) (o : Opener) :
    Consistent order bufferSize (s.setOpener i o) :=
  ⟨consistent.size, consistent.capacity, consistent.magic, consistent.writePos, consistent.readPos,
    consistent.suffix, consistent.unopened⟩

theorem Consistent.setCreator (consistent : Consistent order bufferSize s) {creator : Creator}
    (sized : creator.sized = s.creator.sized) (kept : left order creator = left order s.creator)
    (begun : creator ≠ .start) : Consistent order bufferSize { s with creator := creator } where
  size := sized ▸ consistent.size
  capacity := kept ▸ consistent.capacity
  magic := kept ▸ consistent.magic
  writePos := consistent.writePos
  readPos := consistent.readPos
  suffix := kept ▸ consistent.suffix
  unopened := fun same => absurd same begun

theorem consistent_create (s : Attach) :
    Consistent order bufferSize { s with object := some .empty, creator := .opened } where
  size := by simp [ShmObject.empty, Creator.sized]
  capacity := fun o held => by
    cases held
    exact ⟨fun _ => rfl, fun stored => absurd (order.all .capacity) stored⟩
  magic := fun o held => by
    cases held
    exact ⟨fun _ => rfl, fun stored => absurd (order.all .magic) stored⟩
  writePos := by simp [ShmObject.empty]
  readPos := by simp [ShmObject.empty]
  suffix := List.suffix_refl _
  unopened := fun same => by cases same

theorem Consistent.truncate (consistent : Consistent order bufferSize s)
    (opened : s.creator = .opened) :
    Consistent order bufferSize { s with
      object := s.object.map fun o => { o with size := totalSize bufferSize }
      creator := .truncated } := by
  obtain ⟨object, creator, openers, produced⟩ := s
  dsimp only at opened
  subst opened
  refine ⟨?_, ?_, ?_, ?_, ?_, List.suffix_refl _, fun same => by cases same⟩
  all_goals
    intro o held
    obtain ⟨before, here, rfl⟩ := Option.map_eq_some_iff.mp held
  · rfl
  · exact consistent.capacity before here
  · exact consistent.magic before here
  · exact consistent.writePos before here
  · exact consistent.readPos before here

theorem Stored.tail {f g : Field} {rest : List Field} {held value : Nat}
    (stored : Stored (g :: rest) f held value) (other : f ≠ g) : Stored rest f held value where
  before := fun member => stored.before (List.mem_cons_of_mem g member)
  after := fun absent => stored.after (by simp [other, absent])

theorem Consistent.store (consistent : Consistent order bufferSize s) {f : Field}
    {rest : List Field} {o : ShmObject} (storing : s.creator = .storing (f :: rest))
    (held : s.object = some o) :
    Consistent order bufferSize { s with
      object := some { o with ring := storeField bufferSize o.ring f }
      creator := .storing rest } := by
  obtain ⟨object, creator, openers, produced⟩ := s
  dsimp only at storing held
  subst storing held
  have suffix : f :: rest <:+ order.fields := consistent.suffix
  have fresh := (List.nodup_cons.mp (order.nodup.sublist suffix.sublist)).1
  have size := consistent.size o rfl
  have capacity := consistent.capacity o rfl
  have magic := consistent.magic o rfl
  have writePos := consistent.writePos o rfl
  have readPos := consistent.readPos o rfl
  refine ⟨?_, ?_, ?_, ?_, ?_, (List.suffix_cons f rest).trans suffix, fun same => by cases same⟩
  all_goals
    intro stored here
    cases here
  · exact size
  · cases f with
    | capacity => exact ⟨fun member => absurd member fresh, fun _ => rfl⟩
    | writePos | readPos | magic => exact capacity.tail (by decide)
  · cases f with
    | magic => exact ⟨fun member => absurd member fresh, fun _ => rfl⟩
    | writePos | readPos | capacity => exact magic.tail (by decide)
  · cases f with
    | writePos => exact .inl rfl
    | readPos | capacity | magic => exact writePos
  · cases f with
    | readPos => exact .inl rfl
    | writePos | capacity | magic => exact readPos

theorem respond_header (ring : SharedMemoryRingBuffer) (op : Op) :
    (ring.respond op).2.header.capacity = ring.header.capacity ∧
      (ring.respond op).2.header.magic = ring.header.magic := by
  cases op with
  | write data =>
      simp only [respond, SharedMemoryRingBuffer.write]
      split_ifs <;> simp [storeWritePos]
  | read buf =>
      simp only [respond, SharedMemoryRingBuffer.read]
      split_ifs <;> exact ⟨rfl, rfl⟩

theorem Consistent.use (consistent : Consistent order bufferSize s) {o : ShmObject} (op : Op)
    (held : s.object = some o) :
    Consistent order bufferSize { s with
      object := some { o with ring := (o.ring.respond op).2 }
      produced := s.produced ++ [(o.ring.respond op).2.header] } := by
  obtain ⟨object, creator, openers, produced⟩ := s
  dsimp only at held
  subst held
  obtain ⟨capacity, magic⟩ := respond_header o.ring op
  refine ⟨by simpa using consistent.size, ?_, ?_, ?_, ?_, consistent.suffix, fun same => ?_⟩
  · simpa [capacity] using consistent.capacity
  · simpa [magic] using consistent.magic
  · simp
  · simp
  · cases consistent.unopened same

theorem Consistent.step (consistent : Consistent order bufferSize s)
    (action : s.step order bufferSize a = some t) : Consistent order bufferSize t := by
  cases a with
  | create =>
      simp only [Attach.step] at action
      split at action <;> cases action
      · exact consistent_create s
      · rename_i phase held
        cases (consistent.unopened phase).symm.trans held
  | truncate =>
      simp only [Attach.step] at action
      split at action <;> cases action
      exact consistent.truncate ‹_›
  | map =>
      simp only [Attach.step] at action
      split at action <;> cases action
      rename_i phase
      exact consistent.setCreator (by rw [phase]; rfl) (by rw [phase]; rfl) (by simp)
  | store =>
      simp only [Attach.step] at action
      split at action
      · rename_i f rest o phase held
        split_ifs at action with short
        cases action
        exact consistent.store phase held
      · cases action
  | createFails =>
      simp only [Attach.step] at action
      split at action <;> cases action
      all_goals
        rename_i phase
        exact consistent.setCreator (by rw [phase]; rfl) (by rw [phase]; rfl) (by simp)
  | arrive =>
      cases action
      exact ⟨consistent.size, consistent.capacity, consistent.magic, consistent.writePos,
        consistent.readPos, consistent.suffix, consistent.unopened⟩
  | openObject i | mapObject i | openFails i =>
      simp only [Attach.step] at action
      split at action <;> cases action
      all_goals exact consistent.setOpener _ _
  | check i =>
      simp only [Attach.step] at action
      split at action
      · split_ifs at action
        all_goals
          cases action
          exact consistent.setOpener _ _
      · cases action
  | use op =>
      simp only [Attach.step] at action
      split at action
      · split_ifs at action
        cases action
        exact consistent.use op ‹_›
      · cases action

/-! ## The check of `open` -/

theorem size_of_fits (whole : headerSize ≤ totalSize bufferSize) :
    headerSize + bufferSize.toNat < 2 ^ 64 ∧
      totalSize bufferSize = headerSize + bufferSize.toNat := by
  have bound := bufferSize.toNat_lt
  unfold totalSize headerSize at *
  omega

theorem sized_of_fits (consistent : Consistent order bufferSize s) {o : ShmObject}
    (held : s.object = some o) (whole : headerSize ≤ o.size) :
    s.creator.sized ∧ headerSize ≤ totalSize bufferSize := by
  have size := consistent.size o held
  cases sized : s.creator.sized with
  | false =>
      rw [sized, if_neg (by simp)] at size
      rw [size] at whole
      cases whole
  | true =>
      rw [sized, if_pos rfl] at size
      exact ⟨rfl, size ▸ whole⟩

theorem not_left_of_valid (consistent : Consistent order bufferSize s) {o : ShmObject}
    (held : s.object = some o) (valid : o.ring.header.isValid) :
    .magic ∉ left order s.creator := by
  intro waiting
  rw [RingBufferHeader.isValid, (consistent.magic o held).before waiting] at valid
  cases valid

theorem ready_of_safe (consistent : Consistent order bufferSize s)
    (safe : s.Safe bufferSize a) : s.Ready bufferSize a := by
  cases a with
  | check i =>
      intro n len mapped o held
      obtain ⟨whole, complete⟩ := safe n len mapped o held
      obtain ⟨sized, total⟩ := sized_of_fits consistent held whole
      refine ⟨sized, (size_of_fits total).1, ?_⟩
      intro first
      cases phase : s.creator with
      | storing rest =>
          rw [phase] at first
          have magic := (consistent.magic o held).after (by rw [phase]; exact first.1)
          have zero := (consistent.capacity o held).before (by rw [phase]; exact first.2)
          have capacity := (complete (by simp [RingBufferHeader.isValid, magic])).2.capacity
          rw [zero] at capacity
          exact UInt64.toNat_inj.mp capacity.symm
      | _ =>
          rw [phase] at first
          exact first.elim
  | _ => trivial

theorem safe_of_ready (consistent : Consistent order bufferSize s)
    (ready : s.Ready bufferSize a) : s.Safe bufferSize a := by
  cases a with
  | check i =>
      intro n len mapped o held
      obtain ⟨sized, total, first⟩ := ready n len mapped o held
      have size : o.size = headerSize + bufferSize.toNat := by
        rw [consistent.size o held, if_pos sized, totalSize, Nat.mod_eq_of_lt total]
      refine ⟨by omega, ?_⟩
      intro valid
      have stored := not_left_of_valid consistent held valid
      refine ⟨size, consistent.writePos o held, consistent.readPos o held, ?_,
        (consistent.magic o held).after stored⟩
      by_cases waiting : .capacity ∈ left order s.creator
      · rw [(consistent.capacity o held).before waiting]
        cases phase : s.creator with
        | storing rest =>
            rw [phase] at first stored waiting
            rw [first ⟨stored, waiting⟩]
            rfl
        | _ =>
            rw [phase] at stored
            exact absurd (order.all .magic) stored
      · exact (consistent.capacity o held).after waiting
  | _ => trivial

/-- Attaching is safe throughout a run if and only if no opener checks the header before
`ftruncate` or between the stores of the magic number and of the capacity. -/
theorem attach_safe_iff (order : StoreOrder) (bufferSize : UInt64) (actions : List Action) :
    Along (step order bufferSize) (Safe bufferSize) start actions ↔
      Along (step order bufferSize) (Ready bufferSize) start actions := by
  apply along_iff (I := Consistent order bufferSize)
  · intro s a t consistent _ action
    exact consistent.step action
  · intro s a _ consistent
    exact ⟨ready_of_safe consistent, safe_of_ready consistent⟩
  · exact consistent_start

theorem Consistent.not_magicFirst (consistent : Consistent order bufferSize s)
    (last : order.fields.getLast? = some .magic) : ¬ s.creator.MagicFirst := by
  cases phase : s.creator with
  | storing rest =>
      intro ⟨stored, waiting⟩
      obtain ⟨done, split⟩ := consistent.suffix
      rw [phase] at split
      have some_left : rest ≠ [] := List.ne_nil_of_mem waiting
      have same : order.fields.getLast? = rest.getLast? := by
        rw [← split]
        exact List.getLast?_append_of_ne_nil done some_left
      exact stored (List.mem_of_getLast? (same ▸ last))
  | _ => exact id

theorem check_before_truncate :
    ¬ ∀ order bufferSize actions,
      Along (step order bufferSize) (Safe bufferSize) start actions := by
  intro safe
  have along := safe .declared 16 [.create, .arrive, .openObject 0, .mapObject 0, .check 0]
  have check := ((((along.2 _ rfl).2 _ rfl).2 _ rfl).2 _ rfl).1
  cases (check 0 0 rfl .empty rfl).1

end Attach

end GatewayGrpc.SharedMemory
