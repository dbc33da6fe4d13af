import GatewayGrpc.Library.ReleaseAcquire
import GatewayGrpc.SharedMemory.Accesses
import GatewayGrpc.SharedMemory.Interleaving
import Mathlib.Data.Finset.Insert
import Mathlib.Data.Fintype.Defs

/-!
# The ring in weak memory

The steps of `Machine` where the loads of the positions are `Acquire`, the stores `Release` and the
copies plain: a load of the other side's position may return an old one, and nothing but the
positions orders the copies of the two sides. The two mutexes, which order the calls of one side,
make each side one thread; what else orders the two sides, a signal or the other ring, only leaves
them fewer old positions to load. The bytes are one memory, which is what plain accesses see as
long as none of them race.
-/

namespace GatewayGrpc.SharedMemory
open Library

/-- Each side alone stores to its position. -/
inductive Side
  | writer
  | reader
  deriving DecidableEq, Repr

instance : Fintype Side where
  elems := {.writer, .reader}
  complete side := by cases side <;> simp

structure WeakMachine where
  capacity : Nat
  data : Nat → UInt8
  positions : Atomics Side Nat Nat
  writer : Writer
  reader : Reader
  accepted : List Message
  delivered : List Message

namespace WeakMachine

/-- `store` is the store that the step loads, if it loads a position. -/
inductive Tick
  | beginWrite (data : Message)
  | writer (store : Nat)
  | beginRead (buf : List UInt8)
  | reader (store : Nat)
  deriving DecidableEq, Repr

def fresh (capacity : Nat) (data : Nat → UInt8) : WeakMachine where
  capacity := capacity
  data := data
  positions := .initial fun _ => 0
  writer := .idle
  reader := .idle
  accepted := []
  delivered := []

def writerStep (m : WeakMachine) (store : Nat) : Option WeakMachine :=
  match m.writer with
  | .idle => none
  | .entered data =>
      (m.positions.acquire .writer .writer store).map fun (writePos, positions) =>
        { m with positions := positions, writer := .loadedWritePos data writePos }
  | .loadedWritePos data writePos =>
      (m.positions.acquire .writer .reader store).map fun (readPos, positions) =>
        if available m.capacity writePos readPos < 4 + data.length then
          { m with positions := positions, writer := .idle }
        else
          { m with
            positions := positions
            writer := .copying data writePos (frameCopies m.capacity writePos data) }
  | .copying data writePos (copy :: todo) =>
      some { m with
        data := overlay m.data copy.offset copy.bytes
        positions := m.positions.writeCells .writer copy.cells
        writer := .copying data writePos todo }
  | .copying data writePos [] =>
      some { m with
        positions := m.positions.release .writer ((writePos + frameSize data) % m.capacity)
        writer := .idle
        accepted := m.accepted ++ [data] }

def prefixCells (capacity readPos : Nat) : List Nat :=
  [readPos, (readPos + 1) % capacity, (readPos + 2) % capacity, (readPos + 3) % capacity]

def readerStep (m : WeakMachine) (store : Nat) : Option WeakMachine :=
  match m.reader with
  | .idle => none
  | .entered buf =>
      (m.positions.acquire .reader .writer store).map fun (writePos, positions) =>
        { m with positions := positions, reader := .loadedWritePos buf writePos }
  | .loadedWritePos buf writePos =>
      (m.positions.acquire .reader .reader store).map fun (readPos, positions) =>
        if writePos = readPos then { m with positions := positions, reader := .idle }
        else { m with positions := positions, reader := .loadedReadPos buf readPos }
  | .loadedReadPos buf readPos =>
      let dataLen := readPrefix m.data m.capacity readPos
      let positions := m.positions.readCells .reader (prefixCells m.capacity readPos)
      if buf.length < dataLen then some { m with positions := positions, reader := .idle }
      else some { m with
        positions := positions
        reader := .copying buf readPos dataLen
          (payloadSegments m.capacity ((readPos + 4) % m.capacity) dataLen) }
  | .copying buf readPos dataLen (segment :: todo) =>
      some { m with
        positions := m.positions.readCells .reader segment.cells
        reader := .copying (copyOut m.data buf segment) readPos dataLen todo }
  | .copying buf readPos dataLen [] =>
      some { m with
        positions := m.positions.release .reader ((readPos + 4 + dataLen) % m.capacity)
        reader := .idle
        delivered := m.delivered ++ [buf.take dataLen] }

def step (m : WeakMachine) : Tick → Option WeakMachine
  | .beginWrite data =>
      match m.writer with
      | .idle => some { m with writer := .entered data }
      | _ => none
  | .writer store => m.writerStep store
  | .beginRead buf =>
      match m.reader with
      | .idle => some { m with reader := .entered buf }
      | _ => none
  | .reader store => m.readerStep store

def AcceptsInside (m : WeakMachine) : Tick → Prop
  | .writer store =>
      match m.writer with
      | .loadedWritePos data writePos =>
          writePos + 4 ≤ m.capacity ∨ ∀ loaded ∈ m.positions.acquire .writer .reader store,
            available m.capacity writePos loaded.1 < 4 + data.length
      | _ => True
  | _ => True

instance (m : WeakMachine) (tick : Tick) : Decidable (m.AcceptsInside tick) := by
  unfold AcceptsInside
  cases tick <;> dsimp only <;> try split
  all_goals infer_instance

def unread (m : WeakMachine) : List Message := m.accepted.drop m.delivered.length

end WeakMachine

/-! ## What the positions say -/

/-- Where message `k` begins, counted from the first byte ever written. -/
def place (messages : List Message) (k : Nat) : Nat := streamSize (messages.take k)

section Places
variable {messages : List Message} {k n : Nat}

theorem place_mono (order : k ≤ n) : place messages k ≤ place messages n := by
  obtain ⟨rest, e⟩ := List.take_prefix_take_left (l := messages) order
  rw [place, place, ← e, streamSize_append]
  exact Nat.le_add_right ..

theorem place_add_drop : place messages k + streamSize (messages.drop k) = streamSize messages := by
  rw [place, ← streamSize_append, List.take_append_drop]

theorem place_le : place messages k ≤ streamSize messages :=
  Nat.le.intro place_add_drop

theorem place_append (inside : k ≤ messages.length) (more : List Message) :
    place (messages ++ more) k = place messages k := by
  rw [place, place, List.take_append_of_le_length inside]

end Places

/-- `delivered` messages have been read. Store `k` of either position leads to message `k`. -/
structure Ordered (c : Nat) (accepted : List Message) (delivered : Nat)
    (positions : Atomics Side Nat Nat) : Prop where
  coherent : positions.Coherent
  calm : positions.raced = false
  values : ∀ side k (store : AtomicStore Side Nat), (positions.stores side)[k]? = some store →
    store.value = place accepted k % c
  published : positions.known .writer .writer = accepted.length
  consumed : positions.known .reader .reader = delivered
  behind : delivered ≤ positions.known .reader .writer
  /-- The writer is less than a turn ahead of the newest read position it knows. -/
  lag : streamSize accepted < place accepted (positions.known .writer .reader) + c
  writes : ∀ k i, place accepted delivered ≤ i → i < place accepted k →
    positions.wrote (i % c) .writer ≤ k
  reads : ∀ x k, k < positions.read x .reader →
    ∃ i, place accepted k ≤ i ∧ i < streamSize accepted ∧ x = i % c
  own : ∀ x, positions.wrote x .reader = 0 ∧ positions.read x .writer = 0

namespace Ordered
variable {c delivered : Nat} {accepted : List Message} {positions next : Atomics Side Nat Nat}

theorem initial (positive : 0 < c) : Ordered c [] 0 (.initial fun _ => 0) where
  coherent := Atomics.coherent_initial _
  calm := rfl
  values side k store here := by
    simp only [Atomics.initial, List.getElem?_singleton] at here
    split at here <;> cases here
    simp [place]
  published := rfl
  consumed := rfl
  behind := le_rfl
  lag := by simpa [place] using positive
  writes _ _ _ _ := Nat.zero_le _
  reads _ _ some := by cases some
  own _ := ⟨rfl, rfl⟩

theorem informed_le (ordered : Ordered c accepted delivered positions) :
    positions.known .reader .writer ≤ accepted.length := by
  rw [← ordered.published]
  exact ordered.coherent.bounded .reader .writer

theorem le_accepted (ordered : Ordered c accepted delivered positions) :
    delivered ≤ accepted.length :=
  ordered.behind.trans ordered.informed_le

theorem known_self_le (ordered : Ordered c accepted delivered positions) (side : Side) :
    positions.known side side ≤ accepted.length := by
  cases side with
  | writer => exact ordered.published.le
  | reader => exact ordered.consumed.trans_le ordered.le_accepted

theorem known_le (ordered : Ordered c accepted delivered positions) :
    positions.known .writer .reader ≤ delivered := by
  rw [← ordered.consumed]
  exact ordered.coherent.bounded .writer .reader

theorem acquire (ordered : Ordered c accepted delivered positions) {t u : Side} {i value : Nat}
    (loaded : positions.acquire t u i = some (value, next)) :
    Ordered c accepted delivered next ∧ value = place accepted i % c := by
  have own := ordered.coherent.acquire_own loaded
  obtain ⟨store, here, same, rfl, -⟩ := ordered.coherent.acquire_eq_some loaded
  have grown := positions.le_learn t store.view
  refine ⟨?_, same ▸ ordered.values u i store here⟩
  exact { ordered with
    coherent := ordered.coherent.acquire loaded
    published := (own .writer).trans ordered.published
    consumed := (own .reader).trans ordered.consumed
    behind := ordered.behind.trans (grown .reader .writer)
    lag := ordered.lag.trans_le (Nat.add_le_add_right (place_mono (grown .writer .reader)) c) }

/-- What the space check says of the read position it loaded: the queue as it was before the
`store`-th message was read has no room. -/
theorem available_lt_iff (ordered : Ordered c accepted delivered positions) (small : c < 2 ^ 64)
    {store readPos : Nat} (loaded : positions.acquire .writer .reader store = some (readPos, next))
    (data : Message) :
    available c (streamSize accepted % c) readPos < 4 + data.length ↔
      ¬ (Fifo.mk c (accepted.drop store)).Room data := by
  have known := ordered.coherent.acquire_known loaded
  obtain ⟨after, rfl⟩ := ordered.acquire loaded
  have lag := after.lag
  rw [known] at lag
  have whole : place accepted store + streamSize (accepted.drop store) = streamSize accepted :=
    place_add_drop
  rw [← whole, available_eq small (by omega)]
  simp only [Fifo.Room, Fifo.used, frameSize]
  omega

theorem writeCells (ordered : Ordered c accepted delivered positions) {cells : List Nat} {n : Nat}
    (within : ∀ x ∈ cells, ∃ j < n, x = (streamSize accepted + j) % c)
    (room : streamSize accepted + n ≤ place accepted (positions.known .writer .reader) + c) :
    Ordered c accepted delivered (positions.writeCells .writer cells) := by
  -- the cells lie less than a turn behind what the writer knows to be read
  have apart : ∀ i, place accepted (positions.known .writer .reader) ≤ i →
      i < streamSize accepted → i % c ∉ cells := by
    intro i first last member
    obtain ⟨j, hj, same⟩ := within _ member
    have := eq_of_mod_eq (by omega) (by omega) same
    omega
  have wrote : positions.After positions.wrote .writer cells := by
    intro x _ u other
    cases u with
    | writer => exact (other rfl).elim
    | reader => exact (ordered.own x).1.trans_le (Nat.zero_le _)
  have read : positions.After positions.read .writer cells := by
    intro x member u other
    cases u with
    | writer => exact (other rfl).elim
    | reader =>
        by_contra late
        obtain ⟨i, first, last, rfl⟩ := ordered.reads x _ (Nat.lt_of_not_le late)
        exact apart i first last member
  exact { ordered with
    coherent := ordered.coherent.writeCells .writer cells
    calm := (Atomics.writeCells_raced wrote read).trans ordered.calm
    writes := fun k i first last => by
      have notHere := apart i ((place_mono ordered.known_le).trans first) (last.trans_le place_le)
      change positions.stamp positions.wrote .writer cells (i % c) .writer ≤ k
      rw [Atomics.stamp_of_notMem _ notHere]
      exact ordered.writes k i first last
    own := fun x => by
      refine ⟨?_, (ordered.own x).2⟩
      change positions.stamp positions.wrote .writer cells x .reader = 0
      rw [Atomics.stamp_of_ne x (by decide), (ordered.own x).1] }

theorem readCells (ordered : Ordered c accepted delivered positions) {cells : List Nat}
    (within : ∀ x ∈ cells, ∃ i, place accepted delivered ≤ i ∧ i < place accepted (delivered + 1) ∧
      x = i % c)
    (learned : delivered < positions.known .reader .writer) :
    Ordered c accepted delivered (positions.readCells .reader cells) := by
  have wrote : positions.After positions.wrote .reader cells := by
    intro x member u other
    cases u with
    | reader => exact (other rfl).elim
    | writer =>
        obtain ⟨i, first, last, rfl⟩ := within x member
        exact ordered.writes _ i first (last.trans_le (place_mono learned))
  exact { ordered with
    coherent := ordered.coherent.readCells .reader cells
    calm := (Atomics.readCells_raced wrote).trans ordered.calm
    reads := fun x k late => by
      rcases Atomics.lt_stamp_cases late with before | ⟨member, recent⟩
      · exact ordered.reads x k before
      · obtain ⟨i, first, last, e⟩ := within x member
        rw [ordered.consumed] at recent
        exact ⟨i, (place_mono recent).trans first, last.trans_le place_le, e⟩
    own := fun x => by
      refine ⟨(ordered.own x).1, ?_⟩
      change positions.stamp positions.read .reader cells x .writer = 0
      rw [Atomics.stamp_of_ne x (by decide), (ordered.own x).2] }

theorem publish (ordered : Ordered c accepted delivered positions) {data : Message}
    (room : streamSize accepted + frameSize data <
      place accepted (positions.known .writer .reader) + c) {value : Nat}
    (here : value = streamSize (accepted ++ [data]) % c) :
    Ordered c (accepted ++ [data]) delivered (positions.release .writer value) := by
  have old {k : Nat} (inside : k ≤ accepted.length) :
      place (accepted ++ [data]) k = place accepted k := place_append inside [data]
  have read := ordered.known_le.trans ordered.le_accepted
  have total : streamSize (accepted ++ [data]) = streamSize accepted + frameSize data := by simp
  have length : (accepted ++ [data]).length = accepted.length + 1 := by simp
  exact {
    coherent := ordered.coherent.release .writer value
    calm := ordered.calm
    values := by
      intro side k store stored
      rcases ordered.coherent.release_stores stored with before | ⟨rfl, rfl, rfl⟩
      · have inside := ordered.coherent.lt_length_iff.mp (lt_of_getElem?_eq before)
        rw [old (inside.trans (ordered.known_self_le side))]
        exact ordered.values side k store before
      · rw [ordered.published, ← length, place, List.take_length]
        exact here
    published := by simp [Atomics.release, ordered.published]
    consumed := by simp [Atomics.release, ordered.consumed]
    behind := by simpa [Atomics.release] using ordered.behind
    lag := by
      have same : (positions.release .writer value).known .writer .reader =
          positions.known .writer .reader := by simp [Atomics.release]
      rw [same, old read, total]
      exact room
    writes := by
      intro k i first last
      rcases Nat.lt_or_ge accepted.length k with new | before
      · refine (ordered.coherent.wrote _ .writer).trans ?_
        rw [ordered.published]
        exact new
      · rw [old before] at last
        rw [old ordered.le_accepted] at first
        exact ordered.writes k i first last
    reads := by
      intro x k late
      obtain ⟨i, first, last, e⟩ := ordered.reads x k late
      have bound := ordered.coherent.read x .reader
      rw [ordered.consumed] at bound
      have inside : k ≤ accepted.length := by
        have := ordered.le_accepted
        change k < positions.read x .reader at late
        omega
      exact ⟨i, (old inside).trans_le first, by omega, e⟩
    own := ordered.own }

theorem consume (ordered : Ordered c accepted delivered positions)
    (learned : delivered < positions.known .reader .writer) {value : Nat}
    (here : value = place accepted (delivered + 1) % c) :
    Ordered c accepted (delivered + 1) (positions.release .reader value) := by
  exact { ordered with
    coherent := ordered.coherent.release .reader value
    values := by
      intro side k store stored
      rcases ordered.coherent.release_stores stored with before | ⟨rfl, rfl, rfl⟩
      · exact ordered.values side k store before
      · rw [ordered.consumed]
        exact here
    published := by simp [Atomics.release, ordered.published]
    consumed := by simp [Atomics.release, ordered.consumed]
    behind := by simpa [Atomics.release, Nat.succ_le_iff] using learned
    lag := by simpa [Atomics.release] using ordered.lag
    writes := fun k i first last =>
      ordered.writes k i ((place_mono (Nat.le_succ _)).trans first) last }

end Ordered

end GatewayGrpc.SharedMemory
