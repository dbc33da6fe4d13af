import GatewayGrpc.SharedMemory.Ring
import Mathlib.Data.List.Pairwise

/-!
# Frames

A message lies in the ring as a frame, its length prefix and then its bytes. What the copies of one
`write` lay down is a frame, and what the segments of one `read` gather is the payload of one.
-/

namespace GatewayGrpc.SharedMemory
open Library

abbrev Message := List UInt8

def frame (m : Message) : List UInt8 := toLeBytes 4 m.length ++ m

def frameSize (m : Message) : Nat := 4 + m.length

def stream (messages : List Message) : List UInt8 := messages.flatMap frame

def streamSize (messages : List Message) : Nat := (messages.map frameSize).sum

@[simp] theorem length_frame (m : Message) : (frame m).length = frameSize m := by
  simp [frame, frameSize]

@[simp] theorem streamSize_nil : streamSize [] = 0 := rfl

@[simp] theorem streamSize_cons (m : Message) (messages : List Message) :
    streamSize (m :: messages) = frameSize m + streamSize messages := by
  simp [streamSize]

@[simp] theorem streamSize_append (before after : List Message) :
    streamSize (before ++ after) = streamSize before + streamSize after := by
  simp [streamSize]

@[simp] theorem stream_cons (m : Message) (messages : List Message) :
    stream (m :: messages) = frame m ++ stream messages := by
  simp [stream]

@[simp] theorem stream_append (before after : List Message) :
    stream (before ++ after) = stream before ++ stream after := by
  simp [stream]

/-! ## Arithmetic -/

theorem usizeSub_eq {a b : Nat} (le : b ≤ a) (small : a < 2 ^ 64) : usizeSub a b = a - b := by
  unfold usizeSub
  omega

/-- With `n` bytes in use from position `p` on, the space check sees the rest of the ring less the
one byte that keeps full and empty apart. -/
theorem available_eq {c p n : Nat} (small : c < 2 ^ 64) (inUse : n < c) :
    available c ((p + n) % c) (p % c) = c - 1 - n := by
  have hp : p % c < c := Nat.mod_lt _ (by omega)
  unfold available
  rcases add_mod_cases p inUse with ⟨h, e⟩ | ⟨h, e⟩
  · rw [e, if_pos (by omega), usizeSub_eq (b := p % c) (by omega) (by omega),
      usizeSub_eq (a := c) (by omega) (by omega), usizeSub_eq (by omega) (by omega)]
    omega
  · rw [e, if_neg (by omega), usizeSub_eq (a := p % c) (by omega) (by omega),
      usizeSub_eq (by omega) (by omega)]
    omega

/-! ## Copies -/

def Copy.Within (c p n : Nat) (copy : Copy) : Prop :=
  ∀ i < copy.bytes.length, ∃ j < n, copy.offset + i = (p + j) % c

def Copy.Laid (data : Nat → UInt8) (copy : Copy) : Prop :=
  block data copy.offset copy.bytes.length = copy.bytes

def Copy.Apart (a b : Copy) : Prop :=
  a.offset + a.bytes.length ≤ b.offset ∨ b.offset + b.bytes.length ≤ a.offset

def frameCopies (c writePos : Nat) (m : Message) : List Copy :=
  prefixCopy writePos m :: payloadCopies c ((writePos + 4) % c) m

theorem overlay_apply_of_within {c p n x : Nat} {data : Nat → UInt8} {copy : Copy}
    (within : copy.Within c p n) (outside : ∀ j < n, x ≠ (p + j) % c) :
    overlay data copy.offset copy.bytes x = data x := by
  apply overlay_apply_of_outside
  by_contra touched
  obtain ⟨j, hj, e⟩ := within (x - copy.offset) (by omega)
  exact outside j hj (by omega)

theorem Copy.laid_overlay (data : Nat → UInt8) (copy : Copy) :
    copy.Laid (overlay data copy.offset copy.bytes) :=
  block_overlay_same _ _ _

theorem Copy.Laid.overlay {data : Nat → UInt8} {copy other : Copy} (laid : copy.Laid data)
    (apart : copy.Apart other) : copy.Laid (overlay data other.offset other.bytes) := by
  unfold Copy.Laid at laid ⊢
  rw [block_overlay_disjoint _ apart, laid]

theorem mod_mod_add_four (c p : Nat) : (p % c + 4) % c = (p + 4) % c := Nat.mod_add_mod ..

theorem wrapped_cell {c s i : Nat} (start : s ≤ c) (hi : i < c) :
    0 + i = (s + (c - s + i)) % c := by
  rw [← Nat.add_assoc, Nat.add_sub_cancel' start, Nat.add_mod_left, Nat.mod_eq_of_lt hi,
    Nat.zero_add]

section Payload
variable {c s : Nat} {m : Message} (start : s < c) (small : c < 2 ^ 64) (room : m.length < c)
include start small room

theorem payloadCopies_eq :
    (s + m.length ≤ c ∧ payloadCopies c s m = [⟨s, m⟩]) ∨
    (c < s + m.length ∧ payloadCopies c s m = [⟨s, m.take (c - s)⟩, ⟨0, m.drop (c - s)⟩]) := by
  unfold payloadCopies
  split
  · exact Or.inl ⟨‹_›, rfl⟩
  · refine Or.inr ⟨by omega, ?_⟩
    have rest : (m.drop (c - s)).take (m.length - (c - s)) = m.drop (c - s) :=
      List.take_of_length_le (by simp)
    dsimp only
    rw [usizeSub_eq (by omega) small, usizeSub_eq (by omega) (by omega), rest]

theorem payloadCopies_within {copy : Copy} (member : copy ∈ payloadCopies c s m) :
    copy.Within c s m.length := by
  rcases payloadCopies_eq start small room with ⟨fits, e⟩ | ⟨wraps, e⟩
  · rw [e, List.mem_singleton] at member
    subst member
    intro i (hi : i < m.length)
    have cell : (s + i) % c = s + i := Nat.mod_eq_of_lt (by omega)
    exact ⟨i, hi, cell.symm⟩
  · simp only [e, List.mem_cons, List.not_mem_nil, or_false] at member
    rcases member with rfl | rfl
    · intro i hi
      simp only [List.length_take] at hi
      have cell : (s + i) % c = s + i := Nat.mod_eq_of_lt (by omega)
      exact ⟨i, by omega, cell.symm⟩
    · intro i hi
      simp only [List.length_drop] at hi
      exact ⟨c - s + i, by omega, wrapped_cell start.le (by omega)⟩

theorem window_eq_payload {data : Nat → UInt8}
    (laid : ∀ copy ∈ payloadCopies c s m, copy.Laid data) : window data c s m.length = m := by
  rcases payloadCopies_eq start small room with ⟨fits, e⟩ | ⟨wraps, e⟩
  · have whole := laid ⟨s, m⟩ (by simp [e])
    rw [window_eq_block _ fits]
    exact whole
  · have first := laid ⟨s, m.take (c - s)⟩ (by simp [e])
    have second := laid ⟨0, m.drop (c - s)⟩ (by simp [e])
    simp only [Copy.Laid, List.length_take, List.length_drop] at first second
    rw [Nat.min_eq_left (by omega)] at first
    rw [window_eq_blocks _ start.le (by omega) (by omega), first, second, List.take_append_drop]

end Payload

section Frame
variable {c p : Nat} {m : Message} (small : c < 2 ^ 32) (room : frameSize m < c)
  (inside : p % c + 4 ≤ c)
include small room inside

theorem frameCopies_within {copy : Copy} (member : copy ∈ frameCopies c (p % c) m) :
    copy.Within c p (frameSize m) := by
  unfold frameSize at room ⊢
  rcases List.mem_cons.mp member with rfl | payload
  · intro i hi
    simp only [prefixCopy, length_toLeBytes] at hi
    refine ⟨i, by omega, ?_⟩
    rcases add_mod_cases p (show i < c by omega) with ⟨_, e⟩ | ⟨_, e⟩ <;>
      simp only [prefixCopy] <;> omega
  · intro i hi
    obtain ⟨j, hj, e⟩ := payloadCopies_within (Nat.mod_lt _ (by omega)) (by omega) (by omega)
      payload i hi
    exact ⟨4 + j, by omega, by rw [e, Nat.mod_add_mod, Nat.add_assoc, Nat.mod_add_mod]⟩

theorem frameCopies_apart : (frameCopies c (p % c) m).Pairwise Copy.Apart := by
  unfold frameSize at room
  have start : (p % c + 4 < c ∧ (p % c + 4) % c = p % c + 4) ∨
      (p % c + 4 = c ∧ (p % c + 4) % c = 0) := by
    rcases Nat.lt_or_ge (p % c + 4) c with h | h
    · exact Or.inl ⟨h, Nat.mod_eq_of_lt h⟩
    · have full : p % c + 4 = c := by omega
      exact Or.inr ⟨full, by rw [full, Nat.mod_self]⟩
  have hs : (p % c + 4) % c < c := Nat.mod_lt _ (by omega)
  unfold frameCopies
  generalize (p % c + 4) % c = s at start hs ⊢
  rcases payloadCopies_eq hs (by omega) (show m.length < c by omega) with ⟨fits, e⟩ | ⟨wraps, e⟩ <;>
    simp only [e, List.pairwise_cons, List.mem_cons, List.not_mem_nil, or_false, forall_eq,
      forall_eq_or_imp, Copy.Apart, prefixCopy, length_toLeBytes, List.length_take,
      List.length_drop, List.Pairwise.nil, IsEmpty.forall_iff, implies_true, and_true]
  · omega
  · refine ⟨⟨?_, ?_⟩, ?_⟩ <;> omega

theorem window_eq_frame {data : Nat → UInt8}
    (laid : ∀ copy ∈ frameCopies c (p % c) m, copy.Laid data) :
    window data c p (frameSize m) = frame m := by
  unfold frameSize at room ⊢
  have header : window data c p 4 = toLeBytes 4 m.length := by
    have h := laid (prefixCopy (p % c) m) (List.mem_cons_self ..)
    simp only [Copy.Laid, prefixCopy, length_toLeBytes] at h
    rw [← window_mod, window_eq_block _ inside, h, Nat.mod_eq_of_lt (by omega)]
  have payload : window data c (p + 4) m.length = m := by
    have h := window_eq_payload (Nat.mod_lt _ (by omega)) (by omega) (by omega)
      fun copy member => laid copy (List.mem_cons_of_mem _ member)
    rwa [mod_mod_add_four, window_mod] at h
  rw [window_add, header, payload, frame]

end Frame

/-! ## Segments -/

theorem readPrefix_eq (data : Nat → UInt8) (c p : Nat) :
    readPrefix data c (p % c) = fromLeBytes (window data c p 4) := by
  simp [readPrefix, window, List.range_succ]

theorem readPrefix_frame {data : Nat → UInt8} {c p : Nat} {m : Message} (small : m.length < 2 ^ 32)
    (held : window data c p (frameSize m) = frame m) : readPrefix data c (p % c) = m.length := by
  have header : window data c p 4 = toLeBytes 4 m.length := by
    rw [frameSize, window_add] at held
    exact (List.append_inj held (by simp)).1
  rw [readPrefix_eq, header, fromLeBytes_toLeBytes_of_lt small]

theorem window_payload_of_frame {data : Nat → UInt8} {c p : Nat} {m : Message}
    (held : window data c p (frameSize m) = frame m) : window data c (p + 4) m.length = m := by
  rw [frameSize, window_add] at held
  exact (List.append_inj held (by simp)).2

def Segment.Within (c p n : Nat) (segment : Segment) : Prop :=
  ∀ i < segment.len, ∃ j < n, segment.src + i = (p + j) % c

section Segments
variable {c s n : Nat} (start : s < c) (small : c < 2 ^ 64) (room : n < c)
include start small room

theorem payloadSegments_eq :
    (s + n ≤ c ∧ payloadSegments c s n = [⟨s, 0, n⟩]) ∨
    (c < s + n ∧ payloadSegments c s n = [⟨s, 0, c - s⟩, ⟨0, c - s, n - (c - s)⟩]) := by
  unfold payloadSegments
  split
  · exact Or.inl ⟨‹_›, rfl⟩
  · refine Or.inr ⟨by omega, ?_⟩
    dsimp only
    rw [usizeSub_eq (by omega) small, usizeSub_eq (by omega) (by omega)]

theorem payloadSegments_within {segment : Segment} (member : segment ∈ payloadSegments c s n) :
    segment.Within c s n := by
  rcases payloadSegments_eq start small room with ⟨fits, e⟩ | ⟨wraps, e⟩
  · rw [e, List.mem_singleton] at member
    subst member
    intro i (hi : i < n)
    have cell : (s + i) % c = s + i := Nat.mod_eq_of_lt (by omega)
    exact ⟨i, hi, cell.symm⟩
  · simp only [e, List.mem_cons, List.not_mem_nil, or_false] at member
    rcases member with rfl | rfl
    · intro i (hi : i < c - s)
      have cell : (s + i) % c = s + i := Nat.mod_eq_of_lt (by omega)
      exact ⟨i, by omega, cell.symm⟩
    · intro i (hi : i < n - (c - s))
      exact ⟨c - s + i, by omega, wrapped_cell start.le (by omega)⟩

theorem foldl_copyOut_payloadSegments (data : Nat → UInt8) (buf : List UInt8) :
    (payloadSegments c s n).foldl (copyOut data) buf = window data c s n ++ buf.drop n := by
  rcases payloadSegments_eq start small room with ⟨fits, e⟩ | ⟨wraps, e⟩
  · simp [e, copyOut, window_eq_block _ fits]
  · rw [e, window_eq_blocks _ start.le (by omega) (by omega)]
    simp only [List.foldl_cons, List.foldl_nil, copyOut, List.take_zero, List.nil_append,
      Nat.zero_add]
    rw [List.take_left' (by simp), List.drop_append, List.drop_of_length_le (by simp),
      List.nil_append, List.drop_drop, length_block]
    congr 2
    omega

end Segments

theorem foldl_copyOut_congr {data data' : Nat → UInt8} {segments : List Segment}
    {buf : List UInt8} (same : ∀ segment ∈ segments,
      block data' segment.src segment.len = block data segment.src segment.len) :
    segments.foldl (copyOut data') buf = segments.foldl (copyOut data) buf := by
  induction segments generalizing buf with
  | nil => rfl
  | cons segment segments ih =>
      have first : copyOut data' buf segment = copyOut data buf segment := by
        rw [copyOut, copyOut, same segment (by simp)]
      rw [List.foldl_cons, List.foldl_cons, first,
        ih fun other member => same other (by simp [member])]

end GatewayGrpc.SharedMemory
