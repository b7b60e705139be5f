import RaveloxMidi.RingQueue

/-!
# Reading a part of the ring

A read that does not ask for everything is right where the octets lie in one piece,
and where it goes on past the end of the block. In between, the copy of the first
piece does not stop at the octets that were asked for.
-/
namespace RaveloxMidi
open ByteMemory

/-- The rings that some operations have led to, none of which left its blocks. -/
inductive RingReachable : RingBuffer → Prop where
  | created {size : ℕ} {ring : RingBuffer} (h : ringBufferCreate size = some ring) :
      RingReachable ring
  | called {ring t : RingBuffer} {call : RingCall} {answers : List RingAnswer}
      (h : RingReachable ring) (hcall : ringCall ring call = .ok (t, answers)) : RingReachable t
  | read {ring t : RingBuffer} {len : ℕ} {advance : Bool} {dest : Option (List UInt8)}
      (h : RingReachable ring) (hread : ringBufferRead ring len advance = .ok (t, dest)) :
      RingReachable t

/-- A read gives the first octets that are queued and never leaves its result or the
block; with an advance the ring queues the others afterwards, without one it is as before. -/
def ReadsPart (ring : RingBuffer) (len : ℕ) (advance : Bool) : Prop :=
  ∃ t, ringBufferRead ring len advance = .ok (t, some (ring.queue.take len)) ∧
    if advance then t.queue = ring.queue.drop len ∧ t.used = ring.used - len else t = ring

namespace RingBuffer

/-- A ring in order, or one of no size, which holds nothing. -/
def Sound (r : RingBuffer) : Prop := r.Valid ∨ r.size = 0 ∧ r.used = 0

theorem sound_reset (size : ℕ) : (ringBufferReset size).Sound := by
  by_cases hsize : size = 0
  · exact .inr ⟨hsize, rfl⟩
  · exact .inl (valid_reset (Nat.pos_of_ne_zero hsize))

/-- A read that asks for too much, or for nothing, changes nothing. -/
theorem read_nothing {r : RingBuffer} {len : ℕ} (h : len = 0 ∨ r.used < len) (advance : Bool) :
    ringBufferRead r len advance = .ok (r, none) := by
  by_cases hzero : len = 0
  · rw [ringBufferRead, if_pos hzero]
    rfl
  · have hmany : r.used < len := h.resolve_left hzero
    rw [ringBufferRead, if_neg hzero]
    split_ifs <;> rfl

/-- In the split case the first copy overruns a result that ends in front of the end of
the block. -/
theorem read_overruns {r : RingBuffer} (h : r.Valid) {len : ℕ} (hsome : 0 < len)
    (hle : len ≤ r.used) (hsplit : ¬ r.start < r.endIndex) (hshort : len < r.size - r.start)
    (advance : Bool) : ringBufferRead r len advance = .error .outOfBounds := by
  have hdata := h.data_length
  have hload := load_ok (show r.start + (r.size - r.start) ≤ r.data.length by omega)
  have hlength := load_length hload
  have hstore : store (List.replicate len 0) 0
      ((r.data.drop r.start).take (r.size - r.start)) = .error .outOfBounds := by
    rw [store, if_neg (by rw [List.length_replicate]; omega)]
  have hzero : ¬ len = 0 := by omega
  have hempty : ¬ r.used = 0 := by omega
  have hmany : ¬ len > r.used := by omega
  simp only [ringBufferRead, if_neg hzero, if_neg hempty, if_neg hmany, if_neg hsplit, hload,
    hstore, bind, Except.bind]

/-- Where the octets asked for lie in one piece, or go on past the end of the block. -/
theorem reads_part_iff {r : RingBuffer} (h : r.Valid) {len : ℕ} (hsome : 0 < len)
    (hle : len ≤ r.used) (advance : Bool) :
    ReadsPart r len advance ↔ r.start < r.endIndex ∨ r.size - r.start ≤ len := by
  constructor
  · rintro ⟨t, hread, -⟩
    by_contra hneither
    rw [not_or, not_le] at hneither
    rw [read_overruns h hsome hle hneither.1 hneither.2 advance] at hread
    cases hread
  · intro hreach
    obtain ⟨-, hqueue⟩ := dropped_spec h hle
    refine ⟨_, read_spec h hsome hle hreach advance, ?_⟩
    cases advance with
    | true => exact ⟨hqueue, rfl⟩
    | false => rfl

theorem sound_read {r t : RingBuffer} (h : r.Sound) {len : ℕ} {advance : Bool}
    {dest : Option (List UInt8)} (hread : ringBufferRead r len advance = .ok (t, dest)) :
    t.Sound := by
  by_cases hnothing : len = 0 ∨ r.used < len
  · rw [read_nothing hnothing advance] at hread
    cases hread
    exact h
  rw [not_or, not_lt] at hnothing
  obtain ⟨hsome, hle⟩ := hnothing
  obtain hvalid | ⟨-, hused⟩ := h
  · by_cases hreach : r.start < r.endIndex ∨ r.size - r.start ≤ len
    · rw [read_spec hvalid (Nat.pos_of_ne_zero hsome) hle hreach advance] at hread
      cases hread
      cases advance with
      | true => exact .inl (dropped_spec hvalid hle).1
      | false => exact .inl hvalid
    · rw [not_or, not_le] at hreach
      rw [read_overruns hvalid (Nat.pos_of_ne_zero hsome) hle hreach.1 hreach.2 advance] at hread
      cases hread
  · omega

theorem sound_write {r t : RingBuffer} (h : r.Sound) {data : List UInt8} {len : ℕ}
    (hwrite : ringBufferWrite r data = .ok (t, len)) : t.Sound := by
  by_cases hfull : r.size < r.used + data.length
  · rw [write_full data hfull] at hwrite
    cases hwrite
    exact h
  · obtain hvalid | ⟨hsize, hused⟩ := h
    · obtain ⟨t', hwrite', ht', -⟩ := write_spec hvalid data (not_lt.mp hfull)
      rw [hwrite'] at hwrite
      cases hwrite
      exact .inl ht'
    · have hzero : data.length = 0 := by omega
      simp only [ringBufferWrite, if_pos hzero] at hwrite
      cases hwrite
      exact .inr ⟨hsize, hused⟩

theorem sound_readByte {r t : RingBuffer} (h : r.Sound) {advance : Bool} {byte : Option UInt8}
    (hread : ringBufferReadByte r advance = .ok (t, byte)) : t.Sound := by
  cases hqueue : r.queue with
  | nil =>
    rw [readByte_nil hqueue advance] at hread
    cases hread
    exact h
  | cons b bs =>
    obtain hvalid | ⟨-, hused⟩ := h
    · cases advance with
      | true =>
        obtain ⟨t', hread', ht', -⟩ := readByte_cons hvalid hqueue
        rw [hread'] at hread
        cases hread
        exact .inl ht'
      | false =>
        rw [readByte_peek hvalid hqueue] at hread
        cases hread
        exact .inl hvalid
    · rw [(used_eq_zero_iff r).mp hused] at hqueue
      cases hqueue

theorem sound_advance {r : RingBuffer} (h : r.Sound) (steps : ℕ) :
    (ringBufferAdvance r steps).Sound := by
  obtain hvalid | ⟨hsize, hused⟩ := h
  · exact .inl (advance_spec hvalid steps).1
  · refine .inr ?_
    unfold ringBufferAdvance
    split_ifs
    · exact ⟨hsize, hused⟩
    · exact ⟨hsize, by simp only [hused]; omega⟩

/-- A smaller block than the octets in use is overrun. -/
theorem sound_resize {r t : RingBuffer} (h : r.Sound) {newSize : ℕ}
    (hresize : ringBufferResize r newSize = .ok t) : t.Sound := by
  by_cases hempty : r.used = 0
  · have hread : ringBufferRead r r.used false = .ok (r, none) :=
      read_nothing (.inl hempty) false
    simp only [ringBufferResize, hread, bind, Except.bind, pure, Except.pure] at hresize
    cases hresize
    exact sound_reset newSize
  obtain hvalid | ⟨-, hused⟩ := h
  · have hne : r.queue ≠ [] := fun hnil => hempty ((used_eq_zero_iff r).mpr hnil)
    by_cases hfit : r.used ≤ newSize
    · obtain ⟨t', hresize', ht', -⟩ := resize_spec hvalid (by omega) hfit
      rw [hresize'] at hresize
      cases hresize
      exact .inl ht'
    · obtain ⟨drained, hall, -⟩ := read_all hvalid hne
      have hstore : store (List.replicate newSize 0) 0 r.queue = .error .outOfBounds := by
        rw [store, if_neg (by rw [List.length_replicate, queue_length]; omega)]
      simp only [ringBufferResize, hall false, hstore, bind, Except.bind] at hresize
      cases hresize
  · exact absurd hused hempty

theorem sound_call {r t : RingBuffer} (h : r.Sound) {call : RingCall} {answers : List RingAnswer}
    (hcall : ringCall r call = .ok (t, answers)) : t.Sound := by
  cases call with
  | write data =>
    obtain ⟨⟨ring, len⟩, hwrite, hok⟩ := bind_ok hcall
    cases hok
    exact sound_write h hwrite
  | readByte advance =>
    obtain ⟨⟨ring, byte⟩, hread, hok⟩ := bind_ok hcall
    cases hok
    exact sound_readByte h hread
  | advance steps =>
    cases hcall
    exact sound_advance h steps
  | drain =>
    obtain ⟨⟨ring, data⟩, hread, hok⟩ := bind_ok hcall
    cases hok
    exact sound_read h hread
  | reset size =>
    cases hcall
    exact sound_reset size
  | resize newSize =>
    obtain ⟨ring, hresize, hok⟩ := bind_ok hcall
    cases hok
    exact sound_resize h hresize
  | compare compare compareLen =>
    obtain ⟨ret, -, hok⟩ := bind_ok hcall
    cases hok
    exact h
  | charCompare compare index =>
    obtain ⟨ret, -, hok⟩ := bind_ok hcall
    cases hok
    exact h

end RingBuffer

theorem RingReachable.sound {ring : RingBuffer} (h : RingReachable ring) : ring.Sound := by
  induction h with
  | created h =>
    unfold ringBufferCreate at h
    split_ifs at h
    cases h
    exact RingBuffer.sound_reset _
  | called _ hcall ih => exact RingBuffer.sound_call ih hcall
  | read _ hread ih => exact RingBuffer.sound_read ih hread

/-- In every ring that operations lead to, a read of some of the octets is right exactly
if they lie in one piece or at least the piece up to the end of the block is asked for. -/
theorem part_read_iff {ring : RingBuffer} (h : RingReachable ring) {len : ℕ} (hsome : 0 < len)
    (hle : len ≤ ring.used) (advance : Bool) :
    ReadsPart ring len advance ↔ ring.start < ring.endIndex ∨ ring.size - ring.start ≤ len := by
  obtain hvalid | ⟨-, hused⟩ := h.sound
  · exact RingBuffer.reads_part_iff hvalid hsome hle advance
  · omega

/-- A ring of four octets that is full and starts at its second octet. -/
def wrappedRing : RingBuffer := ⟨1, 1, 4, 4, [5, 2, 3, 4]⟩

theorem wrappedRing_reachable : RingReachable wrappedRing := by
  have hcreate : ringBufferCreate 4 = some (ringBufferReset 4) := rfl
  have hfill : ringCall (ringBufferReset 4) (.write [1, 2, 3, 4]) =
      .ok (⟨0, 4, 4, 4, [1, 2, 3, 4]⟩, [.written 4]) := by decide
  have hread : ringCall ⟨0, 4, 4, 4, [1, 2, 3, 4]⟩ (.readByte true) =
      .ok (⟨1, 4, 4, 3, [1, 2, 3, 4]⟩, [.byte (some 1)]) := by decide
  have hwrap : ringCall ⟨1, 4, 4, 3, [1, 2, 3, 4]⟩ (.write [5]) =
      .ok (wrappedRing, [.written 1]) := by decide
  exact .called (.called (.called (.created hcreate) hfill) hread) hwrap

theorem part_read_iff_wrapped :
    ReadsPart wrappedRing 3 true ↔
      wrappedRing.start < wrappedRing.endIndex ∨ wrappedRing.size - wrappedRing.start ≤ 3 :=
  part_read_iff wrappedRing_reachable (by decide) (by decide) true

/-- Two of its four octets are asked for, and three are copied. -/
theorem wrapped_read_overruns :
    RingReachable wrappedRing ∧ 2 ≤ wrappedRing.used ∧
      ringBufferRead wrappedRing 2 false = .error .outOfBounds ∧
      ¬ ReadsPart wrappedRing 2 false := by
  refine ⟨wrappedRing_reachable, by decide, by decide, ?_⟩
  rintro ⟨t, hread, -⟩
  cases hread

end RaveloxMidi
