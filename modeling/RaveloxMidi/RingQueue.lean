import RaveloxMidi.Transducer
import RaveloxMidi.RingBuffer

/-!
# The ring buffer as a bounded queue

The purpose of the ring in its own terms: a queue of octets that never holds more
than its size. Every operation of the ring answers as the queue does, and the
octets that leave the queue are the ones that entered it, in the same order.
-/
namespace RaveloxMidi
open ByteMemory Transducer

/-- The operations on one ring. -/
inductive RingCall where
  | write (data : List UInt8)
  | readByte (advance : Bool)
  | advance (steps : ℕ)
  | drain
  | reset (size : ℕ)
  | resize (newSize : ℕ)
  | compare (compare : List UInt8) (compareLen : ℕ)
  | charCompare (compare : UInt8) (index : ℕ)
  deriving Repr, DecidableEq

/-- What an operation returns. -/
inductive RingAnswer where
  | none
  | written (len : ℕ)
  | byte (byte : Option UInt8)
  | drained (len : ℕ) (data : Option (List UInt8))
  | resized
  | compared (ret : ℤ)
  | charCompared (ret : Bool)
  deriving Repr, DecidableEq

def ringCall (ring : RingBuffer) : RingCall → Except Fault (RingBuffer × List RingAnswer)
  | .write data => do
    let (ring, len) ← ringBufferWrite ring data
    return (ring, [.written len])
  | .readByte advance => do
    let (ring, byte) ← ringBufferReadByte ring advance
    return (ring, [.byte byte])
  | .advance steps => .ok (ringBufferAdvance ring steps, [.none])
  | .drain => do
    let len := ring.used
    let (ring, data) ← ringBufferDrain ring
    return (ring, [.drained len data])
  | .reset size => .ok (ringBufferReset size, [.none])
  | .resize newSize => do
    let ring ← ringBufferResize ring newSize
    return (ring, [.resized])
  | .compare compare compareLen => do
    let ret ← ringBufferCompare ring compare compareLen
    return (ring, [.compared ret])
  | .charCompare compare index => do
    let ret ← ringBufferCharCompare ring compare index
    return (ring, [.charCompared ret])

/-- A bounded queue. -/
structure OctetQueue where
  octets : List UInt8
  size : ℕ
  fits : octets.length ≤ size

namespace OctetQueue

def empty (size : ℕ) : OctetQueue := ⟨[], size, Nat.zero_le _⟩

/-- All octets or none. -/
def put (q : OctetQueue) (data : List UInt8) : OctetQueue :=
  if h : q.octets.length + data.length ≤ q.size then
    ⟨q.octets ++ data, q.size, by rwa [List.length_append]⟩
  else q

def drop (q : OctetQueue) (steps : ℕ) : OctetQueue :=
  ⟨q.octets.drop steps, q.size, by
    rw [List.length_drop]
    exact (Nat.sub_le _ _).trans q.fits⟩

def resize (q : OctetQueue) (newSize : ℕ) : OctetQueue :=
  if h : q.octets.length ≤ newSize then ⟨q.octets, newSize, h⟩ else q

/-- What each operation does to the queue and answers. -/
def call (q : OctetQueue) : RingCall → OctetQueue × List RingAnswer
  | .write data =>
    (q.put data, [.written (if q.octets.length + data.length ≤ q.size then data.length else 0)])
  | .readByte advance => (if advance then q.drop 1 else q, [.byte q.octets.head?])
  | .advance steps => (q.drop steps, [.none])
  | .drain => (q.drop q.octets.length,
      [.drained q.octets.length (if q.octets = [] then none else some q.octets)])
  | .reset size => (empty size, [.none])
  | .resize newSize => (q.resize newSize, [.resized])
  | .compare compare compareLen =>
    (q, [.compared (RingBuffer.compareOctets q.octets
      (RingBuffer.comparedOctets compare compareLen))])
  | .charCompare compare index => (q, [.charCompared (q.octets[index]? == some compare)])

/-- The octets that an operation accepts. -/
def accepted (q : OctetQueue) : RingCall → List UInt8
  | .write data => if q.octets.length + data.length ≤ q.size then data else []
  | _ => []

/-- The octets that an operation takes off the queue. -/
def removed (q : OctetQueue) : RingCall → List UInt8
  | .readByte advance => if advance then q.octets.take 1 else []
  | .advance steps => q.octets.take steps
  | .drain => q.octets
  | .reset _ => q.octets
  | _ => []

/-- The octets accepted and those removed in a run. -/
def flow (q : OctetQueue) : List RingCall → List UInt8 × List UInt8
  | [] => ([], [])
  | c :: calls =>
    let later := flow (q.call c).1 calls
    (q.accepted c ++ later.1, q.removed c ++ later.2)

theorem call_conserves (q : OctetQueue) (c : RingCall) :
    q.octets ++ q.accepted c = q.removed c ++ (q.call c).1.octets := by
  cases c with
  | write data =>
    simp only [accepted, removed, call, put, List.nil_append]
    split_ifs <;> simp
  | readByte advance =>
    cases advance with
    | false => simp [accepted, removed, call]
    | true => exact (List.append_nil _).trans (List.take_append_drop 1 q.octets).symm
  | advance steps => simp [accepted, removed, call, drop]
  | drain => simp [accepted, removed, call, drop]
  | reset size => simp [accepted, removed, call, empty]
  | resize newSize =>
    simp only [accepted, removed, call, resize, List.nil_append, List.append_nil]
    split_ifs <;> rfl
  | compare compare compareLen => simp [accepted, removed, call]
  | charCompare compare index => simp [accepted, removed, call]

/-- What has been removed and what still waits is what was accepted, in order. -/
theorem flow_conserves (q : OctetQueue) (calls : List RingCall) :
    q.octets ++ (q.flow calls).1 = (q.flow calls).2 ++ (feed call q calls).1.octets := by
  induction calls generalizing q with
  | nil => simp [flow]
  | cons c calls ih =>
    rw [flow, feed_cons, ← List.append_assoc, call_conserves, List.append_assoc, ih,
      List.append_assoc]

/-- What the callers promise: sizes that are positive and large enough for the
octets in use, and buffers that hold what is to be compared. -/
def Allowed (q : OctetQueue) : RingCall → Prop
  | .reset size => 0 < size
  | .resize newSize => 0 < newSize ∧ q.octets.length ≤ newSize
  | .compare compare compareLen => RingBuffer.Comparable compare compareLen
  | _ => True

end OctetQueue

/-- A sound ring with the octets of a queue. -/
structure RingBuffer.Refines (r : RingBuffer) (q : OctetQueue) : Prop where
  valid : r.Valid
  queue_eq : r.queue = q.octets
  size_eq : r.size = q.size

namespace RingBuffer

theorem Refines.used_eq {r : RingBuffer} {q : OctetQueue} (h : r.Refines q) :
    r.used = q.octets.length := by
  rw [← h.queue_eq, queue_length]

theorem refines_reset {size : ℕ} (hpos : 0 < size) :
    (ringBufferReset size).Refines (.empty size) :=
  ⟨valid_reset hpos, queue_reset size, rfl⟩

section Refines
variable {r : RingBuffer} {q : OctetQueue}

theorem write_refines (h : r.Refines q) (data : List UInt8) :
    ∃ t, ringCall r (.write data) = .ok (t, (q.call (.write data)).2) ∧
      t.Refines (q.call (.write data)).1 := by
  have hused := h.used_eq
  have hsize := h.size_eq
  by_cases hfit : q.octets.length + data.length ≤ q.size
  · obtain ⟨t, hwrite, ht, htsize, htqueue⟩ := write_spec h.valid data (by omega)
    refine ⟨t, ?_, ht, ?_, ?_⟩
    · simp only [ringCall, hwrite, OctetQueue.call, if_pos hfit, bind, Except.bind, pure,
        Except.pure]
    · simp [OctetQueue.call, OctetQueue.put, hfit, htqueue, h.queue_eq]
    · simp [OctetQueue.call, OctetQueue.put, hfit, htsize, hsize]
  · have hfull := write_full (r := r) data (by omega)
    refine ⟨r, ?_, ?_⟩
    · simp only [ringCall, hfull, OctetQueue.call, if_neg hfit, bind, Except.bind, pure,
        Except.pure]
    · simpa [OctetQueue.call, OctetQueue.put, hfit] using h

theorem readByte_refines (h : r.Refines q) (advance : Bool) :
    ∃ t, ringCall r (.readByte advance) = .ok (t, (q.call (.readByte advance)).2) ∧
      t.Refines (q.call (.readByte advance)).1 := by
  cases hoctets : q.octets with
  | nil =>
    have hnil := readByte_nil (h.queue_eq.trans hoctets) advance
    refine ⟨r, ?_, h.valid, ?_, ?_⟩
    · simp [ringCall, hnil, OctetQueue.call, hoctets, bind, Except.bind, pure, Except.pure]
    · cases advance <;> simp [OctetQueue.call, OctetQueue.drop, hoctets, h.queue_eq]
    · cases advance <;> simp [OctetQueue.call, OctetQueue.drop, h.size_eq]
  | cons b bs =>
    cases advance with
    | false =>
      have hpeek := readByte_peek h.valid (h.queue_eq.trans hoctets)
      refine ⟨r, ?_, h⟩
      simp [ringCall, hpeek, OctetQueue.call, hoctets, bind, Except.bind, pure, Except.pure]
    | true =>
      obtain ⟨t, hread, ht, htsize, htqueue⟩ := readByte_cons h.valid (h.queue_eq.trans hoctets)
      refine ⟨t, ?_, ht, ?_, htsize.trans h.size_eq⟩
      · simp [ringCall, hread, OctetQueue.call, hoctets, bind, Except.bind, pure, Except.pure]
      · simp [OctetQueue.call, OctetQueue.drop, hoctets, htqueue]

theorem drain_refines (h : r.Refines q) :
    ∃ t, ringCall r .drain = .ok (t, (q.call .drain).2) ∧ t.Refines (q.call .drain).1 := by
  have hused := h.used_eq
  have hqueue := h.queue_eq
  by_cases hempty : q.octets = []
  · have hdrain := drain_nil (hqueue.trans hempty)
    refine ⟨r, ?_, h.valid, ?_, h.size_eq⟩
    · simp [ringCall, hdrain, OctetQueue.call, hempty, hused, bind, Except.bind, pure,
        Except.pure]
    · simp [OctetQueue.call, OctetQueue.drop, hempty, hqueue]
  · obtain ⟨t, hdrain, ht, htsize, htqueue⟩ := drain_spec h.valid (by rwa [hqueue])
    refine ⟨t, ?_, ht, ?_, htsize.trans h.size_eq⟩
    · simp [ringCall, hdrain, OctetQueue.call, hempty, hused, hqueue, bind, Except.bind, pure,
        Except.pure]
    · simp [OctetQueue.call, OctetQueue.drop, htqueue]

theorem resize_refines (h : r.Refines q) {newSize : ℕ} (hpos : 0 < newSize)
    (hfit : q.octets.length ≤ newSize) :
    ∃ t, ringCall r (.resize newSize) = .ok (t, (q.call (.resize newSize)).2) ∧
      t.Refines (q.call (.resize newSize)).1 := by
  obtain ⟨t, hresize, ht, htsize, htqueue⟩ := resize_spec h.valid hpos (by rwa [h.used_eq])
  refine ⟨t, ?_, ht, ?_, ?_⟩
  · simp only [ringCall, hresize, OctetQueue.call, bind, Except.bind, pure, Except.pure]
  · simp [OctetQueue.call, OctetQueue.resize, hfit, htqueue, h.queue_eq]
  · simp [OctetQueue.call, OctetQueue.resize, hfit, htsize]

/-- One operation: the ring stays in its block, answers as the queue, and refines
the queue again. -/
theorem call_refines (h : r.Refines q) {c : RingCall} (hallowed : q.Allowed c) :
    ∃ t, ringCall r c = .ok (t, (q.call c).2) ∧ t.Refines (q.call c).1 := by
  cases c with
  | write data => exact write_refines h data
  | readByte advance => exact readByte_refines h advance
  | advance steps =>
    obtain ⟨ht, htsize, htqueue⟩ := advance_spec h.valid steps
    exact ⟨_, rfl, ht, by rw [htqueue, h.queue_eq]; rfl, htsize.trans h.size_eq⟩
  | drain => exact drain_refines h
  | reset size => exact ⟨_, rfl, refines_reset hallowed⟩
  | resize newSize => exact resize_refines h hallowed.1 hallowed.2
  | compare compare compareLen =>
    have hcompare := compare_spec h.valid hallowed
    refine ⟨r, ?_, h⟩
    simp only [ringCall, hcompare, OctetQueue.call, h.queue_eq, bind, Except.bind, pure,
      Except.pure]
  | charCompare compare index =>
    have hcompare := charCompare_spec h.valid compare index
    refine ⟨r, ?_, h⟩
    simp only [ringCall, hcompare, OctetQueue.call, h.queue_eq, bind, Except.bind, pure,
      Except.pure]

end Refines

end RingBuffer

/-- A ring created with a positive size answers every sequence of operations as the
bounded queue does and never leaves its block; what has been removed from it and
what it still holds is what it accepted, in order. -/
theorem ring_refines_queue {size : ℕ} (hpos : 0 < size) (calls : List RingCall)
    (hallowed : FeedAlong OctetQueue.call OctetQueue.Allowed (.empty size) calls) :
    ∃ r t, ringBufferCreate size = some r ∧
      run ringCall r calls = .ok (t, (feed OctetQueue.call (.empty size) calls).2) ∧
      t.Refines (feed OctetQueue.call (.empty size) calls).1 ∧
      ((OctetQueue.empty size).flow calls).2 ++ t.queue =
        ((OctetQueue.empty size).flow calls).1 := by
  have hstep : ∀ (r : RingBuffer) (q : OctetQueue) (c : RingCall), r.Refines q → q.Allowed c →
      ∃ t, ringCall r c = .ok (t, (q.call c).2) ∧ t.Refines (q.call c).1 :=
    fun r q c h hallowed => RingBuffer.call_refines h hallowed
  obtain ⟨t, hrun, ht⟩ := run_simulates_along hstep (RingBuffer.refines_reset hpos) calls hallowed
  refine ⟨ringBufferReset size, t, if_neg (Nat.ne_of_gt hpos), hrun, ht, ?_⟩
  have hflow := OctetQueue.flow_conserves (.empty size) calls
  rw [ht.queue_eq, ← hflow]
  rfl

/-- A ring of two octets that wraps around, is enlarged, and is emptied. -/
theorem ring_refines_queue_wrapped :
    ∃ r t, ringBufferCreate 2 = some r ∧
      run ringCall r [.write [1, 2], .readByte true, .write [3], .compare [2, 3] 2, .resize 4,
          .write [4, 5], .write [6], .drain] =
        .ok (t, [.written 2, .byte (some 1), .written 1, .compared 0, .resized, .written 2,
          .written 0, .drained 4 (some [2, 3, 4, 5])]) ∧
      t.queue = [] := by
  have hallowed : FeedAlong OctetQueue.call OctetQueue.Allowed (.empty 2)
      [.write [1, 2], .readByte true, .write [3], .compare [2, 3] 2, .resize 4, .write [4, 5],
        .write [6], .drain] := by
    simp [FeedAlong, OctetQueue.Allowed, RingBuffer.Comparable, OctetQueue.call, OctetQueue.put,
      OctetQueue.drop, OctetQueue.empty]
  obtain ⟨r, t, hr, hrun, ht, -⟩ := ring_refines_queue (by decide) _ hallowed
  exact ⟨r, t, hr, hrun, ht.queue_eq⟩

end RaveloxMidi
