import RaveloxMidi.ByteMemory

/-!
# The ring buffer of the MIDI parser

`start` and `endIndex` (the source's `end`) are positions in a block of `size`
octets, `used` counts the octets queued. `endIndex` may stand at `size`, one
past the block, until the next write wraps it. Every copy is checked, so an
operation that returns has stayed inside the block. Allocations succeed, so
`data` is never missing, and lengths of real buffers are far below the range
of `size_t`, so sums of them do not wrap.
-/
namespace RaveloxMidi
open ByteMemory

structure RingBuffer where
  start : ℕ
  endIndex : ℕ
  size : ℕ
  used : ℕ
  data : List UInt8
  deriving Repr, DecidableEq

def ringBufferDataIndex (ring : RingBuffer) (offset : ℕ) : ℕ := (ring.start + offset) % ring.size

def ringBufferReset (size : ℕ) : RingBuffer := ⟨0, 0, size, 0, List.replicate size 0⟩

def ringBufferCreate (size : ℕ) : Option RingBuffer :=
  if size = 0 then none else some (ringBufferReset size)

def ringBufferGetSize (ring : RingBuffer) : ℕ := ring.size

/-- The new ring and the number of octets stored: all of them or none. -/
def ringBufferWrite (ring : RingBuffer) (data : List UInt8) : Except Fault (RingBuffer × ℕ) := do
  let len := data.length
  if len = 0 then return (ring, 0)
  if ring.used + len > ring.size then return (ring, 0)
  if ring.start ≤ ring.endIndex then
    if ring.endIndex + len ≤ ring.size then
      let block ← store ring.data ring.endIndex data
      return ({ ring with
        data := block, used := ring.used + len, endIndex := ring.endIndex + len }, len)
    else
      let firstPart := ring.size - ring.endIndex
      let secondPart := len - firstPart
      let block ← store ring.data ring.endIndex (data.take firstPart)
      let block ← store block 0 (data.drop firstPart)
      return ({ ring with data := block, endIndex := secondPart, used := ring.used + len }, len)
  else
    let block ← store ring.data ring.endIndex data
    return ({ ring with
      data := block, endIndex := ring.endIndex + len, used := ring.used + len }, len)

/-- `none` is the null result. In the split case the first copy takes everything
up to the end of the block, whatever `len` is. -/
def ringBufferRead (ring : RingBuffer) (len : ℕ) (advance : Bool) :
    Except Fault (RingBuffer × Option (List UInt8)) := do
  if len = 0 then return (ring, none)
  if ring.used = 0 then return (ring, none)
  if len > ring.used then return (ring, none)
  let dest := List.replicate len 0
  if ring.start < ring.endIndex then
    let src ← load ring.data ring.start len
    let dest ← store dest 0 src
    let start := if ring.start + len ≥ ring.size then 0 else ring.start + len
    return (if advance then { ring with start := start, used := ring.used - len } else ring,
      some dest)
  else
    let firstPart := ring.size - ring.start
    let src ← load ring.data ring.start firstPart
    let dest ← store dest 0 src
    let secondPart := len - firstPart
    let src ← load ring.data 0 secondPart
    let dest ← store dest firstPart src
    return (if advance then { ring with used := ring.used - len, start := secondPart } else ring,
      some dest)

/-- `none` is the return status -1: no data available. -/
def ringBufferReadByte (ring : RingBuffer) (advance : Bool) :
    Except Fault (RingBuffer × Option UInt8) :=
  if ring.used = 0 then .ok (ring, none)
  else
    match ring.data[ring.start]? with
    | none => .error .outOfBounds
    | some byte =>
      let start := if ring.start + 1 ≥ ring.size then 0 else ring.start + 1
      .ok (if advance then { ring with start := start, used := ring.used - 1 } else ring, some byte)

def ringBufferDrain (ring : RingBuffer) : Except Fault (RingBuffer × Option (List UInt8)) :=
  ringBufferRead ring ring.used true

def ringBufferCharCompare (ring : RingBuffer) (compare : UInt8) (index : ℕ) :
    Except Fault Bool :=
  if index ≥ ring.used then .ok false
  else
    match ring.data[ringBufferDataIndex ring index]? with
    | none => .error .outOfBounds
    | some byte => .ok (byte == compare)

/-- A ring in use is read without an advance and copied to the front of the new
block; an empty one is reset. -/
def ringBufferResize (ring : RingBuffer) (newSize : ℕ) : Except Fault RingBuffer := do
  let newData := List.replicate newSize 0
  let bytesUsed := ring.used
  let (ring, oldData) ← ringBufferRead ring bytesUsed false
  match oldData with
  | none => return ringBufferReset newSize
  | some oldData =>
    let newData ← store newData 0 oldData
    return { ring with
      data := newData, start := 0, endIndex := bytesUsed, size := newSize, used := bytesUsed }

/-- The loop over the octets still to be compared: -1 for an exhausted ring, else
the difference of the first two octets that differ. -/
def ringBufferCompareLoop (ring : RingBuffer) (compare : List UInt8) :
    ℕ → ℕ → Except Fault ℤ
  | 0, _ => .ok 0
  | left + 1, i =>
    if i ≥ ring.used then .ok (-1)
    else
      match ring.data[ringBufferDataIndex ring i]?, compare[i]? with
      | some ringByte, some compareByte =>
        if ringByte ≠ compareByte then .ok ((ringByte.toNat : ℤ) - compareByte.toNat)
        else ringBufferCompareLoop ring compare left (i + 1)
      | _, _ => .error .outOfBounds

/-- `strlen( compare ) + 1`: the terminator counts. -/
def terminatedLength (compare : List UInt8) : Except Fault ℕ :=
  if 0 ∈ compare then .ok (compare.idxOf 0 + 1) else .error .outOfBounds

def ringBufferCompare (ring : RingBuffer) (compare : List UInt8) (compareLen : ℕ) :
    Except Fault ℤ := do
  let realCompareLen ← if compareLen > 0 then .ok compareLen else terminatedLength compare
  ringBufferCompareLoop ring compare realCompareLen 0

/-- At most as many steps as there are octets. -/
def ringBufferAdvance (ring : RingBuffer) (steps : ℕ) : RingBuffer :=
  if steps = 0 then ring
  else
    let realSteps := min steps ring.used
    let start := ringBufferDataIndex ring realSteps
    let used := ring.used - realSteps
    { ring with
      start := start, used := used, endIndex := if used = 0 then start else ring.endIndex }

namespace RingBuffer

/-- The three ways the end position can stand to `start + used`: not wrapped,
wrapped, and drained up to the end of the block with only `start` wrapped. -/
structure Valid (r : RingBuffer) : Prop where
  size_pos : 0 < r.size
  data_length : r.data.length = r.size
  start_lt : r.start < r.size
  used_le : r.used ≤ r.size
  end_le : r.endIndex ≤ r.size
  wrap : r.start + r.used = r.endIndex ∨ r.start + r.used = r.endIndex + r.size ∨
    r.start + r.used + r.size = r.endIndex

/-- The octets waiting in the ring, oldest first. -/
def queue (r : RingBuffer) : List UInt8 :=
  (List.range r.used).map (fun i => r.data.getD (ringBufferDataIndex r i) 0)

@[simp] theorem queue_length (r : RingBuffer) : r.queue.length = r.used := by simp [queue]

theorem dataIndex_eq {r : RingBuffer} (h : r.Valid) {i : ℕ} (hi : i ≤ r.size) :
    ringBufferDataIndex r i =
      if r.start + i < r.size then r.start + i else r.start + i - r.size := by
  have hs := h.start_lt
  unfold ringBufferDataIndex
  split_ifs with hlow
  · exact Nat.mod_eq_of_lt hlow
  · rw [Nat.mod_eq_sub_mod (by omega), Nat.mod_eq_of_lt (by omega)]

theorem queue_getElem? {r : RingBuffer} (h : r.Valid) {i : ℕ} (hi : i < r.used) :
    r.queue[i]? = r.data[ringBufferDataIndex r i]? := by
  have hlt : ringBufferDataIndex r i < r.data.length := by
    rw [h.data_length]
    exact Nat.mod_lt _ h.size_pos
  simp [queue, hi, List.getElem?_eq_getElem hlt]

theorem valid_reset {size : ℕ} (h : 0 < size) : (ringBufferReset size).Valid := by
  constructor <;> simp [ringBufferReset, h]

@[simp] theorem queue_reset (size : ℕ) : (ringBufferReset size).queue = [] := by
  simp [queue, ringBufferReset]

theorem used_eq_zero_iff (r : RingBuffer) : r.used = 0 ↔ r.queue = [] := by
  rw [← List.length_eq_zero_iff, queue_length]

/-- A ring that keeps the old octets in place and has the new ones behind them
queues the concatenation. -/
theorem queue_append {r t : RingBuffer} (h : r.Valid) (ht : t.Valid) {bs : List UInt8}
    (hstart : t.start = r.start) (hsize : t.size = r.size) (hused : t.used = r.used + bs.length)
    (hold : ∀ i < r.used, t.data[ringBufferDataIndex r i]? = r.data[ringBufferDataIndex r i]?)
    (hnew : ∀ i < bs.length, t.data[ringBufferDataIndex r (r.used + i)]? = bs[i]?) :
    t.queue = r.queue ++ bs := by
  have hindex : ∀ i, ringBufferDataIndex t i = ringBufferDataIndex r i := by
    intro i
    simp only [ringBufferDataIndex, hstart, hsize]
  apply List.ext_getElem?
  intro i
  by_cases hi : i < r.used
  · rw [queue_getElem? ht (by omega), hindex, hold i hi,
      List.getElem?_append_left (by simpa using hi), queue_getElem? h hi]
  · by_cases hb : i < r.used + bs.length
    · have hsum : r.used + (i - r.used) = i := by omega
      have hat := hnew (i - r.used) (by omega)
      rw [hsum] at hat
      rw [queue_getElem? ht (by omega), hindex, hat,
        List.getElem?_append_right (by simpa using hi), queue_length]
    · rw [List.getElem?_eq_none (by simp; omega), List.getElem?_eq_none (by simp; omega)]

/-- A write that fits appends; it never leaves the block. -/
theorem write_spec {r : RingBuffer} (h : r.Valid) (bs : List UInt8)
    (hfit : r.used + bs.length ≤ r.size) :
    ∃ t, ringBufferWrite r bs = .ok (t, bs.length) ∧ t.Valid ∧ t.size = r.size ∧
      t.queue = r.queue ++ bs := by
  obtain ⟨hpos, hlen, hstart, hused, hend, hwrap⟩ := h
  have h : r.Valid := ⟨hpos, hlen, hstart, hused, hend, hwrap⟩
  by_cases hzero : bs.length = 0
  · exact ⟨r, by simp [ringBufferWrite, hzero, pure, Except.pure], h, rfl,
      by simp [List.length_eq_zero_iff.mp hzero]⟩
  have hfull : ¬ r.used + bs.length > r.size := by omega
  by_cases hcontiguous : r.endIndex + bs.length ≤ r.size
  · obtain ⟨block, hstore, hblock, hcells⟩ := store_spec
      (show r.endIndex + bs.length ≤ r.data.length by omega)
    let t : RingBuffer :=
      { r with data := block, used := r.used + bs.length, endIndex := r.endIndex + bs.length }
    have ht : t.Valid := ⟨hpos, hblock.trans hlen, hstart, hfit, hcontiguous, by
      simp only [t]; omega⟩
    refine ⟨t, ?_, ht, rfl, queue_append h ht rfl rfl rfl ?_ ?_⟩
    · by_cases horder : r.start ≤ r.endIndex <;>
        simp [ringBufferWrite, hzero, hfull, horder, hcontiguous, hstore, t, pure, Except.pure,
          bind, Except.bind]
    · intro i hi
      rw [dataIndex_eq h (by omega), hcells, if_neg]
      split_ifs <;> omega
    · intro i hi
      rw [dataIndex_eq h (by omega), hcells, if_pos]
      · congr 1
        split_ifs <;> omega
      · split_ifs <;> omega
  · have horder : r.start ≤ r.endIndex := by omega
    obtain ⟨first, hfirst, hfirstLen, hfirstCells⟩ := store_spec
      (show r.endIndex + (bs.take (r.size - r.endIndex)).length ≤ r.data.length by simp; omega)
    obtain ⟨second, hsecond, hsecondLen, hsecondCells⟩ := store_spec
      (show 0 + (bs.drop (r.size - r.endIndex)).length ≤ first.length by simp; omega)
    let t : RingBuffer := { r with
      data := second, endIndex := bs.length - (r.size - r.endIndex), used := r.used + bs.length }
    have ht : t.Valid := ⟨hpos, hsecondLen.trans (hfirstLen.trans hlen), hstart, hfit,
      by simp only [t]; omega, by simp only [t]; omega⟩
    have htake : (bs.take (r.size - r.endIndex)).length = r.size - r.endIndex := by simp; omega
    have hdrop : (bs.drop (r.size - r.endIndex)).length = bs.length - (r.size - r.endIndex) := by
      simp
    refine ⟨t, ?_, ht, rfl, queue_append h ht rfl rfl rfl ?_ ?_⟩
    · simp [ringBufferWrite, hzero, hfull, horder, hcontiguous, hfirst, hsecond, t, pure,
        Except.pure, bind, Except.bind]
    · intro i hi
      rw [dataIndex_eq h (by omega), hsecondCells, if_neg, hfirstCells, if_neg]
      · rw [htake]; split_ifs <;> omega
      · rw [hdrop]; split_ifs <;> omega
    · intro i hi
      rw [dataIndex_eq h (by omega), hsecondCells, hdrop]
      generalize hslot : (if r.start + (r.used + i) < r.size then r.start + (r.used + i)
        else r.start + (r.used + i) - r.size) = slot
      by_cases hsplit : slot < bs.length - (r.size - r.endIndex)
      · rw [if_pos (by omega), List.getElem?_drop]
        congr 1
        split_ifs at hslot <;> omega
      · have hin : r.endIndex ≤ slot ∧ slot < r.size := by split_ifs at hslot <;> omega
        rw [if_neg (by omega), hfirstCells, htake, if_pos (by omega),
          List.getElem?_take_of_lt (by omega)]
        congr 1
        split_ifs at hslot <;> omega

/-- A write that does not fit changes nothing. -/
theorem write_full {r : RingBuffer} (bs : List UInt8) (hfull : r.size < r.used + bs.length) :
    ringBufferWrite r bs = .ok (r, 0) := by
  by_cases hzero : bs.length = 0
  · simp [ringBufferWrite, hzero, pure, Except.pure]
  · simp [ringBufferWrite, hzero, hfull, pure, Except.pure]

/-- A ring over the same block that starts some octets later queues the rest. -/
theorem queue_drop {r t : RingBuffer} (h : r.Valid) (ht : t.Valid) {steps : ℕ}
    (hdata : t.data = r.data) (hsize : t.size = r.size) (hsteps : steps ≤ r.used)
    (hstart : t.start = ringBufferDataIndex r steps) (hused : t.used = r.used - steps) :
    t.queue = r.queue.drop steps := by
  have hle := h.used_le
  apply List.ext_getElem?
  intro i
  rw [List.getElem?_drop]
  by_cases hi : i < t.used
  · rw [queue_getElem? ht hi, queue_getElem? h (by omega), hdata, ringBufferDataIndex, hstart,
      hsize, ringBufferDataIndex, ringBufferDataIndex, Nat.mod_add_mod, Nat.add_assoc]
  · rw [List.getElem?_eq_none (by simpa using hi), List.getElem?_eq_none (by simp; omega)]

/-- The octet at `start` is the oldest one. -/
theorem head_cell {r : RingBuffer} (h : r.Valid) {b : UInt8} {bs : List UInt8}
    (hq : r.queue = b :: bs) : r.used = bs.length + 1 ∧ r.data[r.start]? = some b := by
  have hused : r.used = bs.length + 1 := by rw [← queue_length, hq, List.length_cons]
  have hstart := h.start_lt
  have hzero := queue_getElem? h (show 0 < r.used by omega)
  rw [dataIndex_eq h (by omega), if_pos (by omega), hq] at hzero
  exact ⟨hused, by simpa using hzero.symm⟩

/-- Looking at a byte leaves the ring alone. -/
theorem readByte_peek {r : RingBuffer} (h : r.Valid) {b : UInt8} {bs : List UInt8}
    (hq : r.queue = b :: bs) : ringBufferReadByte r false = .ok (r, some b) := by
  obtain ⟨hused, hhead⟩ := head_cell h hq
  simp [ringBufferReadByte, hused, hhead]

/-- The ring without its oldest octets, which stay in the block. -/
def dropped (r : RingBuffer) (len : ℕ) : RingBuffer :=
  { r with start := ringBufferDataIndex r len, used := r.used - len }

theorem dropped_spec {r : RingBuffer} (h : r.Valid) {len : ℕ} (hle : len ≤ r.used) :
    (r.dropped len).Valid ∧ (r.dropped len).queue = r.queue.drop len := by
  obtain ⟨hpos, hlen, hstart, hused, hend, hwrap⟩ := h
  have h : r.Valid := ⟨hpos, hlen, hstart, hused, hend, hwrap⟩
  have hindex := dataIndex_eq h (hle.trans hused)
  have ht : (r.dropped len).Valid := by
    refine ⟨hpos, hlen, Nat.mod_lt _ hpos, (Nat.sub_le _ _).trans hused, hend, ?_⟩
    simp only [dropped, hindex]
    split_ifs <;> omega
  exact ⟨ht, queue_drop h ht rfl rfl hle rfl rfl⟩

/-- Reading a byte takes the oldest one off the queue. -/
theorem readByte_cons {r : RingBuffer} (h : r.Valid) {b : UInt8} {bs : List UInt8}
    (hq : r.queue = b :: bs) :
    ∃ t, ringBufferReadByte r true = .ok (t, some b) ∧ t.Valid ∧ t.size = r.size ∧
      t.queue = bs := by
  obtain ⟨hused, hhead⟩ := head_cell h hq
  obtain ⟨ht, hqueue⟩ := dropped_spec h (show 1 ≤ r.used by omega)
  have hstart := h.start_lt
  have hnext : (if r.start + 1 ≥ r.size then 0 else r.start + 1) = ringBufferDataIndex r 1 := by
    rw [dataIndex_eq h (by omega)]
    split_ifs <;> omega
  refine ⟨r.dropped 1, ?_, ht, rfl, ?_⟩
  · have hsome : ¬ r.used = 0 := by omega
    simp only [ringBufferReadByte, if_neg hsome, hhead, hnext, if_true, dropped]
  · rw [hqueue, hq, List.drop_one, List.tail_cons]

theorem readByte_nil {r : RingBuffer} (hq : r.queue = []) (advance : Bool) :
    ringBufferReadByte r advance = .ok (r, none) := by
  rw [ringBufferReadByte, if_pos ((used_eq_zero_iff r).mpr hq)]

/-- The oldest octets, as far as they lie in front of the end of the block. -/
theorem queue_take_front {r : RingBuffer} (h : r.Valid) {len : ℕ} (hle : len ≤ r.used)
    (hfront : r.start + len ≤ r.size) : (r.data.drop r.start).take len = r.queue.take len := by
  have hdata := h.data_length
  have hused := h.used_le
  apply List.ext_getElem?
  intro i
  by_cases hi : i < len
  · rw [List.getElem?_take_of_lt hi, List.getElem?_take_of_lt hi, List.getElem?_drop,
      queue_getElem? h (by omega), dataIndex_eq h (by omega), if_pos (by omega)]
  · rw [List.getElem?_eq_none (by simp; omega), List.getElem?_eq_none (by simp; omega)]

/-- The oldest octets, where they go on at the front of the block. -/
theorem queue_take_wrapped {r : RingBuffer} (h : r.Valid) {len : ℕ} (hle : len ≤ r.used)
    (hreach : r.size - r.start ≤ len) :
    (r.data.drop r.start).take (r.size - r.start) ++ r.data.take (len - (r.size - r.start)) =
      r.queue.take len := by
  have hdata := h.data_length
  have hstart := h.start_lt
  have hused := h.used_le
  have hfront := queue_take_front h (hreach.trans hle) (show r.start + _ ≤ r.size by omega)
  have hlength : (r.queue.take (r.size - r.start)).length = r.size - r.start := by
    rw [List.length_take, queue_length]
    omega
  rw [hfront]
  apply List.ext_getElem?
  intro i
  by_cases hi : i < r.size - r.start
  · rw [List.getElem?_append_left (by omega), List.getElem?_take_of_lt hi,
      List.getElem?_take_of_lt (by omega)]
  · rw [List.getElem?_append_right (by omega), hlength]
    by_cases hin : i < len
    · rw [List.getElem?_take_of_lt (by omega), List.getElem?_take_of_lt hin,
        queue_getElem? h (by omega), dataIndex_eq h (by omega), if_neg (by omega)]
      congr 1
      omega
    · rw [List.getElem?_eq_none (by simp; omega), List.getElem?_eq_none (by simp; omega)]

/-- Two copies that fill a cleared block. -/
theorem store_both (first second : List UInt8) {len : ℕ}
    (hlen : first.length + second.length = len) :
    ∃ block, store (List.replicate len 0) 0 first = .ok block ∧
      store block first.length second = .ok (first ++ second) := by
  have hall := assemble_ok len [first, second] (by simpa using hlen)
  obtain ⟨block, hfirst, hall⟩ := bind_ok hall
  obtain ⟨full, hsecond, hall⟩ := bind_ok hall
  cases hall
  refine ⟨block, hfirst, ?_⟩
  simpa using hsecond

/-- Reading some of the octets, in both storage cases. In the split one the copy runs up
to the end of the block, so at least the octets up to there have to be asked for. -/
theorem read_spec {r : RingBuffer} (h : r.Valid) {len : ℕ} (hsome : 0 < len) (hle : len ≤ r.used)
    (hreach : r.start < r.endIndex ∨ r.size - r.start ≤ len) (advance : Bool) :
    ringBufferRead r len advance =
      .ok (if advance then r.dropped len else r, some (r.queue.take len)) := by
  obtain ⟨hpos, hlen, hstart, hused, hend, hwrap⟩ := h
  have h : r.Valid := ⟨hpos, hlen, hstart, hused, hend, hwrap⟩
  have hzero : ¬ len = 0 := by omega
  have hempty : ¬ r.used = 0 := by omega
  have hmany : ¬ len > r.used := by omega
  have hindex := dataIndex_eq h (hle.trans hused)
  have hcount : (r.queue.take len).length = len := by
    rw [List.length_take, queue_length]
    omega
  simp only [ringBufferRead, if_neg hzero, if_neg hempty, if_neg hmany, pure, Except.pure]
  by_cases horder : r.start < r.endIndex
  · have hload := load_ok (show r.start + len ≤ r.data.length by omega)
    rw [queue_take_front h hle (by omega)] at hload
    have hstore : store (List.replicate len 0) 0 (r.queue.take len) = .ok (r.queue.take len) := by
      rw [store_ok (by simp), hcount]
      simp
    have hnext : (if r.start + len ≥ r.size then 0 else r.start + len) =
        ringBufferDataIndex r len := by
      rw [hindex]
      split_ifs <;> omega
    simp only [if_pos horder, hload, hstore, hnext, dropped, bind, Except.bind]
  · have hreach : r.size - r.start ≤ len := hreach.resolve_left horder
    have hfirst := load_ok (show r.start + (r.size - r.start) ≤ r.data.length by omega)
    have hsecond := load_ok (show 0 + (len - (r.size - r.start)) ≤ r.data.length by omega)
    have hfirstLen := load_length hfirst
    have hsecondLen := load_length hsecond
    obtain ⟨block, hstoreFirst, hstoreSecond⟩ := store_both _ _
      (show ((r.data.drop r.start).take (r.size - r.start)).length +
        ((r.data.drop 0).take (len - (r.size - r.start))).length = len by omega)
    rw [hfirstLen, List.drop_zero, queue_take_wrapped h hle hreach] at hstoreSecond
    have hnext : len - (r.size - r.start) = ringBufferDataIndex r len := by
      rw [hindex]
      split_ifs <;> omega
    rw [List.drop_zero] at hsecond
    simp only [if_neg horder, hfirst, hstoreFirst, hsecond, hstoreSecond, bind, Except.bind,
      ← hnext, dropped]

/-- Reading all octets gives the whole queue, in both storage cases. -/
theorem read_all {r : RingBuffer} (h : r.Valid) (hne : r.queue ≠ []) :
    ∃ t, (∀ advance, ringBufferRead r r.used advance =
        .ok (if advance then t else r, some r.queue)) ∧
      t.Valid ∧ t.size = r.size ∧ t.queue = [] := by
  have hused : r.used ≠ 0 := fun hz => hne ((used_eq_zero_iff r).mp hz)
  obtain ⟨ht, hqueue⟩ := dropped_spec h (le_refl r.used)
  have hreach : r.start < r.endIndex ∨ r.size - r.start ≤ r.used := by
    obtain ⟨hpos, hlen, hstart, hle, hend, hwrap⟩ := h
    omega
  refine ⟨r.dropped r.used, fun advance => ?_, ht, rfl, ?_⟩
  · rw [read_spec h (Nat.pos_of_ne_zero hused) (le_refl _) hreach,
      List.take_of_length_le (by simp)]
  · rw [hqueue, List.drop_eq_nil_of_le (by simp)]

/-- Draining returns the queue and leaves it empty. -/
theorem drain_spec {r : RingBuffer} (h : r.Valid) (hne : r.queue ≠ []) :
    ∃ t, ringBufferDrain r = .ok (t, some r.queue) ∧ t.Valid ∧ t.size = r.size ∧
      t.queue = [] := by
  obtain ⟨t, hread, ht⟩ := read_all h hne
  exact ⟨t, hread true, ht⟩

theorem drain_nil {r : RingBuffer} (hq : r.queue = []) : ringBufferDrain r = .ok (r, none) := by
  have hused := (used_eq_zero_iff r).mpr hq
  simp [ringBufferDrain, ringBufferRead, hused, pure, Except.pure]

/-- A larger or smaller block with the same octets in it. -/
theorem resize_spec {r : RingBuffer} (h : r.Valid) {newSize : ℕ} (hpos : 0 < newSize)
    (hfit : r.used ≤ newSize) :
    ∃ t, ringBufferResize r newSize = .ok t ∧ t.Valid ∧ t.size = newSize ∧ t.queue = r.queue := by
  by_cases hq : r.queue = []
  · have hused := (used_eq_zero_iff r).mpr hq
    refine ⟨ringBufferReset newSize, ?_, valid_reset hpos, rfl, by rw [queue_reset, hq]⟩
    simp [ringBufferResize, ringBufferRead, hused, bind, Except.bind, pure, Except.pure]
  · obtain ⟨drained, hall, -⟩ := read_all h hq
    have hread := hall false
    have hroom : 0 + r.queue.length ≤ (List.replicate newSize (0 : UInt8)).length := by
      simpa using hfit
    obtain ⟨block, hstore, hblock, hcells⟩ := store_spec hroom
    let t : RingBuffer := ⟨0, r.used, newSize, r.used, block⟩
    have ht : t.Valid := ⟨hpos, by simpa [t] using hblock, hpos, hfit, hfit, .inl (Nat.zero_add _)⟩
    refine ⟨t, ?_, ht, rfl, ?_⟩
    · simp [ringBufferResize, hread, hstore, bind, Except.bind, pure, Except.pure, t]
    · apply List.ext_getElem?
      intro i
      by_cases hi : i < r.used
      · have hlt : (0 : ℕ) + i < newSize := by omega
        rw [queue_getElem? ht hi, dataIndex_eq ht (by simp only [t]; omega), if_pos hlt]
        simp only [t, hcells, queue_length]
        rw [if_pos (by omega)]
        congr 1
        omega
      · rw [List.getElem?_eq_none (by simpa [t] using hi),
          List.getElem?_eq_none (by simpa using hi)]

/-- Advancing drops the oldest octets. -/
theorem advance_spec {r : RingBuffer} (h : r.Valid) (steps : ℕ) :
    (ringBufferAdvance r steps).Valid ∧ (ringBufferAdvance r steps).size = r.size ∧
      (ringBufferAdvance r steps).queue = r.queue.drop steps := by
  by_cases hzero : steps = 0
  · rw [ringBufferAdvance, if_pos hzero, hzero, List.drop_zero]
    exact ⟨h, rfl, rfl⟩
  · obtain ⟨hpos, hlen, hstart, hle, hend, hwrap⟩ := h
    have h : r.Valid := ⟨hpos, hlen, hstart, hle, hend, hwrap⟩
    have hindex := dataIndex_eq h (show min steps r.used ≤ r.size by omega)
    have hadvance : ringBufferAdvance r steps =
        ⟨ringBufferDataIndex r (min steps r.used),
          if r.used - min steps r.used = 0 then ringBufferDataIndex r (min steps r.used)
            else r.endIndex,
          r.size, r.used - min steps r.used, r.data⟩ := by
      rw [ringBufferAdvance, if_neg hzero]
    rw [hadvance]
    have ht : RingBuffer.Valid ⟨ringBufferDataIndex r (min steps r.used),
        if r.used - min steps r.used = 0 then ringBufferDataIndex r (min steps r.used)
          else r.endIndex,
        r.size, r.used - min steps r.used, r.data⟩ := by
      rw [hindex]
      refine ⟨hpos, hlen, ?_, (Nat.sub_le _ _).trans hle, ?_, ?_⟩
      · dsimp only
        split_ifs <;> omega
      · dsimp only
        split_ifs <;> omega
      · dsimp only
        split_ifs <;> omega
    refine ⟨ht, rfl, ?_⟩
    rw [queue_drop h ht rfl rfl (Nat.min_le_right _ _) rfl rfl]
    apply List.ext_getElem?
    intro i
    rw [List.getElem?_drop, List.getElem?_drop]
    by_cases hmany : steps ≤ r.used
    · rw [Nat.min_eq_left hmany]
    · rw [List.getElem?_eq_none (by rw [queue_length]; omega),
        List.getElem?_eq_none (by rw [queue_length]; omega)]

/-- What a comparison of the octets waiting with some others should answer: -1 if
they are too few, else the difference at the first place where they differ. -/
def compareOctets : List UInt8 → List UInt8 → ℤ
  | _, [] => 0
  | [], _ :: _ => -1
  | waiting :: later, compareByte :: rest =>
    if waiting ≠ compareByte then (waiting.toNat : ℤ) - compareByte.toNat
    else compareOctets later rest

/-- Octets compare as equal exactly when they are the first ones waiting. -/
theorem compareOctets_eq_zero_iff (waiting compare : List UInt8) :
    compareOctets waiting compare = 0 ↔ compare <+: waiting := by
  induction compare generalizing waiting with
  | nil => simp [compareOctets]
  | cons compareByte rest ih =>
    cases waiting with
    | nil => simp [compareOctets]
    | cons first later =>
      rw [compareOctets, List.cons_prefix_cons]
      by_cases hsame : first = compareByte
      · subst hsame
        simpa using ih later
      · have hdiffer : (first.toNat : ℤ) - compareByte.toNat ≠ 0 := by
          intro hzero
          exact hsame (UInt8.toNat_inj.mp (by omega))
        simp [hsame, Ne.symm hsame, hdiffer]

/-- The loop from some position on: by induction on the octets left to compare. -/
theorem compareLoop_spec {r : RingBuffer} (h : r.Valid) (compare : List UInt8) (left : ℕ) :
    ∀ i, i + left ≤ compare.length → ringBufferCompareLoop r compare left i =
      .ok (compareOctets (r.queue.drop i) ((compare.drop i).take left)) := by
  induction left with
  | zero =>
    intro i hi
    simp [ringBufferCompareLoop, compareOctets]
  | succ left ih =>
    intro i hi
    have hlt : i < compare.length := by omega
    rw [List.drop_eq_getElem_cons hlt, List.take_succ_cons, ringBufferCompareLoop,
      List.getElem?_eq_getElem hlt]
    by_cases hused : i < r.used
    · have hqueue : i < r.queue.length := by simpa using hused
      have hcell := queue_getElem? h hused
      rw [List.getElem?_eq_getElem hqueue] at hcell
      rw [if_neg (by omega), ← hcell, List.drop_eq_getElem_cons hqueue, compareOctets]
      dsimp only
      split_ifs with hdiffer
      · rfl
      · exact ih (i + 1) (by omega)
    · rw [if_pos (by omega), List.drop_eq_nil_of_le (by simpa using hused), compareOctets]

/-- The octets that a comparison is about. -/
def comparedOctets (compare : List UInt8) (compareLen : ℕ) : List UInt8 :=
  compare.take (if compareLen > 0 then compareLen else compare.idxOf 0 + 1)

/-- The caller's buffer holds what is to be compared: as many octets as it says, or
a terminator. -/
def Comparable (compare : List UInt8) (compareLen : ℕ) : Prop :=
  compareLen ≤ compare.length ∧ (compareLen = 0 → 0 ∈ compare)

theorem compare_spec {r : RingBuffer} (h : r.Valid) {compare : List UInt8} {compareLen : ℕ}
    (hcompare : Comparable compare compareLen) :
    ringBufferCompare r compare compareLen =
      .ok (compareOctets r.queue (comparedOctets compare compareLen)) := by
  obtain ⟨hfits, hterminated⟩ := hcompare
  by_cases hpos : compareLen > 0
  · have hloop := compareLoop_spec h compare compareLen 0 (by omega)
    simp only [ringBufferCompare, if_pos hpos, comparedOctets, bind, Except.bind]
    exact hloop
  · have hmem := hterminated (by omega)
    have hlt := List.idxOf_lt_length_of_mem hmem
    have hloop := compareLoop_spec h compare (compare.idxOf 0 + 1) 0 (by omega)
    simp only [ringBufferCompare, if_neg hpos, comparedOctets, terminatedLength, if_pos hmem, bind,
      Except.bind]
    exact hloop

/-- Comparing one octet looks at the queue at that position. -/
theorem charCompare_spec {r : RingBuffer} (h : r.Valid) (compare : UInt8) (index : ℕ) :
    ringBufferCharCompare r compare index = .ok (r.queue[index]? == some compare) := by
  by_cases hi : index < r.used
  · have hget := queue_getElem? h hi
    have hlt : index < r.queue.length := by simpa using hi
    rw [List.getElem?_eq_getElem hlt] at hget
    simp [ringBufferCharCompare, Nat.not_le.mpr hi, ← hget, hi]
  · simp [ringBufferCharCompare, Nat.not_lt.mp hi]

end RingBuffer
end RaveloxMidi
