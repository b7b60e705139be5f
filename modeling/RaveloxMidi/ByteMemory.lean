import Mathlib.Data.List.Basic
import Mathlib.Data.FinEnum
import Mathlib.Data.Nat.Bits
import Mathlib.Tactic

/-!
# Checked octet memory and big-endian words

A block is the list of its octets. Copies out of and into a block name an
offset and a length and fault unless the whole range lies inside the block, so
a computation that does not fault has touched nothing else. A cursor reads a
block whose surroundings are known only as some further octets: it records
whether it has strayed instead of stopping.
-/
namespace ByteMemory

/-- What can be wrong with an access. -/
inductive Fault where
  | outOfBounds
  | nullPointer
  | uninitialised
  deriving Repr, DecidableEq

/-- The ranges of bit-fields are not empty. As named instances these are the same
proofs in the literals of every module. -/
instance neZeroBits2 : NeZero 4 := ⟨by decide⟩

instance neZeroBits4 : NeZero 16 := ⟨by decide⟩

instance neZeroBits7 : NeZero 128 := ⟨by decide⟩

instance neZeroBits10 : NeZero 1024 := ⟨by decide⟩

/-- One step of a computation that did not fault. -/
theorem bind_ok {α β : Type} {x : Except Fault α} {f : α → Except Fault β} {b : β}
    (h : (x >>= f) = .ok b) : ∃ a, x = .ok a ∧ f a = .ok b := by
  cases x with
  | error fault => cases h
  | ok a => exact ⟨a, rfl, h⟩

theorem map_ok {α β : Type} {x : Except Fault α} {f : α → β} {b : β} (h : x.map f = .ok b) :
    ∃ a, x = .ok a ∧ f a = b := by
  cases x with
  | error fault => cases h
  | ok a => exact ⟨a, rfl, Except.ok.inj h⟩

/-- Copy `n` octets starting at `off` out of the block. -/
def load (block : List UInt8) (off n : ℕ) : Except Fault (List UInt8) :=
  if off + n ≤ block.length then .ok ((block.drop off).take n) else .error .outOfBounds

/-- Copy `src` into the block starting at `off`. -/
def store (block : List UInt8) (off : ℕ) (src : List UInt8) : Except Fault (List UInt8) :=
  if off + src.length ≤ block.length then
    .ok (block.take off ++ src ++ block.drop (off + src.length))
  else .error .outOfBounds

theorem load_ok {block : List UInt8} {off n : ℕ} (h : off + n ≤ block.length) :
    load block off n = .ok ((block.drop off).take n) := if_pos h

theorem load_length {block out : List UInt8} {off n : ℕ} (h : load block off n = .ok out) :
    out.length = n := by
  unfold load at h
  split_ifs at h with hfit
  rw [← Except.ok.inj h, List.length_take, List.length_drop]
  omega

theorem store_ok {block src : List UInt8} {off : ℕ} (h : off + src.length ≤ block.length) :
    store block off src = .ok (block.take off ++ src ++ block.drop (off + src.length)) :=
  if_pos h

/-- A store that does not fault, octet by octet. -/
theorem store_spec {block src : List UInt8} {off : ℕ} (h : off + src.length ≤ block.length) :
    ∃ out, store block off src = .ok out ∧ out.length = block.length ∧
      ∀ k, out[k]? = if off ≤ k ∧ k < off + src.length then src[k - off]? else block[k]? := by
  refine ⟨_, store_ok h, by simp; omega, ?_⟩
  intro k
  have htake : (block.take off).length = off := by simp; omega
  rw [List.append_assoc]
  by_cases hlow : k < off
  · rw [List.getElem?_append_left (by omega), if_neg (by omega), List.getElem?_take_of_lt hlow]
  · rw [List.getElem?_append_right (by omega), htake]
    by_cases hin : k < off + src.length
    · rw [List.getElem?_append_left (by omega), if_pos (by omega)]
    · rw [List.getElem?_append_right (by omega), if_neg (by omega), List.getElem?_drop]
      congr 1
      omega

/-- Overwriting a middle part of the same length leaves both sides alone. -/
theorem store_middle (pre mid post src : List UInt8) (h : mid.length = src.length) :
    store (pre ++ mid ++ post) pre.length src = .ok (pre ++ src ++ post) := by
  rw [store_ok (by simp; omega)]
  simp [← h, List.append_assoc, List.drop_append]

/-- Copy parts one behind the other, from a position of a block on. -/
def storeAll : List UInt8 → ℕ → List (List UInt8) → Except Fault (List UInt8)
  | block, _, [] => .ok block
  | block, p, part :: parts => do
    let block ← store block p part
    storeAll block (p + part.length) parts

/-- Allocate a cleared block of the given size and copy the parts into it. -/
def assemble (size : ℕ) (parts : List (List UInt8)) : Except Fault (List UInt8) :=
  storeAll (List.replicate size 0) 0 parts

theorem storeAll_ok (parts : List (List UInt8)) (done : List UInt8) {room : ℕ}
    (h : parts.flatten.length ≤ room) :
    storeAll (done ++ List.replicate room 0) done.length parts =
      .ok (done ++ parts.flatten ++ List.replicate (room - parts.flatten.length) 0) := by
  induction parts generalizing done room with
  | nil => simp [storeAll]
  | cons part parts ih =>
    rw [List.flatten_cons, List.length_append] at h
    have hsplit : List.replicate room (0 : UInt8) =
        List.replicate part.length 0 ++ List.replicate (room - part.length) 0 := by
      rw [List.replicate_append_replicate]
      congr 1
      omega
    have hstore := store_middle done (List.replicate part.length 0)
      (List.replicate (room - part.length) 0) part (by simp)
    have hrest := ih (done ++ part) (show parts.flatten.length ≤ room - part.length by omega)
    rw [List.length_append] at hrest
    simp only [storeAll, hsplit, ← List.append_assoc, hstore, bind, Except.bind, hrest,
      List.flatten_cons, List.length_append]
    rw [Nat.sub_sub]

/-- Parts that fill the block exactly. -/
theorem assemble_ok (size : ℕ) (parts : List (List UInt8)) (h : parts.flatten.length = size) :
    assemble size parts = .ok parts.flatten := by
  have hall := storeAll_ok parts [] (le_of_eq h)
  simpa [assemble, h] using hall

/-- Parts that leave room at the end, which stays clear. -/
theorem assemble_padded (size : ℕ) (parts : List (List UInt8))
    (h : parts.flatten.length ≤ size) :
    assemble size parts =
      .ok (parts.flatten ++ List.replicate (size - parts.flatten.length) 0) := by
  simpa [assemble] using storeAll_ok parts [] h

/-- The `width` big-endian octets of a number. -/
def octets : ℕ → ℕ → List UInt8
  | 0, _ => []
  | width + 1, n => octets width (n / 256) ++ [UInt8.ofNat n]

/-- The number that a list of octets denotes, most significant octet first. -/
def ofOctets (bs : List UInt8) : ℕ := bs.foldl (fun n b => n * 256 + b.toNat) 0

@[simp] theorem octets_length (width n : ℕ) : (octets width n).length = width := by
  induction width generalizing n with
  | zero => rfl
  | succ width ih => simp [octets, ih]

theorem ofOctets_concat (bs : List UInt8) (b : UInt8) :
    ofOctets (bs ++ [b]) = ofOctets bs * 256 + b.toNat := by simp [ofOctets]

/-- Reading back what was written gives the number modulo the width. -/
theorem ofOctets_octets (width n : ℕ) : ofOctets (octets width n) = n % 256 ^ width := by
  induction width generalizing n with
  | zero => simp [octets, ofOctets, Nat.mod_one]
  | succ width ih =>
    have hsplit : n % 256 ^ (width + 1) = n % 256 + 256 * (n / 256 % 256 ^ width) := by
      rw [pow_succ', Nat.mod_mul]
    rw [octets, ofOctets_concat, ih, UInt8.toNat_ofNat', hsplit]
    omega

/-- Writing a number that was read gives the octets it was read from. -/
theorem octets_ofOctets (bs : List UInt8) : octets bs.length (ofOctets bs) = bs := by
  induction bs using List.reverseRecOn with
  | nil => rfl
  | append_singleton bs b ih =>
    have hlt := b.toNat_lt
    have hupper : (ofOctets bs * 256 + b.toNat) / 256 = ofOctets bs := by omega
    have hlower : UInt8.ofNat (ofOctets bs * 256 + b.toNat) = b := by
      apply UInt8.toNat_inj.mp
      rw [UInt8.toNat_ofNat']
      omega
    rw [List.length_append, List.length_singleton, ofOctets_concat, octets, hupper, hlower, ih]

theorem ofOctets_lt (bs : List UInt8) : ofOctets bs < 256 ^ bs.length := by
  have hmod := ofOctets_octets bs.length (ofOctets bs)
  rw [octets_ofOctets] at hmod
  rw [hmod]
  exact Nat.mod_lt _ (Nat.pow_pos (by decide))

/-- Masking an octet put together from two. -/
theorem or_mask (a b mask : UInt8) : (a ||| b) &&& mask = (a &&& mask) ||| (b &&& mask) :=
  UInt8.toBitVec_inj.1 BitVec.and_or_distrib_right

/-- A block that is filled from its start: `len` octets have been written. -/
structure Writer where
  block : List UInt8
  len : ℕ
  deriving Repr, DecidableEq

namespace Writer

def alloc (size : ℕ) : Writer := ⟨List.replicate size 0, 0⟩

/-- Change the size of the block; what fits is kept. -/
def resize (w : Writer) (size : ℕ) : Writer :=
  { w with block := w.block.take size ++ List.replicate (size - w.block.length) 0 }

def put (w : Writer) (bytes : List UInt8) : Except Fault Writer := do
  let block ← store w.block w.len bytes
  return ⟨block, w.len + bytes.length⟩

def putAll (w : Writer) : List (List UInt8) → Except Fault Writer
  | [] => .ok w
  | part :: parts => do
    let w ← w.put part
    w.putAll parts

def written (w : Writer) : List UInt8 := w.block.take w.len

/-- What has been written, and how much room there is behind it. -/
structure Holds (w : Writer) (bytes : List UInt8) (room : ℕ) : Prop where
  split : ∃ rest, w.block = bytes ++ rest ∧ rest.length = room
  len : w.len = bytes.length

theorem alloc_holds (size : ℕ) : (alloc size).Holds [] size :=
  ⟨⟨List.replicate size 0, rfl, List.length_replicate⟩, rfl⟩

theorem Holds.written_eq {w : Writer} {bytes : List UInt8} {room : ℕ} (h : w.Holds bytes room) :
    w.written = bytes := by
  obtain ⟨⟨rest, hblock, -⟩, hlen⟩ := h
  rw [written, hblock, hlen, List.take_left]

theorem Holds.resize {w : Writer} {bytes : List UInt8} {room : ℕ} (h : w.Holds bytes room)
    (size : ℕ) (hsize : bytes.length ≤ size) :
    (w.resize size).Holds bytes (size - bytes.length) := by
  obtain ⟨⟨rest, hblock, -⟩, hlen⟩ := h
  refine ⟨⟨rest.take (size - bytes.length) ++
    List.replicate (size - (bytes.length + rest.length)) 0, ?_, ?_⟩, hlen⟩
  · simp only [Writer.resize, hblock, List.take_append, List.take_of_length_le hsize,
      List.length_append, List.append_assoc]
  · simp only [List.length_append, List.length_take, List.length_replicate]
    omega

theorem Holds.put {w : Writer} {bytes part : List UInt8} {room : ℕ} (h : w.Holds bytes room)
    (hpart : part.length ≤ room) :
    ∃ t, w.put part = .ok t ∧ t.Holds (bytes ++ part) (room - part.length) := by
  obtain ⟨⟨rest, hblock, hrest⟩, hlen⟩ := h
  have hsplit : bytes ++ rest = bytes ++ rest.take part.length ++ rest.drop part.length := by
    rw [List.append_assoc, List.take_append_drop]
  have hstore := store_middle bytes (rest.take part.length) (rest.drop part.length) part
    (by rw [List.length_take]; omega)
  refine ⟨⟨bytes ++ part ++ rest.drop part.length, bytes.length + part.length⟩, ?_, ?_⟩
  · simp only [Writer.put, hblock, hlen, hsplit, hstore, bind, Except.bind, pure, Except.pure]
  · exact ⟨⟨_, rfl, by rw [List.length_drop, hrest]⟩, by simp⟩

theorem Holds.putAll {w : Writer} {bytes : List UInt8} {room : ℕ} (h : w.Holds bytes room)
    (parts : List (List UInt8)) (hparts : parts.flatten.length ≤ room) :
    ∃ t, w.putAll parts = .ok t ∧
      t.Holds (bytes ++ parts.flatten) (room - parts.flatten.length) := by
  induction parts generalizing w bytes room with
  | nil => exact ⟨w, rfl, by simpa using h⟩
  | cons part parts ih =>
    rw [List.flatten_cons, List.length_append] at hparts
    obtain ⟨t, hput, ht⟩ := h.put (show part.length ≤ room by omega)
    obtain ⟨u, hall, hu⟩ := ih ht (by omega)
    refine ⟨u, ?_, ?_⟩
    · simp only [Writer.putAll, hput, bind, Except.bind, hall]
    · rw [List.flatten_cons, List.length_append, ← List.append_assoc, Nat.sub_add_eq]
      exact hu

end Writer

/-- A block together with whatever happens to lie behind it in memory. -/
structure Region where
  block : List UInt8
  beyond : List UInt8
  deriving Repr

/-- The octet at an address relative to the start of the block. -/
def Region.at (r : Region) (i : ℕ) : UInt8 := (r.block ++ r.beyond).getD i 0

/-- A reading position, the caller's own count of what is left (a machine word
that wraps around), and whether any read has left the block. -/
structure Cursor where
  pos : ℕ
  left : ℕ
  strayed : Bool
  deriving Repr, DecidableEq

/-- Unsigned subtraction of 64-bit words. -/
def subWord (a b : ℕ) : ℕ := if b ≤ a then a - b else a + 2 ^ 64 - b

/-- Read `n` octets and advance. -/
def Cursor.take (r : Region) (n : ℕ) (c : Cursor) : List UInt8 × Cursor :=
  ((List.range n).map (fun i => r.at (c.pos + i)),
    ⟨c.pos + n, subWord c.left n, c.strayed || decide (r.block.length < c.pos + n)⟩)

/-- A cursor at the start of a block that counts exactly what the block holds. -/
def Cursor.start (r : Region) : Cursor := ⟨0, r.block.length, false⟩

/-- A cursor that has not strayed and counts exactly the octets in front of it. -/
structure Cursor.At (r : Region) (c : Cursor) (rest : List UInt8) : Prop where
  rest_eq : r.block.drop c.pos = rest
  left_eq : c.left = rest.length
  inside : c.pos ≤ r.block.length
  strayed : c.strayed = false

theorem Cursor.start_at (r : Region) : (Cursor.start r).At r r.block :=
  ⟨rfl, rfl, Nat.zero_le _, rfl⟩

/-- Reading what is in front of the cursor. -/
theorem Cursor.At.take {r : Region} {c : Cursor} {front rest : List UInt8}
    (h : c.At r (front ++ rest)) :
    (c.take r front.length).1 = front ∧ (c.take r front.length).2.At r rest := by
  obtain ⟨hrest, hleft, hinside, hstrayed⟩ := h
  have hlength := congrArg List.length hrest
  rw [List.length_drop, List.length_append] at hlength
  rw [List.length_append] at hleft
  refine ⟨?_, ⟨?_, ?_, ?_, ?_⟩⟩
  · apply List.ext_getElem?
    intro i
    simp only [Cursor.take, Region.at, List.getElem?_map, List.getD_eq_getElem?_getD]
    by_cases hi : i < front.length
    · have hin : c.pos + i < r.block.length := by omega
      have hfront : r.block[c.pos + i]? = front[i]? := by
        rw [← List.getElem?_drop, hrest, List.getElem?_append_left hi]
      rw [List.getElem?_range hi, Option.map_some, List.getElem?_append_left hin, hfront,
        List.getElem?_eq_getElem hi, Option.getD_some]
    · rw [List.getElem?_eq_none (by simpa using hi), List.getElem?_eq_none (by simpa using hi)]
      rfl
  · simp only [Cursor.take]
    rw [← List.drop_drop, hrest, List.drop_left]
  · simp only [Cursor.take, subWord]
    split_ifs <;> omega
  · simp only [Cursor.take]
    omega
  · simp only [Cursor.take, hstrayed, Bool.false_or, decide_eq_false_iff_not]
    omega

end ByteMemory
