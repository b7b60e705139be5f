import RaveloxMidi.ByteMemory

/-!
# The hold buffer of the MIDI parser

A growable block counted in whole blocks of `blockSize` octets. `data` is the
null pointer until the first write and after every reset. Growing keeps the
old octets and clears what is new; allocations succeed.
-/
namespace RaveloxMidi
open ByteMemory

structure Dbuffer where
  len : ℕ
  blockSize : ℕ
  numBlocks : ℕ
  data : Option (List UInt8)
  deriving Repr, DecidableEq

def dbufferDefaultBlockSize : ℕ := 512

def dbufferCreate (blockSize : ℕ) : Option Dbuffer :=
  if blockSize = 0 then none else some ⟨0, blockSize, 0, none⟩

def dbufferReset (d : Dbuffer) : Dbuffer := { d with data := none, len := 0, numBlocks := 0 }

/-- The new buffer and the number of octets written. -/
def dbufferWrite (d : Dbuffer) (inBuffer : List UInt8) : Except Fault (Dbuffer × ℕ) := do
  let requiredLen := d.len + inBuffer.length + 1
  let allocatedLen := d.numBlocks * d.blockSize
  let old := d.data.getD []
  if allocatedLen < requiredLen then
    let newBlockCount := requiredLen / d.blockSize + 1
    let newAllocatedLen := newBlockCount * d.blockSize
    let block := old.take newAllocatedLen ++ List.replicate (newAllocatedLen - old.length) 0
    let block ← store block allocatedLen (List.replicate (newAllocatedLen - allocatedLen) 0)
    let block ← store block d.len inBuffer
    return ({ d with
      numBlocks := newBlockCount, data := some block, len := d.len + inBuffer.length },
      inBuffer.length)
  else
    let block ← store old d.len inBuffer
    return ({ d with data := some block, len := d.len + inBuffer.length }, inBuffer.length)

def dbufferRead (d : Dbuffer) : Except Fault (List UInt8) := load (d.data.getD []) 0 d.len

namespace Dbuffer

structure Valid (d : Dbuffer) : Prop where
  block_pos : 0 < d.blockSize
  allocated : (d.data.getD []).length = d.numBlocks * d.blockSize
  room : d.data = none ∧ d.len = 0 ∨ d.len + 1 ≤ d.numBlocks * d.blockSize

def contents (d : Dbuffer) : List UInt8 := (d.data.getD []).take d.len

theorem len_le {d : Dbuffer} (h : d.Valid) : d.len ≤ (d.data.getD []).length := by
  have hroom := h.room
  have halloc := h.allocated
  omega

theorem valid_create {blockSize : ℕ} (h : 0 < blockSize) :
    Valid ⟨0, blockSize, 0, none⟩ := ⟨h, by simp, .inl ⟨rfl, rfl⟩⟩

theorem valid_reset {d : Dbuffer} (h : d.Valid) : (dbufferReset d).Valid :=
  ⟨h.block_pos, by simp [dbufferReset], .inl ⟨rfl, rfl⟩⟩

@[simp] theorem contents_reset (d : Dbuffer) : (dbufferReset d).contents = [] := by
  simp [contents, dbufferReset]

theorem read_spec {d : Dbuffer} (h : d.Valid) : dbufferRead d = .ok d.contents := by
  rw [dbufferRead, load_ok (by have := len_le h; omega), contents, List.drop_zero]

/-- Rounding up by whole blocks always leaves room for one more octet. -/
theorem grown_room {n blockSize : ℕ} (h : 0 < blockSize) :
    n + 1 ≤ ((n + 1) / blockSize + 1) * blockSize := by
  have hdiv := Nat.div_add_mod (n + 1) blockSize
  have hmod := Nat.mod_lt (n + 1) h
  rw [Nat.add_mul, Nat.one_mul, Nat.mul_comm]
  omega

/-- Storing behind the contents of a long enough block appends to them. -/
theorem store_contents (block bs : List UInt8) (len : ℕ) (h : len + bs.length ≤ block.length) :
    ∃ out, store block len bs = .ok out ∧ out.length = block.length ∧
      out.take (len + bs.length) = block.take len ++ bs := by
  refine ⟨_, store_ok h, by simp; omega, ?_⟩
  have hlen : (block.take len).length = len := by simp; omega
  rw [List.take_left' (by simp; omega)]

/-- Every write appends, whether or not the block has to grow. -/
theorem write_spec {d : Dbuffer} (h : d.Valid) (bs : List UInt8) :
    ∃ t, dbufferWrite d bs = .ok (t, bs.length) ∧ t.Valid ∧ t.contents = d.contents ++ bs := by
  obtain ⟨hpos, halloc, hroom⟩ := h
  by_cases hgrow : d.numBlocks * d.blockSize < d.len + bs.length + 1
  · obtain ⟨old, hold⟩ : ∃ old, old = d.data.getD [] := ⟨_, rfl⟩
    obtain ⟨newLen, hnewLen⟩ : ∃ n, n = ((d.len + bs.length + 1) / d.blockSize + 1) * d.blockSize :=
      ⟨_, rfl⟩
    have hnew : d.len + bs.length + 1 ≤ newLen := by rw [hnewLen]; exact grown_room hpos
    rw [← hold] at halloc
    have hshape : old.take newLen ++ List.replicate (newLen - old.length) (0 : UInt8) =
        old ++ List.replicate (newLen - old.length) 0 ++ [] := by
      rw [List.take_of_length_le (by omega), List.append_nil]
    have hclear : store (old.take newLen ++ List.replicate (newLen - old.length) 0)
        (d.numBlocks * d.blockSize) (List.replicate (newLen - d.numBlocks * d.blockSize) 0) =
        .ok (old.take newLen ++ List.replicate (newLen - old.length) 0) := by
      rw [hshape, ← halloc]
      exact store_middle _ _ _ _ rfl
    obtain ⟨out, hout, houtLen, houtTake⟩ := store_contents
      (old.take newLen ++ List.replicate (newLen - old.length) (0 : UInt8)) bs d.len
      (by simp; omega)
    refine ⟨⟨d.len + bs.length, d.blockSize, (d.len + bs.length + 1) / d.blockSize + 1, some out⟩,
      ?_, ⟨hpos, ?_, .inr ?_⟩, ?_⟩
    · simp [dbufferWrite, hgrow, ← hnewLen, ← hold, hclear, hout, bind, Except.bind, pure,
        Except.pure]
    · simp only [Option.getD_some, houtLen, ← hnewLen]
      simp
      omega
    · simpa only [← hnewLen] using hnew
    · simp only [contents, Option.getD_some, houtTake, ← hold]
      rw [List.take_of_length_le (show old.length ≤ newLen by omega),
        List.take_append_of_le_length (by omega)]
  · obtain ⟨out, hout, houtLen, houtTake⟩ := store_contents (d.data.getD []) bs d.len
      (by omega)
    refine ⟨⟨d.len + bs.length, d.blockSize, d.numBlocks, some out⟩, ?_, ⟨hpos, ?_, .inr ?_⟩, ?_⟩
    · simp [dbufferWrite, hgrow, hout, bind, Except.bind, pure, Except.pure]
    · simpa only [Option.getD_some, houtLen] using halloc
    · simp only; omega
    · simpa only [contents, Option.getD_some] using houtTake

end Dbuffer
end RaveloxMidi
