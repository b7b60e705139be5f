import RaveloxMidi.Dbuffer
import RaveloxMidi.Transducer

/-!
# The hold buffer as an append buffer

Lengths and numbers of blocks are of type `size_t`, and a block that is enlarged has
anything in its new part until that is cleared. As long as no size reaches the end of
the type, calls on the buffer cannot be told from calls on a list that is appended to.
-/
namespace RaveloxMidi
open ByteMemory Transducer

/-- What `size_t` counts up to. -/
def sizeModulus : ℕ := 2 ^ 64

/-- The new part of a block that has been enlarged. -/
def enlarged (garbage : ℕ → UInt8) (old : List UInt8) (size : ℕ) : List UInt8 :=
  old.take size ++ (List.range (size - old.length)).map garbage

/-- `dbuffer_write`, with its sizes as `size_t`; `none` is the null pointer. -/
def dbufferWriteSize (garbage : ℕ → UInt8) (d : Dbuffer) (inBuffer : Option (List UInt8)) :
    Except Fault (Dbuffer × ℕ) :=
  match inBuffer with
  | none => .ok (d, 0)
  | some bytes => do
    let requiredLen := (d.len + bytes.length + 1) % sizeModulus
    let allocatedLen := d.numBlocks * d.blockSize % sizeModulus
    let old := d.data.getD []
    let newLen := (d.len + bytes.length) % sizeModulus
    if allocatedLen < requiredLen then
      let newBlockCount := (requiredLen / d.blockSize + 1) % sizeModulus
      let newAllocatedLen := newBlockCount * d.blockSize % sizeModulus
      let cleared := (newAllocatedLen + (sizeModulus - allocatedLen)) % sizeModulus
      let block ← store (enlarged garbage old newAllocatedLen) allocatedLen
        (List.replicate cleared 0)
      let block ← store block d.len bytes
      return ({ d with numBlocks := newBlockCount, data := some block, len := newLen },
        bytes.length)
    else
      let block ← store old d.len bytes
      return ({ d with data := some block, len := newLen }, bytes.length)

/-- `dbuffer_read`: what is copied to the new block, and its length. -/
def dbufferReadCopy (d : Dbuffer) : Except Fault (List UInt8 × ℕ) := do
  let bytes ← dbufferRead d
  let outBuffer ← store (List.replicate d.len 0) 0 bytes
  return (outBuffer, d.len)

def dbufferLen (d : Dbuffer) : ℕ := if d.data.isNone then 0 else d.len

/-- The calls on a buffer. -/
inductive DbufferCall where
  | write (inBuffer : Option (List UInt8))
  | read
  | len
  | reset

/-- What they return. -/
inductive DbufferReply where
  | written (length : ℕ)
  | copied (bytes : List UInt8) (length : ℕ)
  | length (length : ℕ)
  | done
  deriving Repr, DecidableEq

def dbufferCall (garbage : ℕ → UInt8) (d : Dbuffer) :
    DbufferCall → Except Fault (Dbuffer × List DbufferReply)
  | .write inBuffer => do
    let (d, length) ← dbufferWriteSize garbage d inBuffer
    return (d, [.written length])
  | .read => do
    let (bytes, length) ← dbufferReadCopy d
    return (d, [.copied bytes length])
  | .len => .ok (d, [.length (dbufferLen d)])
  | .reset => .ok (dbufferReset d, [.done])

/-- The same calls on a list of octets: the purpose of the buffer. -/
def appendCall (contents : List UInt8) : DbufferCall → List UInt8 × List DbufferReply
  | .write inBuffer => (contents ++ inBuffer.getD [], [.written (inBuffer.getD []).length])
  | .read => (contents, [.copied contents contents.length])
  | .len => (contents, [.length contents.length])
  | .reset => ([], [.done])

/-- The block that a write needs can be counted. -/
def SizeFits (blockSize : ℕ) (contents : List UInt8) : DbufferCall → Prop
  | .write inBuffer =>
    ((contents.length + (inBuffer.getD []).length + 1) / blockSize + 1) * blockSize < sizeModulus
  | _ => True

/-- The octets written since the creation or the last reset, write by write. -/
def writtenSince : List DbufferCall → List (List UInt8) :=
  List.foldl (fun written call =>
    match call with
    | .write inBuffer => written ++ [inBuffer.getD []]
    | .reset => []
    | _ => written) []

namespace Dbuffer

/-- A buffer with these contents, whose sizes can be counted. -/
structure Shows (blockSize : ℕ) (d : Dbuffer) (contents : List UInt8) : Prop where
  valid : d.Valid
  blockSize : d.blockSize = blockSize
  contents : d.contents = contents
  counted : d.numBlocks * d.blockSize < sizeModulus

theorem Shows.len_eq {blockSize : ℕ} {d : Dbuffer} {contents : List UInt8}
    (h : d.Shows blockSize contents) : d.len = contents.length := by
  rw [← h.contents, Dbuffer.contents, List.length_take]
  exact (Nat.min_eq_left (len_le h.valid)).symm

theorem shows_create {blockSize : ℕ} (hblock : 0 < blockSize) :
    Shows blockSize ⟨0, blockSize, 0, none⟩ [] :=
  ⟨valid_create hblock, rfl, rfl, by simp [sizeModulus]⟩

/-- Clearing the new part leaves nothing of what was in it. -/
theorem clear_enlarged (garbage : ℕ → UInt8) {old : List UInt8} {size : ℕ}
    (hsize : old.length ≤ size) :
    store (enlarged garbage old size) old.length (List.replicate (size - old.length) 0) =
      .ok (old ++ List.replicate (size - old.length) 0) := by
  have hstore := store_middle old ((List.range (size - old.length)).map garbage) []
    (List.replicate (size - old.length) 0) (by simp)
  rw [List.append_nil, List.append_nil] at hstore
  rw [enlarged, List.take_of_length_le hsize]
  exact hstore

/-- A difference of two sizes, of which the second is not larger. -/
theorem size_sub {larger smaller : ℕ} (hle : smaller ≤ larger) (hlt : larger < sizeModulus) :
    (larger + (sizeModulus - smaller)) % sizeModulus = larger - smaller := by
  have hsum : larger + (sizeModulus - smaller) = larger - smaller + sizeModulus := by omega
  rw [hsum, Nat.add_mod_right, Nat.mod_eq_of_lt (by omega)]

/-- If the sizes can be counted, a write is what it is on numbers without a limit. -/
theorem writeSize_eq (garbage : ℕ → UInt8) {blockSize : ℕ} {d : Dbuffer} {contents : List UInt8}
    (h : d.Shows blockSize contents) {bytes : List UInt8}
    (hfits : SizeFits blockSize contents (.write (some bytes))) :
    dbufferWriteSize garbage d (some bytes) = dbufferWrite d bytes := by
  obtain ⟨hpos, halloc, hroom⟩ := h.valid
  have hfits : ((d.len + bytes.length + 1) / d.blockSize + 1) * d.blockSize < sizeModulus := by
    rw [h.len_eq, h.blockSize]
    exact hfits
  obtain ⟨newLen, hnewLen⟩ :
      ∃ n, n = ((d.len + bytes.length + 1) / d.blockSize + 1) * d.blockSize := ⟨_, rfl⟩
  have hrequired : d.len + bytes.length + 1 ≤ newLen := hnewLen ▸ grown_room hpos
  have hcount : (d.len + bytes.length + 1) / d.blockSize + 1 ≤ newLen :=
    hnewLen ▸ Nat.le_mul_of_pos_right _ hpos
  rw [← hnewLen] at hfits
  simp only [dbufferWriteSize, dbufferWrite, Nat.mod_eq_of_lt h.counted,
    Nat.mod_eq_of_lt (show d.len + bytes.length + 1 < sizeModulus by omega),
    Nat.mod_eq_of_lt (show d.len + bytes.length < sizeModulus by omega),
    Nat.mod_eq_of_lt (hcount.trans_lt hfits), ← hnewLen, Nat.mod_eq_of_lt hfits]
  by_cases hgrow : d.numBlocks * d.blockSize < d.len + bytes.length + 1
  · have hle : (d.data.getD []).length ≤ newLen := by omega
    have hclear := clear_enlarged garbage hle
    have hcleared := clear_enlarged (fun _ => 0) hle
    rw [enlarged, List.map_const', List.length_range] at hcleared
    rw [if_pos hgrow, if_pos hgrow, size_sub (by omega) hfits, ← halloc, hclear, hcleared]
  · rw [if_neg hgrow, if_neg hgrow]

/-- The block grows to the size that the write needs, or stays as it is. -/
theorem write_sizes {d t : Dbuffer} {bytes : List UInt8} {length : ℕ}
    (hwrite : dbufferWrite d bytes = .ok (t, length)) : t.blockSize = d.blockSize ∧
      (t.numBlocks = d.numBlocks ∨ t.numBlocks = (d.len + bytes.length + 1) / d.blockSize + 1) := by
  simp only [dbufferWrite] at hwrite
  split_ifs at hwrite with hgrow
  · obtain ⟨cleared, -, hwrite⟩ := bind_ok hwrite
    obtain ⟨block, -, hwrite⟩ := bind_ok hwrite
    cases hwrite
    exact ⟨rfl, .inr rfl⟩
  · obtain ⟨block, -, hwrite⟩ := bind_ok hwrite
    cases hwrite
    exact ⟨rfl, .inl rfl⟩

theorem readCopy_eq {blockSize : ℕ} {d : Dbuffer} {contents : List UInt8}
    (h : d.Shows blockSize contents) : dbufferReadCopy d = .ok (contents, contents.length) := by
  have hstore : store (List.replicate contents.length 0) 0 contents = .ok contents := by
    rw [store_ok (by simp)]
    simp
  simp only [dbufferReadCopy, read_spec h.valid, h.contents, h.len_eq, hstore, bind, Except.bind,
    pure, Except.pure]

theorem len_shown {blockSize : ℕ} {d : Dbuffer} {contents : List UInt8}
    (h : d.Shows blockSize contents) : dbufferLen d = contents.length := by
  rw [dbufferLen, ← h.len_eq]
  split_ifs with hnone
  · rcases h.valid.room with ⟨-, hlen⟩ | hroom
    · exact hlen.symm
    · have halloc := h.valid.allocated
      rw [Option.isNone_iff_eq_none.mp hnone, Option.getD_none, List.length_nil] at halloc
      omega
  · rfl

/-- One call on the buffer answers as it does on its contents. -/
theorem call_shows (garbage : ℕ → UInt8) {blockSize : ℕ} {d : Dbuffer} {contents : List UInt8}
    {call : DbufferCall} (h : d.Shows blockSize contents)
    (hfits : SizeFits blockSize contents call) :
    ∃ t, dbufferCall garbage d call = .ok (t, (appendCall contents call).2) ∧
      t.Shows blockSize (appendCall contents call).1 := by
  cases call with
  | write inBuffer =>
    cases inBuffer with
    | none =>
      refine ⟨d, rfl, ?_⟩
      simpa [appendCall] using h
    | some bytes =>
      obtain ⟨t, hwrite, hvalid, hcontents⟩ := write_spec h.valid bytes
      obtain ⟨hblock, hblocks⟩ := write_sizes hwrite
      refine ⟨t, ?_, hvalid, hblock.trans h.blockSize, hcontents.trans ?_, ?_⟩
      · simp only [dbufferCall, writeSize_eq garbage h hfits, hwrite, bind, Except.bind, pure,
          Except.pure]
        rfl
      · rw [h.contents]
        rfl
      · rw [hblock]
        rcases hblocks with hsame | hgrown
        · rw [hsame]
          exact h.counted
        · rw [hgrown, h.len_eq, h.blockSize]
          exact hfits
  | read =>
    refine ⟨d, ?_, h⟩
    simp only [dbufferCall, readCopy_eq h, bind, Except.bind, pure, Except.pure]
    rfl
  | len =>
    refine ⟨d, ?_, h⟩
    simp only [dbufferCall, len_shown h]
    rfl
  | reset =>
    exact ⟨dbufferReset d, rfl, valid_reset h.valid, h.blockSize, contents_reset d, by
      simp [dbufferReset, sizeModulus]⟩

end Dbuffer

/-- What the calls leave is what has been written since the last reset. -/
theorem append_contents (calls : List DbufferCall) :
    (feed appendCall [] calls).1 = (writtenSince calls).flatten := by
  induction calls using List.reverseRecOn with
  | nil => rfl
  | append_singleton calls call ih =>
    rw [feed_append, feed_singleton, ih, writtenSince, List.foldl_append, ← writtenSince]
    cases call with
    | write inBuffer => simp [appendCall]
    | read => rfl
    | len => rfl
    | reset => rfl

/-- After any calls the buffer holds what has been written since its creation or the last
reset, every call has answered as on a list, and the block has room for one octet more. -/
theorem dbuffer_appends {blockSize : ℕ} (hblock : 0 < blockSize) (garbage : ℕ → UInt8)
    {calls : List DbufferCall} (hfits : FeedAlong appendCall (SizeFits blockSize) [] calls) :
    ∃ d t, dbufferCreate blockSize = some d ∧
      run (dbufferCall garbage) d calls = .ok (t, (feed appendCall [] calls).2) ∧
      t.len = ((writtenSince calls).map List.length).sum ∧
      dbufferReadCopy t = .ok ((writtenSince calls).flatten, t.len) ∧
      (t.data ≠ none → t.len + 1 ≤ t.numBlocks * t.blockSize) := by
  have hstep : ∀ d contents call, Dbuffer.Shows blockSize d contents →
      SizeFits blockSize contents call → ∃ t, dbufferCall garbage d call =
        .ok (t, (appendCall contents call).2) ∧ t.Shows blockSize (appendCall contents call).1 :=
    fun _ _ _ h hfits => Dbuffer.call_shows garbage h hfits
  obtain ⟨t, hrun, ht⟩ :=
    run_simulates_along hstep (Dbuffer.shows_create hblock) calls hfits
  have hlen := ht.len_eq
  have hread := Dbuffer.readCopy_eq ht
  rw [append_contents] at hlen hread
  refine ⟨_, t, by rw [dbufferCreate, if_neg (by omega)], hrun, ?_, ?_, fun hdata => ?_⟩
  · rw [hlen, List.length_flatten]
  · rw [hread, hlen]
  · exact ht.valid.room.resolve_left fun hnone => hdata hnone.1

/-- A block of four octets that three octets fill, and the fourth enlarges. -/
theorem dbuffer_appends_four : ∃ d t, dbufferCreate 4 = some d ∧
    run (dbufferCall fun _ => 0xff) d
        [.write (some [9]), .reset, .write (some [1, 2, 3]), .write (some [4]), .read] =
      .ok (t, [.written 1, .done, .written 3, .written 1, .copied [1, 2, 3, 4] 4]) ∧
    t.len = 4 ∧ dbufferReadCopy t = .ok ([1, 2, 3, 4], t.len) ∧
    (t.data ≠ none → t.len + 1 ≤ t.numBlocks * t.blockSize) :=
  dbuffer_appends (by decide) (fun _ => 0xff) (by
    simp [FeedAlong, SizeFits, appendCall, sizeModulus])

end RaveloxMidi
