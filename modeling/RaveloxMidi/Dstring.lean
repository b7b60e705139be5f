import Mathlib.Data.List.Basic
import Mathlib.Tactic

/-!
# Strings that grow by blocks

A string is kept in a block of memory that is enlarged when what is appended does not
fit. After the block has been enlarged, the length of the string is taken once more
from where the block was before, which is freed memory if the block has moved.
-/
namespace RaveloxMidi

/-- A block of memory is read that has been freed. -/
inductive DstringFault where
  | freed
  deriving Repr, DecidableEq

/-- `dstring_t`; the data are the characters in front of the zero. -/
structure Dstring where
  blockSize : ℕ
  numBlocks : ℕ
  data : List UInt8
  deriving Repr, DecidableEq

def dstringDefaultBlockSize : ℕ := 512

def dstringCreate (blockSize : ℕ) : Dstring := ⟨blockSize, 1, []⟩

/-- `dstring_append`. Whether `realloc` can enlarge the block where it is depends on the
memory around it; the number of blocks is larger every time. -/
def dstringAppend (inPlace : ℕ → Bool) (dstring : Dstring) (inString : List UInt8) :
    Except DstringFault Dstring :=
  let currentAlloc := dstring.numBlocks * dstring.blockSize
  if dstring.data.length + inString.length ≥ currentAlloc then
    let newAlloc := dstring.data.length + inString.length + 1
    let newBlockCount := newAlloc / dstring.blockSize + 1
    if inPlace newBlockCount then
      .ok { dstring with numBlocks := newBlockCount, data := dstring.data ++ inString }
    else .error .freed
  else .ok { dstring with data := dstring.data ++ inString }

/-- One string after the other is appended. -/
def dstringAppendAll (inPlace : ℕ → Bool) (dstring : Dstring) (strings : List (List UInt8)) :
    Except DstringFault Dstring :=
  strings.foldlM (dstringAppend inPlace) dstring

@[simp]
theorem dstringAppendAll_cons (inPlace : ℕ → Bool) (dstring : Dstring) (inString : List UInt8)
    (strings : List (List UInt8)) : dstringAppendAll inPlace dstring (inString :: strings) =
      (dstringAppend inPlace dstring inString).bind
        fun dstring => dstringAppendAll inPlace dstring strings :=
  List.foldlM_cons

theorem dstringAppendAll_append (inPlace : ℕ → Bool) (dstring : Dstring)
    (strings more : List (List UInt8)) : dstringAppendAll inPlace dstring (strings ++ more) =
      (dstringAppendAll inPlace dstring strings).bind
        fun dstring => dstringAppendAll inPlace dstring more :=
  List.foldlM_append

/-- The string has never been enlarged, and so far it fits. -/
structure Dstring.Small (dstring : Dstring) : Prop where
  numBlocks : dstring.numBlocks = 1
  fits : dstring.data.length < dstring.blockSize

theorem Dstring.Small.append {dstring : Dstring} (h : dstring.Small) {inString : List UInt8}
    (hfits : dstring.data.length + inString.length < dstring.blockSize) (inPlace : ℕ → Bool) :
    dstringAppend inPlace dstring inString = .ok { dstring with data := dstring.data ++ inString } ∧
      ({ dstring with data := dstring.data ++ inString } : Dstring).Small := by
  refine ⟨?_, h.numBlocks, by rw [List.length_append]; exact hfits⟩
  simp only [dstringAppend, h.numBlocks, Nat.one_mul]
  rw [if_neg (by omega)]

theorem Dstring.Small.moved {dstring : Dstring} (h : dstring.Small) {inString : List UInt8}
    (hlong : ¬ dstring.data.length + inString.length < dstring.blockSize) :
    dstringAppend (fun _ => false) dstring inString = .error .freed := by
  simp only [dstringAppend, h.numBlocks, Nat.one_mul]
  rw [if_pos (by omega), if_neg Bool.false_ne_true]

/-- Strings that fit into the first block are appended, whatever the memory around it is. -/
theorem Dstring.Small.appendAll {dstring : Dstring} (h : dstring.Small)
    {strings : List (List UInt8)}
    (hfits : dstring.data.length + strings.flatten.length < dstring.blockSize)
    (inPlace : ℕ → Bool) : dstringAppendAll inPlace dstring strings =
      .ok { dstring with data := dstring.data ++ strings.flatten } := by
  induction strings generalizing dstring with
  | nil => simp [dstringAppendAll, pure, Except.pure]
  | cons inString strings ih =>
    rw [List.flatten_cons, List.length_append] at hfits
    have hfirst : dstring.data.length + inString.length < dstring.blockSize := by omega
    obtain ⟨happend, hsmall⟩ := h.append hfirst inPlace
    have hrest := ih hsmall (by simp only [List.length_append]; omega)
    rw [dstringAppendAll_cons, happend, List.flatten_cons, ← List.append_assoc]
    exact hrest

/-- Strings that do not fit are lost where the block cannot be enlarged in its place. -/
theorem Dstring.Small.appendAll_moved {dstring : Dstring} (h : dstring.Small)
    {strings : List (List UInt8)}
    (hlong : ¬ dstring.data.length + strings.flatten.length < dstring.blockSize) :
    dstringAppendAll (fun _ => false) dstring strings = .error .freed := by
  induction strings generalizing dstring with
  | nil =>
    have hfits := h.fits
    simp only [List.flatten_nil, List.length_nil, Nat.add_zero] at hlong
    exact absurd hfits hlong
  | cons inString strings ih =>
    rw [dstringAppendAll_cons]
    by_cases hfits : dstring.data.length + inString.length < dstring.blockSize
    · obtain ⟨happend, hsmall⟩ := h.append hfits fun _ => false
      rw [List.flatten_cons, List.length_append] at hlong
      rw [happend]
      exact ih hsmall (by simp only [List.length_append]; omega)
    · rw [h.moved hfits]
      rfl

end RaveloxMidi
