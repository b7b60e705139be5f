import RaveloxMidi.Dstring
import RaveloxMidi.JsonText
import RaveloxMidi.NetConnection
import RaveloxMidi.PrintedNumber

/-!
# The listing of the connections

Every slot in use is printed into a buffer of fixed size and appended to a string, with
a comma behind it unless it is the last slot of the table. Names are printed as they
were received.
-/
namespace RaveloxMidi
open JsonText

/-- `%08x` -/
def hexWord (n : UInt32) : List UInt8 :=
  (List.range 8).map fun k => hexDigit (n.toNat / 16 ^ (7 - k) % 16)

/-- `%p` of an address, which is not zero. -/
def hexPointer (n : UInt64) : List UInt8 :=
  ascii "0x" ++ (Nat.digits 16 n.toNat).reverse.map hexDigit

def netCtxStatusToString : NetCtxStatus → List UInt8
  | .idle => ascii "idle"
  | .firstInv => ascii "first_inv"
  | .secondInv => ascii "second_inv"
  | .remoteConnection => ascii "remote_connection"
  | .unused => ascii "unused"

/-- The name that is printed. -/
def printedName (ctx : NetCtx) : List UInt8 := ctx.name.getD (ascii "unknown")

/-- The address that is printed; `%s` prints a null pointer so. -/
def printedHost (ctx : NetCtx) : List UInt8 := ctx.ipAddress.getD (ascii "(null)")

/-- What is printed between the name and the address. -/
def printedMiddle (pointer : UInt64) (ctx : NetCtx) : List UInt8 :=
  ascii "\",\"ctx\":\"" ++ hexPointer pointer ++ ascii "\",\"ssrc\":\"0x" ++ hexWord ctx.ssrc ++
    ascii "\",\"status\":\"" ++ netCtxStatusToString ctx.status ++
    ascii "\",\"send_ssrc\":\"0x" ++ hexWord ctx.sendSsrc ++
    ascii "\",\"initiator\":\"0x" ++ hexWord ctx.initiator ++
    ascii "\",\"seq\":" ++ decimal ctx.seq.toNat ++ ascii ",\"host\":\""

/-- What is printed behind the address. -/
def printedEnd (ctx : NetCtx) : List UInt8 :=
  ascii "\",\"control\":" ++ decimal ctx.controlPort.toNat ++
    ascii ",\"data\":" ++ decimal ctx.dataPort.toNat ++
    ascii ",\"start\":" ++ decimal ctx.start.toNat ++ ascii "\x7d"

/-- The element for the context in a slot, at an address. -/
def connectionElement (i : ℕ) (pointer : UInt64) (ctx : NetCtx) : List UInt8 :=
  ascii "\x7b\"id\":" ++ decimal i ++ ascii ",\"name\":\"" ++ printedName ctx ++
    printedMiddle pointer ctx ++ printedHost ctx ++ printedEnd ctx

/-- `sizeof( ctx_buffer )` -/
def ctxBufferSize : ℕ := 1024

/-- `snprintf`: what does not fit in front of the zero is cut off. -/
def snprintf (size : ℕ) (text : List UInt8) : List UInt8 := text.take (size - 1)

/-- The loop over the slots from the given one on, and the count of those in use. -/
def connectionsLoop (inPlace : ℕ → Bool) (pointer : ℕ → UInt64) (numConnections : ℕ) :
    ℕ → List NetCtx → Dstring → ℕ → Except DstringFault (Dstring × ℕ)
  | _, [], dstring, count => .ok (dstring, count)
  | i, ctx :: rest, dstring, count =>
    if ctx.status = .unused then
      connectionsLoop inPlace pointer numConnections (i + 1) rest dstring count
    else do
      let dstring ← dstringAppend inPlace dstring
        (snprintf ctxBufferSize (connectionElement i (pointer i) ctx))
      let dstring ← if i + 1 < numConnections then dstringAppend inPlace dstring (ascii ",")
        else .ok dstring
      connectionsLoop inPlace pointer numConnections (i + 1) rest dstring (count + 1)

/-- `net_ctx_connections_to_string`. The contexts stand at some addresses. -/
def netCtxConnectionsToString (inPlace : ℕ → Bool) (pointer : ℕ → UInt64)
    (connections : List NetCtx) : Except DstringFault (List UInt8) := do
  let dstring ← dstringAppend inPlace (dstringCreate dstringDefaultBlockSize)
    (snprintf ctxBufferSize (ascii "\x7b\"connections\":["))
  let (dstring, count) ←
    connectionsLoop inPlace pointer connections.length 0 connections dstring 0
  let dstring ← dstringAppend inPlace dstring (ascii "]")
  let dstring ← dstringAppend inPlace dstring
    (snprintf ctxBufferSize (ascii ",\"count\":" ++ decimal count ++ ascii "\x7d"))
  return dstring.data

/-- The text is an object of JSON with an array of connections and a count, which is the
number of its elements. -/
def IsListing (text : List UInt8) (count : ℕ) : Prop :=
  ∃ members connections elements, Derives (.object members) text ∧
    (ascii "connections", connections) ∈ members ∧ (ascii "count", decimal count) ∈ members ∧
    Derives (.array elements) connections ∧ elements.length = count

/-- However the memory around the string is, the listing is well formed and counts the
slots in use. -/
def ListingWellFormed (pointer : ℕ → UInt64) (connections : List NetCtx) : Prop :=
  ∀ inPlace, ∃ text, netCtxConnectionsToString inPlace pointer connections = .ok text ∧
    IsListing text (connections.countP netCtxIsUsed)

/-- The characters printed for a context: some are always the same, and three words have
eight digits each. -/
def elementLength (i : ℕ) (pointer : UInt64) (ctx : NetCtx) : ℕ :=
  153 + (decimal i).length + (printedName ctx).length + (hexPointer pointer).length +
    (netCtxStatusToString ctx.status).length + (decimal ctx.seq.toNat).length +
    (printedHost ctx).length + (decimal ctx.controlPort.toNat).length +
    (decimal ctx.dataPort.toNat).length + (decimal ctx.start.toNat).length

/-- The characters printed for the slots from the given one on, with the commas. -/
def listedLength (pointer : ℕ → UInt64) (numConnections : ℕ) : ℕ → List NetCtx → ℕ
  | _, [] => 0
  | i, ctx :: rest =>
    (if netCtxIsUsed ctx then
      elementLength i (pointer i) ctx + if i + 1 < numConnections then 1 else 0
    else 0) + listedLength pointer numConnections (i + 1) rest

/-- The last slot is in use, if any is; every name and every address that is printed may
stand in a string; and all of the listing fits into one block. -/
structure ListingSafe (pointer : ℕ → UInt64) (connections : List NetCtx) : Prop where
  last : (∀ ctx ∈ connections, netCtxIsUsed ctx = false) ∨
    ∃ ctx, connections.getLast? = some ctx ∧ netCtxIsUsed ctx = true
  strings : ∀ ctx ∈ connections, netCtxIsUsed ctx = true →
    StringBody (printedName ctx) ∧ StringBody (printedHost ctx)
  short : 27 + listedLength pointer connections.length 0 connections +
    (decimal (connections.countP netCtxIsUsed)).length < dstringDefaultBlockSize

/-- What is printed for the slots from the given one on, without a limit. -/
def listedText (pointer : ℕ → UInt64) (numConnections : ℕ) : ℕ → List NetCtx → List UInt8
  | _, [] => []
  | i, ctx :: rest =>
    (if netCtxIsUsed ctx then
      connectionElement i (pointer i) ctx ++ if i + 1 < numConnections then ascii "," else []
    else []) ++ listedText pointer numConnections (i + 1) rest

/-- What is appended for the slots from the given one on. -/
def listedPieces (pointer : ℕ → UInt64) (numConnections : ℕ) : ℕ → List NetCtx → List (List UInt8)
  | _, [] => []
  | i, ctx :: rest =>
    (if netCtxIsUsed ctx then
      snprintf ctxBufferSize (connectionElement i (pointer i) ctx) ::
        if i + 1 < numConnections then [ascii ","] else []
    else []) ++ listedPieces pointer numConnections (i + 1) rest

/-- Everything that is appended. -/
def replyPieces (pointer : ℕ → UInt64) (connections : List NetCtx) : List (List UInt8) :=
  snprintf ctxBufferSize (ascii "\x7b\"connections\":[") ::
    listedPieces pointer connections.length 0 connections ++ [ascii "]", snprintf ctxBufferSize
      (ascii ",\"count\":" ++ decimal (connections.countP netCtxIsUsed) ++ ascii "\x7d")]

/-- The listing without a limit. -/
def replyText (pointer : ℕ → UInt64) (connections : List NetCtx) : List UInt8 :=
  ascii "\x7b\"connections\":[" ++ (listedText pointer connections.length 0 connections ++
    (ascii "]" ++ (ascii ",\"count\":" ++
      decimal (connections.countP netCtxIsUsed) ++ ascii "\x7d")))

/-! ## Lengths -/

theorem connectionElement_length (i : ℕ) (pointer : UInt64) (ctx : NetCtx) :
    (connectionElement i pointer ctx).length = elementLength i pointer ctx := by
  simp [connectionElement, printedMiddle, printedEnd, elementLength, hexWord, ascii]
  omega

/-- The loop appends its pieces and counts the slots in use. -/
theorem loop_eq (inPlace : ℕ → Bool) (pointer : ℕ → UInt64) (numConnections i : ℕ)
    (connections : List NetCtx) (dstring : Dstring) (count : ℕ) :
    connectionsLoop inPlace pointer numConnections i connections dstring count =
      (dstringAppendAll inPlace dstring (listedPieces pointer numConnections i connections)).map
        fun dstring => (dstring, count + connections.countP netCtxIsUsed) := by
  induction connections generalizing i dstring count with
  | nil => rfl
  | cons ctx rest ih =>
    rw [connectionsLoop, listedPieces, dstringAppendAll_append]
    by_cases hstatus : ctx.status = .unused
    · have hused : ¬ netCtxIsUsed ctx = true := by simp [netCtxIsUsed, hstatus]
      rw [if_pos hstatus, if_neg hused, List.countP_cons_of_neg hused, ih]
      rfl
    · have hused : netCtxIsUsed ctx = true := by simpa [netCtxIsUsed] using hstatus
      have hcount : ∀ more, count + 1 + more = count + (more + 1) := by omega
      rw [if_neg hstatus, if_pos hused, List.countP_cons_of_pos hused, dstringAppendAll_cons]
      cases dstringAppend inPlace dstring
          (snprintf ctxBufferSize (connectionElement i (pointer i) ctx)) with
      | error fault => rfl
      | ok after =>
        by_cases hcomma : i + 1 < numConnections
        · simp only [if_pos hcomma, dstringAppendAll_cons, bind, Except.bind]
          cases dstringAppend inPlace after (ascii ",") with
          | error fault => rfl
          | ok behind =>
            simp only [ih, hcount]
            rfl
        · simp only [if_neg hcomma, bind, Except.bind, ih, hcount]
          rfl

theorem toString_eq (inPlace : ℕ → Bool) (pointer : ℕ → UInt64) (connections : List NetCtx) :
    netCtxConnectionsToString inPlace pointer connections =
      (dstringAppendAll inPlace (dstringCreate dstringDefaultBlockSize)
        (replyPieces pointer connections)).map fun dstring => dstring.data := by
  simp only [netCtxConnectionsToString, replyPieces, List.cons_append, dstringAppendAll_cons,
    dstringAppendAll_append, loop_eq, Nat.zero_add, bind, Except.bind]
  cases dstringAppend inPlace (dstringCreate dstringDefaultBlockSize) _ with
  | error fault => rfl
  | ok first =>
    simp only
    cases dstringAppendAll inPlace first
        (listedPieces pointer connections.length 0 connections) with
    | error fault => rfl
    | ok listed =>
      simp only [Except.map]
      cases dstringAppend inPlace listed (ascii "]") with
      | error fault => rfl
      | ok closed =>
        simp only
        cases dstringAppend inPlace closed _ with
        | error fault => rfl
        | ok whole => rfl

/-- A text of which less than the buffer's size is printed has not been cut off. -/
theorem snprintf_of_length {text : List UInt8}
    (h : (snprintf ctxBufferSize text).length < ctxBufferSize - 1) :
    snprintf ctxBufferSize text = text := by
  rw [snprintf, List.length_take] at h
  exact List.take_of_length_le (by omega)

theorem listedText_length (pointer : ℕ → UInt64) (numConnections i : ℕ)
    (connections : List NetCtx) :
    (listedText pointer numConnections i connections).length =
      listedLength pointer numConnections i connections := by
  induction connections generalizing i with
  | nil => rfl
  | cons ctx rest ih =>
    rw [listedText, listedLength, List.length_append, ih]
    congr 1
    split_ifs
    · rw [List.length_append, connectionElement_length]
      rfl
    · rw [List.length_append, connectionElement_length]
      rfl
    · rfl

/-- What is cut off is not longer. -/
theorem listedPieces_length (pointer : ℕ → UInt64) (numConnections i : ℕ)
    (connections : List NetCtx) :
    (listedPieces pointer numConnections i connections).flatten.length ≤
      listedLength pointer numConnections i connections := by
  induction connections generalizing i with
  | nil => exact le_refl 0
  | cons ctx rest ih =>
    have hrest := ih (i + 1)
    have hcut : (snprintf ctxBufferSize (connectionElement i (pointer i) ctx)).length ≤
        elementLength i (pointer i) ctx := by
      rw [← connectionElement_length]
      exact List.length_take_le' ..
    rw [listedPieces, listedLength, List.flatten_append, List.length_append]
    refine Nat.add_le_add ?_ hrest
    split_ifs
    · rw [List.flatten_cons, List.length_append]
      exact Nat.add_le_add_right hcut 1
    · rw [List.flatten_cons, List.length_append]
      exact hcut
    · exact le_refl 0

/-- Nothing is cut off if what is appended fits into one block. -/
theorem listedPieces_eq (pointer : ℕ → UInt64) (numConnections i : ℕ) (connections : List NetCtx)
    (hshort : (listedPieces pointer numConnections i connections).flatten.length <
      dstringDefaultBlockSize) :
    (listedPieces pointer numConnections i connections).flatten =
      listedText pointer numConnections i connections := by
  induction connections generalizing i with
  | nil => rfl
  | cons ctx rest ih =>
    rw [listedPieces, List.flatten_append, List.length_append] at hshort
    rw [listedPieces, listedText, List.flatten_append, ih (i + 1) (by omega)]
    congr 1
    by_cases hused : netCtxIsUsed ctx = true
    · rw [if_pos hused, List.flatten_cons, List.length_append] at hshort
      have hprinted : (snprintf ctxBufferSize (connectionElement i (pointer i) ctx)).length <
          ctxBufferSize - 1 := by
        simp only [ctxBufferSize, dstringDefaultBlockSize] at hshort ⊢
        omega
      have hwhole := snprintf_of_length hprinted
      rw [if_pos hused, if_pos hused, List.flatten_cons, hwhole]
      split_ifs <;> rfl
    · rw [if_neg hused, if_neg hused]
      rfl

theorem replyText_length (pointer : ℕ → UInt64) (connections : List NetCtx) :
    (replyText pointer connections).length =
      27 + listedLength pointer connections.length 0 connections +
        (decimal (connections.countP netCtxIsUsed)).length := by
  simp only [replyText, List.length_append, listedText_length]
  simp [ascii]
  omega

theorem replyPieces_flatten (pointer : ℕ → UInt64) (connections : List NetCtx) :
    (replyPieces pointer connections).flatten = ascii "\x7b\"connections\":[" ++
      ((listedPieces pointer connections.length 0 connections).flatten ++ (ascii "]" ++
        snprintf ctxBufferSize (ascii ",\"count\":" ++
          decimal (connections.countP netCtxIsUsed) ++ ascii "\x7d"))) := by
  have hfirst : snprintf ctxBufferSize (ascii "\x7b\"connections\":[") =
      ascii "\x7b\"connections\":[" := by decide
  simp only [replyPieces, hfirst, List.cons_append, List.flatten_cons, List.flatten_append,
    List.flatten_nil, List.append_nil]

theorem replyPieces_length (pointer : ℕ → UInt64) (connections : List NetCtx) :
    (replyPieces pointer connections).flatten.length ≤ (replyText pointer connections).length := by
  rw [replyPieces_flatten, replyText]
  simp only [List.length_append, snprintf, List.length_take, listedText_length]
  have hlisted := listedPieces_length pointer connections.length 0 connections
  omega

theorem replyPieces_eq {pointer : ℕ → UInt64} {connections : List NetCtx}
    (hshort : (replyPieces pointer connections).flatten.length < dstringDefaultBlockSize) :
    (replyPieces pointer connections).flatten = replyText pointer connections := by
  rw [replyPieces_flatten] at hshort ⊢
  simp only [List.length_append] at hshort
  rw [replyText, listedPieces_eq _ _ _ _ (by omega), snprintf_of_length]
  simp only [ctxBufferSize, dstringDefaultBlockSize] at hshort ⊢
  omega

/-- The reply is well formed if it fits into one block and would be so without a limit:
longer strings are lost where the block cannot be enlarged in its place. -/
theorem wellFormed_iff (pointer : ℕ → UInt64) (connections : List NetCtx) :
    ListingWellFormed pointer connections ↔
      (replyText pointer connections).length < dstringDefaultBlockSize ∧
        IsListing (replyText pointer connections) (connections.countP netCtxIsUsed) := by
  have hsmall : (dstringCreate dstringDefaultBlockSize).Small := ⟨rfl, by decide⟩
  have hfitting : (replyPieces pointer connections).flatten.length < dstringDefaultBlockSize →
      ∀ inPlace, netCtxConnectionsToString inPlace pointer connections =
        .ok (replyText pointer connections) := by
    intro hshort inPlace
    rw [toString_eq, hsmall.appendAll (by simpa [dstringCreate] using hshort),
      replyPieces_eq hshort]
    rfl
  constructor
  · intro hwellFormed
    have hshort : (replyPieces pointer connections).flatten.length < dstringDefaultBlockSize := by
      by_contra hlong
      obtain ⟨text, htext, -⟩ := hwellFormed fun _ => false
      rw [toString_eq, hsmall.appendAll_moved (by simpa [dstringCreate] using hlong)] at htext
      cases htext
    obtain ⟨text, htext, hlisting⟩ := hwellFormed fun _ => true
    rw [hfitting hshort] at htext
    cases htext
    exact ⟨replyPieces_eq hshort ▸ hshort, hlisting⟩
  · rintro ⟨hshort, hlisting⟩ inPlace
    have hpieces := (replyPieces_length pointer connections).trans_lt hshort
    exact ⟨_, hfitting hpieces inPlace, hlisting⟩

end RaveloxMidi
