import RaveloxMidi.ConnectionList
import RaveloxMidi.JournalFeedback

/-!
# The listing as JSON

If every comma stands between two elements and the names may stand in strings, the
listing is derived by the grammar. Gone through from left to right, it shows the comma
that a last slot out of use leaves over, and the names that may not.
-/
namespace RaveloxMidi
open JsonText

/-! ## What is printed of a number -/

theorem hexDigit_plain : ∀ d < 16, isPlain (hexDigit d) = true := by decide

theorem hexDigit_zero : ∀ d < 10, hexDigit d = 0x30 → d = 0 := by decide

theorem plain_of_digit : ∀ b : UInt8, isDigit b = true → isPlain b = true := by decide +kernel

theorem decimal_digits (n : ℕ) : Digits (decimal n) := ⟨decimal_ne_nil n, decimal_isDecimal n⟩

theorem decimal_plain (n : ℕ) : ∀ b ∈ decimal n, isPlain b = true :=
  fun b hb => plain_of_digit b ((decimal_digits n).2 b hb)

theorem decimal_isNumber (n : ℕ) : IsNumber (decimal n) := by
  refine ⟨[], decimal n, [], [], by simp, .inl rfl, ?_, .inl rfl, .inl rfl⟩
  by_cases hn : n = 0
  · exact .inl (if_pos hn)
  · have hne : Nat.digits 10 n ≠ [] := Nat.digits_ne_nil_iff_ne_zero.mpr hn
    refine .inr ⟨decimal_digits n, ?_⟩
    rw [decimal, if_neg hn, List.head?_map, List.head?_reverse,
      List.getLast?_eq_getLast_of_ne_nil hne]
    intro hzero
    have hlt := Nat.digits_lt_base (b := 10) (by omega) (List.getLast_mem hne)
    exact Nat.getLast_digit_ne_zero 10 hn (hexDigit_zero _ hlt (Option.some.inj hzero))

theorem hexWord_plain (n : UInt32) : ∀ b ∈ hexWord n, isPlain b = true := by
  intro b hb
  obtain ⟨k, -, rfl⟩ := List.mem_map.mp hb
  exact hexDigit_plain _ (Nat.mod_lt _ (by omega))

theorem hexPointer_plain (n : UInt64) : ∀ b ∈ hexPointer n, isPlain b = true := by
  rw [hexPointer]
  refine List.forall_mem_append.mpr ⟨List.all_eq_true.mp (by decide), fun b hb => ?_⟩
  obtain ⟨d, hd, rfl⟩ := List.mem_map.mp hb
  exact hexDigit_plain d (Nat.digits_lt_base (by omega) (List.mem_reverse.mp hd))

theorem status_plain (status : NetCtxStatus) :
    ∀ b ∈ netCtxStatusToString status, isPlain b = true := by
  cases status <;> exact List.all_eq_true.mp (by decide)

/-! ## The listing is derived -/

/-- The text of a string of JSON. -/
def quoted (text : List UInt8) : List UInt8 := quote :: (text ++ [quote])

/-- The members of the element for a slot. -/
def elementMembers (i : ℕ) (pointer : UInt64) (ctx : NetCtx) : List (List UInt8 × List UInt8) :=
  [(ascii "id", decimal i), (ascii "name", quoted (printedName ctx)),
    (ascii "ctx", quoted (hexPointer pointer)),
    (ascii "ssrc", quoted (ascii "0x" ++ hexWord ctx.ssrc)),
    (ascii "status", quoted (netCtxStatusToString ctx.status)),
    (ascii "send_ssrc", quoted (ascii "0x" ++ hexWord ctx.sendSsrc)),
    (ascii "initiator", quoted (ascii "0x" ++ hexWord ctx.initiator)),
    (ascii "seq", decimal ctx.seq.toNat), (ascii "host", quoted (printedHost ctx)),
    (ascii "control", decimal ctx.controlPort.toNat), (ascii "data", decimal ctx.dataPort.toNat),
    (ascii "start", decimal ctx.start.toNat)]

theorem connectionElement_eq (i : ℕ) (pointer : UInt64) (ctx : NetCtx) :
    connectionElement i pointer ctx =
      0x7b :: (separated ((elementMembers i pointer ctx).map memberText) ++ [0x7d]) := by
  simp only [connectionElement, printedMiddle, printedEnd, elementMembers, quoted, separated,
    memberText, List.map_cons, List.map_nil, List.append_assoc, List.cons_append, List.nil_append]
  rfl

theorem elementMembers_keys (i : ℕ) (pointer : UInt64) (ctx : NetCtx) :
    ∀ m ∈ elementMembers i pointer ctx, StringBody m.1 := by
  simp only [elementMembers, List.forall_mem_cons]
  refine ⟨?_, ?_, ?_, ?_, ?_, ?_, ?_, ?_, ?_, ?_, ?_, ?_, by simp⟩
  all_goals exact .of_plain (List.all_eq_true.mp (by decide))

theorem derives_quoted {text : List UInt8} (h : ∀ b ∈ text, isPlain b = true) :
    Derives .value (quoted text) :=
  .string (.of_plain h)

theorem derives_hex (n : UInt32) : Derives .value (quoted (ascii "0x" ++ hexWord n)) :=
  derives_quoted (List.forall_mem_append.mpr
    ⟨List.all_eq_true.mp (by decide), hexWord_plain n⟩)

theorem connectionElement_derives {i : ℕ} {pointer : UInt64} {ctx : NetCtx}
    (hname : StringBody (printedName ctx)) (hhost : StringBody (printedHost ctx)) :
    Derives .value (connectionElement i pointer ctx) := by
  have hnumber : ∀ n, Derives .value (decimal n) := fun n => .number (decimal_isNumber n)
  have hvalues : ∀ m ∈ elementMembers i pointer ctx, Derives .value m.2 := by
    simp only [elementMembers, List.forall_mem_cons]
    exact ⟨hnumber _, .string hname, derives_quoted (hexPointer_plain pointer), derives_hex _,
      derives_quoted (status_plain _), derives_hex _, derives_hex _, hnumber _, .string hhost,
      hnumber _, hnumber _, hnumber _, by simp⟩
  rw [connectionElement_eq]
  exact .object (.braces
    (derives_members (List.cons_ne_nil _ _) (elementMembers_keys i pointer ctx) hvalues))

/-- The elements for the slots from the given one on. -/
def listedElements (pointer : ℕ → UInt64) : ℕ → List NetCtx → List (List UInt8)
  | _, [] => []
  | i, ctx :: rest =>
    (if netCtxIsUsed ctx then [connectionElement i (pointer i) ctx] else []) ++
      listedElements pointer (i + 1) rest

theorem listedElements_length (pointer : ℕ → UInt64) (i : ℕ) (connections : List NetCtx) :
    (listedElements pointer i connections).length = connections.countP netCtxIsUsed := by
  induction connections generalizing i with
  | nil => rfl
  | cons ctx rest ih =>
    rw [listedElements, List.length_append, ih, List.countP_cons]
    split_ifs
    · exact Nat.add_comm ..
    · exact Nat.add_comm ..

theorem listedElements_derive (pointer : ℕ → UInt64) (i : ℕ) {connections : List NetCtx}
    (hstrings : ∀ ctx ∈ connections, netCtxIsUsed ctx = true →
      StringBody (printedName ctx) ∧ StringBody (printedHost ctx)) :
    ∀ v ∈ listedElements pointer i connections, Derives .value v := by
  induction connections generalizing i with
  | nil => simp [listedElements]
  | cons ctx rest ih =>
    obtain ⟨hctx, hrest⟩ := List.forall_mem_cons.mp hstrings
    rw [listedElements]
    refine List.forall_mem_append.mpr ⟨?_, ih (i + 1) hrest⟩
    split_ifs with hused
    · obtain ⟨hname, hhost⟩ := hctx hused
      exact List.forall_mem_singleton.mpr (connectionElement_derives hname hhost)
    · simp

/-- Nothing is listed if no slot is in use. -/
theorem listed_none (pointer : ℕ → UInt64) (numConnections i : ℕ) {connections : List NetCtx}
    (hnone : ∀ ctx ∈ connections, netCtxIsUsed ctx = false) :
    listedText pointer numConnections i connections = [] ∧
      listedElements pointer i connections = [] := by
  induction connections generalizing i with
  | nil => exact ⟨rfl, rfl⟩
  | cons ctx rest ih =>
    obtain ⟨hctx, hrest⟩ := List.forall_mem_cons.mp hnone
    obtain ⟨htext, helements⟩ := ih (i + 1) hrest
    have hunused : ¬ netCtxIsUsed ctx = true := by simp [hctx]
    rw [listedText, listedElements, if_neg hunused, if_neg hunused, htext, helements]
    exact ⟨rfl, rfl⟩

/-- If the last slot is in use, there are commas between the elements and nowhere else. -/
theorem listedText_separated (pointer : ℕ → UInt64) {numConnections i : ℕ}
    {connections : List NetCtx} (hcount : i + connections.length = numConnections) {last : NetCtx}
    (hlast : connections.getLast? = some last) (hused : netCtxIsUsed last = true) :
    listedText pointer numConnections i connections =
        separated (listedElements pointer i connections) ∧
      listedElements pointer i connections ≠ [] := by
  induction connections generalizing i with
  | nil => cases hlast
  | cons ctx rest ih =>
    rw [List.length_cons] at hcount
    cases rest with
    | nil =>
      obtain rfl : ctx = last := Option.some.inj hlast
      have hcomma : ¬ i + 1 < numConnections := by simp only [List.length_nil] at hcount; omega
      simp [listedText, listedElements, hused, hcomma, separated]
    | cons next more =>
      rw [List.getLast?_cons_cons] at hlast
      have hcomma : i + 1 < numConnections := by rw [List.length_cons] at hcount; omega
      obtain ⟨htext, hne⟩ := @ih (i + 1) (by omega) hlast
      rw [listedText, listedElements, if_pos hcomma, htext]
      by_cases hctx : netCtxIsUsed ctx = true
      · rw [if_pos hctx, if_pos hctx, List.singleton_append, separated_cons hne,
          List.append_assoc]
        exact ⟨rfl, List.cons_ne_nil _ _⟩
      · rw [if_neg hctx, if_neg hctx]
        exact ⟨rfl, hne⟩

theorem replyText_eq (pointer : ℕ → UInt64) (connections : List NetCtx) :
    replyText pointer connections = 0x7b :: (separated ([(ascii "connections",
      0x5b :: (listedText pointer connections.length 0 connections ++ [0x5d])),
      (ascii "count", decimal (connections.countP netCtxIsUsed))].map memberText) ++ [0x7d]) := by
  simp only [replyText, separated, memberText, List.map_cons, List.map_nil, List.append_assoc,
    List.cons_append, List.nil_append]
  rfl

theorem ListingSafe.isListing {pointer : ℕ → UInt64} {connections : List NetCtx}
    (h : ListingSafe pointer connections) :
    IsListing (replyText pointer connections) (connections.countP netCtxIsUsed) := by
  have harray : Derives (.array (listedElements pointer 0 connections))
      (0x5b :: (listedText pointer connections.length 0 connections ++ [0x5d])) := by
    have hvalues := listedElements_derive pointer 0 h.strings
    rcases h.last with hnone | ⟨last, hlast, hused⟩
    · obtain ⟨htext, helements⟩ := listed_none pointer connections.length 0 hnone
      rw [htext, helements]
      exact .emptyArray (by simp)
    · obtain ⟨htext, hne⟩ := listedText_separated pointer (Nat.zero_add _) hlast hused
      rw [htext]
      exact .brackets (derives_elements hne hvalues)
  rw [replyText_eq]
  refine ⟨_, _, _, .braces (derives_members (List.cons_ne_nil _ _) ?_ ?_), .head _,
    .tail _ (.head _), harray, listedElements_length pointer 0 connections⟩
  · simp only [List.forall_mem_cons]
    exact ⟨.of_plain (List.all_eq_true.mp (by decide)),
      .of_plain (List.all_eq_true.mp (by decide)), by simp⟩
  · simp only [List.forall_mem_cons]
    exact ⟨.array harray, .number (decimal_isNumber _), by simp⟩

/-! ## A listing from left to right -/

theorem printedMiddle_leads (pointer : UInt64) (ctx : NetCtx) :
    Leads true (printedMiddle pointer ctx) true := by
  have hpointer := Leads.of_plain (hexPointer_plain pointer)
  have hword := fun n => Leads.of_plain (hexWord_plain n)
  have hstatus := Leads.of_plain (status_plain ctx.status)
  have hseq := Leads.of_plain (decimal_plain ctx.seq.toNat)
  have hfront : Leads true (ascii "\",\"ctx\":\"") true := by decide +kernel
  have hssrc : Leads true (ascii "\",\"ssrc\":\"0x") true := by decide +kernel
  have hbefore : Leads true (ascii "\",\"status\":\"") true := by decide +kernel
  have hsend : Leads true (ascii "\",\"send_ssrc\":\"0x") true := by decide +kernel
  have hinitiator : Leads true (ascii "\",\"initiator\":\"0x") true := by decide +kernel
  have hnumber : Leads true (ascii "\",\"seq\":") false := by decide +kernel
  have hhost : Leads false (ascii ",\"host\":\"") true := by decide +kernel
  have hid := ((hfront.append (hpointer true)).append hssrc).append (hword ctx.ssrc true)
  have hstate := ((hid.append hbefore).append (hstatus true)).append hsend
  have hids := ((hstate.append (hword ctx.sendSsrc true)).append hinitiator).append
    (hword ctx.initiator true)
  exact ((hids.append hnumber).append (hseq false)).append hhost

theorem printedMiddle_front (pointer : UInt64) (ctx : NetCtx) (t : List UInt8) :
    [quote, comma, quote, 0x63] <+: printedMiddle pointer ctx ++ t := by
  have hfront : [quote, comma, quote, 0x63] <+: ascii "\",\"ctx\":\"" := by decide +kernel
  simp only [printedMiddle, List.append_assoc]
  exact hfront.trans (List.prefix_append _ _)

theorem printedEnd_leads (ctx : NetCtx) : Leads true (printedEnd ctx) false := by
  have hnumber := fun n => Leads.of_plain (decimal_plain n) false
  have hcontrol : Leads true (ascii "\",\"control\":") false := by decide +kernel
  have hdata : Leads false (ascii ",\"data\":") false := by decide +kernel
  have hstart : Leads false (ascii ",\"start\":") false := by decide +kernel
  have hclosing : Leads false (ascii "\x7d") false := by decide +kernel
  exact (((((hcontrol.append (hnumber _)).append hdata).append (hnumber _)).append
    hstart).append (hnumber _)).append hclosing

theorem printedEnd_front (ctx : NetCtx) (t : List UInt8) :
    [quote, comma, quote, 0x63] <+: printedEnd ctx ++ t := by
  have hfront : [quote, comma, quote, 0x63] <+: ascii "\",\"control\":" := by decide +kernel
  simp only [printedEnd, List.append_assoc]
  exact hfront.trans (List.prefix_append _ _)

/-- Nothing that is printed for the slots in use has a quote in it. -/
def QuoteFree (connections : List NetCtx) : Prop :=
  ∀ ctx ∈ connections, netCtxIsUsed ctx = true →
    quote ∉ printedName ctx ∧ quote ∉ printedHost ctx

/-- An element is gone through from the brace that opens it to the brace that closes it. -/
theorem connectionElement_continues {i : ℕ} {pointer : UInt64} {ctx : NetCtx} {t : List UInt8}
    (hname : quote ∉ printedName ctx) (hhost : quote ∉ printedHost ctx)
    (h : Continues false (connectionElement i pointer ctx ++ t)) :
    StringBody (printedName ctx) ∧ StringBody (printedHost ctx) ∧ Continues false t := by
  have hfront : Leads false (ascii "\x7b\"id\":" ++ decimal i ++ ascii ",\"name\":\"") true := by
    have hopening : Leads false (ascii "\x7b\"id\":") false := by decide +kernel
    have hbefore : Leads false (ascii ",\"name\":\"") true := by decide +kernel
    exact (hopening.append (.of_plain (decimal_plain i) false)).append hbefore
  simp only [connectionElement, List.append_assoc] at h
  simp only [← List.append_assoc (ascii "\x7b\"id\":"), ← List.append_assoc (_ ++ decimal i)] at h
  obtain ⟨hnameBody, hmiddle⟩ := (h.skip hfront).name hname (printedMiddle_front pointer ctx _)
    (by decide) (by decide)
  obtain ⟨hhostBody, hend⟩ := (hmiddle.skip (printedMiddle_leads pointer ctx)).name hhost
    (printedEnd_front ctx _) (by decide) (by decide)
  exact ⟨hnameBody, hhostBody, hend.skip (printedEnd_leads ctx)⟩

/-- What is listed may stand in the strings, and if the last slot is not in use although
another one is, then a comma is left over. -/
theorem listedText_continues {pointer : ℕ → UInt64} {numConnections i : ℕ}
    {connections : List NetCtx} {t : List UInt8} (hcount : i + connections.length = numConnections)
    (hfree : QuoteFree connections)
    (h : Continues false (listedText pointer numConnections i connections ++ t)) :
    (∀ ctx ∈ connections, netCtxIsUsed ctx = true →
      StringBody (printedName ctx) ∧ StringBody (printedHost ctx)) ∧
    ((∀ ctx ∈ connections, netCtxIsUsed ctx = false) ∨
      (∃ ctx, connections.getLast? = some ctx ∧ netCtxIsUsed ctx = true) ∨
      Continues false (comma :: t)) := by
  induction connections generalizing i with
  | nil => simp
  | cons ctx rest ih =>
    obtain ⟨hctx, hothers⟩ := List.forall_mem_cons.mp hfree
    rw [List.length_cons] at hcount
    have hnext := @ih (i + 1) (by omega) hothers
    rw [listedText, List.append_assoc] at h
    by_cases hused : netCtxIsUsed ctx = true
    · obtain ⟨hname, hhost⟩ := hctx hused
      rw [if_pos hused, List.append_assoc] at h
      obtain ⟨hnameBody, hhostBody, hbehind⟩ := connectionElement_continues hname hhost h
      rcases rest with - | ⟨next, more⟩
      · exact ⟨by simp [hnameBody, hhostBody], .inr (.inl ⟨ctx, rfl, hused⟩)⟩
      · have hcomma : i + 1 < numConnections := by rw [List.length_cons] at hcount; omega
        rw [if_pos hcomma] at hbehind
        obtain ⟨hstrings, hlast⟩ := hnext (hbehind.skip (by decide +kernel))
        refine ⟨List.forall_mem_cons.mpr ⟨fun _ => ⟨hnameBody, hhostBody⟩, hstrings⟩, .inr ?_⟩
        rcases hlast with hnone | hlast | hleft
        · rw [(listed_none pointer numConnections (i + 1) hnone).1] at hbehind
          exact .inr hbehind
        · rw [List.getLast?_cons_cons]
          exact .inl hlast
        · exact .inr hleft
    · rw [if_neg hused] at h
      have hunused : netCtxIsUsed ctx = false := by simpa using hused
      obtain ⟨hstrings, hlast⟩ := hnext h
      refine ⟨List.forall_mem_cons.mpr ⟨fun h => absurd h hused, hstrings⟩, ?_⟩
      rcases hlast with hnone | ⟨last, hlast, hlastUsed⟩ | hleft
      · exact .inl (List.forall_mem_cons.mpr ⟨hunused, hnone⟩)
      · exact .inr (.inl ⟨last, by simp [List.getLast?_cons, hlast], hlastUsed⟩)
      · exact .inr (.inr hleft)

theorem IsListing.parts {pointer : ℕ → UInt64} {connections : List NetCtx} {count : ℕ}
    (hfree : QuoteFree connections) (h : IsListing (replyText pointer connections) count) :
    (∀ ctx ∈ connections, netCtxIsUsed ctx = true →
      StringBody (printedName ctx) ∧ StringBody (printedHost ctx)) ∧
    ((∀ ctx ∈ connections, netCtxIsUsed ctx = false) ∨
      ∃ ctx, connections.getLast? = some ctx ∧ netCtxIsUsed ctx = true) := by
  obtain ⟨members, -, -, hreply, -⟩ := h
  have hlexes := hreply.lexes .nil false
  rw [List.append_nil] at hlexes
  have hcontinues : Continues false (replyText pointer connections) := ⟨false, hlexes⟩
  obtain ⟨hstrings, hlast⟩ := listedText_continues (Nat.zero_add _) hfree
    (hcontinues.skip (by decide +kernel : Leads false _ false))
  refine ⟨hstrings, hlast.imp_right fun h => ?_⟩
  rcases h with hlast | hleft
  · exact hlast
  · exact absurd hleft Continues.trailing

/-- The listing is well formed if the last slot is in use, the names and the addresses may
stand in strings and all of it fits into one block; and only then, unless there is a quote
in a name or an address. -/
theorem listing_wellFormed_iff (pointer : ℕ → UInt64) (connections : List NetCtx) :
    (ListingSafe pointer connections → ListingWellFormed pointer connections) ∧
      (QuoteFree connections →
        (ListingWellFormed pointer connections ↔ ListingSafe pointer connections)) := by
  have hsafe : ListingSafe pointer connections → ListingWellFormed pointer connections := by
    intro h
    exact (wellFormed_iff pointer connections).mpr
      ⟨by rw [replyText_length]; exact h.short, h.isListing⟩
  refine ⟨hsafe, fun hfree => ⟨fun h => ?_, hsafe⟩⟩
  obtain ⟨hshort, hlisting⟩ := (wellFormed_iff pointer connections).mp h
  obtain ⟨hstrings, hlast⟩ := hlisting.parts hfree
  exact ⟨hlast, hstrings, by rw [← replyText_length]; exact hshort⟩

/-- A peer named by one letter, which is connected. -/
def connectedPeer (created : NetCtx) (letter : UInt8) (ssrc : UInt32) : NetCtx :=
  netCtxSet resolvingHost created ssrc ssrc 7 5004 (ascii "10.0.0.1") (some [letter]) 0

/-- The table after one peer has connected. -/
def onePeer : List NetCtx :=
  (netCtxRegister resolvingHost [] 1 1 (ascii "10.0.0.1") 5004 (some [0x61]) 7 0).1

/-- And after another one. -/
def twoPeers : List NetCtx :=
  (netCtxRegister resolvingHost onePeer 2 2 (ascii "10.0.0.1") 5004 (some [0x62]) 7 0).1

theorem peers_eq : ∃ created, created.seq = 1 ∧ onePeer = [connectedPeer created 0x61 1] ∧
    twoPeers = [connectedPeer created 0x61 1, connectedPeer created 0x62 2] := by
  obtain ⟨created, hcreated⟩ : ∃ created, netCtxCreate resolvingHost = some created := ⟨_, rfl⟩
  have hone : onePeer = [connectedPeer created 0x61 1] := by
    simp [onePeer, netCtxRegister, netCtxFindBySsrc, netCtxFindUnused, netCtxFind, hcreated,
      connectedPeer]
  refine ⟨created, ?_, hone, ?_⟩
  · obtain ⟨state, -, rfl⟩ := Option.map_eq_some_iff.mp hcreated
    rfl
  · simp [twoPeers, hone, netCtxRegister, netCtxFindBySsrc, netCtxFindUnused, netCtxFind, hcreated,
      connectedPeer, netCtxSet, netCtxIsUsed]

theorem connectedPeer_quoteFree (created : NetCtx) (ssrc : UInt32) :
    QuoteFree [connectedPeer created 0x61 ssrc] := by
  refine List.forall_mem_singleton.mpr fun _ => ?_
  show quote ∉ [0x61] ∧ quote ∉ ascii "10.0.0.1"
  decide

/-- The listing of a single connection. -/
theorem listing_wellFormed_iff_one : ListingSafe (fun _ => 0x1000) onePeer ∧
    QuoteFree onePeer ∧ ListingWellFormed (fun _ => 0x1000) onePeer := by
  obtain ⟨created, hseq, hone, -⟩ := peers_eq
  have hsafe : ListingSafe (fun _ => 0x1000) onePeer := by
    rw [hone]
    refine ⟨.inr ⟨_, rfl, rfl⟩, List.forall_mem_singleton.mpr fun _ => ⟨?_, ?_⟩, ?_⟩
    · exact .of_plain (List.all_eq_true.mp (by decide : [0x61].all isPlain = true))
    · exact .of_plain (List.all_eq_true.mp (by decide : (ascii "10.0.0.1").all isPlain = true))
    · have hlength : elementLength 0 0x1000 (connectedPeer created 0x61 1) = 183 := by
        simp only [elementLength, connectedPeer, netCtxSet, hseq, printedName, printedHost,
          Option.getD_some]
        decide +kernel
      have hcount : [connectedPeer created 0x61 1].countP netCtxIsUsed = 1 := rfl
      simp only [listedLength, hlength, hcount, List.length_singleton, Nat.lt_irrefl, if_false]
      split_ifs
      · decide
      · decide
  have hfree : QuoteFree onePeer := by
    rw [hone]
    exact connectedPeer_quoteFree created 1
  exact ⟨hsafe, hfree, ((listing_wellFormed_iff _ _).2 hfree).mpr hsafe⟩

/-- The second peer says goodbye, and the comma behind the first one stays. -/
theorem goodbye_leaves_comma : ¬ ListingWellFormed (fun _ => 0x1000)
    (applemidiByResponder twoPeers (some ⟨2, 2, 2, none⟩)) := by
  obtain ⟨created, -, -, htwo⟩ := peers_eq
  have htable : applemidiByResponder [connectedPeer created 0x61 1, connectedPeer created 0x62 2]
      (some ⟨2, 2, 2, none⟩) =
        [connectedPeer created 0x61 1, netCtxReset (connectedPeer created 0x62 2)] := rfl
  intro hwellFormed
  obtain ⟨-, hlisting⟩ := (wellFormed_iff _ _).mp hwellFormed
  rw [htwo, htable] at hlisting
  have hfree : QuoteFree
      [connectedPeer created 0x61 1, netCtxReset (connectedPeer created 0x62 2)] := by
    refine List.forall_mem_cons.mpr
      ⟨List.forall_mem_singleton.mp (connectedPeer_quoteFree created 1), ?_⟩
    simp [netCtxIsUsed, netCtxReset]
  rcases (hlisting.parts hfree).2 with hnone | ⟨last, hlast, hused⟩
  · exact absurd (hnone _ (.head _)) (by simp [netCtxIsUsed, connectedPeer, netCtxSet])
  · cases hlast
    exact absurd hused (by simp [netCtxIsUsed, netCtxReset])

end RaveloxMidi
