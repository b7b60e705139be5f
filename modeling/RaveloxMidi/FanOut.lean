import RaveloxMidi.JournalFeedback

/-!
# Which connections a command goes to

A command is meant for every connection but the one it came from. The loop of the
sender goes over all slots, used or not, and tells the origin by its SSRC alone,
with zero for no origin. This module says for which tables that comes to the same.
-/
namespace RaveloxMidi
open ByteMemory Transducer

/-- Where a command came from: the local socket or an ALSA device, or a connection in use. -/
inductive CommandOrigin where
  | internal
  | connection (slot : ℕ) (ctx : NetCtx)

namespace CommandOrigin

/-- `originator_ssrc`. -/
def ssrc : CommandOrigin → UInt32
  | .internal => 0
  | .connection _ ctx => ctx.ssrc

def slot : CommandOrigin → Option ℕ
  | .internal => none
  | .connection slot _ => some slot

/-- The connection is in the table, and in use. -/
def In (connections : List NetCtx) : CommandOrigin → Prop
  | .internal => True
  | .connection slot ctx => connections[slot]? = some ctx ∧ netCtxIsUsed ctx = true

end CommandOrigin

/-- One packet for each connection in use other than the origin, whose counter goes up
by one. Every other slot gets nothing and keeps its counter and its journal. -/
def FannedOut (connections t : List NetCtx) (effects : List NetEffect) (origin : CommandOrigin) :
    Prop :=
  t.length = connections.length ∧
    ∀ slot ctx, connections[slot]? = some ctx → ∃ ctx', t[slot]? = some ctx' ∧
      if netCtxIsUsed ctx = true ∧ origin.slot ≠ some slot then
        (packetsTo slot effects).length = 1 ∧ ctx'.seq = ctx.seq + 1
      else packetsTo slot effects = [] ∧ ctx'.seq = ctx.seq ∧ ctx'.journal = ctx.journal

/-- The SSRC of the origin, zero for none, is what all unused slots have and no other
connection in use. -/
structure OriginTold (connections : List NetCtx) (origin : CommandOrigin) : Prop where
  unused : ∀ ctx ∈ connections, netCtxIsUsed ctx = false → ctx.ssrc = origin.ssrc
  used : ∀ slot ctx, connections[slot]? = some ctx → netCtxIsUsed ctx = true →
    origin.slot ≠ some slot → ctx.ssrc ≠ origin.ssrc

/-- A command reaches exactly the connections it is meant for, if and only if its data can be
read and its origin can be told from every other slot by the SSRC. -/
theorem fanned_out_iff (host : NetHost) (clock : ℕ → UInt64) {connections : List NetCtx}
    (hjournals : ∀ ctx ∈ connections, ctx.journal.Valid)
    (haddresses : ∀ ctx ∈ connections, netCtxIsUsed ctx = true → ctx.dataAddress ≠ none)
    (command : MidiCommand) {origin : CommandOrigin} (horigin : origin.In connections) :
    (∃ t effects, midiSenderSendSingle host clock connections command origin.ssrc =
        .ok (t, effects) ∧ FannedOut connections t effects origin) ↔
      command.Readable ∧ OriginTold connections origin := by
  constructor
  · rintro ⟨t, effects, hok, -, hslots⟩
    obtain ⟨-, hspec⟩ := sendSingle_spec hok
    have hstill : ∀ n : UInt32, n + 1 ≠ n := by
      intro n hn
      simp at hn
    refine ⟨?_, fun ctx hctx hunused => ?_, fun slot ctx hctx hused hother hsame => ?_⟩
    · obtain ⟨payload, -, hloop⟩ := bind_ok hok
      obtain ⟨event, hevent, -⟩ := bind_ok hloop
      exact (senderEvent_iff command).mp ⟨event, hevent⟩
    · obtain ⟨slot, hslot⟩ := List.getElem?_of_mem hctx
      obtain ⟨ctx', hctx', hserved⟩ := hspec slot ctx hslot
      obtain ⟨ctx'', hctx'', hleft⟩ := hslots slot ctx hslot
      cases hctx''.symm.trans hctx'
      rw [if_neg (by simp [hunused])] at hleft
      by_contra hne
      exact hstill ctx.seq ((hserved.counted hne).symm.trans hleft.2.1)
    · obtain ⟨ctx', hctx', hserved⟩ := hspec slot ctx hctx
      obtain ⟨ctx'', hctx'', hreached⟩ := hslots slot ctx hctx
      rw [if_pos ⟨hused, hother⟩, (hserved.skipped hsame).2] at hreached
      exact absurd hreached.1 (by decide)
  · rintro ⟨hreadable, hunused, hused⟩
    obtain ⟨event, hevent⟩ := (senderEvent_iff command).mpr hreadable
    obtain ⟨t, effects, hok, -⟩ := sendSingle_ok host clock hjournals hevent origin.ssrc
    obtain ⟨hlength, hspec⟩ := sendSingle_spec hok
    refine ⟨t, effects, hok, hlength, fun slot ctx hctx => ?_⟩
    obtain ⟨ctx', hctx', hserved⟩ := hspec slot ctx hctx
    refine ⟨ctx', hctx', ?_⟩
    by_cases hmeant : netCtxIsUsed ctx = true ∧ origin.slot ≠ some slot
    · have hne := hused slot ctx hctx hmeant.1 hmeant.2
      rw [if_pos hmeant]
      exact ⟨hserved.sent hne (haddresses ctx (List.mem_of_getElem? hctx) hmeant.1),
        hserved.counted hne⟩
    · have hsame : ctx.ssrc = origin.ssrc := by
        by_cases hfree : netCtxIsUsed ctx = true
        · have hself : origin.slot = some slot := by
            by_contra hne
            exact hmeant ⟨hfree, hne⟩
          cases origin with
          | internal => cases hself
          | connection source sender =>
            cases hself
            cases horigin.1.symm.trans hctx
            rfl
        · exact hunused ctx (List.mem_of_getElem? hctx) (by simpa using hfree)
      obtain ⟨rfl, hnothing⟩ := hserved.skipped hsame
      rw [if_neg hmeant]
      exact ⟨hnothing, rfl, rfl⟩

/-- A connection that has just been registered, and is in use with a known address. -/
theorem registered_slot {created : NetCtx} (hcreated : netCtxCreate resolvingHost = some created)
    (ssrc sendSsrc : UInt32) :
    (netCtxSet resolvingHost created ssrc 1 sendSsrc 5004 [] none 0).journal.Valid ∧
      netCtxIsUsed (netCtxSet resolvingHost created ssrc 1 sendSsrc 5004 [] none 0) = true ∧
      (netCtxSet resolvingHost created ssrc 1 sendSsrc 5004 [] none 0).dataAddress ≠ none := by
  obtain ⟨state, -, rfl⟩ := Option.map_eq_some_iff.mp hcreated
  exact ⟨Journal.valid_init, rfl, by simp [netCtxSet, resolvingHost]⟩

/-- A clock from the local socket goes to the only connection there is. -/
theorem fanned_out_iff_clock :
    ∃ created t effects, netCtxCreate resolvingHost = some created ∧
      midiSenderSendSingle resolvingHost (fun _ => 0)
          (registeredConnection created 7 9).connections ⟨0, 0xf8, []⟩ 0 = .ok (t, effects) ∧
      FannedOut (registeredConnection created 7 9).connections t effects .internal := by
  obtain ⟨created, hcreated⟩ : ∃ created, netCtxCreate resolvingHost = some created := ⟨_, rfl⟩
  obtain ⟨hjournal, hused, haddress⟩ := registered_slot hcreated 7 9
  have hmem : ∀ ctx ∈ (registeredConnection created 7 9).connections,
      ctx = netCtxSet resolvingHost created 7 1 9 5004 [] none 0 :=
    fun ctx hctx => List.mem_singleton.mp hctx
  have hjournals : ∀ ctx ∈ (registeredConnection created 7 9).connections, ctx.journal.Valid :=
    fun ctx hctx => hmem ctx hctx ▸ hjournal
  have htold : OriginTold (registeredConnection created 7 9).connections .internal := by
    constructor
    · intro ctx hctx hunused
      rw [hmem ctx hctx, hused] at hunused
      cases hunused
    · intro slot ctx hctx _ _ hssrc
      rw [hmem ctx (List.mem_of_getElem? hctx)] at hssrc
      exact absurd (show (7 : UInt32) = 0 from hssrc) (by decide)
  have horigin : CommandOrigin.internal.In (registeredConnection created 7 9).connections := trivial
  obtain ⟨t, effects, hok, hfanned⟩ := (fanned_out_iff resolvingHost (fun _ => 0) hjournals
    (fun ctx hctx _ => hmem ctx hctx ▸ haddress) ⟨0, 0xf8, []⟩ horigin).mpr
    ⟨by decide, htold⟩
  exact ⟨created, t, effects, hcreated, hok, hfanned⟩

/-- A connection that has ended is still counted up, by a clock that is meant for the
other one only. -/
theorem ended_connection_counted :
    ∃ created ended t effects, netCtxCreate resolvingHost = some created ∧
      ended = netCtxReset (netCtxSet resolvingHost created 7 1 9 5004 [] none 0) ∧
      midiSenderSendSingle resolvingHost (fun _ => 0)
          (ended :: (registeredConnection created 8 10).connections) ⟨0, 0xf8, []⟩ 0 =
        .ok (t, effects) ∧
      netCtxIsUsed ended = false ∧ (∃ ctx', t[0]? = some ctx' ∧ ctx'.seq = ended.seq + 1) ∧
      ¬ FannedOut (ended :: (registeredConnection created 8 10).connections) t effects
        .internal := by
  obtain ⟨created, hcreated⟩ : ∃ created, netCtxCreate resolvingHost = some created := ⟨_, rfl⟩
  obtain ⟨hjournal, -, -⟩ := registered_slot hcreated 8 10
  obtain ⟨ended, hended⟩ : ∃ ended, ended =
    netCtxReset (netCtxSet resolvingHost created 7 1 9 5004 [] none 0) := ⟨_, rfl⟩
  have hunused : netCtxIsUsed ended = false := by rw [hended]; rfl
  have hssrc : ended.ssrc ≠ 0 := by
    rw [hended]
    show (7 : UInt32) ≠ 0
    decide
  have hjournals : ∀ ctx ∈ ended :: (registeredConnection created 8 10).connections,
      ctx.journal.Valid := by
    intro ctx hctx
    rcases List.mem_cons.mp hctx with rfl | hctx
    · rw [hended]
      exact Journal.valid_reset _
    · exact List.mem_singleton.mp hctx ▸ hjournal
  have hevent : midiSenderEvent ⟨0, 0xf8, []⟩ = .ok .other := rfl
  obtain ⟨t, effects, hok, -⟩ := sendSingle_ok resolvingHost (fun _ => 0) hjournals hevent 0
  obtain ⟨ctx', hctx', hserved⟩ := (sendSingle_spec hok).2 0 ended rfl
  have hcounted := hserved.counted hssrc
  refine ⟨created, ended, t, effects, hcreated, hended, hok, hunused, ⟨ctx', hctx', hcounted⟩, ?_⟩
  rintro ⟨-, hslots⟩
  obtain ⟨ctx'', hctx'', hleft⟩ := hslots 0 ended rfl
  cases hctx''.symm.trans hctx'
  rw [if_neg (by simp [hunused])] at hleft
  have hstill := hcounted.symm.trans hleft.2.1
  simp at hstill

end RaveloxMidi
