import RaveloxMidi.MainLoop

/-!
# The end of the main loop

A request to stop is not lost: once the flag is set and the octets of the requests are in the
pipe, the main thread leaves its loop. Two things have to hold for that. Nothing writes into
the pipe between the two closes of a handler, which would end the process; and no handler
interrupts the thread that holds the lock of the flag, which would then wait for itself.
-/
namespace RaveloxMidi
open ByteMemory Transducer

section Invariant
variable {shutdownFd : Int32} {sockets : List Int32} {s t : FdLoop} {held : List Int32}

/-- No handler interrupts the thread that holds the lock. -/
def Spares (s : FdLoop) : LoopAction → Prop
  | .signal thread => s.lock ≠ some thread
  | _ => True

instance (s : FdLoop) : DecidablePred (Spares s)
  | .signal thread => inferInstanceAs (Decidable (s.lock ≠ some thread))
  | .main _ | .other _ => .isTrue trivial

/-- Whoever holds the lock is on the way to give it back. -/
def FdLoop.Spared (s : FdLoop) : Prop := ∀ thread, s.lock = some thread → s.Inside thread

theorem inside_other {thread other : LoopThread} (hwent : WentOn s t thread)
    (hne : other ≠ thread) : t.Inside other ↔ s.Inside other := by
  rw [FdLoop.Inside, FdLoop.Inside, hwent.others other hne]
  cases s.requests other with
  | nil =>
    refine imp_congr_right fun hmain => ?_
    rw [hwent.main (hmain ▸ Ne.symm hne)]
  | cons point below => exact Iff.rfl

theorem loop_spared {a : LoopAction} {now : List LoopEvent} {held' : List Int32}
    (hkept : LoopKept shutdownFd sockets s held a t now held') (hspares : Spares s a)
    (hstep : loopStep shutdownFd sockets s a = .ok (t, now)) (h : s.Spared) : t.Spared := by
  cases ha : a.thread with
  | none =>
    cases a with
    | signal thread =>
      cases hstep
      intro other hlock
      have hne : other ≠ thread := fun hsame => hspares (hsame ▸ hlock)
      have hinside := h other hlock
      rwa [FdLoop.Inside, ← advance_requests_of_ne hne] at hinside
    | main moment => cases ha
    | other i => cases ha
  | some thread =>
    have hwent := hkept.wentOn thread ha
    intro other hlock
    by_cases hsame : other = thread
    · subst hsame
      obtain ⟨hkeeps, heq⟩ | ⟨-, hnone⟩ | ⟨-, -, hinside⟩ := hwent.lock
      · rw [heq] at hlock
        exact absurd hlock (hkeeps (h other hlock))
      · rw [hnone] at hlock
        cases hlock
      · exact hinside
    · refine (inside_other hwent hsame).mpr ?_
      obtain ⟨-, heq⟩ | ⟨-, hnone⟩ | ⟨-, hsome, -⟩ := hwent.lock
      · exact h other (heq ▸ hlock)
      · rw [hnone] at hlock
        cases hlock
      · rw [hsome] at hlock
        exact absurd (Option.some.inj hlock).symm hsame

theorem inside_alone {thread : LoopThread} (h : s.Inside thread) {a : LoopAction}
    (ha : a.thread = some thread) : Alone s a := by
  intro other hother hwrites
  obtain rfl : thread = other := Option.some.inj (ha.symm.trans hother)
  cases hrequests : s.requests thread with
  | nil =>
    simp only [FdLoop.Writes, hrequests] at hwrites
    simp only [FdLoop.Inside, hrequests] at h
    have hlocked := h hwrites.1
    have hsignals := hwrites.2
    cases hmain : s.main <;> simp [hmain, LoopPoint.Locked, LoopPoint.Signals] at hlocked hsignals
  | cons point below =>
    simp only [FdLoop.Writes, hrequests] at hwrites
    rw [inside_cons hrequests, hwrites] at h
    cases h

/-- The thread that holds the lock gives it back with its next step. -/
theorem loop_releases {a : LoopAction} {now : List LoopEvent} {held' : List Int32}
    (hkept : LoopKept shutdownFd sockets s held a t now held') (h : s.Spared)
    {thread : LoopThread} (hlock : s.lock = some thread) (ha : a.thread = some thread) :
    t.lock = none := by
  obtain ⟨hkeeps, -⟩ | ⟨-, hnone⟩ | ⟨hfree, -⟩ := (hkept.wentOn thread ha).lock
  · exact absurd hlock (hkeeps (h thread hlock))
  · exact hnone
  · rw [hlock] at hfree
    cases hfree

/-- Nothing is written into the half closed pipe, and the holder of the lock is not interrupted. -/
def Orderly (s : FdLoop) (a : LoopAction) : Prop := Alone s a ∧ Spares s a

instance (s : FdLoop) (a : LoopAction) : Decidable (Orderly s a) :=
  inferInstanceAs (Decidable (_ ∧ _))

theorem fdLoopStart_spared : fdLoopStart.Spared := nofun

theorem run_spared (hfd : 0 < shutdownFd) (h : s.Holds shutdownFd sockets held) (hspared : s.Spared)
    {actions : List LoopAction} {out : List LoopEvent}
    (horderly : Along (loopStep shutdownFd sockets) Orderly s actions)
    (hrun : run (loopStep shutdownFd sockets) s actions = .ok (t, out)) :
    (∃ held', t.Holds shutdownFd sockets held') ∧ t.Spared := by
  have hstep : ∀ s a t now, (∃ held, s.Holds shutdownFd sockets held) ∧ s.Spared → Orderly s a →
      loopStep shutdownFd sockets s a = .ok (t, now) →
      ((∃ held, t.Holds shutdownFd sockets held) ∧ t.Spared) ∧ ∀ _ ∈ now, True := by
    rintro s a t now ⟨⟨held, hs⟩, hspared⟩ horderly hstep
    obtain ⟨held', hkept⟩ := loop_kept hfd hs horderly.1 hstep
    exact ⟨⟨⟨held', hkept.holds⟩, loop_spared hkept horderly.2 hstep hspared⟩, fun _ _ => trivial⟩
  exact (run_preserves hstep ⟨⟨held, h⟩, hspared⟩ horderly hrun).1

/-- Each step of the main thread that does not wait for the lock brings it nearer to the end. -/
theorem run_nearer (hfd : 0 < shutdownFd) (h : s.Holds shutdownFd sockets held)
    (hending : s.Ending) {actions : List LoopAction} {out : List LoopEvent}
    (halone : Along (loopStep shutdownFd sockets) Alone s actions)
    (hrun : run (loopStep shutdownFd sockets) s actions = .ok (t, out)) :
    (s.main = .left → t.main = .left) ∧ (t.main = .left ∨
      t.main.remaining (pollCount sockets) + t.handling + actions.countP LoopAction.isMain ≤
        s.main.remaining (pollCount sockets) + s.handling +
          5 * actions.countP LoopAction.interrupts + out.count (.waited .main)) := by
  induction actions generalizing s held out with
  | nil =>
    cases hrun
    exact ⟨id, .inr (by simp)⟩
  | cons a actions ih =>
    obtain ⟨r, now, later, hnow, hlater, rfl⟩ := run_cons_inv hrun
    obtain ⟨held', hkept⟩ := loop_kept hfd h halone.1 hnow
    obtain ⟨hleft, hrest⟩ := ih hkept.holds (hkept.ending hending) (halone.2 r now hnow) hlater
    refine ⟨fun hmain => hleft (hkept.left hmain), ?_⟩
    by_cases hmain : s.main = .left
    · exact .inl (hleft (hkept.left hmain))
    refine hrest.imp_right fun hless => ?_
    have hnearer := hkept.nearer hending hmain
    rw [List.countP_cons, List.countP_cons, List.count_append]
    split_ifs at hnearer ⊢ <;> omega

/-- What the main thread has at most before it in state `s`: a round of the loop, and the
handlers that have interrupted it. -/
theorem remaining_le (n : ℕ) (s : FdLoop) :
    s.main.remaining n + s.handling ≤ 4 * n + 5 + 5 * (s.requests .main).length := by
  have hmain : s.main.remaining n ≤ 4 * n + 5 := by
    cases s.main <;> simp only [LoopPoint.remaining] <;> omega
  have hhandling : s.handling ≤ (s.requests .main).length • 5 := by
    refine (List.sum_le_card_nsmul _ 5 fun m hm => ?_).trans_eq (by rw [List.length_map])
    obtain ⟨point, -, rfl⟩ := List.mem_map.mp hm
    cases point <;> decide
  rw [smul_eq_mul] at hhandling
  omega

theorem left_of_remaining (h : s.Holds shutdownFd sockets held)
    (hnone : s.main.remaining (pollCount sockets) = 0) : s.main = .left := by
  cases hmain : s.main with
  | left => rfl
  | signalling i =>
    have hscans := h.scans
    simp only [FdLoop.Scans, hmain] at hscans
    obtain ⟨ds, -, hfds, hi, -⟩ := hscans
    rw [fds_length hfds] at hi
    simp only [hmain, LoopPoint.remaining] at hnone
    omega
  | _ => simp [hmain, LoopPoint.remaining] at hnone

/-- Once the flag is set and every request that has set it has been written, nothing stops any
more, and the main thread leaves its loop after a number of its own steps that the sockets
and the signals that interrupt it bound, not counted those in which it waits for the lock; it
does not wait in `poll` for an event that has gone by. The lock is given back with the next
step of the thread that holds it. -/
theorem loop_ends (hfd : 0 < shutdownFd) {sockets : List Int32} {before after : List LoopAction}
    {s : FdLoop} {out : List LoopEvent}
    (hbefore : Along (loopStep shutdownFd sockets) Orderly fdLoopStart before)
    (hrun : run (loopStep shutdownFd sockets) fdLoopStart before = .ok (s, out))
    (hflag : s.shutdown = true) (hwritten : ∀ thread, .flagged ∉ s.requests thread)
    (hafter : Along (loopStep shutdownFd sockets) Orderly s after) :
    ∃ u out', run (loopStep shutdownFd sockets) s after = .ok (u, out') ∧
      (4 * pollCount sockets + 5 +
          5 * ((s.requests .main).length + after.countP LoopAction.interrupts) +
          out'.count (.waited .main) ≤ after.countP LoopAction.isMain →
        u.main = .left) ∧
      ∀ a thread, u.lock = some thread → a.thread = some thread →
        ∃ v now, loopStep shutdownFd sockets u a = .ok (v, now) ∧ v.lock = none := by
  obtain ⟨⟨held, h⟩, hspared⟩ := run_spared hfd fdLoopStart_holds fdLoopStart_spared hbefore hrun
  have hending : s.Ending := by
    refine ⟨hflag, fun hwaits => h.readable hwaits ?_⟩
    refine (h.waits hwaits hflag).imp_right fun ⟨thread, r, hr, hfar⟩ => ⟨thread, r, hr, ?_⟩
    cases r with
    | locking => exact hfar
    | setting => exact hfar
    | flagged => exact absurd hr (hwritten thread)
    | written => trivial
    | readClosed => trivial
  have halone := along_mono (fun _ _ h => h.1) hafter
  obtain ⟨u, out', held', hgoes, hu, -⟩ := run_goes_alone hfd h halone
  obtain ⟨-, hnearer⟩ := run_nearer hfd h hending halone hgoes
  refine ⟨u, out', hgoes, fun hsteps => ?_, fun a thread hlock ha => ?_⟩
  · obtain hleft | hless := hnearer
    · exact hleft
    · have hmost := remaining_le (pollCount sockets) s
      exact left_of_remaining hu (by omega)
  · have hholder := (run_spared hfd h hspared hafter hgoes).2
    have hopen := inside_alone (hholder thread hlock) ha
    obtain ⟨v, now, held'', hstep, hkept⟩ := loop_goes hfd hu hopen
    exact ⟨v, now, hstep, loop_releases hkept hholder hlock ha⟩

/-- The main thread waits in `poll`. -/
def loopWaiting : List LoopAction := List.replicate 4 (.main ⟨fun _ => 0, false, false, false⟩)

/-- A signal interrupts the main thread while it waits, and the handler writes into the pipe. -/
def loopAsking : List LoopAction :=
  loopWaiting ++ .signal .main :: List.replicate 3 (.main momentReady)

def loopAsked : FdLoop :=
  match run (loopStep 5 [3, 4]) fdLoopStart loopAsking with
  | .ok (s, _) => s
  | .error _ => fdLoopStart

theorem loopAsked_written : ∀ thread, .flagged ∉ loopAsked.requests thread := by
  rintro (- | i)
  · decide
  · exact List.not_mem_nil

theorem loop_ends_waiting :
    ∃ u out', run (loopStep 5 [3, 4]) loopAsked (List.replicate 22 (.main momentReady)) =
        .ok (u, out') ∧
      (22 + out'.count (.waited .main) ≤ 22 → u.main = .left) ∧
      ∀ a thread, u.lock = some thread → a.thread = some thread →
        ∃ v now, loopStep 5 [3, 4] u a = .ok (v, now) ∧ v.lock = none :=
  loop_ends (by decide) (by decide)
    (rfl : run (loopStep 5 [3, 4]) fdLoopStart loopAsking = .ok (loopAsked, [])) (by decide)
    loopAsked_written (by decide)

/-- A handler that interrupts the main thread inside `net_socket_get_shutdown_status` never gets
the lock. -/
example : (run (loopStep 5 [3, 4]) fdLoopStart (.main momentReady :: .signal .main ::
    List.replicate 30 (.main momentReady))).map (fun r => (r.1.main, r.2)) =
      .ok (.locked, List.replicate 30 (.waited .main)) := by decide

end Invariant

end RaveloxMidi
