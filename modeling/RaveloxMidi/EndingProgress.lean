import RaveloxMidi.SessionEnd

/-!
# The order in which a daemon ends

After a request the listener of the ALSA inputs and the thread of the session end with their
own steps, so that the main thread comes to stop the sender; the sender ends with its own
steps, and then the main thread comes to its leave. What the other threads do in between does
not hold any of them up.
-/
namespace RaveloxMidi
open ByteMemory Transducer SlotTable

section Progress
variable {e : EndingSides} {s t : Ending}

namespace EndingMove

def isMain : EndingMove → Bool
  | main => true
  | _ => false

end EndingMove

/-- How many steps the main thread takes to its end. -/
def MainPoint.rank : MainPoint → ℕ
  | .looping => 6
  | .left => 5
  | .alsaTornDown => 4
  | .loopTornDown => 3
  | .senderStopping => 2
  | .senderStopped => 1
  | .done => 0

/-- How many steps the sender takes to its end, once it has been stopped. -/
def SendingPoint.rank : SendingPoint → ℕ
  | .acting _ => 3
  | .freeing => 2
  | .locking => 1
  | .stopped => 0

theorem MainPoint.rank_eq_zero {point : MainPoint} : point.rank = 0 ↔ point = .done := by
  cases point <;> simp [MainPoint.rank]

theorem SendingPoint.rank_eq_zero {point : SendingPoint} : point.rank = 0 ↔ point = .stopped := by
  cases point <;> simp [SendingPoint.rank]

/-- After the request no step takes a thread back, and one of its own takes it on unless it has
to wait. The counts are those of the steps of each thread. -/
structure Nearer (s t : Ending) (mains threads listeners senders : ℕ) : Prop where
  shutdown : t.shutdown = true
  thread : t.thread.rank ≤ s.thread.rank - threads
  listener : t.listener.toNat ≤ s.listener.toNat - listeners
  sender : s.point.rank ≤ 2 → t.point.rank ≤ 2 ∧ t.sender.rank ≤ s.sender.rank - senders
  early : s.listener = false → t.point.rank - 2 ≤ s.point.rank - 2 - mains
  late : s.thread = .ended → s.sender = .stopped → s.point.rank ≤ 2 →
    t.point.rank ≤ s.point.rank - mains

/-- The steps of each thread add up. -/
theorem Nearer.trans {r : Ending} {mains threads listeners senders mains' threads' listeners'
    senders' : ℕ} (h : Nearer s r mains threads listeners senders)
    (h' : Nearer r t mains' threads' listeners' senders') :
    Nearer s t (mains' + mains) (threads' + threads) (listeners' + listeners)
      (senders' + senders) where
  shutdown := h'.shutdown
  thread := by have := h.thread; have := h'.thread; omega
  listener := by have := h.listener; have := h'.listener; omega
  sender := fun hle => by
    obtain ⟨hr, hsender⟩ := h.sender hle
    obtain ⟨ht, hsender'⟩ := h'.sender hr
    exact ⟨ht, by omega⟩
  early := fun hnone => by
    have hr : r.listener = false := by
      have hless := h.listener
      rw [hnone] at hless
      simpa using hless
    have hfirst := h.early hnone
    have hrest := h'.early hr
    omega
  late := fun hended hstopped hle => by
    have hthread : r.thread = .ended := by
      have hless := h.thread
      rw [hended] at hless
      exact SyncThread.rank_eq_zero.mp (Nat.le_zero.mp (hless.trans (Nat.sub_le _ _)))
    obtain ⟨hr, hsender⟩ := h.sender hle
    have hsender' : r.sender = .stopped := by
      rw [hstopped] at hsender
      exact SendingPoint.rank_eq_zero.mp (Nat.le_zero.mp (hsender.trans (Nat.sub_le _ _)))
    have hfirst := h.late hended hstopped hle
    have hrest := h'.late hthread hsender' hr
    omega

end Progress

end RaveloxMidi
