import Mathlib.Algebra.BigOperators.Group.Finset.Basic
import Mathlib.Algebra.Order.Group.Multiset
import Mathlib.Combinatorics.SimpleGraph.Acyclic
import Mathlib.Tactic.Abel
import RaveloxMidi.Transducer

/-!
# Relaying over a graph

A node forwards each message to all of its neighbours but the one that the message
came from. No node remembers what it has forwarded. Over a graph without cycles this
is enough: the messages that a node sees, those that have been lost before they came
to it, and those that are still on their way to it are together the messages that
have entered somewhere in its component, each as often as it has entered.
-/
namespace Relaying
open Transducer

/-- The messages that each node has still to forward, with the neighbour that each came
from, and those on the way from a node to another. -/
structure Net (V μ : Type*) where
  waiting : V → List (Option V × μ)
  flying : List (V × V × μ)

/-- Messages enter at a node, the first of a node's messages is forwarded, and one of the
messages on the way arrives or is lost. -/
inductive Move (V μ : Type*) where
  | enter (v : V) (messages : List μ)
  | forward (v : V)
  | arrive (n : ℕ)
  | lose (n : ℕ)

inductive Event (V μ : Type*) where
  | entered (v : V) (m : μ)
  | passed (v : V) (m : μ)
  | lost (v w : V) (m : μ)

section Step
variable {V μ : Type*} [DecidableEq V]

/-- What a node sends for a message. -/
def forwards (peers : V → List V) (v : V) (item : Option V × μ) : List (V × V × μ) :=
  ((peers v).filter fun w => item.1 ≠ some w).map fun w => (v, w, item.2)

def step (peers : V → List V) (s : Net V μ) : Move V μ → Net V μ × List (Event V μ)
  | .enter v messages =>
    (⟨Function.update s.waiting v (s.waiting v ++ messages.map fun m => (none, m)), s.flying⟩,
      messages.map fun m => .entered v m)
  | .forward v =>
    match s.waiting v with
    | [] => (s, [])
    | item :: rest =>
      (⟨Function.update s.waiting v rest, s.flying ++ forwards peers v item⟩, [])
  | .arrive n =>
    match s.flying[n]? with
    | none => (s, [])
    | some (v, w, m) =>
      (⟨Function.update s.waiting w (s.waiting w ++ [(some v, m)]), s.flying.eraseIdx n⟩,
        [.passed w m])
  | .lose n =>
    match s.flying[n]? with
    | none => (s, [])
    | some (v, w, m) => (⟨s.waiting, s.flying.eraseIdx n⟩, [.lost v w m])

end Step

section Beyond
variable {V : Type*} {G : SimpleGraph V}

/-- A node is reached from another one without passing through the node that is left. -/
def Beyond (G : SimpleGraph V) (left : Option V) (v x : V) : Prop :=
  ∃ p : G.Walk v x, p.IsPath ∧ ∀ u ∈ left, u ∉ p.support

theorem beyond_none {v x : V} : Beyond G none v x ↔ G.Reachable v x := by
  constructor
  · rintro ⟨p, -, -⟩
    exact p.reachable
  · intro h
    obtain ⟨p, hp⟩ := h.exists_isPath
    exact ⟨p, hp, by simp⟩

theorem beyond_self {left : Option V} {v : V} (hleft : left ≠ some v) : Beyond G left v v := by
  refine ⟨.nil, .nil, fun u hu => ?_⟩
  intro hmem
  rw [SimpleGraph.Walk.support_nil, List.mem_singleton] at hmem
  exact hleft (hmem ▸ hu)

theorem not_beyond_left {v x : V} : ¬ Beyond G (some x) v x := by
  rintro ⟨p, -, hp⟩
  exact hp x rfl p.end_mem_support

/-- What is behind a neighbour is reached through it, and lies on the same side. -/
theorem Beyond.through (hG : G.IsAcyclic) {left : Option V} (hleft : ∀ u ∈ left, G.Adj u v)
    {y x : V} (hadj : G.Adj v y) (hy : left ≠ some y) (h : Beyond G (some v) y x) :
    Beyond G left v x := by
  classical
  obtain ⟨q, hq, hv⟩ := h
  have hpath : (SimpleGraph.Walk.cons hadj q).IsPath := hq.cons (hv v rfl)
  refine ⟨_, hpath, fun u hu hmem => ?_⟩
  -- otherwise there are two paths back to the node that is left
  have hsecond := hG.eq_snd_of_adj_start hpath (hleft u hu).symm hmem
  rw [SimpleGraph.Walk.snd_cons] at hsecond
  exact hy (hsecond ▸ hu)

/-- It is reached through one neighbour only. -/
theorem Beyond.unique (hG : G.IsAcyclic) {v x y z : V} (hy : G.Adj v y) (hz : G.Adj v z)
    (h : Beyond G (some v) y x) (h' : Beyond G (some v) z x) : y = z := by
  obtain ⟨p, hp, hpv⟩ := h
  obtain ⟨q, hq, hqv⟩ := h'
  have hsame := (hG.subsingleton_path v x).elim ⟨.cons hy p, hp.cons (hpv v rfl)⟩
    ⟨.cons hz q, hq.cons (hqv v rfl)⟩
  have hsnd := congrArg (fun path : G.Path v x => path.1.snd) hsame
  simpa only [SimpleGraph.Walk.snd_cons] using hsnd

/-- All but the node itself is reached through a neighbour. -/
theorem Beyond.exists_neighbour {left : Option V} {v x : V} (hne : v ≠ x)
    (h : Beyond G left v x) : ∃ y, G.Adj v y ∧ left ≠ some y ∧ Beyond G (some v) y x := by
  obtain ⟨p, hp, hleft⟩ := h
  cases p with
  | nil => exact absurd rfl hne
  | cons hadj q =>
    obtain ⟨hq, hv⟩ := SimpleGraph.Walk.cons_isPath_iff hadj q |>.mp hp
    refine ⟨_, hadj, ?_, q, hq, ?_⟩
    · rintro rfl
      exact hleft _ rfl (List.mem_cons_of_mem _ q.start_mem_support)
    · intro u hu
      cases hu
      exact hv

end Beyond

section Ahead
variable {V μ : Type*}

/-- A message counts where a condition is met. -/
noncomputable def counted (p : Prop) (m : μ) : Multiset μ :=
  open Classical in if p then {m} else 0

theorem counted_true {p : Prop} (h : p) (m : μ) : counted p m = {m} := by
  rw [counted, if_pos h]

theorem counted_false {p : Prop} (h : ¬ p) (m : μ) : counted p m = 0 := by
  rw [counted, if_neg h]

/-- A condition that at most one of some nodes meets counts once for all of them. -/
theorem sum_counted {ys : List V} (hnodup : ys.Nodup) {q : V → Prop}
    (hunique : ∀ y ∈ ys, ∀ z ∈ ys, q y → q z → y = z) (m : μ) :
    (ys.map fun y => counted (q y) m).sum = counted (∃ y ∈ ys, q y) m := by
  induction ys with
  | nil => simp [counted]
  | cons y ys ih =>
    obtain ⟨hnew, hnodup⟩ := List.nodup_cons.mp hnodup
    rw [List.map_cons, List.sum_cons, ih hnodup fun z hz w hw =>
      hunique z (List.mem_cons_of_mem _ hz) w (List.mem_cons_of_mem _ hw)]
    by_cases hy : q y
    · have hrest : ¬ ∃ z ∈ ys, q z := by
        rintro ⟨z, hz, hqz⟩
        rw [hunique y List.mem_cons_self z (List.mem_cons_of_mem _ hz) hy hqz] at hnew
        exact hnew hz
      rw [counted_true hy, counted_false hrest, counted_true ⟨y, List.mem_cons_self, hy⟩, add_zero]
    · rw [counted_false hy, zero_add]
      congr 1
      simp [hy]

/-- What of some messages on the way is on the way to a node, be it directly or not. -/
noncomputable def ahead (G : SimpleGraph V) (x : V) (flights : List (V × V × μ)) : Multiset μ :=
  (flights.map fun flight => counted (Beyond G (some flight.1) flight.2.1 x) flight.2.2).sum

theorem ahead_nil (G : SimpleGraph V) (x : V) : ahead G x ([] : List (V × V × μ)) = 0 := rfl

theorem ahead_cons (G : SimpleGraph V) (x : V) (flight : V × V × μ) (rest : List (V × V × μ)) :
    ahead G x (flight :: rest) =
      counted (Beyond G (some flight.1) flight.2.1 x) flight.2.2 + ahead G x rest := by
  simp [ahead]

theorem ahead_append (G : SimpleGraph V) (x : V) (early late : List (V × V × μ)) :
    ahead G x (early ++ late) = ahead G x early + ahead G x late := by simp [ahead]

theorem ahead_eraseIdx (G : SimpleGraph V) (x : V) {flights : List (V × V × μ)} {n : ℕ}
    {flight : V × V × μ} (h : flights[n]? = some flight) :
    ahead G x flights = counted (Beyond G (some flight.1) flight.2.1 x) flight.2.2 +
      ahead G x (flights.eraseIdx n) := by
  induction flights generalizing n with
  | nil => cases h
  | cons first rest ih =>
    cases n with
    | zero =>
      cases h
      rw [ahead_cons, List.eraseIdx_cons_zero]
    | succ n => rw [ahead_cons, List.eraseIdx_cons_succ, ahead_cons, ih h, add_left_comm]

/-- Messages are on the way between neighbours only. -/
def Net.Sent (G : SimpleGraph V) (s : Net V μ) : Prop :=
  ∀ flight ∈ s.flying, G.Adj flight.1 flight.2.1

/-- What a node sees of an event. -/
noncomputable def Event.seen (x : V) : Event V μ → Multiset μ
  | .entered v m => counted (v = x) m
  | .passed v m => counted (v = x) m
  | .lost _ _ _ => 0

/-- What a node would have seen without a loss. -/
noncomputable def Event.missed (G : SimpleGraph V) (x : V) : Event V μ → Multiset μ
  | .lost v w m => counted (Beyond G (some v) w x) m
  | _ => 0

/-- What a node is to see in the end. -/
noncomputable def Event.owed (G : SimpleGraph V) (x : V) : Event V μ → Multiset μ
  | .entered v m => counted (G.Reachable v x) m
  | _ => 0

/-- The messages of some events. -/
def total (part : Event V μ → Multiset μ) (events : List (Event V μ)) : Multiset μ :=
  (events.map part).sum

theorem total_append (part : Event V μ → Multiset μ) (early late : List (Event V μ)) :
    total part (early ++ late) = total part early + total part late := by simp [total]

end Ahead

/-- A graph without cycles, with the neighbours of each of its nodes. -/
structure Forest {V : Type*} (G : SimpleGraph V) (peers : V → List V) : Prop where
  acyclic : G.IsAcyclic
  mem : ∀ v w, w ∈ peers v ↔ G.Adj v w
  nodup : ∀ v, (peers v).Nodup

section Account
variable {V μ : Type*} [DecidableEq V] {G : SimpleGraph V} {peers : V → List V}

/-- A message is on the way, through exactly one of the neighbours that a node hands it to, to
each other node that is reached from there. -/
theorem ahead_forwards (hG : Forest G peers) (left : Option V) {v : V}
    (hleft : ∀ u ∈ left, G.Adj u v) (x : V) (m : μ) :
    counted (v = x) m + ahead G x (forwards peers v (left, m)) = counted (Beyond G left v x) m := by
  have hsum : ahead G x (forwards peers v (left, m)) =
      counted (∃ y ∈ (peers v).filter (fun w => left ≠ some w), Beyond G (some v) y x) m := by
    rw [← sum_counted ((hG.nodup v).filter _)]
    · simp [ahead, forwards, Function.comp_def]
    · intro y hy z hz
      exact Beyond.unique hG.acyclic ((hG.mem v y).mp (List.mem_filter.mp hy).1)
        ((hG.mem v z).mp (List.mem_filter.mp hz).1)
  rw [hsum]
  by_cases hhere : v = x
  · subst hhere
    have hself : left ≠ some v := fun heq => G.loopless.irrefl v (hleft v heq)
    rw [counted_true rfl, counted_true (beyond_self hself), counted_false, add_zero]
    rintro ⟨y, -, hy⟩
    exact not_beyond_left hy
  · rw [counted_false hhere, zero_add]
    congr 1
    apply propext
    constructor
    · rintro ⟨y, hy, hbeyond⟩
      obtain ⟨hmem, hne⟩ := List.mem_filter.mp hy
      exact hbeyond.through hG.acyclic hleft ((hG.mem v y).mp hmem) (by simpa using hne)
    · intro hbeyond
      obtain ⟨y, hadj, hne, hy⟩ := hbeyond.exists_neighbour hhere
      exact ⟨y, List.mem_filter.mpr ⟨(hG.mem v y).mpr hadj, by simpa using hne⟩, hy⟩

variable [Fintype V]

/-- What has still to come to a node. -/
noncomputable def due (G : SimpleGraph V) (peers : V → List V) (x : V) (s : Net V μ) : Multiset μ :=
  ∑ v, ahead G x ((s.waiting v).flatMap (forwards peers v)) + ahead G x s.flying

theorem due_eq (G : SimpleGraph V) (peers : V → List V) (x v : V) (s : Net V μ) :
    due G peers x s =
      ahead G x ((s.waiting v).flatMap (forwards peers v)) +
        ∑ w ∈ Finset.univ.erase v, ahead G x ((s.waiting w).flatMap (forwards peers w)) +
        ahead G x s.flying := by
  exact congrArg (· + ahead G x s.flying) (Finset.add_sum_erase Finset.univ
    (fun w => ahead G x ((s.waiting w).flatMap (forwards peers w))) (Finset.mem_univ v)).symm

theorem due_update (G : SimpleGraph V) (peers : V → List V) (x v : V) (s : Net V μ)
    (items : List (Option V × μ)) (flying : List (V × V × μ)) :
    ahead G x ((s.waiting v).flatMap (forwards peers v)) + ahead G x s.flying +
        due G peers x ⟨Function.update s.waiting v items, flying⟩ =
      ahead G x (items.flatMap (forwards peers v)) + ahead G x flying + due G peers x s := by
  have hothers : ∑ w ∈ Finset.univ.erase v,
      ahead G x ((Function.update s.waiting v items w).flatMap (forwards peers w)) =
        ∑ w ∈ Finset.univ.erase v, ahead G x ((s.waiting w).flatMap (forwards peers w)) :=
    Finset.sum_congr rfl fun w hw => by rw [Function.update_of_ne (Finset.ne_of_mem_erase hw)]
  rw [due_eq G peers x v s, due_eq G peers x v]
  dsimp only
  rw [Function.update_self, hothers]
  abel

/-- A step keeps the account: what is seen, missed or still to come is what was to come or
has entered. -/
def Net.Keeps (G : SimpleGraph V) (peers : V → List V) (s : Net V μ) (move : Move V μ) : Prop :=
  (step peers s move).1.Sent G ∧ ∀ x,
    total (Event.seen x) (step peers s move).2 + total (Event.missed G x) (step peers s move).2 +
      due G peers x (step peers s move).1 =
    total (Event.owed G x) (step peers s move).2 + due G peers x s

omit [Fintype V] in
theorem entered_total (hG : Forest G peers) (x v : V) (messages : List μ) :
    total (Event.seen x) (messages.map fun m => .entered v m) +
        ahead G x ((messages.map fun m => (none, m)).flatMap (forwards peers v)) =
      total (Event.owed G x) (messages.map fun m => .entered v m) := by
  induction messages with
  | nil => rfl
  | cons m messages ih =>
    have hm := ahead_forwards hG none (show ∀ u ∈ none, G.Adj u v by simp) x m
    rw [beyond_none] at hm
    simp only [List.map_cons, List.flatMap_cons, ahead_append, total, List.sum_cons, Event.seen,
      Event.owed] at ih ⊢
    rw [← hm, ← ih]
    abel

theorem enter_keeps (hG : Forest G peers) {s : Net V μ} (hs : s.Sent G) (v : V)
    (messages : List μ) : s.Keeps G peers (.enter v messages) := by
  refine ⟨hs, fun x => ?_⟩
  have hmissed : total (Event.missed G x) (messages.map fun m => .entered v m) = 0 := by
    simp [total, Event.missed, Function.comp_def]
  have hdue := due_update G peers x v s
    (s.waiting v ++ messages.map fun m => (none, m)) s.flying
  rw [List.flatMap_append, ahead_append] at hdue
  simp only [step]
  rw [hmissed, add_zero, ← entered_total hG]
  refine add_left_cancel (a := ahead G x ((s.waiting v).flatMap (forwards peers v)) +
    ahead G x s.flying) ?_
  rw [add_left_comm, hdue]
  abel

theorem forward_keeps (hG : Forest G peers) {s : Net V μ} (hs : s.Sent G) (v : V) :
    s.Keeps G peers (.forward v) := by
  rw [Net.Keeps, step]
  cases hwaiting : s.waiting v with
  | nil => exact ⟨hs, fun x => by simp [total]⟩
  | cons item rest =>
    refine ⟨fun flight hflight => ?_, fun x => ?_⟩
    · rcases List.mem_append.mp hflight with hold | hnew
      · exact hs flight hold
      · obtain ⟨w, hw, rfl⟩ := List.mem_map.mp hnew
        exact (hG.mem v w).mp (List.mem_filter.mp hw).1
    · have hdue := due_update G peers x v s rest
        (s.flying ++ forwards peers v item)
      rw [hwaiting, List.flatMap_cons, ahead_append, ahead_append] at hdue
      refine add_left_cancel (a := ahead G x (forwards peers v item) +
        ahead G x (rest.flatMap (forwards peers v)) + ahead G x s.flying) ?_
      dsimp only
      rw [add_left_comm, hdue]
      simp only [total, List.map_nil, List.sum_nil]
      abel

theorem arrive_keeps (hG : Forest G peers) {s : Net V μ} (hs : s.Sent G) (n : ℕ) :
    s.Keeps G peers (.arrive n) := by
  rw [Net.Keeps, step]
  cases hflight : s.flying[n]? with
  | none => exact ⟨hs, fun x => by simp [total]⟩
  | some flight =>
    obtain ⟨u, w, m⟩ := flight
    refine ⟨fun other hother => hs other (List.mem_of_mem_eraseIdx hother), fun x => ?_⟩
    have hadj : G.Adj u w := hs _ (List.mem_of_getElem? hflight)
    have hdue := due_update G peers x w s (s.waiting w ++ [(some u, m)])
      (s.flying.eraseIdx n)
    have hforwards := ahead_forwards hG (some u)
      (fun other hother => Option.mem_some_iff.mp hother ▸ hadj) x m
    rw [ahead_eraseIdx G x hflight, ← hforwards, List.flatMap_append, List.flatMap_singleton,
      ahead_append] at hdue
    refine add_left_cancel (a := ahead G x ((s.waiting w).flatMap (forwards peers w)) +
      ahead G x (forwards peers w (some u, m)) + ahead G x (s.flying.eraseIdx n)) ?_
    simp only [total, List.map_cons, List.map_nil, List.sum_cons, List.sum_nil, Event.seen,
      Event.missed, Event.owed, add_zero, zero_add]
    rw [← hdue]
    abel

theorem lose_keeps {s : Net V μ} (hs : s.Sent G) (n : ℕ) : s.Keeps G peers (.lose n) := by
  rw [Net.Keeps, step]
  cases hflight : s.flying[n]? with
  | none => exact ⟨hs, fun x => by simp [total]⟩
  | some flight =>
    obtain ⟨u, w, m⟩ := flight
    refine ⟨fun other hother => hs other (List.mem_of_mem_eraseIdx hother), fun x => ?_⟩
    simp only [total, List.map_cons, List.map_nil, List.sum_cons, List.sum_nil, Event.seen,
      Event.missed, Event.owed, due, add_zero, zero_add]
    rw [ahead_eraseIdx G x hflight, add_left_comm]

theorem step_keeps (hG : Forest G peers) {s : Net V μ} (hs : s.Sent G) (move : Move V μ) :
    s.Keeps G peers move := by
  cases move with
  | enter v messages => exact enter_keeps hG hs v messages
  | forward v => exact forward_keeps hG hs v
  | arrive n => exact arrive_keeps hG hs n
  | lose n => exact lose_keeps hs n

/-- The account of a run: by induction on the moves. -/
theorem feed_account (hG : Forest G peers) {s : Net V μ} (hs : s.Sent G)
    (moves : List (Move V μ)) (x : V) :
    total (Event.seen x) (feed (step peers) s moves).2 +
        total (Event.missed G x) (feed (step peers) s moves).2 +
        due G peers x (feed (step peers) s moves).1 =
      total (Event.owed G x) (feed (step peers) s moves).2 + due G peers x s := by
  induction moves generalizing s with
  | nil => simp [total]
  | cons move moves ih =>
    obtain ⟨hnext, hnow⟩ := step_keeps hG hs move
    have hlater := ih hnext
    simp only [feed_cons, total_append]
    refine add_right_cancel (b := due G peers x (step peers s move).1) ?_
    rw [show ∀ a b c d e f : Multiset μ, a + b + (c + d) + e + f = (a + c + f) + (b + d + e) by
      intros; abel, hnow x, hlater]
    abel

/-- Nothing waits anywhere, and nothing is on the way. -/
def Net.Idle (s : Net V μ) : Prop := (∀ v, s.waiting v = []) ∧ s.flying = []

theorem due_idle {s : Net V μ} (hs : s.Idle) (x : V) : due G peers x s = 0 := by
  simp [due, hs.1, hs.2, ahead_nil]

/-- From an idle net on, no node sees a message more often than it has entered in the
component of the node; and once the net is idle again, only what has been lost is missing. -/
theorem feed_relays (hG : Forest G peers) {s : Net V μ} (hs : s.Idle) (moves : List (Move V μ))
    (x : V) :
    total (Event.seen x) (feed (step peers) s moves).2 +
        total (Event.missed G x) (feed (step peers) s moves).2 ≤
      total (Event.owed G x) (feed (step peers) s moves).2 ∧
    ((feed (step peers) s moves).1.Idle →
      total (Event.seen x) (feed (step peers) s moves).2 +
          total (Event.missed G x) (feed (step peers) s moves).2 =
        total (Event.owed G x) (feed (step peers) s moves).2) := by
  have hsent : s.Sent G := by simp [Net.Sent, hs.2]
  have haccount := feed_account hG hsent moves x
  rw [due_idle hs, add_zero] at haccount
  refine ⟨haccount ▸ Multiset.le_add_right _ _, fun hidle => ?_⟩
  rw [due_idle hidle, add_zero] at haccount
  exact haccount

end Account

end Relaying
