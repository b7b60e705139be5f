import Mathlib.Data.List.Basic
import Mathlib.Order.Bounds.Basic

/-!
# Step machines that read letters and emit lists

A step reads one letter in a state, may fault, and otherwise gives the next
state together with the outputs it emits, in order. A run reads a word and
concatenates the outputs. Nothing here depends on what the letters are: a
letter may be an octet, a call of an interface, or a message.

Two kinds of facts are packaged once: an invariant kept by every step whose
letter meets a condition is kept by every run whose steps all meet it, and two
machines that agree step by step agree on whole words.
-/
namespace Transducer

/-- Total machines: one step gives the next state and the emitted list. -/
def feed {σ α β : Type*} (step : σ → α → σ × List β) : σ → List α → σ × List β
  | s, [] => (s, [])
  | s, a :: as =>
    let now := step s a
    let later := feed step now.1 as
    (later.1, now.2 ++ later.2)

@[simp] theorem feed_nil {σ α β : Type*} (step : σ → α → σ × List β) (s : σ) :
    feed step s [] = (s, []) := rfl

theorem feed_cons {σ α β : Type*} (step : σ → α → σ × List β) (s : σ) (a : α) (as : List α) :
    feed step s (a :: as) =
      ((feed step (step s a).1 as).1, (step s a).2 ++ (feed step (step s a).1 as).2) := rfl

theorem feed_append {σ α β : Type*} (step : σ → α → σ × List β) (s : σ) (as bs : List α) :
    feed step s (as ++ bs) =
      ((feed step (feed step s as).1 bs).1,
        (feed step s as).2 ++ (feed step (feed step s as).1 bs).2) := by
  induction as generalizing s with
  | nil => simp
  | cons a as ih => simp only [List.cons_append, feed_cons, ih, List.append_assoc]

/-- A single letter is one step. -/
theorem feed_singleton {σ α β : Type*} (step : σ → α → σ × List β) (s : σ) (a : α) :
    feed step s [a] = step s a := by simp [feed_cons]

/-- An invariant of single steps holds along a word, and so does what each step
promises about its outputs. -/
theorem feed_invariant {σ α β : Type*} {step : σ → α → σ × List β} {Inv : σ → Prop}
    {Good : β → Prop}
    (hstep : ∀ s a, Inv s → Inv (step s a).1 ∧ ∀ b ∈ (step s a).2, Good b)
    {s : σ} (hs : Inv s) (as : List α) :
    Inv (feed step s as).1 ∧ ∀ b ∈ (feed step s as).2, Good b := by
  induction as generalizing s with
  | nil => simpa using hs
  | cons a as ih =>
    obtain ⟨hnext, hnow⟩ := hstep s a hs
    obtain ⟨hlast, hlater⟩ := ih hnext
    refine ⟨hlast, ?_⟩
    intro b hb
    rw [feed_cons, List.mem_append] at hb
    exact hb.elim (hnow b) (hlater b)

/-- Two machines in related states emit the same, if each step does and relates the next
states. -/
theorem feed_simulates {σ τ α β : Type*} {step : σ → α → σ × List β} {step' : τ → α → τ × List β}
    {R : σ → τ → Prop}
    (hstep : ∀ s t a, R s t → (step s a).2 = (step' t a).2 ∧ R (step s a).1 (step' t a).1)
    {s : σ} {t : τ} (h : R s t) (as : List α) :
    (feed step s as).2 = (feed step' t as).2 ∧ R (feed step s as).1 (feed step' t as).1 := by
  induction as generalizing s t with
  | nil => exact ⟨rfl, h⟩
  | cons a as ih =>
    obtain ⟨hnow, hnext⟩ := hstep s t a h
    obtain ⟨hlater, hlast⟩ := ih hnext
    refine ⟨?_, hlast⟩
    rw [feed_cons, feed_cons, hnow, hlater]

/-- A machine that emits at most one output for a letter. -/
theorem feed_length_le {σ α β : Type*} {step : σ → α → σ × List β}
    (hstep : ∀ s a, (step s a).2.length ≤ 1) (s : σ) (as : List α) :
    (feed step s as).2.length ≤ as.length := by
  induction as generalizing s with
  | nil => exact le_refl _
  | cons a as ih =>
    have hnow := hstep s a
    have hlater := ih (step s a).1
    rw [feed_cons, List.length_append, List.length_cons]
    omega

/-- Machines that may fault: the run stops at the first fault. -/
def run {ε σ α β : Type*} (step : σ → α → Except ε (σ × List β)) :
    σ → List α → Except ε (σ × List β)
  | s, [] => .ok (s, [])
  | s, a :: as =>
    match step s a with
    | .error e => .error e
    | .ok (t, now) =>
      match run step t as with
      | .error e => .error e
      | .ok (u, later) => .ok (u, now ++ later)

@[simp] theorem run_nil {ε σ α β : Type*} (step : σ → α → Except ε (σ × List β)) (s : σ) :
    run step s [] = .ok (s, []) := rfl

theorem run_cons_ok {ε σ α β : Type*} {step : σ → α → Except ε (σ × List β)} {s t u : σ}
    {a : α} {as : List α} {now later : List β} (hnow : step s a = .ok (t, now))
    (hlater : run step t as = .ok (u, later)) :
    run step s (a :: as) = .ok (u, now ++ later) := by
  simp only [run, hnow, hlater]

theorem run_cons_inv {ε σ α β : Type*} {step : σ → α → Except ε (σ × List β)} {s u : σ}
    {a : α} {as : List α} {out : List β} (h : run step s (a :: as) = .ok (u, out)) :
    ∃ t now later, step s a = .ok (t, now) ∧ run step t as = .ok (u, later) ∧
      out = now ++ later := by
  simp only [run] at h
  split at h
  · cases h
  · rename_i t now hnow
    split at h
    · cases h
    · rename_i v later hlater
      simp only [Except.ok.injEq, Prod.mk.injEq] at h
      obtain ⟨rfl, rfl⟩ := h
      exact ⟨t, now, later, hnow, hlater, rfl⟩

/-- A run goes on where another one has ended. -/
theorem run_append_ok {ε σ α β : Type*} {step : σ → α → Except ε (σ × List β)} {s t u : σ}
    {as bs : List α} {now later : List β} (hnow : run step s as = .ok (t, now))
    (hlater : run step t bs = .ok (u, later)) : run step s (as ++ bs) = .ok (u, now ++ later) := by
  induction as generalizing s now with
  | nil =>
    cases hnow
    exact hlater
  | cons a as ih =>
    obtain ⟨r, first, rest, hfirst, hrest, rfl⟩ := run_cons_inv hnow
    rw [List.append_assoc]
    exact run_cons_ok hfirst (ih hrest)

/-- Every step of the run reads its letter in a state that meets the condition. -/
def Along {ε σ α β : Type*} (step : σ → α → Except ε (σ × List β)) (Cond : σ → α → Prop) :
    σ → List α → Prop
  | _, [] => True
  | s, a :: as => Cond s a ∧ ∀ t now, step s a = .ok (t, now) → Along step Cond t as

instance alongDecidable {ε σ α β : Type*} {step : σ → α → Except ε (σ × List β)}
    {Cond : σ → α → Prop} [∀ s a, Decidable (Cond s a)] :
    ∀ (s : σ) (as : List α), Decidable (Along step Cond s as)
  | _, [] => .isTrue trivial
  | s, a :: as =>
    match hstep : step s a with
    | .error e => decidable_of_iff (Cond s a)
        ⟨fun hcond => ⟨hcond, fun _ _ hnow => nomatch hstep.symm.trans hnow⟩, And.left⟩
    | .ok (t, now) =>
      haveI : Decidable (Along step Cond t as) := alongDecidable t as
      decidable_of_iff (Cond s a ∧ Along step Cond t as)
        ⟨fun h => ⟨h.1, fun t' now' hnow => by cases hstep.symm.trans hnow; exact h.2⟩,
          fun h => ⟨h.1, h.2 t now hstep⟩⟩

/-- A condition that the letters meet in every state. -/
theorem along_of_forall {ε σ α β : Type*} {step : σ → α → Except ε (σ × List β)}
    {Cond : σ → α → Prop} {as : List α} (h : ∀ a ∈ as, ∀ s, Cond s a) (s : σ) :
    Along step Cond s as := by
  induction as generalizing s with
  | nil => trivial
  | cons a as ih =>
    obtain ⟨hfirst, hrest⟩ := List.forall_mem_cons.mp h
    exact ⟨hfirst s, fun t _ _ => ih hrest t⟩

theorem along_append {ε σ α β : Type*} {step : σ → α → Except ε (σ × List β)}
    {Cond : σ → α → Prop} {s : σ} {as bs : List α} (hfirst : Along step Cond s as)
    (hrest : ∀ t out, run step s as = .ok (t, out) → Along step Cond t bs) :
    Along step Cond s (as ++ bs) := by
  induction as generalizing s with
  | nil => exact hrest s [] rfl
  | cons a as ih =>
    exact ⟨hfirst.1, fun t now hnow => ih (hfirst.2 t now hnow) fun u out hrun =>
      hrest u (now ++ out) (run_cons_ok hnow hrun)⟩

/-- A condition on the letters alone can be added to one on the states. -/
theorem along_and {ε σ α β : Type*} {step : σ → α → Except ε (σ × List β)} {Fits : α → Prop}
    {Cond : σ → α → Prop} {s : σ} {as : List α} (hfits : ∀ a ∈ as, Fits a)
    (hcond : Along step Cond s as) : Along step (fun s a => Fits a ∧ Cond s a) s as := by
  induction as generalizing s with
  | nil => trivial
  | cons a as ih =>
    obtain ⟨hfirst, hrest⟩ := List.forall_mem_cons.mp hfits
    exact ⟨⟨hfirst, hcond.1⟩, fun t now hnow => ih hrest (hcond.2 t now hnow)⟩

theorem along_mono {ε σ α β : Type*} {step : σ → α → Except ε (σ × List β)}
    {Cond Cond' : σ → α → Prop} (hcond : ∀ s a, Cond s a → Cond' s a) {s : σ} {as : List α}
    (h : Along step Cond s as) : Along step Cond' s as := by
  induction as generalizing s with
  | nil => trivial
  | cons a as ih => exact ⟨hcond s a h.1, fun t now hnow => ih (h.2 t now hnow)⟩

/-- The run rule: if a step from a good state under the condition cannot fault,
keeps the invariant and emits only good outputs, then so does a whole run all
of whose steps meet the condition. -/
theorem run_invariant {ε σ α β : Type*} {step : σ → α → Except ε (σ × List β)}
    {Cond : σ → α → Prop} {Inv : σ → Prop} {Good : β → Prop}
    (hstep : ∀ s a, Inv s → Cond s a →
      ∃ t now, step s a = .ok (t, now) ∧ Inv t ∧ ∀ b ∈ now, Good b)
    {s : σ} (hs : Inv s) (as : List α) (hcond : Along step Cond s as) :
    ∃ t out, run step s as = .ok (t, out) ∧ Inv t ∧ ∀ b ∈ out, Good b := by
  induction as generalizing s with
  | nil => exact ⟨s, [], rfl, hs, by simp⟩
  | cons a as ih =>
    obtain ⟨t, now, hnow, ht, hgood⟩ := hstep s a hs hcond.1
    obtain ⟨u, later, hlater, hu, hrest⟩ := ih ht (hcond.2 t now hnow)
    refine ⟨u, now ++ later, run_cons_ok hnow hlater, hu, ?_⟩
    intro b hb
    exact (List.mem_append.mp hb).elim (hgood b) (hrest b)

/-- The run rule for machines that are known not to have faulted. -/
theorem run_preserves {ε σ α β : Type*} {step : σ → α → Except ε (σ × List β)}
    {Cond : σ → α → Prop} {Inv : σ → Prop} {Good : β → Prop}
    (hstep : ∀ s a t now, Inv s → Cond s a → step s a = .ok (t, now) →
      Inv t ∧ ∀ b ∈ now, Good b)
    {s u : σ} (hs : Inv s) {as : List α} (hcond : Along step Cond s as) {out : List β}
    (hrun : run step s as = .ok (u, out)) : Inv u ∧ ∀ b ∈ out, Good b := by
  induction as generalizing s out with
  | nil =>
    cases hrun
    exact ⟨hs, by simp⟩
  | cons a as ih =>
    obtain ⟨t, now, later, hnow, hlater, rfl⟩ := run_cons_inv hrun
    obtain ⟨ht, hgood⟩ := hstep s a t now hs hcond.1 hnow
    obtain ⟨hu, hrest⟩ := ih ht (hcond.2 t now hnow) hlater
    refine ⟨hu, ?_⟩
    intro b hb
    exact (List.mem_append.mp hb).elim (hgood b) (hrest b)

/-- The run rule for what flows through a machine: if every step hands on first what is held
and then what enters, or holds it, so does a run. -/
theorem run_flow {ε σ α β γ : Type*} {step : σ → α → Except ε (σ × List β)}
    {Cond : σ → α → Prop} {Holds : σ → List γ → Prop} {enter leave : β → Option γ}
    (hstep : ∀ s a t now held, Holds s held → Cond s a → step s a = .ok (t, now) →
      ∃ held', Holds t held' ∧ held ++ now.filterMap enter = now.filterMap leave ++ held')
    {s u : σ} {held : List γ} (hs : Holds s held) {as : List α} (hcond : Along step Cond s as)
    {out : List β} (hrun : run step s as = .ok (u, out)) :
    ∃ held', Holds u held' ∧ held ++ out.filterMap enter = out.filterMap leave ++ held' := by
  induction as generalizing s held out with
  | nil =>
    cases hrun
    exact ⟨held, hs, by simp⟩
  | cons a as ih =>
    obtain ⟨t, now, later, hnow, hlater, rfl⟩ := run_cons_inv hrun
    obtain ⟨held', ht, hfirst⟩ := hstep s a t now held hs hcond.1 hnow
    obtain ⟨held'', hu, hrest⟩ := ih ht (hcond.2 t now hnow) hlater
    refine ⟨held'', hu, ?_⟩
    rw [List.filterMap_append, List.filterMap_append, ← List.append_assoc, hfirst,
      List.append_assoc, hrest, List.append_assoc]

/-- The run rule for steps that go on unless their letter is a bad one. -/
theorem run_goes {ε σ α β : Type*} {step : σ → α → Except ε (σ × List β)} {Inv : σ → Prop}
    {Bad : α → Prop}
    (hgood : ∀ s a, Inv s → ¬ Bad a → ∃ t now, step s a = .ok (t, now) ∧ Inv t)
    {s : σ} (hs : Inv s) {as : List α} (h : ∀ a ∈ as, ¬ Bad a) :
    ∃ t out, run step s as = .ok (t, out) ∧ Inv t := by
  have hstep : ∀ s a, Inv s → ¬ Bad a →
      ∃ t now, step s a = .ok (t, now) ∧ Inv t ∧ ∀ b ∈ now, True := by
    intro s a hs ha
    obtain ⟨t, now, hnow, ht⟩ := hgood s a hs ha
    exact ⟨t, now, hnow, ht, fun _ _ => trivial⟩
  obtain ⟨t, out, hrun, ht, -⟩ :=
    run_invariant hstep hs as (along_of_forall (fun a ha _ => h a ha) s)
  exact ⟨t, out, hrun, ht⟩

/-- A run that comes to a bad letter, on which every good state fails, has failed there. -/
theorem run_stops {ε σ α β : Type*} {step : σ → α → Except ε (σ × List β)} {Inv : σ → Prop}
    {Bad : α → Prop} {e : ε}
    (hgood : ∀ s a, Inv s → ¬ Bad a → ∃ t now, step s a = .ok (t, now) ∧ Inv t)
    (hbad : ∀ s a, Inv s → Bad a → step s a = .error e) {s : σ} (hs : Inv s) {as : List α}
    (h : ∃ a ∈ as, Bad a) : run step s as = .error e := by
  induction as generalizing s with
  | nil => simp at h
  | cons a as ih =>
    by_cases hfirst : Bad a
    · simp only [run, hbad s a hs hfirst]
    · obtain ⟨b, hb, hbadb⟩ := h
      obtain ⟨t, now, hnow, ht⟩ := hgood s a hs hfirst
      have hlater : ∃ a ∈ as, Bad a := by
        refine ⟨b, (List.mem_cons.mp hb).resolve_left ?_, hbadb⟩
        rintro rfl
        exact hfirst hbadb
      simp only [run, hnow, ih ht hlater]

/-- The states that the run over a word passes through, the first and the last included. -/
def Reaches {ε σ α β : Type*} (step : σ → α → Except ε (σ × List β)) (s : σ) (as : List α)
    (t : σ) : Prop :=
  ∃ before out, before <+: as ∧ run step s before = .ok (t, out)

section Reaches
variable {ε σ α β : Type*} {step : σ → α → Except ε (σ × List β)} {s t : σ} {a : α} {as : List α}

theorem reaches_start (step : σ → α → Except ε (σ × List β)) (s : σ) (as : List α) :
    Reaches step s as s :=
  ⟨[], [], List.nil_prefix, rfl⟩

theorem reaches_nil : Reaches step s [] t ↔ t = s := by
  constructor
  · rintro ⟨before, out, hbefore, hrun⟩
    rw [List.prefix_nil] at hbefore
    subst hbefore
    cases hrun
    rfl
  · rintro rfl
    exact reaches_start step t []

theorem reaches_cons : Reaches step s (a :: as) t ↔
    t = s ∨ ∃ u now, step s a = .ok (u, now) ∧ Reaches step u as t := by
  constructor
  · rintro ⟨before, out, hbefore, hrun⟩
    cases before with
    | nil =>
      cases hrun
      exact .inl rfl
    | cons b before =>
      obtain ⟨rfl, hrest⟩ := List.cons_prefix_cons.mp hbefore
      obtain ⟨u, now, later, hnow, hlater, -⟩ := run_cons_inv hrun
      exact .inr ⟨u, now, hnow, before, later, hrest, hlater⟩
  · rintro (rfl | ⟨u, now, hnow, before, later, hbefore, hlater⟩)
    · exact reaches_start step t _
    · exact ⟨a :: before, now ++ later, List.cons_prefix_cons.mpr ⟨rfl, hbefore⟩,
        run_cons_ok hnow hlater⟩

/-- If a step from a safe state leads to a safe state exactly under a condition, a run
passes through safe states only exactly if all of its steps meet the condition. -/
theorem safe_iff {Inv Safe : σ → Prop} {Fits : α → Prop} {Cond : σ → α → Prop}
    (hinv : ∀ s a t now, Inv s → Fits a → step s a = .ok (t, now) → Inv t)
    (hsafe : ∀ s a, Inv s → Safe s → Fits a →
      ((∀ t now, step s a = .ok (t, now) → Safe t) ↔ Cond s a))
    (hs : Inv s) (hstart : Safe s) (hfits : ∀ a ∈ as, Fits a) :
    (∀ t, Reaches step s as t → Safe t) ↔ Along step Cond s as := by
  induction as generalizing s with
  | nil =>
    refine iff_of_true (fun t ht => ?_) trivial
    rw [reaches_nil.mp ht]
    exact hstart
  | cons a as ih =>
    obtain ⟨hfirst, hrest⟩ := List.forall_mem_cons.mp hfits
    have hnext := hsafe s a hs hstart hfirst
    constructor
    · intro h
      have hsafeNext : ∀ t now, step s a = .ok (t, now) → Safe t := fun t now hnow =>
        h t (reaches_cons.mpr (.inr ⟨t, now, hnow, reaches_start step t as⟩))
      refine ⟨hnext.mp hsafeNext, fun t now hnow => ?_⟩
      rw [← ih (hinv s a t now hs hfirst hnow) (hsafeNext t now hnow) hrest]
      exact fun u hu => h u (reaches_cons.mpr (.inr ⟨t, now, hnow, hu⟩))
    · rintro ⟨hcond, hlater⟩ u hu
      obtain rfl | ⟨t, now, hnow, hu⟩ := reaches_cons.mp hu
      · exact hstart
      · have hsafeNext := hnext.mpr hcond t now hnow
        exact (ih (hinv s a t now hs hfirst hnow) hsafeNext hrest).mpr (hlater t now hnow) u hu

/-- A size that every step leaves as it is or raises to the level reached is the highest
level so far. -/
theorem size_isGreatest {size level : σ → ℕ} {Inv : σ → Prop} {Fits : α → Prop}
    (hstep : ∀ s a t now, Inv s → Fits a → step s a = .ok (t, now) →
      Inv t ∧ size t = max (size s) (level t))
    (hs : Inv s) (hlevel : level s ≤ size s) (hfits : ∀ a ∈ as, Fits a) {u : σ} {out : List β}
    (hrun : run step s as = .ok (u, out)) :
    IsGreatest (insert (size s) {n | ∃ t, Reaches step s as t ∧ level t = n}) (size u) := by
  induction as generalizing s out with
  | nil =>
    cases hrun
    refine ⟨.inl rfl, ?_⟩
    rintro n (rfl | ⟨t, ht, rfl⟩)
    · exact le_refl _
    · rw [reaches_nil.mp ht]
      exact hlevel
  | cons a as ih =>
    obtain ⟨hfirst, hrest⟩ := List.forall_mem_cons.mp hfits
    obtain ⟨t, now, later, hnow, hlater, -⟩ := run_cons_inv hrun
    obtain ⟨ht, hsize⟩ := hstep s a t now hs hfirst hnow
    obtain ⟨hmem, hupper⟩ := ih ht (hsize ▸ le_max_right _ _) hrest hlater
    have hle : size t ≤ size u := hupper (.inl rfl)
    constructor
    · rcases hmem with heq | ⟨v, hv, heq⟩
      · rcases le_total (level t) (size s) with hle' | hle'
        · exact .inl (by rw [heq, hsize, max_eq_left hle'])
        · refine .inr ⟨t, reaches_cons.mpr (.inr ⟨t, now, hnow, reaches_start step t as⟩), ?_⟩
          rw [heq, hsize, max_eq_right hle']
      · exact .inr ⟨v, reaches_cons.mpr (.inr ⟨t, now, hnow, hv⟩), heq⟩
    · have hbefore : size s ≤ size t := hsize ▸ le_max_left _ _
      rintro n (rfl | ⟨v, hv, rfl⟩)
      · exact le_trans hbefore hle
      · obtain rfl | ⟨w, now', hnow', hv⟩ := reaches_cons.mp hv
        · exact le_trans hlevel (le_trans hbefore hle)
        · cases hnow.symm.trans hnow'
          exact hupper (.inr ⟨v, hv, rfl⟩)

end Reaches

/-- Every letter of the word meets a condition on the state of a total machine. -/
def FeedAlong {σ α β : Type*} (step : σ → α → σ × List β) (Cond : σ → α → Prop) :
    σ → List α → Prop
  | _, [] => True
  | s, a :: as => Cond s a ∧ FeedAlong step Cond (step s a).1 as

theorem feedAlong_true {σ α β : Type*} (step : σ → α → σ × List β) (s : σ) (as : List α) :
    FeedAlong step (fun _ _ => True) s as := by
  induction as generalizing s with
  | nil => trivial
  | cons a as ih => exact ⟨trivial, ih _⟩

/-- The simulation rule under a condition: a machine that follows a total one step
by step wherever the condition is met never faults on a word that meets it. -/
theorem run_simulates_along {ε σ τ α β : Type*} {step : σ → α → Except ε (σ × List β)}
    {model : τ → α → τ × List β} {R : σ → τ → Prop} {Cond : τ → α → Prop}
    (hstep : ∀ s p a, R s p → Cond p a → ∃ t, step s a = .ok (t, (model p a).2) ∧ R t (model p a).1)
    {s : σ} {p : τ} (h : R s p) (as : List α) (hcond : FeedAlong model Cond p as) :
    ∃ t, run step s as = .ok (t, (feed model p as).2) ∧ R t (feed model p as).1 := by
  induction as generalizing s p with
  | nil => exact ⟨s, rfl, h⟩
  | cons a as ih =>
    obtain ⟨t, hnow, ht⟩ := hstep s p a h hcond.1
    obtain ⟨u, hlater, hu⟩ := ih ht hcond.2
    exact ⟨u, run_cons_ok hnow hlater, hu⟩

/-- The simulation rule: a machine that follows a total one step by step, under
a relation of their states, never faults and emits the same list. -/
theorem run_simulates {ε σ τ α β : Type*} {step : σ → α → Except ε (σ × List β)}
    {model : τ → α → τ × List β} {R : σ → τ → Prop}
    (hstep : ∀ s p a, R s p → ∃ t, step s a = .ok (t, (model p a).2) ∧ R t (model p a).1)
    {s : σ} {p : τ} (h : R s p) (as : List α) :
    ∃ t, run step s as = .ok (t, (feed model p as).2) ∧ R t (feed model p as).1 :=
  run_simulates_along (fun s p a hR _ => hstep s p a hR) h as (feedAlong_true model p as)

end Transducer
