import RaveloxMidi.ContextReader

/-!
# Every context is destroyed once

The thread of the queue releases the context of each command that it takes, and
destroys it if that was the last reference. So the count is kept by every step of
either side; what has begun can always be brought to its end, and every context
has been destroyed once by then.
-/
namespace RaveloxMidi
open LinkedHeap Transducer

section Sender
variable {limit : ℕ} {s : ContextSystem} {f f' : Fifo (Option MidiCommand × Option ℕ)}
  {a : ContextAction} {contexts : Heap DataContext} {sender : ReleasePoint}
  {now : List ContextEvent} {busy : Prop}

/-- A step that the readers take no part in. -/
theorem ContextSystem.Counted.sender_step (h : s.Counted limit f)
    {queue : QueueSystem MidiCommand ℕ}
    (hstep : contextStep s a = .ok (⟨queue, contexts, s.readers, sender⟩, now))
    (hshows : ∃ nodes, queue.Shows f' nodes) (hawake : f'.Awake)
    (hpaired : ∀ pair ∈ f'.held, ∃ command, pair.1 = some command) (hadding : f'.adding = f.adding)
    (hfresh : contexts.fresh = s.contexts.fresh)
    (hidle : queue.handler.inHand = none → sender = .entered)
    (hcell : ∀ c, CellSound (contexts.block c) ((s.reader c).held + ((s.reader c).carried +
      (queuedWith f'.queued c + handed queue.handler.inHand c sender)))
      ((s.reader c).owned + sender.owned c))
    (htaken : ∀ c, queuedWith f'.queued c + handed queue.handler.inHand c sender ≤
      s.taken f.queued c)
    (hgone : ∀ c, gone s.contexts c + now.count (.destroyed c) = gone contexts c)
    (hless : busy → 7 * f'.queued.length + handling f'.server sender <
      7 * f.queued.length + handling f.server s.sender) : Counts limit s f a busy := by
  refine ⟨_, now, f', hstep, ?_, hgone, hfresh.ge, ?_⟩
  · exact {
      shows := hshows
      awake := hawake
      paired := hpaired
      size := by rw [hfresh, h.size]
      own := h.own
      matched := by
        rw [hadding]
        exact h.matched
      idle := hidle
      cell := by
        intro c
        rw [references_eq]
        exact hcell c
      room := by
        intro c
        have hroom := h.room c
        have htaken := htaken c
        rw [outstanding_eq] at hroom ⊢
        simp only [ContextSystem.taken, ContextSystem.reader] at hroom htaken ⊢
        omega }
  · intro hbusy
    have hless := hless hbusy
    simp only [ContextSystem.toGo]
    omega

/-- A step of the queue that leaves the references where they are. -/
theorem ContextSystem.Counted.queue_step (h : s.Counted limit f)
    {queue : QueueSystem MidiCommand ℕ}
    (hstep : contextStep s a = .ok (⟨queue, s.contexts, s.readers, sender⟩, now))
    (hshows : ∃ nodes, queue.Shows f' nodes) (hawake : f'.Awake)
    (hheld : ∀ pair ∈ f'.held, pair ∈ f.held) (hadding : f'.adding = f.adding)
    (hidle : queue.handler.inHand = none → sender = .entered)
    (htaken : ∀ c, queuedWith f'.queued c + handed queue.handler.inHand c sender =
      s.taken f.queued c)
    (howned : ∀ c, sender.owned c = s.sender.owned c)
    (hnow : ∀ c, now.count (.destroyed c) = 0)
    (hless : busy → 7 * f'.queued.length + handling f'.server sender <
      7 * f.queued.length + handling f.server s.sender) : Counts limit s f a busy := by
  refine h.sender_step hstep hshows hawake (fun pair hpair => h.paired pair (hheld pair hpair))
    hadding rfl hidle ?_ (fun c => (htaken c).le) (fun c => by rw [hnow, Nat.add_zero]) hless
  intro c
  rw [htaken, howned, ← references_eq]
  exact h.cell c

/-- What is taken is in hand. -/
theorem take_taken (f : Fifo (Option MidiCommand × Option ℕ)) (c : ℕ) :
    queuedWith f.take.queued c + handed f.take.server.inHand c .entered =
      queuedWith f.queued c := by
  obtain ⟨ticket, adding, line, server⟩ := f
  cases line with
  | nil => rfl
  | cons pair rest =>
    by_cases hpair : pair.2 = some c <;>
      simp [Fifo.take, queuedWith, FifoServer.inHand, handed, hpair]

theorem take_less {f : Fifo (Option MidiCommand × Option ℕ)} (h : f.queued ≠ []) :
    7 * f.take.queued.length + handling f.take.server .entered < 7 * f.queued.length := by
  obtain ⟨ticket, adding, line, server⟩ := f
  cases line with
  | nil => exact absurd rfl h
  | cons pair rest =>
    simp only [Fifo.take, handling, ReleasePoint.toGo, List.length_cons]
    omega

/-- A server with nothing in hand takes the next pair, and comes closer to the end unless
there is none. -/
theorem server_idle {f : Fifo (Option MidiCommand × Option ℕ)} (hawake : f.Awake)
    (hserver : f.server.inHand = none) :
    addedPairs (fifoStep f .handler).2 = [] ∧ (fifoStep f .handler).1.adding = f.adding ∧
      (∀ c, queuedWith (fifoStep f .handler).1.queued c +
        handed (fifoStep f .handler).1.server.inHand c .entered = queuedWith f.queued c) ∧
      (0 < 7 * f.queued.length + handling f.server .entered →
        7 * (fifoStep f .handler).1.queued.length +
          handling (fifoStep f .handler).1.server .entered <
            7 * f.queued.length + handling f.server .entered) := by
  have htake : f.take.adding = f.adding := by
    obtain ⟨ticket, adding, line, server⟩ := f
    cases line <;> rfl
  have hless : 0 < 7 * f.queued.length + 0 →
      7 * f.take.queued.length + handling f.take.server .entered < 7 * f.queued.length + 0 := by
    intro hpos
    exact take_less fun hempty => by simp [hempty] at hpos
  have htaken := take_taken f
  obtain ⟨ticket, adding, line, server⟩ := f
  cases server with
  | free => exact ⟨rfl, htake, htaken, hless⟩
  | asleep woken =>
    cases woken with
    | false =>
      -- A thread that sleeps without a signal has nothing to do.
      obtain rfl : line = [] := hawake
      exact ⟨rfl, rfl, fun _ => rfl, id⟩
    | true => exact ⟨rfl, htake, htaken, hless⟩
  | acting pair => cases hserver
  | leaving => exact ⟨rfl, rfl, fun _ => rfl, fun _ => by simp [fifoStep, handling]⟩

theorem idle_counts (h : s.Counted limit f) (hinHand : s.queue.handler.inHand = none) :
    Counts limit s f .handler (0 < 7 * f.queued.length + handling f.server s.sender) := by
  obtain ⟨queue, hpassed, hshows⟩ := step_shows h.shows .handler
  have hsender := h.idle hinHand
  have hstep : contextStep s .handler = .ok (⟨queue, s.contexts, s.readers, .entered⟩, []) := by
    rw [← hsender]
    cases hhandler : s.queue.handler with
    | acting item data context =>
      rw [hhandler] at hinHand
      cases hinHand
    | _ => simp only [contextStep, hhandler, hpassed, bind, Except.bind, pure, Except.pure]
  have hserver : f.server.inHand = none := by rw [← inHand_eq h.shows, hinHand]
  obtain ⟨hadded, hadding, htaken, hless⟩ := server_idle h.awake hserver
  refine h.queue_step hstep hshows (fifo_awake h.awake _) ?_ hadding (fun _ => rfl) ?_ ?_
    (fun _ => rfl) ?_
  · intro pair hpair
    have hheld := held_after hpair
    rw [hadded] at hheld
    exact hheld.resolve_right List.not_mem_nil
  · intro c
    rw [inHand_eq hshows, htaken, ContextSystem.taken, hinHand, hsender]
    rfl
  · intro c
    rw [hsender]
  · rw [hsender]
    exact hless

/-- A signal changes nothing but the sleep of the thread. -/
theorem wake_counts (h : s.Counted limit f) : Counts limit s f .wake False := by
  obtain ⟨queue, hwoken, hshows⟩ := step_shows h.shows .wake
  have hstep : contextStep s .wake = .ok (⟨queue, s.contexts, s.readers, s.sender⟩, []) := by
    simp only [contextStep, hwoken, bind, Except.bind, pure, Except.pure]
  have hhand : queue.handler.inHand = s.queue.handler.inHand := by
    rw [inHand_eq hshows, inHand_eq h.shows]
    exact Roused.inHand (.inr rfl)
  refine h.queue_step hstep hshows (fifo_awake h.awake _) ?_ rfl ?_ ?_ (fun _ => rfl)
    (fun _ => rfl) (fun hbusy => hbusy.elim)
  · intro pair hpair
    exact (held_after hpair).resolve_right List.not_mem_nil
  · rw [hhand]
    exact h.idle
  · intro c
    rw [hhand]
    rfl

variable {item : ℕ} {command : MidiCommand} {context : Option ℕ} {originator : MidiSenderContext}

/-- The item in hand has a command. -/
theorem acting_command (h : s.Counted limit f) {data : Option MidiCommand}
    (hhandler : s.queue.handler = .acting item data context) :
    ∃ command, data = some command := by
  obtain ⟨nodes, hshows⟩ := h.shows
  have hserves := hshows.serves
  rw [hhandler] at hserves
  cases hserver : f.server <;> rw [hserver] at hserves <;> try exact hserves.elim
  obtain rfl := hserves
  exact h.paired (data, context) (by simp [Fifo.held, hserver])

theorem acting_server (h : s.Counted limit f)
    (hhandler : s.queue.handler = .acting item (some command) context) :
    f.server = .acting (some command, context) := by
  have hhand := inHand_eq h.shows
  rw [hhandler] at hhand
  cases hserver : f.server <;> rw [hserver] at hhand <;> cases hhand
  rfl

/-- A step of the action on the item in hand. -/
theorem ContextSystem.Counted.acting_step (h : s.Counted limit f)
    (hhandler : s.queue.handler = .acting item (some command) context)
    (hstep : senderStep s (some command) context =
      .ok (⟨s.queue, contexts, s.readers, sender⟩, now))
    (hfresh : contexts.fresh = s.contexts.fresh)
    (hcell : ∀ c, CellSound (contexts.block c) ((s.reader c).held + ((s.reader c).carried +
      (queuedWith f.queued c + handed (some (some command, context)) c sender)))
      ((s.reader c).owned + sender.owned c))
    (htaken : ∀ c, handed (some (some command, context)) c sender ≤
      handed (some (some command, context)) c s.sender)
    (hgone : ∀ c, gone s.contexts c + now.count (.destroyed c) = gone contexts c)
    (hless : sender.toGo < s.sender.toGo) : Counts limit s f .handler busy := by
  have hserver := acting_server h hhandler
  have hhand : s.queue.handler.inHand = some (some command, context) := by
    rw [hhandler]
    rfl
  have haction : contextStep s .handler =
      .ok (⟨s.queue, contexts, s.readers, sender⟩, now) := by
    simp only [contextStep, hhandler]
    exact hstep
  refine h.sender_step haction h.shows h.awake h.paired rfl hfresh ?_ ?_ ?_ hgone ?_
  · rw [hhand]
    intro hnone
    cases hnone
  · rw [hhand]
    exact hcell
  · intro c
    have htaken := htaken c
    rw [ContextSystem.taken, hhand]
    omega
  · intro _
    rw [hserver]
    simp only [handling]
    omega

theorem cell_acting (h : s.Counted limit f)
    (hhandler : s.queue.handler = .acting item (some command) context) (c : ℕ) :
    CellSound (s.contexts.block c) ((s.reader c).held + ((s.reader c).carried +
      (queuedWith f.queued c + handed (some (some command, context)) c s.sender)))
      ((s.reader c).owned + s.sender.owned c) := by
  have hcell := h.cell c
  rwa [references_eq, ContextSystem.taken, ContextSystem.owners, hhandler] at hcell

/-- The action begins: the originator is taken from the context. -/
theorem entered_counts (h : s.Counted limit f)
    (hhandler : s.queue.handler = .acting item (some command) context)
    (hsender : s.sender = .entered) : Counts limit s f .handler busy := by
  have hcell := cell_acting h hhandler
  rw [hsender] at hcell
  cases context with
  | none =>
    have hstep : senderStep s (some command) none = .ok (⟨s.queue, s.contexts, s.readers,
        .sending (midiSenderOriginator none)⟩, []) := by
      simp only [senderStep, hsender]
    refine h.acting_step hhandler hstep rfl hcell ?_ (fun _ => rfl) ?_
    · intro c
      simp [handed]
    · simp [hsender, ReleasePoint.toGo]
  | some context =>
    obtain ⟨held, hheld⟩ := (hcell context).present (by simp [handed])
    have hstep : senderStep s (some command) (some context) = .ok (⟨s.queue, s.contexts, s.readers,
        .releasing context (midiSenderOriginator (some held.data))⟩, []) := by
      simp only [senderStep, hsender, Heap.load_eq hheld, bind, Except.bind, pure, Except.pure]
    have hhanded : ∀ c, handed (some (some command, some context)) c
        (.releasing context (midiSenderOriginator (some held.data))) =
        handed (some (some command, some context)) c .entered := by
      intro c
      simp [handed]
    refine h.acting_step hhandler hstep rfl ?_ ?_ (fun _ => rfl) ?_
    · intro c
      rw [hhanded]
      exact hcell c
    · intro c
      rw [hhanded, hsender]
    · simp [hsender, ReleasePoint.toGo]

/-- Only the context in hand changes. -/
theorem ContextSystem.Counted.acting_context (h : s.Counted limit f) {context : ℕ}
    {itemContext : Option ℕ}
    (hhandler : s.queue.handler = .acting item (some command) itemContext)
    (hstep : senderStep s (some command) itemContext =
      .ok (⟨s.queue, contexts, s.readers, sender⟩, now))
    (hchanged : ChangedAt s.contexts contexts context)
    (hcell : CellSound (contexts.block context) ((s.reader context).held +
      ((s.reader context).carried + (queuedWith f.queued context +
        handed (some (some command, itemContext)) context sender)))
      ((s.reader context).owned + sender.owned context))
    (hhanded : handed (some (some command, itemContext)) context sender ≤
      handed (some (some command, itemContext)) context s.sender)
    (hothers : ∀ c ≠ context, handed (some (some command, itemContext)) c sender =
      handed (some (some command, itemContext)) c s.sender ∧ sender.owned c = s.sender.owned c)
    (hgone : ∀ c, gone s.contexts c + now.count (.destroyed c) = gone contexts c)
    (hless : sender.toGo < s.sender.toGo) : Counts limit s f .handler busy := by
  refine h.acting_step hhandler hstep hchanged.fresh ?_ ?_ hgone hless
  · intro c
    by_cases hc : c = context
    · rw [hc]
      exact hcell
    · rw [hchanged.others c hc, (hothers c hc).1, (hothers c hc).2]
      exact cell_acting h hhandler c
  · intro c
    by_cases hc : c = context
    · rw [hc]
      exact hhanded
    · exact (hothers c hc).1.le

/-- The reference of the command is given up. -/
theorem releasing_counts (h : s.Counted limit f) {context : ℕ} {itemContext : Option ℕ}
    (hhandler : s.queue.handler = .acting item (some command) itemContext)
    (hsender : s.sender = .releasing context originator) : Counts limit s f .handler busy := by
  have hcell := cell_acting h hhandler context
  simp only [hsender, handed, ReleasePoint.owned, if_true] at hcell
  have halone := hcell.alone
  have honce := hcell.once
  obtain ⟨before, hbefore⟩ := hcell.present (by omega)
  obtain ⟨changed, held, hrelease, hchanged, hheld, hcount⟩ := release_counts hcell (by omega)
  have hgone : ∀ c, gone s.contexts c + 0 = gone changed c := fun c =>
    (gone_kept hchanged (by simp [hbefore]) (by simp [hheld]) c).symm
  by_cases hzero : held.reference = 0
  · have hnone : held.reference.toNat = 0 := congrArg UInt32.toNat hzero
    have hstep : senderStep s (some command) itemContext = .ok (⟨s.queue, changed, s.readers,
        .destroying context false originator⟩, []) := by
      simp only [senderStep, hsender, hrelease, hzero, bind, Except.bind, pure, Except.pure,
        if_true]
    refine h.acting_context hhandler hstep hchanged ?_ ?_ ?_ hgone ?_
    · rw [hheld]
      simp only [handed, ReleasePoint.owned, if_true]
      exact CellSound.of_some (by omega) (by omega)
    · simp [hsender, handed]
    · intro c hc
      simp [hsender, handed, ReleasePoint.owned, Ne.symm hc]
    · simp [hsender, ReleasePoint.toGo]
  · have hsome : held.reference.toNat ≠ 0 := fun hnone => hzero (UInt32.toNat_inj.mp hnone)
    have hstep : senderStep s (some command) itemContext = .ok (⟨s.queue, changed, s.readers,
        .sending originator⟩, []) := by
      simp only [senderStep, hsender, hrelease, hzero, bind, Except.bind, pure, Except.pure,
        if_false]
    refine h.acting_context hhandler hstep hchanged ?_ ?_ ?_ hgone ?_
    · rw [hheld]
      simp only [handed, ReleasePoint.owned]
      exact CellSound.of_some (by omega) (by omega)
    · simp [hsender, handed]
    · intro c hc
      simp [hsender, handed, ReleasePoint.owned, Ne.symm hc]
    · simp [hsender, ReleasePoint.toGo]

/-- The reference was the last one. -/
theorem dropping_counts (h : s.Counted limit f) {context : ℕ} {itemContext : Option ℕ}
    {cleared : Bool} (hhandler : s.queue.handler = .acting item (some command) itemContext)
    (hsender : s.sender = .destroying context cleared originator) :
    Counts limit s f .handler busy := by
  have hcell := cell_acting h hhandler context
  simp only [hsender, handed, ReleasePoint.owned, if_true] at hcell
  have honce := hcell.once
  have halone := hcell.alone (by omega)
  obtain ⟨before, hbefore⟩ := hcell.present (by omega)
  obtain ⟨changed, hdestroy, hchanged, hafter⟩ := destroy_counts hcell (by omega) cleared
  cases cleared with
  | false =>
    obtain ⟨held, hheld, hcount⟩ := hafter
    have hstep : senderStep s (some command) itemContext = .ok (⟨s.queue, changed, s.readers,
        .destroying context true originator⟩, []) := by
      simp only [senderStep, hsender, hdestroy, bind, Except.bind, pure, Except.pure,
        Bool.false_eq_true, if_false]
    refine h.acting_context hhandler hstep hchanged ?_ ?_ ?_ ?_ ?_
    · rw [hheld]
      simp only [handed, ReleasePoint.owned, if_true]
      exact CellSound.of_some (by omega) (by omega)
    · simp [hsender, handed]
    · intro c hc
      simp [hsender, handed, ReleasePoint.owned]
    · intro c
      rw [gone_kept hchanged (by simp [hbefore]) (by simp [hheld])]
      rfl
    · simp [hsender, ReleasePoint.toGo]
  | true =>
    have hstep : senderStep s (some command) itemContext = .ok (⟨s.queue, changed, s.readers,
        .sending originator⟩, [.destroyed context]) := by
      simp only [senderStep, hsender, hdestroy, bind, Except.bind, pure, Except.pure, if_true]
    refine h.acting_context hhandler hstep hchanged ?_ ?_ ?_ (gone_freed hchanged hbefore hafter)
      ?_
    · simp only [handed, ReleasePoint.owned]
      rw [show changed.block context = none from hafter, halone,
        show (s.reader context).owned + 0 = 0 by omega]
      exact CellSound.of_none
    · simp [hsender, handed]
    · intro c hc
      simp [hsender, handed, ReleasePoint.owned, Ne.symm hc]
    · simp [hsender, ReleasePoint.toGo]

/-- The action has returned, and the item is freed next. -/
theorem sending_counts (h : s.Counted limit f)
    (hhandler : s.queue.handler = .acting item (some command) context)
    (hsender : s.sender = .sending originator) : Counts limit s f .handler busy := by
  have hserver := acting_server h hhandler
  obtain ⟨queue, hpassed, hshows⟩ := step_shows h.shows .handler
  have hstep : contextStep s .handler = .ok (⟨queue, s.contexts, s.readers, .entered⟩,
      [.sent (some command) originator]) := by
    simp only [contextStep, hhandler, senderStep, hsender, hpassed, bind, Except.bind, pure,
      Except.pure]
  have hawake := fifo_awake h.awake .handler
  have hnext : (fifoStep f .handler).1 = { f with server := .leaving } := by
    obtain ⟨ticket, adding, line, server⟩ := f
    obtain rfl : server = _ := hserver
    rfl
  rw [hnext] at hshows hawake
  refine h.queue_step hstep hshows hawake ?_ rfl (fun _ => rfl) ?_ ?_ ?_ ?_
  · intro pair hpair
    rw [Fifo.held, hserver]
    exact .tail _ hpair
  · intro c
    rw [inHand_eq hshows, ContextSystem.taken, hsender]
    simp [FifoServer.inHand, handed]
  · intro c
    rw [hsender]
    rfl
  · intro c
    simp
  · intro _
    rw [hserver, hsender]
    simp [handling, ReleasePoint.toGo]

/-- The thread of the queue counts its references at every step. -/
theorem handler_counts (h : s.Counted limit f) :
    Counts limit s f .handler (0 < 7 * f.queued.length + handling f.server s.sender) := by
  by_cases hinHand : s.queue.handler.inHand = none
  · exact idle_counts h hinHand
  · cases hhandler : s.queue.handler with
    | acting item data context =>
      obtain ⟨command, rfl⟩ := acting_command h hhandler
      cases hsender : s.sender with
      | entered => rw [← hsender]; exact entered_counts h hhandler hsender
      | releasing context originator => rw [← hsender]; exact releasing_counts h hhandler hsender
      | destroying context cleared originator =>
        rw [← hsender]; exact dropping_counts h hhandler hsender
      | sending originator => rw [← hsender]; exact sending_counts h hhandler hsender
    | _ =>
      rw [hhandler] at hinHand
      exact absurd rfl hinHand

end Sender

section Runs
variable {limit : ℕ} {s : ContextSystem} {f : Fifo (Option MidiCommand × Option ℕ)}

theorem block_fresh (contexts : Heap DataContext) : contexts.block contexts.fresh = none := by
  rw [Heap.block, Heap.fresh, List.getElem?_eq_none_iff.mpr (le_refl _)]
  rfl

/-- Nobody knows a context that has not been created. -/
theorem ContextSystem.Counted.untouched (h : s.Counted limit f) :
    s.taken f.queued s.contexts.fresh = 0 ∧ s.sender.owned s.contexts.fresh = 0 := by
  obtain ⟨hreferences, howners⟩ := (h.cell s.contexts.fresh).gone.mp (block_fresh s.contexts)
  rw [references_eq] at hreferences
  rw [ContextSystem.owners] at howners
  omega

/-- A new context is the reader's alone. -/
theorem begin_counts (h : s.Counted limit f) (originators : MidiSenderContext)
    {commands : List MidiCommand} (hlength : commands.length ≤ limit) :
    Counts limit s f (.begin originators commands) False := by
  have hnew : (s.readers ++ [.created s.contexts.fresh commands])[s.contexts.fresh]? =
      some (ReaderPoint.created s.contexts.fresh commands) := by
    rw [h.size, List.getElem?_concat_length]
  have hother : ∀ c ≠ s.contexts.fresh,
      (s.readers ++ [.created s.contexts.fresh commands])[c]? = s.readers[c]? := by
    intro c hc
    rw [h.size] at hc
    exact append_other hc _
  have hreader : ∀ c ≠ s.contexts.fresh, ContextSystem.reader ⟨s.queue,
      s.contexts.alloc ⟨some originators, 0⟩, s.readers ++ [.created s.contexts.fresh commands],
      s.sender⟩ c = s.reader c := by
    intro c hc
    rw [ContextSystem.reader, hother c hc, ContextSystem.reader]
  obtain ⟨htaken, hsender⟩ := h.untouched
  refine ⟨_, _, f, rfl, ?_, ?_, ?_, fun hbusy => hbusy.elim⟩
  · exact {
      shows := h.shows
      awake := h.awake
      paired := h.paired
      size := by rw [Heap.fresh_alloc, h.size, List.length_append, List.length_singleton]
      own := by
        intro c point hc
        by_cases hcf : c = s.contexts.fresh
        · rw [hcf, hnew, Option.some.injEq] at hc
          rw [← hc, hcf]
          simp [ReaderPoint.context]
        · rw [hother c hcf] at hc
          exact h.own c point hc
      matched := h.matched.append (by simp)
      idle := h.idle
      cell := by
        intro c
        rw [references_eq, ContextSystem.owners]
        by_cases hcf : c = s.contexts.fresh
        · rw [hcf, Heap.block_alloc_self, reader_eq hnew]
          change CellSound _ (0 + (0 + s.taken f.queued s.contexts.fresh))
            (1 + s.sender.owned s.contexts.fresh)
          rw [htaken, hsender]
          exact CellSound.of_some rfl (.inr ⟨rfl, rfl⟩)
        · rw [Heap.block_alloc_ne hcf, hreader c hcf]
          have hcell := h.cell c
          rwa [references_eq] at hcell
      room := by
        intro c
        have hroom := h.room c
        rw [outstanding_eq] at hroom ⊢
        by_cases hcf : c = s.contexts.fresh
        · rw [hcf, reader_eq hnew]
          change 0 + s.taken f.queued s.contexts.fresh + commands.length ≤ limit
          omega
        · rw [hreader c hcf]
          exact hroom }
  · intro c
    rw [List.count_nil, gone, gone, Heap.fresh_alloc]
    by_cases hcf : c = s.contexts.fresh
    · rw [hcf, Heap.block_alloc_self]
      simp
    · rw [Heap.block_alloc_ne hcf]
      have hlt : c < s.contexts.fresh + 1 ↔ c < s.contexts.fresh := by omega
      simp only [hlt, Nat.add_zero]
  · rw [Heap.fresh_alloc]
    exact Nat.le_succ _

/-- The steps that begin a read give it no more commands than the limit. -/
def ContextAction.Fits (limit : ℕ) : ContextAction → Prop
  | begin _ commands => commands.length ≤ limit
  | _ => True

theorem Counts.mono {a : ContextAction} {busy busy' : Prop} (h : Counts limit s f a busy)
    (hbusy : busy' → busy) : Counts limit s f a busy' := by
  obtain ⟨t, now, f', hstep, ht, hgone, hfresh, hless⟩ := h
  exact ⟨t, now, f', hstep, ht, hgone, hfresh, fun hbusy' => hless (hbusy hbusy')⟩

/-- Every step of every thread keeps the count. -/
theorem step_counts (h : s.Counted limit f) (hlimit : limit + 1 < 2 ^ 32) {a : ContextAction}
    (hfits : a.Fits limit) : Counts limit s f a False := by
  cases a with
  | begin originators commands => exact begin_counts h originators hfits
  | reader index =>
    cases hpoint : s.readers[index]? with
    | none =>
      refine ⟨s, [], f, ?_, h, fun _ => rfl, le_refl _, fun hbusy => hbusy.elim⟩
      simp only [contextStep, hpoint]
    | some point => exact (reader_counts h hlimit hpoint).mono False.elim
  | handler => exact (handler_counts h).mono False.elim
  | wake => exact wake_counts h

theorem run_counts (hlimit : limit + 1 < 2 ^ 32) {actions : List ContextAction}
    (hfits : ∀ a ∈ actions, a.Fits limit) (h : s.Counted limit f) :
    ∃ t out f', run contextStep s actions = .ok (t, out) ∧ t.Counted limit f' ∧
      ∀ c, gone s.contexts c + out.count (.destroyed c) = gone t.contexts c := by
  induction actions generalizing s f with
  | nil => exact ⟨s, [], f, rfl, h, fun _ => rfl⟩
  | cons a actions ih =>
    obtain ⟨hfirst, hrest⟩ := List.forall_mem_cons.mp hfits
    obtain ⟨t, now, g, hnow, ht, hgone, -, -⟩ := step_counts h hlimit hfirst
    obtain ⟨u, later, f', hlater, hu, hgoneLater⟩ := ih hrest ht
    refine ⟨u, now ++ later, f', run_cons_ok hnow hlater, hu, fun c => ?_⟩
    rw [List.count_append, ← Nat.add_assoc, hgone, hgoneLater]

/-- As long as something is left to do, a reader or the thread of the queue can do it. -/
theorem busy_counts (h : s.Counted limit f) (hlimit : limit + 1 < 2 ^ 32) (hbusy : 0 < s.toGo f) :
    ∃ a, (a = .handler ∨ ∃ index, a = .reader index) ∧ Counts limit s f a True := by
  by_cases hreaders : (s.readers.map ReaderPoint.toGo).sum = 0
  · rw [ContextSystem.toGo, hreaders, Nat.zero_add] at hbusy
    exact ⟨.handler, .inl rfl, (handler_counts h).mono fun _ => hbusy⟩
  · obtain ⟨steps, hsteps, hne⟩ : ∃ steps ∈ s.readers.map ReaderPoint.toGo, steps ≠ 0 := by
      by_contra hnone
      exact hreaders (List.sum_eq_zero fun steps hsteps =>
        by_contra fun hne => hnone ⟨steps, hsteps, hne⟩)
    obtain ⟨point, hpoint, rfl⟩ := List.mem_map.mp hsteps
    obtain ⟨index, hindex⟩ := List.mem_iff_getElem?.mp hpoint
    refine ⟨.reader index, .inr ⟨index, rfl⟩, (reader_counts h hlimit hindex).mono fun _ heq => ?_⟩
    rw [heq] at hne
    exact hne rfl

/-- What has begun can be brought to its end. -/
theorem drain_counts (hlimit : limit + 1 < 2 ^ 32) (h : s.Counted limit f) :
    ∃ actions t out f', (∀ a ∈ actions, a = .handler ∨ ∃ index, a = .reader index) ∧
      run contextStep s actions = .ok (t, out) ∧ t.Counted limit f' ∧ t.toGo f' = 0 ∧
      (∀ c, gone s.contexts c + out.count (.destroyed c) = gone t.contexts c) ∧
      s.contexts.fresh ≤ t.contexts.fresh := by
  -- By induction on the bound for the steps that are left.
  induction hsteps : s.toGo f using Nat.strong_induction_on generalizing s f with
  | _ steps ih =>
    by_cases hbusy : 0 < s.toGo f
    · obtain ⟨a, ha, t, now, g, hnow, ht, hgone, hfresh, hless⟩ := busy_counts h hlimit hbusy
      obtain ⟨actions, u, later, f', hactions, hlater, hu, hdone, hgoneLater, hfreshLater⟩ :=
        ih (t.toGo g) (hsteps ▸ hless trivial) ht rfl
      refine ⟨a :: actions, u, now ++ later, f', ?_, run_cons_ok hnow hlater, hu, hdone,
        fun c => ?_, le_trans hfresh hfreshLater⟩
      · exact List.forall_mem_cons.mpr ⟨ha, hactions⟩
      · rw [List.count_append, ← Nat.add_assoc, hgone, hgoneLater]
    · exact ⟨[], s, [], f, List.forall_mem_nil _, rfl, h, by omega, fun _ => rfl,
        le_refl _⟩

/-- Nobody refers to a context any more once there is nothing left to do. -/
theorem drained (h : s.Counted limit f) (hdone : s.toGo f = 0) (c : ℕ) :
    s.contexts.block c = none := by
  simp only [ContextSystem.toGo, Nat.add_eq_zero_iff, Nat.mul_eq_zero, OfNat.ofNat_ne_zero,
    false_or, List.length_eq_zero_iff] at hdone
  obtain ⟨⟨hreaders, hqueued⟩, hhandling⟩ := hdone
  have hreader : s.reader c = .finished := by
    rw [ContextSystem.reader]
    cases hpoint : s.readers[c]? with
    | none => rfl
    | some point =>
      have hmem := List.mem_map_of_mem (List.mem_of_getElem? hpoint) (f := ReaderPoint.toGo)
      have hzero := List.sum_eq_zero_iff.mp hreaders _ hmem
      cases point with
      | finished => rfl
      | destroying context cleared => cases cleared <;> simp [ReaderPoint.toGo] at hzero
      | _ => simp [ReaderPoint.toGo] at hzero
  have hinHand : s.queue.handler.inHand = none := by
    rw [inHand_eq h.shows]
    cases hserver : f.server with
    | acting pair =>
      rw [hserver] at hhandling
      cases hsender : s.sender with
      | destroying context cleared originator =>
        cases cleared <;> simp [hsender, handling, ReleasePoint.toGo] at hhandling
      | _ => simp [hsender, handling, ReleasePoint.toGo] at hhandling
    | _ => rfl
  have hsender := h.idle hinHand
  apply (h.cell c).gone.mpr
  rw [references_eq, ContextSystem.owners, ContextSystem.taken, hreader, hinHand, hsender, hqueued]
  exact ⟨rfl, rfl⟩

/-- A context is gone once its reader has finished, no command of it is left, and the thread
of the queue has destroyed it if it had to. -/
theorem ContextSystem.Counted.gone_iff (h : s.Counted limit f) (c : ℕ) :
    s.contexts.block c = none ↔ s.reader c = .finished ∧ s.outstanding f.queued c = 0 ∧
      s.sender.owned c = 0 := by
  rw [(h.cell c).gone, ContextSystem.references, ContextSystem.owners]
  constructor
  · rintro ⟨hreferences, howners⟩
    refine ⟨?_, by omega, by omega⟩
    cases hreader : s.reader c with
    | finished => rfl
    | _ =>
      simp only [hreader, ReaderPoint.held, ReaderPoint.owned] at hreferences howners
      omega
  · rintro ⟨hreader, houtstanding, howned⟩
    rw [hreader, houtstanding, howned]
    exact ⟨rfl, rfl⟩

theorem start_counted (limit : ℕ) : contextSystemStart.Counted limit fifoStart where
  shows := ⟨[], start_shows⟩
  awake := trivial
  paired := by simp [fifoStart, Fifo.held]
  size := rfl
  own := by simp [contextSystemStart]
  matched := ⟨by simp [contextSystemStart], by simp [contextSystemStart]⟩
  idle := fun _ => rfl
  cell := fun c => by
    have hblock : contextSystemStart.contexts.block c = none := by
      simp [contextSystemStart, Heap.block]
    rw [hblock]
    exact CellSound.of_none
  room := fun _ => Nat.zero_le _

/-- What a call of `midi_state_send` has parsed; the size of the ring is an `int`. -/
def Parsed (commands : List MidiCommand) : Prop :=
  ∃ state mode zFlag t, state.Valid ∧ state.ring.size < 2 ^ 31 ∧
    midiStateSend state mode zFlag = .ok (t, commands)

theorem Parsed.length_lt {commands : List MidiCommand} (h : Parsed commands) :
    commands.length < 2 ^ 31 := by
  obtain ⟨state, mode, zFlag, t, ⟨p, queue, size, hrep⟩, hsize, hsend⟩ := h
  obtain ⟨u, hsent, -⟩ := MidiState.send_represents hrep mode zFlag
  cases hsent.symm.trans hsend
  have hqueue : queue.length ≤ state.ring.size := by
    rw [← hrep.queue_eq, RingBuffer.queue_length]
    exact hrep.ring_valid.used_le
  exact lt_of_le_of_lt (feed_length_le (Parser.step_length_le mode) (p, zFlag) queue)
    (lt_of_le_of_lt hqueue hsize)

/-- In every interleaving no context is touched after its end, its count is that of the
references as long as it is there, and it is destroyed, once, when the reader and all
commands have released it; and this can always be reached. -/
theorem contexts_counted (actions : List ContextAction)
    (hparsed : ∀ originators commands, .begin originators commands ∈ actions → Parsed commands) :
    ∃ t out nodes, run contextStep contextSystemStart actions = .ok (t, out) ∧
      Linked DataQueueItem.next DataQueueItem.pair t.queue.items t.queue.queue.top nodes ∧
      (∀ c < t.contexts.fresh,
        (∀ held, t.contexts.block c = some held → held.reference.toNat =
          (t.reader c).held + t.outstanding (nodes.map Prod.snd) c) ∧
        (0 < t.owners c → t.owners c = 1 ∧ t.references (nodes.map Prod.snd) c = 0) ∧
        out.count (.destroyed c) ≤ 1 ∧
        (out.count (.destroyed c) = 1 ↔ t.contexts.block c = none) ∧
        (out.count (.destroyed c) = 1 ↔ t.reader c = .finished ∧
          t.outstanding (nodes.map Prod.snd) c = 0 ∧ t.sender.owned c = 0)) ∧
      ∃ later u rest, (∀ a ∈ later, a = .handler ∨ ∃ index, a = .reader index) ∧
        run contextStep t later = .ok (u, rest) ∧
        ∀ c < t.contexts.fresh, (out ++ rest).count (.destroyed c) = 1 := by
  have hlimit : (2 ^ 31 : ℕ) + 1 < 2 ^ 32 := by decide
  have hfits : ∀ a ∈ actions, a.Fits (2 ^ 31) := by
    intro a ha
    cases a with
    | begin originators commands => exact (hparsed originators commands ha).length_lt.le
    | _ => trivial
  obtain ⟨t, out, f, hrun, ht, hgone⟩ := run_counts hlimit hfits (start_counted (2 ^ 31))
  obtain ⟨nodes, hshows⟩ := ht.shows
  obtain ⟨later, u, rest, g, hlater, hrest, hu, hdone, hgoneLater, hfresh⟩ :=
    drain_counts hlimit ht
  have hstart : ∀ c, gone contextSystemStart.contexts c = 0 := fun c => rfl
  refine ⟨t, out, nodes, hrun, hshows.linked, fun c hc => ?_, later, u, rest, hlater, hrest,
    fun c hc => ?_⟩
  · have hcell := ht.cell c
    have hiff := ht.gone_iff c
    rw [hshows.queued] at hcell hiff
    have honce := hcell.once
    have hcount : out.count (.destroyed c) = gone t.contexts c := by
      rw [← hgone, hstart, Nat.zero_add]
    have hdestroyed : out.count (.destroyed c) = 1 ↔ t.contexts.block c = none := by
      rw [hcount, gone]
      by_cases hblock : t.contexts.block c = none <;> simp [hblock, hc]
    refine ⟨hcell.count, fun howned => ⟨by omega, hcell.alone (by omega)⟩, ?_, hdestroyed,
      hdestroyed.trans hiff⟩
    rw [hcount, gone]
    split_ifs <;> omega
  · rw [List.count_append]
    have hnow := hgone c
    have hend := hgoneLater c
    rw [hstart, Nat.zero_add] at hnow
    rw [hnow, hend, gone, if_pos ⟨lt_of_lt_of_le hc hfresh, drained hu hdone c⟩]

theorem parsed_clock : Parsed [midiCommandSet 0 0xf8 []] := by
  have hcreated := (MidiState.create_represents
    (MidiState.create_eq (show netSocketDefaultRingBuffer ≠ 0 by decide))).1
  obtain ⟨written, ret, -, hwritten⟩ :=
    MidiState.write_represents hcreated [0xf8] (by decide)
  obtain ⟨sent, hsent, -⟩ := MidiState.send_represents hwritten .simple false
  exact ⟨written, .simple, false, sent, ⟨_, _, _, hwritten⟩, by rw [hwritten.size_eq]; decide,
    hsent⟩

/-- A read of one timing clock, of which the first step has been taken. -/
theorem contexts_counted_clock :
    ∃ t out later u rest, run contextStep contextSystemStart
        [.begin ⟨7, 0⟩ [midiCommandSet 0 0xf8 []], .reader 0] = .ok (t, out) ∧
      run contextStep t later = .ok (u, rest) ∧ (out ++ rest).count (.destroyed 0) = 1 := by
  have hparsed : ∀ originators commands, ContextAction.begin originators commands ∈
      [.begin ⟨7, 0⟩ [midiCommandSet 0 0xf8 []], .reader 0] → Parsed commands := by
    intro originators commands hmem
    simp only [List.mem_cons, ContextAction.begin.injEq, reduceCtorEq, List.not_mem_nil,
      or_false] at hmem
    rw [hmem.2]
    exact parsed_clock
  obtain ⟨t, out, nodes, hrun, -, -, later, u, rest, -, hrest, hcount⟩ :=
    contexts_counted _ hparsed
  refine ⟨t, out, later, u, rest, hrun, hrest, hcount 0 ?_⟩
  cases hrun
  exact Nat.one_pos

end Runs

end RaveloxMidi
