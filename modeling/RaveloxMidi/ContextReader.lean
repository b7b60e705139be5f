import RaveloxMidi.ContextCount

/-!
# The steps of a reader

A reader acquires the context that it has created, acquires it again for each
command before the command is queued, and releases it. It destroys the context
itself when its commands have been released before that.
-/
namespace RaveloxMidi
open LinkedHeap Transducer

section Readers
variable {limit : ℕ} {s : ContextSystem} {f f' : Fifo (Option MidiCommand × Option ℕ)} {i : ℕ}
  {point point' : ReaderPoint}

theorem sum_set {α : Type} (weight : α → ℕ) {l : List α} {i : ℕ} {a : α} (h : l[i]? = some a)
    (b : α) : ((l.set i b).map weight).sum + weight a = (l.map weight).sum + weight b := by
  induction l generalizing i with
  | nil => simp at h
  | cons head tail ih =>
    cases i with
    | zero =>
      simp only [List.getElem?_cons_zero, Option.some.injEq] at h
      simp only [List.set_cons_zero, List.map_cons, List.sum_cons, h]
      omega
    | succ i =>
      simp only [List.getElem?_cons_succ] at h
      have hrest := ih h
      simp only [List.set_cons_succ, List.map_cons, List.sum_cons]
      omega

/-- A step of one reader, with what it does to the queue and to its context. -/
theorem ContextSystem.Counted.reader_step (h : s.Counted limit f)
    (hpoint : s.readers[i]? = some point) {queue : QueueSystem MidiCommand ℕ}
    {contexts : Heap DataContext} {now : List ContextEvent}
    (hstep : readerStep s point = .ok (⟨queue, contexts, s.readers, s.sender⟩, point', now))
    (hshows : ∃ nodes, queue.Shows f' nodes) (hawake : f'.Awake)
    (hpaired : ∀ pair ∈ f'.held, ∃ command, pair.1 = some command)
    (hserver : Roused f.server f'.server)
    (hqueued : ∀ c ≠ i, queuedWith f'.queued c = queuedWith f.queued c)
    (hchanged : ChangedAt s.contexts contexts i)
    (hown : ∀ context ∈ point'.context, context = i)
    (hmatched : CallsMatch (s.readers.set i point') f'.adding)
    (hcell : CellSound (contexts.block i) (point'.held + (point'.carried +
      (queuedWith f'.queued i + handed s.queue.handler.inHand i s.sender)))
      (point'.owned + s.sender.owned i))
    (hroom : point'.carried + (queuedWith f'.queued i + handed s.queue.handler.inHand i s.sender) +
      point'.left ≤ limit)
    (hgone : ∀ c, gone s.contexts c + now.count (.destroyed c) = gone contexts c)
    (hless : point ≠ .finished →
      point'.toGo + 7 * f'.queued.length < point.toGo + 7 * f.queued.length) :
    Counts limit s f (.reader i) (point ≠ .finished) := by
  have hlt := (List.getElem?_eq_some_iff.mp hpoint).1
  have hhand : queue.handler.inHand = s.queue.handler.inHand := by
    rw [inHand_eq hshows, hserver.inHand, inHand_eq h.shows]
  have hself : (s.readers.set i point')[i]? = some point' := List.getElem?_set_self hlt
  have hother : ∀ c ≠ i, (s.readers.set i point')[c]? = s.readers[c]? := fun c hc =>
    List.getElem?_set_ne (Ne.symm hc)
  refine ⟨⟨queue, contexts, s.readers.set i point', s.sender⟩, now, f', ?_, ?_, hgone,
    hchanged.fresh.ge, ?_⟩
  · simp only [contextStep, hpoint, hstep, bind, Except.bind, pure, Except.pure]
  · have hreader : ∀ c ≠ i, ContextSystem.reader ⟨queue, contexts, s.readers.set i point',
        s.sender⟩ c = s.reader c := fun c hc => by
      rw [ContextSystem.reader, hother c hc, ContextSystem.reader]
    have htaken : ∀ c ≠ i, ContextSystem.taken ⟨queue, contexts, s.readers.set i point',
        s.sender⟩ f'.queued c = s.taken f.queued c := fun c hc => by
      rw [ContextSystem.taken, ContextSystem.taken, hqueued c hc, hhand]
    exact {
      shows := hshows
      awake := hawake
      paired := hpaired
      size := by rw [hchanged.fresh, h.size, List.length_set]
      own := by
        intro c other hc
        by_cases hci : c = i
        · rw [hci, hself, Option.some.injEq] at hc
          rw [hci, ← hc]
          exact hown
        · rw [hother c hci] at hc
          exact h.own c other hc
      matched := hmatched
      idle := by
        rw [hhand]
        exact h.idle
      cell := by
        intro c
        by_cases hci : c = i
        · rw [hci, references_eq, ContextSystem.owners, reader_eq hself, ContextSystem.taken, hhand]
          exact hcell
        · rw [hchanged.others c hci, references_eq, ContextSystem.owners, hreader c hci,
            htaken c hci, ← references_eq]
          exact h.cell c
      room := by
        intro c
        by_cases hci : c = i
        · rw [hci, outstanding_eq, reader_eq hself, ContextSystem.taken, hhand]
          exact hroom
        · rw [outstanding_eq, hreader c hci, htaken c hci, ← outstanding_eq]
          exact h.room c }
  · intro hbusy
    have hsum := sum_set ReaderPoint.toGo hpoint point'
    have hless := hless hbusy
    simp only [ContextSystem.toGo, hserver.handling]
    omega

/-- A step of a reader that does not concern the queue. -/
theorem ContextSystem.Counted.reader_alone (h : s.Counted limit f)
    (hpoint : s.readers[i]? = some point) {contexts : Heap DataContext} {now : List ContextEvent}
    (hstep : readerStep s point = .ok (⟨s.queue, contexts, s.readers, s.sender⟩, point', now))
    (hchanged : ChangedAt s.contexts contexts i)
    (hown : ∀ context ∈ point'.context, context = i)
    (hnot : ∀ context commands newItem, point' ≠ .adding context commands newItem)
    (hcell : CellSound (contexts.block i) (point'.held + (point'.carried + s.taken f.queued i))
      (point'.owned + s.sender.owned i))
    (hroom : point'.carried + s.taken f.queued i + point'.left ≤ limit)
    (hgone : ∀ c, gone s.contexts c + now.count (.destroyed c) = gone contexts c)
    (hless : point ≠ .finished → point'.toGo < point.toGo) :
    Counts limit s f (.reader i) (point ≠ .finished) := by
  refine h.reader_step hpoint hstep h.shows h.awake h.paired (.inl rfl) (fun _ _ => rfl) hchanged
    hown (h.matched.set hnot) hcell hroom hgone fun hbusy => ?_
  have hless := hless hbusy
  omega

/-- The same, where the context stays. -/
theorem ContextSystem.Counted.reader_kept (h : s.Counted limit f)
    (hpoint : s.readers[i]? = some point) {contexts : Heap DataContext}
    (hstep : readerStep s point = .ok (⟨s.queue, contexts, s.readers, s.sender⟩, point', []))
    (hchanged : ChangedAt s.contexts contexts i)
    (hown : ∀ context ∈ point'.context, context = i)
    (hnot : ∀ context commands newItem, point' ≠ .adding context commands newItem)
    {before held : DataContext} (hbefore : s.contexts.block i = some before)
    (hheld : contexts.block i = some held)
    (hcount : held.reference.toNat = point'.held + (point'.carried + s.taken f.queued i))
    (hwho : 0 < point'.held + (point'.carried + s.taken f.queued i) ∧
        point'.owned + s.sender.owned i = 0 ∨
      point'.held + (point'.carried + s.taken f.queued i) = 0 ∧
        point'.owned + s.sender.owned i = 1)
    (hroom : point'.carried + s.taken f.queued i + point'.left ≤ limit)
    (hless : point'.toGo < point.toGo) : Counts limit s f (.reader i) (point ≠ .finished) := by
  refine h.reader_alone hpoint hstep hchanged hown hnot ?_ hroom ?_ fun _ => hless
  · rw [hheld]
    exact CellSound.of_some hcount hwho
  · intro c
    rw [gone_kept hchanged (by simp [hbefore]) (by simp [hheld])]
    rfl

variable {commands : List MidiCommand} {command : MidiCommand} {context : ℕ}

theorem created_counts (h : s.Counted limit f)
    (hpoint : s.readers[i]? = some (.created context commands)) :
    Counts limit s f (.reader i) (.created context commands ≠ ReaderPoint.finished) := by
  obtain rfl : context = i := h.own i _ hpoint context rfl
  have hcell := cell_reader h hpoint
  have hroom := room_reader h hpoint
  simp only [ReaderPoint.held, ReaderPoint.carried, ReaderPoint.owned, ReaderPoint.left]
    at hcell hroom
  have honce := hcell.once
  have halone := hcell.alone (by omega)
  obtain ⟨before, hbefore⟩ := hcell.present (by omega)
  obtain ⟨changed, held, hacquire, hchanged, hheld, hcount⟩ :=
    acquire_counts hcell (by omega) (by omega)
  have hstep : readerStep s (.created context commands) =
      .ok (⟨s.queue, changed, s.readers, s.sender⟩, .holding context commands, []) := by
    simp only [readerStep, hacquire, bind, Except.bind, pure, Except.pure]
  apply h.reader_kept hpoint hstep hchanged (by simp [ReaderPoint.context]) (by simp) hbefore hheld
  · simp only [ReaderPoint.held, ReaderPoint.carried]
    omega
  · simp only [ReaderPoint.held, ReaderPoint.carried, ReaderPoint.owned]
    omega
  · exact hroom
  · simp [ReaderPoint.toGo]

/-- The reader destroys the context if its reference was the last. -/
theorem released_counts (h : s.Counted limit f)
    (hpoint : s.readers[i]? = some (.holding context [])) :
    Counts limit s f (.reader i) (.holding context [] ≠ ReaderPoint.finished) := by
  obtain rfl : context = i := h.own i _ hpoint context rfl
  have hcell := cell_reader h hpoint
  have hroom := room_reader h hpoint
  simp only [ReaderPoint.held, ReaderPoint.carried, ReaderPoint.owned, ReaderPoint.left]
    at hcell hroom
  have honce := hcell.once
  have halone := hcell.alone
  obtain ⟨before, hbefore⟩ := hcell.present (by omega)
  obtain ⟨changed, held, hrelease, hchanged, hheld, hcount⟩ := release_counts hcell (by omega)
  by_cases hzero : held.reference = 0
  · have hnone : held.reference.toNat = 0 := congrArg UInt32.toNat hzero
    have hstep : readerStep s (.holding context []) =
        .ok (⟨s.queue, changed, s.readers, s.sender⟩, .destroying context false, []) := by
      simp only [readerStep, hrelease, hzero, bind, Except.bind, pure, Except.pure, if_true]
    apply h.reader_kept hpoint hstep hchanged (by simp [ReaderPoint.context]) (by simp) hbefore
      hheld
    · simp only [ReaderPoint.held, ReaderPoint.carried]
      omega
    · simp only [ReaderPoint.held, ReaderPoint.carried, ReaderPoint.owned]
      omega
    · exact hroom
    · simp [ReaderPoint.toGo]
  · have hsome : held.reference.toNat ≠ 0 := fun hnone => hzero (UInt32.toNat_inj.mp hnone)
    have hstep : readerStep s (.holding context []) =
        .ok (⟨s.queue, changed, s.readers, s.sender⟩, .finished, []) := by
      simp only [readerStep, hrelease, hzero, bind, Except.bind, pure, Except.pure, if_false]
    apply h.reader_kept hpoint hstep hchanged (by simp [ReaderPoint.context]) (by simp) hbefore
      hheld
    · simp only [ReaderPoint.held, ReaderPoint.carried]
      omega
    · simp only [ReaderPoint.held, ReaderPoint.carried, ReaderPoint.owned]
      omega
    · exact hroom
    · simp [ReaderPoint.toGo]

theorem next_counts (h : s.Counted limit f) (hlimit : limit + 1 < 2 ^ 32)
    (hpoint : s.readers[i]? = some (.holding context (command :: commands))) :
    Counts limit s f (.reader i)
      (.holding context (command :: commands) ≠ ReaderPoint.finished) := by
  obtain rfl : context = i := h.own i _ hpoint context rfl
  have hcell := cell_reader h hpoint
  have hroom := room_reader h hpoint
  simp only [ReaderPoint.held, ReaderPoint.carried, ReaderPoint.owned, ReaderPoint.left,
    List.length_cons] at hcell hroom
  have honce := hcell.once
  have halone := hcell.alone
  obtain ⟨before, hbefore⟩ := hcell.present (by omega)
  obtain ⟨changed, held, hacquire, hchanged, hheld, hcount⟩ :=
    acquire_counts hcell (by omega) (by omega)
  have hstep : readerStep s (.holding context (command :: commands)) =
      .ok (⟨s.queue, changed, s.readers, s.sender⟩, .acquired context command commands, []) := by
    simp only [readerStep, hacquire, bind, Except.bind, pure, Except.pure]
  apply h.reader_kept hpoint hstep hchanged (by simp [ReaderPoint.context]) (by simp) hbefore hheld
  · simp only [ReaderPoint.held, ReaderPoint.carried]
    omega
  · simp only [ReaderPoint.held, ReaderPoint.carried, ReaderPoint.owned]
    omega
  · simp only [ReaderPoint.carried, ReaderPoint.left]
    omega
  · simp only [ReaderPoint.toGo, List.length_cons]
    omega

theorem destroying_counts (h : s.Counted limit f) {cleared : Bool}
    (hpoint : s.readers[i]? = some (.destroying context cleared)) :
    Counts limit s f (.reader i) (.destroying context cleared ≠ ReaderPoint.finished) := by
  obtain rfl : context = i := h.own i _ hpoint context rfl
  have hcell := cell_reader h hpoint
  have hroom := room_reader h hpoint
  simp only [ReaderPoint.held, ReaderPoint.carried, ReaderPoint.owned, ReaderPoint.left]
    at hcell hroom
  have honce := hcell.once
  have halone := hcell.alone (by omega)
  obtain ⟨before, hbefore⟩ := hcell.present (by omega)
  obtain ⟨changed, hdestroy, hchanged, hafter⟩ := destroy_counts hcell (by omega) cleared
  cases cleared with
  | false =>
    obtain ⟨held, hheld, hcount⟩ := hafter
    have hstep : readerStep s (.destroying context false) =
        .ok (⟨s.queue, changed, s.readers, s.sender⟩, .destroying context true, []) := by
      simp only [readerStep, hdestroy, bind, Except.bind, pure, Except.pure, Bool.false_eq_true,
        if_false]
    apply h.reader_kept hpoint hstep hchanged (by simp [ReaderPoint.context]) (by simp) hbefore
      hheld
    · simp only [ReaderPoint.held, ReaderPoint.carried]
      omega
    · simp only [ReaderPoint.held, ReaderPoint.carried, ReaderPoint.owned]
      omega
    · exact hroom
    · simp [ReaderPoint.toGo]
  | true =>
    have hstep : readerStep s (.destroying context true) =
        .ok (⟨s.queue, changed, s.readers, s.sender⟩, .finished, [.destroyed context]) := by
      simp only [readerStep, hdestroy, bind, Except.bind, pure, Except.pure, if_true]
    have hnobody : CellSound (changed.block context) (0 + (0 + s.taken f.queued context))
        (0 + s.sender.owned context) := by
      rw [show changed.block context = none from hafter,
        show 0 + (0 + s.taken f.queued context) = 0 by omega,
        show 0 + s.sender.owned context = 0 by omega]
      exact CellSound.of_none
    exact h.reader_alone hpoint hstep hchanged (by simp [ReaderPoint.context]) (by simp) hnobody
      hroom (gone_freed hchanged hbefore hafter) (fun _ => by simp [ReaderPoint.toGo])

theorem finished_counts (h : s.Counted limit f) (hpoint : s.readers[i]? = some .finished) :
    Counts limit s f (.reader i) (ReaderPoint.finished ≠ ReaderPoint.finished) :=
  h.reader_alone hpoint rfl ⟨fun _ _ => rfl, rfl⟩ (fun _ hcontext => nomatch hcontext)
    (fun _ _ _ heq => nomatch heq) (cell_reader h hpoint) (room_reader h hpoint) (fun _ => rfl)
    (fun hbusy => absurd rfl hbusy)

/-- No call has the item that is created next. -/
theorem adding_old {α β : Type} {queue : QueueSystem α β} {f : Fifo (Option α × Option β)}
    (h : ∃ nodes, queue.Shows f nodes) {call : ℕ × Option α × Option β} (hcall : call ∈ f.adding) :
    call.1 ≠ queue.items.fresh := by
  obtain ⟨nodes, h⟩ := h
  rw [h.adding] at hcall
  obtain ⟨block, hblock, -⟩ := h.created call hcall
  exact Nat.ne_of_lt (Heap.lt_fresh hblock)

/-- What the server holds after a step, it held before or it has just been added. -/
theorem held_after {α β : Type} {f : Fifo (Option α × Option β)} {a : QueueAction α β}
    {pair : Option α × Option β} (hpair : pair ∈ (fifoStep f a).1.held) :
    pair ∈ f.held ∨ pair ∈ addedPairs (fifoStep f a).2 := by
  rw [← List.mem_append, fifo_flow]
  exact List.mem_append.mpr (.inr hpair)

theorem create_counts (h : s.Counted limit f)
    (hpoint : s.readers[i]? = some (.acquired context command commands)) :
    Counts limit s f (.reader i) (.acquired context command commands ≠ ReaderPoint.finished) := by
  have hlt := (List.getElem?_eq_some_iff.mp hpoint).1
  obtain rfl : context = i := h.own i _ hpoint context rfl
  obtain ⟨queue, hcreate, hshows⟩ := step_shows h.shows (.create (some command) (some context))
  have hstep : readerStep s (.acquired context command commands) =
      .ok (⟨queue, s.contexts, s.readers, s.sender⟩,
        .adding context commands s.queue.items.fresh, []) := by
    simp only [readerStep, hcreate, bind, Except.bind, pure, Except.pure]
  have hticket : f.ticket = s.queue.items.fresh := by
    obtain ⟨nodes, hshown⟩ := h.shows
    exact hshown.ticket
  have hcell := cell_reader h hpoint
  have hroom := room_reader h hpoint
  refine h.reader_step hpoint hstep hshows (fifo_awake h.awake _) ?_ (.inl rfl) (fun _ _ => rfl)
    ⟨fun _ _ => rfl, rfl⟩ ?_ ?_ ?_ ?_ (fun _ => rfl) ?_
  · intro pair hpair
    rcases held_after hpair with hheld | hadded
    · exact h.paired pair hheld
    · simp [fifoStep, addedPairs] at hadded
  · simp [ReaderPoint.context]
  · simp only [fifoStep, hticket]
    exact h.matched.create hlt fun call hcall => adding_old h.shows hcall
  · exact hcell
  · exact hroom
  · intro _
    simp only [ReaderPoint.toGo, fifoStep]
    omega

theorem find_of_nodup {α β : Type} [DecidableEq β] {key : α → β} {l : List α}
    (hdistinct : (l.map key).Nodup) {a : α} (ha : a ∈ l) :
    l.find? (fun b => key b = key a) = some a := by
  cases hfind : l.find? fun b => key b = key a with
  | none => simpa using List.find?_eq_none.mp hfind a ha
  | some b =>
    have hkey : key b = key a := by simpa using List.find?_some hfind
    rw [List.inj_on_of_nodup_map hdistinct (List.mem_of_find?_eq_some hfind) ha hkey]

/-- A call adds what it has created. -/
theorem fifo_add {α β : Type} {queue : QueueSystem α β} {f : Fifo (Option α × Option β)}
    (h : ∃ nodes, queue.Shows f nodes) {call : ℕ × Option α × Option β} (hcall : call ∈ f.adding) :
    fifoStep f (.add call.1) = ({ f with
      adding := f.adding.filter fun other => other.1 ≠ call.1
      queued := f.queued ++ [call.2]
      server := if f.queued = [] then f.server.wake else f.server }, [.added call.2]) := by
  obtain ⟨nodes, h⟩ := h
  have hdistinct : (f.adding.map Prod.fst).Nodup := by
    rw [h.adding]
    exact h.addingDistinct
  simp only [fifoStep, find_of_nodup hdistinct hcall]

theorem add_counts (h : s.Counted limit f) {newItem : ℕ}
    (hpoint : s.readers[i]? = some (.adding context commands newItem)) :
    Counts limit s f (.reader i) (.adding context commands newItem ≠ ReaderPoint.finished) := by
  obtain rfl : context = i := h.own i _ hpoint context rfl
  obtain ⟨command, hcall⟩ := h.matched.calls context context commands newItem hpoint
  obtain ⟨queue, hadd, hshows⟩ := step_shows h.shows (.add newItem)
  have hawake := fifo_awake h.awake (.add newItem)
  have hheld := fun pair => @held_after _ _ f (.add newItem) pair
  have hcell := cell_reader h hpoint
  have hroom := room_reader h hpoint
  simp only [ReaderPoint.held, ReaderPoint.carried, ReaderPoint.owned, ReaderPoint.left,
    ContextSystem.taken] at hcell hroom
  rw [fifo_add h.shows hcall] at hadd hshows hawake hheld
  have hstep : readerStep s (.adding context commands newItem) =
      .ok (⟨queue, s.contexts, s.readers, s.sender⟩, .holding context commands, []) := by
    simp only [readerStep, hadd, bind, Except.bind, pure, Except.pure]
  have hroused : Roused f.server (if f.queued = [] then f.server.wake else f.server) := by
    split_ifs
    · exact .inr rfl
    · exact .inl rfl
  have hqueued : queuedWith (f.queued ++ [(some command, some context)]) context =
      queuedWith f.queued context + 1 := by
    simp [queuedWith]
  refine h.reader_step hpoint hstep hshows hawake ?_ hroused ?_ ⟨fun _ _ => rfl, rfl⟩ ?_
    (h.matched.add hpoint (by simp)) ?_ ?_ (fun _ => rfl) ?_
  · intro pair hpair
    rcases hheld pair hpair with hold | hnew
    · exact h.paired pair hold
    · simp only [addedPairs, List.filterMap_cons, List.filterMap_nil, List.mem_singleton] at hnew
      exact ⟨command, by rw [hnew]⟩
  · intro c hc
    simp [queuedWith, Ne.symm hc]
  · simp [ReaderPoint.context]
  -- The command's reference goes from the reader to the queue, so their number stays.
  · simp only [hqueued, ReaderPoint.held, ReaderPoint.carried, ReaderPoint.owned]
    rwa [show 1 + (0 + (queuedWith f.queued context + 1 + handed s.queue.handler.inHand context
      s.sender)) = 1 + (1 + (queuedWith f.queued context + handed s.queue.handler.inHand context
      s.sender)) by omega]
  · simp only [hqueued, ReaderPoint.carried, ReaderPoint.left]
    omega
  · intro _
    simp only [ReaderPoint.toGo, List.length_append, List.length_singleton]
    omega

/-- A reader counts its references at every step. -/
theorem reader_counts (h : s.Counted limit f) (hlimit : limit + 1 < 2 ^ 32)
    (hpoint : s.readers[i]? = some point) :
    Counts limit s f (.reader i) (point ≠ .finished) := by
  cases point with
  | created context commands => exact created_counts h hpoint
  | holding context commands =>
    cases commands with
    | nil => exact released_counts h hpoint
    | cons command commands => exact next_counts h hlimit hpoint
  | acquired context command commands => exact create_counts h hpoint
  | adding context commands newItem => exact add_counts h hpoint
  | destroying context cleared => exact destroying_counts h hpoint
  | finished => exact finished_counts h hpoint

end Readers

end RaveloxMidi
