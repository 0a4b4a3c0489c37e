import Bourse.Proofs.Relay.Delivery

/-! Who else there is makes no difference to a handler. Neither does it matter which handlers fail:
the dispatcher takes the same steps. Next to other handlers it takes other steps, but of the events
it takes each handler gets its own, and whatever a handler is given in one company it may be given
in any other. -/
namespace Bourse.Relay

open Dispatch

variable {d d' : Dispatcher} {r r' : Relay} {k k' first capacity : Nat}

def handOut (s : Dispatch) (due : List (Event × Handler × Nat)) : Dispatch :=
  due.foldl (fun s x => s.deliver x.1 x.2) s

@[simp]
theorem handOut_nil (s : Dispatch) : handOut s [] = s := rfl

@[simp]
theorem handOut_cons (s : Dispatch) (x : Event × Handler × Nat)
    (due : List (Event × Handler × Nat)) :
    handOut s (x :: due) = handOut (s.deliver x.1 x.2) due := rfl

theorem handOut_frame (s : Dispatch) (due : List (Event × Handler × Nat)) :
    (handOut s due).delivered = s.delivered ++ due.map (fun x => (x.2.2, x.1)) ∧
      (handOut s due).place = s.place ∧ (handOut s due).hand = s.hand ∧
      (handOut s due).queue = s.queue := by
  induction due generalizing s with
  | nil => simp
  | cons x due ih =>
    obtain ⟨delivered, place, hand, queue⟩ := ih (s.deliver x.1 x.2)
    refine ⟨?_, place, hand, queue⟩
    rw [handOut_cons, delivered]
    simp [deliver]

theorem run_hand (d : Dispatcher) (before after : List (Event × Handler × Nat))
    (due : r.due = before ++ after) : r.run d (List.replicate before.length .hand) =
      { r with dispatch := handOut r.dispatch before, due := after } := by
  induction before generalizing r with
  | nil =>
    have all : r.due = after := due
    simp [run, ← all]
  | cons x before ih =>
    have handed : r.act d .hand =
        { r with dispatch := r.dispatch.deliver x.1 x.2, due := before ++ after } := by
      simp [act, Relay.hand, due]
    have rest := ih (r := r.act d .hand) (by rw [handed])
    rw [handed] at rest
    simpa [List.replicate_succ, run, handed] using rest

theorem run_append (d : Dispatcher) (r : Relay) (acts more : List Act) :
    r.run d (acts ++ more) = (r.run d acts).run d more :=
  List.foldl_append

/-- Taking an event and handing it out is processing it. -/
theorem run_process (d : Dispatcher) (free : r.due = []) : ∃ acts, (r.run d acts).due = [] ∧
    (r.run d acts).broadcast = r.broadcast ∧ (r.run d acts).dispatch = r.dispatch.process d := by
  cases queue : r.dispatch.queue with
  | nil => exact ⟨[], free, rfl, by simp [run, process, queue]⟩
  | cons e rest =>
    have taken : r.run d [.take] = { r with
        dispatch := { r.dispatch with queue := rest }
        taken := r.taken ++ [e]
        due := (targets d e).map (e, ·) } := by
      simp [run, act, Relay.take, free, queue]
    have handed := run_hand (r := r.run d [.take]) d ((targets d e).map (e, ·)) []
      (by rw [taken, List.append_nil])
    refine ⟨.take :: List.replicate ((targets d e).map (e, ·)).length .hand, ?_⟩
    rw [← List.singleton_append, run_append, handed, taken]
    simp [process, queue, handOut, List.foldl_map]

theorem receive_frame (r : Relay) : r.receive.dispatch = r.dispatch.receive r.broadcast.feed ∧
    r.receive.broadcast.feed = r.broadcast.feed ∧ r.receive.due = r.due ∧
    r.receive.dispatch.delivered = r.dispatch.delivered := by
  cases free : r.dispatch.hand with
  | some e => simp [Relay.receive, Dispatch.receive, free]
  | none =>
    obtain ⟨-, -, -, delivered⟩ := receive_of_free free r.broadcast.feed
    simp [Relay.receive, free, Broadcast.look, delivered]

theorem stow_delivered (d : Dispatcher) (s : Dispatch) : (s.stow d).delivered = s.delivered := by
  rw [Dispatch.stow]
  split
  · split <;> rfl
  · rfl

/-- What a dispatcher does to settle are steps of its two tasks. -/
theorem run_rounds (d : Dispatcher) (n : Nat) (free : r.due = []) : ∃ acts,
    (r.run d acts).dispatch = rounds d r.broadcast.feed n r.dispatch := by
  induction n generalizing r with
  | zero => exact ⟨[], rfl⟩
  | succ n ih =>
    obtain ⟨received, feed, due, -⟩ := receive_frame r
    have stowed : (r.run d [.receive, .stow]).due = [] := due.trans free
    obtain ⟨handing, free, broadcast, processed⟩ := run_process d stowed
    obtain ⟨more, settled⟩ := ih free
    refine ⟨[.receive, .stow] ++ handing ++ more, ?_⟩
    rw [run_append, run_append, settled, broadcast, processed]
    simp [run, act, received, feed, rounds]

/-- As much has been published, read and taken. -/
structure Abreast (r r' : Relay) : Prop where
  broadcast : r'.broadcast = r.broadcast
  place : r'.dispatch.place = r.dispatch.place
  hand : r'.dispatch.hand = r.dispatch.hand
  queue : r'.dispatch.queue = r.dispatch.queue
  taken : r'.taken = r.taken

theorem Abreast.trans {r'' : Relay} (h : Abreast r r') (h' : Abreast r' r'') : Abreast r r'' where
  broadcast := h'.broadcast.trans h.broadcast
  place := h'.place.trans h.place
  hand := h'.hand.trans h.hand
  queue := h'.queue.trans h.queue
  taken := h'.taken.trans h.taken

theorem Abreast.around (h : Abreast r r') (b : Bustle Event) :
    Abreast { r with broadcast := r.broadcast.after b }
      { r' with broadcast := r'.broadcast.after b } where
  broadcast := congrArg (·.after b) h.broadcast
  place := h.place
  hand := h.hand
  queue := h.queue
  taken := h.taken

theorem Abreast.receive (h : Abreast r r') : Abreast r.receive r'.receive := by
  obtain ⟨broadcast, ⟨place, hand, queue, delivered, texts⟩, taken, due⟩ := r
  obtain ⟨broadcast', ⟨place', hand', queue', delivered', texts'⟩, taken', due'⟩ := r'
  obtain ⟨rfl, rfl, rfl, rfl, rfl⟩ := h
  cases hand' with
  | some e => exact ⟨rfl, rfl, rfl, rfl, rfl⟩
  | none =>
    simp only [Relay.receive, Dispatch.receive]
    cases broadcast'.feed.read place' with
    | mk what place => cases what <;> exact ⟨rfl, rfl, rfl, rfl, rfl⟩

theorem Abreast.stow (buffer : d'.buffer = d.buffer) (h : Abreast r r') :
    Abreast (r.act d .stow) (r'.act d' .stow) := by
  obtain ⟨broadcast, place, hand, queue, taken⟩ := h
  simp only [Relay.act, Dispatch.stow, hand, queue, buffer]
  cases r.dispatch.hand with
  | none => exact ⟨broadcast, place, hand, queue, taken⟩
  | some e =>
    dsimp only
    split
    · exact ⟨broadcast, place, rfl, rfl, taken⟩
    · exact ⟨broadcast, place, hand, queue, taken⟩

theorem take_delivered (d : Dispatcher) (r : Relay) :
    (r.take d).dispatch.delivered = r.dispatch.delivered := by
  rw [Relay.take]
  split <;> rfl

theorem Abreast.take (h : Abreast r r') (free : r.due = []) (free' : r'.due = []) :
    Abreast (r.take d) (r'.take d') := by
  have queue := h.queue
  cases next : r.dispatch.queue with
  | nil =>
    rw [next] at queue
    simpa only [Relay.take, free, free', next, queue] using h
  | cons e rest =>
    rw [next] at queue
    simp only [Relay.take, free, free', next, queue]
    exact ⟨h.broadcast, h.place, h.hand, rfl, by rw [h.taken]⟩

/-- The dispatchers have as much room, and handlers for the same topics. -/
structure Twins (d d' : Dispatcher) : Prop where
  buffer : d'.buffer = d.buffer
  topics : d'.handlers.map (·.topics) = d.handlers.map (·.topics)

theorem duties_eq (d : Dispatcher) (e : Event) : duties d e =
    (d.handlers.map (·.topics)).zipIdx.flatMap fun t =>
      List.replicate (t.1.count e.kind.name) (t.2, e) := by
  simp [duties, targets, List.zipIdx_map, List.map_flatMap, List.flatMap_map]

theorem Twins.duties (twins : Twins d d') (e : Event) :
    Dispatch.duties d' e = Dispatch.duties d e := by
  rw [duties_eq, duties_eq, twins.topics]

/-- The same state but for the texts of failures and what handlers make of events. -/
structure Same (r r' : Relay) : Prop where
  abreast : Abreast r r'
  delivered : r'.dispatch.delivered = r.dispatch.delivered
  owed : r'.owed = r.owed

theorem Same.due_nil (same : Same r r') (free : r.due = []) : r'.due = [] := by
  have owed := same.owed
  simpa only [Relay.owed, free, List.map_nil, List.map_eq_nil_iff] using owed

theorem Same.due_cons (same : Same r r') {e : Event} {t : Handler × Nat}
    {rest : List (Event × Handler × Nat)} (due : r.due = (e, t) :: rest) :
    ∃ t' rest', r'.due = (e, t') :: rest' ∧ t'.2 = t.2 ∧
      rest'.map (fun x => (x.2.2, x.1)) = rest.map fun x => (x.2.2, x.1) := by
  have owed := same.owed
  rw [Relay.owed, Relay.owed, due, List.map_cons, List.map_eq_cons_iff] at owed
  obtain ⟨⟨e', t'⟩, rest', due', here, later⟩ := owed
  simp only [Prod.mk.injEq] at here
  exact ⟨t', rest', by rw [due', here.2], here.1, later⟩

theorem Same.take (twins : Twins d d') (same : Same r r') : Same (r.take d) (r'.take d') := by
  cases due : r.due with
  | cons x rest =>
    obtain ⟨t', rest', due', -, -⟩ := same.due_cons due
    simpa only [Relay.take, due, due'] using same
  | nil =>
    have free := same.due_nil due
    refine ⟨same.abreast.take due free, ?_, ?_⟩
    · simpa only [take_delivered] using same.delivered
    · have queue := same.abreast.queue
      cases next : r.dispatch.queue with
      | nil =>
        rw [next] at queue
        simpa only [Relay.take, due, free, next, queue] using same.owed
      | cons e rest =>
        rw [next] at queue
        simpa [Relay.take, due, free, next, queue, Relay.owed, Dispatch.duties,
          Function.comp_def] using twins.duties e

theorem Same.hand (same : Same r r') : Same r.hand r'.hand := by
  cases due : r.due with
  | nil => simpa only [Relay.hand, due, same.due_nil due] using same
  | cons x rest =>
    obtain ⟨e, t⟩ := x
    obtain ⟨t', rest', due', target, later⟩ := same.due_cons due
    obtain ⟨broadcast, place, hand, queue, taken⟩ := same.abreast
    simp only [Relay.hand, due, due']
    refine ⟨⟨broadcast, place, hand, queue, taken⟩, ?_, later⟩
    simp [deliver, same.delivered, target]

/-- Whatever the handlers make of the events, the dispatcher takes the same step. -/
theorem Same.act (twins : Twins d d') (same : Same r r') (a : Act) :
    Same (r.act d a) (r'.act d' a) := by
  have abreast := same.abreast
  cases a with
  | around b => exact ⟨abreast.around b, same.delivered, same.owed⟩
  | receive =>
    obtain ⟨-, -, due, delivered⟩ := receive_frame r
    obtain ⟨-, -, due', delivered'⟩ := receive_frame r'
    refine ⟨abreast.receive, ?_, ?_⟩
    · exact delivered'.trans (same.delivered.trans delivered.symm)
    · simpa only [Relay.act, Relay.owed, due, due'] using same.owed
  | stow =>
    refine ⟨abreast.stow twins.buffer, ?_, same.owed⟩
    simpa only [Relay.act, stow_delivered] using same.delivered
  | take => exact same.take twins
  | hand => exact same.hand

theorem Same.run (twins : Twins d d') (same : Same r r') (acts : List Act) :
    Same (r.run d acts) (r'.run d' acts) := by
  induction acts generalizing r r' with
  | nil => exact same
  | cons a acts ih => exact ih (same.act twins a)

theorem exists_hands (d : Dispatcher) {before after : List (Event × Handler × Nat)}
    (due : r.due = before ++ after) (k : Nat) : ∃ acts, Abreast r (r.run d acts) ∧
      (r.run d acts).due = after ∧ (r.run d acts).dispatch.given k =
        r.dispatch.given k ++ addressed k (before.map fun x => (x.2.2, x.1)) := by
  obtain ⟨delivered, place, hand, queue⟩ := handOut_frame r.dispatch before
  refine ⟨List.replicate before.length .hand, ?_⟩
  rw [run_hand d before after due]
  refine ⟨⟨rfl, place, hand, queue, rfl⟩, rfl, ?_⟩
  rw [given_eq, delivered, addressed_append, given_eq]

theorem exists_split {due : List (Event × Handler × Nat)} {es more : List Event}
    (owes : addressed k (due.map fun x => (x.2.2, x.1)) = es ++ more) :
    ∃ before after, due = before ++ after ∧
      addressed k (before.map fun x => (x.2.2, x.1)) = es := by
  simp only [addressed, List.map_eq_append_iff, List.filter_eq_append_iff] at owes
  obtain ⟨_, _, ⟨_, _, ⟨before, after, due, rfl, rfl⟩, rfl, rfl⟩, here, -⟩ := owes
  exact ⟨before, after, due, here⟩

/-- One handler here and one there have been given the same. -/
structure Alike (k k' : Nat) (r r' : Relay) : Prop where
  abreast : Abreast r r'
  given : r'.dispatch.given k' = r.dispatch.given k

/-- What one handler gets here, the other can get there, whatever comes between. -/
theorem Alike.act (alike : Alike k k' r r') (buffer : d'.buffer = d.buffer)
    (share : addressed k' r'.owed = addressed k r.owed) (a : Act) :
    ∃ acts, Alike k k' (r.act d a) (r'.run d' acts) := by
  have abreast := alike.abreast
  have given := alike.given
  cases a with
  | around b => exact ⟨[.around b], abreast.around b, given⟩
  | receive =>
    refine ⟨[.receive], abreast.receive, ?_⟩
    simpa only [given_eq, Relay.run, Relay.act, List.foldl_cons, List.foldl_nil,
      (receive_frame _).2.2.2] using given
  | stow =>
    refine ⟨[.stow], abreast.stow buffer, ?_⟩
    simpa only [given_eq, Relay.run, Relay.act, List.foldl_cons, List.foldl_nil,
      stow_delivered] using given
  | take =>
    cases due : r.due with
    | cons x rest => exact ⟨[], by simpa [Relay.act, Relay.take, due, Relay.run] using alike⟩
    | nil =>
      -- the other dispatcher may still be busy, but not with the handler in question
      obtain ⟨acts, level, free, handed⟩ := exists_hands d' (List.append_nil r'.due).symm k'
      have nothing : addressed k' r'.owed = [] := by simpa [Relay.owed, due] using share
      rw [← Relay.owed, nothing, List.append_nil, given] at handed
      refine ⟨acts ++ [.take], ?_, ?_⟩
      · rw [run_append]
        exact (abreast.trans level).take due free
      · rw [run_append]
        simpa only [given_eq, Relay.run, Relay.act, List.foldl_cons, List.foldl_nil,
          take_delivered] using handed
  | hand =>
    cases due : r.due with
    | nil => exact ⟨[], by simpa [Relay.act, Relay.hand, due, Relay.run] using alike⟩
    | cons x rest =>
      obtain ⟨e, t⟩ := x
      have level : Abreast (r.act d .hand) r' := by
        simp only [Relay.act, Relay.hand, due]
        exact ⟨abreast.broadcast, abreast.place, abreast.hand, abreast.queue, abreast.taken⟩
      by_cases mine : t.2 = k
      · have owes : addressed k' r'.owed =
            [e] ++ addressed k (rest.map fun x => (x.2.2, x.1)) := by
          rw [share, Relay.owed, due]
          simp [mine]
        obtain ⟨before, after, due', here⟩ := exists_split owes
        obtain ⟨acts, on, -, handed⟩ := exists_hands d' due' k'
        refine ⟨acts, level.trans on, ?_⟩
        rw [handed, here, given]
        simp [Relay.act, Relay.hand, due, deliver, given_eq, mine]
      · refine ⟨[], level, given.trans ?_⟩
        simp [Relay.act, Relay.hand, due, deliver, given_eq, mine]

/-- Whatever a handler is given in one company, it may be given in any other. -/
theorem Alike.run {x x' : Handler} (alike : Alike k k' r r') (buffer : d'.buffer = d.buffer)
    (kept : r.Kept d capacity first) (kept' : r'.Kept d' capacity first)
    (here : d.handlers[k]? = some x) (here' : d'.handlers[k']? = some x')
    (topics : x'.topics = x.topics) (once : x.topics.Nodup) (acts : List Act) :
    ∃ acts', Alike k k' (r.run d acts) (r'.run d' acts') := by
  induction acts generalizing r r' with
  | nil => exact ⟨[], alike⟩
  | cons a acts ih =>
    have share : addressed k' r'.owed = addressed k r.owed := by
      have mine := kept.share here once
      have theirs := kept'.share here' (topics ▸ once)
      have wants : x'.wants = x.wants := by
        funext e
        rw [Handler.wants, topics, Handler.wants]
      rw [alike.given, alike.abreast.taken, wants, ← mine] at theirs
      exact List.append_cancel_left theirs
    obtain ⟨next, alike⟩ := alike.act buffer share a
    obtain ⟨more, alike⟩ := ih alike (kept.act a) (kept'.run next)
    exact ⟨next ++ more, by rwa [run_append]⟩

/-- However its tasks and what others do are interleaved, a dispatcher delivers in order what it
reads. If handlers fail, not a step of it is another; and next to whichever handlers, each can be
given just what it is given here. -/
theorem delivers_in_order {d : Dispatcher} {f : Feed Event} {capacity : Nat} {s : Dispatch}
    (once : ∀ x ∈ d.handlers, x.topics.Nodup) (used : f.Used capacity)
    (started : (d.start f).2 = .ok s) :
    (∀ acts, ((start f s).run d acts).InOrder d capacity) ∧
    (∀ d', Twins d d' → ∀ acts, Same ((start f s).run d acts) ((start f s).run d' acts)) ∧
    ∀ d' k k' x x', d'.buffer = d.buffer → d.handlers[k]? = some x → d'.handlers[k']? = some x' →
      x'.topics = x.topics → ∀ acts, ∃ acts',
        Alike k k' ((start f s).run d acts) ((start f s).run d' acts') := by
  have kept := kept_start used started
  obtain ⟨room, fresh⟩ := Dispatcher.start_ok started
  have level : Abreast (start f s) (start f s) := ⟨rfl, rfl, rfl, rfl, rfl⟩
  refine ⟨fun acts => (kept.run acts).inOrder room once, fun d' twins acts => ?_, ?_⟩
  · exact Same.run twins ⟨level, rfl, rfl⟩ acts
  · intro d' k k' x x' buffer here here' topics acts
    have given : (start f s).dispatch.given k' = (start f s).dispatch.given k := by
      rw [start, fresh]
      rfl
    have started' : (d'.start f).2 = .ok s := by simpa [Dispatcher.start, buffer] using started
    exact Alike.run ⟨level, given⟩ buffer kept (kept_start used started') here here' topics
      (once x (List.mem_of_getElem? here)) acts

/-- A feed that keeps one event, a queue with one place, a handler that always fails and one that
also wants orders. The second of three trades is lost; the second handler still waits for the
third. -/
theorem delivers_in_order_past_failures :
    let failing : Handler := ⟨[EventKind.traded.name], fun _ _ => .error "no"⟩
    let keen : Handler := ⟨[EventKind.added.name, EventKind.traded.name], fun _ _ => .ok ()⟩
    let d : Dispatcher := ⟨[failing, keen], 1⟩
    let f : Feed Event := ⟨1, 1, [], 0, 0, true⟩
    let trade (n : Nat) : Event := .traded { (default : Trade) with sequence := n } .epoch
    let r := (start f ⟨0, none, [], [], []⟩).run d [.around (.publish (trade 1)), .receive, .stow,
      .around (.publish (trade 2)), .around (.publish (trade 3)), .take, .receive, .hand, .receive,
      .hand, .stow, .take, .hand]
    r.InOrder d 1 ∧ r.dispatch.given 0 = [trade 1, trade 3] ∧ r.dispatch.given 1 = [trade 1] ∧
      r.owed = [(1, trade 3)] ∧ r.dispatch.failures = ["no", "no"] := by
  intro failing keen d f trade r
  have once : ∀ x ∈ d.handlers, x.topics.Nodup := by
    intro x hx
    simp only [d, List.mem_cons, List.not_mem_nil, or_false] at hx
    rcases hx with rfl | rfl <;> decide
  exact ⟨(delivers_in_order once (.new rfl : f.Used 1) rfl).1 _, by decide, by decide, by decide,
    by decide⟩

end Bourse.Relay
