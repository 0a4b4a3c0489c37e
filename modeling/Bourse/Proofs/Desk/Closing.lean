import Bourse.Proofs.Desk.Hall

/-! How a hall comes to rest. Whatever was called, in whatever order it came in, the desk has then
done the commands ahead of the first shutdown and no others, and all who waited have an answer, but
for those who were admitted too early to be turned away and went into line too late to be seen. -/
namespace Bourse

theorem Engine.Sound.restore {e : Engine} (h : e.Sound) (os : List Order) :
    ∃ e' placed, e.restore os = .ok (e', placed) ∧ e'.Sound := by
  obtain ⟨e', placed, hok, returned⟩ := h.restoreAll (os.mergeSort Order.comesBefore)
  exact ⟨e', placed, hok, (returned.advances h).sound⟩

namespace Desk

theorem start_sound (store : Store) (feed : Feed Event) :
    ∃ d, start store feed = .ok d ∧ d.engine.Sound ∧ d.serving = true := by
  have opening {e : Engine} (sound : e.Sound) (store : Store) (os : List Order) :
      ∃ d : Desk, ((e.restore os).bind fun p =>
        .ok ⟨p.1, store.record ((moved os p.2).map .updated), feed, true⟩) = .ok d ∧
      d.engine.Sound ∧ d.serving = true := by
    obtain ⟨e', placed, hok, sound'⟩ := sound.restore os
    rw [hok]
    exact ⟨_, rfl, sound', rfl⟩
  rcases looked : store.lastTrade with ⟨store₁, last⟩
  rcases opened : store₁.openOrders with ⟨store₂, stored⟩
  simp only [start, looked, opened]
  cases last with
  | ok n =>
    cases stored with
    | ok os => exact opening (Engine.sound_new.resume n) store₂ os
    | error _ => exact ⟨_, rfl, Engine.sound_new.resume n, rfl⟩
  | error _ =>
    cases stored with
    | ok os => exact opening Engine.sound_new store₂ os
    | error _ => exact ⟨_, rfl, Engine.sound_new, rfl⟩

end Desk

namespace Hall

/-- How much there is to do while nobody calls. Whoever waits outside may have to be admitted, to go
into line, to get ready, and to be taken from it. -/
def toDo (h : Hall) : Nat :=
  4 * h.outside.length + 3 * h.admitted.length + h.unready.length +
    (h.entered.length - h.seen) + (if h.isOpen then 1 else 0) + if h.isSwept then 0 else 1

variable {room : Nat} {clock : Nat → Moment} {first : Desk} {h h' : Hall} {c : Call}
  {rs : List (Except Rejection Reply)}

theorem Serves.toDo_lt (step : Serves room clock h h') (within : h.seen ≤ h.entered.length) :
    h'.toDo < h.toDo := by
  have taken {i : Nat} {c : Call} (found : h.entered[i]? = some c) : i < h.entered.length :=
    (List.getElem?_eq_some_iff.mp found).1
  cases step with
  | letIn _ _ out =>
    simp only [toDo, out, List.length_append, List.length_cons, List.length_nil]
    omega
  | enter door =>
    simp only [toDo, door, List.length_append, List.length_cons, List.length_nil]
    omega
  | @ready c _ unready =>
    have fewer : (h.unready.filter (· ≠ c.number)).length < h.unready.length :=
      List.length_filter_lt_length_iff_exists.mpr ⟨_, unready, by simp⟩
    simp only [toDo, answer]
    omega
  | work _ found =>
    have := taken found
    simp only [toDo, answer]
    omega
  | stop _ found =>
    have := taken found
    simp only [toDo]
    omega
  | close _ isOpen => simp [toDo, isOpen]
  | dismiss _ _ found =>
    have := taken found
    simp only [toDo, answer]
    omega
  | sweep _ unswept => simp [toDo, unswept]
  | refuse _ out =>
    simp only [toDo, answer, out, List.length_append, List.length_cons]
    omega

/-- Once the line is swept and nobody is on the way, nothing more is done. -/
theorem settled_of_swept (stopped : h.desk.serving = false) (shut : h.isOpen = false)
    (swept : h.isSwept = true) (outside : h.outside = []) (admitted : h.admitted = [])
    (ready : h.unready = []) : Settled room clock h := by
  intro h' step
  cases step with
  | letIn isOpen => exact absurd (isOpen.symm.trans shut) nofun
  | enter door => exact absurd (door.symm.trans admitted) (by simp)
  | ready _ unready => exact absurd (ready ▸ unready) List.not_mem_nil
  | work serving => exact absurd (serving.symm.trans stopped) nofun
  | stop serving => exact absurd (serving.symm.trans stopped) nofun
  | close _ isOpen => exact absurd (isOpen.symm.trans shut) nofun
  | dismiss _ unswept => exact absurd (swept.symm.trans unswept) nofun
  | sweep _ unswept => exact absurd (swept.symm.trans unswept) nofun
  | refuse _ out => exact absurd (out.symm.trans outside) (by simp)

theorem Serves.firstLetIn {after : List Call} (isOpen : h.isOpen = true)
    (space : h.admitted.length + h.entered.length < h.seen + room)
    (out : h.outside = c :: after) :
    Serves room clock h { h with outside := after, admitted := h.admitted ++ [c] } :=
  @Serves.letIn room clock h [] after c isOpen space out nofun

theorem Serves.firstEnters {after : List Call} (door : h.admitted = c :: after) :
    Serves room clock h { h with
      admitted := after
      entered := h.entered ++ [c]
      unready := c.number :: h.unready } :=
  @Serves.enter room clock h [] after c door nofun

theorem Serves.firstRefused {after : List Call} (shut : h.isOpen = false)
    (out : h.outside = c :: after) : Serves room clock h ({ h with outside := after }.answer c
      [.reply (.error (.unavailable Desk.closedText))]) :=
  @Serves.refuse room clock h [] after c shut out

theorem Settled.all_ready (settled : Settled room clock h) (a : h.Answered rs) :
    h.unready = [] := by
  refine List.eq_nil_iff_forall_not_mem.mpr fun m unready => ?_
  obtain ⟨c, inLine, rfl⟩ := a.known m unready
  exact settled _ (.ready inLine unready)

theorem Settled.admitted_eq_nil (settled : Settled room clock h) : h.admitted = [] := by
  cases door : h.admitted with
  | nil => rfl
  | cons c after => exact absurd (.firstEnters door) (settled _)

theorem Settled.taken (settled : Settled room clock h) (w : h.Working first clock rs)
    (a : h.Answered rs) (serving : h.desk.serving = true) : h.seen = h.entered.length := by
  -- Whoever is next in line is ready, and so can be taken from it.
  refine (Nat.eq_or_lt_of_le w.within).resolve_right fun lt => ?_
  have found := List.getElem?_eq_getElem lt
  have ready : h.entered[h.seen].number ∉ h.unready := by simp [settled.all_ready a]
  cases message : h.entered[h.seen].message with
  | shutdown => exact settled _ (.stop serving found ready message)
  | command command =>
    obtain ⟨d, r, handled, -⟩ := h.desk.handle_spec w.sound command (clock h.seen)
    exact settled _ (.work serving found ready message handled)

theorem Settled.shut (settled : Settled room clock h) (stopped : h.desk.serving = false) :
    h.isOpen = false :=
  Bool.eq_false_iff.mpr fun isOpen => settled _ (.close stopped isOpen)

theorem Settled.swept (settled : Settled room clock h) (a : h.Answered rs)
    (stopped : h.desk.serving = false) : h.isSwept = true := by
  have shut := settled.shut stopped
  refine Bool.eq_true_of_not_eq_false fun unswept => ?_
  refine settled _ (.sweep shut unswept fun c found => absurd (.dismiss shut unswept found ?_)
    (settled _))
  simp [settled.all_ready a]

theorem Settled.outside_eq_nil (settled : Settled room clock h) (w : h.Working first clock rs)
    (a : h.Answered rs) (some : 0 < room) : h.outside = [] := by
  cases out : h.outside with
  | nil => rfl
  | cons c after =>
    exfalso
    cases serving : h.desk.serving with
    | true =>
      have isOpen : h.isOpen = true := by
        refine Bool.eq_true_of_not_eq_false fun shut => ?_
        rw [w.closed shut] at serving
        cases serving
      have space : h.admitted.length + h.entered.length < h.seen + room := by
        rw [settled.admitted_eq_nil, settled.taken w a serving, List.length_nil, Nat.zero_add]
        exact Nat.lt_add_of_pos_right some
      exact settled _ (.firstLetIn isOpen space out)
    | false => exact settled _ (.firstRefused (settled.shut serving) out)

/-- The first commands in line have been done one after the other, and their callers are told what
came of it unless they have stopped waiting. The desk stops at the first shutdown only, and until
then nobody else is told anything; from then on others are told that the desk is not there, but
those who are lost are told nothing. A shutdown is done for its caller wherever it stands. -/
structure Orderly (first : Desk) (clock : Nat → Moment) (h : Hall) : Prop where
  numbered : h.Numbered
  done : ∃ (d : Desk) (rs : List (Except Rejection Reply)),
    first.work clock ((h.served.map (·.2)).map .command) = .ok (d, rs) ∧
    h.desk = { d with serving := h.desk.serving } ∧
    ∀ (i n : Nat) (command : Command), h.served[i]? = some (n, command) →
      ∃ r, rs[i]? = some r ∧ h.answers n = if n ∈ h.left then [] else [.reply r]
  stopped : h.desk.serving = false →
    h.served = ahead h.entered ∧ ∃ c ∈ h.entered, c.message = .shutdown
  others : ∀ c ∈ h.calls, c.message ≠ .shutdown → c.number ∉ h.served.map (·.1) →
    h.answers c.number = [] ∨ (h.desk.serving = false ∧
      ∃ text, h.answers c.number = [.reply (.error (.unavailable text))])
  lost : ∀ c ∈ h.lost, h.desk.serving = false ∧ c.number ∉ h.served.map (·.1) ∧
    (c.message ≠ .shutdown → h.answers c.number = [])
  shutdowns : ∀ c ∈ h.entered, c.message = .shutdown → c.number ∉ h.unready →
    h.answers c.number = [.sent]

/-- All commands ahead of the first shutdown have been done, and of those who waited just the lost
ones have no answer. -/
structure Finished (h : Hall) : Prop where
  served : h.served = ahead h.entered
  answered : ∀ c ∈ h.calls, c.message ≠ .shutdown → c.number ∉ h.left →
    ((∃ r, h.answers c.number = [.reply r]) ↔ c ∉ h.lost)

theorem Answered.ready_of_lt (a : h.Answered rs) {i : Nat} (found : h.entered[i]? = some c)
    (taken : i < h.seen) : c.number ∉ h.unready := fun unready =>
  Nat.not_lt.mpr (a.unready i c found unready).1 taken

/-- Who is not taken from the line has no reply. -/
theorem Answered.behind (a : h.Answered rs) {i : Nat} {command : Command}
    (found : h.entered[i]? = some c) (message : c.message = .command command)
    (waiting : h.seen ≤ i) : h.answers c.number = [] := by
  by_cases ready : c.number ∈ h.unready
  · exact (a.unready i c found ready).2.2
  · exact (a.line i c found ready).trans (told_waiting message waiting)

theorem Answered.served_replies (a : h.Answered rs) (w : h.Working first clock rs) {i n : Nat}
    {command : Command} (found : h.served[i]? = some (n, command)) :
    ∃ r, rs[i]? = some r ∧ h.answers n = if n ∈ h.left then [] else [.reply r] := by
  obtain ⟨taken, found⟩ : i < h.seen ∧ (ahead h.entered)[i]? = some (n, command) := by
    rwa [Hall.served, List.getElem?_take, Option.ite_none_right_eq_some] at found
  have inside := (List.getElem?_eq_some_iff.mp found).1
  have within := Nat.lt_of_lt_of_le inside (ahead_length_le h.entered)
  obtain ⟨_, message, same⟩ := getElem?_ahead inside (List.getElem?_eq_getElem within)
  rw [found] at same
  cases same
  have replied : i < rs.length := by simp [w.replies, taken, inside]
  refine ⟨rs[i], List.getElem?_eq_getElem replied, ?_⟩
  have here := List.getElem?_eq_getElem within
  rw [a.line i _ here (a.ready_of_lt here taken), told_command message,
    List.getElem?_eq_getElem replied]
  by_cases gone : h.entered[i].number ∈ h.left <;> simp [gone, taken]

theorem Answered.unserved_in_line (a : h.Answered rs) (w : h.Working first clock rs) {i : Nat}
    {command : Command} (found : h.entered[i]? = some c) (message : c.message = .command command)
    (unserved : c.number ∉ h.served.map (·.1)) :
    h.answers c.number = [] ∨ (h.desk.serving = false ∧
      ∃ text, h.answers c.number = [.reply (.error (.unavailable text))]) := by
  by_cases seen : i < h.seen
  case neg => exact .inl (a.behind found message (Nat.le_of_not_lt seen))
  rw [a.line i c found (a.ready_of_lt found seen), told_command message]
  by_cases taken : i < h.seen ∧ c.number ∉ h.left
  · -- It was not ahead of the shutdown, or it would have been served.
    have behind : (ahead h.entered).length ≤ i := by
      refine Nat.le_of_not_lt fun inside => unserved ?_
      obtain ⟨command, -, here⟩ := getElem?_ahead inside found
      have one : h.served[i]? = some (c.number, command) := by
        rw [served, List.getElem?_take, if_pos taken.1, here]
      exact List.mem_map.mpr ⟨_, List.mem_of_getElem? one, rfl⟩
    have replies := w.replies
    have unread : rs[i]? = none := List.getElem?_eq_none (by omega)
    have stopped : h.desk.serving = false :=
      Bool.eq_false_iff.mpr fun serving => Nat.not_lt.mpr (w.serving.mp serving) (by omega)
    rw [if_pos taken, unread]
    exact .inr ⟨stopped, _, rfl⟩
  · exact .inl (if_neg taken)

/-- Whoever is lost stands behind the first shutdown. -/
theorem Working.lost_unserved (n : h.Numbered) (w : h.Working first clock rs) (gone : c ∈ h.lost) :
    h.desk.serving = false ∧ c.number ∉ h.served.map (·.1) := by
  obtain ⟨swept, i, behind, found⟩ := mem_lost.mp gone
  have stopped := w.ended swept
  refine ⟨stopped, fun taken => ?_⟩
  obtain ⟨⟨number, command⟩, one, same⟩ := List.mem_map.mp taken
  obtain ⟨j, here⟩ := List.mem_iff_getElem?.mp one
  rw [(w.stopped stopped).1] at here
  have inside := (List.getElem?_eq_some_iff.mp here).1
  have there := List.getElem?_eq_getElem (Nat.lt_of_lt_of_le inside (ahead_length_le h.entered))
  obtain ⟨_, -, twin⟩ := getElem?_ahead inside there
  rw [here] at twin
  cases twin
  have past := w.past stopped
  have place : j = i := n.place there found same
  omega

theorem Reached.orderly (sound : first.engine.Sound) (serving : first.serving = true)
    (reached : Reached room clock first h) : h.Orderly first clock := by
  obtain ⟨n, rs, w, a⟩ := reached.kept sound serving
  obtain ⟨d, ran, -, same⟩ := w.ran
  refine ⟨n, ⟨d, rs, ran, same, fun i n command found => a.served_replies w found⟩, w.stopped,
    ?_, ?_, ?_⟩
  · intro c hc command unserved
    by_cases inLine : c ∈ h.entered
    · obtain ⟨i, found⟩ := List.mem_iff_getElem?.mp inLine
      cases message : c.message with
      | shutdown => exact absurd message command
      | command => exact a.unserved_in_line w found message unserved
    · by_cases waits : c ∈ h.admitted ++ h.outside
      · exact .inl (a.waiting c waits).2
      · have absent : c ∉ h.present := fun here => (List.mem_append.mp here).elim inLine waits
        rcases a.rest c hc absent with ⟨-, nothing⟩ | ⟨-, shut, refused⟩
        · exact .inl nothing
        · exact .inr ⟨w.closed shut, _, refused⟩
  · intro c gone
    obtain ⟨stopped, unserved⟩ := w.lost_unserved n gone
    refine ⟨stopped, unserved, fun command => ?_⟩
    obtain ⟨-, i, behind, found⟩ := mem_lost.mp gone
    cases message : c.message with
    | shutdown => exact absurd message command
    | command => exact a.behind found message behind
  · intro c inLine message ready
    obtain ⟨i, found⟩ := List.mem_iff_getElem?.mp inLine
    rw [a.line i c found ready, told_shutdown message]

/-- At rest all those in line have been taken from it, but for the lost ones. -/
theorem Settled.seen_or_lost (settled : Settled room clock h) (w : h.Working first clock rs)
    (a : h.Answered rs) {i : Nat} (found : h.entered[i]? = some c) : i < h.seen ∨ c ∈ h.lost := by
  refine (Nat.lt_or_ge i h.seen).imp_right fun behind => ?_
  cases serving : h.desk.serving with
  | true =>
    have inside := (List.getElem?_eq_some_iff.mp found).1
    rw [settled.taken w a serving] at behind
    exact absurd inside (Nat.not_lt.mpr behind)
  | false => exact mem_lost.mpr ⟨settled.swept a serving, i, behind, found⟩

theorem Settled.served (settled : Settled room clock h) (w : h.Working first clock rs)
    (a : h.Answered rs) : h.served = ahead h.entered := by
  cases serving : h.desk.serving with
  | true => exact served_of_le (settled.taken w a serving ▸ ahead_length_le h.entered)
  | false => exact (w.stopped serving).1

theorem Reached.finished (sound : first.engine.Sound) (serving : first.serving = true)
    (reached : Reached room clock first h) (some : 0 < room) (settled : Settled room clock h) :
    h.Finished := by
  obtain ⟨n, rs, w, a⟩ := reached.kept sound serving
  refine ⟨settled.served w a, fun c hc command waits => ⟨?_, fun kept => ?_⟩⟩
  · rintro ⟨r, replied⟩ gone
    have silent := ((reached.orderly sound serving).lost c gone).2.2 command
    rw [silent] at replied
    cases replied
  · by_cases inLine : c ∈ h.entered
    · obtain ⟨i, found⟩ := List.mem_iff_getElem?.mp inLine
      have taken := (settled.seen_or_lost w a found).resolve_right kept
      cases message : c.message with
      | shutdown => exact absurd message command
      | command =>
        rw [a.line i c found (a.ready_of_lt found taken), told_command message,
          if_pos ⟨taken, waits⟩]
        exact ⟨_, rfl⟩
    · have absent : c ∉ h.present := by
        rw [present, settled.admitted_eq_nil, settled.outside_eq_nil w a some]
        simpa using inLine
      rcases a.rest c hc absent with ⟨gone, -⟩ | ⟨-, -, refused⟩
      · exact absurd gone waits
      · exact ⟨_, refused⟩

end Hall

namespace Desk

variable {m : Moment} {d d' : Desk} {cs : List Call} {rs : List (Except Rejection Reply)}
  {f : Call → List Answer}

theorem serve_closed (closed : d.serving = false)
    (told : ∀ c ∈ cs, f c = Hall.told [] 1 [] 0 c) :
    serve m d (cs.map (·.message)) = .ok (d, cs.flatMap f) := by
  induction cs with
  | nil => rfl
  | cons c cs ih =>
    have rest := ih fun b hb => told b (List.mem_cons_of_mem _ hb)
    have here := told c List.mem_cons_self
    cases message : c.message with
    | shutdown =>
      have same : { d with serving := false } = d := by rw [← closed]
      rw [Hall.told_shutdown message] at here
      simp [serve, message, same, rest, here]
    | command =>
      rw [Hall.told_command message] at here
      simp [serve, message, closed, rest, here]

theorem serve_told (serving : d.serving = true)
    (worked : d.work (fun _ => m) (((ahead cs).map (·.2)).map .command) = .ok (d', rs))
    (told : ∀ i c, cs[i]? = some c → f c = Hall.told rs cs.length [] i c) :
    serve m d (cs.map (·.message)) =
      .ok ({ d' with serving := decide (cs.length ≤ (ahead cs).length) }, cs.flatMap f) := by
  induction cs generalizing d rs with
  | nil =>
    cases worked
    simp [serve, ← serving]
  | cons c cs ih =>
    have here := told 0 c rfl
    cases message : c.message with
    | shutdown =>
      rw [ahead_cons_shutdown message] at worked ⊢
      cases worked
      rw [Hall.told_shutdown message] at here
      have unread : ∀ b ∈ cs, f b = Hall.told [] 1 [] 0 b := by
        intro b hb
        obtain ⟨i, found⟩ := List.mem_iff_getElem?.mp hb
        rw [told (i + 1) b found]
        exact Hall.told_unread (Nat.succ_lt_succ (List.getElem?_eq_some_iff.mp found).1)
      have closed : ({ d' with serving := false } : Desk).serving = false := rfl
      simp [serve, message, serve_closed closed unread, here]
    | command command =>
      rw [ahead_cons_command message] at worked ⊢
      obtain ⟨d₁, r, rs', handled, more, rfl⟩ := work_command worked
      rw [Hall.told_command message] at here
      have rest := ih ((handle_feed handled).2.trans serving) more fun i b found =>
        (told (i + 1) b found).trans Hall.told_cons
      simp [serve, message, serving, handled, rest, here]

end Desk

namespace Hall

variable {room : Nat} {clock : Nat → Moment} {first : Desk} {h : Hall}

/-- At rest, if nobody is lost or has stopped waiting, the desk and the answers are those of the
queue that came into line. -/
theorem Reached.serve_eq {m : Moment} (sound : first.engine.Sound) (serving : first.serving = true)
    (reached : Reached room (fun _ => m) first h) (settled : Settled room (fun _ => m) h)
    (found : h.lost = []) (stayed : h.left = []) :
    first.serve m (h.entered.map (·.message)) =
      .ok (h.desk, h.entered.flatMap fun c => h.answers c.number) := by
  obtain ⟨-, rs, w, a⟩ := reached.kept sound serving
  have all : h.seen = h.entered.length := by
    refine Nat.le_antisymm w.within (Nat.le_of_not_lt fun lt => ?_)
    have inside := List.getElem?_eq_getElem lt
    have gone := (settled.seen_or_lost w a inside).resolve_left (Nat.lt_irrefl _)
    rw [found] at gone
    cases gone
  obtain ⟨d, ran, -, same⟩ := w.ran
  rw [settled.served w a] at ran
  have told : ∀ i c, h.entered[i]? = some c →
      h.answers c.number = told rs h.entered.length [] i c := by
    intro i c found
    have taken : i < h.seen := all ▸ (List.getElem?_eq_some_iff.mp found).1
    rw [a.line i c found (a.ready_of_lt found taken), all, stayed]
  have still : decide (h.entered.length ≤ (ahead h.entered).length) = h.desk.serving := by
    rw [← all, Bool.eq_iff_iff, decide_eq_true_iff]
    exact w.serving.symm
  rw [Desk.serve_told serving ran told, still, ← same]

/-- Whoever is lost is never told anything, whatever else happens. -/
theorem Reached.never_answered (sound : first.engine.Sound) (serving : first.serving = true)
    (reached : Reached room clock first h) (later : Relation.ReflTransGen (Next room clock) h h')
    (gone : c ∈ h.lost) (command : c.message ≠ .shutdown) : h'.answers c.number = [] := by
  obtain ⟨reached', gone'⟩ : Reached room clock first h' ∧ c ∈ h'.lost := by
    induction later with
    | refl => exact ⟨reached, gone⟩
    | tail _ next ih =>
      obtain ⟨reached, gone⟩ := ih
      obtain ⟨-, rs, w, -⟩ := reached.kept sound serving
      exact ⟨next.elim reached.asked reached.served, w.lost_subset next gone⟩
  exact ((reached'.orderly sound serving).lost c gone').2.2 command

/-- Let any clients call and give up as they please before a desk over any store. What the desk has
done at any time is what it does for the first commands in line, one after the other, and those
commands stand ahead of the first shutdown. While nobody calls, each step brings the hall nearer to
its rest; at rest, all these commands have been done, and every command that is still waited for has
been answered once, but for those who stand in line where the sweep did not come: they are never
answered, whatever happens later. The counters of the desk are read below 2 to the 64th. -/
theorem one_after_the_other (store : Store) (feed : Feed Event) (buffer : Nat)
    (clock : Nat → Moment) :
    ∃ first, Desk.start store feed = .ok first ∧ ∀ h, Reached (max buffer 1) clock first h →
      h.Orderly first clock ∧
      (∀ h', Serves (max buffer 1) clock h h' → h'.toDo < h.toDo) ∧
      (Settled (max buffer 1) clock h → h.Finished) ∧
      ∀ h', Relation.ReflTransGen (Next (max buffer 1) clock) h h' → ∀ c ∈ h.lost,
        c.message ≠ .shutdown → h'.answers c.number = [] := by
  obtain ⟨first, started, sound, serving⟩ := Desk.start_sound store feed
  refine ⟨first, started, fun h reached => ⟨reached.orderly sound serving, ?_, ?_, ?_⟩⟩
  · obtain ⟨-, rs, w, -⟩ := reached.kept sound serving
    exact fun h' step => step.toDo_lt w.within
  · exact reached.finished sound serving (Nat.lt_of_lt_of_le Nat.one_pos (Nat.le_max_right _ _))
  · exact fun h' later c gone command => reached.never_answered sound serving later gone command

/-- One offer is taken in. The shutdown behind it goes into line before its cancellation does. Of
two who ask for the best offer one is admitted before the door is closed, but is not in line when it
is swept; the other one stands outside. -/
theorem one_after_the_other_past_shutdown :
    let ask : Order := .new ⟨"ask"⟩ .sell .one 2 .epoch
    let clock : Nat → Moment := fun _ => ⟨.epoch, .ofNat⟩
    ∃ first h, Desk.start (.ofLedger .empty) .standard = .ok first ∧ Reached 2 clock first h ∧
      h.Orderly first clock ∧ h.Finished ∧ h.served = [(0, .submit ask)] ∧
      h.answers 2 = [.reply (.error (.unavailable Desk.unansweredText))] ∧
      h.answers 4 = [.reply (.error (.unavailable Desk.closedText))] ∧
      ∀ h', Relation.ReflTransGen (Next 2 clock) h h' → h'.answers 3 = [] := by
  intro ask clock
  obtain ⟨first, started, all⟩ :=
    one_after_the_other (.ofLedger .empty) (.standard : Feed Event) 2 clock
  have empty := Desk.start_empty_eq .standard
  obtain ⟨sound, on⟩ : first.engine.Sound ∧ first.serving = true := by
    rw [started] at empty
    cases empty
    exact ⟨Engine.sound_new, rfl⟩
  obtain ⟨d, r, handled, -⟩ := first.handle_spec sound (.submit ask) (clock 0)
  have serving : d.serving = true := (Desk.handle_feed handled).2.trans on
  have stopped : d.shutdown.1.serving = false := by simp [Desk.shutdown, serving]
  let c₀ : Call := ⟨0, 0, .command (.submit ask)⟩
  let c₁ : Call := ⟨1, 1, .shutdown⟩
  let c₂ : Call := ⟨2, 0, .command (.cancel ask.id)⟩
  let c₃ : Call := ⟨3, 2, .command (.best .sell)⟩
  let c₄ : Call := ⟨4, 3, .command (.best .sell)⟩
  have called : Reached 2 clock first ⟨first, true, false, [c₀, c₁, c₂, c₃, c₄],
      [c₀, c₁, c₂, c₃, c₄], [], [], [], 0, fun _ => [], []⟩ :=
    ((((Reached.opened.asked (.call 0 _)).asked (.call 1 _)).asked (.call 0 _)).asked
      (.call 2 _)).asked (.call 3 _)
  have full : Reached 2 clock first ⟨first, true, false, [c₀, c₁, c₂, c₃, c₄],
      [c₂, c₃, c₄], [], [c₀, c₁], [], 0, _, []⟩ :=
    (((((called.served (.firstLetIn rfl (by simp) rfl)).served
      (.firstLetIn rfl (by simp) rfl)).served (.firstEnters rfl)).served
      (.ready (c := c₀) (by simp) (by simp))).served (.firstEnters rfl)).served
      (.ready (c := c₁) (by simp) (by simp))
  have worked : Reached 2 clock first ⟨d, true, false, [c₀, c₁, c₂, c₃, c₄],
      [c₃, c₄], [], [c₀, c₁, c₂], [], 1, _, []⟩ :=
    (((full.served (.work on rfl (by simp) rfl handled)).served
      (.firstLetIn rfl (by simp [answer]) rfl)).served (.firstEnters rfl)).served
      (.ready (c := c₂) (by simp) (by simp))
  have closed : Reached 2 clock first ⟨d.shutdown.1, false, false, [c₀, c₁, c₂, c₃, c₄],
      [c₄], [c₃], [c₀, c₁, c₂], [], 2, _, []⟩ :=
    ((worked.served (.stop serving rfl (by simp) rfl)).served
      (.firstLetIn rfl (by simp) rfl)).served (.close stopped rfl)
  have reached : Reached 2 clock first ⟨d.shutdown.1, false, true, [c₀, c₁, c₂, c₃, c₄],
      [], [], [c₀, c₁, c₂, c₃], [], 3, _, []⟩ :=
    ((((closed.served (.dismiss rfl rfl rfl (by simp))).served
      (.sweep rfl rfl (by simp [answer]))).served (.firstRefused rfl rfl)).served
      (.firstEnters rfl)).served (.ready (c := c₃) (by simp) (by simp))
  obtain ⟨orderly, -, finished, never⟩ := all _ reached
  have atRest := finished (settled_of_swept stopped rfl rfl rfl rfl rfl)
  exact ⟨_, _, started, reached, orderly, atRest, rfl, rfl, rfl,
    fun h' later => never h' later c₃ (by simp [lost]) (by simp [c₃])⟩

/-- Two shutdowns go into line, and somebody is admitted behind them. The desk stops at the first
shutdown, the door is closed and the line is swept; only then does he come into it. Though he goes
on waiting he is never answered, and the second shutdown is not told that the desk is gone. -/
theorem unanswered_behind_shutdown :
    let clock : Nat → Moment := fun _ => ⟨.epoch, .ofNat⟩
    let asking : Call := ⟨2, 2, .command (.best .sell)⟩
    ∃ first h, Desk.start (.ofLedger .empty) .standard = .ok first ∧
      Reached Desk.standardBuffer clock first h ∧ Settled Desk.standardBuffer clock h ∧
      h.entered = [⟨0, 0, .shutdown⟩, ⟨1, 1, .shutdown⟩, asking] ∧ h.left = [] ∧
      (∀ h', Relation.ReflTransGen (Next Desk.standardBuffer clock) h h' →
        h'.answers asking.number = []) ∧
      h.answers 1 = [.sent] := by
  intro clock c₂
  let c₀ : Call := ⟨0, 0, .shutdown⟩
  let c₁ : Call := ⟨1, 1, .shutdown⟩
  obtain ⟨first, started, sound, on⟩ := Desk.start_sound (.ofLedger .empty) .standard
  have stopped : first.shutdown.1.serving = false := by simp [Desk.shutdown, on]
  have called : Reached Desk.standardBuffer clock first
      ⟨first, true, false, [c₀, c₁, c₂], [], [c₀, c₁, c₂], [], [], 0, fun _ => [], []⟩ :=
    (((((Reached.opened.asked (.call 0 _)).asked (.call 1 _)).asked (.call 2 _)).served
      (.firstLetIn rfl (by simp [opened, Desk.standardBuffer]) rfl)).served
      (.firstLetIn rfl (by simp [opened, Desk.standardBuffer]) rfl)).served
      (.firstLetIn rfl (by simp [opened, Desk.standardBuffer]) rfl)
  have full : Reached Desk.standardBuffer clock first
      ⟨first, true, false, [c₀, c₁, c₂], [], [c₂], [c₀, c₁], [], 0, _, []⟩ :=
    (((called.served (.firstEnters rfl)).served (.ready (c := c₀) (by simp) (by simp))).served
      (.firstEnters rfl)).served (.ready (c := c₁) (by simp) (by simp))
  have swept : Reached Desk.standardBuffer clock first
      ⟨first.shutdown.1, false, true, [c₀, c₁, c₂], [], [c₂], [c₀, c₁], [], 2, _, []⟩ :=
    (((full.served (.stop on rfl (by simp) rfl)).served (.close stopped rfl)).served
      (.dismiss rfl rfl rfl (by simp))).served (.sweep rfl rfl (by simp [answer]))
  have reached : Reached Desk.standardBuffer clock first
      ⟨first.shutdown.1, false, true, [c₀, c₁, c₂], [], [], [c₀, c₁, c₂], [], 2, _, []⟩ :=
    (swept.served (.firstEnters rfl)).served (.ready (c := c₂) (by simp) (by simp))
  exact ⟨first, _, started, reached, settled_of_swept stopped rfl rfl rfl rfl rfl, rfl, rfl,
    fun h' later => reached.never_answered sound on later (c := c₂) (by simp [lost])
      (by simp [c₂]), rfl⟩

end Hall
end Bourse
