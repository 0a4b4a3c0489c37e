import Bourse.Desk.Hall
import Bourse.Proofs.Desk.Events
import Bourse.Proofs.Desk.Takeover

/-! The line before the desk: in what order calls come into it, and that the desk has done what it
would have done for the commands ahead of the first shutdown, one after the other. -/
namespace Bourse

/-- The commands ahead of the first shutdown, each with the number of its call. -/
def ahead : List Call → List (Nat × Command)
  | ⟨n, _, .command c⟩ :: cs => (n, c) :: ahead cs
  | _ => []

section Ahead

variable {cs ds : List Call} {c : Call} {i : Nat}

theorem ahead_cons_shutdown (h : c.message = .shutdown) : ahead (c :: cs) = [] := by
  obtain ⟨n, client, message⟩ := c
  cases h
  rfl

theorem ahead_cons_command {command : Command} (h : c.message = .command command) :
    ahead (c :: cs) = (c.number, command) :: ahead cs := by
  obtain ⟨n, client, message⟩ := c
  cases h
  rfl

theorem ahead_length_le (cs : List Call) : (ahead cs).length ≤ cs.length := by
  induction cs with
  | nil => exact Nat.le_refl 0
  | cons c cs ih =>
    cases h : c.message with
    | shutdown => simp [ahead_cons_shutdown h]
    | command _ => simpa [ahead_cons_command h] using ih

/-- What comes into line behind a shutdown changes nothing ahead of it. -/
theorem ahead_append_of_lt (h : (ahead cs).length < cs.length) : ahead (cs ++ ds) = ahead cs := by
  induction cs with
  | nil => cases h
  | cons c cs ih =>
    rw [List.cons_append]
    cases hc : c.message with
    | shutdown => rw [ahead_cons_shutdown hc, ahead_cons_shutdown hc]
    | command _ =>
      rw [ahead_cons_command hc] at h
      rw [ahead_cons_command hc, ahead_cons_command hc, ih (Nat.lt_of_succ_lt_succ h)]

theorem ahead_append_of_eq (h : (ahead cs).length = cs.length) :
    ahead (cs ++ ds) = ahead cs ++ ahead ds := by
  induction cs with
  | nil => rfl
  | cons c cs ih =>
    rw [List.cons_append]
    cases hc : c.message with
    | shutdown =>
      rw [ahead_cons_shutdown hc] at h
      cases h
    | command _ =>
      rw [ahead_cons_command hc] at h
      rw [ahead_cons_command hc, ahead_cons_command hc, ih (Nat.succ.inj h), List.cons_append]

theorem getElem?_ahead (inside : i < (ahead cs).length) (found : cs[i]? = some c) :
    ∃ command, c.message = .command command ∧ (ahead cs)[i]? = some (c.number, command) := by
  induction cs generalizing i with
  | nil => cases found
  | cons b cs ih =>
    cases hb : b.message with
    | shutdown =>
      rw [ahead_cons_shutdown hb] at inside
      cases inside
    | command command =>
      rw [ahead_cons_command hb] at inside ⊢
      cases i with
      | zero =>
        cases found
        exact ⟨command, hb, rfl⟩
      | succ i => exact ih (Nat.lt_of_succ_lt_succ inside) found

/-- The call behind those ahead of the first shutdown is this shutdown. -/
theorem message_at_ahead (h : cs[(ahead cs).length]? = some c) : c.message = .shutdown := by
  induction cs with
  | nil => cases h
  | cons b cs ih =>
    cases hb : b.message with
    | shutdown =>
      rw [ahead_cons_shutdown hb] at h
      cases h
      exact hb
    | command _ =>
      rw [ahead_cons_command hb] at h
      exact ih h

end Ahead

namespace Hall

/-- The commands that the desk has taken. -/
def served (h : Hall) : List (Nat × Command) := (ahead h.entered).take h.seen

/-- Those who are in the hall, from the head of the line to the last one outside. -/
def present (h : Hall) : List Call := h.entered ++ (h.admitted ++ h.outside)

/-- Calls have their numbers in the order they were made. Each waits or stands in line at most once,
and those of one client come in the order he made them, the ones outside last. -/
structure Numbered (h : Hall) : Prop where
  numbers : h.calls.map (·.number) = List.range h.calls.length
  known : ∀ c ∈ h.present, c ∈ h.calls
  distinct : (h.present.map (·.number)).Nodup
  inOrder : h.present.Pairwise fun a b => a.client = b.client → a.number < b.number

variable {room : Nat} {clock : Nat → Moment} {first : Desk} {h h' : Hall}

/-- Somebody may have gone. -/
theorem Numbered.of_sublist (n : h.Numbered) (calls : h'.calls = h.calls)
    (part : h'.present.Sublist h.present) : h'.Numbered where
  numbers := calls ▸ n.numbers
  known c hc := calls ▸ n.known c (part.subset hc)
  distinct := n.distinct.sublist (part.map _)
  inOrder := n.inOrder.sublist part

/-- Somebody has gone ahead, and overtaken calls of other clients only. -/
theorem Numbered.overtake (n : h.Numbered) (front before after : List Call) {c : Call}
    (inTurn : ∀ b ∈ before, b.client ≠ c.client) (calls : h'.calls = h.calls)
    (was : h.present = front ++ (before ++ c :: after))
    (now : h'.present = front ++ c :: (before ++ after)) : h'.Numbered := by
  have moved : h'.present.Perm h.present := by
    rw [was, now]
    exact List.perm_middle.symm.append_left _
  refine ⟨calls ▸ n.numbers, fun b hb => calls ▸ n.known b (moved.mem_iff.mp hb),
    (moved.map _).nodup_iff.mpr n.distinct, ?_⟩
  have inOrder := n.inOrder
  rw [was, List.pairwise_append, List.pairwise_append, List.pairwise_cons] at inOrder
  obtain ⟨ahead, ⟨overtaken, ⟨next, back⟩, across⟩, later⟩ := inOrder
  rw [now, List.pairwise_append, List.pairwise_cons, List.pairwise_append]
  have still {b : Call} (hb : b ∈ c :: (before ++ after)) : b ∈ before ++ c :: after := by
    simpa [or_left_comm] using hb
  refine ⟨ahead, ⟨?_, overtaken, back, fun a ha b hb => across a ha b (List.mem_cons_of_mem _ hb)⟩,
    fun a ha b hb => later a ha b (still hb)⟩
  intro b hb
  rcases List.mem_append.mp hb with hb | hb
  · exact fun same => absurd same.symm (inTurn b hb)
  · exact next b hb

theorem Numbered.below (n : h.Numbered) {c : Call} (hc : c ∈ h.calls) :
    c.number < h.calls.length := by
  have here := List.mem_map_of_mem (f := (·.number)) hc
  rw [n.numbers] at here
  exact List.mem_range.mp here

theorem Numbered.asks (n : h.Numbered) (step : Asks h h') : h'.Numbered := by
  cases step with
  | call client message =>
    have new : ∀ c ∈ h.present, c.number < h.calls.length := fun c hc => n.below (n.known c hc)
    have last : h.entered ++ (h.admitted ++ (h.outside ++ [⟨h.calls.length, client, message⟩])) =
        h.present ++ [⟨h.calls.length, client, message⟩] := by simp [present]
    constructor
    · simp [n.numbers, List.range_succ]
    · intro c hc
      rw [present, last] at hc
      rcases List.mem_append.mp hc with hc | hc
      · exact List.mem_append_left _ (n.known c hc)
      · exact List.mem_append_right _ hc
    · rw [present, last, List.map_append, List.nodup_append]
      refine ⟨n.distinct, List.nodup_singleton _, ?_⟩
      intro a ha b hb
      obtain ⟨c, hc, rfl⟩ := List.mem_map.mp ha
      rw [List.mem_singleton.mp hb]
      exact Nat.ne_of_lt (new c hc)
    · rw [present, last, List.pairwise_append]
      refine ⟨n.inOrder, List.pairwise_singleton _ _, ?_⟩
      intro a ha b hb _
      rw [List.mem_singleton.mp hb]
      exact new a ha
  | giveUp out =>
    refine n.of_sublist rfl ?_
    rw [present, present, out]
    exact (((List.sublist_cons_self _ _).append_left _).append_left _).append_left _
  | leave => exact ⟨n.numbers, n.known, n.distinct, n.inOrder⟩

theorem Numbered.serves (n : h.Numbered) (step : Serves room clock h h') : h'.Numbered := by
  cases step with
  | @letIn before after c _ _ out inTurn =>
    refine n.overtake (h.entered ++ h.admitted) before after inTurn rfl ?_ ?_ <;>
      simp [present, out]
  | @enter before after c door inTurn =>
    refine n.overtake h.entered before (after ++ h.outside) inTurn rfl ?_ ?_ <;>
      simp [present, door]
  | refuse _ out =>
    refine n.of_sublist rfl ?_
    rw [present, present, out]
    exact (((List.sublist_cons_self _ _).append_left _).append_left _).append_left _
  | ready => exact ⟨n.numbers, n.known, n.distinct, n.inOrder⟩
  | work => exact ⟨n.numbers, n.known, n.distinct, n.inOrder⟩
  | stop => exact ⟨n.numbers, n.known, n.distinct, n.inOrder⟩
  | close => exact ⟨n.numbers, n.known, n.distinct, n.inOrder⟩
  | dismiss => exact ⟨n.numbers, n.known, n.distinct, n.inOrder⟩
  | sweep => exact ⟨n.numbers, n.known, n.distinct, n.inOrder⟩

/-- The desk is where `first` is once it has handled the commands taken so far, and has given the
replies `rs`; it serves as long as no shutdown has been taken, and the door is closed and the line
swept only after that. -/
structure Working (first : Desk) (clock : Nat → Moment) (rs : List (Except Rejection Reply))
    (h : Hall) : Prop where
  sound : h.desk.engine.Sound
  within : h.seen ≤ h.entered.length
  serving : h.desk.serving = true ↔ h.seen ≤ (ahead h.entered).length
  closed : h.isOpen = false → h.desk.serving = false
  swept : h.isSwept = true → h.isOpen = false
  ran : ∃ d, first.work clock ((h.served.map (·.2)).map .command) = .ok (d, rs) ∧
    d.serving = true ∧ h.desk = { d with serving := h.desk.serving }

variable {rs : List (Except Rejection Reply)} {c : Call}

theorem Working.opened (sound : first.engine.Sound) (serving : first.serving = true) :
    Working first clock [] (.opened first) where
  sound := sound
  within := Nat.le_refl 0
  serving := ⟨fun _ => Nat.zero_le _, fun _ => serving⟩
  closed := nofun
  swept := nofun
  ran := ⟨first, rfl, serving, rfl⟩

theorem Working.asks (w : h.Working first clock rs) (step : Asks h h') :
    h'.Working first clock rs := by
  cases step <;> exact ⟨w.sound, w.within, w.serving, w.closed, w.swept, w.ran⟩

/-- The desk and the line have to do with nobody else. -/
theorem Working.elsewhere (w : h.Working first clock rs) {outside admitted : List Call}
    {unready : List Nat} {answers : Nat → List Desk.Answer} : Working first clock rs { h with
      outside := outside, admitted := admitted, unready := unready, answers := answers } :=
  ⟨w.sound, w.within, w.serving, w.closed, w.swept, w.ran⟩

theorem Working.enter (w : h.Working first clock rs) {admitted : List Call} {unready : List Nat} :
    Working first clock rs
      { h with admitted := admitted, entered := h.entered ++ [c], unready := unready } := by
  -- Behind a shutdown a call changes nothing ahead, and elsewhere it comes behind those taken.
  have same : (ahead (h.entered ++ [c])).take h.seen = (ahead h.entered).take h.seen ∧
      (h.seen ≤ (ahead (h.entered ++ [c])).length ↔ h.seen ≤ (ahead h.entered).length) := by
    have within := w.within
    rcases Nat.lt_or_eq_of_le (ahead_length_le h.entered) with lt | eq
    · rw [ahead_append_of_lt lt]
      exact ⟨rfl, .rfl⟩
    · rw [ahead_append_of_eq eq, List.length_append]
      exact ⟨List.take_append_of_le_length (by omega), by omega⟩
  exact
    { sound := w.sound
      within := Nat.le_trans w.within (by simp)
      serving := w.serving.trans same.2.symm
      closed := w.closed
      swept := w.swept
      ran := by
        unfold served
        rw [same.1]
        exact w.ran }

theorem Working.next (w : h.Working first clock rs) (serving : h.desk.serving = true)
    {command : Command} (found : h.entered[h.seen]? = some c)
    (message : c.message = .command command) :
    (ahead h.entered)[h.seen]? = some (c.number, command) := by
  rcases Nat.lt_or_eq_of_le (w.serving.mp serving) with lt | eq
  · obtain ⟨command', message', next⟩ := getElem?_ahead lt found
    rw [message] at message'
    cases message'
    exact next
  · rw [eq] at found
    rw [message_at_ahead found] at message
    cases message

end Hall

namespace Desk

variable {clock : Nat → Moment} {first d d' : Desk} {cs : List Command} {c : Command}
  {r : Except Rejection Reply} {rs : List (Except Rejection Reply)}

theorem work_concat (worked : first.work clock (cs.map .command) = .ok (d, rs))
    (handled : d.handle c (clock cs.length) = .ok (d', r)) :
    first.work clock ((cs ++ [c]).map .command) = .ok (d', rs ++ [r]) := by
  induction cs generalizing first clock rs with
  | nil =>
    cases worked
    rw [List.length_nil] at handled
    simp [work, handled]
  | cons b cs ih =>
    obtain ⟨d₁, r₁, rs', one, more, rfl⟩ := work_command worked
    have last := ih more handled
    simp only [List.cons_append, List.map_cons, work, one, last, ok_bind]
    rfl

theorem work_length (worked : first.work clock (cs.map .command) = .ok (d, rs)) :
    rs.length = cs.length := by
  induction cs generalizing first clock rs with
  | nil =>
    cases worked
    rfl
  | cons b cs ih =>
    obtain ⟨d₁, r₁, rs', -, more, rfl⟩ := work_command worked
    exact congrArg Nat.succ (ih more)

end Desk

namespace Hall

variable {room : Nat} {clock : Nat → Moment} {first : Desk} {h h' : Hall} {c : Call}
  {rs : List (Except Rejection Reply)}

theorem Working.replies (w : h.Working first clock rs) :
    rs.length = min h.seen (ahead h.entered).length := by
  obtain ⟨d, ran, -⟩ := w.ran
  rw [Desk.work_length ran, List.length_map, served, List.length_take]

theorem Working.work (w : h.Working first clock rs) (serving : h.desk.serving = true)
    {command : Command} {d : Desk} {r : Except Rejection Reply} {answers : Nat → List Desk.Answer}
    (found : h.entered[h.seen]? = some c) (message : c.message = .command command)
    (handled : h.desk.handle command (clock h.seen) = .ok (d, r)) :
    Working first clock (rs ++ [r])
      { h with desk := d, seen := h.seen + 1, answers := answers } := by
  have next := w.next serving found message
  have inside : h.seen < (ahead h.entered).length := (List.getElem?_eq_some_iff.mp next).1
  obtain ⟨d₀, ran, served₀, same⟩ := w.ran
  have here : h.desk = d₀ := by rw [same, serving, ← served₀]
  have done := h.desk.handled w.sound handled
  have serving' : d.serving = true := (Desk.handle_feed handled).2.trans serving
  exact
    { sound := done.sound w.sound
      within := (List.getElem?_eq_some_iff.mp found).1
      serving := ⟨fun _ => inside, fun _ => serving'⟩
      closed := fun shut => absurd (w.closed shut) (by simp [serving])
      swept := w.swept
      ran := by
        have all : (h.served.map (·.2)).length = h.seen := by
          rw [List.length_map, served, List.length_take, Nat.min_eq_left inside.le]
        have more : served { h with desk := d, seen := h.seen + 1, answers := answers } =
            h.served ++ [(c.number, command)] := by
          rw [served, List.take_add_one, next]
          rfl
        rw [here, ← all] at handled
        refine ⟨d, ?_, serving', rfl⟩
        rw [more, List.map_append]
        exact Desk.work_concat ran handled }

/-- All commands ahead of a shutdown have been taken once it is. -/
theorem served_of_le {h : Hall} (past : (ahead h.entered).length ≤ h.seen) :
    h.served = ahead h.entered :=
  List.take_of_length_le past

theorem Working.stop (w : h.Working first clock rs) (serving : h.desk.serving = true)
    (found : h.entered[h.seen]? = some c) (message : c.message = .shutdown) :
    Working first clock rs { h with desk := h.desk.shutdown.1, seen := h.seen + 1 } := by
  have last : h.seen = (ahead h.entered).length := by
    refine (Nat.eq_or_lt_of_le (w.serving.mp serving)).resolve_right fun lt => ?_
    obtain ⟨command, message', -⟩ := getElem?_ahead lt found
    rw [message] at message'
    cases message'
  have stopped : h.desk.shutdown.1 = { h.desk with serving := false } := by
    rw [Desk.shutdown, if_pos serving]
  obtain ⟨d, ran, served₀, same⟩ := w.ran
  rw [served_of_le (Nat.le_of_eq last.symm)] at ran
  rw [stopped]
  exact
    { sound := w.sound
      within := (List.getElem?_eq_some_iff.mp found).1
      serving := ⟨nofun, fun le => absurd last (Nat.ne_of_lt le)⟩
      closed := fun _ => rfl
      swept := w.swept
      ran := by
        refine ⟨d, ?_, served₀, by rw [same]⟩
        rw [served_of_le (Nat.le_succ_of_le (Nat.le_of_eq last.symm))]
        exact ran }

theorem Working.close (w : h.Working first clock rs) (done : h.desk.serving = false) :
    Working first clock rs { h with isOpen := false } :=
  ⟨w.sound, w.within, w.serving, fun _ => done, fun _ => rfl, w.ran⟩

theorem Working.sweep (w : h.Working first clock rs) (shut : h.isOpen = false) :
    Working first clock rs { h with isSwept := true } :=
  ⟨w.sound, w.within, w.serving, w.closed, fun _ => shut, w.ran⟩

theorem Working.past (w : h.Working first clock rs) (stopped : h.desk.serving = false) :
    (ahead h.entered).length < h.seen := by
  refine Nat.lt_of_not_le fun le => ?_
  rw [w.serving.mpr le] at stopped
  cases stopped

theorem Working.stopped (w : h.Working first clock rs) (stopped : h.desk.serving = false) :
    h.served = ahead h.entered ∧ ∃ c ∈ h.entered, c.message = .shutdown := by
  have past := w.past stopped
  have found := List.getElem?_eq_getElem (Nat.lt_of_lt_of_le past w.within)
  exact ⟨served_of_le past.le, _, List.mem_of_getElem? found, message_at_ahead found⟩

theorem Working.dismiss (w : h.Working first clock rs) {answers : Nat → List Desk.Answer}
    (shut : h.isOpen = false) (found : h.entered[h.seen]? = some c) :
    Working first clock rs { h with seen := h.seen + 1, answers := answers } where
  sound := w.sound
  within := (List.getElem?_eq_some_iff.mp found).1
  serving := by
    have stopped := w.closed shut
    exact ⟨fun on => absurd (on.symm.trans stopped) nofun,
      fun le => absurd (Nat.le_of_succ_le le) (Nat.not_le.mpr (w.past stopped))⟩
  closed := w.closed
  swept := w.swept
  ran := by
    have past := w.past (w.closed shut)
    have ran := w.ran
    rw [served_of_le past.le] at ran
    rw [served_of_le (Nat.le_succ_of_le past.le)]
    exact ran

theorem Working.ended (w : h.Working first clock rs) (swept : h.isSwept = true) :
    h.desk.serving = false :=
  w.closed (w.swept swept)

/-- Once the line has been swept nobody leaves it. -/
theorem Working.swept_next (w : h.Working first clock rs) (swept : h.isSwept = true)
    (next : Next room clock h h') :
    h'.isSwept = true ∧ h'.seen = h.seen ∧ h.entered <+: h'.entered := by
  have ended := w.ended swept
  rcases next with step | step
  · cases step <;> exact ⟨swept, rfl, List.prefix_refl _⟩
  · cases step with
    | enter => exact ⟨swept, rfl, List.prefix_append _ _⟩
    | work serving => exact absurd (serving.symm.trans ended) nofun
    | stop serving => exact absurd (serving.symm.trans ended) nofun
    | dismiss _ unswept => exact absurd (swept.symm.trans unswept) nofun
    | sweep _ unswept => exact absurd (swept.symm.trans unswept) nofun
    | letIn => exact ⟨swept, rfl, List.prefix_refl _⟩
    | ready => exact ⟨swept, rfl, List.prefix_refl _⟩
    | close => exact ⟨swept, rfl, List.prefix_refl _⟩
    | refuse => exact ⟨swept, rfl, List.prefix_refl _⟩

theorem Working.lost_subset (w : h.Working first clock rs) (next : Next room clock h h') :
    h.lost ⊆ h'.lost := by
  cases swept : h.isSwept with
  | false => simp [lost, swept]
  | true =>
    obtain ⟨swept', seen, longer⟩ := w.swept_next swept next
    rw [lost, lost, if_pos swept, if_pos swept', seen]
    exact (longer.sublist.drop _).subset

theorem mem_lost : c ∈ h.lost ↔ h.isSwept = true ∧ ∃ i, h.seen ≤ i ∧ h.entered[i]? = some c := by
  unfold lost
  split
  · rename_i swept
    rw [List.mem_iff_getElem?]
    simp only [swept, true_and, List.getElem?_drop]
    constructor
    · rintro ⟨i, found⟩
      exact ⟨_, Nat.le_add_right _ _, found⟩
    · rintro ⟨i, behind, found⟩
      exact ⟨i - h.seen, by rwa [Nat.add_sub_cancel' behind]⟩
  · rename_i unswept
    simp [unswept]

end Hall
end Bourse
