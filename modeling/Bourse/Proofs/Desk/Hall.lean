import Bourse.Proofs.Desk.EventLog
import Bourse.Proofs.Desk.Line

/-! Who is answered in the hall, and how. Every command ahead of the first shutdown gets the reply
of a desk that handles them one after the other; every other is told that nobody is there. -/
namespace Bourse

namespace Hall

/-- What the call at this place of the line has been told. -/
def told (rs : List (Except Rejection Reply)) (seen : Nat) (left : List Nat) (i : Nat) (c : Call) :
    List Desk.Answer :=
  match c.message with
  | .shutdown => [.sent]
  | .command _ =>
    if i < seen ∧ c.number ∉ left then
      [.reply (rs[i]?.getD (.error (.unavailable Desk.unansweredText)))]
    else []

section Told

variable {rs : List (Except Rejection Reply)} {r : Except Rejection Reply} {seen i : Nat}
  {left left' : List Nat} {c : Call} {command : Command}

theorem told_shutdown (h : c.message = .shutdown) : told rs seen left i c = [.sent] := by
  rw [told, h]

theorem told_command (h : c.message = .command command) : told rs seen left i c =
    if i < seen ∧ c.number ∉ left then
      [.reply (rs[i]?.getD (.error (.unavailable Desk.unansweredText)))]
    else [] := by
  rw [told, h]

theorem told_congr (same : c.number ∈ left ↔ c.number ∈ left') :
    told rs seen left i c = told rs seen left' i c := by
  cases h : c.message with
  | shutdown => rw [told_shutdown h, told_shutdown h]
  | command => simp only [told_command h, same]

theorem told_waiting (h : c.message = .command command) (waiting : seen ≤ i) :
    told rs seen left i c = [] := by
  rw [told_command h, if_neg fun taken => Nat.not_lt.mpr waiting taken.1]

/-- Until he is taken from the line somebody who is ready knows what he knew when he became so. -/
theorem told_onEntry (waiting : seen ≤ i) : told rs seen left i c = c.onEntry := by
  rw [Call.onEntry]
  cases h : c.message with
  | shutdown => exact told_shutdown h
  | command => exact told_waiting h waiting

theorem told_next (other : i ≠ seen) : told rs (seen + 1) left i c = told rs seen left i c := by
  have same : i < seen + 1 ↔ i < seen := by omega
  cases h : c.message with
  | shutdown => rw [told_shutdown h, told_shutdown h]
  | command => simp only [told_command h, same]

theorem told_concat (all : seen ≤ rs.length) (other : i ≠ seen) :
    told (rs ++ [r]) (seen + 1) left i c = told rs seen left i c := by
  rw [told_next other]
  cases h : c.message with
  | shutdown => rw [told_shutdown h, told_shutdown h]
  | command =>
    rw [told_command h, told_command h]
    by_cases taken : i < seen
    · rw [List.getElem?_append_left (by omega)]
    · rw [if_neg fun both => taken both.1, if_neg fun both => taken both.1]

theorem told_cons : told (r :: rs) (seen + 1) left (i + 1) c = told rs seen left i c := by
  cases h : c.message with
  | shutdown => rw [told_shutdown h, told_shutdown h]
  | command => simp [told_command h]

theorem told_unread (taken : i < seen) : told [] seen left i c = told [] 1 left 0 c := by
  cases h : c.message with
  | shutdown => rw [told_shutdown h, told_shutdown h]
  | command => simp [told_command h, taken]

end Told

section Answer

variable {h : Hall} {c : Call} {as : List Desk.Answer} {n : Nat}

theorem answer_other (other : n ≠ c.number) : (h.answer c as).answers n = h.answers n :=
  if_neg fun both => other both.1

theorem answer_self (waits : c.number ∉ h.left) :
    (h.answer c as).answers c.number = h.answers c.number ++ as :=
  if_pos ⟨rfl, waits⟩

theorem answer_left (gone : c.number ∈ h.left) :
    (h.answer c as).answers c.number = h.answers c.number :=
  if_neg fun both => both.2 gone

end Answer

/-- Of every call it is known what its caller has been told. -/
structure Answered (rs : List (Except Rejection Reply)) (h : Hall) : Prop where
  line : ∀ i c, h.entered[i]? = some c → c.number ∉ h.unready →
    h.answers c.number = told rs h.seen h.left i c
  unready : ∀ i c, h.entered[i]? = some c → c.number ∈ h.unready →
    h.seen ≤ i ∧ c.number ∉ h.left ∧ h.answers c.number = []
  known : ∀ n ∈ h.unready, ∃ c ∈ h.entered, c.number = n
  waiting : ∀ c ∈ h.admitted ++ h.outside, c.number ∉ h.left ∧ h.answers c.number = []
  rest : ∀ c ∈ h.calls, c ∉ h.present →
    (c.number ∈ h.left ∧ h.answers c.number = []) ∨
    (c.number ∉ h.left ∧ h.isOpen = false ∧
      h.answers c.number = [.reply (.error (.unavailable Desk.closedText))])
  later : ∀ n, h.calls.length ≤ n → n ∉ h.left ∧ h.answers n = []

variable {room : Nat} {clock : Nat → Moment} {first : Desk} {h h' : Hall} {c : Call}
  {rs : List (Except Rejection Reply)} {before after : List Call}

theorem Answered.opened (d : Desk) : Answered [] (.opened d) where
  line := by simp [Hall.opened]
  unready := by simp [Hall.opened]
  known := nofun
  waiting := nofun
  rest := nofun
  later _ _ := ⟨nofun, rfl⟩

theorem Numbered.eq_of_number (n : h.Numbered) {a b : Call} (ha : a ∈ h.calls) (hb : b ∈ h.calls)
    (same : a.number = b.number) : a = b := by
  have distinct : (h.calls.map (·.number)).Nodup := by
    rw [n.numbers]
    exact List.nodup_range
  exact List.inj_on_of_nodup_map distinct ha hb same

theorem Numbered.place (n : h.Numbered) {i j : Nat} {a b : Call} (ha : h.entered[i]? = some a)
    (hb : h.entered[j]? = some b) (same : a.number = b.number) : i = j := by
  have distinct := n.distinct
  rw [present, List.map_append] at distinct
  have inside : i < (h.entered.map (·.number)).length := by
    rw [List.length_map]
    exact (List.getElem?_eq_some_iff.mp ha).1
  apply (List.getElem?_inj inside (List.nodup_append.mp distinct).1).mp
  rw [List.getElem?_map, List.getElem?_map, ha, hb]
  exact congrArg some same

/-- Nobody else in the hall has this number. -/
theorem Numbered.apart (n : h.Numbered) (split : h.present = before ++ c :: after) :
    ∀ b ∈ before ++ after, b.number ≠ c.number := by
  have front : h.present.Perm (c :: (before ++ after)) := split ▸ List.perm_middle
  have apart := (List.nodup_cons.mp ((front.map (·.number)).nodup_iff.mp n.distinct)).1
  exact fun b hb same => apart (List.mem_map.mpr ⟨b, hb, same⟩)

theorem present_outside (out : h.outside = before ++ c :: after) :
    h.present = (h.entered ++ h.admitted ++ before) ++ c :: after := by
  simp [present, out]

theorem present_admitted (door : h.admitted = before ++ c :: after) :
    h.present = (h.entered ++ before) ++ c :: (after ++ h.outside) := by
  simp [present, door]

theorem Numbered.unused (n : h.Numbered) (hc : c ∈ h.calls) {m : Nat} (hm : h.calls.length ≤ m) :
    m ≠ c.number :=
  Nat.ne_of_gt (Nat.lt_of_lt_of_le (n.below hc) hm)

theorem Numbered.known_line (n : h.Numbered) {i : Nat} (hc : h.entered[i]? = some c) :
    c ∈ h.calls :=
  n.known c (List.mem_append_left _ (List.mem_of_getElem? hc))

/-- Whoever is not in line is not the one who stands there. -/
theorem Numbered.not_in_line (n : h.Numbered) {i : Nat} (found : h.entered[i]? = some c) {b : Call}
    (hb : b ∈ h.calls) (absent : b ∉ h.entered) : b.number ≠ c.number := fun same =>
  absent (n.eq_of_number hb (n.known_line found) same ▸ List.mem_of_getElem? found)

theorem Numbered.waiting_not_in_line (n : h.Numbered) {i : Nat} (found : h.entered[i]? = some c)
    {b : Call} (hb : b ∈ h.admitted ++ h.outside) : b.number ≠ c.number := by
  have distinct := n.distinct
  rw [present, List.map_append] at distinct
  exact ((List.nodup_append.mp distinct).2.2 c.number
    (List.mem_map_of_mem (List.mem_of_getElem? found)) b.number (List.mem_map_of_mem hb)).symm

theorem Answered.call (a : h.Answered rs) (client : Nat)
    (message : Desk.Message) : Answered rs { h with
      calls := h.calls ++ [⟨h.calls.length, client, message⟩]
      outside := h.outside ++ [⟨h.calls.length, client, message⟩] } where
  line := a.line
  unready := a.unready
  known := a.known
  waiting b hb := by
    rw [← List.append_assoc] at hb
    rcases List.mem_append.mp hb with hb | hb
    · exact a.waiting b hb
    · rw [List.mem_singleton.mp hb]
      exact a.later _ (Nat.le_refl _)
  rest b hb absent := by
    have absent : b ∉ h.present ∧ b ≠ ⟨h.calls.length, client, message⟩ := by
      simpa [present, and_assoc] using absent
    rcases List.mem_append.mp hb with hb | hb
    · exact a.rest b hb absent.1
    · exact absurd (List.mem_singleton.mp hb) absent.2
  later m hm := a.later m (Nat.le_trans (by simp) hm)

/-- Somebody outside has gone away. Nobody else is told anything. -/
theorem Answered.goAway (a : h.Answered rs) (n : h.Numbered)
    (out : h.outside = before ++ c :: after) (answers : Nat → List Desk.Answer) {left : List Nat}
    (others : ∀ m, m ≠ c.number → answers m = h.answers m ∧ (m ∈ left ↔ m ∈ h.left))
    (mine : (c.number ∈ left ∧ answers c.number = []) ∨
      (c.number ∉ left ∧ h.isOpen = false ∧
        answers c.number = [.reply (.error (.unavailable Desk.closedText))])) :
    Answered rs { h with outside := before ++ after, answers := answers, left := left } := by
  have apart := n.apart (present_outside out)
  have inLine {i : Nat} {b : Call} (found : h.entered[i]? = some b) :
      answers b.number = h.answers b.number ∧ (b.number ∈ left ↔ b.number ∈ h.left) :=
    others _ (apart b (by simp [List.mem_of_getElem? found]))
  have known : c ∈ h.calls := n.known c (by simp [present, out])
  have still {b : Call} (hb : b ∈ h.admitted ++ (before ++ after)) :
      b ∈ h.admitted ++ h.outside := by
    simp only [out, List.mem_append, List.mem_cons] at hb ⊢
    tauto
  have inHall {b : Call} (hb : b ∈ h.admitted ++ (before ++ after)) :
      b ∈ h.entered ++ h.admitted ++ before ++ after := by
    simpa only [List.append_assoc] using List.mem_append_right h.entered hb
  constructor
  · intro i b found ready
    exact ((inLine found).1.trans (a.line i b found ready)).trans
      (told_congr (inLine found).2.symm)
  · intro i b found unready
    simpa only [inLine found] using a.unready i b found unready
  · exact a.known
  · intro b hb
    have other := others b.number (apart b (inHall hb))
    simpa only [other.1, other.2] using a.waiting b (still hb)
  · intro b hb absent
    by_cases same : b = c
    · subst same
      exact mine
    · have other := others b.number fun twin => same (n.eq_of_number hb known twin)
      have absent : b ∉ h.present := by simpa [present, out, same] using absent
      simpa only [other.1, other.2] using a.rest b hb absent
  · intro m hm
    have other := others m (n.unused known hm)
    simpa only [other.1, other.2] using a.later m hm

theorem Answered.giveUp (a : h.Answered rs) (n : h.Numbered)
    (out : h.outside = before ++ c :: after) :
    Answered rs { h with outside := before ++ after, left := c.number :: h.left } := by
  have nothing := (a.waiting c (by simp [out])).2
  refine a.goAway n out h.answers (fun m other => ⟨rfl, ?_⟩) (.inl ⟨List.mem_cons_self, nothing⟩)
  simp [other]

theorem Answered.refuse (a : h.Answered rs) (n : h.Numbered) (shut : h.isOpen = false)
    (out : h.outside = before ++ c :: after) : Answered rs
      ({ h with outside := before ++ after }.answer c
        [.reply (.error (.unavailable Desk.closedText))]) := by
  obtain ⟨waits, nothing⟩ := a.waiting c (by simp [out])
  refine a.goAway n out (h.answer c _).answers (fun m other => ⟨answer_other other, .rfl⟩)
    (.inr ⟨waits, shut, ?_⟩)
  rw [answer_self waits, nothing, List.nil_append]

theorem Answered.leave (a : h.Answered rs) (n : h.Numbered) {i : Nat} {command : Command}
    (waiting : h.seen ≤ i) (found : h.entered[i]? = some c) (ready : c.number ∉ h.unready)
    (message : c.message = .command command) :
    Answered rs { h with left := c.number :: h.left } := by
  have inLine : c ∈ h.entered := List.mem_of_getElem? found
  exact
    { line := by
        intro j b hb readyToo
        by_cases same : b.number = c.number
        · obtain rfl := n.place hb found same
          rw [found] at hb
          cases hb
          exact (a.line j c found ready).trans
            ((told_waiting message waiting).trans (told_waiting message waiting).symm)
        · exact (a.line j b hb readyToo).trans (told_congr (by simp [same]))
      unready := by
        intro j b hb unready
        have other : b.number ≠ c.number := fun same => ready (same ▸ unready)
        simpa [other] using a.unready j b hb unready
      known := a.known
      waiting := by
        intro b hb
        simpa [n.waiting_not_in_line found hb] using a.waiting b hb
      rest := by
        intro b hb absent
        have other := n.not_in_line found hb fun inLine => absent (List.mem_append_left _ inLine)
        simpa [other] using a.rest b hb absent
      later := by
        intro m hm
        have other := n.unused (n.known_line found) hm
        simpa [other] using a.later m hm }

/-- Going in changes the order of those who wait. -/
theorem moved_in (out : h.outside = before ++ c :: after) :
    ((h.admitted ++ [c]) ++ (before ++ after)).Perm (h.admitted ++ h.outside) := by
  rw [out, List.append_assoc, List.singleton_append]
  exact List.perm_middle.symm.append_left _

theorem Answered.letIn (a : h.Answered rs) (out : h.outside = before ++ c :: after) :
    Answered rs { h with outside := before ++ after, admitted := h.admitted ++ [c] } where
  line := a.line
  unready := a.unready
  known := a.known
  waiting b hb := a.waiting b ((moved_in out).mem_iff.mp hb)
  rest b hb absent := a.rest b hb fun here =>
    absent (((moved_in out).append_left _).mem_iff.mpr here)
  later := a.later

theorem Answered.enter (a : h.Answered rs) (n : h.Numbered) (within : h.seen ≤ h.entered.length)
    (door : h.admitted = before ++ c :: after) : Answered rs { h with
      admitted := before ++ after
      entered := h.entered ++ [c]
      unready := c.number :: h.unready } := by
  have apart := n.apart (present_admitted door)
  -- Whoever stands in line now stood there before, or is the new one at its end.
  have place {i : Nat} {b : Call} (found : (h.entered ++ [c])[i]? = some b) :
      (h.entered[i]? = some b ∧ b.number ≠ c.number) ∨ (h.entered.length ≤ i ∧ b = c) := by
    rcases Nat.lt_or_ge i h.entered.length with lt | ge
    · rw [List.getElem?_append_left lt] at found
      exact .inl ⟨found, apart b (by simp [List.mem_of_getElem? found])⟩
    · rw [List.getElem?_append_right ge] at found
      exact .inr ⟨ge, List.mem_singleton.mp (List.mem_of_getElem? found)⟩
  constructor
  · intro i b found ready
    obtain ⟨other, ready⟩ := List.ne_and_not_mem_of_not_mem_cons ready
    rcases place found with ⟨found, -⟩ | ⟨-, rfl⟩
    · exact a.line i b found ready
    · exact absurd rfl other
  · intro i b found unready
    rcases place found with ⟨found, other⟩ | ⟨last, rfl⟩
    · exact a.unready i b found ((List.mem_cons.mp unready).resolve_left other)
    · exact ⟨Nat.le_trans within last, a.waiting b (by simp [door])⟩
  · intro m hm
    rcases List.mem_cons.mp hm with rfl | hm
    · exact ⟨c, by simp, rfl⟩
    · obtain ⟨b, hb, same⟩ := a.known m hm
      exact ⟨b, List.mem_append_left _ hb, same⟩
  · intro b hb
    refine a.waiting b ?_
    simp only [door, List.mem_append, List.mem_cons] at hb ⊢
    tauto
  · intro b hb absent
    refine a.rest b hb ?_
    simp only [present, door, List.mem_append, List.mem_cons, List.not_mem_nil] at absent ⊢
    tauto
  · exact a.later

theorem Answered.ready (a : h.Answered rs) (n : h.Numbered) (inLine : c ∈ h.entered)
    (unready : c.number ∈ h.unready) : Answered rs
      ({ h with unready := h.unready.filter (· ≠ c.number) }.answer c c.onEntry) := by
  obtain ⟨i, found⟩ := List.mem_iff_getElem?.mp inLine
  obtain ⟨ahead, waits, nothing⟩ := a.unready i c found unready
  have others {m : Nat} (other : m ≠ c.number) :
      (h.answer c c.onEntry).answers m = h.answers m := answer_other other
  constructor
  · intro j b hb ready
    by_cases same : b.number = c.number
    · obtain rfl := n.place hb found same
      obtain rfl : b = c := Option.some.inj (hb.symm.trans found)
      refine (answer_self waits).trans ?_
      rw [nothing, List.nil_append]
      exact (told_onEntry ahead).symm
    · refine (others same).trans (a.line j b hb fun still => ready ?_)
      exact List.mem_filter.mpr ⟨still, decide_eq_true same⟩
  · intro j b hb still
    obtain ⟨still, other⟩ := List.mem_filter.mp still
    have told := a.unready j b hb still
    exact ⟨told.1, told.2.1, (others (of_decide_eq_true other)).trans told.2.2⟩
  · exact fun m hm => a.known m (List.mem_filter.mp hm).1
  · intro b hb
    have told := a.waiting b hb
    exact ⟨told.1, (others (n.waiting_not_in_line found hb)).trans told.2⟩
  · intro b hb absent
    have other := n.not_in_line found hb fun inLine => absent (List.mem_append_left _ inLine)
    exact (a.rest b hb absent).imp (And.imp_right (others other).trans)
      (And.imp_right (And.imp_right (others other).trans))
  · intro m hm
    have told := a.later m hm
    exact ⟨told.1, (others (n.unused (n.known_line found) hm)).trans told.2⟩

/-- The first in line has been taken from it. Nobody else is told anything. -/
theorem Answered.take (a : h.Answered rs) (n : h.Numbered) (found : h.entered[h.seen]? = some c)
    (ready : c.number ∉ h.unready) {desk : Desk} (answers : Nat → List Desk.Answer)
    {rs' : List (Except Rejection Reply)} (others : ∀ m, m ≠ c.number → answers m = h.answers m)
    (mine : answers c.number = told rs' (h.seen + 1) h.left h.seen c)
    (same : ∀ i b, i ≠ h.seen → told rs' (h.seen + 1) h.left i b = told rs h.seen h.left i b) :
    Answered rs' { h with desk := desk, seen := h.seen + 1, answers := answers } where
  line := by
    intro i b hb readyToo
    by_cases head : i = h.seen
    · subst head
      rw [found] at hb
      cases hb
      exact mine
    · have other : b.number ≠ c.number := fun twin => head (n.place hb found twin)
      exact (others _ other).trans ((a.line i b hb readyToo).trans (same i b head).symm)
  unready := by
    intro i b hb unready
    have other : b.number ≠ c.number := fun twin => ready (twin ▸ unready)
    obtain ⟨ahead, waits, nothing⟩ := a.unready i b hb unready
    have behind : i ≠ h.seen := by
      rintro rfl
      rw [found] at hb
      cases hb
      exact other rfl
    exact ⟨Nat.lt_of_le_of_ne ahead behind.symm, waits, (others _ other).trans nothing⟩
  known := a.known
  waiting := by
    intro b hb
    exact ⟨(a.waiting b hb).1,
      (others _ (n.waiting_not_in_line found hb)).trans (a.waiting b hb).2⟩
  rest := by
    intro b hb absent
    have other := n.not_in_line found hb fun inLine => absent (List.mem_append_left _ inLine)
    simpa only [others _ other] using a.rest b hb absent
  later := by
    intro m hm
    have other := n.unused (n.known_line found) hm
    exact ⟨(a.later m hm).1, (others m other).trans (a.later m hm).2⟩

theorem Answered.work (a : h.Answered rs) (n : h.Numbered) (w : h.Working first clock rs)
    (serving : h.desk.serving = true) {command : Command} {d : Desk} {r : Except Rejection Reply}
    (found : h.entered[h.seen]? = some c) (ready : c.number ∉ h.unready)
    (message : c.message = .command command) :
    Answered (rs ++ [r]) ({ h with desk := d, seen := h.seen + 1 }.answer c [.reply r]) := by
  have all : rs.length = h.seen := by
    rw [w.replies, Nat.min_eq_left (w.serving.mp serving)]
  have nothing := (a.line h.seen c found ready).trans (told_waiting message (Nat.le_refl _))
  refine a.take n found ready (h.answer c [.reply r]).answers (fun m other => answer_other other) ?_
    fun i b other => told_concat (Nat.le_of_eq all.symm) other
  rw [told_command message, ← all, List.getElem?_concat_length]
  by_cases gone : c.number ∈ h.left
  · rw [if_neg fun both => both.2 gone]
    exact (answer_left gone).trans nothing
  · rw [if_pos ⟨Nat.lt_succ_self _, gone⟩]
    refine (answer_self gone).trans ?_
    rw [nothing]
    rfl

theorem Answered.stop (a : h.Answered rs) (n : h.Numbered) {d : Desk}
    (found : h.entered[h.seen]? = some c) (ready : c.number ∉ h.unready)
    (message : c.message = .shutdown) :
    Answered rs { h with desk := d, seen := h.seen + 1 } := by
  refine a.take n found ready h.answers (fun m _ => rfl) ?_ fun i b other => told_next other
  rw [a.line h.seen c found ready, told_shutdown message, told_shutdown message]

theorem Answered.dismiss (a : h.Answered rs) (n : h.Numbered) (w : h.Working first clock rs)
    (found : h.entered[h.seen]? = some c) (ready : c.number ∉ h.unready) :
    Answered rs ({ h with seen := h.seen + 1 }.answer c c.onDismissal) := by
  refine a.take n found ready (h.answer c c.onDismissal).answers
    (fun m other => answer_other other) ?_ fun i b other => told_next other
  have before := a.line h.seen c found ready
  cases message : c.message with
  | shutdown =>
    rw [told_shutdown message] at before ⊢
    have silent : c.onDismissal = [] := by rw [Call.onDismissal, message]
    by_cases gone : c.number ∈ h.left
    · exact (answer_left gone).trans before
    · refine (answer_self gone).trans ?_
      rw [silent, List.append_nil]
      exact before
  | command =>
    have unread : rs[h.seen]? = none := by
      apply List.getElem?_eq_none
      rw [w.replies]
      exact Nat.min_le_left _ _
    have text : c.onDismissal = [.reply (.error (.unavailable Desk.unansweredText))] := by
      rw [Call.onDismissal, message]
    rw [told_waiting message (Nat.le_refl _)] at before
    rw [told_command message, unread]
    by_cases gone : c.number ∈ h.left
    · rw [if_neg fun both => both.2 gone]
      exact (answer_left gone).trans before
    · rw [if_pos ⟨Nat.lt_succ_self _, gone⟩]
      refine (answer_self gone).trans ?_
      rw [before, text]
      rfl

theorem Answered.close (a : h.Answered rs) : Answered rs { h with isOpen := false } where
  line := a.line
  unready := a.unready
  known := a.known
  waiting := a.waiting
  rest b hb absent := (a.rest b hb absent).imp_right fun told => ⟨told.1, rfl, told.2.2⟩
  later := a.later

theorem Reached.kept (sound : first.engine.Sound) (serving : first.serving = true)
    (r : Reached room clock first h) :
    h.Numbered ∧ ∃ rs, h.Working first clock rs ∧ h.Answered rs := by
  -- The replies `rs` grow with each command that is worked and stay as they are otherwise.
  induction r with
  | opened => exact ⟨⟨rfl, nofun, .nil, .nil⟩, [], .opened sound serving, .opened first⟩
  | asked _ step ih =>
    obtain ⟨n, rs, w, a⟩ := ih
    refine ⟨n.asks step, rs, w.asks step, ?_⟩
    cases step with
    | call client message => exact a.call client message
    | giveUp out => exact a.giveUp n out
    | leave waiting found ready message => exact a.leave n waiting found ready message
  | served _ step ih =>
    obtain ⟨n, rs, w, a⟩ := ih
    refine ⟨n.serves step, ?_⟩
    cases step with
    | letIn _ _ out => exact ⟨rs, w.elsewhere, a.letIn out⟩
    | enter door => exact ⟨rs, w.enter, a.enter n w.within door⟩
    | ready inLine unready => exact ⟨rs, w.elsewhere, a.ready n inLine unready⟩
    | work serving found ready message handled =>
      exact ⟨_, w.work serving found message handled, a.work n w serving found ready message⟩
    | stop serving found ready message =>
      exact ⟨rs, w.stop serving found message, a.stop n found ready message⟩
    | close done => exact ⟨rs, w.close done, a.close⟩
    | dismiss shut _ found ready => exact ⟨rs, w.dismiss shut found, a.dismiss n w found ready⟩
    | sweep shut =>
      exact ⟨rs, w.sweep shut, a.line, a.unready, a.known, a.waiting, a.rest, a.later⟩
    | refuse shut out => exact ⟨rs, w.elsewhere, a.refuse n shut out⟩

end Hall
end Bourse
