import Bourse.Proofs.Desk.Recording
import Bourse.Proofs.Http.Floor

/-! What is read of an order while others are served. Everything that anybody has been told of it is
behind its record, and the record only moves onward. So whoever asks later is told no less. -/
namespace Bourse

theorem Json.nat_inj {m n : Nat} : Json.nat m = Json.nat n ↔ m = n := by
  constructor
  · intro same
    have digits : Nat.toDigits 10 m = Nat.toDigits 10 n :=
      String.ofList_injective (Json.number.inj same)
    rw [← Nat.ofDigitChars_toDigits (b := 10) (n := m) (by decide) (by decide), digits,
      Nat.ofDigitChars_toDigits (by decide) (by decide)]
  · rintro rfl
    rfl

theorem Status.name_inj {s s' : Status} (h : s.name = s'.name) : s = s' := by
  cases s <;> cases s' <;> first | rfl | exact absurd h (by decide)

theorem Failure.status_ge (f : Failure) : 400 ≤ f.status := by
  cases f <;> simp [status]

namespace Http
namespace Ending

def status : Ending → Option Nat
  | response r => some r.status
  | page status _ => some status
  | broken _ => none

/-- What stands under this name on a page. -/
def member? (e : Ending) (name : String) : Option Json :=
  match e with
  | page _ (.object _ members) => members.lookup name
  | _ => none

/-- A page that tells how an order is. -/
inductive Tells : Ending → Order → Prop where
  | created (x : Execution) : Tells (.page 201 x.body) x.order
  | shown (o : Order) : Tells (.page 200 o.body) o
  | cancelled (o : Order) : Tells (.page 200 o.cancelBody) o

/-- It is a failure, or tells how the order was that is found now. -/
inductive Behind (found : Option Order) : Ending → Prop where
  | failed (f : Failure) : Behind found (.failed f)
  | told {e : Ending} {o o' : Order} : e.Tells o → found = some o' → o.Onward o' → Behind found e

variable {e : Ending} {o : Order} {found : Option Order} {id : OrderId}

theorem Tells.status (h : e.Tells o) : e.member? "status" = some (.string o.status.name) := by
  cases h <;> rfl

theorem Tells.quantity (h : e.Tells o) :
    e.member? "remaining_quantity" = none ∨
      e.member? "remaining_quantity" = some (.nat o.quantity) := by
  cases h with
  | created => exact .inr rfl
  | shown => exact .inr rfl
  | cancelled => exact .inl rfl

theorem Behind.onward {held held' : OrderId → Option Order} (h : e.Behind (held id))
    (on : Onward held held' id) : e.Behind (held' id) := by
  cases h with
  | failed f => exact .failed f
  | told tells there onward =>
    obtain ⟨o', there', onward'⟩ := on _ there
    exact .told tells there' (onward.trans onward')

theorem behind_ofRecorded (id : OrderId) (found : Option Order) :
    (ofRecorded id (.ok found)).Behind found := by
  cases found with
  | none => exact .failed _
  | some o => exact .told (.shown o) rfl (.refl o)

theorem Behind.created (h : e.Behind found) (status : e.status = some 201) :
    found.isSome = true := by
  cases h with
  | failed f =>
    have same : f.status = 201 := Option.some.inj status
    exact absurd f.status_ge (by rw [same]; decide)
  | told _ there => exact there ▸ rfl

theorem Behind.quantity (h : e.Behind found) {n : Nat}
    (told : e.member? "remaining_quantity" = some (.nat n)) :
    ∃ o, found = some o ∧ o.quantity ≤ n := by
  cases h with
  | failed => cases told
  | told tells there onward =>
    rcases tells.quantity with silent | quantity
    · cases silent.symm.trans told
    · have same := Json.nat_inj.mp (Option.some.inj (quantity.symm.trans told))
      exact ⟨_, there, same ▸ onward.quantity⟩

theorem Behind.ended (h : e.Behind found) {s : Status} (terminal : s.isTerminal = true)
    (told : e.member? "status" = some (.string s.name)) : ∃ o, found = some o ∧ o.status = s := by
  cases h with
  | failed => cases told
  | told tells there onward =>
    have same := Status.name_inj (Json.string.inj (Option.some.inj (tells.status.symm.trans told)))
    exact ⟨_, there, by rw [onward.ended (same ▸ terminal), same]⟩

/-- What somebody is told of an order who asks for it after the answer `e` about it was given. -/
structure Later (e e' : Ending) : Prop where
  created : e.status = some 201 → e'.status = some 200
  quantity : ∀ n, e.member? "remaining_quantity" = some (.nat n) → e'.status = some 200 ∧
    ∃ n' ≤ n, e'.member? "remaining_quantity" = some (.nat n')
  ended : ∀ s : Status, s.isTerminal = true → e.member? "status" = some (.string s.name) →
    e'.status = some 200 ∧ e'.member? "status" = some (.string s.name)

theorem Behind.later (h : e.Behind found) (id : OrderId) :
    e.Later (.ofRecorded id (.ok found)) where
  created status := by
    obtain ⟨o, rfl⟩ := Option.isSome_iff_exists.mp (h.created status)
    rfl
  quantity n told := by
    obtain ⟨o, rfl, less⟩ := h.quantity told
    exact ⟨rfl, o.quantity, less, rfl⟩
  ended s terminal told := by
    obtain ⟨o, rfl, rfl⟩ := h.ended terminal told
    exact ⟨rfl, rfl⟩

end Ending

/-- Where an errand may stand once its command is done and recorded: whoever sent it is told of the
record, or has yet to look for it. -/
inductive Outcome.Fair (l : Ledger) (e : Errand) : Outcome → Prop where
  | look {id : OrderId} : e = .inquire id → Fair l e (.look id)
  | ended {ending : Ending} : (∀ id, e.about? = some id → ending.Behind (l.get? id)) →
      (∀ id, e = .inquire id → ending = .ofRecorded id (.ok (l.get? id))) →
      Fair l e (.ended ending)

section Outcome

variable {s s' : Store} {engine engine' : Engine} {m : Moment} {c : Command}
  {r : Except Rejection Reply} {e : Errand}

theorem Outcome.fair (h : Records s engine) (f : Handled engine s m c r engine' s')
    (asks : e.command? = some c) : (e.outcome r).Fair s'.ledger e := by
  have after := f.records h
  have posted : ∀ o ∈ ordersOf r, s'.ledger.get? o.id = some o := fun o ho =>
    (after.ledger.holds _ _).mpr ⟨((f.posted h).mem o).mpr (.inl ho), rfl⟩
  cases e with
  | settled => cases asks
  | create o =>
    cases asks
    cases f with
    | rejected => exact .ended (fun _ _ => .failed _) nofun
    | @accepted _ x _ _ _ hx =>
      obtain ⟨_, _, _, -, settled⟩ := engine.matchOf_settled o m
      have id : x.order.id = o.id := by rw [hx, settled]
      refine .ended (fun _ about => ?_) nofun
      cases about
      exact .told (.created x) (id ▸ posted x.order List.mem_cons_self) (.refl _)
  | inquire id =>
    cases asks
    cases f with
    | found =>
      cases hf : engine.book.orders.find? (·.id == id) with
      | none => exact .look rfl
      | some o =>
        obtain ⟨there, same⟩ : o ∈ s.ledger.orders ∧ o.id = id :=
          ⟨((h.resting o).mpr (List.mem_of_find?_eq_some hf)).1,
            beq_iff_eq.mp (List.find?_some hf :)⟩
        have recorded : s.ledger.get? id = some o := (h.ledger.holds _ _).mpr ⟨there, same⟩
        refine .ended (fun _ about => ?_) (fun _ same => ?_)
        · cases about
          exact .told (.shown o) recorded (.refl o)
        · cases same
          rw [recorded]
          rfl
  | cancel id =>
    cases asks
    cases f with
    | absent => exact .ended (fun _ _ => .failed _) nofun
    | @cancelled _ o gone _ _ same _ hg =>
      have id : gone.id = o.id := by rw [hg]
      refine .ended (fun _ about => ?_) nofun
      cases about
      exact .told (.cancelled gone) (id.trans same ▸ posted gone List.mem_cons_self) (.refl _)
  | depth =>
    cases asks
    cases f
    refine .ended (fun _ about => ?_) nofun
    cases about

end Outcome

namespace Floor

/-- What of the last command is still to be recorded. -/
def unrecorded (f : Floor) : List Entry := f.job.elim [] Job.left

/-- The record of each order, as it is found now. -/
def held (f : Floor) : OrderId → Option Order := f.desk.store.ledger.get?

variable {f f' : Floor} {first : Desk} {depthLimit : Nat} {id : OrderId}

/-- What holds of a floor at every moment. -/
structure Orderly (f : Floor) : Prop where
  recording : Recording f.desk.store f.desk.engine f.unrecorded f.taken
  job : ∀ j, f.job = some j →
    (j.visit.errand.outcome j.reply).Fair (f.desk.store.record j.left).ledger j.visit.errand
  looking : ∀ l ∈ f.looking, l.1.errand = .inquire l.2
  before : ∀ v ∈ f.came, v.before ≤ f.answered.length

/-- What has been told of the order is behind its record, and whoever asked for it is shown a record
that is no further behind than what had been told when he came. -/
structure Told (f : Floor) (id : OrderId) : Prop where
  behind : ∀ a ∈ f.ready ++ f.answered, a.1.errand.about? = some id → a.2.Behind (f.held id)
  inquiry : ∀ a ∈ f.ready ++ f.answered, a.1.errand = .inquire id →
    ∃ found, a.2 = .ofRecorded id (.ok found) ∧
      ∀ b ∈ f.answered.take a.1.before, b.1.errand.about? = some id → b.2.Behind found

theorem Orderly.busy (h : f.Orderly) {j : Job} (busy : f.job = some j) :
    Recording f.desk.store f.desk.engine j.left f.taken := by
  have recording := h.recording
  rw [unrecorded, busy] at recording
  exact recording

theorem Comes.orderly (comes : Comes depthLimit f f') (h : f.Orderly) : f'.Orderly := by
  cases comes with
  | request r fresh now =>
    refine ⟨h.recording, h.job, h.looking, fun v hv => ?_⟩
    rcases List.mem_append.mp hv with hv | hv
    · exact h.before v hv
    · rw [List.mem_singleton.mp hv]
  | openSocket => exact ⟨h.recording, h.job, h.looking, h.before⟩
  | closeSocket => exact ⟨h.recording, h.job, h.looking, h.before⟩

theorem Comes.taken (comes : Comes depthLimit f f') : f'.taken = f.taken := by
  cases comes <;> rfl

theorem Serves.orderly (step : Serves f f') (h : f.Orderly) : f'.Orderly := by
  cases step with
  | settle here => exact ⟨h.recording, h.job, h.looking, h.before⟩
  | take free here asks handled =>
    have idle := h.recording
    rw [unrecorded, free] at idle
    have done := f.desk.handled idle.records.sound handled
    refine ⟨idle.handled done, fun j same => ?_, h.looking, h.before⟩
    cases same
    exact done.store ▸ Outcome.fair idle.records done asks
  | write busy left =>
    have recording := h.busy busy
    rw [left] at recording
    refine ⟨recording.enter, fun j same => ?_, h.looking, h.before⟩
    cases same
    have job := h.job _ busy
    rw [left] at job
    exact job
  | @finish j busy left =>
    have recording := h.busy busy
    rw [left] at recording
    refine ⟨?_, fun j same => ?_, fun l hl => ?_, fun v hv => ?_⟩
    · rw [unrecorded, send_desk, send_job, send_taken]
      exact recording
    · rw [send_job] at same
      cases same
    · rcases mem_send_looking _ _ _ hl with hl | ⟨same, ho⟩
      · exact h.looking l hl
      · have fair := h.job j busy
        rw [ho] at fair
        cases fair with
        | look inquires => exact same ▸ inquires
    · rw [send_came] at hv
      rw [send_answered]
      exact h.before v hv
  | @look before after v id here =>
    have same := getOrder_ledger f.desk.store id
    refine ⟨h.recording.getOrder id, fun j busy => ?_, fun l hl => ?_, h.before⟩
    · have recording := h.busy busy
      have fair := h.job j busy
      rw [(recording.calm.record j.left).2, ← same.1,
        ← ((recording.getOrder id).calm.record j.left).2] at fair
      exact fair
    · apply h.looking l
      rw [here]
      rcases List.mem_append.mp hl with hl | hl
      · exact List.mem_append_left _ hl
      · exact List.mem_append_right _ (List.mem_cons_of_mem _ hl)
  | answer here =>
    refine ⟨h.recording, h.job, h.looking, fun v hv => ?_⟩
    rw [List.length_append]
    exact Nat.le_add_right_of_le (h.before v hv)

/-- The record of an order that is taken in once at most moves onward. -/
theorem Serves.onward (step : Serves f f') (h : f.Orderly) (once : f'.taken.count id ≤ 1) :
    Onward f.held f'.held id := by
  cases step with
  | write busy left =>
    have recording := h.busy busy
    rw [left] at recording
    exact recording.enter_onward once
  | finish =>
    rw [held, held, send_desk]
    exact .refl _ id
  | look =>
    rw [held, held, (getOrder_ledger _ _).1]
    exact .refl _ id
  | settle => exact .refl _ id
  | take => exact .refl _ id
  | answer => exact .refl _ id

theorem Serves.taken (step : Serves f f') : ∃ more, f'.taken = f.taken ++ more := by
  cases step with
  | take => exact ⟨_, rfl⟩
  | finish => exact ⟨[], by rw [send_taken, List.append_nil]⟩
  | _ => exact ⟨[], (List.append_nil _).symm⟩

namespace Told

theorem opened (d : Desk) (id : OrderId) : (Floor.opened d).Told id := by
  constructor
  · intro a ha
    cases ha
  · intro a ha
    cases ha

/-- What has been told stays behind the record. -/
theorem onward (h : f.Told id) (ready : f'.ready = f.ready) (answered : f'.answered = f.answered)
    (on : Onward f.held f'.held id) : f'.Told id := by
  constructor
  · rw [ready, answered]
    exact fun a ha about => (h.behind a ha about).onward on
  · rw [ready, answered]
    exact h.inquiry

/-- One more answer is ready. -/
theorem made (h : f.Told id) {v : Visit} {e : Ending} (ready : f'.ready = f.ready ++ [(v, e)])
    (answered : f'.answered = f.answered) (held : f'.held = f.held)
    (behind : v.errand.about? = some id → e.Behind (f.held id))
    (shown : v.errand = .inquire id → e = .ofRecorded id (.ok (f.held id))) : f'.Told id := by
  have mem : ∀ a ∈ f'.ready ++ f'.answered, a ∈ f.ready ++ f.answered ∨ a = (v, e) := by
    intro a ha
    rw [ready, answered, List.mem_append, List.mem_append, List.mem_singleton] at ha
    rw [List.mem_append]
    rcases ha with (ha | ha) | ha
    · exact .inl (.inl ha)
    · exact .inr ha
    · exact .inl (.inr ha)
  constructor
  · intro a ha about
    rw [held]
    rcases mem a ha with ha | rfl
    · exact h.behind a ha about
    · exact behind about
  · intro a ha inquires
    rw [answered]
    rcases mem a ha with ha | rfl
    · exact h.inquiry a ha inquires
    · exact ⟨_, shown inquires, fun b hb about =>
        h.behind b (List.mem_append_right _ (List.mem_of_mem_take hb)) about⟩

/-- An answer that was ready is given. Those who have come did so before that. -/
theorem given (h : f.Told id) {before after : List (Visit × Ending)} {a : Visit × Ending}
    (here : f.ready = before ++ a :: after) (came : ∀ b ∈ f.ready ++ f.answered,
      b.1.before ≤ f.answered.length) :
    Told { f with ready := before ++ after, answered := f.answered ++ [a] } id := by
  have mem : ∀ b ∈ before ++ after ++ (f.answered ++ [a]), b ∈ f.ready ++ f.answered := by
    intro b
    rw [here]
    simp only [List.mem_append, List.mem_cons, List.not_mem_nil, or_false]
    tauto
  constructor
  · exact fun b hb about => h.behind b (mem b hb) about
  · intro b hb inquires
    dsimp only
    rw [List.take_append_of_le_length (came b (mem b hb))]
    exact h.inquiry b (mem b hb) inquires

end Told

theorem Serves.told (step : Serves f f') (h : f.Orderly) (came : f.came.Perm f.visits)
    (once : f'.taken.count id ≤ 1) (told : f.Told id) : f'.Told id := by
  have on := step.onward h once
  cases step with
  | settle here settled =>
    refine told.made rfl rfl rfl (fun about => ?_) (fun inquires => ?_)
    · rw [settled] at about
      cases about
    · rw [settled] at inquires
      cases inquires
  | take => exact told.onward rfl rfl on
  | write => exact told.onward rfl rfl on
  | @finish j busy left =>
    -- Nothing is left to be recorded, so the reply is about what is found now.
    have fair := h.job j busy
    rw [left] at fair
    cases ho : j.visit.errand.outcome j.reply with
    | look id => exact told.onward rfl rfl (.refl _ _)
    | ended e =>
      rw [ho] at fair
      cases fair with
      | ended behind shown => exact told.made rfl rfl rfl (behind id) (shown id)
  | @look before after v asked here =>
    have inquires := h.looking (v, asked) (by rw [here]; simp)
    have same := (getOrder_ledger f.desk.store asked).1
    have found : (f.desk.store.getOrder asked).2 = .ok (f.held asked) := by
      rw [Store.getOrder, h.recording.calm.call]
      rfl
    refine told.made rfl rfl (congrArg Ledger.get? same) (fun about => ?_) (fun inquires' => ?_)
    · rw [show v.errand = .inquire asked from inquires] at about
      cases about
      rw [found]
      exact Ending.behind_ofRecorded _ _
    · cases inquires.symm.trans inquires'
      rw [found]
  | answer here =>
    refine told.given here fun b hb => h.before b.1 (came.mem_iff.mpr ?_)
    rw [Floor.visits]
    simp only [List.mem_append, List.mem_map] at hb ⊢
    rcases hb with hb | hb
    · exact .inl (.inr ⟨b, hb, rfl⟩)
    · exact .inr ⟨b, hb, rfl⟩

theorem Comes.told (comes : Comes depthLimit f f') (told : f.Told id) : f'.Told id := by
  cases comes with
  | request => exact ⟨told.behind, told.inquiry⟩
  | openSocket => exact ⟨told.behind, told.inquiry⟩
  | closeSocket => exact ⟨told.behind, told.inquiry⟩

theorem Reached.serve (reached : Reached depthLimit first f)
    (steps : Relation.ReflTransGen Serves f f') : Reached depthLimit first f' := by
  induction steps with
  | refl => exact reached
  | tail _ step ih => exact ih.served step

section Started

variable {feed : Feed Event}

theorem Reached.orderly (started : Desk.start (.ofLedger .empty) feed = .ok first)
    (reached : Reached depthLimit first f) : f.Orderly := by
  induction reached with
  | opened =>
    obtain ⟨d, started', records, store⟩ := Desk.start_empty feed
    obtain rfl : first = d := Except.ok.inj (started.symm.trans started')
    have recording : Recording first.store first.engine [] [] := .of_records records fun o ho => by
      rw [store] at ho
      cases ho
    refine ⟨recording, fun j busy => ?_, fun l hl => ?_, fun v hv => ?_⟩
    · cases busy
    · cases hl
    · cases hv
  | came _ comes ih => exact comes.orderly ih
  | served _ step ih => exact step.orderly ih

theorem Reached.told (started : Desk.start (.ofLedger .empty) feed = .ok first)
    (reached : Reached depthLimit first f) (once : f.taken.count id ≤ 1) : f.Told id := by
  induction reached with
  | opened => exact .opened first id
  | came _ comes ih => exact comes.told (ih (comes.taken ▸ once))
  | served reached step ih =>
    obtain ⟨more, taken⟩ := step.taken
    refine step.told (reached.orderly started) reached.visits once (ih (Nat.le_trans ?_ once))
    rw [taken, List.count_append]
    exact Nat.le_add_right _ _

/-- Whoever comes when nobody else is about is served as if there were only him. -/
theorem Reached.visited (started : Desk.start (.ofLedger .empty) feed = .ok first)
    (reached : Reached depthLimit first f) (nobody : f.waiting = [] ∧ f.looking = [] ∧ f.ready = [])
    (free : f.job = none) {r : Request} {fresh : OrderId} {now : Instant} {e : Errand}
    (asked : r.errand depthLimit fresh now = e) {c : Command} (asks : e.command? = some c)
    {m : Moment} {d : Desk} {reply : Except Rejection Reply}
    (handled : f.desk.handle c m = .ok (d, reply)) :
    Reached depthLimit first { f with
      desk := (Errand.conclude d (e.outcome reply)).1
      taken := f.taken ++ (c.taken reply).map (·.id)
      came := f.came ++ [⟨e, f.answered.length⟩]
      answered := f.answered ++
        [(⟨e, f.answered.length⟩, (Errand.conclude d (e.outcome reply)).2)] } := by
  have sound := (reached.orderly started).recording.records.sound
  obtain ⟨desk, taken, came, waiting, job, looking, ready, answered⟩ := f
  obtain rfl : waiting = [] := nobody.1
  have arrived := reached.came (.request r fresh now)
  rw [asked] at arrived
  let v : Visit := ⟨e, answered.length⟩
  let g : Floor := ⟨desk, taken, came ++ [v], [v], job, looking, ready, answered⟩
  have here : g.waiting = [] ++ v :: [] := rfl
  have steps := g.alone free nobody.2 here asks sound handled
  exact arrived.serve steps

/-- Over a ledger that was empty at first let any requests have come, and let them have been served
in any order. Whoever asked for an order that was taken in once is told what is later than all that
had been told of it before he came. And nobody is kept waiting for ever. -/
theorem readings_move_onward (feed : Feed Event) (depthLimit : Nat) :
    ∃ first, Desk.start (.ofLedger .empty) feed = .ok first ∧
      (∀ f : Floor, Reached depthLimit first f → ∀ id, f.taken.count id ≤ 1 →
        ∀ a ∈ f.answered, a.1.errand = .inquire id →
          ∀ b ∈ f.answered.take a.1.before, b.1.errand.about? = some id → b.2.Later a.2) ∧
      (∀ f : Floor, Reached depthLimit first f → f.AtRest →
        f.came.Perm (f.answered.map (·.1))) ∧
      WellFounded fun f' f : Floor => Serves f f' := by
  obtain ⟨first, started, -⟩ := Desk.start_empty feed
  refine ⟨first, started, fun f reached id once a ha inquires b hb about => ?_,
    fun f reached rest => ?_, serves_wellFounded⟩
  · have told := reached.told started once
    obtain ⟨found, shown, behind⟩ := told.inquiry a (List.mem_append_right _ ha) inquires
    exact shown ▸ (behind b hb about).later id
  · rw [← rest.visits (reached.orderly started).recording.records.sound]
    exact reached.visits

/-- A bid is created, an ask takes all of it, and then it is asked for. -/
theorem readings_move_onward_past_trade :
    let order (body : String) : Request :=
      ⟨.post, "/orders", [("content-type", "application/json")], body.toUTF8.toList⟩
    let bid := order "\x7b\"id\":\"bid\",\"side\":\"buy\",\"price\":\"1\",\"quantity\":2\x7d"
    let ask := order "\x7b\"id\":\"ask\",\"side\":\"sell\",\"price\":\"1\",\"quantity\":2\x7d"
    let inquiry : Request := ⟨.get, "/orders/bid", [], []⟩
    ∃ first f, Desk.start (.ofLedger .empty) .standard = .ok first ∧ Reached 10 first f ∧
      f.came.map (·.errand) = [bid, ask, inquiry].map (·.errand 10 ⟨"fresh"⟩ .epoch) ∧
      f.taken.count ⟨"bid"⟩ = 1 ∧
      ∃ a ∈ f.answered, a.1.errand = .inquire ⟨"bid"⟩ ∧
        ∃ b ∈ f.answered.take a.1.before, b.1.errand.about? = some ⟨"bid"⟩ ∧
          b.2.status = some 201 ∧ b.2.Later a.2 ∧
            a.2.member? "status" = some (.string "FILLED") := by
  intro order bid ask inquiry
  obtain ⟨first, started, onward, -⟩ := readings_move_onward .standard 10
  have empty := Desk.start_empty_eq .standard
  rw [started] at empty
  cases empty
  have bids : bid.errand 10 ⟨"fresh"⟩ .epoch = .create (.new ⟨"bid"⟩ .buy .one 2 .epoch) :=
    bid.errand_create (q := ⟨some "bid", "buy", Price.one.value, 2⟩) (by decide +kernel) rfl
      (by decide +kernel) (by decide +kernel)
  have asks : ask.errand 10 ⟨"fresh"⟩ .epoch = .create (.new ⟨"ask"⟩ .sell .one 2 .epoch) :=
    ask.errand_create (q := ⟨some "ask", "sell", Price.one.value, 2⟩) (by decide +kernel) rfl
      (by decide +kernel) (by decide +kernel)
  have path : Route.ofPath? inquiry.path = some (.order "bid") := by decide +kernel
  have named : orderId "bid" = .ok ⟨"bid"⟩ := by decide +kernel
  have inquires : inquiry.errand 10 ⟨"fresh"⟩ .epoch = .inquire ⟨"bid"⟩ :=
    (inquiry.errand_order path named).1 rfl
  let m : Moment := ⟨.epoch, .ofNat⟩
  have one := Reached.opened.visited (m := m) started ⟨rfl, rfl, rfl⟩ rfl bids rfl rfl
  have two := one.visited (m := m) started ⟨rfl, rfl, rfl⟩ rfl asks rfl rfl
  have three := two.visited (m := m) started ⟨rfl, rfl, rfl⟩ rfl inquires rfl rfl
  refine ⟨_, _, started, three, ?_, rfl, _, .tail _ (.tail _ (.head _)), rfl, _, .head _, rfl, rfl,
    onward _ three ⟨"bid"⟩ (Nat.le_refl 1) _ (.tail _ (.tail _ (.head _))) rfl _ (.head _) rfl, rfl⟩
  simp only [List.map_cons, List.map_nil, bids, asks, inquires]
  rfl

end Started

end Floor
end Http
end Bourse
