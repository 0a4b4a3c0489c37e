import Bourse.Proofs.Desk.Mirror
import Bourse.Proofs.Http.Errands
import Mathlib.Data.Prod.Lex
import Mathlib.Logic.Relation

/-! Many requests at a time. Each is read and answered on its own. The desk takes their commands one
after the other and records what comes of a command entry by entry; whoever looks into the store
meanwhile finds what has been recorded so far. -/
namespace Bourse.Http

/-- A request that has been read, and how many others had been answered when it came. -/
structure Visit where
  errand : Errand
  before : Nat

/-- What the desk is busy with: whose command it has taken, the reply, what of it is still to be
recorded, and what the feed is to be told. -/
structure Job where
  visit : Visit
  reply : Except Rejection Reply
  left : List Entry
  news : List Event

/-- In `taken` are the ids of the orders taken in so far, and in `answered` how visits ended, both
in the order in which it happened. -/
structure Floor where
  desk : Desk
  taken : List OrderId
  came : List Visit
  waiting : List Visit
  job : Option Job
  looking : List (Visit × OrderId)
  ready : List (Visit × Ending)
  answered : List (Visit × Ending)

namespace Floor

def opened (d : Desk) : Floor := ⟨d, [], [], [], none, [], [], []⟩

def send (f : Floor) (v : Visit) : Outcome → Floor
  | .ended e => { f with ready := f.ready ++ [(v, e)] }
  | .look id => { f with looking := f.looking ++ [(v, id)] }

/-- What clients do: they send requests, and they open and close sockets. -/
inductive Comes (depthLimit : Nat) : Floor → Floor → Prop where
  | request {f : Floor} (r : Request) (fresh : OrderId) (now : Instant) :
      Comes depthLimit f { f with
        came := f.came ++ [⟨r.errand depthLimit fresh now, f.answered.length⟩]
        waiting := f.waiting ++ [⟨r.errand depthLimit fresh now, f.answered.length⟩] }
  | openSocket {f : Floor} :
      Comes depthLimit f { f with desk := { f.desk with feed := f.desk.feed.subscribeTrades.1 } }
  | closeSocket {f : Floor} :
      Comes depthLimit f { f with desk := { f.desk with feed := f.desk.feed.unsubscribe } }

/-- What is done for those who came. Whoever waits may be next, and at every moment. -/
inductive Serves : Floor → Floor → Prop where
  | settle {f : Floor} {before after : List Visit} {v : Visit} {response : Response} :
      f.waiting = before ++ v :: after → v.errand = .settled response →
      Serves f { f with
        waiting := before ++ after
        ready := f.ready ++ [(v, .response response)] }
  | take {f : Floor} {before after : List Visit} {v : Visit} {c : Command} {m : Moment} {d : Desk}
      {r : Except Rejection Reply} :
      f.job = none → f.waiting = before ++ v :: after → v.errand.command? = some c →
      f.desk.handle c m = .ok (d, r) →
      Serves f { f with
        desk := { f.desk with engine := d.engine }
        taken := f.taken ++ (c.taken r).map (·.id)
        waiting := before ++ after
        job := some ⟨v, r, written r, announced m.now r⟩ }
  | write {f : Floor} {j : Job} {e : Entry} {es : List Entry} :
      f.job = some j → j.left = e :: es →
      Serves f { f with
        desk := { f.desk with store := f.desk.store.enter e }
        job := some { j with left := es } }
  | finish {f : Floor} {j : Job} : f.job = some j → j.left = [] →
      Serves f (({ f with desk := f.desk.publish j.news, job := none } : Floor).send j.visit
        (j.visit.errand.outcome j.reply))
  | look {f : Floor} {before after : List (Visit × OrderId)} {v : Visit} {id : OrderId} :
      f.looking = before ++ (v, id) :: after →
      Serves f { f with
        desk := { f.desk with store := (f.desk.store.getOrder id).1 }
        looking := before ++ after
        ready := f.ready ++ [(v, .ofRecorded id (f.desk.store.getOrder id).2)] }
  | answer {f : Floor} {before after : List (Visit × Ending)} {a : Visit × Ending} :
      f.ready = before ++ a :: after →
      Serves f { f with ready := before ++ after, answered := f.answered ++ [a] }

/-- All that can come of opening before this desk. -/
inductive Reached (depthLimit : Nat) (first : Desk) : Floor → Prop where
  | opened : Reached depthLimit first (.opened first)
  | came {f f' : Floor} : Reached depthLimit first f → Comes depthLimit f f' →
      Reached depthLimit first f'
  | served {f f' : Floor} : Reached depthLimit first f → Serves f f' → Reached depthLimit first f'

/-- Nothing is left to do unless somebody comes. -/
def AtRest (f : Floor) : Prop := ∀ f', ¬ Serves f f'

/-- Everyone who is somewhere on the floor or has been answered. -/
def visits (f : Floor) : List Visit :=
  f.waiting ++ (f.job.map Job.visit).toList ++ f.looking.map (·.1) ++ f.ready.map (·.1) ++
    f.answered.map (·.1)

/-- What there is to do for those whose command has been taken, while nobody else is served. -/
def toFinish (f : Floor) : Nat :=
  f.job.elim 0 (·.left.length + 4) + 3 * f.looking.length + f.ready.length

variable {f f' : Floor} {first : Desk} {depthLimit : Nat}

section Send

variable (f : Floor) (v : Visit) (o : Outcome)

@[simp] theorem send_desk : (f.send v o).desk = f.desk := by cases o <;> rfl

@[simp] theorem send_taken : (f.send v o).taken = f.taken := by cases o <;> rfl

@[simp] theorem send_came : (f.send v o).came = f.came := by cases o <;> rfl

@[simp] theorem send_waiting : (f.send v o).waiting = f.waiting := by cases o <;> rfl

@[simp] theorem send_job : (f.send v o).job = f.job := by cases o <;> rfl

@[simp] theorem send_answered : (f.send v o).answered = f.answered := by cases o <;> rfl

theorem mem_send_looking {l : Visit × OrderId} (there : l ∈ (f.send v o).looking) :
    l ∈ f.looking ∨ l.1 = v ∧ o = .look l.2 := by
  cases o with
  | ended => exact .inl there
  | look id =>
    rcases List.mem_append.mp there with there | there
    · exact .inl there
    · rw [List.mem_singleton.mp there]
      exact .inr ⟨rfl, rfl⟩

theorem send_toFinish : (f.send v o).toFinish ≤ f.toFinish + 3 := by
  cases o with
  | ended =>
    simp only [send, toFinish, List.length_append, List.length_singleton]
    omega
  | look =>
    simp only [send, toFinish, List.length_append, List.length_singleton]
    omega

end Send

theorem send_visits (f : Floor) (v : Visit) (o : Outcome) :
    (f.send v o).visits.Perm (v :: f.visits) := by
  classical
  apply List.perm_iff_count.mpr
  intro w
  cases o <;> simp [send, visits, List.count_append, List.count_cons] <;> omega

/-- Nobody is lost, and nobody is served twice. -/
theorem Serves.visits (step : Serves f f') : f'.visits.Perm f.visits := by
  classical
  refine List.perm_iff_count.mpr fun w => ?_
  cases step with
  | settle here | look here | answer here =>
    simp only [Floor.visits, here, List.count_append, List.count_cons, List.map_append,
      List.map_cons, List.map_nil, List.count_nil]
    omega
  | take free here =>
    simp only [Floor.visits, free, here, List.count_append, List.count_cons, Option.map_some,
      Option.map_none, Option.toList_some, Option.toList_none, List.count_nil]
    omega
  | write busy => simp only [Floor.visits, busy, Option.map_some]
  | finish busy =>
    rw [(send_visits _ _ _).count_eq]
    simp only [Floor.visits, busy, List.count_append, List.count_cons, Option.map_some,
      Option.map_none, Option.toList_some, Option.toList_none, List.count_nil]
    omega

theorem Serves.came (step : Serves f f') : f'.came = f.came := by
  cases step with
  | finish => exact send_came _ _ _
  | _ => rfl

theorem Reached.visits (reached : Reached depthLimit first f) : f.came.Perm f.visits := by
  induction reached with
  | opened => exact .nil
  | came _ comes ih =>
    cases comes with
    | request r fresh now =>
      classical
      refine List.perm_iff_count.mpr fun w => ?_
      have known := ih.count_eq w
      simp only [Floor.visits, List.count_append] at known ⊢
      omega
    | openSocket => exact ih
    | closeSocket => exact ih
  | served _ step ih => exact step.came ▸ ih.trans step.visits.symm

theorem Serves.toFinish_lt (step : Serves f f') : f'.waiting.length < f.waiting.length ∨
    f'.waiting.length = f.waiting.length ∧ f'.toFinish < f.toFinish := by
  cases step with
  | settle here | take _ here =>
    left
    simp only [here, List.length_append, List.length_cons]
    omega
  | write busy left =>
    right
    refine ⟨rfl, ?_⟩
    simp only [toFinish, busy, left, Option.elim_some, List.length_cons]
    omega
  | @finish j busy left =>
    right
    refine ⟨by rw [send_waiting], ?_⟩
    refine Nat.lt_of_le_of_lt (send_toFinish _ _ _) ?_
    simp only [toFinish, busy, left, Option.elim_some, Option.elim_none, List.length_nil]
    omega
  | look here | answer here =>
    right
    refine ⟨rfl, ?_⟩
    simp only [toFinish, here, List.length_append, List.length_cons, List.length_nil]
    omega

/-- Those who came are served to the end: no service goes on for ever. -/
theorem serves_wellFounded : WellFounded fun f' f : Floor => Serves f f' := by
  let work : Floor → Lex (Nat × Nat) := fun f => toLex (f.waiting.length, f.toFinish)
  refine Subrelation.wf (fun {f' f} step => ?_) (InvImage.wf work wellFounded_lt)
  exact Prod.Lex.toLex_lt_toLex.mpr step.toFinish_lt

/-- At rest everyone who came has been answered. -/
theorem AtRest.visits (rest : f.AtRest) (sound : f.desk.engine.Sound) :
    f.visits = f.answered.map (·.1) := by
  have free : f.job = none := by
    cases busy : f.job with
    | none => rfl
    | some j =>
      cases left : j.left with
      | nil => exact absurd (.finish busy left) (rest _)
      | cons e es => exact absurd (.write busy left) (rest _)
  have waiting : f.waiting = [] := by
    cases here : f.waiting with
    | nil => rfl
    | cons v after =>
      rw [← List.nil_append (v :: after)] at here
      cases asks : v.errand.command? with
      | none =>
        cases errand : v.errand with
        | settled => exact absurd (.settle here errand) (rest _)
        | _ =>
          rw [errand] at asks
          cases asks
      | some c =>
        obtain ⟨d, r, handled, -⟩ := f.desk.handle_spec sound c ⟨.epoch, .ofNat⟩
        exact absurd (.take free here asks handled) (rest _)
  have looking : f.looking = [] := by
    cases here : f.looking with
    | nil => rfl
    | cons a after =>
      rw [← List.nil_append (a :: after)] at here
      exact absurd (.look here) (rest _)
  have ready : f.ready = [] := by
    cases here : f.ready with
    | nil => rfl
    | cons a after =>
      rw [← List.nil_append (a :: after)] at here
      exact absurd (.answer here) (rest _)
  simp [Floor.visits, free, waiting, looking, ready]

section Alone

variable {before after : List Visit} {v : Visit} {c : Command} {m : Moment} {d : Desk}
  {r : Except Rejection Reply}

theorem answer_one (f : Floor) (a : Visit × Ending) :
    Serves { f with ready := [a] } { f with ready := [], answered := f.answered ++ [a] } := by
  have one := Serves.answer (f := { f with ready := [a] }) (List.nil_append [a]).symm
  exact one

theorem writes (f : Floor) (v : Visit) (r : Except Rejection Reply) (es : List Entry)
    (news : List Event) :
    Relation.ReflTransGen Serves { f with job := some ⟨v, r, es, news⟩ } { f with
      desk := { f.desk with store := f.desk.store.record es }
      job := some ⟨v, r, [], news⟩ } := by
  induction es generalizing f with
  | nil => exact .refl
  | cons e es ih =>
    let entered : Desk := { f.desk with store := f.desk.store.enter e }
    exact .head (.write rfl rfl) (ih { f with desk := entered })

/-- What a command does is done once its entries have been recorded and its events published. -/
theorem desk_of_handle {desk : Desk} (sound : desk.engine.Sound)
    (handled : desk.handle c m = .ok (d, r)) :
    ({ desk with engine := d.engine, store := desk.store.record (written r) } : Desk).publish
      (announced m.now r) = d := by
  obtain ⟨feed, serving⟩ := Desk.handle_feed handled
  rw [Desk.publish, ← (desk.handled sound handled).store]
  dsimp only
  rw [← feed, ← serving]

/-- If nobody else is about, an errand ends as it does when it is run, and leaves the same desk. -/
theorem alone (free : f.job = none) (nobody : f.looking = [] ∧ f.ready = [])
    (here : f.waiting = before ++ v :: after) (asks : v.errand.command? = some c)
    (sound : f.desk.engine.Sound) (handled : f.desk.handle c m = .ok (d, r)) :
    Relation.ReflTransGen Serves f { f with
      desk := (Errand.conclude d (v.errand.outcome r)).1
      taken := f.taken ++ (c.taken r).map (·.id)
      waiting := before ++ after
      answered := f.answered ++ [(v, (Errand.conclude d (v.errand.outcome r)).2)] } := by
  obtain ⟨desk, taken, came, waiting, job, looking, ready, answered⟩ := f
  obtain ⟨rfl, rfl⟩ : looking = [] ∧ ready = [] := nobody
  obtain rfl : job = none := free
  let busy : Floor := ⟨{ desk with engine := d.engine }, taken ++ (c.taken r).map (·.id), came,
    before ++ after, none, [], [], answered⟩
  have recorded := busy.writes v r (written r) (announced m.now r)
  have finished := Serves.finish (f := { busy with
    desk := { busy.desk with store := desk.store.record (written r) }
    job := some ⟨v, r, [], announced m.now r⟩ }) rfl rfl
  dsimp only [busy] at finished
  rw [desk_of_handle sound handled] at finished
  refine .head (.take rfl here asks handled) (recorded.trans (.head finished ?_))
  cases v.errand.outcome r with
  | ended e => exact .single (answer_one { busy with desk := d } (v, e))
  | look id =>
    have look := Serves.look (f := ({ busy with desk := d } : Floor).send v (.look id))
      (List.nil_append [(v, id)]).symm
    let looked : Desk := { d with store := (d.store.getOrder id).1 }
    exact .head look (.single (answer_one { busy with desk := looked } _))

end Alone

end Floor
end Bourse.Http
