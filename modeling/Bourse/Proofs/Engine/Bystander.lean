import Bourse.Proofs.Engine.Counters
import Bourse.Proofs.Engine.Quantities
import Bourse.Proofs.Engine.Twins

/-! Bystanders: orders that come, perhaps go, and never trade. A run in which there is one is, for
everybody else, the run in which it never came; only sequences behind it are renamed. -/
namespace Bourse

def Outcome.seen (v : View) : Outcome → Outcome
  | .submitted (.ok x) => .submitted (.ok (x.seen v))
  | .cancelled o => .cancelled (o.map (·.seen v))
  | .restored placed => .restored (placed.map (·.seen v))
  | out => out

def Outcome.trades : Outcome → List Trade
  | .submitted (.ok x) => x.trades
  | _ => []

def Outcome.isRejected : Outcome → Bool
  | .submitted (.error _) => true
  | _ => false

def View.renamed (v : View) (f : Nat → Nat) : View := { v with sequence := f }

namespace Instruction

def names (x : OrderId) : Instruction → Bool
  | submit o _ => o.id == x
  | cancel id _ => id == x

def submitted : Instruction → List OrderId
  | submit o _ => [o.id]
  | cancel .. => []

/-- The same instruction, at moments that look the same. -/
inductive Like (v₀ v : View) : Instruction → Instruction → Prop where
  | submit {o : Order} {m₀ m : Moment} : m₀.seen v₀ = m.seen v →
      v₀.time o.updatedAt = v.time o.updatedAt → Like v₀ v (submit o m₀) (submit o m)
  | cancel {id : OrderId} {now₀ now : Instant} : v₀.time now₀ = v.time now →
      Like v₀ v (cancel id now₀) (cancel id now)

theorem Like.renamed {v₀ v : View} {i₀ i : Instruction} {f : Nat → Nat} (h : Like v₀ v i₀ i) :
    Like (v₀.renamed f) v.plain i₀ i := by
  cases h with
  | submit alike brought => exact .submit alike brought
  | cancel alike => exact .cancel alike

/-- The outcomes of the instructions that are not about the order of this id. -/
def othersOf (x : OrderId) (is : List Instruction) (outs : List Outcome) : List Outcome :=
  ((is.zip outs).filter fun p => !p.1.names x).map (·.2)

section OthersOf

variable {x : OrderId} {i : Instruction} {is : List Instruction} {out : Outcome}
  {outs : List Outcome}

theorem othersOf_cons_of_neg (other : i.names x = false) :
    othersOf x (i :: is) (out :: outs) = out :: othersOf x is outs := by
  simp [othersOf, other]

theorem othersOf_cons_of_pos (mine : i.names x = true) :
    othersOf x (i :: is) (out :: outs) = othersOf x is outs := by
  simp [othersOf, mine]

end OthersOf

/-- Where a run stands that is to meet the order `x` when its counter is at `k`: before it, or, with
one sequence more than without the order, behind it. -/
inductive Stands (x : OrderId) (k : Nat) : Nat → Nat → List Instruction → Prop where
  | before {next : Nat} {is : List Instruction} : (is.flatMap submitted).count x = 1 →
      next + (is.flatMap submitted).idxOf x = k → Stands x k 0 next is
  | behind {next : Nat} {is : List Instruction} : x ∉ is.flatMap submitted → k ≤ next →
      Stands x k 1 (next + 1) is

section Stands

variable {x : OrderId} {k gap next : Nat} {i : Instruction} {is : List Instruction} {o : Order}
  {m : Moment}

theorem Stands.other (h : Stands x k gap next (i :: is)) (other : i.names x = false) :
    Stands x k gap (next + i.submitted.length) is := by
  cases i with
  | cancel =>
    cases h with
    | before once due => exact .before once due
    | behind gone past => exact .behind gone past
  | submit o m =>
    have other : o.id ≠ x := by simpa [names] using other
    cases h with
    | before once due =>
      rw [List.flatMap_cons, submitted, List.singleton_append] at once due
      rw [List.count_cons_of_ne other] at once
      rw [List.idxOf_cons_ne _ other] at due
      exact .before once (Nat.succ_add_eq_add_succ _ _ |>.trans due)
    | behind gone past =>
      exact .behind (fun later => gone (List.mem_cons_of_mem _ later)) (Nat.le_succ_of_le past)

theorem Stands.self (h : Stands x k gap next (i :: is)) (mine : i.names x = true) :
    Stands x k (gap + i.submitted.length) (next + i.submitted.length) is := by
  cases i with
  | cancel =>
    cases h with
    | before once due => exact .before once due
    | behind gone past => exact .behind gone past
  | submit o m =>
    obtain rfl : o.id = x := by simpa [names] using mine
    cases h with
    | before once due =>
      rw [List.flatMap_cons, submitted, List.singleton_append] at once due
      rw [List.count_cons_self, Nat.add_eq_right, List.count_eq_zero] at once
      rw [List.idxOf_cons_self] at due
      exact .behind once (Nat.le_of_eq due.symm)
    | behind gone _ => exact absurd List.mem_cons_self gone

/-- Before the order sequences are as they would be without it, behind it they are one higher. -/
theorem Stands.renumber (h : Stands x k gap next (.submit o m :: is)) (other : o.id ≠ x) {n : Nat}
    (behind : n + gap = next) : renumber id k (k + 1) n = next := by
  unfold Bourse.renumber
  cases h with
  | before _ due =>
    rw [List.flatMap_cons, submitted, List.singleton_append, List.idxOf_cons_ne _ other] at due
    rw [if_pos (by omega)]
    exact behind
  | behind _ past =>
    rw [if_neg (by omega)]
    omega

end Stands
end Instruction

namespace Engine

open Instruction

variable {v₀ v : View} {x : OrderId} {k gap : Nat} {e₀ e e₀' e' : Engine} {i i₀ : Instruction}
  {is rest : List Instruction} {out : Outcome} {outs : List Outcome}

theorem Effect.nextSequence (f : Effect e (.instruct i) out e')
    (accepted : out.isRejected = false) :
    e'.nextSequence = e.nextSequence + i.submitted.length := by
  cases f with
  | rejected => cases accepted
  | accepted _ a => exact a.nextSequence
  | cancelled _ c => exact c.nextSequence
  | absent => rfl

/-- The first engine is the second without the order `x`, and `gap` sequences behind. -/
structure Without (v₀ v : View) (x : OrderId) (gap : Nat) (e₀ e : Engine) : Prop where
  excerpt : Excerpt v₀ v (· != x) e₀ e
  nextSequence : e₀.nextSequence + gap = e.nextSequence

namespace Without

/-- Whoever is not the bystander is answered alike. -/
theorem other (h : Without v₀ v x gap e₀ e) (like : Like v₀ v i₀ i) (other : i.names x = false)
    (next : ∀ o m, i = .submit o m → v₀.sequence e₀.nextSequence = v.sequence e.nextSequence)
    (accepted : out.isRejected = false) (idle : ∀ t ∈ out.trades, t.maker ≠ x)
    (f : Effect e (.instruct i) out e') :
    ∃ e₀' out₀, e₀.step (.instruct i₀) = .ok (e₀', out₀) ∧ out₀.seen v₀ = out.seen v ∧
      Without v₀ v x gap e₀' e' := by
  cases like with
  | @submit o m₀ m alike brought =>
    cases f with
    | rejected => cases accepted
    | accepted fits a =>
      have kept : (o.id != x) = true := by simpa [names] using other
      have fits₀ := h.excerpt.rejection?_none fits
      obtain ⟨e₀', hok, a₀⟩ := h.excerpt.sound₀.submit fits₀ m₀
      have matched := h.excerpt.matched (next o m rfl) alike brought fun f hf =>
        bne_iff_ne.mpr (idle f.trade (List.mem_map_of_mem hf))
      refine ⟨e₀', .submitted (.ok ⟨(e₀.matchOf o m₀).taker.settled, (e₀.matchOf o m₀).fills⟩),
        ?_, ?_, h.excerpt.accepted kept matched a₀ a, ?_⟩
      · simp only [Engine.step, instruct, hok, Except.map]
      · exact congrArg (fun r => Outcome.submitted (.ok ⟨r.taker.settled, r.fills⟩)) matched
      · rw [a₀.nextSequence, a.nextSequence, ← h.nextSequence]
        omega
  | @cancel y now₀ now alike =>
    rcases f.cancel with ⟨o, here, rfl, c, rfl⟩ | ⟨absent, rfl, rfl⟩
    · have kept : (o.id != x) = true := by simpa [names] using other
      obtain ⟨o₀, here₀, like⟩ := h.excerpt.exists_like₀ here kept
      obtain ⟨e₀', hok, c₀⟩ := h.excerpt.sound₀.cancel here₀ now₀
      have sameId : o₀.id = o.id := (congrArg Order.id like :)
      refine ⟨e₀', .cancelled (some { o₀ with status := .cancelled, updatedAt := now₀ }), ?_, ?_,
        h.excerpt.cancelled like kept c₀ c, ?_⟩
      · simp only [Engine.step, instruct, ← sameId, hok, Except.map]
      · exact congrArg (fun o => Outcome.cancelled (some o)) (Order.seen_cancelled like alike)
      · rw [c₀.nextSequence, c.nextSequence, h.nextSequence]
    · have absent₀ : ∀ o₀ ∈ e₀.book.orders, o₀.id ≠ y := fun o₀ here₀ => by
        obtain ⟨o, here, -, like⟩ := h.excerpt.exists_like here₀
        have sameId : o.id = o₀.id := (congrArg Order.id like :)
        exact sameId ▸ absent o here
      refine ⟨e₀, .cancelled none, ?_, rfl, h⟩
      simp only [Engine.step, instruct, h.excerpt.sound₀.cancel_none absent₀, Except.map]

/-- What the bystander does leaves the others where they are. -/
theorem self (h : Without v₀ v x gap e₀ e) (mine : i.names x = true)
    (accepted : out.isRejected = false) (idle : ∀ t ∈ out.trades, t.taker ≠ x)
    (f : Effect e (.instruct i) out e') :
    Without v₀ v x (gap + i.submitted.length) e₀ e' where
  excerpt := by
    cases i with
    | submit o m =>
      obtain rfl : o.id = x := by simpa [names] using mine
      cases f with
      | rejected => cases accepted
      | accepted fits a =>
        refine h.excerpt.joined (bne_self_eq_false _) ?_ a
        refine List.eq_nil_iff_forall_not_mem.mpr fun f hf => ?_
        obtain ⟨_, _, taker, _⟩ := of_mem_matchQueue_fills _ _ _ _ hf
        exact idle f.trade (List.mem_map_of_mem hf) taker
    | cancel y now =>
      obtain rfl : y = x := by simpa [names] using mine
      rcases f.cancel with ⟨o, here, rfl, c, rfl⟩ | ⟨absent, rfl, rfl⟩
      · exact h.excerpt.left (bne_self_eq_false _) c
      · exact h.excerpt
  nextSequence := by rw [f.nextSequence accepted, ← h.nextSequence, Nat.add_assoc]

/-- Before the order comes the two are the same engine. -/
theorem start (sound : e.Sound) (fresh : ∀ o ∈ e.book.orders, o.id ≠ x)
    (known : ∀ o ∈ e.book.orders, v₀.time o.updatedAt = v.time o.updatedAt)
    (mono₀ : StrictMono v₀.sequence) (mono : StrictMono v.sequence)
    (same : ∀ s < e.nextSequence, v₀.sequence s = v.sequence s) : Without v₀ v x 0 e e where
  excerpt :=
    { sound₀ := sound
      sound := sound
      mono₀ := mono₀
      mono := mono
      queues := by
        intro side
        have here : ∀ o ∈ (e.book.ladder side).orders, o ∈ e.book.orders :=
          fun _ => Book.mem_of_ladder
        have whole : keeping (· != x) (e.book.ladder side).orders = (e.book.ladder side).orders :=
          List.filter_eq_self.mpr fun o ho => bne_iff_ne.mpr (fresh o (here o ho))
        rw [whole]
        apply List.map_congr_left
        intro o ho
        rw [Order.seen, Order.seen, same _ (sound.numbered o (here o ho)).2, known o (here o ho)]
      nextTrade := rfl }
  nextSequence := rfl

/-- Once the order is cancelled, if it still rests, the two have the same levels. -/
theorem removed (h : Without v₀ v x gap e₀ e) (now : Instant) :
    ∃ e' gone, e.cancel x now = .ok (e', gone) ∧
      ∀ side, (e₀.book.ladder side).seen v₀ = (e'.book.ladder side).seen v := by
  by_cases present : ∃ o ∈ e.book.orders, o.id = x
  · obtain ⟨o, here, rfl⟩ := present
    obtain ⟨e', hok, c⟩ := h.excerpt.sound.cancel here now
    refine ⟨e', _, hok, (h.excerpt.left (bne_self_eq_false _) c).ladders fun y hy => ?_⟩
    have ids := (c.orders.map (·.id)).nodup_iff.mp h.excerpt.sound.book.ids
    have gone := (List.nodup_cons.mp ids).1
    exact bne_iff_ne.mpr fun same => gone (List.mem_map.mpr ⟨y, hy, same⟩)
  · have absent : ∀ o ∈ e.book.orders, o.id ≠ x := by simpa using present
    exact ⟨e, none, h.excerpt.sound.cancel_none absent now,
      h.excerpt.ladders fun o ho => bne_iff_ne.mpr (absent o ho)⟩

theorem run (h : Without v₀ v x gap e₀ e) (shifted : v₀.sequence = renumber id k (k + 1))
    (plain : v.sequence = id) (stands : Stands x k gap e.nextSequence is)
    (like : List.Forall₂ (Like v₀ v) rest (is.filter fun i => !i.names x))
    (accepted : ∀ out ∈ outs, out.isRejected = false)
    (idle : ∀ out ∈ outs, ∀ t ∈ out.trades, t.taker ≠ x ∧ t.maker ≠ x)
    (r : Ran e (is.map .instruct) outs e') :
    ∃ gap' e₀' outs₀, e₀.run (rest.map .instruct) = .ok (e₀', outs₀) ∧
      outs₀.map (·.seen v₀) = (othersOf x is outs).map (·.seen v) ∧
      Without v₀ v x gap' e₀' e' := by
  induction is generalizing gap e₀ e rest outs with
  | nil =>
    cases r
    cases like
    exact ⟨gap, e₀, [], rfl, rfl, h⟩
  | cons i is ih =>
    cases r with
    | @cons _ e₁ _ _ _ out outs f more =>
      have accepted₁ := accepted out List.mem_cons_self
      have accepted₂ := fun o ho => accepted o (List.mem_cons_of_mem out ho)
      have idle₁ := idle out List.mem_cons_self
      have idle₂ := fun o ho => idle o (List.mem_cons_of_mem out ho)
      cases mine : i.names x with
      | true =>
        rw [List.filter_cons_of_neg (by simp [mine])] at like
        have first := h.self mine accepted₁ (fun t ht => (idle₁ t ht).1) f
        have stands₁ := f.nextSequence accepted₁ ▸ stands.self mine
        rw [othersOf_cons_of_pos mine]
        exact ih first stands₁ like accepted₂ idle₂ more
      | false =>
        rw [List.filter_cons_of_pos (by simp [mine])] at like
        cases like with
        | @cons i₀ _ rest _ like likes =>
          have next : ∀ o m, i = .submit o m →
              v₀.sequence e₀.nextSequence = v.sequence e.nextSequence := by
            rintro o m rfl
            rw [shifted, plain]
            exact stands.renumber (by simpa [names] using mine) h.nextSequence
          obtain ⟨e₀₁, out₀, hok, same, first⟩ :=
            h.other like mine next accepted₁ (fun t ht => (idle₁ t ht).2) f
          have stands₁ := f.nextSequence accepted₁ ▸ stands.other mine
          obtain ⟨gap', e₀', outs₀, hok₂, sames, last⟩ :=
            ih first stands₁ likes accepted₂ idle₂ more
          refine ⟨gap', e₀', out₀ :: outs₀, by simp [Engine.run, hok, hok₂], ?_, last⟩
          rw [othersOf_cons_of_neg mine, List.map_cons, List.map_cons, same, sames]

end Without

/-- From any engine that can be reached, let orders be submitted, all of them accepted, and
cancelled. If one of them is in no trade, then without its submission and its cancellations all
others are answered alike, and the final books are alike but for it. Sequences are renamed, in
order. The run without it may have clock readings and trade ids of its own: the two views make the
same of the answers if they make the same of what is asked. The counters stay below 2 to the 64th in
both runs while the calls are modest. -/
theorem run_without {past : List Step} {before : List Outcome}
    (reached : new.run past = .ok (e, before)) (fresh : ∀ o ∈ e.book.orders, o.id ≠ x)
    (once : (is.flatMap submitted).count x = 1)
    (ran : e.run (is.map .instruct) = .ok (e', outs))
    (accepted : ∀ out ∈ outs, out.isRejected = false)
    (idle : ∀ out ∈ outs, ∀ t ∈ out.trades, t.taker ≠ x ∧ t.maker ≠ x)
    (known : ∀ o ∈ e.book.orders, v₀.time o.updatedAt = v.time o.updatedAt)
    (like : List.Forall₂ (Like v₀ v) rest (is.filter fun i => !i.names x)) :
    ∃ f e₀' outs₀, StrictMono f ∧ e.run (rest.map .instruct) = .ok (e₀', outs₀) ∧
      outs₀.map (·.seen (v₀.renamed f)) = (othersOf x is outs).map (·.seen v.plain) ∧
      (∀ side, (e₀'.book.ladder side).orders.map (·.seen (v₀.renamed f)) =
        ((e'.book.ladder side).orders.filter (·.id != x)).map (·.seen v.plain)) ∧
      (∀ now, ∃ e'' gone, e'.cancel x now = .ok (e'', gone) ∧
        ∀ side, (e₀'.book.ladder side).seen (v₀.renamed f) = (e''.book.ladder side).seen v.plain) ∧
      e₀'.nextTrade = e'.nextTrade ∧
      (Modest (past ++ is.map .instruct) → e'.InRange ∧ e₀'.InRange) := by
  have sound : e.Sound := by
    obtain ⟨_, _, hok, r⟩ := sound_new.run past
    rw [reached] at hok
    cases hok
    exact (r.advances sound_new).sound
  have range := run_inRange (run_append reached ran)
  obtain ⟨_, _, hok, r⟩ := sound.run (is.map .instruct)
  rw [ran] at hok
  cases hok
  -- The bystander will get the sequence `k`. Those below it stay, the others move up to its place.
  let k := e.nextSequence + (is.flatMap submitted).idxOf x
  have mono : StrictMono (renumber id k (k + 1)) :=
    renumber_strictMono strictMono_id fun s hs => Nat.lt_succ_of_lt hs
  have low : ∀ s < e.nextSequence, renumber id k (k + 1) s = s := fun s hs =>
    if_pos (Nat.lt_of_lt_of_le hs (Nat.le_add_right _ _))
  have start : Without (v₀.renamed (renumber id k (k + 1))) v.plain x 0 e e :=
    .start sound fresh known mono strictMono_id low
  have like' := like.imp fun i₀ i => Like.renamed (f := renumber id k (k + 1))
  obtain ⟨gap, e₀', outs₀, hok, same, last⟩ :=
    start.run rfl rfl (.before once rfl) like' accepted idle r
  refine ⟨_, e₀', outs₀, mono, hok, same, last.excerpt.queues, last.removed,
    last.excerpt.nextTrade, fun modest => ⟨range modest, ?_, ?_⟩⟩
  · exact Nat.le_trans (Nat.le.intro last.nextSequence) (range modest).sequence
  · exact last.excerpt.nextTrade ▸ (range modest).trade

/-- An offer stands between another offer and the bid that takes it, and goes when all is over. -/
theorem run_without_dearer_offer :
    let two : Price := ⟨⟨false, 2, 0, by decide, Nat.zero_le _⟩, rfl, .inl rfl⟩
    let dear : Order := .new ⟨"dear"⟩ .sell two 4 .epoch
    let cheap : Order := .new ⟨"cheap"⟩ .sell .one 3 .epoch
    let bid : Order := .new ⟨"bid"⟩ .buy .one 5 .epoch
    let m : Moment := ⟨.epoch, .ofNat⟩
    let v : View := ⟨id, id, id⟩
    let is : List Instruction := [.submit dear m, .submit cheap m, .submit bid m,
      .cancel dear.id .epoch, .cancel bid.id .epoch]
    let rest : List Instruction := [.submit cheap m, .submit bid m, .cancel bid.id .epoch]
    ∃ e' outs, new.run (is.map .instruct) = .ok (e', outs) ∧
      ∃ f e₀' outs₀, StrictMono f ∧ new.run (rest.map .instruct) = .ok (e₀', outs₀) ∧
      outs₀.map (·.seen (v.renamed f)) = (othersOf dear.id is outs).map (·.seen v.plain) ∧
      (∀ side, (e₀'.book.ladder side).orders.map (·.seen (v.renamed f)) =
        ((e'.book.ladder side).orders.filter (·.id != dear.id)).map (·.seen v.plain)) ∧
      (∀ now, ∃ e'' gone, e'.cancel dear.id now = .ok (e'', gone) ∧
        ∀ side, (e₀'.book.ladder side).seen (v.renamed f) = (e''.book.ladder side).seen v.plain) ∧
      e₀'.nextTrade = e'.nextTrade ∧ e'.InRange ∧ e₀'.InRange := by
  intro two dear cheap bid m v is rest
  have reached : new.run [] = .ok (new, []) := rfl
  have like : List.Forall₂ (Like v v) rest (is.filter fun i => !i.names dear.id) :=
    .cons (.submit rfl rfl) (.cons (.submit rfl rfl) (.cons (.cancel rfl) .nil))
  obtain ⟨e', outs, ran⟩ : ∃ e' outs, new.run (is.map .instruct) = .ok (e', outs) := ⟨_, _, rfl⟩
  have played := ran
  cases played
  obtain ⟨f, e₀', outs₀, mono, hok, same, queues, removed, trade, range⟩ :=
    run_without reached nofun (by decide) ran (by decide +kernel) (by decide +kernel) nofun like
  exact ⟨_, _, ran, f, e₀', outs₀, mono, hok, same, queues, removed, trade, range (by decide)⟩

end Engine
end Bourse
