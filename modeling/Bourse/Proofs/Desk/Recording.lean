import Bourse.Proofs.Desk.Lifetimes
import Bourse.Proofs.Desk.Mirror

/-! A store while a command is being recorded in it, entry by entry. Whoever looks into it finds of
every order the record of before or that of after, and never one that is ahead of the latter. -/
namespace Bourse

def Entry.id? : Entry → Option OrderId
  | .saved o | .updated o => some o.id
  | .traded _ => none

namespace Ledger

variable {l : Ledger} {e : Entry} {es : List Entry} {id : OrderId}

theorem get?_save_other {o : Order} (other : o.id ≠ id) : (l.save o).get? id = l.get? id := by
  have replaced (os : List Order) :
      (replace o os).find? (·.id == id) = os.find? (·.id == id) := by
    induction os with
    | nil => simp [replace, other]
    | cons p os ih =>
      unfold replace
      split
      · rename_i same
        simp [other, same]
      · simp [List.find?_cons, ih]
  exact replaced l.orders

theorem get?_enter_other (other : e.id? ≠ some id) : (l.enter e).get? id = l.get? id := by
  cases e with
  | saved o => exact get?_save_other fun same => other (congrArg some same)
  | updated o =>
    unfold enter
    dsimp only
    split
    · exact get?_save_other fun same => other (congrArg some same)
    · rfl
  | traded => rfl

theorem get?_entered_other (others : id ∉ es.filterMap Entry.id?) :
    (es.foldl enter l).get? id = l.get? id := by
  induction es generalizing l with
  | nil => rfl
  | cons e es ih =>
    have first : e.id? ≠ some id := fun same => others (by simp [same])
    have rest : id ∉ es.filterMap Entry.id? := fun there => others (by
      rw [List.filterMap_cons]
      split
      · exact there
      · exact List.mem_cons_of_mem _ there)
    rw [List.foldl_cons, ih rest, get?_enter_other first]

theorem Sound.enter (h : l.Sound) (e : Entry) : (l.enter e).Sound := by
  cases e with
  | saved o => exact h.save o
  | updated o =>
    unfold Ledger.enter
    dsimp only
    split
    · exact h.save o
    · exact h
  | traded => exact h

end Ledger

/-- One entry is written of every order that the reply tells of. -/
theorem written_ids (r : Except Rejection Reply) :
    (written r).filterMap Entry.id? = (ordersOf r).map (·.id) := by
  have updates (os : List Order) : (os.map .updated).filterMap Entry.id? = os.map (·.id) := by
    rw [List.filterMap_map]
    exact congrFun List.filterMap_eq_map os
  cases r with
  | error => rfl
  | ok reply =>
    cases reply with
    | execution x =>
      have trades : (if x.fills.isEmpty then [] else [Entry.traded x.trades]).filterMap Entry.id? =
          [] := by
        split <;> rfl
      rw [written, Execution.entries, List.filterMap_append, trades, List.append_nil]
      exact congrArg (x.order.id :: ·) (updates x.makers)
    | cancelled o => cases o <;> rfl
    | order => rfl
    | depth => rfl

/-- Records tell of the ledger and not of how often the store has been called. -/
theorem Records.of_ledger {s s' : Store} {e : Engine} (h : Records s e) (calm : s'.Calm)
    (same : s'.ledger = s.ledger) : Records s' e where
  sound := h.sound
  lively := h.lively
  calm := calm
  ledger := same ▸ h.ledger
  resting := same ▸ h.resting
  trades := same ▸ h.trades

/-- A store in which the entries `left` are still to be recorded, so that it has recorded the
engine. The orders of these ids have been taken in so far. -/
structure Recording (s : Store) (e : Engine) (left : List Entry) (taken : List OrderId) : Prop where
  calm : s.Calm
  ledger : s.ledger.Sound
  records : Records (s.record left) e
  distinct : (left.filterMap Entry.id?).Nodup
  known : ∀ o ∈ (s.record left).ledger.orders, o.id ∈ taken
  onward : ∀ id, taken.count id ≤ 1 → Onward s.ledger.get? (s.record left).ledger.get? id

namespace Recording

variable {s s' : Store} {e e' : Engine} {left : List Entry} {taken : List OrderId} {m : Moment}
  {c : Command} {r : Except Rejection Reply}

theorem of_records (h : Records s e) (known : ∀ o ∈ s.ledger.orders, o.id ∈ taken) :
    Recording s e [] taken where
  calm := h.calm
  ledger := h.ledger
  records := h
  distinct := .nil
  known := known
  onward id _ := .refl _ id

/-- A command is handled before any of it is recorded. -/
theorem handled (h : Recording s e [] taken) (f : Handled e s m c r e' s') :
    Recording s e' (written r) (taken ++ (c.taken r).map (·.id)) := by
  have records : Records s e := h.records
  have store := f.store
  subst store
  have posted := f.posted records
  exact
    { calm := h.calm
      ledger := h.ledger
      records := f.records records
      distinct := by
        rw [written_ids]
        exact (f.announces records).distinct
      known := by
        intro y hy
        rw [List.mem_append]
        rcases (posted.mem y).mp hy with hy | ⟨hy, -⟩
        · rcases posted.written y hy with ⟨o, ho, traded⟩ | ⟨z, hz, -, traded⟩
          · exact .inr (List.mem_map.mpr ⟨o, ho, traded.id.symm⟩)
          · exact .inl (traded.id ▸ h.known z hz)
        · exact .inl (h.known y hy)
      onward := by
        intro id once
        by_cases here : id ∈ (c.taken r).map (·.id)
        · -- It has not been taken in before, so there is no record of it to be brought onward.
          intro o found
          obtain ⟨there, rfl⟩ := (h.ledger.holds _ _).mp found
          have before := List.count_pos_iff.mpr (h.known o there)
          have now := List.count_pos_iff.mpr here
          rw [List.count_append] at once
          omega
        · exact f.onward records here }

variable {first : Entry}

/-- What has been recorded of an order stays so until the command is done. -/
theorem enter_get? (h : Recording s e (first :: left) taken) {id : OrderId}
    (named : first.id? = some id) :
    (s.enter first).ledger.get? id = (s.record (first :: left)).ledger.get? id := by
  have apart : id ∉ left.filterMap Entry.id? := by
    have distinct := h.distinct
    rw [List.filterMap_cons_some named] at distinct
    exact (List.nodup_cons.mp distinct).1
  obtain ⟨calm, -⟩ := h.calm.enter first
  change _ = ((s.enter first).record left).ledger.get? id
  rw [(calm.record left).2, Ledger.get?_entered_other apart]

theorem enter_other (h : Recording s e (first :: left) taken) {id : OrderId}
    (other : first.id? ≠ some id) : (s.enter first).ledger.get? id = s.ledger.get? id := by
  rw [(h.calm.enter first).2, Ledger.get?_enter_other other]

theorem enter (h : Recording s e (first :: left) taken) :
    Recording (s.enter first) e left taken where
  calm := (h.calm.enter first).1
  ledger := (h.calm.enter first).2 ▸ h.ledger.enter first
  records := h.records
  distinct := by
    have distinct := h.distinct
    rw [List.filterMap_cons] at distinct
    split at distinct
    · exact distinct
    · exact (List.nodup_cons.mp distinct).2
  known := h.known
  onward := by
    intro id once
    by_cases named : first.id? = some id
    · intro o found
      exact ⟨o, h.enter_get? named ▸ found, .refl o⟩
    · intro o found
      exact h.onward id once o (h.enter_other named ▸ found)

/-- An entry brings the record of its order onward, and leaves the others. -/
theorem enter_onward (h : Recording s e (first :: left) taken) {id : OrderId}
    (once : taken.count id ≤ 1) : Onward s.ledger.get? (s.enter first).ledger.get? id := by
  by_cases named : first.id? = some id
  · intro o found
    rw [h.enter_get? named]
    exact h.onward id once o found
  · intro o found
    exact ⟨o, (h.enter_other named).trans found, .refl o⟩

/-- To look for an order is to call the store, and leaves what is recorded. -/
theorem getOrder (h : Recording s e left taken) (id : OrderId) :
    Recording (s.getOrder id).1 e left taken := by
  have calm : Store.Calm { s with calls := s.calls + 1 } := h.calm
  have same : (Store.record { s with calls := s.calls + 1 } left).ledger =
      (s.record left).ledger := (calm.record left).2.trans (h.calm.record left).2.symm
  rw [Store.getOrder, h.calm.call]
  exact
    { calm := calm
      ledger := h.ledger
      records := h.records.of_ledger (calm.record left).1 same
      distinct := h.distinct
      known := by
        rw [same]
        exact h.known
      onward := by
        rw [same]
        exact h.onward }

end Recording
end Bourse
