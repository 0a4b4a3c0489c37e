import Bourse.Ledger.Store
import Mathlib.Data.List.Nodup

/-! What is recorded while no call fails: of every order the last state that was entered, and every
trade. -/
namespace Bourse

namespace Ledger

variable {l : Ledger} {o : Order} {os : List Order}

/-- One record an id. -/
def Sound (l : Ledger) : Prop := (l.orders.map (·.id)).Nodup

theorem mem_replace (distinct : (os.map (·.id)).Nodup) (x : Order) :
    x ∈ replace o os ↔ x = o ∨ x ∈ os ∧ x.id ≠ o.id := by
  induction os with
  | nil => simp [replace]
  | cons p os ih =>
    have parts := List.nodup_cons.mp distinct
    have others : ∀ y ∈ os, y.id ≠ p.id := fun y hy same => parts.1 (List.mem_map.mpr ⟨y, hy, same⟩)
    unfold replace
    split
    · rename_i same
      rw [List.mem_cons, List.mem_cons]
      constructor
      · rintro (rfl | hx)
        · exact .inl rfl
        · exact .inr ⟨.inr hx, same ▸ others x hx⟩
      · rintro (rfl | ⟨rfl | hx, ne⟩)
        · exact .inl rfl
        · exact absurd same ne
        · exact .inr hx
    · rename_i different
      rw [List.mem_cons, List.mem_cons, ih parts.2]
      constructor
      · rintro (rfl | rfl | ⟨hx, ne⟩)
        · exact .inr ⟨.inl rfl, different⟩
        · exact .inl rfl
        · exact .inr ⟨.inr hx, ne⟩
      · rintro (rfl | ⟨rfl | hx, ne⟩)
        · exact .inr (.inl rfl)
        · exact .inl rfl
        · exact .inr (.inr ⟨hx, ne⟩)

theorem nodup_replace (distinct : (os.map (·.id)).Nodup) :
    ((replace o os).map (·.id)).Nodup := by
  induction os with
  | nil => simp [replace]
  | cons p os ih =>
    have parts := List.nodup_cons.mp distinct
    unfold replace
    split
    · rename_i same
      rw [List.map_cons, same] at distinct
      exact distinct
    · rename_i different
      refine List.nodup_cons.mpr ⟨fun hm => ?_, ih parts.2⟩
      obtain ⟨y, hy, same⟩ := List.mem_map.mp hm
      rcases (mem_replace parts.2 y).mp hy with rfl | ⟨hy, -⟩
      · exact different same.symm
      · exact parts.1 (same ▸ List.mem_map_of_mem hy)

theorem Sound.save (h : l.Sound) (o : Order) : (l.save o).Sound := nodup_replace h

theorem Sound.mem_save (h : l.Sound) (x : Order) :
    x ∈ (l.save o).orders ↔ x = o ∨ x ∈ l.orders ∧ x.id ≠ o.id := mem_replace h x

def enter (l : Ledger) : Entry → Ledger
  | .saved o => l.save o
  | .updated o => if (l.get? o.id).isSome then l.save o else l
  | .traded ts => l.saveTrades ts

theorem get?_isSome {id : OrderId} (known : id ∈ l.orders.map (·.id)) :
    (l.get? id).isSome = true := by
  obtain ⟨x, hx, same⟩ := List.mem_map.mp known
  exact List.find?_isSome.mpr ⟨x, hx, by simpa using same⟩

theorem enter_updated (known : o.id ∈ l.orders.map (·.id)) : l.enter (.updated o) = l.save o :=
  if_pos (get?_isSome known)

theorem ids_enter {id : OrderId} (known : id ∈ l.orders.map (·.id)) (e : Entry) :
    id ∈ (l.enter e).orders.map (·.id) := by
  have saved : ∀ (o : Order) (os : List Order), id ∈ os.map (·.id) →
      id ∈ (replace o os).map (·.id) := by
    intro o os
    induction os with
    | nil => exact nofun
    | cons p os ih =>
      intro here
      unfold replace
      split
      · rename_i same
        rw [List.map_cons, ← same]
        exact here
      · rcases List.mem_cons.mp here with rfl | here
        · exact List.mem_cons_self
        · exact List.mem_cons_of_mem _ (ih here)
  cases e with
  | saved o => exact saved o _ known
  | traded ts => exact known
  | updated o =>
    unfold enter
    dsimp only
    split
    · exact saved o _ known
    · exact known

/-- What some orders leave of a ledger that has records of them all. -/
structure Updated (l : Ledger) (os : List Order) (l' : Ledger) : Prop where
  sound : l'.Sound
  mem : ∀ x, x ∈ l'.orders ↔ x ∈ os ∨ x ∈ l.orders ∧ x.id ∉ os.map (·.id)
  trades : l'.trades = l.trades

theorem Sound.update (h : l.Sound) (os : List Order) (distinct : (os.map (·.id)).Nodup)
    (known : ∀ o ∈ os, o.id ∈ l.orders.map (·.id)) :
    Updated l os ((os.map .updated).foldl enter l) := by
  induction os generalizing l with
  | nil => exact ⟨h, by simp, rfl⟩
  | cons o os ih =>
    have parts := List.nodup_cons.mp distinct
    have others : ∀ y ∈ os, y.id ≠ o.id := fun y hy same => parts.1 (List.mem_map.mpr ⟨y, hy, same⟩)
    have known' : ∀ y ∈ os, y.id ∈ (l.save o).orders.map (·.id) := by
      intro y hy
      obtain ⟨z, hz, same⟩ := List.mem_map.mp (known y (List.mem_cons_of_mem _ hy))
      have there := (h.mem_save (o := o) z).mpr (.inr ⟨hz, same ▸ others y hy⟩)
      exact List.mem_map.mpr ⟨z, there, same⟩
    obtain ⟨sound, mem, trades⟩ := ih (h.save o) parts.2 known'
    rw [List.map_cons, List.foldl_cons, enter_updated (known o List.mem_cons_self)]
    refine ⟨sound, fun x => ?_, trades⟩
    rw [mem, h.mem_save, List.map_cons, List.mem_cons, List.mem_cons, not_or]
    constructor
    · rintro (hx | ⟨rfl | ⟨hx, ne⟩, fresh⟩)
      · exact .inl (.inr hx)
      · exact .inl (.inl rfl)
      · exact .inr ⟨hx, ne, fresh⟩
    · rintro ((rfl | hx) | ⟨hx, ne, fresh⟩)
      · exact .inr ⟨.inl rfl, parts.1⟩
      · exact .inl hx
      · exact .inr ⟨.inr ⟨hx, ne⟩, fresh⟩

end Ledger

namespace Store

variable {s : Store}

/-- No call fails. -/
def Calm (s : Store) : Prop := s.outage = Outage.none

theorem Calm.call {α : Type} (h : s.Calm) (op : Operation)
    (act : Ledger → Except StoreError (Ledger × α)) :
    s.call op act =
      match act s.ledger with
      | .ok (ledger, a) => ({ s with ledger, calls := s.calls + 1 }, .ok a)
      | .error e => ({ s with calls := s.calls + 1 }, .error e) := by
  have quiet : s.outage op s.calls = none := by rw [h]; rfl
  unfold Store.call
  simp only [quiet]
  cases act s.ledger <;> rfl

theorem Calm.enter (h : s.Calm) (e : Entry) :
    (s.enter e).Calm ∧ (s.enter e).ledger = s.ledger.enter e := by
  cases e with
  | saved o =>
    rw [Store.enter, saveOrder, h.call]
    exact ⟨h, rfl⟩
  | traded ts =>
    rw [Store.enter, saveTrades, h.call]
    exact ⟨h, rfl⟩
  | updated o =>
    rw [Store.enter, updateOrder, h.call, Ledger.enter, Ledger.update]
    by_cases known : (s.ledger.get? o.id).isSome = true
    · simp only [if_pos known]
      exact ⟨h, rfl⟩
    · simp only [if_neg known]
      exact ⟨h, rfl⟩

theorem Calm.record (h : s.Calm) (es : List Entry) :
    (s.record es).Calm ∧ (s.record es).ledger = es.foldl Ledger.enter s.ledger := by
  induction es generalizing s with
  | nil => exact ⟨h, rfl⟩
  | cons e es ih =>
    obtain ⟨calm, ledger⟩ := h.enter e
    have rest := ih calm
    rw [ledger] at rest
    exact rest

def answer (s : Store) : Entry → Except StoreError Unit
  | .saved o => (s.saveOrder o).2
  | .updated o => (s.updateOrder o).2
  | .traded ts => (s.saveTrades ts).2

/-- None of the entries fails, each of them made after those before it. -/
def Accepts : Store → List Entry → Prop
  | _, [] => True
  | s, e :: es => s.answer e = .ok () ∧ (s.enter e).Accepts es

theorem Calm.accepts {es : List Entry} (h : s.Calm)
    (known : ∀ o, .updated o ∈ es → o.id ∈ s.ledger.orders.map (·.id)) : s.Accepts es := by
  induction es generalizing s with
  | nil => trivial
  | cons e es ih =>
    obtain ⟨calm, ledger⟩ := h.enter e
    constructor
    · cases e with
      | saved o => rw [answer, saveOrder, h.call]
      | traded ts => rw [answer, saveTrades, h.call]
      | updated o =>
        have there := Ledger.get?_isSome (known o List.mem_cons_self)
        rw [answer, updateOrder, h.call, Ledger.update, if_pos there]
        rfl
    · apply ih calm
      intro o ho
      rw [ledger]
      -- No entry takes a record away.
      exact Ledger.ids_enter (known o (List.mem_cons_of_mem _ ho)) e

end Store
end Bourse
