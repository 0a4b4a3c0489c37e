import Bourse.Proofs.Engine.Counters
import Bourse.Proofs.Engine.Quantities
import Bourse.Proofs.Engine.Uncrossed

/-! Depth. The totals that levels keep and the order in which they stand make a depth what it would
be if it were reckoned anew from the orders at rest. -/
namespace Bourse

/-- What some orders come to at a price. -/
def aggregate (os : List Order) (price : Price) : DepthLevel :=
  ⟨price, restingAt price os, (os.filter (·.price == price)).length⟩

theorem aggregate_perm {os os' : List Order} (perm : os.Perm os') :
    aggregate os = aggregate os' := by
  funext price
  rw [aggregate, aggregate, restingAt_perm perm, (perm.filter _).length_eq]

/-- What a depth shows of a side that has some orders: the distinct prices of these, of which
`before` holds as they follow each other, each with what the orders come to there. -/
structure Shown (before : Price → Price → Prop) (os : List Order) (ps : List Price)
    (shown : Nat → List DepthLevel) : Prop where
  ordered : ps.Pairwise before
  mem : ∀ p, p ∈ ps ↔ ∃ o ∈ os, o.price = p
  levels : ∀ limit, shown limit = (ps.take limit).map (aggregate os)

namespace Ladder

variable {side : Side} {ls : List Level} {x : Level} {l : Ladder}

theorem Ranked.queue_at (h : Ranked side ls) (here : x ∈ ls) :
    (queued ls).filter (·.price == x.price) = x.queue := by
  rcases h.level x.price with ⟨none, -⟩ | ⟨y, found, price, -, queue⟩
  · simpa using List.find?_eq_none.mp none x here
  · have same : y = x :=
      List.inj_on_of_nodup_map h.prices (List.mem_of_find?_eq_some found) here price
    rw [queue, same]

/-- A level is summed up as its orders are. -/
theorem Ranked.summary (h : Ranked side ls) (here : x ∈ ls) :
    x.summary = aggregate (queued ls) x.price := by
  rw [Level.summary, aggregate, restingAt, h.queue_at here, (h.of_mem here).1.total]

theorem Ranked.mem_prices (h : Ranked side ls) (p : Price) :
    p ∈ ls.map (·.price) ↔ ∃ o ∈ queued ls, o.price = p := by
  rw [List.mem_map]
  constructor
  · rintro ⟨x, hx, rfl⟩
    obtain ⟨sound, occupied⟩ := h.of_mem hx
    obtain ⟨o, os, queue⟩ := List.exists_cons_of_ne_nil occupied
    have first : o ∈ x.queue := queue ▸ List.mem_cons_self
    exact ⟨o, List.mem_flatMap.mpr ⟨x, hx, first⟩, (sound.own o first).2⟩
  · rintro ⟨o, ho, rfl⟩
    obtain ⟨x, hx, mine⟩ := List.mem_flatMap.mp ho
    exact ⟨x, hx, ((h.of_mem hx).1.own o mine).2.symm⟩

theorem Sound.shown (h : l.Sound side) : Shown (fun p q => side.better p q = true) l.orders
    (l.levels.map (·.price)) fun limit => (l.levels.take limit).map Level.summary where
  ordered := List.pairwise_map.mpr h.ranked.ordered
  mem := h.ranked.mem_prices
  levels limit := by
    rw [← List.map_take, List.map_map]
    exact List.map_congr_left fun x hx => h.ranked.summary (List.mem_of_mem_take hx)

/-- Where all levels are shown, so are all orders. -/
theorem Sound.shown_all (h : l.Sound side) {limit : Nat} (all : l.levels.length ≤ limit) :
    sumOf (·.orders) ((l.levels.take limit).map Level.summary) = l.orders.length ∧
      sumOf (·.quantity) ((l.levels.take limit).map Level.summary) =
        sumOf Order.quantity l.orders := by
  rw [List.take_of_length_le all, sumOf_map, sumOf_map, ← orderCount_eq, ← h.total_eq]
  exact ⟨rfl, rfl⟩

theorem Sound.shown_best (h : l.Sound side) {limit : Nat} (positive : 0 < limit) :
    (((l.levels.take limit).map Level.summary).head?).map (·.price) =
      l.orders.head?.map (·.price) := by
  have best := h.bestPrice
  rw [Ladder.bestPrice, h.bestLevel] at best
  rw [← Except.ok.inj best, List.head?_map, List.head?_take, if_neg (Nat.ne_of_gt positive),
    Option.map_map]
  rfl

end Ladder

theorem Book.Sound.size {b : Book} (h : b.Sound) : b.size = b.orders.length := by
  rw [Book.size, h.index.length_eq, List.length_map]

namespace Engine

/-- What depths show of one side of a book, and how that goes with the book itself. -/
structure SideShown (b : Book) (side : Side) (before : Price → Price → Prop)
    (shown : Nat → Instant → List DepthLevel) : Prop where
  levels : ∃ ps, ps.length = b.levelCount side ∧
    ∀ now, Shown before (b.orders.filter (·.side == side)) ps (shown · now)
  more : ∀ {n m : Nat} (now later : Instant), n ≤ m → shown n now <+: shown m later
  quantity : ∀ {n : Nat} (now : Instant), b.levelCount side ≤ n →
    sumOf (·.quantity) (shown n now) = sumOf Order.quantity (b.orders.filter (·.side == side))
  best : ∀ {n : Nat} (now : Instant), 0 < n → ∃ head, b.best side = .ok head ∧
    b.bestPrice side = .ok (head.map (·.price)) ∧
    (shown n now).head?.map (·.price) = head.map (·.price)

/-- Depths show what rests, and tell of it what the book does. -/
structure DepthsShow (b : Book) : Prop where
  bids : SideShown b .buy (fun p q => q < p) fun n now => (b.depth n now).bids
  asks : SideShown b .sell (fun p q => p < q) fun n now => (b.depth n now).asks
  orders : ∀ {n : Nat} (now : Instant), b.levelCount .buy ≤ n → b.levelCount .sell ≤ n →
    sumOf (·.orders) (b.depth n now).bids + sumOf (·.orders) (b.depth n now).asks = b.size
  best : ∀ {n : Nat} (now : Instant), 0 < n →
    b.bestPrice .buy = .ok (b.depth n now).bestBid ∧
    b.bestPrice .sell = .ok (b.depth n now).bestAsk ∧
    b.spread = (b.depth n now).spread.mapError Fault.overflow

theorem sideShown {b : Book} (h : b.Sound) (side : Side) {before : Price → Price → Prop}
    (better : ∀ p q, side.better p q = true → before p q) : SideShown b side before
      fun limit _ => ((b.ladder side).levels.take limit).map Level.summary where
  levels := by
    have ladder := (h.ladders side).shown
    refine ⟨_, List.length_map _, fun _ => ⟨ladder.ordered.imp fun {p q} => better p q,
      fun p => ?_, fun limit => ?_⟩⟩
    · rw [ladder.mem]
      simp only [(h.side_perm side).mem_iff]
    · rw [aggregate_perm (h.side_perm side)]
      exact ladder.levels limit
  more _ _ less := (List.take_prefix_take_left less).map Level.summary
  quantity _ all := by
    rw [sumOf_perm _ (h.side_perm side)]
    exact ((h.ladders side).shown_all all).2
  best _ positive := ⟨_, (h.ladders side).best, (h.ladders side).bestPrice,
    (h.ladders side).shown_best positive⟩

theorem depthsShow {b : Book} (h : b.Sound) : DepthsShow b where
  bids := sideShown h .buy fun _ _ => of_decide_eq_true
  asks := sideShown h .sell fun _ _ => of_decide_eq_true
  orders now allBids allAsks := by
    have bids := ((h.ladders .buy).shown_all allBids).1
    have asks := ((h.ladders .sell).shown_all allAsks).1
    rw [h.size, Book.orders, List.length_append]
    exact congrArg₂ (· + ·) bids asks
  best {n} now positive := by
    have bid : b.bestPrice .buy = .ok (b.depth n now).bestBid :=
      (h.ladders .buy).bestPrice.trans (congrArg _ ((h.ladders .buy).shown_best positive).symm)
    have ask : b.bestPrice .sell = .ok (b.depth n now).bestAsk :=
      (h.ladders .sell).bestPrice.trans (congrArg _ ((h.ladders .sell).shown_best positive).symm)
    refine ⟨bid, ask, ?_⟩
    rw [Book.spread, ask, bid]
    rfl

/-- After any calls a depth shows of each side the distinct prices from the best one on, with what
rests there; a larger one only goes on, and one that shows all levels shows all orders. It has the
best prices and the spread of the book. The counters stay below 2 to the 64th while the calls are
modest. -/
theorem depth_shows_what_rests (ss : List Step) :
    ∃ e outs, new.run ss = .ok (e, outs) ∧ DepthsShow e.book ∧ (Modest ss → e.InRange) := by
  obtain ⟨e, outs, hok, ran⟩ := sound_new.run ss
  exact ⟨e, outs, hok, depthsShow (ran.advances sound_new).sound.book, ran.inRange⟩

end Engine
end Bourse
