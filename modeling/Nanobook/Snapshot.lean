import Nanobook.Invariant.Backed

/-!
# Snapshots

`snapshot.rs`: the best levels of each side as market data, each with its price, its cached total
and the number of orders queued there.  The derived values (spread, mid price, imbalance) are read
off a snapshot and are left out.
-/

namespace Nanobook

structure LevelSnapshot where
  price : Price
  quantity : Quantity
  orderCount : Nat
deriving DecidableEq, Repr

structure BookSnapshot where
  bids : List LevelSnapshot
  asks : List LevelSnapshot
  timestamp : Timestamp
deriving DecidableEq, Repr

namespace Level

/-- `order_count`: the slots of the queue that are not counted as tombstones. -/
def orderCount (l : Level) : Nat := l.orders.length - l.tombstoneCount

/-- With an exact tally, it is the number of live ids. -/
theorem orderCount_eq {l : Level} (h : l.Tallied) : l.orderCount = l.iter.length := by
  have hlive : l.iter.length = l.orders.countP fun id ↦ decide ¬(id == 0) = true := by
    rw [iter, ← List.countP_eq_length_filter]
    exact List.countP_congr fun id _ ↦ by simp
  have hlen := List.length_eq_countP_add_countP (fun id ↦ id == 0) (l := l.orders)
  rw [← hlive] at hlen
  rw [orderCount, h, List.count, hlen]
  exact Nat.add_sub_cancel_left _ _

end Level

/-- `snapshot_levels`. -/
def snapshotLevels (levels : PriceLevels) (depth : Nat) : List LevelSnapshot :=
  (levels.bestToWorst.take depth).map fun e ↦ ⟨e.1, e.2.totalQuantity, e.2.orderCount⟩

/-- What a snapshot says of a level read as the list of orders queued there. -/
def RestingLevel.snapshot (level : RestingLevel) : LevelSnapshot :=
  ⟨level.price, level.total, level.queue.length⟩

namespace OrderBook

/-- The timestamp is the next order id. -/
def snapshot (b : OrderBook) (depth : Nat) : BookSnapshot :=
  ⟨snapshotLevels b.bids depth, snapshotLevels b.asks depth, b.nextOrderId⟩

variable {b : OrderBook} {s : Side}

/-- On a stocked side every live id stands for an order. -/
theorem Stocked.length_ordersOf (h : b.Stocked s) {p : Price} {l : Level}
    (hl : b.level s p = some l) : (ordersOf b.orders l.iter).length = l.iter.length := by
  refine List.filterMap_length_eq_length.mpr fun id hid ↦ ?_
  obtain ⟨o, ho, -⟩ := (h.level p l hl).order id hid
  rw [ho]
  rfl

/-- A snapshot of a stocked side shows the resting orders. -/
theorem Stocked.snapshotLevels_eq (h : b.Stocked s) (hw : b.WF) (depth : Nat) :
    snapshotLevels (b.side s) depth = ((b.resting s).take depth).map RestingLevel.snapshot := by
  rw [snapshotLevels, resting, ← List.map_take, List.map_map]
  refine List.map_congr_left fun e he ↦ ?_
  have hl : b.level s e.1 = some e.2 :=
    PriceLevels.mem_bestToWorst.mp (List.mem_of_mem_take he)
  obtain ⟨-, htally, -⟩ := hw.level s e.1 e.2 hl
  simp only [Function.comp_apply, RestingLevel.snapshot, Level.orderCount_eq htally,
    h.length_ordersOf hl]

end OrderBook

namespace Exchange

/-- The best `levels` levels on each side. -/
def depth (ex : Exchange) (levels : Nat) : BookSnapshot := ex.book.snapshot levels

end Exchange

end Nanobook
